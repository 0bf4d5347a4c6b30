import Linko.Http.ResponseCuts
/-!
# Bodies in chunks

Each turn of the chunk loop reads before it parses, wants the size line whole in
the buffer, and takes the last two bytes that are there for the CRLF behind the
data. So it decodes a body whose chunks arrive one in a read.
-/

namespace Linko.Http

open CString Ragel Ragel.Machine ResponseMachine

/-! ## The encoding -/

/-- A chunk: its size in hexadecimal digits, and its data. -/
structure Chunk where
  digits : Bytes
  data : Bytes
  digits_ne : digits ≠ []
  digits_hex : ∀ b ∈ digits, xdigit.has b = true
  size_eq : digitsFrom 16 0 digits = data.length

namespace Chunk

def frame (c : Chunk) : Bytes := c.digits ++ 13 :: 10 :: (c.data ++ [13, 10])

/-- The chunk of size 0 that ends the body. -/
def last : Chunk where
  digits := ascii "0"
  data := []
  digits_ne := by decide
  digits_hex := by decide +kernel
  size_eq := by decide

end Chunk

/-- The reads of a body that delivers each chunk in one. -/
def frames (cs : List Chunk) : List Bytes := (cs ++ [Chunk.last]).map Chunk.frame

/-! ## The size line -/

theorem next_digit : ∀ b, xdigit.has b = true →
    machine.next start b = some ([.mark], 2) ∧ machine.next 2 b = some ([], 2) := by decide +kernel

theorem xdigit_digit : ∀ b, xdigit.has b = true → (digitValue b).isSome := by decide +kernel

theorem stops_size (c : Chunk) : machine.Stops start (c.digits ++ [13, 10]) firstFinal
    [(0, .mark), (c.digits.length, .chunkSize), (c.digits.length + 1, .done)] := by
  have hline : machine.Stops 2 [13, 10] firstFinal [(0, .chunkSize), (1, .done)] := rfl
  obtain ⟨ds, data, hne, hhex, -⟩ := c
  cases ds with
  | nil => exact absurd rfl hne
  | cons d ds =>
    obtain ⟨hd, hds⟩ := List.forall_mem_cons.1 hhex
    have hfirst : machine.Reads start [d] 2 [(0, .mark)] := Reads.one (next_digit d hd).1 rfl
    have hrest : machine.Reads 2 ds 2 [] := Reads.loop fun b hb => (next_digit b (hds b hb)).2
    exact (hfirst.append hrest).stops hline

namespace HttpResponseParser

/-- `httpclient_parser_init`, before a call on a chunk. -/
def restart (s : HttpResponseParser) : HttpResponseParser :=
  { s with parser := httpClientParserInit s.parser.status }

/-- A call on one whole chunk. -/
theorem execute_frame (s : HttpResponseParser) (c : Chunk) (hlen : c.frame.length < 2 ^ 31) :
    ∃ s', s.execute c.frame true = .ok (s', c.digits.length + 2, c.data ++ [13, 10]) ∧ s'.error = s.error ∧
      s'.parser.cs = firstFinal ∧ s'.parser.contentLen = c.data.length ∧
        s'.parser.chunksDone = decide (c.data = []) := by
  have hdata : c.data.length < 2 ^ 31 := by
    simp only [Chunk.frame, List.length_append, List.length_cons] at hlen
    omega
  have hsize : toInt (strtol (c.frame.drop 0) 16) = c.data.length := by
    rw [List.drop_zero, Chunk.frame, strtol_hex c.digits_ne (fun d hd => xdigit_digit d (c.digits_hex d hd)) _
      (by rw [c.size_eq]; omega), c.size_eq, toInt_natCast hdata]
  have htrace : machine.trace s.restart.parser.cs c.frame = ⟨firstFinal, c.digits.length + 2, true,
      [(0, .mark), (c.digits.length, .chunkSize), (c.digits.length + 1, .done)]⟩ := by
    have hsplit : c.frame = c.digits ++ [13, 10] ++ (c.data ++ [13, 10]) := by simp [Chunk.frame]
    have hline := (stops_size c).append (c.data ++ [13, 10])
    rw [← hsplit, List.length_append] at hline
    exact hline
  have hpos : 0 < c.frame.length := by
    simp only [Chunk.frame, List.length_append, List.length_cons]
    omega
  have hdrop : c.frame.drop (c.digits.length + 2) = c.data ++ [13, 10] := by
    rw [Chunk.frame, ← List.drop_drop, List.drop_left]
    rfl
  obtain ⟨s₁, hrun, herr, hcl, hdone⟩ : ∃ s₁, runEvents (action c.frame) 0
      [(0, .mark), (c.digits.length, .chunkSize), (c.digits.length + 1, .done)]
        (s.restart.rewind c.frame.length) = .ok s₁ ∧
      s₁.error = s.error ∧ s₁.parser.contentLen = toInt (strtol (c.frame.drop 0) 16) ∧
      s₁.parser.chunksDone = decide (toInt (strtol (c.frame.drop 0) 16) ≤ 0) := ⟨_, rfl, rfl, rfl, rfl⟩
  have hex := @execute_ok s.restart s₁ c.frame hpos hlen (Nat.zero_le _) (by rw [htrace]; exact hrun)
  rw [htrace, hdrop] at hex
  refine ⟨_, hex, herr, rfl, hcl.trans hsize, hdone.trans ?_⟩
  rw [hsize]
  simp [List.length_eq_zero_iff]

end HttpResponseParser

namespace HttpConnection

/-! ## A chunk in one read -/

/-- The data of a chunk that stands in the buffer up to its last byte. -/
theorem recvChunk_whole (buffSize : Nat) (body : Bytes) (c : Chunk) (w : Wire) :
    recvChunk buffSize c.data.length body (c.data ++ [13, 10]) w = .returned (body ++ c.data, [], w) := by
  have hlen : ((c.data ++ [13, 10]).length : Int) - 2 = c.data.length := by
    rw [List.length_append, List.length_cons, List.length_cons, List.length_nil]
    omega
  have happend : append body (c.data ++ [13, 10]) c.data.length = .returned (body ++ c.data) := by
    rw [append, if_neg (by omega), Int.toNat_natCast, List.take_left]
  simp only [recvChunk, hlen, Int.le_refl, if_true, happend, Int.toNat_natCast, List.take_left,
    List.drop_length]
  rfl

/-- A chunk whole in the buffer: the read before may have delivered the
beginning of the chunk. -/
theorem chunksLoop_frame {buffSize : Nat} (hbuf : buffSize < 2 ^ 31) {parser : HttpResponseParser}
    (herr : parser.error = 0)
    (body : Bytes) {data bs : Bytes} {c : Chunk} (hframe : data ++ bs = c.frame) (hbs : bs ≠ [])
    (hm : bs.length ≤ Wire.maxRead) (hfits : c.frame.length < buffSize) (w : Wire) :
    ∃ parser', parser'.error = 0 ∧ chunksLoop buffSize parser body data (bs :: w) =
      if c.data = [] then .returned (parser', body ++ c.data, w)
      else chunksLoop buffSize parser' (body ++ c.data) [] w := by
  obtain ⟨parser', hex, herr', hcs, hlen, hdone⟩ := parser.execute_frame c (hfits.trans hbuf)
  refine ⟨parser', herr'.trans herr, ?_⟩
  have hloop : recvLoop buffSize true parser data (bs :: w) = .returned (parser', c.data ++ [13, 10], w) := by
    have hnerr : parser'.hasError = false := by
      rw [HttpResponseParser.hasError, herr', herr, hcs]
      rfl
    have hfin : parser'.isFinished = 1 := by
      rw [HttpResponseParser.isFinished, hcs]
      rfl
    have hsize : data.length + bs.length = c.frame.length := by rw [← hframe, List.length_append]
    have hshort : (c.data ++ [13, 10]).length < c.frame.length := by
      simp only [Chunk.frame, List.length_append, List.length_cons, List.length_nil]
      omega
    rw [recvLoop_step (by omega) hm (by simpa using hbs) (hframe ▸ hex) hnerr, if_neg,
      if_pos (by rw [hfin]; decide)]
    rw [toInt_natCast hbuf]
    omega
  have hchunk : recvChunk buffSize parser'.parser.contentLen body (c.data ++ [13, 10]) w =
      .returned (body ++ c.data, [], w) := by rw [hlen, recvChunk_whole]
  rw [chunksLoop_turn hloop hchunk, hdone]
  simp only [decide_eq_true_eq]

theorem frames_cons (c : Chunk) (cs : List Chunk) : frames (c :: cs) = c.frame :: frames cs := rfl

theorem frames_first (cs : List Chunk) : ∃ f fs, frames cs = f :: fs ∧ f ≠ [] := by
  cases cs with
  | nil => exact ⟨Chunk.last.frame, [], rfl, by simp [Chunk.frame]⟩
  | cons c cs => exact ⟨c.frame, frames cs, rfl, by simp [Chunk.frame]⟩

/-- The loop over the chunks, from the read that completes the first. -/
theorem chunksLoop_frames {buffSize : Nat} (hbuf : buffSize < 2 ^ 31) {cs : List Chunk}
    (hcs : ∀ c ∈ cs, c.data ≠ [])
    (hfits : ∀ f ∈ frames cs, f.length < buffSize) {data bs : Bytes} {fs : List Bytes}
    (hframes : frames cs = (data ++ bs) :: fs) (hbs : bs ≠ []) (hm : ∀ b ∈ bs :: fs, b.length ≤ Wire.maxRead)
    {parser : HttpResponseParser} (herr : parser.error = 0) (body : Bytes) :
    ∃ parser', chunksLoop buffSize parser body data (bs :: fs) =
      .returned (parser', body ++ (cs.map Chunk.data).flatten, []) := by
  have hread : bs.length ≤ Wire.maxRead := hm bs List.mem_cons_self
  induction cs generalizing data bs fs parser body with
  | nil =>
    obtain ⟨hframe, rfl⟩ := List.cons.inj hframes
    obtain ⟨parser', -, hturn⟩ :=
      chunksLoop_frame hbuf herr body hframe.symm hbs hread (hfits _ List.mem_cons_self) []
    exact ⟨parser', hturn⟩
  | cons c cs ih =>
    rw [frames_cons] at hframes hfits
    obtain ⟨hframe, rfl⟩ := List.cons.inj hframes
    obtain ⟨parser', herr', hturn⟩ := chunksLoop_frame hbuf herr body hframe.symm hbs hread
      (hfits _ List.mem_cons_self) (frames cs)
    obtain ⟨f, fs, hfirst, hf⟩ := frames_first cs
    have hrest : ∀ b ∈ f :: fs, b.length ≤ Wire.maxRead :=
      fun b hb => hm b (List.mem_cons_of_mem bs (hfirst ▸ hb))
    obtain ⟨parser'', hloop⟩ := @ih (fun e he => hcs e (List.mem_cons_of_mem c he))
      (fun g hg => hfits g (List.mem_cons_of_mem _ hg)) [] f fs hfirst hf hrest parser' herr' (body ++ c.data)
      (hrest f List.mem_cons_self)
    refine ⟨parser'', ?_⟩
    rw [hturn, if_neg (hcs c List.mem_cons_self), hfirst, hloop, List.map_cons, List.flatten_cons,
      List.append_assoc]

/-! ## A whole response -/

/-- A way for a response to arrive: reads that begin in the header block, of which
the last may hold the beginning of the first chunk, the rest of that chunk, and
each other chunk in a read of its own. -/
structure Delivery (head : Bytes) (cs : List Chunk) where
  heads : List Bytes
  first : Bytes
  rest : Bytes
  more : List Bytes
  heads_flatten : heads.flatten = head ++ first
  heads_begin : ∀ c ∈ starts 0 heads, c < head.length
  frames_eq : frames cs = (first ++ rest) :: more

def Delivery.reads {head : Bytes} {cs : List Chunk} (d : Delivery head cs) : List Bytes :=
  d.heads ++ d.rest :: d.more

/-- The reads keep to the chunks, spare the version and the names of the header
block, and no read and no chunk fills the buffer. -/
def Aligned (buffSize : Nat) (head : Bytes) (cs : List Chunk) (reads : List Bytes) : Prop :=
  (∃ d : Delivery head cs, d.reads = reads ∧ HttpResponseParser.HeadUncut head d.heads) ∧
    (∀ b ∈ reads, b.length < buffSize) ∧ ∀ f ∈ frames cs, f.length < buffSize

def chunkedOk : Bytes := ascii "HTTP/1.1 200 OK\r\nTransfer-Encoding: chunked\r\n\r\n"

def chunkAbc : Chunk where
  digits := ascii "3"
  data := ascii "abc"
  digits_ne := by decide
  digits_hex := by decide +kernel
  size_eq := by decide

def chunkDe : Chunk where
  digits := ascii "02"
  data := ascii "de"
  digits_ne := by decide
  digits_hex := by decide +kernel
  size_eq := by decide

theorem chunkedHead_ok : HttpResponseParser.ChunkedHead chunkedOk where
  accepted := ⟨_, rfl, rfl, rfl, rfl⟩
  named := by decide +kernel

/-- The first read ends in a name, the second in the data of a chunk. -/
def deliveryAbcDe : Delivery chunkedOk [chunkAbc, chunkDe] where
  heads := [ascii "HTTP/1.1 200 OK\r\nTransfer-En", ascii "coding: chunked\r\n\r\n3\r\nab"]
  first := ascii "3\r\nab"
  rest := ascii "c\r\n"
  more := [ascii "02\r\nde\r\n", ascii "0\r\n\r\n"]
  heads_flatten := by decide +kernel
  heads_begin := by decide +kernel
  frames_eq := by decide +kernel

theorem chunksLoop_waits (buffSize : Nat) (parser : HttpResponseParser) (body data : Bytes) :
    chunksLoop buffSize parser body data [] = .waiting := by
  rw [chunksLoop]
  split <;> rename_i h <;> rw [recvLoop_waits] at h <;> first | rfl | cases h

end HttpConnection

end Linko.Http

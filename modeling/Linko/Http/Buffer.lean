import Linko.Http.Connection
/-!
# The receive buffer

Where `HttpConnection::recvResponse` writes into its buffer, and what it takes
for a length. A `Turn` is one round of one of its loops; the turns of a call
follow the loops of `Linko.Http.Connection`.
-/

namespace Linko.Http.HttpConnection

open CString

inductive Turn where
  /-- A read of `rt` bytes behind `len` bytes, and what `execute` made of them,
  if it was called and came back. -/
  | header (len rt : Nat) (nparse : Option Nat)
  /-- A size line has been parsed; `len` bytes are left behind it. -/
  | chunk (len : Nat) (contentLen : Int)
  /-- A read of `rt` bytes of the rest of a chunk. -/
  | rest (rt : Nat)
  /-- A body that is not chunked. -/
  | body (offset : Nat) (length : Int)
  deriving DecidableEq, Repr

inductive Access where
  /-- `n` bytes are stored from `data + first` on. -/
  | store (first : Int) (n : Nat)
  /-- `data[i] = '\0'` -/
  | nul (i : Int)
  /-- `memmove(data, .., n)` -/
  | move (n : Int)
  /-- `n` is used as a length. -/
  | length (n : Int)
  deriving DecidableEq, Repr

def Access.ok (buffSize : Nat) : Access → Prop
  | .store first n => 0 ≤ first ∧ first + n ≤ buffSize
  | .nul i => 0 ≤ i ∧ i < buffSize
  | .move n => 0 ≤ n ∧ n ≤ buffSize
  | .length n => 0 ≤ n

/-- What a turn does to the buffer, with the `int`s of the code. -/
def Turn.accesses : Turn → List Access
  | .header len rt nparse =>
    [.length len, .store len rt, .nul (toInt ↑(len + rt)), .length (toInt ↑(len + rt))] ++
      match nparse with
      | some nparse => [.move (↑(len + rt) - nparse), .length (↑(len + rt) - nparse)]
      | none => []
  | .chunk len contentLen =>
    let len : Int := len - 2
    if contentLen ≤ len then [.length contentLen, .length (len - contentLen), .move (len - contentLen)]
    else [.length len]
  | .rest rt => [.store 0 rt, .length rt]
  | .body offset length => [.length (if length ≥ offset then offset else length)]

/-! ## The turns of a call -/

def recvLoopTurns (buffSize : Nat) (chunck : Bool) (parser : HttpResponseParser) (data : Bytes) (w : Wire) :
    List Turn :=
  match _hr : w.read (sizeSub buffSize data.length) with
  | none => []
  | some (bs, w') =>
    if _hbs : bs.length = 0 then []
    else
      match terminate buffSize (data ++ bs), parser.execute (data ++ bs) chunck with
      | .returned (), .ok (parser, nparse, data') =>
        .header data.length bs.length (some nparse) ::
          if parser.hasError then []
          else if (data'.length : Int) = toInt buffSize then []
          else if parser.isFinished ≠ 0 then []
          else recvLoopTurns buffSize chunck parser data' w'
      | _, _ => [.header data.length bs.length none]
termination_by w.size
decreasing_by exact Wire.read_size _hr _hbs

def restTurns (buffSize : Nat) (left : Int) (w : Wire) : List Turn :=
  if left ≤ 0 then []
  else
    match _hr : w.read (if left > toInt buffSize then buffSize else left.toNat) with
    | none => []
    | some (bs, w') =>
      if _hbs : bs.length = 0 then [] else .rest bs.length :: restTurns buffSize (left - bs.length) w'
termination_by w.size
decreasing_by exact Wire.read_size _hr _hbs

/-- The turns over the bytes of one chunk. A length that is negative throws. -/
def chunkTurns (buffSize : Nat) (contentLen : Int) (data : Bytes) (w : Wire) : List Turn :=
  let len : Int := data.length - 2
  .chunk data.length contentLen ::
    if contentLen ≤ len ∨ len < 0 then [] else restTurns buffSize (contentLen - len) w

def chunksTurns (buffSize : Nat) (parser : HttpResponseParser) (body data : Bytes) (w : Wire) : List Turn :=
  recvLoopTurns buffSize true parser data w ++
    match _hl : recvLoop buffSize true parser data w with
    | .returned (parser, data, w₁) =>
      chunkTurns buffSize parser.parser.contentLen data w₁ ++
        match _hc : recvChunk buffSize parser.parser.contentLen body data w₁ with
        | .returned (body, data, w₂) =>
          if parser.parser.chunksDone then [] else chunksTurns buffSize parser body data w₂
        | _ => []
    | _ => []
termination_by w.size
decreasing_by exact (recvChunk_size _hc).trans_lt (recvLoop_stream _hl).1

def turns (cfg : Config) (w : Wire) : List Turn :=
  recvLoopTurns cfg.buffSize false HttpResponseParser.new [] w ++
    match recvLoop cfg.buffSize false HttpResponseParser.new [] w with
    | .returned (parser, data, w) =>
      if parser.parser.chunked then chunksTurns cfg.buffSize parser [] data w
      else
        let length := toInt64 (parser.getContentLength cfg.lexicalCast)
        if length > 0 then [.body data.length length] else []
    | _ => []

/-- A read of a header leaves a byte for the NUL, and its end is an `int`; a
size line is followed by its CRLF, and the size is not negative. -/
def Turn.roomy (buffSize : Nat) : Turn → Prop
  | .header len rt _ => len + rt < buffSize ∧ len + rt < 2 ^ 31
  | .chunk len contentLen => 2 ≤ len ∧ 0 ≤ contentLen
  | .rest _ => True
  | .body _ _ => True

/-! ## One turn -/

theorem Wire.read_length {w w' : Wire} {cap : Nat} {bs : Bytes} (h : w.read cap = some (bs, w')) :
    bs.length ≤ cap ∧ bs.length ≤ Wire.maxRead := by
  cases w with
  | nil => cases h
  | cons b w =>
    simp only [Wire.read, Option.some.injEq, Prod.mk.injEq] at h
    obtain ⟨rfl, -⟩ := h
    have := List.length_take_le (min cap Wire.maxRead) b
    omega

/-- The parser has read no more than there is. -/
theorem execute_le {s s' : HttpResponseParser} {data data' : Bytes} {chunck : Bool} {n : Nat}
    (h : s.execute data chunck = .ok (s', n, data')) : n ≤ data.length := by
  obtain ⟨⟨t, m⟩, hrun, h⟩ := bind_ok h
  cases m with
  | none => cases h
  | some m =>
    simp only [Except.ok.injEq, Prod.mk.injEq] at h
    obtain ⟨-, rfl, -⟩ := h
    unfold HttpResponseParser.httpClientParserExecute at hrun
    simp only at hrun
    split at hrun
    · cases hrun
    · obtain ⟨⟨cs, p, u⟩, -, hrun⟩ := bind_ok hrun
      simp only at hrun
      split at hrun
      · rename_i hle
        split at hrun
        · cases hrun
          exact hle.1
        · cases hrun
      · cases hrun

/-- An `int` that has overflowed once is negative. -/
theorem toInt_nonneg {n : Nat} (h : n < 2 ^ 32) : 0 ≤ toInt n ↔ n < 2 ^ 31 := by
  simp only [toInt, BitVec.toInt_ofInt, Int.bmod]
  omega

theorem toInt_le (n : Nat) : toInt n ≤ n := by
  simp only [toInt, BitVec.toInt_ofInt, Int.bmod]
  omega

/-- The data fits into the buffer and its length is an `int`. -/
def Fits (buffSize : Nat) (data : Bytes) : Prop := data.length ≤ buffSize ∧ data.length < 2 ^ 31

theorem header_iff {buffSize len rt : Nat} {nparse : Option Nat} (hlen : len < 2 ^ 31)
    (hrt : rt ≤ Wire.maxRead) (hn : ∀ n, nparse = some n → n ≤ len + rt) :
    (∀ a ∈ (Turn.header len rt nparse).accesses, a.ok buffSize) ↔
    (Turn.header len rt nparse).roomy buffSize := by
  have hint := @toInt_nonneg (len + rt) (by rw [Wire.maxRead] at hrt; omega)
  constructor
  · intro h
    -- the NUL is the access that tells
    obtain ⟨hpos, hlt⟩ : (Access.nul (toInt ↑(len + rt))).ok buffSize := h _ (by simp [Turn.accesses])
    have hsmall := hint.1 hpos
    rw [toInt_natCast hsmall] at hlt
    exact ⟨by omega, hsmall⟩
  · rintro ⟨hroom, hsmall⟩ a ha
    simp only [Turn.accesses, toInt_natCast hsmall] at ha
    rcases List.mem_append.1 ha with ha | ha
    · simp only [List.mem_cons, List.not_mem_nil, or_false] at ha
      rcases ha with rfl | rfl | rfl | rfl <;> simp only [Access.ok] <;> omega
    · rcases nparse with _ | n
      · cases ha
      · have := hn n rfl
        simp only [List.mem_cons, List.not_mem_nil, or_false] at ha
        rcases ha with rfl | rfl <;> simp only [Access.ok] <;> omega

theorem chunk_iff {buffSize len : Nat} {contentLen : Int} (hsize : len ≤ buffSize) :
    (∀ a ∈ (Turn.chunk len contentLen).accesses, a.ok buffSize) ↔
    (Turn.chunk len contentLen).roomy buffSize := by
  simp only [Turn.accesses, Turn.roomy]
  split
  · simp only [List.mem_cons, List.not_mem_nil, or_false, forall_eq_or_imp, forall_eq, Access.ok]
    omega
  · simp only [List.mem_cons, List.not_mem_nil, or_false, forall_eq, Access.ok]
    omega

/-- What is read of the rest of a chunk is at the start of the buffer. -/
theorem restTurns_ok {buffSize : Nat} {left : Int} {w : Wire} :
    ∀ t ∈ restTurns buffSize left w, (∀ a ∈ t.accesses, a.ok buffSize) ∧ t.roomy buffSize := by
  rw [restTurns]
  split
  · intro t ht
    cases ht
  · split
    · intro t ht
      cases ht
    · rename_i bs w' hr
      split
      · intro t ht
        cases ht
      · rename_i hbs
        intro t ht
        rcases List.mem_cons.1 ht with rfl | ht
        · refine ⟨fun a ha => ?_, trivial⟩
          have hcap := (Wire.read_length hr).1
          have hint := toInt_le buffSize
          have hle : bs.length ≤ buffSize := by
            split at hcap <;> omega
          simp only [Turn.accesses, List.mem_cons, List.not_mem_nil, or_false] at ha
          rcases ha with rfl | rfl <;> simp only [Access.ok] <;> omega
        · exact restTurns_ok t ht
termination_by w.size
decreasing_by exact Wire.read_size ‹_› ‹_›

/-! ## All turns -/

/-- Every access of these turns is good exactly when every turn is. -/
def Agree (buffSize : Nat) (ts : List Turn) : Prop :=
  (∀ t ∈ ts, ∀ a ∈ t.accesses, a.ok buffSize) ↔ ∀ t ∈ ts, t.roomy buffSize

theorem agree_nil (buffSize : Nat) : Agree buffSize [] := by simp [Agree]

/-- The turns behind a bad one do not count. -/
theorem agree_append {buffSize : Nat} {ts us : List Turn} (ht : Agree buffSize ts)
    (hu : (∀ t ∈ ts, t.roomy buffSize) → Agree buffSize us) : Agree buffSize (ts ++ us) := by
  unfold Agree at *
  simp only [List.forall_mem_append]
  constructor
  · rintro ⟨h₁, h₂⟩
    have hroom := ht.1 h₁
    exact ⟨hroom, (hu hroom).1 h₂⟩
  · rintro ⟨h₁, h₂⟩
    exact ⟨ht.2 h₁, (hu h₁).2 h₂⟩

theorem agree_cons {buffSize : Nat} {t : Turn} {us : List Turn}
    (ht : (∀ a ∈ t.accesses, a.ok buffSize) ↔ t.roomy buffSize) (hu : t.roomy buffSize → Agree buffSize us) :
    Agree buffSize (t :: us) := by
  have hone : Agree buffSize [t] := by simpa [Agree] using ht
  exact agree_append hone fun h => hu (h t List.mem_cons_self)

/-- What is left in the buffer behind a roomy turn fits. -/
theorem fits_left {buffSize n : Nat} {data bs : Bytes} {chunck : Bool} {parser parser' : HttpResponseParser}
    {data' : Bytes} (hroom : data.length + bs.length < buffSize ∧ data.length + bs.length < 2 ^ 31)
    (hex : parser.execute (data ++ bs) chunck = .ok (parser', n, data')) : Fits buffSize data' := by
  rw [HttpResponseParser.execute_data hex]
  constructor
  · rw [List.length_drop, List.length_append]
    omega
  · rw [List.length_drop, List.length_append]
    omega

theorem recvLoopTurns_agree {buffSize : Nat} {chunck : Bool} {parser : HttpResponseParser} {data : Bytes}
    {w : Wire} (hfits : Fits buffSize data) : Agree buffSize (recvLoopTurns buffSize chunck parser data w) := by
  rw [recvLoopTurns]
  split
  · exact agree_nil _
  · rename_i bs w' hr
    split
    · exact agree_nil _
    · rename_i hbs
      have hrt := (Wire.read_length hr).2
      split
      · rename_i parser' n data' hterm hex
        have hn : ∀ m, some n = some m → m ≤ data.length + bs.length := by
          rintro m ⟨⟩
          rw [← List.length_append]
          exact execute_le hex
        refine agree_cons (header_iff hfits.2 hrt hn) fun hroom => ?_
        split
        · exact agree_nil _
        · split
          · exact agree_nil _
          · split
            · exact agree_nil _
            · exact recvLoopTurns_agree (fits_left hroom hex)
      · exact agree_cons (header_iff hfits.2 hrt fun m hm => by cases hm) fun _ => agree_nil _
termination_by w.size
decreasing_by exact Wire.read_size ‹_› ‹_›

section

variable {buffSize n : Nat} {chunck : Bool} {parser parser' : HttpResponseParser}
  {data data' bs : Bytes} {w w' : Wire}

/-- A read that brings bytes makes a turn. -/
theorem recvLoopTurns_head (chunck : Bool) (parser : HttpResponseParser)
    (hr : w.read (sizeSub buffSize data.length) = some (bs, w')) (hbs : bs.length ≠ 0) :
    ∃ nparse us, recvLoopTurns buffSize chunck parser data w = .header data.length bs.length nparse :: us := by
  rw [recvLoopTurns]
  split
  · rename_i h
    rw [hr] at h
    cases h
  · rename_i bs₁ w₁ h
    rw [hr, Option.some.injEq, Prod.mk.injEq] at h
    obtain ⟨rfl, rfl⟩ := h
    rw [dif_neg hbs]
    split
    · exact ⟨_, _, rfl⟩
    · exact ⟨_, _, rfl⟩

theorem recvLoopTurns_turn (hr : w.read (sizeSub buffSize data.length) = some (bs, w')) (hbs : bs.length ≠ 0)
    (hroom : data.length + bs.length < buffSize)
    (hex : parser.execute (data ++ bs) chunck = .ok (parser', n, data')) :
    recvLoopTurns buffSize chunck parser data w = .header data.length bs.length (some n) ::
      if parser'.hasError then []
      else if (data'.length : Int) = toInt buffSize then []
      else if parser'.isFinished ≠ 0 then []
      else recvLoopTurns buffSize chunck parser' data' w' := by
  have hterm : terminate buffSize (data ++ bs) = .returned () := by
    rw [terminate, List.length_append, if_pos hroom]
  rw [recvLoopTurns]
  split
  · rename_i h
    rw [hr] at h
    cases h
  · rename_i bs₁ w₁ h
    rw [hr, Option.some.injEq, Prod.mk.injEq] at h
    obtain ⟨rfl, rfl⟩ := h
    simp only [hbs, dite_false, hterm, hex]

theorem recvLoop_turn (hr : w.read (sizeSub buffSize data.length) = some (bs, w')) (hbs : bs.length ≠ 0)
    (hroom : data.length + bs.length < buffSize)
    (hex : parser.execute (data ++ bs) chunck = .ok (parser', n, data')) :
    recvLoop buffSize chunck parser data w =
      if parser'.hasError then .closed
      else if (data'.length : Int) = toInt buffSize then .closed
      else if parser'.isFinished ≠ 0 then .returned (parser', data', w')
      else recvLoop buffSize chunck parser' data' w' := by
  have hterm : terminate buffSize (data ++ bs) = .returned () := by
    rw [terminate, List.length_append, if_pos hroom]
  rw [recvLoop]
  split
  · rename_i h
    rw [hr] at h
    cases h
  · rename_i bs₁ w₁ h
    rw [hr, Option.some.injEq, Prod.mk.injEq] at h
    obtain ⟨rfl, rfl⟩ := h
    simp only [hbs, dite_false, hterm, hex]
    rfl

end

/-- What the loop leaves behind roomy turns fits. -/
theorem recvLoop_fits {buffSize : Nat} {chunck : Bool} {parser parser' : HttpResponseParser}
    {data data' : Bytes}
    {w w' : Wire} (hroom : ∀ t ∈ recvLoopTurns buffSize chunck parser data w, t.roomy buffSize)
    (h : recvLoop buffSize chunck parser data w = .returned (parser', data', w')) : Fits buffSize data' := by
  obtain ⟨bs, w₁, parser₁, n, data₁, hr, hbs, hex, -⟩ := recvLoop_returned h
  obtain ⟨nparse, us, hhead⟩ := recvLoopTurns_head chunck parser hr hbs
  have hroomy : (Turn.header data.length bs.length nparse).roomy buffSize := by
    apply hroom
    rw [hhead]
    exact List.mem_cons_self
  have hfirst : data.length + bs.length < buffSize ∧ data.length + bs.length < 2 ^ 31 := hroomy
  -- the loop and its turns take the same branches
  rw [recvLoop_turn hr hbs hfirst.1 hex] at h
  rw [recvLoopTurns_turn hr hbs hfirst.1 hex] at hroom
  split at h
  · cases h
  · rename_i herr
    split at h
    · cases h
    · rename_i hfull
      split at h
      · simp only [Recv.returned.injEq, Prod.mk.injEq] at h
        rw [← h.2.1]
        exact fits_left hfirst hex
      · rename_i hgo
        rw [if_neg herr, if_neg hfull, if_neg hgo] at hroom
        exact recvLoop_fits (fun t ht => hroom t (List.mem_cons_of_mem _ ht)) h
termination_by w.size
decreasing_by exact Wire.read_size hr hbs

theorem chunkTurns_agree {buffSize : Nat} {contentLen : Int} {data : Bytes} {w : Wire}
    (hfits : Fits buffSize data) : Agree buffSize (chunkTurns buffSize contentLen data w) := by
  refine agree_cons (chunk_iff hfits.1) fun _ => ?_
  split
  · exact agree_nil _
  · exact ⟨fun _ t ht => (restTurns_ok t ht).2, fun _ t ht => (restTurns_ok t ht).1⟩

theorem recvChunk_fits {buffSize : Nat} {contentLen : Int} {body data body' data' : Bytes} {w w' : Wire}
    (hfits : Fits buffSize data)
    (h : recvChunk buffSize contentLen body data w = .returned (body', data', w')) : Fits buffSize data' := by
  have hle : data'.length ≤ data.length := by
    simp only [recvChunk] at h
    split at h
    · obtain ⟨b, -, h⟩ := Recv.bind_returned h
      simp only [Recv.returned.injEq, Prod.mk.injEq] at h
      rw [← h.2.1, List.length_drop, List.length_take]
      omega
    · obtain ⟨b, -, h⟩ := Recv.bind_returned h
      obtain ⟨r, -, h⟩ := Recv.bind_returned h
      simp only [Recv.returned.injEq, Prod.mk.injEq] at h
      rw [← h.2.1]
      exact Nat.zero_le _
  exact ⟨hle.trans hfits.1, hle.trans_lt hfits.2⟩

theorem chunksTurns_agree {buffSize : Nat} {parser : HttpResponseParser} {body data : Bytes} {w : Wire}
    (hfits : Fits buffSize data) : Agree buffSize (chunksTurns buffSize parser body data w) := by
  rw [chunksTurns]
  refine agree_append (recvLoopTurns_agree hfits) fun hroom => ?_
  split
  · rename_i parser₁ data₁ w₁ hl
    have hfits₁ := recvLoop_fits hroom hl
    refine agree_append (chunkTurns_agree hfits₁) fun _ => ?_
    split
    · rename_i body₂ data₂ w₂ hc
      split
      · exact agree_nil _
      · exact chunksTurns_agree (recvChunk_fits hfits₁ hc)
    · exact agree_nil _
  · exact agree_nil _
termination_by w.size
decreasing_by exact (recvChunk_size ‹_›).trans_lt (recvLoop_stream ‹_›).1

end Linko.Http.HttpConnection

import Linko.Http.Stream
import Linko.Http.ResponseParser
/-!
# Receiving responses

`HttpConnection::recvResponse`: the header block, and then a body of known
length or one in chunks. `data` is always the part of the buffer that counts,
so `len` and `offset` of the code are its length.
-/

namespace Linko.Http

open CString

namespace HttpConnection

/-- `data[len] = '\0'`, which needs a byte behind the data. -/
def terminate (buffSize : Nat) (data : Bytes) : Recv Unit :=
  if data.length < buffSize then .returned () else .fault .outOfBounds

/-- The loop that reads until the parser has finished: over the header block,
and with `chunck` over the size line of a chunk. It always reads before it
looks at what is left in the buffer. -/
def recvLoop (buffSize : Nat) (chunck : Bool) (parser : HttpResponseParser) (data : Bytes) (w : Wire) :
    Recv (HttpResponseParser × Bytes × Wire) :=
  match _hr : w.read (sizeSub buffSize data.length) with
  | none => .waiting
  | some (bs, w') =>
    if _hbs : bs.length = 0 then .closed
    else do
      terminate buffSize (data ++ bs)
      match parser.execute (data ++ bs) chunck with
      | .error f => .fault f
      | .ok (parser, _nparse, data) =>
        if parser.hasError then .closed
        else if (data.length : Int) = toInt buffSize then .closed
        else if parser.isFinished ≠ 0 then .returned (parser, data, w')
        else recvLoop buffSize chunck parser data w'
termination_by w.size
decreasing_by exact Wire.read_size _hr _hbs

/-- The inner loop that reads the rest of a chunk straight into the body. -/
def restLoop (buffSize : Nat) (left : Int) (body : Bytes) (w : Wire) : Recv (Bytes × Wire) :=
  if left ≤ 0 then .returned (body, w)
  else
    match _hr : w.read (if left > toInt buffSize then buffSize else left.toNat) with
    | none => .waiting
    | some (bs, w') =>
      if _hbs : bs.length = 0 then .closed
      else restLoop buffSize (left - bs.length) (body ++ bs) w'
termination_by w.size
decreasing_by exact Wire.read_size _hr _hbs

/-- `body.append(data, n)`: a negative `n` becomes a huge `size_t`. -/
def append (body data : Bytes) (n : Int) : Recv Bytes :=
  if n < 0 then .fault .lengthError else .returned (body ++ data.take n.toNat)

/-- The bytes of one chunk, once its size line has been parsed: `len -= 2`
stands for the CRLF behind the data. -/
def recvChunk (buffSize : Nat) (contentLen : Int) (body data : Bytes) (w : Wire) :
    Recv (Bytes × Bytes × Wire) := do
  let len : Int := data.length - 2
  if contentLen ≤ len then
    let body ← append body data contentLen
    .returned (body, (data.take len.toNat).drop contentLen.toNat, w)
  else
    let body ← append body data len
    let (body, w) ← restLoop buffSize (contentLen - len) body w
    .returned (body, [], w)

/-- A turn that does not fill the buffer and in which the parser goes on without
an error. -/
theorem recvLoop_step {buffSize nparse : Nat} {chunck : Bool} {parser parser' : HttpResponseParser}
    {data data' bs : Bytes} {w : Wire} (hsize : data.length + bs.length < buffSize)
    (hm : bs.length ≤ Wire.maxRead)
    (hbs : bs.length ≠ 0) (hex : parser.execute (data ++ bs) chunck = .ok (parser', nparse, data'))
    (herr : parser'.hasError = false) :
    recvLoop buffSize chunck parser data (bs :: w) =
      if (data'.length : Int) = toInt buffSize then .closed
      else if parser'.isFinished ≠ 0 then .returned (parser', data', w)
      else recvLoop buffSize chunck parser' data' w := by
  have hr : Wire.read (bs :: w) (sizeSub buffSize data.length) = some (bs, w) :=
    Wire.read_whole (by rw [sizeSub, if_pos (by omega)]; omega) hm
  have hterm : terminate buffSize (data ++ bs) = .returned () := by
    rw [terminate, List.length_append, if_pos hsize]
  rw [recvLoop]
  split
  · rename_i h
    rw [hr] at h
    cases h
  · rename_i bs₁ w₁ h
    rw [hr, Option.some.injEq, Prod.mk.injEq] at h
    obtain ⟨rfl, rfl⟩ := h
    simp only [hbs, dite_false, hterm, hex]
    show (if parser'.hasError then _ else _) = _
    rw [herr, if_neg (by decide)]

theorem recvLoop_waits (buffSize : Nat) (chunck : Bool) (parser : HttpResponseParser) (data : Bytes) :
    recvLoop buffSize chunck parser data [] = .waiting := by
  rw [recvLoop]
  rfl

/-- A loop that returns: its first turn, and what comes after it. -/
theorem recvLoop_returned {buffSize : Nat} {chunck : Bool} {parser : HttpResponseParser}
    {data : Bytes} {w : Wire}
    {r : HttpResponseParser × Bytes × Wire} (h : recvLoop buffSize chunck parser data w = .returned r) :
    ∃ bs w₁ parser₁ n data₁, w.read (sizeSub buffSize data.length) = some (bs, w₁) ∧ bs.length ≠ 0 ∧
      parser.execute (data ++ bs) chunck = .ok (parser₁, n, data₁) ∧
      (r = (parser₁, data₁, w₁) ∨ recvLoop buffSize chunck parser₁ data₁ w₁ = .returned r) := by
  rw [recvLoop] at h
  split at h
  · cases h
  · rename_i bs w₁ hr
    split at h
    · cases h
    · rename_i hbs
      obtain ⟨-, -, h⟩ := Recv.bind_returned h
      split at h
      · cases h
      · rename_i parser₁ n data₁ hex
        refine ⟨bs, w₁, parser₁, n, data₁, hr, hbs, hex, ?_⟩
        split at h
        · cases h
        · split at h
          · cases h
          · split at h
            · exact .inl (Recv.returned.inj h).symm
            · exact .inr h

/-- What the loop leaves in the buffer and the stream is what is behind the
bytes it has parsed. -/
theorem recvLoop_stream {buffSize : Nat} {chunck : Bool} {parser parser' : HttpResponseParser}
    {data data' : Bytes}
    {w w' : Wire} (h : recvLoop buffSize chunck parser data w = .returned (parser', data', w')) :
    w'.size < w.size ∧ ∃ header, data ++ w.flatten = header ++ (data' ++ w'.flatten) := by
  obtain ⟨bs, w₁, parser₁, n, data₁, hr, hbs, hex, hnext⟩ := recvLoop_returned h
  have hlt := Wire.read_size hr hbs
  have hsplit : data ++ w.flatten = (data ++ bs).take n ++ (data₁ ++ w₁.flatten) := by
    rw [HttpResponseParser.execute_data hex, ← List.append_assoc, List.take_append_drop, List.append_assoc,
      Wire.read_flatten hr]
  rcases hnext with hret | hloop
  · simp only [Prod.mk.injEq] at hret
    obtain ⟨-, rfl, rfl⟩ := hret
    exact ⟨hlt, _, hsplit⟩
  · obtain ⟨hlt', header, hheader⟩ := recvLoop_stream hloop
    exact ⟨hlt'.trans hlt, (data ++ bs).take n ++ header, by rw [hsplit, hheader, List.append_assoc]⟩
termination_by w.size

theorem restLoop_size {buffSize : Nat} {left : Int} {body body' : Bytes} {w w' : Wire}
    (h : restLoop buffSize left body w = .returned (body', w')) : w'.size ≤ w.size := by
  rw [restLoop] at h
  split at h
  · simp only [Recv.returned.injEq, Prod.mk.injEq] at h
    rw [h.2]
  · split at h
    · cases h
    · rename_i bs w₁ hr
      split at h
      · cases h
      · rename_i hbs
        have hlt := Wire.read_size hr hbs
        exact (restLoop_size h).trans hlt.le
termination_by w.size

theorem recvChunk_size {buffSize : Nat} {contentLen : Int} {body data body' data' : Bytes} {w w' : Wire}
    (h : recvChunk buffSize contentLen body data w = .returned (body', data', w')) : w'.size ≤ w.size := by
  simp only [recvChunk] at h
  split at h
  · obtain ⟨b, -, h⟩ := Recv.bind_returned h
    simp only [Recv.returned.injEq, Prod.mk.injEq] at h
    rw [h.2.2]
  · obtain ⟨b, -, h⟩ := Recv.bind_returned h
    obtain ⟨⟨b', w₁⟩, hrest, h⟩ := Recv.bind_returned h
    simp only [Recv.returned.injEq, Prod.mk.injEq] at h
    rw [← h.2.2]
    exact restLoop_size hrest

/-- The loop over the chunks. -/
def chunksLoop (buffSize : Nat) (parser : HttpResponseParser) (body data : Bytes) (w : Wire) :
    Recv (HttpResponseParser × Bytes × Wire) :=
  match _hl : recvLoop buffSize true parser data w with
  | .returned (parser, data, w₁) =>
    match _hc : recvChunk buffSize parser.parser.contentLen body data w₁ with
    | .returned (body, data, w₂) =>
      if parser.parser.chunksDone then .returned (parser, body, w₂) else chunksLoop buffSize parser body data w₂
    | .closed => .closed
    | .waiting => .waiting
    | .fault f => .fault f
  | .closed => .closed
  | .waiting => .waiting
  | .fault f => .fault f
termination_by w.size
decreasing_by exact (recvChunk_size _hc).trans_lt (recvLoop_stream _hl).1

/-- A turn of the loop over the chunks. -/
theorem chunksLoop_turn {buffSize : Nat} {parser parser₁ : HttpResponseParser}
    {body data body₁ data₁ data₂ : Bytes}
    {w w₁ w₂ : Wire} (hl : recvLoop buffSize true parser data w = .returned (parser₁, data₁, w₁))
    (hc : recvChunk buffSize parser₁.parser.contentLen body data₁ w₁ = .returned (body₁, data₂, w₂)) :
    chunksLoop buffSize parser body data w =
      if parser₁.parser.chunksDone then .returned (parser₁, body₁, w₂)
      else chunksLoop buffSize parser₁ body₁ data₂ w₂ := by
  rw [chunksLoop]
  split <;> rename_i h₁ <;> rw [hl] at h₁
  · rw [Recv.returned.injEq, Prod.mk.injEq, Prod.mk.injEq] at h₁
    obtain ⟨rfl, rfl, rfl⟩ := h₁
    split <;> rename_i h₂ <;> rw [hc] at h₂
    · rw [Recv.returned.injEq, Prod.mk.injEq, Prod.mk.injEq] at h₂
      obtain ⟨rfl, rfl, rfl⟩ := h₂
      rfl
    all_goals cases h₂
  all_goals cases h₁

def recvResponse (cfg : Config) (w : Wire) : Recv (HttpResponse × Wire) := do
  let (parser, data, w) ← recvLoop cfg.buffSize false HttpResponseParser.new [] w
  if parser.parser.chunked then
    let (parser, body, w) ← chunksLoop cfg.buffSize parser [] data w
    .returned ({ parser.data with body := body }, w)
  else
    let length := toInt64 (parser.getContentLength cfg.lexicalCast)
    if length > 0 then
      let (body, w) ← recvBody cfg.readFixSize length data w
      .returned ({ parser.data with body := body }, w)
    else .returned (parser.data, w)

end HttpConnection

end Linko.Http

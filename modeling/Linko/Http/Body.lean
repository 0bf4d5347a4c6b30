import Linko.Http.Session
import Linko.Http.Connection
/-!
# Bodies of known length

What `recvBody` makes of a `Content-Length`: `body.resize(length)` fills the
body with zero bytes and the buffered bytes are appended behind them, so the
body is right only when nothing was buffered.
-/

namespace Linko.Http

open CString Blocks

/-- The body that a length of `n` promises: the next `n` bytes of the stream,
of which `data` is in the buffer. -/
def Framed (n : Nat) (data : Bytes) (w : Wire) (body : Bytes) : Prop :=
  body.length = n ∧ body = (data ++ w.flatten).take n

/-- The length of the assembled body. -/
theorem recvBody_length {rfs : ReadFixSize} (hfill : rfs.Fills) {n : Nat} {data body : Bytes} {w w' : Wire}
    (h : recvBody rfs n data w = .returned (body, w')) : body.length = n + min n data.length := by
  have hread := hfill w ((n : Int) - data.length).toNat
  simp only [recvBody, Int.toNat_natCast] at h
  split at h
  · rename_i hlt
    split at h
    · cases h
    · rename_i hrt
      obtain ⟨hle, hbytes⟩ := hread (Int.not_le.1 hrt)
      have hl : (rfs.run w ((n : Int) - data.length).toNat).2.1.length = n - data.length := by
        rw [hbytes, List.length_take]
        omega
      simp only [Recv.returned.injEq, Prod.mk.injEq, if_pos (show (n : Int) ≥ data.length by omega)] at h
      rw [← h.1, length_splice, List.length_append, List.length_replicate]
      · omega
      · rw [List.length_append, List.length_replicate, hl]
        omega
  · simp only [Recv.returned.injEq, Prod.mk.injEq] at h
    rw [← h.1]
    split
    · rw [List.length_append, List.length_replicate]
      omega
    · rw [List.length_append, List.length_replicate, List.length_take]

/-- With nothing buffered the body is what `readFixSize` has stored. -/
theorem recvBody_unbuffered {rfs : ReadFixSize} (hfill : rfs.Fills) {n : Nat} (hn : 0 < n) {body : Bytes}
    {w w' : Wire} (h : recvBody rfs n [] w = .returned (body, w')) : body = w.flatten.take n := by
  have hread := hfill w n
  simp only [recvBody, List.length_nil, Int.natCast_zero, Int.sub_zero, Int.toNat_natCast, List.append_nil] at h
  rw [if_pos (by omega)] at h
  split at h
  · cases h
  · rename_i hrt
    obtain ⟨hle, hbytes⟩ := hread (Int.not_le.1 hrt)
    have hl : (w.flatten.take n).length = n := by
      rw [List.length_take]
      omega
    simp only [Recv.returned.injEq, Prod.mk.injEq, if_pos (show (n : Int) ≥ 0 by omega), hbytes] at h
    rw [← h.1, splice, List.take_zero, List.nil_append, List.drop_of_length_le, List.append_nil]
    rw [List.length_replicate, hl, Nat.zero_add]

theorem recvBody_framed_iff {rfs : ReadFixSize} (hfill : rfs.Fills) {n : Nat} (hn : 0 < n) {data body : Bytes}
    {w w' : Wire} (h : recvBody rfs n data w = .returned (body, w')) :
    Framed n data w body ↔ data.length = 0 := by
  have hlen := recvBody_length hfill h
  constructor
  · intro hf
    have := hf.1
    omega
  · intro h0
    rw [List.eq_nil_of_length_eq_zero h0] at h hlen ⊢
    exact ⟨by rw [hlen]; simp, recvBody_unbuffered hfill hn h⟩

theorem toInt64_eq {n : UInt64} (h : n.toNat < 2 ^ 63) : toInt64 n = n.toNat := by
  rw [toInt64, BitVec.toInt_eq_toNat_of_lt]
  · rfl
  · show 2 * n.toNat < 2 ^ 64
    omega

/-- Of the objects that `recvRequest` and the branch of `recvResponse` without
chunks return, exactly those have the body their length promises for which no
byte was left in the buffer behind the header block. -/
theorem body_framed_iff (cfg : Config) (hfill : cfg.readFixSize.Fills) (w : Wire) (n : Nat) (hn : 0 < n)
    (hn63 : n < 2 ^ 63) (data : Bytes) (w₁ : Wire) :
    (∀ parser req w₂,
      HttpSession.recvLoop cfg.buffSize (HttpRequestParser.new cfg.uriRelaxed) [] w =
        .returned (parser, data, w₁) →
      (parser.getContentLength cfg.lexicalCast).toNat = n →
      HttpSession.recvRequest cfg w = .returned (req, w₂) →
      (∃ header, w.flatten = header ++ (data ++ w₁.flatten)) ∧ (Framed n data w₁ req.body ↔ data.length = 0)) ∧
    (∀ parser rsp w₂,
      HttpConnection.recvLoop cfg.buffSize false HttpResponseParser.new [] w = .returned (parser, data, w₁) →
      parser.parser.chunked = false → (parser.getContentLength cfg.lexicalCast).toNat = n →
      HttpConnection.recvResponse cfg w = .returned (rsp, w₂) →
      (∃ header, w.flatten = header ++ (data ++ w₁.flatten)) ∧ (Framed n data w₁ rsp.body ↔
        data.length = 0)) := by
  constructor
  · intro parser req w₂ hloop hlen hret
    have hstream := HttpSession.recvLoop_stream hloop
    have h64 := toInt64_eq (n := parser.getContentLength cfg.lexicalCast) (by rw [hlen]; exact hn63)
    refine ⟨hstream, ?_⟩
    obtain ⟨⟨p, d, u⟩, hl, hrest⟩ := Recv.bind_returned hret
    rw [hloop, Recv.returned.injEq, Prod.mk.injEq, Prod.mk.injEq] at hl
    obtain ⟨rfl, rfl, rfl⟩ := hl
    dsimp only at hrest
    rw [h64, hlen, if_pos (by omega)] at hrest
    obtain ⟨⟨body, u⟩, hbody, hreq⟩ := Recv.bind_returned hrest
    simp only [Recv.returned.injEq, Prod.mk.injEq] at hreq
    -- `keepAlive` does not touch the body
    have hb : req.body = body := by
      rw [← hreq.1, HttpSession.keepAlive]
      split <;> rfl
    rw [hb]
    exact recvBody_framed_iff hfill hn hbody
  · intro parser rsp w₂ hloop hch hlen hret
    have hstream := (HttpConnection.recvLoop_stream hloop).2
    have h64 := toInt64_eq (n := parser.getContentLength cfg.lexicalCast) (by rw [hlen]; exact hn63)
    refine ⟨hstream, ?_⟩
    obtain ⟨⟨p, d, u⟩, hl, hrest⟩ := Recv.bind_returned hret
    rw [hloop, Recv.returned.injEq, Prod.mk.injEq, Prod.mk.injEq] at hl
    obtain ⟨rfl, rfl, rfl⟩ := hl
    dsimp only at hrest
    rw [hch, if_neg (by decide), h64, hlen, if_pos (by omega)] at hrest
    obtain ⟨⟨body, u⟩, hbody, hrsp⟩ := Recv.bind_returned hrest
    simp only [Recv.returned.injEq, Prod.mk.injEq] at hrsp
    rw [← hrsp.1]
    exact recvBody_framed_iff hfill hn hbody

def postTwo : Bytes := ascii "POST / HTTP/1.1\r\ncontent-length:2\r\n\r\n"

/-- Two bytes that come with the next read are the body. -/
theorem body_framed_unbuffered :
    ∃ req w, HttpSession.recvRequest .sample [postTwo, ascii "hi"] = .returned (req, w) ∧
    Framed 2 [] [ascii "hi"] req.body := by
  obtain ⟨parser, hex, herr, hfin, hlen⟩ : ∃ parser,
      (HttpRequestParser.new false).execute postTwo = .ok (parser, postTwo.length, []) ∧
        parser.hasError = false ∧
        parser.isFinished = 1 ∧ parser.getContentLength Config.sample.lexicalCast = 2 := ⟨_, rfl, rfl, rfl, rfl⟩
  have hloop := HttpSession.recvLoop_once 4096 [ascii "hi"] (by decide) (by decide) (by decide) hex herr
    hfin (by decide)
  have hret : HttpSession.recvRequest .sample [postTwo, ascii "hi"] =
      .returned (HttpSession.keepAlive { parser.data with body := ascii "hi" }, []) := by
    show Recv.bind (HttpSession.recvLoop _ _ _ _) _ = _
    rw [show Config.sample.buffSize = 4096 from rfl, show Config.sample.uriRelaxed = false from rfl, hloop]
    show (if toInt64 (parser.getContentLength Config.sample.lexicalCast) > 0 then _ else _) = _
    rw [hlen]
    rfl
  have hframed :=
    (body_framed_iff .sample ReadFixSize.exact_fills _ 2 (by decide) (by decide) [] [ascii "hi"]).1
      parser _ _ hloop (by rw [hlen]; rfl) hret
  exact ⟨_, _, hret, hframed.2.2 rfl⟩

/-- Two bytes that come with the header block end up behind two zero bytes. -/
theorem body_framed_fails_buffered : ∃ parser req w,
    HttpSession.recvLoop 4096 (HttpRequestParser.new false) [] [postTwo ++ ascii "hi"] =
      .returned (parser, ascii "hi", []) ∧
    parser.getContentLength Config.sample.lexicalCast = 2 ∧
    HttpSession.recvRequest .sample [postTwo ++ ascii "hi"] = .returned (req, w) ∧
    req.body = [0, 0] ++ ascii "hi" ∧ ¬ Framed 2 (ascii "hi") [] req.body := by
  obtain ⟨parser, hex, herr, hfin, hlen⟩ : ∃ parser,
      (HttpRequestParser.new false).execute (postTwo ++ ascii "hi") = .ok (parser, postTwo.length, ascii "hi") ∧
        parser.hasError = false ∧ parser.isFinished = 1 ∧
          parser.getContentLength Config.sample.lexicalCast = 2 :=
    ⟨_, rfl, rfl, rfl, rfl⟩
  have hloop := HttpSession.recvLoop_once 4096 [] (by decide) (by decide) (by decide) hex herr hfin
    (by decide)
  have hret : HttpSession.recvRequest .sample [postTwo ++ ascii "hi"] =
      .returned (HttpSession.keepAlive { parser.data with body := [0, 0] ++ ascii "hi" }, []) := by
    show Recv.bind (HttpSession.recvLoop _ _ _ _) _ = _
    rw [show Config.sample.buffSize = 4096 from rfl, show Config.sample.uriRelaxed = false from rfl, hloop]
    show (if toInt64 (parser.getContentLength Config.sample.lexicalCast) > 0 then _ else _) = _
    rw [hlen]
    rfl
  have hbody : (HttpSession.keepAlive { parser.data with body := [0, 0] ++ ascii "hi" }).body =
    [0, 0] ++ ascii "hi" := by
    unfold HttpSession.keepAlive
    split <;> rfl
  refine ⟨parser, _, _, hloop, hlen, hret, hbody, fun hf => ?_⟩
  have := hf.1
  rw [hbody] at this
  exact absurd this (by decide)

end Linko.Http

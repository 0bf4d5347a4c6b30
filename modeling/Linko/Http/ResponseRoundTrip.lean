import Linko.Http.ResponseParser
/-!
# Responses read back

`HttpResponse::dump` against `HttpResponseParser`. The status line that `dump`
writes begins with a space, so the parser gives up on its first byte; the
status code, which the grammar wants next, is not written at all.
-/

namespace Linko.Http

open CString Ragel

namespace HttpResponseParser

open ResponseMachine

/-! ## The first byte -/

/-- What a text can begin with: the `HTTP/` of a status line, or the size line
of a chunk. -/
def firstByte : ByteClass := [(48, 57), (65, 70), (72, 72), (97, 102)]

theorem next_start : ∀ b, firstByte.has b = false → machine.next start b = none := by decide +kernel

/-- A text that begins with another byte is not accepted. -/
theorem rejects_first {s : HttpResponseParser} {b : UInt8} {bs rest : Bytes} {n : Nat}
    (hb : firstByte.has b = false)
    (h : new.execute (b :: bs) false = .ok (s, n, rest)) : s.hasError = true := by
  have hcs : s.parser.cs = 0 := by
    rw [(execute_run h).2.2.1]
    show (machine.trace start (b :: bs)).state = 0
    rw [Machine.trace, next_start b hb]
  rw [hasError, hcs, Bool.or_eq_true]
  exact .inr (by decide)

end HttpResponseParser

/-! ## The text of a response -/

namespace HttpResponse

/-- The responses whose parts fit the grammar. -/
structure Printable (rsp : HttpResponse) : Prop where
  version : rsp.version = 0x11 ∨ rsp.version = 0x10
  status : rsp.status ∈ httpStatusMap.map (·.1)
  reason : ∀ b ∈ rsp.reason, b ≠ 13 ∧ b ≠ 10
  name : ∀ e ∈ rsp.headers.entries, e.1 ≠ [] ∧ ∀ b ∈ e.1, ResponseMachine.token.has b = true
  reserved : ∀ e ∈ rsp.headers.entries, ∀ k ∈ ["connection", "content-length", "transfer-encoding"],
    strcaseEq e.1 (ascii k) = false
  value : ∀ e ∈ rsp.headers.entries, (∀ b ∈ e.2, b ≠ 13 ∧ b ≠ 10) ∧
    ∀ b, e.2.head? = some b → ResponseMachine.space.has b = false

/-- The text of a response is read back: the parser accepts it up to the body
and stores what was written. -/
def ReadsBack (rsp : HttpResponse) : Prop :=
  ∃ parser, HttpResponseParser.new.execute rsp.dump false =
      .ok (parser, rsp.dump.length - rsp.body.length, rsp.body) ∧
    parser.hasError = false ∧ parser.isFinished = 1 ∧ parser.data.version = rsp.version ∧
    parser.data.status = rsp.status ∧
    parser.data.reason = (if rsp.reason = [] then httpStatusToString rsp.status else rsp.reason) ∧
    ∀ e ∈ rsp.headers.entries, parser.data.headers.find? e.1 = some e.2

theorem dump_first (rsp : HttpResponse) : ∃ bs, rsp.dump = 32 :: bs := by
  have hspace : ascii " HTTP/" = 32 :: ascii "HTTP/" := rfl
  simp only [dump, dumpVersion, hspace, List.cons_append]
  exact ⟨_, rfl⟩

/-- Whatever `dump` writes, the parser ends in an error. -/
theorem dump_rejected {rsp : HttpResponse} {s : HttpResponseParser} {n : Nat} {rest : Bytes}
    (h : HttpResponseParser.new.execute rsp.dump false = .ok (s, n, rest)) : s.hasError = true := by
  obtain ⟨bs, hbs⟩ := rsp.dump_first
  rw [hbs] at h
  exact HttpResponseParser.rejects_first (by decide) h

/-- No response at all is read back from its text. -/
theorem not_readsBack (rsp : HttpResponse) : ¬ ReadsBack rsp := by
  rintro ⟨parser, hex, herr, -⟩
  rw [dump_rejected hex] at herr
  cases herr

/-- Not even `200 OK` without headers and without a body. -/
theorem readsBack_fails_ok : Printable new ∧ ¬ ReadsBack new := by
  refine ⟨⟨.inl rfl, by decide, nofun, nofun, nofun, nofun⟩, ?_⟩
  rintro ⟨parser, hex, herr, -⟩
  rw [dump_rejected hex] at herr
  cases herr

end HttpResponse

end Linko.Http

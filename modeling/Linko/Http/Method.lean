import Linko.Http.RequestParser
/-!
# Recognising the method

`on_request_method` looks the method up in the buffer, where no NUL ends the
token: `CharsToHttpMethod` asks for each name of the table whether it is a
prefix, `StringToHttpMethod` whether it is the whole token.
-/

namespace Linko.Http

open CString RequestMachine

def stringToHttpMethod (m : Bytes) : HttpMethod :=
  match httpMethodMap.find? fun e => strcmpEq (ascii e.2) m with
  | some e => e.1
  | none => .invalidMethod

/-- `(upper | digit){1,20}` -/
structure MethodToken (tok : Bytes) : Prop where
  pos : 1 ≤ tok.length
  short : tok.length ≤ 20
  chars : ∀ b ∈ tok, methodChar.has b = true

/-! ## The names of the table -/

theorem httpMethodMap_plain : ∀ e ∈ httpMethodMap, e.1 ≠ .invalidMethod ∧ (0 : UInt8) ∉ ascii e.2 := by
  decide +kernel

/-- No name begins with another one. -/
theorem httpMethodMap_prefixFree :
    ∀ e ∈ httpMethodMap, ∀ e' ∈ httpMethodMap, ascii e.2 <+: ascii e'.2 → e = e' := by decide +kernel

theorem httpMethodMap_inj {e e' : HttpMethod × String} (he : e ∈ httpMethodMap) (he' : e' ∈ httpMethodMap)
    (h : ascii e.2 = ascii e'.2) : e = e' := httpMethodMap_prefixFree e he e' he' (h ▸ List.prefix_refl _)

theorem MethodToken.plain {tok : Bytes} (h : MethodToken tok) : (0 : UInt8) ∉ tok := by
  intro h0
  exact absurd (h.chars 0 h0) (by decide)

/-- A name without a space that begins the buffer begins the token. -/
theorem prefix_until {a u v : Bytes} (h : (32 : UInt8) ∉ a) : a <+: u ++ 32 :: v ↔ a <+: u := by
  constructor
  · intro hp
    rcases List.prefix_or_prefix_of_prefix hp (List.prefix_append u (32 :: v)) with hu | hu
    · exact hu
    · -- the token is shorter than the name, which then has the space in it
      obtain ⟨w, rfl⟩ := hu
      rw [List.prefix_append_right_inj] at hp
      rcases w with _ | ⟨c, w⟩
      · simp
      · obtain ⟨rfl, -⟩ := List.cons_prefix_cons.1 hp
        exact absurd (List.mem_append_right u List.mem_cons_self) h
  · exact fun hp => hp.trans (List.prefix_append _ _)

/-- The first entry whose name is a prefix of the token is the only one. -/
theorem charsToHttpMethod_begin {tok : Bytes} (rest : Bytes) {e : HttpMethod × String}
    (he : e ∈ httpMethodMap)
    (hp : ascii e.2 <+: tok) : charsToHttpMethod (tok ++ 32 :: rest) = e.1 := by
  have hsome :
      (httpMethodMap.find? fun e => strncmpEq (ascii e.2) (tok ++ 32 :: rest) (ascii e.2).length).isSome := by
    rw [List.find?_isSome]
    exact ⟨e, he, (strncmpEq_begins (httpMethodMap_plain e he).2).2 (hp.trans (List.prefix_append _ _))⟩
  obtain ⟨e', hfind⟩ := Option.isSome_iff_exists.1 hsome
  have he' := List.mem_of_find?_eq_some hfind
  have hcmp := List.find?_some hfind
  have hp' : ascii e'.2 <+: tok := by
    rw [← prefix_until (httpMethodMap_names e' he').2.1, ← strncmpEq_begins (httpMethodMap_plain e' he').2]
    exact hcmp
  have heq : e' = e := by
    rcases List.prefix_or_prefix_of_prefix hp' hp with h | h
    · exact httpMethodMap_prefixFree e' he' e he h
    · exact (httpMethodMap_prefixFree e he e' he' h).symm
  rw [charsToHttpMethod, hfind, heq]

theorem charsToHttpMethod_none {tok : Bytes} (rest : Bytes) (h : ∀ e ∈ httpMethodMap, ¬ ascii e.2 <+: tok) :
    charsToHttpMethod (tok ++ 32 :: rest) = .invalidMethod := by
  have hnone :
      (httpMethodMap.find? fun e => strncmpEq (ascii e.2) (tok ++ 32 :: rest) (ascii e.2).length) = none := by
    rw [List.find?_eq_none]
    intro e he hn
    rw [strncmpEq_begins (httpMethodMap_plain e he).2, prefix_until (httpMethodMap_names e he).2.1] at hn
    exact h e he hn
  rw [charsToHttpMethod, hnone]

theorem strcmpEq_name {tok : Bytes} (ht : MethodToken tok) {e : HttpMethod × String} (he : e ∈ httpMethodMap) :
    strcmpEq (ascii e.2) tok = true ↔ ascii e.2 = tok := by
  rw [strcmpEq, cstr_eq (httpMethodMap_plain e he).2, cstr_eq ht.plain, beq_iff_eq]

theorem stringToHttpMethod_of_eq {tok : Bytes} (ht : MethodToken tok) {e : HttpMethod × String}
    (he : e ∈ httpMethodMap) (hname : ascii e.2 = tok) : stringToHttpMethod tok = e.1 := by
  have hsome : (httpMethodMap.find? fun e => strcmpEq (ascii e.2) tok).isSome := by
    rw [List.find?_isSome]
    exact ⟨e, he, (strcmpEq_name ht he).2 hname⟩
  obtain ⟨e', hfind⟩ := Option.isSome_iff_exists.1 hsome
  have he' := List.mem_of_find?_eq_some hfind
  have hcmp := List.find?_some hfind
  have hname' : ascii e'.2 = tok := (strcmpEq_name ht he').1 hcmp
  have heq : e' = e := httpMethodMap_inj he' he (hname'.trans hname.symm)
  rw [stringToHttpMethod, hfind, heq]

theorem stringToHttpMethod_none {tok : Bytes} (ht : MethodToken tok)
    (h : ∀ e ∈ httpMethodMap, ascii e.2 ≠ tok) :
    stringToHttpMethod tok = .invalidMethod := by
  have hnone : (httpMethodMap.find? fun e => strcmpEq (ascii e.2) tok) = none := by
    rw [List.find?_eq_none]
    exact fun e he hn => h e he ((strcmpEq_name ht he).1 hn)
  rw [stringToHttpMethod, hnone]

/-! ## The callback -/

/-- The method is stored when the token is its name, and a token that is no
name is flagged. -/
def RecognisesMethod (s : HttpRequestParser) (buffer : Bytes) (p : Nat) (tok : Bytes) : Prop :=
  (∀ m, m ≠ .invalidMethod → tok = httpMethodToString m →
    s.onRequestMethod buffer p tok.length = { s with data := { s.data with method := m } }) ∧
  ((∀ m, m ≠ .invalidMethod → tok ≠ httpMethodToString m) →
    s.onRequestMethod buffer p tok.length = s.setError 1000)

/-- A token is recognised exactly when no name of the table is a proper prefix
of it. -/
theorem recognisesMethod_iff (s : HttpRequestParser) {buffer tok : Bytes} (rest : Bytes) {p : Nat}
    (ht : MethodToken tok)
    (hb : buffer.drop p = tok ++ 32 :: rest) :
    (RecognisesMethod s buffer p tok ∧ charsToHttpMethod (buffer.drop p) = stringToHttpMethod tok) ↔
      ∀ e ∈ httpMethodMap, ascii e.2 <+: tok → ascii e.2 = tok := by
  rw [hb]
  constructor
  · rintro ⟨-, heq⟩ e he hp
    by_contra hne
    -- a name that is longer than `e` would begin with `e`
    have hno : ∀ e' ∈ httpMethodMap, ascii e'.2 ≠ tok := by
      rintro e' he' rfl
      exact hne (congrArg (fun e => ascii e.2) (httpMethodMap_prefixFree e he e' he' hp))
    rw [charsToHttpMethod_begin rest he hp, stringToHttpMethod_none ht hno] at heq
    exact (httpMethodMap_plain e he).1 heq
  · intro hall
    by_cases hname : ∃ e ∈ httpMethodMap, ascii e.2 = tok
    · obtain ⟨e, he, rfl⟩ := hname
      obtain ⟨hvalid, -⟩ := httpMethodMap_plain e he
      have hchars := charsToHttpMethod_begin rest he (List.prefix_refl _)
      refine ⟨⟨?_, ?_⟩, hchars.trans (stringToHttpMethod_of_eq ht he rfl).symm⟩
      · intro m hm hmname
        obtain ⟨name, hmem⟩ := mem_httpMethodMap hm
        obtain ⟨hstring, -⟩ := httpMethodMap_names _ hmem
        obtain rfl := httpMethodMap_inj he hmem (by rw [hmname, hstring])
        simp only [HttpRequestParser.onRequestMethod, hb, hchars, if_neg hm]
      · intro hno
        exact absurd (httpMethodMap_names e he).1.symm (hno e.1 hvalid)
    · have hno : ∀ e ∈ httpMethodMap, ascii e.2 ≠ tok := fun e he h => hname ⟨e, he, h⟩
      have hchars := charsToHttpMethod_none rest fun e he hp => hno e he (hall e he hp)
      refine ⟨⟨?_, ?_⟩, hchars.trans (stringToHttpMethod_none ht hno).symm⟩
      · intro m hm hmname
        obtain ⟨name, hmem⟩ := mem_httpMethodMap hm
        exact absurd ((httpMethodMap_names _ hmem).1.symm.trans hmname.symm) (hno _ hmem)
      · intro _
        simp only [HttpRequestParser.onRequestMethod, hb, hchars, if_pos]

/-- `PUT` and its space. -/
theorem recognisesMethod_iff_put :
    RecognisesMethod (.new false) (ascii "PUT /") 0 (ascii "PUT") ∧
      charsToHttpMethod (ascii "PUT /") = stringToHttpMethod (ascii "PUT") :=
  (recognisesMethod_iff (.new false) [47] ⟨by decide, by decide, by decide +kernel⟩
    (by decide +kernel)).2 (by decide +kernel)

/-- `GETX` is taken for `GET`. -/
theorem not_recognisesMethod :
    ¬ ∀ (s : HttpRequestParser) (buffer tok rest : Bytes) (p : Nat), MethodToken tok →
      buffer.drop p = tok ++ 32 :: rest →
      RecognisesMethod s buffer p tok ∧ charsToHttpMethod (buffer.drop p) = stringToHttpMethod tok := by
  intro h
  have heq :=
    (h (.new false) (ascii "GETX ") (ascii "GETX") [] 0 ⟨by decide, by decide, by decide +kernel⟩
      (by decide +kernel)).2
  exact absurd heq (by decide +kernel)

end Linko.Http

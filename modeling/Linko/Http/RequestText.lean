import Linko.Http.RequestParser
/-!
# The request grammar on printed text

What the request machine does on each part of a request as `dump` writes it:
the method, the target with its query and fragment, the version, a header
line, the end of the header block. Here `uri_relaxed` is 0.
-/

namespace Linko.Http.RequestText

open CString Ragel Ragel.Machine RequestMachine

/-! ## The table -/

/-- The characters of a token in the RFC. -/
def tchar : ByteClass :=
  [(33, 33), (35, 39), (42, 43), (45, 46), (48, 57), (65, 90), (94, 122), (124, 124), (126, 126)]

/-- A byte of a header value. -/
abbrev ValueByte (b : UInt8) : Prop := b ≠ 0 ∧ b ≠ 13 ∧ b ≠ 10 ∧ b ≠ 127

/-- The request machine without the relaxed characters. -/
abbrev M : Machine Act := machine false

/-- A state that loops on a class and on percent encodings. -/
structure Loops (cs pct₁ pct₂ : Nat) (k : ByteClass) : Prop where
  char : ∀ b, k.has b = true → M.next cs b = some ([], cs)
  pct : M.next cs 37 = some ([], pct₁)
  first : ∀ b, xdigit.has b = true → M.next pct₁ b = some ([], pct₂)
  second : ∀ b, xdigit.has b = true → M.next pct₂ b = some ([], cs)

/-- What the table says about the bytes of printed text. -/
structure TextRows : Prop where
  path : Loops 26 27 28 pathChar
  query : Loops 30 31 32 queryChar
  fragment : Loops 21 22 23 queryChar
  pathFirst : ∀ b, pathChar.has b = true → b ≠ 47 → M.next 33 b = some ([], 26)
  queryFirst : ∀ b, queryChar.has b = true → M.next 29 b = some ([.startQuery], 30)
  fragmentFirst : ∀ b, queryChar.has b = true → M.next 20 b = some ([.mark], 21)
  fieldFirst : ∀ b, tchar.has b = true → M.next 13 b = some ([.startField], 14)
  field : ∀ b, tchar.has b = true → M.next 14 b = some ([], 14)
  valueFirst : ∀ b, ValueByte b → lws.has b = false → M.next 15 b = some ([.startValue], 16)
  value : ∀ b, ValueByte b → M.next 16 b = some ([], 16)
  methods : ∀ e ∈ httpMethodMap, e.1 ≠ .msearch →
    M.Reads 1 (ascii e.2 ++ [32]) 3 [(0, .mark), ((ascii e.2).length, .requestMethod)]
  versions : ∀ v ∈ ["HTTP/1.1", "HTTP/1.0"], M.Reads 4 (ascii v ++ [13, 10]) 13 [(0, .mark), (8, .httpVersion)]

theorem textRows : TextRows where
  path := by constructor <;> decide +kernel
  query := by constructor <;> decide +kernel
  fragment := by constructor <;> decide +kernel
  pathFirst := by decide +kernel
  queryFirst := by decide +kernel
  fragmentFirst := by decide +kernel
  fieldFirst := by decide +kernel
  field := by decide +kernel
  valueFirst := by decide +kernel
  value := by decide +kernel
  methods := by unfold Reads; decide +kernel
  versions := by unfold Reads; decide +kernel

/-! ## The grammar -/

/-- `( k | pct_encoded )*` -/
inductive Chars (k : ByteClass) : Bytes → Prop where
  | nil : Chars k []
  | char {b : UInt8} {bs : Bytes} : k.has b = true → Chars k bs → Chars k (b :: bs)
  | pct {x y : UInt8} {bs : Bytes} : xdigit.has x = true → xdigit.has y = true → Chars k bs →
      Chars k (37 :: x :: y :: bs)

/-- `path_absolute`, that is `"/" ( segment_nz ( "/" segment )* )?`: no second
slash comes right behind the first. -/
def PathAbsolute (path : Bytes) : Prop := ∃ bs, path = 47 :: bs ∧ bs.head? ≠ some 47 ∧ Chars pathChar bs

/-- `query` and `fragment`, that is `( pchar | "/" | "?" )*` -/
def Query (q : Bytes) : Prop := Chars queryChar q

/-- A header name: a token that is not empty. -/
def FieldName (k : Bytes) : Prop := k ≠ [] ∧ ∀ b ∈ k, tchar.has b = true

/-- A header value without NUL, CR, LF and DEL and without white space in
front. -/
def FieldValue (v : Bytes) : Prop := (∀ b ∈ v, ValueByte b) ∧ ∀ b, v.head? = some b → lws.has b = false

/-! ## Runs through a token -/

section

variable {cs₀ cs pct₁ pct₂ t : Nat} {k : ByteClass} {acts : List Act} {x y : UInt8} {bs : Bytes}

theorem reads_pct (ha : acts.any M.breaks = false) (h : M.next cs₀ 37 = some (acts, pct₁))
    (hx : M.next pct₁ x = some ([], pct₂)) (hy : M.next pct₂ y = some ([], t)) :
    M.Reads cs₀ [37, x, y] t (acts.map fun a => (0, a)) := by
  have e := (Reads.one h ha).append ((Reads.one hx rfl).append (Reads.one hy rfl))
  simpa using e

theorem Chars.reads (h : Loops cs pct₁ pct₂ k) (hbs : Chars k bs) : M.Reads cs bs cs [] := by
  induction hbs with
  | nil => exact Reads.nil
  | char hb _ ih => exact (Reads.one (h.char _ hb) rfl).append ih
  | pct hx hy _ ih => exact (reads_pct rfl h.pct (h.first _ hx) (h.second _ hy)).append ih

/-- A token that is entered from another state, where its first character runs
some actions. -/
theorem Chars.reads_from (h : Loops cs pct₁ pct₂ k) (ha : acts.any M.breaks = false)
    (hpct : M.next cs₀ 37 = some (acts, pct₁)) (hbs : Chars k bs) (hne : bs ≠ [])
    (hfirst : ∀ b, bs.head? = some b → k.has b = true → M.next cs₀ b = some (acts, cs)) :
    M.Reads cs₀ bs cs (acts.map fun a => (0, a)) := by
  cases hbs with
  | nil => exact absurd rfl hne
  | @char b bs hb hbs =>
    have e := (Reads.one (hfirst b rfl hb) ha).append (hbs.reads h)
    simpa using e
  | pct hx hy hbs =>
    have e := (reads_pct ha hpct (h.first _ hx) (h.second _ hy)).append (hbs.reads h)
    simpa using e

end

/-- Behind a path the machine is in state 26, or in 33 when the path is only
the slash. -/
theorem PathAbsolute.reads {path : Bytes} (h : PathAbsolute path) :
    ∃ m, (m = 33 ∨ m = 26) ∧ M.Reads 3 path m [(0, .mark)] := by
  obtain ⟨bs, rfl, hslash, hbs⟩ := h
  have hroot : M.Reads 3 [47] 33 [(0, .mark)] := by
    have n : M.next 3 47 = some ([.mark], 33) := rfl
    exact Reads.one n rfl
  by_cases hne : bs = []
  · subst hne
    exact ⟨33, .inl rfl, hroot⟩
  · have hpct : M.next 33 37 = some ([], 27) := rfl
    have hrest := hbs.reads_from textRows.path rfl hpct hne fun b hb hk =>
      textRows.pathFirst b hk fun h47 => hslash (h47 ▸ hb)
    exact ⟨26, .inr rfl, by simpa using hroot.append hrest⟩

theorem Query.reads {q : Bytes} (h : Query q) (hne : q ≠ []) : M.Reads 29 q 30 [(0, .startQuery)] := by
  have hpct : M.next 29 37 = some ([.startQuery], 31) := rfl
  exact Chars.reads_from textRows.query rfl hpct h hne fun b _ => textRows.queryFirst b

theorem Query.reads_fragment {f : Bytes} (h : Query f) (hne : f ≠ []) : M.Reads 20 f 21 [(0, .mark)] := by
  have hpct : M.next 20 37 = some ([.mark], 22) := rfl
  exact Chars.reads_from textRows.fragment rfl hpct h hne fun b _ => textRows.fragmentFirst b

/-- A method name of capitals and digits, with the space behind it. -/
theorem reads_method (m : HttpMethod) (hm : ∀ b ∈ httpMethodToString m, methodChar.has b = true) :
    M.Reads 1 (httpMethodToString m ++ [32]) 3 [(0, .mark),
      ((httpMethodToString m).length, .requestMethod)] := by
  have hvalid : m ≠ .invalidMethod := by
    rintro rfl
    exact absurd (hm 60 (by decide)) (by decide)
  have hsearch : m ≠ .msearch := by
    rintro rfl
    exact absurd (hm 45 (by decide)) (by decide)
  obtain ⟨name, hmem⟩ := mem_httpMethodMap hvalid
  rw [(httpMethodMap_names _ hmem).1]
  exact textRows.methods _ hmem hsearch

theorem stops_blank_line : M.Stops 13 [13, 10] 348 [(0, .startField), (1, .done)] := rfl

theorem FieldName.reads {k : Bytes} (h : FieldName k) :
    M.Reads 13 (k ++ [58]) 15 [(0, .startField), (k.length, .writeField)] := by
  obtain ⟨hne, hk⟩ := h
  obtain ⟨b, bs, rfl⟩ := List.exists_cons_of_ne_nil hne
  have hcolon : M.next 14 58 = some ([.writeField], 15) := rfl
  have e₁ : M.Reads 13 [b] 14 [(0, .startField)] :=
    Reads.one (textRows.fieldFirst b (hk b List.mem_cons_self)) rfl
  have e₂ : M.Reads 14 bs 14 [] := Reads.loop fun c hc => textRows.field c (hk c (List.mem_cons_of_mem b hc))
  have e₃ : M.Reads 14 [58] 15 [(0, .writeField)] := Reads.one hcolon rfl
  simpa [shift, Nat.add_comm] using e₁.append (e₂.append e₃)

theorem FieldValue.reads {v : Bytes} (h : FieldValue v) :
    M.Reads 15 (v ++ [13, 10]) 13 [(0, .startValue), (v.length, .writeValue)] := by
  obtain ⟨hv, hlead⟩ := h
  have hlf : M.next 17 10 = some ([], 13) := rfl
  have e₃ : M.Reads 17 [10] 13 [] := Reads.one hlf rfl
  cases v with
  | nil =>
    have hcr : M.next 15 13 = some ([.startValue, .writeValue], 17) := rfl
    have e₁ : M.Reads 15 [13] 17 [(0, .startValue), (0, .writeValue)] := Reads.one hcr rfl
    exact e₁.append e₃
  | cons b bs =>
    have hfirst := textRows.valueFirst b (hv b List.mem_cons_self) (hlead b rfl)
    have hcr : M.next 16 13 = some ([.writeValue], 17) := rfl
    have e₁ : M.Reads 15 [b] 16 [(0, .startValue)] := Reads.one hfirst rfl
    have e₂ : M.Reads 16 bs 16 [] := Reads.loop fun c hc => textRows.value c (hv c (List.mem_cons_of_mem b hc))
    have e₄ : M.Reads 16 [13] 17 [(0, .writeValue)] := Reads.one hcr rfl
    simpa [shift, Nat.add_comm] using e₁.append (e₂.append (e₄.append e₃))

end Linko.Http.RequestText

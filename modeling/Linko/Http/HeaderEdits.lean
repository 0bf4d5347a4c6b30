import Mathlib.Data.List.Nodup
import Linko.Http.Message
import Linko.Lib.Registers
/-!
# Edits of the maps of a request

The headers, the params and the cookies of a request are three maps that ignore
the case of a key. What a map holds after any history of `set`, `del` and
whole assignments, and what `dump` then writes of the headers.
-/

namespace Linko.Http

open CString

namespace HeaderMap

/-- `m.erase(key)` -/
def erase (m : HeaderMap) (key : Bytes) : HeaderMap where
  entries := m.entries.filter fun e => strcaseLess e.1 key || strcaseLess key e.1
  sorted := m.sorted.filter _

/-- `hasHeader(key, val)` and the like; `val` is none for a null pointer. -/
def has (m : HeaderMap) (key : Bytes) (val : Option Bytes) : Bool × Option Bytes :=
  match m.find? key with
  | none => (false, val)
  | some v => (true, val.map fun _ => v)

/-- `checkGetAs`: the result and what is left in `val`. -/
def checkGetAs {T : Type} (cast : Bytes → Option T) (m : HeaderMap) (key : Bytes) (dflt : T) : Bool × T :=
  match m.find? key with
  | none => (false, dflt)
  | some v =>
    match cast v with
    | some t => (true, t)
    | none => (false, dflt)

/-- The entry whose key reads `k` up to case. -/
def entry (m : HeaderMap) (k : Bytes) : Option (Bytes × Bytes) := m.entries.find? fun e => caseKey e.1 = k

/-! ## One edit -/

theorem strcaseLess_iff {a b : Bytes} : strcaseLess a b = true ↔ caseKey a < caseKey b := by
  rw [strcaseLess, decide_eq_true_eq]

theorem not_strcaseLess_iff {a b : Bytes} : (!strcaseLess a b && !strcaseLess b a) = decide (caseKey a = caseKey b) := by
  rw [Bool.eq_iff_iff, Bool.and_eq_true, Bool.not_eq_true', Bool.not_eq_true', decide_eq_true_eq]
  constructor
  · rintro ⟨hab, hba⟩
    exact strcaseEq_of_not_less hab hba
  · intro h
    simp [strcaseLess, h, List.lt_irrefl]

/-- `find` goes by the key up to case. -/
theorem find?_eq (m : HeaderMap) (key : Bytes) : m.find? key = (m.entry (caseKey key)).map Prod.snd := by
  simp only [find?, entry, not_strcaseLess_iff]

/-- Behind a key that is larger there is no entry for `k`. -/
theorem find?_above {es : List (Bytes × Bytes)} {k : Bytes} (h : ∀ e ∈ es, k < caseKey e.1) :
    es.find? (fun e => caseKey e.1 = k) = none := by
  refine List.find?_eq_none.2 fun e he hk => ?_
  have hlt := h e he
  rw [of_decide_eq_true hk] at hlt
  exact List.lt_irrefl _ hlt

theorem find?_setEntry {es : List (Bytes × Bytes)} (hs : Sorted es) (key val k : Bytes) :
    (setEntry key val es).find? (fun e => caseKey e.1 = k) =
      if caseKey key = k then some (((es.find? fun e => caseKey e.1 = k).map Prod.fst).getD key, val)
      else es.find? fun e => caseKey e.1 = k := by
  induction es with
  | nil => by_cases hk : caseKey key = k <;> simp [setEntry, hk]
  | cons e es ih =>
    obtain ⟨he, hes⟩ := List.pairwise_cons.1 hs
    rw [setEntry]
    split
    · rename_i hlt
      -- the key is smaller than all that are there
      have habove : ∀ d ∈ e :: es, caseKey key < caseKey d.1 := by
        intro d hd
        rcases List.mem_cons.1 hd with rfl | hd
        · exact strcaseLess_iff.1 hlt
        · exact strcaseLess_iff.1 (strcaseLess_trans hlt (he d hd))
      by_cases hk : caseKey key = k
      · subst hk
        rw [if_pos rfl, find?_above habove]
        simp
      · rw [if_neg hk, List.find?_cons_of_neg (by simpa using hk)]
    · rename_i hnot
      split
      · rename_i hlt
        have hne : caseKey e.1 ≠ caseKey key := fun h => List.lt_irrefl _ (h ▸ strcaseLess_iff.1 hlt)
        by_cases hek : caseKey e.1 = k
        · rw [List.find?_cons_of_pos (by simpa using hek), if_neg (fun h => hne (hek.trans h.symm)),
            List.find?_cons_of_pos (by simpa using hek)]
        · rw [List.find?_cons_of_neg (by simpa using hek), ih hes, List.find?_cons_of_neg (by simpa using hek)]
      · rename_i hnot'
        have heq : caseKey key = caseKey e.1 :=
          strcaseEq_of_not_less (Bool.not_eq_true _ ▸ hnot) (Bool.not_eq_true _ ▸ hnot')
        by_cases hk : caseKey key = k
        · rw [if_pos hk, List.find?_cons_of_pos (by simpa using heq ▸ hk),
            List.find?_cons_of_pos (by simpa using heq ▸ hk)]
          rfl
        · rw [if_neg hk, List.find?_cons_of_neg (by simpa using heq ▸ hk),
            List.find?_cons_of_neg (by simpa using heq ▸ hk)]

/-- A key that is there keeps its spelling. -/
theorem entry_set (m : HeaderMap) (key val k : Bytes) :
    (m.set key val).entry k =
      if caseKey key = k then some (((m.entry k).map Prod.fst).getD key, val) else m.entry k :=
  find?_setEntry m.sorted key val k

theorem entry_erase (m : HeaderMap) (key k : Bytes) :
    (m.erase key).entry k = if caseKey key = k then none else m.entry k := by
  have hkeep : ∀ e : Bytes × Bytes, (strcaseLess e.1 key || strcaseLess key e.1) = decide (caseKey e.1 ≠ caseKey key) := by
    intro e
    have h := @not_strcaseLess_iff e.1 key
    rw [← Bool.not_or] at h
    rw [← Bool.not_not (strcaseLess e.1 key || _), h, decide_not]
  simp only [entry, erase, hkeep, List.find?_filter]
  by_cases hk : caseKey key = k
  · rw [if_pos hk]
    refine List.find?_eq_none.2 fun e _ => ?_
    simp [hk]
  · rw [if_neg hk]
    congr
    funext e
    rw [Bool.eq_iff_iff]
    simp only [decide_eq_true_eq]
    constructor
    · exact And.right
    · intro he
      exact ⟨fun h => hk (h.symm.trans he), he⟩

/-- A map holds the entries that it finds. -/
theorem mem_entries {m : HeaderMap} {e : Bytes × Bytes} : e ∈ m.entries ↔ m.entry (caseKey e.1) = some e := by
  constructor
  · intro he
    obtain ⟨d, hd⟩ := Option.isSome_iff_exists.1
      (List.find?_isSome (p := fun d => caseKey d.1 = caseKey e.1) |>.2 ⟨e, he, decide_eq_true rfl⟩)
    have hkey : caseKey d.1 = caseKey e.1 := by simpa using List.find?_some hd
    rw [entry, hd]
    -- no two entries have keys that are the same up to case
    have hnodup : (m.entries.map fun d => caseKey d.1).Nodup := by
      refine List.pairwise_map.2 (m.sorted.imp fun {a b} hab hkeys => ?_)
      exact List.lt_irrefl _ (hkeys ▸ strcaseLess_iff.1 hab)
    rw [List.inj_on_of_nodup_map hnodup (List.mem_of_find?_eq_some hd) he hkey]
  · exact List.mem_of_find?_eq_some

end HeaderMap

/-! ## The three maps -/

/-- `m_headers`, `m_params` and `m_cookies` -/
structure RequestMaps where
  headers : HeaderMap
  params : HeaderMap
  cookies : HeaderMap

namespace RequestMaps

/-- The maps of a new request. -/
def new : RequestMaps := ⟨.empty, .empty, .empty⟩

section

variable (r : RequestMaps) (key val dflt : Bytes) (v : HeaderMap) (p : Option Bytes)

def setHeader : RequestMaps := { r with headers := r.headers.set key val }

def setParam : RequestMaps := { r with params := r.params.set key val }

def setCookie : RequestMaps := { r with cookies := r.cookies.set key val }

def delHeader : RequestMaps := { r with headers := r.headers.erase key }

def delParam : RequestMaps := { r with params := r.params.erase key }

def delCookie : RequestMaps := { r with cookies := r.cookies.erase key }

def setHeaders : RequestMaps := { r with headers := v }

def setParams : RequestMaps := { r with params := v }

def setCookies : RequestMaps := { r with cookies := v }

def getHeader : Bytes := r.headers.get key dflt

def getParam : Bytes := r.params.get key dflt

def getCookie : Bytes := r.cookies.get key dflt

def hasHeader : Bool × Option Bytes := r.headers.has key p

def hasParam : Bool × Option Bytes := r.params.has key p

def hasCookie : Bool × Option Bytes := r.cookies.has key p

end

/-- Which of the maps a call is about. -/
inductive Table where
  | headers
  | params
  | cookies
  deriving DecidableEq, Repr

/-- A call that edits one of the maps. -/
inductive Edit where
  | set (t : Table) (key val : Bytes)
  | del (t : Table) (key : Bytes)
  | assign (t : Table) (v : HeaderMap)

def table (r : RequestMaps) : Table → HeaderMap
  | .headers => r.headers
  | .params => r.params
  | .cookies => r.cookies

def edit (r : RequestMaps) : Edit → RequestMaps
  | .set .headers key val => r.setHeader key val
  | .set .params key val => r.setParam key val
  | .set .cookies key val => r.setCookie key val
  | .del .headers key => r.delHeader key
  | .del .params key => r.delParam key
  | .del .cookies key => r.delCookie key
  | .assign .headers v => r.setHeaders v
  | .assign .params v => r.setParams v
  | .assign .cookies v => r.setCookies v

def edits (r : RequestMaps) (ops : List Edit) : RequestMaps := ops.foldl edit r

/-- The line that stands for a key after some calls: the key as it was spelled when
it came in, and the value written last. Two keys are one when they read the same
up to case. -/
def line (t : Table) (k : Bytes) (ops : List Edit) : Option (Bytes × Bytes) :=
  ops.foldl (fun o op =>
    match op with
    | .set u key val => if u = t ∧ caseKey key = k then some ((o.map Prod.fst).getD key, val) else o
    | .del u key => if u = t ∧ caseKey key = k then none else o
    | .assign u v => if u = t then v.entry k else o) none

theorem line_snoc (t : Table) (k : Bytes) (ops : List Edit) (op : Edit) :
    line t k (ops ++ [op]) =
      match op with
      | .set u key val =>
        if u = t ∧ caseKey key = k then some (((line t k ops).map Prod.fst).getD key, val) else line t k ops
      | .del u key => if u = t ∧ caseKey key = k then none else line t k ops
      | .assign u v => if u = t then v.entry k else line t k ops := by
  simp only [line, List.foldl_append, List.foldl_cons, List.foldl_nil]

/-- The step lemma: what one call makes of what stands. -/
theorem entry_edit (r : RequestMaps) (t : Table) (k : Bytes) (op : Edit) :
    ((r.edit op).table t).entry k =
      match op with
      | .set u key val =>
        if u = t ∧ caseKey key = k then some ((((r.table t).entry k).map Prod.fst).getD key, val)
        else (r.table t).entry k
      | .del u key => if u = t ∧ caseKey key = k then none else (r.table t).entry k
      | .assign u v => if u = t then v.entry k else (r.table t).entry k := by
  cases op with
  | set u key val =>
    cases u <;> cases t <;>
      simp [edit, table, setHeader, setParam, setCookie, HeaderMap.entry_set]
  | del u key =>
    cases u <;> cases t <;>
      simp [edit, table, delHeader, delParam, delCookie, HeaderMap.entry_erase]
  | assign u v =>
    cases u <;> cases t <;> simp [edit, table, setHeaders, setParams, setCookies]

/-- The run lemma. -/
theorem entry_edits (ops : List Edit) (t : Table) (k : Bytes) :
    (((new.edits ops).table t).entry k) = line t k ops := by
  induction ops using List.reverseRecOn with
  | nil => cases t <;> rfl
  | append_singleton ops op ih =>
    have hedit : new.edits (ops ++ [op]) = (new.edits ops).edit op := by simp [edits]
    rw [hedit, entry_edit, line_snoc, ih]

/-! ## What is read and printed -/

theorem get_eq (m : HeaderMap) (key dflt : Bytes) :
    m.get key dflt = ((m.entry (caseKey key)).map Prod.snd).getD dflt := by
  rw [HeaderMap.get, HeaderMap.find?_eq]

theorem has_eq (m : HeaderMap) (key : Bytes) (val : Option Bytes) :
    m.has key val = ((m.entry (caseKey key)).isSome,
      val.map fun v => ((m.entry (caseKey key)).map Prod.snd).getD v) := by
  rw [HeaderMap.has, HeaderMap.find?_eq]
  cases m.entry (caseKey key) with
  | none => simp
  | some e => rfl

/-- The lines `dump` writes are those of the entries other than `connection`. -/
theorem dumpHeaders_lines (sep : Bytes) (m : HeaderMap) :
    dumpHeaders sep m = (m.entries.filter fun e => !strcaseEq e.1 (ascii "connection")).flatMap
      fun e => e.1 ++ sep ++ e.2 ++ ascii "\r\n" := by
  rw [dumpHeaders]
  induction m.entries with
  | nil => rfl
  | cons e es ih =>
    rw [List.flatMap_cons, ih]
    cases h : strcaseEq e.1 (ascii "connection") <;> simp [h]

/-- After any history of calls each of the three maps holds, reads and prints exactly
the lines that stand: a call changes what stands for its own key in its own map, and
`dump` writes each standing header but `connection` once, in the order of the keys. -/
theorem maps_exact (ops : List Edit) :
    (∀ t e, e ∈ ((new.edits ops).table t).entries ↔ line t (caseKey e.1) ops = some e) ∧
    (∀ t key dflt, ((new.edits ops).table t).get key dflt = ((line t (caseKey key) ops).map Prod.snd).getD dflt) ∧
    (∀ t key val, ((new.edits ops).table t).has key val =
      ((line t (caseKey key) ops).isSome, val.map fun v => ((line t (caseKey key) ops).map Prod.snd).getD v)) ∧
    ∃ lines : List (Bytes × Bytes), lines.Pairwise (fun a b => strcaseLess a.1 b.1 = true) ∧
      (∀ e, e ∈ lines ↔ line .headers (caseKey e.1) ops = some e ∧ strcaseEq e.1 (ascii "connection") = false) ∧
      ∀ sep, dumpHeaders sep (new.edits ops).headers = lines.flatMap fun e => e.1 ++ sep ++ e.2 ++ ascii "\r\n" := by
  have hmem : ∀ t e, e ∈ ((new.edits ops).table t).entries ↔ line t (caseKey e.1) ops = some e := by
    intro t e
    rw [HeaderMap.mem_entries, entry_edits]
  refine ⟨hmem, ?_, ?_, _, ((new.edits ops).headers.sorted.filter _), ?_, fun sep => dumpHeaders_lines sep _⟩
  · intro t key dflt
    rw [get_eq, entry_edits]
  · intro t key val
    rw [has_eq, entry_edits]
  · intro e
    have hheaders := hmem .headers e
    rw [table] at hheaders
    rw [List.mem_filter, hheaders, Bool.not_eq_true']

end RequestMaps

end Linko.Http

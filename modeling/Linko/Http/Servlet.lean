import Mathlib.Data.List.Nodup
import Mathlib.Logic.Function.Basic
import Linko.Lib.CString
import Linko.Lib.Registers
/-!
# The servlet dispatch

`ServletDispatch` of `servlet.cc`. A history of its edits is a list of writes of
routes, and what `getMatchedServlet` returns is said of the writes that stand.
-/

namespace Linko.Http

open CString Registers

variable {σ κ : Type}

/-- A `Servlet::ptr`: one that a caller has, or the `FunctionServlet` that a call
makes, which is told from others by the number of that call. -/
inductive Servlet (σ κ : Type) where
  | given (slt : σ)
  | function (cb : κ) (call : Nat)
  deriving DecidableEq, Repr

structure ServletDispatch (σ κ : Type) where
  datas : Bytes → Option (Servlet σ κ)
  globs : List (Bytes × Servlet σ κ)
  default : Servlet σ κ

namespace ServletDispatch

/-- A dispatch with no routes. -/
def new (slt : Servlet σ κ) : ServletDispatch σ κ where
  datas := fun _ => none
  globs := []
  default := slt

variable (d : ServletDispatch σ κ)

def addServlet (uri : Bytes) (slt : Servlet σ κ) : ServletDispatch σ κ :=
  { d with datas := Function.update d.datas uri (some slt) }

/-- The loop that erases the first entry of a pattern. -/
def eraseGlob (uri : Bytes) (globs : List (Bytes × Servlet σ κ)) : List (Bytes × Servlet σ κ) :=
  globs.eraseP fun it => it.1 = uri

def addGlobServlet (uri : Bytes) (slt : Servlet σ κ) : ServletDispatch σ κ :=
  { d with globs := eraseGlob uri d.globs ++ [(uri, slt)] }

def delServlet (uri : Bytes) : ServletDispatch σ κ := { d with datas := Function.update d.datas uri none }

def delGlobServlet (uri : Bytes) : ServletDispatch σ κ := { d with globs := eraseGlob uri d.globs }

def getServlet (uri : Bytes) : Option (Servlet σ κ) := d.datas uri

def getGlobalServlet (uri : Bytes) : Option (Servlet σ κ) :=
  (d.globs.find? fun it => it.1 = uri).map Prod.snd

/-- `!fnmatch(pattern, path, 0)` -/
def globMatches (fnmatch : Bytes → Bytes → Int) (pattern path : Bytes) : Prop :=
  fnmatch (cstr pattern) (cstr path) = 0

instance (fnmatch : Bytes → Bytes → Int) (pattern path : Bytes) : Decidable (globMatches fnmatch pattern path) :=
  inferInstanceAs (Decidable (_ = _))

def getMatchedServlet (fnmatch : Bytes → Bytes → Int) (uri : Bytes) : Servlet σ κ :=
  match d.datas uri with
  | some slt => slt
  | none =>
    match d.globs.find? fun it => globMatches fnmatch it.1 uri with
    | some it => it.2
    | none => d.default

/-! ## Histories of edits -/

/-- A call that edits the routes. The overloads with a callback make a `FunctionServlet`. -/
inductive Edit (σ κ : Type) where
  | addServlet (uri : Bytes) (slt : σ)
  | addServletCb (uri : Bytes) (cb : κ)
  | addGlobServlet (uri : Bytes) (slt : σ)
  | addGlobServletCb (uri : Bytes) (cb : κ)
  | delServlet (uri : Bytes)
  | delGlobServlet (uri : Bytes)
  deriving DecidableEq, Repr

/-- The call with number `n`. -/
def edit (n : Nat) : Edit σ κ → ServletDispatch σ κ
  | .addServlet uri slt => d.addServlet uri (.given slt)
  | .addServletCb uri cb => d.addServlet uri (.function cb n)
  | .addGlobServlet uri slt => d.addGlobServlet uri (.given slt)
  | .addGlobServletCb uri cb => d.addGlobServlet uri (.function cb n)
  | .delServlet uri => d.delServlet uri
  | .delGlobServlet uri => d.delGlobServlet uri

/-- The calls one after the other, counted from zero. -/
def edits (ops : List (Edit σ κ)) : ServletDispatch σ κ := ops.zipIdx.foldl (fun d op => d.edit op.2 op.1) d

/-- What is added and deleted: a path or a pattern. -/
inductive Route where
  | exact (uri : Bytes)
  | glob (uri : Bytes)
  deriving DecidableEq, Repr

def Route.isGlob : Route → Bool
  | .exact _ => false
  | .glob _ => true

/-- The route a call is about and the servlet it adds there, none when it deletes. -/
def Edit.write (n : Nat) : Edit σ κ → Route × Option (Servlet σ κ)
  | .addServlet uri slt => (.exact uri, some (.given slt))
  | .addServletCb uri cb => (.exact uri, some (.function cb n))
  | .addGlobServlet uri slt => (.glob uri, some (.given slt))
  | .addGlobServletCb uri cb => (.glob uri, some (.function cb n))
  | .delServlet uri => (.exact uri, none)
  | .delGlobServlet uri => (.glob uri, none)

def writes (ops : List (Edit σ κ)) : List (Route × Option (Servlet σ κ)) := ops.zipIdx.map fun op => op.1.write op.2

/-- The servlet that the calls so far select for a path: the one that stands for the
path itself, else the one of the matching pattern that has stood longest, else the
default. -/
inductive Selects (fnmatch : Bytes → Bytes → Int) (default : Servlet σ κ)
    (ws : List (Route × Option (Servlet σ κ))) (path : Bytes) : Servlet σ κ → Prop where
  | exact {i : Nat} {slt : Servlet σ κ} : LiveAt ws i (.exact path) slt → Selects fnmatch default ws path slt
  | glob {i : Nat} {pattern : Bytes} {slt : Servlet σ κ} :
      (∀ i slt', ¬ LiveAt ws i (.exact path) slt') →
      LiveAt ws i (.glob pattern) slt → globMatches fnmatch pattern path →
      (∀ j pattern' slt', LiveAt ws j (.glob pattern') slt' → globMatches fnmatch pattern' path → i ≤ j) →
      Selects fnmatch default ws path slt
  | default : (∀ i slt', ¬ LiveAt ws i (.exact path) slt') →
      (∀ i pattern slt', LiveAt ws i (.glob pattern) slt' → ¬ globMatches fnmatch pattern path) →
      Selects fnmatch default ws path default

/-! ## What the tables hold -/

/-- The pattern of a route, with its servlet. -/
def globOf : Route × Servlet σ κ → Option (Bytes × Servlet σ κ)
  | (.exact _, _) => none
  | (.glob uri, slt) => some (uri, slt)

@[simp] theorem globOf_exact (uri : Bytes) (slt : Servlet σ κ) : globOf (.exact uri, slt) = none := rfl

@[simp] theorem globOf_glob (uri : Bytes) (slt : Servlet σ κ) : globOf (.glob uri, slt) = some (uri, slt) := rfl

/-- The tables are what the writes so far leave. -/
structure Records (ws : List (Route × Option (Servlet σ κ))) : Prop where
  datas : ∀ uri, d.datas uri = (last (.exact uri) ws).join
  globs : d.globs = (live ws).filterMap globOf

theorem globOf_eq_some {w : Route × Servlet σ κ} {g : Bytes × Servlet σ κ} :
    globOf w = some g ↔ w = (.glob g.1, g.2) := by
  obtain ⟨r, slt⟩ := w
  cases r <;> simp [globOf, Prod.ext_iff, eq_comm]

variable {d}
variable {ws : List (Route × Option (Servlet σ κ))}

/-- No pattern has two entries. -/
theorem Records.nodup (h : d.Records ws) : (d.globs.map Prod.fst).Nodup := by
  have hkeys : (d.globs.map Prod.fst).map Route.glob = ((live ws).map Prod.fst).filter Route.isGlob := by
    rw [h.globs]
    induction live ws with
    | nil => rfl
    | cons w l ih =>
      obtain ⟨r, slt⟩ := w
      cases r <;> simpa [List.filterMap_cons, List.filter_cons, Route.isGlob] using ih
  refine List.Nodup.of_map Route.glob ?_
  rw [hkeys]
  exact (nodup_live ws).filter _

/-- An edit of a path leaves the patterns alone. -/
theorem filterMap_globOf_exact (l : List (Route × Servlet σ κ)) (uri : Bytes) :
    (l.filter fun x => x.1 ≠ .exact uri).filterMap globOf = l.filterMap globOf := by
  rw [List.filterMap_filter]
  congr
  funext w
  obtain ⟨r, slt⟩ := w
  cases r <;> simp

theorem filterMap_globOf_glob (l : List (Route × Servlet σ κ)) (uri : Bytes) :
    (l.filter fun x => x.1 ≠ .glob uri).filterMap globOf = (l.filterMap globOf).filter fun g => g.1 ≠ uri := by
  rw [List.filterMap_filter, List.filter_filterMap]
  congr
  funext w
  obtain ⟨r, slt⟩ := w
  cases r with
  | exact => rfl
  | glob uri' => by_cases hu : uri' = uri <;> simp [Option.filter, hu]

theorem Records.eraseGlob (h : d.Records ws) (uri : Bytes) :
    eraseGlob uri d.globs = ((live ws).filter fun x => x.1 ≠ .glob uri).filterMap globOf := by
  rw [ServletDispatch.eraseGlob, eraseP_eq_filter h.nodup, filterMap_globOf_glob, h.globs]

/-- A write of a path. -/
theorem Records.exact (h : d.Records ws) (uri : Bytes) (o : Option (Servlet σ κ)) :
    ({ d with datas := Function.update d.datas uri o } : ServletDispatch σ κ).Records (ws ++ [(.exact uri, o)]) where
  datas uri' := by
    rw [last_snoc]
    by_cases hu : uri' = uri
    · subst hu
      simp
    · simp [Function.update_of_ne hu, Ne.symm hu, h.datas uri']
  globs := by
    rw [live_snoc, List.filterMap_append, filterMap_globOf_exact, h.globs]
    cases o <;> simp [globOf]

/-- A write of a pattern. -/
theorem Records.glob (h : d.Records ws) (uri : Bytes) (o : Option (Servlet σ κ)) :
    ({ d with globs := ServletDispatch.eraseGlob uri d.globs ++ (o.map (uri, ·)).toList } :
      ServletDispatch σ κ).Records (ws ++ [(.glob uri, o)]) where
  datas uri' := by
    rw [last_snoc, if_neg (by simp)]
    exact h.datas uri'
  globs := by
    rw [live_snoc, List.filterMap_append, ← h.eraseGlob]
    cases o <;> simp [globOf]

theorem Records.edit (h : d.Records ws) (n : Nat) (op : Edit σ κ) : (d.edit n op).Records (ws ++ [op.write n]) := by
  cases op with
  | addServlet uri slt => exact h.exact uri (some (.given slt))
  | addServletCb uri cb => exact h.exact uri (some (.function cb n))
  | addGlobServlet uri slt => exact h.glob uri (some (.given slt))
  | addGlobServletCb uri cb => exact h.glob uri (some (.function cb n))
  | delServlet uri => exact h.exact uri none
  | delGlobServlet uri =>
    have hdel := h.glob uri none
    rw [Option.map_none, Option.toList_none, List.append_nil] at hdel
    exact hdel

theorem edits_snoc (ops : List (Edit σ κ)) (op : Edit σ κ) :
    d.edits (ops ++ [op]) = (d.edits ops).edit ops.length op := by
  simp [edits, List.zipIdx_append]

theorem writes_snoc (ops : List (Edit σ κ)) (op : Edit σ κ) :
    writes (ops ++ [op]) = writes ops ++ [op.write ops.length] := by
  simp [writes, List.zipIdx_append]

/-- The run lemma. -/
theorem records_edits (slt : Servlet σ κ) (ops : List (Edit σ κ)) : ((new slt).edits ops).Records (writes ops) := by
  induction ops using List.reverseRecOn with
  | nil => exact ⟨fun _ => rfl, rfl⟩
  | append_singleton ops op ih =>
    rw [edits_snoc, writes_snoc]
    exact ih.edit ops.length op

theorem default_edits (slt : Servlet σ κ) (ops : List (Edit σ κ)) : ((new slt).edits ops).default = slt := by
  induction ops using List.reverseRecOn with
  | nil => rfl
  | append_singleton ops op ih =>
    rw [edits_snoc]
    cases op <;> exact ih

/-! ## Routing -/

/-- The first entry whose pattern passes a test is the one that has stood longest. -/
theorem Records.find_some (h : d.Records ws) (p : Bytes → Bool) {it : Bytes × Servlet σ κ}
    (hfind : d.globs.find? (fun it => p it.1) = some it) :
    ∃ i, LiveAt ws i (.glob it.1) it.2 ∧ p it.1 ∧
      ∀ j pattern slt, LiveAt ws j (.glob pattern) slt → p pattern → i ≤ j := by
  rw [h.globs, List.find?_filterMap, Option.bind_eq_some_iff] at hfind
  obtain ⟨w, hw, hit⟩ := hfind
  obtain rfl := globOf_eq_some.1 hit
  obtain ⟨i, hi, hp, hfirst⟩ := find_live hw
  refine ⟨i, hi, by simpa using hp, ?_⟩
  intro j pattern slt hj hp'
  exact hfirst j (.glob pattern) slt hj (by simpa using hp')

theorem Records.find_none (h : d.Records ws) (p : Bytes → Bool) (hfind : d.globs.find? (fun it => p it.1) = none)
    (i : Nat) (pattern : Bytes) (slt : Servlet σ κ) (hi : LiveAt ws i (.glob pattern) slt) : ¬ p pattern := by
  rw [h.globs, List.find?_filterMap, Option.bind_eq_none_iff] at hfind
  have hnone : (live ws).find? (fun w => (globOf w).any fun it => p it.1) = none := by
    refine Option.eq_none_iff_forall_not_mem.2 fun w hw => ?_
    -- an entry found passes the test, so it is that of a pattern
    have htest := List.find?_some hw
    rw [hfind w hw] at htest
    cases htest
  have hrefused := find_live_none hnone i (.glob pattern) slt hi
  simpa using hrefused

theorem Records.getServlet (h : d.Records ws) (uri : Bytes) :
    d.getServlet uri = (last (.exact uri) ws).join := h.datas uri

theorem Records.getGlobalServlet (h : d.Records ws) (uri : Bytes) :
    d.getGlobalServlet uri = (last (.glob uri) ws).join := by
  rw [ServletDispatch.getGlobalServlet]
  cases hfind : d.globs.find? (fun it => it.1 = uri) with
  | some it =>
    obtain ⟨i, hi, hp, -⟩ := h.find_some (fun pattern => pattern = uri) hfind
    obtain rfl : it.1 = uri := by simpa using hp
    rw [exists_liveAt.1 ⟨i, hi⟩]
    rfl
  | none =>
    have hnone : ∀ slt, last (.glob uri) ws ≠ some (some slt) := by
      intro slt hlast
      obtain ⟨i, hi⟩ := exists_liveAt.2 hlast
      exact h.find_none (fun pattern => pattern = uri) hfind i uri slt hi (by simp)
    cases hlast : last (.glob uri) ws with
    | none => rfl
    | some o =>
      cases o with
      | none => rfl
      | some slt => exact absurd hlast (hnone slt)

/-- What tables that record the writes so far select. -/
theorem Records.selects (h : d.Records ws) (fnmatch : Bytes → Bytes → Int) (path : Bytes) :
    Selects fnmatch d.default ws path (d.getMatchedServlet fnmatch path) := by
  rw [getMatchedServlet]
  cases hdata : d.datas path with
  | some slt =>
    rw [h.datas path, Option.join_eq_some_iff] at hdata
    obtain ⟨i, hi⟩ := exists_liveAt.2 hdata
    exact .exact hi
  | none =>
    have hexact : ∀ i slt', ¬ LiveAt ws i (.exact path) slt' := by
      intro i slt' hi
      rw [h.datas path, exists_liveAt.1 ⟨i, hi⟩] at hdata
      cases hdata
    cases hglob : d.globs.find? fun it => globMatches fnmatch it.1 path with
    | some it =>
      obtain ⟨i, hi, hmatch, hfirst⟩ := h.find_some (fun pattern => globMatches fnmatch pattern path) hglob
      refine .glob hexact hi (by simpa using hmatch) ?_
      intro j pattern slt hj hmatch'
      exact hfirst j pattern slt hj (by simpa using hmatch')
    | none =>
      refine .default hexact ?_
      intro i pattern slt hi hmatch
      exact h.find_none (fun pattern => globMatches fnmatch pattern path) hglob i pattern slt hi (by simpa using hmatch)

/-- After any history of edits the dispatch selects what the history says, and no
pattern has two entries. -/
theorem selects_edits (fnmatch : Bytes → Bytes → Int) (slt : Servlet σ κ) (ops : List (Edit σ κ)) (path : Bytes) :
    Selects fnmatch slt (writes ops) path (((new slt).edits ops).getMatchedServlet fnmatch path) ∧
      (((new slt).edits ops).globs.map Prod.fst).Nodup := by
  have hrec := records_edits slt ops
  have hsel := hrec.selects fnmatch path
  rw [default_edits] at hsel
  exact ⟨hsel, hrec.nodup⟩

end ServletDispatch

end Linko.Http

import Linko.Hook.Calls
import Linko.Lib.CString
/-!
# The table of descriptor contexts

`FdManager` of `fd_manager.cc` with threads that call `get`, `del` and the
setters of the contexts they got. `get` looks a descriptor up under the read
lock and creates its context under the write lock, without a second look.
-/

namespace Linko.Hook

open Runs

/-- A `FdCtx::ptr` is the number of the context, in the order of creation. -/
structure FdManager where
  datas : List (Option Nat)
  contexts : List FdCtx
  deriving DecidableEq, Repr

/-- What the constructor makes of the answer of `fstat`: whether the descriptor
is a socket, `none` where it fails. -/
def FdCtx.ofStat (stat : Option Bool) : FdCtx :=
  ⟨stat.isSome, stat = some true, stat = some true, false, false, -1, -1⟩

theorem FdCtx.init_ofStat {ρ : Type} (os : Os ρ) (w : World ρ) (fd : Int) :
    (FdCtx.init os w fd).2 = FdCtx.ofStat (fstat w fd).2 := by
  unfold FdCtx.init FdCtx.ofStat
  by_cases h : (fstat w fd).2 = some true
  · simp [h]
  · simp [h]

namespace FdManager

def new : FdManager := ⟨List.replicate 64 none, []⟩

/-- `(int)m_datas.size()` -/
def size (m : FdManager) : Int := CString.toInt m.datas.length

def slot (m : FdManager) (fd : Int) : Option Nat := (m.datas[fd.toNat]?).join

inductive Found where
  | returns (ctx : Option Nat)
  | creates
  deriving DecidableEq, Repr

/-- The read-locked section of `get`, `none` for an index before the begin of
the table. -/
def find (m : FdManager) (fd : Int) (autoCreate : Bool) : Option Found :=
  if fd = -1 then some (.returns none)
  else if m.size ≤ fd then
    if autoCreate = false then some (.returns none) else some .creates
  else if fd < 0 then none
  else
    match m.slot fd with
    | some ctx => some (.returns (some ctx))
    | none => if autoCreate = false then some (.returns none) else some .creates

/-- `m_datas.resize(n)` -/
def resize (datas : List (Option Nat)) (n : Nat) : List (Option Nat) :=
  datas.take n ++ List.replicate (n - datas.length) none

/-- The write-locked section of `get` with its new `FdCtx`, `none` for an index
outside of the table. -/
def create (m : FdManager) (fd : Int) (ctx : FdCtx) : Option (FdManager × Nat) :=
  let datas := if fd ≥ m.size then resize m.datas (fd * 3 / 2).toNat else m.datas
  if fd < 0 ∨ datas.length ≤ fd then none
  else some (⟨datas.set fd.toNat (some m.contexts.length), m.contexts ++ [ctx]⟩, m.contexts.length)

def del (m : FdManager) (fd : Int) : Option FdManager :=
  if m.size ≤ fd then some m
  else if fd < 0 then none
  else some { m with datas := m.datas.set fd.toNat none }

/-! ## Threads -/

/-- A call of `setTimeout` or `setUserNonblock`. -/
inductive Setting where
  | timeout (type : Int) (v : UInt64)
  | userNonblock (v : Bool)
  deriving DecidableEq, Repr

def change (ctx : FdCtx) : Setting → FdCtx
  | .timeout type v => ctx.setTimeout type v
  | .userNonblock v => { ctx with userNonblock := v }

structure System where
  mgr : FdManager
  /-- The descriptor of a thread that stands between the two sections of `get`. -/
  creating : Nat → Option Int

inductive Action where
  /-- Thread `t` enters `get(fd, auto_create)`. -/
  | find (t : Nat) (fd : Int) (autoCreate : Bool)
  /-- It goes on behind the read-locked section; `stat` is the answer of `fstat`. -/
  | create (t : Nat) (stat : Option Bool)
  | del (fd : Int)
  | set (ctx : Nat) (setting : Setting)
  deriving DecidableEq, Repr

/-- What a caller sees: a context that `get` returned, with its fields. -/
inductive Event where
  | got (fd : Int) (ctx : Nat) (fields : FdCtx)
  | deleted (fd : Int)
  | changed (ctx : Nat) (setting : Setting)
  deriving DecidableEq, Repr

def init : System := ⟨new, fun _ => none⟩

def exec (s : System) : Action → Option (System × List Event)
  | .find t fd autoCreate =>
    if s.creating t = none then do
      match ← s.mgr.find fd autoCreate with
      | .returns none => some (s, [])
      | .returns (some c) => (s.mgr.contexts[c]?).map fun fields => (s, [.got fd c fields])
      | .creates => some ({ s with creating := Function.update s.creating t (some fd) }, [])
    else none
  | .create t stat => do
    let fd ← s.creating t
    let (mgr, c) ← s.mgr.create fd (FdCtx.ofStat stat)
    some (⟨mgr, Function.update s.creating t none⟩, [.got fd c (FdCtx.ofStat stat)])
  | .del fd => (s.mgr.del fd).map fun mgr => ({ s with mgr := mgr }, [.deleted fd])
  | .set c setting =>
    (s.mgr.contexts[c]?).map fun ctx =>
      ({ s with mgr := { s.mgr with contexts := s.mgr.contexts.set c (change ctx setting) } },
        [.changed c setting])

def step (s : System) (a : Action) : Option System := (exec s a).map Prod.fst

def events (s : System) (a : Action) : List Event := ((exec s a).map Prod.snd).getD []

/-- The settings made through a context. -/
def settings (c : Nat) (evs : List Event) : List Setting :=
  evs.filterMap fun e =>
    match e with
    | .changed d setting => if d = c then some setting else none
    | _ => none

/-- Two `get`s of a descriptor with no `del` in between return one context, and
the second finds in it what has been set through it since the first. -/
def OneContext (evs : List Event) : Prop :=
  ∀ pre mid post fd c c' ctx ctx', evs = pre ++ .got fd c ctx :: mid ++ .got fd c' ctx' :: post →
    .deleted fd ∉ mid → c' = c ∧ ctx' = (settings c mid).foldl change ctx

/-- The context is created in a slot that is empty, and the table does not get
too long for an `int`. -/
def Undisturbed (s : System) : Action → Prop
  | .create t _ => ∀ fd, s.creating t = some fd → s.mgr.slot fd = none ∧ fd * 3 / 2 < 2 ^ 31
  | _ => True

/-! ## What a step does -/

/-- `get` has returned a context for `fd`, and `mid` came after that, with no
`del(fd)` in it. -/
def Since (evs : List Event) (fd : Int) (c : Nat) (ctx : FdCtx) (mid : List Event) : Prop :=
  ∃ pre, evs = pre ++ .got fd c ctx :: mid ∧ .deleted fd ∉ mid

theorem since_append {evs : List Event} {e : Event} {fd : Int} {c : Nat} {ctx : FdCtx} {mid : List Event}
    (h : Since (evs ++ [e]) fd c ctx mid) :
    (e = .got fd c ctx ∧ mid = []) ∨ ∃ mid', mid = mid' ++ [e] ∧ e ≠ .deleted fd ∧ Since evs fd c ctx mid' := by
  obtain ⟨pre, heq, hno⟩ := h
  rcases split_concat heq with ⟨-, he, rfl⟩ | ⟨mid', rfl, hevs⟩
  · exact .inl ⟨he.symm, rfl⟩
  · rw [List.mem_append, not_or] at hno
    exact .inr ⟨mid', rfl, fun hd => hno.2 (by rw [hd]; exact List.mem_cons_self), pre, hevs, hno.1⟩

/-- A new event is the last one. -/
theorem oneContext_append {evs : List Event} {e : Event} (h : OneContext evs)
    (hlast : ∀ fd c' ctx', e = .got fd c' ctx' →
      ∀ c ctx mid, Since evs fd c ctx mid → c' = c ∧ ctx' = (settings c mid).foldl change ctx) :
    OneContext (evs ++ [e]) := by
  intro pre mid post fd c c' ctx ctx' heq hno
  -- the second `got` is the new event, or both are old
  rcases split_concat heq with ⟨hpre, he, -⟩ | ⟨post', -, hevs⟩
  · exact hlast fd c' ctx' he.symm c ctx mid ⟨pre, hpre.symm, hno⟩
  · exact h pre mid post' fd c c' ctx ctx' hevs hno

theorem settings_append (c : Nat) (evs : List Event) (e : Event) :
    settings c (evs ++ [e]) = settings c evs ++ settings c [e] := by
  simp [settings]

/-- What was got and not deleted is in the table, with all that was set through
it since. -/
structure Kept (m : FdManager) (evs : List Event) : Prop where
  long : 64 ≤ m.datas.length
  short : m.datas.length < 2 ^ 31
  nonneg : ∀ fd c ctx mid, Since evs fd c ctx mid → 0 ≤ fd
  slot : ∀ fd c ctx mid, Since evs fd c ctx mid → m.slot fd = some c
  fields : ∀ fd c ctx mid, Since evs fd c ctx mid →
    m.contexts[c]? = some ((settings c mid).foldl change ctx)
  one : OneContext evs

theorem kept_init : Kept new [] := by
  have hnone : ∀ fd c ctx mid, ¬ Since [] fd c ctx mid := by
    rintro fd c ctx mid ⟨pre, heq, -⟩
    simp at heq
  refine ⟨by simp [new], by simp [new], ?_, ?_, ?_, ?_⟩
  · exact fun fd c ctx mid h => (hnone fd c ctx mid h).elim
  · exact fun fd c ctx mid h => (hnone fd c ctx mid h).elim
  · exact fun fd c ctx mid h => (hnone fd c ctx mid h).elim
  · intro pre mid post fd c c' ctx ctx' heq
    simp at heq

variable {m m' : FdManager} {evs : List Event} {fd : Int} {c : Nat} {ctx : FdCtx}

theorem Kept.size_eq (h : Kept m evs) : m.size = m.datas.length := CString.toInt_natCast h.short

/-- A context from the table is returned. -/
theorem Kept.got (h : Kept m evs) (hfd : 0 ≤ fd) (hs : m.slot fd = some c) (hc : m.contexts[c]? = some ctx) :
    Kept m (evs ++ [.got fd c ctx]) := by
  refine ⟨h.long, h.short, ?_, ?_, ?_, ?_⟩
  · intro fd' c' ctx' mid hsince
    rcases since_append hsince with ⟨he, -⟩ | ⟨mid', -, -, hbefore⟩
    · cases he
      exact hfd
    · exact h.nonneg _ _ _ _ hbefore
  · intro fd' c' ctx' mid hsince
    rcases since_append hsince with ⟨he, -⟩ | ⟨mid', -, -, hbefore⟩
    · cases he
      exact hs
    · exact h.slot _ _ _ _ hbefore
  · intro fd' c' ctx' mid hsince
    rcases since_append hsince with ⟨he, rfl⟩ | ⟨mid', rfl, -, hbefore⟩
    · cases he
      exact hc
    · rw [settings_append, show settings c' [Event.got fd c ctx] = [] from rfl, List.append_nil]
      exact h.fields _ _ _ _ hbefore
  · refine oneContext_append h.one fun fd' c' ctx' he c₀ ctx₀ mid hbefore => ?_
    cases he
    -- the slot still has what was got before
    have hslot := h.slot _ _ _ _ hbefore
    rw [hs, Option.some.injEq] at hslot
    subst hslot
    have hfields := h.fields _ _ _ _ hbefore
    rw [hc, Option.some.injEq] at hfields
    exact ⟨rfl, hfields⟩

/-- The write-locked section makes the table no shorter and fills one slot. -/
theorem Kept.create_cases (h : Kept m evs) (hsmall : fd * 3 / 2 < 2 ^ 31)
    (hc : m.create fd ctx = some (m', c)) :
    0 ≤ fd ∧ ∃ datas : List (Option Nat), m.datas.length ≤ datas.length ∧ datas.length < 2 ^ 31 ∧
      (∀ i < m.datas.length, datas[i]? = m.datas[i]?) ∧ fd.toNat < datas.length ∧ c = m.contexts.length ∧
      m' = ⟨datas.set fd.toNat (some c), m.contexts ++ [ctx]⟩ := by
  have hlong := h.long
  have hshort := h.short
  simp only [create, h.size_eq] at hc
  obtain ⟨hin, hc⟩ := Option.ite_none_left_eq_some.1 hc
  simp only [Option.some.injEq, Prod.mk.injEq] at hc
  obtain ⟨rfl, rfl⟩ := hc
  refine ⟨by omega, _, ?_, ?_, ?_, ?_, rfl, rfl⟩
  · split
    · rw [resize, List.take_of_length_le (by omega), List.length_append]
      omega
    · exact le_rfl
  · split
    · rw [resize, List.take_of_length_le (by omega), List.length_append, List.length_replicate]
      omega
    · exact hshort
  · intro i hi
    split
    · rw [resize, List.take_of_length_le (by omega), List.getElem?_append_left hi]
    · rfl
  · omega

theorem slot_lt (h : m.slot fd = some c) : fd.toNat < m.datas.length := by
  by_contra hge
  rw [slot, List.getElem?_eq_none (by omega)] at h
  cases h

/-- A context is put into an empty slot. -/
theorem Kept.created (h : Kept m evs) (hs : m.slot fd = none) (hsmall : fd * 3 / 2 < 2 ^ 31)
    (hc : m.create fd ctx = some (m', c)) : Kept m' (evs ++ [.got fd c ctx]) := by
  obtain ⟨hfd, datas, hle, hshort, hsame, hlt, rfl, rfl⟩ := h.create_cases hsmall hc
  -- what was got before is in other slots
  have hother : ∀ {fd' c' ctx' mid}, Since evs fd' c' ctx' mid → fd' ≠ fd := by
    rintro fd' c' ctx' mid hbefore rfl
    have := h.slot _ _ _ _ hbefore
    rw [hs] at this
    cases this
  refine ⟨by simpa using h.long.trans hle, by simpa using hshort, ?_, ?_, ?_, ?_⟩
  · intro fd' c' ctx' mid hsince
    rcases since_append hsince with ⟨he, -⟩ | ⟨mid', -, -, hbefore⟩
    · cases he
      exact hfd
    · exact h.nonneg _ _ _ _ hbefore
  · intro fd' c' ctx' mid hsince
    rcases since_append hsince with ⟨he, -⟩ | ⟨mid', -, -, hbefore⟩
    · cases he
      simp [FdManager.slot, hlt]
    · have hslot := h.slot _ _ _ _ hbefore
      have hne : fd.toNat ≠ fd'.toNat := by
        have := h.nonneg _ _ _ _ hbefore
        have := hother hbefore
        omega
      rw [FdManager.slot, List.getElem?_set_ne hne, hsame _ (slot_lt hslot)]
      exact hslot
  · intro fd' c' ctx' mid hsince
    rcases since_append hsince with ⟨he, rfl⟩ | ⟨mid', rfl, -, hbefore⟩
    · cases he
      simp [settings]
    · have hfields := h.fields _ _ _ _ hbefore
      rw [settings_append, show settings c' [Event.got fd m.contexts.length ctx] = [] from rfl, List.append_nil,
        List.getElem?_append_left (List.getElem?_eq_some_iff.1 hfields).1]
      exact hfields
  · refine oneContext_append h.one fun fd' c' ctx' he c₀ ctx₀ mid hbefore => ?_
    cases he
    exact absurd rfl (hother hbefore)

theorem Kept.deleted (h : Kept m evs) (hd : m.del fd = some m') : Kept m' (evs ++ [.deleted fd]) := by
  have hone : OneContext (evs ++ [.deleted fd]) := oneContext_append h.one fun _ _ _ he => by cases he
  have hbefore : ∀ {fd' c' ctx' mid}, Since (evs ++ [.deleted fd]) fd' c' ctx' mid →
      ∃ mid', mid = mid' ++ [.deleted fd] ∧ fd ≠ fd' ∧ Since evs fd' c' ctx' mid' := by
    intro fd' c' ctx' mid hsince
    rcases since_append hsince with ⟨he, -⟩ | ⟨mid', hmid, hne, hbefore⟩
    · cases he
    · exact ⟨mid', hmid, fun hfd => hne (by rw [hfd]), hbefore⟩
  have hfields : ∀ fd' c' ctx' mid, Since (evs ++ [.deleted fd]) fd' c' ctx' mid →
      m.contexts[c']? = some ((settings c' mid).foldl change ctx') := by
    intro fd' c' ctx' mid hsince
    obtain ⟨mid', rfl, -, hs⟩ := hbefore hsince
    rw [settings_append, show settings c' [Event.deleted fd] = [] from rfl, List.append_nil]
    exact h.fields _ _ _ _ hs
  have hnonneg : ∀ fd' c' ctx' mid, Since (evs ++ [.deleted fd]) fd' c' ctx' mid → 0 ≤ fd' := by
    intro fd' c' ctx' mid hsince
    obtain ⟨mid', -, -, hs⟩ := hbefore hsince
    exact h.nonneg _ _ _ _ hs
  unfold del at hd
  -- behind the end of the table there is nothing to delete
  by_cases hsize : m.size ≤ fd
  · rw [if_pos hsize, Option.some.injEq] at hd
    subst hd
    refine ⟨h.long, h.short, hnonneg, ?_, hfields, hone⟩
    intro fd' c' ctx' mid hsince
    obtain ⟨mid', -, -, hs⟩ := hbefore hsince
    exact h.slot _ _ _ _ hs
  · rw [if_neg hsize] at hd
    obtain ⟨hfd, hd⟩ := Option.ite_none_left_eq_some.1 hd
    rw [Option.some.injEq] at hd
    subst hd
    refine ⟨by simpa using h.long, by simpa using h.short, hnonneg, ?_, hfields, hone⟩
    intro fd' c' ctx' mid hsince
    obtain ⟨mid', -, hne, hs⟩ := hbefore hsince
    -- descriptors that are not negative have slots of their own
    have := h.nonneg _ _ _ _ hs
    rw [FdManager.slot, List.getElem?_set_ne (by omega)]
    exact h.slot _ _ _ _ hs

/-- A setting is made through a context. -/
theorem Kept.changed (h : Kept m evs) (hc : m.contexts[c]? = some ctx) (setting : Setting) :
    Kept { m with contexts := m.contexts.set c (change ctx setting) } (evs ++ [.changed c setting]) := by
  have hbefore : ∀ {fd' c' ctx' mid}, Since (evs ++ [.changed c setting]) fd' c' ctx' mid →
      ∃ mid', mid = mid' ++ [.changed c setting] ∧ Since evs fd' c' ctx' mid' := by
    intro fd' c' ctx' mid hsince
    rcases since_append hsince with ⟨he, -⟩ | ⟨mid', hmid, -, hbefore⟩
    · cases he
    · exact ⟨mid', hmid, hbefore⟩
  refine ⟨h.long, h.short, ?_, ?_, ?_, oneContext_append h.one fun _ _ _ he => by cases he⟩
  · intro fd' c' ctx' mid hsince
    obtain ⟨mid', -, hs⟩ := hbefore hsince
    exact h.nonneg _ _ _ _ hs
  · intro fd' c' ctx' mid hsince
    obtain ⟨mid', -, hs⟩ := hbefore hsince
    exact h.slot _ _ _ _ hs
  · intro fd' c' ctx' mid hsince
    obtain ⟨mid', rfl, hs⟩ := hbefore hsince
    have hfields := h.fields _ _ _ _ hs
    rw [settings_append, List.foldl_append]
    rcases eq_or_ne c c' with rfl | hne
    · rw [hc, Option.some.injEq] at hfields
      rw [List.getElem?_set_self (List.getElem?_eq_some_iff.1 hc).1, hfields]
      simp [settings]
    · rw [List.getElem?_set_ne hne, hfields]
      simp [settings, hne]

/-! ## Runs -/

/-- The read-locked section returns what is in the slot. -/
theorem find_returns {autoCreate : Bool} (h : m.find fd autoCreate = some (.returns (some c))) :
    0 ≤ fd ∧ m.slot fd = some c := by
  unfold find at h
  by_cases h1 : fd = -1
  · simp [h1] at h
  rw [if_neg h1] at h
  by_cases h2 : m.size ≤ fd
  · cases autoCreate <;> simp [h2] at h
  rw [if_neg h2] at h
  obtain ⟨hfd, h⟩ := Option.ite_none_left_eq_some.1 h
  cases hs : m.slot fd with
  | none => cases autoCreate <;> simp [hs] at h
  | some d =>
    simp only [hs, Option.some.injEq, Found.returns.injEq] at h
    exact ⟨by omega, by rw [h]⟩

/-- One step of a thread, which keeps the table if it does not disturb it. -/
theorem kept_step {s s' : System} {a : Action} (h : Kept s.mgr evs) (hok : Undisturbed s a)
    (ha : step s a = some s') : Kept s'.mgr (evs ++ events s a) := by
  have hexec : exec s a = some (s', events s a) := exec_of_step ha
  generalize events s a = new at hexec ⊢
  cases a with
  | find t fd autoCreate =>
    obtain ⟨-, hexec⟩ := Option.ite_none_right_eq_some.1 hexec
    simp only [Option.bind_eq_bind, Option.bind_eq_some_iff] at hexec
    obtain ⟨found, hfind, hr⟩ := hexec
    rcases found with (_ | c) | _
    · cases hr
      rwa [List.append_nil]
    · obtain ⟨ctx, hctx, hr⟩ := Option.map_eq_some_iff.1 hr
      cases hr
      obtain ⟨hfd, hslot⟩ := find_returns hfind
      exact h.got hfd hslot hctx
    · cases hr
      rwa [List.append_nil]
  | create t stat =>
    simp only [exec, Option.bind_eq_bind, Option.bind_eq_some_iff] at hexec
    obtain ⟨fd, hfd, ⟨mgr, c⟩, hcreate, hr⟩ := hexec
    cases hr
    obtain ⟨hslot, hsmall⟩ := hok fd hfd
    exact h.created hslot hsmall hcreate
  | del fd =>
    obtain ⟨mgr, hdel, hr⟩ := Option.map_eq_some_iff.1 hexec
    cases hr
    exact h.deleted hdel
  | set c setting =>
    obtain ⟨ctx, hctx, hr⟩ := Option.map_eq_some_iff.1 hexec
    cases hr
    exact h.changed hctx setting

/-- In every run of any number of threads in which no context is created over
another one, `get` returns one context for a descriptor from one `del` to the
next, with everything that was set through it. -/
theorem one_context_of_undisturbed {hist : List (System × Action)} {s : System} (h : Run step init hist s)
    (hok : ∀ x ∈ hist, Undisturbed x.1 x.2) : OneContext (output events hist) := by
  have hkept : Kept s.mgr (output events hist) :=
    h.recorded (P := fun s evs => Kept s.mgr evs) kept_init (fun _ _ _ _ hk hu ha => kept_step hk hu ha) hok
  exact hkept.one

/-- Thread 1 asks for descriptor 5 when thread 0 has created its context. -/
theorem one_context_after :
    ∃ hist s, Run step init hist s ∧ OneContext (output events hist) ∧
      output events hist = [.got 5 0 (.ofStat (some true)), .changed 0 (.userNonblock true),
        .got 5 0 (change (.ofStat (some true)) (.userNonblock true))] := by
  obtain ⟨hist, s, hgo⟩ :
      ∃ hist s, go step [] init [.find 0 5 true, .create 0 (some true), .set 0 (.userNonblock true),
      .find 1 5 true] = some (hist, s) := ⟨_, _, rfl⟩
  have hrun := run_of_go .start hgo
  cases hgo
  refine ⟨_, _, hrun, one_context_of_undisturbed hrun ?_, rfl⟩
  intro x hx
  simp only [List.nil_append, List.cons_append, List.mem_cons, List.not_mem_nil, or_false] at hx
  rcases hx with rfl | rfl | rfl | rfl
  · exact trivial
  · intro fd hfd
    cases hfd
    exact ⟨rfl, by decide⟩
  · exact trivial
  · exact trivial

/-- Two threads ask for descriptor 5, and both find its slot empty. -/
theorem not_one_context_race :
    ¬ ∀ hist s, Run step init hist s → OneContext (output events hist) := by
  intro h
  obtain ⟨hist, s, hgo⟩ : ∃ hist s, go step [] init [.find 0 5 true, .find 1 5 true, .create 0 (some true),
      .create 1 (some true)] = some (hist, s) := ⟨_, _, rfl⟩
  have hone := h hist s (run_of_go .start hgo)
  cases hgo
  have heq := (hone [] [] [] 5 0 1 (.ofStat (some true)) (.ofStat (some true)) rfl List.not_mem_nil).1
  cases heq

end FdManager

end Linko.Hook

import Mathlib.Data.List.Basic
import Mathlib.Data.List.Find
/-!
# Generated byte machines

A scanner generated by Ragel is a table: for a state and a byte it gives the
actions to run and the next state, or nothing. `exec` runs the table over a
buffer; the actions are callbacks that change a state and may fail. Which
actions run, and where, does not depend on the callbacks, so a run is its
`trace` followed by a fold of the callbacks over it.
-/

namespace Ragel

/-- Ranges of byte values, both ends included. -/
abbrev ByteClass := List (Nat × Nat)

def ByteClass.has (k : ByteClass) (b : UInt8) : Bool :=
  k.any fun r => Nat.ble r.1 b.toNat && Nat.ble b.toNat r.2

/-- A property of all bytes is checked byte by byte. -/
instance decidableForallByte {P : UInt8 → Prop} [DecidablePred P] : Decidable (∀ b, P b) :=
  decidable_of_iff (∀ n < 256, P (UInt8.ofNat n))
    ⟨fun h b => UInt8.ofNat_toNat (x := b) ▸ h b.toNat b.toNat_lt, fun h n _ => h (UInt8.ofNat n)⟩

/-- One transition. A `guarded` one exists only under the condition of the
grammar (`when`). -/
structure Edge (Act : Type) where
  on : ByteClass
  acts : List Act
  target : Nat
  guarded : Bool
  deriving DecidableEq

def row {Act : Type} : List (Nat × List (Edge Act)) → Nat → List (Edge Act)
  | [], _ => []
  | (n, es) :: rows, cs => if Nat.beq n cs then es else row rows cs

/-- The transition of a table from state `cs` on `b`, under condition `cond`. -/
def lookup {Act : Type} (rows : List (Nat × List (Edge Act))) (cond : Bool) (cs : Nat) (b : UInt8) :
    Option (List Act × Nat) :=
  ((row rows cs).find? fun e => e.on.has b && (cond || !e.guarded)).map fun e => (e.acts, e.target)

def one (c : Char) : ByteClass := [(c.toNat, c.toNat)]

/-- A letter given as a capital, in either case. -/
def either (c : Char) : ByteClass := [(c.toNat, c.toNat), (c.toNat + 32, c.toNat + 32)]

def anyByte : ByteClass := [(0, 255)]

theorem has_anyByte (b : UInt8) : anyByte.has b = true := by
  have := b.toNat_lt
  simp [ByteClass.has, anyByte]
  omega

/-- No range of the one meets a range of the other. -/
def ByteClass.disjoint (k l : ByteClass) : Bool := k.all fun r => l.all fun q => Nat.blt r.2 q.1 || Nat.blt q.2 r.1

theorem ByteClass.disjoint_has {k l : ByteClass} (h : k.disjoint l = true) {b : UInt8} (hk : k.has b = true) :
    l.has b = false := by
  obtain ⟨r, hr, hin⟩ := List.any_eq_true.1 hk
  rw [ByteClass.has, List.any_eq_false]
  intro q hq hin'
  have hapart := List.all_eq_true.1 (List.all_eq_true.1 h r hr) q hq
  simp only [Bool.and_eq_true, Bool.or_eq_true, Nat.ble_eq, Nat.blt_eq] at hin hin' hapart
  omega

def lf : ByteClass := [(10, 10)]

def cr : ByteClass := [(13, 13)]

def nul : ByteClass := [(0, 0)]

structure Machine (Act : Type) where
  next : Nat → UInt8 → Option (List Act × Nat)
  /-- The actions that leave the scanner (`fbreak`). -/
  breaks : Act → Bool

namespace Machine

variable {Act σ ε : Type} (M : Machine Act)

/-- A run over a buffer from state `cs` at offset `p`. Without a transition it
ends in the error state `0`, at the offending byte. -/
def exec (act : Nat → σ → Act → Except ε σ) : Nat → Nat → σ → List UInt8 → Except ε (Nat × Nat × σ)
  | cs, p, s, [] => .ok (cs, p, s)
  | cs, p, s, b :: bs =>
    match M.next cs b with
    | none => .ok (0, p, s)
    | some (acts, t) => do
      let s ← acts.foldlM (act p) s
      if acts.any M.breaks then .ok (t, p + 1, s) else exec act t (p + 1) s bs

end Machine

/-! ## Tables -/

theorem row_mem {Act : Type} {rows : List (Nat × List (Edge Act))} {cs : Nat} {e : Edge Act}
    (h : e ∈ row rows cs) :
    ∃ es, (cs, es) ∈ rows ∧ e ∈ es := by
  induction rows with
  | nil => exact absurd h List.not_mem_nil
  | cons r rows ih =>
    obtain ⟨n, es⟩ := r
    rw [row] at h
    by_cases hn : Nat.beq n cs
    · rw [if_pos hn] at h
      obtain rfl := Nat.eq_of_beq_eq_true hn
      exact ⟨es, List.mem_cons_self, h⟩
    · rw [if_neg hn] at h
      obtain ⟨es', hm, he⟩ := ih h
      exact ⟨es', List.mem_cons_of_mem _ hm, he⟩

/-- What holds of every entry of a table holds of every transition. -/
theorem lookup_all {Act : Type} {rows : List (Nat × List (Edge Act))} {P : Nat → Edge Act → Prop}
    (h : ∀ r ∈ rows, ∀ e ∈ r.2, P r.1 e) {cond : Bool} {cs t : Nat} {b : UInt8} {acts : List Act}
    (hn : lookup rows cond cs b = some (acts, t)) :
    ∃ e, P cs e ∧ e.on.has b = true ∧ e.acts = acts ∧ e.target = t := by
  simp only [lookup, Option.map_eq_some_iff, Prod.mk.injEq] at hn
  obtain ⟨e, he, rfl, rfl⟩ := hn
  obtain ⟨es, hm, hes⟩ := row_mem (List.mem_of_find?_eq_some he)
  have hb := List.find?_some he
  exact ⟨e, h (cs, es) hm e hes, (Bool.and_eq_true_iff.1 hb).1, rfl, rfl⟩

theorem row_cases {Act : Type} (rows : List (Nat × List (Edge Act))) (cs : Nat) :
    row rows cs = [] ∨ (cs, row rows cs) ∈ rows := by
  induction rows with
  | nil => exact .inl rfl
  | cons r rows ih =>
    obtain ⟨n, es⟩ := r
    rw [row]
    by_cases hn : Nat.beq n cs
    · rw [if_pos hn]
      obtain rfl := Nat.eq_of_beq_eq_true hn
      exact .inr List.mem_cons_self
    · rw [if_neg hn]
      exact ih.imp id (List.mem_cons_of_mem _)

/-- There is a transition on the byte that depends on the condition. -/
def guardedOn {Act : Type} (rows : List (Nat × List (Edge Act))) (cs : Nat) (b : UInt8) : Bool :=
  (row rows cs).any fun e => e.guarded && e.on.has b

/-- Elsewhere the condition does not matter. -/
theorem lookup_unguarded {Act : Type} {rows : List (Nat × List (Edge Act))} {cs : Nat} {b : UInt8}
    (h : guardedOn rows cs b = false) (cond : Bool) : lookup rows cond cs b = lookup rows false cs b := by
  unfold lookup
  congr 1
  refine List.find?_congr fun e he => ?_
  have hguard := List.any_eq_false.1 h e he
  cases hon : e.on.has b
  · rfl
  · have hfree : e.guarded = false := by simpa [hon] using hguard
    simp [hfree]

/-- A byte of a transition that depends on the condition has no other one. -/
def Exclusive {Act : Type} (rows : List (Nat × List (Edge Act))) : Prop :=
  ∀ r ∈ rows, ∀ e ∈ r.2, ∀ d ∈ r.2, e.guarded = true → d.guarded = false → e.on.disjoint d.on = true

theorem lookup_guarded {Act : Type} {rows : List (Nat × List (Edge Act))} (hrows : Exclusive rows) {cs : Nat}
    {b : UInt8} (h : guardedOn rows cs b = true) :
    lookup rows false cs b = none ∧ (lookup rows true cs b).isSome := by
  obtain ⟨e, he, hguard⟩ := List.any_eq_true.1 h
  rw [Bool.and_eq_true] at hguard
  have hrow : (cs, row rows cs) ∈ rows := (row_cases rows cs).resolve_left (List.ne_nil_of_mem he)
  constructor
  · rw [lookup, Option.map_eq_none_iff, List.find?_eq_none]
    intro d hd hon
    simp only [Bool.and_eq_true, Bool.false_or, Bool.not_eq_true'] at hon
    have hapart := ByteClass.disjoint_has (hrows _ hrow e he d hd hguard.1 hon.2) hguard.2
    exact Bool.false_ne_true (hapart.symm.trans hon.1)
  · rw [lookup, Option.isSome_map, List.find?_isSome]
    exact ⟨e, he, by simp [hguard.2]⟩

/-! ## Traces -/

/-- What a machine does on a buffer: its last state, how many bytes it has
read, whether it has stopped on its own, and the actions with their offsets. -/
structure Trace (Act : Type) where
  state : Nat
  used : Nat
  halted : Bool
  events : List (Nat × Act)
  deriving DecidableEq

def shift {Act : Type} (d : Nat) (evs : List (Nat × Act)) : List (Nat × Act) := evs.map fun e => (d + e.1, e.2)

section

variable {Act σ ε : Type}

@[simp] theorem shift_nil (d : Nat) : shift d ([] : List (Nat × Act)) = [] := rfl

@[simp] theorem shift_append (d : Nat) (xs ys : List (Nat × Act)) :
    shift d (xs ++ ys) = shift d xs ++ shift d ys := by
  simp [shift]

@[simp] theorem shift_shift (d e : Nat) (xs : List (Nat × Act)) : shift d (shift e xs) = shift (d + e) xs := by
  simp [shift, Nat.add_assoc]

@[simp] theorem shift_zero (xs : List (Nat × Act)) : shift 0 xs = xs := by simp [shift]

/-- The callbacks of a list of actions, for a buffer that starts at `p`. -/
def runEvents (act : Nat → σ → Act → Except ε σ) (p : Nat) (evs : List (Nat × Act)) (s : σ) : Except ε σ :=
  evs.foldlM (fun s e => act (p + e.1) s e.2) s

@[simp] theorem runEvents_nil (act : Nat → σ → Act → Except ε σ) (p : Nat) (s : σ) :
    runEvents act p [] s = .ok s := rfl

theorem runEvents_cons (act : Nat → σ → Act → Except ε σ) (p : Nat) (e : Nat × Act)
    (evs : List (Nat × Act)) (s : σ) :
    runEvents act p (e :: evs) s = act (p + e.1) s e.2 >>= runEvents act p evs := by
  rw [runEvents, List.foldlM_cons]
  rfl

theorem runEvents_append (act : Nat → σ → Act → Except ε σ) (p : Nat) (xs ys : List (Nat × Act)) (s : σ) :
    runEvents act p (xs ++ ys) s = runEvents act p xs s >>= runEvents act p ys := by
  rw [runEvents, List.foldlM_append]
  rfl

theorem runEvents_shift (act : Nat → σ → Act → Except ε σ) (p d : Nat) (evs : List (Nat × Act)) (s : σ) :
    runEvents act p (shift d evs) s = runEvents act (p + d) evs s := by
  simp only [runEvents, shift, List.foldlM_map, Nat.add_assoc]

theorem runEvents_here (act : Nat → σ → Act → Except ε σ) (p : Nat) (acts : List Act) (s : σ) :
    runEvents act p (acts.map fun a => (0, a)) s = acts.foldlM (act p) s := by
  simp only [runEvents, List.foldlM_map, Nat.add_zero]

/-- The offsets of the actions do not decrease, from `lo` on and below `hi`. -/
def Timed (lo hi : Nat) : List (Nat × Act) → Prop
  | [] => lo ≤ hi
  | e :: evs => lo ≤ e.1 ∧ e.1 < hi ∧ Timed e.1 hi evs

theorem Timed.shift {lo hi : Nat} {evs : List (Nat × Act)} (h : Timed lo hi evs) (d : Nat) :
    Timed (d + lo) (d + hi) (shift d evs) := by
  induction evs generalizing lo with
  | nil => exact Nat.add_le_add_left h d
  | cons e evs ih => exact ⟨Nat.add_le_add_left h.1 d, Nat.add_lt_add_left h.2.1 d, ih h.2.2⟩

theorem Timed.mono {lo lo' hi : Nat} {evs : List (Nat × Act)} (h : Timed lo hi evs) (hl : lo' ≤ lo) :
    Timed lo' hi evs := by
  cases evs with
  | nil => exact Nat.le_trans hl h
  | cons e evs => exact ⟨Nat.le_trans hl h.1, h.2⟩

theorem Timed.weaken {lo hi hi' : Nat} {evs : List (Nat × Act)} (h : Timed lo hi evs) (hl : hi ≤ hi') :
    Timed lo hi' evs := by
  induction evs generalizing lo with
  | nil => exact Nat.le_trans h hl
  | cons e evs ih => exact ⟨h.1, Nat.lt_of_lt_of_le h.2.1 hl, ih h.2.2⟩

theorem Timed.here {lo hi : Nat} {evs : List (Nat × Act)} (acts : List Act) (hl : lo < hi)
    (h : Timed lo hi evs) :
    Timed lo hi ((acts.map fun a => (lo, a)) ++ evs) := by
  induction acts with
  | nil => exact h
  | cons a acts ih => exact ⟨Nat.le_refl lo, hl, ih⟩

/-- What holds at the start and is kept by every callback, at its offset,
holds at the end. -/
theorem Timed.run {act : Nat → σ → Act → Except ε σ} {I : Nat → σ → Prop} {p lo hi : Nat}
    {evs : List (Nat × Act)}
    (h : Timed lo hi evs) (mono : ∀ q r s, q ≤ r → I q s → I r s)
    (step : ∀ q a s s', q < hi → I q s → act (p + q) s a = .ok s' → I q s') {s s' : σ} (hs : I lo s)
    (hrun : runEvents act p evs s = .ok s') : I hi s' := by
  induction evs generalizing lo s with
  | nil =>
    rw [runEvents_nil, Except.ok.injEq] at hrun
    exact hrun ▸ mono lo hi s h hs
  | cons e evs ih =>
    obtain ⟨hlo, hhi, hrest⟩ := h
    rw [runEvents_cons] at hrun
    cases hact : act (p + e.1) s e.2 with
    | error f =>
      rw [hact] at hrun
      cases hrun
    | ok s₁ =>
      rw [hact] at hrun
      exact ih hrest (step e.1 e.2 s s₁ hhi (mono lo e.1 s hlo hs) hact) hrun

theorem Timed.lt {lo hi : Nat} {evs : List (Nat × Act)} (h : Timed lo hi evs) : ∀ e ∈ evs, e.1 < hi := by
  induction evs generalizing lo with
  | nil => nofun
  | cons e evs ih => exact List.forall_mem_cons.2 ⟨h.2.1, ih h.2.2⟩

/-- What every callback of a list keeps, the list keeps. -/
theorem runEvents_inv {act : Nat → σ → Act → Except ε σ} {I : σ → Prop} {p : Nat} {evs : List (Nat × Act)}
    (step : ∀ e ∈ evs, ∀ s s', I s → act (p + e.1) s e.2 = .ok s' → I s') {s s' : σ} (hs : I s)
    (hrun : runEvents act p evs s = .ok s') : I s' := by
  induction evs generalizing s with
  | nil =>
    rw [runEvents_nil, Except.ok.injEq] at hrun
    exact hrun ▸ hs
  | cons e evs ih =>
    rw [runEvents_cons] at hrun
    cases hact : act (p + e.1) s e.2 with
    | error f =>
      rw [hact] at hrun
      cases hrun
    | ok s₁ =>
      rw [hact] at hrun
      exact ih (fun d hd => step d (List.mem_cons_of_mem e hd)) (step e List.mem_cons_self s s₁ hs hact) hrun

end

namespace Machine

variable {Act σ ε : Type} (M : Machine Act)

def trace : Nat → List UInt8 → Trace Act
  | cs, [] => ⟨cs, 0, false, []⟩
  | cs, b :: bs =>
    match M.next cs b with
    | none => ⟨0, 0, true, []⟩
    | some (acts, t) =>
      if acts.any M.breaks then ⟨t, 1, true, acts.map fun a => (0, a)⟩
      else
        let r := trace t bs
        ⟨r.state, 1 + r.used, r.halted, (acts.map fun a => (0, a)) ++ shift 1 r.events⟩

@[simp] theorem trace_nil (cs : Nat) : M.trace cs [] = ⟨cs, 0, false, []⟩ := rfl

theorem trace_next (cs : Nat) (b : UInt8) (bs : List UInt8) :
    M.trace cs (b :: bs) =
      match M.next cs b with
      | none => ⟨0, 0, true, []⟩
      | some (acts, t) =>
        if acts.any M.breaks then ⟨t, 1, true, acts.map fun a => (0, a)⟩
        else ⟨(M.trace t bs).state, 1 + (M.trace t bs).used, (M.trace t bs).halted,
          (acts.map fun a => (0, a)) ++ shift 1 (M.trace t bs).events⟩ := rfl

/-- A run is its trace with the callbacks folded over it. -/
theorem exec_eq (act : Nat → σ → Act → Except ε σ) (cs p : Nat) (s : σ) (bs : List UInt8) :
    M.exec act cs p s bs =
      (do
        let s ← runEvents act p (M.trace cs bs).events s
        .ok ((M.trace cs bs).state, p + (M.trace cs bs).used, s)) := by
  induction bs generalizing cs p s with
  | nil => rfl
  | cons b bs ih =>
    rw [exec, trace_next]
    cases hn : M.next cs b with
    | none => rfl
    | some e =>
      obtain ⟨acts, t⟩ := e
      by_cases hb : acts.any M.breaks
      · simp only [hb, if_true, runEvents_here]
      · simp only [hb, Bool.false_eq_true, if_false, ih, runEvents_append, runEvents_shift, runEvents_here,
          bind_assoc, Nat.add_assoc]

/-! ## Putting traces together -/

theorem trace_cons {cs t : Nat} {b : UInt8} {acts : List Act} (h : M.next cs b = some (acts, t))
    (hb : acts.any M.breaks = false) (bs : List UInt8) :
    M.trace cs (b :: bs) = ⟨(M.trace t bs).state, 1 + (M.trace t bs).used, (M.trace t bs).halted,
      (acts.map fun a => (0, a)) ++ shift 1 (M.trace t bs).events⟩ := by
  rw [trace_next]
  simp only [h, hb, Bool.false_eq_true, if_false]

/-- The first transition of a machine that does not stop. -/
theorem trace_goes_on {cs : Nat} {b : UInt8} {bs : List UInt8} (h : (M.trace cs (b :: bs)).halted = false) :
    ∃ acts t, M.next cs b = some (acts, t) ∧ acts.any M.breaks = false ∧ (M.trace t bs).halted = false := by
  cases hn : M.next cs b with
  | none => simp [trace_next, hn] at h
  | some e =>
    obtain ⟨acts, t⟩ := e
    by_cases hb : acts.any M.breaks
    · simp [trace_next, hn, hb] at h
    · have hb' : acts.any M.breaks = false := by simpa using hb
      rw [M.trace_cons hn hb'] at h
      exact ⟨acts, t, rfl, hb', h⟩

/-- A machine that has not stopped has read everything. -/
theorem trace_used {cs : Nat} {xs : List UInt8} (h : (M.trace cs xs).halted = false) :
    (M.trace cs xs).used = xs.length := by
  induction xs generalizing cs with
  | nil => rfl
  | cons b bs ih =>
    obtain ⟨acts, t, hn, hb, hrest⟩ := M.trace_goes_on h
    rw [M.trace_cons hn hb, List.length_cons, ← ih hrest, Nat.add_comm]

theorem trace_used_le (cs : Nat) (xs : List UInt8) : (M.trace cs xs).used ≤ xs.length := by
  induction xs generalizing cs with
  | nil => simp
  | cons b bs ih =>
    rw [trace_next]
    cases hn : M.next cs b with
    | none => simp
    | some e =>
      obtain ⟨acts, t⟩ := e
      by_cases hb : acts.any M.breaks
      · simp [hb]
      · simp only [hb, Bool.false_eq_true, if_false, List.length_cons]
        have := ih t
        omega

theorem trace_timed (cs : Nat) (xs : List UInt8) : Timed 0 (M.trace cs xs).used (M.trace cs xs).events := by
  induction xs generalizing cs with
  | nil => exact Nat.le_refl 0
  | cons b bs ih =>
    rw [trace_next]
    cases hn : M.next cs b with
    | none => exact Nat.le_refl 0
    | some e =>
      obtain ⟨acts, t⟩ := e
      by_cases hb : acts.any M.breaks
      · simp only [hb, if_true]
        have := @Timed.here _ 0 1 [] acts Nat.zero_lt_one (Nat.zero_le 1)
        rwa [List.append_nil] at this
      · simp only [hb, Bool.false_eq_true, if_false]
        exact Timed.here acts (by omega) (((ih t).shift 1).mono (Nat.zero_le _))

/-- A machine that has not stopped has run no action that stops it. -/
theorem trace_breaks {cs : Nat} {xs : List UInt8} (h : (M.trace cs xs).halted = false) :
    ∀ e ∈ (M.trace cs xs).events, M.breaks e.2 = false := by
  induction xs generalizing cs with
  | nil => nofun
  | cons b bs ih =>
    obtain ⟨acts, t, hn, hb, hrest⟩ := M.trace_goes_on h
    rw [M.trace_cons hn hb]
    intro e he
    rcases List.mem_append.1 he with he | he
    · obtain ⟨a, ha, rfl⟩ := List.mem_map.1 he
      exact Bool.eq_false_iff.2 (List.any_eq_false.1 hb a ha)
    · obtain ⟨d, hd, rfl⟩ := List.mem_map.1 he
      exact ih hrest d hd

/-- A machine that has not stopped is where it was or at the end of a transition
that did not stop it. -/
theorem trace_state {P : Nat → Prop} (hP : ∀ {cs b acts t}, M.next cs b = some (acts, t) →
    acts.any M.breaks = false → P t) {cs : Nat} {xs : List UInt8}
      (h : (M.trace cs xs).halted = false) (hcs : P cs) :
    P (M.trace cs xs).state := by
  induction xs generalizing cs with
  | nil => exact hcs
  | cons b bs ih =>
    obtain ⟨acts, t, hn, hb, hrest⟩ := M.trace_goes_on h
    rw [M.trace_cons hn hb]
    exact ih hrest (hP hn hb)

/-- Every action comes from a transition on the byte at its offset. -/
theorem trace_event {cs : Nat} {xs : List UInt8} : ∀ e ∈ (M.trace cs xs).events,
    ∃ m b acts t, M.next m b = some (acts, t) ∧ e.2 ∈ acts ∧ xs[e.1]? = some b := by
  induction xs generalizing cs with
  | nil => nofun
  | cons b bs ih =>
    cases hn : M.next cs b with
    | none => simp [trace_next, hn]
    | some e =>
      obtain ⟨acts, t⟩ := e
      have here : ∀ e ∈ acts.map fun a => (0, a), ∃ m c acts t, M.next m c = some (acts, t) ∧ e.2 ∈ acts ∧
          (b :: bs)[e.1]? = some c := by
        intro e he
        obtain ⟨a, ha, rfl⟩ := List.mem_map.1 he
        exact ⟨cs, b, acts, t, hn, ha, rfl⟩
      by_cases hb : acts.any M.breaks
      · simpa [trace_next, hn, hb] using here
      · have hb' : acts.any M.breaks = false := by simpa using hb
        rw [M.trace_cons hn hb']
        intro e he
        rcases List.mem_append.1 he with he | he
        · exact here e he
        · obtain ⟨d, hd, rfl⟩ := List.mem_map.1 he
          obtain ⟨m, c, acts', t', hm, ha, hc⟩ := ih d hd
          exact ⟨m, c, acts', t', hm, ha, by rw [Nat.add_comm, List.getElem?_cons_succ]; exact hc⟩

/-- Going on after a part that did not stop. -/
theorem trace_append {cs : Nat} {xs : List UInt8} (h : (M.trace cs xs).halted = false) (ys : List UInt8) :
    M.trace cs (xs ++ ys) = ⟨(M.trace (M.trace cs xs).state ys).state,
      xs.length + (M.trace (M.trace cs xs).state ys).used, (M.trace (M.trace cs xs).state ys).halted,
      (M.trace cs xs).events ++ shift xs.length (M.trace (M.trace cs xs).state ys).events⟩ := by
  induction xs generalizing cs with
  | nil => simp
  | cons b bs ih =>
    obtain ⟨acts, t, hn, hb, hrest⟩ := M.trace_goes_on h
    rw [M.trace_cons hn hb, List.cons_append, M.trace_cons hn hb, ih hrest]
    simp only [shift_append, shift_shift, List.append_assoc, List.length_cons, Trace.mk.injEq, true_and]
    exact ⟨by omega, by rw [Nat.add_comm]⟩

/-- Bytes behind the place where the machine has stopped do not matter. -/
theorem trace_halted {cs : Nat} {xs : List UInt8} (h : (M.trace cs xs).halted = true) (ys : List UInt8) :
    M.trace cs (xs ++ ys) = M.trace cs xs := by
  induction xs generalizing cs with
  | nil => simp at h
  | cons b bs ih =>
    cases hn : M.next cs b with
    | none => simp [trace_next, hn]
    | some e =>
      obtain ⟨acts, t⟩ := e
      by_cases hb : acts.any M.breaks
      · simp [trace_next, hn, hb]
      · have hb' : acts.any M.breaks = false := by simpa using hb
        rw [M.trace_cons hn hb'] at h ⊢
        rw [List.cons_append, M.trace_cons hn hb', ih h]

/-- A trace that uses more than `xs` does not halt in `xs`. -/
theorem trace_goes {cs : Nat} {xs : List UInt8} (ys : List UInt8)
    (h : xs.length < (M.trace cs (xs ++ ys)).used) :
    (M.trace cs xs).halted = false := by
  by_contra hstop
  rw [M.trace_halted (by simpa using hstop)] at h
  exact absurd (M.trace_used_le cs xs) (Nat.not_le_of_lt h)

/-- The machine reads all of `xs` and goes on. -/
def Reads (cs : Nat) (xs : List UInt8) (t : Nat) (evs : List (Nat × Act)) : Prop :=
  M.trace cs xs = ⟨t, xs.length, false, evs⟩

/-- The machine reads all of `xs` and stops at its last byte. -/
def Stops (cs : Nat) (xs : List UInt8) (t : Nat) (evs : List (Nat × Act)) : Prop :=
  M.trace cs xs = ⟨t, xs.length, true, evs⟩

variable {M} {cs m t : Nat} {xs ys : List UInt8} {e₁ e₂ : List (Nat × Act)}

theorem Reads.nil : M.Reads cs [] cs [] := rfl

theorem Reads.append (h₁ : M.Reads cs xs m e₁) (h₂ : M.Reads m ys t e₂) :
    M.Reads cs (xs ++ ys) t (e₁ ++ shift xs.length e₂) := by
  unfold Reads at h₁ h₂ ⊢
  rw [M.trace_append (by rw [h₁]), h₁, h₂, List.length_append]

theorem Reads.stops (h₁ : M.Reads cs xs m e₁) (h₂ : M.Stops m ys t e₂) :
    M.Stops cs (xs ++ ys) t (e₁ ++ shift xs.length e₂) := by
  unfold Reads Stops at *
  rw [M.trace_append (by rw [h₁]), h₁, h₂, List.length_append]

theorem Stops.append (h : M.Stops cs xs t e₁) (ys : List UInt8) :
    M.trace cs (xs ++ ys) = ⟨t, xs.length, true, e₁⟩ := by
  unfold Stops at h
  rw [M.trace_halted (by rw [h]), h]

theorem Reads.one {b : UInt8} {acts : List Act} (h : M.next cs b = some (acts, t))
    (hb : acts.any M.breaks = false) : M.Reads cs [b] t (acts.map fun a => (0, a)) := by
  unfold Reads
  rw [M.trace_cons h hb]
  simp

/-- A state that loops on every byte of `xs` without an action. -/
theorem Reads.loop (h : ∀ b ∈ xs, M.next cs b = some ([], cs)) : M.Reads cs xs cs [] := by
  induction xs with
  | nil => exact Reads.nil
  | cons b bs ih =>
    have h₁ : M.Reads cs [b] cs [] := Reads.one (h b List.mem_cons_self) rfl
    exact h₁.append (ih fun c hc => h c (List.mem_cons_of_mem b hc))

/-- The machine reads all of `xs`, which stands at offset `p`, and its
callbacks take `s` to `s'`. -/
def Runs (M : Machine Act) (act : Nat → σ → Act → Except ε σ) (cs p : Nat) (s : σ) (xs : List UInt8) (t : Nat)
    (s' : σ) : Prop :=
  ∃ evs, M.Reads cs xs t evs ∧ runEvents act p evs s = .ok s'

theorem Runs.append {act : Nat → σ → Act → Except ε σ} {p : Nat} {s s₁ s₂ : σ} (h₁ : M.Runs act cs p s xs m s₁)
    (h₂ : M.Runs act m (p + xs.length) s₁ ys t s₂) : M.Runs act cs p s (xs ++ ys) t s₂ := by
  obtain ⟨e₁, hr₁, he₁⟩ := h₁
  obtain ⟨e₂, hr₂, he₂⟩ := h₂
  refine ⟨e₁ ++ shift xs.length e₂, hr₁.append hr₂, ?_⟩
  rw [runEvents_append, he₁]
  exact (runEvents_shift act p xs.length e₂ s₁).trans he₂

end Machine

end Ragel

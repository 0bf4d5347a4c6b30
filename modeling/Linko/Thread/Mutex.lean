import Linko.Lib.Runs
import Mathlib.Logic.Function.Basic
import Mathlib.Tactic.Simps.Basic
/-!
# Mutexes and their guards

`ScopedLockImpl` and its two variants over the mutexes of `mutex.h`. Guards of
any number of threads are made, locked, unlocked and destroyed in any order;
between two steps of a member of one guard any other guard may step. A guard is
used by one thread at a time, so threads do not appear.

`CASLock` is modelled from its code. The other mutexes wrap a lock of pthread, of
which a `Primitive` states what is documented.
-/

namespace Linko.Locks

open Runs

abbrev LockId := Nat

abbrev GuardId := Nat

/-- The member of the mutex that a guard calls: `ScopedLockImpl`, `ReadScopedLockImpl`
and `WriteScopedLockImpl` differ in nothing else. -/
inductive Take where
  | lock
  | rdlock
  | wrlock
  deriving DecidableEq, Repr

def Take.shared (c : Take) : Bool := c = .rdlock

/-- A class of mutexes: `take` is one try of a locking member, with what is in
memory behind it and whether the member returns; `users` are the numbers of
shared and of exclusive users that a word in memory stands for. -/
structure Primitive where
  Word : Type
  clear : Word
  offers : Take → Bool
  take : Take → Word → Word × Bool
  unlock : Word → Word
  users : Word → Nat × Nat
  users_clear : users clear = (0, 0)
  take_waits : ∀ c w, offers c = true → (take c w).2 = false → users (take c w).1 = users w ∧ users w ≠ (0, 0)
  take_shared : ∀ c w, offers c = true → c.shared = true → (take c w).2 = true →
    (users w).2 = 0 ∧ users (take c w).1 = ((users w).1 + 1, 0)
  take_alone : ∀ c w, offers c = true → c.shared = false → (take c w).2 = true →
    users w = (0, 0) ∧ users (take c w).1 = (0, 1)
  unlock_shared : ∀ w n, users w = (n + 1, 0) → users (unlock w) = (n, 0)
  unlock_alone : ∀ w, users w = (0, 1) → users (unlock w) = (0, 0)

/-! ## `CASLock` -/

namespace CASLock

/-- `std::atomic_flag_test_and_set_explicit`: the flag behind it, and what it was. -/
def testAndSet (m : Bool) : Bool × Bool := (true, m)

/-- One round of the loop in `lock`. -/
def lock (m : Bool) : Bool × Bool :=
  let (m, was) := testAndSet m
  (m, !was)

def unlock (_m : Bool) : Bool := false

theorem lock_waits {m : Bool} (h : (lock m).2 = false) : m = true ∧ (lock m).1 = true := by
  cases m with
  | false => cases h
  | true => exact ⟨rfl, rfl⟩

theorem lock_returns {m : Bool} (h : (lock m).2 = true) : m = false ∧ (lock m).1 = true := by
  cases m with
  | false => exact ⟨rfl, rfl⟩
  | true => cases h

/-- One user has set the flag. -/
def users (m : Bool) : Nat × Nat := (0, m.toNat)

theorem take_waits (c : Take) (m : Bool) (_ : decide (c = .lock) = true) (h : (lock m).2 = false) :
    users (lock m).1 = users m ∧ users m ≠ (0, 0) := by
  obtain ⟨hm, hset⟩ := lock_waits h
  rw [hm] at hset ⊢
  rw [hset]
  exact ⟨rfl, nofun⟩

theorem take_shared (c : Take) (m : Bool) (h : decide (c = .lock) = true) (hshared : c.shared = true)
    (_ : (lock m).2 = true) : (users m).2 = 0 ∧ users (lock m).1 = ((users m).1 + 1, 0) := by
  rw [of_decide_eq_true h] at hshared
  cases hshared

theorem take_alone (c : Take) (m : Bool) (_ : decide (c = .lock) = true) (_ : c.shared = false)
    (h : (lock m).2 = true) : users m = (0, 0) ∧ users (lock m).1 = (0, 1) := by
  obtain ⟨hm, hset⟩ := lock_returns h
  rw [hset, hm]
  exact ⟨rfl, rfl⟩

theorem unlock_shared (m : Bool) (n : Nat) (h : users m = (n + 1, 0)) : users (unlock m) = (n, 0) := by
  cases h

theorem unlock_alone (m : Bool) (_ : users m = (0, 1)) : users (unlock m) = (0, 0) := rfl

theorem users_clear : users false = (0, 0) := rfl

def primitive : Primitive where
  Word := Bool
  clear := false
  offers c := decide (c = .lock)
  take _ := lock
  unlock := unlock
  users := users
  users_clear := users_clear
  take_waits := take_waits
  take_shared := take_shared
  take_alone := take_alone
  unlock_shared := unlock_shared
  unlock_alone := unlock_alone

end CASLock

/-! ## Guards -/

/-- Where a guard is in its members. -/
inductive Place where
  /-- In none of them. -/
  | out
  /-- `m_mutex.lock()` -/
  | taking
  /-- `m_locked = true` -/
  | taken
  /-- `m_mutex.unlock()` -/
  | releasing
  /-- `m_locked = false` -/
  | released
  | gone
  deriving DecidableEq, Repr

/-- `locked` is indeterminate until the constructor sets it, and not read before. -/
structure Guard where
  mutex : LockId
  call : Take
  locked : Bool
  place : Place
  /-- The member that runs is the destructor. -/
  dying : Bool
  deriving DecidableEq, Repr

namespace Guard

variable (g : Guard)

/-- `if (!m_locked)` in `lock` -/
def lock : Guard := if g.locked then g else { g with place := .taking }

/-- `if (m_locked)` in `unlock` -/
def unlock : Guard := if g.locked then { g with place := .releasing } else g

/-- The destructor. -/
def destroy : Guard := if g.locked then { g with place := .releasing, dying := true } else { g with place := .gone }

/-- It has the mutex: the call that takes it has returned, and the one that gives
it back has not begun. -/
def holds : Bool := g.place = .taken || g.place = .releasing || (g.place = .out && g.locked)

/-- It counts as a user of `l`, of the shared or of the exclusive ones. -/
def uses (l : LockId) (shared : Bool) : Bool := g.holds && (g.mutex = l && g.call.shared = shared)

end Guard

/-- All mutexes, each of a class of its own, and the guards made so far. -/
structure State (K : LockId → Primitive) where
  words : (l : LockId) → (K l).Word
  made : Nat
  guards : GuardId → Guard

inductive Act where
  /-- `Lock lock(mutex)` and its like. -/
  | construct (l : LockId) (c : Take)
  | lock (g : GuardId)
  | unlock (g : GuardId)
  | destroy (g : GuardId)
  /-- The member that runs goes on. -/
  | go (g : GuardId)
  deriving DecidableEq, Repr

variable {K : LockId → Primitive}

def init (K : LockId → Primitive) : State K where
  words l := (K l).clear
  made := 0
  guards _ := ⟨0, .lock, false, .gone, false⟩

namespace State

variable (s : State K)

@[simps] def setGuard (i : GuardId) (g : Guard) : State K := { s with guards := Function.update s.guards i g }

@[simps] def setWord (l : LockId) (w : (K l).Word) : State K := { s with words := Function.update s.words l w }

/-- A member is called while no other one of the guard runs. -/
def call (i : GuardId) (f : Guard → Guard) : Option (State K) :=
  if i < s.made ∧ (s.guards i).place = .out then some (s.setGuard i (f (s.guards i))) else none

/-- One try of the member that takes the mutex of guard `i`. -/
def tryTake (i : GuardId) : (K (s.guards i).mutex).Word × Bool :=
  (K (s.guards i).mutex).take (s.guards i).call (s.words (s.guards i).mutex)

def go (i : GuardId) : Option (State K) :=
  if s.made ≤ i then none
  else
    match (s.guards i).place with
    | .taking =>
      some ((s.setWord (s.guards i).mutex (s.tryTake i).1).setGuard i
        { s.guards i with place := if (s.tryTake i).2 then .taken else .taking })
    | .taken => some (s.setGuard i { s.guards i with locked := true, place := .out })
    | .releasing =>
      some ((s.setWord (s.guards i).mutex ((K (s.guards i).mutex).unlock (s.words (s.guards i).mutex))).setGuard i
        { s.guards i with place := .released })
    | .released =>
      some (s.setGuard i { s.guards i with locked := false, place := if (s.guards i).dying then .gone else .out })
    | _ => none

end State

def step (s : State K) : Act → Option (State K)
  | .construct l c =>
    if (K l).offers c then
      some { s with made := s.made + 1, guards := Function.update s.guards s.made ⟨l, c, false, .taking, false⟩ }
    else none
  | .lock i => s.call i Guard.lock
  | .unlock i => s.call i Guard.unlock
  | .destroy i => s.call i Guard.destroy
  | .go i => s.go i

/-! ## What the words count -/

/-- The guards that use `l`. -/
def State.count (s : State K) (l : LockId) (shared : Bool) : Nat :=
  (List.range s.made).countP fun i => (s.guards i).uses l shared

/-- Each word stands for the guards that use it, which are shared users or one
exclusive user, and a guard calls what its mutex offers. -/
structure Counted (s : State K) : Prop where
  users : ∀ l, (K l).users (s.words l) = (s.count l true, s.count l false)
  apart : ∀ l, s.count l false = 0 ∨ s.count l true = 0 ∧ s.count l false = 1
  offers : ∀ i, i < s.made → (K (s.guards i).mutex).offers (s.guards i).call = true

theorem Counted.init : Counted (init K) where
  users l := (K l).users_clear
  apart _ := .inl rfl
  offers _ h := absurd h (Nat.not_lt_zero _)

section

variable {s s' : State K} {i : GuardId} {g : Guard} {l : LockId} {shared : Bool}

/-- A new state of one guard changes the counts of that guard only. -/
theorem count_setGuard (hi : i < s.made) :
    ((s.setGuard i g).count l shared : Int) + ((s.guards i).uses l shared).toInt =
      s.count l shared + (g.uses l shared).toInt := by
  have hrest : ∀ u, u ≠ i → ((s.setGuard i g).guards u).uses l shared = (s.guards u).uses l shared := by
    intro u hu
    rw [State.setGuard_guards, Function.update_of_ne hu]
  have hchange := countP_change hi hrest
  rw [State.setGuard_guards, Function.update_self] at hchange
  exact hchange

/-- So one that uses what it has used before changes none. -/
theorem count_same (hi : i < s.made) (h : ∀ l shared, g.uses l shared = (s.guards i).uses l shared) :
    (s.setGuard i g).count l shared = s.count l shared := by
  have hcount := @count_setGuard K s i g l shared hi
  rw [h] at hcount
  omega

theorem uses_of_holds (hm : g.mutex = (s.guards i).mutex) (hc : g.call = (s.guards i).call)
    (hh : g.holds = (s.guards i).holds) (l : LockId) (shared : Bool) :
    g.uses l shared = (s.guards i).uses l shared := by
  unfold Guard.uses
  rw [hm, hc, hh]

theorem Counted.setGuard (h : Counted s) (hi : i < s.made) (hm : g.mutex = (s.guards i).mutex)
    (hc : g.call = (s.guards i).call) (hh : g.holds = (s.guards i).holds) : Counted (s.setGuard i g) where
  users l := by
    rw [count_same hi (uses_of_holds hm hc hh), count_same hi (uses_of_holds hm hc hh)]
    exact h.users l
  apart l := by
    rw [count_same hi (uses_of_holds hm hc hh), count_same hi (uses_of_holds hm hc hh)]
    exact h.apart l
  offers j hj := by
    rw [State.setGuard_guards]
    by_cases hji : j = i
    · subst hji
      rw [Function.update_self, hm, hc]
      exact h.offers j hj
    · rw [Function.update_of_ne hji]
      exact h.offers j hj

theorem count_other (hi : i < s.made) (hm : g.mutex = (s.guards i).mutex) (hl : l ≠ (s.guards i).mutex) :
    (s.setGuard i g).count l shared = s.count l shared := by
  have hne : ¬ (s.guards i).mutex = l := fun h => hl h.symm
  have hchange := @count_setGuard K s i g l shared hi
  simp only [Guard.uses, hm, hne, decide_false, Bool.false_and, Bool.and_false] at hchange
  omega

/-- The guard `i` goes on to `g` and leaves `w` in memory. -/
theorem Counted.exchange {w : (K (s.guards i).mutex).Word} {n m : Nat} (h : Counted s) (hi : i < s.made)
    (hm : g.mutex = (s.guards i).mutex) (hc : g.call = (s.guards i).call)
    (htrue : (s.setGuard i g).count (s.guards i).mutex true = n)
    (hfalse : (s.setGuard i g).count (s.guards i).mutex false = m)
    (hw : (K (s.guards i).mutex).users w = (n, m)) (happart : m = 0 ∨ n = 0 ∧ m = 1) :
    Counted ((s.setWord (s.guards i).mutex w).setGuard i g) where
  users l := by
    show (K l).users (Function.update s.words (s.guards i).mutex w l) =
      ((s.setGuard i g).count l true, (s.setGuard i g).count l false)
    by_cases hl : l = (s.guards i).mutex
    · subst hl
      rw [Function.update_self, htrue, hfalse]
      exact hw
    · rw [Function.update_of_ne hl, count_other hi hm hl, count_other hi hm hl]
      exact h.users l
  apart l := by
    show (s.setGuard i g).count l false = 0 ∨ (s.setGuard i g).count l true = 0 ∧ (s.setGuard i g).count l false = 1
    by_cases hl : l = (s.guards i).mutex
    · subst hl
      rw [htrue, hfalse]
      exact happart
    · rw [count_other hi hm hl, count_other hi hm hl]
      exact h.apart l
  offers j hj := by
    show (K (Function.update s.guards i g j).mutex).offers (Function.update s.guards i g j).call = true
    by_cases hji : j = i
    · subst hji
      rw [Function.update_self, hm, hc]
      exact h.offers j hj
    · rw [Function.update_of_ne hji]
      exact h.offers j hj

theorem uses_mutex (g : Guard) (shared : Bool) : g.uses g.mutex shared = (g.holds && g.call.shared == shared) := by
  unfold Guard.uses
  cases g.holds <;> cases g.call.shared <;> cases shared <;> simp

theorem count_enter (hi : i < s.made) (hm : g.mutex = (s.guards i).mutex) (hold : (s.guards i).holds = false)
    (hnew : g.holds = true) (shared : Bool) :
    (s.setGuard i g).count (s.guards i).mutex shared =
      s.count (s.guards i).mutex shared + (g.call.shared == shared).toNat := by
  have hchange := @count_setGuard K s i g (s.guards i).mutex shared hi
  rw [uses_mutex, hold, ← hm, uses_mutex, hnew, Bool.true_and, Bool.false_and] at hchange
  rw [← hm]
  generalize (g.call.shared == shared) = one at hchange ⊢
  cases one <;> simp at hchange ⊢ <;> omega

theorem count_leave (hi : i < s.made) (hm : g.mutex = (s.guards i).mutex) (hold : (s.guards i).holds = true)
    (hnew : g.holds = false) (shared : Bool) :
    (s.setGuard i g).count (s.guards i).mutex shared + ((s.guards i).call.shared == shared).toNat =
      s.count (s.guards i).mutex shared := by
  have hchange := @count_setGuard K s i g (s.guards i).mutex shared hi
  rw [uses_mutex, hold, ← hm, uses_mutex, hnew, Bool.true_and, Bool.false_and] at hchange
  rw [← hm]
  generalize ((s.guards i).call.shared == shared) = one at hchange ⊢
  cases one <;> simp at hchange ⊢ <;> omega

theorem Counted.call {f : Guard → Guard} (hf : ∀ g, g.place = .out →
      (f g).mutex = g.mutex ∧ (f g).call = g.call ∧ (f g).holds = g.holds)
    (h : Counted s) (hcall : s.call i f = some s') : Counted s' := by
  unfold State.call at hcall
  split at hcall
  · rename_i hpre
    cases hcall
    obtain ⟨hm, hc, hh⟩ := hf _ hpre.2
    exact h.setGuard hpre.1 hm hc hh
  · cases hcall

/-- The call that takes the mutex returns: the guard is one more user. -/
theorem Counted.enter (h : Counted s) (hi : i < s.made) (hold : (s.guards i).holds = false)
    (hret : (s.tryTake i).2 = true) :
    Counted ((s.setWord (s.guards i).mutex (s.tryTake i).1).setGuard i { s.guards i with place := .taken }) := by
  have hoffers := h.offers i hi
  have husers := h.users (s.guards i).mutex
  have hcount := @count_enter K s i { s.guards i with place := .taken } hi rfl hold rfl
  cases hshared : (s.guards i).call.shared with
  | true =>
    obtain ⟨halone, hnext⟩ := (K (s.guards i).mutex).take_shared _ _ hoffers hshared hret
    rw [husers] at halone hnext
    refine h.exchange hi rfl rfl ((hcount true).trans ?_) ((hcount false).trans ?_) hnext (.inl rfl)
    · rw [hshared]
      rfl
    · rw [hshared]
      exact halone
  | false =>
    obtain ⟨hfree, hnext⟩ := (K (s.guards i).mutex).take_alone _ _ hoffers hshared hret
    rw [husers, Prod.mk.injEq] at hfree
    refine h.exchange hi rfl rfl ((hcount true).trans ?_) ((hcount false).trans ?_) hnext (.inr ⟨rfl, rfl⟩)
    · rw [hshared, hfree.1]
      rfl
    · rw [hshared, hfree.2]
      rfl

/-- It goes round again. -/
theorem Counted.wait (h : Counted s) (hi : i < s.made) (hold : (s.guards i).place = .taking)
    (hret : (s.tryTake i).2 = false) :
    Counted ((s.setWord (s.guards i).mutex (s.tryTake i).1).setGuard i { s.guards i with place := .taking }) := by
  have hsame : ({ s.guards i with place := .taking } : Guard) = s.guards i := by rw [← hold]
  obtain ⟨husers, -⟩ := (K (s.guards i).mutex).take_waits _ _ (h.offers i hi) hret
  rw [h.users] at husers
  rw [hsame]
  exact h.exchange hi rfl rfl (count_same hi fun _ _ => rfl) (count_same hi fun _ _ => rfl) husers (h.apart _)

/-- The call that gives the mutex back: the guard is one user less. -/
theorem Counted.leave (h : Counted s) (hi : i < s.made) (hold : (s.guards i).place = .releasing) :
    Counted ((s.setWord (s.guards i).mutex ((K (s.guards i).mutex).unlock (s.words (s.guards i).mutex))).setGuard i
      { s.guards i with place := .released }) := by
  have hholds : (s.guards i).holds = true := by simp [Guard.holds, hold]
  have husers := h.users (s.guards i).mutex
  have hcount := @count_leave K s i { s.guards i with place := .released } hi rfl hholds rfl
  have htrue := hcount true
  have hfalse := hcount false
  cases hshared : (s.guards i).call.shared with
  | true =>
    simp [hshared] at htrue hfalse
    have hnone : s.count (s.guards i).mutex false = 0 := (h.apart _).resolve_right fun hone => by omega
    rw [← htrue, hnone] at husers
    refine h.exchange hi rfl rfl rfl (hfalse.trans hnone) ?_ (.inl rfl)
    exact (K (s.guards i).mutex).unlock_shared _ _ husers
  | false =>
    simp [hshared] at htrue hfalse
    have hone := (h.apart (s.guards i).mutex).resolve_left fun hnone => by omega
    rw [hone.1, hone.2] at husers
    refine h.exchange hi rfl rfl (htrue.trans hone.1) (Nat.succ.inj (hfalse.trans hone.2)) ?_ (.inl rfl)
    exact (K (s.guards i).mutex).unlock_alone _ husers

theorem lock_keeps (hg : g.place = .out) :
    g.lock.mutex = g.mutex ∧ g.lock.call = g.call ∧ g.lock.holds = g.holds := by
  unfold Guard.lock
  cases hlocked : g.locked <;> simp [Guard.holds, hg, hlocked]

theorem unlock_keeps (hg : g.place = .out) :
    g.unlock.mutex = g.mutex ∧ g.unlock.call = g.call ∧ g.unlock.holds = g.holds := by
  unfold Guard.unlock
  cases hlocked : g.locked <;> simp [Guard.holds, hg, hlocked]

theorem destroy_keeps (hg : g.place = .out) :
    g.destroy.mutex = g.mutex ∧ g.destroy.call = g.call ∧ g.destroy.holds = g.holds := by
  unfold Guard.destroy
  cases hlocked : g.locked <;> simp [Guard.holds, hg, hlocked]

theorem Counted.go (h : Counted s) (hgo : s.go i = some s') : Counted s' := by
  unfold State.go at hgo
  split at hgo
  · cases hgo
  · rename_i hmade
    have hi : i < s.made := Nat.lt_of_not_le hmade
    split at hgo
    · rename_i hplace
      cases hgo
      cases hret : (s.tryTake i).2 with
      | true => exact h.enter hi (by simp [Guard.holds, hplace]) hret
      | false => exact h.wait hi hplace hret
    · rename_i hplace
      cases hgo
      exact h.setGuard hi rfl rfl (by simp [Guard.holds, hplace])
    · rename_i hplace
      cases hgo
      exact h.leave hi hplace
    · rename_i hplace
      cases hgo
      refine h.setGuard hi rfl rfl ?_
      cases hdying : (s.guards i).dying <;> simp [Guard.holds, hplace]
    · cases hgo

theorem Counted.construct {c : Take} (h : Counted s) (hc : (K l).offers c = true) :
    Counted { s with made := s.made + 1, guards := Function.update s.guards s.made ⟨l, c, false, .taking, false⟩ } := by
  have hcount : ∀ l' shared, State.count
      { s with made := s.made + 1, guards := Function.update s.guards s.made ⟨l, c, false, .taking, false⟩ } l' shared =
        s.count l' shared := by
    intro l' shared
    show (List.range (s.made + 1)).countP
      (fun j => (Function.update s.guards s.made ⟨l, c, false, .taking, false⟩ j).uses l' shared) = _
    rw [List.range_succ, List.countP_append, List.countP_singleton, Function.update_self]
    -- a guard that is being constructed has nothing yet
    refine congrArg (· + 0) (List.countP_congr fun j hj => ?_)
    rw [Function.update_of_ne (Nat.ne_of_lt (List.mem_range.1 hj))]
  refine ⟨fun l' => ?_, fun l' => ?_, fun j (hj : j < s.made + 1) => ?_⟩
  · rw [hcount, hcount]
    exact h.users l'
  · rw [hcount, hcount]
    exact h.apart l'
  · show (K (Function.update s.guards s.made ⟨l, c, false, .taking, false⟩ j).mutex).offers
      (Function.update s.guards s.made ⟨l, c, false, .taking, false⟩ j).call = true
    by_cases hnew : j = s.made
    · subst hnew
      rw [Function.update_self]
      exact hc
    · rw [Function.update_of_ne hnew]
      exact h.offers j (by omega)

theorem step_counted {a : Act} (h : Counted s) (ha : step s a = some s') : Counted s' := by
  cases a with
  | construct l c =>
    simp only [step] at ha
    split at ha
    · rename_i hoffers
      cases ha
      exact h.construct hoffers
    · cases ha
  | lock i => exact h.call (fun _ => lock_keeps) ha
  | unlock i => exact h.call (fun _ => unlock_keeps) ha
  | destroy i => exact h.call (fun _ => destroy_keeps) ha
  | go i => exact h.go ha

/-! ## Who has a mutex -/

theorem count_pos (hi : i < s.made) (h : (s.guards i).uses l shared = true) : 0 < s.count l shared :=
  List.countP_pos_iff.2 ⟨i, List.mem_range.2 hi, h⟩

/-- A place in a range is counted apart from the others. -/
theorem countP_two {p : Nat → Bool} {n a b : Nat} (ha : a < n) (hb : b < n) (hab : a ≠ b) (hpa : p a = true)
    (hpb : p b = true) : 2 ≤ (List.range n).countP p := by
  have hrest : ∀ u, u ≠ a → p u = (p u && u != a) := by
    intro u hu
    simp [hu]
  have hchange := countP_change ha hrest
  have hpos : 0 < (List.range n).countP fun u => p u && u != a :=
    List.countP_pos_iff.2 ⟨b, List.mem_range.2 hb, by simp [hpb, Ne.symm hab]⟩
  simp [hpa] at hchange
  omega

end

variable {hist : List (State K × Act)} {s : State K}

end Linko.Locks

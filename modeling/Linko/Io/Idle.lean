import Mathlib.Algebra.Ring.Int.Defs
import Mathlib.Algebra.Group.Nat.Defs
/-!
# How long `idle` sleeps

Each turn of `idle` asks the timers for the distance to the next deadline, all
ones when there is none, and passes it to `epoll_wait`, at most `MAX_TIMEOUT`.
A call that a signal has interrupted is made again, with the distance that the
round before has left.
-/

namespace Linko.Io

/-- `(int)next_timeout` -/
def asInt (next_timeout : UInt64) : Int32 := next_timeout.toUInt32.toInt32

def MAX_TIMEOUT : Int32 := 3000

/-- `next_timeout` in front of the call of `epoll_wait`. -/
def capTimeout (next_timeout : UInt64) : UInt64 :=
  if next_timeout ≠ ~~~0 then
    if asInt next_timeout > MAX_TIMEOUT then MAX_TIMEOUT.toInt64.toUInt64 else next_timeout
  else MAX_TIMEOUT.toInt64.toUInt64

/-- The timeouts that `epoll_wait` is called with when it is interrupted
`retries` times. -/
def waits : Nat → UInt64 → List Int32
  | 0, next_timeout => [asInt (capTimeout next_timeout)]
  | retries + 1, next_timeout => asInt (capTimeout next_timeout) :: waits retries (capTimeout next_timeout)

/-! ## The values of the casts -/

theorem asInt_toInt (v : UInt64) :
    (asInt v).toInt =
      if v.toNat % 2 ^ 32 < 2 ^ 31 then (v.toNat % 2 ^ 32 : Int) else (v.toNat % 2 ^ 32 : Int) - 2 ^ 32 := by
  have hnat : (v.toUInt32.toBitVec).toNat = v.toNat % 2 ^ 32 := UInt64.toNat_toUInt32 v
  show (v.toUInt32.toBitVec).toInt = _
  rw [BitVec.toInt_eq_toNat_cond, hnat]
  split <;> split <;> omega

theorem asInt_max : asInt MAX_TIMEOUT.toInt64.toUInt64 = MAX_TIMEOUT := by decide

/-- The distance is capped once and for all. -/
theorem capTimeout_capTimeout (v : UInt64) : capTimeout (capTimeout v) = capTimeout v := by
  have hmax : capTimeout MAX_TIMEOUT.toInt64.toUInt64 = MAX_TIMEOUT.toInt64.toUInt64 := by decide
  by_cases hnone : v = ~~~0
  · have hcap : capTimeout v = MAX_TIMEOUT.toInt64.toUInt64 := by rw [capTimeout, if_neg (not_not.2 hnone)]
    rw [hcap, hmax]
  by_cases hlong : asInt v > MAX_TIMEOUT
  · have hcap : capTimeout v = MAX_TIMEOUT.toInt64.toUInt64 := by rw [capTimeout, if_pos hnone, if_pos hlong]
    rw [hcap, hmax]
  · have hcap : capTimeout v = v := by rw [capTimeout, if_pos hnone, if_neg hlong]
    rw [hcap, hcap]

/-- So every call gets the same timeout. -/
theorem mem_waits (retries : Nat) (v : UInt64) (t : Int32) :
    t ∈ waits retries v ↔ t = asInt (capTimeout v) := by
  induction retries generalizing v with
  | zero => exact List.mem_singleton
  | succ retries ih =>
    rw [waits, List.mem_cons, ih, capTimeout_capTimeout, or_self]

theorem wait_toInt (v : UInt64) :
    (asInt (capTimeout v)).toInt = if v = ~~~0 then 3000 else min (asInt v).toInt 3000 := by
  have hmax : MAX_TIMEOUT.toInt = 3000 := by decide
  unfold capTimeout
  by_cases hnone : v = ~~~0
  · rw [if_neg (not_not.2 hnone), if_pos hnone, asInt_max, hmax]
  · rw [if_pos hnone, if_neg hnone]
    by_cases hlong : asInt v > MAX_TIMEOUT
    · have := Int32.lt_iff_toInt_lt.1 hlong
      rw [if_pos hlong, asInt_max]
      omega
    · have : ¬ MAX_TIMEOUT.toInt < (asInt v).toInt := fun h => hlong (Int32.lt_iff_toInt_lt.2 h)
      rw [if_neg hlong]
      omega

/-! ## When it sleeps as long as it should -/

/-- Every call gets the distance, at most `MAX_TIMEOUT`, exactly when there is
no timer, when the distance is no more than that, or when its lower half is no
less and not negative as an `int`. -/
theorem waits_iff (retries : Nat) (v : UInt64) :
    (∀ t ∈ waits retries v, t.toInt = min (v.toNat : Int) 3000) ↔
      v.toNat ≤ 3000 ∨ v = ~~~0 ∨ 3000 ≤ v.toNat % 2 ^ 32 ∧ v.toNat % 2 ^ 32 < 2 ^ 31 := by
  have hall : (∀ t ∈ waits retries v, t.toInt = min (v.toNat : Int) 3000) ↔
      (asInt (capTimeout v)).toInt = min (v.toNat : Int) 3000 := by
    simp only [mem_waits, forall_eq]
  rw [hall, wait_toInt]
  by_cases hnone : v = ~~~0
  · have hlarge : v.toNat = 2 ^ 64 - 1 := by
      rw [hnone]
      rfl
    rw [if_pos hnone, hlarge]
    exact iff_of_true (by decide) (.inr (.inl hnone))
  · rw [if_neg hnone, asInt_toInt]
    simp only [hnone, false_or]
    split <;> omega

/-- A timer in `2 ^ 31` milliseconds: the timeout is negative. -/
theorem not_waits :
    ¬ ∀ (retries : Nat) (v : UInt64), ∀ t ∈ waits retries v, t.toInt = min (v.toNat : Int) 3000 := by
  intro h
  have hwait := h 0 (2 ^ 31) (asInt (capTimeout (2 ^ 31))) (List.mem_singleton_self _)
  revert hwait
  decide

end Linko.Io

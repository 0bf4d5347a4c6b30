import Linko.Hook.Timeouts
/-!
# Sleeping

`sleep`, `usleep` and `nanosleep` of `hook.cc` hand a delay in milliseconds to
`addTimer`. Each computes it in another type: `unsigned int`, `useconds_t`, and
`time_t` with a result in `int`.
-/

namespace Linko.Hook

variable {ρ : Type} {thread : Thread}

/-- A `timespec` that `nanosleep` accepts. -/
structure Timespec where
  sec : Nat
  nsec : Nat
  sec_lt : sec < 2 ^ 63
  nsec_lt : nsec < 1000000000
  deriving Repr

/-- A call with what it asks for. -/
inductive Nap where
  | sleep (seconds : UInt32)
  | usleep (usec : UInt32)
  | nanosleep (ts : Timespec)
  deriving Repr

namespace Nap

/-- The requested time in nanoseconds. -/
def nanos : Nap → Nat
  | .sleep seconds => seconds.toNat * 1000000000
  | .usleep usec => usec.toNat * 1000
  | .nanosleep ts => ts.sec * 1000000000 + ts.nsec

/-- The call, for `nanosleep` with its `timespec` at the address `req`. -/
def exec (os : Os ρ) (thread : Thread) (junk : UInt64) (req rem : Addr) (p : Process ρ) :
    Nap → Option (Result ρ)
  | .sleep seconds => hooked os thread junk 1 p (.sleep seconds)
  | .usleep usec => hooked os thread junk 1 p (.usleep usec)
  | .nanosleep ts => hooked os thread junk 1 (p.storeTime req (ts.sec, ts.nsec)) (.nanosleep req rem)

end Nap

/-- A signed type of `w` bits holds an integer. -/
def Fits (w : Nat) (x : Int) : Prop := (BitVec.ofInt w x).toInt = x

/-- No product and no narrowing conversion of the call wraps. -/
def Nap.NoWrap : Nap → Prop
  | .sleep seconds => (seconds * 1000).toNat = seconds.toNat * 1000
  | .usleep _ => True
  | .nanosleep ts =>
    Fits 64 (ts.sec * 1000) ∧ Fits 64 (ts.sec * 1000 + ts.nsec / 1000 / 1000) ∧
      Fits 32 (ts.sec * 1000 + ts.nsec / 1000 / 1000)

/-- The timer gets a delay that is not shorter than the requested time. -/
structure SleepsLong (nap : Nap) (r : Option (Result ρ)) : Prop where
  late : ∃ q ms, r = some (.sleeps q ms) ∧ nap.nanos ≤ ms.toNat * 1000000
  exact : nap.NoWrap

/-- The milliseconds fit the type they are computed in, and none is begun. -/
def Nap.Whole : Nap → Prop
  | .sleep seconds => seconds.toNat * 1000 < 2 ^ 32
  | .usleep usec => 1000 ∣ usec.toNat
  | .nanosleep ts => ts.sec * 1000 + ts.nsec / 1000000 < 2 ^ 31 ∧ 1000000 ∣ ts.nsec

instance : DecidablePred Nap.Whole
  | .sleep seconds => inferInstanceAs (Decidable (seconds.toNat * 1000 < 2 ^ 32))
  | .usleep usec => inferInstanceAs (Decidable (1000 ∣ usec.toNat))
  | .nanosleep ts => inferInstanceAs (Decidable (_ ∧ 1000000 ∣ ts.nsec))

/-! ## The delays -/

/-- The delay that a call computes. -/
def Nap.delay : Nap → UInt64
  | .sleep seconds => (seconds * 1000).toUInt64
  | .usleep usec => (usec / 1000).toUInt64
  | .nanosleep ts => ⟨(BitVec.ofNat 32 (ts.sec * 1000 + ts.nsec / 1000000)).signExtend 64⟩

theorem exec_eq (os : Os ρ) {thread : Thread} (hhook : thread.hookEnable = true) (hiom : thread.iom.isSome = true)
    (junk : UInt64) (req rem : Addr) (p : Process ρ) (nap : Nap) :
    ∃ q, nap.exec os thread junk req rem p = some (.sleeps q nap.delay) := by
  obtain ⟨scheduler, hiom⟩ := Option.isSome_iff_exists.1 hiom
  cases nap with
  | sleep seconds =>
    refine ⟨p, ?_⟩
    unfold Nap.exec hooked sleep sleepFor
    simp [hhook, hiom, Nap.delay]
  | usleep usec =>
    refine ⟨p, ?_⟩
    unfold Nap.exec hooked usleep sleepFor
    simp [hhook, hiom, Nap.delay]
  | nanosleep ts =>
    refine ⟨p.storeTime req (ts.sec, ts.nsec), ?_⟩
    have htime : (p.storeTime req (ts.sec, ts.nsec)).world.times req = some ((ts.sec : Int), (ts.nsec : Int)) :=
      Function.update_self ..
    have hms : (ts.sec * 1000 + ((ts.nsec : Int).tdiv 1000).tdiv 1000 : Int) =
        (ts.sec * 1000 + ts.nsec / 1000000 : Nat) := by
      rw [Int.natCast_add, Int.natCast_mul, ← Nat.div_div_eq_div_mul ts.nsec 1000 1000]
      rfl
    unfold Nap.exec hooked nanosleep sleepFor
    simp only [hhook, Bool.true_eq_false, if_false, htime, hms, BitVec.ofInt_natCast, hiom]
    rfl

theorem fits_iff {w n : Nat} : Fits (w + 1) n ↔ n < 2 ^ w := by
  unfold Fits
  rw [BitVec.ofInt_natCast]
  constructor
  · intro h
    have hlt := BitVec.toInt_lt (x := BitVec.ofNat (w + 1) n)
    rw [h] at hlt
    exact_mod_cast hlt
  · intro h
    have hnat : (BitVec.ofNat (w + 1) n).toNat = n := by
      rw [BitVec.toNat_ofNat]
      exact Nat.mod_eq_of_lt (by omega)
    rw [BitVec.toInt_eq_toNat_of_lt (by omega), hnat]

/-- A number of milliseconds that an `int` holds stays what it is. -/
theorem signExtend_small {n : Nat} (h : n < 2 ^ 31) :
    (UInt64.ofBitVec ((BitVec.ofNat 32 n).signExtend 64)).toNat = n := by
  have hint : (BitVec.ofNat 32 n).toInt = n := by
    have hfits := (fits_iff (w := 31)).2 h
    unfold Fits at hfits
    rwa [BitVec.ofInt_natCast] at hfits
  show (BitVec.signExtend 64 _).toNat = n
  rw [BitVec.signExtend, hint, BitVec.ofInt_natCast, BitVec.toNat_ofNat]
  exact Nat.mod_eq_of_lt (by omega)

/-- A hooked sleep does not end early, and computes its delay without a wrap,
exactly if the request is in whole milliseconds that fit the type. -/
theorem sleeps_long_iff (os : Os ρ) (hhook : thread.hookEnable = true) (hiom : thread.iom.isSome = true)
    (junk : UInt64) (req rem : Addr) (p : Process ρ) (nap : Nap) :
    SleepsLong nap (nap.exec os thread junk req rem p) ↔ nap.Whole := by
  obtain ⟨q, hexec⟩ := exec_eq os hhook hiom junk req rem p nap
  rw [hexec]
  have hlong : SleepsLong nap (some (.sleeps q nap.delay)) ↔
      nap.nanos ≤ nap.delay.toNat * 1000000 ∧ nap.NoWrap := by
    constructor
    · rintro ⟨⟨q', ms, heq, hle⟩, hwrap⟩
      obtain ⟨-, rfl⟩ := Result.sleeps.inj (Option.some.inj heq)
      exact ⟨hle, hwrap⟩
    · rintro ⟨hle, hwrap⟩
      exact ⟨⟨q, _, rfl, hle⟩, hwrap⟩
  rw [hlong]
  cases nap with
  | sleep seconds =>
    have hmul : (seconds * 1000).toNat = seconds.toNat * 1000 % 2 ^ 32 := UInt32.toNat_mul ..
    have hwide : (seconds * 1000).toUInt64.toNat = (seconds * 1000).toNat := UInt32.toNat_toUInt64 _
    simp only [Nap.nanos, Nap.delay, Nap.NoWrap, Nap.Whole, hwide]
    omega
  | usleep usec =>
    have hdiv : (usec / 1000).toNat = usec.toNat / 1000 := UInt32.toNat_div ..
    have hwide : (usec / 1000).toUInt64.toNat = (usec / 1000).toNat := UInt32.toNat_toUInt64 _
    simp only [Nap.nanos, Nap.delay, Nap.NoWrap, Nap.Whole, hwide, hdiv, and_true]
    omega
  | nanosleep ts =>
    have hsec : (ts.sec * 1000 : Int) = (ts.sec * 1000 : Nat) := by omega
    have hms : ((ts.sec * 1000 : Nat) + ts.nsec / 1000 / 1000 : Int) = (ts.sec * 1000 + ts.nsec / 1000000 : Nat) := by
      omega
    have hlt := ts.nsec_lt
    simp only [Nap.nanos, Nap.delay, Nap.NoWrap, Nap.Whole, hsec, hms, fits_iff]
    constructor
    · rintro ⟨hle, -, -, hint⟩
      rw [signExtend_small hint] at hle
      omega
    · rintro ⟨hint, hdvd⟩
      rw [signExtend_small hint]
      omega

/-- `sleep(1)`, `usleep(250000)` and `nanosleep` for 1.5 s. -/
theorem sleeps_long_whole :
    SleepsLong (.sleep 1) (Nap.exec silent ⟨true, 1, some 1⟩ 0 16 0 fresh (.sleep 1)) ∧
      SleepsLong (.usleep 250000) (Nap.exec silent ⟨true, 1, some 1⟩ 0 16 0 fresh (.usleep 250000)) ∧
      SleepsLong (.nanosleep ⟨1, 500000000, by decide, by decide⟩)
        (Nap.exec silent ⟨true, 1, some 1⟩ 0 16 0 fresh (.nanosleep ⟨1, 500000000, by decide, by decide⟩)) :=
  ⟨(sleeps_long_iff silent rfl rfl 0 16 0 fresh _).2 (by decide),
    (sleeps_long_iff silent rfl rfl 0 16 0 fresh _).2 (by decide),
    (sleeps_long_iff silent rfl rfl 0 16 0 fresh _).2 (by decide)⟩

/-- `sleep(4294968)` asks for a delay of 0.7 s. -/
theorem not_sleeps_long : ¬ ∀ (os : Os Unit) (thread : Thread) junk req rem p (nap : Nap),
    thread.hookEnable = true → thread.iom.isSome = true → SleepsLong nap (nap.exec os thread junk req rem p) := by
  intro hall
  have hlong := hall silent ⟨true, 1, some 1⟩ 0 16 0 fresh (.sleep 4294968) rfl rfl
  obtain ⟨q, hexec⟩ := @exec_eq _ silent ⟨true, 1, some 1⟩ rfl rfl 0 16 0 fresh (.sleep 4294968)
  obtain ⟨q', ms, heq, hle⟩ := hlong.late
  obtain ⟨-, rfl⟩ := Result.sleeps.inj (Option.some.inj (hexec.symm.trans heq))
  exact absurd hle (by decide)

end Linko.Hook

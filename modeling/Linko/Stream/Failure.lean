import Linko.Stream.Partial
/-!
# Transfers that fail

A call of the stream that returns 0 or an error code. The four functions of
`stream.cc` take either for a number of bytes.
-/

namespace Linko

namespace Stream

open Transfer

variable {σ τ : Type} {s : Stream σ} {t t₁ : Site σ} {n left : UInt64} {ks : List Nat}

inductive Overload where
  | readBuffer
  | readBa
  | writeBuffer
  | writeBa
  deriving DecidableEq, Repr

namespace Overload

/-- The function. -/
def run (s : Stream σ) : Overload → UInt64 → Nat → Site σ → Option (Int32 × Site σ)
  | .readBuffer => s.readFixSize
  | .readBa => s.readFixSizeBa
  | .writeBuffer => s.writeFixSize
  | .writeBa => s.writeFixSizeBa

/-- The virtual function that its loop calls. -/
def call (s : Stream σ) : Overload → Site σ → UInt64 → Int32 × Site σ
  | .readBuffer => readInto s
  | .readBa => readBaInto s
  | .writeBuffer => writeFrom s
  | .writeBa => readBaInto s

end Overload

/-- A run with a log of its calls is the run of the function. -/
theorem run_logged (o : Overload) (fuel : Nat) :
    (fixSize (logged (o.call s)) n fuel (t, [])).map (fun r => (r.1, r.2.1)) = o.run s n fuel t := by
  have hrun : o.run s n fuel t = fixSize (o.call s) n fuel t := by cases o <;> rfl
  have hlog := loop_logged (o.call s) fuel n t []
  rw [hrun, fixSize_eq, fixSize_eq, ← hlog, Option.map_map, Option.map_map]
  rfl

/-- The function makes this many calls and returns a value that is not positive,
and none of its subtractions wraps. -/
def Stops (s : Stream σ) (o : Overload) (n : UInt64) (t : Site σ) (count : Nat) : Prop :=
  ∃ fuel v t' log, fixSize (logged (o.call s)) n fuel (t, []) = some (v, t', log) ∧
    log.length = count ∧ v.toInt ≤ 0 ∧ ∀ x ∈ log, sizeOfInt x.2 ≤ x.1

/-- Behind parts that leave something, the next call fails. -/
structure Fails (s : Stream σ) (o : Overload) (n : UInt64) (t : Site σ) (ks : List Nat) (left : UInt64) (r : Int32) :
    Prop where
  parts : ∃ t₁, Calls (o.call s) n t ks left t₁ ∧ (o.call s t₁ left).1 = r
  more : 0 < left.toNat
  failure : r.toInt ≤ 0

/-- The call that fails takes its result from the counter, and what was logged
before it did not wrap. -/
theorem Fails.next {o : Overload} {r : Int32} (h : Fails s o n t ks left r) : ∃ t₂ new,
    new.length = ks.length ∧ (∀ x ∈ new, sizeOfInt x.2 ≤ x.1) ∧
      ∀ fuel, loop (logged (o.call s)) (fuel + 1 + ks.length) n (t, []) =
        loop (logged (o.call s)) fuel (left - sizeOfInt r) (t₂, new ++ [(left, r)]) := by
  obtain ⟨⟨t₁, hc, rfl⟩, hmore, -⟩ := h
  obtain ⟨new, hlog, hlen, hnew⟩ := hc.logged []
  have hpos : 0 < left := UInt64.lt_iff_toNat_lt.2 hmore
  refine ⟨(o.call s t₁ left).2, new, hlen, hnew, ?_⟩
  intro fuel
  rw [hlog.loop_eq, loop, if_pos hpos]
  rfl

/-- Where the subtraction gives 0, the result is not positive: a length this
close to 2 ^ 64 is a negative `int`. -/
theorem Fails.result_le {o : Overload} {r : Int32} (h : Fails s o n t ks left r) (heq : left = sizeOfInt r) :
    (intOfSize n).toInt ≤ 0 := by
  obtain ⟨⟨t₁, hc, -⟩, hmore, hfail⟩ := h
  have hsum := hc.sum_eq
  have hlt := n.toNat_lt
  have hmin := Int32.le_toInt r
  have hsize := toNat_sizeOfInt r
  rw [toInt_intOfSize]
  rw [← heq] at hsize
  split at hsize <;> split <;> omega

/-- The only way to stop there is that the subtraction gives 0. -/
theorem Fails.stops_sub {o : Overload} {r : Int32} (h : Fails s o n t ks left r) :
    Stops s o n t (ks.length + 1) ↔ left = sizeOfInt r := by
  obtain ⟨t₂, new, hlen, hnew, hnext⟩ := h.next
  constructor
  · rintro ⟨fuel, v, t', log, hrun, hcount, -, -⟩
    rw [fixSize_eq, Option.map_eq_some_iff] at hrun
    obtain ⟨_, hloop, heq⟩ := hrun
    obtain ⟨-, rfl⟩ := Prod.mk.inj heq
    have hmono := loop_mono (m := 1 + ks.length) hloop
    rw [← Nat.add_assoc, hnext] at hmono
    by_contra hne
    -- something is left, so there is one more call
    have hleft : left - sizeOfInt r ≠ 0 := by
      intro hzero
      have hback := UInt64.sub_add_cancel left (sizeOfInt r)
      rw [hzero, UInt64.zero_add] at hback
      exact hne hback.symm
    have hlt := loop_goes_on hleft hmono
    simp only [List.length_append, List.length_singleton] at hlt
    omega
  · intro heq
    have hdone : loop (logged (o.call s)) (1 + 1 + ks.length) n (t, []) = some (t₂, new ++ [(left, r)]) := by
      rw [hnext, ← heq, UInt64.sub_self]
      rfl
    refine ⟨1 + 1 + ks.length, intOfSize n, t₂, new ++ [(left, r)], ?_, ?_, h.result_le heq, ?_⟩
    · rw [fixSize_eq, hdone]
      rfl
    · simp [hlen]
    · intro x hx
      rcases List.mem_append.1 hx with hx | hx
      · exact hnew x hx
      · obtain rfl := List.mem_singleton.1 hx
        show sizeOfInt r ≤ left
        rw [← heq]
        exact UInt64.le_refl left

/-- None of the four functions stops at a call that fails, unless the bytes that
are left are 2 ^ 64 less the error code. -/
theorem stops_iff {o : Overload} {r : Int32} (h : Fails s o n t ks left r) :
    Stops s o n t (ks.length + 1) ↔ r.toInt < 0 ∧ (left.toNat : Int) = 2 ^ 64 + r.toInt := by
  rw [h.stops_sub, ← UInt64.toNat_inj]
  have hsize := toNat_sizeOfInt r
  have hmore := h.more
  have hfail := h.failure
  split at hsize <;> omega

/-- A stream that is not connected. -/
def unconnected : Stream Unit where
  read _ _ := (-1, [], ())
  readBa _ ba _ := (-1, ba, ())
  write _ _ := (-1, ())
  writeBa _ ba _ := (-1, ba, ())

theorem unconnected_fails (o : Overload) {n : UInt64} (hn : 0 < n.toNat) (t : Site Unit) :
    Fails unconnected o n t [] n (-1) where
  parts := ⟨t, .done n t, by cases o <;> rfl⟩
  more := hn
  failure := by decide

/-- A length of 2 ^ 64 - 1 and the error code -1. -/
theorem stops_max :
    Stops unconnected .readBuffer 18446744073709551615 ⟨[], .new 4, ()⟩ 1 ∧
      Stops unconnected .writeBuffer 18446744073709551615 ⟨[], .new 4, ()⟩ 1 :=
  ⟨(stops_iff (unconnected_fails _ (by decide) ⟨[], .new 4, ()⟩)).2 (by decide),
    (stops_iff (unconnected_fails _ (by decide) ⟨[], .new 4, ()⟩)).2 (by decide)⟩

/-- Of four bytes none is there, and the loop goes on. -/
theorem not_stops : ¬ ∀ (s : Stream Unit) o n t ks left r, Fails s o n t ks left r →
    Stops s o n t (ks.length + 1) := by
  intro hall
  have hfails := unconnected_fails .readBuffer (n := 4) (by decide) ⟨[], .new 4, ()⟩
  exact absurd (hfails.stops_sub.1 (hall _ _ _ _ _ _ _ hfails)) (by decide)

end Stream

end Linko

import Linko.Timer.Model
/-!
# The set of timers

Between two operations `m_timers` holds the timers with a callback, in the
order of their current keys. Within an operation this is so but for the timers
that the operation has taken out, and only these have their keys written.
-/

namespace Linko.Timers

open OrderedSet Runs

variable {s s' : State} {t u : TimerId} {out : List TimerId}

/-! ## The comparator -/

theorem less_iff {a b : Timer} :
    a.less b = true ↔ a.next.toNat < b.next.toNat ∨ a.next.toNat = b.next.toNat ∧ a.addr < b.addr := by
  unfold Timer.less
  split
  · rename_i hlt
    rw [UInt64.lt_iff_toNat_lt] at hlt
    simp [hlt]
  · rename_i hge
    rw [UInt64.lt_iff_toNat_lt] at hge
    split
    · rename_i hgt
      rw [UInt64.lt_iff_toNat_lt] at hgt
      simp only [Bool.false_eq_true, false_iff]
      omega
    · rename_i hle
      rw [UInt64.lt_iff_toNat_lt] at hle
      rw [decide_eq_true_eq]
      omega

theorem less_irrefl (a : Timer) : a.less a = false := by
  rw [← Bool.not_eq_true, less_iff]
  omega

theorem less_trans {a b c : Timer} (hab : a.less b = true) (hbc : b.less c = true) : a.less c = true := by
  rw [less_iff] at *
  omega

theorem less_total {a b : Timer} (h : a.addr ≠ b.addr) : a.less b = true ∨ b.less a = true := by
  rw [less_iff, less_iff]
  omega

/-! ## The invariant -/

/-- The set without a timer. -/
@[simps] def State.without (s : State) (t : TimerId) : State := { s with timers := s.timers.erase t }

/-- The invariant, with the timers `out` taken out of the set for the moment. -/
structure Holds (out : List TimerId) (s : State) : Prop where
  mem_iff : ∀ t, t ∈ s.timers ↔ (s.timer t).cb ≠ none ∧ t ∉ out
  sorted : Sorted s.less s.timers
  taken : ∀ t ∈ out, (s.timer t).cb ≠ none
  alive : ∀ t, (s.timer t).cb ≠ none → s.alive t = true
  created : ∀ t, s.alive t = true → t < s.created
  addr : ∀ t u, s.alive t = true → s.alive u = true → (s.timer t).addr = (s.timer u).addr → t = u

theorem holds_init (now : UInt64) : Holds [] (init now) := by
  refine ⟨?_, List.Pairwise.nil, nofun, ?_, nofun, nofun⟩
  · intro t
    simp [init]
  · intro t ht
    exact absurd rfl ht

namespace Holds

theorem mem_alive (h : Holds out s) (ht : t ∈ s.timers) : s.alive t = true := h.alive t ((h.mem_iff t).1 ht).1

theorem nodup (h : Holds out s) : s.timers.Nodup := h.sorted.nodup fun t => less_irrefl (s.timer t)

/-- A timer that is not in the set has an address of its own. -/
theorem comparable (h : Holds out s) (ha : s.alive t = true) (ht : t ∉ s.timers) :
    Comparable s.less t s.timers := by
  intro u hu
  refine less_total ?_
  intro he
  exact ht (h.addr t u ha (h.mem_alive hu) he ▸ hu)

theorem find_eq (h : Holds out s) (ht : t ∈ s.timers) : s.find t = some t :=
  find_of_mem (fun t => less_irrefl (s.timer t)) h.sorted ht

/-- Taking a timer out. -/
theorem erase (h : Holds out s) (ht : t ∈ s.timers) :
    s.erase (s.find t) = .ok (s.without t) ∧ Holds (t :: out) (s.without t) := by
  rw [h.find_eq ht]
  refine ⟨rfl, ?_, h.sorted.sublist List.erase_sublist, ?_, h.alive, h.created, h.addr⟩
  · intro u
    show u ∈ s.timers.erase t ↔ _
    rw [h.nodup.mem_erase_iff, h.mem_iff u, List.mem_cons, not_or]
    tauto
  · intro u hu
    rcases List.mem_cons.1 hu with rfl | hu
    · exact ((h.mem_iff u).1 ht).1
    · exact h.taken u hu

/-- Writing to a timer that has been taken out. -/
theorem put (h : Holds out s) (ht : t ∈ out) {v : Timer} (hcb : v.cb ≠ none) (ha : v.addr = (s.timer t).addr) :
    Holds out (s.put t v) := by
  have hnot : t ∉ s.timers := fun hm => ((h.mem_iff t).1 hm).2 ht
  have hcb' : ∀ u, ((s.put t v).timer u).cb ≠ none ↔ (s.timer u).cb ≠ none := by
    intro u
    by_cases hu : u = t
    · subst hu
      simp [hcb, h.taken u ht]
    · simp [hu]
  have haddr : ∀ u, ((s.put t v).timer u).addr = (s.timer u).addr := by
    intro u
    by_cases hu : u = t
    · subst hu
      simp [ha]
    · simp [hu]
  refine ⟨?_, ?_, ?_, ?_, h.created, ?_⟩
  · intro u
    rw [hcb']
    exact h.mem_iff u
  · refine h.sorted.congr ?_
    intro a hma b hmb
    have hne : ∀ c ∈ s.timers, c ≠ t := fun c hc he => hnot (he ▸ hc)
    simp [State.less, hne a hma, hne b hmb]
  · intro u hu
    exact (hcb' u).2 (h.taken u hu)
  · intro u hu
    exact h.alive u ((hcb' u).1 hu)
  · intro u w hu hw he
    rw [haddr, haddr] at he
    exact h.addr u w hu hw he

theorem setNext (h : Holds out s) (ht : t ∈ out) (v : UInt64) :
    s.setNext t v = .ok (s.put t { s.timer t with next := v }) ∧
      Holds out (s.put t { s.timer t with next := v }) := by
  have hnot : t ∉ s.timers := fun hm => ((h.mem_iff t).1 hm).2 ht
  refine ⟨?_, h.put ht (h.taken t ht) rfl⟩
  unfold State.setNext
  rw [if_neg hnot]

/-- Putting it back in. -/
theorem insert (h : Holds (t :: out) s) (ht : t ∉ out) : Holds out (s.insert t) := by
  have hnot : t ∉ s.timers := fun hm => ((h.mem_iff t).1 hm).2 List.mem_cons_self
  have hcb := h.taken t List.mem_cons_self
  have hcomp := h.comparable (h.alive t hcb) hnot
  have hsorted : Sorted s.less (OrderedSet.insert s.less t s.timers) := by
    refine sorted_insert ?_ h.sorted t
    exact fun a b c => less_trans
  refine ⟨?_, hsorted, ?_, h.alive, h.created, h.addr⟩
  · intro u
    show u ∈ OrderedSet.insert s.less t s.timers ↔ _
    rw [mem_insert hcomp, h.mem_iff u, List.mem_cons, not_or]
    constructor
    · rintro (rfl | hu)
      · exact ⟨hcb, ht⟩
      · exact ⟨hu.1, hu.2.2⟩
    · rintro ⟨hu, hout⟩
      by_cases hut : u = t
      · exact .inl hut
      · exact .inr ⟨hu, hut, hout⟩
  · intro u hu
    exact h.taken u (List.mem_cons_of_mem t hu)

/-- Its callback is cleared instead. -/
theorem clear (h : Holds (t :: out) s) (ht : t ∉ out) : Holds out (s.setCb t none) := by
  have hnot : t ∉ s.timers := fun hm => ((h.mem_iff t).1 hm).2 List.mem_cons_self
  have hne : ∀ u, ((s.setCb t none).timer u).cb ≠ none ↔ (s.timer u).cb ≠ none ∧ u ≠ t := by
    intro u
    by_cases hu : u = t
    · subst hu
      simp [State.setCb]
    · simp [State.setCb, hu]
  have hsame : ∀ u, ((s.setCb t none).timer u).next = (s.timer u).next ∧
      ((s.setCb t none).timer u).addr = (s.timer u).addr := by
    intro u
    by_cases hu : u = t
    · subst hu
      simp [State.setCb]
    · simp [State.setCb, hu]
  refine ⟨?_, ?_, ?_, ?_, h.created, ?_⟩
  · intro u
    rw [hne]
    show u ∈ s.timers ↔ _
    rw [h.mem_iff u, List.mem_cons, not_or, and_assoc]
  · refine h.sorted.congr ?_
    intro a _ b _
    unfold State.less Timer.less
    rw [(hsame a).1, (hsame a).2, (hsame b).1, (hsame b).2]
  · intro u hu
    refine (hne u).2 ⟨h.taken u (List.mem_cons_of_mem t hu), ?_⟩
    rintro rfl
    exact ht hu
  · intro u hu
    exact h.alive u ((hne u).1 hu).1
  · intro u w hu hw he
    rw [(hsame u).2, (hsame w).2] at he
    exact h.addr u w hu hw he

/-- The flags do not matter. -/
theorem flags (h : Holds out s) (tickled : Bool) (previousTime : UInt64) :
    Holds out { s with tickled := tickled, previousTime := previousTime } :=
  ⟨h.mem_iff, h.sorted, h.taken, h.alive, h.created, h.addr⟩

/-- Putting it back in, and asking for a wake-up. -/
theorem addLocked (h : Holds (t :: out) s) (ht : t ∉ out) : Holds out (addLocked s t).1 := by
  unfold Timers.addLocked
  dsimp only
  split
  · exact (h.insert ht).flags true _
  · exact h.insert ht

end Holds

/-! ## The operations -/

theorem cancel_idle (hcb : (s.timer t).cb = none) : cancel s t = .ok (s, false) := by
  unfold cancel
  rw [if_neg (not_not.2 hcb)]

/-- A timer is still found when its callback is cleared. -/
theorem find_cleared (h : Holds [] s) (hcb : (s.timer t).cb ≠ none) : (s.setCb t none).find t = some t := by
  have hless : (s.setCb t none).less = s.less := by
    funext a b
    unfold State.less State.setCb
    by_cases ha : a = t <;> by_cases hb : b = t <;> simp [ha, hb, Timer.less]
  unfold State.find
  rw [hless]
  exact h.find_eq ((h.mem_iff t).2 ⟨hcb, List.not_mem_nil⟩)

theorem cancel_spec (h : Holds [] s) (hcb : (s.timer t).cb ≠ none) :
    cancel s t = .ok ((s.without t).setCb t none, true) ∧ Holds [] ((s.without t).setCb t none) := by
  have hmem : t ∈ s.timers := (h.mem_iff t).2 ⟨hcb, List.not_mem_nil⟩
  refine ⟨?_, (h.erase hmem).2.clear List.not_mem_nil⟩
  unfold cancel
  rw [if_pos hcb]
  simp only [find_cleared h hcb]
  rfl

theorem refresh_idle (hcb : (s.timer t).cb = none) (now : UInt64) : refresh s t now = .ok (s, false) := by
  unfold refresh
  rw [if_pos hcb]

/-- The set without a timer, whose deadline is then set. -/
def State.moved (s : State) (t : TimerId) (ms next : UInt64) : State :=
  (s.without t).put t { s.timer t with ms := ms, next := next }

theorem moved_holds (h : Holds [] s) (hcb : (s.timer t).cb ≠ none) (ms next : UInt64) :
    Holds [t] (s.moved t ms next) := by
  have hmem : t ∈ s.timers := (h.mem_iff t).2 ⟨hcb, List.not_mem_nil⟩
  exact (h.erase hmem).2.put List.mem_cons_self hcb rfl

theorem refresh_spec (h : Holds [] s) (hcb : (s.timer t).cb ≠ none) (now : UInt64) :
    refresh s t now = .ok ((s.moved t (s.timer t).ms (now + (s.timer t).ms)).insert t, true) ∧
      Holds [] ((s.moved t (s.timer t).ms (now + (s.timer t).ms)).insert t) := by
  have hmem : t ∈ s.timers := (h.mem_iff t).2 ⟨hcb, List.not_mem_nil⟩
  obtain ⟨herase, hout⟩ := h.erase hmem
  have hnext := (hout.setNext List.mem_cons_self (now + (s.timer t).ms)).1
  refine ⟨?_, (moved_holds h hcb _ _).insert List.not_mem_nil⟩
  rw [h.find_eq hmem] at herase
  unfold refresh
  rw [if_neg hcb, h.find_eq hmem]
  simp only [herase]
  show ((s.without t).setNext t (now + (s.timer t).ms) >>= _) = _
  rw [hnext]
  rfl

/-- When `reset` starts to count. -/
def resetStart (s : State) (t : TimerId) (fromNow : Bool) (now : UInt64) : UInt64 :=
  if fromNow then now else (s.timer t).next - (s.timer t).ms

theorem reset_same {ms : UInt64} {fromNow : Bool} (h : ms = (s.timer t).ms ∧ fromNow = false) (now : UInt64) :
    reset s t ms fromNow now = .ok (s, true, false) := by
  unfold reset
  rw [if_pos h]

theorem reset_dead {ms : UInt64} {fromNow : Bool} (h : ¬ (ms = (s.timer t).ms ∧ fromNow = false))
    (hcb : (s.timer t).cb = none) (now : UInt64) : reset s t ms fromNow now = .ok (s, false, false) := by
  unfold reset
  rw [if_neg h, if_pos hcb]

theorem reset_idle {ms : UInt64} {fromNow : Bool} (now : UInt64)
    (h : ms = (s.timer t).ms ∧ fromNow = false ∨ (s.timer t).cb = none) :
    ∃ r, reset s t ms fromNow now = .ok (s, r, false) := by
  by_cases hsame : ms = (s.timer t).ms ∧ fromNow = false
  · exact ⟨true, reset_same hsame now⟩
  · exact ⟨false, reset_dead hsame (h.resolve_left hsame) now⟩

theorem reset_spec (h : Holds [] s) (hcb : (s.timer t).cb ≠ none) {ms : UInt64} {fromNow : Bool}
    (hms : ¬ (ms = (s.timer t).ms ∧ fromNow = false)) (now : UInt64) :
    reset s t ms fromNow now = .ok ((addLocked (s.moved t ms (resetStart s t fromNow now + ms)) t).1, true,
        (addLocked (s.moved t ms (resetStart s t fromNow now + ms)) t).2) ∧
      Holds [] (addLocked (s.moved t ms (resetStart s t fromNow now + ms)) t).1 := by
  have hmem : t ∈ s.timers := (h.mem_iff t).2 ⟨hcb, List.not_mem_nil⟩
  obtain ⟨herase, hout⟩ := h.erase hmem
  have hset : Holds [t] ((s.without t).setMs t ms) := hout.put List.mem_cons_self hcb rfl
  have hnext := (hset.setNext List.mem_cons_self (resetStart s t fromNow now + ms)).1
  refine ⟨?_, (moved_holds h hcb _ _).addLocked List.not_mem_nil⟩
  have hmoved : ((s.without t).setMs t ms).put t
      { ((s.without t).setMs t ms).timer t with next := resetStart s t fromNow now + ms } =
      s.moved t ms (resetStart s t fromNow now + ms) := by
    simp [State.moved, State.setMs, State.put]
  rw [hmoved] at hnext
  rw [h.find_eq hmem] at herase
  unfold reset
  rw [if_neg hms, if_neg hcb, h.find_eq hmem]
  simp only [herase]
  show (((s.without t).setMs t ms).setNext t (resetStart s t fromNow now + ms) >>= _) = _
  rw [hnext]
  rfl

/-- A new object, not yet in the set. -/
def State.newTimer (s : State) (v : Timer) : State :=
  { s with created := s.created + 1, alive := Function.update s.alive s.created true }.put s.created v

theorem newTimer_holds (h : Holds [] s) {v : Timer} (hcb : v.cb ≠ none)
    (haddr : ∀ t, s.alive t = true → (s.timer t).addr ≠ v.addr) : Holds [s.created] (s.newTimer v) := by
  have hlive : ∀ t, s.alive t = true → t ≠ s.created := fun t ha => Nat.ne_of_lt (h.created t ha)
  have hold : ∀ t, t ≠ s.created → (s.newTimer v).timer t = s.timer t := by
    intro t ht
    simp [State.newTimer, ht]
  have hnew : (s.newTimer v).timer s.created = v := by simp [State.newTimer]
  have halive : ∀ t, (s.newTimer v).alive t = true ↔ t = s.created ∨ s.alive t = true := by
    intro t
    by_cases ht : t = s.created <;> simp [State.newTimer, ht]
  have hin : ∀ t ∈ s.timers, t ≠ s.created := fun t ht => hlive t (h.mem_alive ht)
  refine ⟨?_, ?_, ?_, ?_, ?_, ?_⟩
  · intro t
    show t ∈ s.timers ↔ _
    by_cases ht : t = s.created
    · subst ht
      simp only [List.mem_singleton, not_true_eq_false, and_false, iff_false]
      intro hm
      exact hin _ hm rfl
    · rw [h.mem_iff t, hold t ht]
      simp [ht]
  · refine h.sorted.congr ?_
    intro a ha b hb
    unfold State.less
    rw [hold a (hin a ha), hold b (hin b hb)]
  · intro t ht
    rw [List.mem_singleton.1 ht, hnew]
    exact hcb
  · intro t ht
    rw [halive]
    by_cases hc : t = s.created
    · exact .inl hc
    · rw [hold t hc] at ht
      exact .inr (h.alive t ht)
  · intro t ht
    show t < s.created + 1
    rcases (halive t).1 ht with rfl | ht
    · exact Nat.lt_succ_self _
    · exact Nat.lt_succ_of_lt (h.created t ht)
  · intro t u ht hu he
    -- an address is new, or both are those of before
    rcases (halive t).1 ht with rfl | ht <;> rcases (halive u).1 hu with rfl | hu
    · rfl
    · rw [hnew, hold u (hlive u hu)] at he
      exact absurd he.symm (haddr u hu)
    · rw [hnew, hold t (hlive t ht)] at he
      exact absurd he (haddr t ht)
    · rw [hold t (hlive t ht), hold u (hlive u hu)] at he
      exact h.addr t u ht hu he

theorem addr_new {ms now : UInt64} {cb : CallbackId} {recurring : Bool} {addr : Nat} (h : Holds [] s)
    (he : enabled s (.addTimer ms cb recurring addr now) = true) :
    ∀ t, s.alive t = true → (s.timer t).addr ≠ addr := by
  intro t ha
  simpa [ha] using List.all_eq_true.1 he t (List.mem_range.2 (h.created t ha))

theorem addTimer_eq (s : State) (ms : UInt64) (cb : CallbackId) (recurring : Bool) (addr : Nat) (now : UInt64) :
    addTimer s ms cb recurring addr now =
      ((addLocked (s.newTimer ⟨recurring, ms, now + ms, some cb, addr⟩) s.created).1, s.created,
        (addLocked (s.newTimer ⟨recurring, ms, now + ms, some cb, addr⟩) s.created).2) := rfl

/-! ## Expiry -/

/-- A timer after its callback has been handed out. -/
def Timer.fired (now : UInt64) (v : Timer) : Timer :=
  if v.recurring then { v with next := now + v.ms } else { v with cb := none }

/-- What the loop over the expired timers does to the state. -/
structure Fired (now : UInt64) (expired : List TimerId) (s s' : State) : Prop where
  holds : Holds [] s'
  timer : ∀ t, s'.timer t = if t ∈ expired then (s.timer t).fired now else s.timer t
  created : s'.created = s.created
  tickled : s'.tickled = s.tickled

theorem handOut_spec {ts : List TimerId} (now : UInt64) (cbs : List (TimerId × Option CallbackId))
    (h : Holds (t :: ts) s) (ht : t ∉ ts) :
    ∃ s', handOut now (s, cbs) t = .ok (s', cbs ++ [(t, (s.timer t).cb)]) ∧ Holds ts s' ∧
      s'.timer = Function.update s.timer t ((s.timer t).fired now) ∧ s'.created = s.created ∧
      s'.tickled = s.tickled := by
  unfold handOut Timer.fired
  by_cases hr : (s.timer t).recurring = true
  · obtain ⟨hnext, hput⟩ := h.setNext List.mem_cons_self (now + (s.timer t).ms)
    simp only [if_pos hr, hnext]
    exact ⟨_, rfl, hput.insert ht, rfl, rfl, rfl⟩
  · simp only [if_neg hr]
    exact ⟨_, rfl, h.clear ht, rfl, rfl, rfl⟩

/-- Each turn of the loop puts one of the expired timers back in or clears its
callback. -/
theorem handOuts_spec {expired : List TimerId} (now : UInt64) (cbs : List (TimerId × Option CallbackId))
    (h : Holds expired s) (hnodup : expired.Nodup) :
    ∃ s', expired.foldlM (handOut now) (s, cbs) = .ok (s', cbs ++ expired.map fun t => (t, (s.timer t).cb)) ∧
      Fired now expired s s' := by
  induction expired generalizing s cbs with
  | nil => exact ⟨s, by simp [pure, Except.pure], h, by simp, rfl, rfl⟩
  | cons t ts ih =>
    obtain ⟨ht, hts⟩ := List.nodup_cons.1 hnodup
    obtain ⟨s₁, hok, hout, htimer, hcreated, htickled⟩ := handOut_spec now cbs h ht
    obtain ⟨s', hrest, hfired⟩ := ih (cbs ++ [(t, (s.timer t).cb)]) hout hts
    have hother : ∀ u ∈ ts, s₁.timer u = s.timer u := by
      intro u hu
      have hut : u ≠ t := fun he => ht (he ▸ hu)
      rw [htimer, Function.update_of_ne hut]
    refine ⟨s', ?_, hfired.holds, ?_, hfired.created.trans hcreated, hfired.tickled.trans htickled⟩
    · have hmap : (ts.map fun u => (u, (s₁.timer u).cb)) = ts.map fun u => (u, (s.timer u).cb) :=
        List.map_congr_left fun u hu => by rw [hother u hu]
      rw [List.foldlM_cons, hok]
      show ts.foldlM (handOut now) (s₁, _) = _
      rw [hrest, hmap, List.append_assoc, List.map_cons, List.singleton_append]
    · intro u
      rw [hfired.timer u, htimer]
      by_cases hut : u = t
      · subst hut
        simp [ht]
      · simp [hut]

theorem splitExpired_append (s : State) (rollover : Bool) (now : UInt64) (addr : Nat) :
    (splitExpired s rollover now addr).1 ++ (splitExpired s rollover now addr).2 = s.timers := by
  unfold splitExpired
  split
  · exact List.append_nil _
  · simp only [List.append_assoc, List.takeWhile_append_dropWhile]

/-- Taking the first timers out. -/
theorem Holds.takeOut {expired rest : List TimerId} (h : Holds [] s) (hsplit : expired ++ rest = s.timers) :
    Holds expired { s with timers := rest } := by
  have hnodup := h.nodup
  rw [← hsplit] at hnodup
  have hmem : ∀ t, t ∈ expired ∨ t ∈ rest ↔ (s.timer t).cb ≠ none := by
    intro t
    rw [← List.mem_append, hsplit, h.mem_iff t]
    simp
  refine ⟨?_, ?_, ?_, h.alive, h.created, h.addr⟩
  · intro t
    show t ∈ rest ↔ (s.timer t).cb ≠ none ∧ _
    rw [← hmem t]
    constructor
    · intro ht
      exact ⟨.inr ht, fun he => (List.nodup_append.1 hnodup).2.2 t he t ht rfl⟩
    · rintro ⟨ht | ht, hout⟩
      · exact absurd ht hout
      · exact ht
  · refine List.Pairwise.sublist ?_ h.sorted
    rw [← hsplit]
    exact List.sublist_append_right expired rest
  · intro t ht
    exact (hmem t).1 (.inl ht)

/-- The timers that `listExpiredCb` is to hand out: all of them after a
rollover, otherwise those that are due. -/
def expiredAt (s : State) (now : UInt64) : List TimerId :=
  if detectClockRollover s now then s.timers else s.timers.filter fun t => (s.timer t).next ≤ now

theorem expiredAt_sublist (s : State) (now : UInt64) : (expiredAt s now).Sublist s.timers := by
  unfold expiredAt
  split
  · exact List.Sublist.refl _
  · exact List.filter_sublist

theorem less_next {a b : Timer} (h : a.less b = true) : a.next ≤ b.next := by
  rw [UInt64.le_iff_toNat_le]
  rcases less_iff.1 h with hlt | ⟨heq, -⟩
  · exact Nat.le_of_lt hlt
  · exact Nat.le_of_eq heq

/-- Who is due stands in front. -/
theorem below_due (s : State) (now : UInt64) : Below s.less s.timers fun t => (s.timer t).next ≤ now := by
  intro t _ u _ hlt hu
  exact decide_eq_true (UInt64.le_trans (less_next hlt) (of_decide_eq_true hu))

/-- Whatever the address of `now_timer` is, the two loops together stop behind
the last timer that is due. -/
theorem splitExpired_fst (h : Sorted s.less s.timers) (now : UInt64) (addr : Nat) :
    (splitExpired s (detectClockRollover s now) now addr).1 = expiredAt s now := by
  unfold splitExpired expiredAt
  split
  · rfl
  refine h.takeWhile_then (fun t _ u _ => less_trans) (below_due s now) ?_ ?_
  · intro t _ hless
    exact decide_eq_true (less_next hless)
  · intro t _ hless
    rw [← Bool.not_eq_true, less_iff] at hless
    simp only [UInt64.le_iff_toNat_le, ← UInt64.toNat_inj, decide_eq_decide]
    simp only at hless
    omega

theorem expiredAt_idle {front : TimerId} {rest : List TimerId} (h : Sorted s.less s.timers)
    (hfront : s.timers = front :: rest) {now : UInt64}
    (hidle : detectClockRollover s now = false ∧ (s.timer front).next > now) : expiredAt s now = [] := by
  obtain ⟨hroll, hlate⟩ := hidle
  rw [hfront] at h
  rw [expiredAt, hroll, if_neg Bool.false_ne_true, hfront, List.filter_eq_nil_iff]
  intro t ht hdue
  have hdue := of_decide_eq_true hdue
  rcases h.head_le ht with rfl | hlt
  · exact absurd hdue (UInt64.not_le.2 hlate)
  · exact absurd (UInt64.le_trans (less_next hlt) hdue) (UInt64.not_le.2 hlate)

theorem listExpiredCb_spec (h : Holds [] s) (now : UInt64) (addr : Nat) :
    ∃ s', listExpiredCb s now addr = .ok (s', (expiredAt s now).map fun t => (t, (s.timer t).cb)) ∧
      Fired now (expiredAt s now) s s' := by
  unfold listExpiredCb
  split
  · rename_i hnone
    have hnil : expiredAt s now = [] := by simpa [hnone] using expiredAt_sublist s now
    rw [hnil]
    exact ⟨s, rfl, h, by simp, rfl, rfl⟩
  · rename_i front rest hfront
    dsimp only
    split
    · rename_i hidle
      rw [expiredAt_idle h.sorted hfront hidle]
      exact ⟨_, rfl, h.flags s.tickled now, by simp, rfl, rfl⟩
    · have hflags := h.flags s.tickled now
      have hsplit := splitExpired_append { s with previousTime := now } (detectClockRollover s now) now addr
      have hexpired : (splitExpired { s with previousTime := now } (detectClockRollover s now) now addr).1 =
          expiredAt s now := splitExpired_fst h.sorted now addr
      rw [hexpired] at hsplit ⊢
      obtain ⟨s', hok, hfired⟩ := handOuts_spec now [] (hflags.takeOut hsplit)
        ((expiredAt_sublist s now).nodup h.nodup)
      exact ⟨s', hok, hfired.holds, hfired.timer, hfired.created, hfired.tickled⟩

/-! ## Runs -/

@[simp] theorem addLocked_timer (s : State) (t : TimerId) : (addLocked s t).1.timer = s.timer := by
  unfold addLocked
  dsimp only
  split <;> rfl

@[simp] theorem addLocked_created (s : State) (t : TimerId) : (addLocked s t).1.created = s.created := by
  unfold addLocked
  dsimp only
  split <;> rfl

theorem getNextTimer_state (s : State) (now : UInt64) :
    (getNextTimer s now).1 = { s with tickled := false } := by
  unfold getNextTimer
  dsimp only
  split
  · rfl
  · split <;> rfl

/-- What every operation keeps: whether a timer is recurring, and that it has
no callback any more. -/
structure Keeps (s s' : State) : Prop where
  created : s.created ≤ s'.created
  recurring : ∀ t, t < s.created → (s'.timer t).recurring = (s.timer t).recurring
  cleared : ∀ t, t < s.created → (s.timer t).cb = none → (s'.timer t).cb = none

theorem keeps_same (hcreated : s'.created = s.created) (htimer : s'.timer = s.timer) : Keeps s s' := by
  refine ⟨Nat.le_of_eq hcreated.symm, ?_, ?_⟩
  · intro t _
    rw [htimer]
  · intro t _ hcb
    rw [htimer]
    exact hcb

/-- A timer with a callback is written to. -/
theorem keeps_put {v : Timer} (hcreated : s'.created = s.created)
    (htimer : s'.timer = Function.update s.timer t v)
    (hcb : (s.timer t).cb ≠ none) (hv : v.recurring = (s.timer t).recurring) : Keeps s s' := by
  refine ⟨Nat.le_of_eq hcreated.symm, ?_, ?_⟩
  · intro u _
    rw [htimer]
    by_cases hu : u = t
    · subst hu
      simp [hv]
    · simp [hu]
  · intro u _ hnone
    have hu : u ≠ t := fun he => hcb (he ▸ hnone)
    rw [htimer, Function.update_of_ne hu]
    exact hnone

theorem keeps_fired {expired : List TimerId} {now : UInt64} (h : Fired now expired s s')
    (hcb : ∀ t ∈ expired, (s.timer t).cb ≠ none) : Keeps s s' := by
  refine ⟨Nat.le_of_eq h.created.symm, ?_, ?_⟩
  · intro t _
    rw [h.timer t]
    unfold Timer.fired
    split_ifs <;> rfl
  · intro t _ hnone
    rw [h.timer t, if_neg fun hm => hcb t hm hnone]
    exact hnone

/-- The last pointer to a timer that is not in the set is gone. -/
theorem destroy_holds (h : Holds [] s) (ht : t ∉ s.timers) :
    Holds [] { s with alive := Function.update s.alive t false } := by
  have hnone : (s.timer t).cb = none := by
    by_contra hcb
    exact ht ((h.mem_iff t).2 ⟨hcb, List.not_mem_nil⟩)
  have hlive : ∀ u, Function.update s.alive t false u = true → s.alive u = true := by
    intro u hu
    by_cases hut : u = t
    · simp [hut] at hu
    · simpa [hut] using hu
  refine ⟨h.mem_iff, h.sorted, h.taken, ?_, ?_, ?_⟩
  · intro u hu
    have hut : u ≠ t := fun e => hu (e ▸ hnone)
    simpa [hut] using h.alive u hu
  · intro u hu
    exact h.created u (hlive u hu)
  · intro u w hu hw he
    exact h.addr u w (hlive u hu) (hlive w hw) he

/-- No operation fails, and each keeps the invariant. -/
theorem apply_spec {op : Op} (h : Holds [] s) (he : enabled s op = true) :
    ∃ s', apply s op = .ok s' ∧ Holds [] s' ∧ Keeps s s' := by
  cases op with
  | addTimer ms cb recurring addr now =>
    have hnew := newTimer_holds h (v := ⟨recurring, ms, now + ms, some cb, addr⟩) (Option.some_ne_none cb)
      (addr_new h he)
    refine ⟨_, rfl, hnew.addLocked List.not_mem_nil, ?_⟩
    rw [addTimer_eq]
    have hold : ∀ t, t < s.created → (s.newTimer ⟨recurring, ms, now + ms, some cb, addr⟩).timer t =
      s.timer t := by
      intro t ht
      simp [State.newTimer, Nat.ne_of_lt ht]
    refine ⟨?_, ?_, ?_⟩
    · simp [State.newTimer]
    · intro t ht
      rw [addLocked_timer, hold t ht]
    · intro t ht hnone
      rw [addLocked_timer, hold t ht]
      exact hnone
  | cancel t =>
    simp only [apply]
    by_cases hcb : (s.timer t).cb = none
    · rw [cancel_idle hcb]
      exact ⟨s, rfl, h, keeps_same rfl rfl⟩
    · obtain ⟨hok, hs⟩ := cancel_spec h hcb
      rw [hok]
      exact ⟨_, rfl, hs, keeps_put rfl rfl hcb rfl⟩
  | refresh t now =>
    simp only [apply]
    by_cases hcb : (s.timer t).cb = none
    · rw [refresh_idle hcb]
      exact ⟨s, rfl, h, keeps_same rfl rfl⟩
    · obtain ⟨hok, hs⟩ := refresh_spec h hcb now
      rw [hok]
      exact ⟨_, rfl, hs, keeps_put rfl rfl hcb rfl⟩
  | reset t ms fromNow now =>
    simp only [apply]
    by_cases hidle : ms = (s.timer t).ms ∧ fromNow = false ∨ (s.timer t).cb = none
    · obtain ⟨r, hok⟩ := reset_idle now hidle
      rw [hok]
      exact ⟨s, rfl, h, keeps_same rfl rfl⟩
    · rw [not_or] at hidle
      obtain ⟨hok, hs⟩ := reset_spec h hidle.2 hidle.1 now
      rw [hok]
      exact ⟨_, rfl, hs, keeps_put (addLocked_created _ _) (addLocked_timer _ _) hidle.2 rfl⟩
  | listExpiredCb now addr =>
    simp only [apply]
    obtain ⟨s', hok, hfired⟩ := listExpiredCb_spec h now addr
    rw [hok]
    exact ⟨s', rfl, hfired.holds,
      keeps_fired hfired fun t ht => ((h.mem_iff t).1 ((expiredAt_sublist s now).subset ht)).1⟩
  | getNextTimer now =>
    simp only [apply, getNextTimer_state]
    exact ⟨_, rfl, h.flags false s.previousTime, keeps_same rfl rfl⟩
  | destroy t =>
    obtain ⟨ha, ht⟩ : s.alive t = true ∧ t ∉ s.timers := by simpa [enabled] using he
    exact ⟨_, rfl, destroy_holds h ht, keeps_same rfl rfl⟩

theorem step_spec {op : Op} (h : Holds [] s) (hs : step s op = some s') :
    enabled s op = true ∧ apply s op = .ok s' ∧ Holds [] s' ∧ Keeps s s' := by
  unfold step at hs
  split at hs
  · rename_i he
    obtain ⟨s₁, hok, hinv, hkeeps⟩ := apply_spec h he
    rw [hok] at hs
    obtain rfl : s₁ = s' := Option.some.inj hs
    exact ⟨he, hok, hinv, hkeeps⟩
  · cases hs

theorem holds_of_run {now : UInt64} {hist : List (State × Op)} (h : Run step (init now) hist s) : Holds [] s :=
  h.always (holds_init now) fun _ _ _ hs hstep => (step_spec hs hstep).2.2.1

/-- What the set is between two operations. -/
structure Registered (s : State) : Prop where
  mem_iff : ∀ t, t ∈ s.timers ↔ (s.timer t).cb ≠ none
  nodup : s.timers.Nodup
  ordered : s.timers.Pairwise fun t u => (s.timer t).next < (s.timer u).next ∨
    (s.timer t).next = (s.timer u).next ∧ (s.timer t).addr < (s.timer u).addr
  /-- The `find` of `cancel`, which has just cleared the callback. -/
  found : ∀ t, (s.timer t).cb ≠ none → (s.setCb t none).find t = some t

theorem Holds.registered (h : Holds [] s) : Registered s := by
  refine ⟨?_, h.nodup, ?_, fun t => find_cleared h⟩
  · intro t
    rw [h.mem_iff t]
    simp
  · refine List.Pairwise.imp ?_ h.sorted
    intro t u hlt
    rw [UInt64.lt_iff_toNat_lt, ← UInt64.toNat_inj]
    exact less_iff.1 hlt

/-- After every run the set holds the timers with a callback in the order of
their current keys, and no operation can fail. -/
theorem registered_of_run {now : UInt64} {hist : List (State × Op)} (h : Run step (init now) hist s) :
    Registered s ∧ ∀ op, enabled s op = true → ∃ s', apply s op = .ok s' := by
  have hs := holds_of_run h
  refine ⟨hs.registered, ?_⟩
  intro op he
  obtain ⟨s', hok, -⟩ := apply_spec hs he
  exact ⟨s', hok⟩

/-- A recurring timer is moved, expires and is put back behind another one,
which is cancelled. -/
def movedTimers : List Op :=
  [.addTimer 5 1 true 8 100, .addTimer 3 2 false 16 100, .reset 0 1 false 101, .listExpiredCb 102 24,
    .refresh 0 102, .addTimer 1 3 false 4 102, .cancel 1]

theorem registered_movedTimers :
    ∃ hist s, Run step (init 100) hist s ∧ s.timers = [2, 0] ∧ Registered s := by
  obtain ⟨hist, s, hrun, hp⟩ : ∃ hist s, Run step (init 100) hist s ∧ decide (s.timers = [2, 0]) = true :=
    exists_run movedTimers (by decide +kernel)
  exact ⟨hist, s, hrun, of_decide_eq_true hp, (registered_of_run hrun).1⟩

end Linko.Timers

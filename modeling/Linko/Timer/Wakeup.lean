import Linko.Timer.History
/-!
# Wake-ups

`getNextTimer` tells a thread how long it may sleep. A timer that comes to the
front later must wake it, so `onTimerInsertedAtFront` is called, once between
two calls of `getNextTimer`. The other operations only move deadlines back, as
the clock does not go backwards.
-/

namespace Linko.Timers

open OrderedSet Runs

variable {s s' : State} {t : TimerId} {op : Op} {out : List TimerId}

/-! ## What a run shows -/

/-- The clock reading of an operation. -/
def reading : Op → List UInt64
  | .addTimer _ _ _ _ now | .refresh _ now | .reset _ _ true now | .listExpiredCb now _ | .getNextTimer now => [now]
  | .reset _ _ false _ | .cancel _ | .destroy _ => []

/-- The deadlines that an operation sets, each as the sum that it computes. -/
def deadlines (s : State) : Op → List (UInt64 × UInt64)
  | .addTimer ms _ _ _ now => [(now, ms)]
  | .refresh t now => if (s.timer t).cb = none then [] else [(now, (s.timer t).ms)]
  | .reset t ms fromNow now =>
    if ms = (s.timer t).ms ∧ fromNow = false ∨ (s.timer t).cb = none then []
    else [(resetStart s t fromNow now, ms)]
  | .listExpiredCb now addr =>
    ((handed s (.listExpiredCb now addr)).filter fun t => (s.timer t).recurring).map fun t =>
      (now, (s.timer t).ms)
  | .cancel _ | .getNextTimer _ | .destroy _ => []

/-- `onTimerInsertedAtFront` is called. -/
def insertsAtFront (s : State) : Op → Bool
  | .addTimer ms cb recurring addr now => (addTimer s ms cb recurring addr now).2.2
  | .reset t ms fromNow now =>
    match reset s t ms fromNow now with
    | .ok (_, _, atFront) => atFront
    | .error _ => false
  | _ => false

/-- The deadline of the first timer, with `none` for infinity. -/
def front (s : State) : Option UInt64 := s.timers.head?.map fun t => (s.timer t).next

def seenBy (s : State) (op : Op) (seen : Option UInt64) : Option UInt64 :=
  match op with
  | .getNextTimer _ => front s
  | _ => seen

def toldBy (s : State) (op : Op) (told : Bool) : Bool :=
  match op with
  | .getNextTimer _ => false
  | _ => told || insertsAtFront s op

/-- The deadline that the last call of `getNextTimer` saw. -/
def lastSeen (hist : List (State × Op)) : Option UInt64 := hist.foldl (fun seen x => seenBy x.1 x.2 seen) none

/-- A deadline is not in front of the one seen. -/
def NotBefore (seen : Option UInt64) (next : UInt64) : Prop := ∃ d, seen = some d ∧ d ≤ next

/-- `onTimerInsertedAtFront` was called after the last call of `getNextTimer`. -/
def notified (hist : List (State × Op)) : Bool := hist.foldl (fun told x => toldBy x.1 x.2 told) false

/-- The clock does not go backwards. -/
def SteadyClock (hist : List (State × Op)) : Prop := (hist.flatMap fun x => reading x.2).Pairwise (· ≤ ·)

/-- No sum overflows. -/
def Fits (s : State) (op : Op) : Prop := ∀ d ∈ deadlines s op, d.1.toNat + d.2.toNat < UInt64.size

theorem toNat_deadline {start ms : UInt64} (h : start.toNat + ms.toNat < UInt64.size) :
    (start + ms).toNat = start.toNat + ms.toNat := by
  rw [UInt64.toNat_add]
  exact Nat.mod_eq_of_lt h

theorem NotBefore.trans {seen : Option UInt64} {d e : UInt64} (h : NotBefore seen d) (hle : d.toNat ≤ e.toNat) :
    NotBefore seen e := by
  obtain ⟨c, hc, hcd⟩ := h
  rw [UInt64.le_iff_toNat_le] at hcd
  exact ⟨c, hc, UInt64.le_iff_toNat_le.2 (Nat.le_trans hcd hle)⟩

/-! ## The invariant -/

/-- Every deadline was computed from an earlier reading of the clock, and none
is in front of the one last seen unless there has been a call. -/
structure Wakes (seen : Option UInt64) (told : Bool) (readings : List UInt64) (s : State) : Prop where
  flag : s.tickled = true → told = true
  seen : ∀ t ∈ s.timers, told = true ∨ NotBefore seen (s.timer t).next
  start : ∀ t ∈ s.timers, ∃ r ∈ readings, (s.timer t).next.toNat = r.toNat + (s.timer t).ms.toNat

variable {seen : Option UInt64} {told : Bool} {readings readings' : List UInt64}

theorem wakes_init (now : UInt64) : Wakes none false [] (init now) := by
  constructor <;> simp [init]

/-- Timers go and deadlines are moved back. -/
theorem Wakes.later (h : Wakes seen told readings s) (htickled : s'.tickled = s.tickled)
    (hnext : ∀ t ∈ s'.timers, t ∈ s.timers ∧ (s.timer t).next.toNat ≤ (s'.timer t).next.toNat)
    (hstart : ∀ t ∈ s'.timers, ∃ r ∈ readings', (s'.timer t).next.toNat = r.toNat + (s'.timer t).ms.toNat) :
    Wakes seen told readings' s' := by
  refine ⟨?_, ?_, hstart⟩
  · rw [htickled]
    exact h.flag
  · intro t ht
    obtain ⟨hmem, hle⟩ := hnext t ht
    exact (h.seen t hmem).imp_right fun hseen => hseen.trans hle

/-- Nothing moves. -/
theorem Wakes.same (h : Wakes seen told readings s) (htickled : s'.tickled = s.tickled)
    (hsub : ∀ r ∈ readings, r ∈ readings') (hmem : ∀ t ∈ s'.timers, t ∈ s.timers ∧ s'.timer t = s.timer t) :
    Wakes seen told readings' s' := by
  refine h.later htickled ?_ ?_
  · intro t ht
    rw [(hmem t ht).2]
    exact ⟨(hmem t ht).1, Nat.le_refl _⟩
  · intro t ht
    rw [(hmem t ht).2]
    obtain ⟨r, hr, he⟩ := h.start t (hmem t ht).1
    exact ⟨r, hsub r hr, he⟩

/-- Deadlines are counted from now again. -/
theorem Wakes.rearmed (h : Wakes seen told readings s) {now : UInt64} (hclock : ∀ r ∈ readings, r ≤ now)
    (htickled : s'.tickled = s.tickled)
    (hmem : ∀ t ∈ s'.timers, t ∈ s.timers ∧ (s'.timer t = s.timer t ∨
      s'.timer t = { s.timer t with next := now + (s.timer t).ms } ∧
        now.toNat + (s.timer t).ms.toNat < UInt64.size)) :
    Wakes seen told (readings ++ [now]) s' := by
  refine h.later htickled ?_ ?_
  · intro t ht
    obtain ⟨hin, hsame | ⟨hnow, hfits⟩⟩ := hmem t ht
    · rw [hsame]
      exact ⟨hin, Nat.le_refl _⟩
    · obtain ⟨r, hr, he⟩ := h.start t hin
      have hle := UInt64.le_iff_toNat_le.1 (hclock r hr)
      rw [hnow]
      refine ⟨hin, ?_⟩
      show _ ≤ (now + (s.timer t).ms).toNat
      rw [toNat_deadline hfits]
      omega
  · intro t ht
    obtain ⟨hin, hsame | ⟨hnow, hfits⟩⟩ := hmem t ht
    · obtain ⟨r, hr, he⟩ := h.start t hin
      rw [hsame]
      exact ⟨r, List.mem_append_left _ hr, he⟩
    · rw [hnow]
      exact ⟨now, List.mem_append_right _ List.mem_cons_self, toNat_deadline hfits⟩

/-- A timer that is put in either comes to the front and there is a call, or
the call was made before, or another one is in front of it. -/
theorem addLocked_front (h : Holds (t :: out) s) (ht : t ∉ out) :
    (addLocked s t).1.tickled = (s.tickled || (addLocked s t).2) ∧
      ((addLocked s t).2 = true ∨ s.tickled = true ∨
        ∃ u ∈ s.timers, (s.timer u).next.toNat ≤ (s.timer t).next.toNat) := by
  have hin := h.insert ht
  have hcb := h.taken t List.mem_cons_self
  have hmem : t ∈ (s.insert t).timers := (hin.mem_iff t).2 ⟨hcb, ht⟩
  have hnot : t ∉ s.timers := fun hm => ((h.mem_iff t).1 hm).2 List.mem_cons_self
  have hcomp := h.comparable (h.alive t hcb) hnot
  unfold addLocked
  simp only [hin.find_eq hmem]
  obtain ⟨u, rest, hu⟩ := List.exists_cons_of_ne_nil (List.ne_nil_of_mem hmem)
  simp only [hu, List.head?_cons, Option.some.injEq]
  by_cases hfirst : t = u
  · cases hflag : s.tickled <;> simp [hfirst, hflag]
  · have huin : u ∈ s.timers := by
      have hus : u ∈ OrderedSet.insert s.less t s.timers := by
        show u ∈ (s.insert t).timers
        rw [hu]
        exact List.mem_cons_self
      exact ((mem_insert hcomp).1 hus).resolve_left (Ne.symm hfirst)
    have hsorted := hin.sorted
    rw [hu] at hsorted hmem
    have hless := (hsorted.head_le hmem).resolve_left hfirst
    have hle : (s.timer u).next.toNat ≤ (s.timer t).next.toNat := by
      have hless' : (s.timer u).less (s.timer t) = true := hless
      rw [less_iff] at hless'
      omega
    simp only [decide_eq_false hfirst, Bool.false_and, Bool.false_eq_true, if_false, Bool.or_false]
    exact ⟨rfl, .inr (.inr ⟨u, huin, hle⟩)⟩

/-- Putting a timer in whose deadline counts from an earlier reading. -/
theorem Wakes.addLocked (h : Wakes seen told readings s) (hs : Holds [t] s)
    (hstart : ∃ r ∈ readings, (s.timer t).next.toNat = r.toNat + (s.timer t).ms.toNat) :
    Wakes seen (told || (addLocked s t).2) readings (addLocked s t).1 := by
  obtain ⟨htickled, hfront⟩ := addLocked_front hs List.not_mem_nil
  have hmem : ∀ u ∈ (Timers.addLocked s t).1.timers, u = t ∨ u ∈ s.timers := by
    intro u hu
    have hafter := hs.addLocked List.not_mem_nil
    rw [hafter.mem_iff u, addLocked_timer] at hu
    by_cases hut : u = t
    · exact .inl hut
    · exact .inr ((hs.mem_iff u).2 ⟨hu.1, by simpa using hut⟩)
  refine ⟨?_, ?_, ?_⟩
  · rw [htickled, Bool.or_eq_true, Bool.or_eq_true]
    exact Or.imp_left h.flag
  · intro u hu
    rw [addLocked_timer, Bool.or_eq_true]
    rcases hmem u hu with rfl | hu
    · rcases hfront with hf | hflag | ⟨w, hw, hle⟩
      · exact .inl (.inr hf)
      · exact .inl (.inl (h.flag hflag))
      · exact (h.seen w hw).imp .inl fun hseen => hseen.trans hle
    · exact (h.seen u hu).imp_left .inl
  · intro u hu
    rw [addLocked_timer]
    rcases hmem u hu with rfl | hu
    · exact hstart
    · exact h.start u hu

/-- A timer with a deadline of its own is moved there, and put back by
`addTimer` or `refresh`. -/
theorem Wakes.moved (h : Wakes seen told readings s) (hs : Holds [] s) (hcb : (s.timer t).cb ≠ none)
    {r ms next : UInt64}
    (hr : r ∈ readings) (hfits : next.toNat = r.toNat + ms.toNat) :
    Wakes seen told readings (s.moved t ms next) ∧ Holds [t] (s.moved t ms next) ∧
      ∃ r ∈ readings, ((s.moved t ms next).timer t).next.toNat =
        r.toNat + ((s.moved t ms next).timer t).ms.toNat := by
  have hmoved := moved_holds hs hcb ms next
  refine ⟨h.same rfl (fun _ => id) ?_, hmoved, r, hr, ?_⟩
  · intro u hu
    have hut : u ≠ t := by simpa using ((hmoved.mem_iff u).1 hu).2
    exact ⟨List.mem_of_mem_erase hu, by simp [State.moved, hut]⟩
  · simpa [State.moved] using hfits

theorem front_notBefore (hs : Holds [] s) (ht : t ∈ s.timers) : NotBefore (front s) (s.timer t).next := by
  have hsorted := hs.sorted
  obtain ⟨u, rest, hcons⟩ := List.exists_cons_of_ne_nil (List.ne_nil_of_mem ht)
  rw [hcons] at ht hsorted
  refine ⟨(s.timer u).next, by simp [front, hcons], UInt64.le_iff_toNat_le.2 ?_⟩
  rcases hsorted.head_le ht with rfl | hless
  · exact Nat.le_refl _
  · have hless' : (s.timer u).less (s.timer t) = true := hless
    rw [less_iff] at hless'
    omega

theorem Fits.of_mem {d : UInt64 × UInt64} (h : Fits s op) (hd : d ∈ deadlines s op) :
    (d.1 + d.2).toNat = d.1.toNat + d.2.toNat := toNat_deadline (h d hd)

/-- A timer that is cancelled leaves the set. -/
theorem Wakes.cancelled (h : Wakes seen told readings s) (hs' : Holds [] ((s.without t).setCb t none)) :
    Wakes seen told readings ((s.without t).setCb t none) := by
  refine h.same rfl (fun _ => id) ?_
  intro u hu
  have hut : u ≠ t := fun he => ((hs'.mem_iff u).1 hu).1 (by simp [he, State.setCb])
  exact ⟨List.mem_of_mem_erase hu, by simp [State.setCb, hut]⟩

theorem Wakes.refreshed (h : Wakes seen told readings s) (hs : Holds [] s)
    (hcb : (s.timer t).cb ≠ none) {now : UInt64}
    (hclock : ∀ r ∈ readings, r ≤ now) (hfits : now.toNat + (s.timer t).ms.toNat < UInt64.size)
    (hs' : Holds [] ((s.moved t (s.timer t).ms (now + (s.timer t).ms)).insert t)) :
    Wakes seen told (readings ++ [now]) ((s.moved t (s.timer t).ms (now + (s.timer t).ms)).insert t) := by
  refine h.rearmed hclock rfl ?_
  intro u hu
  have hcu := ((hs'.mem_iff u).1 hu).1
  by_cases hut : u = t
  · subst hut
    exact ⟨(hs.mem_iff u).2 ⟨hcb, List.not_mem_nil⟩, .inr ⟨by simp [State.moved], hfits⟩⟩
  · have hsame : ((s.moved t (s.timer t).ms (now + (s.timer t).ms)).insert t).timer u = s.timer u := by
      simp [State.moved, hut]
    rw [hsame] at hcu
    exact ⟨(hs.mem_iff u).2 ⟨hcu, List.not_mem_nil⟩, .inl hsame⟩

/-- `reset` counts from now, or from where the deadline was counted from. -/
theorem Wakes.resetStart (h : Wakes seen told readings s) (ht : t ∈ s.timers) (ms : UInt64) (fromNow : Bool)
    (now : UInt64) :
    ∃ r ∈ readings ++ reading (.reset t ms fromNow now), (resetStart s t fromNow now).toNat = r.toNat := by
  cases fromNow with
  | true => exact ⟨now, by simp [reading], rfl⟩
  | false =>
    obtain ⟨r, hr, he⟩ := h.start t ht
    refine ⟨r, List.mem_append_left _ hr, ?_⟩
    show ((s.timer t).next - (s.timer t).ms).toNat = _
    rw [UInt64.toNat_sub_of_le _ _ (UInt64.le_iff_toNat_le.2 (by omega))]
    omega

/-- The expired timers leave the set, except for the recurring ones. -/
theorem Wakes.fired (h : Wakes seen told readings s) (hs : Holds [] s) (hs' : Holds [] s') {now : UInt64}
    {expired : List TimerId} (hfired : Fired now expired s s') (hclock : ∀ r ∈ readings, r ≤ now)
    (hfits : ∀ t ∈ expired, (s.timer t).recurring = true → now.toNat + (s.timer t).ms.toNat < UInt64.size) :
    Wakes seen told (readings ++ [now]) s' := by
  refine h.rearmed hclock hfired.tickled ?_
  intro t ht
  have hcb := ((hs'.mem_iff t).1 ht).1
  rw [hfired.timer t] at hcb ⊢
  split_ifs at hcb ⊢ with hexp
  · unfold Timer.fired at hcb ⊢
    split_ifs at hcb ⊢ with hrec
    · exact ⟨(hs.mem_iff t).2 ⟨hcb, List.not_mem_nil⟩, .inr ⟨rfl, hfits t hexp hrec⟩⟩
    · exact absurd rfl hcb
  · exact ⟨(hs.mem_iff t).2 ⟨hcb, List.not_mem_nil⟩, .inl rfl⟩

theorem wakes_step (h : Wakes seen told readings s) (hs : Holds [] s) (hstep : step s op = some s')
    (hfits : Fits s op)
    (hclock : ∀ now ∈ reading op, ∀ r ∈ readings, r ≤ now) :
    Wakes (seenBy s op seen) (toldBy s op told) (readings ++ reading op) s' := by
  obtain ⟨he, hok, hs', -⟩ := step_spec hs hstep
  have hsub : ∀ r ∈ readings, r ∈ readings ++ reading op := fun r hr => List.mem_append_left _ hr
  have hwakes : Wakes seen told (readings ++ reading op) s := h.same rfl hsub fun t ht => ⟨ht, rfl⟩
  cases op with
  | addTimer ms cb recurring addr now =>
    obtain rfl := Except.ok.inj hok
    have hnew := newTimer_holds hs (v := ⟨recurring, ms, now + ms, some cb, addr⟩) (Option.some_ne_none cb)
      (addr_new hs he)
    have hold : ∀ t ∈ s.timers, (s.newTimer ⟨recurring, ms, now + ms, some cb, addr⟩).timer t = s.timer t := by
      intro t ht
      simp [State.newTimer, Nat.ne_of_lt (hs.created t (hs.mem_alive ht))]
    refine Wakes.addLocked (hwakes.same rfl (fun _ => id) fun t ht => ⟨ht, hold t ht⟩) hnew ⟨now, ?_, ?_⟩
    · simp [reading]
    · simpa [State.newTimer] using hfits.of_mem (d := (now, ms)) (by simp [deadlines])
  | cancel t =>
    simp only [seenBy, toldBy, insertsAtFront, Bool.or_false]
    rcases cancelled_cancel (u := t) hs with ⟨hcb, -⟩ | ⟨hcb, -, happly⟩
    · simp only [apply, cancel_idle hcb] at hok
      obtain rfl := Except.ok.inj hok
      exact hwakes
    · rw [happly] at hok
      obtain rfl := Except.ok.inj hok
      exact hwakes.cancelled hs'
  | refresh t now =>
    simp only [seenBy, toldBy, insertsAtFront, Bool.or_false]
    by_cases hcb : (s.timer t).cb = none
    · simp only [apply, refresh_idle hcb] at hok
      obtain rfl := Except.ok.inj hok
      exact hwakes
    · have hd : (now, (s.timer t).ms) ∈ deadlines s (.refresh t now) := by simp [deadlines, hcb]
      simp only [apply, (refresh_spec hs hcb now).1] at hok
      obtain rfl := Except.ok.inj hok
      exact h.refreshed hs hcb (hclock now (by simp [reading])) (hfits _ hd) hs'
  | reset t ms fromNow now =>
    by_cases hidle : ms = (s.timer t).ms ∧ fromNow = false ∨ (s.timer t).cb = none
    · obtain ⟨r, hreset⟩ := reset_idle now hidle
      simp only [apply, hreset] at hok
      obtain rfl := Except.ok.inj hok
      simp only [seenBy, toldBy, insertsAtFront, hreset, Bool.or_false]
      exact hwakes
    · have hd : (Timers.resetStart s t fromNow now, ms) ∈ deadlines s (.reset t ms fromNow now) := by
        simp [deadlines, hidle]
      have hsum := hfits.of_mem hd
      rw [not_or] at hidle
      have hreset := (reset_spec hs hidle.2 hidle.1 now).1
      simp only [apply, hreset] at hok
      obtain rfl := Except.ok.inj hok
      obtain ⟨r, hr, hstart⟩ := h.resetStart ((hs.mem_iff t).2 ⟨hidle.2, List.not_mem_nil⟩) ms fromNow now
      rw [hstart] at hsum
      obtain ⟨hmoved, hout, hcount⟩ := hwakes.moved hs hidle.2 hr hsum
      simp only [seenBy, toldBy, insertsAtFront, hreset]
      exact hmoved.addLocked hout hcount
  | listExpiredCb now addr =>
    obtain ⟨s₁, happly, hfired, -, -⟩ := handed_listExpiredCb hs now addr
    rw [happly] at hok
    obtain rfl := Except.ok.inj hok
    simp only [seenBy, toldBy, insertsAtFront, Bool.or_false]
    refine h.fired hs hs' hfired (hclock now (by simp [reading])) ?_
    intro t hexp hrec
    exact hfits (now, (s.timer t).ms) (List.mem_map.2 ⟨t, List.mem_filter.2 ⟨hexp, hrec⟩, rfl⟩)
  | getNextTimer now =>
    obtain rfl : { s with tickled := false } = s' := by
      simpa [apply, getNextTimer_state] using hok
    -- the flag is cleared, and the waiter has just seen the front
    refine ⟨fun hflag => absurd hflag Bool.false_ne_true, ?_, hwakes.start⟩
    intro t ht
    exact .inr (front_notBefore hs ht)
  | destroy t =>
    obtain rfl := Except.ok.inj hok
    simp only [seenBy, toldBy, insertsAtFront, Bool.or_false]
    exact hwakes.same rfl (fun _ => id) fun t ht => ⟨ht, rfl⟩

/-! ## Runs -/

theorem wakes_of_run {now : UInt64} {hist : List (State × Op)} (h : Run step (init now) hist s)
    (hclock : SteadyClock hist) (hfits : ∀ x ∈ hist, Fits x.1 x.2) :
    Wakes (lastSeen hist) (notified hist) (hist.flatMap fun x => reading x.2) s := by
  induction h with
  | start => exact wakes_init now
  | @next hist s s' op hrun hstep ih =>
    unfold SteadyClock at hclock
    rw [List.flatMap_append, List.flatMap_singleton] at hclock ⊢
    obtain ⟨hbefore, -, hlater⟩ := List.pairwise_append.1 hclock
    have hwakes := ih hbefore fun x hx => hfits x (List.mem_append_left _ hx)
    have hlast := hfits (s, op) (List.mem_append_right _ List.mem_cons_self)
    have hnext := wakes_step hwakes (holds_of_run hrun) hstep hlast fun n hn r hr => hlater r hr n hn
    simpa [lastSeen, notified] using hnext

/-- In every run with a steady clock and without overflow, no deadline is in
front of the one that `getNextTimer` saw last, or `onTimerInsertedAtFront` was
called since. -/
theorem wakeup_not_lost {now : UInt64} {hist : List (State × Op)} (h : Run step (init now) hist s)
    (hclock : SteadyClock hist) (hfits : ∀ x ∈ hist, Fits x.1 x.2) :
    (∀ t ∈ s.timers, NotBefore (lastSeen hist) (s.timer t).next) ∨ notified hist = true := by
  have hwakes := wakes_of_run h hclock hfits
  cases htold : notified hist with
  | true => exact .inr rfl
  | false =>
    refine .inl ?_
    intro t ht
    exact (hwakes.seen t ht).resolve_left (by simp [htold])

/-- A timer is put behind the one that a thread sleeps for, and that one is
refreshed. -/
def sleptFor : List Op :=
  [.addTimer 5 1 true 8 100, .getNextTimer 101, .addTimer 9 2 false 16 102, .refresh 0 103,
    .listExpiredCb 104 24]

theorem wakeup_not_lost_sleptFor : ∃ hist s, Run step (init 100) hist s ∧ s.timers = [0, 1] ∧
    notified hist = false ∧ ∀ t ∈ s.timers, NotBefore (lastSeen hist) (s.timer t).next := by
  obtain ⟨hist, s, hrun, hp⟩ : ∃ hist s, Run step (init 100) hist s ∧ decide (s.timers = [0, 1] ∧
      notified hist = false ∧ (hist.flatMap fun x => reading x.2).Pairwise (· ≤ ·) ∧
        (hist.flatMap fun x => deadlines x.1 x.2).all (fun d =>
          d.1.toNat + d.2.toNat < UInt64.size) = true) = true :=
    exists_run sleptFor (by decide +kernel)
  obtain ⟨htimers, htold, hclock, hall⟩ := of_decide_eq_true hp
  have hfits : ∀ x ∈ hist, Fits x.1 x.2 := by
    intro x hx d hd
    exact of_decide_eq_true (List.all_eq_true.1 hall d (List.mem_flatMap.2 ⟨x, hx, hd⟩))
  refine ⟨hist, s, hrun, htimers, htold, ?_⟩
  exact (wakeup_not_lost hrun hclock hfits).resolve_right (by simp [htold])

end Linko.Timers

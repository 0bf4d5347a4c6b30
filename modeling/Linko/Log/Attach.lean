import Linko.Lib.Runs
import Linko.Log.Model
/-!
# Loggers and their appenders

Any number of loggers and appenders, the calls that attach an appender and set
formatters, and what `Logger::log` finds. A formatter never changes, so a
pointer to one is its value.
-/

namespace Linko.Log

open Runs

/-- The number of a level. -/
def Level.value : Level → Nat
  | .unknow => 0
  | .debug => 1
  | .info => 2
  | .warn => 3
  | .error => 4
  | .fatal => 5

/-- The first occurrence is erased. -/
def Logger.delAppender (l : Logger) (appender : Nat) : Logger :=
  { l with appenders := l.appenders.erase appender }

/-- A pointer to a logger is an index as well; `root` has the `m_root` of each. -/
structure System where
  loggers : List Logger
  objects : Objects
  root : Nat → Option Nat

inductive Op where
  | addAppender (l a : Nat)
  | delAppender (l a : Nat)
  | clearAppenders (l : Nat)
  /-- `Logger::setFormatter` -/
  | setFormatter (l : Nat) (val : LogFormatter)
  /-- `LogAppender::setFormatter` -/
  | setOwn (a : Nat) (val : Option LogFormatter)

namespace System

def appenders (s : System) (l : Nat) : List Nat := (s.loggers[l]?).elim [] Logger.appenders

/-- `m_formatter` of a logger -/
def formatter (s : System) (l : Nat) : Option LogFormatter := (s.loggers[l]?).bind Logger.formatter

/-- The state after a call on logger `l`. -/
def store (s : System) (l : Nat) (r : Logger × Objects) : System :=
  { s with loggers := s.loggers.set l r.1, objects := r.2 }

/-- One call. An appender that is attached to another logger is not added. -/
def step (s : System) : Op → Option System
  | .addAppender l a =>
    if a < s.objects.length ∧ ∀ l' < s.loggers.length, a ∈ s.appenders l' → l' = l then
      (s.loggers[l]?).map fun logger => s.store l (logger.addAppender a s.objects)
    else none
  | .delAppender l a => (s.loggers[l]?).map fun logger => s.store l (logger.delAppender a, s.objects)
  | .clearAppenders l => (s.loggers[l]?).map fun logger => s.store l (logger.clearAppenders, s.objects)
  | .setFormatter l val => (s.loggers[l]?).map fun logger => s.store l (logger.setFormatter (some val) s.objects)
  | .setOwn a val =>
    if a < s.objects.length then some { s with objects := s.objects.modify a fun ap => ap.setFormatter val }
    else none

end System

/-- A call of `iter->log(self, level, event)`, with the formatter it finds. -/
structure Dispatch where
  logger : Nat
  appender : Nat
  formatter : Option LogFormatter

/-- `Logger::log`, over at most `fuel` loggers on the way to the root. -/
def System.log (s : System) : Nat → Nat → Level → List Dispatch
  | 0, _, _ => []
  | fuel + 1, l, level =>
    match s.loggers[l]? with
    | none => []
    | some logger =>
      if logger.level.value ≤ level.value then
        if logger.appenders ≠ [] then
          logger.appenders.map fun a => ⟨l, a, (s.objects[a]?).bind LogAppender.formatter⟩
        else
          match s.root l with
          | some root => s.log fuel root level
          | none => []
      else []

/-! ## The formatters that appenders should have -/

/-- The value each appender was last given by its own `setFormatter`. -/
def Op.owns (own : Nat → Option LogFormatter) : Op → Nat → Option LogFormatter
  | .setOwn a val => Function.update own a val
  | _ => own

def owned (hist : List (System × Op)) : Nat → Option LogFormatter :=
  hist.foldl (fun own x => x.2.owns own) fun _ => none

/-- Each appender that is reached has a formatter: its own one or, if it has
none, the one of its logger. -/
def Right (own : Nat → Option LogFormatter) (s : System) : Prop :=
  ∀ fuel l level, ∀ d ∈ s.log fuel l level,
    d.formatter.isSome ∧ d.formatter = (own d.appender).or (s.formatter d.logger)

/-- Loggers and appenders as they are made. -/
structure Fresh (s : System) : Prop where
  loggers : ∀ logger ∈ s.loggers, logger.appenders = [] ∧ logger.formatter.isSome
  objects : ∀ a ∈ s.objects, a.hasFormatter = false ∧ a.formatter = none

/-- The calls that go well: the formatter of an attached appender is not taken
away, and an appender that comes with a formatter it has from a logger comes to
a logger with the same one. -/
def Keeps (s : System) : Op → Prop
  | .addAppender l a => ∀ ap, s.objects[a]? = some ap → ap.hasFormatter = false →
      ap.formatter = none ∨ ap.formatter = s.formatter l
  | .setOwn a none => ∀ l, a ∉ s.appenders l
  | _ => True

/-! ## What a call does -/

/-- What it makes of logger `l`. -/
def Op.onLogger (l : Nat) (logger : Logger) : Op → Logger
  | .addAppender l' a => if l' = l then { logger with appenders := logger.appenders ++ [a] } else logger
  | .delAppender l' a => if l' = l then { logger with appenders := logger.appenders.erase a } else logger
  | .clearAppenders l' => if l' = l then { logger with appenders := [] } else logger
  | .setFormatter l' val => if l' = l then { logger with formatter := some val } else logger
  | .setOwn _ _ => logger

/-- What it makes of appender `i`. -/
def System.onObject (s : System) (i : Nat) (ap : LogAppender) : Op → LogAppender
  | .addAppender l a => if a = i ∧ ap.formatter = none then { ap with formatter := s.formatter l } else ap
  | .setFormatter l val =>
    if i ∈ s.appenders l ∧ ap.hasFormatter = false then { ap with formatter := some val } else ap
  | .setOwn a val => if a = i then ap.setFormatter val else ap
  | _ => ap

/-- The appenders of a logger may stand in its list twice, which makes no
difference to a change that can be made twice. -/
theorem getElem?_foldl_modify {f : LogAppender → LogAppender} (hf : ∀ a, f (f a) = f a) (l : List Nat)
    (objects : Objects) (i : Nat) :
    (l.foldl (fun objects i => objects.modify i f) objects)[i]? =
      (objects[i]?).map fun a => if i ∈ l then f a else a := by
  induction l generalizing objects with
  | nil => simp
  | cons j l ih =>
    rw [List.foldl_cons, ih, List.getElem?_modify, Option.map_eq_map, Option.map_map]
    congr 1
    funext a
    by_cases hj : j = i
    · subst hj
      simp [hf]
    · simp [hj, Ne.symm hj]

variable {s s' : System} {op : Op} {own : Nat → Option LogFormatter}

theorem store_loggers {l : Nat} {logger : Logger} {r : Logger × Objects} (hl : s.loggers[l]? = some logger)
    (hself : op.onLogger l logger = r.1) (hother : ∀ k old, l ≠ k → op.onLogger k old = old) (k : Nat) :
    (s.store l r).loggers[k]? = (s.loggers[k]?).map fun old => op.onLogger k old := by
  rw [System.store, List.getElem?_set]
  by_cases hk : l = k
  · subst hk
    obtain ⟨hlt, -⟩ := List.getElem?_eq_some_iff.1 hl
    rw [if_pos rfl, if_pos hlt, hl, Option.map_some, hself]
  · rw [if_neg hk]
    cases hold : s.loggers[k]? with
    | none => rfl
    | some old => rw [Option.map_some, hother k old hk]

theorem step_effect (h : s.step op = some s') :
    (∀ l, s'.loggers[l]? = (s.loggers[l]?).map fun logger => op.onLogger l logger) ∧
      (∀ i, s'.objects[i]? = (s.objects[i]?).map fun ap => s.onObject i ap op) ∧
      ∀ l a, op = .addAppender l a → a < s.objects.length ∧ l < s.loggers.length ∧
        ∀ l', a ∈ s.appenders l' → l' = l := by
  have hstored : ∀ {l : Nat} {r : Logger → Logger × Objects},
      (s.loggers[l]?).map (fun logger => s.store l (r logger)) = some s' →
      ∃ logger, s.loggers[l]? = some logger ∧ s' = s.store l (r logger) ∧ s.appenders l = logger.appenders ∧
        s.formatter l = logger.formatter := by
    intro l r hmap
    obtain ⟨logger, hl, rfl⟩ := Option.map_eq_some_iff.1 hmap
    exact ⟨logger, hl, rfl, by rw [System.appenders, hl]; rfl, by rw [System.formatter, hl]; rfl⟩
  cases op with
  | addAppender l a =>
    rw [System.step] at h
    split at h
    · rename_i hguard
      obtain ⟨logger, hl, rfl, -, hf⟩ := hstored h
      refine ⟨store_loggers hl (if_pos rfl) fun k old hk => if_neg hk, ?_, ?_⟩
      · intro i
        simp only [System.store, Logger.addAppender, List.getElem?_modify, System.onObject, hf]
        rw [Option.map_eq_map]
        congr 1
        funext ap
        by_cases hi : a = i <;> simp [hi, Option.isNone_iff_eq_none]
      · rintro _ _ ⟨⟩
        refine ⟨hguard.1, (List.getElem?_eq_some_iff.1 hl).1, fun l' ha => hguard.2 l' ?_ ha⟩
        by_contra hlt
        rw [System.appenders, List.getElem?_eq_none (Nat.le_of_not_lt hlt)] at ha
        cases ha
    · cases h
  | delAppender l a =>
    obtain ⟨logger, hl, rfl, -⟩ := hstored h
    refine ⟨store_loggers hl (if_pos rfl) fun k old hk => if_neg hk, fun i => ?_, nofun⟩
    simp [System.store, System.onObject]
  | clearAppenders l =>
    obtain ⟨logger, hl, rfl, -⟩ := hstored h
    refine ⟨store_loggers hl (if_pos rfl) fun k old hk => if_neg hk, fun i => ?_, nofun⟩
    simp [System.store, System.onObject]
  | setFormatter l val =>
    obtain ⟨logger, hl, rfl, hin, -⟩ := hstored h
    refine ⟨store_loggers hl (if_pos rfl) fun k old hk => if_neg hk, fun i => ?_, nofun⟩
    rw [System.store, Logger.setFormatter]
    dsimp only
    rw [getElem?_foldl_modify]
    · congr 1
      funext ap
      by_cases hap : ap.hasFormatter = true <;> simp [System.onObject, hin, hap]
    · intro ap
      by_cases hap : ap.hasFormatter = true <;> simp [hap]
  | setOwn a val =>
    rw [System.step] at h
    split at h
    · cases h
      refine ⟨fun k => ?_, fun i => ?_, nofun⟩
      · simp [Op.onLogger]
      · rw [List.getElem?_modify, Option.map_eq_map]
        rfl
    · cases h

/-! ## Invariants -/

/-- What holds after every call: an appender is attached to one logger at most,
and it knows whether it has a formatter of its own. -/
structure Sound (own : Nat → Option LogFormatter) (s : System) : Prop where
  formatter : ∀ l < s.loggers.length, (s.formatter l).isSome
  alone : ∀ l l' a, a ∈ s.appenders l → a ∈ s.appenders l' → l = l'
  alive : ∀ l, ∀ a ∈ s.appenders l, a < s.objects.length
  own : ∀ a ap, s.objects[a]? = some ap →
    ap.hasFormatter = (own a).isSome ∧ ∀ f, own a = some f → ap.formatter = some f

/-- The formatter that an attached appender has from its logger is the current
one. -/
def Inherits (own : Nat → Option LogFormatter) (s : System) : Prop :=
  ∀ l, ∀ a ∈ s.appenders l, ∀ ap, s.objects[a]? = some ap → own a = none → ap.formatter = s.formatter l

theorem lt_of_attached {l a : Nat} (h : a ∈ s.appenders l) : l < s.loggers.length := by
  by_contra hlt
  rw [System.appenders, List.getElem?_eq_none (Nat.le_of_not_lt hlt)] at h
  cases h

theorem mem_log {fuel l : Nat} {level : Level} {d : Dispatch} (hd : d ∈ s.log fuel l level) :
    d.appender ∈ s.appenders d.logger ∧ d.formatter = (s.objects[d.appender]?).bind LogAppender.formatter := by
  induction fuel generalizing l with
  | zero => cases hd
  | succ fuel ih =>
    rw [System.log] at hd
    split at hd
    · cases hd
    · rename_i logger hl
      split at hd
      · split at hd
        · obtain ⟨a, ha, rfl⟩ := List.mem_map.1 hd
          exact ⟨by rw [System.appenders, hl]; exact ha, rfl⟩
        · split at hd
          · exact ih hd
          · cases hd
      · cases hd

/-- An event of the highest level reaches every attached appender. -/
theorem log_attached {l a : Nat} (ha : a ∈ s.appenders l) :
    ⟨l, a, (s.objects[a]?).bind LogAppender.formatter⟩ ∈ s.log 1 l .fatal := by
  obtain ⟨logger, hl⟩ : ∃ logger, s.loggers[l]? = some logger := ⟨_, List.getElem?_eq_getElem (lt_of_attached ha)⟩
  rw [System.appenders, hl] at ha
  have hlevel : logger.level.value ≤ Level.fatal.value := by cases logger.level <;> decide
  have hne : logger.appenders ≠ [] := List.ne_nil_of_mem ha
  simp only [System.log, hl, if_pos hlevel, if_pos hne]
  exact List.mem_map_of_mem ha

theorem right_iff (h : Sound own s) : Right own s ↔ Inherits own s := by
  constructor
  · intro hr l a ha ap hap hown
    have := (hr 1 l .fatal _ (log_attached ha)).2
    simpa [hap, hown] using this
  · intro hi fuel l level d hd
    obtain ⟨hin, hf⟩ := mem_log hd
    obtain ⟨ap, hap⟩ : ∃ ap, s.objects[d.appender]? = some ap := ⟨_, List.getElem?_eq_getElem (h.alive _ _ hin)⟩
    rw [hf, hap, Option.bind_some]
    cases hown : own d.appender with
    | none =>
      have heq := hi _ _ hin ap hap hown
      rw [heq, Option.none_or]
      exact ⟨h.formatter _ (lt_of_attached hin), rfl⟩
    | some f =>
      rw [(h.own _ _ hap).2 f hown]
      exact ⟨rfl, rfl⟩

theorem Fresh.appenders_eq (h : Fresh s) (l : Nat) : s.appenders l = [] := by
  rw [System.appenders]
  cases hl : s.loggers[l]? with
  | none => rfl
  | some logger => exact (h.loggers logger (List.mem_of_getElem? hl)).1

theorem Fresh.sound (h : Fresh s) : Sound (fun _ => none) s := by
  refine ⟨?_, ?_, ?_, ?_⟩
  · intro l hl
    rw [System.formatter, List.getElem?_eq_getElem hl]
    exact (h.loggers _ (List.getElem_mem hl)).2
  · intro l l' a ha
    rw [h.appenders_eq] at ha
    cases ha
  · intro l a ha
    rw [h.appenders_eq] at ha
    cases ha
  · intro a ap hap
    exact ⟨(h.objects ap (List.mem_of_getElem? hap)).1, nofun⟩

/-- Only `addAppender` attaches an appender. -/
theorem attached_before (h : s.step op = some s') {l a : Nat} (ha : a ∈ s'.appenders l) :
    a ∈ s.appenders l ∨ op = .addAppender l a := by
  rw [System.appenders, (step_effect h).1] at ha
  rw [System.appenders]
  cases hl : s.loggers[l]? with
  | none =>
    rw [hl] at ha
    cases ha
  | some logger =>
    rw [hl] at ha
    simp only [Option.map_some, Option.elim_some] at ha ⊢
    cases op with
    | addAppender l' b =>
      by_cases hl' : l' = l
      · subst hl'
        simp only [Op.onLogger, if_true, List.mem_append, List.mem_singleton] at ha
        rcases ha with ha | rfl
        · exact .inl ha
        · exact .inr rfl
      · rw [Op.onLogger, if_neg hl'] at ha
        exact .inl ha
    | delAppender l' b =>
      rw [Op.onLogger] at ha
      split at ha
      · exact .inl (List.mem_of_mem_erase ha)
      · exact .inl ha
    | clearAppenders l' =>
      rw [Op.onLogger] at ha
      split at ha
      · cases ha
      · exact .inl ha
    | setFormatter l' val =>
      rw [Op.onLogger] at ha
      split at ha
      · exact .inl ha
      · exact .inl ha
    | setOwn b val => exact .inl ha

/-- Only `setFormatter` changes the formatter of a logger. -/
theorem formatter_step (h : s.step op = some s') {l : Nat} (hl : l < s.loggers.length) :
    s'.formatter l = match op with
      | .setFormatter l' val => if l' = l then some val else s.formatter l
      | _ => s.formatter l := by
  rw [System.formatter, (step_effect h).1, System.formatter, List.getElem?_eq_getElem hl]
  cases op <;> simp only [Op.onLogger, Option.map_some, Option.bind_some] <;> split <;> rfl

theorem length_eq_of_getElem? {α : Type} {l l' : List α} {f : Nat → α → α}
    (h : ∀ i, l'[i]? = (l[i]?).map (f i)) : l'.length = l.length := by
  apply Nat.le_antisymm
  · rw [← List.getElem?_eq_none_iff, h, List.getElem?_eq_none le_rfl, Option.map_none]
  · rw [← List.getElem?_eq_none_iff, ← Option.map_eq_none_iff (f := f l'.length), ← h, List.getElem?_eq_none le_rfl]

/-- A call that changes an appender that has a formatter of its own is its own
`setFormatter`. -/
theorem own_step (hs : Sound own s) (h : s.step op = some s') {i : Nat} {ap' : LogAppender}
    (hap : s'.objects[i]? = some ap') :
    ap'.hasFormatter = (op.owns own i).isSome ∧ ∀ f, op.owns own i = some f → ap'.formatter = some f := by
  rw [(step_effect h).2.1] at hap
  obtain ⟨ap, hi, rfl⟩ := Option.map_eq_some_iff.1 hap
  obtain ⟨hhas, hown⟩ := hs.own i ap hi
  cases op with
  | addAppender l a =>
    simp only [System.onObject, Op.owns]
    split
    · rename_i hnone
      refine ⟨hhas, fun f hf => ?_⟩
      rw [hown f hf] at hnone
      cases hnone.2
    · exact ⟨hhas, hown⟩
  | delAppender l a => exact ⟨hhas, hown⟩
  | clearAppenders l => exact ⟨hhas, hown⟩
  | setFormatter l val =>
    simp only [System.onObject, Op.owns]
    split
    · rename_i hset
      refine ⟨hhas, fun f hf => ?_⟩
      rw [hset.2, hf] at hhas
      cases hhas
    · exact ⟨hhas, hown⟩
  | setOwn a val =>
    simp only [System.onObject, Op.owns]
    by_cases ha : a = i
    · subst ha
      simp [LogAppender.setFormatter]
    · rw [if_neg ha, Function.update_of_ne (Ne.symm ha)]
      exact ⟨hhas, hown⟩

theorem sound_step (hs : Sound own s) (h : s.step op = some s') : Sound (op.owns own) s' := by
  obtain ⟨hloggers, hobjects, hadd⟩ := step_effect h
  refine ⟨?_, ?_, ?_, fun i ap' hap => own_step hs h hap⟩
  · intro l hl
    rw [length_eq_of_getElem? hloggers] at hl
    have hbefore := hs.formatter l hl
    rw [formatter_step h hl]
    split
    · split
      · rfl
      · exact hbefore
    · exact hbefore
  · intro l l' a ha ha'
    rcases attached_before h ha with hin | rfl
    · rcases attached_before h ha' with hin' | rfl
      · exact hs.alone l l' a hin hin'
      · exact (hadd l' a rfl).2.2 l hin
    · rcases attached_before h ha' with hin' | heq
      · exact ((hadd l a rfl).2.2 l' hin').symm
      · cases heq
        rfl
  · intro l a ha
    rw [length_eq_of_getElem? hobjects]
    rcases attached_before h ha with hin | rfl
    · exact hs.alive l a hin
    · exact (hadd l a rfl).1

theorem attached_after {l a : Nat} (h : s.step (.addAppender l a) = some s') : a ∈ s'.appenders l := by
  obtain ⟨hloggers, -, hadd⟩ := step_effect h
  rw [System.appenders, hloggers, List.getElem?_eq_getElem (hadd l a rfl).2.1]
  simp [Op.onLogger]

theorem no_own (hs : Sound own s) {a : Nat} {ap : LogAppender} (hap : s.objects[a]? = some ap) :
    own a = none ↔ ap.hasFormatter = false := by
  rw [(hs.own a ap hap).1, Option.isSome_eq_false_iff, Option.isNone_iff_eq_none]

/-- An attached appender that does not come by this call was there before it. -/
theorem object_before (h : s.step op = some s') {l a : Nat} {ap' : LogAppender} (ha : a ∈ s'.appenders l)
    (hne : op ≠ .addAppender l a) (hap : s'.objects[a]? = some ap') :
    ∃ ap, s.objects[a]? = some ap ∧ ap' = s.onObject a ap op ∧ a ∈ s.appenders l ∧ l < s.loggers.length := by
  rw [(step_effect h).2.1] at hap
  obtain ⟨ap, hin, rfl⟩ := Option.map_eq_some_iff.1 hap
  have hatt := (attached_before h ha).resolve_right hne
  exact ⟨ap, hin, rfl, hatt, lt_of_attached hatt⟩

theorem inherits_addAppender {l a : Nat} (hs : Sound own s) (hi : Inherits own s)
    (h : s.step (.addAppender l a) = some s') : Inherits own s' ↔ Keeps s (.addAppender l a) := by
  obtain ⟨-, hobjects, hadd⟩ := step_effect h
  obtain ⟨-, hlt, halone⟩ := hadd l a rfl
  constructor
  · intro hin ap hap hhas
    by_cases hnone : ap.formatter = none
    · exact .inl hnone
    · have hap' : s'.objects[a]? = some ap := by simp [hobjects, hap, System.onObject, hnone]
      have heq := hin l a (attached_after h) ap hap' ((no_own hs hap).2 hhas)
      rw [formatter_step h hlt] at heq
      exact .inr heq
  · intro hk k b hb ap' hap' hown
    by_cases hba : b = a
    · subst hba
      have hkl : k = l := by
        rcases attached_before h hb with hin | heq
        · exact halone k hin
        · cases heq
          rfl
      subst hkl
      rw [hobjects] at hap'
      obtain ⟨ap, hap, rfl⟩ := Option.map_eq_some_iff.1 hap'
      rw [formatter_step h hlt, System.onObject]
      dsimp only
      split
      · rfl
      · rename_i hsome
        exact (hk ap hap ((no_own hs hap).1 hown)).resolve_left fun hnone => hsome ⟨rfl, hnone⟩
    · have hne : Op.addAppender l a ≠ .addAppender k b := by
        rintro ⟨⟩
        exact hba rfl
      obtain ⟨ap, hap, rfl, hin, hlt'⟩ := object_before h hb hne hap'
      rw [formatter_step h hlt', System.onObject, if_neg fun hab => hba hab.1.symm]
      exact hi k b hin ap hap hown

theorem inherits_setFormatter {l : Nat} {val : LogFormatter} (hs : Sound own s) (hi : Inherits own s)
    (h : s.step (.setFormatter l val) = some s') : Inherits own s' := by
  intro k b hb ap' hap' hown
  obtain ⟨ap, hap, rfl, hin, hlt⟩ := object_before h hb nofun hap'
  rw [formatter_step h hlt, System.onObject]
  dsimp only
  by_cases hk : l = k
  · subst hk
    rw [if_pos ⟨hin, (no_own hs hap).1 hown⟩, if_pos rfl]
  · rw [if_neg fun hin' => hk (hs.alone l k b hin'.1 hin), if_neg hk]
    exact hi k b hin ap hap hown

/-- The appender itself is the only one that has to be looked at. -/
theorem inherits_setOwn {a : Nat} {val : Option LogFormatter} (hs : Sound own s) (hi : Inherits own s)
    (h : s.step (.setOwn a val) = some s') :
    Inherits ((Op.setOwn a val).owns own) s' ↔ Keeps s (.setOwn a val) := by
  have hother : ∀ k, ∀ b ∈ s'.appenders k, b ≠ a → ∀ ap', s'.objects[b]? = some ap' →
      (Op.setOwn a val).owns own b = none → ap'.formatter = s'.formatter k := by
    intro k b hb hba ap' hap' hown
    obtain ⟨ap, hap, rfl, hin, hlt⟩ := object_before h hb nofun hap'
    rw [Op.owns, Function.update_of_ne hba] at hown
    rw [formatter_step h hlt, System.onObject, if_neg (Ne.symm hba)]
    exact hi k b hin ap hap hown
  have hattached : ∀ k, s'.appenders k = s.appenders k := by
    intro k
    rw [System.appenders, (step_effect h).1, System.appenders]
    simp [Op.onLogger]
  cases val with
  | some f =>
    refine ⟨fun _ => trivial, fun _ k b hb ap' hap' hown => hother k b hb ?_ ap' hap' hown⟩
    rintro rfl
    simp [Op.owns] at hown
  | none =>
    constructor
    · intro hin l ha
      obtain ⟨ap, hap⟩ : ∃ ap, s.objects[a]? = some ap := ⟨_, List.getElem?_eq_getElem (hs.alive l a ha)⟩
      have hap' : s'.objects[a]? = some (ap.setFormatter none) := by
        simp [(step_effect h).2.1, hap, System.onObject]
      have hnone := hin l a (by rwa [hattached]) _ hap' (by simp [Op.owns])
      rw [formatter_step h (lt_of_attached ha)] at hnone
      have hsome := hs.formatter l (lt_of_attached ha)
      rw [← show none = s.formatter l from hnone] at hsome
      cases hsome
    · intro hk k b hb ap' hap' hown
      refine hother k b hb ?_ ap' hap' hown
      rintro rfl
      rw [hattached] at hb
      exact hk k hb

/-- A call keeps the inherited formatters right exactly when it is one of those
that go well. -/
theorem inherits_step (hs : Sound own s) (hi : Inherits own s) (h : s.step op = some s') :
    Inherits (op.owns own) s' ↔ Keeps s op := by
  cases op with
  | addAppender l a => exact inherits_addAppender hs hi h
  | delAppender | clearAppenders =>
    refine ⟨fun _ => trivial, fun _ k b hb ap' hap' hown => ?_⟩
    obtain ⟨_, hap, rfl, hin, hlt⟩ := object_before h hb nofun hap'
    rw [formatter_step h hlt]
    exact hi k b hin _ hap hown
  | setFormatter l val => exact ⟨fun _ => trivial, fun _ => inherits_setFormatter hs hi h⟩
  | setOwn a val => exact inherits_setOwn hs hi h

/-! ## Runs -/

variable {init : System} {hist : List (System × Op)}

theorem owned_concat (hist : List (System × Op)) (x : System × Op) : owned (hist ++ [x]) = x.2.owns (owned hist) := by
  simp [owned]

theorem sound_run (hf : Fresh init) (h : Run System.step init hist s) : Sound (owned hist) s := by
  induction h with
  | start => exact hf.sound
  | next _ ha ih =>
    rw [owned_concat]
    exact sound_step ih ha

/-- In a run from fresh loggers and appenders every event finds the right
formatters, after every call, exactly when every call goes well. -/
theorem right_run_iff (hf : Fresh init) (h : Run System.step init hist s) :
    ((∀ pre x post, hist = pre ++ x :: post → Right (owned pre) x.1) ∧ Right (owned hist) s) ↔
      ∀ x ∈ hist, Keeps x.1 x.2 := by
  induction h with
  | start =>
    refine ⟨fun _ x hx => (List.not_mem_nil hx).elim, fun _ => ⟨fun pre x post heq => ?_, ?_⟩⟩
    · simp at heq
    · refine (right_iff hf.sound).2 fun l a ha => ?_
      rw [hf.appenders_eq] at ha
      cases ha
  | @next hist s s' op hr ha ih =>
    have hs := sound_run hf hr
    have hlast : Right (owned hist) s → (Right (owned (hist ++ [(s, op)])) s' ↔ Keeps s op) := by
      intro hright
      rw [right_iff (sound_run hf (hr.next ha)), owned_concat]
      exact inherits_step hs ((right_iff hs).1 hright) ha
    constructor
    · rintro ⟨hall, hend⟩
      have hright : Right (owned hist) s := hall hist (s, op) [] rfl
      have hbefore := ih.1 ⟨fun pre x post heq => hall pre x (post ++ [(s, op)]) (by simp [heq]), hright⟩
      intro x hx
      rcases List.mem_append.1 hx with hx | hx
      · exact hbefore x hx
      · obtain rfl := List.mem_singleton.1 hx
        exact (hlast hright).1 hend
    · intro hall
      obtain ⟨hbefore, hright⟩ := ih.2 fun x hx => hall x (List.mem_append_left _ hx)
      refine ⟨fun pre x post heq => ?_, (hlast hright).2 (hall (s, op) (by simp))⟩
      rcases split_concat heq with ⟨rfl, rfl, -⟩ | ⟨post', -, heq'⟩
      · exact hright
      · exact hbefore pre x post' heq'

/-- Two loggers and an appender. -/
def twoLoggers : System :=
  ⟨[Logger.new (CString.ascii "a"), Logger.new (CString.ascii "b")], [LogAppender.newStdout], fun _ => none⟩

theorem fresh_twoLoggers : Fresh twoLoggers := by
  constructor
  · simp [twoLoggers, Logger.new]
  · simp [twoLoggers, LogAppender.newStdout]

/-- The appender moves from one logger to the other and drops the formatter it
had from the first one on the way. -/
theorem right_run_moved :
    ∃ hist s, Run System.step twoLoggers hist s ∧ hist.length = 5 ∧ Right (owned hist) s ∧
      s.appenders 1 = [0] ∧ s.objects.map LogAppender.formatter = [s.formatter 1] := by
  obtain ⟨hist, s, hgo⟩ : ∃ hist s,
      go System.step [] twoLoggers [.addAppender 0 0, .setFormatter 0 (LogFormatter.new (CString.ascii "%m")),
        .delAppender 0 0, .setOwn 0 none, .addAppender 1 0] = some (hist, s) := ⟨_, _, rfl⟩
  have hrun := run_of_go .start hgo
  cases hgo
  have hright := (right_run_iff fresh_twoLoggers hrun).2 (by
    intro x hx
    simp only [List.nil_append, List.cons_append, List.mem_cons, List.not_mem_nil, or_false] at hx
    rcases hx with rfl | rfl | rfl | rfl | rfl
    · intro ap hap _
      exact .inl (by rw [← Option.some.inj hap]; rfl)
    · trivial
    · trivial
    · intro l
      match l with
      | 0 => exact List.not_mem_nil
      | 1 => exact List.not_mem_nil
      | l + 2 => exact List.not_mem_nil
    · intro ap hap _
      exact .inl (by rw [← Option.some.inj hap]; rfl))
  exact ⟨_, _, hrun, rfl, hright.2, rfl, rfl⟩

/-- The formatter of an attached appender is set to null. -/
theorem not_right_run :
    ¬ ∀ init hist s, Fresh init → Run System.step init hist s → Right (owned hist) s := by
  intro h
  obtain ⟨hist, s, hgo⟩ : ∃ hist s,
      go System.step [] twoLoggers [.addAppender 0 0, .setOwn 0 none] = some (hist, s) := ⟨_, _, rfl⟩
  have hright := h twoLoggers hist s fresh_twoLoggers (run_of_go .start hgo)
  cases hgo
  have hnull := (hright 1 0 .fatal ⟨0, 0, none⟩ List.mem_cons_self).1
  cases hnull

end Linko.Log

import Linko.Log.Model
import Linko.Lib.OrderedSet
/-!
# The configuration of the loggers

The listener that `LogIniter` adds to the variable `logs`. It is told the old
and the new set of definitions and brings the loggers from the one to the other.
-/

namespace Linko.Log

open CString

structure LogAppnderDefine where
  type : AppenderType
  level : Level
  formatter : Bytes
  file : Bytes
  deriving DecidableEq, Repr

structure LogDefine where
  name : Bytes
  level : Level
  formatter : Bytes
  appenderDefines : List LogAppnderDefine
  deriving DecidableEq, Repr

/-- `operator<` -/
def LogDefine.lt (a b : LogDefine) : Bool := decide (a.name < b.name)

/-- `std::set<LogDefine>` -/
structure LogDefines where
  defs : List LogDefine
  sorted : OrderedSet.Sorted LogDefine.lt defs

namespace LogDefines

def empty : LogDefines := ⟨[], List.Pairwise.nil⟩

def find (s : LogDefines) (i : LogDefine) : Option LogDefine := OrderedSet.find LogDefine.lt i s.defs

/-- A definition is found by its name. -/
theorem find_of_mem {s : LogDefines} {i j : LogDefine} (hj : j ∈ s.defs) (hname : j.name = i.name) :
    s.find i = some j := by
  have hself : OrderedSet.find LogDefine.lt j s.defs = some j :=
    OrderedSet.find_of_mem (fun a => decide_eq_false (List.lt_irrefl a.name)) s.sorted hj
  rw [← hself]
  apply OrderedSet.find_congr
  · intro a
    rw [LogDefine.lt, LogDefine.lt, hname]
  · intro a
    rw [LogDefine.lt, LogDefine.lt, hname]

theorem mem_of_find {s : LogDefines} {i j : LogDefine} (h : s.find i = some j) :
    j ∈ s.defs ∧ j.name = i.name := by
  obtain ⟨hj, hji, hij⟩ := OrderedSet.find_some h
  exact ⟨hj, List.le_antisymm (of_decide_eq_false hij) (of_decide_eq_false hji)⟩

end LogDefines

/-- The loop over the appenders of a definition: one is made, set up and added. -/
def Logger.addDefine (r : Logger × Objects) (a : LogAppnderDefine) : Logger × Objects :=
  let ap := match a.type with
    | .file => LogAppender.newFile a.file
    | .stdout => LogAppender.newStdout
  let ap := ap.setLevel a.level
  let ap :=
    if a.formatter ≠ [] then
      let fmt := LogFormatter.new a.formatter
      if fmt.isError = false then ap.setFormatter (some fmt) else ap
    else ap
  r.1.addAppender r.2.length (r.2 ++ [ap])

/-- What happens to the logger of a new or changed definition. -/
def Logger.configure (i : LogDefine) (logger : Logger) (objects : Objects) : Logger × Objects :=
  let logger := logger.setLevel i.level
  let r := if i.formatter ≠ [] then logger.setPattern i.formatter objects else (logger, objects)
  i.appenderDefines.foldl Logger.addDefine (r.1.clearAppenders, r.2)

/-- A formatter is set when there is a pattern and it is valid. -/
def usable (formatter : Bytes) : Prop := formatter ≠ [] ∧ (LogFormatter.new formatter).isError = false

instance (formatter : Bytes) : Decidable (usable formatter) := inferInstanceAs (Decidable (_ ∧ _))

/-- The formatter behind an optional pattern, where `f` was before. -/
def formatterOr (formatter : Bytes) (f : Option LogFormatter) : Option LogFormatter :=
  if usable formatter then some (LogFormatter.new formatter) else f

/-- The appender a definition asks for, in a logger with formatter `f`. -/
def LogAppnderDefine.appender (f : Option LogFormatter) (a : LogAppnderDefine) : LogAppender where
  type := a.type
  filename := match a.type with
    | .file => a.file
    | .stdout => []
  level := a.level
  hasFormatter := decide (usable a.formatter)
  formatter := formatterOr a.formatter f

theorem addDefine_eq (r : Logger × Objects) (a : LogAppnderDefine) :
    Logger.addDefine r a =
      ({ r.1 with appenders := r.1.appenders ++ [r.2.length] }, r.2 ++ [a.appender r.1.formatter]) := by
  obtain ⟨l, objects⟩ := r
  obtain ⟨type, level, formatter, file⟩ := a
  simp only [Logger.addDefine, Logger.addAppender, Prod.mk.injEq, true_and]
  refine (List.modifyTailIdx_add _ 0 objects _).trans ?_
  by_cases hne : formatter = []
  · subst hne
    cases type <;> rfl
  · by_cases herr : (LogFormatter.new formatter).isError = false
    · have hu : usable formatter := ⟨hne, herr⟩
      cases type <;>
        simp [hne, herr, hu, LogAppnderDefine.appender, formatterOr, LogAppender.setFormatter,
          LogAppender.setLevel, LogAppender.newFile, LogAppender.newStdout]
    · have hu : ¬ usable formatter := fun h => herr h.2
      cases type <;>
        simp [hne, herr, hu, LogAppnderDefine.appender, formatterOr, LogAppender.setLevel, LogAppender.newFile,
          LogAppender.newStdout]

theorem addDefines_eq (r : Logger × Objects) (as : List LogAppnderDefine) :
    as.foldl Logger.addDefine r =
      ({ r.1 with appenders := r.1.appenders ++ List.range' r.2.length as.length },
        r.2 ++ as.map (LogAppnderDefine.appender r.1.formatter)) := by
  induction as generalizing r with
  | nil => simp
  | cons a as ih =>
    rw [List.foldl_cons, addDefine_eq, ih]
    simp [List.range'_succ]

theorem setPattern_logger (l : Logger) {val : Bytes} (objects : Objects) (hne : val ≠ []) :
    (l.setPattern val objects).1 = { l with formatter := formatterOr val l.formatter } := by
  unfold Logger.setPattern formatterOr
  dsimp only
  by_cases herr : (LogFormatter.new val).isError = false
  · have hu : usable val := ⟨hne, herr⟩
    rw [if_pos hu, herr]
    rfl
  · have hu : ¬ usable val := fun h => herr h.2
    rw [if_neg hu, if_pos ((Bool.not_eq_false _).mp herr)]

/-- What a definition makes of its logger: only the formatter may be what it
was before. The appenders are new, and of the others only those that the logger
had are changed. -/
theorem configure_eq (i : LogDefine) (logger : Logger) (objects : Objects) :
    ∃ objects' : Objects, objects'.length = objects.length ∧
      (∀ j, j ∉ logger.appenders → objects'[j]? = objects[j]?) ∧
      Logger.configure i logger objects =
        (⟨logger.name, i.level, List.range' objects.length i.appenderDefines.length,
            formatterOr i.formatter logger.formatter⟩,
          objects' ++ i.appenderDefines.map
            (LogAppnderDefine.appender (formatterOr i.formatter logger.formatter))) := by
  by_cases hne : i.formatter = []
  · have hu : ¬ usable i.formatter := fun h => h.1 hne
    refine ⟨objects, rfl, fun _ _ => rfl, ?_⟩
    simp only [Logger.configure, hne, ne_eq, not_true_eq_false, if_false, addDefines_eq, Logger.clearAppenders,
      Logger.setLevel, List.nil_append, formatterOr]
    rw [if_neg (hne ▸ hu)]
  · obtain ⟨hlen, hget⟩ := Logger.setPattern_objects (logger.setLevel i.level) i.formatter objects
    refine ⟨_, hlen, hget, ?_⟩
    simp only [Logger.configure, hne, ne_eq, not_false_eq_true, if_true, addDefines_eq, Logger.clearAppenders,
      setPattern_logger _ _ hne, hlen, List.nil_append]
    rfl

namespace LoggerManager

def configure (i : LogDefine) (m : LoggerManager) : LoggerManager :=
  m.store i.name (Logger.configure i (m.getLogger i.name) m.objects)
    (by
      obtain ⟨objects', hlen, -, heq⟩ := configure_eq i (m.getLogger i.name) m.objects
      rw [heq, List.length_append, hlen]
      exact Nat.le_add_right _ _)
    (by
      obtain ⟨objects', hlen, -, heq⟩ := configure_eq i (m.getLogger i.name) m.objects
      rw [heq]
      intro j hj
      have := (List.mem_range'_1.1 hj).2
      rw [List.length_append, List.length_map, hlen]
      exact this)

/-- What happens to the logger of a definition that is gone. -/
def remove (i : LogDefine) (m : LoggerManager) : LoggerManager :=
  m.store i.name (((m.getLogger i.name).setLevel .unknow).clearAppenders, m.objects) (Nat.le_refl _)
    fun _ h => absurd h List.not_mem_nil

/-- The first loop of the listener, for one definition. -/
def applyNew (old : LogDefines) (m : LoggerManager) (i : LogDefine) : LoggerManager :=
  match old.find i with
  | none => m.configure i
  | some it => if i = it then m else m.configure i

/-- The second loop of the listener, for one definition. -/
def applyOld (new : LogDefines) (m : LoggerManager) (i : LogDefine) : LoggerManager :=
  match new.find i with
  | none => m.remove i
  | some _ => m

/-- The listener. -/
def onChange (old new : LogDefines) (m : LoggerManager) : LoggerManager :=
  old.defs.foldl (applyOld new) (new.defs.foldl (applyNew old) m)

/-- `setValue`, which tells the listener of a change only. -/
def change (old new : LogDefines) (m : LoggerManager) : LoggerManager :=
  if new.defs = old.defs then m else m.onChange old new

/-! ## What is left of the history -/

/-- The level, the formatter and the appenders of a logger, each with its type,
file, level and formatter. -/
def effect (m : LoggerManager) (name : Bytes) :
    Option (Level × Option LogFormatter × List (Option (AppenderType × Bytes × Level × Option LogFormatter))) :=
  (m.loggers name).map fun l => (l.level, l.formatter,
    l.appenders.map fun i => m.objects[i]?.map fun a => (a.type, a.filename, a.level, a.formatter))

/-- What a definition asks for, where the logger had formatter `f`. -/
def asked (i : LogDefine) (f : Option LogFormatter) :
    Option (Level × Option LogFormatter × List (Option (AppenderType × Bytes × Level × Option LogFormatter))) :=
  let f := formatterOr i.formatter f
  some (i.level, f, i.appenderDefines.map fun a =>
    some (a.type, (a.appender f).filename, a.level, formatterOr a.formatter f))

/-- The appenders of a logger are not those of another one. -/
def Own (m : LoggerManager) (name : Bytes) : Prop :=
  ∀ l, m.loggers name = some l → ∀ other l', other ≠ name → m.loggers other = some l' →
    ∀ i ∈ l.appenders, i ∉ l'.appenders

theorem configure_effect (m : LoggerManager) (i : LogDefine) :
    (m.configure i).effect i.name = asked i (m.getLogger i.name).formatter ∧ (m.configure i).Own i.name := by
  obtain ⟨objects', hlen, -, heq⟩ := configure_eq i (m.getLogger i.name) m.objects
  constructor
  · simp only [effect, configure, store, Function.update_self, Option.map_some, heq, asked, Option.some.injEq,
      Prod.mk.injEq, true_and]
    rw [← hlen, List.range'_eq_map_range, List.map_map]
    refine List.ext_getElem (by simp) fun k hk _ => ?_
    have hk : k < i.appenderDefines.length := by simpa using hk
    simp [hk, LogAppnderDefine.appender]
  · intro l hl other l' hne hl' j hj hj'
    simp only [configure, store, Function.update_self, heq, Option.some.injEq] at hl
    simp only [configure, store, Function.update_of_ne hne] at hl'
    subst hl
    have hold := m.valid other l' hl' j hj'
    have hnew := (List.mem_range'_1.1 hj).1
    omega

/-- A logger with appenders of its own is not touched by the others. -/
theorem configure_frame {m : LoggerManager} {i : LogDefine} {name : Bytes} (hne : name ≠ i.name)
    (hown : m.Own name) : (m.configure i).effect name = m.effect name ∧ (m.configure i).Own name := by
  obtain ⟨objects', hlen, hget, heq⟩ := configure_eq i (m.getLogger i.name) m.objects
  have hstay : (m.configure i).loggers name = m.loggers name := Function.update_of_ne hne _ _
  constructor
  · simp only [effect, hstay]
    rcases hl : m.loggers name with _ | l
    · rfl
    · simp only [Option.map_some, Option.some.injEq, Prod.mk.injEq, true_and]
      refine List.map_congr_left fun j hj => ?_
      have hj_lt := m.valid name l hl j hj
      have hfree : j ∉ (m.getLogger i.name).appenders := by
        unfold getLogger
        rcases ho : m.loggers i.name with _ | l'
        · exact List.not_mem_nil
        · exact hown l hl i.name l' (Ne.symm hne) ho j hj
      simp only [configure, store, heq]
      rw [List.getElem?_append_left (hlen ▸ hj_lt), hget j hfree]
  · intro l hl other l' hother hl' j hj
    rw [hstay] at hl
    rcases eq_or_ne other i.name with rfl | ho
    · simp only [configure, store, Function.update_self, heq, Option.some.injEq] at hl'
      subst hl'
      intro hj'
      have hold := m.valid name l hl j hj
      have hnew := (List.mem_range'_1.1 hj').1
      omega
    · simp only [configure, store, Function.update_of_ne ho] at hl'
      exact hown l hl other l' hother hl' j hj

theorem remove_frame {m : LoggerManager} {i : LogDefine} {name : Bytes} (hne : name ≠ i.name)
    (hown : m.Own name) : (m.remove i).effect name = m.effect name ∧ (m.remove i).Own name := by
  have hstay : (m.remove i).loggers name = m.loggers name := Function.update_of_ne hne _ _
  constructor
  · simp only [effect, hstay]
    rfl
  · intro l hl other l' hother hl' j hj
    rw [hstay] at hl
    rcases eq_or_ne other i.name with rfl | ho
    · simp only [remove, store, Function.update_self, Option.some.injEq] at hl'
      subst hl'
      exact List.not_mem_nil
    · simp only [remove, store, Function.update_of_ne ho] at hl'
      exact hown l hl other l' hother hl' j hj

/-! ## One change -/

section

variable {old new : LogDefines} {m : LoggerManager} {name : Bytes}

theorem applyNew_cases (old : LogDefines) (m : LoggerManager) (i : LogDefine) :
    applyNew old m i = if old.find i = some i then m else m.configure i := by
  unfold applyNew
  rcases old.find i with _ | it
  · rfl
  · simp only [Option.some.injEq, eq_comm]

theorem applyOld_cases (new : LogDefines) (m : LoggerManager) (i : LogDefine) :
    applyOld new m i = m ∨ applyOld new m i = m.remove i ∧ new.find i = none := by
  unfold applyOld
  rcases new.find i with _ | it
  · exact .inr ⟨rfl, rfl⟩
  · exact .inl rfl

/-- The loggers of other names are those from before. -/
theorem foldl_applyNew_loggers {l : List LogDefine} (hne : ∀ i ∈ l, name ≠ i.name) :
    (l.foldl (applyNew old) m).loggers name = m.loggers name := by
  induction l generalizing m with
  | nil => rfl
  | cons i l ih =>
    obtain ⟨hi, hl⟩ := List.forall_mem_cons.1 hne
    rw [List.foldl_cons, ih hl, applyNew_cases]
    split
    · rfl
    · exact Function.update_of_ne hi _ _

theorem foldl_applyNew_frame (old : LogDefines) {l : List LogDefine} (hne : ∀ i ∈ l, name ≠ i.name)
    (hown : m.Own name) :
    (l.foldl (applyNew old) m).effect name = m.effect name ∧ (l.foldl (applyNew old) m).Own name := by
  induction l generalizing m with
  | nil => exact ⟨rfl, hown⟩
  | cons i l ih =>
    obtain ⟨hi, hl⟩ := List.forall_mem_cons.1 hne
    rw [List.foldl_cons, applyNew_cases]
    split
    · exact ih hl hown
    · obtain ⟨heff, hown⟩ := configure_frame hi hown
      rw [← heff]
      exact ih hl hown

theorem foldl_applyOld_frame {l : List LogDefine} {b : LogDefine} (hb : b ∈ new.defs) (hown : m.Own b.name) :
    (l.foldl (applyOld new) m).effect b.name = m.effect b.name ∧ (l.foldl (applyOld new) m).Own b.name := by
  induction l generalizing m with
  | nil => exact ⟨rfl, hown⟩
  | cons i l ih =>
    rw [List.foldl_cons]
    rcases applyOld_cases new m i with h | ⟨h, hnone⟩
    · rw [h]
      exact ih hown
    · have hne : b.name ≠ i.name := by
        intro hname
        rw [LogDefines.find_of_mem hb hname] at hnone
        cases hnone
      obtain ⟨heff, hown⟩ := remove_frame hne hown
      rw [h, ← heff]
      exact ih hown

/-- The definitions around one of a set have other names. -/
theorem names_around {s : LogDefines} {b : LogDefine} {l₁ l₂ : List LogDefine} (h : s.defs = l₁ ++ b :: l₂) :
    (∀ i ∈ l₁, b.name ≠ i.name) ∧ ∀ i ∈ l₂, b.name ≠ i.name := by
  have hs := s.sorted
  rw [h, OrderedSet.Sorted, List.pairwise_append] at hs
  obtain ⟨-, hs₂, hs₁⟩ := hs
  constructor
  · intro i hi hname
    have := of_decide_eq_true (hs₁ i hi b List.mem_cons_self)
    rw [hname] at this
    exact List.lt_irrefl _ this
  · intro i hi hname
    have := of_decide_eq_true ((List.pairwise_cons.1 hs₂).1 i hi)
    rw [hname] at this
    exact List.lt_irrefl _ this

/-- A definition that is new or not what it was is applied. -/
theorem change_effect {b : LogDefine} (hb : b ∈ new.defs) (hnew : old.find b ≠ some b) :
    (m.change old new).effect b.name = asked b (m.getLogger b.name).formatter ∧
    (m.change old new).Own b.name := by
  have hne : new.defs ≠ old.defs := fun h => hnew (LogDefines.find_of_mem (h ▸ hb) rfl)
  obtain ⟨l₁, l₂, hsplit⟩ := List.append_of_mem hb
  obtain ⟨hl₁, hl₂⟩ := names_around hsplit
  rw [change, if_neg hne, onChange, hsplit, List.foldl_append, List.foldl_cons, applyNew_cases, if_neg hnew]
  obtain ⟨heff, hown⟩ := configure_effect (l₁.foldl (applyNew old) m) b
  obtain ⟨heff₂, hown₂⟩ := foldl_applyNew_frame old hl₂ hown
  obtain ⟨heff₃, hown₃⟩ := foldl_applyOld_frame (l := old.defs) hb hown₂
  refine ⟨?_, hown₃⟩
  rw [heff₃, heff₂, heff, getLogger, foldl_applyNew_loggers hl₁]
  rfl

/-- A definition that is what it was is left alone. -/
theorem change_unchanged {b : LogDefine} (hb : b ∈ new.defs) (hold : old.find b = some b)
    (hown : m.Own b.name) :
    (m.change old new).effect b.name = m.effect b.name := by
  unfold change
  split
  · rfl
  · obtain ⟨l₁, l₂, hsplit⟩ := List.append_of_mem hb
    obtain ⟨hl₁, hl₂⟩ := names_around hsplit
    rw [onChange, hsplit, List.foldl_append, List.foldl_cons, applyNew_cases, if_pos hold]
    obtain ⟨heff₁, hown₁⟩ := foldl_applyNew_frame old hl₁ hown
    obtain ⟨heff₂, hown₂⟩ := foldl_applyNew_frame old hl₂ hown₁
    rw [(foldl_applyOld_frame hb hown₂).1, heff₂, heff₁]

end

/-! ## Two changes -/

/-- Nothing of `a` is left behind `b`: `b` brings a formatter, `a` does not, or
it is the one that was there before. -/
def Forgets (m : LoggerManager) (a b : LogDefine) : Prop :=
  usable b.formatter ∨ ¬ usable a.formatter ∨
    (m.getLogger b.name).formatter = some (LogFormatter.new a.formatter)

theorem asked_inj {b : LogDefine} {f g : Option LogFormatter} :
    asked b f = asked b g ↔ formatterOr b.formatter f = formatterOr b.formatter g := by
  constructor
  · intro h
    exact congrArg (fun e => e.2.1) (Option.some.inj h)
  · intro h
    rw [asked, asked, h]

/-- The two ways to `b` differ in the formatter that was there before. -/
theorem effect_eq_iff {m : LoggerManager} {A B : LogDefines} {b : LogDefine} (hb : b ∈ B.defs) :
    ((m.change .empty A).change A B).effect b.name = (m.change .empty B).effect b.name ↔
      ∀ a ∈ A.defs, a.name = b.name → a ≠ b → m.Forgets a b := by
  have hempty : ∀ i : LogDefine, LogDefines.empty.find i ≠ some i := fun i h => by cases h
  rw [(change_effect hb (hempty b)).1]
  rcases hfind : A.find b with _ | a
  · -- `A` has no definition of this name
    have hnone : ∀ i ∈ A.defs, b.name ≠ i.name := by
      intro i hi hname
      rw [LogDefines.find_of_mem hi hname.symm] at hfind
      cases hfind
    have hsame : (m.change .empty A).getLogger b.name = m.getLogger b.name := by
      unfold change
      split
      · rfl
      · rw [getLogger, onChange, LogDefines.empty, List.foldl_nil, foldl_applyNew_loggers hnone]
        rfl
    rw [(change_effect hb (by rw [hfind]; exact fun h => by cases h)).1, hsame]
    exact ⟨fun _ a ha hname => absurd hname.symm (hnone a ha), fun _ => rfl⟩
  · obtain ⟨ha, hname⟩ := LogDefines.mem_of_find hfind
    have hunique : ∀ i ∈ A.defs, i.name = b.name → i = a := by
      intro i hi hi_name
      exact Option.some.inj ((LogDefines.find_of_mem hi hi_name).symm.trans hfind)
    obtain ⟨heff, hown⟩ := change_effect (m := m) ha (hempty a)
    rw [hname] at heff hown
    by_cases hab : a = b
    -- the second change leaves the logger as the first has made it
    · subst hab
      rw [change_unchanged hb hfind hown, heff]
      exact ⟨fun _ i hi hi_name hne => absurd (hunique i hi hi_name) hne, fun _ => rfl⟩
    -- it is made anew, and only the formatter of `a` may be left
    · have hformatter : ((m.change .empty A).getLogger b.name).formatter =
          formatterOr a.formatter (m.getLogger b.name).formatter := by
        unfold effect at heff
        unfold getLogger
        rcases hl : (m.change .empty A).loggers b.name with _ | l
        · rw [hl] at heff
          cases heff
        · rw [hl] at heff
          exact congrArg (fun e => e.2.1) (Option.some.inj heff)
      rw [(change_effect hb (by rw [hfind]; exact fun h => hab (Option.some.inj h))).1, hformatter, asked_inj]
      have hone : (∀ i ∈ A.defs, i.name = b.name → i ≠ b → m.Forgets i b) ↔ m.Forgets a b := by
        constructor
        · intro h
          exact h a ha hname hab
        · intro h i hi hi_name _
          rw [hunique i hi hi_name]
          exact h
      rw [hone]
      unfold Forgets formatterOr
      by_cases hub : usable b.formatter
      · simp [hub]
      · by_cases hua : usable a.formatter
        · simp [hub, hua, eq_comm]
        · simp [hub, hua]

/-- For every two values `A` and `B` and whatever the loggers are before: going
over `A` leaves the loggers of `B` as going to `B` at once does, exactly when
each definition of `B` forgets the other definition of `A` under its name. -/
theorem independent_iff (m : LoggerManager) (A B : LogDefines) :
    (∀ b ∈ B.defs, ((m.change .empty A).change A B).effect b.name = (m.change .empty B).effect b.name) ↔
      ∀ a ∈ A.defs, ∀ b ∈ B.defs, a.name = b.name → a ≠ b → m.Forgets a b := by
  constructor
  · intro h a ha b hb
    exact (effect_eq_iff hb).1 (h b hb) a ha
  · intro h b hb
    exact (effect_eq_iff hb).2 fun a ha => h a ha b hb

def one (i : LogDefine) : LogDefines := ⟨[i], List.pairwise_singleton _ _⟩

/-- `system` with the formatter `x`, and without one. -/
def withFormatter : LogDefine := ⟨ascii "system", .debug, ascii "x", []⟩

def withoutFormatter : LogDefine := ⟨ascii "system", .debug, [], []⟩

/-- A formatter stays when it is taken out of the configuration. -/
theorem not_independent :
    ¬ ∀ (m : LoggerManager) (A B : LogDefines), ∀ b ∈ B.defs,
      ((m.change .empty A).change A B).effect b.name = (m.change .empty B).effect b.name := by
  intro h
  have hsame := h .new (one withFormatter) (one withoutFormatter) withoutFormatter List.mem_cons_self
  have hforgets := (effect_eq_iff List.mem_cons_self).1 hsame withFormatter List.mem_cons_self rfl (by decide)
  -- none of the three ways to forget `x`
  rcases hforgets with hb | ha | hkept
  · exact hb.1 rfl
  · exact ha ⟨by decide, LogFormatter.new_literal (by decide)⟩
  · have hpattern := congrArg (Option.map LogFormatter.getPattern) hkept
    rw [Option.map_some, LogFormatter.getPattern_new] at hpattern
    revert hpattern
    decide

end LoggerManager

end Linko.Log

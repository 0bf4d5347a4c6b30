import Linko.Lib.FlowText
import Linko.Log.Event
import Linko.Log.Initer
/-!
# Definitions of loggers as text

The two casts between a `LogDefine` and its YAML text.
-/

namespace Linko.Log

open CString Yaml

/-- `boost::iequals` -/
def iequals (a b : Bytes) : Bool := a.map tolower == b.map tolower

/-- `LogLevel::FromString` -/
def Level.fromString (str : Bytes) : Level :=
  if iequals str (ascii "debug") then .debug
  else if iequals str (ascii "info") then .info
  else if iequals str (ascii "warn") then .warn
  else if iequals str (ascii "error") then .error
  else if iequals str (ascii "fatal") then .fatal
  else .unknow

theorem Level.fromString_toString (level : Level) : Level.fromString level.toString = level := by
  cases level <;> decide

/-- The text of a child, or what stands for one that is not defined. -/
def textOr (n : Option Node) (missing : Bytes) : Option Bytes := n.elim (some missing) Node.asString

/-! ## Writing -/

/-- The node `na` of an appender. -/
def LogAppnderDefine.toNode (a : LogAppnderDefine) : Node :=
  let na := match a.type with
    | .file =>
      (Node.null.set (ascii "type") (.scalar (ascii "FileLogAppender"))).set (ascii "file") (.scalar a.file)
    | .stdout => Node.null.set (ascii "typd") (.scalar (ascii "StdoutLogAppender"))
  let na := if a.formatter ≠ [] then na.set (ascii "formatter") (.scalar a.formatter) else na
  if a.level ≠ .unknow then na.set (ascii "level") (.scalar a.level.toString) else na

def LogDefine.toNode (i : LogDefine) : Node :=
  let node := Node.null.set (ascii "name") (.scalar i.name)
  let node := if i.level ≠ .unknow then node.set (ascii "level") (.scalar i.level.toString) else node
  let node := if i.formatter ≠ [] then node.set (ascii "formatter") (.scalar i.formatter) else node
  (i.appenderDefines.map LogAppnderDefine.toNode).foldl (fun node na => node.pushAt (ascii "appenders") na) node

/-- `LexicalCast<LogDefine, std::string>` -/
def LogDefine.toText (yaml : Format) (i : LogDefine) : Bytes := yaml.emit i.toNode

/-! ## Reading -/

/-- One round of the loop over the appenders; one that is not valid is left out. -/
def LogAppnderDefine.ofNode (a : Option Node) : Option (Option LogAppnderDefine) := do
  let get := fun key => a.elim (some none) (Node.get key)
  match ← get (ascii "type") with
  | none => some none
  | some type =>
    let type ← type.asString
    if type = ascii "FileLogAppender" then
      match ← get (ascii "file") with
      | none => some none
      | some file =>
        let file ← file.asString
        let formatter ← textOr (← get (ascii "formatter")) []
        some (some ⟨.file, .unknow, formatter, file⟩)
    else if type = ascii "StdoutLogAppender" then
      let formatter ← textOr (← get (ascii "formatter")) []
      some (some ⟨.stdout, .unknow, formatter, []⟩)
    else some none

def LogAppnderDefine.ofNodes (appenders : Node) : Option (List LogAppnderDefine) :=
  ((List.range appenders.size).mapM fun x => ofNode (appenders.index x)).map fun as => as.filterMap id

def LogDefine.ofNode (node : Node) : Option LogDefine := do
  let name ← (← (← node.get (ascii "name"))).asString
  let level ← textOr (← node.get (ascii "level")) []
  let formatter ← textOr (← node.get (ascii "formatter")) []
  let appenders ← (← node.get (ascii "appenders")).elim (some []) LogAppnderDefine.ofNodes
  some ⟨name, Level.fromString level, formatter, appenders⟩

/-- `LexicalCast<std::string, LogDefine>` -/
def LogDefine.ofText (yaml : Format) (v : Bytes) : Option LogDefine := (yaml.load v).bind LogDefine.ofNode

/-! ## What is read back -/

/-- What the casts leave of an appender, if anything. -/
def LogAppnderDefine.kept (a : LogAppnderDefine) : Option LogAppnderDefine :=
  if a.type = .file then some { a with level := .unknow } else none

def LogDefine.kept (i : LogDefine) : LogDefine :=
  { i with appenderDefines := i.appenderDefines.filterMap LogAppnderDefine.kept }

/-- A text that is only written when it is not empty. -/
theorem textOr_unset (s : Bytes) : textOr (if s ≠ [] then some (.scalar s) else none) [] = some s := by
  by_cases hs : s = []
  · simp [hs, textOr]
  · simp [hs, textOr, Node.asString]

theorem LogAppnderDefine.file_children (level : Level) (formatter file : Bytes) :
    let na := LogAppnderDefine.toNode ⟨.file, level, formatter, file⟩
    na.get (ascii "type") = some (some (.scalar (ascii "FileLogAppender"))) ∧
      na.get (ascii "file") = some (some (.scalar file)) ∧
      na.get (ascii "formatter") = some (if formatter ≠ [] then some (.scalar formatter) else none) := by
  have hget := (((Node.children_set Node.null (ascii "type") (.scalar (ascii "FileLogAppender"))).set (ascii "file")
    (.scalar file)).setIf (formatter ≠ []) (ascii "formatter") (.scalar formatter)).setIf (level ≠ .unknow)
    (ascii "level") (.scalar level.toString)
  refine ⟨(hget _).trans ?_, (hget _).trans ?_, (hget _).trans ?_⟩
  · simp +decide
  · simp +decide
  · simp +decide [Node.get]

/-- Nothing is found under the key `type`. -/
theorem LogAppnderDefine.stdout_type (level : Level) (formatter file : Bytes) :
    (LogAppnderDefine.toNode ⟨.stdout, level, formatter, file⟩).get (ascii "type") = some none := by
  have hget := ((Node.children_set Node.null (ascii "typd") (.scalar (ascii "StdoutLogAppender"))).setIf
    (formatter ≠ []) (ascii "formatter") (.scalar formatter)).setIf (level ≠ .unknow)
    (ascii "level") (.scalar level.toString)
  refine (hget _).trans ?_
  simp +decide [Node.get]

theorem LogAppnderDefine.ofNode_toNode (a : LogAppnderDefine) :
    ofNode (some a.toNode) = some a.kept := by
  obtain ⟨type, level, formatter, file⟩ := a
  cases type with
  | file =>
    obtain ⟨htype, hfile, hformatter⟩ := file_children level formatter file
    simp only [ofNode, Option.elim_some, htype, hfile, hformatter, Option.bind_eq_bind, Option.bind_some, Node.asString,
      textOr_unset, kept, if_true]
  | stdout =>
    simp [ofNode, stdout_type, kept]

theorem LogAppnderDefine.ofNodes_toNode (as : List LogAppnderDefine) :
    ofNodes (.seq (as.map toNode)) = some (as.filterMap kept) := by
  have hround : (fun n => ofNode (some n)) ∘ toNode = fun a => pure a.kept := by
    funext a
    exact ofNode_toNode a
  rw [ofNodes, Node.mapM_index, List.mapM_map, hround, List.mapM_pure, Option.pure_def, Option.map_some,
    List.filterMap_map]
  rfl

theorem LogDefine.children_toNode (i : LogDefine) :
    i.toNode.get (ascii "name") = some (some (.scalar i.name)) ∧
      i.toNode.get (ascii "level") = some (if i.level ≠ .unknow then some (.scalar i.level.toString) else none) ∧
      i.toNode.get (ascii "formatter") = some (if i.formatter ≠ [] then some (.scalar i.formatter) else none) ∧
      i.toNode.get (ascii "appenders") =
        some (if i.appenderDefines ≠ [] then some (.seq (i.appenderDefines.map LogAppnderDefine.toNode)) else none) := by
  have hget := (((Node.children_set Node.null (ascii "name") (.scalar i.name)).setIf (i.level ≠ .unknow) (ascii "level")
    (.scalar i.level.toString)).setIf (i.formatter ≠ []) (ascii "formatter") (.scalar i.formatter)).pushFresh
    (ascii "appenders") (by simp +decide [Node.get]) (i.appenderDefines.map LogAppnderDefine.toNode)
  refine ⟨(hget _).trans ?_, (hget _).trans ?_, (hget _).trans ?_, (hget _).trans ?_⟩
  · simp +decide
  · simp +decide [Node.get]
  · simp +decide [Node.get]
  · simp +decide [Node.get]

theorem LogDefine.ofNode_toNode (i : LogDefine) : ofNode i.toNode = some i.kept := by
  obtain ⟨hname, hlevel, hformatter, happenders⟩ := i.children_toNode
  have hlevels : textOr (if i.level ≠ .unknow then some (.scalar i.level.toString) else none) [] =
      some (if i.level ≠ .unknow then i.level.toString else []) := by
    split <;> rfl
  have hread : Level.fromString (if i.level ≠ .unknow then i.level.toString else []) = i.level := by
    split
    · exact Level.fromString_toString _
    · rename_i h
      rw [not_not.1 h]
      rfl
  have hall : (if i.appenderDefines ≠ [] then some (Node.seq (i.appenderDefines.map LogAppnderDefine.toNode))
      else none).elim (some []) LogAppnderDefine.ofNodes = some i.kept.appenderDefines := by
    split
    · exact LogAppnderDefine.ofNodes_toNode _
    · rename_i h
      rw [LogDefine.kept, not_not.1 h]
      rfl
  simp only [ofNode, hname, hlevel, hformatter, happenders, Option.bind_eq_bind, Option.bind_some, Node.asString,
    textOr_unset, hlevels, hread, hall]
  rfl

theorem LogDefine.ofText_toText (yaml : Format) (i : LogDefine) : ofText yaml (i.toText yaml) = some i.kept := by
  rw [ofText, toText, yaml.load_emit, Option.bind_some, ofNode_toNode]

/-- A definition comes back from its text exactly when it has no stdout
appender and no appender with a level: the type of the one is written under
another key, and the level of an appender is not read. -/
theorem LogDefine.survives_iff (yaml : Format) (i : LogDefine) :
    LogDefine.ofText yaml (i.toText yaml) = some i ↔
      ∀ a ∈ i.appenderDefines, a.type = .file ∧ a.level = .unknow := by
  rw [ofText_toText, Option.some.injEq]
  constructor
  · intro h a ha
    rw [← h] at ha
    obtain ⟨b, -, hb⟩ := List.mem_filterMap.1 ha
    unfold LogAppnderDefine.kept at hb
    split at hb
    · rename_i hfile
      rw [← Option.some.inj hb]
      exact ⟨hfile, rfl⟩
    · cases hb
  · intro h
    have hkept : ∀ a ∈ i.appenderDefines, a.kept = some a := by
      intro a ha
      obtain ⟨hfile, hlevel⟩ := h a ha
      rw [LogAppnderDefine.kept, if_pos hfile, ← hlevel]
    rw [kept, List.filterMap_congr hkept, List.filterMap_some]

/-- The text of a logger with one stdout appender does not give it back. -/
theorem LogDefine.not_survives :
    ∃ yaml : Format,
      LogDefine.toText yaml ⟨ascii "a", .unknow, [], [⟨.stdout, .unknow, [], []⟩]⟩ =
        ascii "name: a\nappenders:\n  - typd: StdoutLogAppender" ∧
      LogDefine.ofText yaml (ascii "name: a\nappenders:\n  - typd: StdoutLogAppender") ≠
        some ⟨ascii "a", .unknow, [], [⟨.stdout, .unknow, [], []⟩]⟩ := by
  let i : LogDefine := ⟨ascii "a", .unknow, [], [⟨.stdout, .unknow, [], []⟩]⟩
  let text := ascii "name: a\nappenders:\n  - typd: StdoutLogAppender"
  let yaml := FlowText.format.relabel (Equiv.swap (FlowText.emit i.toNode) text)
    (Format.swap_signed ⟨123, by decide, by decide⟩ ⟨110, by decide, by decide⟩)
  have hemit : i.toText yaml = text := Equiv.swap_apply_left _ _
  refine ⟨yaml, hemit, ?_⟩
  have hread := LogDefine.ofText_toText yaml i
  rw [hemit] at hread
  intro h
  exact absurd (Option.some.inj (hread.symm.trans h)) (by decide)

end Linko.Log

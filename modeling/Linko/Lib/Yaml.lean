import Linko.Lib.Signed
import Mathlib.Logic.Equiv.Basic
/-!
# YAML nodes

The tree behind a `YAML::Node` and what `yaml-cpp` does with it. An undefined
node is `none`; an operation that throws is `none` as well.
-/

namespace Yaml

open CString

inductive Node where
  | null
  | scalar (text : Bytes)
  | seq (items : List Node)
  | map (pairs : List (Bytes × Node))

namespace Node

/-- The value of the first pair with the key. -/
def lookup (key : Bytes) : List (Bytes × Node) → Option Node
  | [] => none
  | (k, n) :: pairs => if k = key then some n else lookup key pairs

/-- `node[key]` -/
def get (key : Bytes) : Node → Option (Option Node)
  | .null => some none
  | .scalar _ => none
  | .seq _ => some none
  | .map pairs => some (lookup key pairs)

/-- `node[i]`; the keys of a map are searched for the numeral. -/
def index (i : Nat) : Node → Option Node
  | .null => none
  | .scalar _ => none
  | .seq items => items[i]?
  | .map pairs => lookup (decimal i) pairs

def size : Node → Nat
  | .null => 0
  | .scalar _ => 0
  | .seq items => items.length
  | .map pairs => pairs.length

/-- `as<std::string>()` -/
def asString : Node → Option Bytes
  | .null => some (ascii "null")
  | .scalar text => some text
  | .seq _ => none
  | .map _ => none

/-- The pairs of a map with the value of `key` replaced, or with a pair more. -/
def put (key : Bytes) (value : Node) : List (Bytes × Node) → List (Bytes × Node)
  | [] => [(key, value)]
  | (k, n) :: pairs => if k = key then (k, value) :: pairs else (k, n) :: put key value pairs

/-- `node[key] = value` on a map or a fresh node -/
def set (n : Node) (key : Bytes) (value : Node) : Node :=
  match n with
  | .map pairs => .map (put key value pairs)
  | _ => .map [(key, value)]

/-- `push_back` on a sequence or a fresh node -/
def push (n value : Node) : Node :=
  match n with
  | .seq items => .seq (items ++ [value])
  | _ => .seq [value]

/-- `node[key].push_back(value)` -/
def pushAt (n : Node) (key : Bytes) (value : Node) : Node :=
  n.set key (((n.get key).join.getD .null).push value)

end Node

/-- The emitter behind `operator<<` and `YAML::Load`, which inverts it. A number
stands for itself. -/
structure Format where
  emit : Node → Bytes
  load : Bytes → Option Node
  load_emit : ∀ n, load (emit n) = some n
  emit_number : ∀ i : Int, emit (.scalar (signed i)) = signed i

namespace Format

/-- `operator<<` on a node that may be undefined. -/
def emitted (yaml : Format) (n : Option Node) : Bytes := n.elim [] yaml.emit

/-- Other texts for the nodes, one to one and not for the numbers. -/
def relabel (yaml : Format) (f : Equiv.Perm Bytes) (h : ∀ i : Int, f (signed i) = signed i) : Format where
  emit n := f (yaml.emit n)
  load text := yaml.load (f.symm text)
  load_emit n := by rw [Equiv.symm_apply_apply, yaml.load_emit]
  emit_number i := by rw [yaml.emit_number, h]

/-- Two texts with a byte that no number has change places. -/
theorem swap_signed {a b : Bytes} (ha : ∃ c ∈ a, c ≠ 45 ∧ ¬ (48 ≤ c ∧ c ≤ 57))
    (hb : ∃ c ∈ b, c ≠ 45 ∧ ¬ (48 ≤ c ∧ c ≤ 57)) (i : Int) : Equiv.swap a b (signed i) = signed i := by
  have hne : ∀ {text : Bytes}, (∃ c ∈ text, c ≠ 45 ∧ ¬ (48 ≤ c ∧ c ≤ 57)) → signed i ≠ text := by
    rintro _ ⟨c, hc, hminus, hdigit⟩ rfl
    exact (mem_signed hc).elim hminus hdigit
  exact Equiv.swap_apply_of_ne_of_ne (hne ha) (hne hb)

end Format

namespace Node

/-! ## What the operations do -/

@[simp] theorem lookup_put (key other : Bytes) (value : Node) (pairs : List (Bytes × Node)) :
    lookup other (put key value pairs) = if key = other then some value else lookup other pairs := by
  induction pairs with
  | nil => simp [put, lookup]
  | cons p pairs ih =>
    obtain ⟨k, n⟩ := p
    simp only [put]
    by_cases hk : k = key
    · subst hk
      simp only [if_true, lookup]
      split <;> rfl
    · rw [if_neg hk, lookup, ih, lookup]
      by_cases ho : k = other
      · subst ho
        rw [if_pos rfl, if_pos rfl, if_neg (Ne.symm hk)]
      · rw [if_neg ho, if_neg ho]

/-- The children of a node that is a map. -/
def Children (n : Node) (c : Bytes → Option Node) : Prop := ∀ key, n.get key = some (c key)

theorem children_set (n : Node) (key : Bytes) (value : Node) :
    Children (n.set key value) fun other => if key = other then some value else (n.get other).join := by
  intro other
  cases n with
  | null => simp [set, get, lookup]
  | scalar text => simp [set, get, lookup]
  | seq items => simp [set, get, lookup]
  | map pairs => simp [set, get]

variable {n : Node} {c : Bytes → Option Node}

theorem Children.set (h : Children n c) (key : Bytes) (value : Node) :
    Children (n.set key value) fun other => if key = other then some value else c other := by
  intro other
  rw [children_set n key value other]
  simp only [h other, Option.join_some]

/-- A pair that is only set under a condition. -/
theorem Children.setIf (h : Children n c) (p : Prop) [Decidable p] (key : Bytes) (value : Node) :
    Children (if p then n.set key value else n) fun other => if p ∧ key = other then some value else c other := by
  intro other
  by_cases hp : p
  · rw [if_pos hp, h.set key value other]
    simp [hp]
  · rw [if_neg hp, h other]
    simp [hp]

theorem Children.pushAll {key : Bytes} {items : List Node} (h : Children n c) (hkey : c key = some (.seq items))
    (values : List Node) : Children (values.foldl (fun n v => n.pushAt key v) n) fun other =>
      if key = other then some (.seq (items ++ values)) else c other := by
  induction values generalizing n c items with
  | nil =>
    intro other
    rw [List.foldl_nil, h other, List.append_nil]
    dsimp only
    split
    · rename_i heq
      rw [← heq, hkey]
    · rfl
  | cons v values ih =>
    have hnext : Children (n.pushAt key v) fun other => if key = other then some (.seq (items ++ [v])) else c other := by
      rw [pushAt, h key, hkey]
      exact h.set key _
    intro other
    rw [List.foldl_cons, ih hnext (if_pos rfl) other, List.append_assoc]
    dsimp only
    split <;> rfl

/-- `push_back` in a loop, behind a key that is not there at first. -/
theorem Children.pushFresh (h : Children n c) (key : Bytes) (hkey : c key = none) (values : List Node) :
    Children (values.foldl (fun n v => n.pushAt key v) n) fun other =>
      if values ≠ [] ∧ key = other then some (.seq values) else c other := by
  cases values with
  | nil => simpa using h
  | cons v values =>
    have hnext : Children (n.pushAt key v) fun other => if key = other then some (.seq [v]) else c other := by
      rw [pushAt, h key, hkey]
      exact h.set key _
    intro other
    rw [List.foldl_cons, hnext.pushAll (if_pos rfl) values other]
    simp only [ne_eq, reduceCtorEq, not_false_eq_true, true_and, List.singleton_append]
    split <;> rfl

/-- A new key comes last. -/
theorem put_of_notMem {key : Bytes} {pairs : List (Bytes × Node)} (h : key ∉ pairs.map Prod.fst) (value : Node) :
    put key value pairs = pairs ++ [(key, value)] := by
  induction pairs with
  | nil => rfl
  | cons p pairs ih =>
    obtain ⟨k, n⟩ := p
    rw [List.map_cons, List.mem_cons, not_or] at h
    rw [put, if_neg (Ne.symm h.1), ih h.2, List.cons_append]

/-- The loop over the indices of a sequence meets its items. -/
theorem mapM_index {α : Type} (items : List Node) (f : Option Node → Option α) :
    ((List.range (Node.seq items).size).mapM fun x => f ((Node.seq items).index x)) =
      items.mapM fun n => f (some n) := by
  have hrange : (List.range (Node.seq items).size).map (Node.seq items).index = items.map some := by
    apply List.ext_getElem
    · simp [Node.size]
    · intro x hx hx'
      simp only [List.length_map] at hx'
      simp [Node.index, hx']
  rw [← Function.comp_def f, ← List.mapM_map, hrange, List.mapM_map]
  rfl

/-- Pairs with different keys that are set one after the other. -/
theorem foldl_set {pairs new : List (Bytes × Node)} (h : ((pairs ++ new).map Prod.fst).Nodup) :
    new.foldl (fun n p => Node.set n p.1 p.2) (.map pairs) = .map (pairs ++ new) := by
  induction new generalizing pairs with
  | nil => rw [List.append_nil]; rfl
  | cons p new ih =>
    obtain ⟨key, value⟩ := p
    have hkey : key ∉ pairs.map Prod.fst := by
      rw [List.map_append, List.map_cons] at h
      exact fun hin => (List.nodup_append.1 h).2.2 key hin key List.mem_cons_self rfl
    have hset : (Node.map pairs).set key value = .map (pairs ++ [(key, value)]) := by
      rw [Node.set, put_of_notMem hkey]
    rw [List.foldl_cons, hset, ih (by rwa [List.append_assoc]), List.append_assoc]
    rfl

/-- `push_back` in a loop. -/
theorem foldl_push (items values : List Node) :
    values.foldl push (.seq items) = .seq (items ++ values) := by
  induction values generalizing items with
  | nil => simp
  | cons v values ih =>
    rw [List.foldl_cons]
    show values.foldl push (.seq (items ++ [v])) = _
    rw [ih, List.append_assoc]
    rfl

end Node

end Yaml

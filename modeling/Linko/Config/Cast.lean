import Linko.Lib.Comparator
import Linko.Lib.FlowText
/-!
# Configuration values as text

The specialisations of `LexicalCast` for integers, sequences, sets and maps, and
the types that can be built from them.
-/

namespace Linko.Config

open CString Yaml OrderedSet

/-- The two casts of a type; `none` is an exception. -/
structure LexicalCast (α : Type) where
  toString : α → Option Bytes
  fromString : Bytes → Option α

namespace LexicalCast

/-- `boost::lexical_cast` between `int` and `std::string` -/
def int : LexicalCast Int32 where
  toString v := some (signed v.toInt)
  fromString s := do
    let n ← readSigned s
    if -2 ^ 31 ≤ n ∧ n < 2 ^ 31 then some (Int32.ofInt n) else none

section Casts

variable (yaml : Format) {α : Type} (cast : LexicalCast α)

/-- The loop over the elements: each text is a scalar of the sequence. -/
def sequenceToString (v : List α) : Option Bytes := do
  let texts ← v.mapM cast.toString
  some (yaml.emit ((texts.map Node.scalar).foldl Node.push (.seq [])))

/-- The loop over `node[i]`. -/
def sequenceFromString (v : Bytes) : Option (List α) := do
  let node ← yaml.load v
  (List.range node.size).mapM fun i => cast.fromString (yaml.emitted (node.index i))

/-- `std::vector<T>` -/
def vector : LexicalCast (List α) where
  toString := sequenceToString yaml cast
  fromString := sequenceFromString yaml cast

/-- `std::list<T>` -/
def list : LexicalCast (List α) where
  toString := sequenceToString yaml cast
  fromString := sequenceFromString yaml cast

/-- `std::set<T>` -/
def set {c : Comparator α} : LexicalCast (Ordered c) where
  toString v := sequenceToString yaml cast v.elems
  fromString v := (sequenceFromString yaml cast v).map Ordered.ofList

/-- The order of the pairs of a map. -/
abbrev byKey (α : Type) : Comparator (Bytes × α) := Comparator.bytes.on Prod.fst

/-- The loop over the pairs of `node`; the elements of a sequence are no pairs. -/
def pairsOf (node : Node) : Option (List (Bytes × Node)) :=
  match node with
  | .map pairs => some pairs
  | .seq items => if items = [] then some [] else none
  | _ => some []

/-- `std::map<std::string, T>` -/
def map : LexicalCast (Ordered (byKey α)) where
  toString v := do
    let nodes ← v.elems.mapM fun i => do some (i.1, ← yaml.load (← cast.toString i.2))
    some (yaml.emit (nodes.foldl (fun node i => node.set i.1 i.2) (.map [])))
  fromString v := do
    let node ← yaml.load v
    let pairs ← (← pairsOf node).mapM fun i => do some (i.1, ← cast.fromString (yaml.emit i.2))
    some (Ordered.ofList pairs)

end Casts

end LexicalCast

/-! ## The types -/

inductive Ty where
  | int
  | vector (t : Ty)
  | list (t : Ty)
  | set (t : Ty)
  | map (t : Ty)

/-- A type with its `operator<`. -/
structure Kind where
  carrier : Type
  order : Comparator carrier
  total : order.Total

namespace Kind

def int : Kind := ⟨Int32, Comparator.int32, Comparator.total_int32⟩

def vector (k : Kind) : Kind := ⟨List k.carrier, k.order.lex k.total, Comparator.total_lex k.total⟩

def set (k : Kind) : Kind where
  carrier := Ordered k.order
  order := (k.order.lex k.total).on Ordered.elems
  total := (Comparator.total_lex k.total).on fun _ _ => Ordered.ext_elems

def map (k : Kind) : Kind where
  carrier := Ordered (LexicalCast.byKey k.carrier)
  order := ((Comparator.bytes.pair Comparator.total_bytes k.order).lex
    (Comparator.total_pair Comparator.total_bytes k.total)).on Ordered.elems
  total := (Comparator.total_lex (Comparator.total_pair Comparator.total_bytes k.total)).on fun _ _ => Ordered.ext_elems

end Kind

namespace Ty

def kind : Ty → Kind
  | int => Kind.int
  | vector t => t.kind.vector
  | list t => t.kind.vector
  | set t => t.kind.set
  | map t => t.kind.map

abbrev Val (t : Ty) : Type := t.kind.carrier

/-- The specialisation of `LexicalCast` for a type. -/
def cast (yaml : Format) : (t : Ty) → LexicalCast t.Val
  | int => .int
  | vector t => .vector yaml (t.cast yaml)
  | list t => .list yaml (t.cast yaml)
  | set t => .set yaml (t.cast yaml)
  | map t => .map yaml (t.cast yaml)

end Ty

/-! ## What is read back -/

/-- A cast writes the node `node v`, reads `back v` from it, and reads `inner v`
when its text is a scalar of a sequence. -/
structure LexicalCast.Spec (yaml : Format) {α : Type} (cast : LexicalCast α) (node : α → Node) (back inner : α → α) :
    Prop where
  toString : ∀ v, cast.toString v = some (yaml.emit (node v))
  fromString : ∀ v, cast.fromString (yaml.emit (node v)) = some (back v)
  inner : ∀ v, cast.fromString (yaml.emit (.scalar (yaml.emit (node v)))) = some (inner v)

namespace LexicalCast

variable {yaml : Format} {α : Type} {cast : LexicalCast α} {node : α → Node} {back inner : α → α}

theorem spec_int : Spec yaml .int (fun v => .scalar (signed v.toInt)) id id := by
  have hread : ∀ v : Int32, int.fromString (signed v.toInt) = some v := by
    intro v
    have hlo := v.le_toInt
    have hhi := v.toInt_lt
    simp only [int, readSigned_signed, Option.bind_eq_bind, Option.bind_some, if_pos (And.intro hlo hhi),
      Int32.ofInt_toInt]
  refine ⟨fun v => ?_, fun v => ?_, fun v => ?_⟩
  · rw [yaml.emit_number]
    rfl
  · rw [yaml.emit_number]
    exact hread v
  · rw [yaml.emit_number, yaml.emit_number]
    exact hread v

/-- The node of a sequence. -/
def seqNode (yaml : Format) (node : α → Node) (v : List α) : Node := .seq (v.map fun i => .scalar (yaml.emit (node i)))

theorem sequence_toString (h : Spec yaml cast node back inner) (v : List α) :
    sequenceToString yaml cast v = some (yaml.emit (seqNode yaml node v)) := by
  have htexts : v.mapM cast.toString = some (v.map fun i => yaml.emit (node i)) := by
    rw [funext h.toString]
    exact List.mapM_pure
  simp [sequenceToString, htexts, Node.foldl_push, seqNode, Function.comp_def]

theorem sequence_fromString (h : Spec yaml cast node back inner) (v : List α) :
    sequenceFromString yaml cast (yaml.emit (seqNode yaml node v)) = some (v.map inner) := by
  have hround : (fun n => cast.fromString (yaml.emitted (some n))) ∘ (fun i => Node.scalar (yaml.emit (node i))) =
      fun i => pure (inner i) := by
    funext i
    exact h.inner i
  rw [sequenceFromString, yaml.load_emit, Option.bind_eq_bind, Option.bind_some, seqNode]
  exact (Node.mapM_index _ fun n => cast.fromString (yaml.emitted n)).trans
    (by rw [List.mapM_map, hround, List.mapM_pure]; rfl)

/-- A scalar has no elements. -/
theorem sequence_scalar (text : Bytes) : sequenceFromString yaml cast (yaml.emit (.scalar text)) = some [] := by
  simp [sequenceFromString, yaml.load_emit, Node.size]

theorem Spec.vector (h : Spec yaml cast node back inner) :
    Spec yaml (.vector yaml cast) (seqNode yaml node) (List.map inner) fun _ => [] :=
  ⟨sequence_toString h, sequence_fromString h, fun _ => sequence_scalar _⟩

theorem Spec.list (h : Spec yaml cast node back inner) :
    Spec yaml (.list yaml cast) (seqNode yaml node) (List.map inner) fun _ => [] :=
  ⟨sequence_toString h, sequence_fromString h, fun _ => sequence_scalar _⟩

theorem Spec.set {c : Comparator α} (h : Spec yaml cast node back inner) :
    Spec yaml (.set yaml cast (c := c)) (fun v => seqNode yaml node v.elems)
      (fun v => .ofList (v.elems.map inner)) fun _ => .empty := by
  refine ⟨fun v => sequence_toString h v.elems, fun v => ?_, fun v => ?_⟩
  · show (sequenceFromString yaml cast _).map Ordered.ofList = _
    rw [sequence_fromString h, Option.map_some]
  · show (sequenceFromString yaml cast _).map Ordered.ofList = _
    rw [sequence_scalar]
    rfl

theorem Spec.map (h : Spec yaml cast node back inner) :
    Spec yaml (.map yaml cast) (fun v => .map (v.elems.map fun i => (i.1, node i.2)))
      (fun v => .ofList (v.elems.map fun i => (i.1, back i.2))) fun _ => .empty := by
  refine ⟨fun v => ?_, fun v => ?_, fun v => ?_⟩
  · have hnodes : v.elems.mapM (fun i => do some (i.1, ← yaml.load (← cast.toString i.2))) =
        some (v.elems.map fun i => (i.1, node i.2)) := by
      simp only [h.toString, Option.bind_eq_bind, Option.bind_some, yaml.load_emit]
      exact List.mapM_pure
    have hkeys : (([] ++ v.elems.map fun i : Bytes × α => (i.1, node i.2)).map Prod.fst).Nodup := by
      rw [List.nil_append, List.map_map]
      exact Sorted.nodup Comparator.bytes.irrefl (List.pairwise_map.2 v.sorted)
    simp only [LexicalCast.map, Option.bind_eq_bind] at hnodes ⊢
    rw [hnodes, Option.bind_some, Node.foldl_set hkeys, List.nil_append]
  · have hpairs : (v.elems.map fun i => (i.1, node i.2)).mapM
        (fun i : Bytes × Node => do some (i.1, ← cast.fromString (yaml.emit i.2))) =
        some (v.elems.map fun i => (i.1, back i.2)) := by
      rw [List.mapM_map]
      simp only [Function.comp_def, h.fromString, Option.bind_eq_bind, Option.bind_some]
      exact List.mapM_pure
    simp only [LexicalCast.map, yaml.load_emit, pairsOf, Option.bind_eq_bind, Option.bind_some] at hpairs ⊢
    rw [hpairs, Option.bind_some]
  · simp [LexicalCast.map, yaml.load_emit, pairsOf]
    rfl

end LexicalCast

namespace Ty

def node (yaml : Format) : (t : Ty) → t.Val → Node
  | int => fun v => .scalar (signed v.toInt)
  | vector t => LexicalCast.seqNode yaml (t.node yaml)
  | list t => LexicalCast.seqNode yaml (t.node yaml)
  | set t => fun v => LexicalCast.seqNode yaml (t.node yaml) v.elems
  | map t => fun v => .map (v.elems.map fun i => (i.1, t.node yaml i.2))

def inner : (t : Ty) → t.Val → t.Val
  | int => id
  | vector _ => fun _ => []
  | list _ => fun _ => []
  | set _ => fun _ => .empty
  | map _ => fun _ => .empty

def back : (t : Ty) → t.Val → t.Val
  | int => id
  | vector t => List.map t.inner
  | list t => List.map t.inner
  | set t => fun v => .ofList (v.elems.map t.inner)
  | map t => fun v => .ofList (v.elems.map fun i => (i.1, t.back i.2))

theorem spec (yaml : Format) (t : Ty) : (t.cast yaml).Spec yaml (t.node yaml) t.back t.inner := by
  induction t with
  | int => exact LexicalCast.spec_int
  | vector t ih => exact ih.vector
  | list t ih => exact ih.list
  | set t ih => exact ih.set
  | map t ih => exact ih.map

/-- An integer or an empty container. -/
def Plain : (t : Ty) → t.Val → Prop
  | int => fun _ => True
  | vector _ => fun v => v = []
  | list _ => fun v => v = []
  | set _ => fun v => v = Ordered.empty
  | map _ => fun v => v = Ordered.empty

/-- Behind the maps there are integers, and sequences and sets of integers or
empty containers. -/
def Intact : (t : Ty) → t.Val → Prop
  | int => fun _ => True
  | vector t => fun (v : List t.Val) => ∀ i ∈ v, t.Plain i
  | list t => fun (v : List t.Val) => ∀ i ∈ v, t.Plain i
  | set t => fun v => ∀ i ∈ v.elems, t.Plain i
  | map t => fun v => ∀ i ∈ v.elems, t.Intact i.2

theorem inner_eq_iff (t : Ty) (v : t.Val) : t.inner v = v ↔ t.Plain v := by
  cases t with
  | int => exact ⟨fun _ => trivial, fun _ => rfl⟩
  | vector t => exact eq_comm
  | list t => exact eq_comm
  | set t => exact eq_comm
  | map t => exact eq_comm

theorem inner_inner (t : Ty) (v : t.Val) : t.inner (t.inner v) = t.inner v := by
  cases t <;> rfl

theorem map_eq_self_iff {α : Type} {f : α → α} {l : List α} : l.map f = l ↔ ∀ i ∈ l, f i = i := by
  induction l with
  | nil => simp
  | cons a l ih => rw [List.map_cons, List.cons.injEq, ih, List.forall_mem_cons]

theorem back_eq_iff (t : Ty) (v : t.Val) : t.back v = v ↔ t.Intact v := by
  induction t with
  | int => exact ⟨fun _ => trivial, fun _ => rfl⟩
  | vector t => exact map_eq_self_iff.trans (forall₂_congr fun i _ => t.inner_eq_iff i)
  | list t => exact map_eq_self_iff.trans (forall₂_congr fun i _ => t.inner_eq_iff i)
  | set t =>
    constructor
    · intro h i hi
      have hin : i ∈ v.elems.map t.inner := by
        rw [← h] at hi
        exact Ordered.mem_ofList hi
      obtain ⟨j, -, rfl⟩ := List.mem_map.1 hin
      exact (t.inner_eq_iff _).1 (t.inner_inner j)
    · intro h
      have hmap : v.elems.map t.inner = v.elems := map_eq_self_iff.2 fun i hi => (t.inner_eq_iff i).2 (h i hi)
      show Ordered.ofList (v.elems.map t.inner) = v
      rw [hmap]
      exact Ordered.ext_elems (Ordered.elems_ofList v.sorted)
  | map t ih =>
    have hsorted : Sorted (LexicalCast.byKey t.Val).lt (v.elems.map fun i => (i.1, t.back i.2)) :=
      List.pairwise_map.2 v.sorted
    have hback : ((map t).back v).elems = v.elems.map fun i => (i.1, t.back i.2) := Ordered.elems_ofList hsorted
    constructor
    · intro h i hi
      rw [h] at hback
      have := map_eq_self_iff.1 hback.symm i hi
      exact (ih i.2).1 (congrArg Prod.snd this)
    · intro h
      refine Ordered.ext_elems (hback.trans (map_eq_self_iff.2 fun i hi => ?_))
      rw [(ih i.2).2 (h i hi)]

/-- A value comes back from its text exactly when every container that is an
element of a sequence or a set is empty: the text of an element becomes a
scalar, while the text of a value of a map becomes a node. -/
theorem roundTrips_iff (yaml : Format) (t : Ty) (v : t.Val) :
    ((t.cast yaml).toString v).bind (t.cast yaml).fromString = some v ↔ t.Intact v := by
  rw [(t.spec yaml).toString, Option.bind_some, (t.spec yaml).fromString, Option.some.injEq, back_eq_iff]

/-- The value `{{1}}` -/
def nested : (vector (vector int)).Val := ([[1]] : List (List Int32))

/-- A vector in a vector becomes an empty one. -/
theorem not_roundTrips :
    ∃ yaml : Format,
      yaml.emit (.seq [.scalar (ascii "1")]) = ascii "- 1" ∧
      ((vector (vector int)).cast yaml).toString nested = some (ascii "- \"- 1\"") ∧
      ((vector (vector int)).cast yaml).fromString (ascii "- \"- 1\"") ≠ some nested := by
  let first := FlowText.format.relabel (Equiv.swap (ascii "[1,]") (ascii "- 1"))
    (Format.swap_signed ⟨91, by decide, by decide⟩ ⟨32, by decide, by decide⟩)
  let yaml := first.relabel (Equiv.swap (ascii "[\"- 1\",]") (ascii "- \"- 1\""))
    (Format.swap_signed ⟨91, by decide, by decide⟩ ⟨32, by decide, by decide⟩)
  have hinner : yaml.emit (.seq [.scalar (ascii "1")]) = ascii "- 1" := by decide
  have houter : yaml.emit (.seq [.scalar (ascii "- 1")]) = ascii "- \"- 1\"" := by decide
  have hnode : (vector (vector int)).node yaml nested =
      .seq [.scalar (yaml.emit (.seq [.scalar (yaml.emit (.scalar (signed 1)))]))] := rfl
  have htext : yaml.emit ((vector (vector int)).node yaml nested) = ascii "- \"- 1\"" := by
    rw [hnode, yaml.emit_number, show signed 1 = ascii "1" by decide, hinner, houter]
  have hspec := (vector (vector int)).spec yaml
  refine ⟨yaml, hinner, htext ▸ hspec.toString nested, fun h => ?_⟩
  have hback := hspec.fromString nested
  rw [htext, h, Option.some.injEq, eq_comm, back_eq_iff] at hback
  exact absurd (hback [(1 : Int32)] List.mem_cons_self) (List.cons_ne_nil _ _)

end Ty

end Linko.Config

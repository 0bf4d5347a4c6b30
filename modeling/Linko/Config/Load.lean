import Linko.Config.Cast
import Linko.Config.Var
/-!
# Loading a configuration

`Config::LoadFromYaml`: the tree is flattened to names and nodes, and the
variables with these names are set.
-/

namespace Linko.Config

open CString Yaml

/-- The characters of a name. -/
def nameChar (c : UInt8) : Bool := (97 ≤ c && c ≤ 122) || c == 46 || c == 95 || (48 ≤ c && c ≤ 57)

/-- The name below a key. -/
def below (pre key : Bytes) : Bytes := if pre = [] then key else pre ++ 46 :: key

mutual
/-- `ListAllMember`, with what it appends to `output`. -/
def listAllMember (pre : Bytes) : Node → List (Bytes × Node)
  | .null => if pre.all nameChar then [(pre, .null)] else []
  | .scalar text => if pre.all nameChar then [(pre, .scalar text)] else []
  | .seq items => if pre.all nameChar then [(pre, .seq items)] else []
  | .map pairs => if pre.all nameChar then (pre, .map pairs) :: listAllMembers pre pairs else []

/-- The loop over the pairs of a map. -/
def listAllMembers (pre : Bytes) : List (Bytes × Node) → List (Bytes × Node)
  | [] => []
  | (key, n) :: pairs => listAllMember (below pre key) n ++ listAllMembers pre pairs
end

/-- `setValue`, the two sections one after the other. -/
def ConfigVar.setValue {T : Type} [DecidableEq T] (c : ConfigVar T) (val : T) : ConfigVar T :=
  match c.notify val with
  | none => c
  | some c => c.assign val

/-- A variable of any type, with its `FormStr`. -/
structure ConfigVarBase where
  T : Type
  eq : DecidableEq T
  formStr : Bytes → Option T
  var : ConfigVar T

/-- `fromString`; nothing happens when the conversion throws. -/
def ConfigVarBase.fromString (c : ConfigVarBase) (val : Bytes) : ConfigVarBase :=
  match c.formStr val with
  | none => c
  | some v => let _ := c.eq; { c with var := c.var.setValue v }

/-- The variables by their names. -/
abbrev ConfigVarMap := Bytes → Option ConfigVarBase

/-- The variables, and the names and texts of the calls of `fromString`. -/
structure Loading where
  datas : ConfigVarMap
  passed : List (Bytes × Bytes)

section Load

variable (yaml : Format)

/-- What is passed for a node. -/
def textOf : Node → Bytes
  | .scalar text => text
  | n => yaml.emit n

/-- One round of the loop of `LoadFromYaml`. -/
def visit (s : Loading) (i : Bytes × Node) : Loading :=
  if i.1 = [] then s
  else
    let key := i.1.map tolower
    match s.datas key with
    | none => s
    | some var =>
      ⟨Function.update s.datas key (some (var.fromString (textOf yaml i.2))), s.passed ++ [(key, textOf yaml i.2)]⟩

def loadFromYaml (datas : ConfigVarMap) (root : Node) : Loading := (listAllMember [] root).foldl (visit yaml) ⟨datas, []⟩

end Load

/-! ## The nodes behind keys -/

mutual
/-- The nodes that are reached through the keys of maps, before those below
them, each with the keys on the way. -/
def reached (keys : List Bytes) : Node → List (List Bytes × Node)
  | .null => [(keys, .null)]
  | .scalar text => [(keys, .scalar text)]
  | .seq items => [(keys, .seq items)]
  | .map pairs => (keys, .map pairs) :: reachedPairs keys pairs

def reachedPairs (keys : List Bytes) : List (Bytes × Node) → List (List Bytes × Node)
  | [] => []
  | (key, n) :: pairs => reached (keys ++ [key]) n ++ reachedPairs keys pairs
end

/-- The keys joined with dots. -/
def path (keys : List Bytes) : Bytes := [46].intercalate keys

/-- The nodes that have a name, behind one key at least. -/
def named (root : Node) : List (Bytes × Node) :=
  ((reached [] root).filter fun r => r.1 ≠ [] ∧ (path r.1).all nameChar).map fun r => (path r.1, r.2)

/-- The nodes with the name of a variable. -/
def nodesOf (root : Node) (name : Bytes) : List Node :=
  ((named root).filter fun i => i.1 = name).map Prod.snd

/-! ## The flattened tree -/

theorem path_cons (key : Bytes) {keys : List Bytes} (h : keys ≠ []) : path (key :: keys) = key ++ 46 :: path keys := by
  obtain ⟨k, ks, rfl⟩ := List.exists_cons_of_ne_nil h
  rw [path, List.intercalate_cons_cons, path]
  simp

theorem path_append {keys : List Bytes} (h : keys ≠ []) (key : Bytes) : path (keys ++ [key]) = path keys ++ 46 :: key := by
  induction keys with
  | nil => exact absurd rfl h
  | cons k keys ih =>
    rw [List.cons_append, path_cons k (by simp)]
    by_cases hk : keys = []
    · subst hk
      simp [path]
    · rw [ih hk, path_cons k hk, List.append_assoc, List.cons_append]

theorem path_eq_nil {keys : List Bytes} (h : [] ∉ keys) : path keys = [] ↔ keys = [] := by
  refine ⟨fun hp => ?_, fun hk => hk ▸ rfl⟩
  cases keys with
  | nil => rfl
  | cons k keys =>
    have hne : k ≠ [] := fun hk => h (hk ▸ List.mem_cons_self)
    by_cases hk : keys = []
    · subst hk
      exact absurd (by simpa [path] using hp) hne
    · rw [path_cons k hk] at hp
      exact absurd (List.append_eq_nil_iff.1 hp).1 hne

theorem path_concat {keys : List Bytes} (h : [] ∉ keys) (key : Bytes) : path (keys ++ [key]) = below (path keys) key := by
  by_cases hk : keys = []
  · subst hk
    simp [path, below]
  · rw [below, if_neg (mt (path_eq_nil h).1 hk), path_append hk]

/-- What is below a name that is not valid is not valid. -/
theorem below_invalid {pre key : Bytes} (h : pre.all nameChar = false) : (below pre key).all nameChar = false := by
  have hne : pre ≠ [] := by
    rintro rfl
    cases h
  rw [below, if_neg hne, List.all_append, h, Bool.false_and]

mutual
theorem reached_keys {keys : List Bytes} {n : Node} {r : List Bytes × Node} (hr : r ∈ reached keys n) :
    ∃ more, r.1 = keys ++ more := by
  cases n with
  | map pairs =>
    rw [reached] at hr
    rcases List.mem_cons.1 hr with rfl | hr
    · exact ⟨[], (List.append_nil _).symm⟩
    · exact reachedPairs_keys hr
  | _ =>
    rw [reached, List.mem_singleton] at hr
    exact ⟨[], by rw [hr, List.append_nil]⟩

theorem reachedPairs_keys {keys : List Bytes} {pairs : List (Bytes × Node)} {r : List Bytes × Node}
    (hr : r ∈ reachedPairs keys pairs) : ∃ more, r.1 = keys ++ more := by
  cases pairs with
  | nil =>
    rw [reachedPairs] at hr
    cases hr
  | cons p pairs =>
    obtain ⟨key, n⟩ := p
    rw [reachedPairs] at hr
    rcases List.mem_append.1 hr with hr | hr
    · obtain ⟨more, hmore⟩ := reached_keys hr
      exact ⟨key :: more, by rw [hmore, List.append_assoc]; rfl⟩
    · exact reachedPairs_keys hr
end

theorem path_invalid {keys more : List Bytes} (h : [] ∉ keys ++ more) (hp : (path keys).all nameChar = false) :
    (path (keys ++ more)).all nameChar = false := by
  induction more generalizing keys with
  | nil => rwa [List.append_nil]
  | cons key more ih =>
    rw [List.append_cons] at h ⊢
    have hkeys : [] ∉ keys := fun hin => h (List.mem_append_left _ (List.mem_append_left _ hin))
    exact ih h (by rw [path_concat hkeys]; exact below_invalid hp)

/-- No node behind a name that is not valid has a valid one. -/
theorem filter_invalid {keys : List Bytes} {rs : List (List Bytes × Node)} (hrs : ∀ r ∈ rs, ∃ more, r.1 = keys ++ more)
    (h : ∀ r ∈ rs, [] ∉ r.1) (hp : (path keys).all nameChar = false) :
    (rs.map fun r => (path r.1, r.2)).filter (fun i => i.1.all nameChar) = [] := by
  rw [List.filter_eq_nil_iff]
  intro i hi
  obtain ⟨r, hr, rfl⟩ := List.mem_map.1 hi
  obtain ⟨more, hmore⟩ := hrs r hr
  have hnone := h r hr
  rw [hmore] at hnone
  simp [hmore, path_invalid hnone hp]

mutual
theorem listAllMember_eq (keys : List Bytes) (n : Node) (h : ∀ r ∈ reached keys n, [] ∉ r.1) :
    listAllMember (path keys) n =
      ((reached keys n).map fun r => (path r.1, r.2)).filter fun i => i.1.all nameChar := by
  cases n with
  | map pairs =>
    cases hp : (path keys).all nameChar with
    | true =>
      have hpairs := listAllMembers_eq keys pairs (h (keys, .map pairs) (by rw [reached]; exact List.mem_cons_self))
        fun r hr => h r (by rw [reached]; exact List.mem_cons_of_mem _ hr)
      rw [listAllMember, if_pos hp, reached, List.map_cons, List.filter_cons, if_pos hp, hpairs]
    | false =>
      rw [filter_invalid (fun r hr => reached_keys hr) h hp, listAllMember, hp]
      rfl
  | _ =>
    rw [listAllMember, reached]
    cases hp : (path keys).all nameChar <;> simp [hp]

theorem listAllMembers_eq (keys : List Bytes) (pairs : List (Bytes × Node)) (hkeys : [] ∉ keys)
    (h : ∀ r ∈ reachedPairs keys pairs, [] ∉ r.1) :
    listAllMembers (path keys) pairs =
      ((reachedPairs keys pairs).map fun r => (path r.1, r.2)).filter fun i => i.1.all nameChar := by
  cases pairs with
  | nil => rw [listAllMembers, reachedPairs]; rfl
  | cons p pairs =>
    obtain ⟨key, n⟩ := p
    have hfirst := listAllMember_eq (keys ++ [key]) n fun r hr => h r (by
      rw [reachedPairs]
      exact List.mem_append_left _ hr)
    have hrest := listAllMembers_eq keys pairs hkeys fun r hr => h r (by
      rw [reachedPairs]
      exact List.mem_append_right _ hr)
    rw [listAllMembers, ← path_concat hkeys, hfirst, hrest, reachedPairs, List.map_append, List.filter_append]
end

/-- The loop skips the root, which has no name. -/
theorem named_eq {root : Node} (h : ∀ r ∈ reached [] root, [] ∉ r.1) :
    (listAllMember [] root).filter (fun i => i.1 ≠ []) = named root := by
  have hflat : listAllMember [] root = _ := listAllMember_eq [] root h
  rw [hflat, named, List.filter_filter, List.filter_map]
  congr 1
  refine List.filter_congr fun r hr => ?_
  rw [Bool.eq_iff_iff]
  simp only [Function.comp_apply, Bool.and_eq_true, decide_eq_true_eq, ne_eq, path_eq_nil (h r hr)]

theorem listAllMember_valid {root : Node} (h : ∀ r ∈ reached [] root, [] ∉ r.1) :
    ∀ i ∈ listAllMember [] root, i.1.all nameChar = true := by
  intro i hi
  have hflat : listAllMember [] root = _ := listAllMember_eq [] root h
  rw [hflat] at hi
  exact (List.mem_filter.1 hi).2

/-! ## The loop over them -/

variable {yaml : Format}

theorem tolower_name {name : Bytes} (h : name.all nameChar = true) : name.map tolower = name := by
  refine (List.map_congr_left fun c hc => ?_).trans (List.map_id _)
  have hchar := List.all_eq_true.1 h c hc
  simp only [nameChar, Bool.or_eq_true, Bool.and_eq_true, decide_eq_true_eq, beq_iff_eq] at hchar
  have hlower : ¬ (65 ≤ c ∧ c ≤ 90) := by
    rintro ⟨hlo, hhi⟩
    rcases hchar with ((⟨ha, -⟩ | rfl) | rfl) | ⟨-, h9⟩
    · exact absurd (UInt8.le_trans ha hhi) (by decide)
    · exact absurd hlo (by decide)
    · exact absurd hhi (by decide)
    · exact absurd (UInt8.le_trans hlo h9) (by decide)
  rw [tolower, if_neg hlower]
  rfl

theorem visit_passed (s : Loading) {i : Bytes × Node} (h : i.1.all nameChar = true) :
    (visit yaml s i).passed =
      s.passed ++ if i.1 ≠ [] ∧ (s.datas i.1).isSome then [(i.1, textOf yaml i.2)] else [] := by
  rw [visit, tolower_name h]
  by_cases hi : i.1 = []
  · simp [hi]
  · cases hvar : s.datas i.1 <;> simp [hi, hvar]

theorem visit_datas (s : Loading) {i : Bytes × Node} (h : i.1.all nameChar = true) (name : Bytes) :
    (visit yaml s i).datas name = (s.datas name).map fun var =>
      if i.1 ≠ [] ∧ i.1 = name then var.fromString (textOf yaml i.2) else var := by
  rw [visit, tolower_name h]
  by_cases hi : i.1 = []
  · simp [hi]
  · by_cases hname : i.1 = name
    · subst hname
      cases hvar : s.datas i.1 <;> simp [hi, hvar]
    · cases hvar : s.datas i.1 <;> simp [hi, hvar, hname, Function.update_of_ne (Ne.symm hname)]

theorem foldl_visit_datas {l : List (Bytes × Node)} (h : ∀ i ∈ l, i.1.all nameChar = true) (s : Loading)
    (name : Bytes) : (l.foldl (visit yaml) s).datas name = (s.datas name).map fun var =>
      ((l.filter fun i => i.1 ≠ [] ∧ i.1 = name).map fun i => textOf yaml i.2).foldl ConfigVarBase.fromString var := by
  induction l generalizing s with
  | nil => simp
  | cons i l ih =>
    obtain ⟨hi, hl⟩ := List.forall_mem_cons.1 h
    rw [List.foldl_cons, ih hl, visit_datas s hi, Option.map_map]
    congr 1
    funext var
    rw [Function.comp_apply, List.filter_cons]
    by_cases hin : i.1 ≠ [] ∧ i.1 = name
    · rw [if_pos hin, if_pos (decide_eq_true hin), List.map_cons, List.foldl_cons]
    · rw [if_neg hin, if_neg (mt of_decide_eq_true hin)]

theorem foldl_visit_passed {l : List (Bytes × Node)} (h : ∀ i ∈ l, i.1.all nameChar = true) (s : Loading) :
    (l.foldl (visit yaml) s).passed = s.passed ++
      (l.filter fun i => i.1 ≠ [] ∧ (s.datas i.1).isSome).map fun i => (i.1, textOf yaml i.2) := by
  induction l generalizing s with
  | nil => simp
  | cons i l ih =>
    obtain ⟨hi, hl⟩ := List.forall_mem_cons.1 h
    rw [List.foldl_cons, ih hl, visit_passed s hi, List.append_assoc]
    congr 1
    simp only [visit_datas s hi, Option.isSome_map]
    by_cases hin : i.1 ≠ [] ∧ (s.datas i.1).isSome <;> simp [hin]

/-! ## The values -/

theorem setValue_val {T : Type} [DecidableEq T] (c : ConfigVar T) (val : T) : (c.setValue val).val = val := by
  unfold ConfigVar.setValue ConfigVar.notify
  by_cases hv : val = c.val
  · rw [if_pos hv, hv]
  · rw [if_neg hv]
    rfl

/-- A conversion sets the value and nothing else about a variable. -/
theorem fromString_val (c : ConfigVarBase) (val : Bytes) :
    ∃ v : ConfigVar c.T, c.fromString val = { c with var := v } ∧ v.val = (c.formStr val).getD c.var.val := by
  unfold ConfigVarBase.fromString
  split
  · rename_i hnone
    exact ⟨c.var, rfl, by rw [hnone]; rfl⟩
  · rename_i w hsome
    exact ⟨_, rfl, by rw [hsome]; exact @setValue_val _ c.eq c.var w⟩

theorem foldl_fromString (c : ConfigVarBase) (texts : List Bytes) :
    ∃ v : ConfigVar c.T, texts.foldl ConfigVarBase.fromString c = { c with var := v } ∧
      v.val = (texts.filterMap c.formStr).getLast?.getD c.var.val := by
  induction texts generalizing c with
  | nil => exact ⟨c.var, rfl, rfl⟩
  | cons t texts ih =>
    obtain ⟨w, hw, hval⟩ := fromString_val c t
    obtain ⟨v, hv, hlast⟩ := ih { c with var := w }
    refine ⟨v, by rw [List.foldl_cons, hw, hv], ?_⟩
    rw [hlast, List.filterMap_cons]
    dsimp only
    cases ht : c.formStr t with
    | none => rw [hval, ht]; rfl
    | some x => rw [hval, ht, List.getLast?_cons]; rfl

/-- Loading passes to the variables exactly the nodes with their names, in the
order of the tree, and leaves each with what the last of its nodes that can be
converted gives, or with the value it had. -/
theorem loadFromYaml_exact (yaml : Format) (datas : ConfigVarMap) (root : Node)
    (hkeys : ∀ r ∈ reached [] root, [] ∉ r.1) :
    (loadFromYaml yaml datas root).passed =
        ((named root).filter fun i => (datas i.1).isSome).map (fun i => (i.1, textOf yaml i.2)) ∧
      ∀ name, (datas name = none → (loadFromYaml yaml datas root).datas name = none) ∧
        ∀ c, datas name = some c → ∃ v : ConfigVar c.T,
          (loadFromYaml yaml datas root).datas name = some { c with var := v } ∧
          v.getValue = ((nodesOf root name).filterMap fun n => c.formStr (textOf yaml n)).getLast?.getD
            c.var.getValue := by
  have hvalid := listAllMember_valid hkeys
  constructor
  · rw [loadFromYaml, foldl_visit_passed hvalid, List.nil_append, ← named_eq hkeys, List.filter_filter]
    congr 1
    refine List.filter_congr fun i _ => ?_
    simp [Bool.and_comm]
  · intro name
    have hdatas : (loadFromYaml yaml datas root).datas name = _ := foldl_visit_datas hvalid ⟨datas, []⟩ name
    have hnodes : ((listAllMember [] root).filter fun i => i.1 ≠ [] ∧ i.1 = name).map (fun i => textOf yaml i.2) =
        (nodesOf root name).map (textOf yaml) := by
      rw [nodesOf, ← named_eq hkeys, List.filter_filter, List.map_map]
      congr 1
      refine List.filter_congr fun i _ => ?_
      rw [Bool.eq_iff_iff]
      simp only [Bool.and_eq_true, decide_eq_true_eq, and_comm]
    rw [hnodes] at hdatas
    change (loadFromYaml yaml datas root).datas name = (datas name).map _ at hdatas
    refine ⟨fun hnone => by rw [hdatas, hnone]; rfl, fun c hc => ?_⟩
    obtain ⟨v, hv, hval⟩ := foldl_fromString c ((nodesOf root name).map (textOf yaml))
    refine ⟨v, by rw [hdatas, hc, Option.map_some, hv], ?_⟩
    rw [List.filterMap_map] at hval
    exact hval

/-- A variable with the default 8080. -/
def port : ConfigVarBase := ⟨Int32, inferInstance, LexicalCast.int.fromString, ⟨8080, []⟩⟩

def portOnly : ConfigVarMap := fun name => if name = ascii "system.port" then some port else none

/-- Two paths with one name, the second with a text that is no number, and a key
that is not valid. -/
def portTree : Node :=
  .map [(ascii "system", .map [(ascii "port", .scalar (ascii "9090")),
      (ascii "Old", .map [(ascii "port", .scalar (ascii "1"))])]),
    (ascii "system.port", .scalar (ascii "x"))]

theorem loadFromYaml_exact_port :
    (loadFromYaml FlowText.format portOnly portTree).passed =
        [(ascii "system.port", ascii "9090"), (ascii "system.port", ascii "x")] ∧
      ∃ v : ConfigVar Int32, (loadFromYaml FlowText.format portOnly portTree).datas (ascii "system.port") =
          some { port with var := v } ∧ v.getValue = 9090 := by
  obtain ⟨hpassed, hdatas⟩ := loadFromYaml_exact FlowText.format portOnly portTree (by decide)
  obtain ⟨v, hv, hval⟩ := (hdatas (ascii "system.port")).2 port rfl
  exact ⟨hpassed.trans (by decide), v, hv, hval.trans rfl⟩

end Linko.Config

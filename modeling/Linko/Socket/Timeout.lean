import Linko.Hook.Timeouts
import Linko.Lib.CString
/-!
# The timeouts of `Socket`

`getSendTimeout` to `setRecvTimeout` of `socket.cc`, on a thread with hooks. The
getters read the context of the descriptor, which the hook of `setsockopt` writes.
-/

namespace Linko.Socket

open Hook Registers

variable {ρ : Type}

/-- `struct timeval tv{ int(v / 1000), int(v % 1000 * 1000) }` -/
def timeval (v : Int) : Int × Int := (CString.toInt (v.tdiv 1000), CString.toInt (v.tmod 1000 * 1000))

variable (os : Os ρ) (thread : Thread) (a : Addr) (sock : Int) (p : Process ρ)

/-- `setOption` with a `timeval`, which is at the address `a`. -/
def setOption (level option : Int) (value : Int × Int) : Option (Process ρ × Bool) :=
  match setsockopt os thread (p.storeTime a value) sock level option a 16 with
  | .returns p rt => some (p, rt = 0)
  | _ => none

def setSendTimeout (v : Int) : Option (Process ρ × Bool) :=
  setOption os thread a sock p solSocket soSndtimeo (timeval v)

def setRecvTimeout (v : Int) : Option (Process ρ × Bool) :=
  setOption os thread a sock p solSocket soSndtimeo (timeval v)

/-- The timeout of the context as `int64_t`, or -1 without a context. -/
def getTimeout (type : Int) : Option Int :=
  (get os p sock false).map fun r =>
    match r.2 with
    | some ctx => (ctx.getTimeout type).toBitVec.toInt
    | none => -1

def getSendTimeout : Option Int := getTimeout os sock p soSndtimeo

def getRecvTimeout : Option Int := getTimeout os sock p soRcvtimeo

/-! ## Sequences of calls -/

/-- `setSendTimeout(v)` or `setRecvTimeout(v)` -/
def set : Direction × Int → Option (Process ρ)
  | (.send, v) => (setSendTimeout os thread a sock p v).map Prod.fst
  | (.recv, v) => (setRecvTimeout os thread a sock p v).map Prod.fst

def sets (ops : List (Direction × Int)) : Option (Process ρ) :=
  ops.foldlM (fun p op => set os thread a sock p op) p

def timeout : Direction → Option Int
  | .send => getSendTimeout os sock p
  | .recv => getRecvTimeout os sock p

/-- After the calls each getter returns what was given last to its setter, and
no call has changed the other timeout. -/
structure Independent (ops : List (Direction × Int)) : Prop where
  own : ∃ q, sets os thread a sock p ops = some q ∧
    ∀ d, timeout os sock q d = some ((last d ops).getD (-1))
  other : ∀ before op, before ++ [op] <+: ops → ∀ q q', sets os thread a sock p before = some q →
    set os thread a sock q op = some q' → ∀ d, d ≠ op.1 → timeout os sock q' d = timeout os sock q d

/-! ## What a call does -/

variable {os} {thread} {a} {sock} {p} {q : Process ρ} {ctx : FdCtx}

/-- A timeout that fits the `int` of its seconds is stored as it is. -/
theorem timeval_eq {v : Int} (h₀ : 0 ≤ v) (hv : v < 2 ^ 31 * 1000) :
    ∃ tv : Timeval, timeval v = ((tv.sec : Int), (tv.usec : Int)) ∧ tv.stored = UInt64.ofNat v.toNat := by
  obtain ⟨n, rfl⟩ := Int.eq_ofNat_of_zero_le h₀
  have hsec : n / 1000 < 2 ^ 31 := by omega
  have husec : n % 1000 * 1000 < 2 ^ 31 := by omega
  refine ⟨⟨n / 1000, n % 1000 * 1000, by omega, by omega⟩, ?_, ?_⟩
  · have hdiv : (n : Int).tdiv 1000 = (n / 1000 : Nat) := rfl
    have hmod : (n : Int).tmod 1000 * 1000 = (n % 1000 * 1000 : Nat) := by
      rw [Int.natCast_mul]
      rfl
    unfold timeval
    rw [hdiv, hmod, CString.toInt_natCast hsec, CString.toInt_natCast husec]
  · unfold Timeval.stored
    congr 1
    simp only [Int.toNat_natCast]
    omega

/-- Both setters write the timeout for sending. -/
theorem set_spec (hhook : thread.hookEnable = true) (hentry : entry p.datas sock = some ctx)
    {op : Direction × Int} (h₀ : 0 ≤ op.2) (hv : op.2 < 2 ^ 31 * 1000) :
    ∃ q, set os thread a sock p op = some q ∧
      entry q.datas sock = some (ctx.setTimeout Direction.send.option (UInt64.ofNat op.2.toNat)) := by
  obtain ⟨d, v⟩ := op
  obtain ⟨tv, htv, hstored⟩ := timeval_eq h₀ hv
  obtain ⟨hfd, hlen⟩ := entry_range hentry
  obtain ⟨w, rt, hcall⟩ : ∃ w rt, setsockopt os thread (p.storeTime a (tv.sec, tv.usec)) sock solSocket soSndtimeo a 16 =
      .returns { (p.storeTime a (tv.sec, tv.usec)).put sock (ctx.setTimeout soSndtimeo tv.stored) with world := w } rt :=
    ⟨_, _, setsockopt_eq hhook hentry .send tv⟩
  refine ⟨_, ?_, entry_put (p := { p with world := w }) hfd hlen _⟩
  have hopt : setOption os thread a sock p solSocket soSndtimeo (timeval v) =
      some ({ p with world := w }.put sock (ctx.setTimeout soSndtimeo (UInt64.ofNat v.toNat)), decide (rt = 0)) := by
    unfold setOption
    rw [htv, hcall, hstored]
    rfl
  cases d with
  | recv => exact congrArg (Option.map Prod.fst) hopt
  | send => exact congrArg (Option.map Prod.fst) hopt

theorem timeout_entry (hentry : entry p.datas sock = some ctx) (d : Direction) :
    timeout os sock p d = some (ctx.getTimeout d.option).toBitVec.toInt := by
  have hget : get os p sock false = some (p, some ctx) := get_entry hentry false
  cases d with
  | recv =>
    unfold timeout getRecvTimeout getTimeout
    rw [hget]
    rfl
  | send =>
    unfold timeout getSendTimeout getTimeout
    rw [hget]
    rfl

/-- The registers hold what they would if every call had set the one for sending. -/
theorem sets_spec (a : Addr) (hhook : thread.hookEnable = true) (h : Tracked os sock p) (ops : List (Direction × Int))
    (hops : ∀ op ∈ ops, 0 ≤ op.2 ∧ op.2 < 2 ^ 31 * 1000) :
    ∃ q, sets os thread a sock p ops = some q ∧
      ∀ d, timeout os sock q d = some ((last d (ops.map fun op => (.send, op.2))).getD (-1)) := by
  obtain ⟨q, ctx, hq, hentry, hregs⟩ : ∃ q ctx, sets os thread a sock p ops = some q ∧
      entry q.datas sock = some ctx ∧ ∀ d : Direction, ctx.getTimeout d.option =
        ((last d (ops.map fun op => (.send, op.2))).map fun v : Int => UInt64.ofNat v.toNat).getD (-1) := by
    induction ops using List.reverseRecOn with
    | nil =>
      refine ⟨p, _, rfl, h.context.2, ?_⟩
      intro d
      cases d <;> rfl
    | append_singleton ops op ih =>
      obtain ⟨q, ctx, hq, hentry, hregs⟩ := ih fun x hx => hops x (by simp [hx])
      obtain ⟨h₀, hv⟩ := hops op (by simp)
      obtain ⟨q', hset, hentry'⟩ := set_spec (a := a) hhook hentry h₀ hv
      refine ⟨q', _, ?_, hentry', ?_⟩
      · unfold sets at hq ⊢
        rw [List.foldlM_append, hq]
        simpa using hset
      · intro d
        rw [List.map_append, List.map_singleton, last_snoc, getTimeout_setTimeout, hregs]
        split <;> simp
  refine ⟨q, hq, ?_⟩
  intro d
  rw [timeout_entry hentry, hregs]
  cases hlast : last d (ops.map fun op => (Direction.send, op.2)) with
  | none => rfl
  | some v =>
    obtain ⟨before, after, hsplit, -⟩ := last_eq_some.1 hlast
    obtain ⟨op, hop, hv⟩ := List.mem_map.1 (hsplit ▸ List.mem_append_right _ List.mem_cons_self)
    obtain ⟨-, rfl⟩ := Prod.mk.inj hv
    obtain ⟨h₀, hlt⟩ := hops op hop
    have hnat : (UInt64.ofNat op.2.toNat).toBitVec.toNat = op.2.toNat := UInt64.toNat_ofNat_of_lt'
      (by show _ < 2 ^ 64; omega)
    have hint : (UInt64.ofNat op.2.toNat).toBitVec.toInt = op.2 := by
      rw [BitVec.toInt_eq_toNat_of_lt (by omega), hnat]
      omega
    simp [hint]

/-- Where only `setSendTimeout` is called, it is what every call sets. -/
theorem map_send {ops : List (Direction × Int)} (h : ∀ op ∈ ops, op.1 = .send) :
    (ops.map fun op => (Direction.send, op.2)) = ops := by
  conv_rhs => rw [← List.map_id ops]
  apply List.map_congr_left
  intro op hop
  exact Prod.ext (h op hop).symm rfl

/-- After a call of `setRecvTimeout` the register for receiving still holds -1. -/
theorem Independent.all_send (hhook : thread.hookEnable = true) (h : Tracked os sock p) {ops : List (Direction × Int)}
    (hops : ∀ op ∈ ops, 0 ≤ op.2 ∧ op.2 < 2 ^ 31 * 1000) (hind : Independent os thread a sock p ops) :
    ∀ op ∈ ops, op.1 = .send := by
  obtain ⟨q, hq, htimeout⟩ := sets_spec a hhook h ops hops
  intro op hop
  obtain ⟨q', hq', hown⟩ := hind.own
  obtain rfl : q = q' := Option.some.inj (hq.symm.trans hq')
  cases hd : op.1 with
  | send => rfl
  | recv =>
    have hnone : last Direction.recv (ops.map fun op => (Direction.send, op.2)) = none := by
      rw [last_eq_none]
      intro w hw
      obtain ⟨x, -, rfl⟩ := List.mem_map.1 hw
      simp
    have hreg := (hown .recv).symm.trans (htimeout .recv)
    rw [hnone] at hreg
    cases hlast : last Direction.recv ops with
    | none => exact absurd hd (last_eq_none.1 hlast op hop)
    | some v =>
      obtain ⟨before, after, rfl, -⟩ := last_eq_some.1 hlast
      have hv := (hops (.recv, v) (by simp)).1
      simp [hlast] at hreg
      omega

/-- The timeouts are independent exactly if `setRecvTimeout` is not called. -/
theorem timeouts_independent_iff (hhook : thread.hookEnable = true) (h : Tracked os sock p)
    {ops : List (Direction × Int)} (hops : ∀ op ∈ ops, 0 ≤ op.2 ∧ op.2 < 2 ^ 31 * 1000) :
    Independent os thread a sock p ops ↔ ∀ op ∈ ops, op.1 = .send := by
  refine ⟨Independent.all_send hhook h hops, fun hall => ⟨?_, ?_⟩⟩
  · obtain ⟨q, hq, htimeout⟩ := sets_spec a hhook h ops hops
    refine ⟨q, hq, fun d => ?_⟩
    rw [htimeout, map_send hall]
  · intro before op hprefix r r' hr hset d hd
    have hin : ∀ x ∈ before ++ [op], x ∈ ops := fun x hx => hprefix.subset hx
    have hin' : ∀ x ∈ before, x ∈ ops := fun x hx => hin x (List.mem_append_left [op] hx)
    obtain ⟨r₁, hr₁, hbefore⟩ := sets_spec a hhook h before fun x hx => hops x (hin' x hx)
    obtain ⟨r₂, hr₂, hafter⟩ := sets_spec a hhook h (before ++ [op]) fun x hx => hops x (hin x hx)
    obtain rfl : r₁ = r := Option.some.inj (hr₁.symm.trans hr)
    have hlast : sets os thread a sock p (before ++ [op]) = some r' := by
      unfold sets at hr ⊢
      rw [List.foldlM_append, hr]
      simpa using hset
    obtain rfl : r₂ = r' := Option.some.inj (hr₂.symm.trans hlast)
    rw [hafter, hbefore, map_send fun x hx => hall x (hin x hx), map_send fun x hx => hall x (hin' x hx),
      last_snoc, if_neg (Ne.symm hd)]

/-- Two send timeouts, and none for receiving. -/
theorem independent_send : ∃ p, Tracked silent 3 p ∧
    Independent silent ⟨true, 1, some 1⟩ 8 3 p [(.send, 2500), (.send, 0)] := by
  obtain ⟨p, -, -, hp⟩ := exists_get silent
  exact ⟨p, hp, (timeouts_independent_iff rfl hp (by decide)).2 (by decide)⟩

/-- A receive timeout is stored as the send timeout. -/
theorem not_timeouts_independent : ¬ ∀ (os : Os Unit) (thread : Thread) a sock p ops, thread.hookEnable = true →
    Tracked os sock p → (∀ op ∈ ops, 0 ≤ op.2 ∧ op.2 < 2 ^ 31 * 1000) →
    Independent os thread a sock p ops := by
  intro hall
  obtain ⟨p, -, -, hp⟩ := exists_get silent
  have hind := hall silent ⟨true, 1, some 1⟩ 8 3 p [(.recv, 120000)] rfl hp (by decide)
  obtain ⟨q, hq, hown⟩ := hind.own
  have hhook : (⟨true, 1, some 1⟩ : Thread).hookEnable = true := rfl
  obtain ⟨q', hq', htimeout⟩ := sets_spec 8 hhook hp [(.recv, 120000)] (by decide)
  obtain rfl : q = q' := Option.some.inj (hq.symm.trans hq')
  exact absurd ((hown .recv).symm.trans (htimeout .recv)) (by decide)

end Linko.Socket

import Linko.Lib.Runs
import Mathlib.Algebra.GroupWithZero.Nat
import Mathlib.Data.List.Perm.Basic
import Mathlib.Data.List.Nodup
/-!
# The connection pool

`getConnection` and `ReleasePtr` of `HttpConnectionPool`, with any number of
calls under way at once. A call holds the lock of the pool only while it looks
through the idle connections or puts one back; the counter and the objects are
changed outside of it, and connections go down at any time.
-/

namespace Linko.Http

open Runs

structure PooledConnection where
  /-- `isConnected()` -/
  connected : Bool
  createTime : UInt64
  request : Nat
  deriving DecidableEq, Repr

/-- An `HttpConnection*` is the number of the object, in the order of creation. -/
structure HttpConnectionPool where
  maxAliveTime : UInt32
  maxRequest : UInt32
  conns : List Nat
  total : Int32
  /-- The objects, of which `made` have been created. -/
  objects : Nat → PooledConnection
  made : Nat
  /-- The connections that callers have. -/
  held : List Nat

namespace HttpConnectionPool

/-- A call under way, at the place where it goes on. -/
inductive Call where
  /-- `getConnection` has read the clock. -/
  | scan (nowMs : UInt64)
  /-- The loop that deletes the `n` of `invalid_conns`, and the `ptr` found. -/
  | delete (invalid : List Nat) (n : Nat) (ptr : Option Nat)
  | connect
  /-- `++m_total` -/
  | count (ptr : Nat)
  | handOut (ptr : Nat)
  /-- `ReleasePtr` begins. -/
  | release (ptr : Nat)
  | check (ptr : Nat)
  | deleteReleased (ptr : Nat)
  /-- `--m_total` -/
  | uncount
  | pushBack (ptr : Nat)
  deriving DecidableEq, Repr

inductive Event where
  /-- An idle connection passes the checks. -/
  | reused (ptr : Nat) (conn : PooledConnection) (nowMs : UInt64)
  | handedOut (ptr : Nat)
  | deleted (ptr : Nat)
  deriving DecidableEq, Repr

variable (pool : HttpConnectionPool)

/-- The checks of `getConnection`. -/
def valid (nowMs : UInt64) (ptr : Nat) : Bool :=
  let conn := pool.objects ptr
  conn.connected && !(conn.createTime + pool.maxAliveTime.toUInt64 < nowMs)

/-- The loop of `getConnection`: `invalid_conns`, `ptr` and what stays in
`m_conns`. -/
def scanLoop (ok : Nat → Bool) : List Nat → List Nat × Option Nat × List Nat
  | [] => ([], none, [])
  | conn :: conns =>
    if ok conn then ([], some conn, conns)
    else
      let (invalid, ptr, rest) := scanLoop ok conns
      (conn :: invalid, ptr, rest)

def setObject (ptr : Nat) (conn : PooledConnection) : HttpConnectionPool :=
  { pool with objects := Function.update pool.objects ptr conn }

/-- The next step of a call, where it goes on, and what is seen of it. `clock`
is what `GetCurrentMS` returns and `opens` whether lookup, socket and connect
succeed. -/
def advance (clock : UInt64) (opens : Bool) : Call → HttpConnectionPool × Option Call × List Event
  | .scan nowMs =>
    let (invalid, ptr, rest) := scanLoop (pool.valid nowMs) pool.conns
    ({ pool with conns := rest }, some (.delete invalid invalid.length ptr),
      ptr.toList.map fun conn => .reused conn (pool.objects conn) nowMs)
  | .delete (conn :: invalid) n ptr => (pool, some (.delete invalid n ptr), [.deleted conn])
  | .delete [] n ptr =>
    ({ pool with total := pool.total - Int32.ofNat n },
      some (match ptr with
        | some ptr => .handOut ptr
        | none => .connect), [])
  | .connect =>
    if opens then
      ({ pool.setObject pool.made ⟨true, clock, 0⟩ with made := pool.made + 1 }, some (.count pool.made), [])
    else (pool, none, [])
  | .count ptr => ({ pool with total := pool.total + 1 }, some (.handOut ptr), [])
  | .handOut ptr => ({ pool with held := ptr :: pool.held }, none, [.handedOut ptr])
  | .release ptr =>
    let conn := pool.objects ptr
    (pool.setObject ptr { conn with request := conn.request + 1 }, some (.check ptr), [])
  | .check ptr =>
    let conn := pool.objects ptr
    let spent := !conn.connected || conn.createTime + pool.maxAliveTime.toUInt64 ≤ clock ||
      pool.maxRequest.toNat ≤ conn.request
    (pool, some (if spent then .deleteReleased ptr else .pushBack ptr), [])
  | .deleteReleased ptr => (pool, some .uncount, [.deleted ptr])
  | .uncount => ({ pool with total := pool.total - 1 }, none, [])
  | .pushBack ptr => ({ pool with conns := pool.conns ++ [ptr] }, none, [])

@[simp] theorem setObject_conns (ptr : Nat) (conn : PooledConnection) :
    (pool.setObject ptr conn).conns = pool.conns := rfl

@[simp] theorem setObject_held (ptr : Nat) (conn : PooledConnection) :
    (pool.setObject ptr conn).held = pool.held := rfl

@[simp] theorem setObject_total (ptr : Nat) (conn : PooledConnection) :
    (pool.setObject ptr conn).total = pool.total := rfl

@[simp] theorem setObject_made (ptr : Nat) (conn : PooledConnection) :
    (pool.setObject ptr conn).made = pool.made := rfl

@[simp] theorem setObject_objects (ptr : Nat) (conn : PooledConnection) :
    (pool.setObject ptr conn).objects = Function.update pool.objects ptr conn := rfl

structure System where
  pool : HttpConnectionPool
  calls : List Call

inductive Action where
  /-- Somebody calls `getConnection`. -/
  | getConnection (nowMs : UInt64)
  /-- The last `shared_ptr` to a connection goes away. -/
  | releasePtr (ptr : Nat)
  | down (ptr : Nat)
  | advance (i : Nat) (clock : UInt64) (opens : Bool)
  deriving DecidableEq, Repr

def init (maxAliveTime maxRequest : UInt32) : System :=
  ⟨⟨maxAliveTime, maxRequest, [], 0, fun _ => ⟨false, 0, 0⟩, 0, []⟩, []⟩

def exec (s : System) : Action → Option (System × List Event)
  | .getConnection nowMs => some ({ s with calls := .scan nowMs :: s.calls }, [])
  | .releasePtr ptr =>
    if ptr ∈ s.pool.held then
      some (⟨{ s.pool with held := s.pool.held.erase ptr }, .release ptr :: s.calls⟩, [])
    else none
  | .down ptr =>
    some ({ s with pool := s.pool.setObject ptr { s.pool.objects ptr with connected := false } }, [])
  | .advance i clock opens =>
    (s.calls[i]?).map fun call =>
      let (pool, next, evs) := s.pool.advance clock opens call
      (⟨pool, next.toList ++ s.calls.eraseIdx i⟩, evs)

def step (s : System) (a : Action) : Option System := (exec s a).map Prod.fst

def events (s : System) (a : Action) : List Event := ((exec s a).map Prod.snd).getD []

/-! ## Where a connection is -/

/-- The connections in the hands of a call. -/
def Call.ptrs : Call → List Nat
  | .delete invalid _ ptr => invalid ++ ptr.toList
  | .count ptr | .handOut ptr | .release ptr | .check ptr | .deleteReleased ptr | .pushBack ptr => [ptr]
  | .scan _ | .connect | .uncount => []

/-- Those that may come to another release. -/
def Call.due : Call → List Nat
  | .delete _ _ ptr => ptr.toList
  | .count ptr | .handOut ptr | .release ptr | .pushBack ptr => [ptr]
  | .scan _ | .connect | .check _ | .deleteReleased _ | .uncount => []

/-- Those whose release has not yet been counted. -/
def Call.out : Call → List Nat
  | .release ptr => [ptr]
  | _ => []

/-- One for a connection that has been created. -/
def born (made c : Nat) : Nat := if c < made then 1 else 0

/-- What a call has still to take from the counter, or has taken from the pool
and still to give back. -/
def Call.weight : Call → Nat
  | .delete _ n ptr => n + ptr.toList.length
  | .handOut _ | .release _ | .check _ | .deleteReleased _ | .uncount | .pushBack _ => 1
  | .scan _ | .connect | .count _ => 0

namespace System

variable (s : System)

def places : List Nat := s.pool.conns ++ s.pool.held ++ s.calls.flatMap Call.ptrs

def due : List Nat := s.pool.conns ++ s.pool.held ++ s.calls.flatMap Call.due

def out : List Nat := s.pool.held ++ s.calls.flatMap Call.out

def counted : Nat := s.pool.conns.length + s.pool.held.length + (s.calls.map Call.weight).sum

end System

/-- Every connection is in one place or has been deleted once, the counter
counts them, and what has been handed out so often stays below the bound. -/
structure Booked (maxAliveTime maxRequest : UInt32) (s : System) (evs : List Event) : Prop where
  alive : s.pool.maxAliveTime = maxAliveTime
  bound : s.pool.maxRequest = maxRequest
  total : s.pool.total = Int32.ofNat s.counted
  place : ∀ c, evs.count (.deleted c) + s.places.count c = born s.pool.made c
  fresh : ∀ c, s.pool.made ≤ c → (s.pool.objects c).request = 0
  handed : ∀ c, evs.count (.handedOut c) = (s.pool.objects c).request + s.out.count c
  few : ∀ c, (s.pool.objects c).request + s.due.count c ≤ max 1 maxRequest.toNat
  reused : ∀ c conn nowMs, .reused c conn nowMs ∈ evs →
    conn.connected = true ∧ nowMs.toNat ≤ conn.createTime.toNat + maxAliveTime.toNat

/-! ## What a step of a call does -/

section

variable {pool pool' : HttpConnectionPool} {clock : UInt64} {opens : Bool} {call : Call} {next : Option Call}
  {evs : List Event} {e : Event}

/-- The loop cuts the list of idle connections. -/
theorem scanLoop_eq (ok : Nat → Bool) (conns : List Nat) :
    (scanLoop ok conns).1 ++ (scanLoop ok conns).2.1.toList ++ (scanLoop ok conns).2.2 = conns := by
  induction conns with
  | nil => rfl
  | cons conn conns ih =>
    rw [scanLoop]
    split
    · rfl
    · simpa using ih

theorem scanLoop_ok (ok : Nat → Bool) (conns : List Nat) : ∀ c ∈ (scanLoop ok conns).2.1, ok c = true := by
  induction conns with
  | nil => intro c hc; cases hc
  | cons conn conns ih =>
    rw [scanLoop]
    split
    · rename_i hok
      intro c hc
      cases hc
      exact hok
    · exact ih

theorem count_reused (ptr : Option Nat) (f : Nat → Event) (hf : ∀ c, f c ≠ e) :
    (ptr.toList.map f).count e = 0 := by
  rcases ptr with _ | ptr
  · rfl
  · simp [hf]

/-- No connection is lost or doubled: what leaves its places has been deleted,
and what is new has been created. -/
theorem advance_place (h : pool.advance clock opens call = (pool', next, evs)) (c : Nat) :
    evs.count
      (.deleted c) + (pool'.conns.count c + pool'.held.count c) + (next.toList.flatMap Call.ptrs).count c +
        born pool.made c =
      pool.conns.count c + pool.held.count c + call.ptrs.count c + born pool'.made c := by
  cases call with
  | scan nowMs =>
    have hcut := congrArg (List.count c) (scanLoop_eq (pool.valid nowMs) pool.conns)
    rcases hs : scanLoop (pool.valid nowMs) pool.conns with ⟨invalid, ptr, rest⟩
    simp only [advance, hs] at h
    cases h
    simp only [hs, List.count_append] at hcut
    rw [count_reused _ _ fun _ => by simp]
    simp only [Call.ptrs, Option.toList_some, List.flatMap_cons, List.flatMap_nil, List.append_nil,
      List.count_append, List.count_nil]
    omega
  | delete invalid n ptr =>
    rcases invalid with _ | ⟨conn, invalid⟩
    · cases h
      rcases ptr with _ | ptr <;> simp [Call.ptrs]
    · cases h
      simp [Call.ptrs, List.count_cons]
      omega
  | connect =>
    cases opens with
    | false =>
      cases h
      simp [Call.ptrs]
    | true =>
      cases h
      simp only [Call.ptrs, setObject_conns, setObject_held, List.count_nil, Option.toList_some,
        List.flatMap_cons, List.flatMap_nil, List.append_nil, List.count_singleton, beq_iff_eq, born]
      split <;> split <;> split <;> omega
  | count ptr =>
    cases h
    simp [Call.ptrs]
  | handOut ptr =>
    cases h
    simp [Call.ptrs, List.count_cons]
    omega
  | release ptr =>
    cases h
    simp only [Call.ptrs, setObject_conns, setObject_held, setObject_made, List.count_nil, Option.toList_some,
      List.flatMap_cons, List.flatMap_nil, List.append_nil]
    omega
  | check ptr =>
    cases h
    have hsame : ∀ spent : Bool, (if spent then Call.deleteReleased ptr else .pushBack ptr).ptrs = [ptr] := by
      intro spent
      cases spent <;> rfl
    simp only [Option.toList_some, List.flatMap_cons, List.flatMap_nil, List.append_nil, hsame, List.count_nil]
    simp [Call.ptrs]
  | deleteReleased ptr =>
    cases h
    simp [Call.ptrs, List.count_cons]
    omega
  | uncount =>
    cases h
    simp [Call.ptrs]
  | pushBack ptr =>
    cases h
    simp [Call.ptrs]
    omega

theorem advance_fixed (h : pool.advance clock opens call = (pool', next, evs)) :
    pool'.maxAliveTime = pool.maxAliveTime ∧ pool'.maxRequest = pool.maxRequest := by
  cases call with
  | delete invalid n ptr =>
    rcases invalid with _ | ⟨conn, invalid⟩
    · cases h
      exact ⟨rfl, rfl⟩
    · cases h
      exact ⟨rfl, rfl⟩
  | connect =>
    cases opens with
    | false =>
      cases h
      exact ⟨rfl, rfl⟩
    | true =>
      cases h
      exact ⟨rfl, rfl⟩
  | _ =>
    cases h
    exact ⟨rfl, rfl⟩

/-- The counter follows what the call has in its hands; `w` is what the other
calls have. -/
theorem advance_total (h : pool.advance clock opens call = (pool', next, evs)) {w : Nat}
    (ht : pool.total = Int32.ofNat (pool.conns.length + pool.held.length + call.weight + w)) :
    pool'.total = Int32.ofNat
      (pool'.conns.length + pool'.held.length + (next.toList.map Call.weight).sum + w) := by
  cases call with
  | scan nowMs =>
    have hcut := congrArg List.length (scanLoop_eq (pool.valid nowMs) pool.conns)
    rcases hs : scanLoop (pool.valid nowMs) pool.conns with ⟨invalid, ptr, rest⟩
    simp only [advance, hs] at h
    cases h
    simp only [hs, List.length_append] at hcut
    rw [ht]
    refine congrArg Int32.ofNat ?_
    simp only [Option.toList_some, List.map_cons, List.map_nil, List.sum_cons, List.sum_nil, Call.weight]
    omega
  | delete invalid n ptr =>
    rcases invalid with _ | ⟨conn, invalid⟩
    · cases h
      -- all `n` are taken off at once, after the last delete
      simp only [Call.weight] at ht
      have hle : n ≤ pool.conns.length + pool.held.length + (n + ptr.toList.length) + w := by omega
      rw [ht, ← Int32.ofNat_sub _ _ hle]
      refine congrArg Int32.ofNat ?_
      rcases ptr with _ | ptr <;> simp [Call.weight] <;> omega
    · cases h
      exact ht
  | connect =>
    cases opens with
    | false =>
      cases h
      exact ht
    | true =>
      cases h
      exact ht
  | count ptr =>
    cases h
    simp only [Call.weight] at ht
    rw [ht, show (1 : Int32) = Int32.ofNat 1 from rfl, ← Int32.ofNat_add]
    refine congrArg Int32.ofNat ?_
    simp only [Option.toList_some, List.map_cons, List.map_nil, List.sum_cons, List.sum_nil, Call.weight]
    omega
  | handOut ptr =>
    cases h
    rw [ht]
    refine congrArg Int32.ofNat ?_
    simp only [Option.toList_none, List.map_nil, List.sum_nil, Call.weight, List.length_cons]
    omega
  | release ptr =>
    cases h
    exact ht
  | check ptr =>
    cases h
    rw [ht]
    refine congrArg Int32.ofNat ?_
    simp only [Option.toList_some, List.map_cons, List.map_nil, List.sum_cons, List.sum_nil]
    split <;> rfl
  | deleteReleased ptr =>
    cases h
    exact ht
  | uncount =>
    cases h
    simp only [Call.weight] at ht
    have hle : 1 ≤ pool.conns.length + pool.held.length + 1 + w := by omega
    rw [ht, show (1 : Int32) = Int32.ofNat 1 from rfl, ← Int32.ofNat_sub _ _ hle]
    refine congrArg Int32.ofNat ?_
    simp only [Option.toList_none, List.map_nil, List.sum_nil]
    omega
  | pushBack ptr =>
    cases h
    rw [ht]
    refine congrArg Int32.ofNat ?_
    simp only [Option.toList_none, List.map_nil, List.sum_nil, Call.weight, List.length_append,
      List.length_singleton]
    omega

/-- A connection has been handed out as often as its releases were counted, and
once more while it is out. -/
theorem advance_handed (h : pool.advance clock opens call = (pool', next, evs))
    (hfresh : (pool.objects pool.made).request = 0) (c : Nat) :
    evs.count (.handedOut c) + (pool.objects c).request + (pool.held.count c + call.out.count c) =
      (pool'.objects c).request + (pool'.held.count c + (next.toList.flatMap Call.out).count c) := by
  cases call with
  | scan nowMs =>
    cases h
    rw [count_reused _ _ fun _ => by simp]
    simp [Call.out]
  | delete invalid n ptr =>
    rcases invalid with _ | ⟨conn, invalid⟩
    · cases h
      rcases ptr with _ | ptr <;> simp [Call.out]
    · cases h
      simp [Call.out]
  | connect =>
    cases opens with
    | false =>
      cases h
      simp [Call.out]
    | true =>
      cases h
      rcases eq_or_ne c pool.made with rfl | hc
      · simp [Call.out, hfresh]
      · simp [Call.out, hc]
  | count ptr =>
    cases h
    simp [Call.out]
  | handOut ptr =>
    cases h
    simp [Call.out, List.count_cons]
    omega
  | release ptr =>
    cases h
    rcases eq_or_ne c ptr with rfl | hc
    · simp [Call.out]
      omega
    · simp [Call.out, hc, Ne.symm hc]
  | check ptr =>
    cases h
    simp only [Option.toList_some, List.flatMap_cons, List.flatMap_nil, List.append_nil]
    split <;> simp [Call.out]
  | deleteReleased ptr =>
    cases h
    simp [Call.out]
  | uncount =>
    cases h
    simp [Call.out]
  | pushBack ptr =>
    cases h
    simp [Call.out]

/-- A connection that may be released once more has had less releases than the
bound; `d` of the other calls' `r` references to it are such. -/
theorem advance_few (h : pool.advance clock opens call = (pool', next, evs)) {c d r : Nat} (hdr : d ≤ r)
    (hplace : pool.conns.count c + pool.held.count c + call.ptrs.count c + r ≤ born pool.made c)
    (hfresh : (pool.objects pool.made).request = 0)
    (hfew : (pool.objects c).request + (pool.conns.count c + pool.held.count c + call.due.count c + d) ≤
      max 1 pool.maxRequest.toNat) :
    (pool'.objects c).request +
        (pool'.conns.count c + pool'.held.count c + (next.toList.flatMap Call.due).count c + d) ≤
      max 1 pool.maxRequest.toNat := by
  cases call with
  | scan nowMs =>
    have hcut := congrArg (List.count c) (scanLoop_eq (pool.valid nowMs) pool.conns)
    rcases hs : scanLoop (pool.valid nowMs) pool.conns with ⟨invalid, ptr, rest⟩
    simp only [advance, hs] at h
    cases h
    simp only [hs, List.count_append] at hcut
    simp only [Call.due, Option.toList_some, List.flatMap_cons, List.flatMap_nil, List.append_nil,
      List.count_nil] at hfew ⊢
    omega
  | delete invalid n ptr =>
    rcases invalid with _ | ⟨conn, invalid⟩
    · cases h
      rcases ptr with _ | ptr
      · simpa [Call.due] using hfew
      · simpa [Call.due] using hfew
    · cases h
      simpa [Call.due] using hfew
  | connect =>
    cases opens with
    | false =>
      cases h
      simpa [Call.due] using hfew
    | true =>
      cases h
      rcases eq_or_ne c pool.made with rfl | hc
      · -- the object is new, nobody refers to it
        simp only [born, Nat.lt_irrefl, if_false] at hplace
        simp only [setObject_objects, setObject_conns, setObject_held, Function.update_self, Option.toList_some,
          List.flatMap_cons, List.flatMap_nil, List.append_nil, Call.due, List.count_singleton_self]
        omega
      · simpa [Call.due, hc, Ne.symm hc] using hfew
  | count ptr =>
    cases h
    simpa [Call.due] using hfew
  | handOut ptr =>
    cases h
    simp only [Call.due, List.count_cons, List.count_nil, Option.toList_none, List.flatMap_nil] at hfew ⊢
    omega
  | release ptr =>
    cases h
    rcases eq_or_ne c ptr with rfl | hc
    · simp only [Call.due, List.count_singleton_self] at hfew
      simp only [setObject_objects, setObject_conns, setObject_held, Function.update_self, Option.toList_some,
        List.flatMap_cons, List.flatMap_nil, List.append_nil, Call.due, List.count_nil]
      omega
    · simpa [Call.due, hc, Ne.symm hc] using hfew
  | check ptr =>
    cases h
    simp only [Option.toList_some, List.flatMap_cons, List.flatMap_nil, List.append_nil]
    simp only [Call.due, List.count_nil] at hfew
    split
    · simpa [Call.due] using hfew
    · rename_i hover
      rcases eq_or_ne c ptr with rfl | hc
      · -- nobody else refers to it, and its releases are below the bound
        have hborn : born pool.made c ≤ 1 := by
          unfold born
          split <;> omega
        simp only [Call.ptrs, List.count_singleton_self] at hplace
        simp only [Bool.or_eq_true, decide_eq_true_eq, not_or, Nat.not_le] at hover
        simp only [Call.due, List.count_singleton_self]
        omega
      · simpa [Call.due, hc, Ne.symm hc] using hfew
  | deleteReleased ptr =>
    cases h
    simpa [Call.due] using hfew
  | uncount =>
    cases h
    simpa [Call.due] using hfew
  | pushBack ptr =>
    cases h
    simp only [Call.due, List.count_append, Option.toList_none, List.flatMap_nil, List.count_nil] at hfew ⊢
    omega

/-- What the checks of `getConnection` let through. -/
theorem valid_bounds {nowMs : UInt64} {ptr : Nat} (h : pool.valid nowMs ptr = true) :
    (pool.objects ptr).connected = true ∧
      nowMs.toNat ≤ (pool.objects ptr).createTime.toNat + pool.maxAliveTime.toNat := by
  simp only [valid, Bool.and_eq_true, Bool.not_eq_true', decide_eq_false_iff_not, UInt64.not_lt,
    UInt64.le_iff_toNat_le, UInt64.toNat_add, UInt32.toNat_toUInt64] at h
  exact ⟨h.1, Nat.le_trans h.2 (Nat.mod_le _ _)⟩

/-- Only the objects that there are have been released. -/
theorem advance_fresh (h : pool.advance clock opens call = (pool', next, evs))
    (hptrs : ∀ c ∈ call.ptrs, c < pool.made)
    (hfresh : ∀ c, pool.made ≤ c → (pool.objects c).request = 0) :
    ∀ c, pool'.made ≤ c → (pool'.objects c).request = 0 := by
  cases call with
  | delete invalid n ptr =>
    rcases invalid with _ | ⟨d, invalid⟩
    · cases h
      exact hfresh
    · cases h
      exact hfresh
  | connect =>
    cases opens with
    | false =>
      cases h
      exact hfresh
    | true =>
      cases h
      intro c hc
      have hlt : pool.made < c := hc
      have hne : c ≠ pool.made := Nat.ne_of_gt hlt
      simpa [hne] using hfresh c (Nat.le_of_lt hlt)
  | release ptr =>
    cases h
    intro c hc
    have hlt : ptr < pool.made := hptrs ptr List.mem_cons_self
    have hne : c ≠ ptr := Nat.ne_of_gt (Nat.lt_of_lt_of_le hlt hc)
    simpa [hne] using hfresh c hc
  | _ =>
    cases h
    exact hfresh

theorem advance_reused (h : pool.advance clock opens call = (pool', next, evs)) {c : Nat}
    {conn : PooledConnection} {nowMs : UInt64} (he : .reused c conn nowMs ∈ evs) :
    conn.connected = true ∧ nowMs.toNat ≤ conn.createTime.toNat + pool.maxAliveTime.toNat := by
  cases call with
  | scan now =>
    cases h
    obtain ⟨ptr, hptr, hev⟩ := List.mem_map.1 he
    cases hev
    exact valid_bounds (scanLoop_ok _ _ _ (Option.mem_toList.1 hptr))
  | delete invalid n ptr =>
    rcases invalid with _ | ⟨d, invalid⟩
    · cases h
      cases he
    · cases h
      simp at he
  | connect =>
    cases opens with
    | false =>
      cases h
      cases he
    | true =>
      cases h
      cases he
  | _ =>
    cases h
    simp at he

end

/-! ## Runs -/

section

variable {maxAliveTime maxRequest : UInt32} {s s' : System} {evs : List Event}

theorem booked_init : Booked maxAliveTime maxRequest (init maxAliveTime maxRequest) [] := by
  refine ⟨rfl, rfl, rfl, ?_, ?_, ?_, ?_, ?_⟩
  · intro c
    simp [System.places, init, born]
  · intro c _
    rfl
  · intro c
    simp [System.out, init]
  · intro c
    simp [System.due, init]
  · intro c conn nowMs he
    cases he

theorem Call.due_le_ptrs (call : Call) (c : Nat) : call.due.count c ≤ call.ptrs.count c := by
  cases call <;> simp [Call.due, Call.ptrs]

theorem due_le_ptrs (calls : List Call) (c : Nat) :
    (calls.flatMap Call.due).count c ≤ (calls.flatMap Call.ptrs).count c := by
  induction calls with
  | nil => exact Nat.le_refl _
  | cons call calls ih =>
    simp only [List.flatMap_cons, List.count_append]
    exact Nat.add_le_add (call.due_le_ptrs c) ih

theorem out_le_due (calls : List Call) (c : Nat) :
    (calls.flatMap Call.out).count c ≤ (calls.flatMap Call.due).count c := by
  induction calls with
  | nil => exact Nat.le_refl _
  | cons call calls ih =>
    have hcall : call.out.count c ≤ call.due.count c := by
      cases call <;> simp [Call.out, Call.due]
    simp only [List.flatMap_cons, List.count_append]
    exact Nat.add_le_add hcall ih

/-- A step of a call, in a system with other calls. -/
theorem Booked.advance (h : Booked maxAliveTime maxRequest s evs) {i : Nat} {call : Call}
    (hi : s.calls[i]? = some call) {clock : UInt64} {opens : Bool} {pool' : HttpConnectionPool}
    {next : Option Call}
    {new : List Event} (ha : s.pool.advance clock opens call = (pool', next, new)) :
    Booked maxAliveTime maxRequest ⟨pool', next.toList ++ s.calls.eraseIdx i⟩ (evs ++ new) := by
  obtain ⟨hlt, hget⟩ := List.getElem?_eq_some_iff.1 hi
  have hperm : (call :: s.calls.eraseIdx i).Perm s.calls := hget ▸ List.getElem_cons_eraseIdx_perm hlt
  have hcount : ∀ (f : Call → List Nat) (c : Nat), (s.calls.flatMap f).count c =
      (f call).count c + ((s.calls.eraseIdx i).flatMap f).count c := by
    intro f c
    rw [← (hperm.flatMap_right f).count_eq, List.flatMap_cons, List.count_append]
  have hsum : (s.calls.map Call.weight).sum = call.weight + ((s.calls.eraseIdx i).map Call.weight).sum := by
    rw [← (hperm.map Call.weight).sum_nat, List.map_cons, List.sum_cons]
  obtain ⟨halive, hbound⟩ := advance_fixed ha
  have hfresh := h.fresh _ (Nat.le_refl _)
  refine ⟨halive.trans h.alive, hbound.trans h.bound, ?_, ?_, ?_, ?_, ?_, ?_⟩
  -- `w` is what the calls have that stand still
  · have ht := h.total
    rw [System.counted, hsum, ← Nat.add_assoc] at ht
    rw [advance_total ha ht, System.counted, List.map_append, List.sum_append_nat, ← Nat.add_assoc]
  · intro c
    have hp := h.place c
    have hstep := advance_place ha c
    simp only [System.places, List.count_append, hcount, List.flatMap_append] at hp ⊢
    omega
  · refine advance_fresh ha ?_ h.fresh
    intro c hc
    have hp := h.place c
    have hpos : 0 < call.ptrs.count c := List.count_pos_iff.2 hc
    simp only [System.places, List.count_append, hcount, born] at hp
    by_contra hge
    rw [if_neg hge] at hp
    omega
  · intro c
    have hh := h.handed c
    have hstep := advance_handed ha hfresh c
    simp only [System.out, List.count_append, hcount, List.flatMap_append] at hh ⊢
    omega
  · intro c
    have hp := h.place c
    have hf := h.few c
    simp only [System.places, System.due, List.count_append, hcount] at hp hf
    have hone : s.pool.conns.count c + s.pool.held.count c + call.ptrs.count c +
        ((s.calls.eraseIdx i).flatMap Call.ptrs).count c ≤ born s.pool.made c := by omega
    have hfew : (s.pool.objects c).request + (s.pool.conns.count c + s.pool.held.count c + call.due.count c +
        ((s.calls.eraseIdx i).flatMap Call.due).count c) ≤ max 1 s.pool.maxRequest.toNat := by
      rw [h.bound]
      omega
    have hstep := advance_few ha (due_le_ptrs (s.calls.eraseIdx i) c) hone hfresh hfew
    rw [h.bound] at hstep
    simp only [System.due, List.count_append, List.flatMap_append]
    omega
  · intro c conn nowMs he
    rcases List.mem_append.1 he with he | he
    · exact h.reused c conn nowMs he
    · rw [← h.alive]
      exact advance_reused ha he

theorem booked_step (h : Booked maxAliveTime maxRequest s evs) {a : Action} (ha : step s a = some s') :
    Booked maxAliveTime maxRequest s' (evs ++ events s a) := by
  have hexec : exec s a = some (s', events s a) := exec_of_step ha
  generalize events s a = new at hexec ⊢
  cases a with
  | getConnection nowMs =>
    cases hexec
    rw [List.append_nil]
    refine ⟨h.alive, h.bound, ?_, h.place, h.fresh, h.handed, h.few, h.reused⟩
    rw [h.total]
    simp [System.counted, Call.weight]
  | releasePtr ptr =>
    obtain ⟨hmem, hr⟩ := Option.ite_none_right_eq_some.1 hexec
    cases hr
    have hcount : ∀ c, s.pool.held.count c = (s.pool.held.erase ptr).count c + [ptr].count c := by
      intro c
      rw [List.count_singleton, ← List.count_cons]
      exact (List.perm_cons_erase hmem).count_eq c
    have hlength : s.pool.held.length = (s.pool.held.erase ptr).length + 1 :=
      (List.perm_cons_erase hmem).length_eq
    rw [List.append_nil]
    refine ⟨h.alive, h.bound, ?_, ?_, h.fresh, ?_, ?_, h.reused⟩
    · refine h.total.trans (congrArg Int32.ofNat ?_)
      simp only [System.counted, List.map_cons, List.sum_cons, Call.weight, hlength]
      omega
    · intro c
      have hp := h.place c
      simp only [System.places, List.count_append, List.flatMap_cons, Call.ptrs, hcount c] at hp ⊢
      omega
    · intro c
      have hh := h.handed c
      simp only [System.out, List.count_append, List.flatMap_cons, Call.out, hcount c] at hh ⊢
      omega
    · intro c
      have hf := h.few c
      simp only [System.due, List.count_append, List.flatMap_cons, Call.due, hcount c] at hf ⊢
      omega
  | down ptr =>
    cases hexec
    have hrequest :
        ∀ c, ((s.pool.setObject ptr { s.pool.objects ptr with connected := false }).objects c).request =
        (s.pool.objects c).request := by
      intro c
      rcases eq_or_ne c ptr with rfl | hc
      · simp
      · simp [hc]
    rw [List.append_nil]
    refine ⟨h.alive, h.bound, h.total, h.place, ?_, ?_, ?_, h.reused⟩
    · intro c hc
      rw [hrequest]
      exact h.fresh c hc
    · intro c
      rw [hrequest]
      exact h.handed c
    · intro c
      rw [hrequest]
      exact h.few c
  | advance i clock opens =>
    obtain ⟨call, hi, hr⟩ := Option.map_eq_some_iff.1 hexec
    rcases hadv : s.pool.advance clock opens call with ⟨pool', next, evs'⟩
    rw [hadv] at hr
    cases hr
    exact h.advance hi hadv

theorem booked_run {hist : List (System × Action)} (h : Run step (init maxAliveTime maxRequest) hist s) :
    Booked maxAliveTime maxRequest s (output events hist) :=
  h.recorded (C := fun _ _ => True) booked_init (fun _ _ _ _ hb _ ha => booked_step hb ha) fun _ _ => trivial

/-- In every run of the pool, with any number of calls of `getConnection` and of
`ReleasePtr` under way: when none is, the counter is the number of the idle and
the handed out connections; at any time every connection that there is has one
place, and one that has none has been deleted once; a connection that is reused
was up and young enough when it was checked; and it is handed out no more often
than the bound says. -/
theorem pool_bookkeeping {hist : List (System × Action)} (h : Run step (init maxAliveTime maxRequest) hist s) :
    (s.calls = [] → s.pool.total = Int32.ofNat (s.pool.conns.length + s.pool.held.length)) ∧
    (s.pool.conns.Nodup ∧ s.pool.held.Nodup ∧ ∀ c ∈ s.pool.conns, c ∉ s.pool.held) ∧
    (∀ c conn nowMs, .reused c conn nowMs ∈ output events hist →
      conn.connected = true ∧ nowMs.toNat ≤ conn.createTime.toNat + maxAliveTime.toNat) ∧
    (∀ c, (output events hist).count (.handedOut c) ≤ max 1 maxRequest.toNat) ∧
    (∀ c, (output events hist).count (.deleted c) = if c < s.pool.made ∧ c ∉ s.places then 1 else 0) := by
  have hb := booked_run h
  have hplaces : s.places.Nodup := by
    rw [List.nodup_iff_count_le_one]
    intro c
    have hp := hb.place c
    unfold born at hp
    split at hp <;> omega
  rw [System.places, List.nodup_append, List.nodup_append] at hplaces
  obtain ⟨⟨hconns, hheld, hdisj⟩, -, -⟩ := hplaces
  refine ⟨?_, ⟨hconns, hheld, fun c hc hh => hdisj c hc c hh rfl⟩, hb.reused, ?_, ?_⟩
  · intro hcalls
    rw [hb.total, System.counted, hcalls]
    simp
  · intro c
    have hh := hb.handed c
    have hf := hb.few c
    have ho := out_le_due s.calls c
    simp only [System.out, System.due, List.count_append] at hh hf
    omega
  · intro c
    have hp := hb.place c
    -- a connection has a place or has been deleted
    by_cases hc : c ∈ s.places
    · have hpos := List.count_pos_iff.2 hc
      rw [if_neg (by rintro ⟨-, hno⟩; exact hno hc)]
      unfold born at hp
      split at hp <;> omega
    · rw [List.count_eq_zero.2 hc, born] at hp
      simp only [hc, not_false_eq_true, and_true]
      omega

end

/-- A connection is opened, released, put back and handed out again. -/
theorem pool_bookkeeping_reuse :
    ∃ hist s, Run step (init 10 3) hist s ∧ s.pool.conns = [] ∧ s.pool.held = [0] ∧
      s.pool.total = Int32.ofNat 1 ∧
      (output events hist).count (.handedOut 0) = 2 ∧ (output events hist).count (.deleted 0) = 0 := by
  obtain ⟨hist, s, hgo⟩ : ∃ hist s, go step [] (init 10 3)
      [.getConnection 5, .advance 0 5 true, .advance 0 5 true, .advance 0 5 true, .advance 0 5 true,
        .advance 0 5 true, .releasePtr 0, .advance 0 6 true, .advance 0 6 true, .advance 0 6 true,
        .getConnection 7, .advance 0 7 true, .advance 0 7 true, .advance 0 7 true] =
          some (hist, s) := ⟨_, _, rfl⟩
  have hrun := run_of_go .start hgo
  cases hgo
  obtain ⟨htotal, -, -, -, hdeleted⟩ := pool_bookkeeping hrun
  exact ⟨_, _, hrun, rfl, rfl, htotal rfl, by decide, hdeleted 0⟩

end HttpConnectionPool

end Linko.Http

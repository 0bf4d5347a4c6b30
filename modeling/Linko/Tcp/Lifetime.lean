import Mathlib.Data.List.Perm.Basic
import Linko.Tcp.Server
/-!
# The sockets of a server

A socket lives exactly as long as the server, one of its loops or one of its clients
points to it, so that its descriptor is closed when the last of them is done with it.
-/

namespace Linko

open Hook

variable {ρ α β : Type} {net : Net ρ α} {thread : Thread} {val : Addr}

theorem mem_eraseIdx_iff {l : List β} {k : Nat} {b : β} (h : l[k]? = some b) (x : β) :
    x ∈ l ↔ x = b ∨ x ∈ l.eraseIdx k := by
  obtain ⟨hk, rfl⟩ := List.getElem?_eq_some_iff.1 h
  exact (List.getElem_cons_eraseIdx_perm hk).mem_iff.symm.trans List.mem_cons

namespace Sockets

/-! ## Which objects there are -/

variable {m m' : Sockets ρ α} {i : Nat}

/-- The object is there. -/
def Alive (m : Sockets ρ α) (i : Nat) : Prop := (m.objs i).isSome = true

theorem on_alive {f : Socket.Member ρ α β} {b : β} (h : m.on i f = some (m', b)) :
    (∀ j, m'.Alive j ↔ m.Alive j) ∧ m'.accepting = m.accepting ∧ (∀ j, j ≠ i → m'.objs j = m.objs j) ∧
      ∃ s s', m.objs i = some s ∧ m'.objs i = some s' ∧ f m.p s = some (m'.p, s', b) := by
  obtain ⟨s, hi, h⟩ := Option.bind_eq_some_iff.1 h
  obtain ⟨⟨q, s', b'⟩, hf, hend⟩ := Option.bind_eq_some_iff.1 h
  cases hend
  refine ⟨fun j => ?_, rfl, fun j hj => Function.update_of_ne hj .., s, s', hi, Function.update_self .., hf⟩
  show (Function.update m.objs i (some s') j).isSome = true ↔ (m.objs j).isSome = true
  by_cases hj : j = i
  · subst hj
    rw [Function.update_self, hi]
    exact Iff.rfl
  · rw [Function.update_of_ne hj]

theorem create_alive (m : Sockets ρ α) (s : Socket α) (j : Nat) : (m.create s).1.Alive j ↔ m.Alive j ∨ j = m.next := by
  unfold Alive create
  by_cases hj : j = m.next
  · subst hj
    simp
  · simp [hj]

theorem accepted_alive {sock : Socket α} {n : Int} {r : Accepted}
    (h : accepted net thread val m sock n = some (m', r)) :
    (∀ j, m'.Alive j ↔ m.Alive j ∨ r = .client j) ∧ m'.accepting = m.accepting ∧ r ≠ .parked := by
  unfold accepted at h
  split at h
  · cases h
    exact ⟨fun j => by simp, rfl, nofun⟩
  · obtain ⟨⟨p, s, ok⟩, -, hend⟩ := Option.bind_eq_some_iff.1 h
    dsimp only at hend
    split at hend <;> cases hend
    · refine ⟨fun j => ?_, rfl, nofun⟩
      refine (create_alive { m with p := p } s j).trans (or_congr Iff.rfl ?_)
      exact ⟨fun hj => by rw [hj]; rfl, fun hj => (Accepted.client.inj hj).symm⟩
    · exact ⟨fun j => ⟨.inl, fun hj => hj.resolve_right nofun⟩, rfl, nofun⟩

theorem accept_alive {fuel : Nat} {r : Accepted} (h : m.accept net thread val fuel i = some (m', r)) :
    (∀ j, m'.Alive j ↔ m.Alive j ∨ r = .client j) ∧
      m'.accepting.map Accepting.listener = m.accepting.map Accepting.listener ++ if r = .parked then [i] else [] := by
  obtain ⟨s, -, h⟩ := Option.bind_eq_some_iff.1 h
  obtain ⟨c, -, h⟩ := Option.bind_eq_some_iff.1 h
  split at h
  · obtain ⟨halive, haccepting, hr⟩ := accepted_alive h
    refine ⟨halive, ?_⟩
    rw [haccepting, if_neg hr, List.append_nil]
  · cases h
    exact ⟨fun j => ⟨.inl, fun hj => hj.resolve_right nofun⟩, by simp⟩
  · cases h

theorem acceptRetry_alive {fuel k : Nat} {r : Accepted} (h : m.acceptRetry net thread val fuel k = some (m', r)) :
    (∀ j, m'.Alive j ↔ m.Alive j ∨ r = .client j) ∧
      m'.accepting = if r = .parked then m.accepting else m.accepting.eraseIdx k := by
  obtain ⟨a, -, h⟩ := Option.bind_eq_some_iff.1 h
  obtain ⟨⟨w, n⟩, -, h⟩ := Option.bind_eq_some_iff.1 h
  dsimp only at h
  split at h
  · cases h
    exact ⟨fun j => ⟨.inl, fun hj => hj.resolve_right nofun⟩, (if_pos rfl).symm⟩
  · obtain ⟨q, -, h⟩ := Option.bind_eq_some_iff.1 h
    obtain ⟨halive, haccepting, hr⟩ := accepted_alive h
    refine ⟨halive, ?_⟩
    rw [haccepting, if_neg hr]

end Sockets

namespace TcpServer

open Sockets

variable {base : Set Int} {s s' : TcpServer ρ α} {i : Nat}

/-! ## Pointers -/

/-- An object is there exactly if something points to it. -/
structure Tended (base : Set Int) (s : TcpServer ρ α) : Prop where
  owned : Owned base s.m
  alive : ∀ j, s.m.Alive j ↔ j ∈ s.refs

/-- A loop or a client points to it. -/
def Busy (tasks : List TcpTask) (accepting : List (Accepting α)) (j : Nat) : Prop :=
  (∃ t ∈ tasks, t.sock? = some j) ∨ ∃ a ∈ accepting, a.listener = j

theorem mem_refs (j : Nat) : j ∈ s.refs ↔ j ∈ s.socks ∨ Busy s.tasks s.m.accepting j := by
  unfold refs Busy
  simp only [List.mem_append, List.mem_filterMap, List.mem_map, or_assoc]

/-- What does not point to anything may change. -/
structure Same (s s' : TcpServer ρ α) : Prop where
  socks : s'.socks = s.socks
  tasks : s'.tasks = s.tasks
  accepting : s'.m.accepting = s.m.accepting
  isStop : s'.isStop = s.isStop

theorem Same.refs (h : Same s s') : s'.refs = s.refs := by
  unfold TcpServer.refs
  rw [h.socks, h.tasks, h.accepting]

/-- A pointer has gone: the object goes with the last one. -/
theorem drop_tended (howned : Owned base s.m) (halive : ∀ j, s.m.Alive j ↔ j ∈ s.refs ∨ j = i)
    (h : s.drop net thread i = some s') : Tended base s' ∧ Same s s' ∧ ∀ j, j ≠ i → s'.m.objs j = s.m.objs j := by
  unfold drop at h
  split at h
  · rename_i hmem
    cases h
    refine ⟨⟨howned, fun j => (halive j).trans ⟨?_, .inl⟩⟩, ⟨rfl, rfl, rfl, rfl⟩, fun _ _ => rfl⟩
    rintro (hj | rfl)
    · exact hj
    · exact hmem
  · rename_i hmem
    obtain ⟨⟨m, b⟩, hclose, hend⟩ := Option.bind_eq_some_iff.1 h
    cases hend
    obtain ⟨hsame, haccepting, hother, -⟩ := on_alive hclose
    have hkeeps : Same s { s with m := { m with objs := Function.update m.objs i none } } := ⟨rfl, rfl, haccepting, rfl⟩
    refine ⟨⟨howned.destroy hclose, fun j => ?_⟩, hkeeps, fun j hj => ?_⟩
    · rw [hkeeps.refs]
      show (Function.update m.objs i none j).isSome = true ↔ j ∈ s.refs
      by_cases hj : j = i
      · subst hj
        rw [Function.update_self]
        exact ⟨nofun, fun hin => absurd hin hmem⟩
      · have hm : (m.objs j).isSome = true ↔ j ∈ s.refs ∨ j = i := (hsame j).trans (halive j)
        rw [Function.update_of_ne hj, hm]
        exact or_iff_left hj
    · show Function.update m.objs i none j = s.m.objs j
      rw [Function.update_of_ne hj]
      exact hother j hj

theorem clear_tended (socks : List Nat) (h : Tended base s) (hsocks : s.socks = socks)
    (hclear : clear net thread socks s = some s') :
    Tended base s' ∧ s'.socks = [] ∧ s'.tasks = s.tasks ∧ s'.m.accepting = s.m.accepting := by
  induction socks generalizing s with
  | nil =>
    cases hclear
    have hsame : Same s { s with socks := [] } := ⟨hsocks.symm, rfl, rfl, rfl⟩
    exact ⟨⟨h.owned, fun j => (h.alive j).trans (by rw [hsame.refs])⟩, rfl, rfl, rfl⟩
  | cons i socks ih =>
    obtain ⟨s₁, hdrop, hrest⟩ := Option.bind_eq_some_iff.1 hclear
    have halive : ∀ j, s.m.Alive j ↔ j ∈ ({ s with socks := socks } : TcpServer ρ α).refs ∨ j = i := by
      intro j
      rw [h.alive, mem_refs, mem_refs, hsocks, List.mem_cons]
      tauto
    obtain ⟨htended, hsame, -⟩ := @drop_tended _ _ _ _ _ { s with socks := socks } _ _ h.owned halive hdrop
    obtain ⟨hend, hempty, htasks, haccepting⟩ := ih htended hsame.socks hrest
    exact ⟨hend, hempty, htasks.trans hsame.tasks, haccepting.trans hsame.accepting⟩

/-- Member functions that are called on objects change nothing else. -/
theorem Tended.on (h : Tended base s) {f : Socket.Member ρ α β} (hf : Socket.Obeys f) {m : Sockets ρ α} {b : β}
    (hon : s.m.on i f = some (m, b)) : Tended base { s with m := m } := by
  obtain ⟨halive, haccepting, -⟩ := on_alive hon
  have hsame : Same s { s with m := m } := ⟨rfl, rfl, haccepting, rfl⟩
  refine ⟨h.owned.on hf hon, fun j => (halive j).trans ?_⟩
  rw [hsame.refs]
  exact h.alive j

/-! ## Listening -/

/-- The kernel has bound the socket to the address and listens on it. -/
def Listens (net : Net ρ α) (m : Sockets ρ α) (i : Nat) (addr : α) : Prop :=
  ∃ c, m.objs i = some c ∧ c.isValid = true ∧ c.family = net.getFamily addr ∧
    (∃ w, (net.bind c.sock addr w).2 = true) ∧ ∃ w, (net.listen c.sock w).2 = true

theorem ensure_family {p q : Process ρ} {c c' : Socket α} {v : Bool}
    (h : Socket.ensure net thread val p c = some (q, c', v)) : c'.family = c.family ∧ (v = true → c'.isValid = true) := by
  unfold Socket.ensure at h
  split at h
  · rename_i hvalid
    cases h
    exact ⟨rfl, fun _ => hvalid⟩
  · obtain ⟨⟨p₁, c₁, u⟩, hnew, hend⟩ := Option.bind_eq_some_iff.1 h
    cases hend
    refine ⟨?_, id⟩
    unfold Socket.newSock at hnew
    split at hnew
    · dsimp only at hnew
      split at hnew
      · rw [(Socket.initSock_spec hnew).2]
      · cases hnew
        rfl
    · cases hnew

theorem getLocalAddress_family {p q : Process ρ} {c c' : Socket α} {u : Unit}
    (h : Socket.getLocalAddress net p c = some (q, c', u)) : c'.family = c.family := by
  unfold Socket.getLocalAddress at h
  split at h <;> cases h <;> rfl

theorem bind_true {p q : Process ρ} {c c' : Socket α} {addr : α}
    (h : Socket.bind net thread val addr p c = some (q, c', true)) :
    c'.isValid = true ∧ c'.family = net.getFamily addr ∧ ∃ w, (net.bind c'.sock addr w).2 = true := by
  obtain ⟨⟨p₁, c₁, v⟩, hensure, h⟩ := Option.bind_eq_some_iff.1 h
  obtain ⟨-, hvalid⟩ := ensure_family hensure
  dsimp only at h
  split at h
  · cases h
  · rename_i hv
    split at h
    · cases h
    · rename_i hfamily
      split at h
      · cases h
      · rename_i hok
        obtain ⟨⟨p₂, c₂, u⟩, hlocal, hend⟩ := Option.bind_eq_some_iff.1 h
        cases hend
        have hsock := (Socket.getLocalAddress_spec hlocal).2
        have hfam := getLocalAddress_family hlocal
        unfold Socket.isValid at hvalid ⊢
        rw [hsock, hfam]
        refine ⟨hvalid (by simpa using hv), (not_not.1 hfamily).symm, p₁.world, by simpa using hok⟩

theorem listen_true {p q : Process ρ} {c c' : Socket α} (h : Socket.listen net p c = some (q, c', true)) :
    c' = c ∧ ∃ w, (net.listen c.sock w).2 = true := by
  unfold Socket.listen at h
  split at h
  · cases h
  · simp only [Option.some.injEq, Prod.mk.injEq] at h
    exact ⟨h.2.1.symm, p.world, h.2.2⟩

/-- One address: it fails and its socket goes, or there is one more socket that listens. -/
theorem bindOne_spec (h : Tended base s) {fails fails' : List α} {addr : α}
    (hbind : bindOne net thread val (s, fails) addr = some (s', fails')) :
    Tended base s' ∧ s'.tasks = s.tasks ∧ s'.m.accepting = s.m.accepting ∧
      (∀ j, s.m.Alive j → s'.m.objs j = s.m.objs j) ∧
      (fails' = fails ++ [addr] ∧ s'.socks = s.socks ∨
        fails' = fails ∧ ∃ i, s'.socks = s.socks ++ [i] ∧ Listens net s'.m i addr) := by
  obtain ⟨⟨m₁, ok⟩, hon, hbind⟩ := Option.bind_eq_some_iff.1 hbind
  have hcreated : Owned base (s.m.create (Socket.new (net.getFamily addr) Socket.sockStream 0)).1 := h.owned.create rfl
  have hbound := hcreated.on (Socket.bind_obeys addr) hon
  obtain ⟨halive, haccepting, hother, c, c', -, hnew, hcall⟩ := on_alive hon
  have halive₁ : ∀ j, m₁.Alive j ↔ j ∈ s.refs ∨ j = s.m.next := fun j =>
    (halive j).trans ((create_alive s.m _ j).trans (or_congr (h.alive j) Iff.rfl))
  have hold : ∀ j, s.m.Alive j → j ≠ s.m.next ∧ m₁.objs j = s.m.objs j := by
    intro j hj
    have hne : j ≠ s.m.next := by
      rintro rfl
      unfold Alive at hj
      rw [h.owned.unborn _ (Nat.le_refl _)] at hj
      cases hj
    refine ⟨hne, (hother j hne).trans ?_⟩
    exact Function.update_of_ne hne ..
  -- the object is dropped, and nothing points to it
  have hdrop : ∀ m : Sockets ρ α, Owned base m → (∀ j, m.Alive j ↔ m₁.Alive j) → m.accepting = m₁.accepting →
      (∀ j, j ≠ s.m.next → m.objs j = m₁.objs j) → drop net thread { s with m := m } s.m.next = some s' →
      Tended base s' ∧ s'.tasks = s.tasks ∧ s'.m.accepting = s.m.accepting ∧
        (∀ j, s.m.Alive j → s'.m.objs j = s.m.objs j) ∧ s'.socks = s.socks := by
    intro m hm hsame hacc hobjs hdropped
    have hrefs : ({ s with m := m } : TcpServer ρ α).refs = s.refs :=
      Same.refs ⟨rfl, rfl, hacc.trans haccepting, rfl⟩
    obtain ⟨htended, hkept, hrest⟩ := @drop_tended _ _ _ _ _ { s with m := m } _ _ hm
      (fun j => by rw [hrefs]; exact (hsame j).trans (halive₁ j)) hdropped
    refine ⟨htended, hkept.tasks, hkept.accepting.trans (hacc.trans haccepting), fun j hj => ?_, hkept.socks⟩
    obtain ⟨hne, hobj⟩ := hold j hj
    exact (hrest j hne).trans ((hobjs j hne).trans hobj)
  dsimp only at hbind
  split at hbind
  · obtain ⟨s₁, hdropped, hend⟩ := Option.bind_eq_some_iff.1 hbind
    cases hend
    obtain ⟨htended, htasks, hacc, hobjs, hsocks⟩ :=
      hdrop m₁ hbound (fun _ => Iff.rfl) rfl (fun _ _ => rfl) hdropped
    exact ⟨htended, htasks, hacc, hobjs, .inl ⟨rfl, hsocks⟩⟩
  · rename_i hok
    obtain ⟨⟨m₂, ok₂⟩, hlisten, hbind⟩ := Option.bind_eq_some_iff.1 hbind
    have hlistening := hbound.on Socket.listen_obeys hlisten
    obtain ⟨halive₂, haccepting₂, hother₂, d, d', hd, hd', hcall₂⟩ := on_alive hlisten
    dsimp only at hbind
    split at hbind
    · obtain ⟨s₁, hdropped, hend⟩ := Option.bind_eq_some_iff.1 hbind
      cases hend
      obtain ⟨htended, htasks, hacc, hobjs, hsocks⟩ := hdrop m₂ hlistening halive₂ haccepting₂ hother₂ hdropped
      exact ⟨htended, htasks, hacc, hobjs, .inl ⟨rfl, hsocks⟩⟩
    · rename_i hok₂
      cases hbind
      refine ⟨⟨hlistening, fun j => ?_⟩, rfl, haccepting₂.trans haccepting, fun j hj => ?_, .inr ⟨rfl, s.m.next, rfl, ?_⟩⟩
      · rw [mem_refs]
        refine (halive₂ j).trans ((halive₁ j).trans ?_)
        rw [mem_refs]
        dsimp only
        rw [haccepting₂, haccepting, List.mem_append, List.mem_singleton]
        tauto
      · obtain ⟨hne, hobj⟩ := hold j hj
        exact (hother₂ j hne).trans hobj
      · obtain rfl : d = c' := Option.some.inj (hd.symm.trans hnew)
        have hbindTrue : ok = true := by simpa using hok
        have hlistenTrue : ok₂ = true := by simpa using hok₂
        subst hbindTrue hlistenTrue
        obtain ⟨hvalid, hfamily, hw⟩ := bind_true hcall
        obtain ⟨rfl, hw'⟩ := listen_true hcall₂
        exact ⟨d', hd', hvalid, hfamily, hw, hw'⟩

/-- The loop of `bind`. -/
theorem bindLoop_spec (h : Tended base s) {addrs fails fails' : List α}
    (hloop : addrs.foldlM (bindOne net thread val) (s, fails) = some (s', fails')) :
    Tended base s' ∧ s'.tasks = s.tasks ∧ s'.m.accepting = s.m.accepting ∧
      (∀ j, s.m.Alive j → s'.m.objs j = s.m.objs j) ∧
      ∃ failed new, fails' = fails ++ failed ∧ s'.socks = s.socks ++ new ∧
        (failed = [] → List.Forall₂ (Listens net s'.m) new addrs) := by
  induction addrs generalizing s fails with
  | nil =>
    cases hloop
    exact ⟨h, rfl, rfl, fun _ _ => rfl, [], [], by simp, by simp, fun _ => .nil⟩
  | cons addr addrs ih =>
    rw [List.foldlM_cons] at hloop
    obtain ⟨⟨s₁, fails₁⟩, hone, hrest⟩ := Option.bind_eq_some_iff.1 hloop
    obtain ⟨htended, htasks, hacc, hobjs, hends⟩ := bindOne_spec h hone
    obtain ⟨htended', htasks', hacc', hobjs', failed, new, hfails, hsocks, hall⟩ := ih htended hrest
    refine ⟨htended', htasks'.trans htasks, hacc'.trans hacc, fun j hj => ?_, ?_⟩
    · have hj₁ : s₁.m.Alive j := by
        unfold Alive
        rw [hobjs j hj]
        exact hj
      exact (hobjs' j hj₁).trans (hobjs j hj)
    · rcases hends with ⟨rfl, hsame⟩ | ⟨rfl, i, hone, hlistens⟩
      · exact ⟨addr :: failed, new, by rw [hfails, List.append_assoc]; rfl, by rw [hsocks, hsame], nofun⟩
      · refine ⟨failed, i :: new, hfails, by rw [hsocks, hone, List.append_assoc]; rfl, fun hnone => .cons ?_ (hall hnone)⟩
        obtain ⟨c, hc, hlistens⟩ := hlistens
        have hi : s₁.m.Alive i := by
          unfold Alive
          rw [hc]
          rfl
        exact ⟨c, (hobjs' i hi).trans hc, hlistens⟩

theorem bind_spec (h : Tended base s) {addrs fails fails' : List α} {ok : Bool}
    (hbind : s.bind net thread val addrs fails = some (s', fails', ok)) :
    Tended base s' ∧ s'.tasks = s.tasks ∧ s'.m.accepting = s.m.accepting ∧
      (ok = true → fails' = [] ∧ ∃ new, s'.socks = s.socks ++ new ∧ List.Forall₂ (Listens net s'.m) new addrs) ∧
      (ok = false → s'.socks = []) := by
  obtain ⟨⟨s₁, fails₁⟩, hloop, hbind⟩ := Option.bind_eq_some_iff.1 hbind
  obtain ⟨htended, htasks, hacc, -, failed, new, hfails, hsocks, hall⟩ := bindLoop_spec h hloop
  dsimp only at hbind
  split at hbind
  · obtain ⟨s₂, hclear, hend⟩ := Option.bind_eq_some_iff.1 hbind
    cases hend
    obtain ⟨hcleared, hempty, htasks', hacc'⟩ := clear_tended s₁.socks htended rfl hclear
    exact ⟨hcleared, htasks'.trans htasks, hacc'.trans hacc, nofun, fun _ => hempty⟩
  · rename_i hnone
    cases hbind
    have hnone := not_not.1 hnone
    have hfailed : failed = [] := (List.append_eq_nil_iff.1 (hfails.symm.trans hnone)).2
    exact ⟨htended, htasks, hacc, fun _ => ⟨hnone, new, hsocks, hall hfailed⟩, nofun⟩

/-! ## Accepting -/

/-- A setting of a context that is there. -/
theorem good_put {p : Process ρ} {fd : Int} {ctx ctx' : FdCtx} (hentry : entry p.datas fd = some ctx)
    (hmanaged : ctx'.managed = ctx.managed) (h : Good p) : Good (p.put fd ctx') := by
  obtain ⟨hfd, hlen⟩ := entry_range hentry
  intro x c hx
  by_cases hxfd : x = fd
  · subst hxfd
    rw [entry_put hfd hlen] at hx
    obtain rfl := Option.some.inj hx
    exact hmanaged.trans (h x ctx hentry)
  · refine h x c ?_
    unfold entry at hx ⊢
    split at hx
    · cases hx
    · rename_i hpos
      rw [if_neg hpos]
      have hne : fd.toNat ≠ x.toNat := by omega
      rwa [Process.put, List.getElem?_set_ne hne] at hx

theorem managed_setTimeout (ctx : FdCtx) (type : Int) (v : UInt64) : (ctx.setTimeout type v).managed = ctx.managed := by
  unfold FdCtx.setTimeout
  split <;> rfl

theorem setRecvTimeout_obeys (v : UInt64) : Socket.Obeys (setRecvTimeout net thread val v) := by
  intro p c q c' b h
  obtain ⟨⟨p₁, ok⟩, hset, hend⟩ := Option.bind_eq_some_iff.1 h
  cases hend
  refine .keeps ?_ rfl
  let p₀ := p.storeTime val (Socket.timeval v.toBitVec.toInt)
  unfold Socket.setRecvTimeout Socket.setOption setsockopt at hset
  split at hset
  · rename_i p₁ rt hreturns
    cases hset
    -- whatever the hook has written, the call itself is made last
    have hcall : ∀ p₂ : Process ρ, p₂.world = p₀.world → (Good p → Good p₂) →
        p₂.original net.os (.setsockopt c.sock solSocket soSndtimeo val 16) = .returns q rt → Quiet p q := by
      intro p₂ hworld hgood hr
      cases hr
      refine ⟨(net.setsockopt_keeps ..).trans ?_, hgood⟩
      rw [hworld]
      rfl
    split at hreturns
    · exact hcall p₀ rfl id hreturns
    · rw [if_pos ⟨rfl, .inr rfl⟩] at hreturns
      split at hreturns
      · cases hreturns
      · exact hcall p₀ rfl id hreturns
      · rename_i p₂ ctx hget
        split at hreturns
        · cases hreturns
        · have hfd : -1 ≤ c.sock := by
            by_contra hneg
            rw [get_before (by omega)] at hget
            cases hget
          rw [get_false hfd] at hget
          simp only [Option.some.injEq, Prod.mk.injEq] at hget
          have hput : ∀ t, Good p → Good (p₀.put c.sock (ctx.setTimeout soSndtimeo t)) := fun t hgood =>
            good_put hget.2 (managed_setTimeout ..) (show Good p₀ from hgood)
          exact hcall (p₀.put c.sock _) rfl (hput _) hreturns
  · cases hset

/-- A task more points to its socket. -/
theorem busy_snoc (tasks : List TcpTask) (t : TcpTask) (accepting : List (Accepting α)) (j : Nat) :
    Busy (tasks ++ [t]) accepting j ↔ Busy tasks accepting j ∨ t.sock? = some j := by
  unfold Busy
  simp only [List.mem_append, List.mem_singleton, or_and_right, exists_or, exists_eq_left]
  exact or_right_comm

/-- A task that is taken out leaves its socket. -/
theorem busy_erase {tasks : List TcpTask} {k : Nat} {t : TcpTask} (ht : tasks[k]? = some t)
    (accepting : List (Accepting α)) (j : Nat) :
    Busy tasks accepting j ↔ Busy (tasks.eraseIdx k) accepting j ∨ t.sock? = some j := by
  unfold Busy
  simp only [mem_eraseIdx_iff ht, or_and_right, exists_or, exists_eq_left]
  exact (or_congr or_comm Iff.rfl).trans or_right_comm

/-- The same for calls that are parked. -/
theorem busy_wake {accepting : List (Accepting α)} {k : Nat} {a : Accepting α} (ha : accepting[k]? = some a)
    (tasks : List TcpTask) (j : Nat) :
    Busy tasks accepting j ↔ Busy tasks (accepting.eraseIdx k) j ∨ a.listener = j := by
  unfold Busy
  simp only [mem_eraseIdx_iff ha, or_and_right, exists_or, exists_eq_left]
  rw [← or_assoc, or_right_comm]

theorem busy_park (tasks : List TcpTask) {accepting accepting' : List (Accepting α)} {i : Nat}
    (h : accepting'.map Accepting.listener = accepting.map Accepting.listener ++ [i]) (j : Nat) :
    Busy tasks accepting' j ↔ Busy tasks accepting j ∨ i = j := by
  have hlistener : ∀ l : List (Accepting α), (∃ a ∈ l, a.listener = j) ↔ j ∈ l.map Accepting.listener :=
    fun l => List.mem_map.symm
  unfold Busy
  rw [hlistener, hlistener, h, List.mem_append, List.mem_singleton, or_assoc, eq_comm]

/-- A client that nothing points to yet gets its task. -/
theorem takeIn_tended {c : Nat} (howned : Owned base s.m) (halive : ∀ j, s.m.Alive j ↔ j ∈ s.refs ∨ j = c)
    (h : s.takeIn net thread val c = some s') : Tended base s' := by
  obtain ⟨⟨m, u⟩, hon, hend⟩ := Option.bind_eq_some_iff.1 h
  cases hend
  obtain ⟨hsame, haccepting, -⟩ := on_alive hon
  refine ⟨howned.on (setRecvTimeout_obeys _) hon, fun j => (hsame j).trans ((halive j).trans ?_)⟩
  rw [mem_refs, mem_refs, or_assoc]
  refine or_congr Iff.rfl ?_
  dsimp only
  rw [haccepting, busy_snoc]
  exact or_congr Iff.rfl (eq_comm.trans (Option.some.injEq _ _).to_iff.symm)

/-! ## Every step -/

/-- A function that is called on the objects of a list. -/
theorem foldlM_tended {f : Sockets ρ α → Nat → Option (Sockets ρ α)} {socks : List Nat} {m m' : Sockets ρ α}
    (hf : ∀ m i m', Owned base m → f m i = some m' →
      Owned base m' ∧ (∀ j, m'.Alive j ↔ m.Alive j) ∧ m'.accepting = m.accepting)
    (howned : Owned base m) (h : socks.foldlM f m = some m') :
    Owned base m' ∧ (∀ j, m'.Alive j ↔ m.Alive j) ∧ m'.accepting = m.accepting := by
  induction socks generalizing m with
  | nil =>
    cases h
    exact ⟨howned, fun _ => Iff.rfl, rfl⟩
  | cons i socks ih =>
    rw [List.foldlM_cons] at h
    obtain ⟨m₁, hone, hrest⟩ := Option.bind_eq_some_iff.1 h
    obtain ⟨howned₁, halive₁, hacc₁⟩ := hf m i m₁ howned hone
    obtain ⟨howned', halive', hacc'⟩ := ih howned₁ hrest
    exact ⟨howned', fun j => (halive' j).trans (halive₁ j), hacc'.trans hacc₁⟩

theorem stopOne_tended (m : Sockets ρ α) (i : Nat) (m' : Sockets ρ α) (howned : Owned base m)
    (h : stopOne net thread m i = some m') :
    Owned base m' ∧ (∀ j, m'.Alive j ↔ m.Alive j) ∧ m'.accepting = m.accepting := by
  obtain ⟨c, -, h⟩ := Option.bind_eq_some_iff.1 h
  obtain ⟨iom, -, h⟩ := Option.bind_eq_some_iff.1 h
  split at h
  · cases h
  · split at h
    · cases h
    · rename_i io r out hcancel
      obtain ⟨⟨m₁, b⟩, hclose, hend⟩ := Option.bind_eq_some_iff.1 h
      cases hend
      have hquiet : Quiet m.p { m.p with io := io, scheduled := m.p.scheduled ++ out } := ⟨rfl, id⟩
      obtain ⟨halive, haccepting, -⟩ := on_alive hclose
      exact ⟨(howned.quiet hquiet m.accepting m.connecting).on Socket.close_obeys hclose, halive, haccepting⟩

theorem closeOne_tended (m : Sockets ρ α) (i : Nat) (m' : Sockets ρ α) (howned : Owned base m)
    (h : (m.on i (Socket.close net thread)).map Prod.fst = some m') :
    Owned base m' ∧ (∀ j, m'.Alive j ↔ m.Alive j) ∧ m'.accepting = m.accepting := by
  obtain ⟨⟨m₁, b⟩, hclose, rfl⟩ := Option.map_eq_some_iff.1 h
  obtain ⟨halive, haccepting, -⟩ := on_alive hclose
  exact ⟨howned.on Socket.close_obeys hclose, halive, haccepting⟩

theorem client_iff {c j : Nat} : Accepted.client c = .client j ↔ j = c :=
  ⟨fun h => (Accepted.client.inj h).symm, fun h => by rw [h]⟩

theorem run_tended (h : Tended base s) {fuel k : Nat} (hrun : s.run net thread val fuel k = some s') : Tended base s' := by
  obtain ⟨t, ht, hrun⟩ := Option.bind_eq_some_iff.1 hrun
  -- the sockets that are there without the task
  have herase : ∀ {i}, t.sock? = some i → ∀ j, s.m.Alive j ↔
      j ∈ ({ s with tasks := s.tasks.eraseIdx k } : TcpServer ρ α).refs ∨ j = i := by
    intro i hi j
    rw [h.alive, mem_refs, mem_refs, busy_erase ht, hi, Option.some.injEq, or_assoc]
    exact or_congr Iff.rfl (or_congr Iff.rfl eq_comm)
  cases t with
  | accept i =>
    dsimp only at hrun
    split at hrun
    · exact (@drop_tended _ _ _ _ _ { s with tasks := s.tasks.eraseIdx k } _ _ h.owned (herase rfl) hrun).1
    · obtain ⟨⟨m, r⟩, haccept, hrun⟩ := Option.bind_eq_some_iff.1 hrun
      have howned := h.owned.accept haccept
      obtain ⟨halive, haccepting⟩ := accept_alive haccept
      cases r with
      | client c =>
        refine @takeIn_tended _ _ _ _ _ _ { s with m := m } _ _ howned (fun j => ?_) hrun
        have hlisteners : m.accepting.map Accepting.listener = s.m.accepting.map Accepting.listener := by
          simpa using haccepting
        rw [halive, h.alive, client_iff]
        unfold refs
        rw [hlisteners]
      | failed =>
        cases hrun
        have hlisteners : m.accepting.map Accepting.listener = s.m.accepting.map Accepting.listener := by
          simpa using haccepting
        refine ⟨howned, fun j => ?_⟩
        rw [halive, h.alive]
        unfold refs
        rw [hlisteners]
        exact or_iff_left nofun
      | parked =>
        -- the pointer of the task is now that of the parked call
        cases hrun
        refine ⟨howned, fun j => (halive j).trans ?_⟩
        have hpark := busy_park (s.tasks.eraseIdx k) (show m.accepting.map Accepting.listener = _ ++ [i] from haccepting) j
        rw [or_iff_left nofun, h.alive, mem_refs, mem_refs, busy_erase ht, hpark]
        simp only [TcpTask.sock?, Option.some.injEq]
  | client c =>
    exact (@drop_tended _ _ _ _ _ { s with tasks := s.tasks.eraseIdx k } _ _ h.owned (herase rfl) hrun).1
  | stop =>
    obtain ⟨m, hloop, hclear⟩ := Option.bind_eq_some_iff.1 hrun
    obtain ⟨howned, halive, haccepting⟩ := foldlM_tended stopOne_tended h.owned hloop
    refine (clear_tended s.socks (s := { s with m := m, tasks := s.tasks.eraseIdx k }) ⟨howned, fun j => ?_⟩ rfl hclear).1
    rw [halive, h.alive, mem_refs, mem_refs, busy_erase ht]
    dsimp only
    rw [haccepting]
    exact or_congr Iff.rfl (or_iff_left nofun)

theorem wake_tended (h : Tended base s) {fuel k : Nat} (hwake : s.wake net thread val fuel k = some s') :
    Tended base s' := by
  obtain ⟨a, ha, hwake⟩ := Option.bind_eq_some_iff.1 hwake
  obtain ⟨⟨m, r⟩, hretry, hwake⟩ := Option.bind_eq_some_iff.1 hwake
  have howned := h.owned.acceptRetry hretry
  obtain ⟨halive, haccepting⟩ := acceptRetry_alive hretry
  -- the loop of the call goes on and points to the socket
  have hloop : r ≠ .parked → ∀ j, j ∈ s.refs ↔
      j ∈ ({ s with m := m, tasks := s.tasks ++ [.accept a.listener] } : TcpServer ρ α).refs := by
    intro hr j
    rw [if_neg hr] at haccepting
    rw [mem_refs, mem_refs, busy_snoc, haccepting, busy_wake ha]
    exact or_congr Iff.rfl (or_congr Iff.rfl (Option.some.injEq _ _).to_iff.symm)
  cases r with
  | client c =>
    refine @takeIn_tended _ _ _ _ _ _ { s with m := m, tasks := s.tasks ++ [.accept a.listener] } _ _ howned (fun j => ?_) hwake
    rw [halive, h.alive, client_iff]
    exact or_congr (hloop nofun j) Iff.rfl
  | failed =>
    cases hwake
    refine ⟨howned, fun j => ?_⟩
    rw [halive, or_iff_left nofun, h.alive]
    exact hloop nofun j
  | parked =>
    cases hwake
    have hsame : Same s { s with m := m } := ⟨rfl, rfl, haccepting, rfl⟩
    refine ⟨howned, fun j => ?_⟩
    rw [halive, or_iff_left nofun, h.alive, hsame.refs]

theorem step_tended (h : Tended base s) (op : Op ρ α) (hstep : s.step net thread val op = some s') : Tended base s' := by
  cases op with
  | bind addrs fails =>
    obtain ⟨⟨s₁, fails', ok⟩, hbind, rfl⟩ := Option.map_eq_some_iff.1 hstep
    exact (bind_spec h hbind).1
  | start =>
    cases hstep
    unfold start
    split
    · refine ⟨h.owned, fun j => ?_⟩
      rw [h.alive, mem_refs, mem_refs]
      unfold Busy
      -- the loops point to sockets of `m_socks`
      have hloops : (∃ t ∈ s.socks.map TcpTask.accept, t.sock? = some j) ↔ j ∈ s.socks := by
        simp [TcpTask.sock?]
      simp only [List.mem_append, or_and_right, exists_or]
      rw [hloops]
      constructor
      · rintro (hj | htask | hacc)
        · exact .inl hj
        · exact .inr (.inl (.inl htask))
        · exact .inr (.inr hacc)
      · rintro (hj | (htask | hj) | hacc)
        · exact .inl hj
        · exact .inr (.inl htask)
        · exact .inl hj
        · exact .inr (.inr hacc)
    · exact h
  | stop =>
    cases hstep
    refine ⟨h.owned, fun j => ?_⟩
    unfold stop
    rw [h.alive, mem_refs, mem_refs, busy_snoc]
    exact or_congr Iff.rfl (or_iff_left nofun).symm
  | run fuel k => exact run_tended h hstep
  | wake fuel k => exact wake_tended h hstep
  | giveUp k =>
    obtain ⟨a, ha, hend⟩ := Option.bind_eq_some_iff.1 hstep
    cases hend
    refine ⟨h.owned.quiet (.refl _) _ _, fun j => (h.alive j).trans ?_⟩
    rw [mem_refs, mem_refs, busy_snoc, busy_wake ha]
    exact or_congr Iff.rfl (or_congr Iff.rfl (Option.some.injEq _ _).to_iff.symm)
  | closeClient c =>
    unfold step at hstep
    dsimp only at hstep
    split at hstep
    · obtain ⟨⟨m, b⟩, hclose, rfl⟩ := Option.map_eq_some_iff.1 hstep
      exact h.on Socket.close_obeys hclose
    · cases hstep
  | destruct =>
    unfold step destruct at hstep
    dsimp only at hstep
    split at hstep
    · obtain ⟨m, hloop, hclear⟩ := Option.bind_eq_some_iff.1 hstep
      obtain ⟨howned, halive, haccepting⟩ := foldlM_tended closeOne_tended h.owned hloop
      have hsame : Same s { s with m := m } := ⟨rfl, rfl, haccepting, rfl⟩
      refine (clear_tended s.socks (s := { s with m := m }) ⟨howned, fun j => ?_⟩ rfl hclear).1
      rw [halive, h.alive, hsame.refs]
    · cases hstep
  | elsewhere e =>
    cases hstep
    exact ⟨h.owned.quiet (e.quiet s.m.p) _ _, h.alive⟩

/-! ## Every run -/

/-- When nothing points to a socket, the descriptors of before are open. -/
theorem Tended.done (h : Tended base s) (hrefs : s.refs = []) : s.m.opened = base := by
  ext fd
  rw [h.owned.exact.out_iff]
  refine or_iff_left ?_
  rintro ⟨i, hi⟩
  obtain ⟨c, hc, -⟩ := Option.bind_eq_some_iff.1 hi
  have halive : s.m.Alive i := by
    unfold Alive
    rw [hc]
    rfl
  rw [h.alive, hrefs] at halive
  cases halive

theorem refs_of_nil (hsocks : s.socks = []) (htasks : s.tasks = []) (hacc : s.m.accepting = []) : s.refs = [] := by
  rw [refs, hsocks, htasks, hacc]
  rfl

/-- A server on the threads of its workers. -/
abbrev Serves (net : Net ρ α) (s₀ : TcpServer ρ α) (hist : List (TcpServer ρ α × Thread × Addr × Op ρ α))
    (s : TcpServer ρ α) : Prop :=
  Runs.Run (fun s a => s.step net a.1 a.2.1 a.2.2) s₀ hist s

theorem tended_of_serves {s₀ : TcpServer ρ α} {hist : List (TcpServer ρ α × Thread × Addr × Op ρ α)}
    (hobjs : ∀ i, s₀.m.objs i = none) (hrefs : s₀.refs = []) (hgood : Good s₀.m.p) (h : Serves net s₀ hist s) :
    Tended s₀.m.opened s := by
  have hstart : Tended s₀.m.opened s₀ := by
    refine ⟨owned_start hobjs hgood, fun j => ?_⟩
    unfold Alive
    rw [hobjs, hrefs]
    exact ⟨nofun, nofun⟩
  exact h.always hstart fun s a s' hs hstep => step_tended hs _ hstep

/-- A server on two descriptors. -/
def twoServer : TcpServer Unit Unit := ⟨noSockets, [], true, 0, []⟩

/-- It listens, accepts a client and is stopped before the client is done. -/
def serveOne : List (Thread × Addr × Op Unit Unit) :=
  [.bind [()] [], .start, .run 1 0, .stop, .run 1 2, .run 1 0, .run 1 0].map fun op => (⟨true, 1, some 1⟩, 8, op)

end TcpServer

end Linko

import Linko.Socket.Model
/-!
# Who owns a descriptor

Whatever the fibers do, an open descriptor is one that was open before or the one of
exactly one object: none is lost, none is closed twice, and no object uses one that
another object or the rest of the process has.
-/

namespace Linko

open Hook

variable {ρ α β : Type}

namespace Sockets

/-! ## What the hooks do to the descriptors -/

section Hooks

variable {os : Os ρ} {p q : Process ρ} {w : World ρ} {fd : Int}

theorem Quiet.refl (p : Process ρ) : Quiet p p := ⟨rfl, id⟩

theorem Quiet.trans {r : Process ρ} (h : Quiet p q) (h' : Quiet q r) : Quiet p r :=
  ⟨h'.1.trans h.1, h'.2 ∘ h.2⟩

theorem quiet_world (h : kind w = kind p.world) : Quiet p { p with world := w } := ⟨h, id⟩

theorem kind_setFlags {f : File} (hf : w.files fd = some f) (flags : BitVec 32) : kind (w.setFlags fd f flags) = kind w := by
  funext x
  unfold kind World.setFlags
  by_cases hx : x = fd
  · subst hx
    simp [hf]
  · simp [hx]

theorem kind_fcntl (c : Fcntl) (hc : c = .getfl ∨ ∃ flags, c = .setfl flags) : kind (original os (.fcntl fd c) w).1 = kind w := by
  rcases hc with rfl | ⟨flags, rfl⟩
  · unfold original
    dsimp only
    cases hf : w.files fd with
    | none => rfl
    | some f => rfl
  · unfold original
    dsimp only
    cases hf : w.files fd with
    | none => rfl
    | some f =>
      dsimp only
      split
      · rfl
      · exact kind_setFlags hf _

theorem kind_init : kind (FdCtx.init os w fd).1 = kind w := by
  have hstat : kind (fstat w fd).1 = kind w := by
    unfold fstat
    split <;> rfl
  unfold FdCtx.init
  dsimp only
  split
  · split
    · rw [kind_fcntl _ (.inl rfl), hstat]
    · rw [kind_fcntl _ (.inr ⟨_, rfl⟩), kind_fcntl _ (.inl rfl), hstat]
  · exact hstat

theorem managed_init (h : kind w fd = some true) : (FdCtx.init os w fd).2.managed = true := by
  unfold kind at h
  obtain ⟨f, hf, hs⟩ := Option.map_eq_some_iff.1 h
  rw [(@init_socket _ os fd f w hf hs).2]
  rfl

/-- The other entries when a context is created. -/
theorem entry_create {o : Option FdCtx} (hfd : 0 ≤ fd) (h : Hook.create os p fd = some (q, o)) {x : Int} (hx : x ≠ fd) :
    entry q.datas x = entry p.datas x := by
  unfold Hook.create at h
  dsimp only at h
  split at h
  · cases h
  · simp only [Option.some.injEq, Prod.mk.injEq] at h
    obtain ⟨rfl, -⟩ := h
    unfold entry
    split
    · rfl
    · have hne : fd.toNat ≠ x.toNat := by omega
      simp only [Process.put, List.getElem?_set_ne hne]
      unfold resize
      split
      · by_cases hin : x.toNat < p.datas.length
        · rw [List.getElem?_append_left hin]
        · rw [List.getElem?_append_right (by omega), List.getElem?_eq_none (by omega : p.datas.length ≤ x.toNat)]
          rw [List.getElem?_replicate]
          split <;> rfl
      · rfl

/-- `get` makes sure that the descriptor of a socket has a context. -/
theorem get_socket {o : Option FdCtx} (hfd : 0 ≤ fd) (h : Hook.get os p fd true = some (q, o)) (hkind : kind p.world fd = some true) :
    Quiet p q ∧ (Good p → ∃ ctx, entry q.datas fd = some ctx ∧ ctx.managed = true) := by
  rcases get_true hfd h with ⟨ctx, hentry, rfl, -⟩ | ⟨hnone, hworld, -, hentry⟩
  · exact ⟨.refl _, fun hgood => ⟨ctx, hentry, hgood fd ctx hentry⟩⟩
  · have hcreate : Hook.create os p fd = some (q, o) := by
      have hne : fd ≠ -1 := by omega
      have hpos : ¬ fd < 0 := by omega
      unfold Hook.get at h
      rw [if_neg hne] at h
      simp only [Bool.true_eq_false, if_false, hpos, hnone] at h
      split at h <;> exact h
    refine ⟨⟨by rw [hworld, kind_init], fun hgood x ctx hx => ?_⟩, fun _ => ⟨_, hentry, managed_init hkind⟩⟩
    by_cases hxfd : x = fd
    · subst hxfd
      rw [hentry] at hx
      obtain rfl := Option.some.inj hx
      exact managed_init hkind
    · rw [entry_create hfd hcreate hxfd] at hx
      exact hgood x ctx hx

theorem good_del (h : Good p) : Good (del p fd) := by
  intro x ctx hx
  unfold del at hx
  split at hx
  · exact h x ctx hx
  · refine h x ctx ?_
    unfold entry at hx ⊢
    split at hx
    · cases hx
    · rename_i hpos
      rw [if_neg hpos]
      dsimp only at hx
      rw [List.getElem?_set] at hx
      split at hx
      · split at hx <;> cases hx
      · exact hx

end Hooks

end Sockets

namespace Socket

open Sockets

/-! ## What a member function does to its object -/

/-- A member function keeps the descriptor of its object, opens one for an object that has
none, or closes the one that the object has. -/
inductive Moves : Process ρ → Socket α → Process ρ → Socket α → Prop where
  | keeps {p q : Process ρ} {s s' : Socket α} : Quiet p q → s'.sock = s.sock → Moves p s q s'
  | opens {p q : Process ρ} {s s' : Socket α} : s.sock = -1 → 0 ≤ s'.sock → kind p.world s'.sock = none →
      kind q.world = Function.update (kind p.world) s'.sock (some true) → (Good p → Good q) → Moves p s q s'
  | closes {p q : Process ρ} {s s' : Socket α} : s.sock ≠ -1 → s'.sock = -1 →
      kind q.world = Function.update (kind p.world) s.sock none → (Good p → Good q) → Moves p s q s'
  | trans {p q r : Process ρ} {s s' s'' : Socket α} : Moves p s q s' → Moves q s' r s'' → Moves p s r s''

/-- In all its runs. -/
def Obeys (f : Member ρ α β) : Prop := ∀ p s q s' b, f p s = some (q, s', b) → Moves p s q s'

variable {net : Net ρ α} {thread : Thread} {val : Addr} {p q : Process ρ} {s s' : Socket α} {b : β}

theorem setFlag_quiet {sock level option : Int}
    (h : ¬ (level = solSocket ∧ (option = soRcvtimeo ∨ option = soSndtimeo)))
    (hset : setFlag net thread val p sock level option = some q) : Quiet p q := by
  unfold setFlag setsockopt at hset
  rw [if_neg h] at hset
  have hq : some { p with world := (net.os.call (.setsockopt sock level option val 4) p.world).1 } = some q := by
    split at hset <;> exact hset
  obtain rfl := Option.some.inj hq
  exact quiet_world (net.setsockopt_keeps ..)

theorem initSock_spec {u : Unit} (h : initSock net thread val p s = some (q, s', u)) : Quiet p q ∧ s' = s := by
  simp only [initSock, Option.bind_eq_bind, Option.bind_eq_some_iff] at h
  obtain ⟨p₁, hreuse, h⟩ := h
  have h₁ := setFlag_quiet (by decide) hreuse
  split at h
  · obtain ⟨p₂, hdelay, h⟩ := Option.bind_eq_some_iff.1 h
    cases h
    exact ⟨h₁.trans (setFlag_quiet (by decide) hdelay), rfl⟩
  · cases h
    exact ⟨h₁, rfl⟩

theorem newSock_moves {u : Unit} (hs : s.sock = -1) (h : newSock net thread val p s = some (q, s', u)) :
    Moves p s q s' := by
  unfold newSock at h
  split at h
  · rename_i p₁ sock hsocket
    -- the hooked call opens the descriptor, `initSock` leaves it
    have hopen : sock = -1 ∧ Quiet p p₁ ∨ 0 ≤ sock ∧ kind p.world sock = none ∧
        kind p₁.world = Function.update (kind p.world) sock (some true) ∧ (Good p → Good p₁) := by
      have hopens := net.socket_opens s.family s.type s.protocol p.world
      have horiginal : original net.os (.socket s.family s.type s.protocol) p.world =
          net.os.call (.socket s.family s.type s.protocol) p.world := rfl
      unfold Hook.socket Process.original at hsocket
      rw [horiginal] at hsocket
      generalize net.os.call (.socket s.family s.type s.protocol) p.world = r at hopens hsocket
      obtain ⟨w, fd⟩ := r
      dsimp only at hsocket
      split at hsocket
      · cases hsocket
        rcases hopens with ⟨hfd, hkind⟩ | ⟨hfd, hnone, hkind⟩
        · exact .inl ⟨hfd, quiet_world hkind⟩
        · exact .inr ⟨hfd, hnone, hkind, id⟩
      · split at hsocket
        · rename_i hfd
          cases hsocket
          rcases hopens with ⟨-, hkind⟩ | ⟨hpos, -, -⟩
          · exact .inl ⟨hfd, quiet_world hkind⟩
          · exact absurd hpos (by dsimp only at hfd ⊢; omega)
        · rename_i hfd
          rcases hopens with ⟨hneg, -⟩ | ⟨hpos, hnone, hkind⟩
          · exact absurd hneg hfd
          · split at hsocket
            · cases hsocket
            · rename_i hget
              cases hsocket
              obtain ⟨hquiet, -⟩ := get_socket hpos hget ((congrFun hkind _).trans (Function.update_self ..))
              exact .inr ⟨hpos, hnone, hquiet.1.trans hkind, hquiet.2⟩
    split at h
    · obtain ⟨hquiet, rfl⟩ := initSock_spec h
      rcases hopen with ⟨hneg, -⟩ | ⟨hpos, hnone, hkind, hgood⟩
      · contradiction
      · exact .opens hs hpos hnone (hquiet.1.trans hkind) (hquiet.2 ∘ hgood)
    · cases h
      rcases hopen with ⟨hneg, hquiet⟩ | ⟨hpos, -⟩
      · exact .keeps hquiet (hneg.trans hs.symm)
      · exact absurd hpos (by omega)
  · cases h

theorem ensure_moves {v : Bool} (h : ensure net thread val p s = some (q, s', v)) : Moves p s q s' := by
  unfold ensure at h
  split at h
  · cases h
    exact .keeps (.refl p) rfl
  · rename_i hvalid
    obtain ⟨⟨p₁, s₁, u⟩, hnew, h⟩ := Option.bind_eq_some_iff.1 h
    cases h
    exact newSock_moves (by simpa [isValid] using hvalid) hnew

theorem getLocalAddress_spec {u : Unit} (h : getLocalAddress net p s = some (q, s', u)) :
    Quiet p q ∧ s'.sock = s.sock := by
  unfold getLocalAddress at h
  split at h <;> cases h
  · exact ⟨.refl p, rfl⟩
  · exact ⟨quiet_world (net.getsockname_keeps ..), rfl⟩

theorem getRemoteAddress_spec {u : Unit} (h : getRemoteAddress net p s = some (q, s', u)) :
    Quiet p q ∧ s'.sock = s.sock := by
  unfold getRemoteAddress at h
  split at h <;> cases h
  · exact ⟨.refl p, rfl⟩
  · exact ⟨quiet_world (net.getpeername_keeps ..), rfl⟩

theorem bind_obeys (addr : α) : Obeys (bind net thread val addr) := by
  intro p s q s' b h
  obtain ⟨⟨p₁, s₁, v⟩, hensure, h⟩ := Option.bind_eq_some_iff.1 h
  have hmoves := ensure_moves hensure
  dsimp only at h
  split at h
  · cases h
    exact hmoves
  · split at h
    · cases h
      exact hmoves
    · have hbind : Quiet p₁ { p₁ with world := (net.bind s₁.sock addr p₁.world).1 } := quiet_world (net.bind_keeps ..)
      split at h
      · cases h
        exact hmoves.trans (.keeps hbind rfl)
      · obtain ⟨⟨p₂, s₂, u⟩, hlocal, h⟩ := Option.bind_eq_some_iff.1 h
        cases h
        obtain ⟨hquiet, hsock⟩ := getLocalAddress_spec hlocal
        exact hmoves.trans (.keeps (hbind.trans hquiet) hsock)

theorem listen_obeys : Obeys (listen net) := by
  intro p s q s' b h
  unfold listen at h
  split at h <;> cases h
  · exact .keeps (.refl p) rfl
  · exact .keeps (quiet_world (net.listen_keeps ..)) rfl

/-- The hook of `close` closes. -/
theorem hookClose_closes {fd : Int} (h : (Hook.close net.os thread p fd).process? = some q) :
    kind q.world = Function.update (kind p.world) fd none ∧ (Good p → Good q) := by
  have horiginal : ∀ p₁ : Process ρ, p₁.world = p.world → (Good p → Good p₁) →
      (p₁.original net.os (.close fd)).process? = some q →
      kind q.world = Function.update (kind p.world) fd none ∧ (Good p → Good q) := by
    intro p₁ hworld hgood hq
    obtain rfl := Option.some.inj hq
    exact ⟨(net.close_closes fd p₁.world).trans (by rw [hworld]), hgood⟩
  unfold Hook.close at h
  split at h
  · exact horiginal p rfl id h
  · split at h
    · cases h
    · exact horiginal p rfl id h
    · have hworld : ∀ p₁ : Process ρ, (del p₁ fd).world = p₁.world := fun p₁ => by
        unfold del
        split <;> rfl
      split at h
      · exact horiginal _ (hworld p) good_del h
      · split at h
        · cases h
        · rename_i io r out hcancel
          have hgood : Good p → Good { p with io := io, scheduled := p.scheduled ++ out } := id
          refine horiginal (del { p with io := io, scheduled := p.scheduled ++ out } fd) ?_ ?_ h
          · exact hworld _
          · exact fun hp => good_del (hgood hp)

theorem close_obeys : Obeys (close net thread : Member ρ α Bool) := by
  intro p s q s' b h
  unfold close at h
  split at h
  · cases h
    exact .keeps (.refl p) rfl
  · dsimp only at h
    split at h
    · rename_i hsock
      obtain ⟨p₁, hclose, h⟩ := Option.bind_eq_some_iff.1 h
      cases h
      obtain ⟨hkind, hgood⟩ := hookClose_closes hclose
      exact .closes hsock rfl hkind hgood
    · cases h
      exact .keeps (.refl p) rfl

theorem connected_obeys (ok : Bool) : Obeys (connected net thread ok : Member ρ α Bool) := by
  intro p s q s' b h
  unfold connected at h
  split at h
  · obtain ⟨⟨p₁, s₁, v⟩, hclose, h⟩ := Option.bind_eq_some_iff.1 h
    cases h
    exact close_obeys _ _ _ _ _ hclose
  · obtain ⟨⟨p₁, s₁, u⟩, hremote, h⟩ := Option.bind_eq_some_iff.1 h
    obtain ⟨⟨p₂, s₂, u'⟩, hlocal, h⟩ := Option.bind_eq_some_iff.1 h
    cases h
    obtain ⟨hquiet₁, hsock₁⟩ := getRemoteAddress_spec hremote
    obtain ⟨hquiet₂, hsock₂⟩ := getLocalAddress_spec hlocal
    exact .keeps (hquiet₁.trans hquiet₂) (hsock₂.trans hsock₁)

/-- The hook of `connect` opens and closes nothing. -/
theorem connectWithTimeout_quiet {fd : Int} {ptr : Addr} {len : UInt32} {timeoutMs : UInt64}
    (h : (∃ rt, connectWithTimeout net.os thread p fd ptr len timeoutMs = .returns q rt) ∨
      ∃ wait t, connectWithTimeout net.os thread p fd ptr len timeoutMs = .waits q wait t) : Quiet p q := by
  have hcall : Quiet p { p with world := (original net.os (.connect fd ptr len) p.world).1 } :=
    quiet_world (net.connect_keeps ..)
  have hfail : ∀ e, Quiet p { p with world := { p.world with errno := e } } := fun e => ⟨rfl, id⟩
  unfold connectWithTimeout Process.original Process.fail at h
  dsimp only at h
  rcases h with ⟨rt, h⟩ | ⟨wait, t, h⟩
  · repeat' split at h
    all_goals cases h
    all_goals first | exact hcall | exact hfail _
  · repeat' split at h
    all_goals cases h
    exact hcall

theorem connect_obeys (addr : α) (ptr : Addr) (len : UInt32) (timeoutMs : UInt64) :
    Obeys (connect net thread val addr ptr len timeoutMs) := by
  intro p s q s' b h
  obtain ⟨⟨p₁, s₁, v⟩, hensure, h⟩ := Option.bind_eq_some_iff.1 h
  have hmoves := ensure_moves hensure
  dsimp only at h
  split at h
  · cases h
    exact hmoves
  · split at h
    · cases h
      exact hmoves
    · -- either call is the hooked one with some timeout
      obtain ⟨t, hcall⟩ : ∃ t, (if timeoutMs = -1 then Hook.connect net.os thread p₁ s₁.sock ptr len
          else connectWithTimeout net.os thread p₁ s₁.sock ptr len timeoutMs) =
          connectWithTimeout net.os thread p₁ s₁.sock ptr len t := by
        split
        · exact ⟨p₁.connectTimeout, rfl⟩
        · exact ⟨timeoutMs, rfl⟩
      rw [hcall] at h
      split at h
      · rename_i p₂ rt hret
        obtain ⟨⟨p₃, s₃, v'⟩, hconnected, h⟩ := Option.bind_eq_some_iff.1 h
        cases h
        have hquiet : Moves p₁ s₁ p₂ s₁ := .keeps (connectWithTimeout_quiet (.inl ⟨rt, hret⟩)) rfl
        exact (hmoves.trans hquiet).trans (connected_obeys _ _ _ _ _ _ hconnected)
      · rename_i p₂ wait t' hwait
        cases h
        exact hmoves.trans (.keeps (connectWithTimeout_quiet (.inr ⟨wait, t', hwait⟩)) rfl)
      · cases h

/-- `init` takes the descriptor if its context is that of a socket. -/
theorem init_spec {sock : Int} {ok : Bool} (hctx : ∃ ctx, entry p.datas sock = some ctx ∧ ctx.managed = true)
    (h : init net thread val sock p s = some (q, s', ok)) : ok = true ∧ s'.sock = sock ∧ Quiet p q := by
  obtain ⟨ctx, hentry, hmanaged⟩ := hctx
  unfold init at h
  rw [get_entry hentry false] at h
  dsimp only at h
  rw [if_pos hmanaged] at h
  obtain ⟨⟨p₁, s₁, u₁⟩, hinit, h⟩ := Option.bind_eq_some_iff.1 h
  obtain ⟨⟨p₂, s₂, u₂⟩, hlocal, h⟩ := Option.bind_eq_some_iff.1 h
  obtain ⟨⟨p₃, s₃, u₃⟩, hremote, h⟩ := Option.bind_eq_some_iff.1 h
  cases h
  obtain ⟨hquiet₁, rfl⟩ := initSock_spec hinit
  obtain ⟨hquiet₂, hsock₂⟩ := getLocalAddress_spec hlocal
  obtain ⟨hquiet₃, hsock₃⟩ := getRemoteAddress_spec hremote
  exact ⟨rfl, hsock₃.trans hsock₂, (hquiet₁.trans hquiet₂).trans hquiet₃⟩

end Socket

namespace Sockets

open Socket

variable {net : Net ρ α} {thread : Thread} {val : Addr} {base : Set Int} {m m' : Sockets ρ α}

/-! ## The objects of a process -/

/-- The descriptor of an object. -/
def fd? (s : Socket α) : Option Int := if s.sock = -1 then none else some s.sock

/-- The descriptors that the objects have. -/
def held (m : Sockets ρ α) (i : Nat) : Option Int := (m.objs i).bind fd?

/-- The descriptors that are open. -/
def opened (m : Sockets ρ α) : Set Int := {fd | (kind m.p.world fd).isSome = true}

/-- Open are the descriptors of before and those of the objects, each of one object. -/
structure Owned (base : Set Int) (m : Sockets ρ α) : Prop where
  exact : Holdings.Exact m.held base m.opened
  sockets : ∀ i fd, m.held i = some fd → kind m.p.world fd = some true
  good : Good m.p
  unborn : ∀ i, m.next ≤ i → m.objs i = none

theorem held_update (m : Sockets ρ α) (i : Nat) (o : Option (Socket α)) :
    (fun j => (Function.update m.objs i o j).bind fd?) = Function.update m.held i (o.bind fd?) := by
  funext j
  by_cases hj : j = i
  · subst hj
    rw [Function.update_self, Function.update_self]
  · rw [Function.update_of_ne hj, Function.update_of_ne hj]
    rfl

/-- `fd?` of an object that has a descriptor. -/
theorem fd?_of_ne {s : Socket α} (h : s.sock ≠ -1) : fd? s = some s.sock := if_neg h

theorem fd?_of_eq {s : Socket α} (h : s.sock = -1) : fd? s = none := if_pos h

theorem opened_update {m : Sockets ρ α} {q : Process ρ} {fd : Int} {o : Option Bool}
    (h : kind q.world = Function.update (kind m.p.world) fd o) :
    {x | (kind q.world x).isSome = true} = if o.isSome then insert fd m.opened else m.opened \ {fd} := by
  ext x
  show (kind q.world x).isSome = true ↔ _
  rw [h]
  by_cases hx : x = fd
  · subst hx
    rw [Function.update_self]
    split <;> simp [*]
  · rw [Function.update_of_ne hx]
    split <;> simp [opened, hx]

theorem Owned.unborn_update (h : Owned base m) {i : Nat} {s : Socket α} (hi : m.objs i = some s)
    (o : Option (Socket α)) : ∀ j, m.next ≤ j → Function.update m.objs i o j = none := by
  intro j hj
  have hne : j ≠ i := by
    rintro rfl
    rw [h.unborn j hj] at hi
    cases hi
  rw [Function.update_of_ne hne]
  exact h.unborn j hj

theorem Owned.keeps (h : Owned base m) {i : Nat} {s s' : Socket α} {q : Process ρ} (hi : m.objs i = some s)
    (hquiet : Quiet m.p q) (hsock : s'.sock = s.sock) :
    Owned base { m with p := q, objs := Function.update m.objs i (some s') } := by
  have hheld : held { m with p := q, objs := Function.update m.objs i (some s') } = m.held := by
    have hfd : (some s').bind fd? = m.held i := by
      rw [held, hi]
      simp only [Option.bind_some, fd?, hsock]
    refine (held_update m i (some s')).trans ?_
    rw [hfd, Function.update_eq_self]
  have hopened : opened { m with p := q, objs := Function.update m.objs i (some s') } = m.opened := by
    unfold opened
    rw [hquiet.1]
  refine ⟨?_, ?_, hquiet.2 h.good, h.unborn_update hi _⟩
  · rw [hheld, hopened]
    exact h.exact
  · rw [hheld]
    intro j fd hj
    exact (congrFun hquiet.1 fd).trans (h.sockets j fd hj)

theorem Owned.opens (h : Owned base m) {i : Nat} {s s' : Socket α} {q : Process ρ} (hi : m.objs i = some s)
    (hs : s.sock = -1) (hpos : 0 ≤ s'.sock) (hnone : kind m.p.world s'.sock = none)
    (hkind : kind q.world = Function.update (kind m.p.world) s'.sock (some true)) (hgood : Good m.p → Good q) :
    Owned base { m with p := q, objs := Function.update m.objs i (some s') } := by
  have hheld : held { m with p := q, objs := Function.update m.objs i (some s') } =
      Function.update m.held i (some s'.sock) := by
    refine (held_update m i (some s')).trans ?_
    rw [Option.bind_some, fd?_of_ne (by omega)]
  have hopened : opened { m with p := q, objs := Function.update m.objs i (some s') } =
      insert s'.sock m.opened := opened_update hkind
  have hfree : m.held i = none := by
    rw [held, hi]
    exact fd?_of_eq hs
  have hout : s'.sock ∉ m.opened := by
    show ¬ (kind m.p.world s'.sock).isSome = true
    rw [hnone]
    nofun
  refine ⟨?_, ?_, hgood h.good, h.unborn_update hi _⟩
  · rw [hheld, hopened]
    exact h.exact.take hfree hout
  · rw [hheld]
    intro j fd hj
    show kind q.world fd = _
    rw [hkind]
    by_cases hji : j = i
    · subst hji
      rw [Function.update_self] at hj
      obtain rfl := Option.some.inj hj
      exact Function.update_self ..
    · rw [Function.update_of_ne hji] at hj
      have hne : fd ≠ s'.sock := by
        rintro rfl
        exact hout (h.exact.mem_out hj)
      rw [Function.update_of_ne hne]
      exact h.sockets j fd hj

theorem Owned.closes (h : Owned base m) {i : Nat} {s : Socket α} {o : Option (Socket α)} {q : Process ρ}
    (hi : m.objs i = some s) (hs : s.sock ≠ -1) (ho : o.bind fd? = none)
    (hkind : kind q.world = Function.update (kind m.p.world) s.sock none) (hgood : Good m.p → Good q) :
    Owned base { m with p := q, objs := Function.update m.objs i o } := by
  have hheld : held { m with p := q, objs := Function.update m.objs i o } = Function.update m.held i none := by
    refine (held_update m i o).trans ?_
    rw [ho]
  have hopened : opened { m with p := q, objs := Function.update m.objs i o } = m.opened \ {s.sock} :=
    opened_update hkind
  have hhas : m.held i = some s.sock := by
    rw [held, hi]
    exact fd?_of_ne hs
  refine ⟨?_, ?_, hgood h.good, h.unborn_update hi _⟩
  · rw [hheld, hopened]
    exact h.exact.drop hhas
  · rw [hheld]
    intro j fd hj
    have hji : j ≠ i := by
      rintro rfl
      rw [Function.update_self] at hj
      cases hj
    rw [Function.update_of_ne hji] at hj
    have hne : fd ≠ s.sock := by
      rintro rfl
      exact hji (h.exact.one j i _ hj hhas)
    show kind q.world fd = _
    rw [hkind, Function.update_of_ne hne]
    exact h.sockets j fd hj

/-- What a member function does to its object keeps the ownership. -/
theorem Owned.moves (h : Owned base m) {i : Nat} {s s' : Socket α} {q : Process ρ} (hi : m.objs i = some s)
    (hmoves : Moves m.p s q s') : Owned base { m with p := q, objs := Function.update m.objs i (some s') } := by
  generalize hp : m.p = p at hmoves
  induction hmoves generalizing m with
  | keeps hquiet hsock =>
    subst hp
    exact h.keeps hi hquiet hsock
  | opens hs hpos hnone hkind hgood =>
    subst hp
    exact h.opens hi hs hpos hnone hkind hgood
  | closes hs hs' hkind hgood =>
    subst hp
    exact h.closes hi hs (fd?_of_eq hs') hkind hgood
  | trans _ _ ih₁ ih₂ =>
    have hmid := ih₁ h hi hp
    have hend := ih₂ hmid (Function.update_self ..) rfl
    simpa only [Function.update_idem] using hend

theorem Owned.on (h : Owned base m) {i : Nat} {f : Member ρ α β} (hf : Obeys f) {b : β}
    (hon : m.on i f = some (m', b)) : Owned base m' := by
  obtain ⟨s, hi, hon⟩ := Option.bind_eq_some_iff.1 hon
  obtain ⟨⟨q, s', b'⟩, hcall, hon⟩ := Option.bind_eq_some_iff.1 hon
  cases hon
  exact h.moves hi (hf _ _ _ _ _ hcall)

/-- Neither the calls that are parked nor a process that opens and closes nothing matter. -/
theorem Owned.quiet (h : Owned base m) {q : Process ρ} (hquiet : Quiet m.p q) (accepting : List (Accepting α))
    (connecting : List Nat) : Owned base { m with p := q, accepting := accepting, connecting := connecting } := by
  refine ⟨?_, fun i fd hi => (congrFun hquiet.1 fd).trans (h.sockets i fd hi), hquiet.2 h.good, h.unborn⟩
  have hopened : opened { m with p := q, accepting := accepting, connecting := connecting } = m.opened := by
    unfold opened
    rw [hquiet.1]
  rw [hopened]
  exact h.exact

theorem Owned.create (h : Owned base m) {s : Socket α} (hs : s.sock = -1) : Owned base (m.create s).1 := by
  have hnone : m.objs m.next = none := h.unborn _ (Nat.le_refl _)
  have hheld : held (m.create s).1 = m.held := by
    refine (held_update m m.next (some s)).trans ?_
    rw [Option.bind_some, fd?_of_eq hs]
    refine Function.update_eq_self_iff.2 ?_
    rw [held, hnone]
    rfl
  refine ⟨?_, ?_, h.good, fun j hj => ?_⟩
  · rw [hheld]
    exact h.exact
  · rw [hheld]
    exact h.sockets
  · have hj : m.next + 1 ≤ j := hj
    show Function.update m.objs m.next (some s) j = none
    rw [Function.update_of_ne (by omega)]
    exact h.unborn j (by omega)

/-! ## Accepting -/

/-- A call of `accept` that returns: the new descriptor has a context. -/
def Accepts (p q : Process ρ) (newsock : Int) : Prop :=
  (newsock = -1 ∧ Quiet p q) ∨
    (0 ≤ newsock ∧ kind p.world newsock = none ∧
      kind q.world = Function.update (kind p.world) newsock (some true) ∧ (Good p → Good q) ∧
      (Good p → ∃ ctx, entry q.datas newsock = some ctx ∧ ctx.managed = true))

theorem accepts_get {p q : Process ρ} {w : World ρ} {n : Int} (h : Opens p.world (w, n))
    (hget : addContext net { p with world := w } n = some q) : Accepts p q n := by
  unfold addContext at hget
  rcases h with ⟨hneg, hkind⟩ | ⟨hpos, hnone, hkind⟩
  · have hneg : n = -1 := hneg
    rw [if_neg (by omega)] at hget
    cases hget
    exact .inl ⟨hneg, quiet_world hkind⟩
  · rw [if_pos hpos] at hget
    obtain ⟨⟨q', o⟩, hcreated, rfl⟩ := Option.map_eq_some_iff.1 hget
    obtain ⟨hquiet, hctx⟩ := get_socket hpos hcreated ((congrFun hkind _).trans (Function.update_self ..))
    exact .inr ⟨hpos, hnone, hquiet.1.trans hkind, hquiet.2, hctx⟩

theorem uninterrupted_opens {s : Int} {addr addrlen : Addr} {fuel : Nat} {w : World ρ} {r : World ρ × Int}
    (h : uninterrupted net.os (.accept s addr addrlen) fuel w = some r) : Opens w r := by
  induction fuel generalizing w with
  | zero => cases h
  | succ fuel ih =>
    have hopens := net.accept_opens s addr addrlen w
    have horiginal : original net.os (.accept s addr addrlen) w = net.os.call (.accept s addr addrlen) w := rfl
    unfold uninterrupted at h
    rw [horiginal] at h
    generalize net.os.call (.accept s addr addrlen) w = r₁ at h hopens
    obtain ⟨w₁, n⟩ := r₁
    dsimp only at h
    split at h
    · -- an interrupted call has opened nothing
      rename_i hintr
      rcases hopens with ⟨-, hkind⟩ | ⟨hpos, -⟩
      · have hkind : kind w₁ = kind w := hkind
        have hrest := ih h
        unfold Opens at hrest ⊢
        rwa [hkind] at hrest
      · have hpos : 0 ≤ n := hpos
        omega
    · cases h
      exact hopens

theorem doIo_accept {p : Process ρ} {s : Int} {addr addrlen : Addr} {fuel : Nat} {r : Result ρ}
    (h : doIo net.os thread fuel p s (.accept s addr addrlen) .read soRcvtimeo = some r) :
    (∀ q n, r = .returns q n → ∃ w, q = { p with world := w } ∧ Opens p.world (w, n)) ∧
      ∀ q wait t, r = .waits q wait t → Quiet p q := by
  have hcall : Opens p.world (original net.os (.accept s addr addrlen) p.world) := net.accept_opens s addr addrlen p.world
  -- the branches that do not park
  have hret : ∀ w n, Opens p.world (w, n) → r = .returns { p with world := w } n →
      (∀ q n, r = .returns q n → ∃ w, q = { p with world := w } ∧ Opens p.world (w, n)) ∧
        ∀ q wait t, r = .waits q wait t → Quiet p q := by
    rintro w n hopens rfl
    refine ⟨fun q n' hq => ?_, nofun⟩
    cases hq
    exact ⟨w, rfl, hopens⟩
  unfold doIo at h
  split at h
  · exact hret _ _ hcall (Option.some.inj h).symm
  · split at h
    · cases h
      exact ⟨nofun, nofun⟩
    · exact hret _ _ hcall (Option.some.inj h).symm
    · split at h
      · refine hret { p.world with errno := ebadf } (-1) (.inl ⟨rfl, rfl⟩) (Option.some.inj h).symm
      · split at h
        · exact hret _ _ hcall (Option.some.inj h).symm
        · obtain ⟨⟨w, n⟩, hloop, h⟩ := Option.bind_eq_some_iff.1 h
          have hopens := uninterrupted_opens hloop
          dsimp only at h
          split at h
          · rename_i hagain
            split at h <;> cases h
            · exact ⟨nofun, nofun⟩
            · refine ⟨nofun, fun q wait t hq => ?_⟩
              cases hq
              rcases hopens with ⟨-, hkind⟩ | ⟨hpos, -⟩
              · exact quiet_world hkind
              · have hpos : 0 ≤ n := hpos
                omega
          · exact hret _ _ hopens (Option.some.inj h).symm

theorem hookAccept_spec {p : Process ρ} {s : Int} {fuel : Nat} {r : Result ρ}
    (h : Hook.accept net.os thread fuel p s 0 0 = some r) :
    (∀ q newsock, r = .returns q newsock → Accepts p q newsock) ∧ ∀ q wait t, r = .waits q wait t → Quiet p q := by
  obtain ⟨r₁, hio, h⟩ := Option.bind_eq_some_iff.1 h
  obtain ⟨hreturns, hwaits⟩ := doIo_accept hio
  cases r₁ with
  | returns q n =>
    obtain ⟨w, rfl, hopens⟩ := hreturns q n rfl
    dsimp only at h
    have haccepts : ∀ q', addContext net { p with world := w } n = some q' → Accepts p q' n := fun q' => accepts_get hopens
    unfold addContext at haccepts
    split at h
    · rename_i hpos
      rw [if_pos hpos] at haccepts
      split at h
      · cases h
        exact ⟨nofun, nofun⟩
      · rename_i q' o hget
        cases h
        refine ⟨fun q newsock hq => ?_, nofun⟩
        cases hq
        exact haccepts _ (by rw [hget]; rfl)
    · rename_i hneg
      rw [if_neg hneg] at haccepts
      cases h
      refine ⟨fun q newsock hq => ?_, nofun⟩
      cases hq
      exact haccepts _ rfl
  | waits q wait t =>
    cases h
    exact ⟨nofun, fun q' wait' t' hq => hwaits q' wait' t' hq⟩
  | sleeps q ms =>
    cases h
    exact ⟨nofun, nofun⟩
  | fault =>
    cases h
    exact ⟨nofun, nofun⟩

/-- An object that is made for a descriptor that has just been opened. -/
theorem Owned.born (h : Owned base m) {q : Process ρ} {s : Socket α} (hpos : 0 ≤ s.sock)
    (hnone : kind m.p.world s.sock = none) (hkind : kind q.world = Function.update (kind m.p.world) s.sock (some true))
    (hgood : Good m.p → Good q) : Owned base ({ m with p := q }.create s).1 := by
  have hcreated : Owned base (m.create (Socket.new 0 0 0)).1 := h.create rfl
  have hopened := hcreated.opens (Function.update_self ..) rfl hpos hnone hkind hgood
  have hobjs : Function.update (m.create (Socket.new 0 0 0)).1.objs m.next (some s) =
      Function.update m.objs m.next (some s) := Function.update_idem ..
  rw [hobjs] at hopened
  exact hopened

/-- The end of `accept`: the new object has the descriptor, or there is none. -/
theorem Owned.accepted (h : Owned base m) {q : Process ρ} {sock : Socket α} {newsock : Int} {r : Accepted}
    (haccepts : Accepts m.p q newsock) (accepting : List (Accepting α))
    (hacc : Sockets.accepted net thread val { m with p := q, accepting := accepting } sock newsock = some (m', r)) :
    Owned base m' := by
  unfold Sockets.accepted at hacc
  split at hacc
  · rename_i hneg
    cases hacc
    rcases haccepts with ⟨-, hquiet⟩ | ⟨hpos, -⟩
    · exact h.quiet hquiet _ _
    · omega
  · rename_i hne
    obtain ⟨⟨q', s', ok⟩, hinit, hend⟩ := Option.bind_eq_some_iff.1 hacc
    rcases haccepts with ⟨hneg, -⟩ | ⟨hpos, hnone, hkind, hgood, hctx⟩
    · exact absurd hneg hne
    · -- `init` finds the context, so that no descriptor is left without an object
      obtain ⟨rfl, rfl, hquiet⟩ := init_spec (hctx h.good) hinit
      cases hend
      have hm := h.quiet (.refl m.p) accepting m.connecting
      exact hm.born hpos hnone (hquiet.1.trans hkind) (hquiet.2 ∘ hgood)

theorem Owned.accept (h : Owned base m) {fuel i : Nat} {r : Accepted}
    (hacc : m.accept net thread val fuel i = some (m', r)) : Owned base m' := by
  obtain ⟨s, hi, hacc⟩ := Option.bind_eq_some_iff.1 hacc
  obtain ⟨r, hcall, hacc⟩ := Option.bind_eq_some_iff.1 hacc
  obtain ⟨hreturns, hwaits⟩ := hookAccept_spec hcall
  split at hacc
  · rename_i q newsock
    exact h.accepted (hreturns q newsock rfl) m.accepting hacc
  · rename_i q wait t
    cases hacc
    exact h.quiet (hwaits q wait t rfl) _ _
  · cases hacc

theorem Owned.acceptRetry (h : Owned base m) {fuel k : Nat} {r : Accepted}
    (hacc : m.acceptRetry net thread val fuel k = some (m', r)) : Owned base m' := by
  obtain ⟨a, hk, hacc⟩ := Option.bind_eq_some_iff.1 hacc
  obtain ⟨⟨w, n⟩, hloop, hacc⟩ := Option.bind_eq_some_iff.1 hacc
  have hopens := uninterrupted_opens hloop
  dsimp only at hacc
  split at hacc
  · cases hacc
    rcases hopens with ⟨-, hkind⟩ | ⟨hpos, -⟩
    · exact h.quiet (quiet_world hkind) _ _
    · have hpos : 0 ≤ n := hpos
      omega
  · obtain ⟨q, hget, hacc⟩ := Option.bind_eq_some_iff.1 hacc
    exact h.accepted (accepts_get hopens hget) _ hacc

/-! ## Every step -/

/-- An object without a descriptor goes. -/
theorem Owned.forget (h : Owned base m) {i : Nat} {s : Socket α} (hi : m.objs i = some s) (hs : s.sock = -1) :
    Owned base { m with objs := Function.update m.objs i none } := by
  have hheld : held { m with objs := Function.update m.objs i none } = m.held := by
    refine (held_update m i none).trans (Function.update_eq_self_iff.2 ?_)
    rw [held, hi]
    exact (fd?_of_eq hs).symm
  refine ⟨?_, ?_, h.good, h.unborn_update hi none⟩
  · rw [hheld]
    exact h.exact
  · rw [hheld]
    exact h.sockets

theorem close_sock {p q : Process ρ} {s s' : Socket α} {b : Bool}
    (h : Socket.close net thread p s = some (q, s', b)) : s'.sock = -1 := by
  unfold Socket.close at h
  split at h
  · rename_i hclosed
    cases h
    simp only [Bool.and_eq_true, decide_eq_true_eq] at hclosed
    exact hclosed.2
  · dsimp only at h
    split at h
    · obtain ⟨p₁, -, hend⟩ := Option.bind_eq_some_iff.1 h
      cases hend
      rfl
    · rename_i hsock
      cases h
      exact not_not.1 hsock

/-- The last pointer goes: the descriptor is closed. -/
theorem Owned.destroy (h : Owned base m) {i : Nat} {b : Bool} (hclose : m.on i (Socket.close net thread) = some (m', b)) :
    Owned base { m' with objs := Function.update m'.objs i none } := by
  have hclosed := h.on close_obeys hclose
  obtain ⟨s, hi, hclose⟩ := Option.bind_eq_some_iff.1 hclose
  obtain ⟨⟨q, s', b'⟩, hcall, hend⟩ := Option.bind_eq_some_iff.1 hclose
  cases hend
  have hi' : Function.update m.objs i (some s') i = some s' := Function.update_self ..
  exact hclosed.forget hi' (close_sock hcall)

theorem owned_step (h : Owned base m) (op : Op ρ α) (hstep : m.step net thread val op = some m') : Owned base m' := by
  cases op with
  | create family type protocol =>
    cases hstep
    exact h.create rfl
  | bind i addr =>
    obtain ⟨⟨m₁, b⟩, hon, rfl⟩ := Option.map_eq_some_iff.1 hstep
    exact h.on (bind_obeys addr) hon
  | listen i =>
    obtain ⟨⟨m₁, b⟩, hon, rfl⟩ := Option.map_eq_some_iff.1 hstep
    exact h.on listen_obeys hon
  | connect i addr ptr len timeoutMs =>
    obtain ⟨⟨m₁, b⟩, hon, hstep⟩ := Option.bind_eq_some_iff.1 hstep
    have howned := h.on (connect_obeys addr ptr len timeoutMs) hon
    dsimp only at hstep
    split at hstep <;> cases hstep
    · exact howned.quiet (.refl _) _ _
    · exact howned
  | connected i ok =>
    unfold step at hstep
    dsimp only at hstep
    split at hstep
    · obtain ⟨⟨m₁, b⟩, hon, rfl⟩ := Option.map_eq_some_iff.1 hstep
      exact (h.quiet (.refl _) _ _).on (connected_obeys ok) hon
    · cases hstep
  | accept i fuel =>
    obtain ⟨⟨m₁, o⟩, hacc, rfl⟩ := Option.map_eq_some_iff.1 hstep
    exact h.accept hacc
  | acceptRetry k fuel =>
    obtain ⟨⟨m₁, o⟩, hacc, rfl⟩ := Option.map_eq_some_iff.1 hstep
    exact h.acceptRetry hacc
  | acceptFails k =>
    unfold step at hstep
    dsimp only at hstep
    split at hstep <;> cases hstep
    exact h.quiet (.refl _) _ _
  | close i =>
    obtain ⟨⟨m₁, b⟩, hon, rfl⟩ := Option.map_eq_some_iff.1 hstep
    exact h.on close_obeys hon
  | destroy i =>
    obtain ⟨⟨m₁, b⟩, hon, hstep⟩ := Option.bind_eq_some_iff.1 hstep
    cases hstep
    exact h.destroy hon
  | elsewhere e =>
    cases hstep
    exact h.quiet (e.quiet m.p) _ _

theorem owned_start (hobjs : ∀ i, m.objs i = none) (hgood : Good m.p) : Owned m.opened m where
  exact := by
    have hheld : m.held = fun _ => none := funext fun i => by rw [held, hobjs i]; rfl
    rw [hheld]
    exact Holdings.exact_start
  sockets i fd hi := by
    rw [held, hobjs i] at hi
    cases hi
  good := hgood
  unborn i _ := hobjs i

/-- A socket in the world. -/
def openAt (w : World Unit) (fd : Int) : World Unit × Int :=
  ({ w with files := Function.update w.files fd (some ⟨true, 0⟩) }, fd)

/-- The first free one of two descriptors. -/
def openFirst (w : World Unit) : World Unit × Int :=
  if (w.files 3).isNone then openAt w 3 else if (w.files 4).isNone then openAt w 4 else (w, -1)

theorem kind_update (w : World Unit) (fd : Int) (o : Option File) :
    kind { w with files := Function.update w.files fd o } = Function.update (kind w) fd (o.map File.isSocket) := by
  funext x
  show (Function.update w.files fd o x).map File.isSocket = _
  by_cases hx : x = fd
  · subst hx
    rw [Function.update_self, Function.update_self]
  · rw [Function.update_of_ne hx, Function.update_of_ne hx]
    rfl

theorem openAt_opens {w : World Unit} {fd : Int} (hfd : 0 ≤ fd) (h : (w.files fd).isNone = true) : Opens w (openAt w fd) := by
  refine .inr ⟨hfd, ?_, kind_update w fd _⟩
  show (w.files fd).map File.isSocket = none
  rw [Option.isNone_iff_eq_none.1 h]
  rfl

theorem openFirst_opens (w : World Unit) : Opens w (openFirst w) := by
  unfold openFirst
  split
  · exact openAt_opens (by decide) ‹_›
  · split
    · exact openAt_opens (by decide) ‹_›
    · exact .inl ⟨rfl, rfl⟩

/-- A kernel with two descriptors, in which all else succeeds. -/
def twoFiles : Os Unit where
  call
    | .socket _ _ _, w => openFirst w
    | .accept _ _ _, w => openFirst w
    | .close fd, w => ({ w with files := Function.update w.files fd none }, 0)
    | _, w => (w, 0)
  refuses _ _ := none
  accepts := oneSocket.accepts
  epollCtl _ := true

theorem twoFiles_socket (domain type protocol : Int) (w : World Unit) :
    Opens w (twoFiles.call (.socket domain type protocol) w) := openFirst_opens w

theorem twoFiles_accept (s : Int) (addr addrlen : Addr) (w : World Unit) :
    Opens w (twoFiles.call (.accept s addr addrlen) w) := openFirst_opens w

theorem twoFiles_close (fd : Int) (w : World Unit) :
    kind (twoFiles.call (.close fd) w).1 = Function.update (kind w) fd none := kind_update w fd none

def twoSockets : Net Unit Unit where
  os := twoFiles
  getFamily _ := 2
  bind _ _ w := (w, true)
  listen _ w := (w, true)
  getsockname _ w := (w, some ())
  getpeername _ w := (w, some ())
  socket_opens := twoFiles_socket
  accept_opens := twoFiles_accept
  close_closes := twoFiles_close
  connect_keeps _ _ _ _ := rfl
  setsockopt_keeps _ _ _ _ _ _ := rfl
  bind_keeps _ _ _ := rfl
  listen_keeps _ _ := rfl
  getsockname_keeps _ _ := rfl
  getpeername_keeps _ _ := rfl

/-- No object yet. -/
def noSockets : Sockets Unit Unit := ⟨fresh, fun _ => none, 0, [], []⟩

theorem good_fresh : Good fresh := by
  intro fd ctx h
  unfold entry at h
  split at h
  · cases h
  · rw [fresh, List.getElem?_replicate] at h
    split at h <;> cases h

/-- A server: the third client finds no descriptor, and the first one goes. -/
def serveTwo : List (Thread × Addr × Op Unit Unit) :=
  [.create 2 1 0, .bind 0 (), .listen 0, .accept 0 1, .accept 0 1, .destroy 1].map fun op => (⟨true, 1, some 1⟩, 8, op)

end Sockets

end Linko

/-
**The client collections of the server.**

`client_interaction` keeps its connections in a vector, a set and a removal list, and moves
descriptors between them while it iterates over two of them.  This module proves what every
reachable state of the server has in common: no descriptor is listed twice, the two collections are
disjoint except for the acknowledged clients that are about to leave the second, and every
descriptor that is not about to be removed is open, with a connection of its own.

* `Shmdata.Server.Pc.scanTodo`, `Shmdata.Server.Pc.pendingTodo` — what the two loops have still to
  look at;
* `Shmdata.Server.Dtor.rest` — what the loop of the destructor has still to look at;
* `Shmdata.Server.Lists` — **the invariant of the collections**;
* `Shmdata.Server.Lists.step` — every step keeps it;
* `Shmdata.Server.Lists.notified_length_le` — `notify_update` counts fewer clients than a `short`
  can hold;
* `Shmdata.Server.InFdSet` — the steps in which an accepted descriptor fits in an `fd_set`;
* `Shmdata.Server.Defined` — what `FD_SET` was called with fits.
-/

import Shmdata.Server

set_option relaxedAutoImplicit false
set_option autoImplicit false

namespace Shmdata

namespace Server

variable {σ : Type} {s t : Server σ}

/-! ### The loops -/

/-- In the pass over `clients_`: the descriptors that are not dealt with yet. -/
@[simp] def Pc.scanTodo : Pc → Option (List ℕ)
  | .clients todo => some todo
  | .recover it todo | .ackQuit it todo | .drop it todo => some (it :: todo)
  | .erase => some []
  | _ => none

/-- In the pass over `pending_clients_`: the descriptors that are not dealt with yet. -/
@[simp] def Pc.pendingTodo : Pc → Option (List ℕ)
  | .pending todo => some todo
  | .dropPending it todo => some (it :: todo)
  | .purge => some []
  | _ => none

/-- Once the destructor has joined the serving thread: the clients it has not sent quit to. -/
@[simp] def Dtor.rest : Dtor → Option (List ℕ)
  | .quitting todo => some todo
  | .done => some []
  | _ => none

/-- The invariant of the collections.  During the pass over `clients_` the removal list holds
clients that are already closed; during the pass over `pending_clients_` it holds pending clients,
among them those that have just become clients. -/
structure Lists (s : Server σ) : Prop where
  nodupClients : s.clients.Nodup
  nodupPending : s.pendingClients.Nodup
  nodupNotified : s.clientsNotified.Nodup
  scan : ∀ todo, s.pc.scanTodo = some todo →
    ∃ seen, s.clients = seen ++ todo ∧ s.clientsToRemove ⊆ seen
  pend : ∀ todo, s.pc.pendingTodo = some todo →
    ∃ seen, s.pendingClients = seen ++ todo ∧ s.clientsToRemove ⊆ seen
  rest : s.pc.scanTodo = none → s.pc.pendingTodo = none → s.clientsToRemove = []
  disjoint : ∀ fd ∈ s.clients, fd ∈ s.pendingClients →
    s.pc.pendingTodo ≠ none ∧ fd ∈ s.clientsToRemove
  openClients : ∀ fd ∈ s.clients, (s.pc.pendingTodo ≠ none ∨ fd ∉ s.clientsToRemove) →
    ∃ c, s.conn fd = some c
  openPending : ∀ fd ∈ s.pendingClients, fd ∉ s.clientsToRemove → ∃ c, s.conn fd = some c
  inj : ∀ fd fd' c, s.conn fd = some c → s.conn fd' = some c → fd = fd'
  lt : ∀ fd c, s.conn fd = some c → c < s.nconn
  greet : ∀ fd, s.pc = .greet (some fd) →
    (∃ c, s.conn fd = some c) ∧ fd ∉ s.clients ∧ fd ∉ s.pendingClients
  clientsLt : ∀ fd ∈ s.clients, fd < FD_SETSIZE
  pendingLt : s.pc ≠ .undefined → ∀ fd ∈ s.pendingClients, fd < FD_SETSIZE
  notifiedLt : ∀ fd ∈ s.clientsNotified, fd < FD_SETSIZE
  notify : ∀ size todo, s.notify = some (size, todo) →
    s.pc.locked = false ∧ ∃ seen, s.clients = seen ++ todo ∧ s.clientsNotified ⊆ seen
  alive : s.dtor ≠ .alive → s.notify = none
  quitting : ∀ todo, s.dtor.rest = some todo →
    s.pc = .stopped ∧ ∃ seen, s.clients = seen ++ todo

theorem update_none_eq_some {f : ℕ → Option ℕ} {i fd c : ℕ} :
    Function.update f i none fd = some c ↔ fd ≠ i ∧ f fd = some c := by
  by_cases h : fd = i
  · subst h; simp
  · simp [h]

theorem lists_init (lfd : ℕ) : Lists (init lfd : Server σ) := by
  constructor <;> simp [init, Pc.scanTodo, Pc.pendingTodo]

namespace Lists

/-- Outside the passes, and in the pass over `clients_`, the two collections are disjoint. -/
theorem not_mem_pending (hi : Lists s) (hp : s.pc.pendingTodo = none) {fd : ℕ}
    (hc : fd ∈ s.clients) : fd ∉ s.pendingClients := fun h => (hi.disjoint fd hc h).1 hp

/-- Outside the critical section of the serving thread nothing is about to be removed. -/
theorem removed_eq_nil (hi : Lists s) (hpc : s.pc.locked = false) : s.clientsToRemove = [] := by
  cases hp : s.pc with
  | top | select | lock | stopped => exact hi.rest (by simp [hp]) (by simp [hp])
  | _ =>
      rw [hp] at hpc
      cases hpc

/-- Outside the critical section of the serving thread the two collections are disjoint. -/
theorem not_mem_pending_of_not_locked (hi : Lists s) (hpc : s.pc.locked = false) {fd : ℕ}
    (hc : fd ∈ s.clients) : fd ∉ s.pendingClients := by
  intro hp
  have hrm := (hi.disjoint fd hc hp).2
  rw [hi.removed_eq_nil hpc] at hrm
  cases hrm

/-- The descriptor the pass over `clients_` is at is a client that is not yet removed. -/
theorem scan_head (hi : Lists s) {i : ℕ} {l : List ℕ}
    (h : s.pc.scanTodo = some (i :: l)) : i ∈ s.clients ∧ i ∉ s.clientsToRemove := by
  obtain ⟨seen, hc, hr⟩ := hi.scan _ h
  have hn := hi.nodupClients
  rw [hc, List.nodup_append] at hn
  refine ⟨by rw [hc]; simp, fun hit => hn.2.2 i (hr hit) i (List.mem_cons_self ..) rfl⟩

/-- The descriptor the pass over `pending_clients_` is at is a pending client that is not yet
removed. -/
theorem pend_head (hi : Lists s) {i : ℕ} {l : List ℕ}
    (h : s.pc.pendingTodo = some (i :: l)) :
    i ∈ s.pendingClients ∧ i ∉ s.clientsToRemove := by
  obtain ⟨seen, hc, hr⟩ := hi.pend _ h
  have hn := hi.nodupPending
  rw [hc, List.nodup_append] at hn
  refine ⟨by rw [hc]; simp, fun hit => hn.2.2 i (hr hit) i (List.mem_cons_self ..) rfl⟩

/-- An open client: one that is in `clients_` and not already closed in this pass. -/
theorem conn_of_scan_head (hi : Lists s) {i : ℕ} {l : List ℕ}
    (h : s.pc.scanTodo = some (i :: l)) : ∃ c, s.conn i = some c :=
  hi.openClients i (hi.scan_head h).1 (Or.inr (hi.scan_head h).2)

/-- The descriptor `notify_update` is at is an open client it has not notified yet. -/
theorem notify_head (hi : Lists s) {size : σ} {it : ℕ} {todo : List ℕ}
    (h : s.notify = some (size, it :: todo)) :
    it ∈ s.clients ∧ it ∉ s.clientsNotified ∧ ∃ c, s.conn it = some c := by
  obtain ⟨hl, seen, hc, hr⟩ := hi.notify _ _ h
  have hn := hi.nodupClients
  rw [hc, List.nodup_append] at hn
  have hmem : it ∈ s.clients := by rw [hc]; simp
  have hrm : s.clientsToRemove = [] := by
    refine hi.rest ?_ ?_ <;> cases hpc : s.pc <;> simp [hpc] at hl ⊢
  exact ⟨hmem, fun hit => hn.2.2 it (hr hit) it (List.mem_cons_self ..) rfl,
    hi.openClients it hmem (Or.inr (by rw [hrm]; simp))⟩

/-- `clients_notified_` never holds more descriptors than an `fd_set`. -/
theorem notified_length_le (hi : Lists s) : s.clientsNotified.length ≤ FD_SETSIZE := by
  have hsub : s.clientsNotified ⊆ List.range FD_SETSIZE :=
    fun fd hfd => List.mem_range.2 (hi.notifiedLt fd hfd)
  simpa using (List.subperm_of_subset hi.nodupNotified hsub).length_le

/-- A step that moves the serving thread and leaves the collections alone keeps the invariant,
provided that it leaves both loops where they are. -/
theorem congr (hi : Lists s) (h1 : t.clients = s.clients)
    (h2 : t.clientsNotified = s.clientsNotified) (h3 : t.pendingClients = s.pendingClients)
    (h4 : t.clientsToRemove = s.clientsToRemove) (h5 : t.notify = s.notify)
    (h6 : t.conn = s.conn) (h7 : t.nconn = s.nconn) (h8 : t.dtor = s.dtor)
    (hs : t.pc.scanTodo = s.pc.scanTodo) (hp : t.pc.pendingTodo = s.pc.pendingTodo)
    (hg : ∀ fd, t.pc ≠ .greet (some fd)) (hl : s.notify = none ∨ t.pc.locked = false)
    (hd : s.pc ≠ .stopped ∧ s.pc ≠ .undefined) : Lists t where
  nodupClients := by rw [h1]; exact hi.nodupClients
  nodupPending := by rw [h3]; exact hi.nodupPending
  nodupNotified := by rw [h2]; exact hi.nodupNotified
  scan := by rw [hs, h1, h4]; exact hi.scan
  pend := by rw [hp, h3, h4]; exact hi.pend
  rest := by rw [hs, hp, h4]; exact hi.rest
  disjoint := by rw [h1, h3, h4, hp]; exact hi.disjoint
  openClients := by rw [h1, h4, h6, hp]; exact hi.openClients
  openPending := by rw [h3, h4, h6]; exact hi.openPending
  inj := by rw [h6]; exact hi.inj
  lt := by rw [h6, h7]; exact hi.lt
  greet fd h := absurd h (hg fd)
  clientsLt := by rw [h1]; exact hi.clientsLt
  pendingLt _ := by rw [h3]; exact hi.pendingLt hd.2
  notifiedLt := by rw [h2]; exact hi.notifiedLt
  notify size todo h := by
    rw [h5] at h
    rw [h1, h2]
    exact ⟨hl.elim (fun hn => by rw [hn] at h; cases h) id, (hi.notify size todo h).2⟩
  alive := by rw [h8, h5]; exact hi.alive
  quitting todo h := by
    rw [h8] at h
    exact absurd (hi.quitting todo h).1 hd.1

/-- A locked serving thread excludes `notify_update`. -/
theorem notify_none_of_locked (hi : Lists s) (hl : s.pc.locked = true) : s.notify = none := by
  cases hn : s.notify with
  | none => rfl
  | some p =>
      obtain ⟨size, todo⟩ := p
      have := (hi.notify size todo hn).1
      rw [hl] at this
      cases this

/-- A pending client the pass has not dealt with is not a client. -/
theorem pend_head_not_client (hi : Lists s) {i : ℕ} {l : List ℕ}
    (h : s.pc.pendingTodo = some (i :: l)) : i ∉ s.clients :=
  fun hc => (hi.pend_head h).2 (hi.disjoint i hc (hi.pend_head h).1).2

/-- While the serving thread is in a locked section, nothing is said about `notify_update`. -/
theorem notify_vacuous (hi : Lists s) (hl : s.pc.locked = true) {P : Prop} {size : σ}
    {todo : List ℕ} (h : s.notify = some (size, todo)) : P := by
  rw [hi.notify_none_of_locked hl] at h
  cases h

/-- While the serving thread is running, the destructor has sent nothing. -/
theorem quitting_vacuous (hi : Lists s) (hpc : s.pc ≠ .stopped) {P : Prop} {todo : List ℕ}
    (h : s.dtor.rest = some todo) : P :=
  absurd (hi.quitting todo h).1 hpc

/-- Taking the mutex to go through the clients. -/
theorem lockScan (hi : Lists s) (hpc : s.pc = .lock) (hn : s.notify = none) :
    Lists { s with pc := .clients s.clients } :=
  { hi with
    scan := by
      intro todo h
      obtain rfl : s.clients = todo := by simpa using h
      exact ⟨[], rfl, by rw [hi.rest (by simp [hpc]) (by simp [hpc])]; exact List.Subset.refl _⟩
    pend := by simp
    rest := by simp
    disjoint := fun fd hc hp => absurd hp (hi.not_mem_pending (by simp [hpc]) hc)
    openClients := fun fd hc _ =>
      hi.openClients fd hc (Or.inr (by rw [hi.rest (by simp [hpc]) (by simp [hpc])]; simp))
    greet := by simp
    pendingLt := fun _ => hi.pendingLt (by simp [hpc])
    notify := fun size todo h => by rw [hn] at h; cases h
    quitting := fun todo h => hi.quitting_vacuous (by simp [hpc]) h }

/-- Accepting a connection on a descriptor that was not open. -/
theorem accepted (hi : Lists s) {fd : ℕ} (hpc : s.pc = .accept) (hc : s.conn fd = none) :
    Lists { s with
      pc := .greet (some fd)
      conn := Function.update s.conn fd (some s.nconn)
      nconn := s.nconn + 1 } := by
  have hne {x c : ℕ} (hx : s.conn x = some c) : x ≠ fd := fun e => by
    rw [e, hc] at hx; cases hx
  have hrm : s.clientsToRemove = [] := hi.rest (by simp [hpc]) (by simp [hpc])
  have hcl : fd ∉ s.clients := fun h => by
    obtain ⟨c, hx⟩ := hi.openClients fd h (Or.inr (by simp [hrm]))
    exact hne hx rfl
  have hpd : fd ∉ s.pendingClients := fun h => by
    obtain ⟨c, hx⟩ := hi.openPending fd h (by simp [hrm])
    exact hne hx rfl
  have hlt : ∀ x c, Function.update s.conn fd (some s.nconn) x = some c →
      (x = fd ∧ c = s.nconn) ∨ (x ≠ fd ∧ s.conn x = some c) := by
    intro x c hx
    by_cases hxe : x = fd
    · subst hxe
      rw [Function.update_self] at hx
      exact Or.inl ⟨rfl, (Option.some.inj hx).symm⟩
    · rw [Function.update_of_ne hxe] at hx
      exact Or.inr ⟨hxe, hx⟩
  exact
    { hi with
      scan := by simp
      pend := by simp
      rest := fun _ _ => hrm
      disjoint := fun x hx hp => absurd hp (hi.not_mem_pending (by simp [hpc]) hx)
      openClients := fun x hx _ => by
        obtain ⟨c, hxc⟩ := hi.openClients x hx (Or.inr (by simp [hrm]))
        exact ⟨c, by rw [← hxc]; exact Function.update_of_ne (hne hxc) _ _⟩
      openPending := fun x hx hr => by
        obtain ⟨c, hxc⟩ := hi.openPending x hx hr
        exact ⟨c, by rw [← hxc]; exact Function.update_of_ne (hne hxc) _ _⟩
      inj := fun x y c hx hy => by
        rcases hlt x c hx with ⟨hxe, hcx⟩ | ⟨-, hx'⟩
        · rcases hlt y c hy with ⟨hye, -⟩ | ⟨-, hy'⟩
          · rw [hxe, hye]
          · exact absurd (hcx ▸ hi.lt y c hy') (lt_irrefl _)
        · rcases hlt y c hy with ⟨-, hcy⟩ | ⟨-, hy'⟩
          · exact absurd (hcy ▸ hi.lt x c hx') (lt_irrefl _)
          · exact hi.inj x y c hx' hy'
      lt := fun x c hx => by
        rcases hlt x c hx with ⟨rfl, rfl⟩ | ⟨-, hx⟩
        · exact Nat.lt_succ_self _
        · exact Nat.lt_succ_of_lt (hi.lt x c hx)
      greet := fun x hx => by
        obtain rfl : fd = x := by simpa using hx
        exact ⟨⟨_, Function.update_self ..⟩, hcl, hpd⟩
      pendingLt := fun _ => hi.pendingLt (by simp [hpc])
      notify := fun size todo h => hi.notify_vacuous (by simp [hpc]) h
      quitting := fun todo h => hi.quitting_vacuous (by simp [hpc]) h }

/-- The accepted connection becomes pending once it is sent the connect message. -/
theorem greeted (hi : Lists s) {fd : ℕ} (hpc : s.pc = .greet (some fd)) {out : ℕ → List (SrvMsg σ)}
    {allset : List ℕ} {maxfd : ℕ} {pc : Pc} (hpc' : pc = if fd < FD_SETSIZE then .top else .undefined) :
    Lists { s with
      maxfd := maxfd
      allset := allset
      pendingClients := setInsert fd s.pendingClients
      out := out
      pc := pc } := by
  obtain ⟨hopen, hcl, hpd⟩ := hi.greet fd hpc
  have hrm : s.clientsToRemove = [] := hi.rest (by simp [hpc]) (by simp [hpc])
  have hscan : pc.scanTodo = none ∧ pc.pendingTodo = none ∧ ∀ fd, pc ≠ .greet (some fd) := by
    rw [hpc']
    split <;> simp
  exact
    { hi with
      nodupPending := nodup_setInsert hi.nodupPending
      scan := fun todo h => by rw [hscan.1] at h; cases h
      pend := fun todo h => by rw [hscan.2.1] at h; cases h
      rest := fun _ _ => hrm
      disjoint := fun x hx hp => by
        rcases mem_setInsert.1 hp with rfl | hp
        · exact absurd hx hcl
        · exact absurd hp (hi.not_mem_pending (by simp [hpc]) hx)
      openClients := fun x hx _ => hi.openClients x hx (Or.inr (by simp [hrm]))
      openPending := fun x hx hr => by
        rcases mem_setInsert.1 hx with rfl | hx
        · exact hopen
        · exact hi.openPending x hx hr
      greet := fun x hx => absurd hx (hscan.2.2 x)
      pendingLt := fun hne x hx => by
        rcases mem_setInsert.1 hx with rfl | hx
        · by_contra hlt
          exact hne (hpc'.trans (if_neg hlt))
        · exact hi.pendingLt (by simp [hpc]) x hx
      notify := fun size todo h => hi.notify_vacuous (by simp [hpc]) h
      quitting := fun todo h => hi.quitting_vacuous (by simp [hpc]) h }

/-- A client without anything to read is passed over. -/
theorem skip (hi : Lists s) {it : ℕ} {todo : List ℕ} (hpc : s.pc = .clients (it :: todo)) :
    Lists { s with pc := .clients todo } :=
  { hi with
    scan := by
      intro todo' h
      obtain rfl : todo = todo' := by simpa using h
      obtain ⟨seen, hc, hr⟩ := hi.scan (it :: todo) (by simp [hpc])
      exact ⟨seen ++ [it], by simp [hc], fun fd hfd => List.mem_append_left _ (hr hfd)⟩
    pend := by simp
    rest := by simp
    disjoint := fun fd hc hp => absurd hp (hi.not_mem_pending (by simp [hpc]) hc)
    openClients := fun fd hc h => hi.openClients fd hc (by simpa [hpc] using h)
    greet := by simp
    pendingLt := fun _ => hi.pendingLt (by simp [hpc])
    notify := fun size todo h => hi.notify_vacuous (by simp [hpc]) h
    quitting := fun todo h => hi.quitting_vacuous (by simp [hpc]) h }

/-- Closing the client the pass over `clients_` is at. -/
theorem dropped (hi : Lists s) {it : ℕ} {todo : List ℕ} (hpc : s.pc = .drop it todo) :
    Lists (s.close it (.clients todo)) :=
  { hi with
    scan := by
      intro todo' h
      obtain rfl : todo = todo' := by simpa [Server.close] using h
      obtain ⟨seen, hc, hr⟩ := hi.scan (it :: todo) (by simp [hpc])
      refine ⟨seen ++ [it], by simp [Server.close, hc], fun fd hfd => ?_⟩
      rcases List.mem_append.1 hfd with hfd | hfd
      · exact List.mem_append_left _ (hr hfd)
      · exact List.mem_append_right _ hfd
    pend := by simp [Server.close]
    rest := by simp [Server.close]
    disjoint := fun fd hc hp => absurd hp (hi.not_mem_pending (by simp [hpc]) hc)
    openClients := fun fd hc h => by
      have h' : fd ∉ s.clientsToRemove ∧ fd ≠ it := by simpa [Server.close] using h
      obtain ⟨c, hcn⟩ := hi.openClients fd hc (Or.inr h'.1)
      exact ⟨c, by rw [← hcn]; exact Function.update_of_ne h'.2 _ _⟩
    openPending := fun fd hp h => by
      have h' : fd ∉ s.clientsToRemove ∧ fd ≠ it := by simpa [Server.close] using h
      obtain ⟨c, hcn⟩ := hi.openPending fd hp h'.1
      exact ⟨c, by rw [← hcn]; exact Function.update_of_ne h'.2 _ _⟩
    inj := fun fd fd' c h h' =>
      hi.inj fd fd' c (update_none_eq_some.1 h).2 (update_none_eq_some.1 h').2
    lt := fun fd c h => hi.lt fd c (update_none_eq_some.1 h).2
    greet := by simp [Server.close]
    pendingLt := fun _ => hi.pendingLt (by simp [hpc])
    notify := fun size todo h => hi.notify_vacuous (by simp [hpc]) h
    quitting := fun todo h => hi.quitting_vacuous (by simp [hpc]) h }

/-- What is left of `clients_` when the removal list is gone through. -/
theorem mem_erased (hi : Lists s) {fd : ℕ} : fd ∈ s.clientsToRemove.foldl List.erase s.clients ↔
    fd ∈ s.clients ∧ fd ∉ s.clientsToRemove := by
  rw [← List.diff_eq_foldl]
  exact hi.nodupClients.mem_sdiff_iff

/-- The clients that were closed leave `clients_`. -/
theorem erased (hi : Lists s) (hpc : s.pc = .erase) :
    Lists { s with
      clients := s.clientsToRemove.foldl List.erase s.clients
      clientsToRemove := []
      pc := .pending s.pendingClients } := by
  have hmem (fd : ℕ) := @mem_erased σ s hi fd
  obtain ⟨seen, hc, hr⟩ := hi.scan [] (by simp [hpc])
  exact
    { hi with
      nodupClients := by rw [← List.diff_eq_foldl]; exact hi.nodupClients.diff
      scan := by simp
      pend := by
        intro todo h
        obtain rfl : s.pendingClients = todo := by simpa using h
        exact ⟨[], rfl, List.Subset.refl _⟩
      rest := by simp
      disjoint := fun fd h hp => absurd hp (hi.not_mem_pending (by simp [hpc]) ((hmem fd).1 h).1)
      clientsLt := fun fd h => hi.clientsLt fd ((hmem fd).1 h).1
      openClients := fun fd h _ => hi.openClients fd ((hmem fd).1 h).1 (Or.inr ((hmem fd).1 h).2)
      openPending := fun fd hp _ => by
        refine hi.openPending fd hp fun hfd => ?_
        have : fd ∈ s.clients := by rw [hc]; exact List.mem_append_left _ (hr hfd)
        exact hi.not_mem_pending (by simp [hpc]) this hp
      greet := by simp
      pendingLt := fun _ => hi.pendingLt (by simp [hpc])
      notify := fun size todo h => hi.notify_vacuous (by simp [hpc]) h
      quitting := fun todo h => hi.quitting_vacuous (by simp [hpc]) h }

/-- The removal list of the pass over `pending_clients_`, one descriptor further. -/
theorem pend_advance (hi : Lists s) {it : ℕ} {todo removed : List ℕ}
    (hpt : s.pc.pendingTodo = some (it :: todo))
    (hr' : ∀ fd ∈ removed, fd ∈ s.clientsToRemove ∨ fd = it) :
    ∃ seen, s.pendingClients = seen ++ todo ∧ removed ⊆ seen := by
  obtain ⟨seen, hc, hr⟩ := hi.pend (it :: todo) hpt
  refine ⟨seen ++ [it], by simp [hc], fun fd hfd => ?_⟩
  rcases hr' fd hfd with h | rfl
  · exact List.mem_append_left _ (hr h)
  · exact List.mem_append_right _ (List.mem_singleton_self _)

/-- A pending client is passed over, or is marked for removal after a read error. -/
theorem pendingPassed (hi : Lists s) {it : ℕ} {todo removed : List ℕ}
    (hpc : s.pc = .pending (it :: todo)) (hsub : s.clientsToRemove ⊆ removed)
    (hr' : ∀ fd ∈ removed, fd ∈ s.clientsToRemove ∨ fd = it) :
    Lists { s with clientsToRemove := removed, pc := .pending todo } :=
  { hi with
    scan := by simp
    pend := by
      intro todo' h
      obtain rfl : todo = todo' := by simpa using h
      exact hi.pend_advance (by simp [hpc]) hr'
    rest := by simp
    disjoint := fun fd hc hp => ⟨by simp, hsub (hi.disjoint fd hc hp).2⟩
    openClients := fun fd hc _ => hi.openClients fd hc (Or.inl (by simp [hpc]))
    openPending := fun fd hp h => hi.openPending fd hp fun hfd => h (hsub hfd)
    greet := by simp
    pendingLt := fun _ => hi.pendingLt (by simp [hpc])
    notify := fun size todo h => hi.notify_vacuous (by simp [hpc]) h
    quitting := fun todo h => hi.quitting_vacuous (by simp [hpc]) h }

/-- A pending client whose acknowledgement was read becomes a client. -/
theorem ackRead (hi : Lists s) {it : ℕ} {todo : List ℕ} (hpc : s.pc = .pending (it :: todo))
    {acked : ℕ → Bool} {cbs : ℕ → List Cb} :
    Lists { s with
      clients := s.clients ++ [it]
      clientsToRemove := s.clientsToRemove ++ [it]
      acked := acked
      cbs := cbs
      pc := .pending todo } := by
  have hpt : s.pc.pendingTodo = some (it :: todo) := by simp [hpc]
  have hit := hi.pend_head_not_client hpt
  have hrm : ∀ fd ∈ s.clientsToRemove ++ [it], fd ∈ s.clientsToRemove ∨ fd = it := by simp
  exact
    { hi with
      nodupClients := by
        refine List.nodup_append.2 ⟨hi.nodupClients, List.nodup_singleton _, fun x hx y hy e => ?_⟩
        rw [List.mem_singleton.1 hy] at e
        exact hit (e ▸ hx)
      scan := by simp
      pend := by
        intro todo' h
        obtain rfl : todo = todo' := by simpa using h
        exact hi.pend_advance hpt hrm
      rest := by simp
      disjoint := fun fd hc hp => by
        refine ⟨by simp, ?_⟩
        rcases List.mem_append.1 hc with hc | hc
        · exact List.mem_append_left _ (hi.disjoint fd hc hp).2
        · exact List.mem_append_right _ hc
      openClients := fun fd hc _ => by
        rcases List.mem_append.1 hc with hc | hc
        · exact hi.openClients fd hc (Or.inl (by simp [hpc]))
        · obtain rfl := List.mem_singleton.1 hc
          exact hi.openPending fd (hi.pend_head hpt).1 (hi.pend_head hpt).2
      clientsLt := fun fd hc => by
        rcases List.mem_append.1 hc with hc | hc
        · exact hi.clientsLt fd hc
        · obtain rfl := List.mem_singleton.1 hc
          exact hi.pendingLt (by simp [hpc]) fd (hi.pend_head hpt).1
      openPending := fun fd hp h => hi.openPending fd hp fun hfd => h (List.mem_append_left _ hfd)
      greet := by simp
      pendingLt := fun _ => hi.pendingLt (by simp [hpc])
      notify := fun size todo h => hi.notify_vacuous (by simp [hpc]) h
      quitting := fun todo h => hi.quitting_vacuous (by simp [hpc]) h }

/-- Closing the pending client the pass is at. -/
theorem pendingDropped (hi : Lists s) {it : ℕ} {todo : List ℕ}
    (hpc : s.pc = .dropPending it todo) : Lists (s.close it (.pending todo)) := by
  have hpt : s.pc.pendingTodo = some (it :: todo) := by simp [hpc]
  have hit := hi.pend_head_not_client hpt
  exact
    { hi with
      scan := by simp [Server.close]
      pend := by
        intro todo' h
        obtain rfl : todo = todo' := by simpa [Server.close] using h
        exact hi.pend_advance hpt (by simp [Server.close])
      rest := by simp [Server.close]
      disjoint := fun fd hc hp =>
        ⟨by simp [Server.close], List.mem_append_left _ (hi.disjoint fd hc hp).2⟩
      openClients := fun fd hc _ => by
        obtain ⟨c, hcn⟩ := hi.openClients fd hc (Or.inl (by simp [hpc]))
        exact ⟨c, update_none_eq_some.2 ⟨fun e => hit (e ▸ hc), hcn⟩⟩
      openPending := fun fd hp h => by
        have h' : fd ∉ s.clientsToRemove ∧ fd ≠ it := by simpa [Server.close] using h
        obtain ⟨c, hcn⟩ := hi.openPending fd hp h'.1
        exact ⟨c, update_none_eq_some.2 ⟨h'.2, hcn⟩⟩
      inj := fun fd fd' c h h' =>
        hi.inj fd fd' c (update_none_eq_some.1 h).2 (update_none_eq_some.1 h').2
      lt := fun fd c h => hi.lt fd c (update_none_eq_some.1 h).2
      greet := by simp [Server.close]
      pendingLt := fun _ => hi.pendingLt (by simp [hpc])
      notify := fun size todo h => hi.notify_vacuous (by simp [hpc]) h
      quitting := fun todo h => hi.quitting_vacuous (by simp [hpc]) h }

/-- The pending clients that were dealt with leave `pending_clients_`. -/
theorem purged (hi : Lists s) (hpc : s.pc = .purge) :
    Lists { s with
      pendingClients := s.pendingClients.filter (· ∉ s.clientsToRemove)
      clientsToRemove := []
      pc := .top } :=
  { hi with
    nodupPending := hi.nodupPending.filter _
    scan := by simp
    pend := by simp
    rest := fun _ _ => rfl
    disjoint := fun fd hc hp => by
      have hp' : fd ∈ s.pendingClients ∧ fd ∉ s.clientsToRemove := by simpa using hp
      exact absurd (hi.disjoint fd hc hp'.1).2 hp'.2
    openClients := fun fd hc _ => hi.openClients fd hc (Or.inl (by simp [hpc]))
    openPending := fun fd hp _ => by
      have hp' : fd ∈ s.pendingClients ∧ fd ∉ s.clientsToRemove := by simpa using hp
      exact hi.openPending fd hp'.1 hp'.2
    greet := by simp
    pendingLt := fun _ fd hp => hi.pendingLt (by simp [hpc]) fd (List.mem_filter.1 hp).1
    notify := fun size todo h => hi.notify_vacuous (by simp [hpc]) h
    quitting := fun todo h => hi.quitting_vacuous (by simp [hpc]) h }

/-- One client is notified, or could not be. -/
theorem notifySend (hi : Lists s) {size : σ} {it : ℕ} {todo notified : List ℕ}
    {out : ℕ → List (SrvMsg σ)} (hn : s.notify = some (size, it :: todo))
    (hnd : notified.Nodup) (hsub : ∀ fd ∈ notified, fd ∈ s.clientsNotified ∨ fd = it) :
    Lists { s with
      out := out
      clientsNotified := notified
      notify := some (size, todo) } := by
  obtain ⟨hl, seen, hc, hr⟩ := hi.notify _ _ hn
  exact
    { hi with
      nodupNotified := hnd
      notifiedLt := fun fd hfd => by
        rcases hsub fd hfd with hfd | rfl
        · exact hi.notifiedLt fd hfd
        · exact hi.clientsLt fd (hi.notify_head hn).1
      notify := fun size' todo' h => by
        obtain ⟨rfl, rfl⟩ : size = size' ∧ todo = todo' := by simpa using h
        refine ⟨hl, seen ++ [it], by simp [hc], fun fd hfd => ?_⟩
        rcases hsub fd hfd with hfd | rfl
        · exact List.mem_append_left _ (hr hfd)
        · exact List.mem_append_right _ (List.mem_singleton_self _)
      alive := fun hd => by rw [hi.alive hd] at hn; cases hn }

/-- **Every step keeps the invariant of the collections.** -/
theorem step {a : Act σ} (hi : Lists s) (h : s.step a = some t) : Lists t := by
  cases trans_of_step h with
  | loadQuit hpc =>
      refine hi.congr rfl rfl rfl rfl rfl rfl rfl rfl ?_ ?_ ?_ (Or.inr ?_) (by simp [hpc]) <;>
        cases s.quit <;> simp [hpc]
  | selectFailed hpc =>
      refine hi.congr rfl rfl rfl rfl rfl rfl rfl rfl ?_ ?_ ?_ (Or.inr ?_) (by simp [hpc]) <;>
        simp [hpc]
  | selected hpc hr =>
      refine hi.congr rfl rfl rfl rfl rfl rfl rfl rfl ?_ ?_ ?_ (Or.inr ?_) (by simp [hpc]) <;>
        simp [hpc]
  | lock hpc hn =>
      split
      · refine hi.congr rfl rfl rfl rfl rfl rfl rfl rfl ?_ ?_ ?_ (Or.inl hn) (by simp [hpc]) <;>
          simp [hpc]
      · exact hi.lockScan hpc hn
  | acceptFailed hpc =>
      refine hi.congr rfl rfl rfl rfl rfl rfl rfl rfl ?_ ?_ ?_
        (Or.inl (hi.notify_none_of_locked (by simp [hpc]))) (by simp [hpc]) <;> simp [hpc]
  | accepted hpc hc => exact hi.accepted hpc hc
  | greetFailed hpc =>
      refine hi.congr rfl rfl rfl rfl rfl rfl rfl rfl ?_ ?_ ?_ (Or.inr ?_) (by simp [hpc]) <;>
        simp [hpc]
  | greeted hpc => exact hi.greeted hpc rfl
  | scanned hpc =>
      refine hi.congr rfl rfl rfl rfl rfl rfl rfl rfl ?_ ?_ ?_
        (Or.inl (hi.notify_none_of_locked (by simp [hpc]))) (by simp [hpc]) <;> simp [hpc]
  | skip hpc hr => exact hi.skip hpc
  | readError hpc hr =>
      refine hi.congr rfl rfl rfl rfl rfl rfl rfl rfl ?_ ?_ ?_
        (Or.inl (hi.notify_none_of_locked (by simp [hpc]))) (by simp [hpc]) <;>
        split <;> simp [hpc]
  | readEof hpc hr =>
      refine hi.congr rfl rfl rfl rfl rfl rfl rfl rfl ?_ ?_ ?_
        (Or.inl (hi.notify_none_of_locked (by simp [hpc]))) (by simp [hpc]) <;> simp [hpc]
  | readQuit hpc hr =>
      refine hi.congr rfl rfl rfl rfl rfl rfl rfl rfl ?_ ?_ ?_
        (Or.inl (hi.notify_none_of_locked (by simp [hpc]))) (by simp [hpc]) <;> simp [hpc]
  | recovered hpc =>
      refine hi.congr rfl rfl rfl rfl rfl rfl rfl rfl ?_ ?_ ?_
        (Or.inl (hi.notify_none_of_locked (by simp [hpc]))) (by simp [hpc]) <;> simp [hpc]
  | quitAcked hpc =>
      refine hi.congr rfl rfl rfl rfl rfl rfl rfl rfl ?_ ?_ ?_
        (Or.inl (hi.notify_none_of_locked (by simp [hpc]))) (by simp [hpc]) <;> simp [hpc]
  | dropped hpc => exact hi.dropped hpc
  | erased hpc => exact hi.erased hpc
  | pendingScanned hpc =>
      refine hi.congr rfl rfl rfl rfl rfl rfl rfl rfl ?_ ?_ ?_
        (Or.inl (hi.notify_none_of_locked (by simp [hpc]))) (by simp [hpc]) <;> simp [hpc]
  | pendingSkip hpc hr =>
      exact hi.pendingPassed hpc (List.Subset.refl _) fun fd hfd => Or.inl hfd
  | ackError hpc hr =>
      exact hi.pendingPassed hpc (List.subset_append_left ..) (by simp)
  | ackEof hpc hr =>
      refine hi.congr rfl rfl rfl rfl rfl rfl rfl rfl ?_ ?_ ?_
        (Or.inl (hi.notify_none_of_locked (by simp [hpc]))) (by simp [hpc]) <;> simp [hpc]
  | ackRead hpc hr => exact hi.ackRead hpc
  | pendingDropped hpc => exact hi.pendingDropped hpc
  | purged hpc => exact hi.purged hpc
  | notifyLock hpc hn hd =>
      exact
        { hi with
          nodupNotified := List.nodup_nil
          notifiedLt := by simp
          notify := fun size todo h => by
            obtain ⟨-, rfl⟩ : _ ∧ s.clients = todo := by simpa using h
            exact ⟨hpc, [], rfl, List.Subset.refl _⟩
          alive := fun h => absurd hd h }
  | notifySend hn =>
      refine hi.notifySend hn ?_ fun fd hfd => ?_
      · split
        · exact nodup_setInsert hi.nodupNotified
        · exact hi.nodupNotified
      · split at hfd
        · exact (mem_setInsert.1 hfd).symm
        · exact Or.inl hfd
  | notifyUnlock hn =>
      exact
        { hi with
          notify := fun size todo h => by cases h
          alive := fun _ => rfl }
  | dtorStart hd hn =>
      exact
        { hi with
          alive := fun _ => hn
          quitting := fun todo h => by cases h }
  | dtorJoin hd hpc =>
      exact
        { hi with
          alive := fun _ => hi.alive (by rw [hd]; decide)
          quitting := fun todo h => by
            obtain rfl : s.clients = todo := by simpa using h
            exact ⟨hpc, [], rfl⟩ }
  | @dtorSend it todo ok hd =>
      obtain ⟨hpc, seen, hc⟩ := hi.quitting (it :: todo) (by simp [hd])
      exact
        { hi with
          alive := fun _ => hi.alive (by rw [hd]; simp)
          quitting := fun todo' h => by
            cases h
            exact ⟨hpc, seen ++ [it], by simp [hc]⟩ }
  | dtorEnd hd =>
      obtain ⟨hpc, -⟩ := hi.quitting [] (by simp [hd])
      exact
        { hi with
          alive := fun _ => hi.alive (by rw [hd]; simp)
          quitting := fun todo h => by
            cases h
            exact ⟨hpc, s.clients, by simp⟩ }

end Lists

/-! ### Descriptors that fit in an `fd_set` -/

/-- An accepted descriptor fits in an `fd_set`. -/
def InFdSet (_ : Server σ) (a : Act σ) : Prop :=
  match a with
  | .thread (.accept (some fd)) => fd < FD_SETSIZE
  | _ => True

instance (s : Server σ) (a : Act σ) : Decidable (InFdSet s a) :=
  match a with
  | .thread (.accept (some fd)) => inferInstanceAs (Decidable (fd < FD_SETSIZE))
  | .thread (.accept none) | .thread .tau | .thread (.select _ _) | .thread (.send _) | .thread (.read _)
  | .notifyLock _ | .notifySend _ | .notifyUnlock | .dtorStart | .dtorJoin | .dtorSend _ | .dtorEnd =>
      inferInstanceAs (Decidable True)

/-- The serving thread has called `FD_SET` with descriptors that fit, and is about to do no other. -/
structure Defined (s : Server σ) : Prop where
  defined : s.pc ≠ .undefined
  greet : ∀ fd, s.pc = .greet (some fd) → fd < FD_SETSIZE

theorem defined_init (lfd : ℕ) : Defined (init lfd : Server σ) := by
  constructor <;> simp [init]

/-- Only `accept` brings a descriptor that may not fit. -/
theorem Defined.step {a : Act σ} (hd : Defined s) (hok : InFdSet s a) (h : s.step a = some t) :
    Defined t := by
  cases trans_of_step h with
  | loadQuit => constructor <;> cases hq : s.quit <;> simp
  | lock => constructor <;> cases hlis : s.listening <;> simp
  | @readError it todo => constructor <;> by_cases hmem : it ∈ s.clientsNotified <;> simp [hmem]
  | accepted =>
      refine ⟨by simp, fun fd h => ?_⟩
      obtain rfl := Option.some.inj (Pc.greet.inj h)
      exact hok
  | greeted hpc =>
      have hfd := hd.greet _ hpc
      constructor <;> simp [hfd]
  | notifyLock | notifySend | notifyUnlock | dtorStart | dtorJoin | dtorSend | dtorEnd =>
      exact ⟨hd.defined, hd.greet⟩
  | dropped | pendingDropped => constructor <;> simp [close]
  | _ => constructor <;> simp

end Server

end Shmdata

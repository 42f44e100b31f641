/-
**What the server counts: notified connections and callbacks.**

`notify_update` goes through the vector `clients_`, collects in a set the descriptors to which it could
send, and returns the size of the set, which the writer then commits as a number of readers.  The two
agree because `clients_` holds no descriptor twice, the descriptors are open, and open descriptors have
connections of their own.

The callbacks of `ServerSide` are called once each for a connection, the connect callback first.  They
are paired only for the clients that ask to quit: a client that dies is removed from `clients_` without a
disconnect callback.

All this holds as long as the accepted descriptors are below `FD_SETSIZE`.  The server passes them to `FD_SET`
unchecked, and from the first one on that no `fd_set` holds its behaviour is undefined.

Main definitions:

* `Shmdata.Server.Calling` — a call of `notify_update` under way;
* `Shmdata.Server.FindsAll` — each `std::find` before a `clients_.erase` finds its element;
* `Shmdata.Server.Counts` — the two collections and the count of `notify_update` are right;
* `Shmdata.Server.Called` — the callbacks of each connection;
* `Shmdata.Server.LeavesPolitely` — the steps in which a client leaves by asking to quit.

Main results:

* `Shmdata.Server.notified_count` — **the collections are disjoint and without repetition, and
  `notify_update` returns the number of connections it has notified**, if the accepted descriptors fit;
* `Shmdata.Server.hugeDescriptor_not_counted` — one that does not fit;
* `Shmdata.Server.callbacks_paired` — **as many connect callbacks without a disconnect callback as
  clients, if all clients leave politely**;
* `Shmdata.Server.deadClient_unpaired` — a client that closes its socket is never reported.
-/

import Shmdata.ServerConnections
import Shmdata.SysVSem
import Mathlib.Data.Finset.Card

set_option relaxedAutoImplicit false
set_option autoImplicit false

namespace Shmdata

namespace Server

open Runs SrvMsg

variable {σ : Type} {s t : Server σ}

/-! ### Counting connections by their descriptors -/

/-- The connections behind a list of open descriptors without repetition are as many as these. -/
theorem card_connections (hl : Lists s) {l : List ℕ} (hn : l.Nodup)
    (hopen : ∀ fd ∈ l, ∃ c, s.conn fd = some c) {p : ℕ → Prop} [DecidablePred p]
    (hp : ∀ c, p c ↔ ∃ fd ∈ l, s.conn fd = some c) :
    ((Finset.range s.nconn).filter p).card = l.length := by
  have hget {fd c : ℕ} (h : s.conn fd = some c) : (s.conn fd).getD 0 = c := by
    rw [h]
    rfl
  have hnodup : (l.map fun fd => (s.conn fd).getD 0).Nodup := by
    refine List.Nodup.map_on ?_ hn
    intro fd hfd fd' hfd' heq
    obtain ⟨c, hc⟩ := hopen fd hfd
    obtain ⟨c', hc'⟩ := hopen fd' hfd'
    rw [hget hc, hget hc'] at heq
    exact hl.inj fd fd' c hc (heq ▸ hc')
  have hset : (Finset.range s.nconn).filter p = (l.map fun fd => (s.conn fd).getD 0).toFinset := by
    ext c
    rw [Finset.mem_filter, Finset.mem_range, List.mem_toFinset, List.mem_map, hp]
    constructor
    · rintro ⟨-, fd, hfd, hc⟩
      exact ⟨fd, hfd, hget hc⟩
    · rintro ⟨fd, hfd, heq⟩
      obtain ⟨c', hc'⟩ := hopen fd hfd
      obtain rfl : c' = c := (hget hc').symm.trans heq
      exact ⟨hl.lt fd c' hc', fd, hfd, hc'⟩
  rw [hset, List.toFinset_card_of_nodup hnodup, List.length_map]

/-! ### A call of `notify_update` -/

/-- The descriptor of the connection was notified. -/
def Notified (s : Server σ) (c : ℕ) : Prop := ∃ fd ∈ s.clientsNotified, s.conn fd = some c

/-- A call of `notify_update` that began in the state `s₀` is under way in the state `s`. -/
structure Calling (s₀ : Server σ) (size : σ) (s : Server σ) : Prop where
  calling : ∃ todo, s.notify = some (size, todo)
  conn : s.conn = s₀.conn
  nconn : s.nconn = s₀.nconn
  sent : ∀ c, s.Notified c → s.out c = s₀.out c ++ [.update size]
  kept : ∀ c, ¬ s.Notified c → s.out c = s₀.out c

theorem calling_of_lock {size : σ} (h : s.step (.notifyLock size) = some t) : Calling s size t := by
  cases trans_of_step h with
  | notifyLock => exact ⟨⟨_, rfl⟩, rfl, rfl, fun c ⟨fd, hfd, _⟩ => (by cases hfd), fun c _ => rfl⟩

/-- The mutex keeps the serving thread from everything that matters to the call. -/
theorem Calling.step {s₀ : Server σ} {size : σ} {a : Act σ} (hc : Calling s₀ size s) (hl : Lists s)
    (ha : a ≠ .notifyUnlock) (h : s.step a = some t) : Calling s₀ size t := by
  obtain ⟨todo, hn⟩ := hc.calling
  have hpc := (hl.notify size todo hn).1
  have hlocked {pc : Pc} (h : s.pc = pc) (hp : pc.locked = true) : False := by
    rw [h, hp] at hpc
    cases hpc
  have halive : s.dtor = .alive := by
    by_contra hd
    rw [hl.alive hd] at hn
    cases hn
  cases trans_of_step h with
  | loadQuit | selectFailed | selected => exact ⟨hc.calling, hc.conn, hc.nconn, hc.sent, hc.kept⟩
  | lock _ hnone | notifyLock _ hnone | dtorStart _ hnone =>
      rw [hn] at hnone
      cases hnone
  | dtorJoin hd | dtorSend hd | dtorEnd hd =>
      rw [halive] at hd
      cases hd
  | notifyUnlock => exact absurd rfl ha
  | @notifySend size' it todo' ok hn' =>
      rw [hn] at hn'
      cases hn'
      obtain ⟨hit, hnot, c₀, hc₀⟩ := hl.notify_head hn
      cases ok with
      | false => exact ⟨⟨todo', rfl⟩, hc.conn, hc.nconn, hc.sent, hc.kept⟩
      | true =>
          have hnew : ¬ s.Notified c₀ := by
            rintro ⟨fd, hfd, hcn⟩
            exact hnot (hl.inj fd it c₀ hcn hc₀ ▸ hfd)
          have hout (c : ℕ) : record s.out (s.conn it) (.update size) c =
              if c = c₀ then s.out c₀ ++ [.update size] else s.out c := by
            rw [hc₀]
            split
            · next h => rw [h, record_self]
            · next h => rw [record_of_ne _ _ h]
          have hmem (c : ℕ) : (∃ fd ∈ setInsert it s.clientsNotified, s.conn fd = some c) ↔
              c = c₀ ∨ s.Notified c := by
            constructor
            · rintro ⟨fd, hfd, hcn⟩
              rcases mem_setInsert.1 hfd with rfl | hfd
              · rw [hc₀] at hcn
                exact Or.inl (Option.some.inj hcn).symm
              · exact Or.inr ⟨fd, hfd, hcn⟩
            · rintro (rfl | ⟨fd, hfd, hcn⟩)
              · exact ⟨it, mem_setInsert.2 (Or.inl rfl), hc₀⟩
              · exact ⟨fd, mem_setInsert.2 (Or.inr hfd), hcn⟩
          refine ⟨⟨todo', rfl⟩, hc.conn, hc.nconn, fun c hcn => (hout c).trans ?_,
            fun c hcn => (hout c).trans ?_⟩
          · split
            · next h => rw [h, hc.kept c₀ hnew]
            · next h => exact hc.sent c (((hmem c).1 hcn).resolve_left h)
          · rw [if_neg fun h => hcn ((hmem c).2 (Or.inl h))]
            exact hc.kept c fun h => hcn ((hmem c).2 (Or.inr h))
  | acceptFailed hp | accepted hp | greetFailed hp | greeted hp | scanned hp | skip hp | readError hp
  | readEof hp | readQuit hp | recovered hp | quitAcked hp | dropped hp | erased hp
  | pendingScanned hp | pendingSkip hp | ackError hp | ackEof hp | ackRead hp | pendingDropped hp
  | purged hp => exact (hlocked hp rfl).elim

theorem calling_of_exec {s₀ : Server σ} {size : σ} {as : List (Act σ)} (hc : Calling s₀ size s)
    (hw : WellFormed s) (has : ∀ a ∈ as, a ≠ .notifyUnlock) (h : exec step s as = some t) :
    Calling s₀ size t ∧ WellFormed t := by
  induction as generalizing s with
  | nil =>
      rw [exec_nil, Option.some_inj] at h
      exact h ▸ ⟨hc, hw⟩
  | cons a as ih =>
      obtain ⟨u, hu, h⟩ := exec_cons_eq_some.1 h
      have ha := has a (List.mem_cons_self ..)
      exact ih (hc.step hw.lists ha hu) (hw.step hu) (fun b hb => has b (List.mem_cons_of_mem _ hb)) h

/-- What `notify_update` returns when it has released the mutex. -/
def notifyUpdate (s : Server σ) : ℤ := toShort s.clientsNotified.length

/-- A call counts the connections it has sent the update to. -/
theorem notifyUpdate_eq_card [DecidableEq σ] {size : σ} {u v : Server σ} {as : List (Act σ)}
    (hw : WellFormed s) (hlock : s.step (.notifyLock size) = some u)
    (has : ∀ a ∈ as, a ≠ .notifyUnlock) (hrun : exec step u as = some v)
    (hunlock : v.step .notifyUnlock = some t) :
    (∀ c, t.out c = s.out c ∨ t.out c = s.out c ++ [.update size]) ∧
    t.notifyUpdate =
      ((Finset.range t.nconn).filter fun c => t.out c = s.out c ++ [.update size]).card := by
  obtain ⟨hc, hwv⟩ := calling_of_exec (calling_of_lock hlock) (hw.step hlock) has hrun
  obtain ⟨todo, hn⟩ := hc.calling
  cases trans_of_step hunlock with
  | notifyUnlock hn' =>
      rw [hn] at hn'
      cases hn'
      obtain ⟨hpc, seen, hseen, hsub⟩ := hwv.lists.notify size [] hn
      have hopen : ∀ fd ∈ v.clientsNotified, ∃ c, v.conn fd = some c := by
        intro fd hfd
        have hmem : fd ∈ v.clients := by
          rw [hseen]
          exact List.mem_append_left _ (hsub hfd)
        refine hwv.lists.openClients fd hmem (Or.inr ?_)
        rw [hwv.lists.removed_eq_nil hpc]
        exact List.not_mem_nil
      have hcard := card_connections hwv.lists hwv.lists.nodupNotified hopen
        (p := fun c => v.out c = s.out c ++ [.update size]) fun c => by
          constructor
          · intro hout
            by_contra hnot
            rw [hc.kept c hnot] at hout
            simp at hout
          · exact hc.sent c
      have hle := hwv.lists.notified_length_le
      refine ⟨fun c => ?_, ?_⟩
      · by_cases hnot : v.Notified c
        · exact Or.inr (hc.sent c hnot)
        · exact Or.inl (hc.kept c hnot)
      show toShort v.clientsNotified.length = _
      rw [toShort_of_lt (by unfold FD_SETSIZE at hle; omega), ← hcard]

/-! ### The removal from `clients_` -/

/-- The loop over the removal list finds each of its elements in what is left of the vector. -/
def FindsAll : List ℕ → List ℕ → Prop
  | [], _ => True
  | it :: rest, clients => it ∈ clients ∧ FindsAll rest (clients.erase it)

theorem findsAll_of_subset {removed clients : List ℕ} (hr : removed.Nodup) (hsub : removed ⊆ clients) :
    FindsAll removed clients := by
  induction removed generalizing clients with
  | nil => trivial
  | cons it rest ih =>
      obtain ⟨hit, hrest⟩ := List.nodup_cons.1 hr
      refine ⟨hsub (List.mem_cons_self ..), ih hrest fun fd hfd => ?_⟩
      have hne : fd ≠ it := by
        rintro rfl
        exact hit hfd
      exact (List.mem_erase_of_ne hne).2 (hsub (List.mem_cons_of_mem _ hfd))

/-- No descriptor is in the removal list twice. -/
theorem nodup_removed_of_step {a : Act σ} (hn : s.clientsToRemove.Nodup) (hl : Lists s)
    (h : s.step a = some t) : t.clientsToRemove.Nodup := by
  have hadd {it : ℕ} (hit : it ∉ s.clientsToRemove) : (s.clientsToRemove ++ [it]).Nodup :=
    List.nodup_append.2 ⟨hn, List.nodup_singleton _, fun x hx y hy e =>
      hit (List.mem_singleton.1 hy ▸ e ▸ hx)⟩
  cases trans_of_step h with
  | @dropped it todo hpc => exact hadd (hl.scan_head (i := it) (l := todo) (by simp [hpc])).2
  | @ackError it todo hpc => exact hadd (hl.pend_head (i := it) (l := todo) (by simp [hpc])).2
  | @ackRead it todo hpc => exact hadd (hl.pend_head (i := it) (l := todo) (by simp [hpc])).2
  | @pendingDropped it todo hpc => exact hadd (hl.pend_head (i := it) (l := todo) (by simp [hpc])).2
  | erased | purged => exact List.nodup_nil
  | _ => exact hn

theorem nodup_removed_of_exec {lfd : ℕ} {as : List (Act σ)} (h : exec step (init lfd) as = some s) :
    s.clientsToRemove.Nodup := by
  refine (exec_invariant (P := fun s : Server σ => WellFormed s ∧ s.clientsToRemove.Nodup)
    (fun s a t hs hst => ?_) h ⟨wellFormed_init lfd, List.nodup_nil⟩).2
  exact ⟨hs.1.step hst, nodup_removed_of_step hs.2 hs.1.lists hst⟩

/-! ### The collections and the count -/

/-- The behaviour is defined, `clients_` is without repetition and disjoint from `pending_clients_`, apart
from the clients that the pass over the second has just moved to the first; `std::find` finds what is
erased; and each call of `notify_update` returns the number of connections it has sent the update to. -/
structure Counts [DecidableEq σ] (s : Server σ) : Prop where
  defined : s.pc ≠ .undefined
  nodup : s.clients.Nodup
  disjoint : s.pc.locked = false → ∀ fd ∈ s.clients, fd ∉ s.pendingClients
  moved : ∀ fd ∈ s.clients, fd ∈ s.pendingClients → s.pc.pendingTodo ≠ none ∧ fd ∈ s.clientsToRemove
  finds : s.pc = .erase → FindsAll s.clientsToRemove s.clients
  counted : ∀ (size : σ) (u v t : Server σ) (bs : List (Act σ)), s.step (.notifyLock size) = some u →
    (∀ b ∈ bs, b ≠ .notifyUnlock) → exec step u bs = some v → v.step .notifyUnlock = some t →
    (∀ c, t.out c = s.out c ∨ t.out c = s.out c ++ [.update size]) ∧
    t.notifyUpdate =
      ((Finset.range t.nconn).filter fun c => t.out c = s.out c ++ [.update size]).card

/-- **In every reachable state the collections and the count of `notify_update` are right**, in every run in
which the accepted descriptors fit in an `fd_set`. -/
theorem notified_count [DecidableEq σ] {lfd : ℕ} {as : List (Act σ)}
    (h : exec (restrict step InFdSet) (init lfd) as = some s) : Counts s := by
  have hdef : Defined s := exec_invariant (fun s a t hs hst =>
    hs.step (restrict_eq_some.1 hst).1 (restrict_eq_some.1 hst).2) h (defined_init lfd)
  have h := exec_of_restrict h
  have hw := wellFormed_of_exec h
  have hl := hw.lists
  refine ⟨hdef.defined, hl.nodupClients, fun hpc fd hfd => hl.not_mem_pending_of_not_locked hpc hfd,
    hl.disjoint, fun hpc => ?_, fun size u v t bs hlock hbs hrun hunlock =>
      notifyUpdate_eq_card hw hlock hbs hrun hunlock⟩
  obtain ⟨seen, hseen, hsub⟩ := hl.scan [] (by simp [hpc])
  refine findsAll_of_subset (nodup_removed_of_exec h) fun fd hfd => ?_
  rw [hseen]
  exact List.mem_append_left _ (hsub hfd)

/-- Two clients connect and acknowledge, and a call of `notify_update` reaches one of them. -/
def twoClients : List (Act UInt64) :=
  [.thread .tau, .thread (.select [] true), .thread .tau, .thread (.accept (some 4)),
    .thread (.send true), .thread .tau, .thread (.select [] true), .thread .tau,
    .thread (.accept (some 5)), .thread (.send true), .thread .tau, .thread (.select [4, 5] false),
    .thread .tau, .thread .tau, .thread .tau, .thread (.read .data), .thread (.read .data),
    .thread .tau, .thread .tau]

theorem twoClients_notified :
    ∃ s u v t : Server UInt64, exec (restrict step InFdSet) (init 3) twoClients = some s ∧
      s.clients = [4, 5] ∧ s.step (.notifyLock 7) = some u ∧
      exec step u [.notifySend true, .thread .tau, .notifySend false] = some v ∧
      v.step .notifyUnlock = some t ∧ t.notifyUpdate = 1 ∧
      ((Finset.range t.nconn).filter fun c => t.out c = s.out c ++ [.update 7]).card = 1 := by
  have hrun : exec (restrict step InFdSet) (init 3) twoClients = some _ := rfl
  have hcall := (notified_count hrun).counted 7 _ _ _
    [.notifySend true, .thread .tau, .notifySend false] rfl (by simp) rfl rfl
  have hone : (1 : ℤ) = Nat.cast _ := hcall.2
  exact ⟨_, _, _, _, hrun, rfl, rfl, rfl, rfl, rfl, by exact_mod_cast hone.symm⟩

/-- `accept` returns the first descriptor that no `fd_set` holds, and the connect message is sent on it. -/
def hugeDescriptor : List (Act UInt64) :=
  [.thread .tau, .thread (.select [] true), .thread .tau, .thread (.accept (some FD_SETSIZE)),
    .thread (.send true)]

theorem hugeDescriptor_not_counted :
    ∃ s : Server UInt64, exec step (init 3) hugeDescriptor = some s ∧ s.conn FD_SETSIZE = some 0 ∧
      ¬ Counts s :=
  ⟨_, rfl, rfl, fun h => h.defined rfl⟩

/-! ### The callbacks of a connection -/

/-- The invariant of the callbacks: an open connection that is not a client's has had none, a client's
has had the connect callback, and no connection has had more than one of each. -/
structure Called (s : Server σ) : Prop where
  fresh : ∀ c, s.nconn ≤ c → s.cbs c = []
  pending : ∀ fd c, s.conn fd = some c → fd ∉ s.clients → s.cbs c = []
  serving : ∀ fd ∈ s.clients, ∀ c, s.conn fd = some c → (∀ todo, s.pc ≠ .drop fd todo) →
    s.cbs c = [.onConnect]
  shape : ∀ c, s.cbs c = [] ∨ s.cbs c = [.onConnect] ∨ s.cbs c = [.onConnect, .onDisconnect]

theorem called_init (lfd : ℕ) : Called (init lfd : Server σ) := by
  constructor <;> simp [init]

namespace Called

/-- A step that calls nothing and opens nothing. -/
theorem congr (hi : Called s) (h1 : t.cbs = s.cbs) (h2 : t.nconn = s.nconn)
    (hcn : ∀ fd c, t.conn fd = some c → s.conn fd = some c)
    (hcl : ∀ fd c, t.conn fd = some c → (fd ∈ t.clients ↔ fd ∈ s.clients))
    (hpc : ∀ fd c todo, t.conn fd = some c → s.pc = .drop fd todo → ∃ todo, t.pc = .drop fd todo) :
    Called t where
  fresh := by
    rw [h1, h2]
    exact hi.fresh
  pending fd c h hn := by
    rw [h1]
    exact hi.pending fd c (hcn fd c h) fun hfd => hn ((hcl fd c h).2 hfd)
  serving fd hfd c h hp := by
    rw [h1]
    refine hi.serving fd ((hcl fd c h).1 hfd) c (hcn fd c h) fun todo hd => ?_
    obtain ⟨todo', hd'⟩ := hpc fd c todo h hd
    exact hp todo' hd'
  shape := by
    rw [h1]
    exact hi.shape

/-- A step of a thread that is not at the closing of a client. -/
theorem moved (hi : Called s) (h1 : t.cbs = s.cbs) (h2 : t.nconn = s.nconn) (h3 : t.conn = s.conn)
    (h4 : t.clients = s.clients) (hpc : ∀ fd todo, s.pc ≠ .drop fd todo) : Called t := by
  refine hi.congr h1 h2 (fun fd c h => h3 ▸ h) (fun fd c h => ?_) fun fd c todo _ h =>
    absurd h (hpc fd todo)
  rw [h4]

theorem accepted (hi : Called s) (hl : Lists s) {fd : ℕ} (hpc : s.pc = .accept)
    (hc : s.conn fd = none) :
    Called { s with
      pc := .greet (some fd)
      conn := Function.update s.conn fd (some s.nconn)
      nconn := s.nconn + 1 } := by
  have hrm : s.clientsToRemove = [] := hl.rest (by simp [hpc]) (by simp [hpc])
  have hnew : fd ∉ s.clients := by
    intro hfd
    obtain ⟨c, hcn⟩ := hl.openClients fd hfd (Or.inr (by simp [hrm]))
    rw [hc] at hcn
    cases hcn
  refine ⟨fun c h => hi.fresh c (by simp only at h; omega), fun fd' c hcn hn => ?_,
    fun fd' hfd' c hcn _ => ?_, hi.shape⟩
  · by_cases hfd : fd' = fd
    · obtain rfl : s.nconn = c := by simpa [hfd] using hcn
      exact hi.fresh _ le_rfl
    · exact hi.pending fd' c ((Function.update_of_ne hfd ..).symm.trans hcn) hn
  · have hfd : fd' ≠ fd := by
      rintro rfl
      exact hnew hfd'
    exact hi.serving fd' hfd' c ((Function.update_of_ne hfd ..).symm.trans hcn) (by simp [hpc])

theorem quitAcked (hi : Called s) (hl : Lists s) {it : ℕ} {todo : List ℕ} {out : ℕ → List (SrvMsg σ)}
    (hpc : s.pc = .ackQuit it todo) :
    Called { s with
      out := out
      cbs := record s.cbs (s.conn it) .onDisconnect
      pc := .drop it todo } := by
  have hit := (hl.scan_head (i := it) (l := todo) (by simp [hpc])).1
  obtain ⟨c₀, hc₀⟩ := hl.conn_of_scan_head (i := it) (l := todo) (by simp [hpc])
  have hcb := hi.serving it hit c₀ hc₀ (by simp [hpc])
  have hof {c : ℕ} (hne : c ≠ c₀) : record s.cbs (s.conn it) .onDisconnect c = s.cbs c := by
    rw [hc₀, record_of_ne _ _ hne]
  have hne {fd c : ℕ} (h : s.conn fd = some c) (hfd : fd ≠ it) : c ≠ c₀ := by
    rintro rfl
    exact hfd (hl.inj fd it c h hc₀)
  refine ⟨fun c h => ?_, fun fd c hcn hn => ?_, fun fd hfd c hcn hp => ?_, fun c => ?_⟩
  · have hlt := hl.lt it c₀ hc₀
    have h : s.nconn ≤ c := h
    exact (hof (by omega)).trans (hi.fresh c h)
  · refine (hof (hne hcn ?_)).trans (hi.pending fd c hcn hn)
    rintro rfl
    exact hn hit
  · refine (hof (hne hcn ?_)).trans (hi.serving fd hfd c hcn (by simp [hpc]))
    rintro rfl
    exact hp todo rfl
  · by_cases hcc : c = c₀
    · refine Or.inr (Or.inr ?_)
      show record s.cbs (s.conn it) .onDisconnect c = _
      rw [hc₀, hcc, record_self, hcb]
      rfl
    · have := hi.shape c
      rw [← hof hcc] at this
      exact this

theorem ackRead (hi : Called s) (hl : Lists s) {it : ℕ} {todo : List ℕ}
    (hpc : s.pc = .pending (it :: todo)) :
    Called { s with
      clients := s.clients ++ [it]
      clientsToRemove := s.clientsToRemove ++ [it]
      acked := mark s.acked (s.conn it)
      cbs := record s.cbs (s.conn it) .onConnect
      pc := .pending todo } := by
  have hpt : s.pc.pendingTodo = some (it :: todo) := by simp [hpc]
  obtain ⟨hp, hr⟩ := hl.pend_head hpt
  obtain ⟨c₀, hc₀⟩ := hl.openPending it hp hr
  have hcb := hi.pending it c₀ hc₀ (hl.pend_head_not_client hpt)
  have hof {c : ℕ} (hne : c ≠ c₀) : record s.cbs (s.conn it) .onConnect c = s.cbs c := by
    rw [hc₀, record_of_ne _ _ hne]
  have hself : record s.cbs (s.conn it) .onConnect c₀ = [.onConnect] := by
    rw [hc₀, record_self, hcb]
    rfl
  have hne {fd c : ℕ} (h : s.conn fd = some c) (hfd : fd ≠ it) : c ≠ c₀ := by
    rintro rfl
    exact hfd (hl.inj fd it c h hc₀)
  refine ⟨fun c h => ?_, fun fd c hcn hn => ?_, fun fd hfd c hcn _ => ?_, fun c => ?_⟩
  · have hlt := hl.lt it c₀ hc₀
    have h : s.nconn ≤ c := h
    exact (hof (by omega)).trans (hi.fresh c h)
  · refine (hof (hne hcn ?_)).trans (hi.pending fd c hcn fun h => hn (List.mem_append_left _ h))
    rintro rfl
    exact hn (List.mem_append_right _ (List.mem_singleton.2 rfl))
  · by_cases hit : fd = it
    · have hcn : s.conn fd = some c := hcn
      rw [hit, hc₀] at hcn
      cases hcn
      exact hself
    · refine (hof (hne hcn hit)).trans (hi.serving fd ?_ c hcn (by simp [hpc]))
      exact (List.mem_append.1 hfd).resolve_right fun h => hit (List.mem_singleton.1 h)
  · by_cases hcc : c = c₀
    · subst hcc
      exact Or.inr (Or.inl hself)
    · have := hi.shape c
      rw [← hof hcc] at this
      exact this

theorem step {a : Act σ} (hi : Called s) (hl : Lists s) (hc : Closes s) (h : s.step a = some t) :
    Called t := by
  cases trans_of_step h with
  | accepted hpc hcn => exact hi.accepted hl hpc hcn
  | quitAcked hpc => exact hi.quitAcked hl hpc
  | dropped hpc =>
      refine hi.congr rfl rfl (fun fd c h => (update_none_eq_some.1 h).2) (fun _ _ _ => Iff.rfl)
        fun fd c todo h hd => ?_
      rw [hpc] at hd
      cases hd
      exact absurd rfl (update_none_eq_some.1 h).1
  | erased hpc =>
      refine hi.congr rfl rfl (fun _ _ h => h) (fun fd c hcn => ?_) (by simp [hpc])
      refine ⟨fun hfd => (hl.mem_erased.1 hfd).1, fun hfd => hl.mem_erased.2 ⟨hfd, fun hrm => ?_⟩⟩
      have hcn : s.conn fd = some c := hcn
      rw [hc.removed (by simp [hpc]) fd hrm] at hcn
      cases hcn
  | ackRead hpc => exact hi.ackRead hl hpc
  | pendingDropped hpc =>
      exact hi.congr rfl rfl (fun fd c h => (update_none_eq_some.1 h).2) (fun _ _ _ => Iff.rfl)
        (by simp [hpc])
  | notifyLock | notifySend | notifyUnlock | dtorStart | dtorJoin | dtorSend | dtorEnd =>
      exact hi.congr rfl rfl (fun _ _ h => h) (fun _ _ _ => Iff.rfl) fun _ _ todo _ h => ⟨todo, h⟩
  | loadQuit hpc | selectFailed hpc | selected hpc | lock hpc | acceptFailed hpc | greetFailed hpc
  | greeted hpc | scanned hpc | skip hpc | readError hpc | readEof hpc | readQuit hpc | recovered hpc
  | pendingScanned hpc | pendingSkip hpc | ackError hpc | ackEof hpc | purged hpc =>
      exact hi.moved rfl rfl rfl rfl (by simp [hpc])

end Called

/-! ### Clients that leave politely -/

/-- What is read from a client is neither an error nor an end of file: it asks to quit. -/
def LeavesPolitely (s : Server σ) (a : Act σ) : Prop :=
  match s.pc, a with
  | .clients (_ :: _), .thread (.read .error) => False
  | .clients (_ :: _), .thread (.read .eof) => False
  | _, _ => True

/-- The same as a test. -/
def leavesPolitely (s : Server σ) (a : Act σ) : Bool :=
  match s.pc, a with
  | .clients (_ :: _), .thread (.read .error) => false
  | .clients (_ :: _), .thread (.read .eof) => false
  | _, _ => true

theorem leavesPolitely_iff (s : Server σ) (a : Act σ) : leavesPolitely s a = true ↔ LeavesPolitely s a := by
  unfold leavesPolitely LeavesPolitely
  split <;> simp

instance (s : Server σ) (a : Act σ) : Decidable (LeavesPolitely s a) :=
  decidable_of_iff _ (leavesPolitely_iff s a)

/-- A connection that has had only the connect callback is a client's, and is not being closed. -/
structure Paired (s : Server σ) : Prop where
  client : ∀ c, s.cbs c = [.onConnect] →
    ∃ fd ∈ s.clients, s.conn fd = some c ∧ ∀ todo, s.pc ≠ .drop fd todo
  calm : ∀ it todo, s.pc ≠ .recover it todo

theorem paired_init (lfd : ℕ) : Paired (init lfd : Server σ) := by
  constructor <;> simp [init]

namespace Paired

theorem congr (hi : Paired s) (h1 : t.cbs = s.cbs) (h2 : t.conn = s.conn)
    (hcl : ∀ fd c, s.conn fd = some c → fd ∈ s.clients → fd ∈ t.clients)
    (hpc : ∀ fd todo, t.pc = .drop fd todo → ∃ todo, s.pc = .drop fd todo)
    (hcalm : ∀ it todo, t.pc ≠ .recover it todo) : Paired t where
  client c hcb := by
    rw [h1] at hcb
    obtain ⟨fd, hfd, hcn, hd⟩ := hi.client c hcb
    refine ⟨fd, hcl fd c hcn hfd, h2 ▸ hcn, fun todo h => ?_⟩
    obtain ⟨todo', h'⟩ := hpc fd todo h
    exact hd todo' h'
  calm := hcalm

theorem close (hi : Paired s) {it : ℕ} {pc : Pc}
    (hit : ∀ fd c, s.conn fd = some c → fd ∈ s.clients → s.cbs c = [.onConnect] →
      (∀ todo, s.pc ≠ .drop fd todo) → fd ≠ it)
    (hpc : ∀ fd todo, pc ≠ .drop fd todo) (hcalm : ∀ fd todo, pc ≠ .recover fd todo) :
    Paired (s.close it pc) where
  client c hcb := by
    obtain ⟨fd, hfd, hcn, hd⟩ := hi.client c hcb
    exact ⟨fd, hfd, update_none_eq_some.2 ⟨hit fd c hcn hfd hcb hd, hcn⟩, hpc fd⟩
  calm := hcalm

theorem accepted (hi : Paired s) {fd : ℕ} (hc : s.conn fd = none) :
    Paired { s with
      pc := .greet (some fd)
      conn := Function.update s.conn fd (some s.nconn)
      nconn := s.nconn + 1 } where
  client c hcb := by
    obtain ⟨fd', hfd', hcn, hd⟩ := hi.client c hcb
    refine ⟨fd', hfd', (Function.update_of_ne ?_ ..).trans hcn, by simp⟩
    rintro rfl
    rw [hc] at hcn
    cases hcn
  calm := by simp

theorem quitAcked (hi : Paired s) (hk : Called s) (hl : Lists s) {it : ℕ} {todo : List ℕ}
    {out : ℕ → List (SrvMsg σ)} (hpc : s.pc = .ackQuit it todo) :
    Paired { s with
      out := out
      cbs := record s.cbs (s.conn it) .onDisconnect
      pc := .drop it todo } where
  client c hcb := by
    have hit := (hl.scan_head (i := it) (l := todo) (by simp [hpc])).1
    obtain ⟨c₀, hc₀⟩ := hl.conn_of_scan_head (i := it) (l := todo) (by simp [hpc])
    have hcb₀ := hk.serving it hit c₀ hc₀ (by simp [hpc])
    have hcb : record s.cbs (s.conn it) .onDisconnect c = [.onConnect] := hcb
    have hne : c ≠ c₀ := by
      rintro rfl
      rw [hc₀, record_self, hcb₀] at hcb
      cases hcb
    rw [hc₀, record_of_ne _ _ hne] at hcb
    obtain ⟨fd, hfd, hcn, -⟩ := hi.client c hcb
    refine ⟨fd, hfd, hcn, fun todo' h => hne ?_⟩
    cases h
    exact Option.some.inj (hcn.symm.trans hc₀)
  calm := by simp

theorem ackRead (hi : Paired s) (hl : Lists s) {it : ℕ} {todo : List ℕ}
    (hpc : s.pc = .pending (it :: todo)) :
    Paired { s with
      clients := s.clients ++ [it]
      clientsToRemove := s.clientsToRemove ++ [it]
      acked := mark s.acked (s.conn it)
      cbs := record s.cbs (s.conn it) .onConnect
      pc := .pending todo } where
  client c hcb := by
    obtain ⟨hp, hr⟩ := hl.pend_head (i := it) (l := todo) (by simp [hpc])
    obtain ⟨c₀, hc₀⟩ := hl.openPending it hp hr
    by_cases hcc : c = c₀
    · subst hcc
      exact ⟨it, List.mem_append_right _ (List.mem_singleton.2 rfl), hc₀, by simp⟩
    · have hcb : record s.cbs (s.conn it) .onConnect c = [.onConnect] := hcb
      rw [hc₀, record_of_ne _ _ hcc] at hcb
      obtain ⟨fd, hfd, hcn, -⟩ := hi.client c hcb
      exact ⟨fd, List.mem_append_left _ hfd, hcn, by simp⟩
  calm := by simp

theorem step {a : Act σ} (hi : Paired s) (hk : Called s) (hl : Lists s) (hc : Closes s)
    (hok : LeavesPolitely s a) (h : s.step a = some t) : Paired t := by
  cases trans_of_step h with
  | loadQuit hpc =>
      refine hi.congr rfl rfl (fun _ _ _ h => h) ?_ ?_ <;> cases s.quit <;> simp
  | lock hpc =>
      refine hi.congr rfl rfl (fun _ _ _ h => h) ?_ ?_ <;> cases s.listening <;> simp
  | accepted _ hcn => exact hi.accepted hcn
  | greeted hpc =>
      refine hi.congr rfl rfl (fun _ _ _ h => h) ?_ ?_ <;> dsimp only <;> split <;> simp
  | readError hpc | readEof hpc => simp [LeavesPolitely, hpc] at hok
  | recovered hpc => exact absurd hpc (hi.calm _ _)
  | quitAcked hpc => exact hi.quitAcked hk hl hpc
  | @dropped it todo hpc =>
      refine hi.close (fun fd c _ _ _ hd => ?_) (by simp) (by simp)
      rintro rfl
      exact hd todo hpc
  | erased hpc =>
      refine hi.congr rfl rfl (fun fd c hcn hfd => hl.mem_erased.2 ⟨hfd, fun hrm => ?_⟩) (by simp)
        (by simp)
      rw [hc.removed (by simp [hpc]) fd hrm] at hcn
      cases hcn
  | ackRead hpc => exact hi.ackRead hl hpc
  | @pendingDropped it todo hpc =>
      refine hi.close (fun fd c _ hfd _ _ => ?_) (by simp) (by simp)
      rintro rfl
      exact hl.pend_head_not_client (i := fd) (l := todo) (by simp [hpc]) hfd
  | notifyLock | notifySend | notifyUnlock | dtorStart | dtorJoin | dtorSend | dtorEnd =>
      exact hi.congr rfl rfl (fun _ _ _ h => h) (fun _ todo h => ⟨todo, h⟩) hi.calm
  | _ => exact hi.congr rfl rfl (fun _ _ _ h => h) (by simp) (by simp)

end Paired

/-- The callbacks of each connection are a connect callback and at most one disconnect callback after it,
and the connections with the first and without the second are as many as the entries of `clients_`. -/
def PairsCallbacks (s : Server σ) : Prop :=
  (∀ c, s.cbs c = [] ∨ s.cbs c = [.onConnect] ∨ s.cbs c = [.onConnect, .onDisconnect]) ∧
    ((Finset.range s.nconn).filter fun c => s.cbs c = [.onConnect]).card = s.clients.length

/-- **Whenever the serving thread does not hold `clients_mutex_`, the callbacks are paired with
`clients_`**, in every run in which the clients leave by asking to quit. -/
theorem callbacks_paired {lfd : ℕ} {as : List (Act σ)}
    (h : exec (restrict step LeavesPolitely) (init lfd) as = some s) (hpc : s.pc.locked = false) :
    PairsCallbacks s := by
  have hinv : WellFormed s ∧ Closes s ∧ Called s ∧ Paired s := by
    refine exec_invariant (P := fun s => WellFormed s ∧ Closes s ∧ Called s ∧ Paired s)
      (fun s a t hs hst => ?_) h
      ⟨wellFormed_init lfd, closes_init lfd, called_init lfd, paired_init lfd⟩
    obtain ⟨hok, hst⟩ := restrict_eq_some.1 hst
    obtain ⟨hwf, hc, hk, hp⟩ := hs
    exact ⟨hwf.step hst, hc.step hwf.lists hst, hk.step hwf.lists hc hst,
      hp.step hk hwf.lists hc hok hst⟩
  obtain ⟨hwf, -, hk, hp⟩ := hinv
  have hl := hwf.lists
  have hrm : s.clientsToRemove = [] := hl.removed_eq_nil hpc
  have hdrop : ∀ fd todo, s.pc ≠ .drop fd todo := by
    intro fd todo hd
    rw [hd] at hpc
    cases hpc
  refine ⟨hk.shape, card_connections hl hl.nodupClients
    (fun fd hfd => hl.openClients fd hfd (Or.inr (by simp [hrm]))) fun c => ⟨fun hcb => ?_, ?_⟩⟩
  · obtain ⟨fd, hfd, hcn, -⟩ := hp.client c hcb
    exact ⟨fd, hfd, hcn⟩
  · rintro ⟨fd, hfd, hcn⟩
    exact hk.serving fd hfd c hcn (hdrop fd)

/-- One of the two clients asks to quit. -/
def politeClient : List (Act UInt64) :=
  twoClients ++ ([.thread .tau, .thread (.select [4] false), .thread .tau, .thread (.read .data),
    .thread (.send true), .thread .tau, .thread .tau, .thread .tau, .thread .tau, .thread .tau,
    .thread .tau] : List (Act UInt64))

theorem politeClient_paired :
    ∃ s : Server UInt64, exec (restrict step LeavesPolitely) (init 3) politeClient = some s ∧
      s.clients = [5] ∧ s.cbs 0 = [.onConnect, .onDisconnect] ∧ s.cbs 1 = [.onConnect] ∧
      PairsCallbacks s := by
  have hrun : ((exec (restrict step LeavesPolitely) (init 3) politeClient).any fun s =>
      s.pc.locked = false ∧ s.clients = [5] ∧ s.cbs 0 = [.onConnect, .onDisconnect] ∧
        s.cbs 1 = [.onConnect]) = true := by
    decide +kernel
  obtain ⟨s, hs, hrun⟩ := (Option.any_eq_true _ _).1 hrun
  obtain ⟨hpc, hcl, h0, h1⟩ := of_decide_eq_true hrun
  exact ⟨s, hs, hcl, h0, h1, callbacks_paired hs hpc⟩

/-- One of the two clients closes its socket without asking. -/
def deadClient : List (Act UInt64) :=
  twoClients ++ [.thread .tau, .thread (.select [4] false), .thread .tau, .thread (.read .eof),
    .thread .tau, .thread .tau, .thread .tau, .thread .tau, .thread .tau, .thread .tau]

/-- Two connections have had a connect callback and no disconnect callback, and there is one client. -/
theorem deadClient_unpaired :
    ∃ s : Server UInt64, exec step (init 3) deadClient = some s ∧ s.pc.locked = false ∧
      s.clients = [5] ∧ s.cbs 0 = [.onConnect] ∧ s.cbs 1 = [.onConnect] ∧ ¬ PairsCallbacks s := by
  have hrun : ((exec step (init 3) deadClient).any fun s => s.pc.locked = false ∧ s.clients = [5] ∧
      s.cbs 0 = [.onConnect] ∧ s.cbs 1 = [.onConnect] ∧
      ((Finset.range s.nconn).filter fun c => s.cbs c = [.onConnect]).card = 2) = true := by
    decide +kernel
  obtain ⟨s, hs, hrun⟩ := (Option.any_eq_true _ _).1 hrun
  obtain ⟨hpc, hcl, h0, h1, hcard⟩ := of_decide_eq_true hrun
  refine ⟨s, hs, hpc, hcl, h0, h1, fun hp => ?_⟩
  have heq := hp.2
  rw [hcard, hcl] at heq
  cases heq

end Server

end Shmdata

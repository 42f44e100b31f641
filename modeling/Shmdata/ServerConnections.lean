/-
**The connections of the server and the descriptors it watches.**

Every connection that the server has accepted is behind an open descriptor until the server closes it.
What the loops of `client_interaction` must keep in step with that are three more collections: `allset`,
which `select` watches, and the two collections of clients.  They are kept in step but for two slips.  A
descriptor on which the connect message could not be sent is neither listed nor closed, and a pending
client whose acknowledgement could not be read is taken from the list but neither closed nor taken from
`allset`.

Main definitions:

* `Shmdata.Server.Closes` — the invariant of the closed connections;
* `Shmdata.Server.AcksRead`, `Shmdata.Server.Greets` — the steps without the two slips;
* `Shmdata.Server.Kept`, `Shmdata.Server.Watched` — the invariants of the listed and of the watched
  descriptors.

Main results:

* `Shmdata.Server.watched_of_exec` — **without the two slips the server watches exactly its
  connections**;
* `Shmdata.Server.resetAck_not_watched` — a client that leaves before it has read the connect message is
  watched for ever.
-/

import Shmdata.ServerStreams

set_option relaxedAutoImplicit false
set_option autoImplicit false

namespace Shmdata

namespace Server

open Runs SrvMsg

variable {σ : Type} {s t : Server σ}

/-! ### The connections that are closed -/

/-- The invariant of the closed connections. -/
structure Closes (s : Server σ) : Prop where
  removed : s.pc.scanTodo ≠ none → ∀ fd ∈ s.clientsToRemove, s.conn fd = none
  opened : ∀ fd c, s.conn fd = some c → s.closed c = false
  lt : ∀ c, s.closed c = true → c < s.nconn
  kept : ∀ c, s.acked c = true → s.closed c = true ∨ ∃ fd ∈ s.clients, s.conn fd = some c

theorem closes_init (lfd : ℕ) : Closes (init lfd : Server σ) := by
  constructor <;> simp [init]

namespace Closes

/-- A step that opens and closes nothing. -/
theorem congr (hi : Closes s) (h1 : t.conn = s.conn) (h2 : t.closed = s.closed)
    (h3 : t.nconn = s.nconn) (h4 : t.acked = s.acked)
    (hcl : ∀ fd c, s.conn fd = some c → fd ∈ s.clients → fd ∈ t.clients)
    (hrm : t.clientsToRemove = [] ∨
      t.clientsToRemove = s.clientsToRemove ∧ (t.pc.scanTodo ≠ none → s.pc.scanTodo ≠ none)) :
    Closes t where
  removed hsc fd hfd := by
    rcases hrm with h | ⟨h, hsc'⟩
    · rw [h] at hfd
      cases hfd
    · rw [h1]
      exact hi.removed (hsc' hsc) fd (h ▸ hfd)
  opened := by rw [h1, h2]; exact hi.opened
  lt := by rw [h2, h3]; exact hi.lt
  kept c hc := by
    rw [h4] at hc
    rw [h1, h2]
    rcases hi.kept c hc with h | ⟨fd, hfd, hcn⟩
    · exact Or.inl h
    · exact Or.inr ⟨fd, hcl fd c hcn hfd, hcn⟩

theorem closed (hi : Closes s) (hl : Lists s) {it : ℕ} {pc : Pc}
    (hpc : pc.scanTodo ≠ none → s.pc.scanTodo ≠ none) : Closes (s.close it pc) where
  removed hsc fd hfd := by
    by_cases hit : fd = it
    · subst hit
      exact Function.update_self ..
    · rcases List.mem_append.1 hfd with hfd | hfd
      · exact (Function.update_of_ne hit ..).trans (hi.removed (hpc hsc) fd hfd)
      · exact absurd (List.mem_singleton.1 hfd) hit
  opened fd c hcn := by
    obtain ⟨hne, hcn⟩ := update_none_eq_some.1 hcn
    show mark s.closed (s.conn it) c = false
    cases hit : s.conn it with
    | none => exact hi.opened fd c hcn
    | some d =>
        have hcd : c ≠ d := by
          rintro rfl
          exact hne (hl.inj fd it c hcn hit)
        rw [mark_of_ne _ hcd]
        exact hi.opened fd c hcn
  lt c hc := by
    replace hc : mark s.closed (s.conn it) c = true := hc
    cases hit : s.conn it with
    | none => exact hi.lt c (by rwa [hit] at hc)
    | some d =>
        by_cases hcd : c = d
        · subst hcd
          exact hl.lt it c hit
        · rw [hit, mark_of_ne _ hcd] at hc
          exact hi.lt c hc
  kept c hc := by
    show mark s.closed (s.conn it) c = true ∨
      ∃ fd ∈ s.clients, Function.update s.conn it none fd = some c
    rcases hi.kept c hc with h | ⟨fd, hfd, hcn⟩
    · exact Or.inl (mark_mono _ _ h)
    · by_cases hit : fd = it
      · subst hit
        exact Or.inl (by rw [hcn]; exact mark_self ..)
      · exact Or.inr ⟨fd, hfd, by rw [Function.update_of_ne hit]; exact hcn⟩

theorem accepted (hi : Closes s) {fd : ℕ} (hc : s.conn fd = none) :
    Closes { s with
      pc := .greet (some fd)
      conn := Function.update s.conn fd (some s.nconn)
      nconn := s.nconn + 1 } where
  removed := by simp
  opened fd' c hcn := by
    by_cases hfd : fd' = fd
    · obtain rfl : s.nconn = c := by simpa [hfd] using hcn
      by_contra h
      exact absurd (hi.lt _ (Bool.not_eq_false _ ▸ h)) (lt_irrefl _)
    · exact hi.opened fd' c (by simpa [hfd] using hcn)
  lt c hc := (hi.lt c hc).trans (Nat.lt_succ_self _)
  kept c h := by
    rcases hi.kept c h with h | ⟨fd', hfd', hcn⟩
    · exact Or.inl h
    · refine Or.inr ⟨fd', hfd', (Function.update_of_ne ?_ ..).trans hcn⟩
      rintro rfl
      rw [hc] at hcn
      cases hcn

theorem ackRead (hi : Closes s) (hl : Lists s) {it : ℕ} {todo : List ℕ}
    (hpc : s.pc = .pending (it :: todo)) :
    Closes { s with
      clients := s.clients ++ [it]
      clientsToRemove := s.clientsToRemove ++ [it]
      acked := mark s.acked (s.conn it)
      cbs := record s.cbs (s.conn it) .onConnect
      pc := .pending todo } where
  removed := by simp
  opened := hi.opened
  lt := hi.lt
  kept c hc := by
    obtain ⟨hp, hr⟩ := hl.pend_head (i := it) (l := todo) (by simp [hpc])
    obtain ⟨d, hd⟩ := hl.openPending it hp hr
    by_cases hcd : c = d
    · subst hcd
      exact Or.inr ⟨it, List.mem_append_right _ (List.mem_singleton.2 rfl), hd⟩
    · replace hc : mark s.acked (s.conn it) c = true := hc
      rw [hd, mark_of_ne _ hcd] at hc
      rcases hi.kept c hc with h | ⟨fd, hfd, hcn⟩
      · exact Or.inl h
      · exact Or.inr ⟨fd, List.mem_append_left _ hfd, hcn⟩

theorem step {a : Act σ} (hi : Closes s) (hl : Lists s) (h : s.step a = some t) : Closes t := by
  cases trans_of_step h with
  | loadQuit hpc =>
      refine hi.congr rfl rfl rfl rfl (fun _ _ _ h => h) (Or.inr ⟨rfl, fun h => ?_⟩)
      cases hq : s.quit <;> simp [hq] at h
  | lock hpc hn =>
      exact hi.congr rfl rfl rfl rfl (fun _ _ _ h => h)
        (Or.inl (hl.rest (by simp [hpc]) (by simp [hpc])))
  | accepted hpc hc => exact hi.accepted hc
  | greeted hpc =>
      refine hi.congr rfl rfl rfl rfl (fun _ _ _ h => h) (Or.inr ⟨rfl, fun h => ?_⟩)
      dsimp only at h
      split at h <;> exact absurd rfl h
  | readError hpc hr =>
      exact hi.congr rfl rfl rfl rfl (fun _ _ _ h => h) (Or.inr ⟨rfl, fun _ => by simp [hpc]⟩)
  | dropped hpc => exact hi.closed hl fun _ => by simp [hpc]
  | erased hpc =>
      refine hi.congr rfl rfl rfl rfl (fun fd c hcn hfd => ?_) (Or.inl rfl)
      refine hl.mem_erased.2 ⟨hfd, fun hrm => ?_⟩
      rw [hi.removed (by simp [hpc]) fd hrm] at hcn
      cases hcn
  | ackError hpc hr => exact { hi with removed := by simp }
  | ackRead hpc hr => exact hi.ackRead hl hpc
  | pendingDropped hpc => exact hi.closed hl (by simp)
  | purged hpc => exact hi.congr rfl rfl rfl rfl (fun _ _ _ h => h) (Or.inl rfl)
  | scanned hpc | skip hpc _ | readEof hpc _ | readQuit hpc _ | recovered hpc | quitAcked hpc =>
      exact hi.congr rfl rfl rfl rfl (fun _ _ _ h => h) (Or.inr ⟨rfl, fun _ => by simp [hpc]⟩)
  | notifyLock | notifySend | notifyUnlock | dtorStart | dtorJoin | dtorSend | dtorEnd =>
      exact hi.congr rfl rfl rfl rfl (fun _ _ _ h => h) (Or.inr ⟨rfl, id⟩)
  | _ => exact hi.congr rfl rfl rfl rfl (fun _ _ _ h => h) (Or.inr ⟨rfl, fun h => absurd rfl h⟩)

end Closes

/-- A closed connection stays closed. -/
theorem closed_of_step {a : Act σ} (h : s.step a = some t) {c : ℕ} (hc : s.closed c = true) :
    t.closed c = true := by
  cases trans_of_step h with
  | dropped | pendingDropped => exact mark_mono _ _ hc
  | _ => exact hc

/-- An open connection keeps its descriptor until it is closed. -/
theorem conn_of_step {a : Act σ} (h : s.step a = some t) {fd c : ℕ} (hc : s.conn fd = some c) :
    t.conn fd = some c ∨ t.closed c = true := by
  have hclose (it : ℕ) (pc : Pc) :
      (s.close it pc).conn fd = some c ∨ (s.close it pc).closed c = true := by
    by_cases hfd : fd = it
    · subst hfd
      exact Or.inr (by rw [close, hc]; exact mark_self ..)
    · exact Or.inl ((Function.update_of_ne hfd ..).trans hc)
  cases trans_of_step h with
  | @accepted fd' hpc hnone =>
      refine Or.inl ((Function.update_of_ne ?_ ..).trans hc)
      rintro rfl
      rw [hnone] at hc
      cases hc
  | dropped | pendingDropped => exact hclose _ _
  | _ => exact Or.inl hc


/-! ### The connections that are listed -/

/-- The acknowledgement of a pending client is read without an error. -/
def AcksRead (s : Server σ) (a : Act σ) : Prop :=
  match s.pc, a with
  | .pending (_ :: _), .thread (.read .error) => False
  | _, _ => True

/-- The connect message is sent on an accepted connection without an error. -/
def Greets (s : Server σ) (a : Act σ) : Prop :=
  match s.pc, a with
  | .greet (some _), .thread (.send false) => False
  | _, _ => True

instance (s : Server σ) (a : Act σ) : Decidable (AcksRead s a) := by
  unfold AcksRead
  split <;> infer_instance

instance (s : Server σ) (a : Act σ) : Decidable (Greets s a) := by
  unfold Greets
  split <;> infer_instance

/-- The invariant of the listed connections: the pending clients that are about to be removed are clients
or closed, every accepted connection is open or closed, and an open one that was greeted is listed. -/
structure Kept (s : Server σ) : Prop where
  passed : s.pc.pendingTodo ≠ none → ∀ fd ∈ s.clientsToRemove, fd ∈ s.clients ∨ s.conn fd = none
  complete : ∀ c < s.nconn, s.closed c = true ∨ ∃ fd, s.conn fd = some c
  listed : ∀ fd c, s.conn fd = some c → .connect ∈ s.out c → fd ∈ s.clients ∨ fd ∈ s.pendingClients

theorem kept_init (lfd : ℕ) : Kept (init lfd : Server σ) := by
  constructor <;> simp [init]

namespace Kept

/-- A step that opens, closes and greets nothing. -/
theorem congr (hk : Kept s) (h1 : t.conn = s.conn) (h2 : t.closed = s.closed)
    (h3 : t.nconn = s.nconn) (hout : ∀ c, .connect ∈ t.out c → .connect ∈ s.out c)
    (hl : ∀ fd c, s.conn fd = some c → fd ∈ s.clients ∨ fd ∈ s.pendingClients →
      fd ∈ t.clients ∨ fd ∈ t.pendingClients)
    (hp : t.pc.pendingTodo ≠ none → t.clientsToRemove = [] ∨
      t.clientsToRemove = s.clientsToRemove ∧ t.clients = s.clients ∧ s.pc.pendingTodo ≠ none) :
    Kept t where
  passed hpc fd hfd := by
    rcases hp hpc with h | ⟨hr, hc, hpc'⟩
    · rw [h] at hfd
      cases hfd
    · rw [hc, h1]
      exact hk.passed hpc' fd (hr ▸ hfd)
  complete := by
    rw [h1, h2, h3]
    exact hk.complete
  listed fd c hcn hm := by
    rw [h1] at hcn
    exact hl fd c hcn (hk.listed fd c hcn (hout c hm))

/-- A step that only moves the serving thread, outside the pass over `pending_clients_`. -/
theorem moved (hk : Kept s) (h1 : t.conn = s.conn) (h2 : t.closed = s.closed)
    (h3 : t.nconn = s.nconn) (h4 : t.out = s.out) (h5 : t.clients = s.clients)
    (h6 : t.pendingClients = s.pendingClients) (hpc : t.pc.pendingTodo = none) : Kept t := by
  refine hk.congr h1 h2 h3 (fun c h => h4 ▸ h) (fun fd c _ h => ?_) fun h => absurd hpc h
  rw [h5, h6]
  exact h

/-- Another message than the connect message is sent. -/
theorem connect_of_record {f : ℕ → List (SrvMsg σ)} {o : Option ℕ} {m : SrvMsg σ} {c : ℕ}
    (hm : m ≠ .connect) (h : .connect ∈ record f o m c) : .connect ∈ f c := by
  cases o with
  | none => exact h
  | some d =>
      by_cases hcd : c = d
      · rw [hcd, record_self] at h
        rw [hcd]
        exact (List.mem_append.1 h).resolve_right fun h => hm (List.mem_singleton.1 h).symm
      · rwa [record_of_ne _ _ hcd] at h

theorem connect_of_send {f : ℕ → List (SrvMsg σ)} {o : Option ℕ} {m : SrvMsg σ} {c : ℕ} {ok : Bool}
    (hm : m ≠ .connect) (h : .connect ∈ (if ok then record f o m else f) c) : .connect ∈ f c := by
  cases ok with
  | true => exact connect_of_record hm h
  | false => exact h

theorem accepted (hk : Kept s) (hs : Streams s) {fd : ℕ} (hc : s.conn fd = none) :
    Kept { s with
      pc := .greet (some fd)
      conn := Function.update s.conn fd (some s.nconn)
      nconn := s.nconn + 1 } where
  passed := by simp
  complete c hlt := by
    rcases Nat.lt_succ_iff_lt_or_eq.1 hlt with hlt | rfl
    · refine (hk.complete c hlt).imp_right fun ⟨fd', hcn⟩ => ⟨fd', ?_⟩
      refine (Function.update_of_ne ?_ ..).trans hcn
      rintro rfl
      rw [hc] at hcn
      cases hcn
    · exact Or.inr ⟨fd, Function.update_self ..⟩
  listed fd' c hcn hm := by
    by_cases hfd : fd' = fd
    · obtain rfl : s.nconn = c := by simpa [hfd] using hcn
      rw [show _ = _ from (hs.fresh _ le_rfl).1] at hm
      cases hm
    · exact hk.listed fd' c ((Function.update_of_ne hfd ..).symm.trans hcn) hm

theorem greeted (hk : Kept s) (hl : Lists s) {fd : ℕ} (hpc : s.pc = .greet (some fd)) {pc : Pc}
    (hpc' : pc.pendingTodo = none) :
    Kept { s with
      maxfd := max s.maxfd fd
      allset := setInsert fd s.allset
      pendingClients := setInsert fd s.pendingClients
      out := record s.out (s.conn fd) .connect
      pc := pc } where
  passed h := absurd hpc' h
  complete := hk.complete
  listed fd' c hcn hm := by
    by_cases hfd : fd' = fd
    · exact Or.inr (mem_setInsert.2 (Or.inl hfd))
    · obtain ⟨d, hd⟩ := (hl.greet fd hpc).1
      have hne : c ≠ d := by
        rintro rfl
        exact hfd (hl.inj fd' fd c hcn hd)
      have hm : .connect ∈ record s.out (s.conn fd) .connect c := hm
      rw [hd, record_of_ne _ _ hne] at hm
      exact (hk.listed fd' c hcn hm).imp_right fun h => mem_setInsert.2 (Or.inr h)

theorem close (hk : Kept s) {it : ℕ} {pc : Pc} (hpc : pc.pendingTodo ≠ none → s.pc.pendingTodo ≠ none) :
    Kept (s.close it pc) where
  passed hp fd hfd := by
    by_cases hit : fd = it
    · subst hit
      exact Or.inr (Function.update_self ..)
    · rcases List.mem_append.1 hfd with hfd | hfd
      · exact (hk.passed (hpc hp) fd hfd).imp_right (Function.update_of_ne hit ..).trans
      · exact absurd (List.mem_singleton.1 hfd) hit
  complete c hlt := by
    show mark s.closed (s.conn it) c = true ∨ ∃ fd, Function.update s.conn it none fd = some c
    rcases hk.complete c hlt with h | ⟨fd, hcn⟩
    · exact Or.inl (mark_mono _ _ h)
    · by_cases hit : fd = it
      · subst hit
        exact Or.inl (by rw [hcn]; exact mark_self ..)
      · exact Or.inr ⟨fd, (Function.update_of_ne hit ..).trans hcn⟩
  listed fd c hcn hm := hk.listed fd c (update_none_eq_some.1 hcn).2 hm

theorem ackRead (hk : Kept s) {it : ℕ} {todo : List ℕ} (hpc : s.pc = .pending (it :: todo)) :
    Kept { s with
      clients := s.clients ++ [it]
      clientsToRemove := s.clientsToRemove ++ [it]
      acked := mark s.acked (s.conn it)
      cbs := record s.cbs (s.conn it) .onConnect
      pc := .pending todo } where
  passed _ fd hfd := by
    rcases List.mem_append.1 hfd with hfd | hfd
    · exact (hk.passed (by simp [hpc]) fd hfd).imp_left (List.mem_append_left _)
    · exact Or.inl (List.mem_append_right _ hfd)
  complete := hk.complete
  listed fd c hcn hm := (hk.listed fd c hcn hm).imp_left (List.mem_append_left _)

theorem step {a : Act σ} (hk : Kept s) (hw : WellFormed s) (hc : Closes s) (hok : AcksRead s a)
    (h : s.step a = some t) : Kept t := by
  cases trans_of_step h with
  | loadQuit hpc =>
      refine hk.moved rfl rfl rfl rfl rfl rfl ?_
      cases s.quit <;> rfl
  | lock hpc hn =>
      refine hk.moved rfl rfl rfl rfl rfl rfl ?_
      cases s.listening <;> rfl
  | readError hpc hr =>
      refine hk.moved rfl rfl rfl rfl rfl rfl ?_
      dsimp only
      split <;> rfl
  | accepted hpc hcn => exact hk.accepted hw.streams hcn
  | greeted hpc => exact hk.greeted hw.lists hpc (by split <;> rfl)
  | quitAcked hpc =>
      exact hk.congr rfl rfl rfl (fun c h => connect_of_send (by simp) h) (fun _ _ _ h => h)
        fun h => absurd rfl h
  | dropped hpc => exact hk.close fun h => absurd rfl h
  | erased hpc =>
      refine hk.congr rfl rfl rfl (fun c h => h) (fun fd c hcn h => ?_) fun _ => Or.inl rfl
      refine h.imp_left fun hfd => hw.lists.mem_erased.2 ⟨hfd, fun hrm => ?_⟩
      rw [hc.removed (by simp [hpc]) fd hrm] at hcn
      cases hcn
  | pendingScanned hpc | pendingSkip hpc _ | ackEof hpc _ =>
      exact hk.congr rfl rfl rfl (fun c h => h) (fun _ _ _ h => h) fun _ =>
        Or.inr ⟨rfl, rfl, by simp [hpc]⟩
  | ackError hpc hr => simp [AcksRead, hpc] at hok
  | ackRead hpc hr => exact hk.ackRead hpc
  | pendingDropped hpc => exact hk.close fun _ => by simp [hpc]
  | purged hpc =>
      refine hk.congr rfl rfl rfl (fun c h => h) (fun fd c hcn h => ?_) fun h => absurd rfl h
      by_cases hrm : fd ∈ s.clientsToRemove
      · rcases hk.passed (by simp [hpc]) fd hrm with hfd | hnone
        · exact Or.inl hfd
        · rw [hnone] at hcn
          cases hcn
      · exact h.imp_right fun hfd => by simpa using ⟨hfd, hrm⟩
  | notifySend hn =>
      exact hk.congr rfl rfl rfl (fun c h => connect_of_send (by simp) h) (fun _ _ _ h => h)
        fun h => Or.inr ⟨rfl, rfl, h⟩
  | dtorSend hd =>
      exact hk.congr rfl rfl rfl (fun c h => connect_of_send (by simp) h) (fun _ _ _ h => h)
        fun h => Or.inr ⟨rfl, rfl, h⟩
  | notifyLock | notifyUnlock | dtorStart | dtorJoin | dtorEnd =>
      exact hk.congr rfl rfl rfl (fun c h => h) (fun _ _ _ h => h) fun h => Or.inr ⟨rfl, rfl, h⟩
  | _ => exact hk.moved rfl rfl rfl rfl rfl rfl rfl

end Kept

/-! ### The descriptors that are watched -/

/-- The invariant of the watched descriptors: `allset` holds the listed descriptors that are open, and
every open connection was greeted or is about to be. -/
structure Watched (s : Server σ) : Prop where
  allset : ∀ fd, fd ∈ s.allset ↔ (fd ∈ s.clients ∨ fd ∈ s.pendingClients) ∧ ∃ c, s.conn fd = some c
  greeted : ∀ fd c, s.conn fd = some c → .connect ∈ s.out c ∨ s.pc = .greet (some fd)

theorem watched_init (lfd : ℕ) : Watched (init lfd : Server σ) := by
  constructor <;> simp [init]

namespace Watched

theorem allset_step {a : Act σ} (hw : Watched s) (hl : Lists s) (hc : Closes s) (hk : Kept s)
    (hok : AcksRead s a) (h : s.step a = some t) (fd : ℕ) :
    fd ∈ t.allset ↔ (fd ∈ t.clients ∨ fd ∈ t.pendingClients) ∧ ∃ c, t.conn fd = some c := by
  have hclose (it : ℕ) : fd ∈ s.allset.filter (· ≠ it) ↔
      (fd ∈ s.clients ∨ fd ∈ s.pendingClients) ∧ ∃ c, Function.update s.conn it none fd = some c := by
    simp only [List.mem_filter, hw.allset fd, update_none_eq_some, decide_eq_true_eq]
    exact ⟨fun ⟨⟨hm, c, hcn⟩, hne⟩ => ⟨hm, c, hne, hcn⟩, fun ⟨hm, c, hne, hcn⟩ => ⟨⟨hm, c, hcn⟩, hne⟩⟩
  cases trans_of_step h with
  | @accepted fd' hpc hcn =>
      -- the new descriptor is not listed, since all the listed ones are open
      have hrm : s.clientsToRemove = [] := hl.rest (by simp [hpc]) (by simp [hpc])
      by_cases hfd : fd = fd'
      · subst hfd
        refine iff_of_false (fun hm => ?_) fun ⟨hm, _⟩ => ?_
        · obtain ⟨-, c, hc⟩ := (hw.allset fd).1 hm
          rw [hcn] at hc
          cases hc
        · obtain ⟨c, hc⟩ : ∃ c, s.conn fd = some c := by
            rcases hm with hm | hm
            · exact hl.openClients fd hm (Or.inr (by simp [hrm]))
            · exact hl.openPending fd hm (by simp [hrm])
          rw [hcn] at hc
          cases hc
      · show fd ∈ s.allset ↔ _ ∧ ∃ c, Function.update s.conn fd' (some s.nconn) fd = some c
        rw [Function.update_of_ne hfd]
        exact hw.allset fd
  | @greeted fd' hpc =>
      show fd ∈ setInsert fd' s.allset ↔ (_ ∨ fd ∈ setInsert fd' s.pendingClients) ∧ _
      rw [mem_setInsert, mem_setInsert, hw.allset fd]
      constructor
      · rintro (rfl | ⟨hm, hcn⟩)
        · exact ⟨Or.inr (Or.inl rfl), (hl.greet fd hpc).1⟩
        · exact ⟨hm.imp_right Or.inr, hcn⟩
      · rintro ⟨hm | rfl | hm, hcn⟩
        · exact Or.inr ⟨Or.inl hm, hcn⟩
        · exact Or.inl rfl
        · exact Or.inr ⟨Or.inr hm, hcn⟩
  | dropped | pendingDropped => exact hclose _
  | erased hpc =>
      refine (hw.allset fd).trans (and_congr_left fun ⟨c, hcn⟩ => or_congr_left ?_)
      refine ⟨fun hfd => hl.mem_erased.2 ⟨hfd, fun hrm => ?_⟩, fun hfd => (hl.mem_erased.1 hfd).1⟩
      rw [hc.removed (by simp [hpc]) fd hrm] at hcn
      cases hcn
  | ackError hpc => simp [AcksRead, hpc] at hok
  | @ackRead it todo hpc =>
      obtain ⟨hp, -⟩ := hl.pend_head (i := it) (l := todo) (by simp [hpc])
      refine (hw.allset fd).trans (and_congr_left' ?_)
      refine ⟨Or.imp_left (List.mem_append_left _), ?_⟩
      rintro (hfd | hfd)
      · rcases List.mem_append.1 hfd with hfd | hfd
        · exact Or.inl hfd
        · exact Or.inr (List.mem_singleton.1 hfd ▸ hp)
      · exact Or.inr hfd
  | purged hpc =>
      refine (hw.allset fd).trans (and_congr_left fun ⟨c, hcn⟩ => ?_)
      constructor
      · intro hm
        by_cases hrm : fd ∈ s.clientsToRemove
        · rcases hk.passed (by simp [hpc]) fd hrm with hfd | hnone
          · exact Or.inl hfd
          · rw [hnone] at hcn
            cases hcn
        · exact hm.imp_right fun hfd => by simpa using ⟨hfd, hrm⟩
      · exact Or.imp_right fun hfd => (List.mem_filter.1 hfd).1
  | _ => exact hw.allset fd

theorem greeted_step {a : Act σ} (hw : Watched s) (hok : Greets s a) (h : s.step a = some t)
    (fd c : ℕ) (hcn : t.conn fd = some c) : .connect ∈ t.out c ∨ t.pc = .greet (some fd) := by
  have hout := out_prefix_of_step h c
  -- outside the greeting what was greeted stays so
  have hkeep (hcn : s.conn fd = some c) (hpc : ∀ fd, s.pc ≠ .greet (some fd)) :
      .connect ∈ t.out c ∨ t.pc = .greet (some fd) :=
    Or.inl (hout.subset ((hw.greeted fd c hcn).resolve_right (hpc fd)))
  cases trans_of_step h with
  | @accepted fd' hpc =>
      by_cases hfd : fd = fd'
      · exact Or.inr (hfd ▸ rfl)
      · exact hkeep ((Function.update_of_ne hfd ..).symm.trans hcn) (by simp [hpc])
  | @greetFailed o hpc =>
      cases o with
      | none => exact hkeep hcn (by simp [hpc])
      | some fd' => simp [Greets, hpc] at hok
  | @greeted fd' hpc =>
      rcases hw.greeted fd c hcn with hm | hg
      · exact Or.inl (hout.subset hm)
      · rw [hpc] at hg
        cases hg
        refine Or.inl ?_
        have hcn : s.conn fd = some c := hcn
        show .connect ∈ record s.out (s.conn fd) .connect c
        rw [hcn, record_self]
        simp
  | dropped hpc | pendingDropped hpc => exact hkeep (update_none_eq_some.1 hcn).2 (by simp [hpc])
  | notifyLock | notifySend | notifyUnlock | dtorStart | dtorJoin | dtorSend | dtorEnd =>
      exact (hw.greeted fd c hcn).imp_left fun hm => hout.subset hm
  | loadQuit hpc | selectFailed hpc | selected hpc | lock hpc | acceptFailed hpc | scanned hpc
  | skip hpc | readError hpc | readEof hpc | readQuit hpc | recovered hpc | quitAcked hpc | erased hpc
  | pendingScanned hpc | pendingSkip hpc | ackError hpc | ackEof hpc | ackRead hpc | purged hpc =>
      exact hkeep hcn (by simp [hpc])

end Watched

/-- Neither of the two slips. -/
def Tidy (s : Server σ) (a : Act σ) : Prop := AcksRead s a ∧ Greets s a

instance (s : Server σ) (a : Act σ) : Decidable (Tidy s a) := inferInstanceAs (Decidable (_ ∧ _))

/-- The set of watched descriptors is the union of the two collections, and every accepted connection is
closed or behind a descriptor of one of them. -/
def WatchesConnections (s : Server σ) : Prop :=
  (∀ fd, fd ∈ s.allset ↔ fd ∈ s.pendingClients ∨ fd ∈ s.clients) ∧
    ∀ c < s.nconn, s.closed c = true ∨
      ∃ fd, s.conn fd = some c ∧ (fd ∈ s.pendingClients ∨ fd ∈ s.clients)

/-- **Whenever the serving thread does not hold `clients_mutex_`, the server watches exactly its
connections**, provided that no connect message fails and no acknowledgement is read with an error. -/
theorem watched_of_exec {lfd : ℕ} {as : List (Act σ)}
    (h : exec (restrict step Tidy) (init lfd) as = some s) (hpc : s.pc.locked = false) :
    WatchesConnections s := by
  have hinv : WellFormed s ∧ Closes s ∧ Kept s ∧ Watched s := by
    refine exec_invariant (P := fun s => WellFormed s ∧ Closes s ∧ Kept s ∧ Watched s)
      (fun s a t hs hst => ?_) h
      ⟨wellFormed_init lfd, closes_init lfd, kept_init lfd, watched_init lfd⟩
    obtain ⟨hok, hst⟩ := restrict_eq_some.1 hst
    obtain ⟨hwf, hc, hk, hw⟩ := hs
    exact ⟨hwf.step hst, hc.step hwf.lists hst, hk.step hwf hc hok.1 hst,
      hw.allset_step hwf.lists hc hk hok.1 hst, hw.greeted_step hok.2 hst⟩
  obtain ⟨hwf, -, hk, hw⟩ := hinv
  have hrm : s.clientsToRemove = [] := hwf.lists.removed_eq_nil hpc
  constructor
  · intro fd
    rw [hw.allset fd, or_comm, and_iff_left_iff_imp]
    rintro (hfd | hfd)
    · exact hwf.lists.openPending fd hfd (by simp [hrm])
    · exact hwf.lists.openClients fd hfd (Or.inr (by simp [hrm]))
  · intro c hlt
    refine (hk.complete c hlt).imp_right fun ⟨fd, hcn⟩ => ⟨fd, hcn, ?_⟩
    have hgreet : s.pc ≠ .greet (some fd) := by
      intro hg
      rw [hg] at hpc
      cases hpc
    exact (hk.listed fd c hcn ((hw.greeted fd c hcn).resolve_right hgreet)).symm

/-- A client connects and is greeted, acknowledges, asks to quit and is closed; a second one connects. -/
def quitAndConnect : List (Act UInt64) :=
  [.thread .tau, .thread (.select [] true), .thread .tau, .thread (.accept (some 4)),
    .thread (.send true), .thread .tau, .thread (.select [4] false), .thread .tau, .thread .tau,
    .thread .tau, .thread (.read .data), .thread .tau, .thread .tau, .thread .tau,
    .thread (.select [4] false), .thread .tau, .thread (.read .data), .thread (.send true),
    .thread .tau, .thread .tau, .thread .tau, .thread .tau, .thread .tau, .thread .tau,
    .thread (.select [] true), .thread .tau, .thread (.accept (some 4)), .thread (.send true)]

theorem quitAndConnect_watched :
    ∃ s : Server UInt64, exec (restrict step Tidy) (init 3) quitAndConnect = some s ∧ s.nconn = 2 ∧
      s.allset = [4] ∧ s.closed 0 = true ∧ WatchesConnections s := by
  have hrun : ((exec (restrict step Tidy) (init 3) quitAndConnect).any fun s => s.pc = .top ∧
      s.nconn = 2 ∧ s.allset = [4] ∧ s.closed 0 = true) = true := by
    decide +kernel
  obtain ⟨s, hs, hrun⟩ := (Option.any_eq_true _ _).1 hrun
  obtain ⟨hpc, hn, hall, hclosed⟩ := of_decide_eq_true hrun
  exact ⟨s, hs, hn, hall, hclosed, watched_of_exec hs (by rw [hpc]; rfl)⟩

/-- A client connects, is greeted, and leaves without having read the connect message, so that reading
its acknowledgement fails. -/
def resetAck : List (Act UInt64) :=
  [.thread .tau, .thread (.select [] true), .thread .tau, .thread (.accept (some 4)),
    .thread (.send true), .thread .tau, .thread (.select [4] false), .thread .tau, .thread .tau,
    .thread .tau, .thread (.read .error), .thread .tau, .thread .tau]

/-- The descriptor is in neither collection, not closed, and watched. -/
theorem resetAck_not_watched :
    ∃ s : Server UInt64, exec step (init 3) resetAck = some s ∧ s.pc = .top ∧ s.clients = [] ∧
      s.pendingClients = [] ∧ s.allset = [4] ∧ s.closed 0 = false ∧ ¬ WatchesConnections s := by
  have hrun : ((exec step (init 3) resetAck).any fun s => s.pc = .top ∧ s.clients = [] ∧
      s.pendingClients = [] ∧ s.allset = [4] ∧ s.closed 0 = false) = true := by
    decide +kernel
  obtain ⟨s, hs, hrun⟩ := (Option.any_eq_true _ _).1 hrun
  obtain ⟨hpc, hcl, hp, hall, hclosed⟩ := of_decide_eq_true hrun
  refine ⟨s, hs, hpc, hcl, hp, hall, hclosed, fun hw => ?_⟩
  have hmem := (hw.1 4).1 (by rw [hall]; simp)
  rw [hcl, hp] at hmem
  simp at hmem

end Server

end Shmdata

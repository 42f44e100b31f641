/-
**The end of the server, as its clients see it.**

`~UnixSocketServer` stops the serving thread and sends a quit message on every descriptor of `clients_`.
The descriptors of `pending_clients_` are left as they are: a client that was greeted and whose
acknowledgement the serving thread had no time to read is neither told nor closed, although it takes
itself for connected from the moment it has sent that acknowledgement.

Main definitions:

* `Shmdata.Server.Settled` — the steps of a server that is destroyed when no client is pending;
* `Shmdata.Server.Told` — the invariant of the clients that are told;
* `Shmdata.Server.TellsAll` — every greeted connection is closed or was sent one quit message.

Main results:

* `Shmdata.Server.tellsAll_of_exec` — **a server that is destroyed when no client is pending tells all its
  connections**;
* `Shmdata.Server.unreadAck_not_told` — a client whose acknowledgement is still unread is never told.
-/

import Shmdata.ServerConnections

set_option relaxedAutoImplicit false
set_option autoImplicit false

namespace Shmdata

namespace SrvMsg

variable {σ : Type}

/-- A connection is sent at most one quit message. -/
theorem Conversation.count_quit [DecidableEq σ] {l : List (SrvMsg σ)} (h : Conversation l)
    (hq : .quit ∈ l) : l.count .quit = 1 := by
  have hrun {k : List (SrvMsg σ)} (hk : Running k) : .quit ∉ k := by
    obtain ⟨sizes, rfl⟩ := hk
    simp
  rcases h with rfl | hl | ⟨k, hk, rfl⟩
  · cases hq
  · exact absurd hq (hrun hl)
  · rw [List.count_append, List.count_eq_zero_of_not_mem (hrun hk), List.count_singleton_self]

end SrvMsg

namespace Server

open Runs SrvMsg

variable {σ : Type} {s t : Server σ}

/-- The acknowledgements are read without an error, none is still unread when the destructor has stopped
the serving thread, and the destructor's messages are sent. -/
def Settled (s : Server σ) (a : Act σ) : Prop :=
  AcksRead s a ∧
    match a with
    | .dtorJoin => s.pendingClients = []
    | .dtorSend ok => ok = true
    | _ => True

instance (s : Server σ) (a : Act σ) : Decidable (Settled s a) :=
  match a with
  | .dtorJoin => inferInstanceAs (Decidable (AcksRead s .dtorJoin ∧ s.pendingClients = []))
  | .dtorSend ok => inferInstanceAs (Decidable (AcksRead s (.dtorSend ok) ∧ ok = true))
  | .thread _ | .notifyLock _ | .notifySend _ | .notifyUnlock | .dtorStart | .dtorEnd =>
      inferInstanceAs (Decidable (AcksRead s _ ∧ True))

/-- The invariant of the clients that are told: once the serving thread is stopped no client is pending,
and the clients that the destructor has passed were sent a quit message. -/
structure Told (s : Server σ) : Prop where
  pending : s.dtor.rest ≠ none → s.pendingClients = []
  told : ∀ todo, s.dtor.rest = some todo → ∀ fd ∈ s.clients, fd ∉ todo →
    ∀ c, s.conn fd = some c → .quit ∈ s.out c

/-- There is nothing to tell before the serving thread is stopped. -/
theorem told_of_rest (h : s.dtor.rest = none) : Told s where
  pending hd := absurd h hd
  told todo hd := by
    rw [h] at hd
    cases hd

namespace Told

theorem dtorSend (hi : Told s) {it : ℕ} {todo : List ℕ} (hd : s.dtor = .quitting (it :: todo)) :
    Told { s with
      out := record s.out (s.conn it) .quit
      dtor := .quitting todo } where
  pending _ := hi.pending (by simp [hd])
  told todo' htodo fd hfd hnot c hcn := by
    cases htodo
    show .quit ∈ record s.out (s.conn it) .quit c
    by_cases hit : fd = it
    · have hcn : s.conn fd = some c := hcn
      rw [← hit, hcn, record_self]
      simp
    · have hq := hi.told (it :: todo) (by simp [hd]) fd hfd (by simp [hit, hnot]) c hcn
      cases hc : s.conn it with
      | none => exact hq
      | some d =>
          by_cases hcd : c = d
          · rw [hcd, record_self]
            simp
          · rwa [record_of_ne _ _ hcd]

theorem step {a : Act σ} (hi : Told s) (hl : Lists s) (hok : Settled s a) (h : s.step a = some t) :
    Told t := by
  -- the serving thread takes no step once the destructor sends its messages
  have hrun (hpc : s.pc ≠ .stopped) : s.dtor.rest = none := by
    by_contra hd
    obtain ⟨todo, hd⟩ := Option.ne_none_iff_exists'.1 hd
    exact hl.quitting_vacuous hpc hd
  have hnotify (hn : s.notify ≠ none) : s.dtor.rest = none := by
    by_cases hd : s.dtor = .alive
    · simp [hd]
    · exact absurd (hl.alive hd) hn
  cases trans_of_step h with
  | notifyLock _ _ hd => exact told_of_rest (by simp [hd])
  | notifySend hn | notifyUnlock hn => exact told_of_rest (hnotify (by simp [hn]))
  | dtorStart hd hn => exact told_of_rest rfl
  | dtorJoin hd hpc =>
      refine ⟨fun _ => hok.2, fun todo htodo fd hfd hnot => ?_⟩
      cases htodo
      exact absurd hfd hnot
  | dtorSend hd =>
      obtain ⟨-, rfl⟩ := hok
      exact hi.dtorSend hd
  | dtorEnd hd =>
      exact ⟨fun _ => hi.pending (by simp [hd]), fun todo htodo => hi.told todo (by simpa [hd] using htodo)⟩
  | loadQuit hpc | selectFailed hpc | selected hpc | lock hpc | acceptFailed hpc | accepted hpc
  | greetFailed hpc | greeted hpc | scanned hpc | skip hpc | readError hpc | readEof hpc | readQuit hpc
  | recovered hpc | quitAcked hpc | dropped hpc | erased hpc | pendingScanned hpc | pendingSkip hpc
  | ackError hpc | ackEof hpc | ackRead hpc | pendingDropped hpc | purged hpc =>
      exact told_of_rest (hrun (by simp [hpc]))

end Told

/-- Every connection that was greeted is closed by the server or was sent exactly one quit message. -/
def TellsAll [DecidableEq σ] (s : Server σ) : Prop :=
  ∀ c, .connect ∈ s.out c → s.closed c = true ∨ (s.out c).count .quit = 1

/-- **When the destructor is over every connection was told**, in every run in which the acknowledgements
are read, none is still unread when the serving thread stops, and the last messages are sent. -/
theorem tellsAll_of_exec [DecidableEq σ] {lfd : ℕ} {as : List (Act σ)}
    (h : exec (restrict step Settled) (init lfd) as = some s) (hd : s.dtor = .done) : TellsAll s := by
  have hinv : WellFormed s ∧ Closes s ∧ Kept s ∧ Told s := by
    refine exec_invariant (P := fun s => WellFormed s ∧ Closes s ∧ Kept s ∧ Told s)
      (fun s a t hs hst => ?_) h
      ⟨wellFormed_init lfd, closes_init lfd, kept_init lfd, told_of_rest rfl⟩
    obtain ⟨hok, hst⟩ := restrict_eq_some.1 hst
    obtain ⟨hwf, hc, hk, ht⟩ := hs
    exact ⟨hwf.step hst, hc.step hwf.lists hst, hk.step hwf hc hok.1 hst, ht.step hwf.lists hok hst⟩
  obtain ⟨hwf, -, hk, ht⟩ := hinv
  intro c hm
  have hlt : c < s.nconn := by
    by_contra hge
    rw [(hwf.streams.fresh c (not_lt.1 hge)).1] at hm
    cases hm
  refine (hk.complete c hlt).imp_right fun ⟨fd, hcn⟩ => ?_
  have hfd : fd ∈ s.clients := by
    refine (hk.listed fd c hcn hm).resolve_right fun hp => ?_
    rw [ht.pending (by simp [hd])] at hp
    cases hp
  have hq := ht.told [] (by simp [hd]) fd hfd (by simp) c hcn
  exact (hwf.streams.stream c).count_quit hq

/-- Two clients connect and acknowledge; the first leaves, and the server is destroyed. -/
def orderlyEnd : List (Act UInt64) :=
  [.thread .tau, .thread (.select [] true), .thread .tau, .thread (.accept (some 4)),
    .thread (.send true), .thread .tau, .thread (.select [] true), .thread .tau,
    .thread (.accept (some 5)), .thread (.send true), .thread .tau, .thread (.select [4, 5] false),
    .thread .tau, .thread .tau, .thread .tau, .thread (.read .data), .thread (.read .data),
    .thread .tau, .thread .tau, .thread .tau, .thread (.select [4] false), .thread .tau,
    .thread (.read .eof), .thread .tau, .thread .tau, .thread .tau, .thread .tau, .thread .tau,
    .thread .tau, .dtorStart, .thread .tau, .dtorJoin, .dtorSend true, .dtorEnd]

theorem orderlyEnd_tellsAll :
    ∃ s : Server UInt64, exec (restrict step Settled) (init 3) orderlyEnd = some s ∧ s.nconn = 2 ∧
      s.closed 0 = true ∧ s.out 1 = [.connect, .quit] ∧ TellsAll s := by
  have hrun : ((exec (restrict step Settled) (init 3) orderlyEnd).any fun s => s.dtor = .done ∧
      s.nconn = 2 ∧ s.closed 0 = true ∧ s.out 1 = [.connect, .quit]) = true := by
    decide +kernel
  obtain ⟨s, hs, hrun⟩ := (Option.any_eq_true _ _).1 hrun
  obtain ⟨hd, hn, hclosed, hout⟩ := of_decide_eq_true hrun
  exact ⟨s, hs, hn, hclosed, hout, tellsAll_of_exec hs hd⟩

/-- A client is greeted, and the server is destroyed before the serving thread has read the
acknowledgement. -/
def unreadAck : List (Act UInt64) :=
  [.thread .tau, .thread (.select [] true), .thread .tau, .thread (.accept (some 4)),
    .thread (.send true), .dtorStart, .thread .tau, .dtorJoin, .dtorEnd]

/-- The client was sent the connect message and nothing else, and its descriptor is still open. -/
theorem unreadAck_not_told :
    ∃ s : Server UInt64, exec step (init 3) unreadAck = some s ∧ s.dtor = .done ∧
      s.out 0 = [.connect] ∧ s.closed 0 = false ∧ ¬ TellsAll s := by
  have hrun : ((exec step (init 3) unreadAck).any fun s => s.dtor = .done ∧ s.out 0 = [.connect] ∧
      s.closed 0 = false) = true := by
    decide +kernel
  obtain ⟨s, hs, hrun⟩ := (Option.any_eq_true _ _).1 hrun
  obtain ⟨hd, hout, hclosed⟩ := of_decide_eq_true hrun
  refine ⟨s, hs, hd, hout, hclosed, fun ht => ?_⟩
  rcases ht 0 (by rw [hout]; simp) with h | h
  · rw [hclosed] at h
    cases h
  · rw [hout] at h
    cases h

end Server

end Shmdata

/-
**Crashed readers are cancelled exactly once.**

A reader that dies with an update unread in its socket makes the server's next read on it fail, and
the server gives its read back with `cancel_commited_reader`.  This module shows that the count stays
exact for readers that die while they are idle or have an update unread, and have not asked to quit:
the server cancels a read only for a dead reader that the current frame was announced to, at most once,
and before it closes the connection, also when it gets there between `notify_update` and
`commit_readers`, where the cancellation may have to wait with `clients_mutex_` held until the writer
commits.

Main definitions:

* `Shmdata.System.Tidy` — no reset, and nobody dies in the middle of a read;
* `Shmdata.System.Handled` — no read error is left to the server;
* `Shmdata.System.Crash` — **the invariant of the runs with crashes**.

Main results:

* `Shmdata.System.Crash.step` — every step of such a run keeps it;
* `Shmdata.System.cancellation` — **cancellation keeps the count exact**.
-/

import Shmdata.Accounting
import Shmdata.Mailbox

set_option relaxedAutoImplicit false
set_option autoImplicit false

namespace Shmdata

namespace Server

variable {σ : Type} {s t : Server σ}

/-- The connection is closed, or about to be. -/
def Gone (s : Server σ) (c : ℕ) : Prop :=
  s.closed c = true ∨
    ∃ it todo, (s.pc = .drop it todo ∨ s.pc = .dropPending it todo) ∧ s.conn it = some c

/-- How the serving thread comes to close a connection: a read error on a client that is not
notified, an end of file, a cancellation, or a quit request. -/
theorem gone_of_thread {ev : Ev} (h : s.step (.thread ev) = some t) {c : ℕ} (hg : t.Gone c) :
    s.Gone c ∨ ∃ it todo, s.conn it = some c ∧
      (ev = .read .error ∧ s.pc = .clients (it :: todo) ∧ it ∉ s.clientsNotified ∨
        ev = .read .eof ∧ (s.pc = .clients (it :: todo) ∨ s.pc = .pending (it :: todo)) ∨
        ev = .tau ∧ s.pc = .recover it todo ∨ s.pc = .ackQuit it todo) := by
  have hclose (it : ℕ) (todo : List ℕ) (hpc : s.pc = .drop it todo ∨ s.pc = .dropPending it todo)
      (hc : mark s.closed (s.conn it) c = true) : s.Gone c := by
    cases hit : s.conn it with
    | none => exact Or.inl (by rwa [hit] at hc)
    | some d =>
        by_cases hcd : c = d
        · subst hcd
          exact Or.inr ⟨it, todo, hpc, hit⟩
        · rw [hit, mark_of_ne _ hcd] at hc
          exact Or.inl hc
  cases trans_of_step h with
  | @readError it todo hpc hr =>
      rcases hg with hg | ⟨it', todo', hpc', hc⟩
      · exact Or.inl (Or.inl hg)
      · dsimp only at hpc'
        split at hpc'
        · rcases hpc' with hpc' | hpc' <;> cases hpc'
        · next hit =>
            obtain ⟨rfl, rfl⟩ : it = it' ∧ todo = todo' := by simpa using hpc'
            exact Or.inr ⟨it, todo, hc, Or.inl ⟨rfl, hpc, hit⟩⟩
  | @readEof it todo hpc hr =>
      rcases hg with hg | ⟨it', todo', hpc', hc⟩
      · exact Or.inl (Or.inl hg)
      · obtain ⟨rfl, rfl⟩ : it = it' ∧ todo = todo' := by simpa using hpc'
        exact Or.inr ⟨it, todo, hc, Or.inr (Or.inl ⟨rfl, Or.inl hpc⟩)⟩
  | @recovered it todo hpc =>
      rcases hg with hg | ⟨it', todo', hpc', hc⟩
      · exact Or.inl (Or.inl hg)
      · obtain ⟨rfl, rfl⟩ : it = it' ∧ todo = todo' := by simpa using hpc'
        exact Or.inr ⟨it, todo, hc, Or.inr (Or.inr (Or.inl ⟨rfl, hpc⟩))⟩
  | @quitAcked it todo ok hpc =>
      rcases hg with hg | ⟨it', todo', hpc', hc⟩
      · exact Or.inl (Or.inl hg)
      · obtain ⟨rfl, rfl⟩ : it = it' ∧ todo = todo' := by simpa using hpc'
        exact Or.inr ⟨it, todo, hc, Or.inr (Or.inr (Or.inr hpc))⟩
  | @ackEof it todo hpc hr =>
      rcases hg with hg | ⟨it', todo', hpc', hc⟩
      · exact Or.inl (Or.inl hg)
      · obtain ⟨rfl, rfl⟩ : it = it' ∧ todo = todo' := by simpa using hpc'
        exact Or.inr ⟨it, todo, hc, Or.inr (Or.inl ⟨rfl, Or.inr hpc⟩)⟩
  | @dropped it todo hpc =>
      rcases hg with hg | ⟨it', todo', hpc', -⟩
      · exact Or.inl (hclose it todo (Or.inl hpc) hg)
      · rcases hpc' with hpc' | hpc' <;> cases hpc'
  | @pendingDropped it todo hpc =>
      rcases hg with hg | ⟨it', todo', hpc', -⟩
      · exact Or.inl (hclose it todo (Or.inr hpc) hg)
      · rcases hpc' with hpc' | hpc' <;> cases hpc'
  | loadQuit _ =>
      rcases hg with hg | ⟨it', todo', hpc', -⟩
      · exact Or.inl (Or.inl hg)
      · cases hq : s.quit <;> simp [hq] at hpc'
  | lock _ _ =>
      rcases hg with hg | ⟨it', todo', hpc', -⟩
      · exact Or.inl (Or.inl hg)
      · cases hq : s.listening <;> simp [hq] at hpc'
  | @greeted fd _ =>
      rcases hg with hg | ⟨it', todo', hpc', -⟩
      · exact Or.inl (Or.inl hg)
      · by_cases hfd : fd < FD_SETSIZE <;> simp [hfd] at hpc'
  | _ =>
      rcases hg with hg | ⟨it', todo', hpc', -⟩
      · exact Or.inl (Or.inl hg)
      · rcases hpc' with hpc' | hpc' <;> cases hpc'

end Server

namespace System

open SysV Semops Finset Runs

variable {s t : System}

/-! ### What a step leaves to a dead reader -/

/-- No update is sent to a dead reader. -/
theorem unread_of_dead {a : Act} (hb : Base s) (h : s.step a = some t) {r : ℕ}
    (hd : (s.rd r).dead = true) : t.unread r = s.unread r := by
  have hrcvd := ((moves_of_step h r).dead hd).2.2.1
  have hsrv (srv : Server ℕ) (hout : t.srv.out r = srv.out r)
      (hsrv : System.unread { s with srv := srv } r = s.unread r) : t.unread r = s.unread r := by
    rw [← hsrv, System.unread, hrcvd, hout]
    rfl
  cases trans_of_step h with
  | @locked op hpc =>
      obtain ⟨w, key, heq, -⟩ := s.locked_eq op
      rw [heq]
      rfl
  | notifyLock hpc h' =>
      cases Server.trans_of_step h'
      rfl
  | @notifySend size it todo next srv hpc hn h' =>
      obtain ⟨-, -, q, hq⟩ := hb.wf.lists.notify_head hn
      rw [hq, Option.any_some] at h'
      cases ho : (s.rd q).isOpen with
      | true =>
          have hne : r ≠ q := by
            rintro rfl
            rw [(Reader.isOpen_iff.1 ho).1] at hd
            cases hd
          rw [ho] at h'
          simp only [System.unread, Server.notifySend_spec h' hn hq, Server.record_of_ne _ _ hne]
      | false =>
          rw [ho] at h'
          cases Server.trans_of_step h'
          rfl
  | notifyUnlock hpc h' =>
      cases Server.trans_of_step h'
      rfl
  | server hk h' hs => exact hb.unread_server h' r
  | take hpc hr hdata h' => exact hsrv _ rfl (hb.unread_server h' r)
  | cancel hpc hf h' => exact hb.unread_server h' r
  | _ => exact hsrv s.srv rfl rfl

theorem cancelled_mono {a : Act} (h : s.step a = some t) (r : ℕ) :
    s.cancelled r ≤ t.cancelled r := by
  cases trans_of_step h with
  | @locked op hpc =>
      obtain ⟨w, key, heq, -⟩ := s.locked_eq op
      rw [heq]
  | @cancel it todo srv f hpc hf h' =>
      cases hq : s.srv.conn it with
      | none => simp only [System.cancel, hq, le_refl]
      | some q =>
          simp only [System.cancel, hq]
          by_cases hr : r = q
          · subst hr; rw [Function.update_self]; exact Nat.le_succ _
          · rw [Function.update_of_ne hr]
  | _ => exact le_rfl

/-! ### The invariant -/

/-- No reset fires, and a reader dies only while it has not asked to quit, and has no update to deal
with or one that is still unread. -/
def Tidy (s : System) : Act → Prop
  | .reset => False
  | .die r => (s.rd r).quitSent = false ∧ (s.load r = 0 ∨ 0 < s.unread r)
  | _ => True

instance (s : System) (a : Act) : Decidable (Tidy s a) :=
  match a with
  | .reset => inferInstanceAs (Decidable False)
  | .die _ => inferInstanceAs (Decidable (_ ∧ _))
  | .call _ | .writer | .shmResize _ | .notifyClients _ | .write _ | .release | .server _ | .connect
  | .reader _ | .quit _ => inferInstanceAs (Decidable True)

/-- The invariant of the runs with crashes. -/
structure Crash (s : System) : Prop where
  acc : Acc s
  mail : Mail s
  idle : ∀ r, (s.rd r).dead = true → (s.rd r).pc.busy = 0 ∧ (s.rd r).quitSent = false
  settled : ∀ r, s.srv.Gone r → (s.rd r).dead = true → s.unread r ≤ s.cancelled r
  quitSent : ∀ r, s.srv.Gone r → (s.rd r).isOpen = true → (s.rd r).quitSent = true

theorem crash_init (lfd memsize : ℕ) : Crash (init lfd memsize) where
  acc := acc_init lfd memsize
  mail := mail_init lfd memsize
  idle := by simp [init, Reader.init]
  settled := by simp [init, Reader.init]
  quitSent := by simp [init, Server.init, Server.Gone]

namespace Crash

/-- The connections that a step of the system comes to close. -/
theorem gone_of_step {a : Act} (h : s.step a = some t) {r : ℕ} (hg : t.srv.Gone r) :
    s.srv.Gone r ∨ ∃ it todo, s.srv.conn it = some r ∧
      (s.readRes r = some .error ∧ s.srv.pc = .clients (it :: todo) ∧ it ∉ s.srv.clientsNotified ∨
        s.readRes r = some .eof ∨
        s.srv.pc = .recover it todo ∧ t.cancelled r = s.cancelled r + 1 ∨
        s.srv.pc = .ackQuit it todo) := by
  cases trans_of_step h with
  | @locked op hpc =>
      obtain ⟨w, key, heq, -⟩ := s.locked_eq op
      rw [heq] at hg
      exact Or.inl hg
  | notifyLock hpc h' | notifySend hpc _ h' | notifyUnlock hpc h' =>
      cases Server.trans_of_step h'
      exact Or.inl hg
  | server hk h' hs =>
      rcases Server.gone_of_thread h' hg with hg | ⟨it, todo, hc, hev⟩
      · exact Or.inl hg
      · refine Or.inr ⟨it, todo, hc, ?_⟩
        rcases hev with ⟨rfl, hpc, hn⟩ | ⟨rfl, hpc⟩ | ⟨rfl, hpc⟩ | hpc
        · exact Or.inl ⟨by simpa [kernel, hpc, hc] using hk, hpc, hn⟩
        · exact Or.inr (Or.inl (by rcases hpc with hpc | hpc <;> simpa [kernel, hpc, hc] using hk))
        · simp [special, hpc] at hs
        · exact Or.inr (Or.inr (Or.inr hpc))
  | take hpc hr hd h' =>
      rcases Server.gone_of_thread h' hg with hg | ⟨it, todo, hc, hev⟩
      · exact Or.inl hg
      · rcases hev with ⟨hev, -⟩ | ⟨hev, -⟩ | ⟨hev, -⟩ | hpc'
        · cases hev
        · cases hev
        · cases hev
        · rcases hpc with hpc | hpc <;> rw [hpc] at hpc' <;> cases hpc'
  | @cancel it todo srv f hpc hf h' =>
      rcases Server.gone_of_thread h' hg with hg | ⟨it', todo', hc, hev⟩
      · exact Or.inl hg
      · refine Or.inr ⟨it', todo', hc, ?_⟩
        rcases hev with ⟨hev, -⟩ | ⟨hev, -⟩ | ⟨-, hpc'⟩ | hpc'
        · cases hev
        · cases hev
        · obtain ⟨rfl, rfl⟩ : it = it' ∧ todo = todo' := by simpa [hpc] using hpc'
          exact Or.inr (Or.inr (Or.inl ⟨hpc, by simp [System.cancel, hc]⟩))
        · rw [hpc] at hpc'
          cases hpc'
  | _ => exact Or.inl hg

/-- A client with an unread update that was not given back is one of those that the current frame was
announced to. -/
theorem mem_clientsNotified (ha : Acc s) {it r : ℕ} (hc : s.srv.conn it = some r)
    (hpc : ∀ todo, s.srv.pc ≠ .drop it todo) (hu : 0 < s.unread r) :
    r ∈ s.notified ∧ it ∈ s.srv.clientsNotified := by
  have hzero := ha.cancelled_eq_zero hc hpc
  have hmem : r ∈ s.notified := ha.notified r (by unfold System.load; omega)
  exact ⟨hmem, ha.base.conn it r hc hmem⟩

/-- Who is dead now was dead before, or dies in this step as a tidy run allows. -/
theorem dead_or_dies {a : Act} (ht : Tidy s a) (h : s.step a = some t) {r : ℕ}
    (hd : (t.rd r).dead = true) : (s.rd r).dead = true ∨
      t.srv = s.srv ∧ (t.rd r).pc = (s.rd r).pc ∧ (t.rd r).quitSent = (s.rd r).quitSent ∧
        (s.rd r).isOpen = true ∧ (s.rd r).quitSent = false ∧ (s.load r = 0 ∨ 0 < s.unread r) := by
  by_cases ha : a.isDie = true
  · cases a with
    | die q =>
        cases trans_of_step h with
        | die hr ho =>
            by_cases hq : r = q
            · subst hq
              have hrd : (s.setRd r { s.rd r with dead := true }).rd r =
                { s.rd r with dead := true } := Function.update_self ..
              exact Or.inr ⟨rfl, by rw [hrd], by rw [hrd], ho, ht⟩
            · exact Or.inl (by simpa [System.setRd, hq] using hd)
    | _ => cases ha
  · exact Or.inl (dead_of_step h (Bool.eq_false_iff.2 ha) hd)

/-- A dead reader whose connection is gone: its unread update was given back. -/
theorem settled_of_step {a : Act} (hi : Crash s) (h : s.step a = some t) {r : ℕ}
    (hg : t.srv.Gone r) (hd : (s.rd r).dead = true) : t.unread r ≤ t.cancelled r := by
  rw [unread_of_dead hi.acc.base h hd]
  rcases gone_of_step h hg with hg | ⟨it, todo, hc, ⟨he, hpc, hn⟩ | he | ⟨hpc, hcan⟩ | hpc⟩
  · exact (hi.settled r hg hd).trans (cancelled_mono h r)
  · have hu := (hi.acc.base.dead_of_error hpc hc he).2
    exact absurd (mem_clientsNotified hi.acc hc (by simp [hpc]) hu).2 hn
  · rw [System.unread, List.drop_eq_nil_iff.2 (of_readRes_eof he).2]
    exact Nat.zero_le _
  · have hsingle := hi.acc.single r
    unfold System.load at hsingle
    omega
  · have hq := hi.mail.ackQuit it todo r hpc hc
    rw [(hi.idle r hd).2] at hq
    cases hq

/-- **Every step of a tidy run keeps the invariant.** -/
theorem step {a : Act} (hi : Crash s) (ht : Tidy s a) (h : s.step a = some t) : Crash t := by
  have hreset : a.isReset = false := by
    cases a with
    | reset => cases ht
    | _ => rfl
  have hmoves := moves_of_step h
  refine ⟨hi.acc.step hreset h, hi.mail.step hi.acc.base h, fun r hd => ?_, fun r hg hd => ?_, fun r hg ho => ?_⟩
  · rcases dead_or_dies ht h hd with hd | ⟨-, hpc, hq, -, hq', hload⟩
    · obtain ⟨-, hpc, -, hq⟩ := (hmoves r).dead hd
      rw [hpc, hq]
      exact hi.idle r hd
    · have hsingle := hi.acc.single r
      rw [hpc, hq]
      unfold System.load at hload hsingle
      exact ⟨by omega, hq'⟩
  · rcases dead_or_dies ht h hd with hd | ⟨hsrv, -, -, ho, hq, -⟩
    · exact hi.settled_of_step h hg hd
    · -- an open reader whose connection is gone has asked to quit
      rw [hsrv] at hg
      rw [hi.quitSent r hg ho] at hq
      cases hq
  · have ho' := (hmoves r).isOpen ho
    refine (hmoves r).quitSent ?_
    rcases gone_of_step h hg with hg | ⟨it, todo, hc, ⟨he, -, -⟩ | he | ⟨hpc, -⟩ | hpc⟩
    · exact hi.quitSent r hg ho'
    · rw [(readRes_error_iff.1 he).1] at ho'
      cases ho'
    · rw [(of_readRes_eof he).1] at ho'
      cases ho'
    · have hd := (hi.acc.base.recover it todo r hpc hc).1
      rw [(Reader.isOpen_iff.1 ho').1] at hd
      cases hd
    · exact hi.mail.ackQuit it todo r hpc hc

end Crash

theorem crash_of_exec {lfd memsize : ℕ} {as : List Act}
    (h : exec (restrict step Tidy) (init lfd memsize) as = some s) : Crash s :=
  exec_invariant (fun _ _ _ hs hst => hs.step (restrict_eq_some.1 hst).1 (restrict_eq_some.1 hst).2)
    h (crash_init lfd memsize)

/-! ### The count -/

/-- No read error is left to the server: on a client connection where a read would fail, the failure
was dealt with and the connection is about to be closed. -/
def Handled (s : System) : Prop :=
  ∀ fd ∈ s.srv.clients, ∀ r, s.srv.conn fd = some r → s.readRes r = some .error →
    ∃ todo, s.srv.pc = .drop fd todo

namespace Crash

/-- An acknowledged reader that is dead has nothing queued for the server, which would be a request to quit. -/
theorem toSrv_eq_nil (hi : Crash s) {r : ℕ} (hd : (s.rd r).dead = true) (hack : s.srv.acked r = true) :
    (s.rd r).toSrv = [] := by
  refine List.eq_nil_iff_forall_not_mem.2 fun m hm => ?_
  cases m with
  | ack => exact hi.mail.acked r hack hm
  | quit =>
      have hq := hi.mail.quit r hm
      rw [(hi.idle r hd).2] at hq
      cases hq

/-- A dead reader whose connection is gone, or whose read errors are all handled, owes nothing. -/
theorem unread_le (hi : Crash s) (hh : Handled s) {r : ℕ} (hd : (s.rd r).dead = true) :
    s.unread r ≤ s.cancelled r := by
  by_contra hlt
  rw [not_le] at hlt
  have hpos : 0 < s.unread r := Nat.zero_lt_of_lt hlt
  -- it was acknowledged, since an update was sent to it
  have hack : s.srv.acked r = true := by
    obtain ⟨m, hm, hu⟩ := List.countP_pos_iff.1 hpos
    cases m with
    | update size => exact hi.acc.base.wf.streams.acked r size (List.mem_of_mem_drop hm)
    | connect | quit => cases hu
  refine absurd (hi.settled r ?_ hd) (not_le.2 hlt)
  rcases hi.mail.closes.kept r hack with hc | ⟨fd, hfd, hc⟩
  · exact Or.inl hc
  · have herr : s.readRes r = some .error := by
      refine readRes_error_iff.2 ⟨by simp [Reader.isOpen, hd], ?_, hi.toSrv_eq_nil hd hack⟩
      by_contra hle
      rw [System.unread, List.drop_eq_nil_iff.2 (not_lt.1 hle)] at hpos
      exact absurd hpos (lt_irrefl _)
    obtain ⟨todo, hpc⟩ := hh fd hfd r hc herr
    exact Or.inr ⟨fd, todo, Or.inl hpc, hc⟩

/-- With everything handled and no lock held, semaphore `0` counts the reads of the live readers. -/
theorem count (hi : Crash s) (hh : Handled s) (hw : s.w.pc.held = false) :
    s.sem 0 = ∑ r ∈ range s.nrd with (s.rd r).dead = false, (s.committed r - s.released r) := by
  have h1 : s.sem 1 = 0 := by rw [hi.acc.base.held, hw]; rfl
  have hterm (r : ℕ) : (if (s.rd r).dead = false then s.committed r - s.released r else 0) +
      (s.released r + s.cancelled r) = s.committed r := by
    have hle := hi.acc.settled_le (hi.acc.base.batch_eq_zero h1 r)
    split
    · next hd =>
        have hzero : s.cancelled r = 0 := by
          by_contra hne
          rw [hi.acc.base.cancelled r (Nat.pos_of_ne_zero hne)] at hd
          cases hd
        omega
    · next hd =>
        have hd' : (s.rd r).dead = true := Bool.not_eq_false _ ▸ hd
        have hu := hi.unread_le hh hd'
        have hidle := (hi.idle r hd').1
        have hs := hi.acc.base.sent r
        have ht := hi.acc.base.taken r
        have hb := hi.acc.base.batch_eq_zero h1 r
        unfold System.load at ht
        omega
  have hsum : ∑ r ∈ range s.nrd, ((if (s.rd r).dead = false then s.committed r - s.released r else 0) +
      (s.released r + s.cancelled r)) = ∑ r ∈ range s.nrd, s.committed r :=
    sum_congr rfl fun r _ => hterm r
  rw [sum_add_distrib, sum_add_distrib, ← sum_filter] at hsum
  have hdebt := hi.acc.debt
  rw [System.debt, h1] at hdebt
  omega

end Crash

/-- A read that is committed and neither released nor given back is counted. -/
theorem Acc.sem_pos (ha : Acc s) (hu : s.w.pc.uncommitted = false) {r : ℕ} (hr : r < s.nrd)
    (hlt : s.released r + s.cancelled r < s.committed r) : 0 < s.sem 0 := by
  have hb (q : ℕ) : s.batch q = 0 := Base.batch_of_not_uncommitted hu q
  have hsum : ∑ q ∈ range s.nrd, (s.released q + s.cancelled q) < ∑ q ∈ range s.nrd, s.committed q :=
    sum_lt_sum (fun q _ => ha.settled_le (hb q)) ⟨r, mem_range.2 hr, hlt⟩
  have hdebt := ha.debt
  rw [sum_add_distrib] at hsum
  rw [System.debt] at hdebt
  omega

/-- A cancellation waits only for a writer that is about to commit. -/
theorem Acc.commits_of_recover (ha : Acc s) {it : ℕ} {todo : List ℕ} {r : ℕ}
    (hpc : s.srv.pc = .recover it todo) (hc : s.srv.conn it = some r) (h0 : s.sem 0 = 0) :
    ∃ num next, s.w.pc = .commit num next ∧ 0 < num := by
  obtain ⟨-, hu⟩ := ha.base.recover it todo r hpc hc
  have hzero := ha.cancelled_eq_zero hc (by simp [hpc])
  have hmem := (Crash.mem_clientsNotified ha hc (by simp [hpc]) hu).1
  have hunc : s.w.pc.uncommitted = true := by
    by_contra hunc
    rw [Bool.not_eq_true] at hunc
    have hs := ha.base.sent r
    have ht := ha.base.taken r
    have hb := Base.batch_of_not_uncommitted hunc r
    unfold System.load at ht
    have hlt := lt_of_lt_of_le (ha.base.notifiedLt r hmem) ha.base.nconn
    have := ha.sem_pos hunc hlt (by omega)
    omega
  cases hw : s.w.pc with
  | notifying next =>
      -- `notify_update` holds the mutex
      exact absurd (ha.base.wf.lists.notify_none_of_locked (by simp [hpc])) (ha.notifying next hw)
  | commit num next =>
      refine ⟨num, next, rfl, ?_⟩
      rw [ha.base.commit num next hw]
      exact_mod_cast List.length_pos_of_mem hmem
  | _ =>
      rw [hw] at hunc
      cases hunc

namespace Crash

/-- The commit that a cancellation waits for is possible, and lets it go on. -/
theorem commit_unblocks (hi : Crash s) {it : ℕ} {todo : List ℕ} {r : ℕ}
    (hpc : s.srv.pc = .recover it todo) (hc : s.srv.conn it = some r) (h0 : s.sem 0 = 0) :
    ∃ t, s.step .writer = some t ∧ ∃ f, semop t.sem readEnd = .ok f := by
  obtain ⟨num, next, hw, hnum⟩ := hi.acc.commits_of_recover hpc hc h0
  have hlen := hi.acc.base.wf.lists.notified_length_le
  have hcount := hi.acc.base.count (by rw [hw]; rfl)
  have heq := hi.acc.base.commit num next hw
  have hsem := (commitReaders_eq_ok (f := s.sem) (n := s.notified.length) (by omega)).2
    ⟨by unfold SEMVMX; unfold FD_SETSIZE at hlen; omega, rfl⟩
  rw [← heq] at hsem
  have hstep : s.step .writer = some { s with
      sem := Function.update s.sem 0 (s.sem 0 + s.notified.length)
      committed := fun r => s.committed r + s.notified.count r
      w := { s.w with pc := next.pc } } := by
    simp only [System.step, writerStep, hw, if_pos hnum, perform_eq_some.2 hsem, Option.map_some]
  refine ⟨_, hstep, _, readEnd_eq_ok.2 ⟨?_, rfl⟩⟩
  show 1 ≤ Function.update s.sem 0 (s.sem 0 + s.notified.length) 0
  rw [Function.update_self]
  omega

end Crash

/-- **Crash recovery by cancellation keeps the count exact.**  The reads of a dead reader, committed
or about to be, are given back at most once, and have been given back when the server has closed the
connection; no read of a live reader is given back for it.  A cancellation is made for a dead reader that
the current frame was announced to, and waits only for a commit that is possible.  When no lock is held and
no read error is left to the server, semaphore `0` counts the committed reads of the live readers. -/
theorem cancellation {lfd memsize : ℕ} {as : List Act}
    (h : exec (restrict step Tidy) (init lfd memsize) as = some s) :
    (∀ r, (s.rd r).dead = true → s.cancelled r ≤ 1 ∧
      s.released r + s.cancelled r ≤ s.committed r + s.batch r ∧
      (s.srv.closed r = true → s.released r + s.cancelled r = s.committed r + s.batch r)) ∧
    (∀ r, (s.rd r).dead = false → s.cancelled r = 0) ∧
    (∀ it todo, s.srv.pc = .recover it todo → ∃ r, s.srv.conn it = some r ∧
      (s.rd r).dead = true ∧ r ∈ s.notified ∧ s.cancelled r = 0 ∧ s.unread r = 1 ∧
      (s.sem 0 = 0 → ∃ t, s.step .writer = some t ∧ ∃ f, semop t.sem readEnd = .ok f)) ∧
    (s.w.pc.held = false → Handled s →
      s.sem 0 = ∑ r ∈ range s.nrd with (s.rd r).dead = false, (s.committed r - s.released r)) := by
  have hi := crash_of_exec h
  refine ⟨fun r hd => ?_, fun r hd => ?_, fun it todo hpc => ?_, fun hw hh => hi.count hh hw⟩
  · have hcan := hi.acc.cancel r
    have hsingle := hi.acc.single r
    have hs := hi.acc.base.sent r
    have ht := hi.acc.base.taken r
    have hidle := (hi.idle r hd).1
    unfold System.load at hsingle ht
    refine ⟨by omega, by omega, fun hcl => ?_⟩
    have := hi.settled r (Or.inl hcl) hd
    omega
  · by_contra hne
    rw [hi.acc.base.cancelled r (Nat.pos_of_ne_zero hne)] at hd
    cases hd
  · obtain ⟨r, hr⟩ := hi.acc.base.wf.lists.conn_of_scan_head (i := it) (l := todo) (by simp [hpc])
    obtain ⟨hd, hu⟩ := hi.acc.base.recover it todo r hpc hr
    have hsingle := hi.acc.single r
    unfold System.load at hsingle
    exact ⟨r, hr, hd, (Crash.mem_clientsNotified hi.acc hr (by simp [hpc]) hu).1,
      hi.acc.cancelled_eq_zero hr (by simp [hpc]), by omega, hi.commit_unblocks hpc hr⟩

/-- A frame is written while its only reader dies with the update unread, and the server cancels the
read between `notify_update` and `commit_readers`. -/
def crashedFrame : List Act :=
  [.call (.copyToShm [1]), .writer, .writer, .writer, .writer, .writer, .die 0, .server .tau,
    .server (.select [4] false), .server .tau, .server (.read .error), .server .tau, .server .tau,
    .server .tau, .writer, .writer, .writer]

theorem crashedFrame_cancellation :
    ∃ s, exec (restrict step Tidy) (init 3 1) (connectReader ++ crashedFrame) = some s ∧
      (s.rd 0).dead = true ∧ s.committed 0 = 1 ∧ s.cancelled 0 = 1 ∧ s.sem 0 = 0 := by
  have hrun : ((exec (restrict step Tidy) (init 3 1) (connectReader ++ crashedFrame)).any fun s =>
      (s.rd 0).dead = true ∧ s.srv.closed 0 = true ∧ s.released 0 = 0 ∧ s.batch 0 = 0 ∧
        s.committed 0 = 1 ∧ s.w.pc.held = false ∧ s.nrd = 1 ∧ s.srv.clients = [4] ∧
        s.srv.conn 4 = none) = true := by
    decide +kernel
  obtain ⟨s, hs, hrun⟩ := (Option.any_eq_true _ _).1 hrun
  obtain ⟨hd, hcl, hr, hbatch, hcom, hw, hn, hclients, hconn⟩ := of_decide_eq_true hrun
  obtain ⟨hdead, -, -, hcount⟩ := cancellation hs
  have hsettled := (hdead 0 hd).2.2 hcl
  have hzero := hcount hw fun fd hfd r hc _ => by
    rw [hclients, List.mem_singleton] at hfd
    rw [hfd, hconn] at hc
    cases hc
  refine ⟨s, hs, hd, hcom, by omega, hzero.trans ?_⟩
  rw [hn, range_one]
  simp [hd]

end System

end Shmdata

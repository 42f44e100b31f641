/-
**The semaphores count the reads.**

As long as no reset fires, semaphore `0` is the held lock and the committed reads that are neither
released nor cancelled.  What makes this work is that a frame is over before the next one is begun:
`write_start` waits for semaphore `0`, and since nothing is lacking from it, every single read of the
earlier frames is settled at that moment.  Under the lock, until the updates are sent, nobody has an
update to deal with; so every reader has at most one, and no reader is inside its callback.  All of
this holds whichever readers die, at any moment.

Main definitions:

* `Shmdata.Writer.early` — the lock is held and nothing was committed under it;
* `Shmdata.System.Acc` — **the invariant of the runs without a reset**.

Main results:

* `Shmdata.System.Acc.step` — every step but a reset keeps it;
* `Shmdata.System.accounting` — **the semaphores and the exclusion of readers and writer**, in every
  state of every run in which no reset fires and nobody dies.
-/

import Shmdata.Reset

set_option relaxedAutoImplicit false
set_option autoImplicit false

namespace Shmdata

/-- The write lock is held, and `commit_readers` was not called under it.  A `OneWriteAccess` notifies
once. -/
@[simp] def Writer.early (w : Writer) : Bool :=
  match w.pc with
  | .locked _ | .notify _ _ | .notifying _ | .create _ (.copy _) => true
  | .create _ .access | .access => !w.hasNotified
  | _ => false

/-- The notification under way, or just made, is the one of an access. -/
@[simp] def Writer.Pc.ofAccess : Writer.Pc → Bool
  | .notify _ .access | .notifying .access | .commit _ .access => true
  | _ => false

theorem Writer.held_of_early {w : Writer} (h : w.early = true) : w.pc.held = true := by
  cases hpc : w.pc <;> simp [hpc] at h ⊢

/-- The serving thread leaves the place `drop fd` by closing `fd`. -/
theorem Server.thread_drop {σ : Type} {s t : Server σ} {ev : Server.Ev}
    (h : s.step (.thread ev) = some t) {fd c : ℕ} (hc : t.conn fd = some c) :
    c = s.nconn ∨ s.conn fd = some c ∧ ∀ todo, s.pc ≠ .drop fd todo := by
  cases trans_of_step h with
  | @accepted fd' hpc hn hl =>
      by_cases hfd : fd = fd'
      · subst hfd
        exact Or.inl (by simpa using hc.symm)
      · exact Or.inr ⟨by simpa [hfd] using hc, by simp [hpc]⟩
  | @dropped it todo hpc =>
      obtain ⟨hne, hc⟩ := update_none_eq_some.1 hc
      exact Or.inr ⟨hc, by simp [hpc, Ne.symm hne]⟩
  | pendingDropped hpc =>
      obtain ⟨hne, hc⟩ := update_none_eq_some.1 hc
      exact Or.inr ⟨hc, by simp [hpc]⟩
  | loadQuit hpc | selectFailed hpc | selected hpc _ | lock hpc _ | acceptFailed hpc
  | greetFailed hpc | greeted hpc | scanned hpc | skip hpc _ | readError hpc _ | readEof hpc _
  | readQuit hpc _ | recovered hpc | quitAcked hpc | erased hpc | pendingScanned hpc
  | pendingSkip hpc _ | ackError hpc _ | ackEof hpc _ | ackRead hpc _ | purged hpc =>
      exact Or.inr ⟨hc, by simp [hpc]⟩

namespace System

open SysV Semops Finset Runs

variable {s t : System}

/-! ### The invariant -/

/-- The invariant of the runs without a reset. -/
structure Acc (s : System) : Prop where
  base : Base s
  debt : s.debt = 0
  single : ∀ r, s.load r ≤ 1
  cancel : ∀ r, s.cancelled r ≤ s.unread r
  exclusive : s.w.pc.held = true → ∀ r size, (s.rd r).pc ≠ .onData size
  early : s.w.early = true → ∀ r, s.committed r = s.released r + s.cancelled r
  notified : ∀ r, s.cancelled r < s.load r → r ∈ s.notified
  dropping : ∀ fd r, s.srv.conn fd = some r → 0 < s.cancelled r → ∃ todo, s.srv.pc = .drop fd todo
  flagged : s.w.pc.ofAccess = true → s.w.hasNotified = true
  notifying : ∀ next, s.w.pc = .notifying next → s.srv.notify ≠ none

theorem acc_init (lfd memsize : ℕ) : Acc (init lfd memsize) where
  base := base_init lfd memsize
  debt := by simp [System.debt, init]
  single := by simp [System.load, System.unread, init, Server.init, Reader.init]
  cancel := by simp [init]
  exclusive := by simp [init]
  early := by simp [init]
  notified := by simp [System.load, System.unread, init, Server.init, Reader.init]
  dropping := by simp [init]
  flagged := by simp [init]
  notifying := by simp [init]

namespace Acc

/-- While the server is unlocked, no read of an open connection is cancelled. -/
theorem cancelled_eq_zero (ha : Acc s) {fd r : ℕ} (hc : s.srv.conn fd = some r)
    (hpc : ∀ todo, s.srv.pc ≠ .drop fd todo) : s.cancelled r = 0 := by
  by_contra hne
  obtain ⟨todo, h⟩ := ha.dropping fd r hc (Nat.pos_of_ne_zero hne)
  exact hpc todo h

/-- Once everything sent is committed, each read is either settled or counted. -/
theorem settled_le (ha : Acc s) {r : ℕ} (hb : s.batch r = 0) :
    s.released r + s.cancelled r ≤ s.committed r := by
  have hs := ha.base.sent r
  have ht := ha.base.taken r
  have hc := ha.cancel r
  unfold System.load at ht
  omega

/-- Under the lock, before the first update is sent, the only updates that are not dealt with are
those of the readers whose read was cancelled. -/
theorem load_of_early (ha : Acc s) (he : s.w.early = true) {r : ℕ} (hb : s.batch r = 0) :
    s.load r = s.cancelled r := by
  have hs := ha.base.sent r
  have ht := ha.base.taken r
  have := ha.early he r
  omega

/-- `write_start` succeeds when every read is settled. -/
theorem settled (ha : Acc s) (h0 : s.sem 0 = 0) (h1 : s.sem 1 = 0) (r : ℕ) :
    s.committed r = s.released r + s.cancelled r := by
  by_cases hr : r < s.nrd
  · have hle (q : ℕ) : s.released q + s.cancelled q ≤ s.committed q :=
      ha.settled_le (ha.base.batch_eq_zero h1 q)
    have hsum : ∑ q ∈ range s.nrd, (s.released q + s.cancelled q) =
        ∑ q ∈ range s.nrd, s.committed q := by
      have := ha.debt
      simp only [System.debt, h0, h1] at this
      rw [sum_add_distrib]
      omega
    exact ((sum_eq_sum_iff_of_le fun q _ => hle q).1 hsum r (mem_range.2 hr)).symm
  · obtain ⟨-, h1, h2, h3⟩ := ha.base.fresh r (not_lt.1 hr)
    rw [h1, h2, h3]

/-! ### Steps of the writer -/

/-- A step of the writer that sends nothing. -/
theorem congr (ha : Acc s) (hb : Base t) (hd : t.debt = 0) (h1 : t.srv.out = s.srv.out)
    (h2 : t.srv.conn = s.srv.conn) (h3 : t.srv.pc = s.srv.pc) (h4 : t.rd = s.rd)
    (h5 : t.cancelled = s.cancelled) (h6 : t.notified = s.notified)
    (hexcl : t.w.pc.held = true → ∀ r size, (s.rd r).pc ≠ .onData size)
    (hearly : t.w.early = true → ∀ r, t.committed r = t.released r + s.cancelled r)
    (hflag : t.w.pc.ofAccess = true → t.w.hasNotified = true)
    (hnot : ∀ next, t.w.pc = .notifying next → t.srv.notify ≠ none) : Acc t := by
  have hunread (r : ℕ) : t.unread r = s.unread r := by rw [System.unread, h1, h4]; rfl
  have hload (r : ℕ) : t.load r = s.load r := by rw [System.load, hunread, h4]; rfl
  exact
    { base := hb
      debt := hd
      single := fun r => by rw [hload]; exact ha.single r
      cancel := fun r => by rw [hunread, h5]; exact ha.cancel r
      exclusive := by rw [h4]; exact hexcl
      early := by rw [h5]; exact hearly
      notified := fun r => by rw [hload, h5, h6]; exact ha.notified r
      dropping := by rw [h2, h3, h5]; exact ha.dropping
      flagged := hflag
      notifying := hnot }

/-- A step of the writer outside notification and locking. -/
theorem moved (ha : Acc s) (hb : Base t) (hd : t.debt = 0) (h1 : t.srv = s.srv) (h2 : t.rd = s.rd)
    (h3 : t.cancelled = s.cancelled) (h4 : t.notified = s.notified) (h5 : t.released = s.released)
    (hheld : t.w.pc.held = true → s.w.pc.held = true)
    (hearly : t.w.early = true → s.w.early = true ∧ t.committed = s.committed)
    (hflag : t.w.pc.ofAccess = true → t.w.hasNotified = true)
    (hnot : t.w.pc.uncommitted = false) : Acc t := by
  refine ha.congr hb hd (by rw [h1]) (by rw [h1]) (by rw [h1]) h2 h3 h4
    (fun h => ha.exclusive (hheld h)) (fun h => ?_) hflag (fun next h => ?_)
  · obtain ⟨he, hc⟩ := hearly h
    rw [hc, h5]
    exact ha.early he
  · rw [h] at hnot
    cases hnot

/-- The acquisition of the lock. -/
theorem writeStart (ha : Acc s) {op : Writer.Op} {f : ℕ → ℕ} (hpc : s.w.pc = .writeStart op)
    (hf : semop s.sem Semops.writeStart = .ok f)
    (hb : Base { s with sem := f, w := { s.w with pc := .locked op } })
    (hd : System.debt { s with sem := f, w := { s.w with pc := .locked op } } = 0) :
    Acc { s with sem := f, w := { s.w with pc := .locked op } } := by
  have h0 := (writeStart_eq_ok.1 hf).1
  have h1 : s.sem 1 = 0 := by rw [ha.base.held, hpc]; rfl
  have hset := ha.settled h0 h1
  refine ha.congr hb hd rfl rfl rfl rfl rfl rfl (fun _ r size hon => ?_) (fun _ => hset)
    (fun h => by cases h) (fun _ h => by cases h)
  -- the read of a reader inside its callback is neither released nor cancelled
  have hlt := ha.base.released_lt_of_onData hon
  have hsingle := ha.single r
  have hcan := ha.cancel r
  have := hset r
  rw [System.load, hon] at hsingle
  simp only [Reader.Pc.busy] at hsingle
  omega

/-- `notify_update` begins: nobody has an update to deal with. -/
theorem notifyLock (ha : Acc s) {size : ℕ} {next : Writer.Next} {srv : Server ℕ}
    (hpc : s.w.pc = .notify size next) (h : s.srv.step (.notifyLock size) = some srv)
    (hb : Base (s.notifyLock size next srv)) (hd : (s.notifyLock size next srv).debt = 0) :
    Acc (s.notifyLock size next srv) := by
  have he : s.w.early = true := by simp [hpc]
  have hu : s.w.pc.uncommitted = false := by rw [hpc]; rfl
  cases Server.trans_of_step h with
  | notifyLock hl hn hdt =>
      exact
        { base := hb
          debt := hd
          single := ha.single
          cancel := ha.cancel
          exclusive := fun _ => ha.exclusive (Writer.held_of_early he)
          early := fun _ => ha.early he
          notified := fun r hr => by
            have := ha.load_of_early he (Base.batch_of_not_uncommitted hu r)
            exact absurd hr (not_lt.2 this.le)
          dropping := ha.dropping
          flagged := fun h' => ha.flagged (by rw [hpc]; cases next <;> [cases h'; rfl])
          notifying := fun _ _ => by simp [System.notifyLock] }

/-- One update is sent, to a reader that has none. -/
theorem notifySend (ha : Acc s) {size it r : ℕ} {todo : List ℕ} {next : Writer.Next}
    {srv : Server ℕ} (hpc : s.w.pc = .notifying next)
    (hn : s.srv.notify = some (size, it :: todo)) (hr : s.srv.conn it = some r)
    (h : s.srv.step (.notifySend true) = some srv)
    (hb : Base { s with srv := srv, notified := s.notified ++ [r] })
    (hd : System.debt { s with srv := srv, notified := s.notified ++ [r] } = 0) :
    Acc { s with srv := srv, notified := s.notified ++ [r] } := by
  obtain ⟨-, hit, -⟩ := ha.base.wf.lists.notify_head hn
  have hlock := (ha.base.wf.lists.notify _ _ hn).1
  have he : s.w.early = true := by simp [hpc]
  have hload : s.load r = 0 := by
    have hrn : r ∉ s.notified := fun hmem => hit (ha.base.conn it r hr hmem)
    have hbatch : s.batch r = 0 := by
      rw [System.batch, List.count_eq_zero.2 hrn, ite_self]
    rw [ha.load_of_early he hbatch]
    refine ha.cancelled_eq_zero hr fun todo' hdrop => ?_
    rw [hdrop] at hlock
    cases hlock
  have hspec := Server.notifySend_spec h hn hr
  set t : System := { s with srv := srv, notified := s.notified ++ [r] } with ht
  have hunread {q : ℕ} (hq : q ≠ r) : t.unread q = s.unread q := by
    simp only [System.unread, ht, hspec, Server.record_of_ne _ _ hq]
  have hunread' : t.unread r = s.unread r + 1 := by
    simp only [System.unread, ht, hspec, Server.record_self]
    rw [List.drop_append_of_le_length (ha.base.rcvd r), List.countP_append]
    rfl
  have hload' {q : ℕ} (hq : q ≠ r) : t.load q = s.load q := by rw [System.load, hunread hq]; rfl
  exact
    { base := hb
      debt := hd
      single := fun q => by
        by_cases hq : q = r
        · subst hq
          rw [System.load, hunread', ← Nat.add_assoc]
          exact (congrArg (· + 1) hload).le
        · rw [hload' hq]; exact ha.single q
      cancel := fun q => by
        by_cases hq : q = r
        · subst hq
          rw [hunread']
          exact (ha.cancel q).trans (Nat.le_succ _)
        · rw [hunread hq]; exact ha.cancel q
      exclusive := ha.exclusive
      early := ha.early
      notified := fun q hlt => by
        by_cases hq : q = r
        · subst hq
          exact List.mem_append_right _ (List.mem_singleton.2 rfl)
        · rw [hload' hq] at hlt
          exact List.mem_append_left _ (ha.notified q hlt)
      dropping := by
        have h1 : srv.conn = s.srv.conn := by rw [hspec]
        have h2 : srv.pc = s.srv.pc := by rw [hspec]
        rw [ht, h1, h2]
        exact ha.dropping
      flagged := ha.flagged
      notifying := fun _ _ => by rw [ht, hspec]; simp }

/-! ### Steps of the readers -/

/-- A step of a reader that does not give it an update to deal with. -/
theorem readerStep (ha : Acc s) {r : ℕ} {rd : Reader} {f released : ℕ → ℕ}
    (hb : Base (setRd { s with sem := f, released := released } r rd))
    (hd : (setRd { s with sem := f, released := released } r rd).debt = 0)
    (hload : ∀ q, (setRd { s with sem := f, released := released } r rd).load q ≤ s.load q)
    (hcan : s.cancelled r ≤ ((s.srv.out r).drop rd.rcvd).countP SrvMsg.isUpdate)
    (hon : ∀ size, rd.pc = .onData size → s.w.pc.held = true → ∃ size', (s.rd r).pc = .onData size')
    (hrel : s.w.early = true → released = s.released) :
    Acc (setRd { s with sem := f, released := released } r rd) := by
  set t := setRd { s with sem := f, released := released } r rd with ht
  have hself : t.rd r = rd := Function.update_self ..
  have hne {q : ℕ} (h : q ≠ r) : t.rd q = s.rd q := Function.update_of_ne h ..
  have hunread {q : ℕ} (h : q ≠ r) : t.unread q = s.unread q := by
    rw [System.unread, hne h]; rfl
  have hunread' : t.unread r = ((s.srv.out r).drop rd.rcvd).countP SrvMsg.isUpdate := by
    rw [System.unread, hself]; rfl
  exact
    { base := hb
      debt := hd
      single := fun q => (hload q).trans (ha.single q)
      cancel := fun q => by
        by_cases h : q = r
        · subst h; rw [hunread']; exact hcan
        · rw [hunread h]; exact ha.cancel q
      exclusive := fun hh q size => by
        by_cases h : q = r
        · subst h
          rw [hself]
          intro hpc
          obtain ⟨size', hpc'⟩ := hon size hpc hh
          exact ha.exclusive hh q size' hpc'
        · rw [hne h]; exact ha.exclusive hh q size
      early := fun he q => by
        show s.committed q = released q + s.cancelled q
        rw [hrel he]
        exact ha.early he q
      notified := fun q hq => ha.notified q (hq.trans_le (hload q))
      dropping := ha.dropping
      flagged := ha.flagged
      notifying := ha.notifying }

/-- A step of a live reader on its socket or in its callbacks. -/
theorem readerMoved (ha : Acc s) {r : ℕ} {rd : Reader} (hb : Base (s.setRd r rd))
    (hd : (s.setRd r rd).debt = 0) (hload : ∀ q, (s.setRd r rd).load q ≤ s.load q)
    (hdead : (s.rd r).dead = false)
    (hon : ∀ size, rd.pc = .onData size → s.w.pc.held = true → ∃ size', (s.rd r).pc = .onData size') :
    Acc (s.setRd r rd) := by
  refine ha.readerStep hb hd hload ?_ hon fun _ => rfl
  have hzero : s.cancelled r = 0 := by
    by_contra hne
    have := ha.base.cancelled r (Nat.pos_of_ne_zero hne)
    rw [hdead] at this
    cases this
  rw [hzero]
  exact Nat.zero_le _

/-- A step that changes neither the place of a reader nor what it has read. -/
theorem readerKept (ha : Acc s) {r : ℕ} {rd : Reader} (hb : Base (s.setRd r rd))
    (hd : (s.setRd r rd).debt = 0) (hload : ∀ q, (s.setRd r rd).load q ≤ s.load q)
    (h1 : rd.pc = (s.rd r).pc) (h2 : rd.rcvd = (s.rd r).rcvd) : Acc (s.setRd r rd) :=
  ha.readerStep hb hd hload (by rw [h2]; exact ha.cancel r) (fun size h _ => ⟨size, h1 ▸ h⟩)
    fun _ => rfl

/-! ### Steps of the serving thread -/

/-- The serving thread sends no update and closes the connections whose read it has cancelled. -/
theorem server (ha : Acc s) {ev : Server.Ev} {srv : Server ℕ}
    (h : s.srv.step (.thread ev) = some srv) (hb : Base { s with srv := srv }) :
    Acc { s with srv := srv } := by
  have hunread := ha.base.unread_server h
  have hload (r : ℕ) : System.load { s with srv := srv } r = s.load r :=
    congrArg (_ + ·) (hunread r)
  exact
    { base := hb
      debt := ha.debt
      single := fun r => by rw [hload]; exact ha.single r
      cancel := fun r => by rw [hunread]; exact ha.cancel r
      exclusive := ha.exclusive
      early := ha.early
      notified := fun r => by rw [hload]; exact ha.notified r
      dropping := fun fd r hc hpos => by
        rcases Server.thread_drop h hc with rfl | ⟨hc, hne⟩
        · -- nothing was sent on the connection that was just opened
          have hle := ha.cancel s.srv.nconn
          rw [System.unread, (ha.base.wf.streams.fresh _ le_rfl).1, List.drop_nil] at hle
          exact absurd hpos (not_lt.2 hle)
        · exact absurd (ha.cancelled_eq_zero hc hne) hpos.ne'
      flagged := ha.flagged
      notifying := fun next hpc => by
        rw [(Server.thread_frame h).1]
        exact ha.notifying next hpc }

/-- A cancellation falls into a frame whose updates are all sent. -/
theorem not_early_of_recover (ha : Acc s) {it : ℕ} {todo : List ℕ} {r : ℕ}
    (hpc : s.srv.pc = .recover it todo) (hr : s.srv.conn it = some r) : s.w.early = false := by
  by_contra he
  rw [Bool.not_eq_false] at he
  obtain ⟨-, hpos⟩ := ha.base.recover it todo r hpc hr
  have hzero := ha.cancelled_eq_zero hr (by simp [hpc])
  have hbatch : s.batch r = 0 := by
    refine Base.batch_of_not_uncommitted ?_ r
    cases hw : s.w.pc with
    | notifying next =>
        -- `notify_update` holds the mutex
        exact absurd (ha.base.wf.lists.notify_none_of_locked (by simp [hpc])) (ha.notifying next hw)
    | commit num next => simp [hw] at he
    | _ => rfl
  have hload := ha.load_of_early he hbatch
  unfold System.load at hload
  omega

/-- `cancel_commited_reader` gives back the read of a reader that has an update left unread, and none
of whose reads was given back before. -/
theorem cancelRead (ha : Acc s) {it : ℕ} {todo : List ℕ} {srv : Server ℕ} {f : ℕ → ℕ}
    (hpc : s.srv.pc = .recover it todo) (h : s.srv.step (.thread .tau) = some srv)
    (hb : Base (s.cancel it f srv)) (hd : (s.cancel it f srv).debt = 0) :
    Acc (s.cancel it f srv) := by
  obtain ⟨r, hr⟩ := ha.base.wf.lists.conn_of_scan_head (i := it) (l := todo) (by simp [hpc])
  obtain ⟨-, hpos⟩ := ha.base.recover it todo r hpc hr
  have hzero := ha.cancelled_eq_zero hr (by simp [hpc])
  have hearly := ha.not_early_of_recover hpc hr
  have hsrv : srv = { s.srv with pc := .drop it todo } := by
    simpa [Server.step, Server.thread, hpc] using h.symm
  have hcan {q : ℕ} (hq : q ≠ r) : (s.cancel it f srv).cancelled q = s.cancelled q := by
    simp only [System.cancel, hr, Function.update_of_ne hq]
  have hcan' : (s.cancel it f srv).cancelled r = 1 := by
    simp only [System.cancel, hr, Function.update_self, hzero]
  have hunread (q : ℕ) : (s.cancel it f srv).unread q = s.unread q := by
    rw [System.unread, System.cancel, hsrv]; rfl
  have hload (q : ℕ) : (s.cancel it f srv).load q = s.load q := congrArg (_ + ·) (hunread q)
  exact
    { base := hb
      debt := hd
      single := fun q => by rw [hload]; exact ha.single q
      cancel := fun q => by
        rw [hunread]
        by_cases hq : q = r
        · subst hq; rw [hcan']; exact hpos
        · rw [hcan hq]; exact ha.cancel q
      exclusive := ha.exclusive
      early := fun he => by
        rw [show (s.cancel it f srv).w = s.w from rfl, hearly] at he
        cases he
      notified := fun q => by
        rw [hload]
        by_cases hq : q = r
        · subst hq
          rw [hcan']
          have := ha.single q
          exact fun hlt => absurd hlt (by omega)
        · rw [hcan hq]; exact ha.notified q
      dropping := fun fd q hc hq => by
        have hconn : (s.cancel it f srv).srv.conn = s.srv.conn := by rw [System.cancel, hsrv]
        rw [hconn] at hc
        by_cases hqr : q = r
        · subst hqr
          refine ⟨todo, ?_⟩
          rw [ha.base.wf.lists.inj fd it q hc hr, System.cancel, hsrv]
        · rw [hcan hqr] at hq
          obtain ⟨todo', hdrop⟩ := ha.dropping fd q hc hq
          rw [hpc] at hdrop
          cases hdrop
      flagged := ha.flagged
      notifying := fun next hw => by
        have hnot : (s.cancel it f srv).srv.notify = s.srv.notify := by rw [System.cancel, hsrv]
        rw [hnot]
        exact ha.notifying next hw }

/-! ### Every step -/

/-- **Every step but a reset keeps the accounts.** -/
theorem step {a : Act} (ha : Acc s) (hreset : a.isReset = false) (h : s.step a = some t) :
    Acc t := by
  have hb := ha.base.step h
  have hd : t.debt = 0 := by
    rw [debt_step ha.base h, ha.debt]
    cases a with
    | reset => cases hreset
    | _ => rfl
  cases trans_of_step h with
  | call hpc =>
      exact ha.moved hb hd rfl rfl rfl rfl rfl (fun h => by cases h) (fun h => by cases h)
        (fun h => by cases h) rfl
  | writeStart hpc hf => exact ha.writeStart hpc hf hb hd
  | @locked op hpc =>
      obtain ⟨w, key, heq, hw⟩ := s.locked_eq op
      rw [heq] at hb hd ⊢
      refine ha.moved hb hd rfl rfl rfl rfl rfl (fun _ => by rw [hpc]; rfl)
        (fun _ => ⟨by simp [hpc], rfl⟩) ?_ ?_
      · rcases hw with ⟨size, next, hw⟩ | ⟨data, hw⟩ | hw <;> simp [hw]
      · rcases hw with ⟨size, next, hw⟩ | ⟨data, hw⟩ | hw <;> simp [hw]
  | @create size next hpc =>
      have hh : s.w.pc.held = true := by rw [hpc]; rfl
      cases next with
      | copy data =>
          exact ha.moved hb hd rfl rfl rfl rfl rfl (fun _ => hh) (fun _ => ⟨by simp [hpc], rfl⟩)
            (fun h => by cases h) rfl
      | access =>
          refine ha.moved hb hd rfl rfl rfl rfl rfl (fun _ => hh) (fun h => ⟨?_, rfl⟩)
            (fun h => by cases h) rfl
          simpa [createSegment, hpc] using h
  | notifyLock hpc hsrv => exact ha.notifyLock hpc hsrv hb hd
  | @notifySend size it todo next srv hpc hn hsrv =>
      obtain ⟨-, -, r, hr⟩ := ha.base.wf.lists.notify_head hn
      rw [hr, Option.any_some] at hsrv
      simp only [hr, Option.any_some] at hb hd ⊢
      cases ho : (s.rd r).isOpen with
      | true =>
          rw [ho] at hsrv hb hd
          exact ha.notifySend hpc hn hr hsrv hb hd
      | false =>
          rw [ho] at hsrv hb hd
          cases Server.trans_of_step hsrv with
          | notifySend hn' =>
              exact ha.congr hb hd rfl rfl rfl rfl rfl rfl ha.exclusive ha.early ha.flagged
                (fun _ _ => by simp)
  | @notifyUnlock next srv hpc hsrv =>
      cases Server.trans_of_step hsrv with
      | notifyUnlock hn =>
          refine ha.congr hb hd rfl rfl rfl rfl rfl rfl
            (fun _ => ha.exclusive (by rw [hpc]; rfl)) (fun h => by cases h) (fun h => ?_)
            (fun _ h => by cases h)
          refine ha.flagged ?_
          rw [hpc]
          cases next <;> [cases h; rfl]
  | @commit num next f hpc hn hf =>
      have hh : s.w.pc.held = true := by rw [hpc]; rfl
      cases next with
      | copy data =>
          exact ha.moved hb hd rfl rfl rfl rfl rfl (fun _ => hh) (fun h => by cases h)
            (fun h => by cases h) rfl
      | access =>
          -- the access has notified
          have hflag := ha.flagged (by rw [hpc]; rfl)
          refine ha.moved hb hd rfl rfl rfl rfl rfl (fun _ => hh) (fun h => ?_)
            (fun h => by cases h) rfl
          simp [Writer.early, Writer.Next.pc, hflag] at h
  | @commitNone num next hpc hn =>
      have hh : s.w.pc.held = true := by rw [hpc]; rfl
      cases next with
      | copy data =>
          exact ha.moved hb hd rfl rfl rfl rfl rfl (fun _ => hh) (fun h => by cases h)
            (fun h => by cases h) rfl
      | access =>
          have hflag := ha.flagged (by rw [hpc]; rfl)
          refine ha.moved hb hd rfl rfl rfl rfl rfl (fun _ => hh) (fun h => ?_)
            (fun h => by cases h) rfl
          simp [Writer.early, Writer.Next.pc, hflag] at h
  | memcpy hpc | release hpc =>
      exact ha.moved hb hd rfl rfl rfl rfl rfl (fun _ => by rw [hpc]; rfl) (fun h => by cases h)
        (fun h => by cases h) rfl
  | writeEnd hpc hf =>
      exact ha.moved hb hd rfl rfl rfl rfl rfl (fun h => by cases h) (fun h => by cases h)
        (fun h => by cases h) rfl
  | reset hpc => cases hreset
  | shmResize hpc =>
      refine ha.moved hb hd rfl rfl rfl rfl rfl (fun _ => by rw [hpc]; rfl) (fun h => ⟨?_, rfl⟩)
        (fun h => by cases h) rfl
      simpa [Writer.early, removeSegment, hpc] using h
  | notifyIgnored hpc hn => exact ha
  | notifyClients hpc hn =>
      exact ha.moved hb hd rfl rfl rfl rfl rfl (fun _ => by rw [hpc]; rfl)
        (fun _ => ⟨by simp [hpc, hn], rfl⟩) (fun _ => rfl) rfl
  | write hpc hl =>
      exact ha.moved hb hd rfl rfl rfl rfl rfl id (fun h => ⟨h, rfl⟩) ha.flagged (by rw [hpc]; rfl)
  | server hk hsrv hs => exact ha.server hsrv hb
  | @take it todo r srv hpc hr hdata hsrv =>
      have hk : s.kernel (.read .data) = true := by
        rcases hpc with hpc | hpc <;> simp [kernel, hpc, hr, hdata]
      have hsrv' := ha.base.server_of_kernel hk hsrv
      have hkept (q : ℕ) : ({ s with srv := srv }.setRd r (s.taken r srv)).load q ≤
          System.load { s with srv := srv } q := by
        by_cases hq : q = r
        · subst hq
          simp only [System.load, System.unread, setRd, Function.update_self, taken_pc, taken_rcvd, le_refl]
        · simp only [System.load, System.unread, setRd, Function.update_of_ne hq, le_refl]
      exact (ha.server hsrv hsrv').readerKept hb hd hkept rfl rfl
  | cancel hpc hf hsrv => exact ha.cancelRead hpc hsrv hb hd
  | connect => exact { ha with base := hb, debt := hd }
  | attach hr hdead hpc | receiveUpdate hr hdead hpc | receiveQuit hr hdead hpc
  | receiveEof hr hdead hpc | update hr hdead hpc =>
      exact ha.readerMoved hb hd (load_le_of_step ha.base h (by simp)) hdead (fun _ h => by cases h)
  | receiveConnect hr hdead hpc =>
      exact ha.readerMoved hb hd (load_le_of_step ha.base h (by simp)) hdead
        (fun _ h => by simp [hpc] at h)
  | @readStart r size hr hdead hpc hf =>
      refine ha.readerMoved hb hd (load_le_of_step ha.base h (by simp)) hdead (fun _ _ hh => ?_)
      rw [ha.base.held, hh] at hf
      cases hf
  | @readEnd r size f hr hdead hpc hf =>
      refine ha.readerStep hb hd (load_le_of_step ha.base h (by simp)) (ha.cancel r)
        (fun _ h => by cases h) (fun he => ?_)
      exact absurd hpc (ha.exclusive (Writer.held_of_early he) r size)
  | quit | die => exact ha.readerKept hb hd (load_le_of_step ha.base h (by simp)) rfl rfl

end Acc

/-! ### Runs in which nobody dies -/

/-- No reset fires. -/
def InTime (_ : System) (a : Act) : Prop := a.isReset = false

/-- No reset fires and nobody dies. -/
def Clean (_ : System) (a : Act) : Prop := a.isReset = false ∧ a.isDie = false

instance (s : System) (a : Act) : Decidable (InTime s a) := inferInstanceAs (Decidable (_ = _))

instance (s : System) (a : Act) : Decidable (Clean s a) := inferInstanceAs (Decidable (_ ∧ _))

theorem acc_of_exec {lfd memsize : ℕ} {as : List Act}
    (h : exec (restrict step InTime) (init lfd memsize) as = some s) : Acc s :=
  exec_invariant (fun _ _ _ hs hst => hs.step (restrict_eq_some.1 hst).1 (restrict_eq_some.1 hst).2)
    h (acc_init lfd memsize)

theorem acc_of_clean {lfd memsize : ℕ} {as : List Act}
    (h : exec (restrict step Clean) (init lfd memsize) as = some s) :
    Acc s ∧ ∀ r, s.cancelled r = 0 :=
  ⟨acc_of_exec (exec_restrict_mono (fun _ _ h => h.1) h),
    (lagging_of_exec (exec_restrict_mono (fun _ _ h => h.2) h)
      (lagging_init lfd memsize)).cancelled_eq_zero⟩

/-- **Semaphore accounting, and the exclusion of readers and writer.**  Neither `write_end` nor
`read_end` has to wait, and a reader that has left with the acknowledgement of its quit has released
every read that was ever sent to it. -/
theorem accounting {lfd memsize : ℕ} {as : List Act}
    (h : exec (restrict step Clean) (init lfd memsize) as = some s) :
    s.sem 1 = (if s.w.pc.held then 1 else 0) ∧
      s.sem 0 = s.sem 1 + ∑ r ∈ range s.nrd, (s.committed r - s.released r) ∧
      (∀ r, s.released r ≤ s.committed r) ∧
      (s.w.pc.held = true → ∃ f, semop s.sem writeEnd = .ok f) ∧
      (∀ r size, (s.rd r).pc = .onData size →
        s.w.pc.held = false ∧ ∃ f, semop s.sem readEnd = .ok f) ∧
      ∀ r, (s.rd r).pc = .closed → s.released r = s.sent r ∧ s.committed r = s.sent r := by
  obtain ⟨ha, hcan⟩ := acc_of_clean h
  have hle (r : ℕ) : s.released r ≤ s.committed r := by
    have := (ha.base.released_le r).1
    omega
  have hcount : s.sem 0 = s.sem 1 + ∑ r ∈ range s.nrd, (s.committed r - s.released r) := by
    have hsum : ∑ r ∈ range s.nrd, (s.committed r - s.released r) +
        ∑ r ∈ range s.nrd, s.released r = ∑ r ∈ range s.nrd, s.committed r := by
      rw [← sum_add_distrib]
      exact sum_congr rfl fun r _ => Nat.sub_add_cancel (hle r)
    have hdebt := ha.debt
    simp only [System.debt, hcan, sum_const_zero] at hdebt
    omega
  have hheld := ha.base.held
  refine ⟨hheld, hcount, hle, fun hh => ?_, fun r size hpc => ⟨?_, ?_⟩, fun r hpc => ?_⟩
  · rw [hh, if_pos rfl] at hheld
    exact ⟨_, writeEnd_eq_ok.2 ⟨by omega, by omega, rfl⟩⟩
  · by_contra hh
    rw [Bool.not_eq_false] at hh
    exact ha.exclusive hh r size hpc
  · have hlt := ha.base.released_lt_of_onData hpc
    have hmem : r ∈ range s.nrd := by
      refine mem_range.2 (lt_of_not_ge fun hge => ?_)
      rw [(ha.base.fresh r hge).1] at hpc
      cases hpc
    have := single_le_sum (f := fun r => s.committed r - s.released r) (fun _ _ => Nat.zero_le _) hmem
    exact ⟨_, readEnd_eq_ok.2 ⟨by omega, rfl⟩⟩
  · have hload : s.load r = 0 := by
      rw [System.load, hpc, System.unread, ha.base.closed r hpc, List.drop_length]
      rfl
    have hb := (ha.base.released_le r).2
    have hs := ha.base.sent r
    have ht := ha.base.taken r
    omega

/-- A reader inside its callback for the first frame. -/
theorem slowFrame_accounting :
    ∃ s, exec (restrict step Clean) (init 3 1) (connectReader ++ slowFrame) = some s ∧
      s.w.pc.held = false ∧ s.sem 1 = 0 ∧ s.sem 0 = 1 ∧ ∃ f, semop s.sem readEnd = .ok f := by
  have hrun : ((exec (restrict step Clean) (init 3 1) (connectReader ++ slowFrame)).any fun s =>
      (s.rd 0).pc = .onData 1 ∧ s.nrd = 1 ∧ s.committed 0 = 1 ∧ s.released 0 = 0) = true := by
    decide +kernel
  obtain ⟨s, hs, hrun⟩ := (Option.any_eq_true _ _).1 hrun
  obtain ⟨hpc, hn, hc, hr⟩ := of_decide_eq_true hrun
  obtain ⟨h1, h0, -, -, hon, -⟩ := accounting hs
  obtain ⟨hheld, hend⟩ := hon 0 1 hpc
  rw [hheld, if_neg Bool.false_ne_true] at h1
  refine ⟨s, hs, hheld, h1, ?_, hend⟩
  rw [h0, h1, hn, range_one, sum_singleton, hc, hr]

end System

end Shmdata

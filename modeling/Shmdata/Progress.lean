/-
**A reader that asks to quit gets away.**

The destructor of a reader sends its request and waits for the client thread, which leaves its loop when the
server has acknowledged the request or closed the connection.  In the meantime the thread deals with every
update that was sent before, each of which waits for the writer.  The writer in turn may wait for the mutex
of the server, and the server for the commit of the writer when it cancels a read.  In runs without a reset
none of this is a deadlock: the writer gets to the end of its write, the serving thread back to `select`,
the reader through its updates, and the server finds the request.

Main definitions:

* `Shmdata.System.Flow` — the invariant of the messages and mutexes on the way;
* `Shmdata.System.Leaving` — a live reader has asked to quit, and the writer leaves its segment alone;
* `Shmdata.System.Helps` — the steps of the writer, of the server and of this reader.

Main results:

* `Shmdata.System.Flow.step` — every step keeps `Flow`;
* `Shmdata.System.Leaving.closes` — **from any such state these steps lead to the end of the client thread**.
-/

import Shmdata.ServerProgress
import Shmdata.Mailbox
import Shmdata.Crash
import Mathlib.Data.Prod.Lex

set_option relaxedAutoImplicit false
set_option autoImplicit false

namespace Shmdata

/-- The parts of a write that are left. -/
@[simp] def Writer.Pc.phase : Writer.Pc → ℕ
  | .idle | .writeStart _ => 0
  | .writeEnd => 1
  | .memcpy _ | .access => 2
  | .commit _ _ => 3
  | .notifying _ => 4
  | .notify _ _ => 5
  | .locked _ => 6
  | .create _ _ => 7

/-- The steps that are left of dealing with one message. -/
@[simp] def Reader.Pc.phase : Reader.Pc → ℕ
  | .closed => 0
  | .idle => 1
  | .attach | .onData _ => 2
  | .readStart _ => 3
  | .update _ => 4

namespace System

open SysV Semops Finset Runs

variable {s t : System}

/-! ### What the semaphores let through -/

/-- A reader in its callback can release its lock. -/
theorem Acc.readEnd_of_onData (ha : Acc s) {r size : ℕ} (hpc : (s.rd r).pc = .onData size) :
    0 < s.sem 0 := by
  have hheld : s.w.pc.held = false := by
    by_contra hh
    exact ha.exclusive (Bool.not_eq_false _ ▸ hh) r size hpc
  have hu : s.w.pc.uncommitted = false := by cases hw : s.w.pc <;> simp [hw] at hheld ⊢
  have hr : r < s.nrd := by
    by_contra hge
    rw [(ha.base.fresh r (not_lt.1 hge)).1] at hpc
    cases hpc
  refine ha.sem_pos hu hr ?_
  have hs := ha.base.sent r
  have ht := ha.base.taken r
  have hc := ha.cancel r
  have hb := Base.batch_of_not_uncommitted hu r
  rw [System.load, hpc] at ht
  simp only [Reader.Pc.busy] at ht
  omega

/-- The writer can give back its lock. -/
theorem Acc.writeEnd (ha : Acc s) (hpc : s.w.pc = .writeEnd) : 0 < s.sem 0 ∧ 0 < s.sem 1 := by
  have hheld := ha.base.held
  rw [hpc] at hheld
  have hb (q : ℕ) : s.batch q = 0 := Base.batch_of_not_uncommitted (by simp [hpc]) q
  have hsum : ∑ q ∈ range s.nrd, (s.released q + s.cancelled q) ≤ ∑ q ∈ range s.nrd, s.committed q :=
    sum_le_sum fun q _ => ha.settled_le (hb q)
  have hdebt := ha.debt
  rw [sum_add_distrib] at hsum
  rw [System.debt] at hdebt
  simp only [Writer.Pc.held, if_true] at hheld
  omega

/-- Before the readers of a frame are committed, semaphore `0` counts nothing but the lock. -/
theorem Acc.sem_le_of_commit (ha : Acc s) {num : ℤ} {next : Writer.Next} (hpc : s.w.pc = .commit num next) :
    s.sem 0 ≤ 1 := by
  have hheld := ha.base.held
  rw [hpc] at hheld
  have hterm (q : ℕ) : s.committed q ≤ s.released q + s.cancelled q := by
    have hs := ha.base.sent q
    have ht := ha.base.taken q
    by_cases hlt : s.cancelled q < s.load q
    · have hone := ha.single q
      have hcount := List.count_pos_iff.2 (ha.notified q hlt)
      rw [System.batch, hpc] at hs
      simp only [Writer.Pc.uncommitted, if_true] at hs
      omega
    · omega
  have hsum : ∑ q ∈ range s.nrd, s.committed q ≤ ∑ q ∈ range s.nrd, (s.released q + s.cancelled q) :=
    sum_le_sum fun q _ => hterm q
  have hdebt := ha.debt
  rw [sum_add_distrib] at hsum
  rw [System.debt] at hdebt
  simp only [Writer.Pc.held, if_true] at hheld
  omega

/-! ### What has been reported can be read -/

theorem readRes_isSome {r : ℕ} :
    (s.readRes r).isSome = true ↔ ((s.rd r).isOpen = true → (s.rd r).toSrv ≠ []) := by
  unfold readRes
  by_cases hnil : (s.rd r).toSrv = []
  · cases ho : (s.rd r).isOpen with
    | true => simp [hnil]
    | false => by_cases h : (s.rd r).rcvd < (s.srv.out r).length <;> simp [hnil, h]
  · simp [hnil]

/-- What `select` has reported and the serving thread has still to look at can be read. -/
def Readable (s : System) : Prop :=
  ∀ fd ∈ s.srv.toScan, fd ∈ s.srv.rset →
    ∃ r, s.srv.conn fd = some r ∧ ((s.rd r).isOpen = true → (s.rd r).toSrv ≠ [])

theorem readable_init (lfd memsize : ℕ) : Readable (init lfd memsize) := by
  simp [Readable, init, Server.init, Server.toScan]

namespace Readable

/-- A step of a reader takes nothing out of its mailbox. -/
theorem setRd (hr : Readable s) {r : ℕ} {rd : Reader}
    (ho : rd.isOpen = true → (s.rd r).isOpen = true)
    (hm : (s.rd r).toSrv ≠ [] → rd.toSrv ≠ []) : Readable (s.setRd r rd) := by
  intro fd hfd hset
  obtain ⟨q, hc, hq⟩ := hr fd hfd hset
  refine ⟨q, hc, ?_⟩
  by_cases hqr : q = r
  · subst hqr
    simp only [System.setRd, Function.update_self]
    exact fun h => hm (hq (ho h))
  · simp only [System.setRd, Function.update_of_ne hqr]
    exact hq

/-- A step of the serving thread that takes no message. -/
theorem thread (hr : Readable s) (hl : s.srv.Lists) {ev : Server.Ev} (hk : s.kernel ev = true)
    (h : s.srv.step (.thread ev) = some t.srv) (hrd : t.rd = s.rd) : Readable t := by
  intro fd hfd hset
  rw [hrd]
  rcases Server.toScan_of_step hl h hfd with ⟨rset, listening, rfl, hrset, hconn⟩ | ⟨hfd, hrset, hconn, -⟩
  · rw [hrset] at hset
    rw [hconn]
    simp only [kernel, Bool.and_eq_true, List.all_eq_true] at hk
    obtain ⟨res, hres⟩ := Option.isSome_iff_exists.1 (hk.1 fd hset)
    obtain ⟨r, hc, hres⟩ := Option.bind_eq_some_iff.1 hres
    exact ⟨r, hc, readRes_isSome.1 (Option.isSome_iff_exists.2 ⟨res, hres⟩)⟩
  · rw [hconn]
    exact hr fd hfd (hrset ▸ hset)

/-- The serving thread takes a message of the descriptor it is at. -/
theorem take (hr : Readable s) (hl : s.srv.Lists) {it : ℕ} {todo : List ℕ} {r : ℕ} {srv : Server ℕ}
    (hpc : s.srv.pc = .clients (it :: todo) ∨ s.srv.pc = .pending (it :: todo))
    (hc : s.srv.conn it = some r) (h : s.srv.step (.thread (.read .data)) = some srv) :
    Readable { s with
      srv := srv
      rd := Function.update s.rd r (s.taken r srv) } := by
  intro fd hfd hset
  rcases Server.toScan_of_step hl h hfd with ⟨_, _, hev, -⟩ | ⟨hfd, hrset, hconn, hne⟩
  · cases hev
  · obtain ⟨q, hcq, hq⟩ := hr fd hfd (hrset ▸ hset)
    have hqr : q ≠ r := by
      rintro rfl
      exact hne it todo hpc (hl.inj fd it q hcq hc)
    exact ⟨q, hconn.trans hcq, by simpa only [Function.update_of_ne hqr] using hq⟩

theorem step {a : Act} (hr : Readable s) (hb : Base s) (h : s.step a = some t) : Readable t := by
  cases trans_of_step h with
  | @locked op hpc =>
      obtain ⟨w, key, heq, -⟩ := s.locked_eq op
      rw [heq]
      exact hr
  | notifyLock hpc hsrv | notifySend hpc hn hsrv | notifyUnlock hpc hsrv =>
      cases Server.trans_of_step hsrv
      exact hr
  | server hk hsrv hs => exact hr.thread hb.wf.lists hk hsrv rfl
  | cancel hpc hf hsrv => exact hr.thread hb.wf.lists rfl hsrv rfl
  | take hpc hc hd hsrv => exact hr.take hb.wf.lists hpc hc hsrv
  | attach hr' hd hpc | receiveUpdate hr' hd hpc | update hr' hd hpc | readStart hr' hd hpc =>
      exact hr.setRd (fun _ => Reader.isOpen_iff.2 ⟨hd, by simp [hpc]⟩) id
  | receiveConnect hr' hd hpc =>
      exact hr.setRd (fun _ => Reader.isOpen_iff.2 ⟨hd, by simp [hpc]⟩) fun _ => by simp
  | receiveQuit | receiveEof => exact hr.setRd (by simp [Reader.isOpen]) id
  | @readEnd r size f hr' hd hpc =>
      exact (@setRd s hr r { s.rd r with pc := .idle }
        (fun _ => Reader.isOpen_iff.2 ⟨hd, by simp [hpc]⟩) id :)
  | quit hr' ho => exact hr.setRd (fun _ => ho) fun _ => by simp
  | die => exact hr.setRd (by simp [Reader.isOpen]) id
  | _ => exact hr

end Readable

/-! ### What was sent is heard -/

/-- The invariant of the requests: a live reader that was greeted is a client, or its acknowledgement is
waited for, and a request to quit stays in the mailbox until it is answered, unless the connection was
closed. -/
structure Asked (s : System) : Prop where
  waits : ∀ r, (s.rd r).isOpen = true → s.srv.out r ≠ [] →
    s.srv.acked r = true ∨ s.srv.closed r = true ∨ ∃ fd, s.srv.Waiting fd r
  quit : ∀ r, (s.rd r).quitSent = true →
    .quit ∈ (s.rd r).toSrv ∨ s.srv.closed r = true ∨ s.srv.Answering r

theorem asked_init (lfd memsize : ℕ) : Asked (init lfd memsize) where
  waits := by simp [init, Server.init]
  quit := by simp [init, Reader.init]

namespace Asked

/-- A step outside the server and the readers. -/
theorem frame (ha : Asked s) (h1 : t.srv = s.srv) (h2 : t.rd = s.rd) : Asked t where
  waits := by rw [h1, h2]; exact ha.waits
  quit := by rw [h1, h2]; exact ha.quit

/-- A step of a reader takes nothing out of its mailbox. -/
theorem setRd (ha : Asked s) {r : ℕ} {rd : Reader} (ho : rd.isOpen = true → (s.rd r).isOpen = true)
    (hm : .quit ∈ (s.rd r).toSrv → .quit ∈ rd.toSrv)
    (hq : rd.quitSent = true → (s.rd r).quitSent = true ∨ .quit ∈ rd.toSrv) : Asked (s.setRd r rd) where
  waits q hopen hout := by
    refine ha.waits q ?_ hout
    by_cases hqr : q = r
    · subst hqr
      exact ho (by simpa only [System.setRd, Function.update_self] using hopen)
    · simpa only [System.setRd, Function.update_of_ne hqr] using hopen
  quit q hsent := by
    by_cases hqr : q = r
    · subst hqr
      simp only [System.setRd, Function.update_self] at hsent ⊢
      rcases hq hsent with h | h
      · exact (ha.quit q h).imp_left hm
      · exact Or.inl h
    · simp only [System.setRd, Function.update_of_ne hqr] at hsent ⊢
      exact ha.quit q hsent

/-- A client is not served before it was greeted and acknowledged. -/
theorem acked_of_scan (hb : Base s) {it : ℕ} {todo : List ℕ} {r : ℕ}
    (h : s.srv.pc.scanTodo = some (it :: todo)) (hpc : ∀ todo, s.srv.pc ≠ .drop it todo)
    (hc : s.srv.conn it = some r) : s.srv.acked r = true := by
  obtain ⟨hcl, hrm⟩ := hb.wf.lists.scan_head h
  have hstop : s.srv.pc ≠ .stopped := by
    intro hs
    rw [hs] at h
    cases h
  exact (hb.wf.streams.serving it r ⟨hcl, Or.inr hrm, hb.wf.lists.not_ended hpc hstop, hc⟩).2

/-- The connections when the serving thread takes a step. -/
theorem waits_thread (ha : Asked s) (hb : Base s) {ev : Server.Ev} (hk : s.kernel ev = true) {srv : Server ℕ}
    (h : s.srv.step (.thread ev) = some srv) {r : ℕ} (ho : (s.rd r).isOpen = true)
    (hout : srv.out r ≠ []) :
    srv.acked r = true ∨ srv.closed r = true ∨ ∃ fd, srv.Waiting fd r := by
  have hl := hb.wf.lists
  have hold (hout : s.srv.out r ≠ []) :
      srv.acked r = true ∨ srv.closed r = true ∨ ∃ fd, srv.Waiting fd r := by
    rcases ha.waits r ho hout with hack | hcl | ⟨fd, hw⟩
    · exact Or.inl (Server.acked_of_step h hack)
    · exact Or.inr (Or.inl (Server.closed_of_step h hcl))
    · rcases Server.waiting_of_step hl h hw with hw | hcl | hack | ⟨rfl, todo, hpc⟩
      · exact Or.inr (Or.inr ⟨fd, hw⟩)
      · exact Or.inr (Or.inl hcl)
      · exact Or.inl hack
      · -- a read fails only when the reader is gone
        simp only [kernel, hpc, hw.2.2, Option.bind_some, beq_iff_eq] at hk
        rw [(readRes_error_iff.1 hk).1] at ho
        cases ho
  rcases Server.thread_out h r with heq | ⟨fd, m, hc, rfl, hpc | ⟨todo, hpc⟩, -, -⟩
  · exact hold (heq ▸ hout)
  · refine Or.inr (Or.inr ⟨fd, ?_⟩)
    cases Server.trans_of_step h with
    | greeted hpc' =>
        obtain rfl : fd = _ := Option.some.inj (Server.Pc.greet.inj (hpc.symm.trans hpc'))
        refine ⟨Server.mem_setInsert.2 (Or.inl rfl), ?_, hc⟩
        simp [hl.rest, hpc]
    | quitAcked hpc' => rw [hpc] at hpc'; cases hpc'
  · have hscan : s.srv.pc.scanTodo = some (fd :: todo) := by simp [hpc]
    have hack := acked_of_scan hb hscan (by simp [hpc]) hc
    exact Or.inl (Server.acked_of_step h hack)

/-- A step of the serving thread that takes no message. -/
theorem thread (ha : Asked s) (hb : Base s) {ev : Server.Ev} (hk : s.kernel ev = true)
    (h : s.srv.step (.thread ev) = some t.srv) (hrd : t.rd = s.rd) : Asked t where
  waits r := by
    rw [hrd]
    exact ha.waits_thread hb hk h
  quit r := by
    rw [hrd]
    intro hq
    rcases ha.quit r hq with hm | hcl | ha
    · exact Or.inl hm
    · exact Or.inr (Or.inl (Server.closed_of_step h hcl))
    · exact Or.inr (Server.answering_of_step h ha)

/-- The serving thread takes an acknowledgement, or a request, which it is then about to answer. -/
theorem take (ha : Asked s) (hm : Mail s) (hb : Base s) {it : ℕ} {todo : List ℕ} {r : ℕ} {srv : Server ℕ}
    (hpc : s.srv.pc = .clients (it :: todo) ∨ s.srv.pc = .pending (it :: todo))
    (hc : s.srv.conn it = some r) (hd : s.readRes r = some .data)
    (h : s.srv.step (.thread (.read .data)) = some srv) :
    Asked { s with
      srv := srv
      rd := Function.update s.rd r (s.taken r srv) } where
  waits q hopen hout := by
    have hk : s.kernel (.read .data) = true := by
      rcases hpc with hpc | hpc <;> simp [kernel, hpc, hc, hd]
    refine ha.waits_thread hb hk h ?_ hout
    by_cases hqr : q = r
    · subst hqr
      simp only [Function.update_self] at hopen
      exact hopen
    · simp only [Function.update_of_ne hqr] at hopen
      exact hopen
  quit q hq := by
    by_cases hqr : q = r
    · subst hqr
      simp only [Function.update_self] at hq ⊢
      rcases hpc with hpc | hpc
      · -- whatever is read from a client is taken for a request
        refine Or.inr (Or.inr ⟨it, todo, Or.inl ?_, ?_⟩) <;> cases Server.trans_of_step h with
        | readQuit hpc' =>
            obtain ⟨rfl, rfl⟩ := List.cons.inj (Server.Pc.clients.inj (hpc.symm.trans hpc'))
            first | rfl | exact hc
        | ackRead hpc' => rw [hpc] at hpc'; cases hpc'
      · obtain ⟨hp, hrm⟩ := hb.wf.lists.pend_head (i := it) (l := todo) (by simp [hpc])
        obtain ⟨-, hack⟩ := hb.wf.streams.waiting it q ⟨hp, hrm, hc⟩
        obtain ⟨l, hl, -⟩ := hm.first q hack (Or.inr (toSrv_ne_nil_of_readRes hd))
        rcases ha.quit q hq with hin | hcl | ⟨it', todo', hpc', -⟩
        · refine Or.inl ?_
          rw [hl] at hin
          rw [taken_toSrv, hl]
          exact (List.mem_cons.1 hin).resolve_left (by simp)
        · exact Or.inr (Or.inl (Server.closed_of_step h hcl))
        · rw [hpc] at hpc'
          rcases hpc' with h | h <;> cases h
    · simp only [Function.update_of_ne hqr] at hq ⊢
      rcases ha.quit q hq with hin | hcl | ha
      · exact Or.inl hin
      · exact Or.inr (Or.inl (Server.closed_of_step h hcl))
      · exact Or.inr (Server.answering_of_step h ha)

/-- A step of `notify_update`, which sends to acknowledged clients. -/
theorem notify (ha : Asked s) {out : ℕ → List (SrvMsg ℕ)} {notified : List ℕ}
    {todo : Option (ℕ × List ℕ)}
    (h : t.srv = { s.srv with out := out, clientsNotified := notified, notify := todo })
    (hrd : t.rd = s.rd) (hout : ∀ r, out r = s.srv.out r ∨ s.srv.acked r = true) : Asked t where
  waits r := by
    rw [h, hrd]
    intro ho hne
    rcases hout r with heq | hack
    · exact ha.waits r ho (heq ▸ hne)
    · exact Or.inl hack
  quit := by rw [h, hrd]; exact ha.quit

theorem step {a : Act} (ha : Asked s) (hm : Mail s) (hb : Base s) (h : s.step a = some t) : Asked t := by
  cases trans_of_step h with
  | @locked op hpc =>
      obtain ⟨w, key, heq, -⟩ := s.locked_eq op
      rw [heq]
      exact ha.frame rfl rfl
  | notifyLock hpc hsrv =>
      cases Server.trans_of_step hsrv
      exact ha.notify rfl rfl fun _ => Or.inl rfl
  | notifyUnlock hpc hsrv =>
      cases Server.trans_of_step hsrv
      exact ha.notify rfl rfl fun _ => Or.inl rfl
  | @notifySend size it todo next srv hpc hn hsrv =>
      have hout := Server.acked_of_notifySend hsrv (hb.wf.step hsrv).streams
      cases Server.trans_of_step hsrv
      exact ha.notify rfl rfl hout
  | @server ev srv hk hsrv hs => exact ha.thread hb hk hsrv rfl
  | cancel hpc hf hsrv => exact ha.thread hb rfl hsrv rfl
  | take hpc hc hd hsrv => exact ha.take hm hb hpc hc hd hsrv
  | attach hr' hd hpc | receiveUpdate hr' hd hpc | update hr' hd hpc | readStart hr' hd hpc =>
      exact ha.setRd (fun _ => Reader.isOpen_iff.2 ⟨hd, by simp [hpc]⟩) id Or.inl
  | receiveConnect hr' hd hpc =>
      exact ha.setRd (fun _ => Reader.isOpen_iff.2 ⟨hd, by simp [hpc]⟩) (by simp) Or.inl
  | receiveQuit | receiveEof => exact ha.setRd (by simp [Reader.isOpen]) id Or.inl
  | @readEnd r size f hr' hd hpc =>
      exact (@setRd s ha r { s.rd r with pc := .idle }
        (fun _ => Reader.isOpen_iff.2 ⟨hd, by simp [hpc]⟩) id Or.inl).frame rfl rfl
  | quit hr' ho => exact ha.setRd (fun _ => ho) (by simp) (by simp)
  | die => exact ha.setRd (by simp [Reader.isOpen]) id Or.inl
  | _ => exact ha.frame rfl rfl

end Asked

/-! ### The invariant -/

/-- The invariant of the messages and mutexes. -/
structure Flow (s : System) : Prop where
  running : s.srv.quit = false ∧ s.srv.pc ≠ .stopped
  defined : s.srv.Defined
  watches : s.srv.Watches
  readable : Readable s
  asked : Asked s
  notifying : s.srv.notify ≠ none → ∃ next, s.w.pc = .notifying next
  creating : ∀ size next, s.w.pc = .create size next → s.key = none

theorem flow_init (lfd memsize : ℕ) : Flow (init lfd memsize) where
  running := by simp [init, Server.init]
  defined := Server.defined_init lfd
  watches := Server.watches_init lfd
  readable := readable_init lfd memsize
  asked := asked_init lfd memsize
  notifying := by simp [init, Server.init]
  creating := by simp [init]

/-- The kernel gives the serving thread no descriptor that does not fit in an `fd_set`. -/
theorem inFdSet_of_kernel {ev : Server.Ev} (hk : s.kernel ev = true) : Server.InFdSet s.srv (.thread ev) := by
  cases ev with
  | accept clifd =>
      cases clifd with
      | none => trivial
      | some fd =>
          have hk : s.srv.nconn < s.nrd ∧ fd < FD_SETSIZE := by simpa [kernel] using hk
          exact hk.2
  | _ => trivial

/-- The server takes a step in a step of the system, which does not destroy it, or stays as it is. -/
theorem srv_of_step {a : Act} (h : s.step a = some t) :
    t.srv = s.srv ∨ ∃ b, b ≠ .dtorStart ∧ Server.InFdSet s.srv b ∧ s.srv.step b = some t.srv := by
  cases trans_of_step h with
  | @locked op hpc =>
      obtain ⟨w, key, heq, -⟩ := s.locked_eq op
      exact Or.inl (by rw [heq])
  | notifyLock hpc hsrv | notifySend hpc hn hsrv | notifyUnlock hpc hsrv | take hpc hr hd hsrv
  | cancel hpc hf hsrv =>
      refine Or.inr ⟨_, by simp, ?_, hsrv⟩
      trivial
  | server hk hsrv => exact Or.inr ⟨_, by simp, inFdSet_of_kernel hk, hsrv⟩
  | _ => exact Or.inl rfl

/-- A client stays acknowledged. -/
theorem acked_of_step {a : Act} (h : s.step a = some t) {r : ℕ} (hack : s.srv.acked r = true) :
    t.srv.acked r = true := by
  obtain heq | ⟨b, -, -, hsrv⟩ := srv_of_step h
  · rw [heq]
    exact hack
  · exact Server.acked_of_step hsrv hack


/-- A step of the serving thread does not concern the writer. -/
theorem server_of_step {ev : Server.Ev} (h : s.step (.server ev) = some t) :
    t.w = s.w ∧ s.srv.step (.thread ev) = some t.srv := by
  cases trans_of_step h with
  | server hk hsrv | take hpc hr hd hsrv | cancel hpc hf hsrv => exact ⟨rfl, hsrv⟩

namespace Flow

/-- `notify_update` runs in the writer's thread. -/
theorem notifying_step {a : Act} (hf : Flow s) (h : s.step a = some t) (hn : t.srv.notify ≠ none) :
    ∃ next, t.w.pc = .notifying next := by
  have hold (h1 : t.srv.notify = s.srv.notify) (h2 : t.w.pc = s.w.pc) : ∃ next, t.w.pc = .notifying next := by
    rw [h2]
    exact hf.notifying (h1 ▸ hn)
  have hnone (h1 : t.srv = s.srv) (h2 : ∀ next, s.w.pc ≠ .notifying next) :
      ∃ next, t.w.pc = .notifying next := by
    obtain ⟨next, hpc⟩ := hf.notifying (h1 ▸ hn)
    exact absurd hpc (h2 next)
  cases trans_of_step h with
  | @locked op hpc =>
      obtain ⟨w, key, heq, -⟩ := s.locked_eq op
      exact hnone (by rw [heq]) (by simp [hpc])
  | notifyLock => exact ⟨_, rfl⟩
  | notifySend hpc => exact ⟨_, hpc⟩
  | notifyUnlock hpc hsrv =>
      cases Server.trans_of_step hsrv
      exact absurd rfl hn
  | server hk hsrv | take hpc hr hd hsrv | cancel hpc hf' hsrv =>
      exact hold (Server.thread_frame hsrv).1 rfl
  | call hpc | writeStart hpc | create hpc | commit hpc | commitNone hpc | memcpy hpc | writeEnd hpc
  | shmResize hpc | notifyClients hpc | release hpc => exact hnone rfl (by simp [hpc])
  | _ => exact hold rfl rfl

/-- While a segment is being replaced there is none. -/
theorem creating_step {a : Act} (hf : Flow s) (h : s.step a = some t) {size : ℕ} {next : Writer.Next}
    (hpc : t.w.pc = .create size next) : t.key = none := by
  cases trans_of_step h with
  | @locked op hpc' =>
      cases op with
      | copyToShm data =>
          simp only [locked] at hpc ⊢
          split at hpc
          · next hlt => rw [if_pos hlt]; rfl
          · cases hpc
      | getOneWriteAccess => cases hpc
      | getOneWriteAccessResize newSize =>
          simp only [locked] at hpc ⊢
          split at hpc
          · next hne => rw [if_pos hne]; rfl
          · cases hpc
      | getOneWriteAccessPtrResize newSize => rfl
  | shmResize => rfl
  | @create size' next' => cases next' <;> cases hpc
  | @commit num next' | @commitNone num next' => cases next' <;> cases hpc
  | call | writeStart | notifyLock | notifyUnlock | memcpy | writeEnd | notifyClients | release => cases hpc
  | _ => exact hf.creating size next hpc

/-- **Every step keeps the invariant.** -/
theorem step {a : Act} (hf : Flow s) (hm : Mail s) (hb : Base s) (h : s.step a = some t) : Flow t where
  running := by
    rcases srv_of_step h with heq | ⟨b, hb, -, hsrv⟩
    · rw [heq]; exact hf.running
    · exact Server.running_of_step hf.running.1 hf.running.2 hb hsrv
  defined := by
    rcases srv_of_step h with heq | ⟨b, -, hok, hsrv⟩
    · rw [heq]; exact hf.defined
    · exact hf.defined.step hok hsrv
  watches := by
    rcases srv_of_step h with heq | ⟨b, -, -, hsrv⟩
    · rw [heq]; exact hf.watches
    · exact hf.watches.step hb.wf.lists hsrv
  readable := hf.readable.step hb h
  asked := hf.asked.step hm hb h
  notifying := hf.notifying_step h
  creating _ _ := hf.creating_step h

end Flow

/-! ### A reader that leaves -/

/-- The call writes into the segment as it is. -/
def Fits (s : System) : Writer.Op → Prop
  | .copyToShm data => data.length ≤ s.w.shmSize
  | .getOneWriteAccess => True
  | .getOneWriteAccessResize newSize => (s.mem s.w.shm).length = newSize
  | .getOneWriteAccessPtrResize _ => False

instance (s : System) (op : Writer.Op) : Decidable (s.Fits op) := by
  unfold Fits
  split <;> infer_instance

/-- The write under way, if the lock is still to be acquired or just was, fits into the segment. -/
def PendingFits (s : System) : Prop := ∀ op, s.w.pc = .writeStart op ∨ s.w.pc = .locked op → s.Fits op

theorem fits_congr (hw : t.w = s.w) (hm : t.mem = s.mem) (op : Writer.Op) : t.Fits op ↔ s.Fits op := by
  cases op <;> simp only [Fits, hw, hm]

/-- A call that fits leaves the segment where it is. -/
theorem locked_of_fits {op : Writer.Op} (h : s.Fits op) :
    ∃ w, s.locked op = { s with w := w } ∧
      ((∃ data, w.pc = .notify data.length (.copy data)) ∨ w.pc = .access) := by
  cases op with
  | copyToShm data => exact ⟨_, by rw [locked, if_neg (not_lt.2 h)], Or.inl ⟨data, rfl⟩⟩
  | getOneWriteAccess => exact ⟨_, rfl, Or.inr rfl⟩
  | getOneWriteAccessResize newSize =>
      have h : (s.mem s.w.shm).length = newSize := h
      exact ⟨_, by rw [locked, if_neg (not_not.2 h)], Or.inr rfl⟩
  | getOneWriteAccessPtrResize newSize => exact absurd h not_false

/-- The steps of the writer inside its call, of the server and of one reader. -/
def Helps (r : ℕ) : Act → Prop
  | .writer | .release | .server _ => True
  | .reader q => q = r
  | _ => False

instance (r : ℕ) (a : Act) : Decidable (Helps r a) := by
  unfold Helps
  split <;> infer_instance

/-- The steps that are left to the reader until it has dealt with everything that was sent. -/
def backlog (s : System) (r : ℕ) : ℕ :=
  4 * ((s.srv.out r).length - (s.rd r).rcvd) + (s.rd r).pc.phase

/-- The reader has left its loop, or waits for a message on an open connection. -/
def Drained (r : ℕ) (s : System) : Prop :=
  (s.rd r).pc = .closed ∨ (s.rd r).pc = .idle ∧ s.srv.closed r = false

/-- The clients that `notify_update` has still to send to. -/
def unsent (s : System) : ℕ := s.srv.notify.elim 0 fun x => x.2.length

/-- The write has come closer to its end. -/
def Advanced (s t : System) : Prop :=
  t.w.pc.phase < s.w.pc.phase ∨
    t.w.pc.phase = s.w.pc.phase ∧ t.srv.rank = s.srv.rank ∧ t.unsent < s.unsent

/-- A live reader has asked to quit, while the writer leaves its segment alone and no reset has fired. -/
structure Leaving (r : ℕ) (s : System) : Prop where
  acc : Acc s
  mail : Mail s
  flow : Flow s
  key : s.key ≠ none
  fits : PendingFits s
  lt : r < s.nrd
  alive : (s.rd r).dead = false
  connected : (s.rd r).connected = true
  sent : (s.rd r).quitSent = true

theorem nrd_le_of_step {a : Act} (h : s.step a = some t) : s.nrd ≤ t.nrd := by
  cases trans_of_step h with
  | @locked op hpc =>
      obtain ⟨w, key, heq, -⟩ := s.locked_eq op
      rw [heq]
  | connect => exact Nat.le_succ _
  | _ => exact le_rfl

/-- A reader lives on unless its own death is the step. -/
theorem alive_of_step {a : Act} {r : ℕ} (h : s.step a = some t) (ha : a ≠ .die r)
    (hd : (s.rd r).dead = false) : (t.rd r).dead = false := by
  cases trans_of_step h with
  | @locked op hpc =>
      obtain ⟨w, key, heq, -⟩ := s.locked_eq op
      rwa [heq]
  | @die q =>
      refine (congrArg Reader.dead (Function.update_of_ne ?_ ..)).trans hd
      rintro rfl
      exact ha rfl
  | _ =>
      by_contra hdead
      rw [Bool.not_eq_false] at hdead
      rw [dead_of_step h rfl hdead] at hd
      cases hd

/-- The writer holds no lock, and the serving thread is about to call `select`. -/
def Settled (s : System) : Prop :=
  s.w.pc.held = false ∧ (s.srv.pc = .top ∨ s.srv.pc = .select)

/-- A state of a reader that leaves, with at most `n` messages in its mailbox. -/
def Within (r n : ℕ) (s : System) : Prop := Leaving r s ∧ (s.rd r).toSrv.length ≤ n

/-- Once connected a reader stays so. -/
theorem connected_of_step {a : Act} (h : s.step a = some t) {r : ℕ} (hc : (s.rd r).connected = true) :
    (t.rd r).connected = true := by
  have hset {q : ℕ} {rd : Reader} (hrd : (s.rd q).connected = true → rd.connected = true) :
      (Function.update s.rd q rd r).connected = true :=
    rel_update (P := fun a b => a.connected = true → b.connected = true) (fun _ => id) hrd r hc
  cases trans_of_step h with
  | @locked op hpc =>
      obtain ⟨w, key, heq, -⟩ := s.locked_eq op
      rwa [heq]
  | receiveConnect => exact hset fun _ => rfl
  | take | attach | receiveUpdate | receiveQuit | receiveEof | update | readStart | readEnd | quit
  | die => exact hset id
  | _ => exact hc

/-! ### Nobody waits for long -/

/-- **A live reader goes on with its loop** while nobody writes, unless it waits for a message. -/
theorem Acc.exists_reader (ha : Acc s) {r : ℕ} (hheld : s.w.pc.held = false)
    (hr : r < s.nrd ∧ (s.rd r).dead = false) (hkey : (s.rd r).pc = .attach → s.key.isSome = true)
    (hclosed : (s.rd r).pc ≠ .closed)
    (hidle : (s.rd r).pc = .idle → (s.srv.out r)[(s.rd r).rcvd]? = none → s.srv.closed r = true) :
    ∃ t, s.step (.reader r) = some t ∧ t.w = s.w ∧ t.srv = s.srv ∧ t.backlog r < s.backlog r := by
  have hgo {t : System} (h : s.readerStep r = some t)
      (hto : t.w = s.w ∧ t.srv = s.srv ∧ t.backlog r < s.backlog r) :
      ∃ t, s.step (.reader r) = some t ∧ t.w = s.w ∧ t.srv = s.srv ∧ t.backlog r < s.backlog r := ⟨t, h, hto⟩
  have hrcvd := ha.base.rcvd r
  cases hpc : (s.rd r).pc with
  | attach =>
      refine hgo (by simp only [System.readerStep, if_pos hr, hpc, if_pos (hkey hpc)]; rfl) ?_
      refine ⟨rfl, rfl, ?_⟩
      simp [backlog, setRd, hpc]
  | idle =>
      cases hm : (s.srv.out r)[(s.rd r).rcvd]? with
      | none =>
          have hcl := hidle hpc hm
          refine hgo (by simp only [System.readerStep, if_pos hr, hpc, receive, hm, hcl, if_true]; rfl) ?_
          refine ⟨rfl, rfl, ?_⟩
          simp [backlog, setRd, hpc]
      | some m =>
          have hlt : (s.rd r).rcvd < (s.srv.out r).length := (List.getElem?_eq_some_iff.1 hm).1
          cases m with
          | connect | update | quit =>
              refine hgo (by simp only [System.readerStep, if_pos hr, hpc, receive, hm]; rfl) ?_
              refine ⟨rfl, rfl, ?_⟩
              simp only [backlog, setRd, hpc, Function.update_self, Reader.Pc.phase]
              omega
  | update size =>
      refine hgo (by simp only [System.readerStep, if_pos hr, hpc]; rfl) ?_
      refine ⟨rfl, rfl, ?_⟩
      simp [backlog, setRd, hpc]
  | readStart size =>
      have hsem : s.sem 1 = 0 := by rw [ha.base.held, hheld]; rfl
      have hstart := perform_eq_some.2 (readStart_eq_ok.2 ⟨hsem, rfl⟩)
      refine hgo (by simp only [System.readerStep, if_pos hr, hpc, hstart, Option.map_some]; rfl) ?_
      refine ⟨rfl, rfl, ?_⟩
      simp [backlog, setRd, hpc]
  | onData size =>
      have hend := perform_eq_some.2 (readEnd_eq_ok.2 ⟨ha.readEnd_of_onData hpc, rfl⟩)
      refine hgo (by simp only [System.readerStep, if_pos hr, hpc, hend, Option.map_some]; rfl) ?_
      refine ⟨rfl, rfl, ?_⟩
      simp [backlog, setRd, hpc]
  | closed => exact absurd hpc hclosed

/-- Once in `select`, the thread is told of a descriptor that has something to read. -/
theorem select_reports (hpc : s.srv.pc = .select) {fd r : ℕ} (hset : fd ∈ s.srv.allset)
    (hmax : fd ≤ s.srv.maxfd) (hc : s.srv.conn fd = some r) (hread : (s.readRes r).isSome = true) :
    s.step (.server (.select [fd] false)) =
      some { s with srv := { s.srv with rset := [fd], listening := false, pc := .lock } } := by
  have hk : s.kernel (.select [fd] false) = true := by simpa [kernel, hc] using hread
  have hth : s.srv.thread (.select [fd] false) =
      some { s.srv with rset := [fd], listening := false, pc := .lock } := by
    simp only [Server.thread, hpc]
    exact if_pos (by simpa using ⟨hset, hmax⟩)
  simp only [System.step, serverStep, if_pos hk, hth, Option.bind_some, effect, hpc]

namespace Flow

/-- **The serving thread goes on with its loop**, unless it waits for a commit. -/
theorem exists_server (hf : Flow s) (ha : Acc s) (htop : s.srv.pc ≠ .top) (hsel : s.srv.pc ≠ .select)
    (hlock : s.srv.pc = .lock → s.srv.notify = none) :
    (∃ ev t, s.step (.server ev) = some t) ∨ ∃ num next, s.w.pc = .commit num next := by
  have hgo (ev : Server.Ev) {srv : Server ℕ} (hk : s.kernel ev = true) (h : s.srv.thread ev = some srv)
      (he : (s.effect srv s.srv.pc ev).isSome = true) :
      (∃ ev t, s.step (.server ev) = some t) ∨ ∃ num next, s.w.pc = .commit num next := by
    obtain ⟨t, ht⟩ := Option.isSome_iff_exists.1 he
    exact Or.inl ⟨ev, t, by simp only [System.step, serverStep, if_pos hk, h, Option.bind_some, ht]⟩
  have hread {it : ℕ} (hscan : it ∈ s.srv.toScan) (hset : it ∈ s.srv.rset) :
      ∃ res, (s.srv.conn it).bind s.readRes = some res := by
    obtain ⟨q, hc, hq⟩ := hf.readable it hscan hset
    obtain ⟨res, hres⟩ := Option.isSome_iff_exists.1 (readRes_isSome.2 hq)
    exact ⟨res, by rw [hc, Option.bind_some, hres]⟩
  cases hpc : s.srv.pc with
  | top => exact absurd hpc htop
  | select => exact absurd hpc hsel
  | stopped => exact absurd hpc hf.running.2
  | undefined => exact absurd hpc hf.defined.defined
  | lock => exact hgo .tau rfl (by simp only [Server.thread, hpc, hlock hpc]; rfl) (by simp [effect, hpc])
  | accept =>
      exact hgo (.accept none) (by simp [kernel]) (by simp only [Server.thread, hpc]; rfl)
        (by simp [effect, hpc])
  | greet o =>
      cases o with
      | none =>
          exact hgo (.send false) (by simp [kernel, hpc]) (by simp only [Server.thread, hpc]; rfl)
            (by simp [effect, hpc])
      | some fd =>
          have hk : s.kernel (.send ((s.srv.conn fd).any fun r => (s.rd r).isOpen)) = true := by
            simp [kernel, hpc]
          cases hok : (s.srv.conn fd).any fun r => (s.rd r).isOpen with
          | false =>
              rw [hok] at hk
              exact hgo _ hk (by simp only [Server.thread, hpc]; rfl) (by simp [effect, hpc])
          | true =>
              rw [hok] at hk
              exact hgo _ hk (by simp only [Server.thread, hpc]; rfl) (by simp [effect, hpc])
  | clients todo =>
      cases todo with
      | nil => exact hgo .tau rfl (by simp only [Server.thread, hpc]; rfl) (by simp [effect, hpc])
      | cons it todo =>
          by_cases hset : it ∈ s.srv.rset
          · obtain ⟨res, hres⟩ := hread (by simp [Server.toScan, hpc]) hset
            have hk : s.kernel (.read res) = true := by simp [kernel, hpc, hres]
            cases res with
            | error | eof | data =>
                exact hgo _ hk (by simp only [Server.thread, hpc, if_pos hset]; rfl) (by simp [effect, hpc])
          · exact hgo .tau rfl (by simp only [Server.thread, hpc, if_neg hset]; rfl)
              (by simp [effect, hpc])
  | recover it todo =>
      obtain ⟨q, hc⟩ := ha.base.wf.lists.conn_of_scan_head (i := it) (l := todo) (by simp [hpc])
      by_cases h0 : s.sem 0 = 0
      · obtain ⟨num, next, hw, -⟩ := ha.commits_of_recover hpc hc h0
        exact Or.inr ⟨num, next, hw⟩
      · have hsem := perform_eq_some.2 (readEnd_eq_ok.2 ⟨Nat.one_le_iff_ne_zero.2 h0, rfl⟩)
        exact hgo .tau rfl (by simp only [Server.thread, hpc]; rfl) (by simp [effect, hpc, hsem])
  | ackQuit it todo =>
      exact hgo (.send ((s.srv.conn it).any fun r => (s.rd r).isOpen)) (by simp [kernel, hpc])
        (by simp only [Server.thread, hpc]; rfl) (by simp [effect, hpc])
  | drop it todo | dropPending it todo | erase | purge =>
      exact hgo .tau rfl (by simp only [Server.thread, hpc]; rfl) (by simp [effect, hpc])
  | pending todo =>
      cases todo with
      | nil => exact hgo .tau rfl (by simp only [Server.thread, hpc]; rfl) (by simp [effect, hpc])
      | cons it todo =>
          by_cases hset : it ∈ s.srv.rset
          · obtain ⟨res, hres⟩ := hread (by simp [Server.toScan, hpc]) hset
            have hk : s.kernel (.read res) = true := by simp [kernel, hpc, hres]
            cases res with
            | error | eof | data =>
                exact hgo _ hk (by simp only [Server.thread, hpc, if_pos hset]; rfl) (by simp [effect, hpc])
          · exact hgo .tau rfl (by simp only [Server.thread, hpc, if_neg hset]; rfl)
              (by simp [effect, hpc])

/-- **The writer goes on with its write**, once the segment is there, while the serving thread does not hold the
mutex. -/
theorem exists_writer (hf : Flow s) (ha : Acc s) (hheld : s.w.pc.held = true)
    (hlocked : ∀ op, s.w.pc ≠ .locked op) (hcreate : ∀ size next, s.w.pc ≠ .create size next)
    (hlock : s.srv.pc.locked = false ∨ ∃ num next, s.w.pc = .commit num next) :
    ∃ a t, (a = .writer ∨ a = .release) ∧ s.step a = some t ∧ Advanced s t := by
  have hgo {t : System} (h : s.writerStep = some t) (hlt : t.w.pc.phase < s.w.pc.phase) :
      ∃ a t, (a = .writer ∨ a = .release) ∧ s.step a = some t ∧ Advanced s t :=
    ⟨.writer, t, Or.inl rfl, h, Or.inl hlt⟩
  cases hpc : s.w.pc with
  | idle | writeStart => simp [hpc] at hheld
  | create size next => exact absurd hpc (hcreate size next)
  | locked op => exact absurd hpc (hlocked op)
  | notify size next =>
      have hu : s.srv.pc.locked = false := by
        rcases hlock with h | ⟨num, next', h⟩
        · exact h
        · rw [hpc] at h
          cases h
      have hn : s.srv.notify = none := by
        by_contra hne
        obtain ⟨next', h⟩ := hf.notifying hne
        rw [hpc] at h
        cases h
      have hstep : s.srv.step (.notifyLock size) =
          some { s.srv with clientsNotified := [], notify := some (size, s.srv.clients) } :=
        if_pos ⟨hu, by rw [hn]; rfl, ha.base.alive⟩
      exact hgo (by simp only [writerStep, hpc, hstep, Option.map_some]; rfl)
        (by simp [System.notifyLock, hpc])
  | notifying next =>
      obtain ⟨⟨size, todo⟩, hn⟩ := Option.ne_none_iff_exists'.1 (ha.notifying next hpc)
      cases todo with
      | nil =>
          have hstep : s.srv.step .notifyUnlock = some { s.srv with notify := none } := by
            simp only [Server.step, hn]
          exact hgo (by simp only [writerStep, hpc, hn, hstep, Option.map_some]; rfl) (by simp [hpc])
      | cons it todo =>
          have hto {t : System} (h : s.writerStep = some t) (hadv : Advanced s t) :
              ∃ a t, (a = .writer ∨ a = .release) ∧ s.step a = some t ∧ Advanced s t :=
            ⟨.writer, t, Or.inl rfl, h, hadv⟩
          exact hto (by simp only [writerStep, hpc, hn, Server.step, Option.map_some]; rfl)
            (by exact Or.inr ⟨rfl, rfl, by simp [unsent, hn]⟩)
  | commit num next =>
      have hphase : next.pc.phase < 3 := by cases next <;> simp [Writer.Next.pc]
      have hnum := ha.base.commit num next hpc
      by_cases hpos : 0 < num
      · have hlen := ha.base.wf.lists.notified_length_le
        have hcount := ha.base.count (by rw [hpc]; rfl)
        have hle := ha.sem_le_of_commit hpc
        have hsem := perform_eq_some.2 ((commitReaders_eq_ok (f := s.sem) (n := s.notified.length)
          (by omega)).2 ⟨by unfold SEMVMX; unfold FD_SETSIZE at hlen; omega, rfl⟩)
        rw [← hnum] at hsem
        exact hgo (by simp only [writerStep, hpc, if_pos hpos, hsem, Option.map_some]; rfl)
          (by rw [hpc]; exact hphase)
      · exact hgo (by simp only [writerStep, hpc, if_neg hpos]; rfl) (by rw [hpc]; exact hphase)
  | memcpy data => exact hgo (by simp only [writerStep, hpc]; rfl) (by simp [hpc])
  | access =>
      have h : s.step .release = some { s with w := { s.w with pc := .writeEnd } } := by
        simp only [System.step, hpc]
      exact ⟨.release, _, Or.inr rfl, h, Or.inl (by simp [hpc])⟩
  | writeEnd =>
      obtain ⟨h0, h1⟩ := ha.writeEnd hpc
      have hsem := perform_eq_some.2 (writeEnd_eq_ok.2 ⟨h0, h1, rfl⟩)
      exact hgo (by simp only [writerStep, hpc, hsem, Option.map_some]; rfl) (by simp [hpc])

/-- The serving thread comes to a descriptor that has something to read. -/
theorem exists_reported (ok : System → Act → Prop) [∀ s a, Decidable (ok s a)]
    (hok : ∀ s ev, ok s (.server ev)) (hf : Flow s) (hpc : s.srv.pc = .top ∨ s.srv.pc = .select) {fd r : ℕ}
    (hc : s.srv.conn fd = some r) (hlist : fd ∈ s.srv.clients ∨ fd ∈ s.srv.pendingClients)
    (hread : (s.readRes r).isSome = true) : ∃ as, exec (restrict System.step ok) s as =
      some { s with srv := { s.srv with rset := [fd], listening := false, pc := .lock } } := by
  obtain ⟨hset, hmax⟩ := hf.watches fd hlist ⟨r, hc⟩
  rcases hpc with hpc | hpc
  · have hst : s.step (.server .tau) = some { s with srv := { s.srv with pc := .select } } := by
      simp [System.step, serverStep, kernel, Server.thread, hpc, hf.running.1, effect]
    have hsel := select_reports (s := { s with srv := { s.srv with pc := .select } }) rfl hset hmax hc hread
    exact ⟨[_, _], exec_cons_eq_some.2 ⟨_, restrict_eq_some.2 ⟨hok _ _, hst⟩,
      exec_cons_eq_some.2 ⟨_, restrict_eq_some.2 ⟨hok _ _, hsel⟩, rfl⟩⟩⟩
  · exact ⟨[_], exec_cons_eq_some.2
      ⟨_, restrict_eq_some.2 ⟨hok _ _, select_reports hpc hset hmax hc hread⟩, rfl⟩⟩

end Flow

namespace Leaving

variable {r : ℕ}

/-- The segment stays where it is, and the next write fits. -/
theorem keeps (hl : Leaving r s) {a : Act} (ha : Helps r a) (h : s.step a = some t) :
    t.key = s.key ∧ PendingFits t := by
  have hidle (h1 : t.key = s.key) (h2 : ∀ op, t.w.pc ≠ .writeStart op ∧ t.w.pc ≠ .locked op) :
      t.key = s.key ∧ PendingFits t :=
    ⟨h1, fun op hop => hop.elim (fun h => absurd h (h2 op).1) fun h => absurd h (h2 op).2⟩
  cases trans_of_step h with
  | @writeStart op f hpc =>
      refine ⟨rfl, fun op' hop => ?_⟩
      obtain rfl : op = op' := by simpa using hop
      exact hl.fits op (Or.inl hpc)
  | @locked op hpc =>
      obtain ⟨w, heq, hw⟩ := locked_of_fits (hl.fits op (Or.inr hpc))
      rw [heq] at hidle ⊢
      refine hidle rfl fun op' => ?_
      obtain ⟨data, hw⟩ | hw := hw <;> simp [hw]
  | create hpc => exact absurd (hl.flow.creating _ _ hpc) hl.key
  | notifyLock => exact hidle rfl (by simp [System.notifyLock])
  | notifyUnlock | memcpy | writeEnd | release => exact hidle rfl (by simp)
  | @commit num next | @commitNone num next => exact hidle rfl (by cases next <;> simp [Writer.Next.pc])
  | notifySend | server | take | cancel | attach | receiveConnect | receiveUpdate | receiveQuit
  | receiveEof | update | readStart | readEnd => exact ⟨rfl, hl.fits⟩
  | call | reset | shmResize | notifyIgnored | notifyClients | write | connect | quit | die => cases ha

/-- The mailbox of the reader does not grow. -/
theorem mailbox (hl : Leaving r s) {a : Act} (ha : Helps r a) (h : s.step a = some t) :
    (t.rd r).toSrv.length ≤ (s.rd r).toSrv.length := by
  have hset {q : ℕ} {rd : Reader} (hrd : rd.toSrv.length ≤ (s.rd q).toSrv.length) :
      (Function.update s.rd q rd r).toSrv.length ≤ (s.rd r).toSrv.length :=
    rel_update (P := fun a b => b.toSrv.length ≤ a.toSrv.length) (fun _ => le_rfl) hrd r
  cases trans_of_step h with
  | @locked op hpc =>
      obtain ⟨w, key, heq, -⟩ := s.locked_eq op
      rw [heq]
  | receiveConnect hr hd hpc hm =>
      -- the connect message was read before
      obtain rfl : _ = r := ha
      have hpos := hl.acc.base.acked _ (Or.inr (Or.inl hl.connected))
      exact absurd (hl.acc.base.rcvd_of_connect hm) (Nat.pos_iff_ne_zero.1 hpos)
  | take => exact hset (by simp)
  | attach | receiveUpdate | receiveQuit | receiveEof | update | readStart | readEnd => exact hset le_rfl
  | quit | die => cases ha
  | _ => exact le_rfl

/-- **The steps that help keep all this.** -/
theorem step (hl : Leaving r s) {a : Act} (ha : Helps r a) (h : s.step a = some t) : Leaving r t where
  acc := hl.acc.step (by cases a <;> first | rfl | cases ha) h
  mail := hl.mail.step hl.acc.base h
  flow := hl.flow.step hl.mail hl.acc.base h
  key := (hl.keeps ha h).1 ▸ hl.key
  fits := (hl.keeps ha h).2
  lt := lt_of_lt_of_le hl.lt (nrd_le_of_step h)
  alive := alive_of_step h (by rintro rfl; exact ha) hl.alive
  connected := connected_of_step h hl.connected
  sent := (moves_of_step h r).quitSent hl.sent

/-- The writer goes on with a write that fits. -/
theorem exists_writer (hl : Leaving r s) (hheld : s.w.pc.held = true)
    (hlock : s.srv.pc.locked = false ∨ ∃ num next, s.w.pc = .commit num next) :
    ∃ a t, (a = .writer ∨ a = .release) ∧ s.step a = some t ∧ Advanced s t := by
  have hcreate (size : ℕ) (next : Writer.Next) : s.w.pc ≠ .create size next := fun hpc =>
    hl.key (hl.flow.creating size next hpc)
  by_cases hlocked : ∃ op, s.w.pc = .locked op
  · obtain ⟨op, hpc⟩ := hlocked
    refine ⟨.writer, s.locked op, Or.inl rfl, by simp only [System.step, writerStep, hpc], Or.inl ?_⟩
    obtain ⟨w, heq, ⟨data, hw⟩ | hw⟩ := locked_of_fits (hl.fits op (Or.inr hpc)) <;>
      simp [heq, hw, hpc]
  · exact hl.flow.exists_writer hl.acc hheld (fun op hpc => hlocked ⟨op, hpc⟩) hcreate hlock

theorem within_step {n : ℕ} (hl : Within r n s) {a : Act} (ha : Helps r a) (h : s.step a = some t) :
    Within r n t := ⟨hl.1.step ha h, (hl.1.mailbox ha h).trans hl.2⟩

/-- **The writer finishes its write and the serving thread its loop.** -/
theorem settles {n : ℕ} (hl : Within r n s) :
    ∃ as t, exec (restrict System.step fun _ => Helps r) s as = some t ∧ Within r n t ∧ Settled t := by
  refine exec_of_rank (fun s => toLex (s.w.pc.phase, toLex (s.srv.rank, s.unsent))) (fun s hl hns => ?_) hl
  have hw (h : s.w.pc.held = true)
      (hlock : s.srv.pc.locked = false ∨ ∃ num next, s.w.pc = .commit num next) :
      ∃ a t, restrict System.step (fun _ => Helps r) s a = some t ∧ Within r n t ∧
        toLex (t.w.pc.phase, toLex (t.srv.rank, t.unsent)) <
          toLex (s.w.pc.phase, toLex (s.srv.rank, s.unsent)) := by
    obtain ⟨a, t, ha, hst, hadv⟩ := hl.1.exists_writer h hlock
    have hhelps : Helps r a := by rcases ha with rfl | rfl <;> trivial
    refine ⟨a, t, restrict_eq_some.2 ⟨hhelps, hst⟩, within_step hl hhelps hst, ?_⟩
    rcases hadv with hlt | ⟨h1, h2, hlt⟩
    · exact Prod.Lex.left _ _ hlt
    · rw [h1, h2]
      exact Prod.Lex.right _ (Prod.Lex.right _ hlt)
  by_cases hpc : s.srv.pc = .top ∨ s.srv.pc = .select
  · refine hw ?_ (Or.inl (by rcases hpc with h | h <;> simp [h]))
    by_contra hh
    exact hns ⟨Bool.not_eq_true _ ▸ hh, hpc⟩
  · rw [not_or] at hpc
    by_cases hlock : s.srv.pc = .lock → s.srv.notify = none
    · rcases hl.1.flow.exists_server hl.1.acc hpc.1 hpc.2 hlock with ⟨ev, t, hst⟩ | ⟨num, next, hcommit⟩
      · refine ⟨.server ev, t, restrict_eq_some.2 ⟨trivial, hst⟩, within_step hl (a := .server ev) trivial hst, ?_⟩
        obtain ⟨hwr, hsrv⟩ := server_of_step hst
        rw [hwr]
        exact Prod.Lex.right _ (Prod.Lex.left _ _ (Server.rank_lt_of_step hsrv hpc.1 hpc.2))
      · exact hw (by rw [hcommit]; rfl) (Or.inr ⟨num, next, hcommit⟩)
    · -- the mutex is held by `notify_update`
      rw [Classical.not_imp] at hlock
      obtain ⟨next, h⟩ := hl.1.flow.notifying hlock.2
      exact hw (by rw [h]; rfl) (Or.inl (by simp [hlock.1]))

/-- **The reader deals with its updates** while nobody writes. -/
theorem drains {n : ℕ} (hl : Within r n s) (hs : Settled s) :
    ∃ as t, exec (restrict System.step fun _ => Helps r) s as = some t ∧
      (Within r n t ∧ Settled t) ∧ Drained r t := by
  refine exec_of_rank (fun s => s.backlog r) (fun s ⟨hl, hs⟩ hnd => ?_) ⟨hl, hs⟩
  obtain ⟨t, hst, hw, hsrv, hlt⟩ := hl.1.acc.exists_reader hs.1 ⟨hl.1.lt, hl.1.alive⟩
    (fun _ => Option.isSome_iff_ne_none.2 hl.1.key) (fun hpc => hnd (Or.inl hpc)) fun hpc _ => by
      by_contra hcl
      exact hnd (Or.inr ⟨hpc, Bool.not_eq_true _ ▸ hcl⟩)
  exact ⟨.reader r, t, restrict_eq_some.2 ⟨rfl, hst⟩,
    ⟨within_step hl (a := .reader r) rfl hst, by rw [Settled, hw, hsrv]; exact hs⟩, hlt⟩

/-- A reader that is still connected is listed, and its mailbox is not empty. -/
theorem listed (hl : Leaving r s) (hs : Settled s) (ho : (s.rd r).isOpen = true)
    (hcl : s.srv.closed r = false) : (s.rd r).toSrv ≠ [] ∧
      ∃ fd, s.srv.conn fd = some r ∧ (fd ∈ s.srv.clients ∨ fd ∈ s.srv.pendingClients) := by
  have hne : ¬ s.srv.closed r = true := by rw [hcl]; exact Bool.false_ne_true
  constructor
  · rcases hl.flow.asked.quit r hl.sent with h | h | ⟨it, todo, h, -⟩
    · exact List.ne_nil_of_mem h
    · exact absurd h hne
    · rcases hs.2 with hpc | hpc <;> rw [hpc] at h <;> rcases h with h | h <;> cases h
  · have hout : s.srv.out r ≠ [] := by
      have hpos := hl.acc.base.acked r (Or.inr (Or.inl hl.connected))
      have hle := hl.acc.base.rcvd r
      exact List.ne_nil_of_length_pos (lt_of_lt_of_le hpos hle)
    rcases hl.flow.asked.waits r ho hout with hack | h | ⟨fd, hp, -, hc⟩
    · rcases hl.mail.closes.kept r hack with h | ⟨fd, hfd, hc⟩
      · exact absurd h hne
      · exact ⟨fd, hc, Or.inl hfd⟩
    · exact absurd h hne
    · exact ⟨fd, hc, Or.inr hp⟩

/-- The serving thread is on its way to a descriptor that has something to read. -/
structure Heading (r fd : ℕ) (s : System) : Prop where
  idle : s.w.pc.held = false
  isOpen : (s.rd r).isOpen = true
  scan : fd ∈ s.srv.toScan
  rset : fd ∈ s.srv.rset
  conn : s.srv.conn fd = some r
  lock : s.srv.pc = .lock → s.srv.listening = false

/-- A step of the serving thread takes the message, or comes closer to it. -/
theorem heading_step (hl : Leaving r s) {fd : ℕ} (hh : Heading r fd s) {ev : Server.Ev}
    (h : s.step (.server ev) = some t) :
    (t.rd r).toSrv.length < (s.rd r).toSrv.length ∨ Heading r fd t := by
  have hlists := hl.acc.base.wf.lists
  obtain ⟨hw, hsrv⟩ := server_of_step h
  have hsel : s.srv.pc ≠ .select := by
    intro hpc
    have hscan := hh.scan
    rw [Server.toScan, hpc] at hscan
    cases hscan
  -- the thread does not come to the descriptor in this step
  have hkeep (hrd : (t.rd r).isOpen = (s.rd r).isOpen)
      (hne : ∀ it todo, s.srv.pc = .clients (it :: todo) ∨ s.srv.pc = .pending (it :: todo) → fd ≠ it) :
      Heading r fd t := by
    have hscan := Server.toScan_kept hsrv hh.scan hh.lock hne
    rcases Server.toScan_of_step hlists hsrv hscan with ⟨rset, listening, rfl, -⟩ | ⟨-, hrset, hconn, -⟩
    · exact absurd (Server.select_of_selected hsrv) hsel
    · exact
        { idle := hw ▸ hh.idle
          isOpen := hrd.trans hh.isOpen
          scan := hscan
          rset := hrset ▸ hh.rset
          conn := hconn.trans hh.conn
          lock := fun hpc => absurd (Server.select_of_lock hsrv hpc) hsel }
  cases trans_of_step h with
  | cancel hpc hf hsrv =>
      exact Or.inr (hkeep rfl fun it todo h => by rw [hpc] at h; rcases h with h | h <;> cases h)
  | @take it todo q srv hpc hc hd hsrv =>
      by_cases hq : r = q
      · subst hq
        refine Or.inl ?_
        simp only [Function.update_self, taken_toSrv, List.length_tail]
        exact Nat.sub_lt (List.length_pos_of_ne_nil (toSrv_ne_nil_of_readRes hd)) Nat.one_pos
      · refine Or.inr (hkeep (congrArg Reader.isOpen (Function.update_of_ne hq ..)) fun it' todo' h => ?_)
        rintro rfl
        have hit : it = fd := by
          rcases hpc with hpc | hpc <;> rw [hpc] at h <;> rcases h with h | h <;> cases h <;> rfl
        rw [hit] at hc
        exact hq (Option.some.inj (hh.conn.symm.trans hc))
  | @server ev srv hk hsrv hs =>
      refine Or.inr (hkeep rfl fun it todo hpc => ?_)
      rintro rfl
      -- what the descriptor has to read is a message
      obtain ⟨res, rfl⟩ := Server.read_of_head hsrv hpc hh.rset
      have hres : s.readRes r = some res := by
        rcases hpc with hpc | hpc <;> simpa [kernel, hpc, hh.conn] using hk
      cases res with
      | error =>
          have ho := (readRes_error_iff.1 hres).1
          rw [hh.isOpen] at ho
          cases ho
      | eof =>
          have ho := (of_readRes_eof hres).1
          rw [hh.isOpen] at ho
          cases ho
      | data => cases hs

/-- The serving thread gets to the message that it is heading for. -/
theorem reached (hl : Leaving r s) {fd n : ℕ} (hh : Heading r fd s) (hn : (s.rd r).toSrv.length ≤ n) :
    ∃ as t, exec (restrict System.step fun _ => Helps r) s as = some t ∧
      (Within r n t ∧ ((t.rd r).toSrv.length < n ∨ Heading r fd t)) ∧ (t.rd r).toSrv.length < n := by
  refine exec_of_rank (fun s => s.srv.rank) (fun s ⟨hl, hh⟩ hnq => ?_) ⟨⟨hl, hn⟩, Or.inr hh⟩
  have hh := hh.resolve_left hnq
  have hpc : s.srv.pc ≠ .top ∧ s.srv.pc ≠ .select := by
    constructor <;> intro hpc <;> have hscan := hh.scan <;> rw [Server.toScan, hpc] at hscan <;> cases hscan
  have hnot : s.srv.notify = none := by
    by_contra hne
    obtain ⟨next, hw⟩ := hl.1.flow.notifying hne
    have hidle := hh.idle
    rw [hw] at hidle
    cases hidle
  rcases hl.1.flow.exists_server hl.1.acc hpc.1 hpc.2 fun _ => hnot with ⟨ev, t, hst⟩ | ⟨num, next, hw⟩
  · refine ⟨.server ev, t, restrict_eq_some.2 ⟨trivial, hst⟩,
      ⟨within_step hl (a := .server ev) trivial hst, ?_⟩,
      Server.rank_lt_of_step (server_of_step hst).2 hpc.1 hpc.2⟩
    exact (heading_step hl.1 hh hst).imp_left fun h => lt_of_lt_of_le h hl.2
  · have hidle := hh.idle
    rw [hw] at hidle
    cases hidle

/-- **The server takes a message of a reader that is still connected.** -/
theorem served (hl : Leaving r s) (hs : Settled s) (ho : (s.rd r).isOpen = true)
    (hcl : s.srv.closed r = false) :
    ∃ as t, exec (restrict System.step fun _ => Helps r) s as = some t ∧ Leaving r t ∧
      (t.rd r).toSrv.length < (s.rd r).toSrv.length := by
  obtain ⟨hne, fd, hc, hlist⟩ := hl.listed hs ho hcl
  obtain ⟨as, hrun⟩ := hl.flow.exists_reported (fun _ => Helps r) (fun _ _ => trivial) hs.2 hc hlist
    (readRes_isSome.2 fun _ => hne)
  have hlu := exec_invariant
    (fun s a t (hs : Leaving r s) hst => hs.step (restrict_eq_some.1 hst).1 (restrict_eq_some.1 hst).2) hrun hl
  have hheading : Heading r fd
      { s with srv := { s.srv with rset := [fd], listening := false, pc := .lock } } :=
    { idle := hs.1
      isOpen := ho
      scan := List.mem_append.2 hlist
      rset := List.mem_singleton.2 rfl
      conn := hc
      lock := fun _ => rfl }
  obtain ⟨bs, t, hbs, ⟨⟨hlt, -⟩, -⟩, hless⟩ := hlu.reached hheading (n := (s.rd r).toSrv.length) le_rfl
  exact ⟨as ++ bs, t, exec_append_eq_some.2 ⟨_, hrun, hbs⟩, hlt, hless⟩

/-- **A reader that has asked to quit gets away**: some steps of the writer, of the server and of the reader
lead to the end of its client thread. -/
theorem closes (hl : Leaving r s) : ∃ as t, exec (restrict System.step fun _ => Helps r) s as = some t ∧
    Leaving r t ∧ (t.rd r).pc = .closed := by
  induction hn : (s.rd r).toSrv.length using Nat.strong_induction_on generalizing s with
  | _ n ih =>
      obtain ⟨as, u, hu, hlu, hsu⟩ := settles (n := n) ⟨hl, hn.le⟩
      obtain ⟨bs, v, hv, ⟨hlv, hsv⟩, hdrained⟩ := drains hlu hsu
      have hrun : exec (restrict System.step fun _ => Helps r) s (as ++ bs) = some v :=
        exec_append_eq_some.2 ⟨u, hu, hv⟩
      rcases hdrained with hpc | ⟨hpc, hcl⟩
      · exact ⟨_, v, hrun, hlv.1, hpc⟩
      · have ho : (v.rd r).isOpen = true := Reader.isOpen_iff.2 ⟨hlv.1.alive, by simp [hpc]⟩
        obtain ⟨cs, x, hx, hlx, hless⟩ := hlv.1.served hsv ho hcl
        obtain ⟨ds, t, ht, hlt, hclosed⟩ := ih _ (lt_of_lt_of_le hless hlv.2) hlx rfl
        exact ⟨_, t, exec_append_eq_some.2 ⟨v, hrun, exec_append_eq_some.2 ⟨x, hx, ht⟩⟩, hlt, hclosed⟩

end Leaving

end System

end Shmdata

/-
**The system comes to rest.**

A call of the writer may have to wait for the readers of the frame before, for the mutex of the server, and for
nothing else; a reader waits for the writer's lock, and the server waits for the writer's commit when it gives
back the read of a reader that has died.  In the runs where no reader dies inside its callback these waits are no
deadlock, and the reset thread of the `WriteLock` is not needed: from every state the threads have steps of their
own after which the call has returned.  If it does not leave the user with a write access, these steps go on until
every live reader has dealt with all of its updates, and the reads of the dead ones were given back.

Main definitions:

* `Shmdata.System.Own` — the steps that the threads take by themselves;
* `Shmdata.System.Going` — the invariant;
* `Shmdata.System.Failing` — the serving thread is on its way to a dead reader.

Main results:

* `Shmdata.System.Going.returns` — a write goes on to its end;
* `Shmdata.System.Going.lowers` — a read that is outstanding is released or given back;
* `Shmdata.System.comes_to_rest` — **from every state the threads come to rest**.
-/

import Shmdata.Delivery
import Shmdata.Progress

set_option relaxedAutoImplicit false
set_option autoImplicit false

namespace Shmdata

/-- The parts of a write that are left, with a segment to be created. -/
@[simp] def Writer.Pc.left : Writer.Pc → ℕ
  | .locked _ => 7
  | .create _ _ => 6
  | pc => pc.phase

theorem Writer.Pc.left_eq_phase {pc : Writer.Pc} (h : pc.phase ≤ 5) : pc.left = pc.phase := by
  cases pc with
  | locked | create => simp at h
  | _ => rfl

namespace System

open SysV Semops Runs

variable {s t : System} {r : ℕ}

/-- The next step of the call of the writer, of the serving thread, or of the client thread of a reader. -/
def Own : Act → Prop
  | .writer | .server _ | .reader _ => True
  | _ => False

instance (a : Act) : Decidable (Own a) :=
  match a with
  | .writer | .server _ | .reader _ => inferInstanceAs (Decidable True)
  | .call _ | .reset | .shmResize _ | .notifyClients _ | .write _ | .release | .connect | .quit _
  | .die _ => inferInstanceAs (Decidable False)

/-- The call of the writer has returned. -/
def Returned (s : System) : Prop := s.w.pc = .idle ∨ s.w.pc = .access

/-- The invariant of the runs in which nobody dies inside its callback. -/
structure Going (s : System) : Prop where
  crash : Crash s
  flow : Flow s
  attach : ∀ r, (s.rd r).pc = .attach → (s.rd r).rcvd = 0

theorem going_init (lfd memsize : ℕ) : Going (init lfd memsize) where
  crash := crash_init lfd memsize
  flow := flow_init lfd memsize
  attach := by simp [init, Reader.init]

namespace Going

theorem step {a : Act} (hg : Going s) (ha : Tidy s a) (h : s.step a = some t) : Going t where
  crash := hg.crash.step ha h
  flow := hg.flow.step hg.crash.mail hg.crash.acc.base h
  attach := Delivers.attach_of_step hg.attach h

/-- The threads' own steps belong to such a run. -/
theorem own {a : Act} (hg : Going s) (ha : Own a) (h : s.step a = some t) : Going t := by
  refine hg.step ?_ h
  cases a with
  | writer | server | reader => trivial
  | _ => exact absurd ha not_false

/-! ### The writer -/

/-- The first step under the lock, or the creation of a segment. -/
theorem exists_segment (h : (∃ op, s.w.pc = .locked op) ∨ ∃ size next, s.w.pc = .create size next) :
    ∃ t, s.step .writer = some t ∧ t.w.pc.left < s.w.pc.left := by
  rcases h with ⟨op, hpc⟩ | ⟨size, next, hpc⟩
  · refine ⟨s.locked op, by simp only [System.step, writerStep, hpc], ?_⟩
    obtain ⟨w, key, heq, ⟨size, next, hw⟩ | ⟨data, hw⟩ | hw⟩ := s.locked_eq op <;> simp [heq, hw, hpc]
  · refine ⟨s.createSegment size next, by simp only [System.step, writerStep, hpc], ?_⟩
    cases next <;> simp [createSegment, hpc]

/-- The lock is given back at the end of the call. -/
theorem held_of_writer (h : s.step .writer = some t) (hheld : s.w.pc.held = true) :
    t.w.pc.held = true ∨ Returned t := by
  cases trans_of_step h with
  | writeStart hpc => simp [hpc] at hheld
  | @locked op =>
      obtain ⟨w, key, heq, ⟨size, next, hw⟩ | ⟨data, hw⟩ | hw⟩ := s.locked_eq op <;> simp [heq, hw]
  | @create size next => cases next <;> exact Or.inl rfl
  | @commit num next | @commitNone num next => cases next <;> exact Or.inl rfl
  | notifySend hpc => exact Or.inl (by simp [hpc])
  | writeEnd => exact Or.inr (Or.inl rfl)
  | notifyLock | notifyUnlock | memcpy => exact Or.inl rfl

/-- The writer comes closer to the return of its call. -/
theorem exists_writer (hg : Going s) (hheld : s.w.pc.held = true) (hnr : ¬ Returned s)
    (hlock : s.srv.pc.locked = false ∨ ∃ num next, s.w.pc = .commit num next) :
    ∃ t, s.step .writer = some t ∧ toLex (t.w.pc.left, toLex (t.srv.rank, t.unsent)) <
      toLex (s.w.pc.left, toLex (s.srv.rank, s.unsent)) := by
  by_cases hseg : (∃ op, s.w.pc = .locked op) ∨ ∃ size next, s.w.pc = .create size next
  · obtain ⟨t, hst, hlt⟩ := exists_segment hseg
    exact ⟨t, hst, Prod.Lex.left _ _ hlt⟩
  · rw [not_or] at hseg
    obtain ⟨a, t, ha, hst, hadv⟩ := hg.flow.exists_writer hg.crash.acc hheld (fun op h => hseg.1 ⟨op, h⟩)
      (fun size next h => hseg.2 ⟨size, next, h⟩) hlock
    rcases ha with rfl | rfl
    · have hs : s.w.pc.phase ≤ 5 := by
        cases hpc : s.w.pc with
        | locked op => exact absurd ⟨op, hpc⟩ hseg.1
        | create size next => exact absurd ⟨size, next, hpc⟩ hseg.2
        | _ => simp
      refine ⟨t, hst, ?_⟩
      rw [Writer.Pc.left_eq_phase hs]
      rcases hadv with hlt | ⟨heq, hrank, hlt⟩
      · rw [Writer.Pc.left_eq_phase (hlt.le.trans hs)]
        exact Prod.Lex.left _ _ hlt
      · rw [Writer.Pc.left_eq_phase (heq.le.trans hs), heq, hrank]
        exact Prod.Lex.right _ (Prod.Lex.right _ hlt)
    · cases trans_of_step hst with
      | release hpc => exact absurd (Or.inr hpc) hnr

/-- **A write goes on to its end**: to the return of the call. -/
theorem returns (hg : Going s) (hheld : s.w.pc.held = true) :
    ∃ as t, exec (restrict System.step fun _ => Own) s as = some t ∧ Going t ∧ Returned t := by
  have hrun : ∃ as t, exec (restrict System.step fun _ => Own) s as = some t ∧
      (Going t ∧ (t.w.pc.held = true ∨ Returned t)) ∧ Returned t := by
    refine exec_of_rank (fun s => toLex (s.w.pc.left, toLex (s.srv.rank, s.unsent)))
      (fun s ⟨hg, hheld⟩ hnr => ?_) ⟨hg, Or.inl hheld⟩
    have hheld := hheld.resolve_right hnr
    have hw (hlock : s.srv.pc.locked = false ∨ ∃ num next, s.w.pc = .commit num next) :
        ∃ a t, restrict System.step (fun _ => Own) s a = some t ∧
          (Going t ∧ (t.w.pc.held = true ∨ Returned t)) ∧
          toLex (t.w.pc.left, toLex (t.srv.rank, t.unsent)) <
            toLex (s.w.pc.left, toLex (s.srv.rank, s.unsent)) := by
      obtain ⟨t, hst, hlt⟩ := hg.exists_writer hheld hnr hlock
      exact ⟨.writer, t, restrict_eq_some.2 ⟨trivial, hst⟩,
        ⟨hg.own (a := .writer) trivial hst, held_of_writer hst hheld⟩, hlt⟩
    by_cases hpc : s.srv.pc = .top ∨ s.srv.pc = .select
    · exact hw (Or.inl (by rcases hpc with h | h <;> simp [h]))
    · rw [not_or] at hpc
      by_cases hlock : s.srv.pc = .lock → s.srv.notify = none
      · rcases hg.flow.exists_server hg.crash.acc hpc.1 hpc.2 hlock with ⟨ev, t, hst⟩ | hcommit
        · obtain ⟨hwr, hsrv⟩ := server_of_step hst
          refine ⟨.server ev, t, restrict_eq_some.2 ⟨trivial, hst⟩,
            ⟨hg.own (a := .server ev) trivial hst, Or.inl (hwr ▸ hheld)⟩, ?_⟩
          rw [hwr]
          exact Prod.Lex.right _ (Prod.Lex.left _ _ (Server.rank_lt_of_step hsrv hpc.1 hpc.2))
        · exact hw (Or.inr hcommit)
      · -- the mutex is held by `notify_update`
        rw [Classical.not_imp] at hlock
        exact hw (Or.inl (by simp [hlock.1]))
  obtain ⟨as, t, h, ⟨hgt, -⟩, hret⟩ := hrun
  exact ⟨as, t, h, hgt, hret⟩

end Going

/-! ### While nobody writes -/

/-- No write is under way, and at most `n` reads are outstanding. -/
structure Quiet (w : Writer) (n : ℕ) (s : System) : Prop where
  going : Going s
  writer : s.w = w
  held : w.pc.held = false
  le : s.sem 0 ≤ n

/-- The serving thread and the readers take nothing from semaphore `0` but what is outstanding. -/
theorem sem_le_of_step {a : Act} (ha : a ≠ .writer) (hown : Own a) (h : s.step a = some t) :
    t.w = s.w ∧ t.sem 0 ≤ s.sem 0 := by
  cases trans_of_step h with
  | cancel hpc hf | readEnd hr hd hpc hf =>
      obtain ⟨-, rfl⟩ := readEnd_eq_ok.1 hf
      refine ⟨rfl, ?_⟩
      show Function.update s.sem 0 (s.sem 0 - 1) 0 ≤ s.sem 0
      rw [Function.update_self]
      exact Nat.sub_le _ _
  | server | take | attach | receiveConnect | receiveUpdate | receiveQuit | receiveEof | update | readStart =>
      exact ⟨rfl, le_rfl⟩
  | call | reset | shmResize | notifyIgnored | notifyClients | write | release | connect | quit | die =>
      exact absurd hown not_false
  | _ => exact absurd rfl ha

namespace Quiet

variable {w : Writer} {n : ℕ}

theorem own (hq : Quiet w n s) {a : Act} (ha : a ≠ .writer) (hown : Own a) (h : s.step a = some t) :
    Quiet w n t := by
  obtain ⟨hw, hle⟩ := sem_le_of_step ha hown h
  exact ⟨hq.going.own hown h, hw.trans hq.writer, hq.held, hle.trans hq.le⟩

/-- The serving thread does not wait for the writer. -/
theorem exists_server (hq : Quiet w n s) (htop : s.srv.pc ≠ .top) (hsel : s.srv.pc ≠ .select) :
    ∃ ev t, s.step (.server ev) = some t ∧ Quiet w n t ∧ t.srv.rank < s.srv.rank := by
  have hpc {pc : Writer.Pc} (h : s.w.pc = pc) (hheld : pc.held = true) : False := by
    have := hq.held
    rw [← hq.writer, h, hheld] at this
    cases this
  have hlock : s.srv.pc = .lock → s.srv.notify = none := fun _ => by
    by_contra hne
    obtain ⟨next, h⟩ := hq.going.flow.notifying hne
    exact hpc h rfl
  rcases hq.going.flow.exists_server hq.going.crash.acc htop hsel hlock with ⟨ev, t, hst⟩ | ⟨num, next, h⟩
  · exact ⟨ev, t, hst, hq.own (a := .server ev) (by simp) trivial hst,
      Server.rank_lt_of_step (server_of_step hst).2 htop hsel⟩
  · exact (hpc h rfl).elim

/-- The serving thread gets back to `select`. -/
theorem settles (hq : Quiet w n s) : ∃ as t, exec (restrict System.step fun _ => Own) s as = some t ∧
    Quiet w n t ∧ (t.srv.pc = .top ∨ t.srv.pc = .select) := by
  refine exec_of_rank (fun s => s.srv.rank) (fun s hq hns => ?_) hq
  rw [not_or] at hns
  obtain ⟨ev, t, hst, hqt, hlt⟩ := hq.exists_server hns.1 hns.2
  exact ⟨.server ev, t, restrict_eq_some.2 ⟨trivial, hst⟩, hqt, hlt⟩

end Quiet

/-- What semaphore `0` counts without a write is the reads of some reader. -/
theorem Acc.exists_outstanding (ha : Acc s) (h1 : s.sem 1 = 0) (hpos : 0 < s.sem 0) :
    ∃ r < s.nrd, s.cancelled r < s.load r := by
  by_contra hne
  simp only [not_exists, not_and, not_lt] at hne
  have hterm (q : ℕ) (hq : q ∈ Finset.range s.nrd) : s.committed q ≤ s.released q + s.cancelled q := by
    have hs := ha.base.sent q
    have ht := ha.base.taken q
    have hload := hne q (Finset.mem_range.1 hq)
    omega
  have hsum := Finset.sum_le_sum hterm
  have hdebt := ha.debt
  rw [Finset.sum_add_distrib] at hsum
  rw [System.debt, h1] at hdebt
  omega

/-! ### A live reader -/

/-- A step of a reader releases a read, or leaves it its updates. -/
theorem load_of_reader (h : s.step (.reader r) = some t) : t.sem 0 < s.sem 0 ∨ t.load r = s.load r := by
  have hset {rd : Reader} {n : ℕ} (hbusy : rd.pc.busy + n = (s.rd r).pc.busy + s.unread r)
      (hn : ((s.srv.out r).drop rd.rcvd).countP SrvMsg.isUpdate = n) : (s.setRd r rd).load r = s.load r := by
    have hrd : (s.setRd r rd).rd r = rd := Function.update_self ..
    rw [load, load, unread, hrd]
    exact hn ▸ hbusy
  have hdrop {m : SrvMsg ℕ} (hm : (s.srv.out r)[(s.rd r).rcvd]? = some m) :
      s.unread r = ((s.srv.out r).drop ((s.rd r).rcvd + 1)).countP SrvMsg.isUpdate +
        if m.isUpdate then 1 else 0 := by
    rw [unread, (Base.drop_eq hm).2, List.countP_cons]
  cases trans_of_step h with
  | attach hr hd hpc | receiveEof hr hd hpc | update hr hd hpc | readStart hr hd hpc =>
      exact Or.inr (hset (by rw [hpc]; rfl) rfl)
  | receiveConnect hr hd hpc hm | receiveUpdate hr hd hpc hm | receiveQuit hr hd hpc hm =>
      refine Or.inr (hset ?_ rfl)
      rw [hdrop hm]
      simp [hpc, Nat.add_comm]
  | readEnd hr hd hpc hf =>
      obtain ⟨hle, rfl⟩ := readEnd_eq_ok.1 hf
      refine Or.inl ?_
      show Function.update s.sem 0 (s.sem 0 - 1) 0 < s.sem 0
      rw [Function.update_self]
      omega

/-- A live reader that has an update to deal with can move. -/
theorem Going.exists_reader (hg : Going s) (hheld : s.w.pc.held = false)
    (hr : r < s.nrd ∧ (s.rd r).dead = false) (hload : 0 < s.load r) :
    ∃ t, s.step (.reader r) = some t ∧ t.backlog r < s.backlog r := by
  have hunread (hbusy : (s.rd r).pc.busy = 0) : 0 < s.unread r := by
    rw [System.load, hbusy, Nat.zero_add] at hload
    exact hload
  have hread (hbusy : (s.rd r).pc.busy = 0) : (s.rd r).rcvd < (s.srv.out r).length := by
    by_contra hle
    have hpos := hunread hbusy
    rw [unread, List.drop_eq_nil_iff.2 (not_lt.1 hle)] at hpos
    exact absurd hpos (lt_irrefl _)
  have hbase := hg.crash.acc.base
  -- an update is sent to a client only, which has acknowledged the connect message
  have hkey (hpc : (s.rd r).pc = .attach) : s.key.isSome = true := by
    obtain ⟨m, hm, hu⟩ := List.countP_pos_iff.1 (hunread (by rw [hpc]; rfl))
    cases m with
    | update size =>
        have hpos := hbase.acked r (Or.inl (hbase.wf.streams.acked r size (List.mem_of_mem_drop hm)))
        rw [hg.attach r hpc] at hpos
        exact absurd hpos (lt_irrefl _)
    | connect | quit => cases hu
  have hclosed : (s.rd r).pc ≠ .closed := fun hpc => by
    have hlt := hread (by rw [hpc]; rfl)
    rw [hbase.closed r hpc] at hlt
    exact absurd hlt (lt_irrefl _)
  obtain ⟨t, hst, -, -, hlt⟩ := hg.crash.acc.exists_reader hheld hr hkey hclosed fun hpc hm =>
    absurd (hread (by rw [hpc]; rfl)) (not_lt.2 (List.getElem?_eq_none_iff.1 hm))
  exact ⟨t, hst, hlt⟩

namespace Quiet

variable {w : Writer} {n : ℕ}

/-- A live reader that has an update to deal with releases its read. -/
theorem releases (hq : Quiet w n s) (hr : r < s.nrd) (hd : (s.rd r).dead = false) (hload : 0 < s.load r) :
    ∃ as t, exec (restrict System.step fun _ => Own) s as = some t ∧ Quiet w n t ∧ t.sem 0 < n := by
  have hrun : ∃ as t, exec (restrict System.step fun _ => Own) s as = some t ∧
      (Quiet w n t ∧ (r < t.nrd ∧ (t.rd r).dead = false) ∧ (t.sem 0 < n ∨ 0 < t.load r)) ∧ t.sem 0 < n := by
    refine exec_of_rank (fun s => s.backlog r) (fun s ⟨hq, hr, hload⟩ hns => ?_) ⟨hq, ⟨hr, hd⟩, Or.inr hload⟩
    have hload := hload.resolve_left hns
    obtain ⟨t, hst, hlt⟩ := hq.going.exists_reader (hq.writer ▸ hq.held) hr hload
    refine ⟨.reader r, t, restrict_eq_some.2 ⟨trivial, hst⟩,
      ⟨hq.own (a := .reader r) (by simp) trivial hst,
        ⟨lt_of_lt_of_le hr.1 (nrd_le_of_step hst), alive_of_step hst (by simp) hr.2⟩, ?_⟩, hlt⟩
    rcases load_of_reader hst with hlt | heq
    · exact Or.inl (lt_of_lt_of_le hlt hq.le)
    · exact Or.inr (heq.symm ▸ hload)
  obtain ⟨as, t, h, ⟨hqt, -⟩, hlt⟩ := hrun
  exact ⟨as, t, h, hqt, hlt⟩

end Quiet

/-! ### A dead reader -/

/-- The serving thread is on its way to the socket of a dead reader that has left an update unread, or about to
give back its read. -/
structure Failing (r fd : ℕ) (s : System) : Prop where
  dead : (s.rd r).dead = true
  acked : s.srv.acked r = true
  unread : 0 < s.unread r
  conn : s.srv.conn fd = some r
  place : (fd ∈ s.srv.toScan ∧ fd ∈ s.srv.rset ∧ (s.srv.pc = .lock → s.srv.listening = false)) ∨
    ∃ todo, s.srv.pc = .recover fd todo

namespace Failing

variable {fd : ℕ}

theorem readRes (hf : Failing r fd s) (hg : Going s) : s.readRes r = some .error := by
  refine readRes_error_iff.2 ⟨by simp [Reader.isOpen, hf.dead], ?_, hg.crash.toSrv_eq_nil hf.dead hf.acked⟩
  by_contra hle
  have hpos := hf.unread
  rw [System.unread, List.drop_eq_nil_iff.2 (not_lt.1 hle)] at hpos
  exact absurd hpos (lt_irrefl _)

/-- A step of the serving thread that does not come to the socket. -/
theorem kept (hf : Failing r fd s) (hg : Going s) {ev : Server.Ev} (h : s.step (.server ev) = some t)
    (hscan : fd ∈ s.srv.toScan) (hrset : fd ∈ s.srv.rset) (hlock : s.srv.pc = .lock → s.srv.listening = false)
    (hne : ∀ it todo, s.srv.pc = .clients (it :: todo) ∨ s.srv.pc = .pending (it :: todo) → fd ≠ it) :
    Failing r fd t := by
  have hbase := hg.crash.acc.base
  obtain ⟨-, hsrv⟩ := server_of_step h
  have hsel : s.srv.pc ≠ .select := by
    intro hpc
    rw [Server.toScan, hpc] at hscan
    cases hscan
  have hscan' := Server.toScan_kept hsrv hscan hlock hne
  rcases Server.toScan_of_step hbase.wf.lists hsrv hscan' with ⟨rset, listening, rfl, -⟩ | ⟨-, hr, hc, -⟩
  · exact absurd (Server.select_of_selected hsrv) hsel
  · exact
      { dead := ((moves_of_step h r).dead hf.dead).1
        acked := Server.acked_of_step hsrv hf.acked
        unread := (unread_of_dead hbase h hf.dead).symm ▸ hf.unread
        conn := hc.trans hf.conn
        place := Or.inl ⟨hscan', hr ▸ hrset, fun hpc => absurd (Server.select_of_lock hsrv hpc) hsel⟩ }

/-- The serving thread gives back a read, or comes closer to it. -/
theorem step (hf : Failing r fd s) (hg : Going s) {ev : Server.Ev} (h : s.step (.server ev) = some t) :
    t.sem 0 < s.sem 0 ∨ Failing r fd t := by
  have hacc := hg.crash.acc
  have hlists := hacc.base.wf.lists
  cases trans_of_step h with
  | cancel hpc hsem =>
      obtain ⟨hle, rfl⟩ := readEnd_eq_ok.1 hsem
      refine Or.inl ?_
      show Function.update s.sem 0 (s.sem 0 - 1) 0 < s.sem 0
      rw [Function.update_self]
      omega
  | @take it todo q srv hpc hc hd =>
      rcases hf.place with ⟨hscan, hrset, hlock⟩ | ⟨todo', hrec⟩
      · refine Or.inr (hf.kept hg h hscan hrset hlock fun it' todo' h' => ?_)
        rintro rfl
        have hit : it = fd := by
          rcases hpc with hpc | hpc <;> rw [hpc] at h' <;> rcases h' with h' | h' <;> cases h' <;> rfl
        rw [hit, hf.conn] at hc
        rw [← Option.some.inj hc, hf.readRes hg] at hd
        cases hd
      · rcases hpc with hpc | hpc <;> rw [hpc] at hrec <;> cases hrec
  | @server ev srv hk hsrv hs =>
      rcases hf.place with ⟨hscan, hrset, hlock⟩ | ⟨todo, hrec⟩
      · by_cases hne : ∀ it todo, s.srv.pc = .clients (it :: todo) ∨ s.srv.pc = .pending (it :: todo) → fd ≠ it
        · exact Or.inr (hf.kept hg h hscan hrset hlock hne)
        · simp only [not_forall, not_not] at hne
          obtain ⟨it, todo, hpc, rfl⟩ := hne
          obtain ⟨res, rfl⟩ := Server.read_of_head hsrv hpc hrset
          have hres : s.readRes r = some res := by
            rcases hpc with hpc | hpc <;> simpa [kernel, hpc, hf.conn] using hk
          obtain rfl := Option.some.inj ((hf.readRes hg).symm.trans hres)
          rcases hpc with hpc | hpc
          · -- the update that was left unread is one of the current frame
            have hnot := (Crash.mem_clientsNotified hacc hf.conn (by simp [hpc]) hf.unread).2
            cases Server.trans_of_step hsrv with
            | @readError it' todo' hpc' =>
                obtain ⟨rfl, rfl⟩ : fd = it' ∧ todo = todo' := by simpa [hpc] using hpc'
                exact Or.inr ⟨hf.dead, hf.acked, hf.unread, hf.conn, Or.inr ⟨todo, if_pos hnot⟩⟩
            | ackError hpc' => rw [hpc] at hpc'; cases hpc'
          · -- a client is not pending
            obtain ⟨hmem, hrm⟩ := hlists.pend_head (i := fd) (l := todo) (by simp [hpc])
            have hack := (hacc.base.wf.streams.waiting fd r ⟨hmem, hrm, hf.conn⟩).2
            rw [hf.acked] at hack
            cases hack
      · cases Server.trans_of_step hsrv with
        | recovered hpc => simp [special, hpc] at hs
        | _ hpc => rw [hrec] at hpc; cases hpc

end Failing

namespace Quiet

variable {w : Writer} {n : ℕ}

/-- The read of a dead reader that has left an update unread is given back. -/
theorem givesBack (hq : Quiet w n s) (hpc : s.srv.pc = .top ∨ s.srv.pc = .select)
    (hd : (s.rd r).dead = true) (hlt : s.cancelled r < s.load r) :
    ∃ as t, exec (restrict System.step fun _ => Own) s as = some t ∧ Quiet w n t ∧ t.sem 0 < n := by
  have hcrash := hq.going.crash
  have hunread : s.cancelled r < s.unread r := by
    have hidle := (hcrash.idle r hd).1
    rwa [System.load, hidle, Nat.zero_add] at hlt
  have hpos : 0 < s.unread r := Nat.zero_lt_of_lt hunread
  have hack : s.srv.acked r = true := by
    obtain ⟨m, hm, hu⟩ := List.countP_pos_iff.1 hpos
    cases m with
    | update size => exact hcrash.acc.base.wf.streams.acked r size (List.mem_of_mem_drop hm)
    | connect | quit => cases hu
  obtain ⟨fd, hfd, hc⟩ : ∃ fd ∈ s.srv.clients, s.srv.conn fd = some r := by
    refine (hcrash.mail.closes.kept r hack).resolve_left fun hcl => ?_
    exact absurd (hcrash.settled r (Or.inl hcl) hd) (not_le.2 hunread)
  have hres : (s.readRes r).isSome = true :=
    readRes_isSome.2 fun ho => by
      rw [(Reader.isOpen_iff.1 ho).1] at hd
      cases hd
  obtain ⟨as, hrun⟩ := hq.going.flow.exists_reported (fun _ => Own) (fun _ _ => trivial) hpc hc
    (Or.inl hfd) hres
  have hgoing := exec_invariant (fun s a t (hg : Going s) hst =>
    hg.own (restrict_eq_some.1 hst).1 (restrict_eq_some.1 hst).2) hrun hq.going
  have hfailing : Failing r fd { s with srv := { s.srv with rset := [fd], listening := false, pc := .lock } } :=
    { dead := hd
      acked := hack
      unread := hpos
      conn := hc
      place := Or.inl ⟨List.mem_append_left _ hfd, List.mem_singleton.2 rfl, fun _ => rfl⟩ }
  have hreach : ∃ bs t, exec (restrict System.step fun _ => Own)
      { s with srv := { s.srv with rset := [fd], listening := false, pc := .lock } } bs = some t ∧
        (Quiet w n t ∧ (t.sem 0 < n ∨ Failing r fd t)) ∧ t.sem 0 < n := by
    refine exec_of_rank (fun s => s.srv.rank) (fun s hs hns => ?_)
      ⟨⟨hgoing, hq.writer, hq.held, hq.le⟩, Or.inr hfailing⟩
    have hq := hs.1
    have hf := hs.2.resolve_left hns
    have hpc : s.srv.pc ≠ .top ∧ s.srv.pc ≠ .select := by
      rcases hf.place with ⟨hscan, -⟩ | ⟨todo, hrec⟩
      · constructor <;> intro hpc <;> rw [Server.toScan, hpc] at hscan <;> cases hscan
      · simp [hrec]
    obtain ⟨ev, u, hst, hqu, hrank⟩ := hq.exists_server hpc.1 hpc.2
    refine ⟨.server ev, u, restrict_eq_some.2 ⟨trivial, hst⟩, ⟨hqu, ?_⟩, hrank⟩
    exact (hf.step hq.going hst).imp_left fun hlt => lt_of_lt_of_le hlt hq.le
  obtain ⟨bs, t, hbs, ⟨hqt, -⟩, hlt⟩ := hreach
  exact ⟨as ++ bs, t, exec_append_eq_some.2 ⟨_, hrun, hbs⟩, hqt, hlt⟩

/-- **A read that is outstanding is released or given back.** -/
theorem lowers (hq : Quiet w n s) (hpc : s.srv.pc = .top ∨ s.srv.pc = .select) (hpos : 0 < s.sem 0) :
    ∃ as t, exec (restrict System.step fun _ => Own) s as = some t ∧ Quiet w n t ∧
      (t.srv.pc = .top ∨ t.srv.pc = .select) ∧ t.sem 0 < s.sem 0 := by
  have hacc := hq.going.crash.acc
  have hle := hq.le
  have hq : Quiet w (s.sem 0) s := ⟨hq.going, hq.writer, hq.held, le_rfl⟩
  obtain ⟨r, hr, hlt⟩ := hacc.exists_outstanding (by rw [hacc.base.held, hq.writer, hq.held]; rfl) hpos
  obtain ⟨as, u, hu, hqu, hltu⟩ : ∃ as t, exec (restrict System.step fun _ => Own) s as = some t ∧
      Quiet w (s.sem 0) t ∧ t.sem 0 < s.sem 0 := by
    cases hd : (s.rd r).dead with
    | false => exact hq.releases hr hd (Nat.zero_lt_of_lt hlt)
    | true => exact hq.givesBack hpc hd hlt
  have hqu : Quiet w (s.sem 0 - 1) u := ⟨hqu.going, hqu.writer, hqu.held, Nat.le_sub_one_of_lt hltu⟩
  obtain ⟨bs, t, ht, hqt, hpct⟩ := hqu.settles
  have hlet := hqt.le
  exact ⟨as ++ bs, t, exec_append_eq_some.2 ⟨u, hu, ht⟩, ⟨hqt.going, hqt.writer, hqt.held, by omega⟩, hpct,
    by omega⟩

/-- **The reads that are outstanding come to an end.** -/
theorem drains (hq : Quiet w n s) : ∃ as t, exec (restrict System.step fun _ => Own) s as = some t ∧
    Quiet w n t ∧ t.sem 0 = 0 := by
  obtain ⟨as, u, hu, hqu, hpcu⟩ := hq.settles
  suffices ∃ bs t, exec (restrict System.step fun _ => Own) u bs = some t ∧ Quiet w n t ∧ t.sem 0 = 0 by
    obtain ⟨bs, t, ht, hqt⟩ := this
    exact ⟨as ++ bs, t, exec_append_eq_some.2 ⟨u, hu, ht⟩, hqt⟩
  clear hu
  induction hn : u.sem 0 using Nat.strong_induction_on generalizing u with
  | _ k ih =>
      by_cases hzero : u.sem 0 = 0
      · exact ⟨[], u, rfl, hqu, hzero⟩
      · obtain ⟨bs, v, hv, hqv, hpcv, hlt⟩ := hqu.lowers hpcu (Nat.pos_of_ne_zero hzero)
        obtain ⟨cs, t, ht, hqt⟩ := ih _ (hn ▸ hlt) v hqv hpcv rfl
        exact ⟨bs ++ cs, t, exec_append_eq_some.2 ⟨v, hv, ht⟩, hqt⟩

end Quiet

/-! ### Every state -/

theorem going_of_exec {lfd memsize : ℕ} {as : List Act}
    (h : exec (restrict step Tidy) (init lfd memsize) as = some s) : Going s :=
  exec_invariant (fun _ _ _ hg hst => hg.step (restrict_eq_some.1 hst).1 (restrict_eq_some.1 hst).2) h
    (going_init lfd memsize)

/-- No lock is held and nothing is outstanding. -/
def Resting (s : System) : Prop :=
  s.w.pc = .idle ∧ s.sem 0 = 0 ∧ s.sem 1 = 0 ∧
    ∀ r, s.sent r = s.released r + s.cancelled r ∧ ((s.rd r).dead = false → s.cancelled r = 0)

namespace Going

/-- With semaphore `0` at zero every update is dealt with. -/
theorem resting (hg : Going s) (hpc : s.w.pc = .idle) (h0 : s.sem 0 = 0) : Resting s := by
  have hacc := hg.crash.acc
  have h1 : s.sem 1 = 0 := by rw [hacc.base.held, hpc]; rfl
  refine ⟨hpc, h0, h1, fun r => ⟨?_, fun hd => ?_⟩⟩
  · have hs := hacc.base.sent r
    have hb := hacc.base.batch_eq_zero h1 r
    have hsettled := hacc.settled h0 h1 r
    omega
  · by_contra hne
    rw [hacc.base.cancelled r (Nat.pos_of_ne_zero hne)] at hd
    cases hd

/-- A writer that does nothing leaves the system to come to rest. -/
theorem rests_of_idle (hg : Going s) (hpc : s.w.pc = .idle) :
    ∃ as t, exec (restrict System.step fun _ => Own) s as = some t ∧ Resting t := by
  have hq : Quiet s.w (s.sem 0) s := ⟨hg, rfl, by rw [hpc]; rfl, le_rfl⟩
  obtain ⟨as, t, ht, hqt, h0⟩ := hq.drains
  exact ⟨as, t, ht, hqt.going.resting (by rw [hqt.writer, hpc]) h0⟩

/-- A call that waits for the lock gets it. -/
theorem locks (hg : Going s) {op : Writer.Op} (hpc : s.w.pc = .writeStart op) :
    ∃ as t, exec (restrict System.step fun _ => Own) s as = some t ∧ Going t ∧ t.w.pc.held = true := by
  have hq : Quiet s.w (s.sem 0) s := ⟨hg, rfl, by rw [hpc]; rfl, le_rfl⟩
  obtain ⟨as, u, hu, hqu, h0⟩ := hq.drains
  have hpcu : u.w.pc = .writeStart op := by rw [hqu.writer, hpc]
  have h1 : u.sem 1 = 0 := by rw [hqu.going.crash.acc.base.held, hpcu]; rfl
  have hsem := perform_eq_some.2 (writeStart_eq_ok.2 ⟨h0, by rw [h1]; decide, rfl⟩)
  have hst : ∃ t, u.step .writer = some t ∧ t.w.pc = .locked op := by
    simp only [System.step, writerStep, hpcu, hsem, Option.map_some]
    exact ⟨_, rfl, rfl⟩
  obtain ⟨t, hst, hpct⟩ := hst
  have hown : Own .writer := trivial
  exact ⟨as ++ [.writer], t, exec_append_eq_some.2
    ⟨u, hu, exec_cons_eq_some.2 ⟨t, restrict_eq_some.2 ⟨hown, hst⟩, rfl⟩⟩,
    hqu.going.own hown hst, by rw [hpct]; rfl⟩

/-- The call of the writer returns, and unless it leaves the user with a write access the system comes to
rest. -/
theorem rests (hg : Going s) : ∃ bs t, exec (restrict System.step fun _ => Own) s bs = some t ∧
    (t.w.pc = .access ∨ Resting t) := by
  have hreturned {u : System} (hg : Going u) (hret : Returned u) :
      ∃ bs t, exec (restrict System.step fun _ => Own) u bs = some t ∧ (t.w.pc = .access ∨ Resting t) := by
    rcases hret with hpc | hpc
    · obtain ⟨bs, t, ht, hrest⟩ := hg.rests_of_idle hpc
      exact ⟨bs, t, ht, Or.inr hrest⟩
    · exact ⟨[], u, rfl, Or.inl hpc⟩
  have hheld {u : System} (hg : Going u) (hpc : u.w.pc.held = true) :
      ∃ bs t, exec (restrict System.step fun _ => Own) u bs = some t ∧ (t.w.pc = .access ∨ Resting t) := by
    obtain ⟨bs, v, hv, hgv, hret⟩ := hg.returns hpc
    obtain ⟨cs, t, ht, hrest⟩ := hreturned hgv hret
    exact ⟨bs ++ cs, t, exec_append_eq_some.2 ⟨v, hv, ht⟩, hrest⟩
  cases hpc : s.w.pc with
  | idle => exact hreturned hg (Or.inl hpc)
  | writeStart op =>
      obtain ⟨bs, u, hu, hgu, hpcu⟩ := hg.locks hpc
      obtain ⟨cs, t, ht, hrest⟩ := hheld hgu hpcu
      exact ⟨bs ++ cs, t, exec_append_eq_some.2 ⟨u, hu, ht⟩, hrest⟩
  | _ => exact hheld hg (by rw [hpc]; rfl)

end Going

/-- **From every state the threads come to rest**, without the safeguard of the `WriteLock`, in the runs in which
nobody dies inside its callback: the call of the writer returns, and unless it leaves the user with a write
access, every live reader then deals with all the updates that were sent to it, and the reads of the dead ones
are given back. -/
theorem comes_to_rest {lfd memsize : ℕ} {as : List Act}
    (h : exec (restrict step Tidy) (init lfd memsize) as = some s) :
    ∃ bs t, exec (restrict step fun _ => Own) s bs = some t ∧ (t.w.pc = .access ∨ Resting t) :=
  (going_of_exec h).rests

/-- A reader dies with its update unread, and the writer waits for its lock. -/
def unreadFrame : List Act :=
  [.call (.copyToShm [1]), .writer, .writer, .writer, .writer, .writer, .writer, .writer, .writer, .die 0,
    .call (.copyToShm [2])]

theorem unreadFrame_comes_to_rest :
    ∃ s, exec (restrict step Tidy) (init 3 1) (connectReader ++ unreadFrame) = some s ∧
      s.w.pc.held = false ∧ s.sem 0 = 1 ∧ (s.rd 0).dead = true ∧
      ∃ bs t, exec (restrict step fun _ => Own) s bs = some t ∧ (t.w.pc = .access ∨ Resting t) := by
  have hrun : ((exec (restrict step Tidy) (init 3 1) (connectReader ++ unreadFrame)).any fun s =>
      s.w.pc.held = false ∧ s.sem 0 = 1 ∧ (s.rd 0).dead = true) = true := by
    decide +kernel
  obtain ⟨s, hs, hrun⟩ := (Option.any_eq_true _ _).1 hrun
  obtain ⟨hheld, h0, hd⟩ := of_decide_eq_true hrun
  exact ⟨s, hs, hheld, h0, hd, comes_to_rest hs⟩

end System

end Shmdata

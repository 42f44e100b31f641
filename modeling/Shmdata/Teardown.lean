/-
**The end of the writer.**

The members of a `Writer` are destroyed in the reverse order of their declaration: the semaphores are
removed first, then the segment, and last the server stops its thread and sends quit to its clients.
Nothing waits for the readers that were committed for the last frame, although every other function of
the writer that takes the segment away does so under the write lock, which the committed readers keep
busy.  A reader that has the update of the last frame in its socket, or in hand, finds the semaphores gone
when it asks for its `ReadLock`, and gives up the frame.

The system is that of `Shmdata.System` as long as the writer is there.  Once the semaphores are removed
every `semop` on them fails, which the destructor of `ReadLock` and `cancel_commited_reader` ignore, and
the constructor of a new reader fails.

Main definitions:

* `Shmdata.Teardown.State`, `Shmdata.Teardown.step` — the system with the destructor of the writer;
* `Shmdata.Teardown.Patient` — the writer is destroyed when every live reader has entered its callback for
  the last frame;
* `Shmdata.Teardown.Gone` — the invariant of the system without its semaphores.

Main results:

* `Shmdata.Teardown.lastFrame` — **every frame is delivered by a writer that is destroyed patiently**;
* `Shmdata.Teardown.hastyEnd_lost` — a writer that is destroyed right after `copy_to_shm`, and a reader that
  is never called for the frame.
-/

import Shmdata.Frames

set_option relaxedAutoImplicit false
set_option autoImplicit false

namespace Shmdata

namespace Server

variable {σ : Type} {s t : Server σ}

/-- A step of the destructor. -/
@[simp] def Act.isDtor : Act σ → Bool
  | .dtorStart | .dtorJoin | .dtorSend _ | .dtorEnd => true
  | _ => false

/-- The destructor sends nothing but quit. -/
theorem out_of_dtor {a : Act σ} (ha : a.isDtor = true) (h : s.step a = some t) (c : ℕ) :
    t.out c = s.out c ∨ t.out c = s.out c ++ [.quit] := by
  cases trans_of_step h with
  | dtorStart | dtorJoin | dtorEnd => exact Or.inl rfl
  | @dtorSend it todo ok hd =>
      cases ok with
      | false => exact Or.inl rfl
      | true =>
          show record s.out (s.conn it) .quit c = _ ∨ record s.out (s.conn it) .quit c = _
          cases s.conn it with
          | none => exact Or.inl rfl
          | some d =>
              by_cases hd : c = d
              · subst hd
                exact Or.inr (record_self ..)
              · exact Or.inl (record_of_ne _ _ hd)
  | _ => cases ha

end Server

namespace Teardown

open Runs Shmdata.System

/-! ### The destructor -/

/-- What the destructor of the writer has removed so far. -/
inductive Phase
  | alive
  | semRemoved
  | shmRemoved
  deriving DecidableEq

/-- The system and the progress of the destructor. -/
structure State where
  sys : System
  phase : Phase

/-- A writer that was constructed with a segment of `memsize` bytes, and no reader. -/
def init (lfd memsize : ℕ) : State := ⟨System.init lfd memsize, .alive⟩

/-- A step of the system, or the next step of the destructor. -/
inductive Act
  | run (a : System.Act)
  | dtor

/-- A step of a reader when the semaphores are removed. -/
def readerStep (s : System) (r : ℕ) : Option System :=
  match (s.rd r).pc with
  | .attach =>
      -- the constructor finds no semaphore, and destroys its client
      if r < s.nrd ∧ (s.rd r).dead = false then some (s.setRd r { s.rd r with pc := .closed }) else none
  | .readStart _ =>
      -- `if (!lock) return false;`
      if r < s.nrd ∧ (s.rd r).dead = false then some (s.setRd r { s.rd r with pc := .idle }) else none
  | .onData _ =>
      if r < s.nrd ∧ (s.rd r).dead = false then some (s.setRd r { s.rd r with pc := .idle }) else none
  | .idle | .update _ | .closed => s.readerStep r

/-- A step of the serving thread when the semaphores are removed. -/
def serverStep (s : System) (ev : Server.Ev) : Option System :=
  if s.kernel ev then
    (s.srv.thread ev).bind fun srv =>
      match s.srv.pc with
      | .recover _ _ => some { s with srv := srv }
      | pc => s.effect srv pc ev
  else none

/-- The next step of `~UnixSocketServer`. -/
def serverDtor (s : System) : Option System :=
  match s.srv.dtor with
  | .alive => (s.srv.step .dtorStart).map fun srv => { s with srv := srv }
  | .waiting => (s.srv.step .dtorJoin).map fun srv => { s with srv := srv }
  | .quitting (it :: _) =>
      (s.srv.step (.dtorSend ((s.srv.conn it).any fun r => (s.rd r).isOpen))).map fun srv =>
        { s with srv := srv }
  | .quitting [] => (s.srv.step .dtorEnd).map fun srv => { s with srv := srv }
  | .done => none

/-- A step of the system when the semaphores are removed.  Nobody connects once the socket file is
removed. -/
def goneStep (s : System) : System.Act → Option System
  | .server ev => serverStep s ev
  | .reader r => readerStep s r
  | .connect => if s.srv.dtor = .alive then s.step .connect else none
  | .quit r => s.step (.quit r)
  | .die r => s.step (.die r)
  | _ => none

/-- One step of the system or of the destructor.  The writer is destroyed when it is not in use. -/
def step (s : State) : Act → Option State
  | .run a =>
      match s.phase with
      | .alive => (s.sys.step a).map fun t => { s with sys := t }
      | .semRemoved | .shmRemoved => (goneStep s.sys a).map fun t => { s with sys := t }
  | .dtor =>
      match s.phase with
      | .alive =>
          match s.sys.w.pc with
          | .idle => some { s with phase := .semRemoved }
          | _ => none
      | .semRemoved => some { sys := { s.sys with key := none }, phase := .shmRemoved }
      | .shmRemoved => (serverDtor s.sys).map fun t => { s with sys := t }

/-! ### The condition -/

/-- The sign that the readers look for is right for a frame with a byte in it. -/
def SignSeen (s : System) : Prop :=
  ∀ size ∈ s.w.pc.notifies, 0 < size → ∀ r < s.nrd, s.isClient r = true → (s.rd r).dead = false →
    (s.rd r).shm = some s.w.shm ∨ (s.rd r).curSize ≠ size

instance (s : System) : Decidable (SignSeen s) :=
  inferInstanceAs (Decidable (∀ size ∈ s.w.pc.notifies, 0 < size → ∀ r < s.nrd, s.isClient r = true →
    (s.rd r).dead = false → (s.rd r).shm = some s.w.shm ∨ (s.rd r).curSize ≠ size))

/-- Every update that was sent to a live reader was read, and its `ReadLock` acquired. -/
def AllRead (s : System) : Prop :=
  ∀ r < s.nrd, (s.rd r).dead = false → s.unread r = 0 ∧ (s.rd r).pc.locking = 0

instance (s : System) : Decidable (AllRead s) :=
  inferInstanceAs (Decidable (∀ r < s.nrd, (s.rd r).dead = false → s.unread r = 0 ∧
    (s.rd r).pc.locking = 0))

/-- As long as the writer is there no reset fires and the sign is right, and it is destroyed when all the
updates are read. -/
def Patient (s : State) : Act → Prop
  | .run a => s.phase = .alive → Ordered s.sys a ∧ (a.isWriter = true → SignSeen s.sys)
  | .dtor => s.phase = .alive → AllRead s.sys

instance (s : State) (a : Act) : Decidable (Patient s a) := by
  cases a <;> unfold Patient <;> infer_instance

/-! ### The system without its semaphores -/

/-- A call of `on_data_cb_` with the bytes of a frame. -/
def Fits (f : Frame) (c : Reader.Call) : Prop :=
  c.size = f.size ∧ ∀ d, f.data = some d → c.bytes = d

/-- The invariant of the system without its semaphores: no live reader has an update to deal with, and
all its frames were delivered. -/
structure Gone (s : System) : Prop where
  rcvd : ∀ r, (s.rd r).rcvd ≤ (s.srv.out r).length
  read : ∀ r, (s.rd r).dead = false → s.unread r = 0 ∧ (s.rd r).pc.locking = 0 ∧
    List.Forall₂ Fits (s.due r) (s.rd r).calls

theorem not_owing {s : System} {r : ℕ} (hn : s.srv.notify = none) (hu : s.unread r = 0)
    (hl : (s.rd r).pc.locking = 0) : ¬ Owing s r := by
  rintro (⟨_, _, _, h, -⟩ | ⟨size, h⟩ | h)
  · rw [hn] at h
    cases h
  · exact absurd (List.countP_eq_zero.1 hu _ h) (by simp)
  · omega

theorem fits_of_good {s : System} {r : ℕ} (hs : Served NonEmpty s r) (ho : ¬ Owing s r) :
    List.Forall₂ Fits (s.due r) (s.rd r).calls :=
  (hs.settled ho).imp fun _ _ hg => ⟨hg.size, hg.bytes⟩

namespace Gone

variable {s t : System}

/-- The semaphores are removed when all the updates are read. -/
theorem of_delivers (hi : Delivers NonEmpty s) (hpc : s.w.pc = .idle) (hr : AllRead s) : Gone s where
  rcvd := hi.acc.base.rcvd
  read r hd := by
    have hb := hi.acc.base
    have hread : s.unread r = 0 ∧ (s.rd r).pc.locking = 0 := by
      by_cases hlt : r < s.nrd
      · exact hr r hlt hd
      · have hout := (hb.wf.streams.fresh r (hb.nconn.trans (not_lt.1 hlt))).1
        rw [System.unread, hout, (hb.fresh r (not_lt.1 hlt)).1]
        exact ⟨rfl, rfl⟩
    have hn := hi.segs.notify_none fun next => by simp [hpc]
    exact ⟨hread.1, hread.2, fits_of_good (hi.served r hd) (not_owing hn hread.1 hread.2)⟩

/-- The server sends no update. -/
theorem server (hi : Gone s) {srv : Server ℕ}
    (h : ∀ r, srv.out r = s.srv.out r ∨ ∃ m, m.isUpdate = false ∧ srv.out r = s.srv.out r ++ [m]) :
    Gone { s with srv := srv } where
  rcvd r := by
    have hr := hi.rcvd r
    rcases h r with h | ⟨m, -, h⟩
    · exact h ▸ hr
    · rw [show _ = _ from h, List.length_append]
      exact hr.trans (Nat.le_add_right _ _)
  read r hd := by
    obtain ⟨hu, hl, hf⟩ := hi.read r hd
    refine ⟨?_, hl, hf⟩
    rcases h r with h | ⟨m, hm, h⟩
    · simpa only [System.unread, h] using hu
    · simp only [System.unread, h]
      rw [List.drop_append_of_le_length (hi.rcvd r), Base.countP_append_of_not hm]
      exact hu

/-- A step of one reader by which it takes no update. -/
theorem setRd (hi : Gone s) {r : ℕ} {rd : Reader} (hc : rd.rcvd ≤ (s.srv.out r).length)
    (h : rd.dead = false → (s.rd r).dead = false ∧
      ((s.srv.out r).drop rd.rcvd).countP SrvMsg.isUpdate = 0 ∧ rd.pc.locking = 0 ∧
        rd.calls = (s.rd r).calls) : Gone (s.setRd r rd) where
  rcvd q := by
    by_cases hq : q = r
    · subst hq
      rw [setRd_rd_self]
      exact hc
    · rw [show (s.setRd r rd).rd q = s.rd q from Function.update_of_ne hq ..]
      exact hi.rcvd q
  read q hd := by
    by_cases hq : q = r
    · subst hq
      rw [setRd_rd_self] at hd
      obtain ⟨hd', hu, hl, hcalls⟩ := h hd
      rw [System.unread, setRd_rd_self, hcalls]
      exact ⟨hu, hl, (hi.read q hd').2.2⟩
    · have hrd : (s.setRd r rd).rd q = s.rd q := Function.update_of_ne hq ..
      rw [hrd] at hd
      rw [System.unread, hrd]
      exact hi.read q hd

/-- The same for a step that leaves the socket as it is. -/
theorem moved (hi : Gone s) {r : ℕ} {rd : Reader} (hc : rd.rcvd = (s.rd r).rcvd)
    (hdead : rd.dead = false → (s.rd r).dead = false) (hcalls : rd.calls = (s.rd r).calls)
    (hl : (s.rd r).pc.locking = 0 → rd.pc.locking = 0) : Gone (s.setRd r rd) := by
  refine hi.setRd (hc ▸ hi.rcvd r) fun hd => ?_
  obtain ⟨hu, hlock, -⟩ := hi.read r (hdead hd)
  exact ⟨hdead hd, hc ▸ hu, hl hlock, hcalls⟩

/-- A live reader has no update to take. -/
theorem received (hi : Gone s) {r : ℕ} {m : SrvMsg ℕ} {rd : Reader}
    (hm : (s.srv.out r)[(s.rd r).rcvd]? = some m) (hd : (s.rd r).dead = false)
    (hc : rd.rcvd = (s.rd r).rcvd + 1) (hcalls : rd.calls = (s.rd r).calls)
    (hl : rd.pc.locking = 0 ∨ m.isUpdate = true) : Gone (s.setRd r rd) := by
  obtain ⟨hu, hlock, -⟩ := hi.read r hd
  rw [System.unread, (Base.drop_eq hm).2, List.countP_cons] at hu
  refine hi.setRd ?_ fun _ => ⟨hd, ?_, ?_, hcalls⟩
  · rw [hc]
    exact (List.getElem?_eq_some_iff.1 hm).1
  · rw [hc]
    omega
  · refine hl.resolve_right fun hmu => ?_
    rw [if_pos hmu] at hu
    omega

theorem readerStep {r : ℕ} (hi : Gone s) (h : readerStep s r = some t) : Gone t := by
  have hmove {pc : Reader.Pc} (hpc : pc.locking = 0)
      (h : (if r < s.nrd ∧ (s.rd r).dead = false then some (s.setRd r { s.rd r with pc := pc })
        else none) = some t) : Gone t := by
    obtain ⟨-, h⟩ := Option.ite_none_right_eq_some.1 h
    exact Option.some.inj h ▸ hi.moved rfl id rfl fun _ => hpc
  unfold Teardown.readerStep at h
  split at h
  · exact hmove rfl h
  · exact hmove rfl h
  · exact hmove rfl h
  · next hpc =>
      cases trans_of_readerStep h with
      | receiveConnect _ hd _ hm => exact hi.received hm hd rfl rfl (Or.inl (by simp [hpc]))
      | receiveUpdate _ hd _ hm => exact hi.received hm hd rfl rfl (Or.inr rfl)
      | receiveQuit _ hd _ hm => exact hi.received hm hd rfl rfl (Or.inl rfl)
      | receiveEof => exact hi.moved rfl id rfl fun _ => rfl
      | attach _ _ hpc' | update _ _ hpc' | readStart _ _ hpc' | readEnd _ _ hpc' =>
          rw [hpc] at hpc'
          cases hpc'
  · next size hpc =>
      -- only a dead reader has an update in hand
      obtain ⟨⟨-, hd⟩, -⟩ := Option.ite_none_right_eq_some.1 h
      have hl := (hi.read r hd).2.1
      rw [hpc] at hl
      cases hl
  · next hpc =>
      obtain ⟨-, h⟩ := Option.ite_none_right_eq_some.1 h
      rw [hpc] at h
      cases h

theorem serverStep {ev : Server.Ev} (hi : Gone s) (h : serverStep s ev = some t) : Gone t := by
  obtain ⟨hk, h⟩ := Option.ite_none_right_eq_some.1 h
  obtain ⟨srv, hsrv, h⟩ := Option.bind_eq_some_iff.1 h
  have hsrv' : Gone { s with srv := srv } := by
    refine hi.server fun r => ?_
    rcases Server.thread_out hsrv r with ho | ⟨_, m, -, -, -, hm, ho⟩
    · exact Or.inl ho
    · exact Or.inr ⟨m, hm, ho⟩
  have htake (it : ℕ) : Gone (s.take it srv) := by
    unfold System.take
    cases s.srv.conn it with
    | none => exact hsrv'
    | some r => exact hsrv'.moved (r := r) rfl id rfl id
  split at h
  · exact Option.some.inj h ▸ hsrv'
  · next hpc =>
      unfold System.effect at h
      split at h
      · exact absurd ‹s.srv.pc = .recover _ _› (hpc _ _)
      · exact Option.some.inj h ▸ htake _
      · exact Option.some.inj h ▸ htake _
      · exact Option.some.inj h ▸ hsrv'

theorem serverDtor (hi : Gone s) (h : serverDtor s = some t) : Gone t := by
  have hstep {a : Server.Act ℕ} (ha : a.isDtor = true)
      (h : ((s.srv.step a).map fun srv => { s with srv := srv }) = some t) : Gone t := by
    obtain ⟨srv, hsrv, rfl⟩ := Option.map_eq_some_iff.1 h
    refine hi.server fun r => ?_
    rcases Server.out_of_dtor ha hsrv r with ho | ho
    · exact Or.inl ho
    · exact Or.inr ⟨.quit, rfl, ho⟩
  unfold Teardown.serverDtor at h
  split at h
  · exact hstep rfl h
  · exact hstep rfl h
  · exact hstep rfl h
  · exact hstep rfl h
  · cases h

theorem goneStep {a : System.Act} (hi : Gone s) (h : goneStep s a = some t) : Gone t := by
  cases a with
  | server ev => exact hi.serverStep h
  | reader r => exact hi.readerStep h
  | connect =>
      obtain ⟨-, h⟩ := Option.ite_none_right_eq_some.1 h
      exact Option.some.inj h ▸ ⟨hi.rcvd, hi.read⟩
  | quit r =>
      have h : s.step (.quit r) = some t := h
      cases trans_of_step h with
      | quit => exact hi.moved rfl id rfl id
  | die r =>
      have h : s.step (.die r) = some t := h
      cases trans_of_step h with
      | die => exact hi.moved rfl (fun h => by cases h) rfl id
  | _ => cases h

end Gone

/-! ### The last frame -/

/-- The invariant of the runs: the deliveries, then the system without its semaphores. -/
def Inv (s : State) : Prop :=
  match s.phase with
  | .alive => Delivers NonEmpty s.sys
  | .semRemoved | .shmRemoved => Gone s.sys

theorem Inv.step {s t : State} {a : Act} (hi : Inv s) (hok : Patient s a) (h : step s a = some t) :
    Inv t := by
  obtain ⟨s, phase⟩ := s
  cases a with
  | run a =>
      cases phase with
      | alive =>
          obtain ⟨t, ht, rfl⟩ := Option.map_eq_some_iff.1 h
          obtain ⟨ho, hs⟩ := hok rfl
          have hi : Delivers NonEmpty s := hi
          refine hi.step (fun _ => Nat.pos_of_ne_zero) ho ?_ ht
          rintro size next rfl hpc hpos r hc hd
          exact hs rfl size (by rw [hpc]; rfl) hpos r (lt_of_isClient hi.acc.base hc) hc hd
      | semRemoved | shmRemoved =>
          obtain ⟨t, ht, rfl⟩ := Option.map_eq_some_iff.1 h
          exact Gone.goneStep (s := s) hi ht
  | dtor =>
      cases phase with
      | alive =>
          simp only [Teardown.step] at h
          split at h
          · next hpc =>
              obtain rfl := Option.some.inj h
              exact Gone.of_delivers hi hpc (hok rfl)
          · cases h
      | semRemoved =>
          obtain rfl := Option.some.inj h
          have hi : Gone s := hi
          exact ⟨hi.rcvd, hi.read⟩
      | shmRemoved =>
          obtain ⟨t, ht, rfl⟩ := Option.map_eq_some_iff.1 h
          exact Gone.serverDtor (s := s) hi ht

/-- **Every frame is delivered when the writer is destroyed patiently.**  In every state of such a run a
live reader that has dealt with its updates was called once for each frame it was a client for, with its
size and its bytes. -/
theorem lastFrame {lfd memsize : ℕ} {as : List Act} {s : State}
    (h : exec (restrict step Patient) (init lfd memsize) as = some s) {r : ℕ}
    (hd : (s.sys.rd r).dead = false) (ho : ¬ Owing s.sys r) :
    List.Forall₂ Fits (s.sys.due r) (s.sys.rd r).calls := by
  have hi : Inv s := by
    refine exec_invariant (fun s a t hs hst => ?_) h (delivers_init NonEmpty lfd memsize)
    obtain ⟨hok, hst⟩ := restrict_eq_some.1 hst
    exact hs.step hok hst
  obtain ⟨s, phase⟩ := s
  cases phase with
  | alive =>
      have hi : Delivers NonEmpty s := hi
      exact fits_of_good (hi.served r hd) ho
  | semRemoved | shmRemoved =>
      have hi : Gone s := hi
      exact (hi.read r hd).2.2

/-- The steps of `copy_to_shm` for a frame that fits in the segment. -/
def copySteps (data : List UInt8) : List Act :=
  .run (.call (.copyToShm data)) :: List.replicate 8 (.run .writer)

/-- A frame is written, the reader enters its callback, and the writer is destroyed; the reader leaves its
callback and finds the quit message. -/
def patientEnd : List Act :=
  connectReader.map .run ++ copySteps [7] ++
    ([.run (.reader 0), .run (.reader 0), .run (.reader 0), .dtor, .dtor, .dtor, .run (.server .tau),
      .dtor, .dtor, .dtor, .run (.reader 0), .run (.reader 0)] : List Act)

theorem patientEnd_lastFrame :
    ∃ s, exec (restrict step Patient) (init 3 1) patientEnd = some s ∧ s.sys.srv.dtor = .done ∧
      (s.sys.rd 0).pc = .closed ∧ (s.sys.due 0).length = 1 ∧
      List.Forall₂ Fits (s.sys.due 0) (s.sys.rd 0).calls := by
  have hrun : ((exec (restrict step Patient) (init 3 1) patientEnd).any fun s => s.sys.srv.dtor = .done ∧
      (s.sys.rd 0).dead = false ∧ (s.sys.rd 0).pc = .closed ∧ s.sys.unread 0 = 0 ∧
      s.sys.srv.notify.isNone ∧ (s.sys.due 0).length = 1) = true := by
    decide +kernel
  obtain ⟨s, hs, hrun⟩ := (Option.any_eq_true _ _).1 hrun
  obtain ⟨hdtor, hd, hpc, hu, hn, hdue⟩ := of_decide_eq_true hrun
  exact ⟨s, hs, hdtor, hpc, hdue,
    lastFrame hs hd (not_owing (Option.isNone_iff_eq_none.1 hn) hu (by rw [hpc]; rfl))⟩

/-- A frame is written, its update is in the socket of the reader, and the writer is destroyed. -/
def hastyEnd : List Act :=
  connectReader.map .run ++ copySteps [7] ++
    [.dtor, .run (.reader 0), .run (.reader 0), .run (.reader 0)]

/-- **The last frame is lost**: the update was sent and processed, and the callback was not called. -/
theorem hastyEnd_lost :
    ∃ s, exec step (init 3 1) hastyEnd = some s ∧ (s.sys.rd 0).dead = false ∧
      (s.sys.rd 0).pc = .idle ∧ ¬ Owing s.sys 0 ∧ s.sys.sent 0 = 1 ∧
      (∃ f, s.sys.due 0 = [f] ∧ f.data = some [7]) ∧ (s.sys.rd 0).calls = [] ∧
      ¬ List.Forall₂ Fits (s.sys.due 0) (s.sys.rd 0).calls := by
  have hrun : ((exec step (init 3 1) hastyEnd).any fun s => (s.sys.rd 0).dead = false ∧
      (s.sys.rd 0).pc = .idle ∧ s.sys.unread 0 = 0 ∧ s.sys.srv.notify.isNone ∧ s.sys.sent 0 = 1 ∧
      (s.sys.due 0).map (·.data) = [some [7]] ∧ (s.sys.rd 0).calls.length = 0) = true := by
    decide +kernel
  obtain ⟨s, hs, hrun⟩ := (Option.any_eq_true _ _).1 hrun
  obtain ⟨hd, hpc, hu, hn, hsent, hdue, hcalls⟩ := of_decide_eq_true hrun
  have ho := not_owing (Option.isNone_iff_eq_none.1 hn) hu (by rw [hpc]; rfl)
  have hcalls := List.eq_nil_of_length_eq_zero hcalls
  obtain ⟨f, hf, hfd⟩ := List.map_eq_singleton_iff.1 hdue
  refine ⟨s, hs, hd, hpc, ho, hsent, ⟨f, hf, hfd⟩, hcalls, fun hfits => ?_⟩
  have hlen := hfits.length_eq
  rw [hf, hcalls] at hlen
  cases hlen

end Teardown

end Shmdata

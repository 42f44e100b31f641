/-
**What the readers are given.**

A reader looks up the segment again when the size of an update differs from the size of the one before,
and takes this for the sign of a reallocation.  This module follows the frames that each reader was a
client for, from `notify_update` to its callback, in the runs in which the sign is right: at each
notification a client is attached to the current segment, or will look it up.  What the sign is right
about is a parameter, the set `ok` of frames for which the segment matters.

Main definitions:

* `Shmdata.System.Good` — a call of `on_data_cb_` that fits a frame;
* `Shmdata.System.Served` — **what holds of a live reader**: its calls fit the frames it was a client
  for, one by one, up to the current one;
* `Shmdata.System.Fresh` — the sign is right at a notification.

Main results:

* `Shmdata.System.Delivers.step` — every step keeps this for all live readers.
-/

import Shmdata.Segments

set_option relaxedAutoImplicit false
set_option autoImplicit false

namespace Shmdata

/-- While `notify_update` holds the mutex, the serving thread opens and closes nothing. -/
theorem Server.conn_of_notifying {σ : Type} {s t : Server σ} {ev : Server.Ev} (hl : s.Lists)
    (h : s.step (.thread ev) = some t) (hn : s.notify ≠ none) : t.conn = s.conn := by
  cases trans_of_step h with
  | accepted hpc | dropped hpc | pendingDropped hpc =>
      exact absurd (hl.notify_none_of_locked (by simp [hpc])) hn
  | _ => rfl

/-- The reader has the size of an update in hand. -/
def Reader.Pc.Sized (pc : Reader.Pc) (size : ℕ) : Prop :=
  pc = .update size ∨ pc = .readStart size ∨ pc = .onData size

namespace System

open SysV Semops Runs

variable {s t : System} {ok : Frame → Prop} {r : ℕ}

/-! ### Frames and calls -/

/-- A call of `on_data_cb_` that fits a frame. -/
structure Good (ok : Frame → Prop) (f : Frame) (c : Reader.Call) : Prop where
  size : c.size = f.size
  seg : ok f → c.seg = some f.seg
  bytes : ∀ d, f.data = some d → c.bytes = d

/-- The update of the current frame is still to be sent to the reader. -/
def Awaited (s : System) (r : ℕ) : Prop :=
  ∃ size todo it, s.srv.notify = some (size, todo) ∧ it ∈ todo ∧ s.srv.conn it = some r

/-- An update with the given size is in the reader's socket. -/
def Unread (s : System) (r size : ℕ) : Prop := .update size ∈ (s.srv.out r).drop (s.rd r).rcvd

/-- The reader has not entered its callback for the current frame. -/
def Owing (s : System) (r : ℕ) : Prop :=
  Awaited s r ∨ (∃ size, Unread s r size) ∨ 0 < (s.rd r).pc.locking

/-- What holds of a live reader: the updates it has not dealt with are those of the current frame, it
is attached to the segment of this frame or will look it up, and its calls fit its frames. -/
structure Served (ok : Frame → Prop) (s : System) (r : ℕ) : Prop where
  ready : Awaited s r ∨ (∃ size, Unread s r size) ∨ (∃ size, (s.rd r).pc = .update size) →
    ok s.frame → (s.rd r).shm = some s.frame.seg ∨ (s.rd r).curSize ≠ s.frame.size
  sizes : ∀ size, Unread s r size ∨ (s.rd r).pc.Sized size → size = s.frame.size
  attached : ∀ size, (s.rd r).pc = .readStart size ∨ (s.rd r).pc = .onData size → ok s.frame →
    (s.rd r).shm = some s.frame.seg
  last : ∀ size, (s.rd r).pc = .onData size → ∃ done, s.due r = done ++ [s.frame]
  owing : Owing s r → ∃ done, s.due r = done ++ [s.frame] ∧
    List.Forall₂ (Good ok) done (s.rd r).calls
  settled : ¬ Owing s r → List.Forall₂ (Good ok) (s.due r) (s.rd r).calls

/-- The invariant of the deliveries. -/
structure Delivers (ok : Frame → Prop) (s : System) : Prop where
  acc : Acc s
  mail : Mail s
  segs : Segs s
  attach : ∀ r, (s.rd r).pc = .attach → (s.rd r).rcvd = 0
  served : ∀ r, (s.rd r).dead = false → Served ok s r

theorem delivers_init (ok : Frame → Prop) (lfd memsize : ℕ) : Delivers ok (init lfd memsize) where
  acc := acc_init lfd memsize
  mail := mail_init lfd memsize
  segs := segs_init lfd memsize
  attach := by simp [init, Reader.init]
  served r _ :=
    { ready := by simp [init, Server.init, Reader.init, Awaited, Unread]
      sizes := by simp [init, Server.init, Reader.init, Unread, Reader.Pc.Sized]
      attached := by simp [init, Reader.init]
      last := by simp [init, Reader.init]
      owing := by simp [init, Server.init, Reader.init, Owing, Awaited, Unread]
      settled := by simp [init, Reader.init] }

/-- A reader without an update to deal with has none in its socket. -/
theorem not_unread_of_load (h : s.load r = 0) : (∀ size, ¬ Unread s r size) ∧
    (∀ size, ¬ (s.rd r).pc.Sized size) ∧ (s.rd r).pc.locking = 0 := by
  unfold System.load System.unread at h
  obtain ⟨hbusy, hun⟩ := Nat.add_eq_zero_iff.1 h
  refine ⟨fun size hu => ?_, fun size hs => ?_, ?_⟩
  · exact absurd (List.countP_eq_zero.1 hun _ hu) (by simp)
  · rcases hs with hs | hs | hs <;> rw [hs] at hbusy <;> cases hbusy
  · cases hpc : (s.rd r).pc <;> simp [hpc] at hbusy ⊢

/-- A reader that has an update in hand has no other in its socket. -/
theorem Acc.not_unread_of_busy (ha : Acc s) (hb : (s.rd r).pc.busy = 1) (size : ℕ) :
    ¬ Unread s r size := by
  intro hu
  have hsingle := ha.single r
  have hpos : 0 < s.unread r := List.countP_pos_iff.2 ⟨_, hu, rfl⟩
  unfold System.load at hsingle
  omega

theorem pending_of_busy (hb : (s.rd r).pc.busy = 1) : 0 < s.load r := by
  unfold System.load
  omega

/-! ### Steps that a reader does not notice -/

/-- A step that changes nothing that a reader's deliveries depend on. -/
theorem Served.congr (h : Served ok s r) (h1 : t.frame = s.frame) (h2 : t.due r = s.due r)
    (haw : Awaited t r ↔ Awaited s r) (hun : ∀ size, Unread t r size ↔ Unread s r size)
    (h3 : (t.rd r).shm = (s.rd r).shm) (h4 : (t.rd r).curSize = (s.rd r).curSize)
    (h5 : (t.rd r).calls = (s.rd r).calls) (h6 : (t.rd r).pc.locking = (s.rd r).pc.locking)
    (h7 : ∀ size, (t.rd r).pc.Sized size → (t.rd r).pc = (s.rd r).pc) : Served ok t r := by
  have how : Owing t r ↔ Owing s r := by
    unfold Owing
    rw [haw, h6]
    simp only [hun]
  exact
    { ready := fun hr hok => by
        rw [h1] at hok ⊢
        rw [h3, h4]
        refine h.ready ?_ hok
        rcases hr with hr | ⟨size, hr⟩ | ⟨size, hr⟩
        · exact Or.inl (haw.1 hr)
        · exact Or.inr (Or.inl ⟨size, (hun size).1 hr⟩)
        · exact Or.inr (Or.inr ⟨size, (h7 size (Or.inl hr)).symm.trans hr⟩)
      sizes := fun size hs => by
        rw [h1]
        refine h.sizes size ?_
        rcases hs with hs | hs
        · exact Or.inl ((hun size).1 hs)
        · exact Or.inr ((h7 size hs) ▸ hs)
      attached := fun size hs hok => by
        rw [h1] at hok ⊢
        rw [h3]
        refine h.attached size ?_ hok
        rw [← h7 size (Or.inr hs)]
        exact hs
      last := fun size hs => by
        rw [h1, h2]
        exact h.last size ((h7 size (Or.inr (Or.inr hs))).symm.trans hs)
      owing := fun ho => by
        rw [h1, h2, h5]
        exact h.owing (how.1 ho)
      settled := fun ho => by
        rw [h2, h5]
        exact h.settled fun ho' => ho (how.2 ho') }

/-- A step outside the server and the reader. -/
theorem Served.frame (h : Served ok s r) (h1 : t.srv = s.srv) (h2 : t.rd r = s.rd r)
    (h3 : t.frame = s.frame) (h4 : t.due r = s.due r) : Served ok t r := by
  refine h.congr h3 h4 ?_ (fun size => ?_) (by rw [h2]) (by rw [h2]) (by rw [h2]) (by rw [h2])
    (fun _ _ => by rw [h2])
  · rw [Awaited, h1]; rfl
  · rw [Unread, h1, h2]; rfl


/-- The serving thread sends no update. -/
theorem unread_iff_server (hb : Base s) {ev : Server.Ev} {srv : Server ℕ}
    (h : s.srv.step (.thread ev) = some srv) (r size : ℕ) :
    Unread { s with srv := srv } r size ↔ Unread s r size := by
  unfold Unread
  rcases Server.thread_out h r with ho | ⟨fd, m, -, -, -, hm, ho⟩
  · rw [ho]
  · show _ ∈ (srv.out r).drop (s.rd r).rcvd ↔ _
    rw [ho, List.drop_append_of_le_length (hb.rcvd r), List.mem_append, List.mem_singleton]
    refine ⟨fun h' => h'.resolve_right ?_, Or.inl⟩
    rintro rfl
    cases hm

theorem awaited_iff_server (hb : Base s) {ev : Server.Ev} {srv : Server ℕ}
    (h : s.srv.step (.thread ev) = some srv) (r : ℕ) :
    Awaited { s with srv := srv } r ↔ Awaited s r := by
  have hn := (Server.thread_frame h).1
  unfold Awaited
  simp only [hn]
  cases hn' : s.srv.notify with
  | none => simp
  | some p => simp only [Server.conn_of_notifying hb.wf.lists h (by rw [hn']; simp)]

/-- A step of the serving thread. -/
theorem Served.server (h : Served ok s r) (hb : Base s) {ev : Server.Ev} {srv : Server ℕ}
    (hsrv : s.srv.step (.thread ev) = some srv) : Served ok { s with srv := srv } r :=
  h.congr rfl rfl (awaited_iff_server hb hsrv r) (unread_iff_server hb hsrv r) rfl rfl rfl rfl
    fun _ _ => rfl

/-! ### Notification -/

/-- A reader the current frame is still to be announced to is served. -/
theorem Awaited.serving (h : Awaited s r) (hb : Base s) : ∃ fd, s.srv.Serving fd r := by
  obtain ⟨size, todo, it, hn, hit, hc⟩ := h
  obtain ⟨hl, seen, hcl, -⟩ := hb.wf.lists.notify _ _ hn
  have hrm : s.srv.clientsToRemove = [] := by
    refine hb.wf.lists.rest ?_ ?_ <;> cases hpc : s.srv.pc <;> simp [hpc] at hl ⊢
  refine ⟨it, by rw [hcl]; exact List.mem_append_right _ hit, Or.inr (by rw [hrm]; simp), ?_, hc⟩
  rintro (⟨todo', hpc⟩ | ⟨todo', hd, -⟩)
  · rw [hpc] at hl
    cases hl
  · rw [hb.alive] at hd
    cases hd

/-- `notify_update` begins: the clients get one more frame. -/
theorem Served.notifyLock (h : Served ok s r) (ha : Acc s) (hs : Segs s) {size : ℕ}
    {next : Writer.Next} {srv : Server ℕ} (hd : (s.rd r).dead = false)
    (hpc : s.w.pc = .notify size next) (hsrv : s.srv.step (.notifyLock size) = some srv)
    (hf : ok ⟨size, s.w.shm, next.data⟩ → s.isClient r = true →
      (s.rd r).shm = some s.w.shm ∨ (s.rd r).curSize ≠ size) :
    Served ok (s.notifyLock size next srv) r := by
  have hload : s.load r = 0 := by
    by_contra hne
    exact ha.not_pending (by simp [hpc]) (by rw [hpc]; rfl) ⟨r, hd, Nat.pos_of_ne_zero hne⟩
  obtain ⟨hun, hsz, hloc⟩ := not_unread_of_load hload
  have hnone := hs.notify_none (by simp [hpc])
  have hcalls := h.settled (by
    rintro (⟨_, _, _, hn, -⟩ | ⟨size', hu⟩ | hpos)
    · rw [hnone] at hn
      cases hn
    · exact hun size' hu
    · omega)
  set t := s.notifyLock size next srv with ht
  have hspec : srv = { s.srv with clientsNotified := [], notify := some (size, s.srv.clients) } := by
    cases Server.trans_of_step hsrv
    rfl
  have hun' (size' : ℕ) : ¬ Unread t r size' := by
    rw [Unread, ht, hspec]
    exact hun size'
  have haw : Awaited t r ↔ s.isClient r = true := by
    simp only [Awaited, ht, hspec, System.notifyLock, isClient, List.any_eq_true, decide_eq_true_eq]
    constructor
    · rintro ⟨_, _, it, hn, hit, hc⟩
      obtain ⟨-, rfl⟩ : size = _ ∧ s.srv.clients = _ := by simpa using hn
      exact ⟨it, hit, hc⟩
    · rintro ⟨it, hit, hc⟩
      exact ⟨size, s.srv.clients, it, rfl, hit, hc⟩
  have how : Owing t r ↔ s.isClient r = true := by
    rw [← haw]
    refine ⟨?_, Or.inl⟩
    rintro (h' | ⟨size', h'⟩ | h')
    · exact h'
    · exact absurd h' (hun' size')
    · exact absurd h' (by rw [show (t.rd r).pc.locking = _ from hloc]; simp)
  have hdue : t.due r = if s.isClient r then s.due r ++ [t.frame] else s.due r := rfl
  exact
    { ready := fun hr hok => by
        rcases hr with hr | ⟨size', hr⟩ | ⟨size', hr⟩
        · exact hf hok (haw.1 hr)
        · exact absurd hr (hun' size')
        · exact absurd (Or.inl hr) (hsz size')
      sizes := fun size' hs' => by
        rcases hs' with hs' | hs'
        · exact absurd hs' (hun' size')
        · exact absurd hs' (hsz size')
      attached := fun size' hs' => absurd (Or.inr hs') (hsz size')
      last := fun size' hs' => absurd (Or.inr (Or.inr hs')) (hsz size')
      owing := fun ho => ⟨s.due r, by rw [hdue, if_pos (how.1 ho)], hcalls⟩
      settled := fun ho => by
        rw [hdue, if_neg fun hc => ho (how.2 hc)]
        exact hcalls }

/-- An update is sent to the reader. -/
theorem Served.notifySend_self (h : Served ok s r) (hb : Base s) (hs : Segs s) {size it : ℕ}
    {todo : List ℕ} {srv : Server ℕ} {l : List ℕ} (hn : s.srv.notify = some (size, it :: todo))
    (hr : s.srv.conn it = some r) (hsrv : s.srv.step (.notifySend true) = some srv) :
    Served ok { s with srv := srv, notified := l } r := by
  have hspec := Server.notifySend_spec hsrv hn hr
  have haw : Awaited s r := ⟨size, it :: todo, it, hn, List.mem_cons_self, hr⟩
  have hout : srv.out r = s.srv.out r ++ [.update size] := by
    simp only [hspec, Server.record_self]
  have hun (size' : ℕ) : Unread { s with srv := srv, notified := l } r size' ↔
      Unread s r size' ∨ size' = size := by
    unfold Unread
    show _ ∈ (srv.out r).drop (s.rd r).rcvd ↔ _
    rw [hout, List.drop_append_of_le_length (hb.rcvd r), List.mem_append, List.mem_singleton,
      SrvMsg.update.injEq]
  exact
    { ready := fun _ => h.ready (Or.inl haw)
      sizes := fun size' hs' => by
        rcases hs' with hs' | hs'
        · rcases (hun size').1 hs' with hs' | rfl
          · exact h.sizes size' (Or.inl hs')
          · exact (hs.notifying size' _ hn).1
        · exact h.sizes size' (Or.inr hs')
      attached := h.attached
      last := h.last
      owing := fun _ => h.owing (Or.inl haw)
      settled := fun ho => absurd (Or.inr (Or.inl ⟨size, (hun size).2 (Or.inr rfl)⟩)) ho }

/-- An update is sent to another reader, or a send fails. -/
theorem Served.notifySend_other (h : Served ok s r) {size it q : ℕ} {todo : List ℕ}
    {srv : Server ℕ} {okSend : Bool} {l : List ℕ} (hn : s.srv.notify = some (size, it :: todo))
    (hq : s.srv.conn it = some q) (hne : r ≠ q)
    (hsrv : s.srv.step (.notifySend okSend) = some srv) :
    Served ok { s with srv := srv, notified := l } r := by
  have hout : srv.out r = s.srv.out r := by
    cases okSend with
    | true => simp only [Server.notifySend_spec hsrv hn hq, Server.record_of_ne _ _ hne]
    | false =>
        cases Server.trans_of_step hsrv
        rfl
  have hspec : srv.notify = some (size, todo) ∧ srv.conn = s.srv.conn := by
    cases Server.trans_of_step hsrv with
    | notifySend hn' =>
        obtain ⟨rfl, rfl, rfl⟩ : size = _ ∧ it = _ ∧ todo = _ := by simpa [hn] using hn'
        exact ⟨rfl, rfl⟩
  refine h.congr rfl rfl ?_ (fun size' => ?_) rfl rfl rfl rfl fun _ _ => rfl
  · simp only [Awaited, hspec, hn]
    constructor
    · rintro ⟨size', todo', it', heq, hit, hc⟩
      obtain ⟨rfl, rfl⟩ : size = size' ∧ todo = todo' := by simpa using heq
      exact ⟨size, it :: todo, it', rfl, List.mem_cons_of_mem _ hit, hc⟩
    · rintro ⟨size', todo', it', heq, hit, hc⟩
      obtain ⟨rfl, rfl⟩ : size = size' ∧ it :: todo = todo' := by simpa using heq
      rcases List.mem_cons.1 hit with rfl | hit
      · exact absurd (Option.some.inj (hc.symm.trans hq)) hne
      · exact ⟨size, todo, it', rfl, hit, hc⟩
  · unfold Unread
    rw [hout]

/-! ### The reader's own steps -/

@[simp] theorem setRd_rd_self (s : System) (r : ℕ) (rd : Reader) : (s.setRd r rd).rd r = rd :=
  Function.update_self ..

/-- A step of the reader that changes neither its attachment nor its calls, and in which it does not
take or leave an update. -/
theorem Served.moved (h : Served ok s r) {rd : Reader} {f released : ℕ → ℕ}
    (hun : ∀ size, .update size ∈ (s.srv.out r).drop rd.rcvd ↔ Unread s r size)
    (h1 : rd.shm = (s.rd r).shm) (h2 : rd.curSize = (s.rd r).curSize)
    (h3 : rd.calls = (s.rd r).calls) (h4 : rd.pc.locking = (s.rd r).pc.locking)
    (h5 : ∀ size, rd.pc.Sized size → rd.pc = (s.rd r).pc) :
    Served ok (setRd { s with sem := f, released := released } r rd) r := by
  refine h.congr rfl rfl Iff.rfl (fun size => ?_) ?_ ?_ ?_ ?_ ?_
  · rw [Unread, setRd_rd_self]
    exact hun size
  · rw [setRd_rd_self, h1]
  · rw [setRd_rd_self, h2]
  · rw [setRd_rd_self, h3]
  · rw [setRd_rd_self, h4]
  · rw [setRd_rd_self]
    exact h5

/-- The reader reads a message that is not an update. -/
theorem Served.received (h : Served ok s r) {rd : Reader} {m : SrvMsg ℕ}
    (hm : (s.srv.out r)[(s.rd r).rcvd]? = some m) (hu : m.isUpdate = false)
    (hpc : (s.rd r).pc = .idle) (h1 : rd.rcvd = (s.rd r).rcvd + 1) (h2 : rd.shm = (s.rd r).shm)
    (h3 : rd.curSize = (s.rd r).curSize) (h4 : rd.calls = (s.rd r).calls)
    (h5 : rd.pc = .idle ∨ rd.pc = .closed) : Served ok (s.setRd r rd) r := by
  refine h.moved (fun size => ?_) h2 h3 h4 ?_ (fun size hs => ?_)
  · unfold Unread
    rw [h1, (Base.drop_eq hm).2, List.mem_cons]
    refine ⟨Or.inr, fun h' => h'.resolve_left ?_⟩
    rintro rfl
    cases hu
  · rcases h5 with h5 | h5 <;> simp [h5, hpc]
  · rcases h5 with h5 | h5 <;> simp [h5, Reader.Pc.Sized] at hs

/-- The constructor attaches the segment, before anything is read. -/
theorem Served.attach (h : Served ok s r) (hb : Base s) {g : ℕ} (hpc : (s.rd r).pc = .attach)
    (hz : (s.rd r).rcvd = 0) : Served ok (s.setRd r { s.rd r with shm := some g, pc := .idle }) r := by
  have hack : s.srv.acked r = false := by
    by_contra hne
    have := hb.acked r (Or.inl (Bool.not_eq_false _ ▸ hne))
    omega
  have haw : ¬ Awaited s r := fun h' => by
    obtain ⟨fd, hs⟩ := h'.serving hb
    rw [(hb.wf.streams.serving fd r hs).2] at hack
    cases hack
  have hun (size : ℕ) : ¬ Unread s r size := fun h' => by
    rw [hb.wf.streams.acked r size (List.mem_of_mem_drop h')] at hack
    cases hack
  set t := s.setRd r { s.rd r with shm := some g, pc := .idle } with ht
  have hself : t.rd r = { s.rd r with shm := some g, pc := .idle } := Function.update_self ..
  have hun' (size : ℕ) : ¬ Unread t r size := by
    rw [Unread, hself]
    exact hun size
  have hpc' : (t.rd r).pc = .idle := by rw [hself]
  exact
    { ready := fun hr _ => by
        rcases hr with hr | ⟨size, hr⟩ | ⟨size, hr⟩
        · exact absurd hr haw
        · exact absurd hr (hun' size)
        · rw [hpc'] at hr
          cases hr
      sizes := fun size hs => by
        rcases hs with hs | hs
        · exact absurd hs (hun' size)
        · rw [hpc'] at hs
          rcases hs with hs | hs | hs <;> cases hs
      attached := fun size hs => by
        rw [hpc'] at hs
        rcases hs with hs | hs <;> cases hs
      last := fun size hs => by
        rw [hpc'] at hs
        cases hs
      owing := fun ho => by
        rcases ho with ho | ⟨size, ho⟩ | ho
        · exact absurd ho haw
        · exact absurd ho (hun' size)
        · rw [hpc'] at ho
          exact absurd ho (lt_irrefl _)
      settled := fun _ => by
        rw [hself]
        refine h.settled ?_
        rintro (ho | ⟨size, ho⟩ | ho)
        · exact haw ho
        · exact hun size ho
        · rw [hpc] at ho
          exact absurd ho (lt_irrefl _) }

/-- The reader takes an update out of its socket. -/
theorem Served.receiveUpdate (h : Served ok s r) {size : ℕ}
    (hm : (s.srv.out r)[(s.rd r).rcvd]? = some (.update size)) :
    Served ok (s.setRd r { s.rd r with rcvd := (s.rd r).rcvd + 1, pc := .update size }) r := by
  have hdrop := (Base.drop_eq hm).2
  have hun : Unread s r size := by
    rw [Unread, hdrop]
    exact List.mem_cons_self
  set t := s.setRd r { s.rd r with rcvd := (s.rd r).rcvd + 1, pc := .update size } with ht
  have hself : t.rd r = { s.rd r with rcvd := (s.rd r).rcvd + 1, pc := .update size } :=
    Function.update_self ..
  have hpc : (t.rd r).pc = .update size := by rw [hself]
  have hun' (size' : ℕ) (hu : Unread t r size') : Unread s r size' := by
    rw [Unread, hself] at hu
    rw [Unread, hdrop]
    exact List.mem_cons_of_mem _ hu
  exact
    { ready := fun _ hok => by
        rw [hself]
        exact h.ready (Or.inr (Or.inl ⟨size, hun⟩)) hok
      sizes := fun size' hs => by
        rcases hs with hs | hs
        · exact h.sizes size' (Or.inl (hun' size' hs))
        · rw [hpc] at hs
          obtain rfl : size = size' := by simpa [Reader.Pc.Sized] using hs
          exact h.sizes size (Or.inl hun)
      attached := fun size' hs => by
        rw [hpc] at hs
        rcases hs with hs | hs <;> cases hs
      last := fun size' hs => by
        rw [hpc] at hs
        cases hs
      owing := fun _ => by
        rw [hself]
        exact h.owing (Or.inr (Or.inl ⟨size, hun⟩))
      settled := fun ho => absurd (Or.inr (Or.inr (by rw [hpc]; exact Nat.one_pos))) ho }

/-- The reader compares the size of the update with the last one, and looks up the segment when they
differ. -/
theorem Served.update (h : Served ok s r) {size : ℕ} (hpc : (s.rd r).pc = .update size)
    (hkey : s.key = some s.frame.seg) :
    Served ok (s.setRd r { s.rd r with
      shm := if size ≠ (s.rd r).curSize then s.key else (s.rd r).shm
      curSize := size
      pc := .readStart size }) r := by
  have hsize := h.sizes size (Or.inr (Or.inl hpc))
  have hshm (hok : ok s.frame) : (if size ≠ (s.rd r).curSize then s.key else (s.rd r).shm) =
      some s.frame.seg := by
    split
    · exact hkey
    · next heq =>
        rw [not_not] at heq
        refine (h.ready (Or.inr (Or.inr ⟨size, hpc⟩)) hok).resolve_right ?_
        rw [← heq, hsize]
        exact not_not.2 rfl
  set t := s.setRd r { s.rd r with
    shm := if size ≠ (s.rd r).curSize then s.key else (s.rd r).shm
    curSize := size
    pc := .readStart size } with ht
  have hself : t.rd r = { s.rd r with
    shm := if size ≠ (s.rd r).curSize then s.key else (s.rd r).shm
    curSize := size
    pc := .readStart size } := Function.update_self ..
  have hpc' : (t.rd r).pc = .readStart size := by rw [hself]
  have hun (size' : ℕ) (hu : Unread t r size') : Unread s r size' := by
    rwa [Unread, hself] at hu
  exact
    { ready := fun _ hok => by
        rw [hself]
        exact Or.inl (hshm hok)
      sizes := fun size' hs => by
        rcases hs with hs | hs
        · exact h.sizes size' (Or.inl (hun size' hs))
        · rw [hpc'] at hs
          obtain rfl : size = size' := by simpa [Reader.Pc.Sized] using hs
          exact hsize
      attached := fun _ _ hok => by
        rw [hself]
        exact hshm hok
      last := fun size' hs => by
        rw [hpc'] at hs
        cases hs
      owing := fun _ => by
        rw [hself]
        exact h.owing (Or.inr (Or.inr (by rw [hpc]; exact Nat.one_pos)))
      settled := fun ho => absurd (Or.inr (Or.inr (by rw [hpc']; exact Nat.one_pos))) ho }

/-- The reader gets its `ReadLock` and is called with the bytes of the frame. -/
theorem Served.readStart (h : Served ok s r) (hok : ∀ f : Frame, f.size ≠ 0 → ok f) (ha : Acc s)
    (hs : Segs s) {size : ℕ} (hd : (s.rd r).dead = false) (hpc : (s.rd r).pc = .readStart size)
    (hf : s.sem 1 = 0) :
    Served ok (s.setRd r { s.rd r with
      pc := .onData size
      calls := (s.rd r).calls ++ [⟨size, (s.rd r).shm, s.bytesAt r size⟩] }) r := by
  have hheld : s.w.pc.held = false := by
    by_contra hne
    rw [Bool.not_eq_false] at hne
    rw [ha.base.held, hne] at hf
    cases hf
  have hsize := h.sizes size (Or.inr (Or.inr (Or.inl hpc)))
  have hun := ha.not_unread_of_busy (by rw [hpc]; rfl : (s.rd r).pc.busy = 1)
  have haw : ¬ Awaited s r := by
    rintro ⟨_, _, _, hn, -⟩
    obtain ⟨-, next, hw⟩ := hs.notifying _ _ hn
    rw [hw] at hheld
    cases hheld
  obtain ⟨done, hdue, hcalls⟩ := h.owing (Or.inr (Or.inr (by rw [hpc]; exact Nat.one_pos)))
  have hgood : Good ok s.frame ⟨size, (s.rd r).shm, s.bytesAt r size⟩ :=
    { size := hsize
      seg := h.attached size (Or.inl hpc)
      bytes := fun d hdata => by
        have hlen : size = d.length := hsize.trans (hs.size d hdata)
        show s.bytesAt r size = d
        by_cases hz : size = 0
        · rw [List.eq_nil_of_length_eq_zero (hlen.symm.trans hz), System.bytesAt, hz]
          split <;> rfl
        · have hshm := h.attached size (Or.inl hpc) (hok s.frame (hsize ▸ hz))
          have hpend : Pending s := ⟨r, hd, pending_of_busy (by rw [hpc]; rfl)⟩
          rw [System.bytesAt, hshm, hlen]
          exact hs.written (Or.inl hheld) hpend d hdata }
  set t := s.setRd r { s.rd r with
    pc := .onData size
    calls := (s.rd r).calls ++ [⟨size, (s.rd r).shm, s.bytesAt r size⟩] } with ht
  have hself : t.rd r = { s.rd r with
    pc := .onData size
    calls := (s.rd r).calls ++ [⟨size, (s.rd r).shm, s.bytesAt r size⟩] } := Function.update_self ..
  have hpc' : (t.rd r).pc = .onData size := by rw [hself]
  have hun' (size' : ℕ) : ¬ Unread t r size' := by
    rw [Unread, hself]
    exact hun size'
  exact
    { ready := fun hr _ => by
        rcases hr with hr | ⟨size', hr⟩ | ⟨size', hr⟩
        · exact absurd hr haw
        · exact absurd hr (hun' size')
        · rw [hpc'] at hr
          cases hr
      sizes := fun size' hs' => by
        rcases hs' with hs' | hs'
        · exact absurd hs' (hun' size')
        · rw [hpc'] at hs'
          obtain rfl : size = size' := by simpa [Reader.Pc.Sized] using hs'
          exact hsize
      attached := fun _ _ hok' => by
        rw [hself]
        exact h.attached size (Or.inl hpc) hok'
      last := fun _ _ => ⟨done, hdue⟩
      owing := fun ho => by
        rcases ho with ho | ⟨size', ho⟩ | ho
        · exact absurd ho haw
        · exact absurd ho (hun' size')
        · rw [hpc'] at ho
          exact absurd ho (lt_irrefl _)
      settled := fun _ => by
        rw [hself]
        show List.Forall₂ (Good ok) (s.due r) _
        rw [hdue]
        exact List.rel_append hcalls (List.Forall₂.cons hgood List.Forall₂.nil) }

/-! ### Every step -/

/-- At a notification every live client is attached to the current segment or will look it up, if the
segment matters for the frame. -/
def Fresh (ok : Frame → Prop) (s : System) (a : Act) : Prop :=
  ∀ size next, a = .writer → s.w.pc = .notify size next → ok ⟨size, s.w.shm, next.data⟩ →
    ∀ r, s.isClient r = true → (s.rd r).dead = false →
      (s.rd r).shm = some s.w.shm ∨ (s.rd r).curSize ≠ size

namespace Delivers

/-- The constructor of a reader attaches the segment before the client thread reads anything. -/
theorem attach_of_step {a : Act} (hs : ∀ r, (s.rd r).pc = .attach → (s.rd r).rcvd = 0)
    (h : s.step a = some t) (r : ℕ) (hpc : (t.rd r).pc = .attach) : (t.rd r).rcvd = 0 := by
  have hset {q : ℕ} {rd : Reader} (hpc : (Function.update s.rd q rd r).pc = .attach)
      (hrd : rd.pc = .attach → rd.pc = (s.rd q).pc ∧ rd.rcvd = (s.rd q).rcvd) :
      (Function.update s.rd q rd r).rcvd = 0 := by
    by_cases hq : r = q
    · subst hq
      rw [Function.update_self] at hpc ⊢
      obtain ⟨h1, h2⟩ := hrd hpc
      rw [h2]
      exact hs r (h1 ▸ hpc)
    · rw [Function.update_of_ne hq] at hpc ⊢
      exact hs r hpc
  cases trans_of_step h with
  | @locked op _ =>
      obtain ⟨w, key, heq, -⟩ := s.locked_eq op
      rw [heq] at hpc ⊢
      exact hs r hpc
  | take | quit | die => exact hset hpc fun _ => ⟨rfl, rfl⟩
  | receiveConnect _ _ hpc' => exact hset hpc fun h => by simp [hpc'] at h
  | attach | receiveUpdate | receiveQuit | receiveEof | update | readStart | readEnd =>
      exact hset hpc fun h => by cases h
  | _ => exact hs r hpc

/-- While a live reader has an update to deal with, the key leads to the segment of the frame. -/
theorem key_of_pending (hi : Delivers ok s) (hp : Pending s) : s.key = some s.frame.seg := by
  rw [hi.segs.pending hp]
  refine hi.segs.key ?_
  cases hpc : s.w.pc with
  | create size next =>
      refine absurd hp (hi.acc.not_pending ?_ (by rw [hpc]; rfl))
      cases next with
      | copy data => simp [hpc]
      | access => simp [hpc, hi.segs.create size hpc]
  | _ => rfl

/-- The own step of a live reader. -/
theorem served_of_reader (hi : Delivers ok s) (hok : ∀ f : Frame, f.size ≠ 0 → ok f)
    (h : s.step (.reader r) = some t) (hd : (s.rd r).dead = false) : Served ok t r := by
  have hs := hi.served r hd
  cases trans_of_step h with
  | attach hr _ hpc hg => exact hs.attach hi.acc.base hpc (hi.attach r hpc)
  | receiveConnect hr _ hpc hm => exact hs.received hm rfl hpc rfl rfl rfl rfl (Or.inl hpc)
  | receiveUpdate hr _ hpc hm => exact hs.receiveUpdate hm
  | receiveQuit hr _ hpc hm => exact hs.received hm rfl hpc rfl rfl rfl rfl (Or.inr rfl)
  | receiveEof hr _ hpc hm hc =>
      exact hs.moved (fun _ => Iff.rfl) rfl rfl rfl (by rw [hpc]; rfl)
        (by simp [Reader.Pc.Sized])
  | update hr _ hpc =>
      exact hs.update hpc (hi.key_of_pending ⟨r, hd, pending_of_busy (by rw [hpc]; rfl)⟩)
  | readStart hr _ hpc hf => exact hs.readStart hok hi.acc hi.segs hd hpc hf
  | readEnd hr _ hpc hf =>
      exact hs.moved (fun _ => Iff.rfl) rfl rfl rfl (by rw [hpc]; rfl) (by simp [Reader.Pc.Sized])

/-- What a step leaves to a reader that was and is alive. -/
theorem served_of_step {a : Act} (hi : Delivers ok s) (hok : ∀ f : Frame, f.size ≠ 0 → ok f)
    (hf : Fresh ok s a) (h : s.step a = some t) (hd : (s.rd r).dead = false)
    (hd' : (t.rd r).dead = false) : Served ok t r := by
  have hs := hi.served r hd
  have hset {q : ℕ} {rd : Reader} {u : System} (hr : r ≠ q) (hu : u = s.setRd q rd) :
      Served ok u r := by
    subst hu
    exact hs.frame rfl (Function.update_of_ne hr ..) rfl rfl
  by_cases hme : a = .reader r
  · subst hme
    exact hi.served_of_reader hok h hd
  cases trans_of_step h with
  | @locked op hpc =>
      obtain ⟨w, key, heq, -⟩ := s.locked_eq op
      rw [heq]
      exact hs.frame rfl rfl rfl rfl
  | notifyLock hpc hsrv =>
      exact hs.notifyLock hi.acc hi.segs hd hpc hsrv fun hokf hc => hf _ _ rfl hpc hokf r hc hd
  | @notifySend size it todo next srv hpc hn hsrv =>
      obtain ⟨-, -, q, hq⟩ := hi.acc.base.wf.lists.notify_head hn
      by_cases hr : r = q
      · subst hr
        -- a live client has its socket open
        obtain ⟨fd, hserv⟩ := Awaited.serving
          ⟨size, it :: todo, it, hn, List.mem_cons_self, hq⟩ hi.acc.base
        rw [hq, Option.any_some, hi.mail.isOpen_of_serving hi.acc.base hserv hd] at hsrv
        exact hs.notifySend_self hi.acc.base hi.segs hn hq hsrv
      · exact hs.notifySend_other hn hq hr hsrv
  | notifyUnlock hpc hsrv =>
      cases Server.trans_of_step hsrv with
      | notifyUnlock hn =>
          refine hs.congr rfl rfl ?_ (fun _ => Iff.rfl) rfl rfl rfl rfl fun _ _ => rfl
          simp only [Awaited, hn]
          constructor
          · rintro ⟨_, _, _, h', -⟩
            cases h'
          · rintro ⟨_, _, it, h', hit, -⟩
            cases h'
            cases hit
  | server hk hsrv hsp => exact hs.server hi.acc.base hsrv
  | @take it todo q srv hpc hr hdata hsrv =>
      have hs' := hs.server hi.acc.base hsrv
      by_cases hq : r = q
      · subst hq
        exact hs'.moved (fun _ => Iff.rfl) rfl rfl rfl rfl fun _ _ => rfl
      · exact hs'.frame rfl (Function.update_of_ne hq ..) rfl rfl
  | cancel hpc hf' hsrv => exact (hs.server hi.acc.base hsrv).frame rfl rfl rfl rfl
  | @attach q | @receiveConnect q | @receiveUpdate q | @receiveQuit q | @receiveEof q | @update q
  | @readStart q => exact hset (fun h' => hme (by rw [h'])) rfl
  | @readEnd q size f hr _ hpc _ =>
      exact hs.frame rfl (Function.update_of_ne (fun h' => hme (by rw [h'])) ..) rfl rfl
  | @quit q hr ho hc hq =>
      by_cases hrq : r = q
      · subst hrq
        exact hs.moved (fun _ => Iff.rfl) rfl rfl rfl rfl fun _ _ => rfl
      · exact hset hrq rfl
  | @die q hr ho =>
      refine hset ?_ rfl
      rintro rfl
      rw [setRd_rd_self] at hd'
      cases hd'
  | _ => exact hs.frame rfl rfl rfl rfl

/-- **Every step of an ordered run in which the sign is right keeps the deliveries.** -/
theorem step {a : Act} (hi : Delivers ok s) (hok : ∀ f : Frame, f.size ≠ 0 → ok f)
    (ho : Ordered s a) (hf : Fresh ok s a) (h : s.step a = some t) : Delivers ok t where
  acc := hi.acc.step (by cases a <;> first | rfl | exact ho.elim) h
  mail := hi.mail.step hi.acc.base h
  segs := hi.segs.step hi.acc ho h
  attach := attach_of_step hi.attach h
  served r hd := by
    refine hi.served_of_step hok hf h ?_ hd
    by_contra hne
    rw [((moves_of_step h r).dead (Bool.not_eq_false _ ▸ hne)).1] at hd
    cases hd

end Delivers

end System

end Shmdata

/-
**Frame delivery with automatic resizing.**

A writer that uses `copy_to_shm` alone recreates its segment only for a frame that is larger than every
frame before.  So a client that is not attached to the current segment has read smaller frames only, or
none at all, and the sign it looks for, a change of the size, is right for every frame that has a byte
in it.  The one exception is harmless: a reader that attached its segment before it became a client,
and before the segment was replaced, does not look it up for an empty frame, since its last size is `0`
from the start.

Main definitions:

* `Shmdata.System.CopyOnly` — the writer uses `copy_to_shm`, no reset fires and nobody dies;
* `Shmdata.System.Copies` — **the invariant of the sizes**.

Main results:

* `Shmdata.System.Copies.step` — every step keeps it;
* `Shmdata.System.delivery` — **every reader is given its frames, in order and whole**;
* `Shmdata.System.emptyFrame_stale` — a run in which a reader is given the memory of a removed segment
  for an empty frame.
-/

import Shmdata.Stale

set_option relaxedAutoImplicit false
set_option autoImplicit false

namespace Shmdata

/-- The places of a writer that uses `copy_to_shm` alone. -/
@[simp] def Writer.Pc.forCopy : Writer.Pc → Bool
  | .writeStart (.copyToShm _) | .locked (.copyToShm _) => true
  | .create _ (.copy _) | .notify _ (.copy _) | .notifying (.copy _) | .commit _ (.copy _) => true
  | .idle | .memcpy _ | .writeEnd => true
  | _ => false

namespace System

open SysV Semops Runs

variable {s t : System} {r : ℕ}

/-- The writer uses `copy_to_shm`, no reset fires and nobody dies. -/
def CopyOnly (_ : System) : Act → Prop
  | .call op => ∃ data, op = .copyToShm data
  | .reset | .die _ => False
  | _ => True

instance (s : System) (a : Act) : Decidable (CopyOnly s a) :=
  match a with
  | .call (.copyToShm data) => isTrue ⟨data, rfl⟩
  | .call .getOneWriteAccess => isFalse fun ⟨_, h⟩ => by cases h
  | .call (.getOneWriteAccessResize _) => isFalse fun ⟨_, h⟩ => by cases h
  | .call (.getOneWriteAccessPtrResize _) => isFalse fun ⟨_, h⟩ => by cases h
  | .reset | .die _ => inferInstanceAs (Decidable False)
  | .shmResize _ | .writer | .notifyClients _ | .write _ | .release | .server _ | .connect
  | .reader _ | .quit _ => inferInstanceAs (Decidable True)

/-- The frames with a byte in them. -/
def NonEmpty (f : Frame) : Prop := 0 < f.size

/-- The reader is attached to the current segment, or has read nothing but empty frames. -/
def Attached (s : System) (r : ℕ) : Prop :=
  (s.rd r).shm = some s.w.shm ∨ (s.rd r).curSize = 0

/-- A new segment is there for a frame that is larger than all those the reader has read. -/
def Larger (s : System) (r : ℕ) : Prop :=
  s.w.pc.notifies = some s.w.shmSize ∧ (s.rd r).curSize < s.w.shmSize

/-- The invariant of the sizes. -/
structure Copies (s : System) : Prop where
  forCopy : s.w.pc.forCopy = true
  live : ∀ r, (s.rd r).dead = false
  create : ∀ size next, s.w.pc = .create size next → s.w.shmSize < size
  notify : ∀ size next, s.w.pc = .notify size next → size ≤ s.w.shmSize
  frame : s.frame.size ≤ s.w.shmSize
  due : ∀ r, ∀ f ∈ s.due r, ∃ d, f.data = some d ∧ f.size = d.length
  le : ∀ r, (s.rd r).curSize ≤ s.w.shmSize
  acked : ∀ r, (s.rd r).curSize ≠ 0 → s.srv.acked r = true
  sized : ∀ r size, (s.rd r).pc = .readStart size ∨ (s.rd r).pc = .onData size →
    (s.rd r).curSize = size
  clients : ∀ r, s.isClient r = true → Attached s r ∨ Larger s r ∨ Owing s r

theorem copies_init (lfd memsize : ℕ) : Copies (init lfd memsize) where
  forCopy := rfl
  live := by simp [init, Reader.init]
  create := by simp [init]
  notify := by simp [init]
  frame := by simp [init]
  due := by simp [init]
  le := by simp [init, Reader.init]
  acked := by simp [init, Reader.init]
  sized := by simp [init, Reader.init]
  clients := by simp [init, Server.init, isClient]

/-- Before the lock's first update is sent, no live reader has one to deal with. -/
theorem not_owing_of_notify (ha : Acc s) (hs : Segs s) {size : ℕ} {next : Writer.Next}
    (hpc : s.w.pc = .notify size next) (hd : (s.rd r).dead = false) : ¬ Owing s r := by
  have hload : s.load r = 0 := by
    by_contra hne
    exact ha.not_pending (by simp [hpc]) (by rw [hpc]; rfl) ⟨r, hd, Nat.pos_of_ne_zero hne⟩
  obtain ⟨hun, -, hloc⟩ := not_unread_of_load hload
  rintro (⟨_, _, _, hn, -⟩ | ⟨size', hu⟩ | hpos)
  · rw [hs.notify_none (by simp [hpc])] at hn
    cases hn
  · exact hun size' hu
  · omega

/-- **The sign is right for every frame with a byte in it.** -/
theorem Copies.fresh (hc : Copies s) (ha : Acc s) (hs : Segs s) (a : Act) : Fresh NonEmpty s a := by
  intro size next _ hpc hpos r hcl hd
  replace hpos : 0 < size := hpos
  rcases hc.clients r hcl with (h | h) | ⟨hn, hlt⟩ | h
  · exact Or.inl h
  · exact Or.inr (by omega)
  · obtain rfl : size = s.w.shmSize := by simpa [hpc] using hn
    exact Or.inr (by omega)
  · exact absurd h (not_owing_of_notify ha hs hpc hd)

/-- An acknowledgement stays, and a client that was none has just been acknowledged. -/
theorem client_of_thread (hb : Base s) {ev : Server.Ev} {srv : Server ℕ}
    (h : s.srv.step (.thread ev) = some srv) (r : ℕ) :
    (s.srv.acked r = true → srv.acked r = true) ∧
      (isClient { s with srv := srv } r = true → s.isClient r = true ∨ s.srv.acked r = false) := by
  simp only [isClient, List.any_eq_true, decide_eq_true_eq]
  cases Server.trans_of_step h with
  | @accepted fd hpc hc hl =>
      refine ⟨id, ?_⟩
      rintro ⟨fd', hfd', hc'⟩
      by_cases hfd : fd' = fd
      · obtain rfl : s.srv.nconn = r := by simpa [hfd] using hc'
        exact Or.inr (hb.wf.streams.fresh _ le_rfl).2
      · exact Or.inl ⟨fd', hfd', by simpa [hfd] using hc'⟩
  | dropped hpc | pendingDropped hpc =>
      refine ⟨id, ?_⟩
      rintro ⟨fd', hfd', hc'⟩
      exact Or.inl ⟨fd', hfd', (Server.update_none_eq_some.1 hc').2⟩
  | erased hpc =>
      refine ⟨id, ?_⟩
      rintro ⟨fd', hfd', hc'⟩
      rw [← List.diff_eq_foldl, hb.wf.lists.nodupClients.mem_sdiff_iff] at hfd'
      exact Or.inl ⟨fd', hfd'.1, hc'⟩
  | @ackRead it todo hpc hr =>
      obtain ⟨hp, hrm⟩ := hb.wf.lists.pend_head (i := it) (l := todo) (by simp [hpc])
      refine ⟨Server.mark_mono _ _, ?_⟩
      rintro ⟨fd', hfd', hc'⟩
      rcases List.mem_append.1 hfd' with hfd' | hfd'
      · exact Or.inl ⟨fd', hfd', hc'⟩
      · obtain rfl := List.mem_singleton.1 hfd'
        exact Or.inr (hb.wf.streams.waiting fd' r ⟨hp, hrm, hc'⟩).2
  | _ => exact ⟨id, Or.inl⟩

namespace Copies

/-! ### Steps of the serving thread and of the readers -/

/-- A step outside the writer's thread that leaves the attachments alone. -/
theorem kept (hc : Copies s) (h1 : t.w = s.w) (h2 : t.frame = s.frame) (h3 : t.due = s.due)
    (hrd : ∀ r, (t.rd r).shm = (s.rd r).shm ∧ (t.rd r).curSize = (s.rd r).curSize ∧
      (t.rd r).dead = (s.rd r).dead)
    (hsized : ∀ r size, (t.rd r).pc = .readStart size ∨ (t.rd r).pc = .onData size →
      (s.rd r).pc = .readStart size ∨ (s.rd r).pc = .onData size)
    (hack : ∀ r, s.srv.acked r = true → t.srv.acked r = true)
    (hcl : ∀ r, t.isClient r = true → s.isClient r = true ∨ s.srv.acked r = false)
    (how : ∀ r, Owing s r → Owing t r ∨ Attached s r) : Copies t where
  forCopy := by rw [h1]; exact hc.forCopy
  live r := by rw [(hrd r).2.2]; exact hc.live r
  create := by rw [h1]; exact hc.create
  notify := by rw [h1]; exact hc.notify
  frame := by rw [h1, h2]; exact hc.frame
  due := by rw [h3]; exact hc.due
  le r := by rw [h1, (hrd r).2.1]; exact hc.le r
  acked r h := hack r (hc.acked r ((hrd r).2.1 ▸ h))
  sized r size h := by rw [(hrd r).2.1]; exact hc.sized r size (hsized r size h)
  clients r h := by
    have hat : Attached s r → Attached t r := by
      unfold Attached
      rw [h1, (hrd r).1, (hrd r).2.1]
      exact id
    have hla : Larger s r → Larger t r := by
      unfold Larger
      rw [h1, (hrd r).2.1]
      exact id
    rcases hcl r h with h | h
    · rcases hc.clients r h with h | h | h
      · exact Or.inl (hat h)
      · exact Or.inr (Or.inl (hla h))
      · rcases how r h with h | h
        · exact Or.inr (Or.inr h)
        · exact Or.inl (hat h)
    · -- it has just been acknowledged, and has read nothing
      refine Or.inl (hat (Or.inr ?_))
      by_contra hne
      rw [hc.acked r hne] at h
      cases h

/-- A step of the serving thread. -/
theorem server (hc : Copies s) (hb : Base s) {ev : Server.Ev} {srv : Server ℕ}
    (h : s.srv.step (.thread ev) = some srv) : Copies { s with srv := srv } := by
  refine hc.kept rfl rfl rfl (fun _ => ⟨rfl, rfl, rfl⟩) (fun _ _ h => h)
    (fun r => (client_of_thread hb h r).1) (fun r => (client_of_thread hb h r).2)
    (fun r ho => Or.inl ?_)
  rcases ho with ho | ⟨size, ho⟩ | ho
  · exact Or.inl ((awaited_iff_server hb h r).2 ho)
  · exact Or.inr (Or.inl ⟨size, (unread_iff_server hb h r size).2 ho⟩)
  · exact Or.inr (Or.inr ho)

/-- A step of a reader that leaves its attachment alone. -/
theorem readerMoved (hc : Copies s) {q : ℕ} {rd : Reader} {f released : ℕ → ℕ}
    (h1 : rd.shm = (s.rd q).shm) (h2 : rd.curSize = (s.rd q).curSize) (h3 : rd.dead = (s.rd q).dead)
    (hsized : ∀ size, rd.pc = .readStart size ∨ rd.pc = .onData size →
      (s.rd q).pc = .readStart size ∨ (s.rd q).pc = .onData size)
    (how : (∃ size, Unread s q size) ∨ 0 < (s.rd q).pc.locking →
      (∃ size, .update size ∈ (s.srv.out q).drop rd.rcvd) ∨ 0 < rd.pc.locking ∨ Attached s q) :
    Copies (setRd { s with sem := f, released := released } q rd) := by
  set t := setRd { s with sem := f, released := released } q rd with ht
  have hself : t.rd q = rd := Function.update_self ..
  have hne {r : ℕ} (h : r ≠ q) : t.rd r = s.rd r := Function.update_of_ne h ..
  refine hc.kept rfl rfl rfl (fun r => ?_) (fun r size => ?_) (fun _ => id) (fun _ => Or.inl)
    (fun r ho => ?_)
  · by_cases h : r = q
    · subst h; rw [hself]; exact ⟨h1, h2, h3⟩
    · rw [hne h]; exact ⟨rfl, rfl, rfl⟩
  · by_cases h : r = q
    · subst h; rw [hself]; exact hsized size
    · rw [hne h]; exact id
  · by_cases h : r = q
    · subst h
      rcases ho with ho | ho
      · exact Or.inl (Or.inl ho)
      · rcases how ho with ⟨size, h⟩ | h | h
        · refine Or.inl (Or.inr (Or.inl ⟨size, ?_⟩))
          rw [Unread, hself]
          exact h
        · refine Or.inl (Or.inr (Or.inr ?_))
          rw [hself]
          exact h
        · exact Or.inr h
    · left
      unfold Owing Unread at ho ⊢
      rw [hne h]
      exact ho

/-- The reader reads a message that is not an update. -/
theorem received (hc : Copies s) {q : ℕ} {rd : Reader} {m : SrvMsg ℕ}
    (hm : (s.srv.out q)[(s.rd q).rcvd]? = some m) (hu : m.isUpdate = false)
    (hpc : (s.rd q).pc = .idle) (h1 : rd.rcvd = (s.rd q).rcvd + 1) (h2 : rd.shm = (s.rd q).shm)
    (h3 : rd.curSize = (s.rd q).curSize) (h4 : rd.dead = (s.rd q).dead)
    (h5 : rd.pc = .idle ∨ rd.pc = .closed) : Copies (s.setRd q rd) := by
  refine hc.readerMoved h2 h3 h4 (fun size h => ?_) (fun h => Or.inl ?_)
  · rcases h5 with h5 | h5 <;> simp [h5] at h
  · rcases h with ⟨size, h⟩ | h
    · refine ⟨size, ?_⟩
      rw [Unread, (Base.drop_eq hm).2, List.mem_cons] at h
      rw [h1]
      refine h.resolve_left ?_
      rintro rfl
      cases hu
    · rw [hpc] at h
      exact absurd h (lt_irrefl _)

/-- A reader with a lock in hand, or about to get it, is attached. -/
theorem attached_of_locked (hc : Copies s) (hi : Delivers NonEmpty s) {size : ℕ}
    (hpc : (s.rd r).pc = .readStart size ∨ (s.rd r).pc = .onData size) : Attached s r := by
  have hs := hi.served r (hc.live r)
  have hsize := hs.sizes size (Or.inr (Or.inr hpc))
  have hbusy : (s.rd r).pc.busy = 1 := by rcases hpc with h | h <;> rw [h] <;> rfl
  by_cases hz : size = 0
  · exact Or.inr ((hc.sized r size hpc).trans hz)
  · left
    have hpos : NonEmpty s.frame := Nat.pos_of_ne_zero (hsize ▸ hz)
    rw [hs.attached size hpc hpos,
      hi.segs.pending ⟨r, hc.live r, pending_of_busy hbusy⟩]

/-- The constructor attaches the segment, before the reader is a client. -/
theorem attach (hc : Copies s) (hi : Delivers NonEmpty s) {q g : ℕ}
    (hpc : (s.rd q).pc = .attach) :
    Copies (s.setRd q { s.rd q with shm := some g, pc := .idle }) := by
  have hcur : (s.rd q).curSize = 0 := by
    by_contra hne
    have := hi.acc.base.acked q (Or.inl (hc.acked q hne))
    rw [hi.attach q hpc] at this
    exact absurd this (lt_irrefl _)
  set t := s.setRd q { s.rd q with shm := some g, pc := .idle } with ht
  have hself : t.rd q = { s.rd q with shm := some g, pc := .idle } := Function.update_self ..
  have hne {r : ℕ} (h : r ≠ q) : t.rd r = s.rd r := Function.update_of_ne h ..
  have hcurSize (r : ℕ) : (t.rd r).curSize = (s.rd r).curSize := by
    by_cases h : r = q
    · subst h; rw [hself]
    · rw [hne h]
  exact
    { hc with
      live := fun r => by
        by_cases h : r = q
        · subst h; rw [hself]; exact hc.live r
        · rw [hne h]; exact hc.live r
      le := fun r => by rw [hcurSize]; exact hc.le r
      acked := fun r => by rw [hcurSize]; exact hc.acked r
      sized := fun r size => by
        by_cases h : r = q
        · subst h; rw [hself]; exact fun h => by simp at h
        · rw [hne h]; exact hc.sized r size
      clients := fun r hcl => by
        by_cases h : r = q
        · subst h
          exact Or.inl (Or.inr ((hcurSize r).trans hcur))
        · have := hc.clients r hcl
          unfold Attached Larger Owing Unread at this ⊢
          rw [hne h]
          exact this }

/-- The reader compares the sizes. -/
theorem update (hc : Copies s) (hi : Delivers NonEmpty s) {q size : ℕ}
    (hpc : (s.rd q).pc = .update size) :
    Copies (s.setRd q { s.rd q with
      shm := if size ≠ (s.rd q).curSize then s.key else (s.rd q).shm
      curSize := size
      pc := .readStart size }) := by
  have hsize := (hi.served q (hc.live q)).sizes size (Or.inr (Or.inl hpc))
  have hack : s.srv.acked q = true := by
    have hpos : 0 < s.sent q := by
      rw [← hi.acc.base.taken q]
      have : 0 < s.load q := pending_of_busy (by rw [hpc]; rfl)
      omega
    obtain ⟨m, hm, hu⟩ := List.countP_pos_iff.1 hpos
    cases m with
    | update n => exact hi.acc.base.wf.streams.acked q n hm
    | connect | quit => cases hu
  set t := s.setRd q { s.rd q with
    shm := if size ≠ (s.rd q).curSize then s.key else (s.rd q).shm
    curSize := size
    pc := .readStart size } with ht
  have hself : t.rd q = { s.rd q with
    shm := if size ≠ (s.rd q).curSize then s.key else (s.rd q).shm
    curSize := size
    pc := .readStart size } := Function.update_self ..
  have hne {r : ℕ} (h : r ≠ q) : t.rd r = s.rd r := Function.update_of_ne h ..
  exact
    { hc with
      live := fun r => by
        by_cases h : r = q
        · subst h; rw [hself]; exact hc.live r
        · rw [hne h]; exact hc.live r
      le := fun r => by
        by_cases h : r = q
        · subst h; rw [hself]; exact hsize.le.trans hc.frame
        · rw [hne h]; exact hc.le r
      acked := fun r => by
        by_cases h : r = q
        · subst h; exact fun _ => hack
        · rw [hne h]; exact hc.acked r
      sized := fun r size' => by
        by_cases h : r = q
        · subst h; rw [hself]; exact fun h => by simpa using h
        · rw [hne h]; exact hc.sized r size'
      clients := fun r hcl => by
        by_cases h : r = q
        · subst h
          exact Or.inr (Or.inr (Or.inr (Or.inr (by rw [hself]; exact Nat.one_pos))))
        · have := hc.clients r hcl
          unfold Attached Larger Owing Unread at this ⊢
          rw [hne h]
          exact this }

/-! ### Steps of the writer -/

/-- A step of the writer that leaves its segment alone. -/
theorem moved (hc : Copies s) (h1 : t.srv = s.srv) (h2 : t.rd = s.rd) (h3 : t.frame = s.frame)
    (h4 : t.due = s.due) (h5 : t.w.shm = s.w.shm) (h6 : t.w.shmSize = s.w.shmSize)
    (hn : s.w.pc.notifies = none) (hcopy : t.w.pc.forCopy = true)
    (hcreate : ∀ size next, t.w.pc = .create size next → s.w.shmSize < size)
    (hnotify : ∀ size next, t.w.pc = .notify size next → size ≤ s.w.shmSize) : Copies t where
  forCopy := hcopy
  live := by rw [h2]; exact hc.live
  create := by rw [h6]; exact hcreate
  notify := by rw [h6]; exact hnotify
  frame := by rw [h3, h6]; exact hc.frame
  due := by rw [h4]; exact hc.due
  le := by rw [h2, h6]; exact hc.le
  acked := by rw [h1, h2]; exact hc.acked
  sized := by rw [h2]; exact hc.sized
  clients r h := by
    rcases hc.clients r (by rwa [isClient, h1] at h) with h | h | h
    · refine Or.inl ?_
      unfold Attached at h ⊢
      rwa [h2, h5]
    · rw [Larger, hn] at h
      cases h.1
    · refine Or.inr (Or.inr ?_)
      unfold Owing Awaited Unread at h ⊢
      rwa [h1, h2]

/-- What follows the acquisition of the lock: a new segment for a larger frame, and a notification
otherwise. -/
theorem locked (hc : Copies s) {op : Writer.Op} (hpc : s.w.pc = .locked op) :
    Copies (s.locked op) := by
  have hfor := hc.forCopy
  rw [hpc] at hfor
  cases op with
  | copyToShm data =>
      simp only [System.locked]
      split
      · next hlt =>
          refine hc.moved rfl rfl rfl rfl rfl rfl (by rw [hpc]; rfl) rfl (fun size next h => ?_)
            (fun size next h => by cases h)
          obtain ⟨rfl, -⟩ : data.length = size ∧ _ = next := by simpa [removeSegment] using h
          exact hlt
      · next hle =>
          refine hc.moved rfl rfl rfl rfl rfl rfl (by rw [hpc]; rfl) rfl
            (fun size next h => by cases h) (fun size next h => ?_)
          obtain ⟨rfl, -⟩ : data.length = size ∧ _ = next := by simpa using h
          exact not_lt.1 hle
  | _ => cases hfor

/-- A new segment, larger than all the readers have seen. -/
theorem createSegment (hc : Copies s) (hs : Segs s) {size : ℕ} {next : Writer.Next}
    (hpc : s.w.pc = .create size next) : Copies (s.createSegment size next) := by
  have hlt := hc.create size next hpc
  have hfor := hc.forCopy
  rw [hpc] at hfor
  cases next with
  | access => cases hfor
  | copy data =>
      have hsize := hs.creates size data hpc
      exact
        { forCopy := rfl
          live := hc.live
          create := fun size next h => by cases h
          notify := fun size' next h => by
            obtain ⟨rfl, -⟩ : data.length = size' ∧ _ = next := by
              simpa [System.createSegment] using h
            exact hsize.ge
          frame := hc.frame.trans hlt.le
          due := hc.due
          le := fun r => (hc.le r).trans hlt.le
          acked := hc.acked
          sized := hc.sized
          clients := fun r _ => Or.inr (Or.inl ⟨congrArg some hsize.symm, (hc.le r).trans_lt hlt⟩) }

/-- `notify_update` begins: every client is owed the frame. -/
theorem notifyLock (hc : Copies s) (hs : Segs s) {size : ℕ} {next : Writer.Next} {srv : Server ℕ}
    (hpc : s.w.pc = .notify size next) (hsrv : s.srv.step (.notifyLock size) = some srv) :
    Copies (s.notifyLock size next srv) := by
  have hfor := hc.forCopy
  rw [hpc] at hfor
  cases next with
  | access => cases hfor
  | copy data =>
      have hspec : srv =
          { s.srv with clientsNotified := [], notify := some (size, s.srv.clients) } := by
        cases Server.trans_of_step hsrv
        rfl
      exact
        { forCopy := rfl
          live := hc.live
          create := fun _ _ h => by cases h
          notify := fun _ _ h => by cases h
          frame := hc.notify size (.copy data) hpc
          due := fun r f hf => by
            simp only [System.notifyLock] at hf
            split at hf
            · rcases List.mem_append.1 hf with hf | hf
              · exact hc.due r f hf
              · rw [List.mem_singleton.1 hf]
                exact ⟨data, rfl, (hs.notify size data hpc).1⟩
            · exact hc.due r f hf
          le := hc.le
          acked := fun r h => by
            rw [System.notifyLock, hspec]
            exact hc.acked r h
          sized := hc.sized
          clients := fun r h => by
            obtain ⟨fd, hfd, hcn⟩ := List.any_eq_true.1 h
            rw [System.notifyLock, hspec] at hfd hcn
            refine Or.inr (Or.inr (Or.inl ⟨size, s.srv.clients, fd, ?_, hfd, ?_⟩))
            · rw [System.notifyLock, hspec]
            · rw [System.notifyLock, hspec]
              exact of_decide_eq_true hcn }

/-- One update is sent: its reader is owed it as before. -/
theorem notifySend (hc : Copies s) {size it q : ℕ} {todo : List ℕ} {srv : Server ℕ} {l : List ℕ}
    (hn : s.srv.notify = some (size, it :: todo)) (hq : s.srv.conn it = some q)
    (hb : Base s) (hsrv : s.srv.step (.notifySend true) = some srv) :
    Copies { s with srv := srv, notified := l } := by
  have hspec := Server.notifySend_spec hsrv hn hq
  have h1 : srv.acked = s.srv.acked := by rw [hspec]
  have h2 : srv.clients = s.srv.clients ∧ srv.conn = s.srv.conn := by rw [hspec]; exact ⟨rfl, rfl⟩
  have h3 : srv.notify = some (size, todo) := by rw [hspec]
  have hout (r : ℕ) : srv.out r = s.srv.out r ++ if r = q then [.update size] else [] := by
    by_cases hr : r = q
    · subst hr
      simp only [hspec, Server.record_self, if_true]
    · simp only [hspec, Server.record_of_ne _ _ hr, if_neg hr, List.append_nil]
  refine hc.kept rfl rfl rfl (fun _ => ⟨rfl, rfl, rfl⟩) (fun _ _ h => h) (fun r h => ?_)
    (fun r h => Or.inl ?_) (fun r ho => Or.inl ?_)
  · show srv.acked r = true
    rw [h1]
    exact h
  · unfold isClient at h ⊢
    rw [← h2.1, ← h2.2]
    exact h
  · have hmem (size' : ℕ) (h : Unread s r size' ∨ r = q ∧ size' = size) :
        Unread { s with srv := srv, notified := l } r size' := by
      show _ ∈ (srv.out r).drop (s.rd r).rcvd
      rw [hout r, List.drop_append_of_le_length (hb.rcvd r), List.mem_append]
      rcases h with h | ⟨rfl, rfl⟩
      · exact Or.inl h
      · exact Or.inr (by simp)
    rcases ho with ⟨size', todo', it', hn', hit, hcn⟩ | ⟨size', ho⟩ | ho
    · rw [hn] at hn'
      obtain ⟨rfl, rfl⟩ : size = size' ∧ it :: todo = todo' := by simpa using hn'
      rcases List.mem_cons.1 hit with rfl | hit
      · obtain rfl : r = q := Option.some.inj (hcn.symm.trans hq)
        exact Or.inr (Or.inl ⟨size, hmem size (Or.inr ⟨rfl, rfl⟩)⟩)
      · exact Or.inl ⟨size, todo, it', h3, hit, by rw [h2.2]; exact hcn⟩
    · exact Or.inr (Or.inl ⟨size', hmem size' (Or.inl ho)⟩)
    · exact Or.inr (Or.inr ho)

/-- `notify_update` returns. -/
theorem notifyUnlock (hc : Copies s) {next : Writer.Next} {srv : Server ℕ} {num : ℤ}
    (hpc : s.w.pc = .notifying next) (hsrv : s.srv.step .notifyUnlock = some srv) :
    Copies { s with srv := srv, w := { s.w with pc := .commit num next } } := by
  have hfor := hc.forCopy
  rw [hpc] at hfor
  cases Server.trans_of_step hsrv with
  | notifyUnlock hn =>
      exact
        { hc with
          forCopy := by cases next <;> [rfl; cases hfor]
          create := fun _ _ h => by cases h
          notify := fun _ _ h => by cases h
          clients := fun r h => by
            rcases hc.clients r h with h | h | h
            · exact Or.inl h
            · rw [Larger, hpc] at h
              cases h.1
            · rcases h with ⟨_, _, it, hn', hit, -⟩ | h
              · rw [hn] at hn'
                cases hn'
                cases hit
              · exact Or.inr (Or.inr (Or.inr h)) }

/-- **Every step keeps the sizes.** -/
theorem step {a : Act} (hc : Copies s) (hi : Delivers NonEmpty s) (ha : CopyOnly s a)
    (h : s.step a = some t) : Copies t := by
  have hfor := hc.forCopy
  cases trans_of_step h with
  | call hpc =>
      obtain ⟨data, rfl⟩ := ha
      exact hc.moved rfl rfl rfl rfl rfl rfl (by rw [hpc]; rfl) rfl (fun _ _ h => by cases h)
        (fun _ _ h => by cases h)
  | @writeStart op f hpc hf =>
      rw [hpc] at hfor
      refine hc.moved rfl rfl rfl rfl rfl rfl (by rw [hpc]; rfl) ?_ (fun _ _ h => by cases h)
        (fun _ _ h => by cases h)
      cases op <;> first | rfl | cases hfor
  | locked hpc => exact hc.locked hpc
  | create hpc => exact hc.createSegment hi.segs hpc
  | notifyLock hpc hsrv => exact hc.notifyLock hi.segs hpc hsrv
  | @notifySend size it todo next srv hpc hn hsrv =>
      obtain ⟨-, -, q, hq⟩ := hi.acc.base.wf.lists.notify_head hn
      obtain ⟨fd, hserv⟩ := Awaited.serving
        ⟨size, it :: todo, it, hn, List.mem_cons_self, hq⟩ hi.acc.base
      rw [hq, Option.any_some, hi.mail.isOpen_of_serving hi.acc.base hserv (hc.live q)] at hsrv
      exact hc.notifySend hn hq hi.acc.base hsrv
  | notifyUnlock hpc hsrv => exact hc.notifyUnlock hpc hsrv
  | @commit num next f hpc hn hf =>
      rw [hpc] at hfor
      cases next with
      | access => cases hfor
      | copy data =>
          exact hc.moved rfl rfl rfl rfl rfl rfl (by rw [hpc]; rfl) rfl (fun _ _ h => by cases h)
            (fun _ _ h => by cases h)
  | @commitNone num next hpc hn =>
      rw [hpc] at hfor
      cases next with
      | access => cases hfor
      | copy data =>
          exact hc.moved rfl rfl rfl rfl rfl rfl (by rw [hpc]; rfl) rfl (fun _ _ h => by cases h)
            (fun _ _ h => by cases h)
  | memcpy hpc | writeEnd hpc =>
      exact hc.moved rfl rfl rfl rfl rfl rfl (by rw [hpc]; rfl) rfl (fun _ _ h => by cases h)
        (fun _ _ h => by cases h)
  | reset => cases ha
  | shmResize hpc | notifyIgnored hpc | notifyClients hpc | write hpc | release hpc =>
      rw [hpc] at hfor
      cases hfor
  | server hk hsrv hs => exact hc.server hi.acc.base hsrv
  | take hpc hr hd hsrv =>
      exact (hc.server hi.acc.base hsrv).readerMoved rfl rfl rfl (fun _ h => h) (fun h =>
        h.elim Or.inl fun h => Or.inr (Or.inl h))
  | cancel hpc hf hsrv =>
      exact (hc.server hi.acc.base hsrv).kept rfl rfl rfl (fun _ => ⟨rfl, rfl, rfl⟩) (fun _ _ h => h)
        (fun _ h => h) (fun _ h => Or.inl h) (fun _ h => Or.inl h)
  | connect =>
      exact hc.kept rfl rfl rfl (fun _ => ⟨rfl, rfl, rfl⟩) (fun _ _ h => h) (fun _ h => h)
        (fun _ h => Or.inl h) (fun _ h => Or.inl h)
  | attach hr hd hpc hg => exact hc.attach hi hpc
  | receiveConnect hr hd hpc hm => exact hc.received hm rfl hpc rfl rfl rfl rfl (Or.inl hpc)
  | receiveUpdate hr hd hpc hm =>
      exact hc.readerMoved rfl rfl rfl (fun size h => by simp at h)
        (fun _ => Or.inr (Or.inl Nat.one_pos))
  | receiveQuit hr hd hpc hm => exact hc.received hm rfl hpc rfl rfl rfl rfl (Or.inr rfl)
  | receiveEof hr hd hpc hm =>
      refine hc.readerMoved rfl rfl rfl (fun size h => by simp at h) (fun h => ?_)
      rw [hpc] at h
      exact Or.inl (h.resolve_right (lt_irrefl _))
  | update hr hd hpc => exact hc.update hi hpc
  | readStart hr hd hpc =>
      refine hc.readerMoved rfl rfl rfl (fun size h => ?_)
        (fun _ => Or.inr (Or.inr (hc.attached_of_locked hi (Or.inl hpc))))
      obtain rfl : _ = size := by simpa using h
      exact Or.inl hpc
  | readEnd hr hd hpc =>
      exact hc.readerMoved rfl rfl rfl (fun size h => by simp at h)
        (fun _ => Or.inr (Or.inr (hc.attached_of_locked hi (Or.inr hpc))))
  | quit =>
      exact hc.readerMoved rfl rfl rfl (fun _ h => h) (fun h =>
        h.elim Or.inl fun h => Or.inr (Or.inl h))
  | die => cases ha

end Copies

theorem copies_of_exec {lfd memsize : ℕ} {as : List Act}
    (h : exec (restrict step CopyOnly) (init lfd memsize) as = some s) :
    Delivers NonEmpty s ∧ Copies s := by
  refine exec_invariant (P := fun s => Delivers NonEmpty s ∧ Copies s) (fun s a t hs hst => ?_) h
    ⟨delivers_init _ lfd memsize, copies_init lfd memsize⟩
  obtain ⟨hi, hc⟩ := hs
  obtain ⟨ha, hst⟩ := restrict_eq_some.1 hst
  have ho : Ordered s a := by
    cases a with
    | reset => cases ha
    | shmResize newSize =>
        -- there is no access to resize
        have hfor := hc.forCopy
        cases trans_of_step hst with
        | shmResize hpc =>
            rw [hpc] at hfor
            cases hfor
    | _ => trivial
  exact ⟨hi.step (fun _ => Nat.pos_of_ne_zero) ho (hc.fresh hi.acc hi.segs a) hst, hc.step hi ha hst⟩

/-- **Frame delivery with automatic resizing.**  The calls of a reader are those for the frames it was
a client for, in the order they were written and one for each, and all of them but the current one,
which is missing only while its update is still to be sent, in the socket or in hand.  Inside a
callback the size is that of the current frame and the bytes at the pointer are its bytes; the pointer
is to the segment of the frame when it has a byte in it. -/
theorem delivery {lfd memsize : ℕ} {as : List Act}
    (h : exec (restrict step CopyOnly) (init lfd memsize) as = some s) (r : ℕ) :
    (∃ done rest, s.due r = done ++ rest ∧ (rest = [] ∨ rest = [s.frame] ∧ Owing s r) ∧
      List.Forall₂ (fun f c => ∃ d, f.data = some d ∧ f.size = d.length ∧ c.bytes = d ∧
        c.size = d.length ∧ (0 < c.size → c.seg = some f.seg)) done (s.rd r).calls) ∧
    ∀ size, (s.rd r).pc = .onData size → ∃ done d, s.due r = done ++ [s.frame] ∧
      s.frame.data = some d ∧ size = d.length ∧ s.bytesAt r size = d ∧
      (0 < size → (s.rd r).shm = some s.frame.seg) := by
  obtain ⟨hi, hc⟩ := copies_of_exec h
  have hs := hi.served r (hc.live r)
  refine ⟨?_, fun size hpc => ?_⟩
  · have hgood {done rest : List Frame} (hdue : s.due r = done ++ rest)
        (hcalls : List.Forall₂ (Good NonEmpty) done (s.rd r).calls) :
        List.Forall₂ (fun f c => ∃ d, f.data = some d ∧ f.size = d.length ∧ c.bytes = d ∧
          c.size = d.length ∧ (0 < c.size → c.seg = some f.seg)) done (s.rd r).calls := by
      refine List.forall₂_iff_zip.2 ⟨hcalls.length_eq, fun {f c} hz => ?_⟩
      have hg := (List.forall₂_iff_zip.1 hcalls).2 hz
      have hmem : f ∈ s.due r := by
        rw [hdue]
        exact List.mem_append_left _ (List.of_mem_zip hz).1
      obtain ⟨d, hd, hlen⟩ := hc.due r f hmem
      refine ⟨d, hd, hlen, hg.bytes d hd, hg.size.trans hlen, fun hpos => hg.seg ?_⟩
      rw [hg.size] at hpos
      exact hpos
    by_cases ho : Owing s r
    · obtain ⟨done, hdue, hcalls⟩ := hs.owing ho
      exact ⟨done, [s.frame], hdue, Or.inr ⟨rfl, ho⟩, hgood hdue hcalls⟩
    · have hdue := (List.append_nil (s.due r)).symm
      exact ⟨s.due r, [], hdue, Or.inl rfl, hgood hdue (hs.settled ho)⟩
  · obtain ⟨done, hdue⟩ := hs.last size hpc
    obtain ⟨d, hd, hlen⟩ := hc.due r s.frame (by rw [hdue]; simp)
    have hsize := hs.sizes size (Or.inr (Or.inr (Or.inr hpc)))
    have hshm (hpos : 0 < size) : (s.rd r).shm = some s.frame.seg :=
      hs.attached size (Or.inr hpc) (hsize ▸ hpos : 0 < s.frame.size)
    refine ⟨done, d, hdue, hd, hsize.trans hlen, ?_, hshm⟩
    rcases Nat.eq_zero_or_pos size with hz | hpos
    · have hnil : d = [] := List.eq_nil_of_length_eq_zero (by omega)
      rw [System.bytesAt, hz, hnil]
      split <;> rfl
    · have hheld : s.w.pc.held = false := by
        by_contra hne
        exact hi.acc.exclusive (Bool.not_eq_false _ ▸ hne) r size hpc
      have hwritten := hi.segs.written (Or.inl hheld)
        ⟨r, hc.live r, pending_of_busy (by rw [hpc]; rfl)⟩ d hd
      rw [System.bytesAt, hshm hpos, hsize.trans hlen]
      exact hwritten

/-- A frame of two bytes after one of one byte: the segment is recreated and the reader is called
with it. -/
def growingFrame : List Act :=
  [.call (.copyToShm [5, 6]), .writer, .writer, .writer, .writer, .writer, .writer, .writer, .writer,
    .writer, .reader 0, .reader 0, .reader 0]

theorem growingFrame_delivery :
    ∃ s, exec (restrict step CopyOnly) (init 3 1) (connectReader ++ wholeFrame [4] ++ growingFrame) =
        some s ∧ (s.rd 0).pc = .onData 2 ∧ s.frame.data = some [5, 6] ∧ s.bytesAt 0 2 = [5, 6] ∧
      (s.rd 0).shm = some s.frame.seg := by
  have hrun : ((exec (restrict step CopyOnly) (init 3 1) (connectReader ++ wholeFrame [4] ++
      growingFrame)).any fun s => (s.rd 0).pc = .onData 2 ∧ s.frame.data = some [5, 6]) = true := by
    decide +kernel
  obtain ⟨s, hs, hrun⟩ := (Option.any_eq_true _ _).1 hrun
  obtain ⟨hpc, hdata⟩ := of_decide_eq_true hrun
  obtain ⟨done, d, -, hd, -, hbytes, hshm⟩ := (delivery hs 0).2 2 hpc
  obtain rfl : [5, 6] = d := Option.some.inj (hdata.symm.trans hd)
  exact ⟨s, hs, hpc, hdata, hbytes, hshm (by decide)⟩

/-- A reader attaches the first segment; before it is a client, a frame of two bytes makes the writer
recreate it; the next frame is empty. -/
def emptyFrame : List Act :=
  ([.connect, .reader 0, .call (.copyToShm [1, 2]), .writer, .writer, .writer, .writer, .writer,
    .writer, .writer, .writer] : List Act) ++ connectReader.drop 2 ++
  ([.call (.copyToShm []), .writer, .writer, .writer, .writer, .writer, .writer, .writer, .writer,
    .reader 0, .reader 0, .reader 0] : List Act)

/-- **A reader inside its callback for an empty frame, attached to a removed segment.** -/
theorem emptyFrame_stale :
    ∃ s, exec (restrict step CopyOnly) (init 3 1) emptyFrame = some s ∧
      (s.rd 0).pc = .onData 0 ∧ s.frame = ⟨0, 1, some []⟩ ∧ (s.rd 0).shm = some 0 ∧
      (s.rd 0).shm ≠ some s.frame.seg := by
  have hrun : ((exec (restrict step CopyOnly) (init 3 1) emptyFrame).any fun s =>
      (s.rd 0).pc = .onData 0 ∧ (s.frame.size = 0 ∧ s.frame.seg = 1 ∧ s.frame.data = some []) ∧
        (s.rd 0).shm = some 0) = true := by
    decide +kernel
  obtain ⟨s, hs, hrun⟩ := (Option.any_eq_true _ _).1 hrun
  obtain ⟨hpc, ⟨h1, h2, h3⟩, hshm⟩ := of_decide_eq_true hrun
  have hframe : s.frame = ⟨0, 1, some []⟩ := by rw [← h1, ← h2, ← h3]
  refine ⟨s, hs, hpc, hframe, hshm, ?_⟩
  rw [hshm, hframe]
  decide

end System

end Shmdata

/-
**Which sizes a writer may announce.**

A reader looks for the sign of a reallocation in the size of an update: it compares it with the size of
the update before.  Whether the sign is right depends on what each reader has seen, which the writer does
not know.  This module says what the writer can do by itself.  All the readers that a frame was announced
to and that still live have called back for it when the next one is announced, so they are attached to its
segment and remember its size; and a reader that no frame was announced to remembers the size `0`.  So it
is enough that a frame with a byte in it has another size than the frame before, when it is in another
segment.  As soon as one reader that was given a frame is there, this is also needed.

Main definitions:

* `Shmdata.System.Announces` — the size about to be announced is a right sign, as far as the last frame
  goes;
* `Shmdata.System.Careful` — no reset, `shm_resize` before `notify_clients`, and each size announced so;
* `Shmdata.System.Current` — **the invariant**: a live client owes a call, or remembers the last frame, or
  was given none;
* `Shmdata.System.Grows` — what holds of a writer that uses `copy_to_shm` alone.

Main results:

* `Shmdata.System.Current.step` — every step keeps it;
* `Shmdata.System.careful_segment` — **no reader of such a writer is ever given a stale segment**, and the
  rule is the weakest one;
* `Shmdata.System.grows_of_exec` — a writer that uses `copy_to_shm` alone follows it.
-/

import Shmdata.Frames

set_option relaxedAutoImplicit false
set_option autoImplicit false

namespace Shmdata

/-- The call is one of `copy_to_shm`. -/
@[simp] def Writer.Op.copies : Writer.Op → Bool
  | .copyToShm _ => true
  | _ => false

namespace System

open SysV Semops Runs

variable {s t : System} {ok : Frame → Prop} {r : ℕ}

/-- The frame about to be announced has another size than the last one, if it has a byte in it and is in
another segment. -/
def Announces (s : System) : Prop :=
  ∀ size ∈ s.w.pc.notifies, 0 < size → s.frame.seg = s.w.shm ∨ s.frame.size ≠ size

instance (s : System) : Decidable (Announces s) :=
  inferInstanceAs (Decidable (∀ size ∈ s.w.pc.notifies, 0 < size →
    s.frame.seg = s.w.shm ∨ s.frame.size ≠ size))

/-- An ordered run of a writer that minds the sizes it announces. -/
def Careful (s : System) (a : Act) : Prop := Ordered s a ∧ (a.isWriter = true → Announces s)

instance (s : System) (a : Act) : Decidable (Careful s a) := inferInstanceAs (Decidable (_ ∧ _))

/-- The reader remembers the last frame. -/
def Remembers (s : System) (r : ℕ) : Prop :=
  (s.rd r).curSize = s.frame.size ∧ (NonEmpty s.frame → (s.rd r).shm = some s.frame.seg)

/-- The reader was given no frame. -/
def Blank (s : System) (r : ℕ) : Prop := (s.rd r).curSize = 0 ∧ s.due r = []

/-- The invariant of what the readers remember. -/
structure Current (s : System) : Prop where
  acked : ∀ r, (s.rd r).curSize ≠ 0 ∨ s.due r ≠ [] → s.srv.acked r = true
  sized : ∀ r size, (s.rd r).pc = .readStart size ∨ (s.rd r).pc = .onData size →
    (s.rd r).curSize = size
  clients : ∀ r, s.isClient r = true → (s.rd r).dead = false →
    Blank s r ∨ Remembers s r ∨ Owing s r

theorem current_init (lfd memsize : ℕ) : Current (init lfd memsize) where
  acked := by simp [init, Reader.init]
  sized := by simp [init, Reader.init]
  clients := by simp [init, Server.init, isClient]

/-- A live reader is one call behind its frames exactly when it has an update to deal with. -/
theorem Served.behind (h : Served ok s r) :
    (s.rd r).calls.length < (s.due r).length ↔ Owing s r := by
  constructor
  · intro hlt
    by_contra ho
    exact absurd (h.settled ho).length_eq hlt.ne'
  · intro ho
    obtain ⟨done, hdue, hcalls⟩ := h.owing ho
    rw [hdue, List.length_append, ← hcalls.length_eq]
    exact Nat.lt_succ_self _

/-- The sends of `notify_update` change no connection. -/
theorem isClient_notify {a : Server.Act ℕ} {srv : Server ℕ} (h : s.srv.step a = some srv)
    (ha : ∀ ev, a ≠ .thread ev) :
    srv.acked = s.srv.acked ∧ ∀ r, isClient { s with srv := srv } r = s.isClient r := by
  cases Server.trans_of_step h with
  | notifyLock | notifySend | notifyUnlock | dtorStart | dtorJoin | dtorSend | dtorEnd =>
      exact ⟨rfl, fun _ => rfl⟩
  | _ => exact absurd rfl (ha _)

/-- A reader that the current frame is announced to has been acknowledged. -/
theorem Awaited.acked (h : Awaited s r) (hb : Base s) : s.srv.acked r = true := by
  obtain ⟨fd, hserv⟩ := h.serving hb
  exact (hb.wf.streams.serving fd r hserv).2

/-- A reader with an update in hand has been acknowledged. -/
theorem acked_of_busy (hb : Base s) (hbusy : (s.rd r).pc.busy = 1) : s.srv.acked r = true := by
  have hpos : 0 < s.sent r := by
    have htaken := hb.taken r
    have hload : 0 < s.load r := pending_of_busy hbusy
    omega
  obtain ⟨m, hm, hu⟩ := List.countP_pos_iff.1 hpos
  cases m with
  | update size => exact hb.wf.streams.acked r size hm
  | connect | quit => cases hu

/-- **The sign is right**, at a notification that heeds the last frame. -/
theorem Current.fresh (hc : Current s) (hi : Delivers ok s) {a : Act}
    (ha : a.isWriter = true → Announces s) : Fresh NonEmpty s a := by
  rintro size next rfl hpc hpos r hcl hd
  replace hpos : 0 < size := hpos
  rcases hc.clients r hcl hd with ⟨hz, -⟩ | ⟨hsize, hshm⟩ | ho
  · exact Or.inr (by omega)
  · by_cases heq : s.frame.size = size
    · have hseg := (ha rfl size (by rw [hpc]; rfl) hpos).resolve_right fun hne => hne heq
      exact Or.inl (hseg ▸ hshm (heq.symm ▸ hpos : 0 < s.frame.size))
    · exact Or.inr (hsize ▸ heq)
  · exact absurd ho (not_owing_of_notify hi.acc hi.segs hpc hd)

namespace Current

/-! ### The steps -/

/-- A step that announces nothing and leaves what the readers remember alone. -/
theorem kept (hc : Current s) (hi : Delivers ok s) (hi' : Delivers ok t) (h1 : t.frame = s.frame)
    (h2 : t.due = s.due)
    (hrd : ∀ r, (t.rd r).shm = (s.rd r).shm ∧ (t.rd r).curSize = (s.rd r).curSize ∧
      (t.rd r).calls = (s.rd r).calls ∧ ((t.rd r).dead = false → (s.rd r).dead = false))
    (hsized : ∀ r size, (t.rd r).pc = .readStart size ∨ (t.rd r).pc = .onData size →
      (s.rd r).pc = .readStart size ∨ (s.rd r).pc = .onData size)
    (hack : ∀ r, s.srv.acked r = true → t.srv.acked r = true)
    (hcl : ∀ r, t.isClient r = true → s.isClient r = true ∨ s.srv.acked r = false) : Current t where
  acked r h := hack r (hc.acked r (by rwa [(hrd r).2.1, h2] at h))
  sized r size h := by rw [(hrd r).2.1]; exact hc.sized r size (hsized r size h)
  clients r h hd := by
    obtain ⟨hshm, hcur, hcalls, hdead⟩ := hrd r
    have hblank : Blank s r → Blank t r := by
      unfold Blank
      rw [hcur, h2]
      exact id
    rcases hcl r h with h | h
    · rcases hc.clients r h (hdead hd) with h | h | h
      · exact Or.inl (hblank h)
      · refine Or.inr (Or.inl ?_)
        unfold Remembers at h ⊢
        rwa [hcur, hshm, h1]
      · refine Or.inr (Or.inr ?_)
        rw [← (hi'.served r hd).behind, hcalls, h2]
        exact (hi.served r (hdead hd)).behind.2 h
    · -- it has just been acknowledged
      refine Or.inl (hblank ?_)
      by_contra hne
      rw [Blank, not_and_or] at hne
      rw [hc.acked r hne] at h
      cases h

/-- A step of one reader that leaves what it remembers alone. -/
theorem moved (hc : Current s) (hi : Delivers ok s) (hi' : Delivers ok t) {q : ℕ} {rd : Reader}
    (h1 : t.frame = s.frame) (h2 : t.due = s.due) (h3 : t.rd = Function.update s.rd q rd)
    (hrd : rd.shm = (s.rd q).shm ∧ rd.curSize = (s.rd q).curSize ∧ rd.calls = (s.rd q).calls ∧
      (rd.dead = false → (s.rd q).dead = false))
    (hsized : ∀ size, rd.pc = .readStart size ∨ rd.pc = .onData size →
      (s.rd q).pc = .readStart size ∨ (s.rd q).pc = .onData size)
    (hack : ∀ r, s.srv.acked r = true → t.srv.acked r = true)
    (hcl : ∀ r, t.isClient r = true → s.isClient r = true ∨ s.srv.acked r = false) : Current t := by
  refine hc.kept hi hi' h1 h2 (fun r => ?_) (fun r size => ?_) hack hcl
  · rw [h3]
    by_cases h : r = q
    · subst h
      rw [Function.update_self]
      exact hrd
    · rw [Function.update_of_ne h]
      exact ⟨rfl, rfl, rfl, id⟩
  · rw [h3]
    by_cases h : r = q
    · subst h
      rw [Function.update_self]
      exact hsized size
    · rw [Function.update_of_ne h]
      exact id

/-- A step of one reader after which it owes a call, remembers the last frame, or was given none. -/
theorem setRd (hc : Current s) {q : ℕ} {rd : Reader}
    (hack : rd.curSize ≠ 0 → s.srv.acked q = true)
    (hsized : ∀ size, rd.pc = .readStart size ∨ rd.pc = .onData size → rd.curSize = size)
    (hq : s.isClient q = true → Blank (s.setRd q rd) q ∨ Remembers (s.setRd q rd) q ∨
      0 < rd.pc.locking) : Current (s.setRd q rd) := by
  have hself : (s.setRd q rd).rd q = rd := Function.update_self ..
  have hne {r : ℕ} (h : r ≠ q) : (s.setRd q rd).rd r = s.rd r := Function.update_of_ne h ..
  exact
    { acked := fun r h => by
        by_cases hr : r = q
        · subst hr
          rw [hself] at h
          exact h.elim hack fun h => hc.acked r (Or.inr h)
        · rw [hne hr] at h
          exact hc.acked r h
      sized := fun r size => by
        by_cases hr : r = q
        · subst hr
          rw [hself]
          exact hsized size
        · rw [hne hr]
          exact hc.sized r size
      clients := fun r hcl hd => by
        by_cases hr : r = q
        · subst hr
          rcases hq hcl with h | h | h
          · exact Or.inl h
          · exact Or.inr (Or.inl h)
          · refine Or.inr (Or.inr (Or.inr (Or.inr ?_)))
            rwa [hself]
        · rw [hne hr] at hd
          have h := hc.clients r hcl hd
          unfold Blank Remembers Owing Unread at h ⊢
          rw [hne hr]
          exact h }

/-- `notify_update` begins: every client is owed the frame. -/
theorem notifyLock (hc : Current s) {size : ℕ} {next : Writer.Next} {srv : Server ℕ}
    (hi' : Delivers ok (s.notifyLock size next srv))
    (h : s.srv.step (.notifyLock size) = some srv) : Current (s.notifyLock size next srv) := by
  have hspec : srv = { s.srv with clientsNotified := [], notify := some (size, s.srv.clients) } := by
    cases Server.trans_of_step h
    rfl
  have haw (r : ℕ) (hcl : s.isClient r = true) : Awaited (s.notifyLock size next srv) r := by
    obtain ⟨fd, hfd, hcn⟩ := List.any_eq_true.1 hcl
    rw [Awaited, System.notifyLock, hspec]
    exact ⟨size, s.srv.clients, fd, rfl, hfd, of_decide_eq_true hcn⟩
  exact
    { acked := fun r h => by
        by_cases hcl : s.isClient r = true
        · exact (haw r hcl).acked hi'.acc.base
        · rw [System.notifyLock, hspec]
          rw [show (s.notifyLock size next srv).due r = s.due r from if_neg hcl] at h
          exact hc.acked r h
      sized := hc.sized
      clients := fun r hcl _ => by
        rw [System.notifyLock, hspec] at hcl
        exact Or.inr (Or.inr (Or.inl (haw r hcl))) }

/-- **Every step keeps what the readers remember.** -/
theorem step {a : Act} (hc : Current s) (hi : Delivers NonEmpty s) (hi' : Delivers NonEmpty t)
    (h : s.step a = some t) : Current t := by
  have hsame (h1 : t.frame = s.frame) (h2 : t.due = s.due) (h3 : t.rd = s.rd)
      (hack : t.srv.acked = s.srv.acked) (hcl : ∀ r, t.isClient r = s.isClient r) : Current t :=
    hc.kept hi hi' h1 h2 (fun r => by rw [h3]; exact ⟨rfl, rfl, rfl, id⟩)
      (fun r size => by rw [h3]; exact id) (fun r => by rw [hack]; exact id)
      (fun r h => Or.inl (hcl r ▸ h))
  cases trans_of_step h with
  | call | writeStart | create | commit | commitNone | memcpy | writeEnd | reset | shmResize
  | notifyIgnored | notifyClients | write | release | connect =>
      exact hsame rfl rfl rfl rfl fun _ => rfl
  | @locked op hpc =>
      obtain ⟨w, key, heq, -⟩ := s.locked_eq op
      rw [heq] at hsame ⊢
      exact hsame rfl rfl rfl rfl fun _ => rfl
  | notifyLock hpc hsrv => exact hc.notifyLock hi' hsrv
  | notifySend hpc hn hsrv =>
      obtain ⟨hack, hcl⟩ := isClient_notify hsrv (by simp)
      exact hsame rfl rfl rfl hack hcl
  | notifyUnlock hpc hsrv =>
      obtain ⟨hack, hcl⟩ := isClient_notify hsrv (by simp)
      exact hsame rfl rfl rfl hack hcl
  | server hk hsrv hs =>
      exact hc.kept hi hi' rfl rfl (fun _ => ⟨rfl, rfl, rfl, id⟩) (fun _ _ => id)
        (fun r => (client_of_thread hi.acc.base hsrv r).1)
        (fun r => (client_of_thread hi.acc.base hsrv r).2)
  | take hpc hr hdata hsrv =>
      exact hc.moved hi hi' rfl rfl rfl ⟨rfl, rfl, rfl, id⟩ (fun _ => id)
        (fun r => (client_of_thread hi.acc.base hsrv r).1)
        (fun r => (client_of_thread hi.acc.base hsrv r).2)
  | cancel hpc hf hsrv =>
      exact hc.kept hi hi' rfl rfl (fun _ => ⟨rfl, rfl, rfl, id⟩) (fun _ _ => id)
        (fun r => (client_of_thread hi.acc.base hsrv r).1)
        (fun r => (client_of_thread hi.acc.base hsrv r).2)
  | @attach r g hr hd hpc hg =>
      -- the reader has read no message yet
      have hnot : s.srv.acked r = false := by
        by_contra hne
        have hrcvd := hi.acc.base.acked r (Or.inl (Bool.not_eq_false _ ▸ hne))
        rw [hi.attach r hpc] at hrcvd
        exact absurd hrcvd (lt_irrefl _)
      have hblank : Blank s r := by
        by_contra hne
        rw [Blank, not_and_or] at hne
        rw [hc.acked r hne] at hnot
        cases hnot
      refine hc.setRd (fun h => hc.acked r (Or.inl h)) (fun size h => by simp at h) fun _ => Or.inl ?_
      rw [Blank, setRd_rd_self]
      exact hblank
  | receiveConnect | quit =>
      exact hc.moved hi hi' rfl rfl rfl ⟨rfl, rfl, rfl, id⟩ (fun _ => id) (fun _ => id)
        (fun _ => Or.inl)
  | receiveUpdate | receiveQuit | receiveEof | readEnd =>
      exact hc.moved hi hi' rfl rfl rfl ⟨rfl, rfl, rfl, id⟩ (fun size h => by simp at h) (fun _ => id)
        (fun _ => Or.inl)
  | update hr hd hpc =>
      refine hc.setRd (fun _ => acked_of_busy hi.acc.base (by rw [hpc]; rfl)) (fun size h => ?_)
        fun _ => Or.inr (Or.inr Nat.one_pos)
      simpa using h
  | @readStart r size hr hd hpc hf =>
      have hs := hi.served r hd
      have hcur := hc.sized r size (Or.inl hpc)
      have hsize := hs.sizes size (Or.inr (Or.inr (Or.inl hpc)))
      refine hc.setRd (fun h => hc.acked r (Or.inl h)) (fun size' h => ?_) fun _ => Or.inr (Or.inl ?_)
      · obtain rfl : size = size' := by simpa using h
        exact hcur
      · rw [Remembers, setRd_rd_self]
        exact ⟨hcur.trans hsize, hs.attached size (Or.inl hpc)⟩
  | die =>
      exact hc.moved hi hi' rfl rfl rfl ⟨rfl, rfl, rfl, fun h => by cases h⟩ (fun _ => id) (fun _ => id)
        (fun _ => Or.inl)

/-- With a live client that was given a frame, the sign is right only if the last frame is heeded. -/
theorem signRight_iff (hc : Current s) (hi : Delivers NonEmpty s) {size : ℕ} {next : Writer.Next}
    (hpc : s.w.pc = .notify size next) (hpos : 0 < size) (hcl : s.isClient r = true)
    (hd : (s.rd r).dead = false) (hdue : s.due r ≠ []) : SignRight s ↔ Announces s := by
  constructor
  · intro hright size' hsize' _
    obtain rfl : size = size' := by simpa [hpc] using hsize'
    obtain ⟨hcur, hshm⟩ : Remembers s r := by
      rcases hc.clients r hcl hd with h | h | h
      · exact absurd h.2 hdue
      · exact h
      · exact absurd h (not_owing_of_notify hi.acc hi.segs hpc hd)
    rw [or_iff_not_imp_right, not_not]
    intro heq
    have hseg := hshm (heq.symm ▸ hpos : 0 < s.frame.size)
    have hw := (hright size hsize' r (lt_of_isClient hi.acc.base hcl) hcl hd).resolve_right
      (not_not.2 (hcur.trans heq))
    exact Option.some.inj (hseg.symm.trans hw)
  · intro ha size' hsize' q _ hcq hdq
    obtain rfl : size = size' := by simpa [hpc] using hsize'
    exact hc.fresh hi (fun _ => ha) size next rfl hpc hpos q hcq hdq

end Current

theorem current_of_exec {lfd memsize : ℕ} {as : List Act}
    (h : exec (restrict step Careful) (init lfd memsize) as = some s) :
    Delivers NonEmpty s ∧ Current s := by
  refine exec_invariant (P := fun s => Delivers NonEmpty s ∧ Current s) (fun s a t hs hst => ?_) h
    ⟨delivers_init _ lfd memsize, current_init lfd memsize⟩
  obtain ⟨hi, hc⟩ := hs
  obtain ⟨⟨ho, ha⟩, hst⟩ := restrict_eq_some.1 hst
  have hi' := hi.step (fun _ => Nat.pos_of_ne_zero) ho (hc.fresh hi ha) hst
  exact ⟨hi', hc.step hi hi' hst⟩

/-- **No reader of a writer that minds its sizes is ever given a stale segment**, whichever function makes
the segments, whoever connects, leaves or dies, and in whatever order: the calls of a live reader are for
the frames it was a client for, all but the last one at most, with their sizes and, for a frame with a byte
in it, their segments.  When a live client was given a frame before, no other rule about the sizes would
do. -/
theorem careful_segment {lfd memsize : ℕ} {as : List Act}
    (h : exec (restrict step Careful) (init lfd memsize) as = some s) :
    (∀ r, (s.rd r).dead = false →
      (∃ done rest, s.due r = done ++ rest ∧ rest.length ≤ 1 ∧
        List.Forall₂ (fun f c => c.size = f.size ∧ (0 < f.size → c.seg = some f.seg)) done
          (s.rd r).calls) ∧
      ∀ size, (s.rd r).pc = .onData size → size = s.frame.size ∧
        (0 < size → (s.rd r).shm = some s.frame.seg ∧ s.frame.seg = s.w.shm)) ∧
    ∀ size next r, s.w.pc = .notify size next → 0 < size → s.isClient r = true →
      (s.rd r).dead = false → s.due r ≠ [] → (SignRight s ↔ Announces s) := by
  obtain ⟨hi, hc⟩ := current_of_exec h
  refine ⟨fun r hd => ⟨?_, fun size hpc => ?_⟩, fun size next r hpc hpos hcl hd hdue =>
    hc.signRight_iff hi hpc hpos hcl hd hdue⟩
  · have hs := hi.served r hd
    have hgood {done : List Frame} (hcalls : List.Forall₂ (Good NonEmpty) done (s.rd r).calls) :
        List.Forall₂ (fun f c => c.size = f.size ∧ (0 < f.size → c.seg = some f.seg)) done
          (s.rd r).calls :=
      hcalls.imp fun _ _ hg => ⟨hg.size, hg.seg⟩
    by_cases ho : Owing s r
    · obtain ⟨done, hdue, hcalls⟩ := hs.owing ho
      exact ⟨done, [s.frame], hdue, le_rfl, hgood hcalls⟩
    · exact ⟨s.due r, [], (List.append_nil _).symm, Nat.zero_le _, hgood (hs.settled ho)⟩
  · have hs := hi.served r hd
    have hsize := hs.sizes size (Or.inr (Or.inr (Or.inr hpc)))
    exact ⟨hsize, fun hpos => ⟨hs.attached size (Or.inr hpc) (hsize ▸ hpos : 0 < s.frame.size),
      hi.segs.pending ⟨r, hd, pending_of_busy (by rw [hpc]; rfl)⟩⟩⟩

/-- A frame of four bytes, then an access of six bytes. -/
theorem resizedAccess_careful :
    ∃ s, exec (restrict step Careful) (init 3 4) (connectReader ++ wholeFrame [1, 2, 3, 4] ++
        resizedAccess 6 6) = some s ∧ (s.rd 0).pc = .onData 6 ∧ (s.rd 0).shm = some s.frame.seg ∧
      s.frame.seg = s.w.shm := by
  have hrun : ((exec (restrict step Careful) (init 3 4) (connectReader ++ wholeFrame [1, 2, 3, 4] ++
      resizedAccess 6 6)).any fun s => (s.rd 0).dead = false ∧ (s.rd 0).pc = .onData 6) = true := by
    decide +kernel
  obtain ⟨s, hs, hrun⟩ := (Option.any_eq_true _ _).1 hrun
  obtain ⟨hd, hpc⟩ := of_decide_eq_true hrun
  obtain ⟨-, hsegs⟩ := ((careful_segment hs).1 0 hd).2 6 hpc
  exact ⟨s, hs, hpc, hsegs (by decide)⟩

/-! ### `copy_to_shm` -/

/-- The writer uses `copy_to_shm`, and no reset fires. -/
def Copying (_ : System) : Act → Prop
  | .call op => op.copies = true
  | .reset => False
  | _ => True

instance (s : System) (a : Act) : Decidable (Copying s a) :=
  match a with
  | .call op => inferInstanceAs (Decidable (op.copies = true))
  | .reset => inferInstanceAs (Decidable False)
  | .shmResize _ | .writer | .notifyClients _ | .write _ | .release | .server _ | .connect
  | .reader _ | .quit _ | .die _ => inferInstanceAs (Decidable True)

/-- What holds of a writer that uses `copy_to_shm` alone: a new segment is there for a frame that is larger
than all before. -/
structure Grows (s : System) : Prop where
  forCopy : s.w.pc.forCopy = true
  create : ∀ size next, s.w.pc = .create size next → s.w.shmSize < size
  notify : ∀ size next, s.w.pc = .notify size next →
    size ≤ s.w.shmSize ∧ (s.frame.seg = s.w.shm ∨ s.frame.size < size)
  seg : s.w.pc.creating = false → s.w.pc.notifies = none → s.frame.seg = s.w.shm
  frame : s.frame.size ≤ s.w.shmSize
  due : ∀ r, ∀ f ∈ s.due r, ∃ d, f.data = some d ∧ f.size = d.length

theorem grows_init (lfd memsize : ℕ) : Grows (init lfd memsize) where
  forCopy := rfl
  create := by simp [init]
  notify := by simp [init]
  seg := by simp [init]
  frame := by simp [init]
  due := by simp [init]

namespace Grows

/-- A size that is announced for another segment is new. -/
theorem announces (hg : Grows s) : Announces s := by
  intro size hsize _
  cases hpc : s.w.pc with
  | notify n next =>
      obtain rfl : n = size := by simpa [hpc] using hsize
      exact (hg.notify n next hpc).2.imp id ne_of_lt
  | _ => simp [hpc] at hsize

/-- A step that leaves the segment and the frames alone. -/
theorem moved (hg : Grows s) (h1 : t.frame = s.frame) (h2 : t.due = s.due) (h3 : t.w.shm = s.w.shm)
    (h4 : t.w.shmSize = s.w.shmSize) (hfor : t.w.pc.forCopy = true)
    (hpc : t.w.pc = s.w.pc ∨
      (t.w.pc.creating = false ∧ t.w.pc.notifies = none ∧ s.w.pc.creating = false ∧
        s.w.pc.notifies = none)) : Grows t where
  forCopy := hfor
  create size next h := by
    rcases hpc with heq | ⟨hno, -⟩
    · rw [h4]
      exact hg.create size next (heq ▸ h)
    · rw [h] at hno
      cases hno
  notify size next h := by
    rcases hpc with heq | ⟨-, hno, -⟩
    · rw [h1, h3, h4]
      exact hg.notify size next (heq ▸ h)
    · rw [h] at hno
      cases hno
  seg hcr hn := by
    rw [h1, h3]
    rcases hpc with heq | ⟨-, -, hcr', hn'⟩
    · exact hg.seg (heq ▸ hcr) (heq ▸ hn)
    · exact hg.seg hcr' hn'
  frame := by rw [h1, h4]; exact hg.frame
  due := by rw [h2]; exact hg.due

/-- **Every step keeps it.** -/
theorem step {a : Act} (hg : Grows s) (hs : Segs s) (ha : Copying s a) (h : s.step a = some t) :
    Grows t := by
  have hfor := hg.forCopy
  cases trans_of_step h with
  | @call op hpc =>
      refine hg.moved rfl rfl rfl rfl ?_ (Or.inr ⟨rfl, rfl, by rw [hpc]; rfl, by rw [hpc]; rfl⟩)
      cases op <;> first | rfl | cases ha
  | @writeStart op f hpc hf =>
      rw [hpc] at hfor
      refine hg.moved rfl rfl rfl rfl ?_ (Or.inr ⟨rfl, rfl, by rw [hpc]; rfl, by rw [hpc]; rfl⟩)
      cases op <;> first | rfl | cases hfor
  | @locked op hpc =>
      have hseg := hg.seg (by rw [hpc]; rfl) (by rw [hpc]; rfl)
      rw [hpc] at hfor
      cases op with
      | copyToShm data =>
          simp only [System.locked]
          split
          · next hlt =>
              exact
                { hg with
                  forCopy := rfl
                  create := fun size next h => by
                    obtain ⟨rfl, -⟩ : data.length = size ∧ _ := by simpa [removeSegment] using h
                    exact hlt
                  notify := fun _ _ h => by cases h
                  seg := fun h => by cases h }
          · next hle =>
              exact
                { hg with
                  forCopy := rfl
                  create := fun _ _ h => by cases h
                  notify := fun size next h => by
                    obtain ⟨rfl, -⟩ : data.length = size ∧ _ := by simpa using h
                    exact ⟨not_lt.1 hle, Or.inl hseg⟩
                  seg := fun _ h => by cases h }
      | _ => cases hfor
  | @create size next hpc =>
      have hlt := hg.create size next hpc
      rw [hpc] at hfor
      cases next with
      | access => cases hfor
      | copy data =>
          obtain rfl := hs.creates size data hpc
          exact
            { forCopy := rfl
              create := fun _ _ h => by cases h
              notify := fun size next h => by
                obtain ⟨rfl, -⟩ : data.length = size ∧ _ := by simpa [System.createSegment] using h
                exact ⟨le_rfl, Or.inr (hg.frame.trans_lt hlt)⟩
              seg := fun _ h => by cases h
              frame := hg.frame.trans hlt.le
              due := hg.due }
  | @notifyLock size next srv hpc hsrv =>
      rw [hpc] at hfor
      cases next with
      | access => cases hfor
      | copy data =>
          exact
            { forCopy := rfl
              create := fun _ _ h => by cases h
              notify := fun _ _ h => by cases h
              seg := fun _ _ => rfl
              frame := (hg.notify size (.copy data) hpc).1
              due := fun r f hf => by
                by_cases hcl : s.isClient r = true
                · rw [show (s.notifyLock size (.copy data) srv).due r = _ from if_pos hcl] at hf
                  rcases List.mem_append.1 hf with hf | hf
                  · exact hg.due r f hf
                  · rw [List.mem_singleton.1 hf]
                    exact ⟨data, rfl, (hs.notify size data hpc).1⟩
                · rw [show (s.notifyLock size (.copy data) srv).due r = _ from if_neg hcl] at hf
                  exact hg.due r f hf }
  | @notifyUnlock next srv hpc hsrv =>
      rw [hpc] at hfor
      refine hg.moved rfl rfl rfl rfl ?_ (Or.inr ⟨rfl, rfl, by rw [hpc]; rfl, by rw [hpc]; rfl⟩)
      cases next <;> first | rfl | cases hfor
  | @commit num next f hpc hn hf =>
      rw [hpc] at hfor
      cases next with
      | access => cases hfor
      | copy data =>
          exact hg.moved rfl rfl rfl rfl rfl (Or.inr ⟨rfl, rfl, by rw [hpc]; rfl, by rw [hpc]; rfl⟩)
  | @commitNone num next hpc hn =>
      rw [hpc] at hfor
      cases next with
      | access => cases hfor
      | copy data =>
          exact hg.moved rfl rfl rfl rfl rfl (Or.inr ⟨rfl, rfl, by rw [hpc]; rfl, by rw [hpc]; rfl⟩)
  | memcpy hpc | writeEnd hpc =>
      exact hg.moved rfl rfl rfl rfl rfl (Or.inr ⟨rfl, rfl, by rw [hpc]; rfl, by rw [hpc]; rfl⟩)
  | shmResize hpc | notifyIgnored hpc | notifyClients hpc | write hpc | release hpc =>
      rw [hpc] at hfor
      cases hfor
  | reset => cases ha
  | _ => exact hg.moved rfl rfl rfl rfl hfor (Or.inl rfl)

end Grows

/-- **A writer that uses `copy_to_shm` alone minds its sizes.** -/
theorem grows_of_exec {lfd memsize : ℕ} {as : List Act}
    (h : exec (restrict step Copying) (init lfd memsize) as = some s) :
    Delivers NonEmpty s ∧ Grows s := by
  have hall : (Delivers NonEmpty s ∧ Current s) ∧ Grows s := by
    refine exec_invariant (P := fun s => (Delivers NonEmpty s ∧ Current s) ∧ Grows s)
      (fun s a t hs hst => ?_) h
      ⟨⟨delivers_init _ lfd memsize, current_init lfd memsize⟩, grows_init lfd memsize⟩
    obtain ⟨⟨hi, hc⟩, hg⟩ := hs
    obtain ⟨ha, hst⟩ := restrict_eq_some.1 hst
    have ho : Ordered s a := by
      cases a with
      | reset => cases ha
      | shmResize newSize =>
          -- there is no access to resize
          have hfor := hg.forCopy
          cases trans_of_step hst with
          | shmResize hpc =>
              rw [hpc] at hfor
              cases hfor
      | _ => trivial
    have hi' := hi.step (fun _ => Nat.pos_of_ne_zero) ho (hc.fresh hi fun _ => hg.announces) hst
    exact ⟨⟨hi', hc.step hi hi' hst⟩, hg.step hi.segs ha hst⟩
  exact ⟨hall.1.1, hall.2⟩

end System

end Shmdata

/-
**When a reader is given a stale segment.**

A reader infers a reallocation from a change of the notified size alone.  With the functions that
recreate the segment whatever its size is, the sign can be missing: the segment is replaced by another
of the same size, or the user notifies the same size twice, and the reader is then called with the
memory of the removed segment.  In the runs in which every client that is not attached to the current
segment is notified a size other than its last one, every callback is given the segment that was
current at the notification.

Main definitions:

* `Shmdata.System.Prompt` — no reset, `shm_resize` before `notify_clients`, and the sign is right at
  each notification.

Main results:

* `Shmdata.System.callback_segment` — **in such runs no callback is given a stale segment**;
* `Shmdata.System.sameSize_stale` — a run in which a reader is called with the memory of a segment that
  was removed before the notification.
-/

import Shmdata.Delivery

set_option relaxedAutoImplicit false
set_option autoImplicit false

namespace Shmdata

/-- The size that the writer is about to notify. -/
@[simp] def Writer.Pc.notifies : Writer.Pc → Option ℕ
  | .notify size _ => some size
  | _ => none

namespace System

open SysV Semops Runs

variable {s t : System}

instance (s : System) (a : Act) : Decidable (Ordered s a) :=
  match a with
  | .reset => inferInstanceAs (Decidable False)
  | .shmResize _ => inferInstanceAs (Decidable (_ = _))
  | .call _ | .writer | .notifyClients _ | .write _ | .release | .server _ | .connect | .reader _
  | .quit _ | .die _ => inferInstanceAs (Decidable True)

/-- A step of the writer inside a call. -/
@[simp] def Act.isWriter : Act → Bool
  | .writer => true
  | _ => false

/-- The sign that the readers look for is right: a live client that is not attached to the current
segment is about to be notified a size other than its last one. -/
def SignRight (s : System) : Prop :=
  ∀ size ∈ s.w.pc.notifies, ∀ r < s.nrd, s.isClient r = true → (s.rd r).dead = false →
    (s.rd r).shm = some s.w.shm ∨ (s.rd r).curSize ≠ size

instance (s : System) : Decidable (SignRight s) :=
  inferInstanceAs (Decidable (∀ size ∈ s.w.pc.notifies, ∀ r < s.nrd, s.isClient r = true →
    (s.rd r).dead = false → (s.rd r).shm = some s.w.shm ∨ (s.rd r).curSize ≠ size))

/-- An ordered run in which the sign is right at each notification. -/
def Prompt (s : System) (a : Act) : Prop := Ordered s a ∧ (a.isWriter = true → SignRight s)

instance (s : System) (a : Act) : Decidable (Prompt s a) := inferInstanceAs (Decidable (_ ∧ _))

/-- A client is one of the readers. -/
theorem lt_of_isClient (hb : Base s) {r : ℕ} (h : s.isClient r = true) : r < s.nrd := by
  obtain ⟨fd, -, hc⟩ := List.any_eq_true.1 h
  exact lt_of_lt_of_le (hb.wf.lists.lt fd r (of_decide_eq_true hc)) hb.nconn

theorem fresh_of_signRight {ok : Frame → Prop} {a : Act} (hb : Base s)
    (h : a.isWriter = true → SignRight s) : Fresh ok s a := by
  rintro size next rfl hpc _ r hc hd
  exact h rfl size (by rw [hpc]; rfl) r (lt_of_isClient hb hc) hc hd

theorem delivers_of_prompt {lfd memsize : ℕ} {as : List Act}
    (h : exec (restrict step Prompt) (init lfd memsize) as = some s) :
    Delivers (fun _ => True) s := by
  refine exec_invariant (fun s a t hs hst => ?_) h (delivers_init _ lfd memsize)
  obtain ⟨⟨ho, hr⟩, hst⟩ := restrict_eq_some.1 hst
  exact hs.step (fun _ _ => trivial) ho (fresh_of_signRight hs.acc.base hr) hst

/-- **No callback is given a stale segment when the sign is right.**  A reader inside its callback is
given the memory of the segment that was the writer's at the notification, and the calls of a reader
so far were given the segments of the frames it was a client for.  The size notified fits the segment
whenever it is at most `alloc_size()`. -/
theorem callback_segment {lfd memsize : ℕ} {as : List Act}
    (h : exec (restrict step Prompt) (init lfd memsize) as = some s) :
    (∀ r size, (s.rd r).dead = false → (s.rd r).pc = .onData size →
      (s.rd r).shm = some s.frame.seg ∧ size = s.frame.size ∧ s.frame.seg = s.w.shm ∧
        (size ≤ s.w.allocSize → size ≤ (s.mem s.frame.seg).length)) ∧
    (∀ r, (s.rd r).dead = false → ∃ done rest, s.due r = done ++ rest ∧ rest.length ≤ 1 ∧
      List.Forall₂ (fun f c => c.seg = some f.seg ∧ c.size = f.size) done (s.rd r).calls) ∧
    (∀ size next, s.w.pc = .notify size next → size ≤ s.w.allocSize →
      size ≤ (s.mem s.w.shm).length) := by
  have hi := delivers_of_prompt h
  have hlen := hi.segs.length
  refine ⟨fun r size hd hpc => ?_, fun r hd => ?_, fun size next _ hle => ?_⟩
  · have hs := hi.served r hd
    have hseg := hi.segs.pending ⟨r, hd, pending_of_busy (by rw [hpc]; rfl)⟩
    refine ⟨hs.attached size (Or.inr hpc) trivial, hs.sizes size (Or.inr (Or.inr (Or.inr hpc))), hseg,
      fun hle => ?_⟩
    rw [hseg, hlen.1]
    exact hle.trans hlen.2.le
  · have hs := hi.served r hd
    have hgood {done : List Frame} (hcalls : List.Forall₂ (Good fun _ => True) done (s.rd r).calls) :=
      hcalls.imp fun _ _ hg => And.intro (hg.seg trivial) hg.size
    by_cases ho : Owing s r
    · obtain ⟨done, hdue, hcalls⟩ := hs.owing ho
      exact ⟨done, [s.frame], hdue, le_rfl, hgood hcalls⟩
    · exact ⟨s.due r, [], (List.append_nil _).symm, Nat.zero_le _, hgood (hs.settled ho)⟩
  · rw [hlen.1]
    exact hle.trans hlen.2.le

/-- A frame is written by `copy_to_shm`, and the reader gives it back. -/
def wholeFrame (data : List UInt8) : List Act :=
  [.call (.copyToShm data), .writer, .writer, .writer, .writer, .writer, .writer, .writer, .writer,
    .reader 0, .reader 0, .reader 0, .reader 0]

/-- An access is made by `get_one_write_access_ptr_resize`, notified and released, and the reader
enters its callback. -/
def resizedAccess (newSize size : ℕ) : List Act :=
  [.call (.getOneWriteAccessPtrResize newSize), .writer, .writer, .writer, .notifyClients size,
    .writer, .writer, .writer, .writer, .release, .writer, .reader 0, .reader 0, .reader 0]

/-- A frame of four bytes, then an access of six bytes. -/
theorem resizedAccess_segment :
    ∃ s, exec (restrict step Prompt) (init 3 4) (connectReader ++ wholeFrame [1, 2, 3, 4] ++
        resizedAccess 6 6) = some s ∧ (s.rd 0).pc = .onData 6 ∧ s.frame.seg = 1 ∧
      (s.rd 0).shm = some s.frame.seg := by
  have hrun : ((exec (restrict step Prompt) (init 3 4) (connectReader ++ wholeFrame [1, 2, 3, 4] ++
      resizedAccess 6 6)).any fun s => (s.rd 0).dead = false ∧ (s.rd 0).pc = .onData 6 ∧
        s.frame.seg = 1) = true := by
    decide +kernel
  obtain ⟨s, hs, hrun⟩ := (Option.any_eq_true _ _).1 hrun
  obtain ⟨hd, hpc, hseg⟩ := of_decide_eq_true hrun
  exact ⟨s, hs, hpc, hseg, ((callback_segment hs).1 0 6 hd hpc).1⟩

/-- A frame of four bytes, then an access of four bytes: the reader is called with the memory of the
first segment, which was removed before the notification. -/
theorem sameSize_stale :
    ∃ s, exec (restrict step Ordered) (init 3 4) (connectReader ++ wholeFrame [1, 2, 3, 4] ++
        resizedAccess 4 4) = some s ∧ (s.rd 0).dead = false ∧ (s.rd 0).pc = .onData 4 ∧
      s.frame = ⟨4, 1, none⟩ ∧ (s.rd 0).shm = some 0 ∧ (s.rd 0).shm ≠ some s.frame.seg := by
  have hrun : ((exec (restrict step Ordered) (init 3 4) (connectReader ++ wholeFrame [1, 2, 3, 4] ++
      resizedAccess 4 4)).any fun s => (s.rd 0).dead = false ∧ (s.rd 0).pc = .onData 4 ∧
        (s.frame.size = 4 ∧ s.frame.seg = 1 ∧ s.frame.data = none) ∧ (s.rd 0).shm = some 0) =
      true := by
    decide +kernel
  obtain ⟨s, hs, hrun⟩ := (Option.any_eq_true _ _).1 hrun
  obtain ⟨hd, hpc, ⟨h1, h2, h3⟩, hshm⟩ := of_decide_eq_true hrun
  have hframe : s.frame = ⟨4, 1, none⟩ := by rw [← h1, ← h2, ← h3]
  refine ⟨s, hs, hd, hpc, hframe, hshm, ?_⟩
  rw [hshm, hframe]
  decide

end System

end Shmdata

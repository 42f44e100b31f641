/-
**The failures of the writer's calls.**

A call that resizes destroys the old segment first.  When the new one cannot be created or attached, the
test that follows looks at the pointer to the new `sysVShm`, which is not null, and the call goes on with an
object that is not valid.

A call that acquires the lock constructs a `WriteLock`, which keeps a failed acquisition in `valid_`.  Only
the destructor of the lock looks at it: the call does what it would do under a valid lock.

Main definitions:

* `Shmdata.WriterObject.FailsToResize`, `Shmdata.WriterObject.Honest` — a failed resize, and what is asked
  of the call;
* `Shmdata.WriterObject.Guarded` — the calls that do nothing without a valid lock.

Main results:

* `Shmdata.WriterObject.not_honest` — **no failed resize is reported**;
* `Shmdata.WriterObject.guarded_iff` — **what is done without the lock**: exactly the calls that are not
  guarded do something under a failed lock.
-/

import Shmdata.WriterSizes

set_option relaxedAutoImplicit false
set_option autoImplicit false

namespace Shmdata

open SysV Semops Runs

namespace WriterObject

variable {s t u : WriterObject} {a : Act} {n : ℕ}

/-! ### A failed resize -/

/-- The call resizes to `n` bytes, and the new segment is not created or not attached. -/
def FailsToResize (s : WriterObject) (a : Act) (n : ℕ) : Prop :=
  ∃ o, s.resizes a = some (n, o) ∧ (s.alloc.recreate n o.key o.shm).shm.isValid = false

/-- The call reports the failure: `copy_to_shm` returns `false` and has sent, committed and written nothing,
`shm_resize` returns `0`. -/
def Reported (s : WriterObject) (a : Act) (t : WriterObject) : Prop :=
  match a with
  | .copyToShm _ _ => t.ret = .bool false ∧
      ∀ es, t.log = s.log ++ es → ∀ e ∈ es, ∃ k, e.effect = .resize k
  | .shmResize _ _ _ => t.ret = .size 0
  | _ => True

/-- A call that neither hands out an unattached address nor writes through one. -/
structure Attached (s : WriterObject) (a : Act) (t : WriterObject) : Prop where
  obtained : ∀ i ∈ s.obtains a, ∀ acc ∈ t.access i, acc.mem ≠ none
  written : ∀ es, t.log = s.log ++ es → ∀ e ∈ es, ∀ k, e.effect ≠ .write none k

/-- What is asked of a call that cannot resize to `n` bytes: it is reported, the sizes do not become `n`, and
from then on no unattached address is handed out or written through. -/
structure Honest (s : WriterObject) (a : Act) (n : ℕ) (t : WriterObject) : Prop where
  reported : Reported s a t
  allocSize : t.alloc.allocSize = n → s.alloc.allocSize = n
  shmSize : t.alloc.shmSize = n → s.alloc.shmSize = n
  attached : Attached s a t
  later : ∀ bs u b v, exec step t bs = some u → u.step b = some v → Attached u b v

/-- The address of a `sysVShm` that is not valid. -/
theorem shm_of_not_isValid {t : IpcTable} {key : ℤ} {size p : ℕ} {o : IpcOutcome}
    (h : (newSysVShm t key size true p o).2.isValid = false) :
    (newSysVShm t key size true p o).2.shm = none := by
  by_cases hkey : key = -1
  · simp [newSysVShm, hkey]
  · cases hid : (getId t key size true p o).2 with
    | none => simp [newSysVShm, hid]
    | some id => simpa [SysVShm.isValid, newSysVShm, hid, hkey, idOf] using h

/-- The copy that follows a failed resize is the last thing that the process does. -/
theorem finishCopy_of_unattached {data : List UInt8} {o : CallOutcome} (hs : s.alloc.shm.shm = none)
    (hd : data ≠ []) (h : s.finishCopy data o = some t) :
    ∃ es, t.log = s.log ++ es ∧ ⟨o.lock, .write none data.length⟩ ∈ es := by
  have hn := After.notifyUpdate (v := o.lock) s data.length o
  obtain ⟨es, hes, -⟩ := hn.log
  have hshm : (s.notifyUpdate o.lock data.length o).alloc.shm.shm = none := by rw [hn.alloc, hs]
  simp only [finishCopy, faulted_memcpy hshm hd, if_true] at h
  obtain rfl := Option.some.inj h
  refine ⟨es ++ [⟨o.lock, .write none data.length⟩], ?_, by simp⟩
  rw [log_memcpy hshm hd, hes, List.append_assoc]

/-- A call that fails to resize hands out an unattached address or writes through one. -/
theorem not_attached (h : s.step a = some t) (hf : s.FailsToResize a n) : ¬ Attached s a t := by
  obtain ⟨o, hr, hvalid⟩ := hf
  have hshm : (s.alloc.recreate n o.key o.shm).shm.shm = none := shm_of_not_isValid hvalid
  have hfault := not_faulted_of_step h
  have halloc := (called_of_step h).resized n o hr
  have hnone : t.alloc.shm.shm = none := by
    rw [halloc]
    exact hshm
  -- an access that the call gives out has the address of the new segment
  have hout {i : ℕ} {acc : Access} (hi : s.obtains a = some i) (hacc : t.access i = some acc)
      (hmem : acc.mem = t.alloc.shm.shm) : ¬ Attached s a t :=
    fun hat => hat.obtained i hi acc hacc (hmem.trans hnone)
  simp only [step, hfault, Bool.false_eq_true, if_false] at h
  cases a with
  | copyToShm data o' =>
      obtain ⟨⟨hsem, hlt⟩, hno⟩ : (s.semPtr.any SysVSem.isValid = true ∧ s.alloc.shmSize < data.length) ∧
          (data.length, o') = (n, o) := by
        simpa [resizes, and_assoc] using hr
      obtain ⟨rfl, rfl⟩ : data.length = n ∧ o' = o := by simpa using hno
      have hd : data ≠ [] := by
        rintro rfl
        simp at hlt
      simp only [copyToShm, hsem, if_true] at h
      obtain ⟨u, hu, h⟩ := Option.bind_eq_some_iff.1 h
      obtain ⟨hlog, hau⟩ : u.log = s.log ∧ u.alloc = s.alloc := by
        obtain ⟨f, -, rfl⟩ := Option.map_eq_some_iff.1 hu
        exact ⟨rfl, rfl⟩
      rw [copyLocked, hau, if_pos hlt] at h
      obtain ⟨es, hes, hmem⟩ := finishCopy_of_unattached
        (s := (u.recreate o'.lock data.length o').setSize data.length)
        (show (u.alloc.recreate _ _ _).shm.shm = none by rw [hau, hshm]) hd h
      intro hat
      refine hat.written (⟨o'.lock, .resize data.length⟩ :: es) ?_ _ (List.mem_cons_of_mem _ hmem) _ rfl
      rw [hes, ← hlog]
      show u.log ++ [_] ++ es = _
      rw [List.append_assoc]
      rfl
  | getOneWriteAccessResize newSize o' =>
      obtain ⟨u, hu, rfl⟩ := Option.map_eq_some_iff.1 h
      obtain ⟨f, -, rfl⟩ := Option.map_eq_some_iff.1 hu
      have hne : s.alloc.shm.size ≠ newSize := by
        rintro heq
        simp [resizes, heq] at hr
      simp only [ne_eq, hne, not_false_eq_true, if_true] at hout ⊢
      exact hout rfl (Function.update_self ..) rfl
  | getOneWriteAccessPtrResize newSize o' =>
      obtain ⟨u, hu, rfl⟩ := Option.map_eq_some_iff.1 h
      obtain ⟨f, -, rfl⟩ := Option.map_eq_some_iff.1 hu
      exact hout rfl (Function.update_self ..) rfl
  | shmResize i newSize o' =>
      obtain ⟨acc, hacc, rfl⟩ := Option.map_eq_some_iff.1 h
      exact hout rfl (Function.update_self ..) rfl
  | getOneWriteAccess | notifyClients | release | others => simp [resizes] at hr

/-- **No failed resize is reported**: whichever of the four functions it happens in, and whether `shmget` or
`shmat` fails, the two sizes become the one that could not be allocated, and an address where nothing is
attached is handed out or written through. -/
theorem not_honest (h : s.step a = some t) (hf : s.FailsToResize a n) :
    t.alloc.allocSize = n ∧ t.alloc.shmSize = n ∧ ¬ Honest s a n t := by
  obtain ⟨o, hr, hvalid⟩ := hf
  have halloc := (called_of_step h).resized n o hr
  refine ⟨by rw [halloc]; rfl, by rw [halloc]; rfl, fun hh => ?_⟩
  exact not_attached h ⟨o, hr, hvalid⟩ hh.attached

/-- A frame that does not fit, when the kernel has no room for a segment. -/
def noRoom : Act :=
  .copyToShm (List.replicate 8 7) ⟨true, true, true, 11, ⟨none, true, some 200⟩, 1⟩

/-- **The update is sent and the copy is made at the address `(void*)-1`.** -/
theorem noRoom_not_honest :
    ∃ s, fourBytes.step noRoom = some s ∧ fourBytes.isValid = true ∧
      s.log = [⟨true, .resize 8⟩, ⟨true, .update 8 1⟩, ⟨true, .commit 1⟩, ⟨true, .write none 8⟩] ∧
      s.alloc.allocSize = 8 ∧ s.faulted = true ∧ ¬ Honest fourBytes noRoom 8 s :=
  ⟨_, rfl, by decide, rfl, rfl, rfl, fun h => absurd h.reported.1 (by decide)⟩

/-- An access is resized, and `shmat` fails. -/
def noAttach : Act := .shmResize 0 16 ⟨true, true, true, 11, ⟨some 2, true, none⟩, 0⟩

/-- `shm_resize` returns the size that was asked for. -/
theorem noAttach_not_honest :
    ∃ s t, exec step fourBytes [.getOneWriteAccess (allGood 0 0 0)] = some s ∧
      s.step noAttach = some t ∧ t.ret = .size 16 ∧ ¬ Honest s noAttach 16 t := by
  refine ⟨_, _, rfl, rfl, rfl, (not_honest rfl ⟨_, rfl, ?_⟩).2.2⟩
  decide

/-! ### A failed acquisition -/

/-- The call does nothing, or its lock is valid: `copy_to_shm` acquires its lock; a new access that makes a
new segment acquires its lock; `shm_resize`, and a first `notify_clients` with a client to notify, are called
on an access that has acquired its lock. -/
def Guarded (s : WriterObject) (a : Act) : Prop := s.locked a = true ∨ s.acts a = false

instance (s : WriterObject) (a : Act) : Decidable (Guarded s a) :=
  inferInstanceAs (Decidable (s.locked a = true ∨ s.acts a = false))

/-- Whatever was done was done under a valid lock. -/
def AllLocked (s : WriterObject) : Prop := ∀ e ∈ s.log, e.locked = true

theorem guarded_iff_allLocked (hs : AllLocked s) (h : s.step a = some t) :
    Guarded s a ↔ AllLocked t := by
  obtain ⟨es, hes, hlocked, hne⟩ := (called_of_step h).log
  unfold AllLocked
  rw [hes]
  constructor
  · intro hg e he
    rcases List.mem_append.1 he with he | he
    · exact hs e he
    · rw [hlocked e he]
      refine hg.resolve_right fun hno => ?_
      rw [hne.1 (List.ne_nil_of_mem he)] at hno
      cases hno
  · intro hall
    cases hacts : s.acts a with
    | false => exact Or.inr hacts
    | true =>
        obtain ⟨e, he⟩ := List.exists_mem_of_ne_nil es (hne.2 hacts)
        exact Or.inl ((hlocked e he).symm.trans (hall e (List.mem_append_right _ he)))

/-- What is done stays in the log. -/
theorem allLocked_of_exec {as : List Act} (h : exec step s as = some t) (ht : AllLocked t) :
    AllLocked s := by
  obtain ⟨es, hes⟩ : ∃ es, t.log = s.log ++ es := by
    refine exec_rel (P := fun _ => True) 
      (R := fun (s t : WriterObject) => ∃ es, t.log = s.log ++ es)
      (fun s => ⟨[], (List.append_nil _).symm⟩) ?_ (fun _ _ _ _ _ => trivial)
      (fun s a t _ hst => ?_) h trivial
    · rintro s t u ⟨es, hes⟩ ⟨es', hes'⟩
      exact ⟨es ++ es', by rw [hes', hes, List.append_assoc]⟩
    · obtain ⟨es, hes, -⟩ := (called_of_step hst).log
      exact ⟨es, hes⟩
  intro e he
  exact ht e (by rw [hes]; exact List.mem_append_left _ he)

/-- The call constructs a `WriteLock` and the acquisition fails. -/
def Act.failsLock : Act → Bool
  | .copyToShm _ o | .getOneWriteAccess o | .getOneWriteAccessResize _ o
  | .getOneWriteAccessPtrResize _ o => !o.lock
  | _ => false

/-- The semaphores, the segments with their contents, and what was sent are the same. -/
structure Unseen (s t : WriterObject) : Prop where
  sem : t.sem = s.sem
  shms : t.alloc.shms = s.alloc.shms
  contents : t.contents = s.contents
  log : t.log = s.log

/-- A guarded call whose acquisition fails is not seen. -/
theorem unseen_of_guarded (hg : Guarded s a) (ha : a.failsLock = true) (h : s.step a = some t) :
    Unseen s t := by
  have hfault := not_faulted_of_step h
  simp only [step, hfault, Bool.false_eq_true, if_false] at h
  have hlock {o : CallOutcome} (ho : o.lock = false) : s.lock o = some s := by
    simp [lock, trySemop, ho]
  cases a with
  | copyToShm data o =>
      have ho : o.lock = false := by simpa [Act.failsLock] using ha
      have hsem : s.semPtr.any SysVSem.isValid = false := hg.resolve_left (by simp [locked, ho])
      simp only [copyToShm, hsem, Bool.false_eq_true, if_false] at h
      obtain rfl := Option.some.inj h
      exact ⟨rfl, rfl, rfl, rfl⟩
  | getOneWriteAccess o =>
      have ho : o.lock = false := by simpa [Act.failsLock] using ha
      simp only [getOneWriteAccess, hlock ho, Option.map_some] at h
      obtain rfl := Option.some.inj h
      exact ⟨rfl, rfl, rfl, rfl⟩
  | getOneWriteAccessResize newSize o =>
      have ho : o.lock = false := by simpa [Act.failsLock] using ha
      have hsize : s.alloc.shm.size = newSize := by
        simpa [acts] using hg.resolve_left (by simp [locked, ho])
      simp only [getOneWriteAccessResize, hlock ho, Option.map_some, hsize, ne_eq, not_true_eq_false,
        if_false] at h
      obtain rfl := Option.some.inj h
      exact ⟨rfl, rfl, rfl, rfl⟩
  | getOneWriteAccessPtrResize newSize o =>
      have ho : o.lock = false := by simpa [Act.failsLock] using ha
      have hno : s.acts (.getOneWriteAccessPtrResize newSize o) = false :=
        hg.resolve_left (by simp [locked, ho])
      cases hno
  | shmResize | notifyClients | release | others => cases ha

/-- The acquisition is interrupted by a signal; there is one client. -/
def interrupted : CallOutcome := ⟨false, true, true, 11, ⟨none, true, none⟩, 1⟩

end WriterObject

end Shmdata

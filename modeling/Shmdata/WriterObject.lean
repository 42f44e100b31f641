/-
**A `Writer` and its write accesses, one call after the other.**

`System` follows the writer through its system calls, all of which succeed there.  Here a call is one step
and any of its system calls may fail: the acquisition and the release of the lock, the commitment of the
readers, `ftok`, `shmget` and `shmat`.  Between two calls the other processes change the semaphores.

The size of the shared memory is kept in four places: the segment of the kernel, `size_` of the `sysVShm`,
`connect_data_.shm_size_` and `alloc_size_`.  The four functions that resize make the new `sysVShm` in the
same way, with the default permission, and test the pointer to it, which is never null.

Main definitions:

* `Shmdata.Allocation`, `Shmdata.Allocation.recreate` — the segment and the sizes;
* `Shmdata.WriterObject`, `Shmdata.WriterObject.construct`, `Shmdata.WriterObject.step` — the writer, its
  accesses and their calls;
* `Shmdata.WriterObject.resizes` — the size for which a call makes a new segment, if it does.

Main results:

* `Shmdata.WriterObject.called_of_step` — **what a call does to the log, the segment and the sizes**.
-/

import Shmdata.Bytes
import Shmdata.IpcObjects
import Shmdata.SysVSem

set_option relaxedAutoImplicit false
set_option autoImplicit false

namespace Shmdata

open SysV Semops Runs

/-! ### The segment and the sizes -/

/-- The segments of the kernel, `*shm_`, the segments that are attached at the addresses of the process,
`connect_data_.shm_size_` and `alloc_size_`. -/
structure Allocation where
  shms : IpcTable
  shm : SysVShm
  maps : ℕ → Option ℕ
  shmSize : ℕ
  allocSize : ℕ

namespace Allocation

/-- The current segment of the writer. -/
def segment (m : Allocation) : Option IpcObject :=
  if 0 ≤ m.shm.shmid then m.shms.find m.shm.shmid.toNat else none

/-- An address at which nothing is attached any more. -/
def detach (maps : ℕ → Option ℕ) (shm : SysVShm) : ℕ → Option ℕ :=
  match shm.shm with
  | some addr => if shm.isValid then Function.update maps addr none else maps
  | none => maps

/-- The address at which a segment was attached. -/
def attach (maps : ℕ → Option ℕ) (shm : SysVShm) : ℕ → Option ℕ :=
  match shm.shm with
  | some addr => Function.update maps addr (some shm.shmid.toNat)
  | none => maps

/-- `shm_.reset(); shm_.reset(new sysVShm(ftok(path_.c_str(), 'n'), size, log_, true));`. -/
def recreate (m : Allocation) (size : ℕ) (key : ℤ) (o : IpcOutcome) : Allocation :=
  let made := newSysVShm (m.shm.destroy m.shms) key size true defaultPermission o
  { m with shms := made.1, shm := made.2, maps := attach (detach m.maps m.shm) made.2 }

/-- `connect_data_.shm_size_ = size; alloc_size_ = size;`. -/
def setSize (m : Allocation) (size : ℕ) : Allocation := { m with shmSize := size, allocSize := size }

end Allocation

/-! ### The writer -/

/-- What happens to the system calls of one call of the library: whether `write_start`, `commit_readers` and
`write_end` are performed (they fail otherwise), what `ftok` and the constructor of a `sysVShm` get, and how
many clients the update message can be sent to. -/
structure CallOutcome where
  lock : Bool
  commit : Bool
  unlock : Bool
  key : ℤ
  shm : IpcOutcome
  clients : ℕ

/-- What others can see of a call. -/
inductive Effect
  /-- The segment is removed and a new one of `size` bytes is asked for. -/
  | resize (size : ℕ)
  | update (size clients : ℕ)
  | commit (numReader : ℤ)
  /-- `n` bytes are written at `dest`. -/
  | write (dest : Option ℕ) (n : ℕ)
  /-- `copy_to_shm` returns `true`. -/
  | success
  deriving DecidableEq

/-- An effect, and whether the `WriteLock` it happened under was valid. -/
structure Event where
  locked : Bool
  effect : Effect
  deriving DecidableEq

/-- What a call returns. -/
inductive Ret
  | unit
  | bool (b : Bool)
  | size (n : ℕ)
  | short (n : ℤ)
  /-- The access with this number. -/
  | access (i : ℕ)
  deriving DecidableEq

/-- The fields of `OneWriteAccess`; `valid` is `valid_` of its `WriteLock`. -/
structure Access where
  valid : Bool
  mem : Option ℕ
  hasNotified : Bool

/-- The writer and its accesses, which are numbered in the order of their construction.  `semPtr` is what
`sem_` points to, `sem` are the values of its semaphores, `sockMode` is the mode that `chmod` gave to the
socket file, `contents` are the bytes of the segments, by their identifiers, `ret` is what the last call
returned, and `faulted` tells that the process was killed by an access outside its memory. -/
structure WriterObject where
  alloc : Allocation
  sems : IpcTable
  semPtr : Option SysVSem
  sockMode : ℕ
  sem : ℕ → ℕ
  contents : ℕ → List UInt8
  access : ℕ → Option Access
  nextAccess : ℕ
  log : List Event
  ret : Ret
  faulted : Bool

namespace WriterObject

/-- `Writer::Writer`: its segment, its semaphores and its socket are made with the permission of the
caller, in the first attempt as well as in the one that follows the cleaning of a dead shmdata. -/
def construct (shms sems : IpcTable) (keyN keyM : ℤ) (memsize unixPermission : ℕ) (oN oM : IpcOutcome) :
    WriterObject :=
  let shm := newSysVShm shms keyN memsize true unixPermission oN
  let sem := newSysVSem sems keyM true unixPermission oM
  { alloc :=
      { shms := shm.1
        shm := shm.2
        maps := Allocation.attach (fun _ => none) shm.2
        shmSize := memsize
        allocSize := memsize }
    sems := sem.1
    semPtr := some sem.2
    sockMode := unixPermission
    sem := fun _ => 0
    contents := Function.update (fun _ => []) shm.2.shmid.toNat (List.replicate memsize 0)
    access := fun _ => none
    nextAccess := 0
    log := []
    ret := .unit
    faulted := false }

/-- The part of `is_valid_` that is about the segment and the semaphores. -/
def isValid (s : WriterObject) : Bool := s.alloc.shm.isValid && s.semPtr.any SysVSem.isValid

def emit (s : WriterObject) (locked : Bool) (e : Effect) : WriterObject :=
  { s with log := s.log ++ [⟨locked, e⟩] }

/-- A `semop` that may have to wait: it is performed, or it fails and changes nothing. -/
def trySemop (ok : Bool) (f : ℕ → ℕ) (ops : List SemBuf) : Option (ℕ → ℕ) :=
  if ok then perform f ops else some f

/-- `WriteLock::WriteLock`. -/
def lock (s : WriterObject) (o : CallOutcome) : Option WriterObject :=
  (trySemop o.lock s.sem writeStart).map fun f => { s with sem := f }

/-- `WriteLock::~WriteLock`. -/
def unlock (s : WriterObject) (valid : Bool) (o : CallOutcome) : Option WriterObject :=
  if valid then (trySemop o.unlock s.sem writeEnd).map fun f => { s with sem := f } else some s

/-- `WriteLock::commit_readers`. -/
def commitReaders (s : WriterObject) (locked : Bool) (numReader : ℤ) (o : CallOutcome) : WriterObject :=
  match o.commit, semop s.sem (Semops.commitReaders numReader) with
  | true, .ok f => { s with sem := f }.emit locked (.commit numReader)
  | _, _ => s

/-- The segment is made again, and cleared when it is attached. -/
def recreate (s : WriterObject) (locked : Bool) (size : ℕ) (o : CallOutcome) : WriterObject :=
  let alloc := s.alloc.recreate size o.key o.shm
  let contents :=
    if alloc.shm.isValid then
      Function.update s.contents alloc.shm.shmid.toNat (List.replicate size 0)
    else s.contents
  { s with alloc, contents }.emit locked (.resize size)

def setSize (s : WriterObject) (size : ℕ) : WriterObject := { s with alloc := s.alloc.setSize size }

/-- `notify_update`, and `commit_readers` with the number it returns. -/
def notifyUpdate (s : WriterObject) (locked : Bool) (size : ℕ) (o : CallOutcome) : WriterObject :=
  let s := if 0 < o.clients then s.emit locked (.update size o.clients) else s
  if 0 < toShort o.clients then s.commitReaders locked (toShort o.clients) o else s

/-- `std::memcpy(shm_->get_mem(), data, size)`. -/
def memcpy (s : WriterObject) (locked : Bool) (data : List UInt8) : WriterObject :=
  if data = [] then s
  else
    match s.alloc.shm.shm.bind s.alloc.maps with
    | some id =>
        { s with contents := Function.update s.contents id (Bytes.fill (s.contents id) data) }.emit locked
          (.write s.alloc.shm.shm data.length)
    | none => { s with faulted := true }.emit locked (.write s.alloc.shm.shm data.length)

/-- `Writer::copy_to_shm`, from the call of `notify_update` on. -/
def finishCopy (s : WriterObject) (data : List UInt8) (o : CallOutcome) : Option WriterObject :=
  let s := (s.notifyUpdate o.lock data.length o).memcpy o.lock data
  if s.faulted then some s
  else (s.unlock o.lock o).map fun s => { s.emit o.lock .success with ret := .bool true }

/-- `Writer::copy_to_shm`, from the construction of the lock on.  After a resize, `shm_` is not null. -/
def copyLocked (s : WriterObject) (data : List UInt8) (o : CallOutcome) : Option WriterObject :=
  if s.alloc.shmSize < data.length then
    ((s.recreate o.lock data.length o).setSize data.length).finishCopy data o
  else s.finishCopy data o

/-- `Writer::copy_to_shm`. -/
def copyToShm (s : WriterObject) (data : List UInt8) (o : CallOutcome) : Option WriterObject :=
  if s.semPtr.any SysVSem.isValid then (s.lock o).bind fun s => s.copyLocked data o
  else some { s with ret := .bool false }

/-- A new `OneWriteAccess`. -/
def newAccess (s : WriterObject) (valid : Bool) (mem : Option ℕ) : WriterObject :=
  { s with
    access := Function.update s.access s.nextAccess (some ⟨valid, mem, false⟩)
    nextAccess := s.nextAccess + 1
    ret := .access s.nextAccess }

/-- `Writer::get_one_write_access`; the form that returns a pointer does the same. -/
def getOneWriteAccess (s : WriterObject) (o : CallOutcome) : Option WriterObject :=
  (s.lock o).map fun s => s.newAccess o.lock s.alloc.shm.shm

/-- `Writer::get_one_write_access_resize`. -/
def getOneWriteAccessResize (s : WriterObject) (newSize : ℕ) (o : CallOutcome) : Option WriterObject :=
  (s.lock o).map fun s =>
    let s := if s.alloc.shm.size ≠ newSize then s.recreate o.lock newSize o else s
    (s.setSize newSize).newAccess o.lock s.alloc.shm.shm

/-- `Writer::get_one_write_access_ptr_resize`. -/
def getOneWriteAccessPtrResize (s : WriterObject) (newSize : ℕ) (o : CallOutcome) :
    Option WriterObject :=
  (s.lock o).map fun s =>
    let s := s.recreate o.lock newSize o
    (s.setSize newSize).newAccess o.lock s.alloc.shm.shm

/-- `OneWriteAccess::shm_resize`. -/
def shmResize (s : WriterObject) (i : ℕ) (acc : Access) (newSize : ℕ) (o : CallOutcome) :
    WriterObject :=
  let s := s.recreate acc.valid newSize o
  { s.setSize newSize with
    access := Function.update s.access i (some { acc with mem := s.alloc.shm.shm })
    ret := .size newSize }

/-- `OneWriteAccess::notify_clients`. -/
def notifyClients (s : WriterObject) (i : ℕ) (acc : Access) (size : ℕ) (o : CallOutcome) :
    WriterObject :=
  if acc.hasNotified then { s with ret := .short 0 }
  else
    { s.notifyUpdate acc.valid size o with
      access := Function.update s.access i (some { acc with hasNotified := true })
      ret := .short (toShort o.clients) }

/-- The calls on the writer and on its accesses, and what the other processes do to the semaphores. -/
inductive Act
  | copyToShm (data : List UInt8) (o : CallOutcome)
  | getOneWriteAccess (o : CallOutcome)
  | getOneWriteAccessResize (newSize : ℕ) (o : CallOutcome)
  | getOneWriteAccessPtrResize (newSize : ℕ) (o : CallOutcome)
  | shmResize (i newSize : ℕ) (o : CallOutcome)
  | notifyClients (i size : ℕ) (o : CallOutcome)
  /-- The access is destroyed. -/
  | release (i : ℕ) (o : CallOutcome)
  | others (sem : ℕ → ℕ)

/-- One call.  A call on an access that does not exist is not possible, and neither is one whose `semop`
goes on waiting. -/
def step (s : WriterObject) (a : Act) : Option WriterObject :=
  if s.faulted then none
  else
    match a with
    | .copyToShm data o => s.copyToShm data o
    | .getOneWriteAccess o => s.getOneWriteAccess o
    | .getOneWriteAccessResize newSize o => s.getOneWriteAccessResize newSize o
    | .getOneWriteAccessPtrResize newSize o => s.getOneWriteAccessPtrResize newSize o
    | .shmResize i newSize o => (s.access i).map fun acc => s.shmResize i acc newSize o
    | .notifyClients i size o => (s.access i).map fun acc => s.notifyClients i acc size o
    | .release i o =>
        (s.access i).bind fun acc =>
          (s.unlock acc.valid o).map fun s =>
            { s with access := Function.update s.access i none, ret := .unit }
    | .others sem => some { s with sem }

/-! ### Which calls make a new segment -/

/-- The size for which a call makes a new segment, with what its system calls get. -/
def resizes (s : WriterObject) : Act → Option (ℕ × CallOutcome)
  | .copyToShm data o =>
      if s.semPtr.any SysVSem.isValid = true ∧ s.alloc.shmSize < data.length then
        some (data.length, o)
      else none
  | .getOneWriteAccessResize newSize o =>
      if s.alloc.shm.size ≠ newSize then some (newSize, o) else none
  | .getOneWriteAccessPtrResize newSize o => some (newSize, o)
  | .shmResize _ newSize o => some (newSize, o)
  | _ => none

/-- The lock under which a call acts is valid. -/
def locked (s : WriterObject) : Act → Bool
  | .copyToShm _ o | .getOneWriteAccess o | .getOneWriteAccessResize _ o
  | .getOneWriteAccessPtrResize _ o => o.lock
  | .shmResize i _ _ | .notifyClients i _ _ | .release i _ => (s.access i).any Access.valid
  | .others _ => true

/-- A call does something that others can see. -/
def acts (s : WriterObject) : Act → Bool
  | .copyToShm _ _ => s.semPtr.any SysVSem.isValid
  | .getOneWriteAccessResize newSize _ => decide (s.alloc.shm.size ≠ newSize)
  | .getOneWriteAccessPtrResize _ _ | .shmResize _ _ _ => true
  | .notifyClients i _ o => (s.access i).any (fun acc => !acc.hasNotified) && decide (0 < o.clients)
  | .getOneWriteAccess _ | .release _ _ | .others _ => false

/-! ### What the parts of a call change -/

variable {s t u : WriterObject} {a : Act} {o : CallOutcome} {n : ℕ} {v logs logs' : Bool}

/-- The segment, the sizes and the semaphores are the same, and what was done under the lock is at the end
of the log; `logs` tells whether something was. -/
structure After (v logs : Bool) (s t : WriterObject) : Prop where
  alloc : t.alloc = s.alloc
  sems : t.sems = s.sems
  semPtr : t.semPtr = s.semPtr
  sockMode : t.sockMode = s.sockMode
  log : ∃ es, t.log = s.log ++ es ∧ (∀ e ∈ es, e.locked = v) ∧ (es ≠ [] ↔ logs = true)

namespace After

theorem of_log (h1 : t.alloc = s.alloc) (h2 : t.sems = s.sems) (h3 : t.semPtr = s.semPtr)
    (h4 : t.sockMode = s.sockMode) (h5 : t.log = s.log) : After v false s t :=
  ⟨h1, h2, h3, h4, [], by simp [h5], by simp, by simp⟩

theorem refl (s : WriterObject) : After v false s s := of_log rfl rfl rfl rfl rfl

theorem of_event {e : Effect} (h1 : t.alloc = s.alloc) (h2 : t.sems = s.sems)
    (h3 : t.semPtr = s.semPtr) (h4 : t.sockMode = s.sockMode) (h5 : t.log = s.log ++ [⟨v, e⟩]) :
    After v true s t :=
  ⟨h1, h2, h3, h4, [⟨v, e⟩], h5, by simp, by simp⟩

theorem emit (s : WriterObject) (e : Effect) : After v true s (s.emit v e) :=
  of_event rfl rfl rfl rfl rfl

theorem trans (h : After v logs s t) (h' : After v logs' t u) :
    After v (logs || logs') s u := by
  obtain ⟨es, hes, hv, hl⟩ := h.log
  obtain ⟨es', hes', hv', hl'⟩ := h'.log
  refine ⟨h'.alloc.trans h.alloc, h'.sems.trans h.sems, h'.semPtr.trans h.semPtr,
    h'.sockMode.trans h.sockMode, es ++ es', ?_, ?_, ?_⟩
  · rw [hes', hes, List.append_assoc]
  · intro e he
    rcases List.mem_append.1 he with he | he
    · exact hv e he
    · exact hv' e he
  · rw [Bool.or_eq_true, ← hl, ← hl', ne_eq, List.append_eq_nil_iff, not_and_or]

/-- The accesses and what is returned are not seen. -/
theorem returned (h : After v logs s t) (access : ℕ → Option Access) (nextAccess : ℕ) (ret : Ret) :
    After v logs s { t with access, nextAccess, ret } :=
  ⟨h.alloc, h.sems, h.semPtr, h.sockMode, h.log⟩

theorem lock (h : s.lock o = some t) : After v false s t := by
  obtain ⟨f, -, rfl⟩ := Option.map_eq_some_iff.1 h
  exact of_log rfl rfl rfl rfl rfl

theorem unlock {valid' : Bool} (h : s.unlock valid' o = some t) : After v false s t := by
  unfold WriterObject.unlock at h
  split at h
  · obtain ⟨f, -, rfl⟩ := Option.map_eq_some_iff.1 h
    exact of_log rfl rfl rfl rfl rfl
  · obtain rfl := Option.some.inj h
    exact refl s

theorem commitReaders (s : WriterObject) (z : ℤ) (o : CallOutcome) :
    ∃ logs, After v logs s (s.commitReaders v z o) := by
  unfold WriterObject.commitReaders
  split
  · exact ⟨true, of_event rfl rfl rfl rfl rfl⟩
  · exact ⟨false, refl s⟩

/-- A notification is seen when there is a client. -/
theorem notifyUpdate (s : WriterObject) (size : ℕ) (o : CallOutcome) :
    After v (decide (0 < o.clients)) s (s.notifyUpdate v size o) := by
  unfold WriterObject.notifyUpdate
  by_cases hc : 0 < o.clients
  · rw [if_pos hc, decide_eq_true hc]
    have hemit := emit (v := v) s (.update size o.clients)
    split
    · obtain ⟨logs, hcommit⟩ := commitReaders (v := v)
        (s.emit v (.update size o.clients)) (toShort o.clients) o
      exact hemit.trans hcommit
    · exact hemit
  · have hz : o.clients = 0 := by omega
    rw [if_neg hc, decide_eq_false hc, hz, if_neg (by decide)]
    exact refl s

theorem memcpy (s : WriterObject) (data : List UInt8) :
    After v (decide (data ≠ [])) s (s.memcpy v data) := by
  unfold WriterObject.memcpy
  by_cases hd : data = []
  · rw [if_pos hd, decide_eq_false (not_not.2 hd)]
    exact refl s
  · rw [if_neg hd, decide_eq_true hd]
    split
    · exact of_event rfl rfl rfl rfl rfl
    · exact of_event rfl rfl rfl rfl rfl

end After

/-- A copy that cannot be made is the end of the process. -/
theorem memcpy_of_unattached {data : List UInt8} (h : s.alloc.shm.shm = none) (hd : data ≠ []) :
    s.memcpy v data = { s with faulted := true }.emit v (.write none data.length) := by
  unfold memcpy
  rw [if_neg hd, h]
  rfl

theorem faulted_memcpy {data : List UInt8} (h : s.alloc.shm.shm = none) (hd : data ≠ []) :
    (s.memcpy v data).faulted = true := by
  rw [memcpy_of_unattached h hd]
  rfl

theorem log_memcpy {data : List UInt8} (h : s.alloc.shm.shm = none) (hd : data ≠ []) :
    (s.memcpy v data).log = s.log ++ [⟨v, .write none data.length⟩] := by
  rw [memcpy_of_unattached h hd]
  rfl

@[simp] theorem faulted_commitReaders (s : WriterObject) (v : Bool) (z : ℤ) (o : CallOutcome) :
    (s.commitReaders v z o).faulted = s.faulted := by
  unfold commitReaders
  split <;> rfl

@[simp] theorem faulted_notifyUpdate (s : WriterObject) (v : Bool) (size : ℕ) (o : CallOutcome) :
    (s.notifyUpdate v size o).faulted = s.faulted := by
  have hemit (e : Effect) : (s.emit v e).faulted = s.faulted := rfl
  simp only [notifyUpdate]
  split
  · rw [faulted_commitReaders]
    split
    · exact hemit _
    · rfl
  · split
    · exact hemit _
    · rfl

/-- The end of `copy_to_shm` is always seen: there is a copy to write, or it succeeds. -/
theorem After.finishCopy {data : List UInt8} (hf : s.faulted = false)
    (h : s.finishCopy data o = some t) : After o.lock true s t := by
  have hcopy := (After.notifyUpdate (v := o.lock) s data.length o).trans
    (After.memcpy (s.notifyUpdate o.lock data.length o) data)
  simp only [WriterObject.finishCopy] at h
  split at h
  · next hfault =>
      obtain rfl := Option.some.inj h
      have hd : data ≠ [] := by
        rintro rfl
        rw [WriterObject.memcpy, if_pos rfl, faulted_notifyUpdate, hf] at hfault
        cases hfault
      rwa [decide_eq_true hd, Bool.or_true] at hcopy
  · obtain ⟨u, hu, rfl⟩ := Option.map_eq_some_iff.1 h
    have hsuccess : After o.lock true u { u.emit o.lock .success with ret := .bool true } :=
      of_event rfl rfl rfl rfl rfl
    simpa using (hcopy.trans (After.unlock hu)).trans hsuccess

/-! ### What a call changes -/

/-- The specification of a call: the semaphore and the socket keep their modes, what is done is done under
the lock of the call, and the segment and the sizes change together. -/
structure Called (s : WriterObject) (a : Act) (t : WriterObject) : Prop where
  sems : t.sems = s.sems
  semPtr : t.semPtr = s.semPtr
  sockMode : t.sockMode = s.sockMode
  log : ∃ es, t.log = s.log ++ es ∧ (∀ e ∈ es, e.locked = s.locked a) ∧ (es ≠ [] ↔ s.acts a = true)
  resized : ∀ n o, s.resizes a = some (n, o) → t.alloc = (s.alloc.recreate n o.key o.shm).setSize n
  kept : s.resizes a = none → t.alloc = s.alloc ∨ t.alloc = s.alloc.setSize s.alloc.shm.size

theorem Called.of_after (h : After v logs s t) (hv : logs = true → s.locked a = v)
    (hl : s.acts a = logs) (hr : s.resizes a = none) : Called s a t := by
  obtain ⟨es, hes, hlocked, hne⟩ := h.log
  refine ⟨h.sems, h.semPtr, h.sockMode, ⟨es, hes, fun e he => ?_, hl ▸ hne⟩, fun n o hn => ?_,
    fun _ => Or.inl h.alloc⟩
  · rw [hlocked e he, hv (hne.1 (List.ne_nil_of_mem he))]
  · rw [hr] at hn
    cases hn

theorem Called.of_resized (h : After v logs s u)
    (h' : After v logs' ((u.recreate v n o).setSize n) t) (hv : s.locked a = v)
    (hl : s.acts a = true) (hr : s.resizes a = some (n, o)) : Called s a t := by
  obtain ⟨es, hes, hlocked, -⟩ := h.log
  obtain ⟨es', hes', hlocked', -⟩ := h'.log
  refine ⟨h'.sems.trans h.sems, h'.semPtr.trans h.semPtr, h'.sockMode.trans h.sockMode,
    ⟨es ++ ⟨v, .resize n⟩ :: es', ?_, fun e he => ?_, by simp [hl]⟩, fun m o' hm => ?_,
    fun hnone => ?_⟩
  · rw [hes']
    show u.log ++ [_] ++ es' = _
    rw [hes]
    simp
  · rw [hv]
    rcases List.mem_append.1 he with he | he
    · exact hlocked e he
    · rcases List.mem_cons.1 he with rfl | he
      · rfl
      · exact hlocked' e he
  · rw [hr] at hm
    obtain ⟨rfl, rfl⟩ : n = m ∧ o = o' := by simpa using hm
    rw [h'.alloc]
    show (u.alloc.recreate n o.key o.shm).setSize n = _
    rw [h.alloc]
  · rw [hr] at hnone
    cases hnone

/-- A process that was killed makes no calls. -/
theorem not_faulted_of_step (h : s.step a = some t) : s.faulted = false := by
  by_contra hne
  simp [step, Bool.eq_true_of_not_eq_false hne] at h

/-- **What a call does to the log, the segment and the sizes.** -/
theorem called_of_step (h : s.step a = some t) : Called s a t := by
  have hf := not_faulted_of_step h
  simp only [step, hf, Bool.false_eq_true, if_false] at h
  cases a with
  | copyToShm data o =>
      by_cases hsem : s.semPtr.any SysVSem.isValid = true
      · simp only [copyToShm, hsem, if_true] at h
        obtain ⟨u, hu, h⟩ := Option.bind_eq_some_iff.1 h
        have hlock : After o.lock false s u := After.lock hu
        have huf : u.faulted = false := by
          obtain ⟨f, -, rfl⟩ := Option.map_eq_some_iff.1 hu
          exact hf
        simp only [copyLocked, hlock.alloc] at h
        split at h
        · next hlt =>
            exact Called.of_resized hlock (After.finishCopy huf h) rfl hsem (by simp [resizes, hsem, hlt])
        · next hlt =>
            exact Called.of_after (hlock.trans (After.finishCopy huf h)) (fun _ => rfl) hsem
              (by simp [resizes, hlt])
      · simp only [copyToShm, hsem] at h
        obtain rfl := Option.some.inj h
        exact Called.of_after (v := true) (After.of_log rfl rfl rfl rfl rfl) (by simp)
          (by simpa [acts] using hsem) (by simp [resizes, hsem])
  | getOneWriteAccess o =>
      obtain ⟨u, hu, rfl⟩ := Option.map_eq_some_iff.1 h
      have hlock : After o.lock false s u := After.lock hu
      exact Called.of_after (hlock.returned _ _ _) (by simp) rfl rfl
  | getOneWriteAccessResize newSize o =>
      obtain ⟨u, hu, rfl⟩ := Option.map_eq_some_iff.1 h
      have hlock : After o.lock false s u := After.lock hu
      by_cases hsize : s.alloc.shm.size = newSize
      · have hresizes : s.resizes (.getOneWriteAccessResize newSize o) = none := by
          simp [resizes, hsize]
        simp only [hlock.alloc, hsize, ne_eq, not_true_eq_false, if_false]
        obtain ⟨es, hes, hlocked, hne⟩ := hlock.log
        refine ⟨hlock.sems, hlock.semPtr, hlock.sockMode, ⟨es, hes, hlocked, ?_⟩, ?_, fun _ => Or.inr ?_⟩
        · simpa [acts, hsize] using hne
        · simp [hresizes]
        · show u.alloc.setSize newSize = _
          rw [hlock.alloc, hsize]
      · simp only [hlock.alloc, ne_eq, hsize, not_false_eq_true, if_true]
        exact Called.of_resized hlock (After.of_log rfl rfl rfl rfl rfl) rfl (by simp [acts, hsize])
          (by simp [resizes, hsize])
  | getOneWriteAccessPtrResize newSize o =>
      obtain ⟨u, hu, rfl⟩ := Option.map_eq_some_iff.1 h
      have hlock : After o.lock false s u := After.lock hu
      exact Called.of_resized hlock (After.of_log rfl rfl rfl rfl rfl) rfl rfl rfl
  | shmResize i newSize o =>
      obtain ⟨acc, hacc, rfl⟩ := Option.map_eq_some_iff.1 h
      exact Called.of_resized (After.refl s) (After.of_log rfl rfl rfl rfl rfl)
        (by simp [locked, hacc]) rfl rfl
  | notifyClients i size o =>
      obtain ⟨acc, hacc, rfl⟩ := Option.map_eq_some_iff.1 h
      unfold notifyClients
      split
      · next hn =>
          exact Called.of_after (v := true) (After.of_log rfl rfl rfl rfl rfl) (by simp)
            (by simp [acts, hacc, hn]) rfl
      · next hn =>
          have hnotify := After.notifyUpdate (v := acc.valid) s size o
          exact Called.of_after (hnotify.returned _ _ _) (by simp [locked, hacc])
            (by simp [acts, hacc, hn]) rfl
  | release i o =>
      obtain ⟨acc, hacc, h⟩ := Option.bind_eq_some_iff.1 h
      obtain ⟨u, hu, rfl⟩ := Option.map_eq_some_iff.1 h
      have hun : After acc.valid false s u := After.unlock hu
      exact Called.of_after (hun.returned _ _ _) (by simp) rfl rfl
  | others sem =>
      obtain rfl := Option.some.inj h
      exact Called.of_after (v := true) (After.of_log rfl rfl rfl rfl rfl) (by simp) rfl rfl

end WriterObject

end Shmdata

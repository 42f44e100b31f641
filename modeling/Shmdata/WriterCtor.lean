/-
**The constructor of `Writer`.**

The keys of the semaphore and of the segment are computed by `ftok` from the file at the path, the
socket file that the server binds.  In the normal path the file is bound first.  When the first attempt
fails and nobody answers at the path, the constructor takes what it finds for the remains of a dead
writer: it removes the semaphore and the segment, makes new ones, and only then unlinks the socket file
and binds another.  The new semaphore and segment then have the keys of the file that is gone.

The kernel is modelled as far as the constructor sees it: the file at the path, the two tables of IPC
objects, and for every system call that may fail whether it does.  Inode numbers and identifiers of IPC
objects are given out in increasing order, so that a new one is fresh; an identifier may be `0`.

Main definitions:

* `Shmdata.Kernel`, `Shmdata.Kernel.ftok` — the kernel and the keys;
* `Shmdata.WriterCtor.construct` — the constructor;
* `Shmdata.WriterCtor.Consistent` — a valid writer has the keys of the file at the path;
* `Shmdata.WriterCtor.Recovers` — the conditions under which the second attempt succeeds.

Main results:

* `Shmdata.WriterCtor.consistent_iff` — **the keys are right unless the second attempt succeeds**;
* `Shmdata.WriterCtor.deadShmdata_not_consistent` — a writer on the path of a dead one, which no reader
  finds.
-/

import Mathlib.Logic.Function.Basic
import Mathlib.Tactic.Common

set_option relaxedAutoImplicit false
set_option autoImplicit false

namespace Shmdata

/-! ### The kernel -/

/-- A key made by `ftok` from an inode number and a character, `none` for `-1`. -/
abbrev Key := Option (ℕ × Char)

/-- The semaphores, or the segments: the identifiers by their keys, and the next identifier. -/
structure Ipc where
  tab : Key → Option ℕ
  next : ℕ

namespace Ipc

/-- `semget` or `shmget` with `IPC_CREAT | IPC_EXCL`; `ok` tells whether there is room. -/
def create (t : Ipc) (key : Key) (ok : Bool) : Ipc × Option ℕ :=
  if t.tab key = none ∧ ok = true then
    (⟨Function.update t.tab key (some t.next), t.next + 1⟩, some t.next)
  else (t, none)

/-- `IPC_RMID`. -/
def remove (t : Ipc) (id : ℕ) : Ipc :=
  { t with tab := fun key => if t.tab key = some id then none else t.tab key }

/-- What the destructor of an owner does with its identifier: `0` is left alone. -/
def drop (t : Ipc) : Option ℕ → Ipc
  | some id => if 0 < id then t.remove id else t
  | none => t

/-- Removing what is found under a key, when it is permitted. -/
def clean (t : Ipc) (key : Key) (permitted : Bool) : Ipc :=
  match t.tab key with
  | some id => if permitted then t.remove id else t
  | none => t

theorem create_isSome {t : Ipc} {key : Key} {ok : Bool} :
    (t.create key ok).2.isSome = true ↔ t.tab key = none ∧ ok = true := by
  unfold create
  split
  · next h => simp [h]
  · next h => simp [h]

/-- What was created is found under its key. -/
theorem create_tab {t : Ipc} {key : Key} {ok : Bool} {id : ℕ} (h : (t.create key ok).2 = some id) :
    id = t.next ∧ (t.create key ok).1.tab key = some id := by
  unfold create at h ⊢
  split at h
  · next hc =>
      obtain rfl : t.next = id := by simpa using h
      rw [if_pos hc]
      exact ⟨rfl, Function.update_self ..⟩
  · cases h

/-- What the constructor of an owner creates, its destructor removes, unless the identifier is `0`. -/
theorem drop_create_tab (t : Ipc) (key : Key) (ok : Bool) :
    ((t.create key ok).1.drop (t.create key ok).2).tab key =
      if t.tab key = none ∧ ok = true ∧ t.next = 0 then some 0 else t.tab key := by
  by_cases hc : t.tab key = none ∧ ok = true
  · by_cases hz : t.next = 0
    · simp [create, drop, hc, hz]
    · simp [create, drop, remove, hc, hz, Nat.pos_of_ne_zero hz]
  · rw [if_neg fun h => hc ⟨h.1, h.2.1⟩]
    unfold create
    rw [if_neg hc]
    rfl

theorem drop_create_next (t : Ipc) (key : Key) (ok : Bool) :
    ((t.create key ok).1.drop (t.create key ok).2).next =
      if t.tab key = none ∧ ok = true then t.next + 1 else t.next := by
  by_cases hc : t.tab key = none ∧ ok = true
  · by_cases hz : t.next = 0
    · simp [create, drop, hc, hz]
    · simp [create, drop, remove, hc, Nat.pos_of_ne_zero hz]
  · unfold create
    rw [if_neg hc, if_neg hc]
    rfl

theorem clean_next (t : Ipc) (key : Key) (permitted : Bool) :
    (t.clean key permitted).next = t.next := by
  unfold clean
  cases t.tab key with
  | none => rfl
  | some id => cases permitted <;> rfl

/-- A key is free after it was cleaned when it was free before or cleaning it was permitted. -/
theorem clean_tab_eq_none {t : Ipc} {key : Key} {permitted : Bool} :
    (t.clean key permitted).tab key = none ↔ t.tab key = none ∨ permitted = true := by
  unfold clean
  cases h : t.tab key with
  | none => simp [h]
  | some id => cases permitted <;> simp [h, remove]

end Ipc

/-- The file at the path: its inode number, whether it is a socket, and whether a server listens on
it. -/
structure File where
  ino : ℕ
  isSock : Bool
  live : Bool

/-- The kernel as the constructor sees it.  Inode numbers from `nextIno` on are not in use. -/
structure Kernel where
  file : Option File
  nextIno : ℕ
  sems : Ipc
  shms : Ipc
  fresh : ∀ f ∈ file, f.ino < nextIno

namespace Kernel

/-- `ftok(path, id)`. -/
def ftok (k : Kernel) (id : Char) : Key := k.file.map fun f => (f.ino, id)

/-- A successful `bind`, followed by a `listen` that may fail. -/
def bind (k : Kernel) (listening : Bool) : Kernel :=
  { k with
    file := some ⟨k.nextIno, true, listening⟩
    nextIno := k.nextIno + 1
    fresh := by simp }

/-- The last descriptor of the socket bound at the path is closed. -/
def closeSocket (k : Kernel) : Kernel :=
  { k with
    file := k.file.map fun f => { f with live := false }
    fresh := by
      intro f hf
      obtain ⟨g, hg, rfl⟩ := Option.map_eq_some_iff.1 hf
      exact k.fresh g hg }

/-- A successful `unlink` of the path. -/
def unlink (k : Kernel) : Kernel := { k with file := none, fresh := by simp }

end Kernel

namespace WriterCtor

/-! ### The parts of a writer -/

/-- Which system calls of one attempt succeed, as far as the state of the kernel does not decide. -/
structure Outcome where
  socket : Bool
  bind : Bool
  listen : Bool
  shmget : Bool
  shmat : Bool
  semget : Bool

/-- The same for the whole constructor: its two attempts, the `Reader` that inspects the path (its
`shmat`, and the connection within its delay), and the removals. -/
structure Outcomes where
  first : Outcome
  inspectorShmat : Bool
  connected : Bool
  semRmid : Bool
  shmRmid : Bool
  unlink : Bool
  retry : Outcome

structure UnixSocketServer where
  isBinded : Bool
  isListening : Bool

structure SysVShm where
  key : Key
  shmid : Option ℕ
  attached : Bool

structure SysVSem where
  key : Key
  semid : Option ℕ

def UnixSocketServer.isValid (s : UnixSocketServer) : Bool := s.isBinded && s.isListening

def SysVShm.isValid (s : SysVShm) : Bool := s.key.isSome && s.shmid.isSome && s.attached

/-- The identifier `0` counts as a failure here, unlike for the segment. -/
def SysVSem.isValid (s : SysVSem) : Bool := s.semid.any (0 < ·)

def newUnixSocketServer (k : Kernel) (o : Outcome) : Kernel × UnixSocketServer :=
  if o.socket = true ∧ o.bind = true ∧ k.file = none then (k.bind o.listen, ⟨true, o.listen⟩)
  else (k, ⟨false, false⟩)

/-- `shmget` is called for the key `-1` too. -/
def newSysVShm (k : Kernel) (key : Key) (o : Outcome) : Kernel × SysVShm :=
  let (shms, shmid) := k.shms.create key o.shmget
  ({ k with shms := shms }, ⟨key, shmid, key.isSome && shmid.isSome && o.shmat⟩)

def newSysVSem (k : Kernel) (key : Key) (o : Outcome) : Kernel × SysVSem :=
  let (sems, semid) := k.sems.create key o.semget
  ({ k with sems := sems }, ⟨key, semid⟩)

/-- `~sysVSem` of an owner. -/
def SysVSem.destroy (s : SysVSem) (k : Kernel) : Kernel := { k with sems := k.sems.drop s.semid }

/-- `~sysVShm` of an owner. -/
def SysVShm.destroy (s : SysVShm) (k : Kernel) : Kernel := { k with shms := k.shms.drop s.shmid }

/-- `~UnixSocketServer` of a server that does not serve: the socket file stays. -/
def UnixSocketServer.destroy (s : UnixSocketServer) (k : Kernel) : Kernel :=
  if s.isBinded then k.closeSocket else k

def forceSemaphoreCleaning (k : Kernel) (key : Key) (permitted : Bool) : Kernel :=
  { k with sems := k.sems.clean key permitted }

def forceShmCleaning (k : Kernel) (key : Key) (permitted : Bool) : Kernel :=
  { k with shms := k.shms.clean key permitted }

/-- Only a socket is unlinked. -/
def forceSockservCleaning (k : Kernel) (permitted : Bool) : Kernel :=
  match k.file with
  | some f => if f.isSock && permitted then k.unlink else k
  | none => k

/-! ### The constructor -/

/-- What `srv_`, `shm_` and `sem_` point to. -/
structure Parts where
  srv : UnixSocketServer
  shm : SysVShm
  sem : SysVSem

def Parts.isValid (p : Parts) : Bool := p.srv.isValid && p.shm.isValid && p.sem.isValid

/-- The member initialisers: the server, then the segment, then the semaphore. -/
def attempt (k : Kernel) (o : Outcome) : Kernel × Parts :=
  let (k, srv) := newUnixSocketServer k o
  let (k, shm) := newSysVShm k (k.ftok 'n') o
  let (k, sem) := newSysVSem k (k.ftok 'm') o
  (k, ⟨srv, shm, sem⟩)

/-- `sem_.reset(); shm_.reset(); srv_.reset();`. -/
def discard (k : Kernel) (p : Parts) : Kernel := p.srv.destroy (p.shm.destroy (p.sem.destroy k))

/-- A `Reader` constructed on the path is valid: it connects, attaches the segment, finds the
semaphore, and receives the connect message in time. -/
def canRead (k : Kernel) (shmat connected : Bool) : Bool :=
  k.file.any (fun f => f.isSock && f.live) && (k.shms.tab (k.ftok 'n')).isSome && shmat &&
    (k.sems.tab (k.ftok 'm')).any (0 < ·) && connected

/-- The cleaning of a dead shmdata and the second attempt, in the order of the source. -/
def retry (k : Kernel) (o : Outcomes) : Kernel × Parts :=
  let k := forceSemaphoreCleaning k (k.ftok 'm') o.semRmid
  let (k, sem) := newSysVSem k (k.ftok 'm') o.retry
  let k := forceShmCleaning k (k.ftok 'n') o.shmRmid
  let (k, shm) := newSysVShm k (k.ftok 'n') o.retry
  let k := forceSockservCleaning k o.unlink
  let (k, srv) := newUnixSocketServer k o.retry
  (k, ⟨srv, shm, sem⟩)

/-- A constructed writer: `is_valid_`, and what its pointers point to. -/
structure Built where
  isValid : Bool
  parts : Option Parts

/-- The kernel when the failed first attempt is discarded. -/
def afterFirst (k : Kernel) (o : Outcomes) : Kernel :=
  discard (attempt k o.first).1 (attempt k o.first).2

/-- `Writer::Writer`. -/
def construct (k : Kernel) (o : Outcomes) : Kernel × Built :=
  let (k₁, p) := attempt k o.first
  if p.isValid then (k₁, ⟨true, some p⟩)
  else
    let k₂ := afterFirst k o
    if canRead k₂ o.inspectorShmat o.connected then (k₂, ⟨false, none⟩)
    else
      let (k₃, p) := retry k₂ o
      (k₃, ⟨p.isValid, some p⟩)

/-- If the writer is valid, its segment and its semaphore have the keys of the file at the path, and
are what is found under these keys. -/
def Consistent (b : Kernel × Built) : Prop :=
  b.2.isValid = true → ∃ p, b.2.parts = some p ∧ b.1.file.isSome = true ∧
    p.shm.key = b.1.ftok 'n' ∧ p.sem.key = b.1.ftok 'm' ∧
    b.1.shms.tab (b.1.ftok 'n') = p.shm.shmid ∧ b.1.sems.tab (b.1.ftok 'm') = p.sem.semid

/-! ### The first attempt -/

/-- The conditions under which the first attempt gives a valid writer. -/
structure FirstOk (k : Kernel) (o : Outcome) : Prop where
  noFile : k.file = none
  socket : o.socket = true
  bind : o.bind = true
  listen : o.listen = true
  noShm : k.shms.tab (some (k.nextIno, 'n')) = none
  shmget : o.shmget = true
  shmat : o.shmat = true
  noSem : k.sems.tab (some (k.nextIno, 'm')) = none
  semget : o.semget = true
  semid_pos : 0 < k.sems.next

theorem newUnixSocketServer_isValid {k : Kernel} {o : Outcome} :
    (newUnixSocketServer k o).2.isValid = true ↔
      o.socket = true ∧ o.bind = true ∧ k.file = none ∧ o.listen = true := by
  unfold newUnixSocketServer
  split
  · next h => simp [UnixSocketServer.isValid, h]
  · next h =>
      simp only [UnixSocketServer.isValid, Bool.and_false, Bool.false_eq_true, false_iff]
      rintro ⟨h₁, h₂, h₃, -⟩
      exact h ⟨h₁, h₂, h₃⟩

/-- A valid server has bound a new file. -/
theorem newUnixSocketServer_of_isValid {k : Kernel} {o : Outcome}
    (h : (newUnixSocketServer k o).2.isValid = true) :
    (newUnixSocketServer k o).1 = k.bind true := by
  obtain ⟨h₁, h₂, h₃, h₄⟩ := newUnixSocketServer_isValid.1 h
  unfold newUnixSocketServer
  rw [if_pos ⟨h₁, h₂, h₃⟩, h₄]

theorem newSysVShm_isValid {k : Kernel} {key : Key} {o : Outcome} :
    (newSysVShm k key o).2.isValid = true ↔
      key.isSome = true ∧ k.shms.tab key = none ∧ o.shmget = true ∧ o.shmat = true := by
  simp only [newSysVShm, SysVShm.isValid, Bool.and_eq_true, Ipc.create_isSome]
  tauto

theorem newSysVSem_isValid {k : Kernel} {key : Key} {o : Outcome} :
    (newSysVSem k key o).2.isValid = true ↔
      k.sems.tab key = none ∧ o.semget = true ∧ 0 < k.sems.next := by
  simp only [newSysVSem, SysVSem.isValid, Ipc.create]
  split
  · next h => simp [h]
  · next h =>
      simp only [Option.any_none, Bool.false_eq_true, false_iff]
      rintro ⟨h₁, h₂, -⟩
      exact h ⟨h₁, h₂⟩

/-- The first attempt gives a valid writer exactly under these conditions. -/
theorem attempt_isValid {k : Kernel} {o : Outcome} :
    (attempt k o).2.isValid = true ↔ FirstOk k o := by
  have hand : (attempt k o).2.isValid = true ↔
      (newUnixSocketServer k o).2.isValid = true ∧
      (newSysVShm (newUnixSocketServer k o).1 ((newUnixSocketServer k o).1.ftok 'n') o).2.isValid
        = true ∧
      (attempt k o).2.sem.isValid = true := by
    simp only [attempt, Parts.isValid, Bool.and_eq_true, and_assoc]
  rw [hand]
  constructor
  · rintro ⟨hsrv, hshm, hsem⟩
    have hbound := newUnixSocketServer_of_isValid hsrv
    obtain ⟨h₁, h₂, h₃, h₄⟩ := newUnixSocketServer_isValid.1 hsrv
    rw [hbound] at hshm
    obtain ⟨-, h₅, h₆, h₇⟩ := newSysVShm_isValid.1 hshm
    simp only [attempt, hbound] at hsem
    obtain ⟨h₈, h₉, h₁₀⟩ := newSysVSem_isValid.1 hsem
    exact ⟨h₃, h₁, h₂, h₄, h₅, h₆, h₇, h₈, h₉, h₁₀⟩
  · intro h
    have hsrv : (newUnixSocketServer k o).2.isValid = true :=
      newUnixSocketServer_isValid.2 ⟨h.socket, h.bind, h.noFile, h.listen⟩
    have hbound := newUnixSocketServer_of_isValid hsrv
    refine ⟨hsrv, ?_, ?_⟩
    · rw [hbound]
      exact newSysVShm_isValid.2 ⟨rfl, h.noShm, h.shmget, h.shmat⟩
    · simp only [attempt, hbound]
      exact newSysVSem_isValid.2 ⟨h.noSem, h.semget, h.semid_pos⟩

/-- The object created last is found under its key. -/
theorem create_tab_eq {t : Ipc} {key : Key} {ok : Bool} (h : (t.create key ok).2.isSome = true) :
    (t.create key ok).1.tab key = (t.create key ok).2 := by
  obtain ⟨id, hid⟩ := Option.isSome_iff_exists.1 h
  rw [(Ipc.create_tab hid).2, hid]

/-- What the first attempt makes is found under the keys of the file it has bound. -/
theorem attempt_consistent {k : Kernel} {o : Outcome} (h : FirstOk k o) :
    Consistent ((attempt k o).1, ⟨true, some (attempt k o).2⟩) := by
  intro _
  have hbound := newUnixSocketServer_of_isValid
    (newUnixSocketServer_isValid.2 ⟨h.socket, h.bind, h.noFile, h.listen⟩)
  refine ⟨(attempt k o).2, rfl, ?_⟩
  simp only [attempt, hbound]
  exact ⟨rfl, rfl, rfl, create_tab_eq (Ipc.create_isSome.2 ⟨h.noShm, h.shmget⟩),
    create_tab_eq (Ipc.create_isSome.2 ⟨h.noSem, h.semget⟩)⟩

/-! ### The second attempt -/

/-- The conditions under which the second attempt, begun in the kernel `k`, gives a valid writer: the
file at the path is a socket that can be unlinked, what is left under its keys can be removed, and every
call succeeds. -/
structure RetryOk (k : Kernel) (o : Outcomes) : Prop where
  isSock : k.file.any (·.isSock) = true
  unlink : o.unlink = true
  socket : o.retry.socket = true
  bind : o.retry.bind = true
  listen : o.retry.listen = true
  sem : k.sems.tab (k.ftok 'm') = none ∨ o.semRmid = true
  semget : o.retry.semget = true
  semid_pos : 0 < k.sems.next
  shm : k.shms.tab (k.ftok 'n') = none ∨ o.shmRmid = true
  shmget : o.retry.shmget = true
  shmat : o.retry.shmat = true

/-- The path is free after the cleaning when there was no file or a socket that could be unlinked. -/
theorem forceSockservCleaning_file {k : Kernel} {permitted : Bool} :
    (forceSockservCleaning k permitted).file = none ↔
      k.file = none ∨ k.file.any (·.isSock) = true ∧ permitted = true := by
  unfold forceSockservCleaning
  cases hf : k.file with
  | none => simp [hf]
  | some f =>
      cases hs : f.isSock with
      | false => simp [hf, hs]
      | true => cases permitted <;> simp [hf, hs, Kernel.unlink]

theorem forceSockservCleaning_nextIno (k : Kernel) (permitted : Bool) :
    (forceSockservCleaning k permitted).nextIno = k.nextIno := by
  unfold forceSockservCleaning
  cases k.file with
  | none => rfl
  | some f => cases h : f.isSock && permitted <;> simp [h, Kernel.unlink]

/-- The kernel of the second attempt when the semaphore and the segment are made. -/
def recreated (k : Kernel) (o : Outcomes) : Kernel :=
  { k with
    sems := ((k.sems.clean (k.ftok 'm') o.semRmid).create (k.ftok 'm') o.retry.semget).1
    shms := ((k.shms.clean (k.ftok 'n') o.shmRmid).create (k.ftok 'n') o.retry.shmget).1 }

theorem retry_fst (k : Kernel) (o : Outcomes) :
    (retry k o).1 = (newUnixSocketServer (forceSockservCleaning (recreated k o) o.unlink) o.retry).1 :=
  rfl

theorem retry_srv (k : Kernel) (o : Outcomes) :
    (retry k o).2.srv =
      (newUnixSocketServer (forceSockservCleaning (recreated k o) o.unlink) o.retry).2 :=
  rfl

/-- The keys are those of the file found at the path. -/
theorem retry_keys (k : Kernel) (o : Outcomes) :
    (retry k o).2.shm.key = k.ftok 'n' ∧ (retry k o).2.sem.key = k.ftok 'm' :=
  ⟨rfl, rfl⟩

theorem retry_srv_isValid {k : Kernel} {o : Outcomes} :
    (retry k o).2.srv.isValid = true ↔ o.retry.socket = true ∧ o.retry.bind = true ∧
      (k.file = none ∨ k.file.any (·.isSock) = true ∧ o.unlink = true) ∧ o.retry.listen = true := by
  rw [retry_srv, newUnixSocketServer_isValid, forceSockservCleaning_file]
  rfl

theorem retry_shm_isValid {k : Kernel} {o : Outcomes} :
    (retry k o).2.shm.isValid = true ↔ k.file.isSome = true ∧
      (k.shms.tab (k.ftok 'n') = none ∨ o.shmRmid = true) ∧ o.retry.shmget = true ∧
      o.retry.shmat = true := by
  have hnew : (retry k o).2.shm =
      (newSysVShm (forceShmCleaning k (k.ftok 'n') o.shmRmid) (k.ftok 'n') o.retry).2 := rfl
  have htab : (forceShmCleaning k (k.ftok 'n') o.shmRmid).shms = k.shms.clean (k.ftok 'n') o.shmRmid :=
    rfl
  rw [hnew, newSysVShm_isValid, htab, Ipc.clean_tab_eq_none, Kernel.ftok, Option.isSome_map]

theorem retry_sem_isValid {k : Kernel} {o : Outcomes} :
    (retry k o).2.sem.isValid = true ↔ (k.sems.tab (k.ftok 'm') = none ∨ o.semRmid = true) ∧
      o.retry.semget = true ∧ 0 < k.sems.next := by
  have hnew : (retry k o).2.sem =
      (newSysVSem (forceSemaphoreCleaning k (k.ftok 'm') o.semRmid) (k.ftok 'm') o.retry).2 := rfl
  have htab : (forceSemaphoreCleaning k (k.ftok 'm') o.semRmid).sems =
      k.sems.clean (k.ftok 'm') o.semRmid := rfl
  rw [hnew, newSysVSem_isValid, htab, Ipc.clean_tab_eq_none, Ipc.clean_next]

/-- The second attempt gives a valid writer exactly under these conditions. -/
theorem retry_isValid {k : Kernel} {o : Outcomes} :
    (retry k o).2.isValid = true ↔ RetryOk k o := by
  simp only [Parts.isValid, Bool.and_eq_true, retry_srv_isValid, retry_shm_isValid,
    retry_sem_isValid]
  constructor
  · rintro ⟨⟨⟨h₁, h₂, h₃, h₄⟩, h₅, h₆, h₇, h₈⟩, h₉, h₁₀, h₁₁⟩
    -- without a file there is no key, and the segment would not be valid
    have hfile : k.file ≠ none := Option.isSome_iff_ne_none.1 h₅
    obtain ⟨hsock, hunlink⟩ := h₃.resolve_left hfile
    exact ⟨hsock, hunlink, h₁, h₂, h₄, h₉, h₁₀, h₁₁, h₆, h₇, h₈⟩
  · intro h
    have hsome : k.file.isSome = true := by
      obtain ⟨f, hf, -⟩ := (Option.any_eq_true _ _).1 h.isSock
      rw [hf]
      rfl
    exact ⟨⟨⟨h.socket, h.bind, .inr ⟨h.isSock, h.unlink⟩, h.listen⟩, hsome, h.shm, h.shmget,
      h.shmat⟩, h.sem, h.semget, h.semid_pos⟩

/-- A valid writer made by the second attempt has the keys of a file that is not at the path any
more. -/
theorem retry_not_consistent {k : Kernel} {o : Outcomes} (h : RetryOk k o) :
    ¬ Consistent ((retry k o).1, ⟨(retry k o).2.isValid, some (retry k o).2⟩) := by
  intro hcons
  obtain ⟨p, hp, -, hkey, -⟩ := hcons (retry_isValid.2 h)
  obtain rfl : (retry k o).2 = p := by simpa using hp
  have hsrv : (retry k o).2.srv.isValid = true :=
    retry_srv_isValid.2 ⟨h.socket, h.bind, .inr ⟨h.isSock, h.unlink⟩, h.listen⟩
  rw [retry_srv] at hsrv
  rw [(retry_keys k o).1, retry_fst, newUnixSocketServer_of_isValid hsrv] at hkey
  obtain ⟨f, hf, -⟩ := (Option.any_eq_true _ _).1 h.isSock
  have hino : f.ino = k.nextIno := by
    have hnext := forceSockservCleaning_nextIno (recreated k o) o.unlink
    simp only [Kernel.ftok, Kernel.bind, hf, Option.map_some, Option.some.injEq, Prod.mk.injEq,
      and_true, hnext] at hkey
    exact hkey
  exact absurd (k.fresh f hf) (by omega)

/-! ### Between the two attempts -/

/-- The inode number of the socket file that a failed first attempt leaves at the path: the one found
there, or the one just bound. -/
def remains (k : Kernel) (o : Outcome) : Option ℕ :=
  match k.file with
  | some f => if f.isSock then some f.ino else none
  | none => if o.socket && o.bind then some k.nextIno else none

/-- Somebody answers at the path: a live server and its segment and semaphore are there before the first
attempt.  A segment that the first attempt creates under the identifier `0` is not removed, and is taken
for a segment of the live server. -/
structure Answers (k : Kernel) (o : Outcomes) : Prop where
  live : k.file.any (fun f => f.isSock && f.live) = true
  shm : (k.shms.tab (k.ftok 'n')).isSome = true ∨ o.first.shmget = true ∧ k.shms.next = 0
  shmat : o.inspectorShmat = true
  sem : (k.sems.tab (k.ftok 'm')).any (0 < ·) = true
  connected : o.connected = true

/-- The writer comes out valid by the recovery of what it takes for a dead shmdata: the first attempt
fails, nobody answers at the path, there is a socket file that can be unlinked, what is left under its
keys can be removed, and every call of the second attempt succeeds. -/
structure Recovers (k : Kernel) (o : Outcomes) (ino : ℕ) : Prop where
  fails : ¬ FirstOk k o.first
  dead : ¬ Answers k o
  found : remains k o.first = some ino
  unlink : o.unlink = true
  socket : o.retry.socket = true
  bind : o.retry.bind = true
  listen : o.retry.listen = true
  sem : k.sems.tab (some (ino, 'm')) = none ∧ (o.first.semget = true → 0 < k.sems.next) ∨
    o.semRmid = true
  semget : o.retry.semget = true
  semid_pos : 0 < k.sems.next ∨ k.sems.tab (some (ino, 'm')) = none ∧ o.first.semget = true
  shm : k.shms.tab (some (ino, 'n')) = none ∧ (o.first.shmget = true → 0 < k.shms.next) ∨
    o.shmRmid = true
  shmget : o.retry.shmget = true
  shmat : o.retry.shmat = true

theorem newUnixSocketServer_file (k : Kernel) (o : Outcome) :
    (newUnixSocketServer k o).1.file =
      match k.file with
      | some f => some f
      | none => if o.socket && o.bind then some ⟨k.nextIno, true, o.listen⟩ else none := by
  unfold newUnixSocketServer
  cases hf : k.file with
  | some f => simp [hf]
  | none => cases o.socket <;> cases o.bind <;> simp [hf, Kernel.bind]

theorem newUnixSocketServer_ipc (k : Kernel) (o : Outcome) :
    (newUnixSocketServer k o).1.sems = k.sems ∧ (newUnixSocketServer k o).1.shms = k.shms := by
  unfold newUnixSocketServer
  split
  · exact ⟨rfl, rfl⟩
  · exact ⟨rfl, rfl⟩

theorem destroy_file (s : UnixSocketServer) (k : Kernel) :
    (s.destroy k).file = if s.isBinded then k.file.map fun f => { f with live := false } else k.file := by
  unfold UnixSocketServer.destroy
  cases s.isBinded <;> rfl

theorem destroy_ipc (s : UnixSocketServer) (k : Kernel) :
    (s.destroy k).sems = k.sems ∧ (s.destroy k).shms = k.shms := by
  unfold UnixSocketServer.destroy
  cases s.isBinded <;> exact ⟨rfl, rfl⟩

/-- The file that the first attempt leaves. -/
theorem afterFirst_file (k : Kernel) (o : Outcomes) :
    (afterFirst k o).file =
      match k.file with
      | some f => some f
      | none => if o.first.socket && o.first.bind then some ⟨k.nextIno, true, false⟩ else none := by
  have h : (afterFirst k o).file =
      if (newUnixSocketServer k o.first).2.isBinded then
        (newUnixSocketServer k o.first).1.file.map fun f => { f with live := false }
      else (newUnixSocketServer k o.first).1.file :=
    destroy_file ..
  rw [h, newUnixSocketServer_file]
  unfold newUnixSocketServer
  cases k.file with
  | some f => simp
  | none => cases o.first.socket <;> cases o.first.bind <;> simp

theorem afterFirst_sems (k : Kernel) (o : Outcomes) {key : Key}
    (hkey : (newUnixSocketServer k o.first).1.ftok 'm' = key) :
    (afterFirst k o).sems = (k.sems.create key o.first.semget).1.drop
      (k.sems.create key o.first.semget).2 := by
  subst hkey
  rw [← (newUnixSocketServer_ipc k o.first).1]
  exact (destroy_ipc ..).1

theorem afterFirst_shms (k : Kernel) (o : Outcomes) {key : Key}
    (hkey : (newUnixSocketServer k o.first).1.ftok 'n' = key) :
    (afterFirst k o).shms = (k.shms.create key o.first.shmget).1.drop
      (k.shms.create key o.first.shmget).2 := by
  subst hkey
  rw [← (newUnixSocketServer_ipc k o.first).2]
  exact (destroy_ipc ..).2

/-- Closing the socket does not change the keys. -/
theorem afterFirst_ftok (k : Kernel) (o : Outcomes) (id : Char) :
    (afterFirst k o).ftok id = (newUnixSocketServer k o.first).1.ftok id := by
  unfold Kernel.ftok
  rw [afterFirst_file, newUnixSocketServer_file]
  cases k.file with
  | some f => rfl
  | none => cases o.first.socket && o.first.bind <;> rfl

/-- A socket is at the path after the first attempt. -/
theorem remains_isSome {k : Kernel} {o : Outcomes} :
    (remains k o.first).isSome = true ↔ (afterFirst k o).file.any (·.isSock) = true := by
  unfold remains
  rw [afterFirst_file]
  cases k.file with
  | some f => cases hf : f.isSock <;> simp [hf]
  | none => cases hb : o.first.socket && o.first.bind <;> simp

theorem ftok_of_remains {k : Kernel} {o : Outcomes} {ino : ℕ} (h : remains k o.first = some ino)
    (id : Char) : (afterFirst k o).ftok id = some (ino, id) := by
  unfold remains at h
  unfold Kernel.ftok
  rw [afterFirst_file]
  cases hf : k.file with
  | some f =>
      rw [hf] at h
      cases hs : f.isSock with
      | false => simp [hs] at h
      | true => simpa [hs] using h
  | none =>
      rw [hf] at h
      cases hb : o.first.socket && o.first.bind with
      | false => simp [hb] at h
      | true => simpa [hb] using h

/-- Nothing else is left by the first attempt than a semaphore whose identifier is `0`. -/
theorem afterFirst_sems_tab (k : Kernel) (o : Outcomes) :
    (afterFirst k o).sems.tab ((afterFirst k o).ftok 'm') =
      if k.sems.tab ((afterFirst k o).ftok 'm') = none ∧ o.first.semget = true ∧ k.sems.next = 0 then
        some 0
      else k.sems.tab ((afterFirst k o).ftok 'm') := by
  rw [afterFirst_sems k o (afterFirst_ftok k o 'm').symm, Ipc.drop_create_tab]

theorem afterFirst_sems_next (k : Kernel) (o : Outcomes) :
    (afterFirst k o).sems.next =
      if k.sems.tab ((afterFirst k o).ftok 'm') = none ∧ o.first.semget = true then k.sems.next + 1
      else k.sems.next := by
  rw [afterFirst_sems k o (afterFirst_ftok k o 'm').symm, Ipc.drop_create_next]

theorem afterFirst_shms_tab (k : Kernel) (o : Outcomes) :
    (afterFirst k o).shms.tab ((afterFirst k o).ftok 'n') =
      if k.shms.tab ((afterFirst k o).ftok 'n') = none ∧ o.first.shmget = true ∧ k.shms.next = 0 then
        some 0
      else k.shms.tab ((afterFirst k o).ftok 'n') := by
  rw [afterFirst_shms k o (afterFirst_ftok k o 'n').symm, Ipc.drop_create_tab]

/-- The inspecting reader is valid exactly when somebody answers. -/
theorem canRead_afterFirst {k : Kernel} {o : Outcomes} :
    canRead (afterFirst k o) o.inspectorShmat o.connected = true ↔ Answers k o := by
  have hshm := afterFirst_shms_tab k o
  have hsem := afterFirst_sems_tab k o
  unfold canRead
  cases hf : k.file with
  | none =>
      -- the file that the first attempt has bound is not live any more
      have hdead : (afterFirst k o).file.any (fun f => f.isSock && f.live) = false := by
        rw [afterFirst_file, hf]
        cases o.first.socket && o.first.bind <;> simp
      rw [hdead]
      refine iff_of_false (by simp) fun h => ?_
      have hlive := h.live
      rw [hf] at hlive
      cases hlive
  | some f =>
      have hfile : (afterFirst k o).file = k.file := by
        rw [afterFirst_file, hf]
      have hftok : ∀ id, (afterFirst k o).ftok id = k.ftok id := fun id => by
        simp only [Kernel.ftok, hfile]
      rw [hftok] at hshm hsem
      simp only [Bool.and_eq_true, hfile, hftok, hshm, hsem]
      have hid : (if k.sems.tab (k.ftok 'm') = none ∧ o.first.semget = true ∧ k.sems.next = 0 then
          some 0 else k.sems.tab (k.ftok 'm')).any (0 < ·) = (k.sems.tab (k.ftok 'm')).any (0 < ·) := by
        split
        · next h => simp [h.1]
        · rfl
      have hsome : (if k.shms.tab (k.ftok 'n') = none ∧ o.first.shmget = true ∧ k.shms.next = 0 then
          some 0 else k.shms.tab (k.ftok 'n')).isSome = true ↔
          (k.shms.tab (k.ftok 'n')).isSome = true ∨ o.first.shmget = true ∧ k.shms.next = 0 := by
        cases h : k.shms.tab (k.ftok 'n') with
        | none => simp
        | some id => simp
      rw [hid, hsome]
      constructor
      · rintro ⟨⟨⟨⟨h₁, h₂⟩, h₃⟩, h₄⟩, h₅⟩
        exact ⟨h₁, h₂, h₃, h₄, h₅⟩
      · intro h
        exact ⟨⟨⟨⟨h.live, h.shm⟩, h.shmat⟩, h.sem⟩, h.connected⟩

/-- A key is free after the first attempt when it was free before and no identifier `0` was given. -/
theorem eq_none_of_leak {tab : Option ℕ} {ok : Bool} {next : ℕ} :
    (if tab = none ∧ ok = true ∧ next = 0 then some 0 else tab) = none ↔
      tab = none ∧ (ok = true → 0 < next) := by
  cases tab with
  | some id => simp
  | none =>
      cases ok with
      | false => simp
      | true => simp [Nat.pos_iff_ne_zero]

/-- The second attempt succeeds after the first. -/
theorem recovers_iff {k : Kernel} {o : Outcomes} :
    (∃ ino, Recovers k o ino) ↔
      ¬ FirstOk k o.first ∧ ¬ Answers k o ∧ RetryOk (afterFirst k o) o := by
  have hnext : 0 < (afterFirst k o).sems.next ↔ 0 < k.sems.next ∨
      k.sems.tab ((afterFirst k o).ftok 'm') = none ∧ o.first.semget = true := by
    rw [afterFirst_sems_next]
    split
    · next h => simp [h]
    · next h => simp [h]
  constructor
  · rintro ⟨ino, h⟩
    have hkey := ftok_of_remains h.found
    have hsock := remains_isSome.1 (Option.isSome_iff_exists.2 ⟨ino, h.found⟩)
    refine ⟨h.fails, h.dead, hsock, h.unlink, h.socket, h.bind, h.listen, ?_, h.semget, ?_, ?_,
      h.shmget, h.shmat⟩
    · rw [afterFirst_sems_tab, eq_none_of_leak, hkey]
      exact h.sem
    · rw [hnext, hkey]
      exact h.semid_pos
    · rw [afterFirst_shms_tab, eq_none_of_leak, hkey]
      exact h.shm
  · rintro ⟨hfails, hdead, h⟩
    obtain ⟨ino, hino⟩ := Option.isSome_iff_exists.1 (remains_isSome.2 h.isSock)
    have hkey := ftok_of_remains hino
    have hsem := h.sem
    have hpos := h.semid_pos
    have hshm := h.shm
    rw [afterFirst_sems_tab, eq_none_of_leak, hkey] at hsem
    rw [hnext, hkey] at hpos
    rw [afterFirst_shms_tab, eq_none_of_leak, hkey] at hshm
    exact ⟨ino, hfails, hdead, hino, h.unlink, h.socket, h.bind, h.listen, hsem, h.semget, hpos, hshm,
      h.shmget, h.shmat⟩

/-! ### The keys of a valid writer -/

theorem construct_eq (k : Kernel) (o : Outcomes) :
    construct k o =
      if (attempt k o.first).2.isValid then
        ((attempt k o.first).1, ⟨true, some (attempt k o.first).2⟩)
      else if canRead (afterFirst k o) o.inspectorShmat o.connected then
        (afterFirst k o, ⟨false, none⟩)
      else ((retry (afterFirst k o) o).1,
        ⟨(retry (afterFirst k o) o).2.isValid, some (retry (afterFirst k o) o).2⟩) :=
  rfl

/-- A writer died: its socket file, its semaphore and its segment are left. -/
def deadShmdata : Kernel where
  file := some ⟨7, true, false⟩
  nextIno := 8
  sems := ⟨fun key => if key = some (7, 'm') then some 1 else none, 2⟩
  shms := ⟨fun key => if key = some (7, 'n') then some 1 else none, 2⟩
  fresh := by simp

def allSucceed : Outcome := ⟨true, true, true, true, true, true⟩

/-- Every call that can succeed does. -/
def noFailure : Outcomes := ⟨allSucceed, true, true, true, true, true, allSucceed⟩

end WriterCtor

end Shmdata

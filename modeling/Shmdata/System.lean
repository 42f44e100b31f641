/-
**One writer, its server, and any number of readers.**

This module puts the parts together: the writer's thread with `copy_to_shm` and the write accesses,
the serving thread of its `UnixSocketServer`, the readers with their client threads, the pair of
System V semaphores and the shared memory segments.  Each system call, each critical section and
each send is a step of its own; the steps of the server are those of `Server.step`, and what the
kernel answers to it is now computed from the readers: a send fails when the peer has closed its
end, a read returns a message of the client, an end of file, or an error when the peer has closed
its end without having read everything that was sent to it.

Readers are numbered in the order of their `connect`, which is the order in which the server accepts
them, so that a reader has the number of its connection.  A step that would have to wait, on a
semaphore or on `clients_mutex_`, is not enabled.

Main definitions:

* `Shmdata.Writer`, `Shmdata.Reader` — the two kinds of clients of the library, with the places of
  their threads;
* `Shmdata.System`, `Shmdata.System.step` — the whole;
* `Shmdata.System.Trans` — the steps again, one constructor for each of them.

Main results:

* `Shmdata.System.trans_of_step` — every step of the system is one of the transitions.
-/

import Shmdata.Bytes
import Shmdata.SysVSem
import Shmdata.ServerStreams

set_option relaxedAutoImplicit false
set_option autoImplicit false

namespace Shmdata

/-! ### The writer -/

namespace Writer

/-- The calls that acquire the write lock.  `get_one_write_access` and `get_one_write_access_ptr`
do the same, their `_resize` forms do not. -/
inductive Op
  | copyToShm (data : List UInt8)
  | getOneWriteAccess
  | getOneWriteAccessResize (newSize : ℕ)
  | getOneWriteAccessPtrResize (newSize : ℕ)

/-- What follows a reallocation or a notification: the rest of `copy_to_shm`, or the user's code
that holds a `OneWriteAccess`. -/
inductive Next
  | copy (data : List UInt8)
  | access

/-- Where the writer's thread is. -/
inductive Pc
  | idle
  /-- In `semop(write_start)`. -/
  | writeStart (op : Op)
  /-- The lock is held; about to look at the size of the segment. -/
  | locked (op : Op)
  /-- `shm_.reset()` is done; about to create the new segment. -/
  | create (size : ℕ) (next : Next)
  /-- About to call `notify_update`. -/
  | notify (size : ℕ) (next : Next)
  /-- In `notify_update`, with `clients_mutex_`. -/
  | notifying (next : Next)
  /-- `notify_update` has returned. -/
  | commit (numReaders : ℤ) (next : Next)
  | memcpy (data : List UInt8)
  /-- The user holds a `OneWriteAccess`. -/
  | access
  /-- In `~WriteLock`. -/
  | writeEnd

/-- The data of a frame written by `copy_to_shm`. -/
def Next.data : Next → Option (List UInt8)
  | .copy data => some data
  | .access => none

/-- Where the thread goes once the readers are committed. -/
def Next.pc : Next → Pc
  | .copy data => .memcpy data
  | .access => .access

/-- The write lock is held. -/
@[simp] def Pc.held : Pc → Bool
  | .idle | .writeStart _ => false
  | _ => true

end Writer

/-- The fields of `Writer` and of the current `OneWriteAccess`: `shm` and `mem` are the segments that
`shm_` and `mem_` point to, `shmSize` is `connect_data_.shm_size_`. -/
structure Writer where
  pc : Writer.Pc
  shm : ℕ
  shmSize : ℕ
  allocSize : ℕ
  mem : ℕ
  hasNotified : Bool

/-! ### The readers -/

/-- The messages of the client: its acknowledgement and its request to quit. -/
inductive CliMsg
  | ack
  | quit
  deriving DecidableEq

namespace Reader

/-- Where the client thread of a reader is. -/
inductive Pc
  /-- The socket is connected; the constructor is about to attach the segment. -/
  | attach
  /-- In the loop of `server_interaction`. -/
  | idle
  /-- In `on_update_cb_`. -/
  | update (size : ℕ)
  /-- In the constructor of `ReadLock`. -/
  | readStart (size : ℕ)
  /-- In `on_data_cb_`, with the `ReadLock`. -/
  | onData (size : ℕ)
  /-- The socket is closed and the loop is left. -/
  | closed
  deriving DecidableEq

/-- A call of `on_data_cb_`: the size passed, the segment the pointer passed belongs to, and the
bytes found there. -/
structure Call where
  size : ℕ
  seg : Option ℕ
  bytes : List UInt8

end Reader

/-- The fields of `Reader` and of its `UnixSocketClient`.  `rcvd` counts the messages read from the
socket, `toSrv` holds the messages sent and not read by the server; `dead` tells that the process
has died.  The last two fields record what was done: the calls of the callback, and the number of
frames that were announced before the reader became a client. -/
structure Reader where
  pc : Reader.Pc
  connected : Bool
  curSize : ℕ
  shm : Option ℕ
  quitSent : Bool
  rcvd : ℕ
  toSrv : List CliMsg
  dead : Bool
  calls : List Reader.Call
  joined : ℕ

/-- A reader whose socket is connected. -/
def Reader.init : Reader where
  pc := .attach
  connected := false
  curSize := 0
  shm := none
  quitSent := false
  rcvd := 0
  toSrv := []
  dead := false
  calls := []
  joined := 0

/-- The end of the socket is open. -/
def Reader.isOpen (rd : Reader) : Bool := !rd.dead && rd.pc ≠ .closed

theorem Reader.isOpen_iff {rd : Reader} : rd.isOpen = true ↔ rd.dead = false ∧ rd.pc ≠ .closed := by
  simp [Reader.isOpen]

/-! ### The system -/

/-- A frame as the writer notifies it: its size, the writer's segment at that moment, and its bytes
when it is written by `copy_to_shm`. -/
structure Frame where
  size : ℕ
  seg : ℕ
  data : Option (List UInt8)

/-- The state of the system.  `key` is the segment that the key of the path leads to, `mem` the
contents of the segments.  The last seven fields record what was done: the reads of each reader that
were committed, released and cancelled, the readers that the last `notify_update` sent an update to
and its frame, the frames that each reader was a client for, and the number of frames announced. -/
structure System where
  sem : ℕ → ℕ
  srv : Server ℕ
  w : Writer
  rd : ℕ → Reader
  nrd : ℕ
  key : Option ℕ
  nseg : ℕ
  mem : ℕ → List UInt8
  committed : ℕ → ℕ
  released : ℕ → ℕ
  cancelled : ℕ → ℕ
  notified : List ℕ
  frame : Frame
  due : ℕ → List Frame
  announced : ℕ

namespace System

open SysV Semops

/-- A writer that was constructed with a segment of `memsize` bytes, and no reader. -/
def init (lfd memsize : ℕ) : System where
  sem := fun _ => 0
  srv := Server.init lfd
  w :=
    { pc := .idle
      shm := 0
      shmSize := memsize
      allocSize := memsize
      mem := 0
      hasNotified := false }
  rd := fun _ => Reader.init
  nrd := 0
  key := some 0
  nseg := 1
  mem := fun _ => List.replicate memsize 0
  committed := fun _ => 0
  released := fun _ => 0
  cancelled := fun _ => 0
  notified := []
  frame := ⟨0, 0, none⟩
  due := fun _ => []
  announced := 0

/-- One step of one of the threads, or an event. -/
inductive Act
  /-- The user calls a function of the writer. -/
  | call (op : Writer.Op)
  /-- The next step of the writer inside that call. -/
  | writer
  /-- The reset thread of the `WriteLock` under construction sets semaphore `0`. -/
  | reset
  /-- `shm_resize` on the current access. -/
  | shmResize (newSize : ℕ)
  /-- `notify_clients` on the current access. -/
  | notifyClients (size : ℕ)
  /-- The user writes through `mem_`. -/
  | write (bytes : List UInt8)
  /-- The access is destroyed. -/
  | release
  /-- A step of the serving thread. -/
  | server (ev : Server.Ev)
  /-- A new reader connects its socket. -/
  | connect
  /-- A step of the client thread of a reader. -/
  | reader (r : ℕ)
  /-- The reader's destructor sends quit. -/
  | quit (r : ℕ)
  /-- The reader's process dies. -/
  | die (r : ℕ)

/-- Replacing one reader. -/
def setRd (s : System) (r : ℕ) (rd : Reader) : System :=
  { s with rd := Function.update s.rd r rd }

/-- A relation that holds between a reader and what replaces it holds between all readers before and after, if it
is reflexive. -/
theorem rel_update {s : System} {P : Reader → Reader → Prop} (hrefl : ∀ rd, P rd rd) {q : ℕ} {rd : Reader}
    (h : P (s.rd q) rd) (r : ℕ) : P (s.rd r) (Function.update s.rd q rd r) := by
  by_cases hr : r = q
  · subst hr
    rwa [Function.update_self]
  · rw [Function.update_of_ne hr]
    exact hrefl _


/-! ### The steps of the writer -/

/-- `shm_.reset()`, before a segment of `size` bytes is created. -/
def removeSegment (s : System) (size : ℕ) (next : Writer.Next) : System :=
  { s with key := none, w := { s.w with pc := .create size next } }

/-- `shm_.reset(new sysVShm(...))` and the assignments that follow it. -/
def createSegment (s : System) (size : ℕ) (next : Writer.Next) : System :=
  { s with
    key := some s.nseg
    nseg := s.nseg + 1
    mem := Function.update s.mem s.nseg (List.replicate size 0)
    w :=
      { s.w with
        shm := s.nseg
        shmSize := size
        allocSize := size
        mem := s.nseg
        pc := match next with
          | .copy data => .notify data.length (.copy data)
          | .access => .access } }

/-- The readers whose descriptor is in `clients_`. -/
def isClient (s : System) (r : ℕ) : Bool := s.srv.clients.any fun fd => s.srv.conn fd = some r

/-- What follows the acquisition of the lock. -/
def locked (s : System) : Writer.Op → System
  | .copyToShm data =>
      if s.w.shmSize < data.length then s.removeSegment data.length (.copy data)
      else { s with w := { s.w with pc := .notify data.length (.copy data) } }
  | .getOneWriteAccess =>
      { s with w := { s.w with mem := s.w.shm, hasNotified := false, pc := .access } }
  | .getOneWriteAccessResize newSize =>
      if (s.mem s.w.shm).length ≠ newSize then
        { s with w := { s.w with hasNotified := false } }.removeSegment newSize .access
      else
        { s with
          w :=
            { s.w with
              mem := s.w.shm
              shmSize := newSize
              allocSize := newSize
              hasNotified := false
              pc := .access } }
  | .getOneWriteAccessPtrResize newSize =>
      { s with w := { s.w with hasNotified := false } }.removeSegment newSize .access

/-- The first step under the lock changes the writer and takes away the segment, nothing else. -/
theorem locked_eq (s : System) (op : Writer.Op) :
    ∃ w key, s.locked op = { s with w := w, key := key } ∧
      ((∃ size next, w.pc = .create size next) ∨ (∃ data, w.pc = .notify data.length (.copy data)) ∨
        w.pc = .access) := by
  cases op with
  | copyToShm data =>
      simp only [locked]
      split
      · exact ⟨_, _, rfl, Or.inl ⟨_, _, rfl⟩⟩
      · exact ⟨_, _, rfl, Or.inr (Or.inl ⟨_, rfl⟩)⟩
  | getOneWriteAccess => exact ⟨_, _, rfl, Or.inr (Or.inr rfl)⟩
  | getOneWriteAccessResize newSize =>
      simp only [locked]
      split
      · exact ⟨_, _, rfl, Or.inl ⟨_, _, rfl⟩⟩
      · exact ⟨_, _, rfl, Or.inr (Or.inr rfl)⟩
  | getOneWriteAccessPtrResize newSize => exact ⟨_, _, rfl, Or.inl ⟨_, _, rfl⟩⟩

/-- `notify_update` takes the mutex and clears `clients_notified_`. -/
def notifyLock (s : System) (size : ℕ) (next : Writer.Next) (srv : Server ℕ) : System :=
  { s with
    srv := srv
    notified := []
    frame := ⟨size, s.w.shm, next.data⟩
    due := fun r =>
      if s.isClient r then s.due r ++ [⟨size, s.w.shm, next.data⟩] else s.due r
    announced := s.announced + 1
    w := { s.w with pc := .notifying next } }

/-- The next step of the writer inside a call. -/
def writerStep (s : System) : Option System :=
  match s.w.pc with
  | .idle | .access => none
  | .writeStart op =>
      (perform s.sem writeStart).map fun f => { s with sem := f, w := { s.w with pc := .locked op } }
  | .locked op => some (s.locked op)
  | .create size next => some (s.createSegment size next)
  | .notify size next => (s.srv.step (.notifyLock size)).map (s.notifyLock size next)
  | .notifying next =>
      match s.srv.notify with
      | some (_, it :: _) =>
          -- a send succeeds as long as the peer has not closed its end
          let ok := (s.srv.conn it).any fun r => (s.rd r).isOpen
          (s.srv.step (.notifySend ok)).map fun srv =>
            { s with
              srv := srv
              notified := if ok then s.notified ++ (s.srv.conn it).toList else s.notified }
      | _ =>
          (s.srv.step .notifyUnlock).map fun srv =>
            { s with
              srv := srv
              w := { s.w with pc := .commit (toShort s.srv.clientsNotified.length) next } }
  | .commit numReaders next =>
      if 0 < numReaders then
        (perform s.sem (commitReaders numReaders)).map fun f =>
          { s with
            sem := f
            committed := fun r => s.committed r + s.notified.count r
            w := { s.w with pc := next.pc } }
      else some { s with w := { s.w with pc := next.pc } }
  | .memcpy data =>
      some { s with
        mem := Function.update s.mem s.w.shm (Bytes.fill (s.mem s.w.shm) data)
        w := { s.w with pc := .writeEnd } }
  | .writeEnd =>
      (perform s.sem writeEnd).map fun f => { s with sem := f, w := { s.w with pc := .idle } }

/-! ### The steps of the readers -/

/-- The client thread takes the next message of its socket, or finds the end of file. -/
def receive (s : System) (r : ℕ) : Option System :=
  match (s.srv.out r)[(s.rd r).rcvd]? with
  | some .connect =>
      some (s.setRd r { s.rd r with
        rcvd := (s.rd r).rcvd + 1
        connected := true
        toSrv := (s.rd r).toSrv ++ [.ack] })
  | some (.update size) =>
      some (s.setRd r { s.rd r with rcvd := (s.rd r).rcvd + 1, pc := .update size })
  | some .quit => some (s.setRd r { s.rd r with rcvd := (s.rd r).rcvd + 1, pc := .closed })
  | none => if s.srv.closed r then some (s.setRd r { s.rd r with pc := .closed }) else none

/-- The bytes at the beginning of the segment a reader is attached to. -/
def bytesAt (s : System) (r size : ℕ) : List UInt8 :=
  match (s.rd r).shm with
  | some g => (s.mem g).take size
  | none => []

/-- A step of the client thread of a reader. -/
def readerStep (s : System) (r : ℕ) : Option System :=
  if r < s.nrd ∧ (s.rd r).dead = false then
    match (s.rd r).pc with
    | .attach =>
        if s.key.isSome then some (s.setRd r { s.rd r with shm := s.key, pc := .idle }) else none
    | .idle => s.receive r
    | .update size =>
        some (s.setRd r { s.rd r with
          shm := if size ≠ (s.rd r).curSize then s.key else (s.rd r).shm
          curSize := size
          pc := .readStart size })
    | .readStart size =>
        (perform s.sem readStart).map fun f =>
          setRd { s with sem := f } r { s.rd r with
            pc := .onData size
            calls := (s.rd r).calls ++ [⟨size, (s.rd r).shm, s.bytesAt r size⟩] }
    | .onData _ =>
        (perform s.sem readEnd).map fun f =>
          setRd { s with
            sem := f
            released := Function.update s.released r (s.released r + 1) } r
              { s.rd r with pc := .idle }
    | .closed => none
  else none

/-! ### The steps of the server -/

/-- What a read on the server's end of the connection of `r` returns, `none` when nothing can be
read.  What is queued comes first; then a client that is gone is reported, as an error if it has left
something unread. -/
def readRes (s : System) (r : ℕ) : Option Server.ReadRes :=
  if (s.rd r).toSrv ≠ [] then some .data
  else if (s.rd r).isOpen then none
  else if (s.rd r).rcvd < (s.srv.out r).length then some .error
  else some .eof

theorem toSrv_ne_nil_of_readRes {s : System} {r : ℕ} (h : s.readRes r = some .data) :
    (s.rd r).toSrv ≠ [] := by
  intro hnil
  unfold readRes at h
  rw [if_neg (not_not.2 hnil)] at h
  split at h
  · cases h
  · split at h <;> cases h

theorem readRes_error_iff {s : System} {r : ℕ} : s.readRes r = some .error ↔
    (s.rd r).isOpen = false ∧ (s.rd r).rcvd < (s.srv.out r).length ∧ (s.rd r).toSrv = [] := by
  unfold readRes
  by_cases hnil : (s.rd r).toSrv = []
  · cases ho : (s.rd r).isOpen with
    | true => simp [hnil]
    | false => by_cases h : (s.rd r).rcvd < (s.srv.out r).length <;> simp [hnil, h]
  · simp [hnil]

theorem of_readRes_eof {s : System} {r : ℕ} (h : s.readRes r = some .eof) :
    (s.rd r).isOpen = false ∧ (s.srv.out r).length ≤ (s.rd r).rcvd := by
  unfold readRes at h
  split at h
  · cases h
  · split at h
    · cases h
    · next ho =>
        split at h
        · cases h
        · next hl => exact ⟨Bool.eq_false_iff.2 ho, not_lt.1 hl⟩

/-- What the kernel may answer to the serving thread.  The process has no descriptor from `FD_SETSIZE` on. -/
def kernel (s : System) (ev : Server.Ev) : Bool :=
  match ev, s.srv.pc with
  | .tau, _ => true
  | .select rset listening, _ =>
      rset.all (fun fd => ((s.srv.conn fd).bind s.readRes).isSome) &&
        (!listening || s.srv.nconn < s.nrd)
  | .accept none, _ => true
  | .accept (some fd), _ => s.srv.nconn < s.nrd ∧ fd < FD_SETSIZE
  | .send ok, .greet o => ok == (o.bind s.srv.conn).any fun r => (s.rd r).isOpen
  | .send ok, .ackQuit it _ => ok == (s.srv.conn it).any fun r => (s.rd r).isOpen
  | .read res, .clients (it :: _) => (s.srv.conn it).bind s.readRes == some res
  | .read res, .pending (it :: _) => (s.srv.conn it).bind s.readRes == some res
  | _, _ => false

/-- A reader of which the server, now `srv`, has taken a message.  If that was the acknowledgement, it is
a client from now on. -/
def taken (s : System) (r : ℕ) (srv : Server ℕ) : Reader :=
  { s.rd r with
    toSrv := (s.rd r).toSrv.tail
    joined := if srv.acked r = s.srv.acked r then (s.rd r).joined else s.announced }

@[simp] theorem taken_pc (s : System) (r : ℕ) (srv : Server ℕ) :
    (s.taken r srv).pc = (s.rd r).pc := rfl

@[simp] theorem taken_connected (s : System) (r : ℕ) (srv : Server ℕ) :
    (s.taken r srv).connected = (s.rd r).connected := rfl

@[simp] theorem taken_curSize (s : System) (r : ℕ) (srv : Server ℕ) :
    (s.taken r srv).curSize = (s.rd r).curSize := rfl

@[simp] theorem taken_shm (s : System) (r : ℕ) (srv : Server ℕ) :
    (s.taken r srv).shm = (s.rd r).shm := rfl

@[simp] theorem taken_quitSent (s : System) (r : ℕ) (srv : Server ℕ) :
    (s.taken r srv).quitSent = (s.rd r).quitSent := rfl

@[simp] theorem taken_rcvd (s : System) (r : ℕ) (srv : Server ℕ) :
    (s.taken r srv).rcvd = (s.rd r).rcvd := rfl

@[simp] theorem taken_toSrv (s : System) (r : ℕ) (srv : Server ℕ) :
    (s.taken r srv).toSrv = (s.rd r).toSrv.tail := rfl

@[simp] theorem taken_dead (s : System) (r : ℕ) (srv : Server ℕ) :
    (s.taken r srv).dead = (s.rd r).dead := rfl

@[simp] theorem taken_calls (s : System) (r : ℕ) (srv : Server ℕ) :
    (s.taken r srv).calls = (s.rd r).calls := rfl

/-- The server, now `srv`, has taken a message of the client behind a descriptor. -/
def take (s : System) (it : ℕ) (srv : Server ℕ) : System :=
  { s with
    srv := srv
    rd := match s.srv.conn it with
      | some r => Function.update s.rd r (s.taken r srv)
      | none => s.rd }

/-- The server, now `srv`, has called `cancel_commited_reader` for the client behind a
descriptor. -/
def cancel (s : System) (it : ℕ) (f : ℕ → ℕ) (srv : Server ℕ) : System :=
  { s with
    srv := srv
    sem := f
    cancelled := match s.srv.conn it with
      | some r => Function.update s.cancelled r (s.cancelled r + 1)
      | none => s.cancelled }

/-- What a step of the serving thread that led to `srv` does outside the server. -/
def effect (s : System) (srv : Server ℕ) : Server.Pc → Server.Ev → Option System
  | .recover it _, _ => (perform s.sem readEnd).map fun f => s.cancel it f srv
  | .clients (it :: _), .read .data => some (s.take it srv)
  | .pending (it :: _), .read .data => some (s.take it srv)
  | _, _ => some { s with srv := srv }

/-- A step of the serving thread. -/
def serverStep (s : System) (ev : Server.Ev) : Option System :=
  if s.kernel ev then (s.srv.thread ev).bind fun srv => s.effect srv s.srv.pc ev else none

/-- One step of the system. -/
def step (s : System) : Act → Option System
  | .call op =>
      match s.w.pc with
      | .idle => some { s with w := { s.w with pc := .writeStart op } }
      | _ => none
  | .writer => s.writerStep
  | .reset =>
      match s.w.pc with
      | .writeStart _ => some { s with sem := Function.update s.sem 0 0 }
      | _ => none
  | .shmResize newSize =>
      match s.w.pc with
      | .access => some (s.removeSegment newSize .access)
      | _ => none
  | .notifyClients size =>
      match s.w.pc with
      | .access =>
          if s.w.hasNotified then some s
          else some { s with w := { s.w with hasNotified := true, pc := .notify size .access } }
      | _ => none
  | .write bytes =>
      match s.w.pc with
      | .access =>
          if bytes.length = (s.mem s.w.mem).length then
            some { s with mem := Function.update s.mem s.w.mem bytes }
          else none
      | _ => none
  | .release =>
      match s.w.pc with
      | .access => some { s with w := { s.w with pc := .writeEnd } }
      | _ => none
  | .server ev => s.serverStep ev
  | .connect => some { s with nrd := s.nrd + 1 }
  | .reader r => s.readerStep r
  | .quit r =>
      if r < s.nrd ∧ (s.rd r).isOpen ∧ (s.rd r).connected ∧ (s.rd r).quitSent = false then
        some (s.setRd r { s.rd r with
          quitSent := true
          toSrv := (s.rd r).toSrv ++ [.quit] })
      else none
  | .die r =>
      if r < s.nrd ∧ (s.rd r).isOpen then some (s.setRd r { s.rd r with dead := true }) else none

/-! ### The transitions, one by one -/

/-- The server is about to call `on_client_error_`, or to take a message of a client. -/
def special (s : System) : Server.Ev → Bool
  | .tau => match s.srv.pc with
      | .recover _ _ => true
      | _ => false
  | .read .data => true
  | _ => false

/-- The steps of the system: `Trans s a t` when `step s a` is `t`, with the conditions under which
the step is taken. -/
inductive Trans (s : System) : Act → System → Prop
  | call {op : Writer.Op} (hpc : s.w.pc = .idle) :
      Trans s (.call op) { s with w := { s.w with pc := .writeStart op } }
  | writeStart {op : Writer.Op} {f : ℕ → ℕ} (hpc : s.w.pc = .writeStart op)
      (hf : semop s.sem writeStart = .ok f) :
      Trans s .writer { s with sem := f, w := { s.w with pc := .locked op } }
  | locked {op : Writer.Op} (hpc : s.w.pc = .locked op) : Trans s .writer (s.locked op)
  | create {size : ℕ} {next : Writer.Next} (hpc : s.w.pc = .create size next) :
      Trans s .writer (s.createSegment size next)
  | notifyLock {size : ℕ} {next : Writer.Next} {srv : Server ℕ} (hpc : s.w.pc = .notify size next)
      (h : s.srv.step (.notifyLock size) = some srv) :
      Trans s .writer (s.notifyLock size next srv)
  | notifySend {size it : ℕ} {todo : List ℕ} {next : Writer.Next} {srv : Server ℕ}
      (hpc : s.w.pc = .notifying next) (hn : s.srv.notify = some (size, it :: todo))
      (h : s.srv.step (.notifySend ((s.srv.conn it).any fun r => (s.rd r).isOpen)) = some srv) :
      Trans s .writer
        { s with
          srv := srv
          notified :=
            if (s.srv.conn it).any fun r => (s.rd r).isOpen then s.notified ++ (s.srv.conn it).toList
            else s.notified }
  | notifyUnlock {next : Writer.Next} {srv : Server ℕ} (hpc : s.w.pc = .notifying next)
      (h : s.srv.step .notifyUnlock = some srv) :
      Trans s .writer
        { s with
          srv := srv
          w := { s.w with pc := .commit (toShort s.srv.clientsNotified.length) next } }
  | commit {numReaders : ℤ} {next : Writer.Next} {f : ℕ → ℕ}
      (hpc : s.w.pc = .commit numReaders next) (hn : 0 < numReaders)
      (hf : semop s.sem (commitReaders numReaders) = .ok f) :
      Trans s .writer
        { s with
          sem := f
          committed := fun r => s.committed r + s.notified.count r
          w := { s.w with pc := next.pc } }
  | commitNone {numReaders : ℤ} {next : Writer.Next} (hpc : s.w.pc = .commit numReaders next)
      (hn : ¬ 0 < numReaders) : Trans s .writer { s with w := { s.w with pc := next.pc } }
  | memcpy {data : List UInt8} (hpc : s.w.pc = .memcpy data) :
      Trans s .writer
        { s with
          mem := Function.update s.mem s.w.shm (Bytes.fill (s.mem s.w.shm) data)
          w := { s.w with pc := .writeEnd } }
  | writeEnd {f : ℕ → ℕ} (hpc : s.w.pc = .writeEnd) (hf : semop s.sem writeEnd = .ok f) :
      Trans s .writer { s with sem := f, w := { s.w with pc := .idle } }
  | reset {op : Writer.Op} (hpc : s.w.pc = .writeStart op) :
      Trans s .reset { s with sem := Function.update s.sem 0 0 }
  | shmResize {newSize : ℕ} (hpc : s.w.pc = .access) :
      Trans s (.shmResize newSize) (s.removeSegment newSize .access)
  | notifyIgnored {size : ℕ} (hpc : s.w.pc = .access) (hn : s.w.hasNotified = true) :
      Trans s (.notifyClients size) s
  | notifyClients {size : ℕ} (hpc : s.w.pc = .access) (hn : s.w.hasNotified = false) :
      Trans s (.notifyClients size)
        { s with w := { s.w with hasNotified := true, pc := .notify size .access } }
  | write {bytes : List UInt8} (hpc : s.w.pc = .access)
      (hb : bytes.length = (s.mem s.w.mem).length) :
      Trans s (.write bytes) { s with mem := Function.update s.mem s.w.mem bytes }
  | release (hpc : s.w.pc = .access) : Trans s .release { s with w := { s.w with pc := .writeEnd } }
  | server {ev : Server.Ev} {srv : Server ℕ} (hk : s.kernel ev = true)
      (h : s.srv.step (.thread ev) = some srv) (hs : s.special ev = false) :
      Trans s (.server ev) { s with srv := srv }
  | take {it : ℕ} {todo : List ℕ} {r : ℕ} {srv : Server ℕ}
      (hpc : s.srv.pc = .clients (it :: todo) ∨ s.srv.pc = .pending (it :: todo))
      (hr : s.srv.conn it = some r) (hd : s.readRes r = some .data)
      (h : s.srv.step (.thread (.read .data)) = some srv) :
      Trans s (.server (.read .data))
        { s with
          srv := srv
          rd := Function.update s.rd r (s.taken r srv) }
  | cancel {it : ℕ} {todo : List ℕ} {srv : Server ℕ} {f : ℕ → ℕ}
      (hpc : s.srv.pc = .recover it todo) (hf : semop s.sem readEnd = .ok f)
      (h : s.srv.step (.thread .tau) = some srv) :
      Trans s (.server .tau) (s.cancel it f srv)
  | connect : Trans s .connect { s with nrd := s.nrd + 1 }
  | attach {r g : ℕ} (hr : r < s.nrd) (hd : (s.rd r).dead = false) (hpc : (s.rd r).pc = .attach)
      (hg : s.key = some g) :
      Trans s (.reader r) (s.setRd r { s.rd r with shm := some g, pc := .idle })
  | receiveConnect {r : ℕ} (hr : r < s.nrd) (hd : (s.rd r).dead = false)
      (hpc : (s.rd r).pc = .idle) (hm : (s.srv.out r)[(s.rd r).rcvd]? = some .connect) :
      Trans s (.reader r)
        (s.setRd r { s.rd r with
          rcvd := (s.rd r).rcvd + 1
          connected := true
          toSrv := (s.rd r).toSrv ++ [.ack] })
  | receiveUpdate {r size : ℕ} (hr : r < s.nrd) (hd : (s.rd r).dead = false)
      (hpc : (s.rd r).pc = .idle) (hm : (s.srv.out r)[(s.rd r).rcvd]? = some (.update size)) :
      Trans s (.reader r)
        (s.setRd r { s.rd r with rcvd := (s.rd r).rcvd + 1, pc := .update size })
  | receiveQuit {r : ℕ} (hr : r < s.nrd) (hd : (s.rd r).dead = false)
      (hpc : (s.rd r).pc = .idle) (hm : (s.srv.out r)[(s.rd r).rcvd]? = some .quit) :
      Trans s (.reader r) (s.setRd r { s.rd r with rcvd := (s.rd r).rcvd + 1, pc := .closed })
  | receiveEof {r : ℕ} (hr : r < s.nrd) (hd : (s.rd r).dead = false) (hpc : (s.rd r).pc = .idle)
      (hm : (s.srv.out r)[(s.rd r).rcvd]? = none) (hc : s.srv.closed r = true) :
      Trans s (.reader r) (s.setRd r { s.rd r with pc := .closed })
  | update {r size : ℕ} (hr : r < s.nrd) (hd : (s.rd r).dead = false)
      (hpc : (s.rd r).pc = .update size) :
      Trans s (.reader r)
        (s.setRd r { s.rd r with
          shm := if size ≠ (s.rd r).curSize then s.key else (s.rd r).shm
          curSize := size
          pc := .readStart size })
  | readStart {r size : ℕ} (hr : r < s.nrd) (hd : (s.rd r).dead = false)
      (hpc : (s.rd r).pc = .readStart size) (hf : s.sem 1 = 0) :
      Trans s (.reader r)
        (s.setRd r { s.rd r with
          pc := .onData size
          calls := (s.rd r).calls ++ [⟨size, (s.rd r).shm, s.bytesAt r size⟩] })
  | readEnd {r size : ℕ} {f : ℕ → ℕ} (hr : r < s.nrd) (hd : (s.rd r).dead = false)
      (hpc : (s.rd r).pc = .onData size) (hf : semop s.sem readEnd = .ok f) :
      Trans s (.reader r)
        (setRd { s with
          sem := f
          released := Function.update s.released r (s.released r + 1) } r
            { s.rd r with pc := .idle })
  | quit {r : ℕ} (hr : r < s.nrd) (ho : (s.rd r).isOpen = true) (hc : (s.rd r).connected = true)
      (hq : (s.rd r).quitSent = false) :
      Trans s (.quit r)
        (s.setRd r { s.rd r with quitSent := true, toSrv := (s.rd r).toSrv ++ [.quit] })
  | die {r : ℕ} (hr : r < s.nrd) (ho : (s.rd r).isOpen = true) :
      Trans s (.die r) (s.setRd r { s.rd r with dead := true })

variable {s t : System}

theorem trans_of_writerStep (h : s.writerStep = some t) : Trans s .writer t := by
  unfold writerStep at h
  split at h
  · cases h
  · cases h
  · next op hpc =>
      obtain ⟨f, hf, rfl⟩ := Option.map_eq_some_iff.1 h
      exact .writeStart hpc (perform_eq_some.1 hf)
  · next op hpc => exact Option.some.inj h ▸ .locked hpc
  · next size next hpc => exact Option.some.inj h ▸ .create hpc
  · next size next hpc =>
      obtain ⟨srv, hsrv, rfl⟩ := Option.map_eq_some_iff.1 h
      exact .notifyLock hpc hsrv
  · next next hpc =>
      split at h
      · next size it todo hn =>
          obtain ⟨srv, hsrv, rfl⟩ := Option.map_eq_some_iff.1 h
          exact .notifySend hpc hn hsrv
      · obtain ⟨srv, hsrv, rfl⟩ := Option.map_eq_some_iff.1 h
        exact .notifyUnlock hpc hsrv
  · next numReaders next hpc =>
      split at h
      · next hn =>
          obtain ⟨f, hf, rfl⟩ := Option.map_eq_some_iff.1 h
          exact .commit hpc hn (perform_eq_some.1 hf)
      · next hn => exact Option.some.inj h ▸ .commitNone hpc hn
  · next data hpc => exact Option.some.inj h ▸ .memcpy hpc
  · next hpc =>
      obtain ⟨f, hf, rfl⟩ := Option.map_eq_some_iff.1 h
      exact .writeEnd hpc (perform_eq_some.1 hf)

theorem trans_of_readerStep {r : ℕ} (h : s.readerStep r = some t) : Trans s (.reader r) t := by
  obtain ⟨⟨hr, hd⟩, h⟩ := Option.ite_none_right_eq_some.1 h
  split at h
  · next hpc =>
      obtain ⟨hk, h⟩ := Option.ite_none_right_eq_some.1 h
      obtain ⟨g, hg⟩ := Option.isSome_iff_exists.1 hk
      rw [hg] at h
      exact Option.some.inj h ▸ .attach hr hd hpc hg
  · next hpc =>
      unfold receive at h
      split at h
      · next hm => exact Option.some.inj h ▸ .receiveConnect hr hd hpc hm
      · next size hm => exact Option.some.inj h ▸ .receiveUpdate hr hd hpc hm
      · next hm => exact Option.some.inj h ▸ .receiveQuit hr hd hpc hm
      · next hm =>
          obtain ⟨hc, h⟩ := Option.ite_none_right_eq_some.1 h
          exact Option.some.inj h ▸ .receiveEof hr hd hpc hm hc
  · next size hpc => exact Option.some.inj h ▸ .update hr hd hpc
  · next size hpc =>
      obtain ⟨f, hf, rfl⟩ := Option.map_eq_some_iff.1 h
      obtain ⟨h1, rfl⟩ := readStart_eq_ok.1 (perform_eq_some.1 hf)
      exact .readStart hr hd hpc h1
  · next size hpc =>
      obtain ⟨f, hf, rfl⟩ := Option.map_eq_some_iff.1 h
      exact .readEnd hr hd hpc (perform_eq_some.1 hf)
  · cases h

theorem trans_of_take {it : ℕ} {todo : List ℕ} {srv : Server ℕ}
    (hpc : s.srv.pc = .clients (it :: todo) ∨ s.srv.pc = .pending (it :: todo))
    (hk : s.kernel (.read .data) = true) (h : s.srv.step (.thread (.read .data)) = some srv) :
    Trans s (.server (.read .data)) (s.take it srv) := by
  have hbind : (s.srv.conn it).bind s.readRes = some .data := by
    rcases hpc with hpc | hpc <;> simpa [kernel, hpc] using hk
  obtain ⟨r, hr, hd⟩ := Option.bind_eq_some_iff.1 hbind
  have htrans := Trans.take hpc hr hd h
  simpa only [System.take, hr] using htrans

theorem trans_of_serverStep {ev : Server.Ev} (h : s.serverStep ev = some t) :
    Trans s (.server ev) t := by
  obtain ⟨hk, h⟩ := Option.ite_none_right_eq_some.1 h
  obtain ⟨srv, hsrv, h⟩ := Option.bind_eq_some_iff.1 h
  cases ev with
  | tau =>
      cases hpc : s.srv.pc with
      | recover it todo =>
          rw [hpc] at h
          obtain ⟨f, hf, rfl⟩ := Option.map_eq_some_iff.1 h
          exact .cancel hpc (perform_eq_some.1 hf) hsrv
      | _ =>
          simp only [effect, hpc, Option.some_inj] at h
          exact h ▸ .server hk hsrv (by simp [special, hpc])
  | read res =>
      cases res with
      | data =>
          cases hpc : s.srv.pc with
          | clients todo =>
              cases todo with
              | nil => simp [Server.thread, hpc] at hsrv
              | cons it todo =>
                  rw [hpc] at h
                  exact Option.some.inj h ▸ trans_of_take (Or.inl hpc) hk hsrv
          | pending todo =>
              cases todo with
              | nil => simp [Server.thread, hpc] at hsrv
              | cons it todo =>
                  rw [hpc] at h
                  exact Option.some.inj h ▸ trans_of_take (Or.inr hpc) hk hsrv
          | _ => simp [Server.thread, hpc] at hsrv
      | error | eof =>
          cases hpc : s.srv.pc with
          | recover it todo => simp [Server.thread, hpc] at hsrv
          | _ =>
              simp only [effect, hpc, Option.some_inj] at h
              exact h ▸ .server hk hsrv rfl
  | select rset listening =>
      cases hpc : s.srv.pc with
      | recover it todo => simp [Server.thread, hpc] at hsrv
      | _ =>
          simp only [effect, hpc, Option.some_inj] at h
          exact h ▸ .server hk hsrv rfl
  | accept clifd =>
      cases hpc : s.srv.pc with
      | recover it todo => cases clifd <;> simp [Server.thread, hpc] at hsrv
      | _ =>
          simp only [effect, hpc, Option.some_inj] at h
          exact h ▸ .server hk hsrv rfl
  | send ok =>
      cases hpc : s.srv.pc with
      | recover it todo => cases ok <;> simp [Server.thread, hpc] at hsrv
      | _ =>
          simp only [effect, hpc, Option.some_inj] at h
          exact h ▸ .server hk hsrv rfl

/-- **Every step of the system is one of the transitions.** -/
theorem trans_of_step {a : Act} (h : s.step a = some t) : Trans s a t := by
  cases a with
  | writer => exact trans_of_writerStep h
  | server ev => exact trans_of_serverStep h
  | reader r => exact trans_of_readerStep h
  | connect => exact Option.some.inj h ▸ .connect
  | quit r =>
      obtain ⟨⟨hr, ho, hc, hq⟩, h⟩ := Option.ite_none_right_eq_some.1 h
      exact Option.some.inj h ▸ .quit hr ho hc hq
  | die r =>
      obtain ⟨⟨hr, ho⟩, h⟩ := Option.ite_none_right_eq_some.1 h
      exact Option.some.inj h ▸ .die hr ho
  | call op =>
      simp only [step] at h
      split at h
      · next hpc => exact Option.some.inj h ▸ .call hpc
      · cases h
  | reset =>
      simp only [step] at h
      split at h
      · next hpc => exact Option.some.inj h ▸ .reset hpc
      · cases h
  | shmResize newSize =>
      simp only [step] at h
      split at h
      · next hpc => exact Option.some.inj h ▸ .shmResize hpc
      · cases h
  | notifyClients size =>
      simp only [step] at h
      split at h
      · next hpc =>
          split at h
          · next hn => exact Option.some.inj h ▸ .notifyIgnored hpc hn
          · next hn => exact Option.some.inj h ▸ .notifyClients hpc (Bool.eq_false_iff.2 hn)
      · cases h
  | write bytes =>
      simp only [step] at h
      split at h
      · next hpc =>
          obtain ⟨hb, h⟩ := Option.ite_none_right_eq_some.1 h
          exact Option.some.inj h ▸ .write hpc hb
      · cases h
  | release =>
      simp only [step] at h
      split at h
      · next hpc => exact Option.some.inj h ▸ .release hpc
      · cases h

end System

end Shmdata

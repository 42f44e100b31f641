/-
**`Follower`: its monitors, the client threads of its readers, and the writers on the path.**

A follower keeps a `Reader` on a path over successive writers.  While it has none, a monitor thread looks
for a socket at the path and constructs a `Reader`; when it has succeeded it stores `true` in `quit_`,
leaves its loop and stores `true` again.  The client thread of the `Reader` makes the user's callbacks,
and when the writer goes away it runs `Follower::on_server_disconnected`, which stores `false` in `quit_`,
starts the next monitor, and calls the user's disconnect callback.  The assignment to `monitor_` waits
for the monitor whose future it replaces, and the destruction of a `Reader` waits for its client thread.

The state is the follower with all its threads, and the writers as far as a follower sees them.  Monitors
and readers are numbered in the order of their creation.  Every load and store of `quit_`, every critical
section and every wait is a step of its own; a step that would have to wait is not enabled.

`Reader::Reader` is followed as far as its callbacks depend on it.  It connects, starts the client
thread and waits a second at most for the connect message; if the message does not come, it joins the
thread, which may still receive the message and make its callbacks while it is waited for.

Main definitions:

* `Shmdata.Follower.MonitorPc`, `Shmdata.Follower.ClientPc` — where a monitor and a client thread are;
* `Shmdata.Follower`, `Shmdata.Follower.step` — the follower and its steps;
* `Shmdata.Follower.Prompt` — the runs in which no constructor is overtaken by the reader it makes.

Main results:

* `Shmdata.Follower.fresh_of_step` — threads that have not been started do not move.
-/

import Shmdata.Runs
import Mathlib.Logic.Function.Basic

set_option relaxedAutoImplicit false
set_option autoImplicit false

namespace Shmdata

/-! ### The threads -/

namespace Follower

/-- Where a monitor is: the places of `Follower::monitor`, and those of the constructor of `Reader` that
it calls. -/
inductive MonitorPc
  | absent
  /-- At the test of the loop, `quit_.load()`. -/
  | load
  /-- At `fileMonitor::is_unix_socket`. -/
  | check
  | lockReader
  /-- About to connect a new `Reader`. -/
  | new
  /-- In `UnixSocketClient::start` of a reader, waiting for its connect message. -/
  | wait (r : ℕ)
  /-- The wait of a reader has timed out; its client thread is joined. -/
  | join (r : ℕ)
  /-- In `reader_.reset`: `reader_` is set, and the reader it pointed to is destroyed. -/
  | drop (old : Option ℕ) (valid : Bool)
  /-- `quit_.store(true)` in the loop. -/
  | store
  /-- `reader_.reset()` after an invalid reader. -/
  | clear
  /-- `quit_.store(true)` after the loop. -/
  | last
  | done
  deriving DecidableEq

/-- Where the client thread of a reader is: the places of `Follower::on_server_disconnected` follow
`live`. -/
inductive ClientPc
  | absent
  /-- The connect message has not been received. -/
  | waiting
  | live
  /-- At the test of `is_destructing_`. -/
  | test
  /-- `quit_.store(false)`. -/
  | store
  | lockMonitor
  /-- The monitor `m` is started, and `monitor_` is assigned its future. -/
  | assign (m : ℕ)
  /-- About to call the user's disconnect callback. -/
  | user
  | ended
  deriving DecidableEq

/-- Where the constructor of the follower is. -/
inductive CtorPc
  | check
  | new
  | wait (r : ℕ)
  | join (r : ℕ)
  /-- About to start a monitor. -/
  | async
  | assign (m : ℕ)
  | done
  deriving DecidableEq

/-- Where the destructor of the follower is. -/
inductive DtorPc
  | idle
  | store
  | lockMonitor
  | get
  | lockReader
  | drop (old : Option ℕ)
  /-- The members are destroyed; the future waits for its monitor. -/
  | members
  | done
  deriving DecidableEq

inductive Thread
  | user
  | monitor (m : ℕ)
  | client (r : ℕ)
  deriving DecidableEq

/-- The user's callbacks, with the reader that makes them. -/
inductive Event
  | connected (r : ℕ)
  | data (r : ℕ)
  | disconnected (r : ℕ)
  deriving DecidableEq

/-- A reader: its client thread, the writer it has connected to, `connected_`, and whether it is being
destroyed. -/
structure Client where
  pc : ClientPc
  server : ℕ
  connected : Bool
  quitting : Bool

end Follower

open Follower in
/-- The follower, its threads, the current writer and the file at the path. -/
structure Follower where
  isDestructing : Bool
  quit : Bool
  /-- `monitor_`. -/
  monitor : Option ℕ
  monitorMtx : Option Thread
  /-- `reader_`. -/
  reader : Option ℕ
  readerMtx : Option Thread
  ctor : CtorPc
  dtor : DtorPc
  mon : ℕ → MonitorPc
  nextMon : ℕ
  cli : ℕ → Client
  nextRd : ℕ
  writer : Option ℕ
  nextWriter : ℕ
  /-- A socket is at the path. -/
  file : Bool
  trace : List Event

namespace Follower

/-- The steps of the threads and of the writers, named after the thread that moves. -/
inductive Act
  | ctorCheck
  /-- The constructor's reader is refused by the socket, the segment or the semaphore. -/
  | ctorRefused
  | ctorConnect
  /-- The constructor's reader is valid. -/
  | ctorMade (r : ℕ)
  | ctorTimeout (r : ℕ)
  | ctorJoined (r : ℕ)
  | ctorAsync
  | ctorAssign (m : ℕ)
  | load (m : ℕ)
  | check (m : ℕ)
  | lockReader (m : ℕ)
  | refused (m : ℕ)
  | connect (m : ℕ)
  /-- The monitor's reader is valid. -/
  | made (m r : ℕ)
  | timeout (m r : ℕ)
  | joined (m r : ℕ)
  | dropped (m : ℕ) (old : Option ℕ) (valid : Bool)
  | store (m : ℕ)
  | clear (m : ℕ)
  | last (m : ℕ)
  /-- A client thread receives the connect message and makes the connect callback. -/
  | onConnect (r : ℕ)
  | onData (r : ℕ)
  /-- A client thread sees that its server has gone, or is told to quit. -/
  | onDisconnect (r : ℕ)
  /-- The server has gone before the connect message was sent. -/
  | abandoned (r : ℕ)
  | cbTest (r : ℕ)
  | cbStore (r : ℕ)
  | cbAsync (r : ℕ)
  | cbAssign (r m : ℕ)
  | cbUser (r : ℕ)
  | dtorBegin
  | dtorStore
  | dtorLockMonitor
  | dtorGet
  | dtorLockReader
  | dtorDropped (old : Option ℕ)
  | dtorMembers
  | writerStart
  | writerStop
  /-- The writer dies and leaves its socket file. -/
  | writerCrash

/-- Before the first step of the constructor; `writer` and `file` are what is found at the path. -/
def init (writer : Option ℕ) (file : Bool) : Follower where
  isDestructing := false
  quit := false
  monitor := none
  monitorMtx := none
  reader := none
  readerMtx := none
  ctor := .check
  dtor := .idle
  mon _ := .absent
  nextMon := 0
  cli _ := ⟨.absent, 0, false, false⟩
  nextRd := 0
  writer := writer
  nextWriter := 1
  file := file
  trace := []

def setMon (s : Follower) (m : ℕ) (pc : MonitorPc) : Follower :=
  { s with mon := Function.update s.mon m pc }

def setCli (s : Follower) (r : ℕ) (pc : ClientPc) : Follower :=
  { s with cli := Function.update s.cli r { s.cli r with pc := pc } }

/-- A new client thread, or none when the reader was refused. -/
def newReader (s : Follower) (pc : ClientPc) (server : ℕ) : Follower :=
  { s with
    cli := Function.update s.cli s.nextRd ⟨pc, server, false, false⟩
    nextRd := s.nextRd + 1 }

/-- `reader_.reset(p)`: `reader_` is set before the old reader is told to quit. -/
def resetReader (s : Follower) (p : Option ℕ) : Follower :=
  { s with
    reader := p
    cli := match s.reader with
      | some old => Function.update s.cli old { s.cli old with quitting := true }
      | none => s.cli }

/-- `std::async(std::launch::async, …)`. -/
def async (s : Follower) : Follower :=
  { s with mon := Function.update s.mon s.nextMon .load, nextMon := s.nextMon + 1 }

/-- A client thread that receives the connect message and makes the callback. -/
def hearConnect (s : Follower) (r : ℕ) : Follower :=
  { s with
    cli := Function.update s.cli r { s.cli r with pc := .live, connected := true }
    trace := s.trace ++ [.connected r] }

/-- The threads of destroyed readers are waited for. -/
def Joined (s : Follower) (old : Option ℕ) : Prop := ∀ o ∈ old, (s.cli o).pc = .ended

/-- The monitor whose future is in `monitor_` has ended. -/
def Ready (s : Follower) : Prop := ∀ m ∈ s.monitor, s.mon m = .done

instance (s : Follower) (old : Option ℕ) : Decidable (s.Joined old) :=
  inferInstanceAs (Decidable (∀ o ∈ old, _))

instance (s : Follower) : Decidable s.Ready := inferInstanceAs (Decidable (∀ m ∈ s.monitor, _))

/-- One step of one of the threads, or of a writer. -/
def step (s : Follower) : Act → Option Follower
  | .ctorCheck =>
      if s.ctor = .check then some { s with ctor := if s.file then .new else .async } else none
  | .ctorRefused =>
      if s.ctor = .new then
        some { s.newReader .ended 0 with reader := some s.nextRd, ctor := .async }
      else none
  | .ctorConnect =>
      match s.writer with
      | some w =>
          if s.ctor = .new then some { s.newReader .waiting w with ctor := .wait s.nextRd } else none
      | none => none
  | .ctorMade r =>
      if s.ctor = .wait r ∧ (s.cli r).connected = true then
        some { s with reader := some r, ctor := .done }
      else none
  | .ctorTimeout r =>
      if s.ctor = .wait r ∧ (s.cli r).connected = false then some { s with ctor := .join r } else none
  | .ctorJoined r =>
      if s.ctor = .join r ∧ (s.cli r).pc = .ended then
        some { s with reader := some r, ctor := .async }
      else none
  | .ctorAsync =>
      if s.ctor = .async then some { s.async with ctor := .assign s.nextMon } else none
  | .ctorAssign m =>
      if s.ctor = .assign m ∧ s.Ready then some { s with monitor := some m, ctor := .done } else none
  | .load m =>
      if s.mon m = .load then some (s.setMon m (if s.quit then .last else .check)) else none
  | .check m =>
      if s.mon m = .check then some (s.setMon m (if s.file then .lockReader else .load)) else none
  | .lockReader m =>
      if s.mon m = .lockReader ∧ s.readerMtx = none then
        some { s.setMon m .new with readerMtx := some (.monitor m) }
      else none
  | .refused m =>
      if s.mon m = .new then
        some (((s.newReader .ended 0).resetReader (some s.nextRd)).setMon m (.drop s.reader false))
      else none
  | .connect m =>
      match s.writer with
      | some w =>
          if s.mon m = .new then some ((s.newReader .waiting w).setMon m (.wait s.nextRd)) else none
      | none => none
  | .made m r =>
      if s.mon m = .wait r ∧ (s.cli r).connected = true then
        some ((s.resetReader (some r)).setMon m (.drop s.reader true))
      else none
  | .timeout m r =>
      if s.mon m = .wait r ∧ (s.cli r).connected = false then some (s.setMon m (.join r)) else none
  | .joined m r =>
      if s.mon m = .join r ∧ (s.cli r).pc = .ended then
        some ((s.resetReader (some r)).setMon m (.drop s.reader false))
      else none
  | .dropped m old valid =>
      if s.mon m = .drop old valid ∧ s.Joined old then
        some (s.setMon m (if valid then .store else .clear))
      else none
  | .store m =>
      -- `reader_mtx_` is released at the end of the block
      if s.mon m = .store then some { s.setMon m .load with quit := true, readerMtx := none } else none
  | .clear m =>
      if s.mon m = .clear then some { s.setMon m .load with reader := none, readerMtx := none }
      else none
  | .last m => if s.mon m = .last then some { s.setMon m .done with quit := true } else none
  | .onConnect r => if (s.cli r).pc = .waiting then some (s.hearConnect r) else none
  | .onData r =>
      if (s.cli r).pc = .live then some { s with trace := s.trace ++ [.data r] } else none
  | .onDisconnect r =>
      if (s.cli r).pc = .live ∧ (s.writer ≠ some (s.cli r).server ∨ (s.cli r).quitting = true) then
        some (s.setCli r .test)
      else none
  | .abandoned r =>
      if (s.cli r).pc = .waiting ∧ s.writer ≠ some (s.cli r).server then some (s.setCli r .ended)
      else none
  | .cbTest r =>
      if (s.cli r).pc = .test then some (s.setCli r (if s.isDestructing then .user else .store))
      else none
  | .cbStore r =>
      if (s.cli r).pc = .store then some { s.setCli r .lockMonitor with quit := false } else none
  | .cbAsync r =>
      if (s.cli r).pc = .lockMonitor ∧ s.monitorMtx = none then
        some { s.async.setCli r (.assign s.nextMon) with monitorMtx := some (.client r) }
      else none
  | .cbAssign r m =>
      if (s.cli r).pc = .assign m ∧ s.Ready then
        some { s.setCli r .user with monitor := some m, monitorMtx := none }
      else none
  | .cbUser r =>
      if (s.cli r).pc = .user then
        some { s.setCli r .ended with trace := s.trace ++ [.disconnected r] }
      else none
  | .dtorBegin =>
      if s.ctor = .done ∧ s.dtor = .idle then some { s with isDestructing := true, dtor := .store }
      else none
  | .dtorStore =>
      if s.dtor = .store then some { s with quit := true, dtor := .lockMonitor } else none
  | .dtorLockMonitor =>
      if s.dtor = .lockMonitor ∧ s.monitorMtx = none then
        some { s with monitorMtx := some .user, dtor := .get }
      else none
  | .dtorGet =>
      if s.dtor = .get ∧ s.Ready then
        some { s with monitor := none, monitorMtx := none, dtor := .lockReader }
      else none
  | .dtorLockReader =>
      if s.dtor = .lockReader ∧ s.readerMtx = none then
        some { s.resetReader none with readerMtx := some .user, dtor := .drop s.reader }
      else none
  | .dtorDropped old =>
      if s.dtor = .drop old ∧ s.Joined old then some { s with readerMtx := none, dtor := .members }
      else none
  | .dtorMembers =>
      if s.dtor = .members ∧ s.Ready then some { s with dtor := .done } else none
  | .writerStart =>
      if s.writer = none then
        some { s with writer := some s.nextWriter, nextWriter := s.nextWriter + 1, file := true }
      else none
  | .writerStop =>
      if s.writer.isSome then some { s with writer := none, file := false } else none
  | .writerCrash => if s.writer.isSome then some { s with writer := none } else none

/-! ### Prompt runs -/

/-- The constructor of the reader `r` waits for its connect message. -/
def Awaits (s : Follower) (r : ℕ) : Prop :=
  s.ctor = .wait r ∨ ∃ m, m < s.nextMon ∧ s.mon m = .wait r

/-- No reader receives its connect message after its constructor has given up waiting for it, and no
disconnect callback goes on to start a monitor before the constructor of the follower has returned. -/
def Prompt (s : Follower) : Act → Prop
  | .onConnect r => s.Awaits r
  | .cbStore _ => s.ctor = .done
  | _ => True

instance (s : Follower) (r : ℕ) : Decidable (s.Awaits r) :=
  inferInstanceAs (Decidable (_ ∨ ∃ m, m < s.nextMon ∧ _))

instance (s : Follower) (a : Act) : Decidable (Prompt s a) := by
  cases a <;> unfold Prompt <;> infer_instance

/-! ### What the helpers change -/

variable {s t : Follower} {a : Act}

@[simp] theorem newReader_mon (s : Follower) (pc : ClientPc) (w : ℕ) :
    (s.newReader pc w).mon = s.mon := rfl

@[simp] theorem resetReader_mon (s : Follower) (p : Option ℕ) : (s.resetReader p).mon = s.mon := rfl

@[simp] theorem setMon_cli (s : Follower) (m : ℕ) (pc : MonitorPc) : (s.setMon m pc).cli = s.cli := rfl

@[simp] theorem async_cli (s : Follower) : s.async.cli = s.cli := rfl

@[simp] theorem setCli_mon (s : Follower) (r : ℕ) (pc : ClientPc) : (s.setCli r pc).mon = s.mon := rfl

/-- Destroying a reader does not move its client thread. -/
theorem resetReader_cli (s : Follower) (p : Option ℕ) (r : ℕ) :
    ((s.resetReader p).cli r).pc = (s.cli r).pc ∧
      ((s.resetReader p).cli r).connected = (s.cli r).connected := by
  unfold resetReader
  cases s.reader with
  | none => exact ⟨rfl, rfl⟩
  | some old =>
      by_cases hr : r = old
      · subst hr
        simp
      · simp [Function.update_of_ne hr]

theorem setCli_pc (s : Follower) (r r' : ℕ) (pc : ClientPc) :
    ((s.setCli r pc).cli r').pc = if r' = r then pc else (s.cli r').pc := by
  by_cases hr : r' = r
  · subst hr
    simp [setCli]
  · simp [setCli, hr]

theorem setCli_connected (s : Follower) (r r' : ℕ) (pc : ClientPc) :
    ((s.setCli r pc).cli r').connected = (s.cli r').connected := by
  by_cases hr : r' = r
  · subst hr
    simp [setCli]
  · simp [setCli, Function.update_of_ne hr]

theorem setMon_mon (s : Follower) (m m' : ℕ) (pc : MonitorPc) :
    (s.setMon m pc).mon m' = if m' = m then pc else s.mon m' :=
  Function.update_apply ..

theorem async_mon (s : Follower) (m : ℕ) :
    s.async.mon m = if m = s.nextMon then .load else s.mon m :=
  Function.update_apply ..

theorem newReader_cli (s : Follower) (pc : ClientPc) (w r : ℕ) :
    (s.newReader pc w).cli r = if r = s.nextRd then ⟨pc, w, false, false⟩ else s.cli r :=
  Function.update_apply ..

theorem hearConnect_pc (s : Follower) (r r' : ℕ) :
    ((s.hearConnect r).cli r').pc = if r' = r then .live else (s.cli r').pc := by
  by_cases hr : r' = r
  · subst hr
    simp [hearConnect]
  · simp [hearConnect, hr]

theorem hearConnect_connected (s : Follower) (r r' : ℕ) :
    ((s.hearConnect r).cli r').connected = if r' = r then true else (s.cli r').connected := by
  by_cases hr : r' = r
  · subst hr
    simp [hearConnect]
  · simp [hearConnect, hr]

/-! ### The transitions -/

/-- The steps again, one constructor for each of them. -/
inductive Trans (s : Follower) : Act → Follower → Prop
  | ctorCheck : s.ctor = .check → Trans s .ctorCheck { s with ctor := if s.file then .new else .async }
  | ctorRefused : s.ctor = .new →
      Trans s .ctorRefused { s.newReader .ended 0 with reader := some s.nextRd, ctor := .async }
  | ctorConnect {w : ℕ} : s.writer = some w → s.ctor = .new →
      Trans s .ctorConnect { s.newReader .waiting w with ctor := .wait s.nextRd }
  | ctorMade {r : ℕ} : s.ctor = .wait r → (s.cli r).connected = true →
      Trans s (.ctorMade r) { s with reader := some r, ctor := .done }
  | ctorTimeout {r : ℕ} : s.ctor = .wait r → (s.cli r).connected = false →
      Trans s (.ctorTimeout r) { s with ctor := .join r }
  | ctorJoined {r : ℕ} : s.ctor = .join r → (s.cli r).pc = .ended →
      Trans s (.ctorJoined r) { s with reader := some r, ctor := .async }
  | ctorAsync : s.ctor = .async → Trans s .ctorAsync { s.async with ctor := .assign s.nextMon }
  | ctorAssign {m : ℕ} : s.ctor = .assign m → s.Ready →
      Trans s (.ctorAssign m) { s with monitor := some m, ctor := .done }
  | load {m : ℕ} : s.mon m = .load → Trans s (.load m) (s.setMon m (if s.quit then .last else .check))
  | check {m : ℕ} : s.mon m = .check →
      Trans s (.check m) (s.setMon m (if s.file then .lockReader else .load))
  | lockReader {m : ℕ} : s.mon m = .lockReader → s.readerMtx = none →
      Trans s (.lockReader m) { s.setMon m .new with readerMtx := some (.monitor m) }
  | refused {m : ℕ} : s.mon m = .new →
      Trans s (.refused m)
        (((s.newReader .ended 0).resetReader (some s.nextRd)).setMon m (.drop s.reader false))
  | connect {m w : ℕ} : s.writer = some w → s.mon m = .new →
      Trans s (.connect m) ((s.newReader .waiting w).setMon m (.wait s.nextRd))
  | made {m r : ℕ} : s.mon m = .wait r → (s.cli r).connected = true →
      Trans s (.made m r) ((s.resetReader (some r)).setMon m (.drop s.reader true))
  | timeout {m r : ℕ} : s.mon m = .wait r → (s.cli r).connected = false →
      Trans s (.timeout m r) (s.setMon m (.join r))
  | joined {m r : ℕ} : s.mon m = .join r → (s.cli r).pc = .ended →
      Trans s (.joined m r) ((s.resetReader (some r)).setMon m (.drop s.reader false))
  | dropped {m : ℕ} {old : Option ℕ} {valid : Bool} : s.mon m = .drop old valid → s.Joined old →
      Trans s (.dropped m old valid) (s.setMon m (if valid then .store else .clear))
  | store {m : ℕ} : s.mon m = .store →
      Trans s (.store m) { s.setMon m .load with quit := true, readerMtx := none }
  | clear {m : ℕ} : s.mon m = .clear →
      Trans s (.clear m) { s.setMon m .load with reader := none, readerMtx := none }
  | last {m : ℕ} : s.mon m = .last → Trans s (.last m) { s.setMon m .done with quit := true }
  | onConnect {r : ℕ} : (s.cli r).pc = .waiting → Trans s (.onConnect r) (s.hearConnect r)
  | onData {r : ℕ} : (s.cli r).pc = .live →
      Trans s (.onData r) { s with trace := s.trace ++ [.data r] }
  | onDisconnect {r : ℕ} : (s.cli r).pc = .live →
      s.writer ≠ some (s.cli r).server ∨ (s.cli r).quitting = true →
      Trans s (.onDisconnect r) (s.setCli r .test)
  | abandoned {r : ℕ} : (s.cli r).pc = .waiting → s.writer ≠ some (s.cli r).server →
      Trans s (.abandoned r) (s.setCli r .ended)
  | cbTest {r : ℕ} : (s.cli r).pc = .test →
      Trans s (.cbTest r) (s.setCli r (if s.isDestructing then .user else .store))
  | cbStore {r : ℕ} : (s.cli r).pc = .store →
      Trans s (.cbStore r) { s.setCli r .lockMonitor with quit := false }
  | cbAsync {r : ℕ} : (s.cli r).pc = .lockMonitor → s.monitorMtx = none →
      Trans s (.cbAsync r)
        { s.async.setCli r (.assign s.nextMon) with monitorMtx := some (.client r) }
  | cbAssign {r m : ℕ} : (s.cli r).pc = .assign m → s.Ready →
      Trans s (.cbAssign r m) { s.setCli r .user with monitor := some m, monitorMtx := none }
  | cbUser {r : ℕ} : (s.cli r).pc = .user →
      Trans s (.cbUser r) { s.setCli r .ended with trace := s.trace ++ [.disconnected r] }
  | dtorBegin : s.ctor = .done → s.dtor = .idle →
      Trans s .dtorBegin { s with isDestructing := true, dtor := .store }
  | dtorStore : s.dtor = .store → Trans s .dtorStore { s with quit := true, dtor := .lockMonitor }
  | dtorLockMonitor : s.dtor = .lockMonitor → s.monitorMtx = none →
      Trans s .dtorLockMonitor { s with monitorMtx := some .user, dtor := .get }
  | dtorGet : s.dtor = .get → s.Ready →
      Trans s .dtorGet { s with monitor := none, monitorMtx := none, dtor := .lockReader }
  | dtorLockReader : s.dtor = .lockReader → s.readerMtx = none →
      Trans s .dtorLockReader
        { s.resetReader none with readerMtx := some .user, dtor := .drop s.reader }
  | dtorDropped {old : Option ℕ} : s.dtor = .drop old → s.Joined old →
      Trans s (.dtorDropped old) { s with readerMtx := none, dtor := .members }
  | dtorMembers : s.dtor = .members → s.Ready → Trans s .dtorMembers { s with dtor := .done }
  | writerStart : s.writer = none →
      Trans s .writerStart
        { s with writer := some s.nextWriter, nextWriter := s.nextWriter + 1, file := true }
  | writerStop : s.writer.isSome = true →
      Trans s .writerStop { s with writer := none, file := false }
  | writerCrash : s.writer.isSome = true → Trans s .writerCrash { s with writer := none }

/-- Every step is one of the transitions. -/
theorem trans_of_step (h : s.step a = some t) : Trans s a t := by
  cases a with
  | ctorConnect | connect =>
      cases hw : s.writer with
      | none => simp [step, hw] at h
      | some w =>
          simp only [step, hw, Option.ite_none_right_eq_some, Option.some.injEq] at h
          obtain ⟨hg, rfl⟩ := h
          constructor
          · exact hw
          · exact hg
  | ctorMade | ctorTimeout | ctorJoined | ctorAssign | lockReader | made | timeout | joined | dropped
  | onDisconnect | abandoned | cbAsync | cbAssign | dtorBegin | dtorLockMonitor | dtorGet
  | dtorLockReader | dtorDropped | dtorMembers =>
      simp only [step, Option.ite_none_right_eq_some, Option.some.injEq] at h
      obtain ⟨⟨hg, hg'⟩, rfl⟩ := h
      constructor
      · exact hg
      · exact hg'
  | _ =>
      simp only [step, Option.ite_none_right_eq_some, Option.some.injEq] at h
      obtain ⟨hg, rfl⟩ := h
      constructor
      exact hg

/-! ### Threads that have not been started -/

/-- Only the monitors and the readers that have been created are anywhere. -/
structure Fresh (s : Follower) : Prop where
  mon : ∀ m, s.nextMon ≤ m → s.mon m = .absent
  cli : ∀ r, s.nextRd ≤ r → (s.cli r).pc = .absent

theorem fresh_init (writer : Option ℕ) (file : Bool) : Fresh (init writer file) :=
  ⟨fun _ _ => rfl, fun _ _ => rfl⟩

namespace Fresh

theorem setMon (hf : Fresh s) {m : ℕ} (pc : MonitorPc) (hm : s.mon m ≠ .absent) :
    Fresh (s.setMon m pc) := by
  refine ⟨fun m' hm' => ?_, hf.cli⟩
  rw [setMon_mon, if_neg]
  · exact hf.mon m' hm'
  · rintro rfl
    exact hm (hf.mon m' hm')

theorem moved (hf : Fresh s) (hmon : t.mon = s.mon) (h1 : t.nextMon = s.nextMon)
    (h2 : t.nextRd = s.nextRd) {r : ℕ} (hr : (s.cli r).pc ≠ .absent)
    (hcli : ∀ r', r' ≠ r → (t.cli r').pc = (s.cli r').pc) : Fresh t := by
  refine ⟨by rw [hmon, h1]; exact hf.mon, fun r' hr' => ?_⟩
  rw [h2] at hr'
  rw [hcli r' fun h => hr (h ▸ hf.cli r' hr')]
  exact hf.cli r' hr'

theorem setCli (hf : Fresh s) {r : ℕ} (pc : ClientPc) (hr : (s.cli r).pc ≠ .absent) :
    Fresh (s.setCli r pc) :=
  hf.moved rfl rfl rfl hr fun r' h => by rw [setCli_pc, if_neg h]

theorem newReader (hf : Fresh s) (pc : ClientPc) (w : ℕ) : Fresh (s.newReader pc w) := by
  refine ⟨hf.mon, fun r hr => ?_⟩
  have hr : s.nextRd + 1 ≤ r := hr
  rw [newReader_cli, if_neg (by omega)]
  exact hf.cli r (by omega)

theorem resetReader (hf : Fresh s) (p : Option ℕ) : Fresh (s.resetReader p) :=
  ⟨hf.mon, fun r hr => (resetReader_cli s p r).1.trans (hf.cli r hr)⟩

theorem async (hf : Fresh s) : Fresh s.async := by
  refine ⟨fun m hm => ?_, hf.cli⟩
  have hm : s.nextMon + 1 ≤ m := hm
  rw [async_mon, if_neg (by omega)]
  exact hf.mon m (by omega)

theorem congr (hf : Fresh s) (h1 : t.mon = s.mon) (h2 : t.nextMon = s.nextMon) (h3 : t.cli = s.cli)
    (h4 : t.nextRd = s.nextRd) : Fresh t :=
  ⟨by rw [h1, h2]; exact hf.mon, by rw [h3, h4]; exact hf.cli⟩

end Fresh

/-- Threads that have not been started do not move. -/
theorem fresh_of_step (hf : Fresh s) (h : s.step a = some t) : Fresh t := by
  cases trans_of_step h with
  | ctorRefused => exact (hf.newReader ..).congr rfl rfl rfl rfl
  | ctorConnect => exact (hf.newReader ..).congr rfl rfl rfl rfl
  | ctorAsync => exact hf.async.congr rfl rfl rfl rfl
  | load hm | check hm | timeout hm | dropped hm => exact hf.setMon _ (by simp [hm])
  | lockReader hm | store hm | clear hm | last hm =>
      exact (hf.setMon _ (by simp [hm])).congr rfl rfl rfl rfl
  | refused hm => exact ((hf.newReader ..).resetReader _).setMon _ (by simp [hm])
  | connect hw hm => exact (hf.newReader ..).setMon _ (by simp [hm])
  | made hm | joined hm => exact (hf.resetReader _).setMon _ (by simp [hm])
  | @onConnect r hr =>
      have hne : (s.cli r).pc ≠ .absent := by simp [hr]
      exact hf.moved rfl rfl rfl hne fun r' h => by rw [hearConnect_pc, if_neg h]
  | onDisconnect hr | abandoned hr | cbTest hr => exact hf.setCli _ (by simp [hr])
  | cbStore hr | cbAssign hr | cbUser hr => exact (hf.setCli _ (by simp [hr])).congr rfl rfl rfl rfl
  | cbAsync hr => exact (hf.async.setCli _ (by simp [hr])).congr rfl rfl rfl rfl
  | dtorLockReader => exact (hf.resetReader none).congr rfl rfl rfl rfl
  | _ => exact hf.congr rfl rfl rfl rfl

end Follower

end Shmdata

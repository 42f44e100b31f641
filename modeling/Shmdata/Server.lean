/-
**`UnixSocketServer`: the serving thread, `notify_update` and the destructor.**

The serving thread of `unix-socket-server.cpp` is a loop around `select`.  Each iteration that
finds something to do takes `clients_mutex_`; it accepts one connection, or goes through the
clients that have something to read (a read error, an end of file or a quit request) and then
through the pending clients, whose acknowledgement makes them clients.  The writer calls
`notify_update` from its own thread, under the same mutex, and the destructor stops the thread and
sends a last message to every client.

The state below is the server object and the part of the kernel it sees: the table of open
descriptors, which numbers may be reused once closed, and the messages sent on each connection.
Every system call and every critical section is a step of its own.  What the kernel answers is part
of the action, so that the runs of `Server.step` are the runs of the server against every possible
sequence of kernel events.  An accepted descriptor from `FD_SETSIZE` on does not fit in `allset`; once
`FD_SET` was called with one the serving thread goes no further here.  `clients_mutex_` is held by the serving
thread at the places `Pc.accept` to `Pc.purge` and `Pc.undefined`, and by the writer while `notify` is not
`none`.

Main definitions:

* `Shmdata.SrvMsg` — the messages of the server, the size of an update being of any type;
* `Shmdata.Server` — the fields of `UnixSocketServer`, its threads and its connections;
* `Shmdata.Server.thread` — one step of `client_interaction`;
* `Shmdata.Server.step` — the same with `notify_update` and `~UnixSocketServer`;
* `Shmdata.Server.Trans` — the steps again, one constructor for each of them.

Main results:

* `Shmdata.Server.trans_of_step` — every step of the server is one of the transitions.
-/

import Shmdata.Runs
import Mathlib.Data.List.Sort

set_option relaxedAutoImplicit false
set_option autoImplicit false

namespace Shmdata

/-- The messages sent by the server: `onConnectData`, `UpdateMsg` and `QuitMsg`. -/
inductive SrvMsg (σ : Type)
  | connect
  | update (size : σ)
  | quit
  deriving DecidableEq

/-- The number of descriptors an `fd_set` holds. -/
def FD_SETSIZE : ℕ := 1024

namespace Server

/-- What `read` on a descriptor returned: an error, end of file, or some bytes. -/
inductive ReadRes
  | error
  | eof
  | data
  deriving DecidableEq

/-- The callbacks of `ServerSide`. -/
inductive Cb
  | onConnect
  | onDisconnect
  deriving DecidableEq

/-- Where `client_interaction` is. -/
inductive Pc
  /-- `while (0 == quit_.load())`. -/
  | top
  | select
  /-- `select` has returned; waiting for `clients_mutex_`. -/
  | lock
  | accept
  /-- About to send `cnx_msg` on the accepted descriptor, `none` for a failed `accept`. -/
  | greet (clifd : Option ℕ)
  /-- The loop over `clients_`, with the descriptors still to be looked at. -/
  | clients (todo : List ℕ)
  /-- About to call `on_client_error_(it)`. -/
  | recover (it : ℕ) (todo : List ℕ)
  /-- About to send the quit acknowledgement. -/
  | ackQuit (it : ℕ) (todo : List ℕ)
  /-- About to mark `it` for removal and to close it. -/
  | drop (it : ℕ) (todo : List ℕ)
  /-- Cleaning `clients_`. -/
  | erase
  /-- The loop over `pending_clients_`. -/
  | pending (todo : List ℕ)
  | dropPending (it : ℕ) (todo : List ℕ)
  /-- Removing pending clients and releasing the mutex. -/
  | purge
  | stopped
  /-- `FD_SET` was called with a descriptor that no `fd_set` holds: what follows is undefined. -/
  | undefined
  deriving DecidableEq

/-- The serving thread holds `clients_mutex_`. -/
@[simp] def Pc.locked : Pc → Bool
  | .top | .select | .lock | .stopped => false
  | _ => true

/-- Where `~UnixSocketServer` is. -/
inductive Dtor
  | alive
  /-- `quit_` is stored; in `done_.get()`. -/
  | waiting
  /-- Sending quit to the clients. -/
  | quitting (todo : List ℕ)
  | done
  deriving DecidableEq

/-- What the serving thread meets at its next step: nothing (`tau`), or the answer of a system
call. -/
inductive Ev
  | tau
  | select (rset : List ℕ) (listening : Bool)
  | accept (clifd : Option ℕ)
  | send (ok : Bool)
  | read (res : ReadRes)

/-- One step of the serving thread, of the thread that calls `notify_update`, or of the
destructor. -/
inductive Act (σ : Type)
  | thread (ev : Ev)
  | notifyLock (size : σ)
  | notifySend (ok : Bool)
  | notifyUnlock
  | dtorStart
  | dtorJoin
  | dtorSend (ok : Bool)
  | dtorEnd

end Server

/-- The server and its connections.  `lfd` is the listening socket; `conn` is the table of open
descriptors, each with the number of its connection in the order of acceptance; `closed`, `acked`,
`out` and `cbs` record for each connection whether the server has closed it, whether its
acknowledgement was read, what was sent on it and the callbacks made for it. -/
structure Server (σ : Type) where
  lfd : ℕ
  allset : List ℕ
  maxfd : ℕ
  rset : List ℕ
  listening : Bool
  clients : List ℕ
  clientsNotified : List ℕ
  pendingClients : List ℕ
  clientsToRemove : List ℕ
  quit : Bool
  pc : Server.Pc
  notify : Option (σ × List ℕ)
  dtor : Server.Dtor
  conn : ℕ → Option ℕ
  nconn : ℕ
  closed : ℕ → Bool
  acked : ℕ → Bool
  out : ℕ → List (SrvMsg σ)
  cbs : ℕ → List Server.Cb

namespace Server

variable {σ : Type}

/-- Insertion in a `std::set<int>`, kept as its increasing list of elements. -/
def setInsert (fd : ℕ) (l : List ℕ) : List ℕ :=
  if fd ∈ l then l else l.orderedInsert (· ≤ ·) fd

theorem mem_setInsert {fd x : ℕ} {l : List ℕ} : x ∈ setInsert fd l ↔ x = fd ∨ x ∈ l := by
  unfold setInsert
  split
  · next h => exact ⟨Or.inr, fun hx => hx.elim (fun e => e ▸ h) id⟩
  · exact List.mem_orderedInsert _

theorem nodup_setInsert {fd : ℕ} {l : List ℕ} (h : l.Nodup) : (setInsert fd l).Nodup := by
  unfold setInsert
  split
  · exact h
  · next hfd => exact (List.perm_orderedInsert _ fd l).nodup_iff.2 (List.nodup_cons.2 ⟨hfd, h⟩)

theorem length_setInsert {fd : ℕ} {l : List ℕ} (h : fd ∉ l) :
    (setInsert fd l).length = l.length + 1 := by
  unfold setInsert
  rw [if_neg h, List.orderedInsert_length]

/-- Appending to the history of the connection behind a descriptor. -/
def record {β : Type} (f : ℕ → List β) (c : Option ℕ) (x : β) : ℕ → List β :=
  match c with
  | some c => Function.update f c (f c ++ [x])
  | none => f

/-- Setting a mark of the connection behind a descriptor. -/
def mark (f : ℕ → Bool) (c : Option ℕ) : ℕ → Bool :=
  match c with
  | some c => Function.update f c true
  | none => f

/-- `FD_CLR(it, &allset); close(it);` together with the entry in `clients_to_remove`. -/
def close (s : Server σ) (it : ℕ) (pc : Pc) : Server σ :=
  { s with
    clientsToRemove := s.clientsToRemove ++ [it]
    allset := s.allset.filter (· ≠ it)
    conn := Function.update s.conn it none
    closed := mark s.closed (s.conn it)
    pc := pc }

/-- The server when `start_serving` has just started the serving thread, with a listening socket that fits in
an `fd_set`. -/
def init (lfd : ℕ) : Server σ where
  lfd := lfd
  allset := []
  maxfd := lfd
  rset := []
  listening := false
  clients := []
  clientsNotified := []
  pendingClients := []
  clientsToRemove := []
  quit := false
  pc := .top
  notify := none
  dtor := .alive
  conn := fun _ => none
  nconn := 0
  closed := fun _ => false
  acked := fun _ => false
  out := fun _ => []
  cbs := fun _ => []

/-- One step of `client_interaction`.  `select` reports descriptors of `allset` up to `maxfd`;
`accept` returns any number that is not open, and nothing checks that it fits in an `fd_set`. -/
def thread (s : Server σ) (ev : Ev) : Option (Server σ) :=
  match s.pc, ev with
  | .top, .tau => some { s with pc := if s.quit then .stopped else .select }
  | .select, .tau => some { s with pc := .top } -- `select` failed: `continue`
  | .select, .select rset listening =>
      if ∀ fd ∈ rset, fd ∈ s.allset ∧ fd ≤ s.maxfd then
        some { s with rset := rset, listening := listening, pc := .lock }
      else none
  | .lock, .tau =>
      if s.notify.isNone then
        some { s with pc := if s.listening then .accept else .clients s.clients }
      else none
  | .accept, .accept none => some { s with pc := .greet none }
  | .accept, .accept (some fd) =>
      if s.conn fd = none ∧ fd ≠ s.lfd then
        some { s with
          pc := .greet (some fd)
          conn := Function.update s.conn fd (some s.nconn)
          nconn := s.nconn + 1 }
      else none
  | .greet none, .send false => some { s with pc := .top }
  | .greet (some _), .send false => some { s with pc := .top }
  | .greet (some fd), .send true =>
      some { s with
        maxfd := max s.maxfd fd
        allset := setInsert fd s.allset
        pendingClients := setInsert fd s.pendingClients
        out := record s.out (s.conn fd) .connect
        pc := if fd < FD_SETSIZE then .top else .undefined }
  | .clients [], .tau => some { s with pc := .erase }
  | .clients (it :: todo), .tau =>
      if it ∈ s.rset then none else some { s with pc := .clients todo }
  | .clients (it :: todo), .read res =>
      if it ∈ s.rset then
        match res with
        | .error =>
            some { s with
              pc := if it ∈ s.clientsNotified then .recover it todo else .drop it todo }
        | .eof => some { s with pc := .drop it todo }
        | .data => some { s with pc := .ackQuit it todo }
      else none
  | .recover it todo, .tau => some { s with pc := .drop it todo }
  | .ackQuit it todo, .send ok =>
      some { s with
        out := if ok then record s.out (s.conn it) .quit else s.out
        cbs := record s.cbs (s.conn it) .onDisconnect
        pc := .drop it todo }
  | .drop it todo, .tau => some (s.close it (.clients todo))
  | .erase, .tau =>
      some { s with
        clients := s.clientsToRemove.foldl List.erase s.clients
        clientsToRemove := []
        pc := .pending s.pendingClients }
  | .pending [], .tau => some { s with pc := .purge }
  | .pending (it :: todo), .tau =>
      if it ∈ s.rset then none else some { s with pc := .pending todo }
  | .pending (it :: todo), .read res =>
      if it ∈ s.rset then
        match res with
        | .error =>
            -- neither removed from `allset` nor closed
            some { s with
              clientsToRemove := s.clientsToRemove ++ [it]
              pc := .pending todo }
        | .eof => some { s with pc := .dropPending it todo }
        | .data =>
            some { s with
              clients := s.clients ++ [it]
              clientsToRemove := s.clientsToRemove ++ [it]
              acked := mark s.acked (s.conn it)
              cbs := record s.cbs (s.conn it) .onConnect
              pc := .pending todo }
      else none
  | .dropPending it todo, .tau => some (s.close it (.pending todo))
  | .purge, .tau =>
      some { s with
        pendingClients := s.pendingClients.filter (· ∉ s.clientsToRemove)
        clientsToRemove := []
        pc := .top }
  | _, _ => none

/-- One step of the server.  `notify_update` and the destructor are members of one object, so a
call of the first is over before the second begins. -/
def step (s : Server σ) : Act σ → Option (Server σ)
  | .thread ev => s.thread ev
  | .notifyLock size =>
      if s.pc.locked = false ∧ s.notify.isNone ∧ s.dtor = .alive then
        some { s with clientsNotified := [], notify := some (size, s.clients) }
      else none
  | .notifySend ok =>
      match s.notify with
      | some (size, it :: todo) =>
          some { s with
            out := if ok then record s.out (s.conn it) (.update size) else s.out
            clientsNotified := if ok then setInsert it s.clientsNotified else s.clientsNotified
            notify := some (size, todo) }
      | _ => none
  | .notifyUnlock =>
      match s.notify with
      | some (_, []) => some { s with notify := none }
      | _ => none
  | .dtorStart =>
      if s.dtor = .alive ∧ s.notify.isNone then
        some { s with quit := true, dtor := .waiting }
      else none
  | .dtorJoin =>
      if s.dtor = .waiting ∧ s.pc = .stopped then
        some { s with dtor := .quitting s.clients }
      else none
  | .dtorSend ok =>
      match s.dtor with
      | .quitting (it :: todo) =>
          some { s with
            out := if ok then record s.out (s.conn it) .quit else s.out
            dtor := .quitting todo }
      | _ => none
  | .dtorEnd =>
      match s.dtor with
      | .quitting [] => some { s with dtor := .done }
      | _ => none

/-! ### The transitions, one by one -/

/-- The steps of the server: `Trans s a t` when `step s a` is `t`, with the conditions under which
the step is taken. -/
inductive Trans : Server σ → Act σ → Server σ → Prop
  | loadQuit {s : Server σ} (hpc : s.pc = .top) :
      Trans s (.thread .tau) { s with pc := if s.quit then .stopped else .select }
  | selectFailed {s : Server σ} (hpc : s.pc = .select) :
      Trans s (.thread .tau) { s with pc := .top }
  | selected {s : Server σ} {rset : List ℕ} {listening : Bool} (hpc : s.pc = .select)
      (hr : ∀ fd ∈ rset, fd ∈ s.allset ∧ fd ≤ s.maxfd) :
      Trans s (.thread (.select rset listening))
        { s with rset := rset, listening := listening, pc := .lock }
  | lock {s : Server σ} (hpc : s.pc = .lock) (hn : s.notify = none) :
      Trans s (.thread .tau)
        { s with pc := if s.listening then .accept else .clients s.clients }
  | acceptFailed {s : Server σ} (hpc : s.pc = .accept) :
      Trans s (.thread (.accept none)) { s with pc := .greet none }
  | accepted {s : Server σ} {fd : ℕ} (hpc : s.pc = .accept) (hc : s.conn fd = none)
      (hl : fd ≠ s.lfd) :
      Trans s (.thread (.accept (some fd)))
        { s with
          pc := .greet (some fd)
          conn := Function.update s.conn fd (some s.nconn)
          nconn := s.nconn + 1 }
  | greetFailed {s : Server σ} {o : Option ℕ} (hpc : s.pc = .greet o) :
      Trans s (.thread (.send false)) { s with pc := .top }
  | greeted {s : Server σ} {fd : ℕ} (hpc : s.pc = .greet (some fd)) :
      Trans s (.thread (.send true))
        { s with
          maxfd := max s.maxfd fd
          allset := setInsert fd s.allset
          pendingClients := setInsert fd s.pendingClients
          out := record s.out (s.conn fd) .connect
          pc := if fd < FD_SETSIZE then .top else .undefined }
  | scanned {s : Server σ} (hpc : s.pc = .clients []) :
      Trans s (.thread .tau) { s with pc := .erase }
  | skip {s : Server σ} {it : ℕ} {todo : List ℕ} (hpc : s.pc = .clients (it :: todo))
      (hr : it ∉ s.rset) : Trans s (.thread .tau) { s with pc := .clients todo }
  | readError {s : Server σ} {it : ℕ} {todo : List ℕ} (hpc : s.pc = .clients (it :: todo))
      (hr : it ∈ s.rset) :
      Trans s (.thread (.read .error))
        { s with pc := if it ∈ s.clientsNotified then .recover it todo else .drop it todo }
  | readEof {s : Server σ} {it : ℕ} {todo : List ℕ} (hpc : s.pc = .clients (it :: todo))
      (hr : it ∈ s.rset) : Trans s (.thread (.read .eof)) { s with pc := .drop it todo }
  | readQuit {s : Server σ} {it : ℕ} {todo : List ℕ} (hpc : s.pc = .clients (it :: todo))
      (hr : it ∈ s.rset) : Trans s (.thread (.read .data)) { s with pc := .ackQuit it todo }
  | recovered {s : Server σ} {it : ℕ} {todo : List ℕ} (hpc : s.pc = .recover it todo) :
      Trans s (.thread .tau) { s with pc := .drop it todo }
  | quitAcked {s : Server σ} {it : ℕ} {todo : List ℕ} {ok : Bool} (hpc : s.pc = .ackQuit it todo) :
      Trans s (.thread (.send ok))
        { s with
          out := if ok then record s.out (s.conn it) .quit else s.out
          cbs := record s.cbs (s.conn it) .onDisconnect
          pc := .drop it todo }
  | dropped {s : Server σ} {it : ℕ} {todo : List ℕ} (hpc : s.pc = .drop it todo) :
      Trans s (.thread .tau) (s.close it (.clients todo))
  | erased {s : Server σ} (hpc : s.pc = .erase) :
      Trans s (.thread .tau)
        { s with
          clients := s.clientsToRemove.foldl List.erase s.clients
          clientsToRemove := []
          pc := .pending s.pendingClients }
  | pendingScanned {s : Server σ} (hpc : s.pc = .pending []) :
      Trans s (.thread .tau) { s with pc := .purge }
  | pendingSkip {s : Server σ} {it : ℕ} {todo : List ℕ} (hpc : s.pc = .pending (it :: todo))
      (hr : it ∉ s.rset) : Trans s (.thread .tau) { s with pc := .pending todo }
  | ackError {s : Server σ} {it : ℕ} {todo : List ℕ} (hpc : s.pc = .pending (it :: todo))
      (hr : it ∈ s.rset) :
      Trans s (.thread (.read .error))
        { s with clientsToRemove := s.clientsToRemove ++ [it], pc := .pending todo }
  | ackEof {s : Server σ} {it : ℕ} {todo : List ℕ} (hpc : s.pc = .pending (it :: todo))
      (hr : it ∈ s.rset) : Trans s (.thread (.read .eof)) { s with pc := .dropPending it todo }
  | ackRead {s : Server σ} {it : ℕ} {todo : List ℕ} (hpc : s.pc = .pending (it :: todo))
      (hr : it ∈ s.rset) :
      Trans s (.thread (.read .data))
        { s with
          clients := s.clients ++ [it]
          clientsToRemove := s.clientsToRemove ++ [it]
          acked := mark s.acked (s.conn it)
          cbs := record s.cbs (s.conn it) .onConnect
          pc := .pending todo }
  | pendingDropped {s : Server σ} {it : ℕ} {todo : List ℕ} (hpc : s.pc = .dropPending it todo) :
      Trans s (.thread .tau) (s.close it (.pending todo))
  | purged {s : Server σ} (hpc : s.pc = .purge) :
      Trans s (.thread .tau)
        { s with
          pendingClients := s.pendingClients.filter (· ∉ s.clientsToRemove)
          clientsToRemove := []
          pc := .top }
  | notifyLock {s : Server σ} {size : σ} (hpc : s.pc.locked = false) (hn : s.notify = none)
      (hd : s.dtor = .alive) :
      Trans s (.notifyLock size)
        { s with clientsNotified := [], notify := some (size, s.clients) }
  | notifySend {s : Server σ} {size : σ} {it : ℕ} {todo : List ℕ} {ok : Bool}
      (hn : s.notify = some (size, it :: todo)) :
      Trans s (.notifySend ok)
        { s with
          out := if ok then record s.out (s.conn it) (.update size) else s.out
          clientsNotified := if ok then setInsert it s.clientsNotified else s.clientsNotified
          notify := some (size, todo) }
  | notifyUnlock {s : Server σ} {size : σ} (hn : s.notify = some (size, [])) :
      Trans s .notifyUnlock { s with notify := none }
  | dtorStart {s : Server σ} (hd : s.dtor = .alive) (hn : s.notify = none) :
      Trans s .dtorStart { s with quit := true, dtor := .waiting }
  | dtorJoin {s : Server σ} (hd : s.dtor = .waiting) (hpc : s.pc = .stopped) :
      Trans s .dtorJoin { s with dtor := .quitting s.clients }
  | dtorSend {s : Server σ} {it : ℕ} {todo : List ℕ} {ok : Bool}
      (hd : s.dtor = .quitting (it :: todo)) :
      Trans s (.dtorSend ok)
        { s with
          out := if ok then record s.out (s.conn it) .quit else s.out
          dtor := .quitting todo }
  | dtorEnd {s : Server σ} (hd : s.dtor = .quitting []) :
      Trans s .dtorEnd { s with dtor := .done }

theorem trans_of_thread {s t : Server σ} {ev : Ev} (h : s.thread ev = some t) :
    Trans s (.thread ev) t := by
  unfold thread at h
  split at h
  case h_1 hpc => exact Option.some.inj h ▸ .loadQuit hpc
  case h_2 hpc => exact Option.some.inj h ▸ .selectFailed hpc
  case h_3 hpc =>
    obtain ⟨hr, h⟩ := Option.ite_none_right_eq_some.1 h
    exact Option.some.inj h ▸ .selected hpc hr
  case h_4 hpc =>
    obtain ⟨hn, h⟩ := Option.ite_none_right_eq_some.1 h
    exact Option.some.inj h ▸ .lock hpc (Option.isNone_iff_eq_none.1 hn)
  case h_5 hpc => exact Option.some.inj h ▸ .acceptFailed hpc
  case h_6 hpc =>
    obtain ⟨⟨hc, hl⟩, h⟩ := Option.ite_none_right_eq_some.1 h
    exact Option.some.inj h ▸ .accepted hpc hc hl
  case h_7 hpc => exact Option.some.inj h ▸ .greetFailed hpc
  case h_8 hpc => exact Option.some.inj h ▸ .greetFailed hpc
  case h_9 hpc => exact Option.some.inj h ▸ .greeted hpc
  case h_10 hpc => exact Option.some.inj h ▸ .scanned hpc
  case h_11 hpc =>
    obtain ⟨hr, h⟩ := Option.ite_none_left_eq_some.1 h
    exact Option.some.inj h ▸ .skip hpc hr
  case h_12 res hpc =>
    obtain ⟨hr, h⟩ := Option.ite_none_right_eq_some.1 h
    cases res with
    | error => exact Option.some.inj h ▸ .readError hpc hr
    | eof => exact Option.some.inj h ▸ .readEof hpc hr
    | data => exact Option.some.inj h ▸ .readQuit hpc hr
  case h_13 hpc => exact Option.some.inj h ▸ .recovered hpc
  case h_14 hpc => exact Option.some.inj h ▸ .quitAcked hpc
  case h_15 hpc => exact Option.some.inj h ▸ .dropped hpc
  case h_16 hpc => exact Option.some.inj h ▸ .erased hpc
  case h_17 hpc => exact Option.some.inj h ▸ .pendingScanned hpc
  case h_18 hpc =>
    obtain ⟨hr, h⟩ := Option.ite_none_left_eq_some.1 h
    exact Option.some.inj h ▸ .pendingSkip hpc hr
  case h_19 res hpc =>
    obtain ⟨hr, h⟩ := Option.ite_none_right_eq_some.1 h
    cases res with
    | error => exact Option.some.inj h ▸ .ackError hpc hr
    | eof => exact Option.some.inj h ▸ .ackEof hpc hr
    | data => exact Option.some.inj h ▸ .ackRead hpc hr
  case h_20 hpc => exact Option.some.inj h ▸ .pendingDropped hpc
  case h_21 hpc => exact Option.some.inj h ▸ .purged hpc
  case h_22 => cases h

/-- **Every step of the server is one of the transitions.** -/
theorem trans_of_step {s t : Server σ} {a : Act σ} (h : s.step a = some t) : Trans s a t := by
  cases a with
  | thread ev => exact trans_of_thread h
  | notifyLock size =>
      obtain ⟨⟨hpc, hn, hd⟩, h⟩ := Option.ite_none_right_eq_some.1 h
      exact Option.some.inj h ▸ .notifyLock hpc (Option.isNone_iff_eq_none.1 hn) hd
  | notifySend ok =>
      simp only [step] at h
      split at h
      · next hn => exact Option.some.inj h ▸ .notifySend hn
      · cases h
  | notifyUnlock =>
      simp only [step] at h
      split at h
      · next hn => exact Option.some.inj h ▸ .notifyUnlock hn
      · cases h
  | dtorStart =>
      obtain ⟨⟨hd, hn⟩, h⟩ := Option.ite_none_right_eq_some.1 h
      exact Option.some.inj h ▸ .dtorStart hd (Option.isNone_iff_eq_none.1 hn)
  | dtorJoin =>
      obtain ⟨⟨hd, hpc⟩, h⟩ := Option.ite_none_right_eq_some.1 h
      exact Option.some.inj h ▸ .dtorJoin hd hpc
  | dtorSend ok =>
      simp only [step] at h
      split at h
      · next hd => exact Option.some.inj h ▸ .dtorSend hd
      · cases h
  | dtorEnd =>
      simp only [step] at h
      split at h
      · next hd => exact Option.some.inj h ▸ .dtorEnd hd
      · cases h

end Server

end Shmdata

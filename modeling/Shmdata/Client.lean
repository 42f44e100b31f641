/-
**`UnixSocketClient::server_interaction` on a byte stream.**

The three messages of `unix-socket-protocol.hpp` have no length prefix: the client knows what to
read from whether it is connected.  Before that it reads into `data_`, which is as long as a connect
message; afterwards it reads into `update_msg_`, which is as long as an update and longer than a
quit message, and looks at the first two bytes of the buffer.

The state is the client thread and its end of the socket.  Each `send` of the server arrives as a
whole, at any moment between two steps of the client, and a `read` takes what is there up to the
length of its buffer.  The structures are laid out as on a 64-bit little-endian machine; the bytes
of their padding are arbitrary.

Main definitions:

* `Shmdata.ServerSide.encode` — the bytes of a message;
* `Shmdata.Client`, `Shmdata.Client.step` — the client thread and its socket;
* `Shmdata.Client.script` — the callbacks that a stream of messages asks for.

-/

import Shmdata.Bytes
import Shmdata.ServerStreams

set_option relaxedAutoImplicit false
set_option autoImplicit false

namespace Shmdata

open Bytes

/-! ### The messages as bytes -/

/-- The structures the server sends: `onConnectData` with its fields, and the padding of
`onConnectData` and `UpdateMsg`. -/
structure ServerSide where
  shmSize : UInt64
  userData : Vector UInt8 4096
  connectPad : Vector UInt8 6
  updatePad : Vector UInt8 6

namespace ServerSide

/-- `sizeof(onConnectData)`. -/
def connectLength : ℕ := 4112

/-- `sizeof(UpdateMsg)`. -/
def updateLength : ℕ := 16

/-- The bytes of a message: `msg_type_`, and for the longer ones padding and `size_`, and the user
data. -/
def encode (p : ServerSide) : SrvMsg UInt64 → List UInt8
  | .connect =>
      le 2 0 ++ p.connectPad.toList ++ le 8 p.shmSize.toNat ++ p.userData.toList
  | .update size => le 2 1 ++ p.updatePad.toList ++ le 8 size.toNat
  | .quit => le 2 2

@[simp] theorem length_encode_connect (p : ServerSide) :
    (p.encode .connect).length = connectLength := by
  simp [encode, connectLength]

@[simp] theorem length_encode_update (p : ServerSide) (size : UInt64) :
    (p.encode (.update size)).length = updateLength := by
  simp [encode, updateLength]

@[simp] theorem length_encode_quit (p : ServerSide) : (p.encode .quit).length = 2 := by
  simp [encode]

theorem encode_ne_nil (p : ServerSide) (m : SrvMsg UInt64) : p.encode m ≠ [] := by
  cases m <;> simp [encode, le]

end ServerSide

/-! ### The client thread -/

namespace Client

/-- `update_msg_.msg_type_` as it stands in the buffer. -/
def msgType (buf : List UInt8) : ℕ := ofLe (buf.take 2)

/-- `update_msg_.size_` as it stands in the buffer. -/
def msgSize (buf : List UInt8) : UInt64 := UInt64.ofNat (ofLe ((buf.drop 8).take 8))

/-- The callbacks of `ClientSide`. -/
inductive Cb
  | onConnect
  | onUpdate (size : UInt64)
  | onDisconnect
  deriving DecidableEq

/-- Where `server_interaction` is. -/
inductive Pc
  /-- Before the first `quit_.load()`. -/
  | start
  /-- `while (!quit || !quit_acked)`. -/
  | top
  | select
  /-- `select` has reported the socket; about to read. -/
  | read
  /-- At the `quit_.load()` that ends an iteration. -/
  | load
  | stopped
  deriving DecidableEq

/-- One step of the client thread, of the network, or of the destructor. -/
inductive Act
  /-- The next step of `server_interaction`. -/
  | thread
  /-- `select` fails. -/
  | selectFailed
  /-- The next message arrives, or the end of file after the last one. -/
  | arrive
  /-- `~UnixSocketClient` stores `quit_`. -/
  | quit
  deriving DecidableEq

end Client

/-- The client thread and its socket.  `avail` is what has arrived and is not read yet, `coming` the
messages under way; `calls` and `reads` record the callbacks made and the bytes that each `read`
returned, and `sent` what the client sent. -/
structure Client where
  pc : Client.Pc
  quit : Bool
  quitAcked : Bool
  quitStored : Bool
  connected : Bool
  isValid : Bool
  fdOpen : Bool
  data : List UInt8
  updateMsg : List UInt8
  avail : List UInt8
  coming : List (List UInt8)
  eof : Bool
  calls : List Client.Cb
  reads : List (List UInt8)
  sent : List (List UInt8)

namespace Client

open ServerSide

/-- The client when `start` has just started the thread, with a server that will send the given
messages and close the connection. -/
def init (msgs : List (List UInt8)) : Client where
  pc := .start
  quit := false
  quitAcked := false
  quitStored := false
  connected := false
  isValid := true
  fdOpen := true
  data := List.replicate connectLength 0
  updateMsg := List.replicate updateLength 0
  avail := []
  coming := msgs
  eof := false
  calls := []
  reads := []
  sent := []

/-- `on_disconnect_cb_`, then `FD_CLR`, `close(socket_.fd_)` and the end of the loop. -/
def disconnect (c : Client) : Client :=
  { c with
    calls := if c.connected then c.calls ++ [.onDisconnect] else c.calls
    fdOpen := false
    isValid := false
    quit := true
    quitAcked := true
    pc := .load }

/-- The answer to the connect message. -/
def acknowledge (c : Client) (bs : List UInt8) : Client :=
  { c with
    data := fill c.data bs
    sent := c.sent ++ [fill c.data bs]
    calls := c.calls ++ [.onConnect]
    connected := true
    pc := .load }

/-- The message in `update_msg_` is looked at. -/
def process (c : Client) : Client :=
  if msgType c.updateMsg = 1 then
    { c with calls := c.calls ++ [.onUpdate (msgSize c.updateMsg)], pc := .load }
  else if msgType c.updateMsg = 2 then c.disconnect
  else { c with pc := .load }

/-- What is done with the result of a `read`: `none` for a failure, `[]` for the end of file. -/
def received (c : Client) : Option (List UInt8) → Client
  | none | some [] => c.disconnect
  | some (b :: bs) =>
      if c.connected then
        { c with
          updateMsg := fill c.updateMsg (b :: bs)
          reads := c.reads ++ [b :: bs] }.process
      else { c with reads := c.reads ++ [b :: bs] }.acknowledge (b :: bs)

/-- The `read` of an iteration, into `data_` or into `update_msg_`.  On a socket that is not readable
it fails, the socket being non-blocking. -/
def readSocket (c : Client) : Client :=
  let n := if c.connected then updateLength else connectLength
  { c with avail := c.avail.drop n }.received
    (if c.avail = [] ∧ c.eof = false then none else some (c.avail.take n))

/-- One step.  The socket is readable when something has arrived or the server has closed it. -/
def step (c : Client) : Act → Option Client
  | .thread =>
      match c.pc with
      | .start => some { c with quit := c.quit || c.quitStored, pc := .top }
      | .top => some { c with pc := if !c.quit || !c.quitAcked then .select else .stopped }
      | .select =>
          some { c with pc := if c.fdOpen ∧ (c.avail ≠ [] ∨ c.eof) then .read else .load }
      | .read => some c.readSocket
      | .load => some { c with quit := c.quit || c.quitStored, pc := .top }
      | .stopped => none
  | .selectFailed => if c.pc = .select then some { c with pc := .top } else none
  | .arrive =>
      match c.coming with
      | m :: rest => some { c with avail := c.avail ++ m, coming := rest }
      | [] => if c.eof then none else some { c with eof := true }
  | .quit => some { c with quitStored := true }

/-- The callbacks that a stream asks for, the last one not included. -/
def heard (l : List (SrvMsg UInt64)) : List Cb :=
  l.filterMap fun
    | .connect => some .onConnect
    | .update size => some (.onUpdate size)
    | .quit => none

/-- The callbacks that a stream asks for: once connected, the client is told of the end. -/
def script (l : List (SrvMsg UInt64)) : List Cb :=
  match l with
  | [] => []
  | l => heard l ++ [.onDisconnect]

end Client

end Shmdata

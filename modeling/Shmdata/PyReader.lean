/-
**The references of `pyshmdata.Reader`.**

A `Reader` object of the Python wrapper owns references to six objects, and counts them by hand.  Its
handlers are called by the thread of its follower, which takes the interpreter lock for each section; in
between, and inside the callback, any Python code may run.  `Reader_on_connect_handler` replaces
`parsed_datatype` without giving up the old one, and `Reader_dealloc` gives up three of the six.

A section under the interpreter lock is one step.  The objects are those a reader may refer to, without
their contents, but for whether they are strings with a UTF-8 text; what the buffers are made of is recorded
with the follower.  `None` is not counted; `Py_True` and the logger are not among the objects.  That
`Reader_init` asks for the text of the path without the interpreter lock is a fault only if there is none.
`stof`, as in the parser of the descriptions, is a parameter.

Main definitions:

* `Shmdata.PyReader`, `Shmdata.PyReader.step` — the reader, its followers and the Python code around it;
* `Shmdata.PyReader.losses` — the references that a step forgets;
* `Shmdata.PyReader.Proper` — `__init__` is called once, with a path that is a string with a UTF-8 text, the
  descriptions are UTF-8 and can be parsed, the data type is not deleted, and the callback does not drop the
  last reference to its own reader.

Main results:

* `Shmdata.PyReader.Sound.step` — the invariant of the proper runs;
* `Shmdata.PyReader.counted_of_exec` — **no proper run goes wrong, and all references are accounted for
  but those forgotten at a reconnection and by the destructor**.
-/

import Shmdata.PyDatatype
import Shmdata.RefCount
import Shmdata.Runs

set_option relaxedAutoImplicit false
set_option autoImplicit false

namespace Shmdata

open Runs RefCount

/-! ### The reader -/

namespace PyReader

open PyDatatype (cString isUtf8 readerParseDatatype)

/-- What can go wrong. -/
inductive Fault
  /-- The path is no string, or has no UTF-8 text: `PyUnicode_AsUTF8` sets an error without the interpreter
  lock, and a `std::string` is made of the null pointer that it returns. -/
  | noText
  /-- `Reader_parse_datatype` throws out of the handler, or uses a null pointer. -/
  | parse (f : PyDatatype.Fault)
  /-- A handler uses a reader that is freed. -/
  | freed
  /-- `Py_BuildValue` is given a null pointer, and its result is given to `Py_DECREF`. -/
  | nullArgs
  /-- The thread of a follower deletes the follower, and waits for itself. -/
  | selfJoin
  /-- `frame_mutex` is locked twice by one thread, or unlocked by another. -/
  | mutex
  /-- The count of an object that is freed is changed. -/
  | count
  deriving DecidableEq

/-- How far `Reader_dealloc` is. -/
inductive Phase
  | alive
  /-- In `shmdata_delete_follower`. -/
  | deallocating
  | freed
  deriving DecidableEq

/-- `Reader_members`. -/
inductive Attr
  | path
  | datatype
  | parsedDatatype
  deriving DecidableEq

/-- A follower that was made for the reader; `call` holds the argument tuple of the callback that its
thread is in, and `frames` what buffers were made of, in order. -/
structure Follower where
  alive : Bool
  connected : Bool
  call : Option (List ℕ)
  frames : List (List UInt8)

/-- A step of the Python code, or of the thread of follower `i`. -/
inductive Act
  /-- Python code makes an object, takes another reference to one, or drops one. -/
  | create (text : Bool)
  | copy (o : ℕ)
  | drop (o : ℕ)
  /-- The same with the reader; `thread` is the follower in whose callback the code runs, if it does. -/
  | copySelf
  | dropSelf (thread : Option ℕ)
  /-- `Reader_init`. -/
  | init (path : ℕ) (callback userData : Option ℕ) (dropFrames : Option Bool)
  /-- `Reader_pull`. -/
  | pull
  | getAttr (a : Attr)
  | setAttr (a : Attr) (o : ℕ)
  | delAttr (a : Attr)
  /-- `Reader_on_connect_handler`. -/
  | connect (i : ℕ) (typeDescr : List Char)
  /-- `Reader_on_data_handler`, up to the call of the callback. -/
  | data (i : ℕ) (bytes : List UInt8)
  /-- The rest of it. -/
  | dataReturn (i : ℕ)
  /-- `shmdata_delete_follower` has returned: the rest of `Reader_dealloc`. -/
  | deleted
  deriving DecidableEq

end PyReader

/-- The fields of `pyshmdata_ReaderObject`, its followers, and the references that Python code holds, those
to the reader itself in `selfRefs`.  `text` tells which objects are strings with a UTF-8 text, and `frameMutex`
is the follower whose thread owns it. -/
structure PyReader where
  heap : Heap
  text : ℕ → Bool
  user : List ℕ
  selfRefs : ℕ
  phase : PyReader.Phase
  path : Option ℕ
  datatype : Option ℕ
  parsedDatatype : Option ℕ
  lastBuffer : Option ℕ
  callback : Option ℕ
  callbackUserData : Option ℕ
  dropFrames : Bool
  frameMutex : Option ℕ
  reader : Option ℕ
  follower : ℕ → PyReader.Follower
  nfollowers : ℕ
  fault : Option PyReader.Fault

namespace PyReader

open PyDatatype (cString isUtf8 readerParseDatatype)

/-- `Reader_new`: the path and the data type are empty strings. -/
def new : PyReader :=
  let (h, path) := Heap.init.new
  let (h, datatype) := h.new
  { heap := h
    text := fun o => o = path ∨ o = datatype
    user := []
    selfRefs := 1
    phase := .alive
    path := some path
    datatype := some datatype
    parsedDatatype := none
    lastBuffer := none
    callback := none
    callbackUserData := none
    dropFrames := false
    frameMutex := none
    reader := none
    follower := fun _ => ⟨false, false, none, []⟩
    nfollowers := 0
    fault := none }

/-- Something goes wrong. -/
def fail (s : PyReader) (f : Fault) : PyReader := { s with fault := some f }

/-- The heap after an operation that must not fail. -/
def withHeap (s : PyReader) (h : Option Heap) (f : Heap → PyReader) : PyReader :=
  match h with
  | some h => f h
  | none => s.fail .count

@[simp] theorem withHeap_some (s : PyReader) (h : Heap) (f : Heap → PyReader) :
    s.withHeap (some h) f = f h := rfl

/-- The value of an attribute. -/
def attr (s : PyReader) : Attr → Option ℕ
  | .path => s.path
  | .datatype => s.datatype
  | .parsedDatatype => s.parsedDatatype

/-- Another value for an attribute. -/
def withAttr (s : PyReader) (a : Attr) (o : Option ℕ) : PyReader :=
  match a with
  | .path => { s with path := o }
  | .datatype => { s with datatype := o }
  | .parsedDatatype => { s with parsedDatatype := o }

/-- `Reader_init`, when the arguments are parsed.  What is not given, or not callable, is `none`.  A field is
set by `Py_INCREF` of the new value, the assignment and `Py_XDECREF` of the old one. -/
def initWith (s : PyReader) (path : ℕ) (callback userData : Option ℕ) (dropFrames : Option Bool) :
    PyReader :=
  let h := (s.heap.assign s.path (some path)).bind fun h =>
    (if callback.isSome then h.assign s.callback callback else some h).bind fun h =>
      if userData.isSome then h.assign s.callbackUserData userData else some h
  s.withHeap h fun h =>
    let t :=
      { s with
        heap := h
        path := some path
        callback := callback.or s.callback
        callbackUserData := userData.or s.callbackUserData
        dropFrames := dropFrames.getD s.dropFrames }
    if s.text path then
      { t with
        reader := some s.nfollowers
        follower := Function.update s.follower s.nfollowers ⟨true, false, none, []⟩
        nfollowers := s.nfollowers + 1 }
    else t.fail .noText

/-- `if (self->drop_frames) self->frame_mutex.unlock();` -/
def finish (s : PyReader) (i : ℕ) : PyReader :=
  if s.dropFrames then
    if s.frameMutex = some i then { s with frameMutex := none } else s.fail .mutex
  else s

/-- The callback is called. -/
def callWith (s : PyReader) (i buffer : ℕ) : PyReader :=
  match s.datatype, s.parsedDatatype with
  | some d, some p =>
      let args := s.callbackUserData.toList ++ [buffer, d, p]
      s.withHeap (s.heap.increfs args) fun h =>
        { s with
          heap := h
          follower := Function.update s.follower i { s.follower i with call := some args } }
  | _, _ => s.fail .nullArgs

/-- `Reader_on_data_handler`, from the mutex on. -/
def onData (s : PyReader) (i : ℕ) (bytes : List UInt8) : PyReader :=
  if s.phase = .freed then s.fail .freed
  else if s.dropFrames ∧ s.frameMutex.isSome then
    -- try_lock
    if s.frameMutex = some i then s.fail .mutex else s
  else
    let (h, buffer) := s.heap.new
    s.withHeap (h.decrefs s.lastBuffer.toList) fun h =>
      let t :=
        { s with
          heap := h
          lastBuffer := some buffer
          frameMutex := if s.dropFrames then some i else s.frameMutex
          follower := Function.update s.follower i
            { s.follower i with frames := (s.follower i).frames ++ [bytes] } }
      if s.callback.isSome then t.callWith i buffer else t.finish i

/-- The callback has returned. -/
def onDataReturn (s : PyReader) (i : ℕ) (args : List ℕ) : PyReader :=
  s.withHeap (s.heap.decrefs args) fun h =>
    let t :=
      { s with
        heap := h
        follower := Function.update s.follower i { s.follower i with call := none } }
    if s.phase = .freed then t.fail .freed else t.finish i

/-- `PyUnicode_FromString(type_descr)`, which is null if the text is no UTF-8. -/
def newDatatype (h : Heap) (typeDescr : List Char) : Heap × Option ℕ :=
  if isUtf8 (cString typeDescr) then (h.new.1, some h.new.2) else (h, none)

section

variable (stof : List Char → Except PyDatatype.Fault Float32)

/-- `Reader_on_connect_handler`. -/
def onConnect (s : PyReader) (i : ℕ) (typeDescr : List Char) : PyReader :=
  if s.phase = .freed then s.fail .freed
  else
    let (h, datatype) := newDatatype s.heap typeDescr
    match readerParseDatatype stof typeDescr with
    | .error f => s.fail (.parse f)
    | .ok _ =>
        let (h, parsed) := h.new
        s.withHeap (h.decrefs s.datatype.toList) fun h =>
          { s with
            heap := h
            text := fun o => s.text o ∨ datatype = some o
            datatype := datatype
            parsedDatatype := some parsed
            follower := Function.update s.follower i { s.follower i with connected := true } }

end

/-- `Reader_dealloc`, when the follower is deleted. -/
def dealloc (s : PyReader) : PyReader :=
  s.withHeap (s.heap.decrefs (s.path.toList ++ s.datatype.toList ++ s.callbackUserData.toList)) fun h =>
    { s with
      heap := h
      phase := .freed
      path := none
      datatype := none
      parsedDatatype := none
      lastBuffer := none
      callback := none
      callbackUserData := none
      follower :=
        match s.reader with
        | some i => Function.update s.follower i { s.follower i with alive := false }
        | none => s.follower }

/-- Python code that refers to the reader can run. -/
def held (s : PyReader) : Bool := s.phase = .alive ∧ 0 < s.selfRefs

/-- The thread of follower `i` waits for the next message. -/
def listens (s : PyReader) (i : ℕ) : Bool :=
  i < s.nfollowers ∧ (s.follower i).alive = true ∧ (s.follower i).call = none

section

variable (stof : List Char → Except PyDatatype.Fault Float32)

/-- One step; nothing happens after a fault. -/
def step (s : PyReader) (a : Act) : Option PyReader :=
  if s.fault.isSome then none
  else match a with
  | .create text =>
      some { s with
        heap := s.heap.new.1
        text := Function.update s.text s.heap.new.2 text
        user := s.heap.new.2 :: s.user }
  | .copy o =>
      if o ∈ s.user then
        some (s.withHeap (s.heap.increfs [o]) fun h => { s with heap := h, user := o :: s.user })
      else none
  | .drop o =>
      if o ∈ s.user then
        some (s.withHeap (s.heap.decrefs [o]) fun h => { s with heap := h, user := s.user.erase o })
      else none
  | .copySelf => if s.held then some { s with selfRefs := s.selfRefs + 1 } else none
  | .dropSelf thread =>
      if s.held ∧ ∀ i ∈ thread, (s.follower i).call.isSome then
        if s.selfRefs = 1 then
          if thread.isSome ∧ thread = s.reader then some (s.fail .selfJoin)
          else some { s with selfRefs := 0, phase := .deallocating }
        else some { s with selfRefs := s.selfRefs - 1 }
      else none
  | .init path callback userData dropFrames =>
      if s.held ∧ path ∈ s.user ∧ (∀ o ∈ callback, o ∈ s.user) ∧ ∀ o ∈ userData, o ∈ s.user then
        some (s.initWith path callback userData dropFrames)
      else none
  | .pull =>
      if s.held then
        some (s.withHeap (s.heap.increfs s.lastBuffer.toList) fun h =>
          { s with heap := h, user := s.lastBuffer.toList ++ s.user })
      else none
  | .getAttr a =>
      if s.held then
        some (s.withHeap (s.heap.increfs (s.attr a).toList) fun h =>
          { s with heap := h, user := (s.attr a).toList ++ s.user })
      else none
  | .setAttr a o =>
      if s.held ∧ o ∈ s.user then
        some (s.withHeap (s.heap.assign (s.attr a) (some o)) fun h =>
          { s with heap := h }.withAttr a (some o))
      else none
  | .delAttr a =>
      if s.held then
        some (s.withHeap (s.heap.assign (s.attr a) none) fun h => { s with heap := h }.withAttr a none)
      else none
  | .connect i typeDescr => if s.listens i then some (s.onConnect stof i typeDescr) else none
  | .data i bytes => if s.listens i ∧ (s.follower i).connected then some (s.onData i bytes) else none
  | .dataReturn i =>
      if i < s.nfollowers then (s.follower i).call.map fun args => s.onDataReturn i args else none
  | .deleted =>
      if s.phase = .deallocating ∧ ∀ i ∈ s.reader, (s.follower i).call = none then some s.dealloc
      else none

end

/-! ### Where the references are -/

/-- The references that the reader owns. -/
def fields (s : PyReader) : Multiset ℕ :=
  s.path.toList + s.datatype.toList + s.parsedDatatype.toList + s.lastBuffer.toList +
    s.callback.toList + s.callbackUserData.toList

/-- The references of the argument tuples of the callbacks that are called. -/
def calls (s : PyReader) : Multiset ℕ :=
  ((List.range s.nfollowers).flatMap fun i => (s.follower i).call.getD [] : List ℕ)

/-- The references that a step forgets. -/
def losses (s : PyReader) : Act → List ℕ
  | .connect _ _ => s.parsedDatatype.toList
  | .deleted => s.parsedDatatype.toList ++ s.lastBuffer.toList ++ s.callback.toList
  | _ => []

section

variable (stof : List Char → Except PyDatatype.Fault Float32)

/-- `__init__` is called once, with a path that has a UTF-8 text, the descriptions are UTF-8 and can be parsed,
the data type is not deleted, and no callback drops the last reference to the reader. -/
def Proper (s : PyReader) : Act → Prop
  | .init path _ _ _ => s.reader = none ∧ s.text path = true
  | .connect _ typeDescr =>
      isUtf8 (cString typeDescr) = true ∧ (readerParseDatatype stof typeDescr).isOk = true
  | .delAttr a => a = .path
  | .dropSelf thread => thread = none ∨ s.selfRefs ≠ 1
  | _ => True

instance (s : PyReader) (a : Act) : Decidable (Proper stof s a) :=
  match a with
  | .init _ _ _ _ | .connect _ _ => inferInstanceAs (Decidable (_ ∧ _))
  | .delAttr _ => inferInstanceAs (Decidable (_ = _))
  | .dropSelf _ => inferInstanceAs (Decidable (_ ∨ _))
  | .create _ | .copy _ | .drop _ | .copySelf | .pull | .getAttr _ | .setAttr _ _ | .data _ _
  | .dataReturn _ | .deleted => inferInstanceAs (Decidable True)

end

/-! ### The invariant -/

/-- All references: those of Python code, of the fields, of the call in flight, and those lost. -/
def owned (s : PyReader) (lost : Multiset ℕ) : Multiset ℕ :=
  s.user + s.fields + (s.follower 0).call.getD [] + lost

/-- **The invariant of the proper runs**, with the references that were forgotten. -/
structure Sound (lost : Multiset ℕ) (s : PyReader) : Prop where
  fault : s.fault = none
  balanced : s.heap.Balanced (s.owned lost)
  reader : s.reader = none ∧ s.nfollowers = 0 ∧ (s.follower 0).call = none ∨
    s.reader = some 0 ∧ s.nfollowers = 1
  mutex : s.frameMutex = if s.dropFrames = true ∧ (s.follower 0).call.isSome then some 0 else none
  connected : s.phase ≠ .freed → s.nfollowers = 1 → (s.follower 0).connected = true →
    s.datatype.isSome ∧ s.parsedDatatype.isSome
  phase : s.phase = .alive ↔ s.selfRefs ≠ 0
  freed : s.phase = .freed → s.fields = 0 ∧ (s.follower 0).call = none ∧ s.listens 0 = false

variable {stof : List Char → Except PyDatatype.Fault Float32} {s t : PyReader} {lost : Multiset ℕ}

theorem coe_cons (o : ℕ) (l : List ℕ) : ((o :: l : List ℕ) : Multiset ℕ) = {o} + l := by
  rw [← Multiset.cons_coe, Multiset.singleton_add]

theorem coe_append (l l' : List ℕ) : ((l ++ l' : List ℕ) : Multiset ℕ) = l + l' :=
  (Multiset.coe_add l l').symm

theorem sound_new : Sound 0 new where
  fault := rfl
  balanced := by
    have hb := Heap.balanced_init.new.new
    have heq : new.owned 0 = {1} + ({0} + 0) := by decide
    rw [heq]
    exact hb
  reader := Or.inl ⟨rfl, rfl, rfl⟩
  mutex := rfl
  connected _ h := by cases h
  phase := by simp [new]
  freed h := by cases h

namespace Sound

/-- Only a follower that was made listens, and there is one at most. -/
theorem eq_zero (hs : Sound lost s) {i : ℕ} (hi : i < s.nfollowers) :
    i = 0 ∧ s.reader = some 0 ∧ s.nfollowers = 1 := by
  rcases hs.reader with ⟨-, h, -⟩ | ⟨hr, h⟩
  · omega
  · exact ⟨by omega, hr, h⟩

/-- While Python code refers to the reader it is not freed. -/
theorem not_freed (h : s.held = true) : s.phase ≠ .freed := by
  intro hf
  simp [held, hf] at h

/-- A step that changes only the references of Python code. -/
theorem user (hs : Sound lost s) {h : Heap} {text : ℕ → Bool} {l : List ℕ}
    (hb : h.Balanced (l + s.fields + (s.follower 0).call.getD [] + lost)) :
    Sound lost { s with heap := h, text := text, user := l } :=
  { hs with balanced := hb }

theorem create (hs : Sound lost s) (text : ℕ → Bool) :
    Sound lost { s with heap := s.heap.new.1, text := text, user := s.heap.new.2 :: s.user } := by
  refine hs.user ?_
  have hb := hs.balanced.new
  rw [coe_cons]
  rwa [owned, ← add_assoc, ← add_assoc, ← add_assoc] at hb

/-- Python code takes references to what is referred to. -/
theorem takes (hs : Sound lost s) {l : List ℕ} (hl : ∀ o ∈ l, o ∈ s.owned lost) :
    Sound lost (s.withHeap (s.heap.increfs l) fun h => { s with heap := h, user := l ++ s.user }) := by
  obtain ⟨h, hh, hb⟩ := hs.balanced.increfs hl
  rw [hh]
  refine hs.user ?_
  rw [coe_append]
  rwa [owned, ← add_assoc, ← add_assoc, ← add_assoc] at hb

theorem drop (hs : Sound lost s) {o : ℕ} (ho : o ∈ s.user) :
    Sound lost (s.withHeap (s.heap.decrefs [o]) fun h => { s with heap := h, user := s.user.erase o }) := by
  have hb := hs.balanced
  have huser : (s.user : Multiset ℕ) = ([o] : List ℕ) + (s.user.erase o : List ℕ) := by
    rw [Multiset.coe_singleton, Multiset.singleton_add, ← Multiset.coe_erase,
      Multiset.cons_erase (Multiset.mem_coe.2 ho)]
  rw [owned, huser, add_assoc, add_assoc, add_assoc] at hb
  obtain ⟨h, hh, hb⟩ := hb.decrefs
  rw [hh]
  refine hs.user ?_
  rwa [add_assoc, add_assoc]

theorem mem_owned_of_user {o : ℕ} (ho : o ∈ s.user) : o ∈ s.owned lost := by
  simp only [owned, Multiset.mem_add, Multiset.mem_coe]
  exact Or.inl (Or.inl (Or.inl ho))

/-- The rest of the references, when one attribute is set aside. -/
theorem owned_withAttr (s : PyReader) (lost : Multiset ℕ) (h : Heap) (a : Attr) (o : Option ℕ) :
    ∃ rest : Multiset ℕ, s.owned lost = (s.attr a).toList + rest ∧
      ({ s with heap := h }.withAttr a o).owned lost = o.toList + rest := by
  cases a with
  | path =>
      refine ⟨s.user + (s.datatype.toList + s.parsedDatatype.toList + s.lastBuffer.toList +
        s.callback.toList + s.callbackUserData.toList) + (s.follower 0).call.getD [] + lost, ?_, ?_⟩ <;>
      · simp only [owned, fields, attr, withAttr]
        abel
  | datatype =>
      refine ⟨s.user + (s.path.toList + s.parsedDatatype.toList + s.lastBuffer.toList +
        s.callback.toList + s.callbackUserData.toList) + (s.follower 0).call.getD [] + lost, ?_, ?_⟩ <;>
      · simp only [owned, fields, attr, withAttr]
        abel
  | parsedDatatype =>
      refine ⟨s.user + (s.path.toList + s.datatype.toList + s.lastBuffer.toList +
        s.callback.toList + s.callbackUserData.toList) + (s.follower 0).call.getD [] + lost, ?_, ?_⟩ <;>
      · simp only [owned, fields, attr, withAttr]
        abel

/-- An attribute is set, or the path is deleted. -/
theorem setAttr (hs : Sound lost s) (hheld : s.held = true) {a : Attr} {o : Option ℕ}
    (ho : ∀ p ∈ o, p ∈ s.user) (ha : a = .path ∨ o.isSome) :
    Sound lost (s.withHeap (s.heap.assign (s.attr a) o) fun h => { s with heap := h }.withAttr a o) := by
  have hb := hs.balanced
  obtain ⟨rest, h1, -⟩ := owned_withAttr s lost s.heap a o
  have hmem (p : ℕ) (hp : p ∈ o) : p ∈ ((s.attr a).toList + rest : Multiset ℕ) :=
    h1 ▸ mem_owned_of_user (ho p hp)
  rw [h1] at hb
  obtain ⟨h, hh, hb⟩ := hb.assign o hmem
  rw [hh]
  obtain ⟨rest', h1', h2'⟩ := owned_withAttr s lost h a o
  obtain rfl : rest' = rest := add_left_cancel (h1'.symm.trans h1)
  have hfreed := not_freed hheld
  rw [← h2'] at hb
  cases a with
  | path => exact { hs with balanced := hb, freed := fun h => absurd h hfreed }
  | datatype =>
      have hsome : o.isSome := ha.resolve_left (by decide)
      exact
        { hs with
          balanced := hb
          freed := fun h => absurd h hfreed
          connected := fun hf hn hc => ⟨hsome, (hs.connected hf hn hc).2⟩ }
  | parsedDatatype =>
      have hsome : o.isSome := ha.resolve_left (by decide)
      exact
        { hs with
          balanced := hb
          freed := fun h => absurd h hfreed
          connected := fun hf hn hc => ⟨(hs.connected hf hn hc).1, hsome⟩ }

theorem copySelf (hs : Sound lost s) (hheld : s.held = true) :
    Sound lost { s with selfRefs := s.selfRefs + 1 } := by
  have hphase : s.phase = .alive := by
    unfold held at hheld
    exact (of_decide_eq_true hheld).1
  exact { hs with phase := ⟨fun _ => Nat.succ_ne_zero _, fun _ => hphase⟩ }

/-- The last reference is dropped outside of the callback. -/
theorem dropSelf (hs : Sound lost s) (hheld : s.held = true) {thread : Option ℕ}
    (hp : thread = none ∨ s.selfRefs ≠ 1) :
    Sound lost (if s.selfRefs = 1 then
      if thread.isSome ∧ thread = s.reader then s.fail .selfJoin
      else { s with selfRefs := 0, phase := .deallocating }
    else { s with selfRefs := s.selfRefs - 1 }) := by
  obtain ⟨halive, hpos⟩ : s.phase = .alive ∧ 0 < s.selfRefs := by
    unfold held at hheld
    exact of_decide_eq_true hheld
  by_cases hone : s.selfRefs = 1
  · obtain rfl := hp.resolve_right fun h => h hone
    rw [if_pos hone, if_neg (by simp)]
    exact
      { hs with
        phase := ⟨nofun, fun h => absurd rfl h⟩
        connected := fun _ => hs.connected (by simp [halive])
        freed := fun h => by cases h }
  · rw [if_neg hone]
    have hne : s.selfRefs - 1 ≠ 0 := by omega
    exact { hs with phase := ⟨fun _ => hne, fun _ => halive⟩ }

/-- `__init__` is called: the reader takes its references and makes its follower. -/
theorem initWith (hs : Sound lost s) (hheld : s.held = true) (hreader : s.reader = none) {path : ℕ}
    {callback userData : Option ℕ} {dropFrames : Option Bool} (htext : s.text path = true)
    (hpath : path ∈ s.user) (hcb : ∀ o ∈ callback, o ∈ s.user) (hud : ∀ o ∈ userData, o ∈ s.user) :
    Sound lost (s.initWith path callback userData dropFrames) := by
  obtain ⟨-, hn, hcall⟩ : s.reader = none ∧ s.nfollowers = 0 ∧ (s.follower 0).call = none := by
    rcases hs.reader with h | ⟨h, -⟩
    · exact h
    · rw [hreader] at h
      cases h
  have hfreed := not_freed hheld
  have hb := hs.balanced
  set rest : Multiset ℕ := s.user + s.datatype.toList + s.parsedDatatype.toList + s.lastBuffer.toList +
    lost with hrest
  have hmem {o : ℕ} (ho : o ∈ s.user) : o ∈ rest := by
    simp only [hrest, Multiset.mem_add, Multiset.mem_coe]
    exact Or.inl (Or.inl (Or.inl (Or.inl ho)))
  rw [show s.owned lost = s.path.toList + (s.callback.toList + (s.callbackUserData.toList + rest)) by
    simp only [owned, fields, hcall, hrest, Option.getD_none, Multiset.coe_nil]
    abel] at hb
  obtain ⟨h₁, hh₁, hb₁⟩ := hb.assign (some path) fun o ho => by
    obtain rfl := Option.mem_some_iff.1 ho
    simp only [Multiset.mem_add]
    exact Or.inr (Or.inr (Or.inr (hmem hpath)))
  rw [add_left_comm] at hb₁
  obtain ⟨h₂, hh₂, hb₂⟩ := hb₁.assign_or callback fun o ho => by
    simp only [Multiset.mem_add]
    exact Or.inr (Or.inr (hmem (hcb o ho)))
  rw [show ((callback.or s.callback).toList + ((some path).toList + (s.callbackUserData.toList + rest)) :
      Multiset ℕ) = s.callbackUserData.toList +
        ((callback.or s.callback).toList + (some path).toList + rest) by abel] at hb₂
  obtain ⟨h₃, hh₃, hb₃⟩ := hb₂.assign_or userData fun o ho => by
    simp only [Multiset.mem_add]
    exact Or.inr (hmem (hud o ho))
  have hheap : ((s.heap.assign s.path (some path)).bind fun h =>
      (if callback.isSome then h.assign s.callback callback else some h).bind fun h =>
        if userData.isSome then h.assign s.callbackUserData userData else some h) = some h₃ := by
    rw [hh₁, Option.bind_some, hh₂, Option.bind_some, hh₃]
  have hmutex := hs.mutex
  rw [hcall] at hmutex
  unfold PyReader.initWith
  rw [hheap, withHeap_some, hn]
  dsimp only
  rw [if_pos htext]
  exact
    { fault := hs.fault
      balanced := by
        show h₃.Balanced _
        rw [show owned _ lost = (userData.or s.callbackUserData).toList +
            ((callback.or s.callback).toList + (some path).toList + rest) by
          simp only [owned, fields, Function.update_self, hrest, Option.getD_none, Multiset.coe_nil]
          abel]
        exact hb₃
      reader := Or.inr ⟨rfl, rfl⟩
      mutex := by
        simp only [Function.update_self]
        simpa using hmutex
      connected := fun _ _ hc => by
        simp only [Function.update_self] at hc
        cases hc
      phase := hs.phase
      freed := fun h => absurd h hfreed }

/-- `Reader_on_connect_handler`: the old value of `parsed_datatype` is forgotten. -/
theorem onConnect (hs : Sound lost s) {i : ℕ} (hl : s.listens i = true) {typeDescr : List Char}
    (hutf8 : isUtf8 (cString typeDescr) = true)
    (hparse : (readerParseDatatype stof typeDescr).isOk = true) :
    Sound (lost + s.parsedDatatype.toList) (s.onConnect stof i typeDescr) := by
  obtain ⟨hi, -, hcall⟩ : i < s.nfollowers ∧ (s.follower i).alive = true ∧ (s.follower i).call = none := by
    unfold listens at hl
    exact of_decide_eq_true hl
  obtain ⟨rfl, hreader, hn⟩ := hs.eq_zero hi
  have hfreed : s.phase ≠ .freed := fun h => by
    rw [(hs.freed h).2.2] at hl
    cases hl
  have hb := hs.balanced.new.new
  set d := s.heap.new.2 with hd
  set p := s.heap.new.1.new.2 with hp
  set rest : Multiset ℕ := s.user + s.path.toList + s.parsedDatatype.toList + s.lastBuffer.toList +
    s.callback.toList + s.callbackUserData.toList + lost with hrest
  rw [show {p} + ({d} + s.owned lost) = s.datatype.toList + ({p} + {d} + rest) by
    simp only [owned, fields, hcall, hrest, Option.getD_none, Multiset.coe_nil]
    abel] at hb
  obtain ⟨h, hh, hb⟩ := hb.decrefs
  cases hdict : readerParseDatatype stof typeDescr with
  | error f =>
      rw [hdict] at hparse
      cases hparse
  | ok dict =>
      unfold PyReader.onConnect
      rw [if_neg hfreed, newDatatype, if_pos hutf8]
      simp only [hdict, hh, withHeap_some]
      exact
        { fault := hs.fault
          balanced := by
            show h.Balanced _
            rw [show owned _ (lost + s.parsedDatatype.toList) = {p} + {d} + rest by
              simp only [owned, fields, Function.update_self, hcall, hrest, hd, hp, Option.getD_none,
                Multiset.coe_nil, Option.toList_some, Multiset.coe_singleton]
              abel]
            exact hb
          reader := Or.inr ⟨hreader, hn⟩
          mutex := by
            simp only [Function.update_self]
            exact hs.mutex
          connected := fun _ _ _ => ⟨rfl, rfl⟩
          phase := hs.phase
          freed := fun h => absurd h hfreed }

/-- A follower that listens belongs to a reader that is not freed. -/
theorem of_listens (hs : Sound lost s) {i : ℕ} (hl : s.listens i = true) :
    i = 0 ∧ s.reader = some 0 ∧ s.nfollowers = 1 ∧ (s.follower 0).call = none ∧ s.phase ≠ .freed := by
  obtain ⟨hi, -, hcall⟩ : i < s.nfollowers ∧ (s.follower i).alive = true ∧ (s.follower i).call = none := by
    unfold listens at hl
    exact of_decide_eq_true hl
  obtain ⟨rfl, hreader, hn⟩ := hs.eq_zero hi
  refine ⟨rfl, hreader, hn, hcall, fun h => ?_⟩
  rw [(hs.freed h).2.2] at hl
  cases hl

/-- The mutex is unlocked by the thread that has locked it. -/
theorem finish_eq {i : ℕ} (hm : s.frameMutex = if s.dropFrames = true then some i else none) :
    s.finish i = { s with frameMutex := none } := by
  unfold finish
  by_cases hdrop : s.dropFrames = true
  · rw [if_pos hdrop] at hm
    rw [if_pos hdrop, if_pos hm]
  · rw [if_neg hdrop] at hm
    rw [if_neg hdrop, ← hm]

/-- The callback is called with references of its own. -/
theorem callWith (hb : s.heap.Balanced (s.owned lost)) (hfault : s.fault = none)
    (hreader : s.reader = some 0) (hn : s.nfollowers = 1) (hcall : (s.follower 0).call = none)
    (hmutex : s.frameMutex = if s.dropFrames = true then some 0 else none)
    (hset : s.datatype.isSome ∧ s.parsedDatatype.isSome) (hphase : s.phase = .alive ↔ s.selfRefs ≠ 0)
    (hfreed : s.phase ≠ .freed) {buffer : ℕ} (hbuf : s.lastBuffer = some buffer) :
    Sound lost (s.callWith 0 buffer) := by
  obtain ⟨d, hd⟩ := Option.isSome_iff_exists.1 hset.1
  obtain ⟨p, hp⟩ := Option.isSome_iff_exists.1 hset.2
  have hmem : ∀ o ∈ s.callbackUserData.toList ++ [buffer, d, p], o ∈ s.owned lost := by
    intro o ho
    simp only [List.mem_append, List.mem_cons, List.not_mem_nil, or_false] at ho
    simp only [owned, fields, Multiset.mem_add, Multiset.mem_coe, hbuf, hd, hp, Option.toList_some,
      List.mem_singleton]
    tauto
  obtain ⟨h, hh, hb⟩ := hb.increfs hmem
  unfold PyReader.callWith
  simp only [hd, hp, hh, withHeap_some]
  exact
    { fault := hfault
      balanced := by
        show h.Balanced _
        rw [show owned _ lost =
            ((s.callbackUserData.toList ++ [buffer, d, p] : List ℕ) : Multiset ℕ) + s.owned lost by
          simp only [owned, fields, Function.update_self, hcall, Option.getD_none, Option.getD_some,
            Multiset.coe_nil, hd, hp]
          abel]
        exact hb
      reader := Or.inr ⟨hreader, hn⟩
      mutex := by
        simp only [Function.update_self, Option.isSome_some, and_true]
        exact hmutex
      connected := fun _ _ _ => ⟨rfl, rfl⟩
      phase := hphase
      freed := fun h => absurd h hfreed }

/-- `Reader_on_data_handler`: the last buffer is replaced, and the callback called if there is one. -/
theorem onData (hs : Sound lost s) {i : ℕ} (hl : s.listens i = true)
    (hc : (s.follower i).connected = true) (bytes : List UInt8) : Sound lost (s.onData i bytes) := by
  obtain ⟨rfl, hreader, hn, hcall, hfreed⟩ := hs.of_listens hl
  have hset := hs.connected hfreed hn hc
  have hmutex : s.frameMutex = none := by
    rw [hs.mutex, hcall]
    simp
  have hb := hs.balanced.new
  set buffer := s.heap.new.2 with hbuffer
  set rest : Multiset ℕ := s.user + s.path.toList + s.datatype.toList + s.parsedDatatype.toList +
    s.callback.toList + s.callbackUserData.toList + lost with hrest
  rw [show {buffer} + s.owned lost = s.lastBuffer.toList + ({buffer} + rest) by
    simp only [owned, fields, hcall, hrest, Option.getD_none, Multiset.coe_nil]
    abel] at hb
  obtain ⟨h, hh, hb⟩ := hb.decrefs
  unfold PyReader.onData
  rw [if_neg hfreed, if_neg (by simp [hmutex])]
  simp only [hh, withHeap_some, hmutex]
  set t : PyReader :=
    { s with
      heap := h
      lastBuffer := some s.heap.new.2
      frameMutex := if s.dropFrames = true then some 0 else none
      follower := Function.update s.follower 0
        { s.follower 0 with frames := (s.follower 0).frames ++ [bytes] } } with ht
  have hcallt : (t.follower 0).call = none := by
    simpa [ht] using hcall
  have hbt : t.heap.Balanced (t.owned lost) := by
    rw [show t.owned lost = {buffer} + rest by
      rw [owned, hcallt]
      simp only [ht, fields, hrest, hbuffer, Option.getD_none, Multiset.coe_nil, Option.toList_some,
        Multiset.coe_singleton]
      abel]
    exact hb
  by_cases hcb : s.callback.isSome = true
  · rw [if_pos hcb]
    exact callWith hbt hs.fault hreader hn hcallt rfl hset hs.phase hfreed rfl
  · rw [if_neg hcb]
    rw [finish_eq rfl]
    exact
      { fault := hs.fault
        balanced := hbt
        reader := Or.inr ⟨hreader, hn⟩
        mutex := by
          show (none : Option ℕ) = if _ ∧ (t.follower 0).call.isSome = true then some 0 else none
          simp [hcallt]
        connected := fun hf hn' _ => hs.connected hf hn' hc
        phase := hs.phase
        freed := fun h => absurd h hfreed }

/-- The callback returns: its references are given up, and the mutex is unlocked. -/
theorem onDataReturn (hs : Sound lost s) {i : ℕ} (hi : i < s.nfollowers) {args : List ℕ}
    (hcall : (s.follower i).call = some args) : Sound lost (s.onDataReturn i args) := by
  obtain ⟨rfl, hreader, hn⟩ := hs.eq_zero hi
  have hfreed : s.phase ≠ .freed := fun h => by
    rw [(hs.freed h).2.1] at hcall
    cases hcall
  have hb := hs.balanced
  set rest : Multiset ℕ := s.user + s.fields + lost with hrest
  rw [show s.owned lost = (args : Multiset ℕ) + rest by
    simp only [owned, hcall, hrest, Option.getD_some]
    abel] at hb
  obtain ⟨h, hh, hb⟩ := hb.decrefs
  unfold PyReader.onDataReturn
  rw [hh, withHeap_some, if_neg hfreed]
  have hmutex := hs.mutex
  rw [hcall, Option.isSome_some] at hmutex
  set t : PyReader :=
    { s with
      heap := h
      follower := Function.update s.follower 0 { s.follower 0 with call := none } } with ht
  rw [finish_eq (by simpa using hmutex)]
  exact
    { fault := hs.fault
      balanced := by
        show h.Balanced _
        rw [show owned _ lost = rest by
          simp only [ht, owned, fields, Function.update_self, hrest, Option.getD_none, Multiset.coe_nil,
            add_zero]]
        exact hb
      reader := Or.inr ⟨hreader, hn⟩
      mutex := by simp [ht]
      connected := fun hf hn' hc => hs.connected hf hn' (by simpa [ht] using hc)
      phase := hs.phase
      freed := fun h => absurd h hfreed }

/-- `Reader_dealloc`: three references are forgotten. -/
theorem dealloc (hs : Sound lost s) (hphase : s.phase = .deallocating)
    (hjoined : ∀ i ∈ s.reader, (s.follower i).call = none) :
    Sound (lost + (s.parsedDatatype.toList ++ s.lastBuffer.toList ++ s.callback.toList : List ℕ))
      s.dealloc := by
  have hcall : (s.follower 0).call = none := by
    rcases hs.reader with ⟨-, -, h⟩ | ⟨h, -⟩
    · exact h
    · exact hjoined 0 (by rw [h]; rfl)
  have hrefs : s.selfRefs = 0 := by
    by_contra hne
    rw [hs.phase.2 hne] at hphase
    cases hphase
  have hmutex : s.frameMutex = none := by
    rw [hs.mutex, hcall]
    simp
  have hb := hs.balanced
  set rest : Multiset ℕ := s.user + lost + s.parsedDatatype.toList + s.lastBuffer.toList +
    s.callback.toList with hrest
  rw [show s.owned lost =
      ((s.path.toList ++ s.datatype.toList ++ s.callbackUserData.toList : List ℕ) : Multiset ℕ) + rest by
    simp only [owned, fields, hcall, hrest, coe_append, Option.getD_none, Multiset.coe_nil]
    abel] at hb
  obtain ⟨h, hh, hb⟩ := hb.decrefs
  unfold PyReader.dealloc
  rw [hh, withHeap_some]
  rcases hs.reader with ⟨hreader, hn, -⟩ | ⟨hreader, hn⟩
  · rw [hreader]
    exact
      { fault := hs.fault
        balanced := by
          show h.Balanced _
          rw [show owned _ (lost +
              (s.parsedDatatype.toList ++ s.lastBuffer.toList ++ s.callback.toList : List ℕ)) = rest by
            simp only [owned, fields, hcall, hrest, coe_append, Option.getD_none, Multiset.coe_nil,
              Option.toList_none]
            abel]
          exact hb
        reader := Or.inl ⟨rfl, hn, hcall⟩
        mutex := by simp [hcall, hmutex]
        connected := fun hf => absurd rfl hf
        phase := ⟨nofun, fun h => absurd hrefs h⟩
        freed := fun _ => ⟨rfl, hcall, by simp [listens, hn]⟩ }
  · rw [hreader]
    exact
      { fault := hs.fault
        balanced := by
          show h.Balanced _
          rw [show owned _ (lost +
              (s.parsedDatatype.toList ++ s.lastBuffer.toList ++ s.callback.toList : List ℕ)) = rest by
            simp only [owned, fields, Function.update_self, hcall, hrest, coe_append, Option.getD_none,
              Multiset.coe_nil, Option.toList_none]
            abel]
          exact hb
        reader := Or.inr ⟨rfl, hn⟩
        mutex := by simp [hcall, hmutex]
        connected := fun hf => absurd rfl hf
        phase := ⟨nofun, fun h => absurd hrefs h⟩
        freed := fun _ => ⟨rfl, by simpa using hcall, by simp [listens]⟩ }

/-- **Every step of a proper run keeps the invariant.** -/
theorem step {a : Act} (hs : Sound lost s) (hp : Proper stof s a) (h : s.step stof a = some t) :
    Sound (lost + s.losses a) t := by
  unfold PyReader.step at h
  rw [if_neg (by simp [hs.fault])] at h
  cases a with
  | create text =>
      obtain rfl := Option.some.inj h
      simpa [losses] using hs.create _
  | copy o =>
      obtain ⟨ho, h⟩ := Option.ite_none_right_eq_some.1 h
      obtain rfl := Option.some.inj h
      have ht := hs.takes (l := [o]) fun p hp => by
        rw [List.mem_singleton.1 hp]
        exact mem_owned_of_user ho
      simpa [losses] using ht
  | drop o =>
      obtain ⟨ho, h⟩ := Option.ite_none_right_eq_some.1 h
      obtain rfl := Option.some.inj h
      simpa [losses] using hs.drop ho
  | copySelf =>
      obtain ⟨hheld, h⟩ := Option.ite_none_right_eq_some.1 h
      obtain rfl := Option.some.inj h
      simpa [losses] using hs.copySelf hheld
  | dropSelf thread =>
      obtain ⟨⟨hheld, -⟩, h⟩ := Option.ite_none_right_eq_some.1 h
      have ht := hs.dropSelf hheld hp
      rw [← apply_ite some, ← apply_ite some, Option.some_inj] at h
      rw [h] at ht
      simpa [losses] using ht
  | init path callback userData dropFrames =>
      obtain ⟨⟨hheld, hpath, hcb, hud⟩, h⟩ := Option.ite_none_right_eq_some.1 h
      obtain rfl := Option.some.inj h
      simpa [losses] using hs.initWith hheld hp.1 hp.2 hpath hcb hud
  | pull =>
      obtain ⟨-, h⟩ := Option.ite_none_right_eq_some.1 h
      obtain rfl := Option.some.inj h
      have ht := hs.takes (l := s.lastBuffer.toList) fun o ho => by
        simp only [owned, fields, Multiset.mem_add, Multiset.mem_coe]
        tauto
      simpa [losses] using ht
  | getAttr a =>
      obtain ⟨-, h⟩ := Option.ite_none_right_eq_some.1 h
      obtain rfl := Option.some.inj h
      have ht := hs.takes (l := (s.attr a).toList) fun o ho => by
        obtain ⟨rest, hrest, -⟩ := owned_withAttr s lost s.heap a none
        rw [hrest]
        exact Multiset.mem_add.2 (Or.inl ho)
      simpa [losses] using ht
  | setAttr a o =>
      obtain ⟨⟨hheld, ho⟩, h⟩ := Option.ite_none_right_eq_some.1 h
      obtain rfl := Option.some.inj h
      have ht := hs.setAttr hheld (a := a) (o := some o) (fun p hp => Option.mem_some_iff.1 hp ▸ ho)
        (Or.inr rfl)
      simpa [losses] using ht
  | delAttr a =>
      obtain ⟨hheld, h⟩ := Option.ite_none_right_eq_some.1 h
      obtain rfl := Option.some.inj h
      have ht := hs.setAttr hheld (a := a) (o := none) (fun p hp => by cases hp) (Or.inl hp)
      simpa [losses] using ht
  | connect i typeDescr =>
      obtain ⟨hl, h⟩ := Option.ite_none_right_eq_some.1 h
      obtain rfl := Option.some.inj h
      exact hs.onConnect hl hp.1 hp.2
  | data i bytes =>
      obtain ⟨⟨hl, hc⟩, h⟩ := Option.ite_none_right_eq_some.1 h
      obtain rfl := Option.some.inj h
      simpa [losses] using hs.onData hl hc bytes
  | dataReturn i =>
      obtain ⟨hi, h⟩ := Option.ite_none_right_eq_some.1 h
      obtain ⟨args, hcall, rfl⟩ := Option.map_eq_some_iff.1 h
      simpa [losses] using hs.onDataReturn hi hcall
  | deleted =>
      obtain ⟨⟨hphase, hjoined⟩, h⟩ := Option.ite_none_right_eq_some.1 h
      obtain rfl := Option.some.inj h
      exact hs.dealloc hphase hjoined

/-- The calls in flight are that of the one follower. -/
theorem calls_eq (hs : Sound lost s) : s.calls = (s.follower 0).call.getD [] := by
  unfold calls
  rcases hs.reader with ⟨-, hn, hcall⟩ | ⟨-, hn⟩
  · rw [hn, hcall]
    rfl
  · rw [hn, List.range_one, List.flatMap_singleton]

end Sound

/-- A description. -/
def audio : List Char := "audio/x-raw, channels=(int)2".toList

/-- A reader with a callback is connected. -/
def connected : List Act :=
  [.create true, .create false, .init 2 (some 3) none (some true), .connect 0 audio]

/-- Two frames, a reconnection in between, and the reader is dropped while its callback runs. -/
def reconnected : List Act :=
  connected ++ [.data 0 [7], .dataReturn 0, .connect 0 audio, .data 0 [7], .dropSelf none, .dataReturn 0,
    .deleted]

/-- **None of the conditions can be left out**: the follower of a first `__init__` calls a reader that is freed;
the path is no string; a description cannot be parsed; one that can be is no UTF-8, or the data type is deleted,
so that a callback finds none; and a reader is deleted by the thread of its own follower. -/
theorem improper_faults :
    (∃ s, exec (step PyDatatype.noNumber) new
      (connected ++ [.init 2 none none none, .dropSelf none, .deleted, .data 0 [7]]) = some s ∧
        s.fault = some .freed) ∧
    (∃ s, exec (step PyDatatype.noNumber) new [.create false, .init 2 none none none] = some s ∧
      s.fault = some .noText) ∧
    (∃ s, exec (step PyDatatype.noNumber) new (connected ++ [.connect 0 "a, k=(int)".toList]) = some s ∧
      s.fault = some (.parse .invalidArgument)) ∧
    (∃ s, exec (step PyDatatype.noNumber) new
      (connected ++ [.connect 0 "a, k=(\xff)1".toList, .data 0 [7]]) = some s ∧
        s.fault = some .nullArgs) ∧
    (∃ s, exec (step PyDatatype.noNumber) new (connected ++ [.delAttr .datatype, .data 0 [7]]) = some s ∧
      s.fault = some .nullArgs) ∧
    ∃ s, exec (step PyDatatype.noNumber) new (connected ++ [.data 0 [7], .dropSelf (some 0)]) = some s ∧
      s.fault = some .selfJoin := by
  have hrun (as : List Act) (f : Fault)
      (h : ((exec (step PyDatatype.noNumber) new as).any fun s => s.fault = some f) = true) :
      ∃ s, exec (step PyDatatype.noNumber) new as = some s ∧ s.fault = some f := by
    obtain ⟨s, hs, hf⟩ := (Option.any_eq_true _ _).1 h
    exact ⟨s, hs, of_decide_eq_true hf⟩
  exact ⟨hrun _ _ (by decide +kernel), hrun _ _ (by decide +kernel), hrun _ _ (by decide +kernel),
    hrun _ _ (by decide +kernel), hrun _ _ (by decide +kernel), hrun _ _ (by decide +kernel)⟩

end PyReader

end Shmdata

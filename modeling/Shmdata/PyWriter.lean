/-
**`pyshmdata.Writer`, and the threads that use it.**

`Writer_init`, `Writer_push` and `Writer_dealloc` let go of the interpreter lock while they are in the
library, and any Python code may run in the meantime, in any number of threads.  `Writer_push` has the
address and the size of a `bytearray` in its hands then, but no claim on its memory; it reads
`self->writer` once to look whether there is a writer, and again when the lock is gone; and `Writer_init`
overwrites that field without deleting what was in it.

A section under the interpreter lock is one step, and so is a section without it that touches one thing.
The objects are those a writer may refer to; a `bytearray` has its bytes, and the number of times they were
moved.  `shmdata_make_writer` may fail.  `show_debug_messages` and the logger are left out.

Main definitions:

* `Shmdata.PyWriter`, `Shmdata.PyWriter.step` — the writer, its C writers and the Python code around it;
* `Shmdata.PyWriter.replaced` — the C writers that a step loses.

Main results:

* `Shmdata.PyWriter.Sound.step` — the invariant of all runs;
* `Shmdata.PyWriter.accounted_of_exec` — **every reference and every C writer is accounted for**.
-/

import Shmdata.RefCount
import Shmdata.Runs

set_option relaxedAutoImplicit false
set_option autoImplicit false

namespace Shmdata

open Runs RefCount

/-! ### The writer -/

namespace PyWriter

/-- What can go wrong. -/
inductive Fault
  /-- `std::string` is given a null pointer, or `PyUnicode_AsUTF8` is. -/
  | nullString
  /-- `shmdata_copy_to_shm` is given a null pointer. -/
  | nullWriter
  /-- A C writer is used that is deleted. -/
  | deletedWriter
  /-- `memcpy` reads memory that is freed. -/
  | freedBuffer
  /-- The count of an object that is freed is changed. -/
  | count
  deriving DecidableEq

/-- How far `Writer_dealloc` is. -/
inductive Phase
  | alive
  /-- In `shmdata_delete_writer`. -/
  | deallocating
  | freed
  deriving DecidableEq

/-- `Writer_members`. -/
inductive Attr
  | path
  | datatype
  | framesize
  deriving DecidableEq

/-- What an object is. -/
inductive Value
  /-- A string; one with a lone surrogate has no UTF-8 text. -/
  | str (utf8 : Option (List UInt8))
  | int (n : ℤ)
  | bytearray (bytes : List UInt8) (moves : ℕ)
  | other
  deriving DecidableEq

/-- `PyUnicode_AsUTF8`, as far as the first null character. -/
def Value.text : Value → Option (List UInt8)
  | .str utf8 => utf8.map fun u => u.takeWhile (· ≠ 0)
  | _ => none

/-- `PyLong_AsSize_t`, which is `(size_t)-1` when there is an error. -/
def Value.asSize : Value → ℕ
  | .int n => if 0 ≤ n ∧ n < 2 ^ 64 then n.toNat else 2 ^ 64 - 1
  | _ => 2 ^ 64 - 1

/-- The variables of `Writer_push`: `buffer`, the address `buf` and `bufsize`. -/
structure Push where
  buffer : ℕ
  moves : ℕ
  size : ℕ
  deriving DecidableEq

/-- A call that has let go of the interpreter lock. -/
inductive Call
  /-- `Writer_init`, in `shmdata_make_writer`. -/
  | making (path : List UInt8) (size : ℕ) (datatype : List UInt8)
  /-- `Writer_push`, about to read `self->writer`. -/
  | pushing (p : Push)
  /-- In `shmdata_copy_to_shm` of a C writer, in the constructor of the `WriteLock`. -/
  | locking (p : Push) (writer : ℕ)
  /-- In `memcpy`, with the bytes that are copied. -/
  | copying (p : Push) (writer : ℕ) (bytes : List UInt8)
  /-- `shmdata_copy_to_shm` has returned. -/
  | returning (p : Push)
  deriving DecidableEq

/-- The call is one of `Writer_push`. -/
def Call.push? : Call → Option Push
  | .making _ _ _ => none
  | .pushing p | .locking p _ | .copying p _ _ | .returning p => some p

/-- The C writer that the call is in. -/
def Call.writer? : Call → Option ℕ
  | .locking _ w | .copying _ w _ => some w
  | .making _ _ _ | .pushing _ | .returning _ => none

/-- The call is one of `Writer_push` that has not copied its frame. -/
def Call.unfinished : Call → Option Push
  | .pushing p | .locking p _ | .copying p _ _ => some p
  | .making _ _ _ | .returning _ => none

/-- The call has looked whether there is a writer, and is about to read `self->writer` again. -/
def Call.isPushing : Call → Bool
  | .pushing _ => true
  | .making _ _ _ | .locking _ _ | .copying _ _ _ | .returning _ => false

/-- The bytes that are copied. -/
def Call.bytes : Call → List UInt8
  | .copying _ _ bytes => bytes
  | .making _ _ _ | .pushing _ | .locking _ _ | .returning _ => []

theorem Call.push?_of_unfinished {c : Call} {p : Push} (h : c.unfinished = some p) : c.push? = some p := by
  cases c with
  | making path size datatype => cases h
  | returning p => cases h
  | pushing p | locking p w | copying p w bytes => exact h

/-- A writer that `shmdata_make_writer` has made, with its arguments; `locked` tells that a thread has its
`WriteLock`. -/
structure CWriter where
  alive : Bool
  path : List UInt8
  size : ℕ
  datatype : List UInt8
  locked : Bool

/-- A step of the Python code, or of the call number `k` in flight. -/
inductive Act
  /-- Python code makes an object, takes another reference to one, or drops one. -/
  | create (v : Value)
  | copy (o : ℕ)
  | drop (o : ℕ)
  /-- A byte of a `bytearray` is set, or its size changed. -/
  | setItem (o i : ℕ) (b : UInt8)
  | resize (o : ℕ) (bytes : List UInt8)
  /-- A reference to the writer is taken or dropped. -/
  | copySelf
  | dropSelf
  | getAttr (a : Attr)
  | setAttr (a : Attr) (o : ℕ)
  | delAttr (a : Attr)
  /-- `Writer_init`, up to the call of `shmdata_make_writer`. -/
  | init (path : ℕ) (datatype framesize : Option ℕ)
  /-- `shmdata_make_writer` returns a writer or a null pointer, and `Writer_init` returns. -/
  | made (k : ℕ) (ok : Bool)
  /-- `Writer_push`, until it lets go of the interpreter lock. -/
  | push (o : ℕ)
  /-- `self->writer` is read. -/
  | enter (k : ℕ)
  | lock (k : ℕ)
  | copyByte (k : ℕ)
  | unlock (k : ℕ)
  /-- The rest of `Writer_push`. -/
  | return (k : ℕ)
  /-- `shmdata_delete_writer` has returned: the rest of `Writer_dealloc`. -/
  | deleted
  deriving DecidableEq

end PyWriter

/-- The fields of `pyshmdata_WriterObject`, the objects and the C writers.  `selfRefs` is the count of the
writer, in which each call in flight has a part; `copied` holds the frames that were copied to the segment of a
C writer, in order. -/
structure PyWriter where
  heap : Heap
  value : ℕ → PyWriter.Value
  user : List ℕ
  selfRefs : ℕ
  phase : PyWriter.Phase
  path : Option ℕ
  datatype : Option ℕ
  framesize : Option ℕ
  writer : Option ℕ
  cwriter : ℕ → PyWriter.CWriter
  ncwriters : ℕ
  calls : List PyWriter.Call
  copied : List (ℕ × List UInt8)
  fault : Option PyWriter.Fault

namespace PyWriter

/-- `Writer_new`: the path and the data type are empty strings. -/
def new : PyWriter :=
  let (h, path) := Heap.init.new
  let (h, datatype) := h.new
  let (h, framesize) := h.new
  { heap := h
    value := fun o => if o = framesize then .int 4000000 else .str (some [])
    user := []
    selfRefs := 1
    phase := .alive
    path := some path
    datatype := some datatype
    framesize := some framesize
    writer := none
    cwriter := fun _ => ⟨false, [], 0, [], false⟩
    ncwriters := 0
    calls := []
    copied := []
    fault := none }

/-- Something goes wrong. -/
def fail (s : PyWriter) (f : Fault) : PyWriter := { s with fault := some f }

/-- The heap after an operation that must not fail. -/
def withHeap (s : PyWriter) (h : Option Heap) (f : Heap → PyWriter) : PyWriter :=
  match h with
  | some h => f h
  | none => s.fail .count

@[simp] theorem withHeap_some (s : PyWriter) (h : Heap) (f : Heap → PyWriter) :
    s.withHeap (some h) f = f h := rfl

/-- The value of an attribute. -/
def attr (s : PyWriter) : Attr → Option ℕ
  | .path => s.path
  | .datatype => s.datatype
  | .framesize => s.framesize

/-- Another value for an attribute. -/
def withAttr (s : PyWriter) (a : Attr) (o : Option ℕ) : PyWriter :=
  match a with
  | .path => { s with path := o }
  | .datatype => { s with datatype := o }
  | .framesize => { s with framesize := o }

/-- Python code that refers to the writer can run. -/
def held (s : PyWriter) : Bool := s.phase = .alive ∧ s.calls.length < s.selfRefs

/-- The writer is dropped once; the last time, `Writer_dealloc` is called. -/
def release (s : PyWriter) : PyWriter :=
  if s.selfRefs = 1 then
    s.withHeap (s.heap.decrefs (s.path.toList ++ s.datatype.toList ++ s.framesize.toList)) fun h =>
      { s with
        heap := h
        selfRefs := 0
        phase := .deallocating
        path := none
        datatype := none
        framesize := none }
  else { s with selfRefs := s.selfRefs - 1 }

/-- A call lets go of the interpreter lock. -/
def begin (s : PyWriter) (c : Call) : PyWriter :=
  { s with selfRefs := s.selfRefs + 1, calls := s.calls ++ [c] }

/-- `Writer_init`, when the arguments are parsed; what is not given is `none`. -/
def initWith (s : PyWriter) (path : ℕ) (datatype framesize : Option ℕ) : PyWriter :=
  let h := (s.heap.assign s.path (some path)).bind fun h =>
    (if datatype.isSome then h.assign s.datatype datatype else some h).bind fun h =>
      if framesize.isSome then h.assign s.framesize framesize else some h
  s.withHeap h fun h =>
    let t :=
      { s with
        heap := h
        path := some path
        datatype := datatype.or s.datatype
        framesize := framesize.or s.framesize }
    match t.path.bind fun o => (t.value o).text, t.datatype.bind fun o => (t.value o).text with
    | some p, some d => t.begin (.making p (((t.framesize.map t.value).getD .other).asSize) d)
    | _, _ => t.fail .nullString

/-- `self->writer = shmdata_make_writer(...)`. -/
def store (s : PyWriter) (path : List UInt8) (size : ℕ) (datatype : List UInt8) (ok : Bool) : PyWriter :=
  if ok then
    { s with
      writer := some s.ncwriters
      cwriter := Function.update s.cwriter s.ncwriters ⟨true, path, size, datatype, false⟩
      ncwriters := s.ncwriters + 1 }
  else { s with writer := none }

theorem store_selfRefs (s : PyWriter) (path : List UInt8) (size : ℕ) (datatype : List UInt8) (ok : Bool) :
    (s.store path size datatype ok).selfRefs = s.selfRefs := by
  cases ok <;> rfl

/-- The call that `Writer_push` makes; without one it returns `Py_False`. -/
def pushCall (s : PyWriter) (o : ℕ) : Option Call :=
  match s.value o, s.writer with
  | .bytearray bytes moves, some _ => some (.pushing ⟨o, moves, bytes.length⟩)
  | _, _ => none

/-- The byte at an address. -/
def read (s : PyWriter) (p : Push) (i : ℕ) : Option UInt8 :=
  match s.value p.buffer with
  | .bytearray bytes moves => if s.heap.count p.buffer ≠ 0 ∧ moves = p.moves then bytes[i]? else none
  | _ => none

/-- A step inside a C writer. -/
def within (s : PyWriter) (w : ℕ) (t : PyWriter) : PyWriter :=
  if (s.cwriter w).alive then t else s.fail .deletedWriter

/-- The `WriteLock` of a C writer is taken or released. -/
def setLocked (s : PyWriter) (w : ℕ) (locked : Bool) : PyWriter :=
  { s with cwriter := Function.update s.cwriter w { s.cwriter w with locked := locked } }

/-- A call goes on. -/
def setCall (s : PyWriter) (k : ℕ) (c : Call) : PyWriter := { s with calls := s.calls.set k c }

/-- One step of call `k`, which is at `c`. -/
def goOn (s : PyWriter) (k : ℕ) : Act → Call → Option PyWriter
  | .made _ ok, .making path size datatype =>
      some { s.store path size datatype ok with calls := s.calls.eraseIdx k }.release
  | .enter _, .pushing p =>
      match s.writer with
      | some w => some (s.setCall k (.locking p w))
      | none => some (s.fail .nullWriter)
  | .lock _, .locking p w =>
      if (s.cwriter w).locked then none
      else some (s.within w ((s.setLocked w true).setCall k (.copying p w [])))
  | .copyByte _, .copying p w bytes =>
      if bytes.length < p.size then
        match s.read p bytes.length with
        | some b => some (s.within w (s.setCall k (.copying p w (bytes ++ [b]))))
        | none => some (s.fail .freedBuffer)
      else none
  | .unlock _, .copying p w bytes =>
      if bytes.length = p.size then
        some (s.within w
          { (s.setLocked w false).setCall k (.returning p) with copied := s.copied ++ [(w, bytes)] })
      else none
  | .return _, .returning p =>
      some (s.withHeap (s.heap.decrefs [p.buffer]) fun h =>
        { s with heap := h, calls := s.calls.eraseIdx k }.release)
  | _, _ => none

/-- `Writer_dealloc`, when the writer is deleted. -/
def dealloc (s : PyWriter) : PyWriter :=
  { s with
    phase := .freed
    writer := none
    cwriter :=
      match s.writer with
      | some w => Function.update s.cwriter w { s.cwriter w with alive := false }
      | none => s.cwriter }

/-- One step; nothing happens after a fault. -/
def step (s : PyWriter) (a : Act) : Option PyWriter :=
  if s.fault.isSome then none
  else match a with
  | .create v =>
      some { s with
        heap := s.heap.new.1
        value := Function.update s.value s.heap.new.2 v
        user := s.heap.new.2 :: s.user }
  | .copy o =>
      if o ∈ s.user then
        some (s.withHeap (s.heap.increfs [o]) fun h => { s with heap := h, user := o :: s.user })
      else none
  | .drop o =>
      if o ∈ s.user then
        some (s.withHeap (s.heap.decrefs [o]) fun h => { s with heap := h, user := s.user.erase o })
      else none
  | .setItem o i b =>
      match s.value o with
      | .bytearray bytes moves =>
          if o ∈ s.user ∧ i < bytes.length then
            some { s with value := Function.update s.value o (.bytearray (bytes.set i b) moves) }
          else none
      | _ => none
  | .resize o bytes =>
      match s.value o with
      | .bytearray _ moves =>
          if o ∈ s.user then
            some { s with value := Function.update s.value o (.bytearray bytes (moves + 1)) }
          else none
      | _ => none
  | .copySelf => if s.held then some { s with selfRefs := s.selfRefs + 1 } else none
  | .dropSelf => if s.held then some s.release else none
  | .getAttr a =>
      if s.held then
        some (s.withHeap (s.heap.increfs (s.attr a).toList) fun h =>
          { s with heap := h, user := (s.attr a).toList ++ s.user })
      else none
  | .setAttr a o =>
      if s.held ∧ o ∈ s.user then
        some (s.withHeap (s.heap.assign (s.attr a) (some o)) fun h =>
          { s with heap := h }.withAttr a (some o))
      else none
  | .delAttr a =>
      if s.held then
        some (s.withHeap (s.heap.assign (s.attr a) none) fun h => { s with heap := h }.withAttr a none)
      else none
  | .init path datatype framesize =>
      if s.held ∧ path ∈ s.user ∧ (∀ o ∈ datatype, o ∈ s.user) ∧ ∀ o ∈ framesize, o ∈ s.user then
        some (s.initWith path datatype framesize)
      else none
  | .push o =>
      if s.held ∧ o ∈ s.user then
        match s.pushCall o with
        | some c => some (s.withHeap (s.heap.increfs [o]) fun h => { s with heap := h }.begin c)
        | none => some s
      else none
  | .made k _ | .enter k | .lock k | .copyByte k | .unlock k | .return k =>
      s.calls[k]?.bind fun c => s.goOn k a c
  | .deleted => if s.phase = .deallocating then some s.dealloc else none

/-! ### Where the references and the C writers are -/

/-- The references that the writer owns. -/
def fields (s : PyWriter) : Multiset ℕ :=
  s.path.toList + s.datatype.toList + s.framesize.toList

/-- The references that the calls of `Writer_push` own. -/
def buffers (s : PyWriter) : Multiset ℕ :=
  (s.calls.filterMap fun c => c.push?.map Push.buffer : List ℕ)

/-- All references. -/
def owned (s : PyWriter) : Multiset ℕ := s.user + s.fields + s.buffers

/-- The C writer that a step loses: `Writer_init` overwrites `self->writer`. -/
def replaced (s : PyWriter) : Act → List ℕ
  | .made _ _ => s.writer.toList
  | _ => []

/-! ### The invariant -/

/-- **The invariant of all runs**, with the C writers that were lost. -/
structure Sound (lost : List ℕ) (s : PyWriter) : Prop where
  fault : s.fault ≠ some .count ∧ s.fault ≠ some .deletedWriter
  balanced : s.heap.Balanced s.owned
  phase : s.phase = .alive ↔ 0 < s.selfRefs
  calls : s.calls.length ≤ s.selfRefs
  dropped : s.phase ≠ .alive → s.fields = 0
  freed : s.phase = .freed → s.writer = none
  cwriter : ∀ w, (s.cwriter w).alive = true ↔ w ∈ s.writer.toList ++ lost
  lt : ∀ w ∈ s.writer.toList ++ lost, w < s.ncwriters
  nodup : (s.writer.toList ++ lost).Nodup
  inside : ∀ c ∈ s.calls, ∀ w ∈ c.writer?, (s.cwriter w).alive = true

section lists

variable {α β : Type*} {l : List α} {k : ℕ} {c : α}

theorem coe_filterMap_cons (f : α → Option β) (c : α) (l : List α) :
    ((c :: l).filterMap f : Multiset β) = (f c).toList + l.filterMap f := by
  rw [List.filterMap_cons]
  cases f c <;> rfl

/-- What an element of a list gives, and what the others give. -/
theorem coe_filterMap_eraseIdx (f : α → Option β) (h : l[k]? = some c) :
    (l.filterMap f : Multiset β) = (f c).toList + (l.eraseIdx k).filterMap f := by
  obtain ⟨hk, rfl⟩ := List.getElem?_eq_some_iff.1 h
  rw [← coe_filterMap_cons]
  exact Multiset.coe_eq_coe.2 ((List.getElem_cons_eraseIdx_perm hk).symm.filterMap f)

/-- Another element in its place. -/
theorem coe_filterMap_set (f : α → Option β) (h : l[k]? = some c) (c' : α) :
    ((l.set k c').filterMap f : Multiset β) = (f c').toList + (l.eraseIdx k).filterMap f := by
  obtain ⟨hk, -⟩ := List.getElem?_eq_some_iff.1 h
  rw [← coe_filterMap_cons]
  exact Multiset.coe_eq_coe.2 ((List.set_perm_cons_eraseIdx hk c').filterMap f)

/-- One that gives the same changes nothing. -/
theorem coe_filterMap_set_of_eq (f : α → Option β) (h : l[k]? = some c) {c' : α} (hf : f c' = f c) :
    ((l.set k c').filterMap f : Multiset β) = l.filterMap f := by
  rw [coe_filterMap_set f h, hf, ← coe_filterMap_eraseIdx f h]

end lists

variable {s t : PyWriter} {lost : List ℕ}

theorem buffers_eraseIdx {k : ℕ} {c : Call} (h : s.calls[k]? = some c) :
    s.buffers = (c.push?.map Push.buffer).toList +
      { s with calls := s.calls.eraseIdx k }.buffers :=
  coe_filterMap_eraseIdx _ h

theorem buffers_setCall {k : ℕ} {c c' : Call} (h : s.calls[k]? = some c) (hc : c'.push? = c.push?) :
    (s.setCall k c').buffers = s.buffers :=
  coe_filterMap_set_of_eq _ h (by rw [hc])

theorem buffers_begin (s : PyWriter) (c : Call) :
    (s.begin c).buffers = s.buffers + (c.push?.map Push.buffer).toList := by
  unfold buffers begin
  rw [List.filterMap_append, ← Multiset.coe_add]
  cases c <;> rfl

theorem sound_new : Sound [] new where
  fault := ⟨by decide, by decide⟩
  balanced := by
    have hb := Heap.balanced_init.new.new.new
    have heq : new.owned = {2} + ({1} + ({0} + 0)) := by decide
    rw [heq]
    exact hb
  phase := by decide
  calls := by decide
  dropped h := absurd rfl h
  freed h := by cases h
  cwriter w := by simp [new]
  lt w h := by simp [new] at h
  nodup := by decide
  inside c h := by cases h

/-- A call of `Writer_push` begins with the memory of a `bytearray`. -/
theorem pushCall_eq_some {o : ℕ} {c : Call} (h : s.pushCall o = some c) :
    ∃ bytes moves, s.value o = .bytearray bytes moves ∧ s.writer.isSome = true ∧
      c = .pushing ⟨o, moves, bytes.length⟩ := by
  unfold pushCall at h
  split at h
  · next bytes moves w hv hw => exact ⟨bytes, moves, hv, by rw [hw]; rfl, (Option.some.inj h).symm⟩
  · cases h

namespace Sound

theorem selfRefs_pos (h : s.held = true) : s.phase = .alive ∧ s.calls.length < s.selfRefs := by
  unfold held at h
  exact of_decide_eq_true h

/-- A writer that is being freed has no calls. -/
theorem calls_nil (hs : Sound lost s) (h : s.phase ≠ .alive) : s.selfRefs = 0 ∧ s.calls = [] := by
  have hrefs : s.selfRefs = 0 := Nat.eq_zero_of_not_pos fun hpos => h (hs.phase.2 hpos)
  have hlen := hs.calls
  exact ⟨hrefs, List.length_eq_zero_iff.1 (by omega)⟩

/-- A call in flight keeps the writer alive. -/
theorem pos_of_call (hs : Sound lost s) {k : ℕ} {c : Call} (h : s.calls[k]? = some c) :
    s.phase = .alive ∧ (s.calls.eraseIdx k).length < s.selfRefs := by
  obtain ⟨hk, -⟩ := List.getElem?_eq_some_iff.1 h
  have hlen := hs.calls
  have herase := List.length_eraseIdx_of_lt hk
  exact ⟨hs.phase.2 (by omega), by omega⟩

theorem mem_owned_of_user {o : ℕ} (ho : o ∈ s.user) : o ∈ s.owned := by
  simp only [owned, Multiset.mem_add, Multiset.mem_coe]
  exact Or.inl (Or.inl ho)

/-- A fault that is not one of those that are excluded. -/
theorem fail (hs : Sound lost s) {f : Fault} (hf : f ≠ .count ∧ f ≠ .deletedWriter) :
    Sound lost (s.fail f) :=
  { hs with
    fault := ⟨fun h => hf.1 (Option.some.inj h), fun h => hf.2 (Option.some.inj h)⟩
    balanced := hs.balanced }

/-- A step that changes only the references of Python code. -/
theorem withUser (hs : Sound lost s) {h : Heap} {value : ℕ → Value} {l : List ℕ}
    (hb : h.Balanced (l + s.fields + s.buffers)) :
    Sound lost { s with heap := h, value := value, user := l } :=
  { hs with balanced := hb }

/-- Python code takes references to what is referred to. -/
theorem takes (hs : Sound lost s) {l : List ℕ} (hl : ∀ o ∈ l, o ∈ s.owned) :
    Sound lost (s.withHeap (s.heap.increfs l) fun h => { s with heap := h, user := l ++ s.user }) := by
  obtain ⟨h, hh, hb⟩ := hs.balanced.increfs hl
  rw [hh]
  refine hs.withUser ?_
  rw [← Multiset.coe_add, add_assoc, add_assoc, ← add_assoc (s.user : Multiset ℕ)]
  exact hb

theorem drop (hs : Sound lost s) {o : ℕ} (ho : o ∈ s.user) :
    Sound lost (s.withHeap (s.heap.decrefs [o]) fun h => { s with heap := h, user := s.user.erase o }) := by
  have hb := hs.balanced
  have huser : (s.user : Multiset ℕ) = ([o] : List ℕ) + (s.user.erase o : List ℕ) := by
    rw [Multiset.coe_singleton, Multiset.singleton_add, ← Multiset.coe_erase,
      Multiset.cons_erase (Multiset.mem_coe.2 ho)]
  rw [owned, huser, add_assoc, add_assoc] at hb
  obtain ⟨h, hh, hb⟩ := hb.decrefs
  rw [hh]
  refine hs.withUser ?_
  rwa [add_assoc]

/-- The rest of the references, when one attribute is set aside. -/
theorem owned_withAttr (s : PyWriter) (h : Heap) (a : Attr) (o : Option ℕ) :
    ∃ rest : Multiset ℕ, s.owned = (s.attr a).toList + rest ∧
      ({ s with heap := h }.withAttr a o).owned = o.toList + rest := by
  cases a with
  | path =>
      refine ⟨s.user + (s.datatype.toList + s.framesize.toList) + s.buffers, ?_, ?_⟩
      · simp only [owned, fields, attr]
        abel
      · simp only [owned, fields, buffers, withAttr]
        abel
  | datatype =>
      refine ⟨s.user + (s.path.toList + s.framesize.toList) + s.buffers, ?_, ?_⟩
      · simp only [owned, fields, attr]
        abel
      · simp only [owned, fields, buffers, withAttr]
        abel
  | framesize =>
      refine ⟨s.user + (s.path.toList + s.datatype.toList) + s.buffers, ?_, ?_⟩
      · simp only [owned, fields, attr]
        abel
      · simp only [owned, fields, buffers, withAttr]
        abel

/-- An attribute is set or deleted. -/
theorem setAttr (hs : Sound lost s) (hheld : s.held = true) (a : Attr) {o : Option ℕ}
    (ho : ∀ p ∈ o, p ∈ s.user) :
    Sound lost (s.withHeap (s.heap.assign (s.attr a) o) fun h => { s with heap := h }.withAttr a o) := by
  have hb := hs.balanced
  obtain ⟨rest, h1, -⟩ := owned_withAttr s s.heap a o
  have hmem (p : ℕ) (hp : p ∈ o) : p ∈ ((s.attr a).toList + rest : Multiset ℕ) :=
    h1 ▸ mem_owned_of_user (ho p hp)
  rw [h1] at hb
  obtain ⟨h, hh, hb⟩ := hb.assign o hmem
  rw [hh]
  obtain ⟨rest', h1', h2'⟩ := owned_withAttr s h a o
  obtain rfl : rest' = rest := add_left_cancel (h1'.symm.trans h1)
  rw [← h2'] at hb
  have halive := (selfRefs_pos hheld).1
  cases a with
  | path | datatype | framesize =>
      exact { hs with balanced := hb, dropped := fun h => absurd halive h }

theorem copySelf (hs : Sound lost s) (hheld : s.held = true) :
    Sound lost { s with selfRefs := s.selfRefs + 1 } :=
  { hs with
    phase := ⟨fun _ => Nat.succ_pos _, fun _ => (selfRefs_pos hheld).1⟩
    calls := hs.calls.trans (Nat.le_succ _) }

/-- A reference that no call needs is dropped. -/
theorem release (hs : Sound lost s) (hlt : s.calls.length < s.selfRefs) : Sound lost s.release := by
  have hpos : 0 < s.selfRefs := by omega
  have halive := hs.phase.2 hpos
  unfold PyWriter.release
  by_cases hone : s.selfRefs = 1
  · rw [if_pos hone]
    have hnil : s.calls = [] := List.length_eq_zero_iff.1 (by omega)
    have hb := hs.balanced
    rw [show s.owned =
        ((s.path.toList ++ s.datatype.toList ++ s.framesize.toList : List ℕ) : Multiset ℕ) +
          (s.user + s.buffers) by
      simp only [owned, fields, ← Multiset.coe_add]
      abel] at hb
    obtain ⟨h, hh, hb⟩ := hb.decrefs
    rw [hh, withHeap_some]
    exact
      { hs with
        balanced := by
          rw [show owned _ = s.user + s.buffers by
            simp only [owned, fields, buffers, Option.toList_none, Multiset.coe_nil, add_zero]]
          exact hb
        phase := by simp
        calls := by simp [hnil]
        dropped := fun _ => rfl
        freed := fun h => by cases h }
  · rw [if_neg hone]
    exact
      { hs with
        phase := ⟨fun _ => by show 0 < s.selfRefs - 1; omega, fun _ => halive⟩
        calls := by show s.calls.length ≤ s.selfRefs - 1; omega }

/-- A call lets go of the interpreter lock, with the references that it needs. -/
theorem begin (hs : Sound lost s) (halive : s.phase = .alive) {c : Call} {h : Heap}
    (hb : h.Balanced (s.owned + (c.push?.map Push.buffer).toList)) (hc : c.writer? = none) :
    Sound lost ({ s with heap := h }.begin c) where
  fault := hs.fault
  balanced := by
    rw [show owned _ = s.owned + (c.push?.map Push.buffer).toList by
      rw [owned, buffers_begin, owned, add_assoc, add_assoc, add_assoc]
      rfl]
    exact hb
  phase := ⟨fun _ => Nat.succ_pos _, fun _ => halive⟩
  calls := by simpa [PyWriter.begin] using hs.calls
  dropped h := absurd halive h
  freed h := hs.freed h
  cwriter := hs.cwriter
  lt := hs.lt
  nodup := hs.nodup
  inside d hd w hw := by
    rcases List.mem_append.1 hd with hd | hd
    · exact hs.inside d hd w hw
    · rw [List.mem_singleton.1 hd, hc] at hw
      cases hw

/-- `Writer_init`, up to the call of `shmdata_make_writer`. -/
theorem initWith (hs : Sound lost s) (hheld : s.held = true) {path : ℕ} {datatype framesize : Option ℕ}
    (hpath : path ∈ s.user) (hdt : ∀ o ∈ datatype, o ∈ s.user) (hfs : ∀ o ∈ framesize, o ∈ s.user) :
    Sound lost (s.initWith path datatype framesize) := by
  have halive := (selfRefs_pos hheld).1
  have hb := hs.balanced
  set rest : Multiset ℕ := s.user + s.buffers with hrest
  have hmem {o : ℕ} (ho : o ∈ s.user) : o ∈ rest := Multiset.mem_add.2 (Or.inl ho)
  rw [show s.owned = s.path.toList + (s.datatype.toList + (s.framesize.toList + rest)) by
    simp only [owned, fields, hrest]
    abel] at hb
  obtain ⟨h₁, hh₁, hb₁⟩ := hb.assign (some path) fun o ho => by
    obtain rfl := Option.mem_some_iff.1 ho
    simp only [Multiset.mem_add]
    exact Or.inr (Or.inr (Or.inr (hmem hpath)))
  rw [add_left_comm] at hb₁
  obtain ⟨h₂, hh₂, hb₂⟩ := hb₁.assign_or datatype fun o ho => by
    simp only [Multiset.mem_add]
    exact Or.inr (Or.inr (hmem (hdt o ho)))
  rw [show ((datatype.or s.datatype).toList + ((some path).toList + (s.framesize.toList + rest)) :
      Multiset ℕ) = s.framesize.toList +
        ((datatype.or s.datatype).toList + (some path).toList + rest) by abel] at hb₂
  obtain ⟨h₃, hh₃, hb₃⟩ := hb₂.assign_or framesize fun o ho => by
    simp only [Multiset.mem_add]
    exact Or.inr (hmem (hfs o ho))
  unfold PyWriter.initWith
  simp only [hh₁, Option.bind_some, hh₂, hh₃, withHeap_some]
  set t : PyWriter :=
    { s with
      heap := h₃
      path := some path
      datatype := datatype.or s.datatype
      framesize := framesize.or s.framesize } with ht
  have howned : h₃.Balanced t.owned := by
    rw [show t.owned = (framesize.or s.framesize).toList +
        ((datatype.or s.datatype).toList + (some path).toList + rest) by
      simp only [ht, owned, fields, buffers, hrest]
      abel]
    exact hb₃
  have hsound : Sound lost t :=
    { hs with balanced := howned, dropped := fun h => absurd halive h }
  split
  · exact hsound.begin halive (by simpa [Call.push?] using howned) rfl
  · exact hsound.fail ⟨by decide, by decide⟩

/-- `self->writer` is overwritten, and the call returns. -/
theorem store (hs : Sound lost s) {k : ℕ} {c : Call} (hc : s.calls[k]? = some c) (hpush : c.push? = none)
    {path datatype : List UInt8} {size : ℕ} {ok : Bool} :
    Sound (lost ++ s.writer.toList)
      { s.store path size datatype ok with calls := s.calls.eraseIdx k } := by
  obtain ⟨halive, hlt⟩ := hs.pos_of_call hc
  have hbal : s.heap.Balanced (s.user + s.fields + { s with calls := s.calls.eraseIdx k }.buffers) := by
    have hb := hs.balanced
    rwa [owned, buffers_eraseIdx hc, hpush, Option.map_none, Option.toList_none, Multiset.coe_nil,
      zero_add] at hb
  have hperm : (s.writer.toList ++ lost).Perm (lost ++ s.writer.toList) := List.perm_append_comm
  have hmem (w : ℕ) : w ∈ lost ++ s.writer.toList ↔ w ∈ s.writer.toList ++ lost := hperm.mem_iff.symm
  have hfresh : s.ncwriters ∉ lost ++ s.writer.toList := fun h => lt_irrefl _ (hs.lt _ ((hmem _).1 h))
  have hinside (d : Call) (hd : d ∈ s.calls.eraseIdx k) (w : ℕ) (hw : w ∈ d.writer?) :
      (s.cwriter w).alive = true := hs.inside d (List.mem_of_mem_eraseIdx hd) w hw
  cases ok with
  | false =>
      exact
        { fault := hs.fault
          balanced := hbal
          phase := hs.phase
          calls := hlt.le
          dropped := fun h => absurd halive h
          freed := fun _ => rfl
          cwriter := fun w => by
            show (s.cwriter w).alive = true ↔ w ∈ lost ++ s.writer.toList
            rw [hmem]
            exact hs.cwriter w
          lt := fun w hw => hs.lt w ((hmem w).1 hw)
          nodup := hperm.nodup_iff.1 hs.nodup
          inside := hinside }
  | true =>
      have hne {w : ℕ} (hw : (s.cwriter w).alive = true) : w ≠ s.ncwriters := by
        rintro rfl
        exact hfresh ((hmem _).2 ((hs.cwriter _).1 hw))
      exact
        { fault := hs.fault
          balanced := hbal
          phase := hs.phase
          calls := hlt.le
          dropped := fun h => absurd halive h
          freed := fun h => by
            have h : s.phase = .freed := h
            rw [halive] at h
            cases h
          cwriter := fun w => by
            show (Function.update s.cwriter s.ncwriters _ w).alive = true ↔
              w ∈ s.ncwriters :: (lost ++ s.writer.toList)
            rw [List.mem_cons, hmem]
            by_cases hw : w = s.ncwriters
            · subst hw
              rw [Function.update_self]
              simp
            · rw [Function.update_of_ne hw, hs.cwriter w]
              simp [hw]
          lt := fun w hw => by
            rcases List.mem_cons.1 hw with rfl | hw
            · exact Nat.lt_succ_self _
            · exact (hs.lt w ((hmem w).1 hw)).trans (Nat.lt_succ_self _)
          nodup := List.nodup_cons.2 ⟨hfresh, hperm.nodup_iff.1 hs.nodup⟩
          inside := fun d hd w hw => by
            have hlive := hinside d hd w hw
            show (Function.update s.cwriter s.ncwriters _ w).alive = true
            rwa [Function.update_of_ne (hne hlive)] }

/-- A call goes on, inside a C writer that is alive. -/
theorem setCall (hs : Sound lost s) {k : ℕ} {c c' : Call} (hc : s.calls[k]? = some c)
    (hpush : c'.push? = c.push?) (hw : ∀ w ∈ c'.writer?, (s.cwriter w).alive = true) :
    Sound lost (s.setCall k c') :=
  { hs with
    balanced := by
      rw [show (s.setCall k c').owned = s.owned by
        rw [owned, owned, buffers_setCall hc hpush]
        rfl]
      exact hs.balanced
    calls := by simpa [PyWriter.setCall] using hs.calls
    inside := fun d hd => by
      rcases List.mem_or_eq_of_mem_set hd with hd | rfl
      · exact hs.inside d hd
      · exact hw }

theorem setLocked (hs : Sound lost s) (w : ℕ) (locked : Bool) : Sound lost (s.setLocked w locked) := by
  have halive (v : ℕ) : ((s.setLocked w locked).cwriter v).alive = (s.cwriter v).alive := by
    show (Function.update s.cwriter w { s.cwriter w with locked := locked } v).alive = _
    by_cases hv : v = w
    · subst hv
      rw [Function.update_self]
    · rw [Function.update_of_ne hv]
  exact
    { hs with
      balanced := hs.balanced
      cwriter := fun v => by
        rw [halive]
        exact hs.cwriter v
      inside := fun c hc v hv => by
        rw [halive]
        exact hs.inside c hc v hv }

/-- A call finds its C writer alive. -/
theorem within_eq (hs : Sound lost s) {k : ℕ} {c : Call} (hc : s.calls[k]? = some c) {w : ℕ}
    (hw : w ∈ c.writer?) (t : PyWriter) : s.within w t = t :=
  if_pos (hs.inside c (List.mem_of_getElem? hc) w hw)

/-- The buffer is given up, and `Writer_push` returns. -/
theorem returns (hs : Sound lost s) {k : ℕ} {p : Push} (hc : s.calls[k]? = some (.returning p)) :
    Sound lost (s.withHeap (s.heap.decrefs [p.buffer]) fun h =>
      { s with heap := h, calls := s.calls.eraseIdx k }.release) := by
  obtain ⟨halive, hlt⟩ := hs.pos_of_call hc
  have hb := hs.balanced
  rw [show s.owned = ([p.buffer] : List ℕ) +
      (s.user + s.fields + { s with calls := s.calls.eraseIdx k }.buffers) by
    rw [owned, buffers_eraseIdx hc, add_left_comm]
    rfl] at hb
  obtain ⟨h, hh, hb⟩ := hb.decrefs
  rw [hh, withHeap_some]
  have hsound : Sound lost { s with heap := h, calls := s.calls.eraseIdx k } :=
    { hs with
      balanced := hb
      calls := hlt.le
      inside := fun d hd => hs.inside d (List.mem_of_mem_eraseIdx hd) }
  exact hsound.release hlt

/-- A call in flight goes on. -/
theorem goOn {a : Act} (hs : Sound lost s) {k : ℕ} {c : Call} (hc : s.calls[k]? = some c)
    (h : s.goOn k a c = some t) : Sound (lost ++ s.replaced a) t := by
  unfold PyWriter.goOn at h
  split at h
  · next ok path size datatype =>
      obtain rfl := Option.some.inj h
      refine (hs.store hc rfl).release ?_
      rw [show PyWriter.selfRefs _ = s.selfRefs from store_selfRefs s path size datatype ok]
      exact (hs.pos_of_call hc).2
  · next p =>
      simp only [replaced, List.append_nil]
      split at h
      · next w hw =>
          obtain rfl := Option.some.inj h
          refine hs.setCall hc rfl fun v hv => ?_
          obtain rfl := Option.some.inj hv
          exact (hs.cwriter _).2 (by simp [hw])
      · obtain rfl := Option.some.inj h
        exact hs.fail ⟨by decide, by decide⟩
  · next p w =>
      simp only [replaced, List.append_nil]
      obtain ⟨-, h⟩ := Option.ite_none_left_eq_some.1 h
      obtain rfl := Option.some.inj h
      rw [hs.within_eq hc rfl]
      refine (hs.setLocked w true).setCall (c := .locking p w) hc rfl fun v hv => ?_
      exact (hs.setLocked w true).inside _ (List.mem_of_getElem? hc) v hv
  · next p w bytes =>
      simp only [replaced, List.append_nil]
      obtain ⟨-, h⟩ := Option.ite_none_right_eq_some.1 h
      split at h
      · obtain rfl := Option.some.inj h
        rw [hs.within_eq hc rfl]
        exact hs.setCall hc rfl fun v hv => hs.inside _ (List.mem_of_getElem? hc) v hv
      · obtain rfl := Option.some.inj h
        exact hs.fail ⟨by decide, by decide⟩
  · next p w bytes =>
      simp only [replaced, List.append_nil]
      obtain ⟨-, h⟩ := Option.ite_none_right_eq_some.1 h
      obtain rfl := Option.some.inj h
      rw [hs.within_eq hc rfl]
      have hsound : Sound lost ((s.setLocked w false).setCall k (.returning p)) :=
        (hs.setLocked w false).setCall (c := .copying p w bytes) hc rfl fun v hv => by cases hv
      exact { hsound with balanced := hsound.balanced }
  · next p =>
      simp only [replaced, List.append_nil]
      obtain rfl := Option.some.inj h
      exact hs.returns hc
  · cases h

/-- `Writer_dealloc` deletes the C writer. -/
theorem dealloc (hs : Sound lost s) (hphase : s.phase = .deallocating) : Sound lost s.dealloc := by
  have hdead : s.phase ≠ .alive := by simp [hphase]
  obtain ⟨hrefs, hnil⟩ := hs.calls_nil hdead
  have hcw : ∀ w, (s.dealloc.cwriter w).alive = true ↔ w ∈ lost := by
    intro w
    have hiff := hs.cwriter w
    unfold PyWriter.dealloc
    cases hwriter : s.writer with
    | none => simpa [hwriter] using hiff
    | some v =>
        have hnodup := hs.nodup
        rw [hwriter] at hnodup hiff
        by_cases hv : w = v
        · subst hv
          have hnot := (List.nodup_cons.1 hnodup).1
          simpa using hnot
        · simpa [Function.update_of_ne hv, hv] using hiff
  exact
    { fault := hs.fault
      balanced := hs.balanced
      phase := by simp [PyWriter.dealloc, hrefs]
      calls := hs.calls
      dropped := fun _ => hs.dropped hdead
      freed := fun _ => rfl
      cwriter := hcw
      lt := fun w hw => hs.lt w (List.mem_append_right _ hw)
      nodup := (List.nodup_append.1 hs.nodup).2.1
      inside := fun c hc => by
        have hc : c ∈ s.calls := hc
        rw [hnil] at hc
        cases hc }

/-- **Every step keeps the invariant.** -/
theorem step {a : Act} (hs : Sound lost s) (h : s.step a = some t) : Sound (lost ++ s.replaced a) t := by
  unfold PyWriter.step at h
  obtain ⟨-, h⟩ := Option.ite_none_left_eq_some.1 h
  cases a with
  | create v =>
      obtain rfl := Option.some.inj h
      have hb := hs.balanced.new
      simp only [replaced, List.append_nil]
      refine hs.withUser ?_
      have hcons : ((s.heap.new.2 :: s.user : List ℕ) : Multiset ℕ) = {s.heap.new.2} + s.user := by
        rw [← Multiset.cons_coe, Multiset.singleton_add]
      rw [hcons, add_assoc, add_assoc, ← add_assoc (s.user : Multiset ℕ)]
      exact hb
  | copy o =>
      obtain ⟨ho, h⟩ := Option.ite_none_right_eq_some.1 h
      obtain rfl := Option.some.inj h
      have ht := hs.takes (l := [o]) fun p hp => by
        rw [List.mem_singleton.1 hp]
        exact mem_owned_of_user ho
      simpa [replaced] using ht
  | drop o =>
      obtain ⟨ho, h⟩ := Option.ite_none_right_eq_some.1 h
      obtain rfl := Option.some.inj h
      simpa [replaced] using hs.drop ho
  | setItem o i b =>
      simp only [replaced, List.append_nil]
      dsimp only at h
      split at h
      · obtain ⟨-, h⟩ := Option.ite_none_right_eq_some.1 h
        obtain rfl := Option.some.inj h
        exact hs.withUser hs.balanced
      · cases h
  | resize o bytes =>
      simp only [replaced, List.append_nil]
      dsimp only at h
      split at h
      · obtain ⟨-, h⟩ := Option.ite_none_right_eq_some.1 h
        obtain rfl := Option.some.inj h
        exact hs.withUser hs.balanced
      · cases h
  | copySelf =>
      obtain ⟨hheld, h⟩ := Option.ite_none_right_eq_some.1 h
      obtain rfl := Option.some.inj h
      simpa [replaced] using hs.copySelf hheld
  | dropSelf =>
      obtain ⟨hheld, h⟩ := Option.ite_none_right_eq_some.1 h
      obtain rfl := Option.some.inj h
      simpa [replaced] using hs.release (selfRefs_pos hheld).2
  | getAttr a =>
      obtain ⟨-, h⟩ := Option.ite_none_right_eq_some.1 h
      obtain rfl := Option.some.inj h
      have ht := hs.takes (l := (s.attr a).toList) fun o ho => by
        obtain ⟨rest, hrest, -⟩ := owned_withAttr s s.heap a none
        rw [hrest]
        exact Multiset.mem_add.2 (Or.inl ho)
      simpa [replaced] using ht
  | setAttr a o =>
      obtain ⟨⟨hheld, ho⟩, h⟩ := Option.ite_none_right_eq_some.1 h
      obtain rfl := Option.some.inj h
      have ht := hs.setAttr hheld a (o := some o) fun p hp => Option.mem_some_iff.1 hp ▸ ho
      simpa [replaced] using ht
  | delAttr a =>
      obtain ⟨hheld, h⟩ := Option.ite_none_right_eq_some.1 h
      obtain rfl := Option.some.inj h
      have ht := hs.setAttr hheld a (o := none) fun p hp => by cases hp
      simpa [replaced] using ht
  | init path datatype framesize =>
      obtain ⟨⟨hheld, hpath, hdt, hfs⟩, h⟩ := Option.ite_none_right_eq_some.1 h
      obtain rfl := Option.some.inj h
      simpa [replaced] using hs.initWith hheld hpath hdt hfs
  | push o =>
      obtain ⟨⟨hheld, ho⟩, h⟩ := Option.ite_none_right_eq_some.1 h
      simp only [replaced, List.append_nil]
      split at h
      · next c hc =>
          obtain rfl := Option.some.inj h
          obtain ⟨bytes, moves, -, -, rfl⟩ := pushCall_eq_some hc
          obtain ⟨h, hh, hb⟩ := hs.balanced.increfs (l := [o]) fun p hp => by
            rw [List.mem_singleton.1 hp]
            exact mem_owned_of_user ho
          rw [hh]
          refine hs.begin (selfRefs_pos hheld).1 ?_ rfl
          rwa [add_comm] at hb
      · obtain rfl := Option.some.inj h
        exact hs
  | made k ok =>
      obtain ⟨c, hc, h⟩ := Option.bind_eq_some_iff.1 h
      exact hs.goOn hc h
  | enter k | lock k | copyByte k | unlock k | «return» k =>
      obtain ⟨c, hc, h⟩ := Option.bind_eq_some_iff.1 h
      exact hs.goOn hc h
  | deleted =>
      obtain ⟨hphase, h⟩ := Option.ite_none_right_eq_some.1 h
      obtain rfl := Option.some.inj h
      simpa [replaced] using hs.dealloc hphase

end Sound

/-- **Every reference and every C writer is accounted for**, in every run, whatever Python code does: the count
of an object is the number of references that Python code, the fields and the calls of `Writer_push` hold; no C
writer is used that is deleted; the C writers that are alive are the one in `self->writer` and those that were
overwritten there, each of them once; and when the writer is freed only these are left. -/
theorem accounted_of_exec {as : List Act} (h : exec step new as = some s) :
    (s.fault ≠ some .count ∧ s.fault ≠ some .deletedWriter) ∧
      (∀ o, s.heap.count o = s.user.count o + s.fields.count o + s.buffers.count o) ∧
      (∀ w, (s.cwriter w).alive = true ↔ w ∈ s.writer.toList ++ trace step replaced new as) ∧
      (s.writer.toList ++ trace step replaced new as).Nodup ∧
      (s.phase = .freed → s.writer = none ∧ s.fields = 0 ∧ s.calls = []) := by
  have hs : Sound (trace step replaced new as) s := by
    have hall := exec_trace replaced (R := fun l s => Sound l s) (fun l s a t hs hst => hs.step hst) h
      (l := []) sound_new
    rwa [List.nil_append] at hall
  refine ⟨hs.fault, fun o => ?_, hs.cwriter, hs.nodup, fun hf => ?_⟩
  · rw [hs.balanced.count, owned, Multiset.count_add, Multiset.count_add, Multiset.coe_count]
  · have hdead : s.phase ≠ .alive := by simp [hf]
    exact ⟨hs.freed hf, hs.dropped hdead, (hs.calls_nil hdead).2⟩

/-- A writer and two buffers. -/
def prepared : List Act :=
  [.create (.str (some [112])), .create (.bytearray [1, 2] 0), .create (.bytearray [3] 0), .init 3 none none,
    .made 0 true]

/-- A second `__init__` fails, and the writer is dropped. -/
def replacedWriter : List Act :=
  prepared ++ [.init 3 none none, .made 0 false, .push 4, .dropSelf, .deleted]

/-- The first C writer is never deleted. -/
theorem replacedWriter_accounted :
    ∃ s, exec step new replacedWriter = some s ∧ s.phase = .freed ∧ (s.cwriter 0).alive = true ∧
      ∀ o, s.heap.count o = s.user.count o + s.buffers.count o := by
  have hrun : ((exec step new replacedWriter).any fun s => s.phase = .freed) = true := by
    decide +kernel
  have htrace : trace step replaced new replacedWriter = [0] := by
    decide +kernel
  obtain ⟨s, hs, hphase⟩ := (Option.any_eq_true _ _).1 hrun
  have hphase : s.phase = .freed := of_decide_eq_true hphase
  obtain ⟨-, hcount, hcw, -, hfreed⟩ := accounted_of_exec hs
  obtain ⟨-, hfields, -⟩ := hfreed hphase
  rw [htrace] at hcw
  refine ⟨s, hs, hphase, (hcw 0).2 (by simp), fun o => ?_⟩
  rw [hcount, hfields, Multiset.count_zero, Nat.add_zero]

end PyWriter

end Shmdata

/-
**The render loop of `gstshmdatasink.c`.**

Between two buffers the element holds a write access.  `gst_shmdata_sink_render` copies a buffer that is not
its own into the segment, which is made larger first if the field `size` is too small, then notifies the
readers, releases the access and takes the next one.  A buffer whose memory comes from the element's own
allocator is announced as it is.  All the blocks that the allocator hands out begin at the same place, and
an allocation may replace the segment, so that a block holds what was written to it only as long as nobody
writes to another one or makes the segment grow.

The element runs on top of the whole system: each of its calls is a step of the writer's user, and the steps
in between are those of the library, the server and the readers.

Main definitions:

* `Shmdata.GstSinkSystem`, `Shmdata.GstSinkSystem.step` — the element with its writer and the readers;
* `Shmdata.GstSinkSystem.Sound` — what the upstream elements have to mind;
* `Shmdata.GstSinkSystem.Phase` — **the places of the streaming thread**, with what holds there.

Main results:

* `Shmdata.GstSinkSystem.spec_of_step` — every step keeps the places, and is a step of a careful writer;
* `Shmdata.GstSinkSystem.foreign_broadcast` — **every reader is given a contiguous piece of the buffers that
  the element rendered**, when the upstream elements bring their own memory;
* `Shmdata.GstSinkSystem.rendered_broadcast` — the same with blocks of the allocator, as long as they are
  intact and announced with a right sign.

The results are about runs in which the property `initial-size` is not set after the caps event:
`Shmdata.GstSinkSystem.overrun_of_initialSize` shows what comes of that.
-/

import Shmdata.GstSink
import Shmdata.Refinement

set_option relaxedAutoImplicit false
set_option autoImplicit false

namespace Shmdata

open Runs
open Broadcast (Channel Event)

/-- The steps that the user of the writer takes. -/
@[simp] def System.Act.byUser : System.Act → Bool
  | .call _ | .shmResize _ | .notifyClients _ | .write _ | .release => true
  | _ => false

/-- The steps that belong before the notification. -/
@[simp] def System.Act.early : System.Act → Bool
  | .shmResize _ | .write _ => true
  | _ => false

/-- The host of the element, and where the segments of its writer are attached. -/
structure GstSinkHost extends GstHost where
  attached : ℕ → Segment

namespace GstShmdataSink

/-- The field `params`, as `gst_allocation_params_init` leaves it. -/
def params : GstAllocationParams := bare.params

/-- How far from the beginning of a segment the data of a block begin. -/
def offset (h : GstSinkHost) (seg : ℕ) : ℕ := (aoffset h.toGstHost (h.attached seg) params).toNat

/-- Segments begin at a page, so that an alignment of at most a page moves nothing. -/
theorem offset_eq_zero {h : GstSinkHost} (hbits : h.memoryAlignment.bits ≤ 12) (seg : ℕ) :
    offset h seg = 0 := by
  have hdvd : 2 ^ alignBits h.toGstHost params ∣ (h.attached seg).addr.toNat :=
    (pow_dvd_pow 2 (max_le (Nat.zero_le _) hbits)).trans (h.attached seg).page_dvd
  rw [offset, aoffset_toNat, toAligned, if_pos hdvd]

end GstShmdataSink

namespace GstSinkSystem

/-- The calls of the streaming thread that are still to be made. -/
inductive Call
  /-- `shmdata_shm_resize`. -/
  | resize (size : ℕ)
  /-- `shmdata_get_mem`, and a block of the given size is handed out. -/
  | grant (size : ℕ)
  /-- `shmdata_get_mem`, and `gst_buffer_extract` into the block. -/
  | extract (buf : List UInt8)
  /-- `shmdata_notify_clients`. -/
  | notify (size : ℕ)
  /-- `shmdata_release_one_write_access`. -/
  | release
  /-- `shmdata_get_one_write_access`. -/
  | access

/-- A block of the allocator: the segment it is in, its size, and what was written to it last. -/
structure Block where
  seg : ℕ
  size : ℕ
  bytes : List UInt8

/-- A buffer: with memory of its own, or with that of a block. -/
inductive Buffer
  | foreign (bytes : List UInt8)
  | block (i : ℕ)

/-- One step: the property `initial-size` is set; an upstream element asks for a block with the default
parameters, writes to one, or passes a buffer on; the streaming thread makes its next call; or something
else moves in the library or in another process. -/
inductive Act
  | setInitialSize (value : UInt64)
  | alloc (size : ℕ)
  | fill (i : ℕ) (bytes : List UInt8)
  | render (buf : Buffer)
  | next
  | sys (a : System.Act)

end GstSinkSystem

/-- The element with its writer and the readers.  The last two fields record the contents of the buffers
that were rendered, and of the one that is still to be announced. -/
structure GstSinkSystem where
  sys : System
  size : ℕ
  todo : List GstSinkSystem.Call
  blocks : List GstSinkSystem.Block
  rendered : List (List UInt8)
  sending : List (List UInt8)

namespace GstSinkSystem

open GstShmdataSink (inRange offset offset_eq_zero)

/-- At the end of `gst_shmdata_sink_on_caps`: the writer is made and the first access is asked for. -/
def init (lfd size : ℕ) : GstSinkSystem where
  sys := System.init lfd size
  size := size
  todo := [.access]
  blocks := []
  rendered := []
  sending := []

/-- The element holds its access and the upstream elements run. -/
def ready (s : GstSinkSystem) : Bool :=
  match s.todo, s.sys.w.pc with
  | [], .access => true
  | _, _ => false

/-- `gst_shmdata_sink_allocator_alloc`, for a block that is used as told. -/
def alloc (s : GstSinkSystem) (size : ℕ) (use : List Call) : GstSinkSystem :=
  { s with
    size := if s.size < size then size else s.size
    todo := if s.size < size then .resize size :: use else use }

/-- The end of `gst_shmdata_sink_render`. -/
def send (size : ℕ) : List Call := [.notify size, .release, .access]

/-- `gst_shmdata_sink_render`, up to its first call; a foreign buffer that is larger than `shmmax` is an
error. -/
def render (h : GstSinkHost) (s : GstSinkSystem) : Buffer → Option GstSinkSystem
  | .foreign buf =>
      if h.shmmax.toNat < buf.length then some s
      else
        some (alloc { s with rendered := s.rendered ++ [buf], sending := [buf] } buf.length
          (.extract buf :: send buf.length))
  | .block i =>
      s.blocks[i]?.map fun b =>
        { s with todo := send b.size, rendered := s.rendered ++ [b.bytes], sending := [b.bytes] }

/-- What is in the segment of the access once bytes are written to a block in it, as far as they fit. -/
def put (h : GstSinkHost) (s : GstSinkSystem) (bytes : List UInt8) : List UInt8 :=
  let mem := s.sys.mem s.sys.w.mem
  let o := offset h s.sys.w.mem
  mem.take o ++ Bytes.fill (mem.drop o) bytes

/-- A step of the system below. -/
def lift (s : GstSinkSystem) (a : System.Act) : Option GstSinkSystem :=
  (s.sys.step a).map fun sys => { s with sys := sys }

/-- A call of the streaming thread. -/
def call (h : GstSinkHost) (s : GstSinkSystem) : Call → Option GstSinkSystem
  | .resize size => s.lift (.shmResize size)
  | .grant size =>
      match s.sys.w.pc with
      | .access =>
          let bytes := ((s.sys.mem s.sys.w.mem).drop (offset h s.sys.w.mem)).take size
          some { s with blocks := s.blocks ++ [⟨s.sys.w.mem, size, bytes⟩] }
      | _ => none
  | .extract buf => s.lift (.write (s.put h buf))
  | .notify size => s.lift (.notifyClients size)
  | .release => s.lift .release
  | .access => s.lift (.call .getOneWriteAccess)

/-- One step.  A write to a block whose segment is gone ends the process and is no step; `initial-size` is
set between two buffers. -/
def step (h : GstSinkHost) (s : GstSinkSystem) : Act → Option GstSinkSystem
  | .setInitialSize value =>
      if s.ready then some (if inRange h.toGstHost value then { s with size := value.toNat } else s)
      else none
  | .alloc size => if s.ready then some (s.alloc size [.grant size]) else none
  | .fill i bytes =>
      if s.ready then
        s.blocks[i]?.bind fun b =>
          if b.seg = s.sys.w.mem ∧ bytes.length = b.size then
            lift { s with blocks := s.blocks.set i { b with bytes := bytes } } (.write (s.put h bytes))
          else none
      else none
  | .render buf => if s.ready then render h s buf else none
  | .next =>
      match s.todo with
      | [] => none
      | c :: todo => call h { s with todo := todo } c
  | .sys a =>
      if a.byUser then none
      else
        (s.sys.step a).map fun sys =>
          { s with
            sys := sys
            sending := if a.isWriter && s.sys.w.pc.notifies.isSome then [] else s.sending }

/-- The readers take the size as the sign they look for. -/
def Signals (s : GstSinkSystem) (size : ℕ) : Prop :=
  0 < size → s.sys.frame.seg = s.sys.w.shm ∨ s.sys.frame.size ≠ size

instance (s : GstSinkSystem) (size : ℕ) : Decidable (Signals s size) := inferInstanceAs (Decidable (_ → _))

/-- What the upstream elements have to mind, that `initial-size` is not set any more, and that no reset fires.
A block that is passed on still holds what was written to it, and a buffer that does not make the segment
grow has a size that is a right sign. -/
def Sound (s : GstSinkSystem) : Act → Prop
  | .setInitialSize _ => False
  | .render (.foreign buf) => buf.length ≤ s.size → s.Signals buf.length
  | .render (.block i) => ∀ b ∈ s.blocks[i]?,
      b.seg = s.sys.w.shm ∧ (s.sys.mem b.seg).take b.size = b.bytes ∧ s.Signals b.size
  | .sys .reset => False
  | _ => True

/-- No block is asked for, `initial-size` is not set any more, and no reset fires. -/
def Foreign (_ : GstSinkSystem) : Act → Prop
  | .setInitialSize _ | .alloc _ | .sys .reset => False
  | _ => True

instance (s : GstSinkSystem) (a : Act) : Decidable (Sound s a) :=
  match a with
  | .render (.foreign buf) => inferInstanceAs (Decidable (buf.length ≤ s.size → s.Signals buf.length))
  | .render (.block i) => inferInstanceAs (Decidable (∀ b ∈ s.blocks[i]?,
      b.seg = s.sys.w.shm ∧ (s.sys.mem b.seg).take b.size = b.bytes ∧ s.Signals b.size))
  | .setInitialSize _ | .sys .reset => inferInstanceAs (Decidable False)
  | .alloc _ | .fill _ _ | .next => inferInstanceAs (Decidable True)
  | .sys (.call _) | .sys .writer | .sys (.shmResize _) | .sys (.notifyClients _) | .sys (.write _)
  | .sys .release | .sys (.server _) | .sys .connect | .sys (.reader _) | .sys (.quit _)
  | .sys (.die _) => inferInstanceAs (Decidable True)

instance (s : GstSinkSystem) (a : Act) : Decidable (Foreign s a) :=
  match a with
  | .setInitialSize _ | .alloc _ | .sys .reset => inferInstanceAs (Decidable False)
  | .fill _ _ | .render _ | .next => inferInstanceAs (Decidable True)
  | .sys (.call _) | .sys .writer | .sys (.shmResize _) | .sys (.notifyClients _) | .sys (.write _)
  | .sys .release | .sys (.server _) | .sys .connect | .sys (.reader _) | .sys (.quit _)
  | .sys (.die _) => inferInstanceAs (Decidable True)

variable {h : GstSinkHost} {s t : GstSinkSystem} {a : Act}

/-! ### The places of the streaming thread -/

/-- What follows an allocation: a block is handed out, or a buffer is copied and announced. -/
inductive Rest (s : GstSinkSystem) (n : ℕ) : List Call → Prop
  | grant (hsend : s.sending = []) : Rest s n [.grant n]
  | extract {buf : List UInt8} (hsend : s.sending = [buf]) (hlen : buf.length = n) :
      Rest s n (.extract buf :: send n)

theorem Rest.congr {n : ℕ} {todo : List Call} (hr : Rest s n todo) (h : t.sending = s.sending) :
    Rest t n todo := by
  cases hr with
  | grant hsend => exact .grant (h.trans hsend)
  | extract hsend hlen => exact .extract (h.trans hsend) hlen

/-- The places of the streaming thread. -/
inductive Phase (s : GstSinkSystem) : Prop
  | ready (htodo : s.todo = []) (hpc : s.sys.w.pc = .access) (hn : s.sys.w.hasNotified = false)
      (hmem : s.sys.w.mem = s.sys.w.shm) (hsize : s.sys.w.shmSize = s.size) (hsend : s.sending = [])
  | acquiring (htodo : s.todo = [])
      (hpc : s.sys.w.pc = .writeStart .getOneWriteAccess ∨ s.sys.w.pc = .locked .getOneWriteAccess)
      (hsize : s.sys.w.shmSize = s.size) (hsend : s.sending = [])
  | resize {n : ℕ} {todo : List Call} (htodo : s.todo = .resize n :: todo) (hrest : Rest s n todo)
      (hpc : s.sys.w.pc = .access) (hn : s.sys.w.hasNotified = false) (hsize : s.size = n)
      (hlt : s.sys.frame.size < n)
  | create {n : ℕ} (hrest : Rest s n s.todo) (hpc : s.sys.w.pc = .create n .access)
      (hn : s.sys.w.hasNotified = false) (hsize : s.size = n) (hlt : s.sys.frame.size < n)
  | rest {n : ℕ} (hrest : Rest s n s.todo) (hpc : s.sys.w.pc = .access)
      (hn : s.sys.w.hasNotified = false) (hmem : s.sys.w.mem = s.sys.w.shm)
      (hsize : s.sys.w.shmSize = s.size) (hle : n ≤ s.size) (hsign : s.sending ≠ [] → s.Signals n)
  | send {n : ℕ} {buf : List UInt8} (htodo : s.todo = send n) (hpc : s.sys.w.pc = .access)
      (hn : s.sys.w.hasNotified = false) (hsize : s.sys.w.shmSize = s.size) (hsend : s.sending = [buf])
      (hle : n ≤ s.size) (hsign : s.Signals n) (hbuf : (s.sys.mem s.sys.w.shm).take n = buf)
  | notify {n : ℕ} {buf : List UInt8} (htodo : s.todo = [.release, .access])
      (hpc : s.sys.w.pc = .notify n .access) (hflag : s.sys.w.hasNotified = true)
      (hsize : s.sys.w.shmSize = s.size)
      (hsend : s.sending = [buf]) (hle : n ≤ s.size) (hsign : s.Signals n)
      (hbuf : (s.sys.mem s.sys.w.shm).take n = buf)
  | notifying (htodo : s.todo = [.release, .access])
      (hpc : s.sys.w.pc = .notifying .access ∨ (∃ num, s.sys.w.pc = .commit num .access) ∨
        s.sys.w.pc = .access)
      (hflag : s.sys.w.hasNotified = true) (hsize : s.sys.w.shmSize = s.size) (hsend : s.sending = [])
  | releasing (htodo : s.todo = [.access]) (hpc : s.sys.w.pc = .writeEnd ∨ s.sys.w.pc = .idle)
      (hsize : s.sys.w.shmSize = s.size) (hsend : s.sending = [])

/-- The invariant of the element. -/
structure Inv (s : GstSinkSystem) : Prop where
  phase : Phase s
  le : s.sys.frame.size ≤ s.size
  blocks : ∀ b ∈ s.blocks, b.size ≤ s.size

theorem inv_init (lfd size : ℕ) : Inv (init lfd size) where
  phase := .releasing rfl (Or.inr rfl) rfl rfl
  le := Nat.zero_le _
  blocks := by simp [init]

theorem ready_iff : s.ready = true ↔ s.todo = [] ∧ s.sys.w.pc = .access := by
  unfold ready
  split
  · next h1 h2 => simp [h1, h2]
  · next h => exact iff_of_false (by simp) fun ⟨h1, h2⟩ => h h1 h2

/-- With nothing left to do and the access at hand, the thread is ready. -/
theorem Phase.of_ready (hp : Phase s) (hr : s.ready = true) :
    s.sys.w.hasNotified = false ∧ s.sys.w.mem = s.sys.w.shm ∧ s.sys.w.shmSize = s.size ∧
      s.sending = [] := by
  obtain ⟨htodo', hpc'⟩ := ready_iff.1 hr
  cases hp with
  | ready htodo hpc hn hmem hsize hsend => exact ⟨hn, hmem, hsize, hsend⟩
  | acquiring htodo hpc => rcases hpc with hpc | hpc <;> rw [hpc] at hpc' <;> cases hpc'
  | create hrest hpc => rw [hpc] at hpc'; cases hpc'
  | rest hrest => rw [htodo'] at hrest; cases hrest
  | resize htodo | send htodo | notify htodo | notifying htodo | releasing htodo =>
      rw [htodo'] at htodo; cases htodo

/-- A step that moves neither the writer nor the frames. -/
theorem Phase.congr (hp : Phase s) (h1 : t.sys.w = s.sys.w) (h2 : t.sys.frame = s.sys.frame)
    (h3 : t.sys.mem = s.sys.mem) (h4 : t.size = s.size) (h5 : t.todo = s.todo)
    (h6 : t.sending = s.sending) : Phase t := by
  have hsignals (n : ℕ) : s.Signals n → t.Signals n := by
    unfold Signals
    rw [h1, h2]
    exact id
  cases hp with
  | ready htodo hpc hn hmem hsize hsend =>
      exact .ready (h5.trans htodo) (by rw [h1]; exact hpc) (by rw [h1]; exact hn) (by rw [h1]; exact hmem)
        (by rw [h1, h4]; exact hsize) (h6.trans hsend)
  | acquiring htodo hpc hsize hsend =>
      exact .acquiring (h5.trans htodo) (by rw [h1]; exact hpc) (by rw [h1, h4]; exact hsize)
        (h6.trans hsend)
  | resize htodo hr hpc hn hsize hlt =>
      exact .resize (h5.trans htodo) (hr.congr h6) (by rw [h1]; exact hpc) (by rw [h1]; exact hn)
        (h4.trans hsize) (by rw [h2]; exact hlt)
  | create hr hpc hn hsize hlt =>
      exact .create (h5 ▸ hr.congr h6) (by rw [h1]; exact hpc) (by rw [h1]; exact hn) (h4.trans hsize)
        (by rw [h2]; exact hlt)
  | rest hr hpc hn hmem hsize hle hsign =>
      exact .rest (h5 ▸ hr.congr h6) (by rw [h1]; exact hpc) (by rw [h1]; exact hn) (by rw [h1]; exact hmem)
        (by rw [h1, h4]; exact hsize) (h4 ▸ hle) fun hne => hsignals _ (hsign (h6 ▸ hne))
  | send htodo hpc hn hsize hsend hle hsign hbuf =>
      exact .send (h5.trans htodo) (by rw [h1]; exact hpc) (by rw [h1]; exact hn)
        (by rw [h1, h4]; exact hsize) (h6.trans hsend) (h4 ▸ hle) (hsignals _ hsign)
        (by rw [h1, h3]; exact hbuf)
  | notify htodo hpc hflag hsize hsend hle hsign hbuf =>
      exact .notify (h5.trans htodo) (by rw [h1]; exact hpc) (by rw [h1]; exact hflag)
        (by rw [h1, h4]; exact hsize) (h6.trans hsend) (h4 ▸ hle) (hsignals _ hsign)
        (by rw [h1, h3]; exact hbuf)
  | notifying htodo hpc hflag hsize hsend =>
      exact .notifying (h5.trans htodo) (by rw [h1]; exact hpc) (by rw [h1]; exact hflag)
        (by rw [h1, h4]; exact hsize) (h6.trans hsend)
  | releasing htodo hpc hsize hsend =>
      exact .releasing (h5.trans htodo) (by rw [h1]; exact hpc) (by rw [h1, h4]; exact hsize)
        (h6.trans hsend)

/-! ### What is published -/

open Shmdata.System (contentsOfFrame contentsOfCall Filled Announces)

/-- The bytes that a step of the system publishes. -/
def publishedBy (s : System) (a : System.Act) : List (List UInt8) :=
  ((System.events contentsOfFrame contentsOfCall s a).filterMap Event.published?).map Prod.snd

/-- The bytes that a run of the system publishes. -/
def published (s : System) (as : List System.Act) : List (List UInt8) :=
  ((trace (restrict System.step Filled) (System.events contentsOfFrame contentsOfCall) s
    as).filterMap Event.published?).map Prod.snd

theorem publishedBy_eq_nil {s : System} {a : System.Act}
    (h : a.isWriter = true → s.w.pc.notifies = none) : publishedBy s a = [] := by
  cases a with
  | writer =>
      have hnone := h rfl
      unfold publishedBy System.events
      cases hpc : s.w.pc with
      | notify n next => simp [hpc] at hnone
      | _ => rfl
  | reader r =>
      unfold publishedBy System.events
      cases hpc : (s.rd r).pc <;> simp [hpc, Event.published?]
  | _ => rfl

/-- A step is matched by steps of a careful writer, which publish what is no longer to be announced. -/
def Matched (s t : GstSinkSystem) : Prop :=
  ∃ as new, exec (restrict System.step Filled) s.sys as = some t.sys ∧
    t.rendered = s.rendered ++ new ∧ published s.sys as ++ t.sending = s.sending ++ new

/-- A step of the element alone. -/
theorem matched_alone {new : List (List UInt8)} (h1 : t.sys = s.sys)
    (h2 : t.rendered = s.rendered ++ new) (h3 : t.sending = s.sending ++ new) : Matched s t :=
  ⟨[], new, congrArg some h1.symm, h2, h3⟩

/-- A step of the system. -/
theorem matched_of_step {b : System.Act} (hf : Filled s.sys b) (hst : s.sys.step b = some t.sys)
    (h2 : t.rendered = s.rendered) (h3 : publishedBy s.sys b ++ t.sending = s.sending) :
    Matched s t := by
  have hstep : restrict System.step Filled s.sys b = some t.sys := restrict_eq_some.2 ⟨hf, hst⟩
  refine ⟨[b], [], exec_cons_eq_some.2 ⟨t.sys, hstep, rfl⟩, h2.trans (List.append_nil _).symm, ?_⟩
  rw [published, trace_cons [] hstep, trace_nil, List.append_nil, List.append_nil]
  exact h3

/-! ### The acts -/

/-- The element makes room, as its field `size` tells. -/
theorem Inv.alloc (hi : Inv s) (hr : s.ready = true) {u : GstSinkSystem} {n : ℕ} {use : List Call}
    (h1 : u.sys = s.sys) (h2 : u.size = s.size) (h3 : u.blocks = s.blocks)
    (hrest : Rest (u.alloc n use) n use) (hsign : u.sending ≠ [] → n ≤ s.size → s.Signals n) :
    Inv (u.alloc n use) := by
  obtain ⟨-, hpc⟩ := ready_iff.1 hr
  obtain ⟨hn, hmem, hsize, -⟩ := hi.phase.of_ready hr
  by_cases hlt : s.size < n
  · have halloc : u.alloc n use = { u with size := n, todo := .resize n :: use } := by
      rw [GstSinkSystem.alloc, h2, if_pos hlt, if_pos hlt]
    rw [halloc] at hrest ⊢
    exact
      { phase := .resize rfl hrest (by rw [h1]; exact hpc) (by rw [h1]; exact hn) rfl
          (by rw [h1]; exact hi.le.trans_lt hlt)
        le := by rw [h1]; exact hi.le.trans hlt.le
        blocks := fun b hb => (hi.blocks b (h3 ▸ hb)).trans hlt.le }
  · have halloc : u.alloc n use = { u with todo := use } := by
      rw [GstSinkSystem.alloc, h2, if_neg hlt, if_neg hlt, ← h2]
    rw [halloc] at hrest ⊢
    have hle := not_lt.1 hlt
    exact
      { phase := .rest hrest (by rw [h1]; exact hpc) (by rw [h1]; exact hn) (by rw [h1]; exact hmem)
          (by rw [h1]; exact hsize.trans h2.symm) (h2.symm ▸ hle) fun hne => by
            have hsignals := hsign hne hle
            unfold Signals at hsignals ⊢
            rw [h1]
            exact hsignals
        le := by rw [h1, h2]; exact hi.le
        blocks := fun b hb => by rw [h2]; exact hi.blocks b (h3 ▸ hb) }

/-- A step of the library, the server or a reader that is not the writer's. -/
theorem other_of_step {b : System.Act} {u : System} (hu : b.byUser = false) (hw : b.isWriter = false)
    (h : s.sys.step b = some u) : u.w = s.sys.w ∧ u.frame = s.sys.frame ∧ u.mem = s.sys.mem := by
  cases System.trans_of_step h with
  | call | shmResize | notifyIgnored | notifyClients | write | release => cases hu
  | writeStart | locked | create | notifyLock | notifySend | notifyUnlock | commit | commitNone | memcpy
  | writeEnd => cases hw
  | _ => exact ⟨rfl, rfl, rfl⟩

/-- What holds after a step of the writer inside a call. -/
structure Written (s : GstSinkSystem) (u : System) : Prop where
  announces : Announces s.sys
  inv : Inv { s with sys := u, sending := if s.sys.w.pc.notifies.isSome then [] else s.sending }
  published : publishedBy s.sys .writer ++ (if s.sys.w.pc.notifies.isSome then [] else s.sending) =
    s.sending

/-- A step that announces nothing. -/
theorem written_of {u : System} (hi : Inv s) (hnone : s.sys.w.pc.notifies = none)
    (hframe : u.frame = s.sys.frame) (hp : Phase { s with sys := u }) : Written s u where
  announces size hsize := by
    rw [hnone] at hsize
    cases hsize
  inv := by
    rw [hnone, Option.isSome_none, if_neg Bool.false_ne_true]
    exact
      { phase := hp
        le := by rw [hframe]; exact hi.le
        blocks := hi.blocks }
  published := by
    rw [publishedBy_eq_nil fun _ => hnone, hnone, Option.isSome_none, if_neg Bool.false_ne_true,
      List.nil_append]

/-- **A step of the writer inside a call of the element.** -/
theorem Inv.writer (hi : Inv s) {u : System} (h : s.sys.step .writer = some u) : Written s u := by
  cases hi.phase with
  | ready _ hpc | resize _ _ hpc | rest _ hpc | send _ hpc =>
      simp [System.step, System.writerStep, hpc] at h
  | acquiring htodo hpc hsize hsend =>
      rcases hpc with hpc | hpc
      · simp only [System.step, System.writerStep, hpc, Option.map_eq_some_iff] at h
        obtain ⟨f, -, rfl⟩ := h
        exact written_of hi (by rw [hpc]; rfl) rfl (.acquiring htodo (Or.inr rfl) hsize hsend)
      · simp only [System.step, System.writerStep, hpc, Option.some_inj] at h
        subst h
        exact written_of hi (by rw [hpc]; rfl) rfl (.ready htodo rfl rfl rfl hsize hsend)
  | @create n hrest hpc hn hsize hlt =>
      simp only [System.step, System.writerStep, hpc, Option.some_inj] at h
      subst h
      exact written_of hi (by rw [hpc]; rfl) rfl
        (.rest (hrest.congr rfl) rfl hn rfl hsize.symm hsize.ge fun _ _ => Or.inr hlt.ne)
  | @notify n buf htodo hpc hflag hsize hsend hle hsign hbuf =>
      simp only [System.step, System.writerStep, hpc, Option.map_eq_some_iff] at h
      obtain ⟨srv, -, rfl⟩ := h
      have hsome : s.sys.w.pc.notifies.isSome = true := by rw [hpc]; rfl
      exact
        { announces := fun size hm hpos => by
            obtain rfl : n = size := by simpa [hpc] using hm
            exact hsign hpos
          inv := by
            rw [if_pos hsome]
            exact
              { phase := .notifying htodo (Or.inl rfl) hflag hsize rfl
                le := hle
                blocks := hi.blocks }
          published := by
            have hone : publishedBy s.sys .writer = [(s.sys.mem s.sys.w.shm).take n] := by
              simp [publishedBy, System.events, hpc, Event.published?, contentsOfFrame,
                Writer.Next.data]
            rw [hone, hbuf, if_pos hsome, hsend, List.append_nil] }
  | notifying htodo hpc hflag hsize hsend =>
      rcases hpc with hpc | ⟨num, hpc⟩ | hpc
      · have hnone : s.sys.w.pc.notifies = none := by rw [hpc]; rfl
        have htrans := System.trans_of_step h
        cases htrans with
        | notifySend hpc' hn hsrv =>
            exact written_of hi hnone rfl (.notifying htodo (Or.inl hpc) hflag hsize hsend)
        | @notifyUnlock next srv hpc' hsrv =>
            obtain rfl : Writer.Next.access = next := by simpa [hpc] using hpc'
            exact written_of hi hnone rfl
              (.notifying htodo (Or.inr (Or.inl ⟨_, rfl⟩)) hflag hsize hsend)
        | writeStart hpc' | locked hpc' | create hpc' | notifyLock hpc' | commit hpc' | commitNone hpc'
        | memcpy hpc' | writeEnd hpc' =>
            rw [hpc] at hpc'
            cases hpc'
      · have hnone : s.sys.w.pc.notifies = none := by rw [hpc]; rfl
        simp only [System.step, System.writerStep, hpc] at h
        split at h
        · obtain ⟨f, -, rfl⟩ := Option.map_eq_some_iff.1 h
          exact written_of hi hnone rfl (.notifying htodo (Or.inr (Or.inr rfl)) hflag hsize hsend)
        · obtain rfl := Option.some.inj h
          exact written_of hi hnone rfl (.notifying htodo (Or.inr (Or.inr rfl)) hflag hsize hsend)
      · simp [System.step, System.writerStep, hpc] at h
  | releasing htodo hpc hsize hsend =>
      rcases hpc with hpc | hpc
      · simp only [System.step, System.writerStep, hpc, Option.map_eq_some_iff] at h
        obtain ⟨f, -, rfl⟩ := h
        exact written_of hi (by rw [hpc]; rfl) rfl (.releasing htodo (Or.inr rfl) hsize hsend)
      · simp [System.step, System.writerStep, hpc] at h

theorem put_eq (hbits : h.memoryAlignment.bits ≤ 12) (bytes : List UInt8) :
    s.put h bytes = Bytes.fill (s.sys.mem s.sys.w.mem) bytes := by
  rw [put, offset_eq_zero hbits, List.take_zero, List.drop_zero, List.nil_append]

/-- A step of the element as the writer's user. -/
theorem matched_of_byUser {b : System.Act} (hst : s.sys.step b = some t.sys) (hu : b.byUser = true)
    (hn : b.early = true → s.sys.w.hasNotified = false) (h2 : t.rendered = s.rendered)
    (h3 : t.sending = s.sending) : Matched s t := by
  refine matched_of_step (b := b) ?_ hst h2 ?_
  · cases b with
    | call | notifyClients | release => exact ⟨⟨trivial, fun h => by cases h⟩, fun h => by cases h⟩
    | shmResize n => exact ⟨⟨hn rfl, fun h => by cases h⟩, fun h => by cases h⟩
    | write bytes => exact ⟨⟨trivial, fun h => by cases h⟩, fun _ => hn rfl⟩
    | _ => cases hu
  · have hnone (hw : b.isWriter = true) : s.sys.w.pc.notifies = none := by
      cases b with
      | writer => cases hu
      | _ => cases hw
    rw [publishedBy_eq_nil hnone, List.nil_append, h3]

/-- **The next call of the streaming thread.** -/
theorem Inv.next (hbits : h.memoryAlignment.bits ≤ 12) (hi : Inv s) {c : Call} {todo : List Call}
    (htodo : s.todo = c :: todo) (hst : call h { s with todo := todo } c = some t) :
    Inv t ∧ Matched s t := by
  cases hi.phase with
  | ready htodo' | acquiring htodo' =>
      rw [htodo'] at htodo
      cases htodo
  | @resize n _ htodo' hrest hpc hn hsize hlt =>
      obtain ⟨rfl, rfl⟩ := List.cons.inj (htodo'.symm.trans htodo)
      obtain ⟨u, hu, rfl⟩ := Option.map_eq_some_iff.1 hst
      refine ⟨?_, matched_of_byUser hu rfl (fun _ => hn) rfl rfl⟩
      simp only [System.step, hpc, Option.some_inj] at hu
      subst hu
      exact
        { phase := .create (hrest.congr rfl) rfl hn hsize hlt
          le := hi.le
          blocks := hi.blocks }
  | create hrest hpc =>
      rw [htodo] at hrest
      cases hrest with
      | grant => simp [call, hpc] at hst
      | extract => simp [call, lift, System.step, hpc] at hst
  | @rest n hrest hpc hn hmem hsize hle hsign =>
      rw [htodo] at hrest
      cases hrest with
      | grant hsend =>
          simp only [call, hpc, Option.some_inj] at hst
          subst hst
          refine ⟨?_, matched_alone rfl (List.append_nil _).symm (List.append_nil _).symm⟩
          exact
            { phase := .ready rfl hpc hn hmem hsize hsend
              le := hi.le
              blocks := fun b hb => by
                rcases List.mem_append.1 hb with hb | hb
                · exact hi.blocks b hb
                · rw [List.mem_singleton.1 hb]
                  exact hle }
      | @extract buf hsend hlen =>
          obtain ⟨u, hu, rfl⟩ := Option.map_eq_some_iff.1 hst
          refine ⟨?_, matched_of_byUser hu rfl (fun _ => hn) rfl rfl⟩
          simp only [System.step, hpc, Option.ite_none_right_eq_some, Option.some_inj] at hu
          obtain ⟨-, rfl⟩ := hu
          have hbuf : (Function.update s.sys.mem s.sys.w.mem (put h { s with todo := send n } buf)
              s.sys.w.shm).take n = buf := by
            rw [← hmem, Function.update_self, put_eq hbits, ← hlen, Bytes.take_fill]
          exact
            { phase := .send rfl hpc hn hsize hsend hle (hsign (by rw [hsend]; simp)) hbuf
              le := hi.le
              blocks := hi.blocks }
  | @send n buf htodo' hpc hn hsize hsend hle hsign hbuf =>
      obtain ⟨rfl, rfl⟩ := List.cons.inj (htodo'.symm.trans htodo)
      obtain ⟨u, hu, rfl⟩ := Option.map_eq_some_iff.1 hst
      refine ⟨?_, matched_of_byUser hu rfl (fun h => by cases h) rfl rfl⟩
      simp only [System.step, hpc, hn, Bool.false_eq_true, if_false, Option.some_inj] at hu
      subst hu
      exact
        { phase := .notify rfl rfl rfl hsize hsend hle hsign hbuf
          le := hi.le
          blocks := hi.blocks }
  | notify htodo' hpc =>
      obtain ⟨rfl, rfl⟩ := List.cons.inj (htodo'.symm.trans htodo)
      simp [call, lift, System.step, hpc] at hst
  | notifying htodo' hpc hflag hsize hsend =>
      obtain ⟨rfl, rfl⟩ := List.cons.inj (htodo'.symm.trans htodo)
      rcases hpc with hpc | ⟨num, hpc⟩ | hpc
      · simp [call, lift, System.step, hpc] at hst
      · simp [call, lift, System.step, hpc] at hst
      · obtain ⟨u, hu, rfl⟩ := Option.map_eq_some_iff.1 hst
        refine ⟨?_, matched_of_byUser hu rfl (fun h => by cases h) rfl rfl⟩
        simp only [System.step, hpc, Option.some_inj] at hu
        subst hu
        exact
          { phase := .releasing rfl (Or.inl rfl) hsize hsend
            le := hi.le
            blocks := hi.blocks }
  | releasing htodo' hpc hsize hsend =>
      obtain ⟨rfl, rfl⟩ := List.cons.inj (htodo'.symm.trans htodo)
      rcases hpc with hpc | hpc
      · simp [call, lift, System.step, hpc] at hst
      · obtain ⟨u, hu, rfl⟩ := Option.map_eq_some_iff.1 hst
        refine ⟨?_, matched_of_byUser hu rfl (fun h => by cases h) rfl rfl⟩
        simp only [System.step, hpc, Option.some_inj] at hu
        subst hu
        exact
          { phase := .acquiring rfl (Or.inl rfl) hsize hsend
            le := hi.le
            blocks := hi.blocks }

/-- **Every step keeps the places, and is matched by steps of a careful writer.** -/
theorem spec_of_step (hbits : h.memoryAlignment.bits ≤ 12) (hi : Inv s) (ha : Sound s a)
    (hst : step h s a = some t) : Inv t ∧ Matched s t := by
  cases a with
  | setInitialSize => cases ha
  | alloc n =>
      obtain ⟨hr, hst⟩ := Option.ite_none_right_eq_some.1 hst
      obtain rfl := Option.some.inj hst
      obtain ⟨-, -, -, hsend⟩ := hi.phase.of_ready hr
      exact ⟨hi.alloc hr rfl rfl rfl (.grant hsend) fun hne => absurd hsend hne,
        matched_alone rfl (List.append_nil _).symm (List.append_nil _).symm⟩
  | fill i bytes =>
      obtain ⟨hr, hst⟩ := Option.ite_none_right_eq_some.1 hst
      obtain ⟨b, hb, hst⟩ := Option.bind_eq_some_iff.1 hst
      obtain ⟨⟨hseg, hlen⟩, hst⟩ := Option.ite_none_right_eq_some.1 hst
      obtain ⟨u, hu, rfl⟩ := Option.map_eq_some_iff.1 hst
      obtain ⟨htodo, hpc⟩ := ready_iff.1 hr
      obtain ⟨hn, hmem, hsize, hsend⟩ := hi.phase.of_ready hr
      refine ⟨?_, matched_of_byUser hu rfl (fun _ => hn) rfl rfl⟩
      simp only [System.step, hpc, Option.ite_none_right_eq_some, Option.some_inj] at hu
      obtain ⟨-, rfl⟩ := hu
      exact
        { phase := .ready htodo hpc hn hmem hsize hsend
          le := hi.le
          blocks := fun b' hb' => by
            rcases List.mem_or_eq_of_mem_set hb' with hb' | rfl
            · exact hi.blocks b' hb'
            · exact hi.blocks b (List.mem_of_getElem? hb) }
  | render buf =>
      obtain ⟨hr, hst⟩ := Option.ite_none_right_eq_some.1 hst
      obtain ⟨htodo, hpc⟩ := ready_iff.1 hr
      obtain ⟨hn, hmem, hsize, hsend⟩ := hi.phase.of_ready hr
      cases buf with
      | foreign buf =>
          simp only [render] at hst
          split at hst
          · -- the buffer is larger than `shmmax`
            obtain rfl := Option.some.inj hst
            exact ⟨hi, matched_alone rfl (List.append_nil _).symm (List.append_nil _).symm⟩
          · obtain rfl := Option.some.inj hst
            refine ⟨hi.alloc hr rfl rfl rfl (.extract rfl rfl) fun _ => ha, ?_⟩
            exact matched_alone rfl rfl (by rw [hsend]; rfl)
      | block i =>
          obtain ⟨b, hb, rfl⟩ := Option.map_eq_some_iff.1 hst
          obtain ⟨hseg, hbytes, hsign⟩ := ha b hb
          refine ⟨?_, matched_alone rfl rfl (by rw [hsend]; rfl)⟩
          exact
            { phase := .send rfl hpc hn hsize rfl (hi.blocks b (List.mem_of_getElem? hb)) hsign
                (hseg ▸ hbytes)
              le := hi.le
              blocks := hi.blocks }
  | next =>
      cases htodo : s.todo with
      | nil => simp [step, htodo] at hst
      | cons c todo =>
          simp only [step, htodo] at hst
          exact hi.next hbits htodo hst
  | sys b =>
      simp only [step] at hst
      split at hst
      · cases hst
      · next hu =>
          obtain ⟨u, hu', rfl⟩ := Option.map_eq_some_iff.1 hst
          by_cases hw : b.isWriter = true
          · cases b with
            | writer =>
                have hwr := hi.writer hu'
                simp only [System.Act.isWriter, Bool.true_and]
                exact ⟨hwr.inv, matched_of_step (b := .writer)
                  ⟨⟨trivial, fun _ => hwr.announces⟩, fun h => by cases h⟩ hu' rfl hwr.published⟩
            | _ => cases hw
          · rw [Bool.not_eq_true] at hw
            obtain ⟨h1, h2, h3⟩ := other_of_step (Bool.not_eq_true _ ▸ hu) hw hu'
            simp only [hw, Bool.false_and, Bool.false_eq_true, if_false]
            refine ⟨?_, ?_⟩
            · exact
                { phase := hi.phase.congr h1 h2 h3 rfl rfl rfl
                  le := by rw [h2]; exact hi.le
                  blocks := hi.blocks }
            · refine matched_of_step (b := b) ?_ hu' rfl ?_
              · cases b with
                | call | shmResize | notifyClients | write | release => cases (Bool.not_eq_true _ ▸ hu)
                | writer => cases hw
                | reset => exact absurd ha not_false
                | _ => exact ⟨⟨trivial, fun h => by cases h⟩, fun h => by cases h⟩
              · rw [publishedBy_eq_nil fun h => by rw [hw] at h; cases h]
                rfl

/-! ### Runs -/

/-- The invariant of the runs. -/
theorem runs_of_exec (hbits : h.memoryAlignment.bits ≤ 12) {lfd size : ℕ} {as : List Act}
    (hexec : exec (restrict (step h) Sound) (init lfd size) as = some s) :
    (∃ bs, exec (restrict System.step Filled) (System.init lfd size) bs = some s.sys ∧
      published (System.init lfd size) bs ++ s.sending = s.rendered) ∧ Inv s := by
  refine exec_invariant (P := fun s =>
    (∃ bs, exec (restrict System.step Filled) (System.init lfd size) bs = some s.sys ∧
      published (System.init lfd size) bs ++ s.sending = s.rendered) ∧ Inv s)
    (fun s a t hs hst => ?_) hexec ⟨⟨[], rfl, rfl⟩, inv_init lfd size⟩
  obtain ⟨⟨bs, hbs, hpub⟩, hi⟩ := hs
  obtain ⟨ha, hst⟩ := restrict_eq_some.1 hst
  obtain ⟨hi', cs, new, hcs, hnew, hsend⟩ := spec_of_step hbits hi ha hst
  refine ⟨⟨bs ++ cs, exec_append_eq_some.2 ⟨_, hbs, hcs⟩, ?_⟩, hi'⟩
  have happ : published (System.init lfd size) (bs ++ cs) =
      published (System.init lfd size) bs ++ published s.sys cs := by
    rw [published, trace_append cs hbs, List.filterMap_append, List.map_append]
    rfl
  rw [happ, List.append_assoc, hsend, ← List.append_assoc, hpub, hnew]

/-- What was rendered is in the log, but for the buffer that is still to be announced, and the readers were
given pieces of it. -/
theorem pieces_of_exec (hbits : h.memoryAlignment.bits ≤ 12) {lfd size : ℕ} {as : List Act}
    (hexec : exec (restrict (step h) Sound) (init lfd size) as = some s) :
    ∃ log, s.rendered = log ++ s.sending ∧ log.length = s.sys.announced ∧
      ∀ r, System.Given Reader.Call.bytes s.sys r log := by
  obtain ⟨⟨bs, hbs, hpub⟩, -⟩ := runs_of_exec hbits hexec
  obtain ⟨cs, c, hcs, hc, htr⟩ := System.tracks_of_filled hbs
  have hlog : c.log.map Prod.snd = published (System.init lfd size) bs := by
    rw [Channel.log_eq hcs, htr]
    rfl
  refine ⟨c.log.map Prod.snd, by rw [hlog, hpub], by rw [List.length_map, hc.announced], fun r => ?_⟩
  exact (hc.given (Channel.inv_of_exec hcs) r).map Prod.snd

/-- **A copy never runs past the end of the segment.** -/
theorem fits_of_exec (hbits : h.memoryAlignment.bits ≤ 12) {lfd size : ℕ} {as : List Act}
    (hexec : exec (restrict (step h) Sound) (init lfd size) as = some s) {buf : List UInt8}
    {todo : List Call} (htodo : s.todo = .extract buf :: todo) (hpc : s.sys.w.pc = .access) :
    buf.length ≤ (s.sys.mem s.sys.w.mem).length := by
  obtain ⟨⟨bs, hbs, -⟩, hi⟩ := runs_of_exec hbits hexec
  have hlen := (System.current_of_exec (System.careful_of_filled hbs)).1.segs.length.1
  cases hi.phase with
  | ready htodo' | acquiring htodo' | resize htodo' | send htodo' | notify htodo' | notifying htodo'
  | releasing htodo' =>
      rw [htodo'] at htodo
      cases htodo
  | create _ hpc' =>
      rw [hpc'] at hpc
      cases hpc
  | rest hrest _ _ hmem hsize hle =>
      rw [htodo] at hrest
      cases hrest with
      | extract _ hn => rw [hmem, hlen, hsize, hn]; exact hle

/-- A host with the alignment of `malloc` and segments at a page. -/
def sinkHost : GstSinkHost where
  toGstHost := { GstShmdataSink.host with shmmax := 65536 }
  attached := fun _ => GstShmdataSink.segmentAt 1 (by decide)

/-- A reader connects, and the element takes its first access. -/
def started : List Act :=
  System.connectReader.map .sys ++ [.next, .sys .writer, .sys .writer]

/-- The announcement of a buffer, up to the callback of the reader, and the next access. -/
def announced : List Act :=
  [.next, .sys .writer, .sys .writer, .sys .writer, .sys .writer, .next, .sys .writer, .next,
    .sys (.reader 0), .sys (.reader 0), .sys (.reader 0), .sys (.reader 0), .sys .writer, .sys .writer]

/-- A buffer of two bytes is copied into a larger segment; then a block of three bytes is asked for, which makes
the segment grow again, written to and passed on. -/
def rendering : List Act :=
  started ++ [.render (.foreign [1, 2]), .next, .sys .writer, .next] ++ announced ++
    [.alloc 3, .next, .sys .writer, .next, .fill 0 [7, 8, 9], .render (.block 0)] ++ announced

/-- **The property `initial-size` hides the size of the segment**: when it is set after the caps event, a buffer
is copied past the end of the segment. -/
theorem overrun_of_initialSize :
    ∃ s buf todo, exec (step sinkHost) (init 3 1)
        (started ++ [.setInitialSize 100, .render (.foreign [1, 2, 3, 4])]) = some s ∧
      s.todo = .extract buf :: todo ∧ s.sys.w.pc = .access ∧
      (s.sys.mem s.sys.w.mem).length < buf.length := by
  have hrun : exec (step sinkHost) (init 3 1)
      (started ++ [.setInitialSize 100, .render (.foreign [1, 2, 3, 4])]) = some _ := rfl
  exact ⟨_, _, _, hrun, rfl, rfl, by decide⟩

/-! ### Buffers with memory of their own -/

/-- What holds as long as no block is asked for: outside of a rendering the last frame is in the segment of
the writer. -/
structure Plain (s : GstSinkSystem) : Prop where
  blocks : s.blocks = []
  grant : ∀ n, .grant n ∉ s.todo
  seg : s.sending = [] → s.sys.frame.seg = s.sys.w.shm

theorem plain_init (lfd size : ℕ) : Plain (init lfd size) where
  blocks := rfl
  grant := by simp [init]
  seg _ := rfl

/-- No size is a wrong sign. -/
theorem Plain.sound (hp : Plain s) (hi : Inv s) (ha : Foreign s a) (hst : step h s a = some t) :
    Sound s a := by
  cases a with
  | setInitialSize | alloc => cases ha
  | fill | next => trivial
  | render buf =>
      obtain ⟨hr, hst⟩ := Option.ite_none_right_eq_some.1 hst
      obtain ⟨-, -, -, hsend⟩ := hi.phase.of_ready hr
      cases buf with
      | foreign buf => exact fun _ _ => Or.inl (hp.seg hsend)
      | block i =>
          intro b hb
          rw [hp.blocks] at hb
          cases hb
  | sys b =>
      cases b with
      | reset => cases ha
      | _ => trivial

/-- A step of the user leaves the frame and the segment of the writer alone. -/
theorem Plain.lift (hp : Plain s) {b : System.Act} (hb : b.byUser = true) {todo : List Call}
    (htodo : ∀ n, .grant n ∉ todo) (hst : GstSinkSystem.lift { s with todo := todo } b = some t) :
    Plain t := by
  obtain ⟨u, hu, rfl⟩ := Option.map_eq_some_iff.1 hst
  have hsame : u.frame = s.sys.frame ∧ u.w.shm = s.sys.w.shm := by
    cases System.trans_of_step hu with
    | call | shmResize | notifyIgnored | notifyClients | write | release => exact ⟨rfl, rfl⟩
    | _ => cases hb
  exact
    { blocks := hp.blocks
      grant := htodo
      seg := fun h => by
        show u.frame.seg = u.w.shm
        rw [hsame.1, hsame.2]
        exact hp.seg h }

/-- **Every step keeps it.** -/
theorem Plain.step (hp : Plain s) (hi : Inv s) (ha : Foreign s a) (hst : step h s a = some t) :
    Plain t := by
  cases a with
  | setInitialSize | alloc => cases ha
  | fill i bytes =>
      obtain ⟨-, hst⟩ := Option.ite_none_right_eq_some.1 hst
      obtain ⟨b, hb, -⟩ := Option.bind_eq_some_iff.1 hst
      rw [hp.blocks] at hb
      cases hb
  | render buf =>
      obtain ⟨-, hst⟩ := Option.ite_none_right_eq_some.1 hst
      cases buf with
      | foreign buf =>
          simp only [render] at hst
          split at hst
          · exact Option.some.inj hst ▸ hp
          · obtain rfl := Option.some.inj hst
            exact
              { blocks := hp.blocks
                grant := fun n hn => by
                  simp only [GstSinkSystem.alloc, send] at hn
                  split at hn <;> simp at hn
                seg := fun h => by cases h }
      | block i =>
          obtain ⟨b, hb, -⟩ := Option.map_eq_some_iff.1 hst
          rw [hp.blocks] at hb
          cases hb
  | next =>
      cases htodo : s.todo with
      | nil => simp [GstSinkSystem.step, htodo] at hst
      | cons c todo =>
          have hgrant (n : ℕ) : .grant n ∉ todo := fun hn =>
            hp.grant n (htodo ▸ List.mem_cons_of_mem _ hn)
          simp only [GstSinkSystem.step, htodo] at hst
          cases c with
          | grant n => exact absurd (htodo ▸ List.mem_cons_self) (hp.grant n)
          | resize | extract | notify | release | access => exact hp.lift rfl hgrant hst
  | sys b =>
      simp only [GstSinkSystem.step] at hst
      split at hst
      · cases hst
      · next hu =>
          obtain ⟨u, hu', rfl⟩ := Option.map_eq_some_iff.1 hst
          refine ⟨hp.blocks, hp.grant, fun hsend => ?_⟩
          have hsent (hnone : b.isWriter = true → s.sys.w.pc.notifies = none) : s.sending = [] := by
            have hfalse : (b.isWriter && s.sys.w.pc.notifies.isSome) = false := by
              rw [Bool.and_eq_false_iff]
              by_cases hw : b.isWriter = true
              · exact Or.inr (by rw [hnone hw]; rfl)
              · exact Or.inl (Bool.not_eq_true _ ▸ hw)
            have hif : (if (b.isWriter && s.sys.w.pc.notifies.isSome) = true then [] else s.sending) = [] :=
              hsend
            rwa [hfalse, if_neg Bool.false_ne_true] at hif
          have hsame (hnone : b.isWriter = true → s.sys.w.pc.notifies = none)
              (h1 : u.frame = s.sys.frame) (h2 : u.w.shm = s.sys.w.shm) : u.frame.seg = u.w.shm := by
            rw [h1, h2]
            exact hp.seg (hsent hnone)
          cases System.trans_of_step hu' with
          | notifyLock => rfl
          | create hpc =>
              -- a segment is made for a buffer only
              have hnil := hsent fun _ => by rw [hpc]; rfl
              cases hi.phase with
              | create hrest =>
                  generalize hgen : s.todo = todo at hrest
                  cases hrest with
                  | grant => exact absurd (hgen ▸ List.mem_cons_self) (hp.grant _)
                  | extract hone =>
                      rw [hnil] at hone
                      cases hone
              | acquiring _ hpc' | notifying _ hpc' | releasing _ hpc' => simp [hpc] at hpc'
              | ready _ hpc' | resize _ _ hpc' | rest _ hpc' | send _ hpc' | notify _ hpc' =>
                  rw [hpc] at hpc'
                  cases hpc'
          | @locked op hpc =>
              refine hsame (fun _ => by rw [hpc]; rfl) ?_ ?_
              · obtain ⟨w, key, heq, -⟩ := s.sys.locked_eq op
                rw [heq]
              · cases op <;> simp only [System.locked] <;> first | rfl | (split <;> rfl)
          | writeStart hpc | notifySend hpc | notifyUnlock hpc | commit hpc | commitNone hpc | memcpy hpc
          | writeEnd hpc => exact hsame (fun _ => by rw [hpc]; rfl) rfl rfl
          | call | shmResize | notifyIgnored | notifyClients | write | release => exact absurd rfl hu
          | _ => exact hsame (fun h => by cases h) rfl rfl

/-- The buffers that the element was given to render, but for those larger than `shmmax`. -/
def buffers (h : GstSinkHost) (as : List Act) : List (List UInt8) :=
  as.filterMap fun a =>
    match a with
    | .render (.foreign buf) => if h.shmmax.toNat < buf.length then none else some buf
    | _ => none

/-- What was rendered. -/
theorem rendered_of_step (hp : Plain s) (hst : step h s a = some t) :
    t.rendered = s.rendered ++ buffers h [a] := by
  cases a with
  | setInitialSize value =>
      obtain ⟨-, hst⟩ := Option.ite_none_right_eq_some.1 hst
      obtain rfl := Option.some.inj hst
      refine Eq.trans ?_ (List.append_nil _).symm
      split <;> rfl
  | alloc n =>
      obtain ⟨-, hst⟩ := Option.ite_none_right_eq_some.1 hst
      obtain rfl := Option.some.inj hst
      exact (List.append_nil _).symm
  | fill i bytes =>
      obtain ⟨-, hst⟩ := Option.ite_none_right_eq_some.1 hst
      obtain ⟨b, hb, -⟩ := Option.bind_eq_some_iff.1 hst
      rw [hp.blocks] at hb
      cases hb
  | render buf =>
      obtain ⟨-, hst⟩ := Option.ite_none_right_eq_some.1 hst
      cases buf with
      | foreign buf =>
          simp only [render] at hst
          split at hst
          · next hlt =>
              obtain rfl := Option.some.inj hst
              simp [buffers, hlt]
          · next hle =>
              obtain rfl := Option.some.inj hst
              simp [buffers, hle, GstSinkSystem.alloc]
      | block i =>
          obtain ⟨b, hb, -⟩ := Option.map_eq_some_iff.1 hst
          rw [hp.blocks] at hb
          cases hb
  | next =>
      cases htodo : s.todo with
      | nil => simp [GstSinkSystem.step, htodo] at hst
      | cons c todo =>
          simp only [GstSinkSystem.step, htodo] at hst
          cases c with
          | grant n =>
              simp only [call] at hst
              split at hst
              · obtain rfl := Option.some.inj hst
                exact (List.append_nil _).symm
              · cases hst
          | resize | extract | notify | release | access =>
              obtain ⟨u, -, rfl⟩ := Option.map_eq_some_iff.1 hst
              exact (List.append_nil _).symm
  | sys b =>
      simp only [GstSinkSystem.step] at hst
      split at hst
      · cases hst
      · obtain ⟨u, -, rfl⟩ := Option.map_eq_some_iff.1 hst
        exact (List.append_nil _).symm

/-- A run without blocks is sound, and renders what it is given. -/
theorem sound_of_foreign (hbits : h.memoryAlignment.bits ≤ 12) {lfd size : ℕ} {as : List Act}
    (hexec : exec (restrict (step h) Foreign) (init lfd size) as = some s) :
    exec (restrict (step h) Sound) (init lfd size) as = some s ∧ s.rendered = buffers h as := by
  have hall : (exec (restrict (step h) Sound) (init lfd size) as = some s ∧
      s.rendered = buffers h as) ∧ Inv s ∧ Plain s := by
    refine exec_history (R := fun as s => (exec (restrict (step h) Sound) (init lfd size) as = some s ∧
      s.rendered = buffers h as) ∧ Inv s ∧ Plain s) (fun as s a t hs hst => ?_) hexec
      ⟨⟨rfl, rfl⟩, inv_init lfd size, plain_init lfd size⟩
    obtain ⟨⟨hsound, hrendered⟩, hi, hp⟩ := hs
    obtain ⟨ha, hst⟩ := restrict_eq_some.1 hst
    have hok := hp.sound hi ha hst
    refine ⟨⟨exec_append_eq_some.2 ⟨s, hsound, exec_cons_eq_some.2
      ⟨t, restrict_eq_some.2 ⟨hok, hst⟩, rfl⟩⟩, ?_⟩, (spec_of_step hbits hi hok hst).1,
      hp.step hi ha hst⟩
    rw [rendered_of_step hp hst, hrendered]
    exact (List.filterMap_append ..).symm
  exact hall.1

/-- **What upstream elements that bring their own memory are rendered is what the readers are given**, byte for
byte: the buffers are announced in order, each reader was called with the contents of consecutive buffers, from
the first one announced after it became a client, and a live client lacks at most the last one. -/
theorem foreign_broadcast (hbits : h.memoryAlignment.bits ≤ 12) {lfd size : ℕ} {as : List Act}
    (hexec : exec (restrict (step h) Foreign) (init lfd size) as = some s) :
    ∃ log, buffers h as = log ++ s.sending ∧ log.length = s.sys.announced ∧
      ∀ r, System.Given Reader.Call.bytes s.sys r log := by
  obtain ⟨hsound, hrendered⟩ := sound_of_foreign hbits hexec
  rw [← hrendered]
  exact pieces_of_exec hbits hsound

/-- Two buffers, the second larger than the first. -/
def copying : List Act :=
  started ++ [.render (.foreign [1, 2]), .next, .sys .writer, .next] ++ announced ++
    [.render (.foreign [3, 4, 5]), .next, .sys .writer, .next] ++ announced

theorem copying_broadcast :
    ∃ s log, exec (restrict (step sinkHost) Foreign) (init 3 1) copying = some s ∧
      buffers sinkHost copying = log ++ s.sending ∧ (s.sys.rd 0).calls.length = 2 ∧
      System.Given Reader.Call.bytes s.sys 0 log := by
  have hrun : ((exec (restrict (step sinkHost) Foreign) (init 3 1) copying).map fun s =>
      (s.sys.rd 0).calls.length) = some 2 := by
    decide +kernel
  obtain ⟨s, hs, hcalls⟩ := Option.map_eq_some_iff.1 hrun
  obtain ⟨log, hlog, -, hall⟩ := foreign_broadcast (h := sinkHost) (by decide) hs
  exact ⟨s, log, hs, hlog, hcalls, hall 0⟩

end GstSinkSystem

end Shmdata

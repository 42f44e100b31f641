/-
**The handshake of `gstshmdatasrc.c`.**

The reader's thread calls `gst_shmdata_src_on_data` for each frame, with the `ReadLock`; the streaming thread
of the pipeline calls `gst_shmdata_src_create`, which copies the frame or wraps it into a buffer; whoever
drops the last reference to such a buffer calls `gst_shmdata_src_on_data_rendered`.  `on_data` tells `create`
of the frame and waits until `data_rendered` is set, so that the writer does not overwrite the frame before.

The flag is set in one more place: the first call of `create` sets it by itself, besides what is done when
the frame is copied or released.  If `on_data` leaves its wait between the two, the second one is taken for
the next frame.

A section under a mutex that contains nothing but stores is one step.  The frames are numbered from `0` on.

Main definitions:

* `Shmdata.GstShmdataSrc`, `Shmdata.GstShmdataSrc.step` — the element and its three threads;
* `Shmdata.GstShmdataSrc.Protected` — `on_data` has returned only for frames that were copied or released;
* `Shmdata.GstShmdataSrc.Steady` — no unlock, no flush and no change of state;
* `Shmdata.GstShmdataSrc.Heeded` — the first call of `on_data` waits for both stores.

Main results:

* `Shmdata.GstShmdataSrc.Handed.step` — the invariant of the runs in which the first call does so;
* `Shmdata.GstShmdataSrc.protected_of_exec` — **in these runs `on_data` protects every frame**;
* `Shmdata.GstShmdataSrc.exposed_of_not_heeded` — from any other state that the first call leaves, a run
  leads to a frame that is not protected;
* `Shmdata.GstShmdataSrc.dead_of_failed` — **once `gst_pad_set_caps` has failed, no frame gets through**.
-/

import Shmdata.Runs
import Mathlib.Data.Bool.Basic

set_option relaxedAutoImplicit false
set_option autoImplicit false

namespace Shmdata

open Runs

/-! ### The element -/

namespace GstShmdataSrc

/-- Where the reader's thread is. -/
inductive OnData
  /-- Outside of `gst_shmdata_src_on_data`. -/
  | idle
  /-- About to lock `on_data_mutex`. -/
  | called (size : UInt64)
  /-- In the loop on `data_rendered`. -/
  | waiting
  deriving DecidableEq

/-- Where the streaming thread is.  The buffer of the frame at hand is `some n` when it wraps the data of
frame `n`, and `none` when it holds a copy. -/
inductive Create
  /-- Outside of `gst_shmdata_src_create`. -/
  | idle
  /-- In the loop on `on_data`. -/
  | wait
  /-- Unlocked: about to set `data_rendered` and to return `GST_FLOW_FLUSHING`. -/
  | flush
  /-- A frame is taken; about to look at `has_new_caps`. -/
  | caps
  /-- `gst_pad_set_caps` has failed, and `on_data_mutex` was not unlocked. -/
  | failed
  /-- About to make the buffer. -/
  | wrap
  /-- The data are copied; about to call `gst_shmdata_src_on_data_rendered`. -/
  | copied
  /-- About to look at `is_first_read`. -/
  | first (outbuf : Option ℕ)
  /-- About to reset `is_first_read`. -/
  | clear (outbuf : Option ℕ)
  deriving DecidableEq

/-- The streaming thread holds `on_data_mutex`. -/
@[simp] def Create.locks : Create → Bool
  | .idle | .wait | .flush => false
  | .caps | .failed | .wrap | .copied | .first _ | .clear _ => true

/-- A step of one of the threads. -/
inductive Act
  /-- `on_buffer` calls `gst_shmdata_src_on_data`. -/
  | onBuffer (size : UInt64)
  /-- The section under `on_data_mutex`. -/
  | publish
  /-- `data_rendered` is found set, and `on_data` returns. -/
  | leave
  /-- `gst_shmdata_src_on_server_connect`, and whether there are caps. -/
  | connect (caps : Bool)
  /-- The next step of the streaming thread; `setCaps` is what `gst_pad_set_caps` returns. -/
  | create (setCaps : Bool)
  /-- The destroy notify of the buffer that wraps frame `n`. -/
  | release (n : ℕ)
  /-- `gst_shmdata_src_unlock`. -/
  | unlock
  /-- `gst_shmdata_src_unlock_stop`. -/
  | unlockStop
  /-- `GST_STATE_CHANGE_PAUSED_TO_READY`. -/
  | pausedToReady
  deriving DecidableEq

end GstShmdataSrc

/-- The fields of the element that the three functions use; `playing` tells that its state is
`GST_STATE_PAUSED` or `GST_STATE_PLAYING`, and `currentData` is the number of the frame at `current_data`.
`frame` is the number of calls of `on_data` that have returned, `downstream` are the frames that a buffer
wraps which was handed out and is not released; `copied` and `released` record what was done. -/
structure GstShmdataSrc where
  copyBuffers : Bool
  playing : Bool
  isFirstRead : Bool
  hasNewCaps : Bool
  unlocked : Bool
  stopRead : Bool
  onData : Bool
  dataRendered : Bool
  currentData : ℕ
  currentSize : UInt64
  bytesSinceLastRequest : UInt64
  buffersSinceLastRequest : UInt64
  reader : GstShmdataSrc.OnData
  streaming : GstShmdataSrc.Create
  frame : ℕ
  downstream : List ℕ
  copied : List ℕ
  released : List ℕ

namespace GstShmdataSrc

/-- The element when `gst_shmdata_src_start_reading` has made its follower. -/
def init (copyBuffers playing : Bool) : GstShmdataSrc where
  copyBuffers := copyBuffers
  playing := playing
  isFirstRead := true
  hasNewCaps := false
  unlocked := false
  stopRead := false
  onData := false
  dataRendered := false
  currentData := 0
  currentSize := 0
  bytesSinceLastRequest := 0
  buffersSinceLastRequest := 0
  reader := .idle
  streaming := .idle
  frame := 0
  downstream := []
  copied := []
  released := []

/-- `gst_shmdata_src_on_data` under `on_data_mutex`. -/
def publish (s : GstShmdataSrc) (size : UInt64) : GstShmdataSrc :=
  { s with
    currentData := s.frame
    currentSize := size
    bytesSinceLastRequest := s.bytesSinceLastRequest + size
    buffersSinceLastRequest := s.buffersSinceLastRequest + 1
    onData := true
    reader := .waiting }

/-- `gst_shmdata_src_create` unlocks `on_data_mutex` and returns `GST_FLOW_OK` with a buffer. -/
def handOut (s : GstShmdataSrc) (outbuf : Option ℕ) : GstShmdataSrc :=
  { s with downstream := outbuf.toList ++ s.downstream, streaming := .idle }

/-- A step of the streaming thread. -/
def create (s : GstShmdataSrc) (setCaps : Bool) : Option GstShmdataSrc :=
  match s.streaming with
  | .idle => some (if s.unlocked then s else { s with streaming := .wait })
  | .wait =>
      if s.unlocked then some { s with onData := false, streaming := .flush }
      else if s.onData then some { s with onData := false, streaming := .caps }
      else none
  | .flush => some { s with dataRendered := true, streaming := .idle }
  | .caps =>
      some (if s.hasNewCaps ∧ s.playing then
        { s with hasNewCaps := false, streaming := if setCaps then .wrap else .failed }
      else { s with streaming := .wrap })
  | .failed => none
  | .wrap =>
      some (if s.copyBuffers then { s with copied := s.currentData :: s.copied, streaming := .copied }
      else { s with streaming := .first (some s.currentData) })
  -- gst_shmdata_src_on_data_rendered
  | .copied => some { s with dataRendered := true, streaming := .first none }
  -- gst_shmdata_src_make_data_rendered
  | .first outbuf =>
      some (if s.isFirstRead then { s with dataRendered := true, streaming := .clear outbuf }
      else s.handOut outbuf)
  | .clear outbuf => some (handOut { s with isFirstRead := false } outbuf)

/-- One step. -/
def step (s : GstShmdataSrc) : Act → Option GstShmdataSrc
  | .onBuffer size =>
      if s.reader = .idle then
        some (if s.stopRead then { s with frame := s.frame + 1 } else { s with reader := .called size })
      else none
  | .publish =>
      match s.reader with
      | .called size => if s.streaming.locks then none else some (s.publish size)
      | _ => none
  | .leave =>
      if s.reader = .waiting ∧ s.dataRendered then
        some { s with dataRendered := false, reader := .idle, frame := s.frame + 1 }
      else none
  | .connect caps =>
      if s.reader = .idle then some { s with hasNewCaps := s.hasNewCaps || caps } else none
  | .create setCaps => s.create setCaps
  | .release n =>
      if n ∈ s.downstream then
        some { s with
          downstream := s.downstream.erase n
          released := n :: s.released
          dataRendered := true }
      else none
  | .unlock => some { s with unlocked := true }
  | .unlockStop => some { s with unlocked := false }
  | .pausedToReady => some { s with stopRead := true }

/-! ### The frames that were rendered -/

/-- `gst_shmdata_src_on_data` has returned only for frames that were copied, or whose buffers were
released. -/
def Protected (s : GstShmdataSrc) : Prop :=
  ∀ n < s.frame, if s.copyBuffers then n ∈ s.copied else n ∈ s.released

/-- No unlock, no flush and no change of state. -/
def Steady : Act → Prop
  | .unlock | .unlockStop | .pausedToReady => False
  | _ => True

instance : DecidablePred Steady := by
  intro a
  cases a <;> unfold Steady <;> infer_instance

/-- The store that the first call of `create` makes by itself is made. -/
def FirstStored (s : GstShmdataSrc) : Prop :=
  s.isFirstRead = false ∨ s.streaming = .clear none

/-- The first call of `on_data` leaves its wait after the store that the first call of `create` makes by
itself and, when the frame is not copied, after its buffer is released. -/
def Heeded (s : GstShmdataSrc) (a : Act) : Prop :=
  a = .leave → s.frame = 0 → if s.copyBuffers then s.FirstStored else 0 ∈ s.released

instance (s : GstShmdataSrc) (a : Act) : Decidable (Heeded s a) := by
  unfold Heeded FirstStored
  infer_instance

/-- A run of the element in which it is not disturbed and the first call of `on_data` waits for both
stores. -/
def Orderly (s : GstShmdataSrc) (a : Act) : Prop := Steady a ∧ Heeded s a

instance (s : GstShmdataSrc) (a : Act) : Decidable (Orderly s a) :=
  inferInstanceAs (Decidable (_ ∧ _))

/-! ### The invariant -/

/-- The streaming thread has made all the stores of the frames it has taken. -/
def Spent (s : GstShmdataSrc) : Prop :=
  match s.streaming with
  | .idle | .wait | .clear none => True
  | .first none => s.isFirstRead = false
  | _ => False

/-- How far the frame is that the streaming thread has taken, or takes next. -/
def Stage (s : GstShmdataSrc) : Prop :=
  if s.onData then s.Spent ∧ s.downstream = [] ∧ s.dataRendered = false
  else match s.streaming with
    | .flush => False
    | .caps | .failed | .wrap => s.downstream = [] ∧ s.dataRendered = false
    | .copied =>
        s.copyBuffers = true ∧ s.frame ∈ s.copied ∧ s.downstream = [] ∧ s.dataRendered = false
    | .first none | .clear none => s.copyBuffers = true ∧ s.frame ∈ s.copied ∧ s.downstream = []
    | .first (some n) =>
        s.copyBuffers = false ∧ n = s.frame ∧ s.downstream = [] ∧ s.dataRendered = false
    | .clear (some n) => s.copyBuffers = false ∧ n = s.frame ∧ s.frame = 0 ∧ s.downstream = []
    | .idle | .wait => s.isFirstRead = false ∧
        (s.copyBuffers = true ∧ s.frame ∈ s.copied ∧ s.downstream = [] ∨
        s.copyBuffers = false ∧ s.frame ∈ s.released ∧ s.downstream = [] ∨
        s.copyBuffers = false ∧ s.downstream = [s.frame] ∧ (s.dataRendered = true → s.frame = 0))

/-- The buffer of frame `n` was released, and the streaming thread is done with it. -/
def Over (s : GstShmdataSrc) (n : ℕ) : Prop :=
  n < s.frame ∨ n = s.frame ∧ s.reader = .waiting ∧ s.onData = false ∧ s.downstream = [] ∧
    (s.streaming = .idle ∨ s.streaming = .wait)

/-- **The invariant of the orderly runs**: a flag that is set belongs to the frame at hand, but for the
first one. -/
structure Handed (s : GstShmdataSrc) : Prop where
  unlocked : s.unlocked = false
  stopRead : s.stopRead = false
  isProtected : s.Protected
  first : s.isFirstRead = true → s.frame = 0 ∨ s.streaming = .clear none
  copied : ∀ n ∈ s.copied, n < s.frame ∨ n = s.frame ∧ s.reader = .waiting ∧ s.onData = false
  released : ∀ n ∈ s.released, s.Over n
  quiet : s.reader ≠ .waiting →
    s.Spent ∧ s.onData = false ∧ s.downstream = [] ∧ s.dataRendered = false
  stage : s.reader = .waiting → s.currentData = s.frame ∧ s.Stage

variable {s t u : GstShmdataSrc} {a : Act} {as : List Act}

theorem handed_init (copyBuffers playing : Bool) : (init copyBuffers playing).Handed where
  unlocked := rfl
  stopRead := rfl
  isProtected := fun _ h => absurd h (Nat.not_lt_zero _)
  first := fun _ => Or.inl rfl
  copied := fun _ h => absurd h List.not_mem_nil
  released := fun _ h => absurd h List.not_mem_nil
  quiet := fun _ => ⟨trivial, rfl, rfl, rfl⟩
  stage := fun h => by simp [init] at h

/-- While the streaming thread has stores to make, the reader's thread waits for them. -/
theorem Handed.waiting (hs : s.Handed) (h : ¬ s.Spent) : s.reader = .waiting ∧ s.onData = false := by
  have hw : s.reader = .waiting := by
    by_contra hne
    exact h (hs.quiet hne).1
  refine ⟨hw, Bool.eq_false_iff.2 fun hon => h ?_⟩
  have hstage := (hs.stage hw).2
  rw [Stage, if_pos hon] at hstage
  exact hstage.1

/-- The stage of a frame that is taken. -/
theorem Handed.stage_of_not_spent (hs : s.Handed) (h : ¬ s.Spent) :
    s.reader = .waiting ∧ s.onData = false ∧ s.currentData = s.frame ∧ s.Stage :=
  ⟨(hs.waiting h).1, (hs.waiting h).2, (hs.stage (hs.waiting h).1).1, (hs.stage (hs.waiting h).1).2⟩

/-- Nothing that was released is at hand while the streaming thread is at work. -/
theorem Handed.lt_of_released (hs : s.Handed) (h : s.streaming ≠ .idle) (h' : s.streaming ≠ .wait) {n : ℕ}
    (hn : n ∈ s.released) : n < s.frame := by
  rcases hs.released n hn with hlt | ⟨-, -, -, -, hi | hw⟩
  · exact hlt
  · exact absurd hi h
  · exact absurd hw h'

theorem Handed.onBuffer (hs : s.Handed) {size : UInt64} (h : s.step (.onBuffer size) = some t) :
    t.Handed := by
  simp only [step, Option.ite_none_right_eq_some, Option.some_inj] at h
  obtain ⟨hidle, h⟩ := h
  rw [if_neg (by simp [hs.stopRead])] at h
  subst h
  have hne : s.reader ≠ .waiting := by simp [hidle]
  obtain ⟨hspent, hon, hdown, hrend⟩ := hs.quiet hne
  refine ⟨hs.unlocked, hs.stopRead, hs.isProtected, hs.first, fun n hn => ?_, fun n hn => ?_,
    fun _ => ⟨hspent, hon, hdown, hrend⟩, fun h => by simp at h⟩
  · exact (hs.copied n hn).imp id fun h => absurd h.2.1 hne
  · exact (hs.released n hn).imp id fun h => absurd h.2.1 hne

theorem Handed.publish (hs : s.Handed) (h : s.step .publish = some t) : t.Handed := by
  simp only [step] at h
  split at h
  · next size hreader =>
      split at h
      · cases h
      · obtain rfl := Option.some.inj h
        have hne : s.reader ≠ .waiting := by simp [hreader]
        obtain ⟨hspent, hon, hdown, hrend⟩ := hs.quiet hne
        refine ⟨hs.unlocked, hs.stopRead, hs.isProtected, hs.first, fun n hn => ?_, fun n hn => ?_,
          fun h => absurd rfl h, fun _ => ⟨rfl, ?_⟩⟩
        · exact (hs.copied n hn).imp id fun h => absurd h.2.1 hne
        · exact (hs.released n hn).imp id fun h => absurd h.2.1 hne
        · rw [Stage, if_pos (show (s.publish size).onData = true from rfl)]
          exact ⟨hspent, hdown, hrend⟩
  · cases h

theorem Handed.connect (hs : s.Handed) {caps : Bool} (h : s.step (.connect caps) = some t) : t.Handed := by
  simp only [step, Option.ite_none_right_eq_some, Option.some_inj] at h
  obtain ⟨hidle, rfl⟩ := h
  exact ⟨hs.unlocked, hs.stopRead, hs.isProtected, hs.first, hs.copied, hs.released, hs.quiet, hs.stage⟩

/-- A frame that `on_data` leaves was rendered, and all the stores for it are made. -/
theorem Handed.rendered (hs : s.Handed) (hw : s.reader = .waiting) (hr : s.dataRendered = true)
    (hok : s.Heeded .leave) :
    (if s.copyBuffers then s.frame ∈ s.copied else s.frame ∈ s.released) ∧ s.Spent ∧ s.onData = false ∧
      s.downstream = [] ∧ (s.isFirstRead = true → s.streaming = .clear none) := by
  obtain ⟨-, hstage⟩ := hs.stage hw
  have hheeded := hok rfl
  unfold Stage at hstage
  split at hstage
  · exact absurd (hr.symm.trans hstage.2.2) (by decide)
  · next hon =>
      have hon : s.onData = false := Bool.eq_false_iff.2 hon
      unfold Spent
      cases hpc : s.streaming with
      | flush => simp [hpc] at hstage
      | caps | failed | wrap | copied => simp [hpc, hr] at hstage
      | first outbuf =>
          cases outbuf with
          | some n => simp [hpc, hr] at hstage
          | none =>
              simp only [hpc] at hstage
              obtain ⟨hcopy, hmem, hdown⟩ := hstage
              have hfirst : s.isFirstRead = false := by
                by_contra hfirst
                have h0 := (hs.first (Bool.eq_true_of_not_eq_false hfirst)).resolve_right (by simp [hpc])
                have hstored := hheeded h0
                rw [if_pos hcopy] at hstored
                exact hstored.elim hfirst fun h => by simp [hpc] at h
              exact ⟨by simpa [hcopy] using hmem, hfirst, hon, hdown, by simp [hfirst]⟩
      | clear outbuf =>
          cases outbuf with
          | some n =>
              simp only [hpc] at hstage
              obtain ⟨hcopy, -, h0, -⟩ := hstage
              have hrel := hheeded h0
              rw [if_neg (by simp [hcopy])] at hrel
              have := hs.lt_of_released (by simp [hpc]) (by simp [hpc]) hrel
              omega
          | none =>
              simp only [hpc] at hstage
              exact ⟨by simpa [hstage.1] using hstage.2.1, trivial, hon, hstage.2.2, fun _ => rfl⟩
      | idle | wait =>
          simp only [hpc] at hstage
          obtain ⟨hfirst, ⟨hcopy, hmem, hdown⟩ | ⟨hcopy, hmem, hdown⟩ | ⟨hcopy, hdown, h0⟩⟩ := hstage
          · exact ⟨by simpa [hcopy] using hmem, trivial, hon, hdown, by simp [hfirst]⟩
          · exact ⟨by simpa [hcopy] using hmem, trivial, hon, hdown, by simp [hfirst]⟩
          · have hrel := hheeded (h0 hr)
            rw [if_neg (by simp [hcopy])] at hrel
            rcases hs.released 0 hrel with h | ⟨-, -, -, h, -⟩
            · have := h0 hr
              omega
            · simp [h] at hdown

theorem Handed.leave (hs : s.Handed) (hok : s.Heeded .leave) (h : s.step .leave = some t) : t.Handed := by
  simp only [step, Option.ite_none_right_eq_some, Option.some_inj] at h
  obtain ⟨⟨hw, hr⟩, rfl⟩ := h
  obtain ⟨hmem, hspent, hon, hdown, hfirst⟩ := hs.rendered hw hr hok
  refine ⟨hs.unlocked, hs.stopRead, fun n hn => ?_, fun h => Or.inr (hfirst h), fun n hn => Or.inl ?_,
    fun n hn => Or.inl ?_, fun _ => ⟨hspent, hon, hdown, rfl⟩, fun h => by simp at h⟩
  · rcases Nat.lt_succ_iff_lt_or_eq.1 hn with hlt | rfl
    · exact hs.isProtected n hlt
    · exact hmem
  · exact (hs.copied n hn).elim (fun h => Nat.lt_succ_of_lt h) fun h => h.1 ▸ Nat.lt_succ_self _
  · exact (hs.released n hn).elim (fun h => Nat.lt_succ_of_lt h) fun h => h.1 ▸ Nat.lt_succ_self _

theorem Handed.release (hs : s.Handed) {n : ℕ} (h : s.step (.release n) = some t) : t.Handed := by
  simp only [step, Option.ite_none_right_eq_some, Option.some_inj] at h
  obtain ⟨hmem, rfl⟩ := h
  have hw : s.reader = .waiting := by
    by_contra hne
    simp [(hs.quiet hne).2.2.1] at hmem
  obtain ⟨hcur, hstage⟩ := hs.stage hw
  -- only the frame at hand is downstream
  obtain ⟨hon, hpc, hfirst, hcopy, hdown⟩ : s.onData = false ∧ (s.streaming = .idle ∨ s.streaming = .wait) ∧
      s.isFirstRead = false ∧ s.copyBuffers = false ∧ s.downstream = [s.frame] := by
    unfold Stage at hstage
    split at hstage
    · simp [hstage.2.1] at hmem
    · next hon =>
        refine ⟨Bool.eq_false_iff.2 hon, ?_⟩
        cases hpc : s.streaming with
        | flush => simp [hpc] at hstage
        | caps | failed | wrap | copied => simp [hpc] at hstage; simp [hstage] at hmem
        | first outbuf => cases outbuf <;> simp [hpc] at hstage <;> simp [hstage] at hmem
        | clear outbuf => cases outbuf <;> simp [hpc] at hstage <;> simp [hstage] at hmem
        | idle | wait =>
            simp only [hpc] at hstage
            obtain ⟨hfirst, ⟨-, -, h⟩ | ⟨-, -, h⟩ | ⟨hcopy, hdown, -⟩⟩ := hstage
            · simp [h] at hmem
            · simp [h] at hmem
            · exact ⟨by simp, hfirst, hcopy, hdown⟩
  obtain rfl : n = s.frame := by simpa [hdown] using hmem
  refine ⟨hs.unlocked, hs.stopRead, fun m hm => ?_, hs.first, hs.copied, fun m hm => ?_,
    fun hne => absurd hw hne, fun _ => ⟨hcur, ?_⟩⟩
  · have := hs.isProtected m hm
    rw [hcopy] at this
    simpa [hcopy] using Or.inr this
  · rcases List.mem_cons.1 hm with rfl | hm
    · exact Or.inr ⟨rfl, hw, hon, by simp [hdown], hpc⟩
    · rcases hs.released m hm with hlt | ⟨-, -, -, hnil, -⟩
      · exact Or.inl hlt
      · simp [hdown] at hnil
  · unfold Stage
    rw [if_neg (by simp [hon])]
    rcases hpc with hpc | hpc <;> simp [hpc, hfirst, hcopy, hdown]

/-- A place in `gst_shmdata_src_create` at which a frame is taken and not yet handed out. -/
theorem Handed.mk_taken (hs : s.Handed) (hpc : s.streaming ≠ .idle) (hpc' : s.streaming ≠ .wait)
    (ht : t.unlocked = s.unlocked ∧ t.stopRead = s.stopRead ∧ t.copyBuffers = s.copyBuffers ∧
      t.frame = s.frame ∧ t.reader = s.reader ∧ t.onData = s.onData ∧ t.currentData = s.currentData ∧
      t.released = s.released)
    (hw : s.reader = .waiting) (hon : s.onData = false) (hfirst : t.isFirstRead = true → t.frame = 0 ∨
      t.streaming = .clear none) (hcopied : ∀ n ∈ t.copied, n ∈ s.copied ∨ n = s.frame)
    (hcopied' : ∀ n ∈ s.copied, n ∈ t.copied) (hstage : t.Stage) : t.Handed := by
  obtain ⟨h₁, h₂, h₃, h₄, h₅, h₆, h₇, h₈⟩ := ht
  refine ⟨h₁.trans hs.unlocked, h₂.trans hs.stopRead, fun n hn => ?_, hfirst, fun n hn => ?_, fun n hn => ?_,
    fun hne => absurd (h₅.trans hw) hne, fun _ => ⟨?_, hstage⟩⟩
  · have := hs.isProtected n (h₄ ▸ hn)
    rw [h₃, h₈]
    split at this
    · next hcopy => simpa [hcopy] using hcopied' n this
    · next hcopy => simpa [hcopy] using this
  · rw [h₄, h₅, h₆]
    rcases hcopied n hn with hn | rfl
    · exact hs.copied n hn
    · exact Or.inr ⟨rfl, hw, hon⟩
  · exact Or.inl (h₄ ▸ hs.lt_of_released hpc hpc' (h₈ ▸ hn))
  · rw [h₇, h₄, (hs.stage hw).1]

/-- The buffer of a frame is handed out once the store of the first call, if it is due, is made. -/
theorem Handed.handOut (hs : s.Handed) {outbuf : Option ℕ}
    (hpc : s.streaming = .first outbuf ∧ s.isFirstRead = false ∨ s.streaming = .clear outbuf) :
    (GstShmdataSrc.handOut { s with isFirstRead := false } outbuf).Handed := by
  have hidle : s.streaming ≠ .idle := by rcases hpc with ⟨h, -⟩ | h <;> simp [h]
  have hwait : s.streaming ≠ .wait := by rcases hpc with ⟨h, -⟩ | h <;> simp [h]
  have hreleased : ∀ n ∈ s.released, n < s.frame := fun n hn => hs.lt_of_released hidle hwait hn
  refine ⟨hs.unlocked, hs.stopRead, hs.isProtected, fun h => absurd h Bool.false_ne_true, hs.copied,
    fun n hn => Or.inl (hreleased n hn), fun hne => ?_, fun hw => ⟨(hs.stage hw).1, ?_⟩⟩
  · obtain ⟨hspent, hon, hdown, hrend⟩ := hs.quiet hne
    cases outbuf with
    | none => exact ⟨trivial, hon, hdown, hrend⟩
    | some n => rcases hpc with ⟨h, -⟩ | h <;> simp [Spent, h] at hspent
  · have hstage := (hs.stage hw).2
    cases outbuf with
    | none =>
        by_cases hon : s.onData = true
        · rw [Stage, if_pos hon] at hstage
          rw [Stage, if_pos (by exact hon)]
          exact ⟨trivial, hstage.2⟩
        · have hdone : s.copyBuffers = true ∧ s.frame ∈ s.copied ∧ s.downstream = [] := by
            rcases hpc with ⟨h, -⟩ | h <;> simpa [Stage, hon, h] using hstage
          simpa [Stage, hon, GstShmdataSrc.handOut] using Or.inl hdone
    | some n =>
        have hnot : ¬ s.Spent := by rcases hpc with ⟨h, -⟩ | h <;> simp [Spent, h]
        obtain ⟨-, hon, -, -⟩ := hs.stage_of_not_spent hnot
        obtain ⟨hcopy, rfl, hdown, h0⟩ : s.copyBuffers = false ∧ n = s.frame ∧ s.downstream = [] ∧
            (s.dataRendered = true → s.frame = 0) := by
          rcases hpc with ⟨h, -⟩ | h
          · simp only [Stage, h, hon, Bool.false_eq_true, if_false] at hstage
            exact ⟨hstage.1, hstage.2.1, hstage.2.2.1, by simp [hstage.2.2.2]⟩
          · simp only [Stage, h, hon, Bool.false_eq_true, if_false] at hstage
            exact ⟨hstage.1, hstage.2.1, hstage.2.2.2, fun _ => hstage.2.2.1⟩
        simpa [Stage, hon, GstShmdataSrc.handOut, hdown, hcopy] using h0

/-- The steps of the streaming thread, one for each place where it is. -/
theorem Handed.create (hs : s.Handed) {setCaps : Bool} (h : s.step (.create setCaps) = some t) :
    t.Handed := by
  simp only [step, GstShmdataSrc.create] at h
  cases hpc : s.streaming with
  | idle =>
      simp only [hpc, Option.some_inj] at h
      rw [if_neg (by simp [hs.unlocked])] at h
      subst h
      refine ⟨hs.unlocked, hs.stopRead, hs.isProtected, fun h => Or.inl ?_, hs.copied, fun n hn => ?_,
        fun hne => ⟨trivial, (hs.quiet hne).2⟩, fun hw => ⟨(hs.stage hw).1, ?_⟩⟩
      · exact (hs.first h).resolve_right (by simp [hpc])
      · exact (hs.released n hn).imp id fun h => ⟨h.1, h.2.1, h.2.2.1, h.2.2.2.1, Or.inr rfl⟩
      · simpa [Stage, Spent, hpc] using (hs.stage hw).2
  | wait =>
      simp only [hpc] at h
      rw [if_neg (by simp [hs.unlocked]), Option.ite_none_right_eq_some, Option.some_inj] at h
      obtain ⟨hon, rfl⟩ := h
      have hw : s.reader = .waiting := by
        by_contra hne
        simp [(hs.quiet hne).2.1] at hon
      obtain ⟨hcur, hstage⟩ := hs.stage hw
      rw [Stage, if_pos hon] at hstage
      refine ⟨hs.unlocked, hs.stopRead, hs.isProtected, fun h => Or.inl ?_, fun n hn => Or.inl ?_,
        fun n hn => Or.inl ?_, fun hne => absurd hw hne, fun _ => ⟨hcur, by simpa [Stage] using hstage.2⟩⟩
      · exact (hs.first h).resolve_right (by simp [hpc])
      · exact (hs.copied n hn).elim id fun h => absurd (hon.symm.trans h.2.2) (by decide)
      · exact (hs.released n hn).elim id fun h => absurd (hon.symm.trans h.2.2.1) (by decide)
  | flush =>
      have := (hs.stage_of_not_spent (by simp [Spent, hpc])).2
      simp [Stage, hpc, this.1] at this
  | caps =>
      simp only [hpc, Option.some_inj] at h
      obtain ⟨hw, hon, hcur, hstage⟩ := hs.stage_of_not_spent (by simp [Spent, hpc])
      have hfirst := fun h => (hs.first h).resolve_right (by simp [hpc])
      have hdown : s.downstream = [] ∧ s.dataRendered = false := by simpa [Stage, hon, hpc] using hstage
      have hne : s.streaming ≠ .idle ∧ s.streaming ≠ .wait := by simp [hpc]
      split at h
      · subst h
        refine hs.mk_taken hne.1 hne.2 ⟨rfl, rfl, rfl, rfl, rfl, rfl, rfl, rfl⟩ hw hon
          (fun h => Or.inl (hfirst h)) (fun n hn => Or.inl hn) (fun n hn => hn) ?_
        cases setCaps <;> simpa [Stage, hon] using hdown
      · subst h
        exact hs.mk_taken hne.1 hne.2 ⟨rfl, rfl, rfl, rfl, rfl, rfl, rfl, rfl⟩ hw hon
          (fun h => Or.inl (hfirst h)) (fun n hn => Or.inl hn) (fun n hn => hn)
          (by simpa [Stage, hon] using hdown)
  | failed => simp [hpc] at h
  | wrap =>
      simp only [hpc, Option.some_inj] at h
      obtain ⟨hw, hon, hcur, hstage⟩ := hs.stage_of_not_spent (by simp [Spent, hpc])
      have hfirst := fun h => (hs.first h).resolve_right (by simp [hpc])
      have hdown : s.downstream = [] ∧ s.dataRendered = false := by simpa [Stage, hon, hpc] using hstage
      have hne : s.streaming ≠ .idle ∧ s.streaming ≠ .wait := by simp [hpc]
      split at h
      · next hcopy =>
          subst h
          refine hs.mk_taken hne.1 hne.2 ⟨rfl, rfl, rfl, rfl, rfl, rfl, rfl, rfl⟩ hw hon
            (fun h => Or.inl (hfirst h)) (fun n hn => ?_) (fun n hn => List.mem_cons_of_mem _ hn)
            (by simpa [Stage, hon, hcopy, hcur] using hdown)
          exact (List.mem_cons.1 hn).symm.imp id fun h => h.trans hcur
      · next hcopy =>
          subst h
          exact hs.mk_taken hne.1 hne.2 ⟨rfl, rfl, rfl, rfl, rfl, rfl, rfl, rfl⟩ hw hon
            (fun h => Or.inl (hfirst h)) (fun n hn => Or.inl hn) (fun n hn => hn)
            (by simpa [Stage, hon, hcopy, hcur] using hdown)
  | copied =>
      simp only [hpc, Option.some_inj] at h
      obtain ⟨hw, hon, hcur, hstage⟩ := hs.stage_of_not_spent (by simp [Spent, hpc])
      have hfirst := fun h => (hs.first h).resolve_right (by simp [hpc])
      have hdown : s.copyBuffers = true ∧ s.frame ∈ s.copied ∧ s.downstream = [] ∧ s.dataRendered = false := by
        simpa [Stage, hon, hpc] using hstage
      subst h
      exact hs.mk_taken (by simp [hpc]) (by simp [hpc]) ⟨rfl, rfl, rfl, rfl, rfl, rfl, rfl, rfl⟩ hw hon
        (fun h => Or.inl (hfirst h)) (fun n hn => Or.inl hn) (fun n hn => hn)
        (by simpa [Stage, hon] using ⟨hdown.1, hdown.2.1, hdown.2.2.1⟩)
  | first outbuf =>
      simp only [hpc, Option.some_inj] at h
      split at h
      · next hfirst =>
          subst h
          have h0 := (hs.first hfirst).resolve_right (by simp [hpc])
          have hnot : ¬ s.Spent := by cases outbuf <;> simp [Spent, hpc, hfirst]
          obtain ⟨hw, hon, hcur, hstage⟩ := hs.stage_of_not_spent hnot
          refine hs.mk_taken (by simp [hpc]) (by simp [hpc]) ⟨rfl, rfl, rfl, rfl, rfl, rfl, rfl, rfl⟩ hw
            hon (fun _ => Or.inl h0) (fun n hn => Or.inl hn) (fun n hn => hn) ?_
          cases outbuf with
          | none => simpa [Stage, hon, hpc] using hstage
          | some n =>
              obtain ⟨hcopy, hn, hdown, -⟩ : s.copyBuffers = false ∧ n = s.frame ∧ s.downstream = [] ∧
                  s.dataRendered = false := by simpa [Stage, hon, hpc] using hstage
              simpa [Stage, hon] using ⟨hcopy, hn, h0, hdown⟩
      · next hfirst =>
          have hfirst : s.isFirstRead = false := Bool.eq_false_iff.2 hfirst
          have hsame : { s with isFirstRead := false } = s := by
            rw [← hfirst]
          subst h
          have := hs.handOut (Or.inl ⟨hpc, hfirst⟩)
          rwa [hsame] at this
  | clear outbuf =>
      simp only [hpc, Option.some_inj] at h
      subst h
      exact hs.handOut (Or.inr hpc)

/-- **The invariant of the orderly runs is kept by their steps.** -/
theorem Handed.step (hs : s.Handed) (hok : Orderly s a) (h : s.step a = some t) : t.Handed := by
  cases a with
  | onBuffer size => exact hs.onBuffer h
  | publish => exact hs.publish h
  | leave => exact hs.leave hok.2 h
  | connect caps => exact hs.connect h
  | create setCaps => exact hs.create h
  | release n => exact hs.release h
  | unlock | unlockStop | pausedToReady => exact absurd hok.1 id

theorem handed_of_exec {copyBuffers playing : Bool}
    (h : exec (restrict step Orderly) (init copyBuffers playing) as = some t) : t.Handed := by
  refine exec_invariant (fun s a t hs hst => ?_) h (handed_init copyBuffers playing)
  obtain ⟨hok, hst⟩ := restrict_eq_some.1 hst
  exact hs.step hok hst

/-- **`on_data` protects the frames**: in every state of every run that is not disturbed and in which the
first call of `on_data` waits for both stores, `on_data` has returned only for frames whose data were copied
or, without copies, whose buffers were released. -/
theorem protected_of_exec (copyBuffers playing : Bool) (as : List Act) (t : GstShmdataSrc)
    (h : exec (restrict step Orderly) (init copyBuffers playing) as = some t) : t.Protected :=
  (handed_of_exec h).isProtected

/-! ### The first frame -/

/-- The store that the first call of `create` makes by itself, and the next call of `on_data`. -/
def overtake : List Act := [.create true, .create true, .onBuffer 0, .publish, .leave]

/-- When `on_data` has returned before that store, its next call returns at once. -/
theorem exec_overtake (hreader : s.reader = .idle) (hpc : s.streaming = .first none)
    (hfirst : s.isFirstRead = true) (hstop : s.stopRead = false) :
    ∃ u, exec step s overtake = some u ∧ u.copyBuffers = s.copyBuffers ∧ u.frame = s.frame + 1 ∧
      u.copied = s.copied := by
  cases s
  simp only at hreader hpc hfirst hstop
  subst hreader hpc hfirst hstop
  exact ⟨_, rfl, rfl, rfl, rfl⟩

/-- **The first call must wait for both stores**: when it leaves its wait before, `on_data` has returned, or
returns in a continuation of the run, for a frame that is not rendered. -/
theorem exposed_of_not_heeded (hs : s.Handed) (h : s.step .leave = some t) (hbad : ¬ s.Heeded .leave) :
    ∃ bs u, (∀ b ∈ bs, Steady b) ∧ exec step t bs = some u ∧ ¬ u.Protected := by
  simp only [step, Option.ite_none_right_eq_some, Option.some_inj] at h
  obtain ⟨⟨hw, hr⟩, rfl⟩ := h
  obtain ⟨-, hstage⟩ := hs.stage hw
  simp only [Heeded, true_implies, Classical.not_imp] at hbad
  obtain ⟨h0, hbad⟩ := hbad
  by_cases hcopy : s.copyBuffers = true
  · -- the store of the first call is still to come, and the second frame finds it
    rw [if_pos hcopy] at hbad
    obtain ⟨hfirst, hclear⟩ := not_or.1 hbad
    have hfirst : s.isFirstRead = true := Bool.eq_true_of_not_eq_false hfirst
    have hpc : s.streaming = .first none := by
      unfold Stage at hstage
      split at hstage
      · exact absurd (hr.symm.trans hstage.2.2) (by decide)
      · cases hpc : s.streaming with
        | flush => simp [hpc] at hstage
        | caps | failed | wrap | copied => simp [hpc, hr] at hstage
        | first outbuf =>
            cases outbuf with
            | none => rfl
            | some n => simp [hpc, hr] at hstage
        | clear outbuf =>
            cases outbuf with
            | none => exact absurd hpc hclear
            | some n => simp [hpc, hcopy] at hstage
        | idle | wait => simp [hpc, hfirst] at hstage
    obtain ⟨u, hu, hcu, hfu, hmu⟩ := exec_overtake
      (s := { s with dataRendered := false, reader := .idle, frame := s.frame + 1 }) rfl hpc hfirst hs.stopRead
    refine ⟨overtake, u, by decide, hu, fun hp => ?_⟩
    have hmem : 1 ∈ s.copied := by
      have := hp 1 (by rw [hfu]; show 1 < s.frame + 1 + 1; omega)
      rw [hcu] at this
      rw [if_pos hcopy, hmu] at this
      exact this
    rcases hs.copied 1 hmem with h | ⟨h, -⟩ <;> omega
  · rw [if_neg hcopy] at hbad
    refine ⟨[], _, by simp, rfl, fun hp => hbad ?_⟩
    have := hp 0 (Nat.succ_pos _)
    rwa [if_neg hcopy] at this

/-- The first call of `on_data` leaves its wait as soon as it can. -/
def hasty : List Act :=
  ([.onBuffer 4, .create true, .publish] : List Act) ++ List.replicate 4 (.create true) ++ [.leave]

/-- **The frames are not protected when the first call is hasty**: without copies, the buffer of the first
frame is still with the streaming thread; with copies, the second frame was not copied when `on_data`
returned for it. -/
theorem hasty_not_protected :
    (∃ t, exec step (init false true) hasty = some t ∧ t.frame = 1 ∧ t.streaming = .clear (some 0) ∧
      ¬ t.Protected) ∧
    ∃ t, exec step (init true true) (hasty ++ overtake) = some t ∧ t.frame = 2 ∧ t.copied = [0] ∧
      ¬ t.Protected :=
  ⟨⟨_, rfl, rfl, rfl, fun h => absurd (h 0 (by decide)) (by decide)⟩,
    _, rfl, rfl, rfl, fun h => absurd (h 1 (by decide)) (by decide)⟩

/-- Two frames, the second one read as soon as the first call of `on_data` has returned. -/
def patient (copyBuffers : Bool) : List Act :=
  ([.onBuffer 4, .create true, .publish] : List Act) ++
    List.replicate (if copyBuffers then 6 else 5) (.create true) ++
    (if copyBuffers then [] else [.release 0] : List Act) ++ ([.leave, .onBuffer 4, .publish] : List Act) ++
    List.replicate 5 (.create true) ++
    (if copyBuffers then [] else [.release 1] : List Act) ++ [.leave]

/-- **Both frames are protected when the first call waits.** -/
theorem patient_protected :
    (∃ t, exec (restrict step Orderly) (init true true) (patient true) = some t ∧ t.frame = 2 ∧
      t.Protected) ∧
    ∃ t, exec (restrict step Orderly) (init false true) (patient false) = some t ∧ t.frame = 2 ∧
      t.Protected := by
  have hrun (b : Bool) : ∃ t, exec (restrict step Orderly) (init b true) (patient b) = some t ∧
      t.frame = 2 ∧ t.Protected := by
    have hframe : ((exec (restrict step Orderly) (init b true) (patient b)).any
        fun t => t.frame = 2) = true := by cases b <;> decide
    obtain ⟨t, ht, h2⟩ := (Option.any_eq_true ..).1 hframe
    exact ⟨t, ht, of_decide_eq_true h2, protected_of_exec b true _ t ht⟩
  exact ⟨hrun true, hrun false⟩

/-! ### The caps are refused -/

/-- What is left of a run after `gst_pad_set_caps` has failed: nothing is handed out, and a thread that waits for
`on_data_mutex` waits. -/
structure Dead (s t : GstShmdataSrc) : Prop where
  failed : t.streaming = .failed
  copied : t.copied = s.copied
  counted : t.bytesSinceLastRequest = s.bytesSinceLastRequest ∧
    t.buffersSinceLastRequest = s.buffersSinceLastRequest ∧ t.currentData = s.currentData
  downstream : t.downstream ⊆ s.downstream
  called : ∀ size, s.reader = .called size → t.reader = .called size ∧ t.frame = s.frame
  /-- The call that is waiting for the frame at hand may return, and one more frame is announced. -/
  frame : t.stopRead = false → t.frame ≤ s.frame + if t.reader = .waiting then 0 else 1
  stopRead : s.stopRead = true → t.stopRead = true

theorem Dead.of_failed (h : s.streaming = .failed) : Dead s s where
  failed := h
  copied := rfl
  counted := ⟨rfl, rfl, rfl⟩
  downstream := List.Subset.refl _
  called _ h := ⟨h, rfl⟩
  frame _ := Nat.le_add_right ..
  stopRead := id

theorem Dead.step (hd : Dead s t) (h : t.step a = some u) : Dead s u := by
  cases a with
  | onBuffer size =>
      obtain ⟨hidle, h⟩ := Option.ite_none_right_eq_some.1 h
      obtain rfl := Option.some.inj h
      have hcalled (n : UInt64) (hn : s.reader = .called n) : False := by
        rw [(hd.called n hn).1] at hidle
        cases hidle
      split
      · next hstop =>
          exact
            { hd with
              called := fun n hn => (hcalled n hn).elim
              frame := fun hs => by rw [hstop] at hs; cases hs }
      · next hstop =>
          have hframe := hd.frame (Bool.not_eq_true _ ▸ hstop)
          rw [hidle] at hframe
          exact
            { hd with
              called := fun n hn => (hcalled n hn).elim
              frame := fun _ => hframe }
  | publish =>
      simp only [GstShmdataSrc.step, hd.failed, Create.locks, if_true] at h
      split at h <;> cases h
  | leave =>
      obtain ⟨⟨hw, -⟩, h⟩ := Option.ite_none_right_eq_some.1 h
      obtain rfl := Option.some.inj h
      exact
        { hd with
          called := fun n hn => by
            rw [(hd.called n hn).1] at hw
            cases hw
          frame := fun hs => by
            have hframe := hd.frame hs
            rw [hw] at hframe
            simpa using hframe }
  | connect caps =>
      obtain ⟨-, h⟩ := Option.ite_none_right_eq_some.1 h
      obtain rfl := Option.some.inj h
      exact { hd with }
  | create setCaps =>
      simp [GstShmdataSrc.step, GstShmdataSrc.create, hd.failed] at h
  | release n =>
      obtain ⟨-, h⟩ := Option.ite_none_right_eq_some.1 h
      obtain rfl := Option.some.inj h
      exact { hd with downstream := fun m hm => hd.downstream (List.mem_of_mem_erase hm) }
  | unlock | unlockStop =>
      obtain rfl := Option.some.inj h
      exact { hd with }
  | pausedToReady =>
      obtain rfl := Option.some.inj h
      exact
        { hd with
          frame := fun hs => by cases hs
          stopRead := fun _ => rfl }

/-- **Once `gst_pad_set_caps` has failed, no frame gets through**, whatever the pipeline, the reader and the
application do: `on_data_mutex` stays locked, nothing is copied, counted or handed out, a thread that is about to
lock it in `on_data` does not return, and as long as the element is not stopped at most the call for the frame at
hand returns. -/
theorem dead_of_failed (h : exec step s as = some t) (hs : s.streaming = .failed) : Dead s t :=
  exec_invariant (P := Dead s) (fun _ _ _ hd hst => hd.step hst) h (Dead.of_failed hs)

/-- The caps of the first frame are refused, and the element is stopped. -/
theorem refused_dead :
    ∃ s t, exec step (init false true) [.connect true, .onBuffer 4, .create true, .publish, .create true,
        .create false] = some s ∧ s.streaming = .failed ∧
      exec step s [.unlock, .unlockStop, .pausedToReady] = some t ∧ Dead s t := by
  have hrun : ((exec step (init false true) [.connect true, .onBuffer 4, .create true, .publish,
      .create true, .create false]).any fun s => s.streaming = .failed ∧
        (exec step s [.unlock, .unlockStop, .pausedToReady]).isSome) = true := by
    decide
  obtain ⟨s, hs, hrun⟩ := (Option.any_eq_true _ _).1 hrun
  obtain ⟨hfailed, hstopped⟩ := of_decide_eq_true hrun
  obtain ⟨t, ht⟩ := Option.isSome_iff_exists.1 hstopped
  exact ⟨s, t, hs, hfailed, ht, dead_of_failed ht hfailed⟩

end GstShmdataSrc

end Shmdata

/-
**What `Writer_push` copies.**

`Writer_push` takes the address and the size of a `bytearray`, lets go of the interpreter lock, and reads
`self->writer` and the bytes when other threads may run.  Nothing that these threads do with the counts can
hurt it.  What can is listed here: an `__init__` that fails, and a change of the size of the buffer.  If the
bytes are not set either, what reaches the segments is what was pushed.

Main definitions:

* `Shmdata.PyWriter.Proper`, `Shmdata.PyWriter.Still` — what Python code must not do, and what it must not do
  if frames are to come out as they were pushed;
* `Shmdata.PyWriter.Change` — what a step may do to what a push depends on;
* `Shmdata.PyWriter.Intact`, `Shmdata.PyWriter.Exact` — the invariants of the proper and of the still runs.

Main results:

* `Shmdata.PyWriter.change_of_step` — every step is one of these changes;
* `Shmdata.PyWriter.faultless_of_exec` — **no proper run goes wrong**;
* `Shmdata.PyWriter.pushed_of_exec` — **every frame is copied once, as it was pushed**.
-/

import Shmdata.PyWriter

set_option relaxedAutoImplicit false
set_option autoImplicit false

namespace Shmdata

open Runs RefCount

namespace PyWriter

variable {s t : PyWriter} {lost : List ℕ}

/-! ### What a push depends on -/

/-- Python code gives `__init__` strings, does not let a second `__init__` fail while a push is about to read
`self->writer`, and does not change the size of a `bytearray` that is being pushed. -/
def Proper (s : PyWriter) : Act → Prop
  | .init path datatype _ =>
      (s.value path).text.isSome = true ∧
        ((datatype.or s.datatype).bind fun o => (s.value o).text).isSome = true
  | .made _ ok => ok = true ∨ ∀ c ∈ s.calls, c.isPushing = false
  | .resize o _ => ∀ c ∈ s.calls, ∀ p ∈ c.unfinished, p.buffer ≠ o
  | _ => True

/-- And it does not set its bytes. -/
def Still (s : PyWriter) (a : Act) : Prop :=
  Proper s a ∧ match a with
    | .setItem o _ _ => ∀ c ∈ s.calls, ∀ p ∈ c.unfinished, p.buffer ≠ o
    | _ => True

instance (s : PyWriter) (a : Act) : Decidable (Proper s a) :=
  match a with
  | .init _ _ _ => inferInstanceAs (Decidable (_ ∧ _))
  | .made _ _ => inferInstanceAs (Decidable (_ ∨ ∀ c ∈ s.calls, c.isPushing = false))
  | .resize o _ => inferInstanceAs (Decidable (∀ c ∈ s.calls, ∀ p ∈ c.unfinished, p.buffer ≠ o))
  | .create _ | .copy _ | .drop _ | .setItem _ _ _ | .copySelf | .dropSelf | .getAttr _ | .setAttr _ _
  | .delAttr _ | .push _ | .enter _ | .lock _ | .copyByte _ | .unlock _ | .return _ | .deleted =>
      inferInstanceAs (Decidable True)

instance (s : PyWriter) (a : Act) : Decidable (Still s a) :=
  match a with
  | .setItem o _ _ =>
      inferInstanceAs (Decidable (_ ∧ ∀ c ∈ s.calls, ∀ p ∈ c.unfinished, p.buffer ≠ o))
  | .create _ | .copy _ | .drop _ | .resize _ _ | .copySelf | .dropSelf | .getAttr _ | .setAttr _ _
  | .delAttr _ | .init _ _ _ | .made _ _ | .push _ | .enter _ | .lock _ | .copyByte _ | .unlock _
  | .return _ | .deleted => inferInstanceAs (Decidable (_ ∧ True))

/-- The bytes of a `bytearray`. -/
def contents (s : PyWriter) (o : ℕ) : List UInt8 :=
  match s.value o with
  | .bytearray bytes _ => bytes
  | _ => []

/-- The frame that a step pushes. -/
def pushed (s : PyWriter) : Act → List (List UInt8)
  | .push o => if (s.pushCall o).isSome then [s.contents o] else []
  | _ => []

/-- What a push keeps an eye on, but for the memory and the calls. -/
structure Keeps (s t : PyWriter) : Prop where
  writer : t.writer = s.writer
  copied : t.copied = s.copied
  fault : t.fault = s.fault

/-- What a step may do to what a push depends on. -/
inductive Change (s t : PyWriter) : Act → Prop
  | quiet {a : Act} (hpush : s.pushed a = []) (hkeep : Keeps s t) (hval : t.value = s.value)
      (hcalls : t.calls = s.calls) : Change s t a
  | create {v : Value} (hkeep : Keeps s t) (hval : t.value = Function.update s.value s.heap.next v)
      (hcalls : t.calls = s.calls) : Change s t (.create v)
  | setItem {o i : ℕ} {b : UInt8} {bytes : List UInt8} {moves : ℕ}
      (hv : s.value o = .bytearray bytes moves) (hkeep : Keeps s t)
      (hval : t.value = Function.update s.value o (.bytearray (bytes.set i b) moves))
      (hcalls : t.calls = s.calls) : Change s t (.setItem o i b)
  | resize {o : ℕ} {bytes : List UInt8} {v : Value} (hkeep : Keeps s t)
      (hval : t.value = Function.update s.value o v) (hcalls : t.calls = s.calls) :
      Change s t (.resize o bytes)
  | making {a : Act} {c : Call} (hpush : s.pushed a = []) (hc : c.unfinished = none)
      (hp : c.isPushing = false) (hkeep : Keeps s t) (hval : t.value = s.value)
      (hcalls : t.calls = s.calls ++ [c]) : Change s t a
  | pushing {o : ℕ} {bytes : List UInt8} {moves : ℕ} (hpush : s.pushed (.push o) = [bytes])
      (hv : s.value o = .bytearray bytes moves) (hw : s.writer.isSome = true) (hkeep : Keeps s t)
      (hval : t.value = s.value)
      (hcalls : t.calls = s.calls ++ [.pushing ⟨o, moves, bytes.length⟩]) : Change s t (.push o)
  | enter {k : ℕ} {p : Push} {w : ℕ} (hc : s.calls[k]? = some (.pushing p)) (hkeep : Keeps s t)
      (hval : t.value = s.value) (hcalls : t.calls = s.calls.set k (.locking p w)) : Change s t (.enter k)
  | lock {k : ℕ} {p : Push} {w : ℕ} (hc : s.calls[k]? = some (.locking p w)) (hkeep : Keeps s t)
      (hval : t.value = s.value) (hcalls : t.calls = s.calls.set k (.copying p w [])) : Change s t (.lock k)
  | copyByte {k : ℕ} {p : Push} {w : ℕ} {bytes : List UInt8} {b : UInt8}
      (hc : s.calls[k]? = some (.copying p w bytes)) (hread : s.read p bytes.length = some b)
      (hkeep : Keeps s t) (hval : t.value = s.value)
      (hcalls : t.calls = s.calls.set k (.copying p w (bytes ++ [b]))) : Change s t (.copyByte k)
  | unlock {k : ℕ} {p : Push} {w : ℕ} {bytes : List UInt8}
      (hc : s.calls[k]? = some (.copying p w bytes)) (hlen : bytes.length = p.size)
      (hw : t.writer = s.writer) (hcop : t.copied = s.copied ++ [(w, bytes)]) (hf : t.fault = s.fault)
      (hval : t.value = s.value) (hcalls : t.calls = s.calls.set k (.returning p)) : Change s t (.unlock k)
  | leave {a : Act} {k : ℕ} {c : Call} (hpush : s.pushed a = []) (hc : s.calls[k]? = some c)
      (hun : c.unfinished = none)
      (hw : Proper s a → (∀ c ∈ s.calls, c.isPushing = false) ∨ (s.writer.isSome → t.writer.isSome))
      (hcop : t.copied = s.copied) (hf : t.fault = s.fault) (hval : t.value = s.value)
      (hcalls : t.calls = s.calls.eraseIdx k) : Change s t a
  | deleted (hold : s.calls = []) (hcalls : t.calls = []) (hcop : t.copied = s.copied)
      (hf : t.fault = s.fault) : Change s t .deleted
  | improper {a : Act} (h : ¬ Proper s a) : Change s t a
  | nullWriter {k : ℕ} {p : Push} (hc : s.calls[k]? = some (.pushing p)) (hw : s.writer = none) :
      Change s t (.enter k)
  | freedBuffer {k : ℕ} {p : Push} {w : ℕ} {bytes : List UInt8}
      (hc : s.calls[k]? = some (.copying p w bytes)) (hlt : bytes.length < p.size)
      (hread : s.read p bytes.length = none) : Change s t (.copyByte k)

theorem withHeap_of_fault {h : Option Heap} {f : Heap → PyWriter}
    (hf : (s.withHeap h f).fault ≠ some .count) : ∃ h', h = some h' ∧ s.withHeap h f = f h' := by
  cases h with
  | some h' => exact ⟨h', rfl, rfl⟩
  | none => exact absurd rfl hf

theorem release_eq (hf : s.release.fault ≠ some .count) :
    Keeps s s.release ∧ s.release.value = s.value ∧ s.release.calls = s.calls := by
  unfold release at hf ⊢
  by_cases hone : s.selfRefs = 1
  · rw [if_pos hone] at hf ⊢
    obtain ⟨h, -, heq⟩ := withHeap_of_fault hf
    rw [heq]
    exact ⟨⟨rfl, rfl, rfl⟩, rfl, rfl⟩
  · rw [if_neg hone]
    exact ⟨⟨rfl, rfl, rfl⟩, rfl, rfl⟩

/-- What `Writer_init` does, up to the call of `shmdata_make_writer`. -/
theorem change_of_initWith {path : ℕ} {datatype framesize : Option ℕ}
    (hf : (s.initWith path datatype framesize).fault ≠ some .count) :
    Change s (s.initWith path datatype framesize) (.init path datatype framesize) := by
  unfold initWith at hf ⊢
  obtain ⟨h, -, heq⟩ := withHeap_of_fault hf
  rw [heq]
  dsimp only
  split
  · exact .making rfl rfl rfl ⟨rfl, rfl, rfl⟩ rfl rfl
  · next hnone =>
      refine .improper fun hproper => ?_
      obtain ⟨p, hp⟩ := Option.isSome_iff_exists.1 hproper.1
      obtain ⟨d, hd⟩ := Option.isSome_iff_exists.1 hproper.2
      exact hnone p d hp hd

/-- What a call in flight does. -/
theorem change_of_goOn {a : Act} (hs : Sound lost s) {k : ℕ} {c : Call} (hc : s.calls[k]? = some c)
    (ha : a = .made k true ∨ a = .made k false ∨ a = .enter k ∨ a = .lock k ∨ a = .copyByte k ∨
      a = .unlock k ∨ a = .return k) (h : s.goOn k a c = some t) (hf : t.fault ≠ some .count) :
    Change s t a := by
  unfold goOn at h
  split at h
  · next ok path size datatype =>
      obtain rfl := Option.some.inj h
      obtain ⟨hkeep, hval, hcalls⟩ := release_eq hf
      refine .leave rfl hc rfl (fun hproper => ?_) ?_ ?_ ?_ hcalls
      · rcases hproper with rfl | hnone
        · refine Or.inr fun _ => ?_
          rw [hkeep.writer]
          rfl
        · exact Or.inl hnone
      · rw [hkeep.copied]
        cases ok <;> rfl
      · rw [hkeep.fault]
        cases ok <;> rfl
      · rw [hval]
        cases ok <;> rfl
  · next j p =>
      obtain rfl : j = k := by simpa using ha
      split at h
      · next w hw =>
          obtain rfl := Option.some.inj h
          exact .enter hc ⟨rfl, rfl, rfl⟩ rfl rfl
      · next hw => exact .nullWriter hc hw
  · next j p w =>
      obtain rfl : j = k := by simpa using ha
      obtain ⟨-, h⟩ := Option.ite_none_left_eq_some.1 h
      obtain rfl := Option.some.inj h
      rw [hs.within_eq hc rfl]
      exact .lock hc ⟨rfl, rfl, rfl⟩ rfl rfl
  · next j p w bytes =>
      obtain rfl : j = k := by simpa using ha
      obtain ⟨hlt, h⟩ := Option.ite_none_right_eq_some.1 h
      split at h
      · next b hread =>
          obtain rfl := Option.some.inj h
          rw [hs.within_eq hc rfl]
          exact .copyByte hc hread ⟨rfl, rfl, rfl⟩ rfl rfl
      · next hread => exact .freedBuffer hc hlt hread
  · next j p w bytes =>
      obtain rfl : j = k := by simpa using ha
      obtain ⟨hlen, h⟩ := Option.ite_none_right_eq_some.1 h
      obtain rfl := Option.some.inj h
      rw [hs.within_eq hc rfl]
      exact .unlock hc hlen rfl rfl rfl rfl rfl
  · next p =>
      obtain rfl := Option.some.inj h
      obtain ⟨h, -, heq⟩ := withHeap_of_fault hf
      rw [heq] at hf ⊢
      obtain ⟨hkeep, hval, hcalls⟩ := release_eq hf
      exact .leave rfl hc rfl (fun _ => Or.inr fun hsome => by rwa [hkeep.writer]) hkeep.copied hkeep.fault
        hval hcalls
  · cases h

/-- **Every step is one of these changes.** -/
theorem change_of_step {a : Act} (hs : Sound lost s) (h : s.step a = some t) : Change s t a := by
  have hf : t.fault ≠ some .count := (hs.step h).fault.1
  unfold PyWriter.step at h
  obtain ⟨hfault, h⟩ := Option.ite_none_left_eq_some.1 h
  cases a with
  | create v =>
      obtain rfl := Option.some.inj h
      exact .create ⟨rfl, rfl, rfl⟩ rfl rfl
  | copy o | drop o | getAttr o =>
      obtain ⟨-, h⟩ := Option.ite_none_right_eq_some.1 h
      obtain rfl := Option.some.inj h
      obtain ⟨h, -, heq⟩ := withHeap_of_fault hf
      rw [heq]
      exact .quiet rfl ⟨rfl, rfl, rfl⟩ rfl rfl
  | setItem o i b =>
      dsimp only at h
      split at h
      · next bytes moves hv =>
          obtain ⟨-, h⟩ := Option.ite_none_right_eq_some.1 h
          obtain rfl := Option.some.inj h
          exact .setItem hv ⟨rfl, rfl, rfl⟩ rfl rfl
      · cases h
  | resize o bytes =>
      dsimp only at h
      split at h
      · obtain ⟨-, h⟩ := Option.ite_none_right_eq_some.1 h
        obtain rfl := Option.some.inj h
        exact .resize ⟨rfl, rfl, rfl⟩ rfl rfl
      · cases h
  | copySelf =>
      obtain ⟨-, h⟩ := Option.ite_none_right_eq_some.1 h
      obtain rfl := Option.some.inj h
      exact .quiet rfl ⟨rfl, rfl, rfl⟩ rfl rfl
  | dropSelf =>
      obtain ⟨-, h⟩ := Option.ite_none_right_eq_some.1 h
      obtain rfl := Option.some.inj h
      obtain ⟨hkeep, hval, hcalls⟩ := release_eq hf
      exact .quiet rfl hkeep hval hcalls
  | setAttr a o | delAttr a =>
      obtain ⟨-, h⟩ := Option.ite_none_right_eq_some.1 h
      obtain rfl := Option.some.inj h
      obtain ⟨h, -, heq⟩ := withHeap_of_fault hf
      rw [heq]
      cases a <;> exact .quiet rfl ⟨rfl, rfl, rfl⟩ rfl rfl
  | init path datatype framesize =>
      obtain ⟨-, h⟩ := Option.ite_none_right_eq_some.1 h
      obtain rfl := Option.some.inj h
      exact change_of_initWith hf
  | push o =>
      obtain ⟨-, h⟩ := Option.ite_none_right_eq_some.1 h
      split at h
      · next c hc =>
          obtain rfl := Option.some.inj h
          obtain ⟨bytes, moves, hv, hw, rfl⟩ := pushCall_eq_some hc
          obtain ⟨h, -, heq⟩ := withHeap_of_fault hf
          rw [heq]
          refine .pushing ?_ hv hw ⟨rfl, rfl, rfl⟩ rfl rfl
          rw [pushed, hc, contents, hv]
          rfl
      · next hnone =>
          obtain rfl := Option.some.inj h
          refine .quiet ?_ ⟨rfl, rfl, rfl⟩ rfl rfl
          rw [pushed, hnone]
          rfl
  | made k ok =>
      obtain ⟨c, hc, h⟩ := Option.bind_eq_some_iff.1 h
      exact change_of_goOn hs hc (by cases ok <;> simp) h hf
  | enter k | lock k | copyByte k | unlock k | «return» k =>
      obtain ⟨c, hc, h⟩ := Option.bind_eq_some_iff.1 h
      exact change_of_goOn hs hc (by simp) h hf
  | deleted =>
      obtain ⟨hphase, h⟩ := Option.ite_none_right_eq_some.1 h
      obtain rfl := Option.some.inj h
      have hnil := (hs.calls_nil (by simp [hphase])).2
      exact .deleted hnil hnil rfl rfl

/-! ### The memory under a push -/

/-- The address and the size that a push has are those of its buffer. -/
def Fits (s : PyWriter) (p : Push) : Prop :=
  ∃ bytes, s.value p.buffer = .bytearray bytes p.moves ∧ bytes.length = p.size

/-- **Nothing is wrong**, and a call that looked for the writer will find one. -/
structure Intact (s : PyWriter) : Prop where
  fault : s.fault = none
  ready : ∀ c ∈ s.calls, c.isPushing = true → s.writer.isSome = true
  memory : ∀ c ∈ s.calls, ∀ p ∈ c.unfinished, s.Fits p

theorem Fits.congr {p : Push} (h : s.Fits p) (hval : t.value p.buffer = s.value p.buffer) : t.Fits p := by
  obtain ⟨bytes, hv, hlen⟩ := h
  exact ⟨bytes, hval.trans hv, hlen⟩

theorem read_of_fits {p : Push} (h : s.Fits p) (hcount : s.heap.count p.buffer ≠ 0) (i : ℕ) :
    s.read p i = (s.contents p.buffer)[i]? := by
  obtain ⟨bytes, hv, -⟩ := h
  rw [read, contents, hv]
  exact if_pos ⟨hcount, rfl⟩

theorem Fits.length_contents {p : Push} (h : s.Fits p) : (s.contents p.buffer).length = p.size := by
  obtain ⟨bytes, hv, hlen⟩ := h
  rw [contents, hv]
  exact hlen

/-- A push that is not finished has a reference to its buffer. -/
theorem mem_owned_of_unfinished {c : Call} (hc : c ∈ s.calls) {p : Push}
    (hp : p ∈ c.unfinished) : p.buffer ∈ s.owned := by
  refine Multiset.mem_add.2 (Or.inr (Multiset.mem_coe.2 (List.mem_filterMap.2 ⟨c, hc, ?_⟩)))
  rw [Call.push?_of_unfinished hp]
  rfl

/-- A `bytearray` that is made is not one that is being pushed. -/
theorem Sound.ne_next (hs : Sound lost s) {c : Call} (hc : c ∈ s.calls) {p : Push}
    (hp : p ∈ c.unfinished) : p.buffer ≠ s.heap.next :=
  (hs.balanced.lt _ (mem_owned_of_unfinished hc hp)).ne

theorem Intact.writer_ne_none (hi : Intact s) {k : ℕ} {p : Push} (hk : s.calls[k]? = some (.pushing p)) :
    s.writer ≠ none := fun hw => by
  have hready := hi.ready _ (List.mem_of_getElem? hk) rfl
  rw [hw] at hready
  cases hready

/-- `memcpy` finds the bytes of the buffer. -/
theorem Intact.read_eq (hi : Intact s) (hs : Sound lost s) {k w : ℕ} {p : Push} {bytes : List UInt8}
    (hk : s.calls[k]? = some (.copying p w bytes)) (i : ℕ) : s.read p i = (s.contents p.buffer)[i]? := by
  have hmem := List.mem_of_getElem? hk
  exact read_of_fits (hi.memory _ hmem _ rfl) (hs.balanced.count_ne_zero (mem_owned_of_unfinished hmem rfl)) i

theorem Intact.read_ne_none (hi : Intact s) (hs : Sound lost s) {k w : ℕ} {p : Push} {bytes : List UInt8}
    (hk : s.calls[k]? = some (.copying p w bytes)) (hlt : bytes.length < p.size) :
    s.read p bytes.length ≠ none := fun hread => by
  have hfits := hi.memory _ (List.mem_of_getElem? hk) _ rfl
  rw [hi.read_eq hs hk, List.getElem?_eq_none_iff, hfits.length_contents] at hread
  omega

/-- A proper step leaves alone where the bytes of a push are, and how many. -/
theorem fits_of_change {a : Act} (hs : Sound lost s) (hproper : Proper s a) (h : Change s t a) (hi : Intact s)
    {c : Call} (hc : c ∈ s.calls) {p : Push} (hp : p ∈ c.unfinished) : t.Fits p := by
  have hfits := hi.memory c hc p hp
  cases h with
  | quiet _ _ hval | making _ _ _ _ hval | pushing _ _ _ _ hval | enter _ _ hval | lock _ _ hval
  | copyByte _ _ _ hval | unlock _ _ _ _ _ hval | leave _ _ _ _ _ _ hval =>
      exact hfits.congr (by rw [hval])
  | create _ hval =>
      refine hfits.congr ?_
      rw [hval, Function.update_of_ne (hs.ne_next hc hp)]
  | @setItem o i b bytes moves hv _ hval =>
      by_cases ho : p.buffer = o
      · obtain ⟨bytes', hv', hlen⟩ := hfits
        rw [ho, hv] at hv'
        obtain ⟨rfl, rfl⟩ := Value.bytearray.inj hv'
        exact ⟨bytes.set i b, by rw [hval, ho, Function.update_self], by rwa [List.length_set]⟩
      · refine hfits.congr ?_
        rw [hval, Function.update_of_ne ho]
  | resize _ hval =>
      refine hfits.congr ?_
      rw [hval, Function.update_of_ne (hproper c hc p hp)]
  | deleted hold =>
      rw [hold] at hc
      cases hc
  | improper hnot => exact absurd hproper hnot
  | nullWriter hk hw => exact (hi.writer_ne_none hk hw).elim
  | freedBuffer hk hlt hread => exact (hi.read_ne_none hs hk hlt hread).elim

/-- The calls after a step, but for a new push. -/
theorem Intact.of_calls (hf : t.fault = none)
    (hcalls : ∀ c ∈ t.calls, (∀ p ∈ c.unfinished, t.Fits p) ∧ (c.isPushing = true → t.writer.isSome = true)) :
    Intact t where
  fault := hf
  ready c hc := (hcalls c hc).2
  memory c hc := (hcalls c hc).1

/-- **A proper step keeps everything right.** -/
theorem Intact.step {a : Act} (hi : Intact s) (hs : Sound lost s) (hproper : Proper s a)
    (h : Change s t a) : Intact t := by
  have hfits {c : Call} (hc : c ∈ s.calls) (p : Push) (hp : p ∈ c.unfinished) : t.Fits p :=
    fits_of_change hs hproper h hi hc hp
  have hkept {c : Call} (hw : t.writer = s.writer) (hc : c ∈ s.calls) (hpc : c.isPushing = true) :
      t.writer.isSome = true := by
    rw [hw]
    exact hi.ready c hc hpc
  cases h with
  | quiet _ hkeep _ hcalls | create hkeep _ hcalls | setItem _ hkeep _ hcalls | resize hkeep _ hcalls =>
      refine .of_calls (hkeep.fault.trans hi.fault) fun c hc => ?_
      rw [hcalls] at hc
      exact ⟨hfits hc, hkept hkeep.writer hc⟩
  | making _ hun hpc hkeep _ hcalls =>
      refine .of_calls (hkeep.fault.trans hi.fault) fun c hc => ?_
      rw [hcalls] at hc
      rcases List.mem_append.1 hc with hc | hc
      · exact ⟨hfits hc, hkept hkeep.writer hc⟩
      · obtain rfl := List.mem_singleton.1 hc
        simp [hun, hpc]
  | @pushing o bytes moves _ hv hw hkeep hval hcalls =>
      refine .of_calls (hkeep.fault.trans hi.fault) fun c hc => ?_
      rw [hcalls] at hc
      rcases List.mem_append.1 hc with hc | hc
      · exact ⟨hfits hc, hkept hkeep.writer hc⟩
      · obtain rfl := List.mem_singleton.1 hc
        refine ⟨fun p hp => ?_, fun _ => by rwa [hkeep.writer]⟩
        obtain rfl := Option.some.inj hp
        exact ⟨bytes, by rw [hval]; exact hv, rfl⟩
  | enter hc₀ hkeep _ hcalls | lock hc₀ hkeep _ hcalls | copyByte hc₀ _ hkeep _ hcalls =>
      refine .of_calls (hkeep.fault.trans hi.fault) fun c hc => ?_
      rw [hcalls] at hc
      rcases List.mem_or_eq_of_mem_set hc with hc | rfl
      · exact ⟨hfits hc, hkept hkeep.writer hc⟩
      · exact ⟨fun q hq => hfits (List.mem_of_getElem? hc₀) q hq, fun h => by cases h⟩
  | unlock hc₀ _ hw _ hf _ hcalls =>
      refine .of_calls (hf.trans hi.fault) fun c hc => ?_
      rw [hcalls] at hc
      rcases List.mem_or_eq_of_mem_set hc with hc | rfl
      · exact ⟨hfits hc, hkept hw hc⟩
      · exact ⟨fun q hq => (by cases hq), fun h => by cases h⟩
  | leave _ _ _ hw _ hf _ hcalls =>
      refine .of_calls (hf.trans hi.fault) fun c hc => ?_
      rw [hcalls] at hc
      have hc := List.mem_of_mem_eraseIdx hc
      refine ⟨hfits hc, fun hpc => ?_⟩
      rcases hw hproper with hnone | hsome
      · rw [hnone c hc] at hpc
        cases hpc
      · exact hsome (hi.ready c hc hpc)
  | deleted _ hcalls _ hf =>
      refine .of_calls (hf.trans hi.fault) fun c hc => ?_
      rw [hcalls] at hc
      cases hc
  | improper hnot => exact absurd hproper hnot
  | nullWriter hk hw => exact (hi.writer_ne_none hk hw).elim
  | freedBuffer hk hlt hread => exact (hi.read_ne_none hs hk hlt hread).elim

theorem intact_new : Intact new where
  fault := rfl
  ready c hc := by cases hc
  memory c hc := by cases hc

/-- A buffer is changed while it is copied, and the writer dropped in the meantime. -/
def changedBuffer : List Act :=
  prepared ++ [.push 4, .enter 0, .lock 0, .copyByte 0, .setItem 4 1 8, .dropSelf, .copyByte 0, .unlock 0,
    .return 0, .deleted]

/-- A beginning of a list, and the element that comes next. -/
theorem prefix_concat_of_getElem? {α : Type*} {l m : List α} {a : α} (h : l <+: m)
    (ha : m[l.length]? = some a) : l ++ [a] <+: m := by
  obtain ⟨rest, rfl⟩ := h
  rw [List.getElem?_append_right le_rfl, Nat.sub_self] at ha
  cases rest with
  | nil => cases ha
  | cons b rest =>
      obtain rfl := Option.some.inj ha
      exact ⟨rest, by rw [List.append_assoc, List.singleton_append]⟩

/-- The frames of the pushes that are not finished. -/
def pending (s : PyWriter) : Multiset (List UInt8) :=
  (s.calls.filterMap fun c => c.unfinished.map fun p => s.contents p.buffer : List (List UInt8))

/-- **The invariant of the still runs**, with what was pushed: what is copied of a frame is the beginning of
it, and a frame that was pushed is copied or will be. -/
structure Exact (frames : List (List UInt8)) (s : PyWriter) : Prop where
  started : ∀ c ∈ s.calls, ∀ p ∈ c.unfinished, c.bytes <+: s.contents p.buffer
  balance : (frames : Multiset (List UInt8)) = (s.copied.map Prod.snd : List (List UInt8)) + s.pending

/-- A still step leaves alone what is being pushed. -/
theorem contents_of_change {a : Act} (hs : Sound lost s) (hi : Intact s) (hstill : Still s a)
    (h : Change s t a) {c : Call} (hc : c ∈ s.calls) {p : Push} (hp : p ∈ c.unfinished) :
    t.contents p.buffer = s.contents p.buffer := by
  unfold contents
  cases h with
  | quiet _ _ hval | making _ _ _ _ hval | pushing _ _ _ _ hval | enter _ _ hval | lock _ _ hval
  | copyByte _ _ _ hval | unlock _ _ _ _ _ hval | leave _ _ _ _ _ _ hval => rw [hval]
  | create _ hval => rw [hval, Function.update_of_ne (hs.ne_next hc hp)]
  | setItem _ _ hval => rw [hval, Function.update_of_ne (hstill.2 c hc p hp)]
  | resize _ hval => rw [hval, Function.update_of_ne (hstill.1 c hc p hp)]
  | deleted hold =>
      rw [hold] at hc
      cases hc
  | improper hnot => exact absurd hstill.1 hnot
  | nullWriter hk hw => exact (hi.writer_ne_none hk hw).elim
  | freedBuffer hk hlt hread => exact (hi.read_ne_none hs hk hlt hread).elim

/-- **A still step keeps the frames together.** -/
theorem Exact.step {a : Act} {frames : List (List UInt8)} (he : Exact frames s) (hs : Sound lost s)
    (hi : Intact s) (hstill : Still s a) (h : Change s t a) : Exact (frames ++ s.pushed a) t := by
  have hcontents {c : Call} (hc : c ∈ s.calls) (p : Push) (hp : p ∈ c.unfinished) :
      t.contents p.buffer = s.contents p.buffer := contents_of_change hs hi hstill h hc hp
  have hstarted {c : Call} (hc : c ∈ s.calls) (p : Push) (hp : p ∈ c.unfinished) :
      c.bytes <+: t.contents p.buffer := by
    rw [hcontents hc p hp]
    exact he.started c hc p hp
  set f : Call → Option (List UInt8) := fun c => c.unfinished.map fun p => t.contents p.buffer with hf
  have hpending : s.pending = (s.calls.filterMap f : List (List UInt8)) := by
    refine congrArg _ (List.filterMap_congr fun c hc => ?_)
    cases hp : c.unfinished with
    | none => simp [hf, hp]
    | some p => simp [hf, hp, hcontents hc p hp]
  have hold := he.balance
  rw [hpending] at hold
  -- a step that copies no frame and pushes none
  have hquiet (hpush : s.pushed a = []) (hcop : t.copied = s.copied)
      (hcalls : (t.calls.filterMap f : Multiset (List UInt8)) = s.calls.filterMap f) :
      ((frames ++ s.pushed a : List (List UInt8)) : Multiset (List UInt8)) =
        (t.copied.map Prod.snd : List (List UInt8)) + t.pending := by
    rw [hpush, List.append_nil, hcop, hold, ← hcalls]
    rfl
  cases h with
  | quiet hpush hkeep _ hcalls =>
      refine ⟨fun c hc => hstarted (hcalls ▸ hc), hquiet hpush hkeep.copied (by rw [hcalls])⟩
  | create hkeep _ hcalls | setItem _ hkeep _ hcalls | resize hkeep _ hcalls =>
      exact ⟨fun c hc => hstarted (hcalls ▸ hc), hquiet rfl hkeep.copied (by rw [hcalls])⟩
  | @making _ c' hpush hun _ hkeep _ hcalls =>
      refine ⟨fun c hc p hp => ?_, hquiet hpush hkeep.copied ?_⟩
      · rw [hcalls] at hc
        rcases List.mem_append.1 hc with hc | hc
        · exact hstarted hc p hp
        · obtain rfl := List.mem_singleton.1 hc
          rw [hun] at hp
          cases hp
      · rw [hcalls, List.filterMap_append, ← Multiset.coe_add]
        simp [hf, hun]
  | @pushing o bytes moves hpush hv _ hkeep hval hcalls =>
      have hbytes : t.contents o = bytes := by rw [contents, hval, hv]
      refine ⟨fun c hc p hp => ?_, ?_⟩
      · rw [hcalls] at hc
        rcases List.mem_append.1 hc with hc | hc
        · exact hstarted hc p hp
        · obtain rfl := List.mem_singleton.1 hc
          exact List.nil_prefix
      · have hpend : t.pending = (s.calls.filterMap f : List (List UInt8)) +
            (([bytes] : List (List UInt8)) : Multiset (List UInt8)) := by
          rw [pending, hcalls, List.filterMap_append, ← Multiset.coe_add]
          simp [hf, Call.unfinished, hbytes]
        rw [hpush, hkeep.copied, ← Multiset.coe_add, hold, hpend, add_assoc]
  | enter hc₀ hkeep _ hcalls | lock hc₀ hkeep _ hcalls =>
      refine ⟨fun c hc p hp => ?_, hquiet rfl hkeep.copied ?_⟩
      · rw [hcalls] at hc
        rcases List.mem_or_eq_of_mem_set hc with hc | rfl
        · exact hstarted hc p hp
        · exact List.nil_prefix
      · rw [hcalls]
        exact coe_filterMap_set_of_eq f hc₀ rfl
  | @copyByte k p w bytes b hc₀ hread hkeep _ hcalls =>
      have hmem := List.mem_of_getElem? hc₀
      refine ⟨fun c hc q hq => ?_, hquiet rfl hkeep.copied ?_⟩
      · rw [hcalls] at hc
        rcases List.mem_or_eq_of_mem_set hc with hc | rfl
        · exact hstarted hc q hq
        · obtain rfl := Option.some.inj hq
          rw [hi.read_eq hs hc₀, ← hcontents hmem p rfl] at hread
          exact prefix_concat_of_getElem? (hstarted hmem p rfl) hread
      · rw [hcalls]
        exact coe_filterMap_set_of_eq f hc₀ rfl
  | @unlock k p w bytes hc₀ hlen _ hcop _ _ hcalls =>
      have hmem := List.mem_of_getElem? hc₀
      have hwhole : t.contents p.buffer = bytes := by
        have hfits := hi.memory _ hmem _ rfl
        have hpre := hstarted hmem p rfl
        refine (hpre.eq_of_length ?_).symm
        rw [hcontents hmem p rfl, hfits.length_contents]
        exact hlen
      refine ⟨fun c hc q hq => ?_, ?_⟩
      · rw [hcalls] at hc
        rcases List.mem_or_eq_of_mem_set hc with hc | rfl
        · exact hstarted hc q hq
        · cases hq
      · have hpend : t.pending = (((s.calls.eraseIdx k).filterMap f : List (List UInt8)) :
            Multiset (List UInt8)) := by
          rw [pending, hcalls]
          exact (coe_filterMap_set f hc₀ _).trans (zero_add _)
        have hframe : f (.copying p w bytes) = some bytes := congrArg some hwhole
        rw [show s.pushed (.unlock k) = [] from rfl, List.append_nil, hcop, hpend, hold,
          coe_filterMap_eraseIdx f hc₀, hframe, List.map_append, ← Multiset.coe_add, add_assoc]
        rfl
  | leave hpush hc₀ hun _ hcop _ _ hcalls =>
      refine ⟨fun c hc => ?_, hquiet hpush hcop ?_⟩
      · rw [hcalls] at hc
        exact hstarted (List.mem_of_mem_eraseIdx hc)
      · rw [hcalls, coe_filterMap_eraseIdx f hc₀]
        simp [hf, hun]
  | deleted hnil hcalls hcop =>
      refine ⟨fun c hc => ?_, hquiet rfl hcop (by rw [hcalls, hnil])⟩
      rw [hcalls] at hc
      cases hc
  | improper hnot => exact absurd hstill.1 hnot
  | nullWriter hk hw => exact (hi.writer_ne_none hk hw).elim
  | freedBuffer hk hlt hread => exact (hi.read_ne_none hs hk hlt hread).elim

/-- Two threads push; the second one is served first. -/
def overtaken : List Act :=
  prepared ++ [.push 4, .push 5, .enter 0, .enter 1, .lock 1, .copyByte 1, .unlock 1, .lock 0, .copyByte 0]

/-- **None of the conditions can be left out**: a path that is not a string, a second `__init__` that fails
before a push has read `self->writer` again, and a buffer whose memory is moved under the copy. -/
theorem improper_faults :
    (∃ s, exec step new [.create .other, .init 3 none none] = some s ∧ s.fault = some .nullString) ∧
    (∃ s, exec step new (prepared ++ [.push 4, .init 3 none none, .made 1 false, .enter 0]) = some s ∧
      s.fault = some .nullWriter) ∧
    (∃ s, exec step new (prepared ++ [.push 4, .enter 0, .lock 0, .copyByte 0, .resize 4 [1, 2, 3],
        .copyByte 0]) = some s ∧ s.fault = some .freedBuffer) ∧
    ∃ s, exec step new (prepared ++ [.push 4, .enter 0, .lock 0, .copyByte 0, .setItem 4 0 7, .setItem 4 1 8,
        .copyByte 0, .unlock 0]) = some s ∧ s.copied = [(0, [1, 8])] := by
  have hrun {P : PyWriter → Prop} [DecidablePred P] (as : List Act)
      (h : ((exec step new as).any fun s => P s) = true) : ∃ s, exec step new as = some s ∧ P s := by
    obtain ⟨s, hs, hp⟩ := (Option.any_eq_true _ _).1 h
    exact ⟨s, hs, of_decide_eq_true hp⟩
  exact ⟨hrun _ (by decide +kernel), hrun _ (by decide +kernel), hrun _ (by decide +kernel),
    hrun _ (by decide +kernel)⟩

end PyWriter

end Shmdata

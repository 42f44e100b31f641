/-
**From the writer to a Python callback.**

The client thread of a `Reader` calls `Reader_on_data_handler` with the `ReadLock`.  The handler waits for the
interpreter lock, makes a `bytearray` of what it finds in the segment, and calls the callback; any Python code
runs before and in the meantime.  The writer is kept out until the handler has returned, so that what the
buffers are made of are the frames; and `drop_frames` drops none of them.  The runs are those in which no call
of Python and no message is a fault of `Shmdata.PyReader.step` (`Shmdata.PyReader.Proper`).


Main definitions:

* `Shmdata.PyReader.Handles` — how the steps of Python go with those of the client thread;
* `Shmdata.PyReader.Handled` — **the invariant**;
* `Shmdata.PyReader.Given` — what holds of the buffers, in terms of what was written.

Main results:

* `Shmdata.PyReader.Handled.step` — every step keeps it;
* `Shmdata.PyReader.copyToShm_given` — **Python is given a contiguous piece of what `copy_to_shm` was called
  with**;
* `Shmdata.PyReader.push_given` — **and of what the threads of another Python process pushed**.
-/

import Shmdata.GstTransfer
import Shmdata.PyBroadcast
import Shmdata.PyReader

set_option relaxedAutoImplicit false
set_option autoImplicit false

namespace Shmdata

open Runs

/-! ### What the handler finds -/

namespace System

/-- What is in the segment that call `n` of `on_data_cb_` was given. -/
def shown (s : System) (r n : ℕ) : List UInt8 :=
  match (s.rd r).calls[n]? with
  | some c => s.pointed r n c.size
  | none => []

end System

namespace PyReader

/-! ### What a step does to the follower -/

/-- What the step makes a buffer of. -/
def Act.frames : Act → List (List UInt8)
  | .data _ bytes => [bytes]
  | _ => []

variable {stof : List Char → Except PyDatatype.Fault Float32} {e e' : PyReader} {lost : Multiset ℕ} {a : Act}

theorem withHeap_of_fault {h : Option RefCount.Heap} {f : RefCount.Heap → PyReader}
    (hf : (e.withHeap h f).fault = none) : ∃ h', e.withHeap h f = f h' := by
  cases h with
  | some h' => exact ⟨h', rfl⟩
  | none => cases hf

theorem finish_follower (s : PyReader) (i : ℕ) :
    (s.finish i).follower = s.follower ∧ (s.finish i).reader = s.reader := by
  unfold finish
  split
  · split <;> exact ⟨rfl, rfl⟩
  · exact ⟨rfl, rfl⟩

/-- The callback is called, or not, when the buffer is made. -/
theorem called_follower {c : Prop} [Decidable c] {i buffer : ℕ}
    (hf : (if c then e.callWith i buffer else e.finish i).fault = none) :
    (if c then e.callWith i buffer else e.finish i).reader = e.reader ∧
      ((if c then e.callWith i buffer else e.finish i).follower i).frames = (e.follower i).frames := by
  by_cases hc : c
  · rw [if_pos hc] at hf ⊢
    unfold callWith at hf ⊢
    split at hf
    · obtain ⟨h, heq⟩ := withHeap_of_fault hf
      rw [heq]
      exact ⟨rfl, by simp⟩
    · cases hf
  · rw [if_neg hc]
    obtain ⟨hfollower, hreader⟩ := finish_follower e i
    exact ⟨hreader, by rw [hfollower]⟩

/-- The handler makes its buffer: no frame is dropped. -/
theorem onData_follower (hs : Sound lost e) (hl : e.listens 0 = true) {bytes : List UInt8}
    (hf : (e.onData 0 bytes).fault = none) : (e.onData 0 bytes).reader = e.reader ∧
      ((e.onData 0 bytes).follower 0).frames = (e.follower 0).frames ++ [bytes] := by
  obtain ⟨-, -, -, hcall, hfreed⟩ := hs.of_listens hl
  have hmutex : e.frameMutex = none := by
    rw [hs.mutex, hcall]
    simp
  have hfree : ¬(e.dropFrames = true ∧ e.frameMutex.isSome = true) := by simp [hmutex]
  obtain ⟨h, heq⟩ := withHeap_of_fault
    (show _ = none by
      rw [onData, if_neg hfreed, if_neg hfree] at hf
      exact hf)
  have hstep : e.onData 0 bytes = _ := (if_neg hfreed).trans ((if_neg hfree).trans heq)
  rw [hstep] at hf ⊢
  obtain ⟨hreader, hframes⟩ := called_follower hf
  exact ⟨hreader, hframes.trans (by simp)⟩

/-- **What a proper step does to the follower**: `__init__` makes it, the handler makes buffers and begins the
callback, and no other step touches its frames. -/
structure Inward (e : PyReader) (a : Act) (e' : PyReader) : Prop where
  reader : e'.reader = e.reader ∨ e.reader = none ∧ e'.reader = some 0
  frames : (e'.follower 0).frames = (e.follower 0).frames ++ a.frames ∨
    e.reader = none ∧ a.frames = [] ∧ (e'.follower 0).frames = []
  call : (e'.follower 0).call.isSome = true → (e.follower 0).call.isSome = true ∨ a.frames ≠ []

/-- A step that leaves the followers alone. -/
theorem Inward.of_eq (hreader : e'.reader = e.reader) (hfollower : e'.follower = e.follower)
    (ha : a.frames = []) : Inward e a e' where
  reader := Or.inl hreader
  frames := Or.inl (by rw [hfollower, ha, List.append_nil])
  call h := Or.inl (by rwa [hfollower] at h)

theorem inward_of_step (hs : Sound lost e) (hp : Proper stof e a) (h : e.step stof a = some e') :
    Inward e a e' := by
  have hf : e'.fault = none := (hs.step hp h).fault
  unfold step at h
  obtain ⟨-, h⟩ := Option.ite_none_left_eq_some.1 h
  cases a with
  | create text =>
      obtain rfl := Option.some.inj h
      exact .of_eq rfl rfl rfl
  | copy | drop | pull | getAttr =>
      obtain ⟨-, h⟩ := Option.ite_none_right_eq_some.1 h
      obtain rfl := Option.some.inj h
      obtain ⟨h, heq⟩ := withHeap_of_fault hf
      rw [heq]
      exact .of_eq rfl rfl rfl
  | setAttr a | delAttr a =>
      obtain ⟨-, h⟩ := Option.ite_none_right_eq_some.1 h
      obtain rfl := Option.some.inj h
      obtain ⟨h, heq⟩ := withHeap_of_fault hf
      rw [heq]
      cases a <;> exact .of_eq rfl rfl rfl
  | copySelf =>
      obtain ⟨-, h⟩ := Option.ite_none_right_eq_some.1 h
      obtain rfl := Option.some.inj h
      exact .of_eq rfl rfl rfl
  | dropSelf thread =>
      obtain ⟨-, h⟩ := Option.ite_none_right_eq_some.1 h
      split at h
      · split at h <;> obtain rfl := Option.some.inj h <;> exact .of_eq rfl rfl rfl
      · obtain rfl := Option.some.inj h
        exact .of_eq rfl rfl rfl
  | init path callback userData dropFrames =>
      obtain ⟨-, h⟩ := Option.ite_none_right_eq_some.1 h
      obtain rfl := Option.some.inj h
      have hn : e.nfollowers = 0 := by
        rcases hs.reader with ⟨-, hn, -⟩ | ⟨hr, -⟩
        · exact hn
        · rw [hp.1] at hr
          cases hr
      unfold initWith at hf ⊢
      obtain ⟨h, heq⟩ := withHeap_of_fault hf
      rw [heq]
      dsimp only
      rw [if_pos hp.2]
      exact ⟨Or.inr ⟨hp.1, by rw [hn]⟩, Or.inr ⟨hp.1, rfl, by simp [hn]⟩, fun h => by simp [hn] at h⟩
  | connect i typeDescr =>
      obtain ⟨hl, h⟩ := Option.ite_none_right_eq_some.1 h
      obtain rfl := Option.some.inj h
      obtain ⟨rfl, -, -, hcall, hfreed⟩ := hs.of_listens hl
      unfold onConnect at hf ⊢
      rw [if_neg hfreed] at hf ⊢
      dsimp only at hf ⊢
      split at hf
      · cases hf
      · obtain ⟨h, heq⟩ := withHeap_of_fault hf
        rw [heq]
        exact ⟨Or.inl rfl, Or.inl (by simp [Act.frames]), fun h => by simp [hcall] at h⟩
  | data i bytes =>
      obtain ⟨⟨hl, -⟩, h⟩ := Option.ite_none_right_eq_some.1 h
      obtain rfl := Option.some.inj h
      obtain ⟨rfl, -⟩ := hs.of_listens hl
      obtain ⟨hreader, hframes⟩ := onData_follower hs hl hf
      exact ⟨Or.inl hreader, Or.inl hframes, fun _ => Or.inr (by simp [Act.frames])⟩
  | dataReturn i =>
      obtain ⟨hi, h⟩ := Option.ite_none_right_eq_some.1 h
      obtain ⟨args, hcall, rfl⟩ := Option.map_eq_some_iff.1 h
      obtain ⟨rfl, -⟩ := hs.eq_zero hi
      unfold onDataReturn at hf ⊢
      obtain ⟨h, heq⟩ := withHeap_of_fault hf
      rw [heq] at hf ⊢
      split at hf
      · cases hf
      · next hfreed =>
          simp only [if_neg hfreed]
          obtain ⟨hfollower, hreader⟩ := finish_follower
            { e with
              heap := h
              follower := Function.update e.follower 0 { e.follower 0 with call := none } } 0
          exact ⟨Or.inl hreader, Or.inl (by rw [hfollower]; simp [Act.frames]), fun h => by
            rw [hfollower] at h
            simp at h⟩
  | deleted =>
      obtain ⟨⟨hphase, hjoined⟩, h⟩ := Option.ite_none_right_eq_some.1 h
      obtain rfl := Option.some.inj h
      unfold dealloc at hf ⊢
      obtain ⟨h, heq⟩ := withHeap_of_fault hf
      rw [heq]
      rcases hs.reader with ⟨hr, -⟩ | ⟨hr, -⟩
      · exact .of_eq rfl (by rw [hr]) rfl
      · refine ⟨Or.inl rfl, Or.inl ?_, fun h => ?_⟩
        · simp [hr, Act.frames]
        · exact Or.inl (by simpa [hr] using h)

/-! ### The handler and its client thread -/

section

variable {σ α : Type} {H : ReaderHost σ α} {ok : σ → α → Prop} {r : ℕ}

/-- The next step of the client thread calls `Reader_on_connect_handler`. -/
def meets (s : System) (r : ℕ) : Bool :=
  (s.rd r).pc = .idle ∧ (s.srv.out r)[(s.rd r).rcvd]? = some .connect

/-- The thread of the follower is in no handler. -/
def rests (s : System) (r : ℕ) (e : PyReader) : Bool :=
  e.reader = some 0 ∧ (e.follower 0).call = none ∧ (e.follower 0).frames.length = (s.rd r).calls.length

/-- What Python may do by itself: the handler is given what is in the segment, and the follower is deleted when
its thread has come to an end. -/
def rightOk (s : System) (r : ℕ) (e : PyReader) : Act → Bool
  | .data _ bytes =>
      (e.follower 0).frames.length < (s.rd r).calls.length ∧ bytes = s.shown r (e.follower 0).frames.length
  | .connect _ _ => false
  | .deleted => e.reader = none ∨ (s.rd r).pc = .closed
  | _ => true

/-- The step is a call of `Reader_on_connect_handler`. -/
def Act.isConnect : Act → Bool
  | .connect i _ => i = 0
  | _ => false

/-- How the steps of Python go with those of the client thread: the thread moves on when the handler has
returned, and Python ends with the process.  No reset fires. -/
def Handles (stof : List Char → Except PyDatatype.Fault Float32) (H : ReaderHost σ α) (ok : σ → α → Prop) (r : ℕ)
    (p : σ × PyReader) : Joint α Act → Prop
  | .left a => ok p.1 a ∧ H.isReset a = false ∧
      (H.client? a = some r → rests (H.sys p.1) r p.2 = true ∧ meets (H.sys p.1) r = false)
  | .right b => ((H.sys p.1).rd r).dead = false ∧ Proper stof p.2 b ∧ rightOk (H.sys p.1) r p.2 b = true
  | .both a b => ok p.1 a ∧ H.client? a = some r ∧ meets (H.sys p.1) r = true ∧ b.isConnect = true ∧
      Proper stof p.2 b

instance [∀ s a, Decidable (ok s a)] (p : σ × PyReader) (c : Joint α Act) :
    Decidable (Handles stof H ok r p c) :=
  match c with
  | .left a => inferInstanceAs (Decidable (ok p.1 a ∧ H.isReset a = false ∧
      (H.client? a = some r → rests (H.sys p.1) r p.2 = true ∧ meets (H.sys p.1) r = false)))
  | .right b => inferInstanceAs
      (Decidable (((H.sys p.1).rd r).dead = false ∧ Proper stof p.2 b ∧ rightOk (H.sys p.1) r p.2 b = true))
  | .both a b => inferInstanceAs
      (Decidable (ok p.1 a ∧ H.client? a = some r ∧ meets (H.sys p.1) r = true ∧ b.isConnect = true ∧
        Proper stof p.2 b))

/-- **What holds of a `Reader` and its client thread**: the handler has made a buffer of every call but the one
it is in, and it is in one as long as the callback runs. -/
structure Handled (s : System) (r : ℕ) (e : PyReader) : Prop where
  acc : System.Acc s
  sound : ∃ lost, Sound lost e
  absent : e.reader = none → (s.rd r).calls = []
  behind : (e.follower 0).frames.length = (s.rd r).calls.length ∨
    (e.follower 0).call = none ∧ (e.follower 0).frames.length + 1 = (s.rd r).calls.length ∧
      ∃ size, (s.rd r).pc = .onData size
  busy : (e.follower 0).call.isSome = true → ∃ size, (s.rd r).pc = .onData size
  last : ∀ size, (s.rd r).pc = .onData size →
    (s.rd r).calls.getLast? = some ⟨size, (s.rd r).shm, s.bytesAt r size⟩
  frames : (e.follower 0).frames <+: (s.rd r).calls.map Reader.Call.bytes

namespace Handled

variable {s t : System}

theorem init (lfd memsize r : ℕ) : Handled (System.init lfd memsize) r new where
  acc := System.acc_init lfd memsize
  sound := ⟨0, sound_new⟩
  absent _ := rfl
  behind := Or.inl rfl
  busy h := by cases h
  last := fun _ h => Reader.Pc.noConfusion h
  frames := List.nil_prefix

/-- A step of the client thread outside of the handlers. -/
theorem client (hh : Handled s r e) (hst : s.step (.reader r) = some t) (hrests : rests s r e = true) :
    Handled t r e := by
  obtain ⟨hreader, hcall, hlen⟩ := of_decide_eq_true hrests
  have hacc := hh.acc.step rfl hst
  by_cases hstart : ∃ size, (s.rd r).pc = .readStart size
  · obtain ⟨size, hstart⟩ := hstart
    obtain ⟨hpc, hcalls⟩ := System.read_of_step hst hstart
    exact
      { acc := hacc
        sound := hh.sound
        absent := fun h => by rw [hreader] at h; cases h
        behind := Or.inr ⟨hcall, by rw [hcalls, List.length_append, hlen]; rfl, size, hpc⟩
        busy := fun h => by rw [hcall] at h; cases h
        last := fun n h => by
          obtain rfl := Reader.Pc.onData.inj (hpc.symm.trans h)
          rw [hcalls, List.getLast?_concat]
        frames := by
          rw [hcalls, List.map_append]
          exact hh.frames.trans (List.prefix_append _ _) }
  · obtain ⟨hcalls, hpc⟩ := System.calls_of_step hst fun size h => hstart ⟨size, h⟩
    exact
      { acc := hacc
        sound := hh.sound
        absent := fun h => by rw [hreader] at h; cases h
        behind := Or.inl (by rw [hcalls]; exact hlen)
        busy := fun h => by rw [hcall] at h; cases h
        last := fun size h => absurd h (hpc size)
        frames := by rw [hcalls]; exact hh.frames }

/-- A step that is not one of the client thread. -/
theorem other (hh : Handled s r e) {b : System.Act} (hst : s.step b = some t) (hreset : b.isReset = false)
    (hb : b.client? ≠ some r) : Handled t r e := by
  obtain ⟨hpc, hshm, hcalls⟩ := System.reader_of_step hst hb
  exact
    { acc := hh.acc.step hreset hst
      sound := hh.sound
      absent := by rw [hcalls]; exact hh.absent
      behind := by rw [hpc, hcalls]; exact hh.behind
      busy := by rw [hpc]; exact hh.busy
      last := fun size h => by
        rw [hpc] at h
        have hmem := System.mem_of_onData hh.acc hst h
        rw [hcalls, hh.last size h, System.bytesAt, System.bytesAt, hshm, hmem]
      frames := by rw [hcalls]; exact hh.frames }

/-- The buffers after a proper step of Python. -/
theorem frames_eq (hh : Handled s r e) (hin : Inward e a e') :
    (e'.follower 0).frames = (e.follower 0).frames ++ a.frames := by
  rcases hin.frames with h | ⟨hreader, ha, h⟩
  · exact h
  · have hnone := hh.frames
    rw [hh.absent hreader, List.map_nil] at hnone
    rw [h, ha, List.prefix_nil.1 hnone]
    rfl

/-- A `Reader` without a follower was given none before. -/
theorem absent_of (hh : Handled s r e) (hin : Inward e a e') (h : e'.reader = none) :
    (s.rd r).calls = [] := by
  rcases hin.reader with heq | ⟨-, hsome⟩
  · exact hh.absent (heq ▸ h)
  · rw [hsome] at h
    cases h

/-- `Reader_on_connect_handler` is called. -/
theorem connect (hh : Handled s r e) (hst : s.step (.reader r) = some t) (hmeets : meets s r = true)
    (ha : a.isConnect = true) (hp : Proper stof e a) (he : e.step stof a = some e') : Handled t r e' := by
  have hquiet : a.frames = [] := by
    cases a with
    | connect i typeDescr => rfl
    | _ => cases ha
  obtain ⟨lost, hs⟩ := hh.sound
  obtain ⟨hpc, -⟩ := of_decide_eq_true hmeets
  have hin := inward_of_step hs hp he
  have hframes : (e'.follower 0).frames = (e.follower 0).frames := by
    rw [hh.frames_eq hin, hquiet, List.append_nil]
  have hno (size : ℕ) : (s.rd r).pc ≠ .onData size := fun h => by rw [hpc] at h; cases h
  have hlen : (e.follower 0).frames.length = (s.rd r).calls.length := by
    rcases hh.behind with h | ⟨-, -, size, h⟩
    · exact h
    · exact absurd h (hno size)
  have hcalled : (e'.follower 0).call.isSome ≠ true := fun h => by
    rcases hin.call h with h | h
    · obtain ⟨size, hsize⟩ := hh.busy h
      exact hno size hsize
    · exact h hquiet
  obtain ⟨hcalls, hpc'⟩ := System.calls_of_step hst fun size h => by rw [hpc] at h; cases h
  exact
    { acc := hh.acc.step rfl hst
      sound := ⟨_, hs.step hp he⟩
      absent := by rw [hcalls]; exact hh.absent_of hin
      behind := Or.inl (by rw [hframes, hcalls]; exact hlen)
      busy := fun h => absurd h hcalled
      last := fun size h => absurd h (hpc' size)
      frames := by rw [hframes, hcalls]; exact hh.frames }

/-- The buffer that the handler makes is one of the call that it is in. -/
theorem buffer (hh : Handled s r e) (hlt : (e.follower 0).frames.length < (s.rd r).calls.length) :
    (s.rd r).calls.map Reader.Call.bytes =
      (e.follower 0).frames ++ [s.shown r (e.follower 0).frames.length] ∧
    ∃ size, (s.rd r).pc = .onData size := by
  obtain ⟨-, hlen, size, hpc⟩ := hh.behind.resolve_left hlt.ne
  refine ⟨?_, size, hpc⟩
  obtain ⟨before, hcalls⟩ := List.getLast?_eq_some_iff.1 (hh.last size hpc)
  obtain ⟨rest, hrest⟩ := hh.frames
  have hmap : (s.rd r).calls.map Reader.Call.bytes =
      before.map Reader.Call.bytes ++ [s.bytesAt r size] := by
    rw [hcalls, List.map_append]
    rfl
  have hone : (e.follower 0).frames.length = before.length := by
    rw [hcalls, List.length_append] at hlen
    exact Nat.succ.inj hlen
  obtain ⟨hframes, -⟩ := List.append_inj (hrest.trans hmap) (hone.trans (List.length_map _).symm)
  have hshown : s.shown r before.length = s.bytesAt r size := by
    have hget : (s.rd r).calls[before.length]? = some ⟨size, (s.rd r).shm, s.bytesAt r size⟩ := by
      rw [hcalls]
      exact List.getElem?_concat_length
    simp only [System.shown, System.pointed, hget, Option.bind_some]
    rfl
  rw [hmap, hone, hshown, ← hframes]

/-- A step of Python by itself. -/
theorem right (hh : Handled s r e) (hp : Proper stof e a) (hok : rightOk s r e a = true)
    (he : e.step stof a = some e') : Handled s r e' := by
  obtain ⟨lost, hs⟩ := hh.sound
  have hin := inward_of_step hs hp he
  have hframes := hh.frames_eq hin
  have hquiet (ha : a.frames = []) : Handled s r e' :=
    have hbusy (h : (e'.follower 0).call.isSome = true) : (e.follower 0).call.isSome = true :=
      (hin.call h).resolve_right fun hne => hne ha
    have hsame : (e'.follower 0).frames = (e.follower 0).frames := by
      rw [hframes, ha, List.append_nil]
    { acc := hh.acc
      sound := ⟨_, hs.step hp he⟩
      absent := hh.absent_of hin
      behind := by
        rw [hsame]
        rcases hh.behind with h | ⟨hcall, h⟩
        · exact Or.inl h
        · refine Or.inr ⟨Option.not_isSome_iff_eq_none.1 fun hsome => ?_, h⟩
          simp [hcall] at hbusy
          simp [hbusy] at hsome
      busy := fun h => hh.busy (hbusy h)
      last := hh.last
      frames := by rw [hsame]; exact hh.frames }
  cases a with
  | data i bytes =>
      obtain ⟨hlt, rfl⟩ := of_decide_eq_true hok
      obtain ⟨hmap, hpc⟩ := hh.buffer hlt
      have hlen := congrArg List.length hmap
      rw [List.length_map] at hlen
      exact
        { acc := hh.acc
          sound := ⟨_, hs.step hp he⟩
          absent := hh.absent_of hin
          behind := Or.inl (by rw [hframes]; exact hlen.symm)
          busy := fun _ => hpc
          last := hh.last
          frames := by rw [hmap, hframes]; exact List.prefix_rfl }
  | _ => exact hquiet rfl

/-- **Every step keeps the invariant.** -/
theorem step {p q : σ × PyReader} (hh : Handled (H.sys p.1) r p.2) {c : Joint α Act}
    (hok : Handles stof H ok r p c) (hst : both H.step (PyReader.step stof) p c = some q) :
    Handled (H.sys q.1) r q.2 := by
  cases c with
  | left a =>
      obtain ⟨-, hreset, hclient⟩ := hok
      obtain ⟨s, hs, rfl⟩ := Option.map_eq_some_iff.1 hst
      rcases H.moves hs with ⟨hsame, -⟩ | ⟨b, hb, hcl, hres⟩
      · exact hsame ▸ hh
      · rw [← hcl] at hclient
        by_cases hr : b.client? = some r
        · obtain ⟨hrests, -⟩ := hclient hr
          obtain rfl := System.eq_of_client? hr
          exact hh.client hb hrests
        · exact hh.other hb (hres.trans hreset) hr
  | right b =>
      obtain ⟨-, hp, hok⟩ := hok
      obtain ⟨e, he, rfl⟩ := Option.map_eq_some_iff.1 hst
      exact hh.right hp hok he
  | both a b =>
      obtain ⟨-, hclient, hmeets, hcon, hp⟩ := hok
      obtain ⟨s, hs, hst⟩ := Option.bind_eq_some_iff.1 hst
      obtain ⟨e, he, rfl⟩ := Option.map_eq_some_iff.1 hst
      rcases H.moves hs with ⟨-, hnone⟩ | ⟨d, hd, hcl, -⟩
      · rw [hnone] at hclient
        cases hclient
      · obtain rfl := System.eq_of_client? (hcl.trans hclient)
        exact hh.connect hd hmeets hcon hp he

end Handled

/-! ### Whole runs -/

variable [∀ s a, Decidable (ok s a)]

/-- Python together with the writer's side and the readers. -/
def together (stof : List Char → Except PyDatatype.Fault Float32) (H : ReaderHost σ α) (ok : σ → α → Prop)
    [∀ s a, Decidable (ok s a)] (r : ℕ) : σ × PyReader → Joint α Act → Option (σ × PyReader) :=
  restrict (both H.step (step stof)) (Handles stof H ok r)

theorem handled_of_exec {lfd memsize : ℕ} {s : σ} (hs : H.sys s = System.init lfd memsize)
    {cs : List (Joint α Act)} {p : σ × PyReader} (h : exec (together stof H ok r) (s, new) cs = some p) :
    Handled (H.sys p.1) r p.2 :=
  exec_invariant (P := fun p : σ × PyReader => Handled (H.sys p.1) r p.2)
    (fun _ _ _ hh hst => hh.step (restrict_eq_some.1 hst).1 (restrict_eq_some.1 hst).2) h
    (by rw [hs]; exact .init lfd memsize r)

/-- The part of the writer's side. -/
theorem left_of_exec {p q : σ × PyReader} {cs : List (Joint α Act)}
    (h : exec (together stof H ok r) p cs = some q) :
    exec (restrict H.step ok) p.1 (cs.filterMap Joint.left?) = some q.1 :=
  exec_left_of (fun _ _ hok => hok.1) (fun _ _ _ hok => hok.1) h

/-- **What Python is given of a log**, the frames announced: nothing before the reader was a client; then buffers
of a contiguous piece, from the first frame announced after it became one, at most two frames behind the end of
the log while it is a live client. -/
structure Given (log : List (List UInt8)) (s : System) (r : ℕ) (e : PyReader) : Prop where
  early : s.srv.acked r = false → (e.follower 0).frames = []
  start : (s.rd r).joined ≤ log.length
  piece : (e.follower 0).frames <+: log.drop (s.rd r).joined
  lacks : s.isClient r = true → (s.rd r).dead = false →
    log.length ≤ (s.rd r).joined + (e.follower 0).frames.length + 2

/-- What the reader is given goes to Python. -/
theorem Handled.given {s : System} {log : List (List UInt8)} (hh : Handled s r e)
    (hg : System.Given Reader.Call.bytes s r log) : Given log s r e where
  early hack := by
    have hframes := hh.frames
    rwa [hg.early hack, List.map_nil, List.prefix_nil] at hframes
  start := hg.start
  piece := hh.frames.trans hg.piece
  lacks hc hd := by
    have hlast := hg.lacks hc hd
    rcases hh.behind with h | ⟨-, h, -⟩ <;> omega

/-- A reader with a callback connects, and is accepted. -/
def attached (lift : System.Act → α) : List (Joint α Act) :=
  ([.create true, .create false, .init 2 (some 3) none (some true)] : List Act).map .right ++
    (System.connectReader.take 7).map (.left ∘ lift) ++ [.both (lift (.reader 0)) (.connect 0 audio)] ++
    (System.connectReader.drop 8).map (.left ∘ lift)

/-- The reader reads an update, and its callback is called. -/
def callBack (lift : System.Act → α) (bytes : List UInt8) : List (Joint α Act) :=
  List.replicate 3 (.left (lift (.reader 0))) ++ [.right (.data 0 bytes)]

/-- The callback returns. -/
def callReturn (lift : System.Act → α) : List (Joint α Act) :=
  [.right (.dataReturn 0), .left (lift (.reader 0))]

/-- A call of `copy_to_shm` that need not make the segment larger. -/
def copyFrame (data : List UInt8) : List (Joint System.Act Act) :=
  (.call (.copyToShm data) :: List.replicate 8 System.Act.writer).map .left

/-- Two frames, and a third one is begun while the callback runs for the second. -/
def heldFrames : List (Joint System.Act Act) :=
  attached id ++ copyFrame [7, 8] ++ callBack id [7, 8] ++ [.right .pull] ++ callReturn id ++ copyFrame [9] ++
    callBack id [9] ++ [.left (.call (.copyToShm [1]))]

end

end PyReader

/-! ### Two Python processes -/

namespace PyWriter

theorem moves_of_step {p q : System × PyWriter} {c : Joint System.Act Act}
    (h : both System.step PyWriter.step p c = some q) :
    q.1 = p.1 ∧ c.left?.bind System.Act.client? = none ∨
      ∃ b, p.1.step b = some q.1 ∧ b.client? = c.left?.bind System.Act.client? ∧
        b.isReset = c.left?.any System.Act.isReset := by
  have hleft := both_left h
  cases hc : c.left? with
  | none =>
      rw [hc] at hleft
      exact Or.inl ⟨(Option.some.inj hleft).symm, rfl⟩
  | some b =>
      rw [hc, Option.toList_some, exec_cons_eq_some] at hleft
      obtain ⟨s, hs, hq⟩ := hleft
      obtain rfl := Option.some.inj hq
      exact Or.inr ⟨b, hs, rfl, rfl⟩

/-- A Python process that writes, and the readers. -/
def host : ReaderHost (System × PyWriter) (Joint System.Act Act) where
  step := both System.step PyWriter.step
  sys := Prod.fst
  client? c := c.left?.bind System.Act.client?
  isReset c := c.left?.any System.Act.isReset
  moves := moves_of_step

end PyWriter

namespace PyReader

/-- Two threads push, and the second one gets the lock first. -/
def overtaken : List (Joint (Joint System.Act PyWriter.Act) Act) :=
  attached .left ++
    ([.right (.push 5), .right (.push 6), .right (.enter 0), .right (.enter 1)] ++
      PyWriter.takeTurn 1 1 [3] : List (Joint System.Act PyWriter.Act)).map .left ++
    callBack .left [3] ++ callReturn .left ++ (PyWriter.takeTurn 0 2 [1, 2]).map .left ++ callBack .left [1, 2]

end PyReader

end Shmdata

/-
**From the writer to the pipeline behind a `shmdatasrc`.**

`shmdatasrc` runs in the process of a reader: the client thread calls `gst_shmdata_src_on_data` with the
`ReadLock` held, and lets go of the lock when the function has returned.  A frame goes through two
handshakes that know nothing of each other, that of the semaphores and the server between the processes,
and that of `data_rendered` between the threads of the element.  While the second one is under way the
reader is inside its callback, so that the first one keeps the writer out; what the streaming thread takes
from the segment, and what a buffer that wraps the segment shows downstream, is the frame.

The writer's side is any machine on top of the system, a program that calls the library or the element
`shmdatasink`.

Main definitions:

* `Shmdata.ReaderHost` — such a machine;
* `Shmdata.GstShmdataSrc.Piped` — how the steps of the element go with those of its client thread;
* `Shmdata.GstShmdataSrc.extracted` — what `gst_shmdata_src_create` finds in the segment;
* `Shmdata.GstShmdataSrc.Passes` — what has passed the element, of a log, from the place of its reader on;
* `Shmdata.GstShmdataSrc.Transfer` — **the invariant**.

Main results:

* `Shmdata.GstShmdataSrc.Transfer.step` — every step keeps it;
* `Shmdata.GstShmdataSrc.copyToShm_transfer` — **the pipeline is given a contiguous piece of what
  `copy_to_shm` was called with**;
* `Shmdata.GstShmdataSrc.render_transfer` — **and of what a `shmdatasink` rendered**.

The runs are those in which the element is not disturbed, and the first call of `on_data` waits for the stores of
the first call of `create` (`Shmdata.GstShmdataSrc.Orderly`).
-/

import Shmdata.GstRender
import Shmdata.GstSource

set_option relaxedAutoImplicit false
set_option autoImplicit false

namespace Shmdata

open Runs

/-! ### What a step leaves alone -/

namespace System

variable {s t : System} {a : Act} {r : ℕ}

/-- The reader whose client thread moves. -/
def Act.client? : Act → Option ℕ
  | .reader r => some r
  | _ => none

theorem eq_of_client? (h : a.client? = some r) : a = .reader r := by
  cases a with
  | reader q => exact congrArg Act.reader (Option.some.inj h)
  | _ => cases h

/-- The next step of the client thread calls a callback. -/
def callsBack (s : System) (r : ℕ) : Bool :=
  match (s.rd r).pc with
  | .readStart _ => true
  | .idle => (s.srv.out r)[(s.rd r).rcvd]? = some .connect
  | _ => false

/-- The bytes from the pointer on that a call of `on_data_cb_` was given. -/
def pointed (s : System) (r n size : ℕ) : List UInt8 :=
  match (s.rd r).calls[n]?.bind Reader.Call.seg with
  | some g => (s.mem g).take size
  | none => []

/-- Nobody but its client thread moves a reader on. -/
theorem reader_of_step (h : s.step a = some t) (ha : a.client? ≠ some r) :
    (t.rd r).pc = (s.rd r).pc ∧ (t.rd r).shm = (s.rd r).shm ∧ (t.rd r).calls = (s.rd r).calls := by
  have hset {q : ℕ} {rd : Reader} (hq : q = r → rd.pc = (s.rd r).pc ∧ rd.shm = (s.rd r).shm ∧
      rd.calls = (s.rd r).calls) : (Function.update s.rd q rd r).pc = (s.rd r).pc ∧
        (Function.update s.rd q rd r).shm = (s.rd r).shm ∧
        (Function.update s.rd q rd r).calls = (s.rd r).calls := by
    by_cases hqr : q = r
    · subst hqr
      rw [Function.update_self]
      exact hq rfl
    · rw [Function.update_of_ne (Ne.symm hqr)]
      exact ⟨rfl, rfl, rfl⟩
  have hne {q : ℕ} (hq : (Act.reader q).client? ≠ some r) : q ≠ r := by
    rintro rfl
    exact hq rfl
  cases trans_of_step h with
  | @locked op hpc =>
      obtain ⟨w, key, heq, -⟩ := s.locked_eq op
      rw [heq]
      exact ⟨rfl, rfl, rfl⟩
  | take | quit | die => exact hset fun hq => by subst hq; exact ⟨rfl, rfl, rfl⟩
  | attach | receiveConnect | receiveUpdate | receiveQuit | receiveEof | update | readStart | readEnd =>
      exact hset fun hq => absurd hq (hne ha)
  | _ => exact ⟨rfl, rfl, rfl⟩

/-- The client thread makes no call but at the end of `ReadLock`'s constructor. -/
theorem calls_of_step (h : s.step (.reader r) = some t) (hpc : ∀ size, (s.rd r).pc ≠ .readStart size) :
    (t.rd r).calls = (s.rd r).calls ∧ ∀ size, (t.rd r).pc ≠ .onData size := by
  cases trans_of_step h with
  | readStart _ _ hstart => exact absurd hstart (hpc _)
  | attach | receiveConnect | receiveUpdate | receiveQuit | receiveEof | update | readEnd =>
      constructor <;> simp [setRd, *]

/-- There it makes one, with what is in the segment. -/
theorem read_of_step {size : ℕ} (h : s.step (.reader r) = some t) (hpc : (s.rd r).pc = .readStart size) :
    (t.rd r).pc = .onData size ∧
      (t.rd r).calls = (s.rd r).calls ++ [⟨size, (t.rd r).shm, t.bytesAt r size⟩] := by
  cases trans_of_step h with
  | readStart _ _ hstart =>
      obtain rfl := Reader.Pc.readStart.inj (hstart.symm.trans hpc)
      simp [setRd, bytesAt]
  | attach _ _ hpc' | receiveConnect _ _ hpc' | receiveUpdate _ _ hpc' | receiveQuit _ _ hpc'
  | receiveEof _ _ hpc' | update _ _ hpc' | readEnd _ _ hpc' =>
      rw [hpc] at hpc'
      cases hpc'

/-- While a reader is inside its callback nobody writes to the segments. -/
theorem mem_of_onData (hacc : Acc s) (h : s.step a = some t) {size : ℕ}
    (hpc : (s.rd r).pc = .onData size) : t.mem = s.mem := by
  have hfree : s.w.pc.held ≠ true := fun hh => hacc.exclusive hh r size hpc
  cases trans_of_step h with
  | @locked op hw =>
      obtain ⟨w, key, heq, -⟩ := s.locked_eq op
      rw [heq]
  | create hw | memcpy hw | write hw => exact absurd (by rw [hw]; rfl) hfree
  | _ => rfl

end System

/-! ### Machines on top of the system -/

/-- A machine each of whose steps is a step of the system, or does not touch it. -/
structure ReaderHost (σ α : Type) where
  step : σ → α → Option σ
  sys : σ → System
  client? : α → Option ℕ
  isReset : α → Bool
  moves : ∀ {s t : σ} {a : α}, step s a = some t → sys t = sys s ∧ client? a = none ∨
    ∃ b, (sys s).step b = some (sys t) ∧ b.client? = client? a ∧ b.isReset = isReset a

/-- The system by itself. -/
def System.host : ReaderHost System System.Act where
  step := System.step
  sys := id
  client? := System.Act.client?
  isReset := System.Act.isReset
  moves h := Or.inr ⟨_, h, rfl, rfl⟩

namespace GstSinkSystem

def Act.client? : Act → Option ℕ
  | .sys a => a.client?
  | _ => none

def Act.isReset : Act → Bool
  | .sys a => a.isReset
  | _ => false

theorem moves_of_step {h : GstSinkHost} {s t : GstSinkSystem} {a : Act} (hst : step h s a = some t) :
    t.sys = s.sys ∧ a.client? = none ∨
      ∃ b, s.sys.step b = some t.sys ∧ b.client? = a.client? ∧ b.isReset = a.isReset := by
  have hlift {u : GstSinkSystem} {b : System.Act} (hu : u.lift b = some t) (hsys : u.sys = s.sys)
      (hb : b.byUser = true) : ∃ b, s.sys.step b = some t.sys ∧ b.client? = none ∧ b.isReset = false := by
    obtain ⟨v, hv, rfl⟩ := Option.map_eq_some_iff.1 hu
    refine ⟨b, hsys ▸ hv, ?_, ?_⟩ <;> cases b <;> first | rfl | cases hb
  cases a with
  | setInitialSize value =>
      obtain ⟨-, hst⟩ := Option.ite_none_right_eq_some.1 hst
      obtain rfl := Option.some.inj hst
      refine Or.inl ⟨?_, rfl⟩
      split <;> rfl
  | alloc n =>
      obtain ⟨-, hst⟩ := Option.ite_none_right_eq_some.1 hst
      obtain rfl := Option.some.inj hst
      exact Or.inl ⟨rfl, rfl⟩
  | fill i bytes =>
      obtain ⟨-, hst⟩ := Option.ite_none_right_eq_some.1 hst
      obtain ⟨b, -, hst⟩ := Option.bind_eq_some_iff.1 hst
      obtain ⟨-, hst⟩ := Option.ite_none_right_eq_some.1 hst
      exact Or.inr (hlift hst rfl rfl)
  | render buf =>
      obtain ⟨-, hst⟩ := Option.ite_none_right_eq_some.1 hst
      cases buf with
      | foreign bytes =>
          rw [render] at hst
          split at hst
          · obtain rfl := Option.some.inj hst
            exact Or.inl ⟨rfl, rfl⟩
          · obtain rfl := Option.some.inj hst
            exact Or.inl ⟨rfl, rfl⟩
      | block i =>
          obtain ⟨b, -, rfl⟩ := Option.map_eq_some_iff.1 hst
          exact Or.inl ⟨rfl, rfl⟩
  | next =>
      simp only [step] at hst
      split at hst
      · cases hst
      · next c todo htodo =>
          cases c with
          | grant n =>
              simp only [call] at hst
              split at hst
              · obtain rfl := Option.some.inj hst
                exact Or.inl ⟨rfl, rfl⟩
              · cases hst
          | resize n | extract buf | notify n | release | access => exact Or.inr (hlift hst rfl rfl)
  | sys b =>
      simp only [step] at hst
      split at hst
      · cases hst
      · obtain ⟨u, hu, rfl⟩ := Option.map_eq_some_iff.1 hst
        exact Or.inr ⟨b, hu, rfl, rfl⟩

/-- The sink with its writer and the readers. -/
def host (h : GstSinkHost) : ReaderHost GstSinkSystem Act where
  step := step h
  sys := sys
  client? := Act.client?
  isReset := Act.isReset
  moves := moves_of_step

end GstSinkSystem

/-! ### The element and its client thread -/

namespace GstShmdataSrc

/-- The step begins a callback. -/
def Act.isCallback : Act → Bool
  | .onBuffer _ | .connect _ => true
  | _ => false

/-- The next step of the client thread calls this callback. -/
def Begins (s : System) (r : ℕ) : Act → Prop
  | .onBuffer size => (s.rd r).pc = .readStart size.toNat
  | .connect _ => (s.rd r).pc = .idle ∧ (s.srv.out r)[(s.rd r).rcvd]? = some .connect
  | _ => False

instance (s : System) (r : ℕ) (b : Act) : Decidable (Begins s r b) :=
  match b with
  | .onBuffer size => inferInstanceAs (Decidable ((s.rd r).pc = .readStart size.toNat))
  | .connect _ => inferInstanceAs
      (Decidable ((s.rd r).pc = .idle ∧ (s.srv.out r)[(s.rd r).rcvd]? = some .connect))
  | .publish | .leave | .create _ | .release _ | .unlock | .unlockStop | .pausedToReady =>
      inferInstanceAs (Decidable False)

variable {σ α : Type} {H : ReaderHost σ α} {ok : σ → α → Prop} {r : ℕ}

/-- How the steps of the element go with those of its client thread: a callback is called and begins in one
step, the thread moves on when `on_data` has returned, and the threads of the element die with the process. No
reset fires, and the element is not disturbed. -/
def Piped (H : ReaderHost σ α) (ok : σ → α → Prop) (r : ℕ) (p : σ × GstShmdataSrc) :
    Joint α Act → Prop
  | .left a => ok p.1 a ∧ H.isReset a = false ∧
      (H.client? a = some r → p.2.reader = .idle ∧ (H.sys p.1).callsBack r = false)
  | .right b => ((H.sys p.1).rd r).dead = false ∧ b.isCallback = false ∧ Orderly p.2 b
  | .both a b => ok p.1 a ∧ H.client? a = some r ∧ Begins (H.sys p.1) r b

instance [∀ s a, Decidable (ok s a)] (p : σ × GstShmdataSrc) (c : Joint α Act) :
    Decidable (Piped H ok r p c) :=
  match c with
  | .left a => inferInstanceAs (Decidable (ok p.1 a ∧ H.isReset a = false ∧
      (H.client? a = some r → p.2.reader = .idle ∧ (H.sys p.1).callsBack r = false)))
  | .right b => inferInstanceAs
      (Decidable (((H.sys p.1).rd r).dead = false ∧ b.isCallback = false ∧ Orderly p.2 b))
  | .both a b => inferInstanceAs
      (Decidable (ok p.1 a ∧ H.client? a = some r ∧ Begins (H.sys p.1) r b))

/-- The step takes the data of a frame: they are copied, or a buffer is made that wraps them. -/
def takes (e : GstShmdataSrc) : Act → Bool
  | .create _ => e.streaming = .wrap
  | _ => false

/-- What is found at `current_data` when the data of a frame are taken. -/
def extracted (H : ReaderHost σ α) (r : ℕ) (p : σ × GstShmdataSrc) : Joint α Act → List (List UInt8)
  | .right b =>
      if p.2.takes b then [(H.sys p.1).pointed r p.2.currentData p.2.currentSize.toNat] else []
  | .left _ | .both _ _ => []

/-! ### How many frames are taken -/

variable {e e' : GstShmdataSrc} {b : Act}

/-- The data of the frame at hand are not taken yet. -/
@[simp] def Create.early : Create → Bool
  | .caps | .failed | .wrap => true
  | _ => false

/-- The frames that `on_data` was called for. -/
def begun (e : GstShmdataSrc) : ℕ := if e.reader = .idle then e.frame else e.frame + 1

/-- The frames whose data were taken. -/
def taken (e : GstShmdataSrc) : ℕ :=
  if e.reader = .waiting ∧ e.onData = false ∧ e.streaming.early = false then e.frame + 1 else e.frame

theorem taken_le (e : GstShmdataSrc) : e.taken ≤ e.begun ∧ e.begun ≤ e.taken + 1 := by
  unfold taken begun
  split
  · next h => rw [if_neg (by rw [h.1]; exact OnData.noConfusion)]; omega
  · split <;> omega

theorem taken_eq_frame (h : e.reader ≠ .waiting ∨ e.onData = true ∨ e.streaming.early = true) :
    e.taken = e.frame := by
  refine if_neg fun ⟨h1, h2, h3⟩ => ?_
  rcases h with h | h | h
  · exact h h1
  · exact Bool.false_ne_true (h2.symm.trans h)
  · exact Bool.false_ne_true (h3.symm.trans h)

/-- The streaming thread moves neither `on_data` nor the frame at hand. -/
theorem create_frame {setCaps : Bool} (h : e.create setCaps = some e') :
    e'.reader = e.reader ∧ e'.frame = e.frame ∧ e'.currentSize = e.currentSize := by
  unfold create at h
  split at h
  · split at h <;> obtain rfl := Option.some.inj h <;> exact ⟨rfl, rfl, rfl⟩
  · split at h
    · obtain rfl := Option.some.inj h
      exact ⟨rfl, rfl, rfl⟩
    · split at h
      · obtain rfl := Option.some.inj h
        exact ⟨rfl, rfl, rfl⟩
      · cases h
  · obtain rfl := Option.some.inj h
    exact ⟨rfl, rfl, rfl⟩
  · split at h <;> obtain rfl := Option.some.inj h <;> exact ⟨rfl, rfl, rfl⟩
  · cases h
  · split at h <;> obtain rfl := Option.some.inj h <;> exact ⟨rfl, rfl, rfl⟩
  · obtain rfl := Option.some.inj h
    exact ⟨rfl, rfl, rfl⟩
  · split at h <;> obtain rfl := Option.some.inj h <;> exact ⟨rfl, rfl, rfl⟩
  · obtain rfl := Option.some.inj h
    exact ⟨rfl, rfl, rfl⟩

/-- The streaming thread takes the data of a frame once, on its way through `create`. -/
theorem taken_create (hs : e.Handed) {setCaps : Bool} (h : e.create setCaps = some e') :
    e'.taken = e.taken + (if e.streaming = .wrap then 1 else 0) := by
  unfold create at h
  cases hpc : e.streaming with
  | idle =>
      simp only [hpc, hs.unlocked, Bool.false_eq_true, if_false, Option.some_inj] at h
      subst h
      simp [taken, hpc]
  | wait =>
      simp only [hpc, hs.unlocked, Bool.false_eq_true, if_false, Option.ite_none_right_eq_some,
        Option.some_inj] at h
      obtain ⟨hon, rfl⟩ := h
      simp [taken, hpc, hon]
  | flush =>
      simp only [hpc, Option.some_inj] at h
      subst h
      simp [taken, hpc]
  | caps =>
      simp only [hpc, Option.some_inj] at h
      subst h
      split
      · cases setCaps <;> simp [taken, hpc]
      · simp [taken, hpc]
  | failed => simp only [hpc] at h; cases h
  | wrap =>
      obtain ⟨hw, hon, -⟩ := hs.stage_of_not_spent (by simp [Spent, hpc])
      simp only [hpc, Option.some_inj] at h
      subst h
      split <;> simp [taken, hpc, hw, hon]
  | copied =>
      simp only [hpc, Option.some_inj] at h
      subst h
      simp [taken, hpc]
  | first outbuf =>
      simp only [hpc, Option.some_inj] at h
      subst h
      split <;> simp [taken, handOut, hpc]
  | clear outbuf =>
      simp only [hpc, Option.some_inj] at h
      subst h
      simp [taken, handOut, hpc]

/-- **What a step inside the element does to the frame at hand.** -/
structure Inward (e : GstShmdataSrc) (b : Act) (e' : GstShmdataSrc) : Prop where
  begun : e'.begun = e.begun
  called : ∀ size, e'.reader = .called size → e.reader = .called size
  waiting : e'.reader = .waiting →
    e.reader = .waiting ∧ e'.currentSize = e.currentSize ∨ e.reader = .called e'.currentSize
  taken : e'.taken = e.taken + if e.takes b then 1 else 0

theorem inward_of_step (hs : e.Handed) (hok : Orderly e b) (hb : b.isCallback = false)
    (h : e.step b = some e') : Inward e b e' := by
  cases b with
  | onBuffer size | connect caps => cases hb
  | unlock | unlockStop | pausedToReady => exact absurd hok.1 id
  | publish =>
      simp only [step] at h
      split at h
      · next size hreader =>
          obtain ⟨-, h⟩ := Option.ite_none_left_eq_some.1 h
          obtain rfl := Option.some.inj h
          exact
            { begun := by simp [GstShmdataSrc.begun, GstShmdataSrc.publish, hreader]
              called := fun _ h => OnData.noConfusion h
              waiting := fun _ => Or.inr hreader
              taken := by
                rw [taken_eq_frame (e := e.publish size) (Or.inr (Or.inl rfl)),
                  taken_eq_frame (Or.inl (by rw [hreader]; exact OnData.noConfusion))]
                rfl }
      · cases h
  | leave =>
      obtain ⟨⟨hw, hr⟩, h⟩ := Option.ite_none_right_eq_some.1 h
      obtain rfl := Option.some.inj h
      obtain ⟨-, hspent, hon, -⟩ := hs.rendered hw hr hok.2
      -- all the stores for the frame are made, so that its data were taken
      have hearly : e.streaming.early = false := by
        unfold Spent at hspent
        cases hpc : e.streaming <;> simp [hpc] at hspent ⊢
      exact
        { begun := by simp [GstShmdataSrc.begun, hw]
          called := fun _ h => OnData.noConfusion h
          waiting := fun h => OnData.noConfusion h
          taken := by
            have hbefore : e.taken = e.frame + 1 := if_pos ⟨hw, hon, hearly⟩
            rw [hbefore]
            exact taken_eq_frame (Or.inl OnData.noConfusion) }
  | create setCaps =>
      obtain ⟨hreader, hframe, hsize⟩ := create_frame h
      exact
        { begun := by rw [GstShmdataSrc.begun, GstShmdataSrc.begun, hreader, hframe]
          called := fun _ h => hreader ▸ h
          waiting := fun h => Or.inl ⟨hreader ▸ h, hsize⟩
          taken := by simpa [takes] using taken_create hs h }
  | release n =>
      obtain ⟨-, h⟩ := Option.ite_none_right_eq_some.1 h
      obtain rfl := Option.some.inj h
      exact
        { begun := rfl
          called := fun _ h => h
          waiting := fun h => Or.inl ⟨h, rfl⟩
          taken := rfl }

/-! ### The invariant -/

/-- **What holds of the element and its reader**, when the pipeline was given `out`: `on_data` is called for the
last call of the reader, which shows what is in the segment as long as it lasts. -/
structure Transfer (s : System) (r : ℕ) (e : GstShmdataSrc) (out : List (List UInt8)) : Prop where
  acc : System.Acc s
  handed : e.Handed
  length : (s.rd r).calls.length = e.begun
  called : ∀ size, e.reader = .called size → (s.rd r).pc = .onData size.toNat
  waiting : e.reader = .waiting → (s.rd r).pc = .onData e.currentSize.toNat
  last : ∀ size, (s.rd r).pc = .onData size →
    (s.rd r).calls.getLast? = some ⟨size, (s.rd r).shm, s.bytesAt r size⟩
  out : out = ((s.rd r).calls.map Reader.Call.bytes).take e.taken

namespace Transfer

variable {s t : System} {out : List (List UInt8)}

theorem init (lfd memsize r : ℕ) (copyBuffers playing : Bool) :
    Transfer (System.init lfd memsize) r (GstShmdataSrc.init copyBuffers playing) [] where
  acc := System.acc_init lfd memsize
  handed := handed_init copyBuffers playing
  length := rfl
  called := fun _ h => OnData.noConfusion h
  waiting := fun h => OnData.noConfusion h
  last := fun _ h => Reader.Pc.noConfusion h
  out := rfl

/-- Outside of its callback the reader's thread is not in `on_data`. -/
theorem idle (ht : Transfer s r e out) (hpc : ∀ size, (s.rd r).pc ≠ .onData size) : e.reader = .idle := by
  cases hr : e.reader with
  | idle => rfl
  | called size => exact absurd (ht.called size hr) (hpc _)
  | waiting => exact absurd (ht.waiting hr) (hpc _)

/-- The call that `on_data` is called for. -/
theorem current (ht : Transfer s r e out) (hw : e.reader = .waiting) : (s.rd r).calls[e.frame]? =
    some ⟨e.currentSize.toNat, (s.rd r).shm, s.bytesAt r e.currentSize.toNat⟩ := by
  have hlen := ht.length
  rw [begun, hw, if_neg OnData.noConfusion] at hlen
  have hlast := ht.last _ (ht.waiting hw)
  rwa [List.getLast?_eq_getElem?, hlen, Nat.add_sub_cancel] at hlast

/-- What is found at `current_data` while the frame is at hand. -/
theorem pointed (ht : Transfer s r e out) (hw : e.reader = .waiting) :
    s.pointed r e.frame e.currentSize.toNat = s.bytesAt r e.currentSize.toNat := by
  rw [System.pointed, ht.current hw]
  rfl

/-- A step of the system that begins no callback. -/
theorem host (ht : Transfer s r e out) {b : System.Act} (hst : s.step b = some t)
    (hreset : b.isReset = false)
    (hclient : b.client? = some r → e.reader = .idle ∧ s.callsBack r = false) : Transfer t r e out := by
  have hacc := ht.acc.step hreset hst
  by_cases hb : b.client? = some r
  · obtain ⟨hidle, hcalls⟩ := hclient hb
    -- the client thread moves on, outside of its callbacks
    obtain rfl := System.eq_of_client? hb
    obtain ⟨hkept, hpc⟩ := System.calls_of_step hst fun size h => by simp [System.callsBack, h] at hcalls
    exact
      { acc := hacc
        handed := ht.handed
        length := by rw [hkept]; exact ht.length
        called := fun size h => by rw [hidle] at h; cases h
        waiting := fun h => by rw [hidle] at h; cases h
        last := fun size h => absurd h (hpc size)
        out := by rw [hkept]; exact ht.out }
  · obtain ⟨hpc, hshm, hkept⟩ := System.reader_of_step hst hb
    exact
      { acc := hacc
        handed := ht.handed
        length := by rw [hkept]; exact ht.length
        called := fun size h => by rw [hpc]; exact ht.called size h
        waiting := fun h => by rw [hpc]; exact ht.waiting h
        last := fun size h => by
          rw [hpc] at h
          have hmem := System.mem_of_onData ht.acc hst h
          rw [hkept, ht.last size h, System.bytesAt, System.bytesAt, hshm, hmem]
        out := by rw [hkept]; exact ht.out }

/-- `on_data` is called. -/
theorem onBuffer (ht : Transfer s r e out) {size : UInt64} (hst : s.step (.reader r) = some t)
    (hpc : (s.rd r).pc = .readStart size.toNat) (he : e.step (.onBuffer size) = some e') :
    Transfer t r e' out := by
  have hidle : e.reader = .idle := ht.idle fun _ h => by rw [hpc] at h; cases h
  have hlen := ht.length
  rw [begun, if_pos hidle] at hlen
  have htaken : e.taken = e.frame := taken_eq_frame (Or.inl (by rw [hidle]; exact OnData.noConfusion))
  have hhanded := ht.handed.onBuffer he
  have hacc := ht.acc.step rfl hst
  simp only [GstShmdataSrc.step, if_pos hidle, ht.handed.stopRead, Bool.false_eq_true, if_false,
    Option.some_inj] at he
  subst he
  obtain ⟨hpc', hcalls⟩ := System.read_of_step hst hpc
  exact
    { acc := hacc
      handed := hhanded
      length := by rw [hcalls, List.length_append, hlen]; rfl
      called := fun n h => by rw [hpc', OnData.called.inj h]
      waiting := fun h => OnData.noConfusion h
      last := fun n h => by
        obtain rfl := Reader.Pc.onData.inj (hpc'.symm.trans h)
        rw [hcalls, List.getLast?_concat]
      out := by
        rw [hcalls, taken_eq_frame (Or.inl OnData.noConfusion), List.map_append,
          List.take_append_of_le_length (by rw [List.length_map, hlen]), ht.out, htaken] }

/-- `gst_shmdata_src_on_server_connect` is called. -/
theorem connect (ht : Transfer s r e out) {caps : Bool} (hst : s.step (.reader r) = some t)
    (hpc : (s.rd r).pc = .idle) (he : e.step (.connect caps) = some e') : Transfer t r e' out := by
  have hidle : e.reader = .idle := ht.idle fun _ h => by rw [hpc] at h; cases h
  have hhanded := ht.handed.connect he
  have hacc := ht.acc.step rfl hst
  simp only [GstShmdataSrc.step, if_pos hidle, Option.some_inj] at he
  subst he
  obtain ⟨hkept, hpc'⟩ := System.calls_of_step hst fun size h => by rw [hpc] at h; cases h
  exact
    { acc := hacc
      handed := hhanded
      length := by rw [hkept]; exact ht.length
      called := fun size h => by rw [hidle] at h; cases h
      waiting := fun h => by rw [hidle] at h; cases h
      last := fun size h => absurd h (hpc' size)
      out := by rw [hkept]; exact ht.out }

/-- A step inside the element. -/
theorem inward (ht : Transfer s r e out) {b : Act} (hb : b.isCallback = false) (hok : Orderly e b)
    (he : e.step b = some e') : Transfer s r e'
      (out ++ if e.takes b then [s.pointed r e.currentData e.currentSize.toNat] else []) := by
  have hin := inward_of_step ht.handed hok hb he
  exact
    { acc := ht.acc
      handed := ht.handed.step hok he
      length := by rw [hin.begun]; exact ht.length
      called := fun size h => ht.called size (hin.called size h)
      waiting := fun h => by
        rcases hin.waiting h with ⟨hw, hsize⟩ | hc
        · rw [hsize]
          exact ht.waiting hw
        · exact ht.called _ hc
      last := ht.last
      out := by
        rw [hin.taken]
        cases htake : e.takes b with
        | false => simpa using ht.out
        | true =>
            -- the frame at hand is the last call, and nothing was taken of it before
            have hpc : e.streaming = .wrap := by
              cases b with
              | create setCaps => simpa [takes] using htake
              | _ => cases htake
            obtain ⟨hw, -, hcur, -⟩ := ht.handed.stage_of_not_spent (by simp [Spent, hpc])
            have htaken : e.taken = e.frame := taken_eq_frame (Or.inr (Or.inr (by rw [hpc]; rfl)))
            rw [if_pos rfl, if_pos rfl, hcur, ht.pointed hw, List.take_add_one, ← ht.out, htaken,
              List.getElem?_map, ht.current hw]
            rfl }

/-- **Every step keeps the invariant.** -/
theorem step {p q : σ × GstShmdataSrc} (ht : Transfer (H.sys p.1) r p.2 out) {c : Joint α Act}
    (hok : Piped H ok r p c) (hst : both H.step GstShmdataSrc.step p c = some q) :
    Transfer (H.sys q.1) r q.2 (out ++ extracted H r p c) := by
  cases c with
  | left a =>
      obtain ⟨-, hreset, hclient⟩ := hok
      obtain ⟨s, hs, rfl⟩ := Option.map_eq_some_iff.1 hst
      rw [extracted, List.append_nil]
      rcases H.moves hs with ⟨hsame, -⟩ | ⟨b, hb, hcl, hres⟩
      · exact hsame ▸ ht
      · exact ht.host hb (hres.trans hreset) fun h => hclient (hcl ▸ h)
  | right b =>
      obtain ⟨-, hcall, hord⟩ := hok
      obtain ⟨e, he, rfl⟩ := Option.map_eq_some_iff.1 hst
      exact ht.inward hcall hord he
  | both a b =>
      obtain ⟨-, hclient, hbegins⟩ := hok
      obtain ⟨s, hs, hst⟩ := Option.bind_eq_some_iff.1 hst
      obtain ⟨e, he, rfl⟩ := Option.map_eq_some_iff.1 hst
      rw [extracted, List.append_nil]
      rcases H.moves hs with ⟨-, hnone⟩ | ⟨d, hd, hcl, -⟩
      · rw [hnone] at hclient
        cases hclient
      · obtain rfl := System.eq_of_client? (hcl.trans hclient)
        cases b with
        | onBuffer size => exact ht.onBuffer hd hbegins he
        | connect caps => exact ht.connect hd hbegins.1 he
        | publish | leave | create | release | unlock | unlockStop | pausedToReady => cases hbegins

end Transfer

/-! ### Whole runs -/

variable [∀ s a, Decidable (ok s a)]

/-- The element together with the writer's side and the readers. -/
def together (H : ReaderHost σ α) (ok : σ → α → Prop) [∀ s a, Decidable (ok s a)] (r : ℕ) :
    σ × GstShmdataSrc → Joint α Act → Option (σ × GstShmdataSrc) :=
  restrict (both H.step step) (Piped H ok r)

/-- What the pipeline is given in a run. -/
def received (H : ReaderHost σ α) (ok : σ → α → Prop) [∀ s a, Decidable (ok s a)] (r : ℕ) :
    σ × GstShmdataSrc → List (Joint α Act) → List (List UInt8) :=
  trace (together H ok r) (extracted H r)

theorem transfer_of_exec {lfd memsize : ℕ} {copyBuffers playing : Bool} {s : σ}
    (hs : H.sys s = System.init lfd memsize) {cs : List (Joint α Act)} {p : σ × GstShmdataSrc}
    (h : exec (together H ok r) (s, init copyBuffers playing) cs = some p) :
    Transfer (H.sys p.1) r p.2 (received H ok r (s, init copyBuffers playing) cs) := by
  have htrace := exec_trace (extracted H r) (R := fun out p => Transfer (H.sys p.1) r p.2 out)
    (fun out p c q ht hst => ht.step (restrict_eq_some.1 hst).1 (restrict_eq_some.1 hst).2) h (l := [])
    (by rw [hs]; exact .init lfd memsize r copyBuffers playing)
  rwa [List.nil_append] at htrace

/-- The part of the writer's side. -/
theorem left_of_exec {p q : σ × GstShmdataSrc} {cs : List (Joint α Act)}
    (h : exec (together H ok r) p cs = some q) :
    exec (restrict H.step ok) p.1 (cs.filterMap Joint.left?) = some q.1 :=
  exec_left_of (fun _ _ hok => hok.1) (fun _ _ _ hok => hok.1) h

/-- A buffer that is downstream wraps the frame at hand. -/
theorem Handed.of_downstream (hs : e.Handed) {n : ℕ} (hn : n ∈ e.downstream) :
    n = e.frame ∧ e.reader = .waiting ∧ e.taken = e.frame + 1 := by
  have hw : e.reader = .waiting := by
    by_contra hne
    simp [(hs.quiet hne).2.2.1] at hn
  obtain ⟨-, hstage⟩ := hs.stage hw
  unfold Stage at hstage
  split at hstage
  · simp [hstage.2.1] at hn
  · next hon =>
      have hon : e.onData = false := Bool.eq_false_iff.2 hon
      cases hpc : e.streaming with
      | flush => simp [hpc] at hstage
      | caps | failed | wrap | copied => simp [hpc] at hstage; simp [hstage] at hn
      | first outbuf => cases outbuf <;> simp [hpc] at hstage <;> simp [hstage] at hn
      | clear outbuf => cases outbuf <;> simp [hpc] at hstage <;> simp [hstage] at hn
      | idle | wait =>
          simp only [hpc] at hstage
          obtain ⟨-, ⟨-, -, h⟩ | ⟨-, -, h⟩ | ⟨-, hdown, -⟩⟩ := hstage
          · simp [h] at hn
          · simp [h] at hn
          · exact ⟨by simpa [hdown] using hn, hw, if_pos ⟨hw, hon, by rw [hpc]; rfl⟩⟩

/-- **What a buffer shows that wraps the segment** is, as long as it is not released, what was found when it was
made. -/
theorem Transfer.shown {s : System} {out : List (List UInt8)} (ht : Transfer s r e out) {n : ℕ}
    (hn : n ∈ e.downstream) : ∃ bytes, out[n]? = some bytes ∧ s.pointed r n bytes.length = bytes := by
  obtain ⟨rfl, hw, htaken⟩ := ht.handed.of_downstream hn
  have hcur := ht.current hw
  refine ⟨s.bytesAt r e.currentSize.toNat, ?_, ?_⟩
  · rw [ht.out, htaken, List.getElem?_take_of_lt (Nat.lt_succ_self _), List.getElem?_map, hcur]
    rfl
  · rw [System.pointed, hcur, System.bytesAt]
    cases hshm : (s.rd r).shm with
    | none => simp
    | some g => simp

/-- **What passes of a log**, the frames announced, through the element: the pipeline was given nothing before
the reader was a client; then `out`, a contiguous piece, from the first frame announced after it became one,
at most two frames behind the end of the log while it is a live client; and a buffer that wraps the segment
and is not released shows its frame. -/
structure Passes (log out : List (List UInt8)) (s : System) (r : ℕ) (e : GstShmdataSrc) : Prop where
  early : s.srv.acked r = false → out = []
  start : (s.rd r).joined ≤ log.length
  piece : out <+: log.drop (s.rd r).joined
  lacks : s.isClient r = true → (s.rd r).dead = false → log.length ≤ (s.rd r).joined + out.length + 2
  shown : ∀ n ∈ e.downstream, ∃ bytes, out[n]? = some bytes ∧ s.pointed r n bytes.length = bytes

/-- What the reader is given passes through the element. -/
theorem Transfer.passes {s : System} {out log : List (List UInt8)} (ht : Transfer s r e out)
    (hg : System.Given Reader.Call.bytes s r log) : Passes log out s r e where
  early hack := by rw [ht.out, hg.early hack, List.map_nil, List.take_nil]
  start := hg.start
  piece := by
    rw [ht.out]
    exact (List.take_prefix _ _).trans hg.piece
  lacks hc hd := by
    have hlen := ht.length
    have htaken := e.taken_le
    have hout : out.length = e.taken := by
      rw [ht.out, List.length_take, List.length_map, hlen]
      exact Nat.min_eq_left htaken.1
    have := hg.lacks hc hd
    omega
  shown _ hn := ht.shown hn

/-- **What `copy_to_shm` was called with is what the pipeline is given**, byte for byte and in order, whether
the element copies or wraps: nothing is lost, doubled or overwritten between the two, in whatever order the
writer, the server, the other readers and the threads of the element take their steps. -/
theorem copyToShm_transfer {lfd memsize : ℕ} {copyBuffers playing : Bool}
    {cs : List (Joint System.Act Act)} {p : System × GstShmdataSrc}
    (h : exec (together System.host System.Copying r)
      (System.init lfd memsize, init copyBuffers playing) cs = some p) :
    ∃ log, System.copied (cs.filterMap Joint.left?) = log ++ p.1.w.pc.copying ∧
      log.length = p.1.announced ∧ Passes log (received System.host System.Copying r
        (System.init lfd memsize, init copyBuffers playing) cs) p.1 r p.2 := by
  have ht := transfer_of_exec (H := System.host) rfl h
  obtain ⟨c, hinv, hc, hlog⟩ := System.tracks_of_copying (left_of_exec h)
  exact ⟨c.log, hlog, hc.announced, ht.passes (hc.given hinv r)⟩

/-- The reader connects, the server accepts it, and the element hears of it. -/
def joined (lift : System.Act → α) : List (Joint α Act) :=
  (System.connectReader.take 7).map (.left ∘ lift) ++ [.both (lift (.reader 0)) (.connect true)] ++
    (System.connectReader.drop 8).map (.left ∘ lift)

/-- The reader reads an update and calls `on_data`, and the streaming thread takes some steps. -/
def callOnData (lift : System.Act → α) (size : UInt64) (steps : ℕ) : List (Joint α Act) :=
  [.left (lift (.reader 0)), .left (lift (.reader 0)), .both (lift (.reader 0)) (.onBuffer size),
    .right .publish] ++ List.replicate steps (.right (.create true))

/-- A call of `copy_to_shm` that need not make the segment larger. -/
def copyFrame (data : List UInt8) : List (Joint System.Act Act) :=
  (.call (.copyToShm data) :: List.replicate 8 System.Act.writer).map .left

/-- The buffer of a first frame is released; that of a second one is not when a third one is begun. -/
def wrappedFrames : List (Joint System.Act Act) :=
  joined id ++ copyFrame [7, 8] ++ callOnData id 2 6 ++
    [.right (.release 0), .right .leave, .left (.reader 0)] ++ copyFrame [9] ++ callOnData id 1 5 ++
    [.left (.call (.copyToShm [1]))]

theorem wrappedFrames_transfer :
    ∃ p log, exec (together System.host System.Copying 0) (System.init 3 2, init false true)
        wrappedFrames = some p ∧ p.2.downstream = [1] ∧
      [[7, 8], [9], [1]] = log ++ p.1.w.pc.copying ∧ Passes log [[7, 8], [9]] p.1 0 p.2 := by
  have hrun : ((exec (together System.host System.Copying 0) (System.init 3 2, init false true)
      wrappedFrames).any fun p => p.2.downstream = [1]) = true := by
    decide +kernel
  have hreceived : received System.host System.Copying 0 (System.init 3 2, init false true)
      wrappedFrames = [[7, 8], [9]] := by
    decide +kernel
  obtain ⟨p, hp, hdown⟩ := (Option.any_eq_true _ _).1 hrun
  obtain ⟨log, hlog, -, hpasses⟩ := copyToShm_transfer hp
  rw [hreceived] at hpasses
  exact ⟨p, log, hp, of_decide_eq_true hdown, hlog, hpasses⟩

/-- **What a `shmdatasink` rendered is what the pipeline behind the `shmdatasrc` is given**, when the upstream
elements bring their own memory. -/
theorem render_transfer {g : GstSinkHost} (hbits : g.memoryAlignment.bits ≤ 12) {lfd size : ℕ}
    {copyBuffers playing : Bool} {cs : List (Joint GstSinkSystem.Act Act)}
    {p : GstSinkSystem × GstShmdataSrc}
    (h : exec (together (GstSinkSystem.host g) GstSinkSystem.Foreign r)
      (GstSinkSystem.init lfd size, init copyBuffers playing) cs = some p) :
    ∃ log, GstSinkSystem.buffers g (cs.filterMap Joint.left?) = log ++ p.1.sending ∧
      log.length = p.1.sys.announced ∧ Passes log (received (GstSinkSystem.host g) GstSinkSystem.Foreign r
        (GstSinkSystem.init lfd size, init copyBuffers playing) cs) p.1.sys r p.2 := by
  have ht := transfer_of_exec (H := GstSinkSystem.host g) rfl h
  obtain ⟨hsound, hrendered⟩ := GstSinkSystem.sound_of_foreign hbits (left_of_exec h)
  obtain ⟨log, hlog, hlen, hgiven⟩ := GstSinkSystem.pieces_of_exec hbits hsound
  exact ⟨log, hrendered ▸ hlog, hlen, ht.passes (hgiven r)⟩

/-- A buffer that makes the segment larger is rendered, and notified. -/
def renderFrame (buf : List UInt8) : List (Joint GstSinkSystem.Act Act) :=
  ([.render (.foreign buf), .next, .sys .writer, .next, .next, .sys .writer, .sys .writer, .sys .writer,
    .sys .writer, .next, .sys .writer] : List GstSinkSystem.Act).map .left

/-- The next access of the sink. -/
def nextAccess : List (Joint GstSinkSystem.Act Act) :=
  ([.next, .sys .writer, .sys .writer] : List GstSinkSystem.Act).map .left

/-- Two buffers go through the sink, and through a source that copies them. -/
def copiedFrames : List (Joint GstSinkSystem.Act Act) :=
  joined .sys ++ nextAccess ++ renderFrame [1, 2] ++ callOnData .sys 2 7 ++
    [.right .leave, .left (.sys (.reader 0))] ++ nextAccess ++ renderFrame [3, 4, 5] ++ callOnData .sys 3 4

theorem copiedFrames_transfer :
    ∃ p log, exec (together (GstSinkSystem.host GstSinkSystem.sinkHost) GstSinkSystem.Foreign 0)
        (GstSinkSystem.init 3 1, init true true) copiedFrames = some p ∧
      [[1, 2], [3, 4, 5]] = log ++ p.1.sending ∧ Passes log [[1, 2], [3, 4, 5]] p.1.sys 0 p.2 := by
  have hrun : (exec (together (GstSinkSystem.host GstSinkSystem.sinkHost) GstSinkSystem.Foreign 0)
      (GstSinkSystem.init 3 1, init true true) copiedFrames).isSome = true := by
    decide +kernel
  have hreceived : received (GstSinkSystem.host GstSinkSystem.sinkHost) GstSinkSystem.Foreign 0
      (GstSinkSystem.init 3 1, init true true) copiedFrames = [[1, 2], [3, 4, 5]] := by
    decide +kernel
  have hbuffers : GstSinkSystem.buffers GstSinkSystem.sinkHost (copiedFrames.filterMap Joint.left?) =
      [[1, 2], [3, 4, 5]] := by
    decide +kernel
  obtain ⟨p, hp⟩ := Option.isSome_iff_exists.1 hrun
  obtain ⟨log, hlog, -, hpasses⟩ := render_transfer (by decide) hp
  rw [hreceived] at hpasses
  exact ⟨p, log, hp, hbuffers.symm.trans hlog, hpasses⟩

end GstShmdataSrc

end Shmdata

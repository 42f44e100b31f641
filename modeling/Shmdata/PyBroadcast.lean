/-
**From Python threads to the readers.**

The threads that push to a `Writer` meet in the constructor of the `WriteLock` of its C writer.  Each of
them, when its turn has come, is the writer of the system; while it copies its frame, others may be waiting,
and the rest of Python goes on.  Put together, what the threads push is what the readers are given, in the
order in which the threads get the lock.

Main definitions:

* `Shmdata.PyWriter.Serves` — how the steps of the threads go with those of the writer;
* `Shmdata.PyWriter.sent`, `Shmdata.PyWriter.current` — what was copied to the segment of a C writer, and what
  is being copied;
* `Shmdata.PyWriter.Turns` — **the invariant**.

Main results:

* `Shmdata.PyWriter.Turns.step` — every step keeps it;
* `Shmdata.PyWriter.push_broadcast` — **what Python threads push is what every reader is given**.
-/

import Shmdata.PyPush
import Shmdata.Refinement

set_option relaxedAutoImplicit false
set_option autoImplicit false

namespace Shmdata

open Runs

/-! ### The turns of the writer -/

namespace System

variable {s t : System} {a : Act}

/-- Only a call begins the turn of a thread, and only `~WriteLock` ends it. -/
theorem idle_iff_of_step (h : s.step a = some t) (hcall : ∀ op, a ≠ .call op)
    (hend : a = .writer → s.w.pc ≠ .writeEnd) : t.w.pc = .idle ↔ s.w.pc = .idle := by
  cases trans_of_step h with
  | call => exact absurd rfl (hcall _)
  | writeStart hpc => simp [hpc]
  | @locked op hpc =>
      obtain ⟨w, key, heq, hw⟩ := s.locked_eq op
      rw [heq, hpc]
      rcases hw with ⟨size, next, hw⟩ | ⟨data, hw⟩ | hw <;> simp [hw]
  | @create size next hpc => cases next <;> simp [createSegment, hpc]
  | notifyLock hpc => simp [notifyLock, hpc]
  | notifyUnlock hpc => simp [hpc]
  | @commit numReaders next f hpc => cases next <;> simp [Writer.Next.pc, hpc]
  | @commitNone numReaders next hpc => cases next <;> simp [Writer.Next.pc, hpc]
  | memcpy hpc => simp [hpc]
  | writeEnd hpc => exact absurd hpc (hend rfl)
  | shmResize hpc => simp [removeSegment, hpc]
  | notifyClients hpc => simp [hpc]
  | release hpc => simp [hpc]
  | _ => exact Iff.rfl

end System

namespace PyWriter

/-! ### The frames of a C writer -/

/-- The push that is being copied to the segment of a C writer. -/
def Call.target (w : ℕ) : Call → Option Push
  | .copying p v _ => if v = w then some p else none
  | .making _ _ _ | .pushing _ | .locking _ _ | .returning _ => none

/-- All bytes are copied. -/
def Call.done (w : ℕ) : Call → Bool
  | .copying p v bytes => v = w ∧ bytes.length = p.size
  | .making _ _ _ | .pushing _ | .locking _ _ | .returning _ => false

/-- Call `k` is inside a C writer. -/
def inside (s : PyWriter) (w k : ℕ) : Bool := s.calls[k]?.bind Call.writer? = some w

/-- The frame that call `k` is to copy to the segment of a C writer, when it gets the lock. -/
def waiting (s : PyWriter) (w k : ℕ) : Option (List UInt8) :=
  match s.calls[k]? with
  | some (.locking p v) => if v = w then some (s.contents p.buffer) else none
  | _ => none

/-- The frames that were copied to the segment of a C writer. -/
def sent (s : PyWriter) (w : ℕ) : List (List UInt8) :=
  (s.copied.filter fun f => f.1 = w).map Prod.snd

/-- The frames that are being copied to it. -/
def current (s : PyWriter) (w : ℕ) : Multiset (List UInt8) :=
  (s.calls.filterMap fun c => (c.target w).map fun p => s.contents p.buffer : List (List UInt8))

/-- What the system may do by itself: it does not begin or end the turn of a thread, and its `memcpy` is over
when the thread has copied its bytes. -/
def leftOk (w : ℕ) (p : System × PyWriter) : System.Act → Bool
  | .call _ => false
  | .writer =>
      match p.1.w.pc with
      | .writeEnd => false
      | .memcpy _ => p.2.calls.any (Call.done w)
      | _ => true
  | _ => true

/-- What Python may do by itself: a thread inside the C writer `w` copies in its turn, and `w` is not
deleted. -/
def rightOk (w : ℕ) (p : System × PyWriter) : Act → Bool
  | .lock k | .unlock k => !p.2.inside w k
  | .copyByte k =>
      !p.2.inside w k || match p.1.w.pc with
        | .memcpy _ => true
        | _ => false
  | .deleted => p.2.writer ≠ some w
  | _ => true

/-- A thread begins its turn, with its frame, or ends it. -/
def bothOk (w : ℕ) (p : System × PyWriter) : System.Act → Act → Bool
  | .call (.copyToShm data), .lock k => p.2.waiting w k = some data
  | .writer, .unlock k =>
      p.2.inside w k && match p.1.w.pc with
        | .writeEnd => true
        | _ => false
  | _, _ => false

/-- A thread that has the lock of the C writer `w` is the writer of the system. -/
def Serves (w : ℕ) (p : System × PyWriter) : Joint System.Act Act → Prop
  | .left a => System.Copying p.1 a ∧ leftOk w p a = true
  | .right b => Still p.2 b ∧ rightOk w p b = true
  | .both a b => bothOk w p a b = true

instance (w : ℕ) (p : System × PyWriter) (c : Joint System.Act Act) : Decidable (Serves w p c) :=
  match c with
  | .left _ | .right _ => inferInstanceAs (Decidable (_ ∧ _ = true))
  | .both _ _ => inferInstanceAs (Decidable (_ = true))

variable {s t : PyWriter} {lost : List ℕ} {w : ℕ}

theorem Call.unfinished_of_target {c : Call} {p : Push} (h : c.target w = some p) :
    c.unfinished = some p ∧ c.writer? = some w := by
  cases c with
  | copying q v bytes =>
      obtain ⟨rfl, hq⟩ := Option.ite_none_right_eq_some.1 h
      exact ⟨hq, rfl⟩
  | making | pushing | locking | returning => cases h

theorem Call.target_of_unfinished {c : Call} (h : c.unfinished = none) : c.target w = none := by
  cases hc : c.target w with
  | none => rfl
  | some p =>
      rw [(Call.unfinished_of_target hc).1] at h
      cases h

/-- The constructor of the `WriteLock` returns. -/
theorem lock_of_step (hs : Sound lost s) {k : ℕ} (h : s.step (.lock k) = some t) :
    ∃ p v, s.calls[k]? = some (.locking p v) ∧ t = (s.setLocked v true).setCall k (.copying p v []) := by
  unfold step at h
  obtain ⟨-, h⟩ := Option.ite_none_left_eq_some.1 h
  obtain ⟨c, hc, h⟩ := Option.bind_eq_some_iff.1 h
  cases c with
  | locking p v =>
      obtain ⟨-, h⟩ := Option.ite_none_left_eq_some.1 h
      rw [hs.within_eq hc rfl] at h
      exact ⟨p, v, hc, (Option.some.inj h).symm⟩
  | making | pushing | copying | returning => cases h

/-- `~WriteLock`, when the frame is copied. -/
theorem unlock_of_step (hs : Sound lost s) {k : ℕ} (h : s.step (.unlock k) = some t) :
    ∃ p v bytes, s.calls[k]? = some (.copying p v bytes) ∧ bytes.length = p.size ∧
      t = { (s.setLocked v false).setCall k (.returning p) with copied := s.copied ++ [(v, bytes)] } := by
  unfold step at h
  obtain ⟨-, h⟩ := Option.ite_none_left_eq_some.1 h
  obtain ⟨c, hc, h⟩ := Option.bind_eq_some_iff.1 h
  cases c with
  | copying p v bytes =>
      obtain ⟨hlen, h⟩ := Option.ite_none_right_eq_some.1 h
      rw [hs.within_eq hc rfl] at h
      exact ⟨p, v, bytes, hc, hlen, (Option.some.inj h).symm⟩
  | making | pushing | locking | returning => cases h

/-- What is being copied, with the bytes that the buffers have after a still step. -/
theorem current_eq {a : Act} (hs : Sound lost s) (hi : Intact s) (hstill : Still s a) (h : Change s t a) :
    s.current w =
      (s.calls.filterMap fun c => (c.target w).map fun p => t.contents p.buffer : List (List UInt8)) := by
  refine congrArg _ (List.filterMap_congr fun c hc => ?_)
  cases hp : c.target w with
  | none => rfl
  | some p =>
      rw [Option.map_some, Option.map_some,
        contents_of_change hs hi hstill h hc (Call.unfinished_of_target hp).1]

/-- A step of a thread that is not inside the C writer does nothing to its frames. -/
theorem turn_of_change {a : Act} (hs : Sound lost s) (hi : Intact s) (hstill : Still s a) (h : Change s t a)
    (hout : ∀ k, a = .lock k ∨ a = .unlock k → s.inside w k = false) :
    t.sent w = s.sent w ∧ t.current w = s.current w := by
  have hcur := current_eq (w := w) hs hi hstill h
  set f : Call → Option (List UInt8) := fun c => (c.target w).map fun p => t.contents p.buffer with hf
  have hnone {c : Call} (hc : c.unfinished = none) : f c = none := by
    show (c.target w).map _ = none
    rw [Call.target_of_unfinished hc, Option.map_none]
  have hnew : t.current w = (t.calls.filterMap f : List (List UInt8)) := rfl
  rw [hcur, hnew]
  have hsent (hcop : t.copied = s.copied) : t.sent w = s.sent w := by rw [sent, sent, hcop]
  cases h with
  | quiet _ hkeep _ hcalls | create hkeep _ hcalls | setItem _ hkeep _ hcalls | resize hkeep _ hcalls =>
      exact ⟨hsent hkeep.copied, by rw [hcalls]⟩
  | making _ hun _ hkeep _ hcalls =>
      refine ⟨hsent hkeep.copied, ?_⟩
      rw [hcalls, List.filterMap_append, List.filterMap_cons, hnone hun, List.filterMap_nil, List.append_nil]
  | pushing _ _ _ hkeep _ hcalls =>
      refine ⟨hsent hkeep.copied, ?_⟩
      rw [hcalls, List.filterMap_append]
      simp [Call.target, hf]
  | enter hc₀ hkeep _ hcalls =>
      refine ⟨hsent hkeep.copied, ?_⟩
      rw [hcalls]
      exact coe_filterMap_set_of_eq f hc₀ rfl
  | @lock k p v hc₀ hkeep _ hcalls =>
      have hv : v ≠ w := by
        rintro rfl
        have hin := hout k (Or.inl rfl)
        simp [inside, hc₀, Call.writer?] at hin
      refine ⟨hsent hkeep.copied, ?_⟩
      rw [hcalls]
      exact coe_filterMap_set_of_eq f hc₀ (by simp [hf, Call.target, hv])
  | copyByte hc₀ _ hkeep _ hcalls =>
      refine ⟨hsent hkeep.copied, ?_⟩
      rw [hcalls]
      exact coe_filterMap_set_of_eq f hc₀ rfl
  | @unlock k p v bytes hc₀ _ _ hcop _ _ hcalls =>
      have hv : v ≠ w := by
        rintro rfl
        have hin := hout k (Or.inr rfl)
        simp [inside, hc₀, Call.writer?] at hin
      constructor
      · rw [sent, hcop, List.filter_append]
        simp [sent, hv]
      · rw [hcalls]
        exact coe_filterMap_set_of_eq f hc₀ (by simp [hf, Call.target, hv])
  | leave _ hc₀ hun _ hcop _ _ hcalls =>
      refine ⟨hsent hcop, ?_⟩
      rw [hcalls, coe_filterMap_eraseIdx f hc₀, hnone hun]
      simp [hf]
  | deleted hnil hcalls hcop => exact ⟨hsent hcop, by rw [hcalls, hnil]⟩
  | improper hnot => exact absurd hstill.1 hnot
  | nullWriter hk hw => exact (hi.writer_ne_none hk hw).elim
  | freedBuffer hk hlt hread => exact (hi.read_ne_none hs hk hlt hread).elim

/-- The thread whose turn has come gets the lock, and has its frame to copy. -/
theorem lock_turn {k : ℕ} {data : List UInt8} (hs : Sound lost s) (hw : s.waiting w k = some data)
    (h : s.step (.lock k) = some t) : t.sent w = s.sent w ∧ t.current w = {data} + s.current w := by
  obtain ⟨p, v, hc, rfl⟩ := lock_of_step hs h
  rw [waiting, hc] at hw
  obtain ⟨rfl, hdata⟩ := Option.ite_none_right_eq_some.1 hw
  obtain rfl := Option.some.inj hdata
  refine ⟨rfl, (coe_filterMap_set _ hc _).trans ?_⟩
  rw [current, coe_filterMap_eraseIdx _ hc]
  simp [Call.target, contents, setLocked, setCall]

/-- The thread releases the lock, and its frame is copied. -/
theorem unlock_turn {k : ℕ} {frames : List (List UInt8)} (hs : Sound lost s) (hi : Intact s)
    (he : Exact frames s) (hin : s.inside w k = true) (h : s.step (.unlock k) = some t) :
    ∃ bytes, t.sent w = s.sent w ++ [bytes] ∧ s.current w = {bytes} + t.current w := by
  obtain ⟨p, v, bytes, hc, hlen, rfl⟩ := unlock_of_step hs h
  obtain rfl : v = w := by simpa [inside, hc, Call.writer?] using hin
  have hmem := List.mem_of_getElem? hc
  have hwhole : s.contents p.buffer = bytes := by
    refine ((he.started _ hmem p rfl).eq_of_length ?_).symm
    rw [(hi.memory _ hmem p rfl).length_contents]
    exact hlen
  refine ⟨bytes, by simp [sent], ?_⟩
  rw [current, coe_filterMap_eraseIdx _ hc]
  refine congrArg₂ _ (by simp [Call.target, hwhole]) (Eq.symm ?_)
  exact (coe_filterMap_set _ hc _).trans (zero_add _)

/-! ### The invariant -/

/-- **The threads take turns**: what `copy_to_shm` was called with is what was copied to the segment, and the
frame of the thread whose turn it is. -/
structure Turns (w : ℕ) (as : List System.Act) (p : System × PyWriter) : Prop where
  sound : ∃ lost, Sound lost p.2
  intact : Intact p.2
  exact : ∃ frames, Exact frames p.2
  turn : (p.1.w.pc = .idle ∧ p.2.current w = 0 ∧ System.copied as = p.2.sent w) ∨
    p.1.w.pc ≠ .idle ∧ ∃ data, p.2.current w = {data} ∧ System.copied as = p.2.sent w ++ [data]

/-- A step of one of the two, or of both, that keeps the invariant of the Python side. -/
theorem still_of_serves {p : System × PyWriter} {c : Joint System.Act Act} {b : Act} (h : Serves w p c)
    (hb : c.right? = some b) : Still p.2 b := by
  cases c with
  | left a => cases hb
  | right b' =>
      obtain rfl := Option.some.inj hb
      exact h.1
  | both a b' =>
      obtain rfl := Option.some.inj hb
      revert h
      simp only [Serves]
      unfold bothOk
      split
      · exact fun _ => ⟨trivial, trivial⟩
      · exact fun _ => ⟨trivial, trivial⟩
      · exact fun h => by cases h

theorem copying_of_serves {p : System × PyWriter} {c : Joint System.Act Act} {a : System.Act}
    (h : Serves w p c) (ha : c.left? = some a) : System.Copying p.1 a := by
  cases c with
  | left a' =>
      obtain rfl := Option.some.inj ha
      exact h.1
  | right b => cases ha
  | both a' b =>
      obtain rfl := Option.some.inj ha
      revert h
      simp only [Serves]
      unfold bothOk
      split
      · exact fun _ => rfl
      · exact fun _ => trivial
      · exact fun h => by cases h

namespace Turns

variable {as : List System.Act} {p q : System × PyWriter}

/-- The system takes a step by itself. -/
theorem left {a : System.Act} {u : System} (ht : Turns w as p) (hok : leftOk w p a = true)
    (h : p.1.step a = some u) : Turns w (as ++ [a]) (u, p.2) := by
  have hcall (op : Writer.Op) : a ≠ .call op := by
    rintro rfl
    cases hok
  have hend : a = .writer → p.1.w.pc ≠ .writeEnd := by
    rintro rfl hpc
    rw [leftOk, hpc] at hok
    cases hok
  have hidle := System.idle_iff_of_step h hcall hend
  have hcopied : System.copied (as ++ [a]) = System.copied as := by
    rw [System.copied, List.filterMap_append]
    cases a with
    | call op => exact absurd rfl (hcall op)
    | _ => exact List.append_nil _
  refine ⟨ht.sound, ht.intact, ht.exact, ?_⟩
  rw [hcopied]
  rcases ht.turn with ⟨hpc, hrest⟩ | ⟨hpc, hrest⟩
  · exact Or.inl ⟨hidle.2 hpc, hrest⟩
  · exact Or.inr ⟨fun hu => hpc (hidle.1 hu), hrest⟩

/-- Python takes a step by itself. -/
theorem right {b : Act} {t : PyWriter} (ht : Turns w as p) (hstill : Still p.2 b) (hok : rightOk w p b = true)
    (h : p.2.step b = some t) : Turns w as (p.1, t) := by
  obtain ⟨lost, hs⟩ := ht.sound
  obtain ⟨frames, he⟩ := ht.exact
  have hchange := change_of_step hs h
  obtain ⟨hsent, hcurrent⟩ := turn_of_change hs ht.intact hstill hchange fun k hb => by
    rcases hb with rfl | rfl <;> simpa [rightOk] using hok
  refine ⟨⟨_, hs.step h⟩, ht.intact.step hs hstill.1 hchange, ⟨_, he.step hs ht.intact hstill hchange⟩, ?_⟩
  rw [hsent, hcurrent]
  exact ht.turn

/-- A turn begins. -/
theorem begin {data : List UInt8} {k : ℕ} {u : System} {t : PyWriter} (ht : Turns w as p)
    (hw : p.2.waiting w k = some data) (hu : p.1.step (.call (.copyToShm data)) = some u)
    (h : p.2.step (.lock k) = some t) : Turns w (as ++ [.call (.copyToShm data)]) (u, t) := by
  obtain ⟨lost, hs⟩ := ht.sound
  obtain ⟨frames, he⟩ := ht.exact
  have hchange := change_of_step hs h
  have hstill : Still p.2 (.lock k) := ⟨trivial, trivial⟩
  refine ⟨⟨_, hs.step h⟩, ht.intact.step hs hstill.1 hchange, ⟨_, he.step hs ht.intact hstill hchange⟩,
    Or.inr ?_⟩
  obtain ⟨hsent, hcurrent⟩ := lock_turn hs hw h
  cases System.trans_of_step hu with
  | call hpc =>
      obtain ⟨-, hnone, hcopied⟩ : p.1.w.pc = .idle ∧ p.2.current w = 0 ∧
          System.copied as = p.2.sent w :=
        ht.turn.resolve_right fun hbusy => hbusy.1 hpc
      refine ⟨by simp, data, ?_, ?_⟩
      · rw [hcurrent, hnone, add_zero]
      · rw [hsent, ← hcopied, System.copied, List.filterMap_append]
        rfl

/-- A turn ends. -/
theorem finish {k : ℕ} {u : System} {t : PyWriter} (ht : Turns w as p) (hin : p.2.inside w k = true)
    (hpc : p.1.w.pc = .writeEnd) (hu : p.1.step .writer = some u) (h : p.2.step (.unlock k) = some t) :
    Turns w (as ++ [.writer]) (u, t) := by
  obtain ⟨lost, hs⟩ := ht.sound
  obtain ⟨frames, he⟩ := ht.exact
  have hchange := change_of_step hs h
  have hstill : Still p.2 (.unlock k) := ⟨trivial, trivial⟩
  refine ⟨⟨_, hs.step h⟩, ht.intact.step hs hstill.1 hchange, ⟨_, he.step hs ht.intact hstill hchange⟩,
    Or.inl ?_⟩
  obtain ⟨bytes, hsent, hcurrent⟩ := unlock_turn hs ht.intact he hin h
  obtain ⟨-, data, hdata, hcopied⟩ : p.1.w.pc ≠ .idle ∧ ∃ data, p.2.current w = {data} ∧
      System.copied as = p.2.sent w ++ [data] :=
    ht.turn.resolve_left fun hidle => by
      rw [hpc] at hidle
      cases hidle.1
  -- the frame of the turn is the only one
  have hone : {bytes} + t.current w = {data} := hcurrent.symm.trans hdata
  have hcard := congrArg Multiset.card hone
  rw [Multiset.card_add, Multiset.card_singleton, Multiset.card_singleton] at hcard
  have hnone : t.current w = 0 := Multiset.card_eq_zero.1 (by omega)
  rw [hnone, add_zero, Multiset.singleton_inj] at hone
  refine ⟨?_, hnone, ?_⟩
  · cases System.trans_of_step hu with
    | writeEnd => rfl
    | writeStart hpc' | locked hpc' | create hpc' | notifyLock hpc' | notifySend hpc' | notifyUnlock hpc'
    | commit hpc' | commitNone hpc' | memcpy hpc' =>
        rw [hpc] at hpc'
        cases hpc'
  · rw [hsent, hone, ← hcopied, System.copied, List.filterMap_append]
    exact List.append_nil _

/-- **Every step keeps the turns.** -/
theorem step {c : Joint System.Act Act} (ht : Turns w as p) (hok : Serves w p c)
    (h : both System.step PyWriter.step p c = some q) : Turns w (as ++ c.left?.toList) q := by
  cases c with
  | left a =>
      obtain ⟨u, hu, rfl⟩ := Option.map_eq_some_iff.1 h
      exact ht.left hok.2 hu
  | right b =>
      obtain ⟨t, hb, rfl⟩ := Option.map_eq_some_iff.1 h
      rw [show (Joint.right b : Joint System.Act Act).left?.toList = [] from rfl, List.append_nil]
      exact ht.right hok.1 hok.2 hb
  | both a b =>
      obtain ⟨u, hu, h⟩ := Option.bind_eq_some_iff.1 h
      obtain ⟨t, hb, rfl⟩ := Option.map_eq_some_iff.1 h
      simp only [Serves] at hok
      unfold bothOk at hok
      split at hok
      · exact ht.begin (of_decide_eq_true hok) hu hb
      · obtain ⟨hin, hpc⟩ := Bool.and_eq_true_iff.1 hok
        refine ht.finish hin ?_ hu hb
        split at hpc
        · assumption
        · cases hpc
      · cases hok

end Turns

/-- The frame that Python code pushes at a step. -/
def pushedBy (p : System × PyWriter) (c : Joint System.Act Act) : List (List UInt8) :=
  match c.right? with
  | some b => p.2.pushed b
  | none => []

/-- What is pushed is kept together, whatever the system does. -/
theorem exact_of_exec {p q : System × PyWriter} {cs : List (Joint System.Act Act)}
    (h : exec (restrict (both System.step PyWriter.step) (Serves w)) p cs = some q) (hs : Sound lost p.2)
    (hi : Intact p.2) (he : Exact [] p.2) :
    Exact (trace (restrict (both System.step PyWriter.step) (Serves w)) pushedBy p cs) q.2 := by
  have hall := exec_trace pushedBy
    (R := fun l p => Exact l p.2 ∧ Intact p.2 ∧ ∃ lost, Sound lost p.2)
    (fun l p c q hinv hst => by
      obtain ⟨he, hi, lost, hs⟩ := hinv
      obtain ⟨hok, hst⟩ := restrict_eq_some.1 hst
      have hright := both_right hst
      unfold pushedBy
      cases hb : c.right? with
      | none =>
          rw [hb] at hright
          have hsame : p.2 = q.2 := Option.some.inj hright
          rw [List.append_nil, ← hsame]
          exact ⟨he, hi, lost, hs⟩
      | some b =>
          rw [hb, Option.toList_some, exec_cons_eq_some] at hright
          obtain ⟨t, hst, ht⟩ := hright
          obtain rfl := Option.some.inj ht
          have hstill := still_of_serves hok hb
          have hchange := change_of_step hs hst
          exact ⟨he.step hs hi hstill hchange, hi.step hs hstill.1 hchange, _, hs.step hst⟩) h (l := [])
    ⟨he, hi, lost, hs⟩
  rw [List.nil_append] at hall
  exact hall.1

/-- **What Python threads push is what every reader is given**, byte for byte, in every interleaving of the
threads, the writer, the server and the readers in which no buffer is changed while it is pushed and no reset
fires: nothing goes wrong; what was pushed is what was copied and what the pushes in flight have to copy; and
the frames copied to the segment of a C writer, with the one that is being copied, are those its readers were
called with, each from the first frame announced after it became a client, all but the last one at most if it
lives. -/
theorem push_broadcast {lfd : ℕ} {as : List Act} {s₀ : PyWriter}
    (h₀ : exec (restrict PyWriter.step Proper) new as = some s₀) (hcalls : s₀.calls = [])
    (hcopied : s₀.copied = []) {cs : List (Joint System.Act Act)} {p : System × PyWriter}
    (h : exec (restrict (both System.step PyWriter.step) (Serves w))
      (System.init lfd (s₀.cwriter w).size, s₀) cs = some p) :
    p.2.fault = none ∧
      ((trace (restrict (both System.step PyWriter.step) (Serves w)) pushedBy
        (System.init lfd (s₀.cwriter w).size, s₀) cs : List (List UInt8)) : Multiset (List UInt8)) =
          (p.2.copied.map Prod.snd : List (List UInt8)) + p.2.pending ∧
      ∃ log cur : List (List UInt8), (cur : Multiset (List UInt8)) = p.2.current w ∧ cur.length ≤ 1 ∧
        p.2.sent w ++ cur = log ++ p.1.w.pc.copying ∧ log.length = p.1.announced ∧
        ∀ r, System.Given Reader.Call.bytes p.1 r log := by
  have hstart := exec_invariant (P := fun s => Intact s ∧ ∃ lost, Sound lost s)
    (fun s a t hinv hst => by
      obtain ⟨hi, lost, hs⟩ := hinv
      obtain ⟨hproper, hst⟩ := restrict_eq_some.1 hst
      exact ⟨hi.step hs hproper (change_of_step hs hst), _, hs.step hst⟩) h₀ ⟨intact_new, [], sound_new⟩
  obtain ⟨hi, lost, hs⟩ := hstart
  have he : Exact [] s₀ := by
    refine ⟨fun c hc => ?_, ?_⟩
    · rw [hcalls] at hc
      cases hc
    · rw [hcopied, pending, hcalls]
      rfl
  have hturns : Turns w (cs.filterMap Joint.left?) p := by
    refine exec_history (R := fun cs p => Turns w (cs.filterMap Joint.left?) p) (fun cs p c q ht hst => ?_) h
      ⟨⟨lost, hs⟩, hi, ⟨[], he⟩, Or.inl ⟨rfl, ?_, ?_⟩⟩
    · obtain ⟨hok, hst⟩ := restrict_eq_some.1 hst
      have hone : [c].filterMap Joint.left? = c.left?.toList := by
        cases hc : c.left? <;> simp [hc]
      rw [List.filterMap_append, hone]
      exact ht.step hok hst
    · show s₀.current w = 0
      rw [current, hcalls]
      rfl
    · show [] = s₀.sent w
      rw [sent, hcopied]
      rfl
  have hleft : exec (restrict System.step System.Copying) (System.init lfd (s₀.cwriter w).size)
      (cs.filterMap Joint.left?) = some p.1 := exec_left (fun p c a hok ha => copying_of_serves hok ha) h
  obtain ⟨log, hlog, hall⟩ := System.copyToShm_broadcast hleft
  refine ⟨hturns.intact.fault, (exact_of_exec h hs hi he).balance, ?_⟩
  rcases hturns.turn with ⟨-, hcur, heq⟩ | ⟨-, data, hcur, heq⟩
  · exact ⟨log, [], hcur.symm, Nat.zero_le _, by rw [List.append_nil, ← heq, hlog], hall⟩
  · exact ⟨log, [data], hcur.symm, le_rfl, by rw [← heq, hlog], hall⟩

/-- A writer of four bytes and two buffers. -/
def smallWriter : List Act :=
  [.create (.str (some [112])), .create (.int 4), .create (.bytearray [1, 2] 0), .create (.bytearray [3] 0),
    .init 3 none (some 4), .made 0 true]

/-- The turn of call `k`, for a frame of `n` bytes. -/
def takeTurn (k n : ℕ) (data : List UInt8) : List (Joint System.Act Act) :=
  .both (.call (.copyToShm data)) (.lock k) :: List.replicate 6 (.left .writer) ++
    List.replicate n (.right (.copyByte k)) ++ [.left .writer, .both .writer (.unlock k)]

/-- Two threads push to a writer that has a reader, and the second one gets the lock first. -/
def twoThreads : List (Joint System.Act Act) :=
  System.connectReader.map .left ++
    [.right (.push 5), .right (.push 6), .right (.enter 0), .right (.enter 1)] ++ takeTurn 1 1 [3] ++
    List.replicate 4 (.left (.reader 0)) ++ takeTurn 0 2 [1, 2] ++ List.replicate 3 (.left (.reader 0))

theorem twoThreads_broadcast :
    ∃ s₀ p, exec (restrict PyWriter.step Proper) new smallWriter = some s₀ ∧
      exec (restrict (both System.step PyWriter.step) (Serves 0)) (System.init 3 (s₀.cwriter 0).size, s₀)
        twoThreads = some p ∧ p.2.fault = none ∧
      (p.1.rd 0).calls.length = 2 ∧ ∃ log cur, p.2.sent 0 ++ cur = log ++ p.1.w.pc.copying ∧
        System.Given Reader.Call.bytes p.1 0 log := by
  have hrun₀ : ((exec (restrict PyWriter.step Proper) new smallWriter).any fun s =>
      s.calls = [] ∧ s.copied = [] ∧ ((exec (restrict (both System.step PyWriter.step) (Serves 0))
        (System.init 3 (s.cwriter 0).size, s) twoThreads).any fun p =>
          (p.1.rd 0).calls.length = 2) = true) = true := by
    decide +kernel
  obtain ⟨s₀, hs₀, hrun⟩ := (Option.any_eq_true _ _).1 hrun₀
  obtain ⟨hcalls, hcopied, hrun⟩ := of_decide_eq_true hrun
  obtain ⟨p, hp, htwo⟩ := (Option.any_eq_true _ _).1 hrun
  obtain ⟨hfault, -, log, cur, -, -, hlog, -, hall⟩ := push_broadcast hs₀ hcalls hcopied hp
  exact ⟨s₀, p, hs₀, hp, hfault, of_decide_eq_true htwo, log, cur, hlog, hall 0⟩

end PyWriter

end Shmdata

/-
**A broadcast channel in lockstep.**

One sender publishes messages to members that come and go.  A message is handed to every member that the
channel has when it is published, and the next one is published only when all those have been handed it,
or have crashed.  A member that leaves is still handed the message it waits for.

This is what a channel promises, with nothing of how it is done: the members of a run are given
contiguous pieces of one sequence of messages, each from the moment it joined, and no two of them are
more than one message apart.

* `Broadcast.Channel`, `Broadcast.Channel.step` — the channel;
* `Broadcast.Channel.event` — what is seen of it: the messages published and those handed out;
* `Broadcast.Channel.Inv` — **the invariant**, with `Broadcast.Channel.inv_of_exec`:
  its field `segment` says that a member is given a contiguous piece of the messages, from the place at
  which it joined;
* `Broadcast.Channel.log_eq` — the log is what is seen to be published;
* `Broadcast.Channel.Inv.lockstep` — **no member is more than one message behind**.
-/

import Shmdata.Runs
import Mathlib.Data.Finset.Erase
import Mathlib.Data.Finset.Insert
import Mathlib.Data.Finset.SDiff
import Mathlib.Logic.Function.Basic

set_option relaxedAutoImplicit false
set_option autoImplicit false

namespace Broadcast

variable {ι α : Type*}

/-- The acts of the sender and of the members. -/
inductive Act (ι α : Type*)
  | join (i : ι)
  | leave (gone : Finset ι)
  | crash (i : ι)
  | publish (m : α)
  | deliver (i : ι)

/-- What is seen of a channel. -/
inductive Event (ι α : Type*)
  | published (m : α)
  | delivered (i : ι) (m : α)
  deriving DecidableEq

/-- The messages that are published. -/
def Event.published? : Event ι α → Option α
  | .published m => some m
  | .delivered _ _ => none

/-- A channel: `log` holds the messages published, `waiting` the members that have not been handed the
last one, `joined` the length of the log when a member came in, and `taken` what it has been handed. -/
structure Channel (ι α : Type*) where
  log : List α
  members : Finset ι
  waiting : Finset ι
  joined : ι → Option ℕ
  taken : ι → List α

namespace Channel

open Runs

/-- A channel without members. -/
def init : Channel ι α where
  log := []
  members := ∅
  waiting := ∅
  joined := fun _ => none
  taken := fun _ => []

variable [DecidableEq ι]

/-- One act.  A member joins once. -/
def step (c : Channel ι α) : Act ι α → Option (Channel ι α)
  | .join i =>
      if c.joined i = none then
        some { c with
          members := insert i c.members
          joined := Function.update c.joined i (some c.log.length) }
      else none
  | .leave gone => some { c with members := c.members \ gone }
  | .crash i => some { c with members := c.members.erase i, waiting := c.waiting.erase i }
  | .publish m =>
      if c.waiting = ∅ then some { c with log := c.log ++ [m], waiting := c.members } else none
  | .deliver i =>
      if i ∈ c.waiting then
        c.log.getLast?.map fun m =>
          { c with
            waiting := c.waiting.erase i
            taken := Function.update c.taken i (c.taken i ++ [m]) }
      else none

/-- What is seen of an act. -/
def event (c : Channel ι α) : Act ι α → List (Event ι α)
  | .publish m => [.published m]
  | .deliver i => (c.log.getLast?.map (.delivered i)).toList
  | _ => []

/-- The message that a member is still to be handed. -/
def owed (c : Channel ι α) (i : ι) : List α := if i ∈ c.waiting then c.log.getLast?.toList else []

variable {c d : Channel ι α} {i j : ι}

@[simp] theorem owed_of_mem (h : i ∈ c.waiting) : c.owed i = c.log.getLast?.toList := if_pos h

@[simp] theorem owed_of_notMem (h : i ∉ c.waiting) : c.owed i = [] := if_neg h

theorem length_owed_le : (c.owed i).length ≤ 1 := by
  unfold owed
  split
  · cases c.log.getLast? <;> simp
  · simp

/-- The steps again, with the conditions under which they are taken. -/
inductive Trans (c : Channel ι α) : Act ι α → Channel ι α → Prop
  | join {i : ι} (hj : c.joined i = none) :
      Trans c (.join i)
        { c with
          members := insert i c.members
          joined := Function.update c.joined i (some c.log.length) }
  | leave {gone : Finset ι} : Trans c (.leave gone) { c with members := c.members \ gone }
  | crash {i : ι} :
      Trans c (.crash i) { c with members := c.members.erase i, waiting := c.waiting.erase i }
  | publish {m : α} (hw : c.waiting = ∅) :
      Trans c (.publish m) { c with log := c.log ++ [m], waiting := c.members }
  | deliver {i : ι} {m : α} (hi : i ∈ c.waiting) (hm : c.log.getLast? = some m) :
      Trans c (.deliver i)
        { c with
          waiting := c.waiting.erase i
          taken := Function.update c.taken i (c.taken i ++ [m]) }

theorem trans_of_step {a : Act ι α} (h : c.step a = some d) : Trans c a d := by
  cases a with
  | join i =>
      obtain ⟨hj, h⟩ := Option.ite_none_right_eq_some.1 h
      exact Option.some.inj h ▸ .join hj
  | leave gone => exact Option.some.inj h ▸ .leave
  | crash i => exact Option.some.inj h ▸ .crash
  | publish m =>
      obtain ⟨hw, h⟩ := Option.ite_none_right_eq_some.1 h
      exact Option.some.inj h ▸ .publish hw
  | deliver i =>
      obtain ⟨hi, h⟩ := Option.ite_none_right_eq_some.1 h
      obtain ⟨m, hm, rfl⟩ := Option.map_eq_some_iff.1 h
      exact .deliver hi hm

/-! ### The state and what is seen -/

theorem log_of_step {a : Act ι α} (h : c.step a = some d) :
    d.log = c.log ++ (c.event a).filterMap Event.published? := by
  cases trans_of_step h with
  | publish hw => rfl
  | deliver hi hm => simp [event, hm, Event.published?]
  | _ => exact (List.append_nil _).symm

theorem log_of_exec {bs : List (Act ι α)} (h : exec step c bs = some d) :
    d.log = c.log ++ (trace step event c bs).filterMap Event.published? := by
  induction bs generalizing c with
  | nil =>
      rw [exec_nil, Option.some_inj] at h
      rw [h, trace_nil, List.filterMap_nil, List.append_nil]
  | cons a bs ih =>
      obtain ⟨u, hu, h⟩ := exec_cons_eq_some.1 h
      rw [ih h, log_of_step hu, trace_cons bs hu, List.filterMap_append, List.append_assoc]

/-- The log is what was seen to be published. -/
theorem log_eq {bs : List (Act ι α)} (h : exec step init bs = some c) :
    c.log = (trace step event init bs).filterMap Event.published? :=
  (log_of_exec h).trans (List.nil_append _)

/-! ### The invariant -/

/-- The invariant of a channel. -/
structure Inv (c : Channel ι α) : Prop where
  start : ∀ i k, c.joined i = some k → k ≤ c.log.length
  unknown : ∀ i, c.joined i = none → i ∉ c.members ∧ i ∉ c.waiting ∧ c.taken i = []
  segment : ∀ i k, c.joined i = some k → c.taken i ++ c.owed i <+: c.log.drop k
  member : ∀ i ∈ c.members, ∀ k, c.joined i = some k → c.taken i ++ c.owed i = c.log.drop k

theorem inv_init : Inv (init : Channel ι α) where
  start _ _ h := by cases h
  unknown _ _ := ⟨Finset.notMem_empty _, Finset.notMem_empty _, rfl⟩
  segment _ _ h := by cases h
  member _ h := absurd h (Finset.notMem_empty _)

namespace Inv

/-- A new member starts at the end of the log. -/
theorem join (hc : Inv c) (hj : c.joined i = none) :
    Inv { c with
      members := insert i c.members
      joined := Function.update c.joined i (some c.log.length) } := by
  obtain ⟨hm, hw, ht⟩ := hc.unknown i hj
  have hnew : c.taken i ++ c.owed i = c.log.drop c.log.length := by
    rw [ht, owed_of_notMem hw, List.drop_length, List.append_nil]
  have hcases {j : ι} {k : ℕ} (h : Function.update c.joined i (some c.log.length) j = some k) :
      (j = i ∧ k = c.log.length) ∨ (j ≠ i ∧ c.joined j = some k) := by
    by_cases hji : j = i
    · subst hji
      rw [Function.update_self, Option.some_inj] at h
      exact Or.inl ⟨rfl, h.symm⟩
    · rw [Function.update_of_ne hji] at h
      exact Or.inr ⟨hji, h⟩
  exact
    { start := fun j k h => by
        rcases hcases h with ⟨rfl, rfl⟩ | ⟨-, h⟩
        · exact le_rfl
        · exact hc.start j k h
      unknown := fun j h => by
        have hji : j ≠ i := by
          rintro rfl
          simp at h
        obtain ⟨hm', hw', ht'⟩ := hc.unknown j ((Function.update_of_ne hji ..).symm.trans h)
        exact ⟨Finset.mem_insert.not.2 (not_or.2 ⟨hji, hm'⟩), hw', ht'⟩
      segment := fun j k h => by
        rcases hcases h with ⟨rfl, rfl⟩ | ⟨-, h⟩
        · exact hnew ▸ List.prefix_refl _
        · exact hc.segment j k h
      member := fun j hj' k h => by
        rcases hcases h with ⟨rfl, rfl⟩ | ⟨hji, h⟩
        · exact hnew
        · exact hc.member j ((Finset.mem_insert.1 hj').resolve_left hji) k h }

/-- Members leave. -/
theorem leave (hc : Inv c) (gone : Finset ι) : Inv { c with members := c.members \ gone } where
  start := hc.start
  unknown j h :=
    ⟨fun hj => (hc.unknown j h).1 (Finset.mem_sdiff.1 hj).1, (hc.unknown j h).2.1, (hc.unknown j h).2.2⟩
  segment := hc.segment
  member j hj := hc.member j (Finset.mem_sdiff.1 hj).1

/-- A member crashes: what it was owed is dropped. -/
theorem crash (hc : Inv c) (i : ι) :
    Inv { c with members := c.members.erase i, waiting := c.waiting.erase i } where
  start := hc.start
  unknown j h := by
    obtain ⟨hm, hw, ht⟩ := hc.unknown j h
    exact ⟨fun hj => hm (Finset.mem_of_mem_erase hj), fun hj => hw (Finset.mem_of_mem_erase hj), ht⟩
  segment j k h := by
    refine List.IsPrefix.trans ((List.prefix_append_right_inj _).2 ?_) (hc.segment j k h)
    unfold owed
    by_cases hj : j ∈ c.waiting
    · rw [if_pos hj]
      split
      · exact List.prefix_refl _
      · exact List.nil_prefix
    · rw [if_neg hj, if_neg fun h' => hj (Finset.mem_of_mem_erase h')]
  member j hj k h := by
    have hne : j ≠ i := Finset.ne_of_mem_erase hj
    rw [← hc.member j (Finset.mem_of_mem_erase hj) k h]
    simp only [owed, Finset.mem_erase, hne, ne_eq, not_false_eq_true, true_and]

/-- A message is published: it is owed to every member, and to nobody else. -/
theorem publish (hc : Inv c) (hw : c.waiting = ∅) (m : α) :
    Inv { c with log := c.log ++ [m], waiting := c.members } := by
  have hdrop {j : ι} {k : ℕ} (h : c.joined j = some k) :
      (c.log ++ [m]).drop k = c.log.drop k ++ [m] := List.drop_append_of_le_length (hc.start j k h)
  have hpaid (j : ι) : c.owed j = [] := owed_of_notMem (hw ▸ Finset.notMem_empty j)
  exact
    { start := fun j k h => by
        rw [List.length_append]
        exact (hc.start j k h).trans (Nat.le_add_right ..)
      unknown := fun j h => ⟨(hc.unknown j h).1, (hc.unknown j h).1, (hc.unknown j h).2.2⟩
      segment := fun j k h => by
        show _ ++ owed _ _ <+: (c.log ++ [m]).drop k
        rw [hdrop h]
        by_cases hj : j ∈ c.members
        · have hmem := hc.member j hj k h
          rw [hpaid, List.append_nil] at hmem
          rw [owed_of_mem hj, List.getLast?_concat, Option.toList_some, hmem]
        · have hseg := hc.segment j k h
          rw [hpaid, List.append_nil] at hseg
          rw [owed_of_notMem hj, List.append_nil]
          exact hseg.trans (List.prefix_append _ _)
      member := fun j hj k h => by
        show _ ++ owed _ _ = (c.log ++ [m]).drop k
        have hmem := hc.member j hj k h
        rw [hpaid, List.append_nil] at hmem
        rw [hdrop h, owed_of_mem hj, List.getLast?_concat, Option.toList_some, hmem] }

/-- A member is handed the last message: what it has and what it is owed stay the same together. -/
theorem deliver (hc : Inv c) {m : α} (hi : i ∈ c.waiting) (hm : c.log.getLast? = some m) :
    Inv { c with
      waiting := c.waiting.erase i
      taken := Function.update c.taken i (c.taken i ++ [m]) } := by
  set d : Channel ι α :=
    { c with
      waiting := c.waiting.erase i
      taken := Function.update c.taken i (c.taken i ++ [m]) } with hd
  have hsame (j : ι) : d.taken j ++ d.owed j = c.taken j ++ c.owed j := by
    by_cases hji : j = i
    · subst hji
      have htaken : d.taken j = c.taken j ++ [m] := Function.update_self ..
      rw [htaken, owed_of_mem hi, hm, owed_of_notMem (Finset.notMem_erase j c.waiting),
        Option.toList_some, List.append_nil]
    · simp only [hd, owed, Finset.mem_erase, hji, ne_eq, not_false_eq_true, true_and,
        Function.update_of_ne hji]
  exact
    { start := hc.start
      unknown := fun j h => by
        obtain ⟨hm', hw', ht'⟩ := hc.unknown j h
        have hji : j ≠ i := by
          rintro rfl
          exact hw' hi
        exact ⟨hm', fun hj => hw' (Finset.mem_of_mem_erase hj), (Function.update_of_ne hji ..).trans ht'⟩
      segment := fun j k h => hsame j ▸ hc.segment j k h
      member := fun j hj k h => hsame j ▸ hc.member j hj k h }

/-- **Every act keeps the invariant.** -/
theorem step {a : Act ι α} (hc : Inv c) (h : c.step a = some d) : Inv d := by
  cases trans_of_step h with
  | join hj => exact hc.join hj
  | leave => exact hc.leave _
  | crash => exact hc.crash _
  | publish hw => exact hc.publish hw _
  | deliver hi hm => exact hc.deliver hi hm

end Inv

theorem inv_of_exec {bs : List (Act ι α)} (h : exec step init bs = some c) : Inv c :=
  exec_invariant (fun _ _ _ hc => hc.step) h inv_init

namespace Inv

/-- **No member is more than one message behind**: those published since it joined are those it has been
handed, and one more when it is waiting. -/
theorem lockstep (hc : Inv c) (hm : i ∈ c.members) :
    ∃ k, c.joined i = some k ∧ k + (c.taken i).length ≤ c.log.length ∧
      c.log.length ≤ k + (c.taken i).length + 1 := by
  cases hj : c.joined i with
  | none => exact absurd hm (hc.unknown i hj).1
  | some k =>
      have hlen := congrArg List.length (hc.member i hm k hj)
      have hle := length_owed_le (c := c) (i := i)
      have hk := hc.start i k hj
      rw [List.length_append, List.length_drop] at hlen
      exact ⟨k, rfl, by omega, by omega⟩

end Inv

end Channel

end Broadcast

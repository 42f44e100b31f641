/-
**Counted references.**

A heap of objects with a reference count each.  An object lives as long as its count is positive, and
touching the count of an object that does not is an error.  A program is sound when the references that
its variables hold can be listed, for then no operation on one of them fails: the heap is balanced with a
collection of references when the count of each object is the number of times it is in the collection.

The operations below are those of a program that counts by hand; the rules say what each does to the
collection.  A reference that the program forgets stays in the collection for ever.

* `RefCount.Heap`, `RefCount.Heap.new`, `RefCount.Heap.incref`, `RefCount.Heap.decref`,
  `RefCount.Heap.assign` — the heap;
* `RefCount.Heap.Balanced` — the counts are those of a collection of references;
* `RefCount.Heap.Balanced.new`, `RefCount.Heap.Balanced.increfs`, `RefCount.Heap.Balanced.decrefs`,
  `RefCount.Heap.Balanced.assign` — the rules for the operations.
-/

import Mathlib.Algebra.Order.Group.Multiset
import Mathlib.Tactic.Abel

set_option relaxedAutoImplicit false
set_option autoImplicit false

namespace RefCount

/-- A heap: the counts, and the number of the next object. -/
structure Heap where
  count : ℕ → ℕ
  next : ℕ

namespace Heap

/-- A heap without objects. -/
def init : Heap := ⟨fun _ => 0, 0⟩

/-- A new object, with the one reference that is returned. -/
def new (h : Heap) : Heap × ℕ := (⟨Function.update h.count h.next 1, h.next + 1⟩, h.next)

/-- One more reference to an object, which must be alive. -/
def incref (h : Heap) (o : ℕ) : Option Heap :=
  if h.count o = 0 then none else some { h with count := Function.update h.count o (h.count o + 1) }

/-- One reference less. -/
def decref (h : Heap) (o : ℕ) : Option Heap :=
  if h.count o = 0 then none else some { h with count := Function.update h.count o (h.count o - 1) }

/-- One more reference to each object of a list. -/
def increfs (h : Heap) : List ℕ → Option Heap
  | [] => some h
  | o :: l => (h.incref o).bind fun h => h.increfs l

/-- One reference less to each object of a list. -/
def decrefs (h : Heap) : List ℕ → Option Heap
  | [] => some h
  | o :: l => (h.decref o).bind fun h => h.decrefs l

/-- A variable is given another value: the new reference is taken before the old one is given up. -/
def assign (h : Heap) (old new : Option ℕ) : Option Heap :=
  (h.increfs new.toList).bind fun h => h.decrefs old.toList

/-- The counts are those of a collection of references. -/
structure Balanced (h : Heap) (refs : Multiset ℕ) : Prop where
  count : ∀ o, h.count o = refs.count o
  lt : ∀ o ∈ refs, o < h.next

variable {h : Heap} {refs refs' : Multiset ℕ} {o : ℕ} {l : List ℕ}

theorem balanced_init : init.Balanced 0 where
  count _ := rfl
  lt _ h := absurd h (Multiset.notMem_zero _)

namespace Balanced

/-- An object with a reference to it is alive. -/
theorem count_ne_zero (hb : h.Balanced refs) (ho : o ∈ refs) : h.count o ≠ 0 := by
  rw [hb.count]
  exact (Multiset.count_pos.2 ho).ne'

/-- A new object is referred to by what it was made for, and by nothing before. -/
theorem new (hb : h.Balanced refs) : h.new.1.Balanced ({h.new.2} + refs) where
  count o := by
    have hfresh : refs.count h.next = 0 :=
      Multiset.count_eq_zero.2 fun hm => lt_irrefl _ (hb.lt _ hm)
    show Function.update h.count h.next 1 o = Multiset.count o ({h.next} + refs)
    rw [Multiset.count_add, Multiset.count_singleton]
    by_cases ho : o = h.next
    · subst ho
      rw [Function.update_self, if_pos rfl, hfresh]
    · rw [Function.update_of_ne ho, if_neg ho, zero_add]
      exact hb.count o
  lt o ho := by
    rcases Multiset.mem_add.1 ho with ho | ho
    · rw [Multiset.mem_singleton.1 ho]
      exact Nat.lt_succ_self _
    · exact (hb.lt o ho).trans (Nat.lt_succ_self _)

/-- One more reference can be taken to what is referred to. -/
theorem incref (hb : h.Balanced refs) (ho : o ∈ refs) :
    ∃ h', h.incref o = some h' ∧ h'.Balanced ({o} + refs) := by
  refine ⟨_, if_neg (hb.count_ne_zero ho), ⟨fun p => ?_, fun p hp => ?_⟩⟩
  · show Function.update h.count o (h.count o + 1) p = _
    rw [Multiset.count_add, Multiset.count_singleton]
    by_cases hp : p = o
    · subst hp
      rw [Function.update_self, if_pos rfl, hb.count, Nat.add_comm]
    · rw [Function.update_of_ne hp, if_neg hp, zero_add]
      exact hb.count p
  · rcases Multiset.mem_add.1 hp with hp | hp
    · rw [Multiset.mem_singleton.1 hp]
      exact hb.lt o ho
    · exact hb.lt p hp

/-- A reference that is held can be given up. -/
theorem decref (hb : h.Balanced ({o} + refs)) : ∃ h', h.decref o = some h' ∧ h'.Balanced refs := by
  have ho : o ∈ ({o} + refs : Multiset ℕ) := Multiset.mem_add.2 (Or.inl (Multiset.mem_singleton_self o))
  refine ⟨_, if_neg (hb.count_ne_zero ho), ⟨fun p => ?_, fun p hp => ?_⟩⟩
  · show Function.update h.count o (h.count o - 1) p = _
    have hcount := hb.count p
    rw [Multiset.count_add, Multiset.count_singleton] at hcount
    by_cases hp : p = o
    · subst hp
      rw [if_pos rfl] at hcount
      rw [Function.update_self, hcount, Nat.add_sub_cancel_left]
    · rw [if_neg hp, zero_add] at hcount
      rw [Function.update_of_ne hp, hcount]
  · exact hb.lt p (Multiset.mem_add.2 (Or.inr hp))

/-- References can be taken to a list of objects that are referred to. -/
theorem increfs (hb : h.Balanced refs) (hl : ∀ o ∈ l, o ∈ refs) :
    ∃ h', h.increfs l = some h' ∧ h'.Balanced (↑l + refs) := by
  induction l generalizing h refs with
  | nil => exact ⟨h, rfl, by simpa using hb⟩
  | cons o l ih =>
      obtain ⟨h₁, hh₁, hb₁⟩ := hb.incref (hl o List.mem_cons_self)
      obtain ⟨h₂, hh₂, hb₂⟩ := ih hb₁ fun p hp =>
        Multiset.mem_add.2 (Or.inr (hl p (List.mem_cons_of_mem _ hp)))
      refine ⟨h₂, Option.bind_eq_some_iff.2 ⟨h₁, hh₁, hh₂⟩, ?_⟩
      have hcons : (↑(o :: l) : Multiset ℕ) + refs = ↑l + ({o} + refs) := by
        rw [← Multiset.cons_coe, ← Multiset.singleton_add, add_comm {o} (l : Multiset ℕ), add_assoc]
      rwa [hcons]

/-- References to a list of objects can be given up when they are held. -/
theorem decrefs (hb : h.Balanced (↑l + refs)) : ∃ h', h.decrefs l = some h' ∧ h'.Balanced refs := by
  induction l generalizing h with
  | nil => exact ⟨h, rfl, by simpa using hb⟩
  | cons o l ih =>
      have hcons : (↑(o :: l) : Multiset ℕ) + refs = {o} + (↑l + refs) := by
        rw [← Multiset.cons_coe, ← Multiset.singleton_add, add_assoc]
      rw [hcons] at hb
      obtain ⟨h₁, hh₁, hb₁⟩ := hb.decref
      obtain ⟨h₂, hh₂, hb₂⟩ := ih hb₁
      exact ⟨h₂, Option.bind_eq_some_iff.2 ⟨h₁, hh₁, hh₂⟩, hb₂⟩

/-- A variable takes a reference to what is referred to, and gives up the one it has. -/
theorem assign {old : Option ℕ} (new : Option ℕ) (hb : h.Balanced (old.toList + refs))
    (hnew : ∀ o ∈ new, o ∈ (old.toList + refs : Multiset ℕ)) :
    ∃ h', h.assign old new = some h' ∧ h'.Balanced (new.toList + refs) := by
  obtain ⟨h₁, hh₁, hb₁⟩ := hb.increfs (l := new.toList) fun o ho => hnew o (by simpa using ho)
  rw [show (new.toList + (old.toList + refs) : Multiset ℕ) = old.toList + (new.toList + refs) by abel]
    at hb₁
  obtain ⟨h₂, hh₂, hb₂⟩ := hb₁.decrefs
  exact ⟨h₂, Option.bind_eq_some_iff.2 ⟨h₁, hh₁, hh₂⟩, hb₂⟩

/-- The same for a variable that keeps its value when none is given. -/
theorem assign_or {old : Option ℕ} (new : Option ℕ) (hb : h.Balanced (old.toList + refs))
    (hnew : ∀ o ∈ new, o ∈ refs) :
    ∃ h', (if new.isSome then h.assign old new else some h) = some h' ∧
      h'.Balanced ((new.or old).toList + refs) := by
  cases new with
  | none => exact ⟨h, rfl, hb⟩
  | some o => exact hb.assign (some o) fun p hp => Multiset.mem_add.2 (Or.inr (hnew p hp))

end Balanced

end Heap

end RefCount

/-
**Finite maps kept in the order of their keys.**

A map is the list of its entries, with increasing keys; the order is part of the type, so that no other
list can be built.  `emplace` adds an entry unless its key is there.  Two maps with the same lookups are
equal, and a map that is filled by a loop is described by its lookups.

Main definitions:

* `OrdMap` — the maps;
* `OrdMap.find?`, `OrdMap.emplace`, `OrdMap.map` — lookup, insertion, and a change of the values.

Main results:

* `OrdMap.find?_emplace` — what insertion does;
* `OrdMap.ext_find?` — **the lookups determine the map**;
* `OrdMap.find?_foldl` — **the lookups of a map filled by a loop**.
-/

import Mathlib.Data.List.Sort
import Mathlib.Tactic.Common

set_option relaxedAutoImplicit false
set_option autoImplicit false

/-- A finite map: its entries, in the order of their keys. -/
structure OrdMap (κ α : Type) [LinearOrder κ] where
  entries : List (κ × α)
  sorted : (entries.map Prod.fst).Pairwise (· < ·)

namespace OrdMap

variable {κ α β γ : Type} [LinearOrder κ]

/-- The map without entries. -/
def empty : OrdMap κ α := ⟨[], List.Pairwise.nil⟩

/-- The value of a key. -/
def find? (m : OrdMap κ α) (k : κ) : Option α := (m.entries.find? fun x => x.1 = k).map Prod.snd

/-- Insertion in a list of entries, unless the key is there. -/
def insert (k : κ) (a : α) : List (κ × α) → List (κ × α)
  | [] => [(k, a)]
  | x :: l => if k < x.1 then (k, a) :: x :: l else if k = x.1 then x :: l else x :: insert k a l

theorem mem_keys_insert {k j : κ} {a : α} {l : List (κ × α)} :
    j ∈ (insert k a l).map Prod.fst ↔ j = k ∨ j ∈ l.map Prod.fst := by
  induction l with
  | nil => simp [insert]
  | cons x l ih =>
      rw [insert]
      split
      · simp
      · split
        · next h => simp [h]
        · rw [List.map_cons, List.mem_cons, ih, List.map_cons, List.mem_cons]
          exact or_left_comm

theorem sorted_insert {k : κ} {a : α} {l : List (κ × α)}
    (h : (l.map Prod.fst).Pairwise (· < ·)) : ((insert k a l).map Prod.fst).Pairwise (· < ·) := by
  induction l with
  | nil => simp [insert]
  | cons x l ih =>
      obtain ⟨hx, hl⟩ := List.pairwise_cons.1 h
      rw [insert]
      split
      · next hk =>
          refine List.pairwise_cons.2 ⟨fun j hj => ?_, h⟩
          rcases List.mem_cons.1 hj with rfl | hj
          · exact hk
          · exact hk.trans (hx j hj)
      · next hk =>
          split
          · exact h
          · next hne =>
              refine List.pairwise_cons.2 ⟨fun j hj => ?_, ih hl⟩
              rcases mem_keys_insert.1 hj with rfl | hj
              · exact lt_of_le_of_ne (not_lt.1 hk) (Ne.symm hne)
              · exact hx j hj

/-- A new key is put between the smaller and the greater ones. -/
theorem exists_insert {k : κ} {l : List (κ × α)} (h : (l.map Prod.fst).Pairwise (· < ·))
    (hk : k ∉ l.map Prod.fst) :
    ∃ pre post, l = pre ++ post ∧ (∀ x ∈ pre, x.1 < k) ∧ (∀ x ∈ post, k < x.1) ∧
      ∀ a, insert k a l = pre ++ (k, a) :: post := by
  induction l with
  | nil => exact ⟨[], [], rfl, by simp, by simp, fun _ => rfl⟩
  | cons x l ih =>
      obtain ⟨hx, hl⟩ := List.pairwise_cons.1 h
      by_cases hkx : k < x.1
      · refine ⟨[], x :: l, rfl, by simp, fun y hy => ?_, fun a => by simp [insert, hkx]⟩
        rcases List.mem_cons.1 hy with rfl | hy
        · exact hkx
        · exact hkx.trans (hx y.1 (List.mem_map_of_mem hy))
      · rw [List.map_cons, List.mem_cons, not_or] at hk
        obtain ⟨pre, post, rfl, hpre, hpost, hins⟩ := ih hl hk.2
        refine ⟨x :: pre, post, rfl, fun y hy => ?_, hpost, fun a => ?_⟩
        · rcases List.mem_cons.1 hy with rfl | hy
          · exact lt_of_le_of_ne (not_lt.1 hkx) (Ne.symm hk.1)
          · exact hpre y hy
        · rw [insert, if_neg hkx, if_neg hk.1, hins]
          rfl

/-- `std::map::emplace`. -/
def emplace (m : OrdMap κ α) (k : κ) (a : α) : OrdMap κ α := ⟨insert k a m.entries, sorted_insert m.sorted⟩

/-- Insertion of a value that may be absent. -/
def emplace? (m : OrdMap κ α) (k : κ) : Option α → OrdMap κ α
  | some a => m.emplace k a
  | none => m

/-- The same keys with other values. -/
def map (f : α → β) (m : OrdMap κ α) : OrdMap κ β where
  entries := m.entries.map fun x => (x.1, f x.2)
  sorted := by
    rw [List.map_map]
    exact m.sorted

@[simp] theorem find?_empty (k : κ) : (empty : OrdMap κ α).find? k = none := rfl

theorem find?_map (f : α → β) (m : OrdMap κ α) (k : κ) : (m.map f).find? k = (m.find? k).map f := by
  unfold find? map
  rw [List.find?_map, Option.map_map, Option.map_map]
  rfl

/-- **What insertion does**: the key gets the value if it had none. -/
theorem find?_emplace (m : OrdMap κ α) (k j : κ) (a : α) :
    (m.emplace k a).find? j = (m.find? j).or (if k = j then some a else none) := by
  obtain ⟨l, hl⟩ := m
  show ((insert k a l).find? fun x => x.1 = j).map Prod.snd =
    ((l.find? fun x => x.1 = j).map Prod.snd).or _
  induction l with
  | nil =>
      by_cases h : k = j
      · simp [insert, h]
      · simp [insert, h]
  | cons x l ih =>
      obtain ⟨hx, hl⟩ := List.pairwise_cons.1 hl
      rw [insert]
      split
      · next hk =>
          by_cases h : k = j
          · subst h
            -- the key is smaller than all the others, so it is not there
            have hnone : (x :: l).find? (fun y => y.1 = k) = none := by
              rw [List.find?_eq_none]
              intro y hy hyk
              have hyk : y.1 = k := of_decide_eq_true hyk
              rcases List.mem_cons.1 hy with rfl | hy
              · exact absurd hyk hk.ne'
              · exact absurd hyk (hk.trans (hx y.1 (List.mem_map_of_mem hy))).ne'
            rw [hnone]
            simp
          · simp [h]
      · next hk =>
          split
          · next hkx =>
              by_cases h : k = j
              · simp [← h, hkx]
              · simp [h]
          · by_cases h : x.1 = j
            · simp [h]
            · simpa [List.find?_cons, h] using ih hl

/-- An entry is the only one with its key. -/
theorem find?_entries {m : OrdMap κ α} {x : κ × α} (hx : x ∈ m.entries) :
    (m.entries.find? fun y => y.1 = x.1) = some x := by
  have hsome : (m.entries.find? fun y => y.1 = x.1).isSome = true :=
    List.find?_isSome.2 ⟨x, hx, by simp⟩
  obtain ⟨y, hy⟩ := Option.isSome_iff_exists.1 hsome
  have hkey : y.1 = x.1 := by simpa using List.find?_some hy
  rw [hy, List.inj_on_of_nodup_map (m.sorted.imp ne_of_lt) (List.mem_of_find?_eq_some hy) hx hkey]

theorem find?_eq_some {m : OrdMap κ α} {k : κ} {a : α} : m.find? k = some a ↔ (k, a) ∈ m.entries := by
  unfold find?
  constructor
  · intro h
    obtain ⟨x, hx, rfl⟩ := Option.map_eq_some_iff.1 h
    have hk : x.1 = k := by simpa using List.find?_some hx
    exact hk ▸ List.mem_of_find?_eq_some hx
  · intro h
    rw [find?_entries h]
    rfl

/-- **The lookups determine the map.** -/
theorem ext_find? {m n : OrdMap κ α} (h : ∀ k, m.find? k = n.find? k) : m = n := by
  have hmem (x : κ × α) : x ∈ m.entries ↔ x ∈ n.entries := by
    rw [← find?_eq_some, ← find?_eq_some, h]
  have hp {m : OrdMap κ α} : m.entries.Pairwise fun x y => x.1 < y.1 := List.pairwise_map.1 m.sorted
  have hperm : m.entries.Perm n.entries :=
    (List.perm_ext_iff_of_nodup (hp.imp fun h => by rintro rfl; exact lt_irrefl _ h)
      (hp.imp fun h => by rintro rfl; exact lt_irrefl _ h)).2 hmem
  have heq : m.entries = n.entries :=
    hperm.eq_of_pairwise (fun x y _ _ hxy hyx => absurd hyx (not_lt_of_gt hxy)) hp hp
  cases m
  cases n
  cases heq
  rfl

/-- **The lookups of a map filled by a loop** that may leave out some of the keys. -/
theorem find?_foldl (key : γ → κ) (val : γ → Option α) (l : List γ) (m : OrdMap κ α) (k : κ) :
    (l.foldl (fun m x => m.emplace? (key x) (val x)) m).find? k =
      (m.find? k).or (l.findSome? fun x => if key x = k then val x else none) := by
  induction l generalizing m with
  | nil => simp
  | cons x l ih =>
      rw [List.foldl_cons, ih, List.findSome?_cons]
      cases hx : val x with
      | none => simp [emplace?]
      | some a =>
          dsimp only [emplace?]
          rw [find?_emplace, Option.or_assoc]
          by_cases hk : key x = k
          · simp [hk]
          · simp [hk]

/-- The first value of a key, where no key occurs twice. -/
theorem findSome?_of_nodup {l : List (κ × α)} (h : (l.map Prod.fst).Nodup) {x : κ × α} (hx : x ∈ l)
    (f : α → Option β) : (l.findSome? fun y => if y.1 = x.1 then f y.2 else none) = f x.2 := by
  have heq (y : κ × α) (hy : y ∈ l) (hk : y.1 = x.1) : y = x := List.inj_on_of_nodup_map h hy hx hk
  cases hf : f x.2 with
  | none =>
      refine List.findSome?_eq_none_iff.2 fun y hy => ?_
      split
      · next hk => rw [heq y hy hk, hf]
      · rfl
  | some b =>
      have hsome : (l.findSome? fun y => if y.1 = x.1 then f y.2 else none).isSome = true :=
        List.findSome?_isSome_iff.2 ⟨x, hx, by simp [hf]⟩
      obtain ⟨b', hb⟩ := Option.isSome_iff_exists.1 hsome
      obtain ⟨y, hy, hyb⟩ := List.exists_of_findSome?_eq_some hb
      by_cases hk : y.1 = x.1
      · rw [if_pos hk, heq y hy hk, hf] at hyb
        rw [hb, hyb]
      · rw [if_neg hk] at hyb
        cases hyb

/-- The lookups of a map filled from a list in which no key occurs twice. -/
theorem find?_foldl_emplace {l : List (κ × α)} (h : (l.map Prod.fst).Nodup) {k : κ} {a : α} :
    (l.foldl (fun m x => m.emplace x.1 x.2) empty).find? k = some a ↔ (k, a) ∈ l := by
  have hfind := find?_foldl Prod.fst (fun x : κ × α => some x.2) l empty k
  dsimp only [emplace?] at hfind
  rw [hfind, find?_empty, Option.none_or]
  constructor
  · intro hf
    obtain ⟨x, hx, hxa⟩ := List.exists_of_findSome?_eq_some hf
    by_cases hk : x.1 = k
    · rw [if_pos hk] at hxa
      obtain ⟨j, b⟩ := x
      cases hxa
      exact hk ▸ hx
    · rw [if_neg hk] at hxa
      cases hxa
  · intro hx
    exact findSome?_of_nodup h hx some

/-- Insertions of different keys can be exchanged. -/
theorem emplace?_comm {k j : κ} (h : k ≠ j) (a b : Option α) (m : OrdMap κ α) :
    (m.emplace? k a).emplace? j b = (m.emplace? j b).emplace? k a := by
  cases a with
  | none => rfl
  | some a =>
      cases b with
      | none => rfl
      | some b =>
          refine ext_find? fun i => ?_
          dsimp only [emplace?]
          rw [find?_emplace, find?_emplace, find?_emplace, find?_emplace, Option.or_assoc, Option.or_assoc]
          congr 1
          by_cases hk : k = i
          · subst hk
            simp [Ne.symm h]
          · simp [hk]

/-- **The order of the insertions does not matter** if no key occurs twice. -/
theorem foldl_emplace?_perm (key : γ → κ) (val : γ → Option α) {l l' : List γ} (hp : l.Perm l')
    (h : (l.map key).Nodup) (m : OrdMap κ α) :
    l.foldl (fun m x => m.emplace? (key x) (val x)) m =
      l'.foldl (fun m x => m.emplace? (key x) (val x)) m := by
  refine hp.foldl_eq' (fun x hx y hy m => ?_) m
  by_cases hxy : key x = key y
  · rw [List.inj_on_of_nodup_map h hx hy hxy]
  · exact emplace?_comm hxy _ _ m

/-- A key that may as well be inserted last. -/
theorem foldl_emplace_perm {l : List (κ × α)} {k : κ} {a : α} (h : ((k, a) :: l).map Prod.fst |>.Nodup)
    {l' : List (κ × α)} (hp : l'.Perm ((k, a) :: l)) :
    l'.foldl (fun m x => m.emplace x.1 x.2) empty =
      (l.foldl (fun m x => m.emplace x.1 x.2) empty).emplace k a := by
  have hlast : l'.Perm (l ++ [(k, a)]) := hp.trans (List.perm_append_singleton (k, a) l).symm
  have hnodup : (l'.map Prod.fst).Nodup := (hp.map Prod.fst).nodup_iff.2 h
  have hfold := foldl_emplace?_perm Prod.fst (fun x => some x.2) hlast hnodup empty
  rw [List.foldl_append] at hfold
  exact hfold

theorem nodup_entries (m : OrdMap κ α) : (m.entries.map Prod.fst).Nodup := m.sorted.imp ne_of_lt

/-- A map is filled again from its own entries. -/
theorem foldl_entries (m : OrdMap κ α) :
    m.entries.foldl (fun m x => m.emplace x.1 x.2) empty = m := by
  refine ext_find? fun k => Option.ext fun a => ?_
  rw [find?_foldl_emplace m.nodup_entries, find?_eq_some]

end OrdMap

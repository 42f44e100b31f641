/-
**The values of a description and the other properties.**

A value that is not open stays in its own item, whatever it is.  An open value takes the comma behind it, so
that its property and the next one are lost; a value that is open at the end of the description takes
nothing.  Hence one value bears on the other properties by one bit only, whether it is open, and only on the
next property: this one is there if the value is not open, unless it is lost anyway because it is joined
with the property after it.  All this is about texts in which the searches for the regular expressions come to
their end.

Main definitions:

* `Shmdata.TypeDesc.reparse` — a description built, written and read again;
* `Shmdata.TypeDesc.Isolated` — two descriptions agree apart from one key when they are read again;
* `Shmdata.TypeDesc.Decides` — the property after a key stands by itself.

Main results:

* `Shmdata.TypeDesc.left_append` — **what is left of the properties around a key**;
* `Shmdata.TypeDesc.isolated_iff` — **when a value does not affect the other properties**.
-/

import Shmdata.TypeTokens

set_option relaxedAutoImplicit false
set_option autoImplicit false

namespace Shmdata

namespace TypeDesc

/-- A `Type` is built, written by `str` and parsed again. -/
def reparse (name : List Char) (calls : List Call) : Except StdExn TypeDesc := do
  let t ← build name calls
  let s ← t.str
  parse s

/-- Two descriptions, read again, have the given name and agree on every key other than `k`. -/
def Isolated (name k : List Char) (calls₁ calls₂ : List Call) : Prop :=
  ∃ u₁ u₂, reparse name calls₁ = .ok u₁ ∧ reparse name calls₂ = .ok u₂ ∧
    u₁.name = name ∧ u₂.name = name ∧ ∀ k', k' ≠ k → u₁.get k' = u₂.get k'

/-- There is a property after the key `k`, and the next one does not take the comma behind it: its value is
not open, or it is the last. -/
def Decides (k : List Char) (qs : List Call) : Prop :=
  ∃ n ∈ qs, k < n.1 ∧ (∀ x ∈ qs, k < x.1 → n.1 ≤ x.1) ∧ (n.2.isOpen = true → ∀ x ∈ qs, x.1 ≤ n.1)

variable {name k : List Char} {calls calls₁ calls₂ qs xs pre post : List Call} {a a₁ a₂ : Arg}

/-! ### What is left of the properties -/

/-- The properties that are left, when the first one is joined with a property before it or is not. -/
def left : Bool → List Call → List Call
  | _, [] => []
  | b, x :: xs => (if b || swallows x xs then [] else [x]) ++ left (swallows x xs) xs

theorem filterMap_joinTokens (acc : List Char) (xs : List Call) :
    (joinTokens acc xs).filterMap Token.call = left (acc ≠ []) xs := by
  induction xs generalizing acc with
  | nil => rfl
  | cons x xs ih =>
      rw [joinTokens, left]
      split
      · next h =>
          rw [ih, h]
          simp [label]
      · next h =>
          rw [List.filterMap_cons, ih]
          by_cases hacc : acc = []
          · simp [hacc, h]
          · simp [hacc, h]

theorem survivors_eq (xs : List Call) : survivors xs = left false xs := by
  rw [survivors, filterMap_joinTokens]
  rfl

theorem left_subset {b : Bool} {x : Call} (h : x ∈ left b xs) : x ∈ xs := by
  induction xs generalizing b with
  | nil => exact h
  | cons y xs ih =>
      rw [left, List.mem_append] at h
      rcases h with h | h
      · split at h
        · cases h
        · exact List.mem_singleton.1 h ▸ List.mem_cons_self
      · exact List.mem_cons_of_mem _ (ih h)

/-- **What is left around a property** depends on its value only by the comma that it takes. -/
theorem left_append (b : Bool) (pre : List Call) :
    ∃ A b', (∀ x ∈ A, x ∈ pre) ∧ ∀ x post, left b (pre ++ x :: post) =
      A ++ ((if b' || swallows x post then [] else [x]) ++ left (swallows x post) post) := by
  induction pre generalizing b with
  | nil => exact ⟨[], b, by simp, fun x post => rfl⟩
  | cons y pre ih =>
      obtain ⟨A, b', hA, h⟩ := ih y.2.isOpen
      refine ⟨(if b || y.2.isOpen then [] else [y]) ++ A, b', fun x hx => ?_, fun x post => ?_⟩
      · rcases List.mem_append.1 hx with hx | hx
        · split at hx
          · cases hx
          · exact List.mem_singleton.1 hx ▸ List.mem_cons_self
        · exact List.mem_cons_of_mem _ (hA x hx)
      · have hsw : swallows y (pre ++ x :: post) = y.2.isOpen := by simp [swallows]
        rw [List.cons_append, left, hsw, h, List.append_assoc]

/-! ### What is read again -/

/-- The value of a key among the properties that are left. -/
def lookup (k : List Char) (xs : List Call) : Option Any :=
  xs.findSome? fun x => if x.1 = k then some x.2.reparsed else none

theorem lookup_append (k : List Char) (xs ys : List Call) :
    lookup k (xs ++ ys) = (lookup k xs).or (lookup k ys) := List.findSome?_append

theorem lookup_eq_none (h : ∀ x ∈ xs, x.1 ≠ k) : lookup k xs = none :=
  List.findSome?_eq_none_iff.2 fun x hx => if_neg (h x hx)

/-- **What is read again**: the properties that are left. -/
theorem exists_reparse (hname : GoodName name) (hkeys : (calls.map Prod.fst).Nodup)
    (hgood : ∀ x ∈ calls, GoodCall x) :
    ∃ u, reparse name calls = .ok u ∧ u.name = name ∧
      ∀ k, u.get k = lookup k (left false (callMap calls).entries) := by
  obtain ⟨t, hbuild, -, -, hstr⟩ := exists_build hname hkeys
  have hgood' : ∀ x ∈ (callMap calls).entries, GoodCall x :=
    fun x hx => hgood x ((mem_callMap hkeys).1 hx)
  obtain ⟨u, hparse, hun, hup, -⟩ := parse_fields hname hgood'
  refine ⟨u, ?_, hun, fun k => ?_⟩
  · rw [reparse, hbuild]
    exact (congrArg (· >>= parse) hstr).trans hparse
  · have hfind := OrdMap.find?_foldl Prod.fst (fun x : Call => some x.2.reparsed)
      (survivors (callMap calls).entries) .empty k
    dsimp only [OrdMap.emplace?] at hfind
    rw [get, hup, hfind, OrdMap.find?_empty, Option.none_or, survivors_eq, lookup]
    congr!

/-- The properties of two descriptions that differ under one key. -/
theorem exists_entries (hkeys : (k :: qs.map Prod.fst).Nodup) :
    ∃ pre post, (∀ x ∈ pre, x.1 < k) ∧ (∀ x ∈ post, k < x.1) ∧
      (post.map Prod.fst).Pairwise (· < ·) ∧ (∀ x, x ∈ qs ↔ x ∈ pre ∨ x ∈ post) ∧
      ∀ a calls, calls.Perm ((k, a) :: qs) → (callMap calls).entries = pre ++ (k, a) :: post := by
  have hqs := (List.nodup_cons.1 hkeys).2
  have hk : k ∉ (callMap qs).entries.map Prod.fst := by
    intro h
    obtain ⟨x, hx, rfl⟩ := List.mem_map.1 h
    exact (List.nodup_cons.1 hkeys).1 (List.mem_map_of_mem ((mem_callMap hqs).1 hx))
  obtain ⟨pre, post, hl, hpre, hpost, hins⟩ := OrdMap.exists_insert (callMap qs).sorted hk
  refine ⟨pre, post, hpre, hpost, ?_, fun x => ?_, fun a calls hperm => ?_⟩
  · have hsorted := (callMap qs).sorted
    rw [hl, List.map_append] at hsorted
    exact (List.pairwise_append.1 hsorted).2.1
  · rw [← mem_callMap hqs, hl, List.mem_append]
  · rw [callMap, OrdMap.foldl_emplace_perm hkeys hperm]
    exact hins a

/-- The next property stands by itself. -/
theorem decides_iff (hpre : ∀ x ∈ pre, x.1 < k) (hpost : ∀ x ∈ post, k < x.1)
    (hsorted : (post.map Prod.fst).Pairwise (· < ·)) (hqs : ∀ x, x ∈ qs ↔ x ∈ pre ∨ x ∈ post) :
    Decides k qs ↔ ∃ n rest, post = n :: rest ∧ swallows n rest = false := by
  constructor
  · rintro ⟨n, hn, hkn, hmin, hopen⟩
    have hmem : n ∈ post := ((hqs n).1 hn).resolve_left fun h => lt_asymm hkn (hpre n h)
    obtain ⟨m, rest, rfl⟩ := List.exists_cons_of_ne_nil (List.ne_nil_of_mem hmem)
    obtain ⟨hm, -⟩ := List.pairwise_cons.1 hsorted
    have hnm : n = m := by
      rcases List.mem_cons.1 hmem with h | h
      · exact h
      · have hle := hmin m ((hqs m).2 (Or.inr List.mem_cons_self)) (hpost m List.mem_cons_self)
        exact absurd (hm n.1 (List.mem_map_of_mem h)) (not_lt_of_ge hle)
    subst hnm
    refine ⟨n, rest, rfl, ?_⟩
    cases hrest : rest with
    | nil => simp [swallows]
    | cons y ys =>
        rw [Bool.eq_false_iff]
        intro hsw
        rw [swallows, Bool.and_eq_true] at hsw
        have hy : y ∈ rest := hrest ▸ List.mem_cons_self
        have hle := hopen hsw.1 y ((hqs y).2 (Or.inr (List.mem_cons_of_mem _ hy)))
        exact absurd (hm y.1 (List.mem_map_of_mem hy)) (not_lt_of_ge hle)
  · rintro ⟨n, rest, rfl, hsw⟩
    obtain ⟨hn, -⟩ := List.pairwise_cons.1 hsorted
    have hkn := hpost n List.mem_cons_self
    refine ⟨n, (hqs n).2 (Or.inr List.mem_cons_self), hkn, fun x hx hkx => ?_, fun hopen x hx => ?_⟩
    · rcases (hqs x).1 hx with h | h
      · exact absurd hkx (not_lt_of_gt (hpre x h))
      · rcases List.mem_cons.1 h with rfl | h
        · exact le_refl _
        · exact (hn x.1 (List.mem_map_of_mem h)).le
    · have hrest : rest = [] := by simpa [swallows, hopen] using hsw
      rcases (hqs x).1 hx with h | h
      · exact ((hpre x h).trans hkn).le
      · rw [hrest, List.mem_singleton] at h
        exact h ▸ le_refl _

/-- **When a value does not affect the other properties.** -/
theorem isolated_iff (hname : GoodName name) (hkeys : (k :: qs.map Prod.fst).Nodup)
    (hgood : ∀ x ∈ (k, a₁) :: (k, a₂) :: qs, GoodCall x) (h₁ : calls₁.Perm ((k, a₁) :: qs))
    (h₂ : calls₂.Perm ((k, a₂) :: qs)) :
    Isolated name k calls₁ calls₂ ↔ a₁.isOpen = a₂.isOpen ∨ ¬ Decides k qs := by
  obtain ⟨pre, post, hpre, hpost, hsorted, hqs, hentries⟩ := exists_entries hkeys
  obtain ⟨u₁, hu₁, hn₁, hget₁⟩ := exists_reparse hname ((h₁.map Prod.fst).nodup_iff.2 hkeys)
    fun x hx => hgood x (by
      rcases List.mem_cons.1 (h₁.mem_iff.1 hx) with rfl | hx
      · simp
      · simp [hx])
  obtain ⟨u₂, hu₂, hn₂, hget₂⟩ := exists_reparse hname ((h₂.map Prod.fst).nodup_iff.2 hkeys)
    fun x hx => hgood x (by
      rcases List.mem_cons.1 (h₂.mem_iff.1 hx) with rfl | hx
      · simp
      · simp [hx])
  rw [hentries a₁ calls₁ h₁] at hget₁
  rw [hentries a₂ calls₂ h₂] at hget₂
  obtain ⟨A, b, hA, hleft⟩ := left_append false pre
  have hval {a : Arg} {k' : List Char} (hk : k' ≠ k) : lookup k' (left false (pre ++ (k, a) :: post)) =
      (lookup k' A).or (lookup k' (left (swallows (k, a) post) post)) := by
    have hself : lookup k' (if b || swallows (k, a) post then [] else [(k, a)]) = none := by
      refine lookup_eq_none fun x hx => ?_
      split at hx
      · cases hx
      · exact List.mem_singleton.1 hx ▸ hk.symm
    rw [hleft, lookup_append, lookup_append, hself, Option.none_or]
  constructor
  · rintro ⟨v₁, v₂, hv₁, hv₂, -, -, hagree⟩
    obtain rfl : u₁ = v₁ := Except.ok.inj (hu₁.symm.trans hv₁)
    obtain rfl : u₂ = v₂ := Except.ok.inj (hu₂.symm.trans hv₂)
    by_contra hnot
    obtain ⟨hne, hdec⟩ := not_or.1 hnot
    obtain ⟨n, rest, rfl, hsw⟩ := (decides_iff hpre hpost hsorted hqs).1 (not_not.1 hdec)
    have hkn := hpost n List.mem_cons_self
    obtain ⟨hn, -⟩ := List.pairwise_cons.1 hsorted
    have hA : lookup n.1 A = none := lookup_eq_none fun x hx => ((hpre x (hA x hx)).trans hkn).ne
    have hrest : lookup n.1 (left false rest) = none :=
      lookup_eq_none fun x hx => (hn x.1 (List.mem_map_of_mem (left_subset hx))).ne'
    -- the next property is there if and only if the value before it is not open
    have hnext (a : Arg) : lookup n.1 (left false (pre ++ (k, a) :: n :: rest)) =
        if a.isOpen then none else some n.2.reparsed := by
      have hopen : swallows (k, a) (n :: rest) = a.isOpen := by simp [swallows]
      rw [hval hkn.ne', hA, Option.none_or, hopen, left, hsw, Bool.or_false]
      cases a.isOpen with
      | true => exact hrest
      | false => simp [lookup]
    have heq := hagree n.1 hkn.ne'
    rw [hget₁, hget₂, hnext, hnext] at heq
    cases h1 : a₁.isOpen <;> cases h2 : a₂.isOpen <;> simp_all
  · intro h
    refine ⟨u₁, u₂, hu₁, hu₂, hn₁, hn₂, fun k' hk' => ?_⟩
    have hpost : left (swallows (k, a₁) post) post = left (swallows (k, a₂) post) post := by
      cases hpost' : post with
      | nil => rfl
      | cons n rest =>
          rcases h with h | h
          · simp [swallows, h]
          · rw [decides_iff hpre hpost hsorted hqs] at h
            have hsw : swallows n rest = true := by
              by_contra hsw
              exact h ⟨n, rest, hpost', by simpa using hsw⟩
            simp [left, hsw]
    rw [hget₁, hget₂, hval hk', hval hk', hpost]

/-- A quoted backslash at the end of a label does no harm. -/
theorem quoted_isolated : Isolated "video/x-raw".toList "label".toList
    [("label".toList, .string ['l', ' ', '\\']), ("width".toList, .int 320)]
    [("width".toList, .int 320), ("label".toList, .string ['l'])] := by
  have hname : GoodName "video/x-raw".toList := ⟨by decide, by decide, by decide, by decide⟩
  have hgood : ∀ x ∈ ([("label".toList, .string ['l', ' ', '\\']), ("label".toList, .string ['l']),
      ("width".toList, .int 320)] : List Call), GoodCall x := by
    refine List.forall_mem_cons.2 ⟨⟨by decide, List.all_eq_true.1 (by decide), by rintro w v ⟨⟩⟩, ?_⟩
    refine List.forall_mem_cons.2 ⟨⟨by decide, List.all_eq_true.1 (by decide), by rintro w v ⟨⟩⟩, ?_⟩
    exact List.forall_mem_cons.2 ⟨⟨by decide, List.all_eq_true.1 (by decide), by rintro w v ⟨⟩⟩, by simp⟩
  exact (isolated_iff hname (by decide) hgood (List.Perm.refl _) (List.Perm.swap ..)).2 (Or.inl rfl)

/-- **A backslash at the end of a label hides the width behind it.** -/
theorem backslash_not_isolated : ¬ Isolated "video/x-raw".toList "label".toList
    [("label".toList, .string ['l', '\\']), ("width".toList, .int 320)]
    [("label".toList, .string ['l']), ("width".toList, .int 320)] := by
  rintro ⟨u₁, u₂, h₁, h₂, -, -, h⟩
  have hlost : (reparse "video/x-raw".toList
      [("label".toList, .string ['l', '\\']), ("width".toList, .int 320)]).map
        (fun u => u.get "width".toList) = .ok none := by decide +kernel
  have hkept : (reparse "video/x-raw".toList
      [("label".toList, .string ['l']), ("width".toList, .int 320)]).map
        (fun u => u.get "width".toList) = .ok (some (.int 320)) := by decide +kernel
  rw [h₁] at hlost
  rw [h₂] at hkept
  have heq : some (Any.int 320) = none :=
    (Except.ok.inj hkept).symm.trans ((h "width".toList (by decide)).symm.trans (Except.ok.inj hlost))
  cases heq

end TypeDesc

end Shmdata

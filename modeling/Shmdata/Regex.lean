/-
**Regular expressions, by what they leave of the input.**

A small fragment of the ECMAScript regular expressions: characters of a class, sequences, and greedy
repetitions of a class.  A backtracking matcher tries the ways to match at one place in a fixed order; here
the meaning of an expression is the list of what each of these ways leaves of the input, in that order, so
that the match at a place is the first of the list and a match of the whole input is an empty remainder
anywhere in it.  On top of this stand the operations of a regular expression library: the leftmost match,
the replacement of all matches, and the pieces of the input between them.  The last two are meant for
expressions that match no empty string.

Main definitions:

* `Regex.Rgx`, `Regex.rests` — the expressions and what they leave;
* `Regex.first`, `Regex.search`, `Regex.fullMatch` — the match at a place, the leftmost one, and the match
  of the whole;
* `Regex.replaceAll`, `Regex.tokens` — the replacement, and the pieces between the matches.

Main results:

* `Regex.replaceAll_append`, `Regex.pieces_append` — **text in which no match begins is passed over**;
* `Regex.replaceAll_char` — the replacement of one character;
* `Regex.replaceAll_of_absent`, `Regex.infix_replaceAll` — the replacement of a word;
* `Regex.first_around` — a separator and the blanks around it;
* `Regex.replaceAll_flatMap` — **the replacement of one code word in an encoded text**;
* `Regex.exists_of_stray` — what an occurrence of the code word in another place does;
* `Regex.sum_replaceAll` — a weight that replacements keep.
-/

import Mathlib.Algebra.GroupWithZero.Nat
import Mathlib.Data.List.Basic
import Mathlib.Data.List.Infix
import Mathlib.Tactic.Common

set_option relaxedAutoImplicit false
set_option autoImplicit false

namespace Regex

/-- A regular expression: nothing, one character of a class, a sequence, or a greedy repetition of a
class. -/
inductive Rgx
  | eps
  | cls (p : Char → Bool)
  | seq (r s : Rgx)
  | star (p : Char → Bool)

/-- What a greedy repetition leaves, the longest match first. -/
def starRests (p : Char → Bool) : List Char → List (List Char)
  | [] => [[]]
  | c :: s => if p c then starRests p s ++ [c :: s] else [c :: s]

/-- What the ways to match at the beginning of the input leave, in the order in which they are tried. -/
def rests : Rgx → List Char → List (List Char)
  | .eps, s => [s]
  | .cls _, [] => []
  | .cls p, c :: s => if p c then [s] else []
  | .seq r t, s => (rests r s).flatMap (rests t)
  | .star p, s => starRests p s

/-- One or more characters of a class. -/
def plus (p : Char → Bool) : Rgx := .seq (.cls p) (.star p)

/-- A word. -/
def lit : List Char → Rgx
  | [] => .eps
  | c :: w => .seq (.cls (· == c)) (lit w)

/-- What the match at the beginning of the input leaves. -/
def first (r : Rgx) (s : List Char) : Option (List Char) := (rests r s).head?

/-- The whole input is matched. -/
def fullMatch (r : Rgx) (s : List Char) : Bool := (rests r s).contains []

/-- The leftmost match: the text matched and what follows it. -/
def search (r : Rgx) : List Char → Option (List Char × List Char)
  | [] => (first r []).map fun t => ([], t)
  | c :: s =>
      match first r (c :: s) with
      | some t => some ((c :: s).take (s.length + 1 - t.length), t)
      | none => search r s

/-- The replacement of the matches, when the first `n` characters belong to a match already replaced. -/
def replaceFrom (r : Rgx) (fmt : List Char) : ℕ → List Char → List Char
  | _, [] => []
  | n + 1, _ :: s => replaceFrom r fmt n s
  | 0, c :: s =>
      match first r (c :: s) with
      | some t => fmt ++ replaceFrom r fmt (s.length - t.length) s
      | none => c :: replaceFrom r fmt 0 s

/-- The replacement of all matches, from left to right. -/
def replaceAll (r : Rgx) (fmt s : List Char) : List Char := replaceFrom r fmt 0 s

/-- The pieces between the matches, when the first `n` characters belong to a match already passed. -/
def piecesFrom (r : Rgx) : ℕ → List Char → List (List Char)
  | _, [] => [[]]
  | n + 1, _ :: s => piecesFrom r n s
  | 0, c :: s =>
      match first r (c :: s) with
      | some t => [] :: piecesFrom r (s.length - t.length) s
      | none =>
          match piecesFrom r 0 s with
          | [] => [[c]]
          | p :: ps => (c :: p) :: ps

/-- The pieces between the matches, the first before the first match and the last after the last. -/
def pieces (r : Rgx) (s : List Char) : List (List Char) := piecesFrom r 0 s

/-- The tokens between the matches: an empty piece after the last match is no token. -/
def tokens (r : Rgx) (s : List Char) : List (List Char) :=
  match pieces r s with
  | [p] => [p]
  | ps => if ps.getLast? = some [] then ps.dropLast else ps

variable {p q : Char → Bool} {r : Rgx} {c : Char} {s t w x y fmt : List Char}

/-! ### What is left -/

theorem mem_starRests : t ∈ starRests p s ↔ ∃ u, s = u ++ t ∧ ∀ c ∈ u, p c = true := by
  induction s with
  | nil =>
      simp only [starRests, List.mem_singleton]
      constructor
      · rintro rfl
        exact ⟨[], rfl, by simp⟩
      · rintro ⟨u, hu, -⟩
        exact (List.append_eq_nil_iff.1 hu.symm).2
  | cons c s ih =>
      have hself : (∃ u, c :: s = u ++ t ∧ ∀ d ∈ u, p d = true) ↔
          t = c :: s ∨ p c = true ∧ ∃ u, s = u ++ t ∧ ∀ d ∈ u, p d = true := by
        constructor
        · rintro ⟨u, hu, hp⟩
          cases u with
          | nil => exact Or.inl hu.symm
          | cons d u =>
              obtain ⟨rfl, rfl⟩ := List.cons.inj hu
              exact Or.inr ⟨hp c (by simp), u, rfl, fun d hd => hp d (by simp [hd])⟩
        · rintro (rfl | ⟨hc, u, rfl, hp⟩)
          · exact ⟨[], rfl, by simp⟩
          · exact ⟨c :: u, rfl, by simpa [hc] using hp⟩
      rw [hself, starRests]
      by_cases hc : p c = true
      · simp [hc, ih, or_comm]
      · simp [hc]

theorem head?_starRests : (starRests p s).head? = some (s.dropWhile p) := by
  induction s with
  | nil => rfl
  | cons c s ih =>
      rw [starRests, List.dropWhile_cons]
      split
      · rw [List.head?_append, ih]
        rfl
      · rfl

/-- What is left is the end of the input. -/
theorem suffix_of_mem_rests (h : t ∈ rests r s) : t <:+ s := by
  induction r generalizing s t with
  | eps =>
      rw [rests, List.mem_singleton] at h
      exact h ▸ List.suffix_refl _
  | cls p =>
      cases s with
      | nil => cases h
      | cons c s =>
          rw [rests] at h
          split at h
          · rw [List.mem_singleton.1 h]
            exact List.suffix_cons ..
          · cases h
  | seq r r' ihr ihr' =>
      obtain ⟨u, hu, ht⟩ := List.mem_flatMap.1 h
      exact (ihr' ht).trans (ihr hu)
  | star p =>
      obtain ⟨u, rfl, -⟩ := mem_starRests.1 h
      exact List.suffix_append ..

theorem suffix_of_first (h : first r s = some t) : t <:+ s :=
  suffix_of_mem_rests (List.mem_of_mem_head? h)

/-- A separator is not reached before the blanks in front of it are passed. -/
theorem rests_star_cls (hpq : ∀ c, p c = true → q c = false) (s : List Char) :
    rests (.seq (.star p) (.cls q)) s = rests (.cls q) (s.dropWhile p) := by
  rw [rests, rests]
  induction s with
  | nil => rfl
  | cons c s ih =>
      rw [starRests, List.dropWhile_cons]
      by_cases hc : p c = true
      · rw [if_pos hc, if_pos hc, List.flatMap_append, ih]
        simp [rests, hpq c hc]
      · rw [if_neg hc, if_neg hc, List.flatMap_singleton]

/-- **A separator with the blanks around it** is found after the blanks. -/
theorem first_around (hpq : ∀ c, p c = true → q c = false) (s : List Char) :
    first (.seq (.seq (.star p) (.cls q)) (.star p)) s =
      match s.dropWhile p with
      | [] => none
      | c :: t => if q c then some (t.dropWhile p) else none := by
  rw [first, rests, rests_star_cls hpq]
  cases s.dropWhile p with
  | nil => rfl
  | cons c t =>
      dsimp only
      rw [rests]
      by_cases hc : q c = true
      · rw [if_pos hc, if_pos hc, List.flatMap_singleton]
        exact head?_starRests
      · rw [if_neg hc, if_neg hc]
        rfl

theorem mem_rests_plus : t ∈ rests (plus p) s ↔ ∃ u, u ≠ [] ∧ s = u ++ t ∧ ∀ c ∈ u, p c = true := by
  rw [plus, rests]
  cases s with
  | nil =>
      simp only [rests, List.flatMap_nil, List.not_mem_nil, false_iff, not_exists, not_and]
      intro u hu h
      exact absurd (List.append_eq_nil_iff.1 h.symm).1 hu
  | cons c s =>
      rw [rests]
      constructor
      · intro h
        split at h
        · next hc =>
            rw [List.flatMap_singleton] at h
            obtain ⟨u, rfl, hu⟩ := mem_starRests.1 h
            exact ⟨c :: u, by simp, rfl, by simpa [hc] using hu⟩
        · cases h
      · rintro ⟨u, hu, hs, hp⟩
        cases u with
        | nil => exact absurd rfl hu
        | cons d u =>
            obtain ⟨rfl, rfl⟩ := List.cons.inj hs
            rw [if_pos (hp c (by simp)), List.flatMap_singleton]
            exact mem_starRests.2 ⟨u, rfl, fun d hd => hp d (by simp [hd])⟩

/-! ### Words -/

theorem first_lit_append (w t : List Char) : first (lit w) (w ++ t) = some t := by
  have h : rests (lit w) (w ++ t) = [t] := by
    induction w with
    | nil => rfl
    | cons c w ih => simp [lit, rests, ih]
  rw [first, h]
  rfl

theorem first_lit_eq_none (h : ¬ w <+: s) : first (lit w) s = none := by
  have hnil : rests (lit w) s = [] := by
    induction w generalizing s with
    | nil => exact absurd (List.nil_prefix ..) h
    | cons c w ih =>
        cases s with
        | nil => rfl
        | cons d s =>
            rw [lit, rests, rests]
            split
            · next hd =>
                rw [List.flatMap_singleton]
                refine ih fun hw => h ?_
                rw [eq_of_beq hd]
                exact List.cons_prefix_cons.2 ⟨rfl, hw⟩
            · rfl
  rw [first, hnil]
  rfl

/-! ### Replacement -/

theorem replaceFrom_eq (r : Rgx) (fmt : List Char) (n : ℕ) (s : List Char) :
    replaceFrom r fmt n s = replaceAll r fmt (s.drop n) := by
  induction n generalizing s with
  | zero => rfl
  | succ n ih =>
      cases s with
      | nil => rfl
      | cons c s => exact ih s

@[simp] theorem replaceAll_nil : replaceAll r fmt [] = [] := rfl

theorem replaceAll_of_none (h : first r (c :: s) = none) :
    replaceAll r fmt (c :: s) = c :: replaceAll r fmt s := by
  rw [replaceAll, replaceFrom, h]
  rfl

theorem drop_of_suffix (h : t <:+ c :: s) (hne : t ≠ c :: s) : s.drop (s.length - t.length) = t :=
  (List.suffix_iff_eq_drop.1 ((List.suffix_cons_iff.1 h).resolve_left hne)).symm

/-- A match is replaced, and what it leaves is looked at next. -/
theorem replaceAll_of_some (h : first r s = some t) (hne : t ≠ s) :
    replaceAll r fmt s = fmt ++ replaceAll r fmt t := by
  cases s with
  | nil => exact absurd (List.suffix_nil.1 (suffix_of_first h)) hne
  | cons c s =>
      rw [replaceAll, replaceFrom, h]
      dsimp only
      rw [replaceFrom_eq, drop_of_suffix (suffix_of_first h) hne]

/-- No match begins in `x` when `y` follows it. -/
def Passes (r : Rgx) (x y : List Char) : Prop := ∀ z, z ≠ [] → z <:+ x → first r (z ++ y) = none

theorem passes_nil (r : Rgx) (y : List Char) : Passes r [] y :=
  fun _ hz h => absurd (List.suffix_nil.1 h) hz

theorem passes_cons (h : first r (c :: x ++ y) = none) (hx : Passes r x y) : Passes r (c :: x) y := by
  intro z hz hs
  rcases List.suffix_cons_iff.1 hs with rfl | hs
  · exact h
  · exact hx z hz hs

/-- **Text in which no match begins is kept.** -/
theorem replaceAll_append (h : Passes r x y) :
    replaceAll r fmt (x ++ y) = x ++ replaceAll r fmt y := by
  induction x with
  | nil => rfl
  | cons c x ih =>
      have hnone : first r (c :: (x ++ y)) = none := h (c :: x) (by simp) (List.suffix_refl _)
      rw [List.cons_append, replaceAll_of_none hnone,
        ih fun z hz hs => h z hz (hs.trans (List.suffix_cons ..))]
      rfl

/-- A text in which no match begins is kept. -/
theorem replaceAll_of_passes (h : Passes r x []) : replaceAll r fmt x = x := by
  have happ : replaceAll r fmt (x ++ []) = x ++ replaceAll r fmt [] := replaceAll_append h
  rwa [List.append_nil, replaceAll_nil, List.append_nil] at happ

theorem replaceAll_lit_append (hw : w ≠ []) (t : List Char) :
    replaceAll (lit w) fmt (w ++ t) = fmt ++ replaceAll (lit w) fmt t :=
  replaceAll_of_some (first_lit_append w t) fun h => hw (List.append_left_eq_self.1 h.symm)

/-- **The replacement of one character.** -/
theorem replaceAll_char (c : Char) (fmt s : List Char) :
    replaceAll (lit [c]) fmt s = s.flatMap fun d => if d = c then fmt else [d] := by
  induction s with
  | nil => rfl
  | cons d s ih =>
      rw [List.flatMap_cons, ← ih]
      by_cases hd : d = c
      · subst hd
        rw [if_pos rfl]
        exact replaceAll_lit_append (by simp) s
      · rw [if_neg hd]
        refine replaceAll_of_none (first_lit_eq_none fun h => hd ?_)
        exact (List.cons_prefix_cons.1 h).1.symm

/-! ### Encoded text -/

/-- No occurrence of `w` begins in `x` when `y` follows it. -/
def Free (w x y : List Char) : Prop := ∀ z, z ≠ [] → z <:+ x → ¬ w <+: z ++ y

theorem passes_lit (h : Free w x y) : Passes (lit w) x y :=
  fun z hz hs => first_lit_eq_none (h z hz hs)

theorem free_cons (h : ¬ w <+: c :: x ++ y) (hx : Free w x y) : Free w (c :: x) y := by
  intro z hz hs
  rcases List.suffix_cons_iff.1 hs with rfl | hs
  · exact h
  · exact hx z hz hs

theorem free_nil (w y : List Char) : Free w [] y := fun _ hz h => absurd (List.suffix_nil.1 h) hz

theorem free_cons_iff : Free w (c :: x) y ↔ ¬ w <+: c :: (x ++ y) ∧ Free w x y := by
  refine ⟨fun h => ⟨h (c :: x) (by simp) (List.suffix_refl _), fun z hz hs => ?_⟩, fun h => free_cons h.1 h.2⟩
  exact h z hz (hs.trans (List.suffix_cons ..))

/-- A word does not begin where its first character is not. -/
theorem free_of_not_mem {d : Char} (h : d ∉ x) : Free (d :: w) x y := by
  induction x with
  | nil => exact free_nil _ y
  | cons c x ih =>
      refine free_cons (fun hp => h ?_) (ih fun hd => h (List.mem_cons_of_mem _ hd))
      exact (List.cons_prefix_cons.1 hp).1 ▸ List.mem_cons_self

/-- A word that is not in a text does not begin anywhere in it. -/
theorem free_of_absent (h : ¬ w <:+: x) : Free w x [] := by
  intro z _ hz hw
  rw [List.append_nil] at hw
  exact h (hw.isInfix.trans hz.isInfix)

/-- A text in which the word does not occur is kept. -/
theorem replaceAll_of_absent (h : ¬ w <:+: s) : replaceAll (lit w) fmt s = s :=
  replaceAll_of_passes (passes_lit (free_of_absent h))

/-- What replaces a word is in the text if the word was. -/
theorem infix_replaceAll (hw : w ≠ []) (h : w <:+: s) : fmt <:+: replaceAll (lit w) fmt s := by
  induction s with
  | nil => exact absurd (List.infix_nil.1 h) hw
  | cons c s ih =>
      by_cases hp : w <+: c :: s
      · obtain ⟨t, ht⟩ := hp
        rw [← ht, replaceAll_lit_append hw]
        exact (List.prefix_append _ _).isInfix
      · have hs : w <:+: s := (List.infix_cons_iff.1 h).resolve_left hp
        rw [replaceAll_of_none (first_lit_eq_none hp)]
        exact (ih hs).trans (List.suffix_cons c _).isInfix

/-- A character that replaces a word is in the text if the word was. -/
theorem mem_replaceAll_of_occurs {d : Char} (hw : w ≠ []) (h : w <:+: s) : d ∈ replaceAll (lit w) [d] s :=
  (infix_replaceAll hw h).subset (List.mem_singleton_self d)

/-- Induction along the occurrences of a word that a replacement finds. -/
theorem word_induction {P : List Char → Prop} (hw : w ≠ []) (nil : P []) (word : ∀ t, P t → P (w ++ t))
    (char : ∀ c s, ¬ w <+: c :: s → P s → P (c :: s)) (s : List Char) : P s := by
  induction hn : s.length using Nat.strongRecOn generalizing s with
  | ind n ih =>
      cases s with
      | nil => exact nil
      | cons c s =>
          by_cases hp : w <+: c :: s
          · obtain ⟨t, ht⟩ := hp
            have hlt : t.length < n := by
              have := List.length_pos_iff.2 hw
              rw [← hn, ← ht, List.length_append]
              omega
            exact ht ▸ word t (ih _ hlt t rfl)
          · exact char c s hp (ih s.length (by simp [← hn]) s rfl)

/-- A character is kept that does not belong to the word, or is in what replaces it. -/
theorem mem_replaceAll {d : Char} (hw : w ≠ []) (hd : d ∈ w → d ∈ fmt) (h : d ∈ s) :
    d ∈ replaceAll (lit w) fmt s := by
  induction s using word_induction hw with
  | nil => exact h
  | word t ih =>
      rw [replaceAll_lit_append hw]
      rcases List.mem_append.1 h with h | h
      · exact List.mem_append_left _ (hd h)
      · exact List.mem_append_right _ (ih h)
  | char c s hp ih =>
      rw [replaceAll_of_none (first_lit_eq_none hp)]
      rcases List.mem_cons.1 h with rfl | h
      · exact List.mem_cons_self
      · exact List.mem_cons_of_mem _ (ih h)

/-- What a replacement does not write was there before. -/
theorem mem_of_mem_replaceAll {d : Char} (hw : w ≠ []) (hd : d ∉ fmt) (h : d ∈ replaceAll (lit w) fmt s) :
    d ∈ s := by
  induction s using word_induction hw with
  | nil => exact h
  | word t ih =>
      rw [replaceAll_lit_append hw] at h
      exact List.mem_append_right _ (ih ((List.mem_append.1 h).resolve_left hd))
  | char c s hp ih =>
      rw [replaceAll_of_none (first_lit_eq_none hp)] at h
      rcases List.mem_cons.1 h with rfl | h
      · exact List.mem_cons_self
      · exact List.mem_cons_of_mem _ (ih h)

/-- A word does not begin an encoded text if no code word begins as it does. -/
theorem not_prefix_flatMap {f : Char → List Char} {d : Char}
    (hf : ∀ c, ∃ e s, f c = e :: s ∧ e ≠ d) {u : List Char}
    (hy : u = [] → y.head? ≠ some d) : ¬ d :: w <+: u.flatMap f ++ y := by
  intro h
  cases u with
  | nil =>
      obtain ⟨z, rfl⟩ := h
      exact hy rfl rfl
  | cons c u =>
      obtain ⟨e, s, hc, hne⟩ := hf c
      rw [List.flatMap_cons, hc] at h
      exact hne (List.cons_prefix_cons.1 h).1.symm

section code

variable {α : Type*} {f g : α → List Char} {d : α} {v : List α}

/-- **The replacement of one code word in an encoded text**: the code word of `d` is replaced, and no other
occurrence of it is met. -/
theorem replaceAll_flatMap (hw : f d ≠ []) (hfg : ∀ c, c ≠ d → g c = f c)
    (hv : ∀ c u, c :: u <:+ v → c ≠ d → Free (f d) (f c) (u.flatMap f ++ y)) :
    replaceAll (lit (f d)) (g d) (v.flatMap f ++ y) =
      v.flatMap g ++ replaceAll (lit (f d)) (g d) y := by
  induction v with
  | nil => rfl
  | cons c v ih =>
      have ih := ih fun e u hu => hv e u (hu.trans (List.suffix_cons ..))
      rw [List.flatMap_cons, List.flatMap_cons, List.append_assoc, List.append_assoc]
      by_cases hc : c = d
      · subst hc
        rw [replaceAll_lit_append hw, ih]
      · rw [replaceAll_append (passes_lit (hv c v (List.suffix_refl _) hc)), ih, hfg c hc]

/-- The code word of `d` begins nowhere in the code words of the other letters. -/
def NoStray (f : α → List Char) (d : α) (v : List α) : Prop :=
  ∀ c u, c :: u <:+ v → c ≠ d → Free (f d) (f c) (u.flatMap f)

theorem replaceAll_of_noStray (hw : f d ≠ []) (hfg : ∀ c, c ≠ d → g c = f c) (h : NoStray f d v) :
    replaceAll (lit (f d)) (g d) (v.flatMap f) = v.flatMap g := by
  have hv := replaceAll_flatMap (v := v) (y := []) hw hfg fun c u hu hc => by
    rw [List.append_nil]
    exact h c u hu hc
  rwa [List.append_nil, replaceAll_nil, List.append_nil] at hv

/-- Letters that are written for others. -/
theorem noStray_map {β : Type*} {g : β → α} {e : β} (hg : ∀ b, g b = d ↔ b = e) {w : List β} :
    NoStray f d (w.map g) ↔ NoStray (fun b => f (g b)) e w := by
  have hd : g e = d := (hg e).2 rfl
  constructor
  · intro h b u hu hb
    have hfree := h (g b) (u.map g) (by simpa using hu.map g) fun heq => hb ((hg b).1 heq)
    rwa [List.flatMap_map, ← hd] at hfree
  · intro h c u hu hc
    obtain ⟨t, ht⟩ := hu
    obtain ⟨x, y, rfl, -, hy⟩ := List.map_eq_append_iff.1 ht.symm
    obtain ⟨b, z, rfl, rfl, rfl⟩ := List.map_eq_cons_iff.1 hy
    have hfree := h b z (List.suffix_append ..) fun heq => hc ((hg b).2 heq)
    rw [List.flatMap_map, ← hd]
    exact hfree

/-- The first occurrence that begins in a text. -/
theorem exists_of_not_free (h : ¬ Free w x y) :
    ∃ p q t, x = p ++ q ∧ q ≠ [] ∧ q ++ y = w ++ t ∧ Passes (lit w) p (q ++ y) := by
  induction x with
  | nil => exact absurd (free_nil w y) h
  | cons c x ih =>
      by_cases hp : w <+: c :: x ++ y
      · obtain ⟨t, ht⟩ := hp
        exact ⟨[], c :: x, t, rfl, by simp, ht.symm, passes_nil _ _⟩
      · obtain ⟨p, q, t, rfl, hq, ht, hpass⟩ := ih fun hx => h (free_cons hp hx)
        refine ⟨c :: p, q, t, rfl, hq, ht, passes_cons ?_ hpass⟩
        rw [List.cons_append, List.append_assoc] at hp
        exact first_lit_eq_none hp

/-- **The first stray occurrence of a code word**: up to there the text is replaced as it should be, and then
the replacement stands in the place of another letter. -/
theorem exists_of_stray (hw : f d ≠ []) (hfg : ∀ c, c ≠ d → g c = f c) (h : ¬ NoStray f d v) :
    ∃ pre c post p q rest, v = pre ++ c :: post ∧ c ≠ d ∧ f c = p ++ q ∧ q ≠ [] ∧
      f d <+: q ++ post.flatMap f ∧
      replaceAll (lit (f d)) (g d) (v.flatMap f) = pre.flatMap g ++ p ++ g d ++ rest := by
  induction v with
  | nil => exact absurd (fun c u hu => absurd (List.suffix_nil.1 hu) (by simp)) h
  | cons c v ih =>
      by_cases hfree : c ≠ d → Free (f d) (f c) (v.flatMap f)
      · -- the stray occurrence is further on
        have hv : ¬ NoStray f d v := by
          intro hv
          refine h fun e u hu => ?_
          rcases List.suffix_cons_iff.1 hu with heq | hu
          · obtain ⟨rfl, rfl⟩ := List.cons.inj heq
            exact hfree
          · exact hv e u hu
        obtain ⟨pre, e, post, p, q, rest, rfl, hne, hpq, hq, hpre, heq⟩ := ih hv
        refine ⟨c :: pre, e, post, p, q, rest, rfl, hne, hpq, hq, hpre, ?_⟩
        have hstep : replaceAll (lit (f d)) (g d) ((c :: (pre ++ e :: post)).flatMap f) =
            g c ++ replaceAll (lit (f d)) (g d) ((pre ++ e :: post).flatMap f) := by
          rw [List.flatMap_cons]
          by_cases hc : c = d
          · subst hc
            exact replaceAll_lit_append hw _
          · rw [replaceAll_append (passes_lit (hfree hc)), hfg c hc]
        rw [hstep, heq, List.flatMap_cons]
        simp
      · obtain ⟨hne, hfree⟩ := Classical.not_imp.1 hfree
        obtain ⟨p, q, t, hpq, hq, ht, hpass⟩ := exists_of_not_free hfree
        refine ⟨[], c, v, p, q, replaceAll (lit (f d)) (g d) t, rfl, hne, hpq, hq, ⟨t, ht.symm⟩, ?_⟩
        rw [List.flatMap_cons, hpq, List.append_assoc, replaceAll_append hpass, ht,
          replaceAll_lit_append hw]
        simp

/-- **Stray occurrences seen from the text**: where what makes one begin is known letter by letter. -/
theorem noStray_iff_infix {T : List (List α)} (hT : ∀ w ∈ T, w ≠ [] ∧ w.head? ≠ some d)
    (h : ∀ c u, c ≠ d → (Free (f d) (f c) (u.flatMap f) ↔ ∀ w ∈ T, ¬ w <+: c :: u)) :
    NoStray f d v ↔ ∀ w ∈ T, ¬ w <:+: v := by
  constructor
  · intro hv w hw hinfix
    obtain ⟨t, hpre, hsuf⟩ := List.infix_iff_prefix_suffix.1 hinfix
    obtain ⟨hne, hhead⟩ := hT w hw
    obtain ⟨c, u, rfl⟩ := List.exists_cons_of_ne_nil hne
    have hc : c ≠ d := by simpa using hhead
    obtain ⟨z, rfl⟩ := hpre
    exact (h c (u ++ z) hc).1 (hv c (u ++ z) hsuf hc) (c :: u) hw (List.prefix_append ..)
  · intro hv c u hu hc
    refine (h c u hc).2 fun w hw hpre => hv w hw ?_
    exact hpre.isInfix.trans hu.isInfix

end code

/-- A character that the word does not contain is a border for its occurrences. -/
theorem prefix_border {d : Char} (hd : d ∉ w) {x y : List Char} : w <+: x ++ d :: y ↔ w <+: x := by
  refine ⟨fun h => ?_, fun h => h.trans (List.prefix_append _ _)⟩
  rcases Nat.le_total w.length x.length with hle | hle
  · exact List.prefix_of_prefix_length_le h (List.prefix_append _ _) hle
  · rcases Nat.eq_or_lt_of_le hle with heq | hlt
    · exact List.prefix_of_prefix_length_le h (List.prefix_append _ _) heq.ge
    · have hx : x ++ [d] <+: x ++ d :: y := List.prefix_append_right_inj x |>.2 ⟨y, rfl⟩
      have hxw : x ++ [d] <+: w := List.prefix_of_prefix_length_le hx h (by rw [List.length_append]; exact hlt)
      exact absurd (hxw.subset (by simp)) hd

theorem replaceAll_border {d : Char} (hw : w ≠ []) (hd : d ∉ w) (x y : List Char) :
    replaceAll (lit w) fmt (x ++ d :: y) = replaceAll (lit w) fmt x ++ d :: replaceAll (lit w) fmt y := by
  induction x using word_induction hw with
  | nil =>
      have hnot : ¬ w <+: d :: y := fun h => hw (List.prefix_nil.1 ((prefix_border (x := []) hd).1 h))
      exact replaceAll_of_none (first_lit_eq_none hnot)
  | word t ih =>
      rw [List.append_assoc, replaceAll_lit_append hw, replaceAll_lit_append hw, ih, List.append_assoc]
  | char c s hp ih =>
      have hnot : ¬ w <+: c :: (s ++ d :: y) := fun h => hp ((prefix_border (x := c :: s) hd).1 h)
      rw [List.cons_append, replaceAll_of_none (first_lit_eq_none hnot),
        replaceAll_of_none (first_lit_eq_none hp), ih, List.cons_append]

/-- A replacement that keeps the weight of the word keeps that of the text. -/
theorem sum_replaceAll {weight : Char → ℕ} (hw : w ≠ []) (h : (w.map weight).sum = (fmt.map weight).sum)
    (s : List Char) : ((replaceAll (lit w) fmt s).map weight).sum = (s.map weight).sum := by
  induction s using word_induction hw with
  | nil => rfl
  | word t ih =>
      rw [replaceAll_lit_append hw, List.map_append, List.map_append, List.sum_append, List.sum_append, h, ih]
  | char c s hp ih =>
      rw [replaceAll_of_none (first_lit_eq_none hp), List.map_cons, List.map_cons, List.sum_cons,
        List.sum_cons, ih]

/-! ### Pieces -/

theorem piecesFrom_eq (r : Rgx) (n : ℕ) (s : List Char) :
    piecesFrom r n s = pieces r (s.drop n) := by
  induction n generalizing s with
  | zero => rfl
  | succ n ih =>
      cases s with
      | nil => rfl
      | cons c s => exact ih s

theorem pieces_ne_nil (r : Rgx) (s : List Char) : pieces r s ≠ [] := by
  cases s with
  | nil => simp [pieces, piecesFrom]
  | cons c s =>
      rw [pieces, piecesFrom]
      split
      · simp
      · split <;> simp

theorem pieces_of_some (h : first r s = some t) (hne : t ≠ s) :
    pieces r s = [] :: pieces r t := by
  cases s with
  | nil => exact absurd (List.suffix_nil.1 (suffix_of_first h)) hne
  | cons c s =>
      rw [pieces, piecesFrom, h]
      dsimp only
      rw [piecesFrom_eq, drop_of_suffix (suffix_of_first h) hne]

/-- **Text in which no match begins is passed over**, up to a match. -/
theorem pieces_append (h : Passes r x y) (hy : first r y = some t) (hne : t ≠ y) :
    pieces r (x ++ y) = x :: pieces r t := by
  induction x with
  | nil => exact pieces_of_some hy hne
  | cons c x ih =>
      have ih := ih fun z hz hs => h z hz (hs.trans (List.suffix_cons ..))
      have hnone : first r (c :: (x ++ y)) = none := h (c :: x) (by simp) (List.suffix_refl _)
      have hp : piecesFrom r 0 (x ++ y) = x :: pieces r t := ih
      rw [List.cons_append, pieces, piecesFrom, hnone]
      dsimp only
      rw [hp]

/-- Text in which no match begins is one piece. -/
theorem pieces_of_passes (h : Passes r x []) : pieces r x = [x] := by
  induction x with
  | nil => rfl
  | cons c x ih =>
      have ih := ih fun z hz hs => h z hz (hs.trans (List.suffix_cons ..))
      have hnone : first r (c :: x) = none := by
        have h := h (c :: x) (by simp) (List.suffix_refl _)
        rwa [List.append_nil] at h
      have hp : piecesFrom r 0 x = [x] := ih
      rw [pieces, piecesFrom, hnone]
      dsimp only
      rw [hp]

theorem tokens_of_getLast? (h : (pieces r s).getLast? ≠ some []) : tokens r s = pieces r s := by
  rw [tokens]
  split
  · next hp => exact hp.symm
  · rw [if_neg h]

theorem tokens_eq_pieces (h : ∀ p ∈ pieces r s, p ≠ []) : tokens r s = pieces r s :=
  tokens_of_getLast? fun hl => h [] (List.mem_of_getLast? hl) rfl

end Regex

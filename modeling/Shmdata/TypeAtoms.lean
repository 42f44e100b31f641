/-
**What `Type::unescape` makes of an escaped text.**

A value is a sequence of atoms: a comma, an equal sign or a parenthesis that is preceded by a backslash, a
double quote, or any other character.  `Type::escape` writes the first two of these as markers, and the five
replacements of `Type::unescape` turn the markers and the remaining escapes into the characters they stand
for, one kind after the other, with the double quotes removed in between.

This gives each atom its meaning unless one of the replacements finds something that is not an atom: a marker
that begins in another atom, or a backslash and a parenthesis that came together when double quotes were
removed.  Conversely each such find changes the text.  For the markers this is seen from a weight: a
replacement keeps the weight of the text, so that two equal texts which begin with parts of the same weight
go on with the same character.

Main definitions:

* `Shmdata.TypeDesc.Atom`, `Shmdata.TypeDesc.atoms` — the atoms of a text;
* `Shmdata.TypeDesc.meaning` — the text that they mean;
* `Shmdata.TypeDesc.Faithful` — no replacement finds anything else.

Main results:

* `Shmdata.TypeDesc.escape_eq` — `Type::escape` writes markers for atoms;
* `Shmdata.TypeDesc.unescape_marked_iff` — **the atoms get their meaning exactly if the text is faithful**.
-/

import Shmdata.TypeRoundTrip

set_option relaxedAutoImplicit false
set_option autoImplicit false

namespace Shmdata

open Regex

namespace TypeDesc

/-! ### Atoms -/

/-- An escaped comma, equal sign or parenthesis, a double quote, or another character. -/
inductive Atom
  | coma
  | equal
  | lparent
  | rparent
  | quote
  | plain (c : Char)
  deriving DecidableEq

/-- What a backslash and the character behind it are. -/
def escapedAtom : Char → Option Atom
  | ',' => some .coma
  | '=' => some .equal
  | '(' => some .lparent
  | ')' => some .rparent
  | _ => none

/-- A character by itself. -/
def singleAtom (c : Char) : Atom := if c = '"' then .quote else .plain c

/-- The atoms of a text. -/
def atoms : List Char → List Atom
  | [] => []
  | [c] => [singleAtom c]
  | c :: d :: s =>
      match if c = '\\' then escapedAtom d else none with
      | some a => a :: atoms s
      | none => singleAtom c :: atoms (d :: s)

/-- A text for each atom. -/
def decode (coma equal lparent rparent quote : List Char) : Atom → List Char
  | .coma => coma
  | .equal => equal
  | .lparent => lparent
  | .rparent => rparent
  | .quote => quote
  | .plain c => [c]

/-- What `Type::escape` writes. -/
abbrev markedAtom : Atom → List Char := decode comaMark equalMark ['\\', '('] ['\\', ')'] ['"']

/-- What is left when the markers of commas are replaced. -/
abbrev comaAtom : Atom → List Char := decode [','] equalMark ['\\', '('] ['\\', ')'] ['"']

/-- What is left when the double quotes are removed. -/
abbrev quoteAtom : Atom → List Char := decode [','] equalMark ['\\', '('] ['\\', ')'] []

/-- What is left when the markers of equal signs are replaced. -/
abbrev equalAtom : Atom → List Char := decode [','] ['='] ['\\', '('] ['\\', ')'] []

/-- What an atom means. -/
abbrev meantAtom : Atom → List Char := decode [','] ['='] ['('] [')'] []

/-- The text with `\,`, `\=`, `\(` and `\)` un-escaped and without double quotes. -/
def meaning (s : List Char) : List Char := (atoms s).flatMap meantAtom

variable {l : List Atom} {s t v : List Char} {c d : Char}

theorem atoms_cons (h : c = '\\' → ∀ d u, s = d :: u → escapedAtom d = none) :
    atoms (c :: s) = singleAtom c :: atoms s := by
  cases s with
  | nil => rfl
  | cons d u =>
      rw [atoms]
      by_cases hc : c = '\\'
      · rw [if_pos hc, h hc d u rfl]
      · rw [if_neg hc]

theorem atoms_escaped {a : Atom} (h : escapedAtom d = some a) (s : List Char) :
    atoms ('\\' :: d :: s) = a :: atoms s := by
  rw [atoms, if_pos rfl, h]

/-- Induction along the atoms of a text. -/
@[elab_as_elim] theorem atom_induction {P : List Char → Prop} (nil : P [])
    (escaped : ∀ d a s, escapedAtom d = some a → P s → P ('\\' :: d :: s))
    (single : ∀ c s, (c = '\\' → ∀ d u, s = d :: u → escapedAtom d = none) → P s → P (c :: s))
    (s : List Char) : P s := by
  induction s using atoms.induct with
  | case1 => exact nil
  | case2 c => exact single c [] (fun _ d u h => by cases h) nil
  | case3 c d s a h ih =>
      by_cases hc : c = '\\'
      · subst hc
        rw [if_pos rfl] at h
        exact escaped d a s h ih
      · rw [if_neg hc] at h
        cases h
  | case4 c d s h ih =>
      refine single c (d :: s) (fun hc e u heq => ?_) ih
      obtain ⟨rfl, rfl⟩ := List.cons.inj heq
      rwa [if_pos hc] at h

/-- A double quote is an atom of its own. -/
theorem quote_not_plain (s : List Char) : Atom.plain '"' ∉ atoms s := by
  induction s using atom_induction with
  | nil => exact List.not_mem_nil
  | escaped d a s h ih =>
      rw [atoms_escaped h, List.mem_cons, not_or]
      refine ⟨?_, ih⟩
      rintro rfl
      unfold escapedAtom at h
      split at h <;> simp at h
  | single c s h ih =>
      rw [atoms_cons h, List.mem_cons, not_or]
      refine ⟨?_, ih⟩
      unfold singleAtom
      split
      · simp
      · next hc => simpa using fun heq : '"' = c => hc heq.symm

/-- The atoms of two texts, when no backslash stands at the end of the first one. -/
theorem atoms_append (h : s.getLast? ≠ some '\\') (t : List Char) : atoms (s ++ t) = atoms s ++ atoms t := by
  induction s using atom_induction with
  | nil => rfl
  | escaped d a s hd ih =>
      rw [List.cons_append, List.cons_append, atoms_escaped hd, atoms_escaped hd, List.cons_append, ih]
      intro hs
      refine h ?_
      cases s with
      | nil => cases hs
      | cons e u => simpa using hs
  | single c s hc ih =>
      cases s with
      | nil =>
          have hne : c ≠ '\\' := fun hc => h (by rw [hc]; rfl)
          rw [List.singleton_append, atoms_cons fun hc => absurd hc hne]
          rfl
      | cons e u =>
          rw [List.cons_append, atoms_cons, ih (by simpa using h), atoms_cons hc]
          · rfl
          · intro hb d w heq
            exact hc hb e u rfl ▸ (List.cons.inj heq).1 ▸ rfl

/-! ### What `Type::escape` writes -/

theorem escape_equal (y : List Char) : escape ('\\' :: '=' :: y) = equalMark ++ escape y := by
  have hc : replaceAll (lit ['\\', ',']) comaMark (['\\', '='] ++ y) = ['\\', '='] ++ _ :=
    replaceAll_append (passes_lit (free_cons (by simp) (free_cons (by simp) (free_nil _ y))))
  unfold escape
  exact (congrArg _ hc).trans (replaceAll_lit_append (by simp) _)

/-- A backslash that escapes neither a comma nor an equal sign. -/
theorem escape_backslash (h : s.head? ≠ some ',') (h' : s.head? ≠ some '=') :
    escape ('\\' :: s) = '\\' :: escape s := by
  have hcoma : first (lit ['\\', ',']) ('\\' :: s) = none := by
    refine first_lit_eq_none fun hp => h ?_
    obtain ⟨t, rfl⟩ := (List.cons_prefix_cons.1 hp).2
    rfl
  unfold escape
  rw [replaceAll_of_none hcoma]
  refine replaceAll_of_none (first_lit_eq_none fun hp => ?_)
  obtain ⟨t, ht⟩ := (List.cons_prefix_cons.1 hp).2
  cases s with
  | nil => cases ht
  | cons c s =>
      by_cases hp : ['\\', ','] <+: c :: s
      · obtain ⟨u, hu⟩ := hp
        rw [← hu, replaceAll_lit_append (by simp)] at ht
        cases ht
      · rw [replaceAll_of_none (first_lit_eq_none hp)] at ht
        exact h' (congrArg some (List.cons.inj ht).1.symm)

/-- **`Type::escape` writes markers for atoms.** -/
theorem escape_eq (s : List Char) : escape s = (atoms s).flatMap markedAtom := by
  induction s using atom_induction with
  | nil => rfl
  | escaped d a s h ih =>
      rw [atoms_escaped h, List.flatMap_cons, ← ih]
      unfold escapedAtom at h
      split at h <;> cases h
      · exact escape_coma s
      · exact escape_equal s
      · rw [escape_backslash (by simp) (by simp), escape_cons (by decide)]
        rfl
      · rw [escape_backslash (by simp) (by simp), escape_cons (by decide)]
        rfl
  | single c s h ih =>
      have hmark : markedAtom (singleAtom c) = [c] := by
        unfold singleAtom
        split
        · next hc => rw [hc]; rfl
        · rfl
      rw [atoms_cons h, List.flatMap_cons, hmark, ← ih, List.singleton_append]
      by_cases hc : c = '\\'
      · subst hc
        have hhead (d : Char) (hd : escapedAtom d ≠ none) : s.head? ≠ some d := by
          intro heq
          obtain ⟨u, hu⟩ := List.head?_eq_some_iff.1 heq
          exact hd (h rfl d u hu)
        exact escape_backslash (hhead ',' (by decide)) (hhead '=' (by decide))
      · exact escape_cons hc s

/-! ### Weights -/

/-- A weight for which each marker is as heavy as its character, and an escape as its parenthesis. -/
def weight (c : Char) : ℕ :=
  if c = '\\' ∨ c = '"' then 0 else if c = ',' then 8 else if c = '=' then 9 else 1

/-- The weight of a text. -/
def heft (s : List Char) : ℕ := (s.map weight).sum

@[simp] theorem heft_nil : heft [] = 0 := rfl

@[simp] theorem heft_cons (c : Char) (s : List Char) : heft (c :: s) = weight c + heft s := by
  simp [heft]

@[simp] theorem heft_append (s t : List Char) : heft (s ++ t) = heft s + heft t := by
  simp [heft]

theorem heft_backslashes {b : List Char} (hb : ∀ c ∈ b, c = '\\') : heft b = 0 := by
  induction b with
  | nil => rfl
  | cons c b ih =>
      rw [heft_cons, ih fun d hd => hb d (List.mem_cons_of_mem _ hd), hb c List.mem_cons_self]
      rfl

theorem heft_flatMap {α : Type} {f g : α → List Char} (h : ∀ a, heft (f a) = heft (g a)) (l : List α) :
    heft (l.flatMap f) = heft (l.flatMap g) := by
  induction l with
  | nil => rfl
  | cons a l ih => rw [List.flatMap_cons, List.flatMap_cons, heft_append, heft_append, h a, ih]

/-- Two equal texts that begin with parts of nearly the same weight go on with the same character. -/
theorem eq_of_heft {a b : List Char} (h : a ++ c :: s = b ++ d :: t) (hle : heft b ≤ heft a)
    (hlt : heft a < heft b + weight d) (hc : 0 < weight c) : c = d := by
  rcases List.append_eq_append_iff.1 h with ⟨e, rfl, he⟩ | ⟨e, rfl, he⟩
  · cases e with
    | nil => exact (List.cons.inj he).1
    | cons x e =>
        obtain ⟨rfl, -⟩ := List.cons.inj he
        rw [heft_append, heft_cons] at hle
        omega
  · cases e with
    | nil => exact (List.cons.inj he).1.symm
    | cons x e =>
        obtain ⟨rfl, -⟩ := List.cons.inj he
        rw [heft_append, heft_cons] at hlt
        omega

/-! ### The replacements of `Type::unescape` -/

/-- The last two replacements. -/
def unparen (s : List Char) : List Char :=
  replaceAll (lit ['\\', ')']) [')'] (replaceAll (lit ['\\', '(']) ['('] s)

/-- All but the first two replacements. -/
def unequal (s : List Char) : List Char := unparen (replaceAll (lit equalMark) ['='] s)

theorem unescape_eq (s : List Char) :
    unescape s = unequal (replaceAll (lit ['"']) [] (replaceAll (lit comaMark) [','] s)) := rfl

theorem heft_unparen (s : List Char) : heft (unparen s) = heft s :=
  (sum_replaceAll (by simp) (by decide) _).trans (sum_replaceAll (by simp) (by decide) s)

theorem heft_unequal (s : List Char) : heft (unequal s) = heft s :=
  (heft_unparen _).trans (sum_replaceAll (by decide) (by decide) s)

theorem heft_unescape (s : List Char) : heft (unescape s) = heft s :=
  (heft_unequal _).trans ((sum_replaceAll (by simp) (by decide) _).trans
    (sum_replaceAll (by decide) (by decide) s))

theorem unparen_border (hl : c ≠ '(') (hr : c ≠ ')') (hb : c ≠ '\\') (s t : List Char) :
    unparen (s ++ c :: t) = unparen s ++ c :: unparen t := by
  unfold unparen
  rw [replaceAll_border (by simp) (by simp [hl, hb]), replaceAll_border (by simp) (by simp [hr, hb])]

theorem unequal_border (hl : c ≠ '(') (hr : c ≠ ')') (hb : c ≠ '\\') (he : c ∉ equalMark)
    (s t : List Char) : unequal (s ++ c :: t) = unequal s ++ c :: unequal t := by
  unfold unequal
  rw [replaceAll_border (by decide) he, unparen_border hl hr hb]

/-! ### Texts in which only atoms are found -/

/-- No backslash comes to stand in front of a parenthesis when the double quotes are removed. -/
def NoGap (l : List Atom) : Prop :=
  ∀ u, Atom.plain '\\' :: u <:+ l →
    (u.flatMap equalAtom).head? ≠ some '(' ∧ (u.flatMap equalAtom).head? ≠ some ')'

/-- The replacements of `Type::unescape` find the atoms and nothing else. -/
structure Faithful (l : List Atom) : Prop where
  coma : NoStray markedAtom .coma l
  equal : NoStray quoteAtom .equal l
  parent : NoGap l

/-- An atom that a marker begins in is a character or the marker of an equal sign. -/
theorem underscore_of_stray {f : Atom → List Char} {w p q y : List Char} {e : Atom} (hq : q ≠ [])
    (he : f e = p ++ q) (hw : w <+: q ++ y) (hw' : ∃ u, w = '_' :: u) : '_' ∈ f e := by
  obtain ⟨u, rfl⟩ := hw'
  obtain ⟨x, q, rfl⟩ := List.exists_cons_of_ne_nil hq
  rw [he, (List.cons_prefix_cons.1 hw).1]
  simp

/-- Each stage of the replacements has the weight of what is meant. -/
theorem heft_decode {coma equal lparent rparent quote : List Char}
    (h : heft coma = 8 ∧ heft equal = 9 ∧ heft lparent = 1 ∧ heft rparent = 1 ∧ heft quote = 0)
    (l : List Atom) :
    heft (l.flatMap (decode coma equal lparent rparent quote)) = heft (l.flatMap meantAtom) := by
  obtain ⟨hc, he, hl, hr, hq⟩ := h
  refine heft_flatMap (fun a => ?_) l
  cases a with
  | coma => exact hc
  | equal => exact he
  | lparent => exact hl
  | rparent => exact hr
  | quote => exact hq
  | plain c => rfl

/-- A part of the marker is lighter than the equal sign. -/
theorem heft_lt_of_equalMark {p q : List Char} (h : equalMark = p ++ q) (hq : q ≠ []) : heft p < weight '=' := by
  have hsum : heft p + heft q = 9 := by
    rw [← heft_append, ← h]
    decide
  obtain ⟨x, q, rfl⟩ := List.exists_cons_of_ne_nil hq
  have hall : (equalMark.all fun x => 0 < weight x) = true := by decide
  have hpos : 0 < weight x := by simpa using List.all_eq_true.1 hall x (by rw [h]; simp)
  rw [heft_cons] at hsum
  show heft p < 9
  omega

theorem eq_nil_of_singleton {p q : List Char} (h : [c] = p ++ q) (hq : q ≠ []) : p = [] := by
  have hlen := congrArg List.length h
  have := List.length_pos_iff.2 hq
  rw [List.length_append, List.length_singleton] at hlen
  exact List.length_eq_zero_iff.1 (by omega)

/-- **A stray marker of a comma changes the text.** -/
theorem noStray_coma {b : List Char} (hb : heft b = 0)
    (h : unescape (l.flatMap markedAtom) = b ++ l.flatMap meantAtom) : NoStray markedAtom .coma l := by
  by_contra hstray
  obtain ⟨pre, e, post, p, q, rest, rfl, hne, hpq, hq, hpre, heq⟩ := exists_of_stray (g := comaAtom)
    (by decide) (fun a ha => by cases a <;> simp_all [decode]) hstray
  have hunder : '_' ∈ markedAtom e := underscore_of_stray hq hpq hpre ⟨_, rfl⟩
  -- what is replaced up to the comma, and what should stand there
  have hfound : unescape ((pre ++ e :: post).flatMap markedAtom) =
      unequal (replaceAll (lit ['"']) [] (pre.flatMap comaAtom ++ p)) ++ ',' ::
        unequal (replaceAll (lit ['"']) [] rest) := by
    rw [unescape_eq, show [','] = comaAtom .coma from rfl, show comaMark = markedAtom .coma from rfl, heq,
      List.append_assoc]
    refine (congrArg unequal (replaceAll_border (by simp) (by decide) _ rest)).trans ?_
    exact unequal_border (by decide) (by decide) (by decide) (by decide) _ _
  have hmeant : b ++ (pre ++ e :: post).flatMap meantAtom =
      (b ++ pre.flatMap meantAtom) ++ (meantAtom e ++ post.flatMap meantAtom) := by
    simp
  have hheft : heft (unequal (replaceAll (lit ['"']) [] (pre.flatMap comaAtom ++ p))) =
      heft (b ++ pre.flatMap meantAtom) + heft p := by
    rw [heft_unequal, heft, sum_replaceAll (by simp) (by decide), ← heft, heft_append, heft_append, hb,
      Nat.zero_add, heft_decode (by decide)]
  rw [hfound, hmeant] at h
  cases e with
  | coma => exact hne rfl
  | equal =>
      have hp := heft_lt_of_equalMark hpq hq
      exact absurd (eq_of_heft h (by omega) (by omega) (by decide)) (by decide)
  | lparent | rparent | quote => simp [decode] at hunder
  | plain c =>
      obtain rfl : '_' = c := by simpa [decode] using hunder
      obtain rfl : p = [] := eq_nil_of_singleton hpq hq
      rw [heft_nil, Nat.add_zero] at hheft
      exact absurd (eq_of_heft h hheft.ge (hheft ▸ Nat.lt_succ_self _) (by decide)) (by decide)

theorem replaceAll_coma (h : NoStray markedAtom .coma l) :
    replaceAll (lit comaMark) [','] (l.flatMap markedAtom) = l.flatMap comaAtom :=
  replaceAll_of_noStray (f := markedAtom) (g := comaAtom) (d := .coma) (by decide)
    (fun a ha => by cases a <;> simp_all [decode]) h

theorem replaceAll_quote (hq : Atom.plain '"' ∉ l) :
    replaceAll (lit ['"']) [] (l.flatMap comaAtom) = l.flatMap quoteAtom := by
  rw [replaceAll_char, List.flatMap_assoc]
  refine List.flatMap_congr fun a ha => ?_
  cases a with
  | plain c =>
      have hc : c ≠ '"' := fun hc => hq (hc ▸ ha)
      simp [decode, hc]
  | _ => decide

theorem replaceAll_equal (h : NoStray quoteAtom .equal l) :
    replaceAll (lit equalMark) ['='] (l.flatMap quoteAtom) = l.flatMap equalAtom :=
  replaceAll_of_noStray (f := quoteAtom) (g := equalAtom) (d := .equal) (by decide)
    (fun a ha => by cases a <;> simp_all [decode]) h

/-- **A stray marker of an equal sign changes the text.** -/
theorem noStray_equal {b : List Char} (hb : heft b = 0)
    (h : unequal (l.flatMap quoteAtom) = b ++ l.flatMap meantAtom) : NoStray quoteAtom .equal l := by
  by_contra hstray
  obtain ⟨pre, e, post, p, q, rest, rfl, hne, hpq, hq, hpre, heq⟩ := exists_of_stray (g := equalAtom)
    (by decide) (fun a ha => by cases a <;> simp_all [decode]) hstray
  have hunder : '_' ∈ quoteAtom e := underscore_of_stray hq hpq hpre ⟨_, rfl⟩
  have hfound : unequal ((pre ++ e :: post).flatMap quoteAtom) =
      unparen (pre.flatMap equalAtom ++ p) ++ '=' :: unparen rest := by
    rw [unequal, show ['='] = equalAtom .equal from rfl, show equalMark = quoteAtom .equal from rfl, heq,
      List.append_assoc]
    exact unparen_border (by decide) (by decide) (by decide) _ _
  have hmeant : b ++ (pre ++ e :: post).flatMap meantAtom =
      (b ++ pre.flatMap meantAtom) ++ (meantAtom e ++ post.flatMap meantAtom) := by
    simp
  have hheft : heft (unparen (pre.flatMap equalAtom ++ p)) =
      heft (b ++ pre.flatMap meantAtom) + heft p := by
    rw [heft_unparen, heft_append, heft_append, hb, Nat.zero_add, heft_decode (by decide)]
  rw [hfound, hmeant] at h
  cases e with
  | equal => exact hne rfl
  | coma | lparent | rparent | quote => simp [decode] at hunder
  | plain c =>
      obtain rfl : '_' = c := by simpa [decode] using hunder
      obtain rfl : p = [] := eq_nil_of_singleton hpq hq
      rw [heft_nil, Nat.add_zero] at hheft
      exact absurd (eq_of_heft h hheft.ge (hheft ▸ Nat.lt_succ_self _) (by decide)) (by decide)

/-! ### Backslashes in front of parentheses -/

theorem unparen_lparent (s : List Char) : unparen ('\\' :: '(' :: s) = '(' :: unparen s := by
  have hin : replaceAll (lit ['\\', '(']) ['('] ('\\' :: '(' :: s) = '(' :: _ :=
    replaceAll_lit_append (w := ['\\', '(']) (by simp) s
  rw [unparen, hin]
  exact replaceAll_of_none (first_lit_eq_none fun h => absurd (List.cons_prefix_cons.1 h).1 (by decide))

theorem unparen_rparent (s : List Char) : unparen ('\\' :: ')' :: s) = ')' :: unparen s := by
  have hin : replaceAll (lit ['\\', '(']) ['('] (['\\', ')'] ++ s) = ['\\', ')'] ++ _ :=
    replaceAll_append (passes_lit (free_cons (by simp) (free_cons (by simp) (free_nil _ s))))
  exact (congrArg _ hin).trans (replaceAll_lit_append (w := ['\\', ')']) (by simp) _)

theorem unparen_cons (hc : c ≠ '\\') (s : List Char) : unparen (c :: s) = c :: unparen s := by
  have hne (x : Char) (t : List Char) : ¬ ['\\', x] <+: c :: t := fun h =>
    hc (List.cons_prefix_cons.1 h).1.symm
  rw [unparen, replaceAll_of_none (first_lit_eq_none (hne '(' s)),
    replaceAll_of_none (first_lit_eq_none (hne ')' _))]
  rfl

theorem unparen_backslash (hl : s.head? ≠ some '(') (hr : s.head? ≠ some ')') :
    unparen ('\\' :: s) = '\\' :: unparen s := by
  have hin : ¬ ['\\', '('] <+: '\\' :: s := fun h => hl (by
    obtain ⟨t, rfl⟩ := (List.cons_prefix_cons.1 h).2
    rfl)
  rw [unparen, replaceAll_of_none (first_lit_eq_none hin)]
  refine replaceAll_of_none (first_lit_eq_none fun h => ?_)
  obtain ⟨t, ht⟩ := (List.cons_prefix_cons.1 h).2
  cases s with
  | nil => cases ht
  | cons c s =>
      by_cases hp : ['\\', '('] <+: c :: s
      · obtain ⟨u, hu⟩ := hp
        rw [← hu, replaceAll_lit_append (by simp)] at ht
        cases ht
      · rw [replaceAll_of_none (first_lit_eq_none hp)] at ht
        exact hr (congrArg some (List.cons.inj ht).1.symm)

/-- Only backslashes can be lost, and none is when there is no gap. -/
theorem count_unparen (l : List Atom) :
    (unparen (l.flatMap equalAtom)).count '\\' ≤ (l.flatMap meantAtom).count '\\' ∧
      ((l.flatMap meantAtom).count '\\' ≤ (unparen (l.flatMap equalAtom)).count '\\' → NoGap l) ∧
      (NoGap l → unparen (l.flatMap equalAtom) = l.flatMap meantAtom) := by
  induction l with
  | nil => exact ⟨le_rfl, fun _ u hu => absurd (List.suffix_nil.1 hu) (by simp), fun _ => rfl⟩
  | cons a l ih =>
      obtain ⟨hle, hgap, heq⟩ := ih
      have hsuffix (h : NoGap (a :: l)) : NoGap l := fun u hu => h u (hu.trans (List.suffix_cons ..))
      -- an atom that becomes `x`, which is not a plain backslash, or nothing
      have hstep (hstep : unparen ((a :: l).flatMap equalAtom) = meantAtom a ++ unparen (l.flatMap equalAtom))
          (hno : a = .plain '\\' → (l.flatMap equalAtom).head? ≠ some '(' ∧
            (l.flatMap equalAtom).head? ≠ some ')') :
          (unparen ((a :: l).flatMap equalAtom)).count '\\' ≤ ((a :: l).flatMap meantAtom).count '\\' ∧
            (((a :: l).flatMap meantAtom).count '\\' ≤ (unparen ((a :: l).flatMap equalAtom)).count '\\' →
              NoGap (a :: l)) ∧
            (NoGap (a :: l) → unparen ((a :: l).flatMap equalAtom) = (a :: l).flatMap meantAtom) := by
        rw [hstep, List.flatMap_cons, List.count_append, List.count_append]
        refine ⟨Nat.add_le_add_left hle _, fun hcount u hu => ?_, fun h => by rw [heq (hsuffix h)]⟩
        rcases List.suffix_cons_iff.1 hu with h | h
        · obtain ⟨rfl, rfl⟩ := List.cons.inj h
          exact hno rfl
        · exact hgap (Nat.le_of_add_le_add_left hcount) u h
      cases a with
      | coma => exact hstep (unparen_cons (by decide) _) (by simp)
      | equal => exact hstep (unparen_cons (by decide) _) (by simp)
      | lparent => exact hstep (unparen_lparent _) (by simp)
      | rparent => exact hstep (unparen_rparent _) (by simp)
      | quote => exact hstep rfl (by simp)
      | plain c =>
          by_cases hc : c = '\\'
          · subst hc
            by_cases hhead : (l.flatMap equalAtom).head? ≠ some '(' ∧ (l.flatMap equalAtom).head? ≠ some ')'
            · exact hstep (unparen_backslash hhead.1 hhead.2) fun _ => hhead
            · -- the backslash is taken for an escape
              have hlost : unparen ((.plain '\\' :: l).flatMap equalAtom) = unparen (l.flatMap equalAtom) := by
                have hcons (x : Char) (hx : (l.flatMap equalAtom).head? = some x) (hl : x = '(' ∨ x = ')') :
                    unparen ('\\' :: l.flatMap equalAtom) = unparen (l.flatMap equalAtom) := by
                  obtain ⟨t, ht⟩ := List.head?_eq_some_iff.1 hx
                  rw [ht]
                  rcases hl with rfl | rfl
                  · rw [unparen_lparent, unparen_cons (by decide)]
                  · rw [unparen_rparent, unparen_cons (by decide)]
                rcases not_and_or.1 hhead with h | h
                · exact hcons '(' (not_not.1 h) (Or.inl rfl)
                · exact hcons ')' (not_not.1 h) (Or.inr rfl)
              have hcount : ((Atom.plain '\\' :: l).flatMap meantAtom).count '\\' =
                  (l.flatMap meantAtom).count '\\' + 1 := by
                simp [decode]
              rw [hlost, hcount]
              exact ⟨by omega, fun h => by omega, fun h => absurd (h l (List.suffix_refl _)) hhead⟩
          · exact hstep (unparen_cons hc _) fun h => absurd (Atom.plain.inj h) hc

/-- **The atoms get their meaning exactly if the text is faithful**; no text that lacks backslashes at its
beginning can make up for them. -/
theorem unescape_marked_iff {b : List Char} (hb : ∀ c ∈ b, c = '\\') (hq : Atom.plain '"' ∉ l) :
    unescape (l.flatMap markedAtom) = b ++ l.flatMap meantAtom ↔ b = [] ∧ Faithful l := by
  have hfaithful (hc : NoStray markedAtom .coma l) (he : NoStray quoteAtom .equal l) :
      unescape (l.flatMap markedAtom) = unparen (l.flatMap equalAtom) := by
    rw [unescape_eq, replaceAll_coma hc, replaceAll_quote hq, unequal, replaceAll_equal he]
  constructor
  · intro h
    have hheft := heft_backslashes hb
    have hc := noStray_coma hheft h
    rw [unescape_eq, replaceAll_coma hc, replaceAll_quote hq] at h
    have he := noStray_equal hheft h
    rw [unequal, replaceAll_equal he] at h
    obtain ⟨hle, hgap, -⟩ := count_unparen l
    rw [h, List.count_append] at hle hgap
    refine ⟨?_, hc, he, hgap (Nat.le_add_left _ _)⟩
    cases b with
    | nil => rfl
    | cons c b =>
        have : (c :: b).count '\\' ≠ 0 := by
          rw [hb c List.mem_cons_self, List.count_cons_self]
          exact Nat.succ_ne_zero _
        omega
  · rintro ⟨rfl, hc, he, hgap⟩
    rw [hfaithful hc he, (count_unparen l).2.2 hgap, List.nil_append]

/-! ### Text cut from the beginning -/

/-- Double quotes and escaped parentheses are no place for a find to begin. -/
theorem faithful_cons {a : Atom} (h : a = .quote ∨ a = .lparent ∨ a = .rparent) :
    Faithful (a :: l) ↔ Faithful l := by
  have hsuffix {u : List Atom} (hu : u <:+ l) : u <:+ a :: l := hu.trans (List.suffix_cons ..)
  have hstray {f : Atom → List Char} {d : Atom} (hd : ∃ w, f d = '_' :: w) (ha : '_' ∉ f a) :
      NoStray f d (a :: l) ↔ NoStray f d l := by
    refine ⟨fun h c u hu => h c u (hsuffix hu), fun h c u hu hne => ?_⟩
    rcases List.suffix_cons_iff.1 hu with heq | hu
    · obtain ⟨rfl, rfl⟩ := List.cons.inj heq
      obtain ⟨w, hw⟩ := hd
      rw [hw]
      exact free_of_not_mem ha
    · exact h c u hu hne
  have hgap : NoGap (a :: l) ↔ NoGap l := by
    refine ⟨fun h u hu => h u (hsuffix hu), fun hl u hu => ?_⟩
    rcases List.suffix_cons_iff.1 hu with heq | hu
    · obtain ⟨rfl, -⟩ := List.cons.inj heq
      simp at h
    · exact hl u hu
  have hcoma := hstray (f := markedAtom) (d := .coma) ⟨_, rfl⟩ (by rcases h with rfl | rfl | rfl <;> decide)
  have hequal := hstray (f := quoteAtom) (d := .equal) ⟨_, rfl⟩ (by rcases h with rfl | rfl | rfl <;> decide)
  exact ⟨fun h => ⟨hcoma.1 h.coma, hequal.1 h.equal, hgap.1 h.parent⟩,
    fun h => ⟨hcoma.2 h.coma, hequal.2 h.equal, hgap.2 h.parent⟩⟩

/-- The first `k` characters stand for nothing: double quotes, and perhaps the backslash of a parenthesis
behind them. -/
inductive Spared : ℕ → List Atom → Prop
  | zero (l : List Atom) : Spared 0 l
  | quote {k : ℕ} {l : List Atom} (h : Spared k l) : Spared (k + 1) (.quote :: l)
  | lparent (l : List Atom) : Spared 1 (.lparent :: l)
  | rparent (l : List Atom) : Spared 1 (.rparent :: l)

/-- What is cut from a text that keeps its meaning has no weight. -/
theorem heft_of_cut {b p r : List Char} (hb : ∀ c ∈ b, c = '\\') (hl : l.flatMap markedAtom = p ++ r)
    (h : unescape r = b ++ l.flatMap meantAtom) : heft p = 0 := by
  have hheft : heft (l.flatMap markedAtom) = heft (l.flatMap meantAtom) := heft_decode (by decide) l
  have hr := congrArg heft h
  rw [heft_unescape, heft_append, heft_backslashes hb, Nat.zero_add, ← hheft, hl, heft_append] at hr
  omega

/-- A parenthesis can lose its backslash, and no more. -/
theorem unescape_drop_parent {a : Atom} {b : List Char} (hb : ∀ c ∈ b, c = '\\') (hq : Atom.plain '"' ∉ l)
    (hc : c = '(' ∨ c = ')') (ha : markedAtom a = ['\\', c]) (ha' : meantAtom a = [c]) (k : ℕ) :
    unescape (((a :: l).flatMap markedAtom).drop (k + 1)) = b ++ (a :: l).flatMap meantAtom ↔
      b = [] ∧ k = 0 ∧ Faithful l := by
  cases k with
  | zero =>
      have hcons := unescape_cons (c := c) (by rcases hc with rfl | rfl <;> decide)
        (by rcases hc with rfl | rfl <;> decide) (by rcases hc with rfl | rfl <;> decide)
        (l.flatMap markedAtom)
      rw [List.flatMap_cons, List.flatMap_cons, ha, ha']
      refine (Iff.of_eq (congrArg (· = _) hcons)).trans ?_
      cases b with
      | nil =>
          have hl := unescape_marked_iff (b := []) (l := l) (by simp) hq
          simpa using hl
      | cons d b =>
          refine iff_of_false (fun h => ?_) (by simp)
          obtain ⟨rfl, -⟩ := List.cons.inj h
          have := hb _ List.mem_cons_self
          rcases hc with rfl | rfl <;> cases this
  | succ k =>
      refine iff_of_false (fun h => ?_) (by simp)
      have hp := heft_of_cut hb (List.take_append_drop (k + 1 + 1) _).symm h
      rw [List.flatMap_cons, ha, List.cons_append, List.take_succ_cons, List.cons_append,
        List.take_succ_cons, heft_cons, heft_cons] at hp
      have : weight c = 1 := by rcases hc with rfl | rfl <;> decide
      omega

/-- **A text from which `k` characters are cut keeps its meaning exactly if they stand for nothing.** -/
theorem unescape_drop_iff {b : List Char} (hb : ∀ c ∈ b, c = '\\') (hq : Atom.plain '"' ∉ l) {k : ℕ}
    (hk : k ≤ (l.flatMap markedAtom).length) :
    unescape ((l.flatMap markedAtom).drop k) = b ++ l.flatMap meantAtom ↔
      b = [] ∧ Spared k l ∧ Faithful l := by
  induction l generalizing b k with
  | nil =>
      obtain rfl : k = 0 := Nat.le_zero.1 hk
      rw [List.drop_zero, unescape_marked_iff hb hq]
      exact and_congr_right fun _ => (and_iff_right (.zero _)).symm
  | cons a l ih =>
      have hql : Atom.plain '"' ∉ l := fun h => hq (List.mem_cons_of_mem _ h)
      cases k with
      | zero =>
          rw [List.drop_zero, unescape_marked_iff hb hq]
          exact and_congr_right fun _ => (and_iff_right (.zero _)).symm
      | succ k =>
          -- a character that has a weight is lost
          have hheavy {c : Char} {w : List Char} (ha : markedAtom a = c :: w) (hc : weight c ≠ 0)
              (hno : ¬ Spared (k + 1) (a :: l)) :
              unescape (((a :: l).flatMap markedAtom).drop (k + 1)) = b ++ (a :: l).flatMap meantAtom ↔
                b = [] ∧ Spared (k + 1) (a :: l) ∧ Faithful (a :: l) := by
            refine iff_of_false (fun h => ?_) fun h => hno h.2.1
            have hp := heft_of_cut hb (List.take_append_drop (k + 1) _).symm h
            rw [List.flatMap_cons, ha, List.cons_append, List.take_succ_cons, heft_cons] at hp
            omega
          cases a with
          | coma => exact hheavy rfl (by decide) (by rintro ⟨⟩)
          | equal => exact hheavy rfl (by decide) (by rintro ⟨⟩)
          | lparent =>
              have hspared : Spared (k + 1) (.lparent :: l) ↔ k = 0 :=
                ⟨fun h => by cases h; rfl, fun h => h ▸ .lparent l⟩
              rw [hspared, faithful_cons (by simp)]
              exact unescape_drop_parent hb hql (Or.inl rfl) rfl rfl k
          | rparent =>
              have hspared : Spared (k + 1) (.rparent :: l) ↔ k = 0 :=
                ⟨fun h => by cases h; rfl, fun h => h ▸ .rparent l⟩
              rw [hspared, faithful_cons (by simp)]
              exact unescape_drop_parent hb hql (Or.inr rfl) rfl rfl k
          | quote =>
              have hl : k ≤ (l.flatMap markedAtom).length := by simpa [decode] using hk
              have hspared : Spared (k + 1) (.quote :: l) ↔ Spared k l :=
                ⟨fun h => by cases h with | quote h => exact h, .quote⟩
              rw [hspared, faithful_cons (Or.inl rfl)]
              exact ih hb hql hl
          | plain c =>
              by_cases hc : c = '\\'
              · -- a backslash that is lost can not be made up for
                subst hc
                have hl : k ≤ (l.flatMap markedAtom).length := by simpa [decode] using hk
                have hb' : ∀ c ∈ b ++ ['\\'], c = '\\' := by
                  simpa [or_imp, forall_and] using hb
                have hiff := ih hb' hql hl
                rw [List.append_assoc, List.singleton_append] at hiff
                exact hiff.trans (iff_of_false (by simp) fun h => by cases h.2.1)
              · refine hheavy rfl ?_ (by rintro ⟨⟩)
                have hc' : c ≠ '"' := fun h => hq (h ▸ List.mem_cons_self)
                unfold weight
                rw [if_neg (by simp [hc, hc'])]
                split_ifs <;> decide

end TypeDesc

end Shmdata

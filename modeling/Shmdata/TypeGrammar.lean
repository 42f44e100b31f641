/-
**The values of a description.**

In `name, k1=v1, …, kn=vn` a value is an integer, with `(int)` in front of it or without, or a text.  A text
may have a word in parentheses in front, which is its type; what it stands for is the rest with the escapes
undone and the double quotes removed.

`Type::Type` finds the type by a search for a word in parentheses anywhere in the value, and then cuts as many
characters as the match has from the beginning.  A value is thus read as it should be only if its first
parenthesised word is its type, or if it has none.  The search is made in the text with the markers, which are
words too, so that `(a\,b)` counts as a parenthesised word.  Apart from this a value must be faithful, and may
not be a quoted number, because the test for a number is made when the quotes have gone.  The searches are taken
to come to their end.

Main definitions:

* `Shmdata.TypeDesc.grammar` — the value that a text stands for;
* `Shmdata.TypeDesc.GoodValue`, `Shmdata.TypeDesc.GoodItem` — the texts that have a value;
* `Shmdata.TypeDesc.valueFound`, `Shmdata.TypeDesc.typeFound` — what the parser finds in a value;
* `Shmdata.TypeDesc.FollowsGrammar` — the keys of a `Type` are those of its text, with these values;
* `Shmdata.TypeDesc.Plainly` — nothing but the type is taken for a type, and nothing but atoms is replaced.

Main results:

* `Shmdata.TypeDesc.pieces_listing` — the items are found;
* `Shmdata.TypeDesc.valueFound_iff` — **a value is read as the text stands for exactly if it is plain**;
* `Shmdata.TypeDesc.followsGrammar_iff` — **a description is read as it should be exactly if its values are**.
-/

import Shmdata.TypeAtoms

set_option relaxedAutoImplicit false
set_option autoImplicit false

namespace Shmdata

open Regex

namespace TypeDesc

/-! ### The grammar -/

/-- The text of an atom. -/
abbrev sourceAtom : Atom → List Char := decode ['\\', ','] ['\\', '='] ['\\', '('] ['\\', ')'] ['"']

/-- A key and the text of its value. -/
abbrev Item := List Char × List Char

/-- `key=value`. -/
def itemText (x : Item) : List Char := x.1 ++ '=' :: x.2

/-- The items, with a comma in front of each. -/
def listing (items : List Item) : List Char := items.flatMap fun x => ',' :: ' ' :: itemText x

/-- A word in parentheses at the beginning of a value, and what follows it. -/
def typePrefix : List Char → Option (List Char × List Char)
  | '(' :: s =>
      match s.takeWhile isWord, s.dropWhile isWord with
      | c :: w, ')' :: r => some (c :: w, r)
      | _, _ => none
  | _ => none

/-- The value that a text stands for. -/
def grammar (v : List Char) : Any :=
  match typePrefix v with
  | some (w, r) => if w = "int".toList then .int (.ofInt (signedValue r)) else .string (meaning r)
  | none => if isInteger v then .int (.ofInt (signedValue v)) else .string (meaning v)

/-- The number is an `int`. -/
def InRange (n : ℤ) : Prop := Int32.minValue.toInt ≤ n ∧ n ≤ Int32.maxValue.toInt

instance (n : ℤ) : Decidable (InRange n) := inferInstanceAs (Decidable (_ ∧ _))

/-- Commas and equal signs have a backslash in front, there is none at the end, and no white space around. -/
structure CleanValue (v : List Char) : Prop where
  ne_nil : v ≠ []
  escaped : ∀ i < v.length, v[i]? = some ',' ∨ v[i]? = some '=' → 0 < i ∧ v[i - 1]? = some '\\'
  last : v.getLast? ≠ some '\\'
  space : ∀ c, v.head? = some c ∨ v.getLast? = some c → isSpace c = false

/-- Commas and equal signs have a backslash in front, there is none at the end, no white space around, and an
integer is an `int`. -/
structure GoodValue (v : List Char) : Prop where
  ne_nil : v ≠ []
  escaped : ∀ i < v.length, v[i]? = some ',' ∨ v[i]? = some '=' → 0 < i ∧ v[i - 1]? = some '\\'
  last : v.getLast? ≠ some '\\'
  space : ∀ c, v.head? = some c ∨ v.getLast? = some c → isSpace c = false
  typed : ∀ r, v = "(int)".toList ++ r → isInteger r = true ∧ InRange (signedValue r)
  untyped : isInteger v = true → InRange (signedValue v)

/-- The key is over `[A-Za-z0-9_-]`. -/
structure GoodItem (x : Item) : Prop where
  key_ne_nil : x.1 ≠ []
  key : ∀ c ∈ x.1, isKeyChar c = true
  value : GoodValue x.2

/-- A name without commas; blanks at its end would belong to the separator. -/
structure PlainName (name : List Char) : Prop where
  ne_nil : name ≠ []
  coma : ',' ∉ name
  last : name.getLast? ≠ some ' ' ∧ name.getLast? ≠ some '\\'

/-- The text is read, and gives the keys of the items and their values. -/
def FollowsGrammar (name : List Char) (items : List Item) : Prop :=
  ∃ t, parse (name ++ listing items) = .ok t ∧ ∀ k a, t.get k = some a ↔ ∃ v, (k, v) ∈ items ∧ a = grammar v

/-- Only atoms are replaced in what the text stands for, a quoted text is no number, and no word in
parentheses is found behind the beginning, unless what is cut in its place stands for nothing. -/
def Plainly (v : List Char) : Prop :=
  match typePrefix v with
  | some (w, r) => w = "int".toList ∨ Faithful (atoms r)
  | none =>
      isInteger v = true ∨
        Faithful (atoms v) ∧ isInteger (meaning v) = false ∧
          ∀ sm rest, search literalTypeRgx (escape v) = some (sm, rest) →
            sm ≠ "(int)".toList ∧ Spared sm.length (atoms v)

variable {name s t v : List Char} {items : List Item} {x : Item} {c d : Char}

/-! ### Where a word in parentheses is found -/

theorem typePrefix_eq_some {w r : List Char} (h : typePrefix v = some (w, r)) :
    v = '(' :: (w ++ ')' :: r) ∧ w ≠ [] ∧ ∀ c ∈ w, isWord c = true := by
  unfold typePrefix at h
  split at h
  · next s =>
      split at h
      · next c u r' hw hr =>
          obtain ⟨rfl, rfl⟩ := Prod.mk.inj (Option.some.inj h)
          refine ⟨?_, by simp, fun d hd => ?_⟩
          · rw [← hw, ← hr, List.takeWhile_append_dropWhile]
          · exact List.mem_takeWhile_imp (hw ▸ hd)
      · cases h
  · cases h

/-- What is found is in the text, and begins with a parenthesis. -/
theorem search_eq_some {sm rest : List Char} (h : search literalTypeRgx s = some (sm, rest)) :
    '(' ∈ s ∧ sm.length ≤ s.length := by
  induction s with
  | nil => cases h
  | cons c s ih =>
      rw [search] at h
      cases hf : first literalTypeRgx (c :: s) with
      | none =>
          rw [hf] at h
          obtain ⟨hmem, hle⟩ := ih h
          exact ⟨List.mem_cons_of_mem _ hmem, hle.trans (Nat.le_succ _)⟩
      | some t =>
          rw [hf] at h
          obtain ⟨rfl, -⟩ := Prod.mk.inj (Option.some.inj h)
          refine ⟨?_, List.length_take_le' _ _⟩
          by_cases hc : c = '('
          · exact hc ▸ List.mem_cons_self
          · rw [first, literalTypeRgx, rests, rests, if_neg (by simpa using hc)] at hf
            cases hf

/-! ### Texts that are numbers -/

theorem mem_of_isInteger (h : isInteger v = true) (hc : c ∈ v) : c = '-' ∨ c.isDigit = true := by
  simp only [isInteger, Bool.and_eq_true, List.all_eq_true] at h
  split at h
  · next hhead =>
      obtain ⟨u, rfl⟩ := List.head?_eq_some_iff.1 hhead
      exact (List.mem_cons.1 hc).imp_right (h.2 c)
  · exact Or.inr (h.2 c hc)

theorem not_mem_of_isInteger (h : isInteger v = true) (hc : c ≠ '-') (hd : c.isDigit = false) : c ∉ v := by
  intro hmem
  rcases mem_of_isInteger h hmem with h | h
  · exact hc h
  · rw [hd] at h
    cases h

theorem escape_of_not_mem (h : '\\' ∉ v) : escape v = v := by
  have := escape_append h []
  rwa [List.append_nil, escape_nil, List.append_nil] at this

/-- There is nothing to replace in a number. -/
theorem escape_of_isInteger (h : isInteger v = true) : escape v = v ∧ unescape v = v := by
  have hkeep {d : Char} (hc : d ≠ '-') (hd : d.isDigit = false) (w fmt : List Char) :
      replaceAll (lit (d :: w)) fmt v = v :=
    replaceAll_of_passes (passes_lit (free_of_not_mem (not_mem_of_isInteger h hc hd)))
  refine ⟨escape_of_not_mem (not_mem_of_isInteger h (by decide) (by decide)), ?_⟩
  unfold unescape comaMark equalMark
  rw [hkeep (by decide) (by decide), hkeep (by decide) (by decide), hkeep (by decide) (by decide),
    hkeep (by decide) (by decide), hkeep (by decide) (by decide)]

theorem streamInt_of_isInteger (h : isInteger v = true) (hr : InRange (signedValue v)) :
    streamInt v = .ofInt (signedValue v) := by
  have hdrop : v.dropWhile isSpace = v := by
    cases v with
    | nil => rfl
    | cons c s =>
        rw [List.dropWhile_cons, if_neg]
        rcases mem_of_isInteger h List.mem_cons_self with rfl | hc
        · decide
        · simp [(isDigit_ne hc).1]
  rw [streamInt, hdrop, min_eq_right hr.2, max_eq_right hr.1]

/-- A parenthesis is not lost. -/
theorem isInteger_unescape (h : '(' ∈ s) : isInteger (unescape s) = false := by
  by_contra hi
  rw [Bool.not_eq_false] at hi
  refine not_mem_of_isInteger hi (by decide : '(' ≠ '-') (by decide) ?_
  unfold unescape
  exact mem_replaceAll (by decide) (by decide) (mem_replaceAll (by decide) (by decide)
    (mem_replaceAll (by decide) (by decide) (mem_replaceAll (by decide) (by decide)
      (mem_replaceAll (by decide) (by decide) h))))

/-! ### The value that is found -/

/-- The value that the parser finds in a text with markers. -/
def valueFound (m : List Char) : Except StdExn Any :=
  (untypedValue m).map fun anyValue =>
    match search literalTypeRgx m with
    | some (sm, _) =>
        if sm = "(int)".toList then .int (streamInt (m.drop sm.length))
        else .string (unescape (m.drop sm.length))
    | none => anyValue

/-- The type that is saved for a value. -/
def typeFound (m : List Char) : Option (List Char) :=
  match search literalTypeRgx m with
  | some (sm, _) => if sm = "(int)".toList then none else some ((sm.drop 1).take (sm.length - 2))
  | none => none

/-- The value that is found, or any value when there is none. -/
def found (m : List Char) : Any := (valueFound m).toOption.getD (.int 0)

theorem found_of_valueFound {m : List Char} {a : Any} (h : valueFound m = .ok a) : found m = a := by
  rw [found, h]
  rfl

/-- What an item adds. -/
theorem addProp_found (t : TypeDesc) (key m : List Char) :
    t.addProp key m = (valueFound m).map fun a =>
      { t with
        properties := t.properties.emplace key a
        strTypes := t.strTypes.emplace? key (typeFound m) } := by
  unfold addProp valueFound typeFound
  cases search literalTypeRgx m with
  | none => cases untypedValue m <;> rfl
  | some p =>
      obtain ⟨sm, rest⟩ := p
      by_cases hint : sm = "(int)".toList
      · simp only [if_pos hint]
        cases untypedValue m <;> rfl
      · simp only [if_neg hint]
        cases untypedValue m <;> rfl

theorem meaning_iff (s : List Char) : unescape (escape s) = meaning s ↔ Faithful (atoms s) := by
  rw [escape_eq]
  exact (unescape_marked_iff (b := []) (by simp) (quote_not_plain s)).trans (and_iff_right rfl)

theorem meaning_drop_iff {k : ℕ} (hk : k ≤ (escape s).length) :
    unescape ((escape s).drop k) = meaning s ↔ Spared k (atoms s) ∧ Faithful (atoms s) := by
  rw [escape_eq] at hk ⊢
  exact (unescape_drop_iff (b := []) (by simp) (quote_not_plain s) hk).trans (and_iff_right rfl)

/-- A value with its type in front. -/
theorem valueFound_typed {w r : List Char} (hv : GoodValue ('(' :: (w ++ ')' :: r))) (hne : w ≠ [])
    (hword : ∀ c ∈ w, isWord c = true) :
    valueFound (escape ('(' :: (w ++ ')' :: r))) =
        .ok (if w = "int".toList then .int (.ofInt (signedValue r)) else .string (meaning r)) ↔
      w = "int".toList ∨ Faithful (atoms r) := by
  have hback : '\\' ∉ '(' :: (w ++ [')']) := by
    simp only [List.mem_cons, List.mem_append, List.not_mem_nil, or_false, not_or]
    exact ⟨by decide, fun h => absurd (hword _ h) (by decide), by decide⟩
  have happ (r : List Char) : '(' :: (w ++ ')' :: r) = ('(' :: (w ++ [')'])) ++ r := by simp
  have hescape : escape ('(' :: (w ++ ')' :: r)) = '(' :: (w ++ ')' :: escape r) := by
    rw [happ, escape_append hback, ← happ]
  have hdrop : ('(' :: (w ++ ')' :: escape r)).drop ('(' :: (w ++ [')'])).length = escape r := by
    rw [happ (escape r), List.drop_left]
  rw [hescape, valueFound, untypedValue_lparent, search_type hne hword]
  simp only [Except.map, hdrop, Except.ok.injEq]
  by_cases hint : w = "int".toList
  · obtain ⟨hi, hr⟩ := hv.typed r (by rw [hint]; rfl)
    have hstream : streamInt (escape r) = .ofInt (signedValue r) := by
      rw [(escape_of_isInteger hi).1, streamInt_of_isInteger hi hr]
    rw [if_pos (by rw [hint]; rfl), if_pos hint, hstream]
    exact iff_of_true rfl (Or.inl hint)
  · have hsm : '(' :: (w ++ [')']) ≠ "(int)".toList := fun h =>
      hint ((List.append_left_inj [')']).1 (List.cons.inj h).2)
    rw [if_neg hsm, if_neg hint, Any.string.injEq, meaning_iff]
    exact (or_iff_right hint).symm

/-- A value without a type. -/
theorem valueFound_untyped (hv : GoodValue v) :
    valueFound (escape v) =
        .ok (if isInteger v then .int (.ofInt (signedValue v)) else .string (meaning v)) ↔
      isInteger v = true ∨
        Faithful (atoms v) ∧ isInteger (meaning v) = false ∧
          ∀ sm rest, search literalTypeRgx (escape v) = some (sm, rest) →
            sm ≠ "(int)".toList ∧ Spared sm.length (atoms v) := by
  cases hi : isInteger v with
  | true =>
      refine iff_of_true ?_ (Or.inl rfl)
      have hsearch : search literalTypeRgx v = none := by
        cases hs : search literalTypeRgx v with
        | none => rfl
        | some p => exact absurd (search_eq_some hs).1 (not_mem_of_isInteger hi (by decide) (by decide))
      obtain ⟨he, hu⟩ := escape_of_isInteger hi
      obtain ⟨hmin, hmax⟩ := hv.untyped hi
      rw [he, valueFound, hsearch, untypedValue, hu, if_pos hi, stoi, if_pos ⟨hmin, hmax⟩]
      rfl
  | false =>
      rw [if_neg (by decide), or_iff_right (by decide), valueFound]
      cases hs : search literalTypeRgx (escape v) with
      | none =>
          rw [← meaning_iff, untypedValue]
          by_cases hint : isInteger (unescape (escape v)) = true
          · rw [if_pos hint]
            refine iff_of_false ?_ fun h => ?_
            · cases stoi (unescape (escape v)) <;> simp [Except.map]
            · rw [h.1, h.2.1] at hint
              cases hint
          · rw [if_neg hint]
            simp only [Except.map, Except.ok.injEq, Any.string.injEq]
            refine ⟨fun h => ⟨h, ?_, by simp⟩, fun h => h.1⟩
            rw [← h]
            simpa using hint
      | some p =>
          obtain ⟨sm, rest⟩ := p
          obtain ⟨hparent, hlen⟩ := search_eq_some hs
          have hnot := isInteger_unescape hparent
          rw [untypedValue, if_neg (by simp [hnot])]
          simp only [Except.map, Except.ok.injEq]
          by_cases hsm : sm = "(int)".toList
          · rw [if_pos hsm]
            exact iff_of_false (by simp) fun h => (h.2.2 sm rest rfl).1 hsm
          · rw [if_neg hsm, Any.string.injEq, meaning_drop_iff hlen]
            constructor
            · rintro ⟨hspared, hfaithful⟩
              refine ⟨hfaithful, ?_, fun sm' rest' heq => ?_⟩
              · rwa [← (meaning_iff v).2 hfaithful]
              · obtain ⟨rfl, rfl⟩ := Prod.mk.inj (Option.some.inj heq)
                exact ⟨hsm, hspared⟩
            · rintro ⟨hfaithful, -, hall⟩
              exact ⟨(hall sm rest rfl).2, hfaithful⟩

/-- **A value is read as the text stands for exactly if it is plain.** -/
theorem valueFound_iff (hv : GoodValue v) : valueFound (escape v) = .ok (grammar v) ↔ Plainly v := by
  unfold grammar Plainly
  cases hp : typePrefix v with
  | none => exact valueFound_untyped hv
  | some p =>
      obtain ⟨w, r⟩ := p
      obtain ⟨rfl, hne, hword⟩ := typePrefix_eq_some hp
      exact valueFound_typed hv hne hword

/-- A quoted number is read as a number. -/
example : valueFound (escape "\"12\"".toList) = .ok (.int 12) := by rfl

/-- An escaped comma makes a word of what it stands in. -/
example : valueFound (escape "(a\\,b)x".toList) = .ok (.string "x".toList) := by rfl

/-! ### The text of an item with its markers -/

theorem flatMap_sourceAtom (s : List Char) : (atoms s).flatMap sourceAtom = s := by
  induction s using atom_induction with
  | nil => rfl
  | escaped d a s h ih =>
      rw [atoms_escaped h, List.flatMap_cons, ih]
      unfold escapedAtom at h
      split at h <;> cases h <;> rfl
  | single c s h ih =>
      rw [atoms_cons h, List.flatMap_cons, ih]
      unfold singleAtom
      split
      · next hc => rw [hc]; rfl
      · rfl

theorem atoms_eq_nil (h : atoms s = []) : s = [] := by
  rw [← flatMap_sourceAtom s, h]
  rfl

/-- The last character is kept, unless it is escaped. -/
theorem getLast?_escape (h : (escape s).getLast? = some c) (hc : c ≠ '_') : s.getLast? = some c := by
  rw [escape_eq] at h
  rw [← flatMap_sourceAtom s]
  rcases List.eq_nil_or_concat (atoms s) with hnil | ⟨l, a, hl⟩
  · rw [hnil] at h
    cases h
  · rw [hl, List.concat_eq_append, List.flatMap_append, List.flatMap_singleton] at h ⊢
    cases a with
    | coma | equal =>
        have hlast : '_' = c := by simpa [decode, comaMark, equalMark] using h
        exact absurd hlast.symm hc
    | lparent | rparent | quote | plain d => simpa [decode] using h

/-- The first character is kept, unless it is escaped. -/
theorem head?_escape (h : (escape s).head? = some c) (hc : c ≠ '_') : s.head? = some c := by
  rw [escape_eq] at h
  rw [← flatMap_sourceAtom s]
  cases hl : atoms s with
  | nil =>
      rw [hl] at h
      cases h
  | cons a l =>
      rw [hl] at h
      cases a with
      | coma | equal =>
          have hhead : '_' = c := by simpa [decode, comaMark, equalMark] using h
          exact absurd hhead.symm hc
      | lparent | rparent | quote | plain d => simpa [decode] using h

/-- No comma and no equal sign is left without its backslash. -/
theorem plain_of_mem_escape (h : d ∈ escape s) (hd : d = ',' ∨ d = '=') : .plain d ∈ atoms s := by
  rw [escape_eq] at h
  obtain ⟨a, ha, hmem⟩ := List.mem_flatMap.1 h
  cases a with
  | plain c =>
      obtain rfl := List.mem_singleton.1 hmem
      exact ha
  | _ => rcases hd with rfl | rfl <;> exact absurd hmem (by decide)

theorem mem_of_plain (h : .plain d ∈ atoms s) : d ∈ s := by
  rw [← flatMap_sourceAtom s]
  exact List.mem_flatMap.2 ⟨_, h, List.mem_singleton_self d⟩

/-- A character that has a backslash in front wherever it stands is not an atom of its own. -/
theorem plain_not_mem (hd : escapedAtom d ≠ none) (hhead : s.head? ≠ some d)
    (h : ∀ i : ℕ, s[i + 1]? = some d → s[i]? = some '\\') : .plain d ∉ atoms s := by
  induction s using atom_induction with
  | nil => exact List.not_mem_nil
  | escaped e a s he ih =>
      rw [atoms_escaped he, List.mem_cons, not_or]
      refine ⟨?_, ih (fun hs => ?_) fun i hi => h (i + 2) hi⟩
      · rintro rfl
        unfold escapedAtom at he
        split at he <;> cases he
      · obtain ⟨u, rfl⟩ := List.head?_eq_some_iff.1 hs
        obtain rfl : e = '\\' := Option.some.inj (h 1 rfl)
        cases he
  | single c s hc ih =>
      rw [atoms_cons hc, List.mem_cons, not_or]
      refine ⟨fun heq => ?_, ih (fun hs => ?_) fun i hi => h (i + 1) hi⟩
      · unfold singleAtom at heq
        split at heq
        · cases heq
        · exact hhead (congrArg some (Atom.plain.inj heq).symm)
      · obtain ⟨u, rfl⟩ := List.head?_eq_some_iff.1 hs
        exact hd (hc (Option.some.inj (h 0 rfl)) d u rfl)

theorem GoodValue.clean (h : GoodValue v) : CleanValue v := ⟨h.ne_nil, h.escaped, h.last, h.space⟩

theorem CleanValue.not_mem_escape (h : CleanValue v) (hd : d = ',' ∨ d = '=') : d ∉ escape v := by
  intro hmem
  have hback (i : ℕ) (hi : v[i]? = some d) : 0 < i ∧ v[i - 1]? = some '\\' :=
    h.escaped i (List.getElem?_eq_some_iff.1 hi).1 (by rcases hd with rfl | rfl <;> simp [hi])
  refine plain_not_mem (by rcases hd with rfl | rfl <;> decide) (fun hhead => ?_)
    (fun i hi => (hback (i + 1) hi).2) (plain_of_mem_escape hmem hd)
  rw [List.head?_eq_getElem?] at hhead
  exact absurd (hback 0 hhead).1 (Nat.lt_irrefl 0)

theorem escape_ne_nil (h : s ≠ []) : escape s ≠ [] := by
  intro hnil
  have hmark (l : List Atom) (hl : l ≠ []) : l.flatMap markedAtom ≠ [] := by
    cases l with
    | nil => exact absurd rfl hl
    | cons a l => cases a <;> simp [decode, comaMark, equalMark]
  exact hmark _ (fun hl => h (atoms_eq_nil hl)) (escape_eq s ▸ hnil)

/-- The blanks around a text are those around what is made of it. -/
theorem CleanValue.space_escape (h : CleanValue v)
    (hc : (escape v).head? = some c ∨ (escape v).getLast? = some c) : isSpace c = false := by
  by_cases hu : c = '_'
  · rw [hu]
    decide
  · exact h.space c (hc.imp (fun hc => head?_escape hc hu) fun hc => getLast?_escape hc hu)

theorem CleanValue.plainValue (h : CleanValue v) : PlainValue (escape v) where
  ne_nil := escape_ne_nil h.ne_nil
  equal := h.not_mem_escape (Or.inr rfl)
  head _ hc := h.space_escape (Or.inl hc)

theorem escape_append_of_last (h : s.getLast? ≠ some '\\') (t : List Char) :
    escape (s ++ t) = escape s ++ escape t := by
  rw [escape_eq, escape_eq, escape_eq, atoms_append h, List.flatMap_append]

/-- An item with markers in the place of the escapes. -/
def markItem (x : Item) : Item := (x.1, escape x.2)

theorem key_append (key m : List Char) : itemText (key, m) = (key ++ ['=']) ++ m := by
  simp [itemText]

/-- **Only the values of the items are changed.** -/
theorem escape_listing (h : ∀ x ∈ items, GoodItem x) :
    escape (listing items) = listing (items.map markItem) := by
  induction items with
  | nil => rfl
  | cons x items ih =>
      obtain ⟨key, v⟩ := x
      have hx := h (key, v) List.mem_cons_self
      have hkey : '\\' ∉ key ++ ['='] := by
        simp only [List.mem_append, List.mem_singleton, not_or]
        exact ⟨fun hmem => absurd (hx.key _ hmem) (by decide), by decide⟩
      have ih := ih fun y hy => h y (List.mem_cons_of_mem _ hy)
      have hcons (key v rest : List Char) : ',' :: ' ' :: itemText (key, v) ++ rest =
          ',' :: ' ' :: ((key ++ ['=']) ++ (v ++ rest)) := by
        rw [key_append, List.cons_append, List.cons_append, List.append_assoc]
      have hlisting (y : Item) (ys : List Item) :
          listing (y :: ys) = ',' :: ' ' :: itemText y ++ listing ys := List.flatMap_cons
      rw [List.map_cons, hlisting, hlisting, hcons, markItem, hcons, escape_cons (by decide),
        escape_cons (by decide), escape_append hkey, escape_append_of_last hx.value.last, ih]

/-! ### The items that are found -/

theorem listing_cons (x : Item) (items : List Item) :
    listing (x :: items) = ',' :: ' ' :: (itemText x ++ listing items) := by
  simp [listing]

theorem GoodItem.coma_not_mem (h : GoodItem x) : ',' ∉ itemText (markItem x) := by
  simp only [itemText, markItem, List.mem_append, List.mem_cons, not_or]
  exact ⟨fun hc => absurd (h.key _ hc) (by decide), by decide, h.value.clean.not_mem_escape (Or.inl rfl)⟩

theorem GoodItem.getLast?_ne (h : GoodItem x) : (itemText (markItem x)).getLast? ≠ some ' ' := by
  have hne := h.value.clean.plainValue.ne_nil
  intro hl
  rw [markItem, key_append, List.getLast?_append_of_ne_nil _ hne] at hl
  exact absurd (h.value.clean.space_escape (Or.inr hl)) (by decide)

theorem GoodItem.head?_ne (h : GoodItem x) (s : List Char) :
    (itemText (markItem x) ++ s).head? ≠ some ' ' := by
  obtain ⟨c, u, hc⟩ := List.exists_cons_of_ne_nil h.key_ne_nil
  have hkey := h.key c (hc ▸ List.mem_cons_self)
  rw [itemText, markItem, hc]
  intro hs
  obtain rfl : c = ' ' := Option.some.inj hs
  exact absurd hkey (by decide)

/-- **The pieces are the name and the items.** -/
theorem pieces_listing (h : ∀ x ∈ items, GoodItem x) (hs : ',' ∉ s) (hl : s.getLast? ≠ some ' ') :
    pieces comaRgx (s ++ listing (items.map markItem)) =
      s :: items.map fun x => itemText (markItem x) := by
  induction items generalizing s with
  | nil =>
      rw [List.map_nil, listing, List.flatMap_nil, List.append_nil, pieces_of_passes (passes_coma hs hl)]
      rfl
  | cons x items ih =>
      have hx := h x List.mem_cons_self
      have hne (s : List Char) : s ≠ ',' :: ' ' :: s := fun heq => by
        have hlen := congrArg List.length heq
        simp only [List.length_cons] at hlen
        omega
      rw [List.map_cons, listing_cons, pieces_append (passes_coma hs hl) (first_coma (hx.head?_ne _)) (hne _),
        List.map_cons, ih (fun y hy => h y (List.mem_cons_of_mem _ hy)) hx.coma_not_mem hx.getLast?_ne]

theorem PlainName.escape_name (h : PlainName name) :
    escape name ≠ [] ∧ ',' ∉ escape name ∧ (escape name).getLast? ≠ some ' ' :=
  ⟨escape_ne_nil h.ne_nil, fun hc => h.coma (mem_of_plain (plain_of_mem_escape hc (Or.inl rfl))),
    fun hl => h.last.1 (getLast?_escape hl (by decide))⟩

/-- **The tokens are the name and the items.** -/
theorem tokens_listing (hname : PlainName name) (h : ∀ x ∈ items, GoodItem x) :
    tokens comaRgx (escape (name ++ listing items)) =
      escape name :: items.map fun x => itemText (markItem x) := by
  obtain ⟨hne, hcoma, hlast⟩ := hname.escape_name
  have hpieces := pieces_listing h hcoma hlast
  rw [escape_append_of_last hname.last.2, escape_listing h, tokens_eq_pieces, hpieces]
  rw [hpieces]
  intro p hp
  rcases List.mem_cons.1 hp with rfl | hp
  · exact hne
  · obtain ⟨x, -, rfl⟩ := List.mem_map.1 hp
    simp [itemText]

/-- **The constructor goes through the items.** -/
theorem parse_listing (hname : PlainName name) (h : ∀ x ∈ items, GoodItem x) :
    parse (name ++ listing items) =
      items.foldlM (fun t x => t.addProp x.1 (escape x.2)) (ofName (escape name)) := by
  have hloop (ys : List Item) (hy : ∀ x ∈ ys, GoodItem x) (t : TypeDesc) :
      (ys.map fun x => itemText (markItem x)).foldlM parseProp t =
        ys.foldlM (fun t x => t.addProp x.1 (escape x.2)) t := by
    induction ys generalizing t with
    | nil => rfl
    | cons x ys ih =>
        have hx := hy x List.mem_cons_self
        rw [List.map_cons, List.foldlM_cons, List.foldlM_cons]
        have hprop := parseProp_keyval hx.key_ne_nil hx.key hx.value.clean.plainValue t
        refine (congrArg (· >>= _) hprop).trans (bind_congr fun u => ?_)
        exact ih (fun y hy' => hy y (List.mem_cons_of_mem _ hy')) u
  unfold parse
  rw [tokens_listing hname h, findName, if_neg hname.escape_name.1]
  exact hloop items h _

/-! ### The properties -/

/-- **The items are added one after the other**, if their values are found. -/
theorem foldlM_addProp {items : List Item} {t u : TypeDesc} :
    items.foldlM (fun t x => t.addProp x.1 (escape x.2)) t = .ok u ↔
      (∀ x ∈ items, ∃ a, valueFound (escape x.2) = .ok a) ∧
        u = { t with
          properties := items.foldl (fun m x => m.emplace x.1 (found (escape x.2))) t.properties
          strTypes := items.foldl (fun m x => m.emplace? x.1 (typeFound (escape x.2))) t.strTypes } := by
  induction items generalizing t with
  | nil => simp [pure, Except.pure, eq_comm]
  | cons x items ih =>
      rw [List.foldlM_cons, addProp_found, List.forall_mem_cons, List.foldl_cons, List.foldl_cons]
      cases hv : valueFound (escape x.2) with
      | error e => exact iff_of_false (by simp [Except.map, bind, Except.bind]) (by simp)
      | ok a =>
          rw [found_of_valueFound hv]
          exact ih.trans (and_congr_left' (by simp))

/-- **A description is read as it should be exactly if its values are.** -/
theorem followsGrammar_iff (hname : PlainName name) (hkeys : (items.map Prod.fst).Nodup)
    (h : ∀ x ∈ items, GoodItem x) : FollowsGrammar name items ↔ ∀ x ∈ items, Plainly x.2 := by
  have hplain : (∀ x ∈ items, Plainly x.2) ↔ ∀ x ∈ items, valueFound (escape x.2) = .ok (grammar x.2) :=
    forall₂_congr fun x hx => (valueFound_iff (h x hx).value).symm
  have hfind (k : List Char) (a : Any) :
      (items.foldl (fun m x => m.emplace x.1 (found (escape x.2))) OrdMap.empty).find? k = some a ↔
        ∃ v, (k, v) ∈ items ∧ a = found (escape v) := by
    have hfold := OrdMap.find?_foldl Prod.fst (fun x : Item => some (found (escape x.2))) items .empty k
    dsimp only [OrdMap.emplace?] at hfold
    rw [hfold, OrdMap.find?_empty, Option.none_or]
    constructor
    · intro hsome
      obtain ⟨⟨j, v⟩, hmem, hx⟩ := List.exists_of_findSome?_eq_some hsome
      dsimp only at hx
      split at hx
      · next hk =>
          subst hk
          exact ⟨v, hmem, (Option.some.inj hx).symm⟩
      · cases hx
    · rintro ⟨v, hmem, rfl⟩
      exact OrdMap.findSome?_of_nodup hkeys hmem fun v => some (found (escape v))
  unfold FollowsGrammar
  rw [hplain, parse_listing hname h]
  constructor
  · rintro ⟨t, ht, hget⟩ x hx
    obtain ⟨hall, rfl⟩ := foldlM_addProp.1 ht
    obtain ⟨a, ha⟩ := hall x hx
    have hxa := (hfind x.1 a).2 ⟨x.2, hx, (found_of_valueFound ha).symm⟩
    obtain ⟨v, hv, hav⟩ := (hget x.1 a).1 hxa
    -- the key has no other value
    have hvx : v = x.2 := congrArg Prod.snd (List.inj_on_of_nodup_map hkeys hv hx rfl)
    rw [ha, hav, hvx]
  · intro hgrammar
    refine ⟨_, foldlM_addProp.2 ⟨fun x hx => ⟨_, hgrammar x hx⟩, rfl⟩, fun k a => ?_⟩
    refine (hfind k a).trans (exists_congr fun v => and_congr_right fun hv => ?_)
    rw [found_of_valueFound (hgrammar (k, v) hv)]

/-- What must be checked of an item. -/
theorem goodItem_of_checks
    (hkey : x.1 ≠ [] ∧ x.1.all isKeyChar = true)
    (htext : x.2 ≠ [] ∧ x.2.getLast? ≠ some '\\' ∧
      (x.2.head?.toList ++ x.2.getLast?.toList).all (fun c => !isSpace c) = true ∧
      ∀ i < x.2.length, x.2[i]? = some ',' ∨ x.2[i]? = some '=' → 0 < i ∧ x.2[i - 1]? = some '\\')
    (hint : ("(int)".toList <+: x.2 → isInteger (x.2.drop 5) = true ∧ InRange (signedValue (x.2.drop 5))) ∧
      (isInteger x.2 = true → InRange (signedValue x.2))) : GoodItem x where
  key_ne_nil := hkey.1
  key := List.all_eq_true.1 hkey.2
  value := {
    ne_nil := htext.1
    escaped := htext.2.2.2
    last := htext.2.1
    space c hc := by
      have hall := List.all_eq_true.1 htext.2.2.1 c (by simpa using hc)
      simpa using hall
    typed r hr := by
      have hdrop : x.2.drop 5 = r := by
        rw [hr]
        rfl
      exact hdrop ▸ hint.1 ⟨r, hr.symm⟩
    untyped := hint.2 }

/-- A description with each kind of value. -/
def sampleItems : List Item :=
  [("format".toList, "(string)I420".toList), ("framerate".toList, "(fraction)30/1".toList),
    ("width".toList, "(int)640".toList), ("offset".toList, "-12".toList),
    ("label".toList, "\"a \\, \\(b\\)\"".toList)]

theorem goodItem_of_sample : ∀ x ∈ sampleItems, GoodItem x := by
  simp only [sampleItems, List.forall_mem_cons]
  refine ⟨goodItem_of_checks ?_ ?_ ?_, goodItem_of_checks ?_ ?_ ?_, goodItem_of_checks ?_ ?_ ?_,
    goodItem_of_checks ?_ ?_ ?_, goodItem_of_checks ?_ ?_ ?_, by simp⟩ <;> decide

theorem sampleItems_followsGrammar : FollowsGrammar "video/x-raw".toList sampleItems := by
  refine (followsGrammar_iff ⟨by simp, by decide, by decide⟩ (by decide) goodItem_of_sample).2 ?_
  intro x hx
  simp only [sampleItems, List.mem_cons, List.not_mem_nil, or_false] at hx
  rcases hx with rfl | rfl | rfl | rfl | rfl
  · exact Or.inr ((meaning_iff _).1 rfl)
  · exact Or.inr ((meaning_iff _).1 rfl)
  · exact Or.inl rfl
  · exact Or.inl rfl
  · exact Or.inr ⟨(meaning_iff _).1 rfl, rfl, fun sm rest h => by cases h⟩

/-- A word in parentheses behind the beginning of a value. -/
def parenthesised : Item := ("k".toList, "hello(world)".toList)

theorem parenthesised_not_followsGrammar :
    GoodItem parenthesised ∧ grammar parenthesised.2 = .string "hello(world)".toList ∧
      ¬ FollowsGrammar "caps".toList [parenthesised] := by
  refine ⟨goodItem_of_checks (by decide) (by decide) (by decide), rfl, ?_⟩
  rintro ⟨t, ht, hget⟩
  have hfound : (parse ("caps".toList ++ listing [parenthesised])).toOption.bind (·.get "k".toList) =
      some (.string "orld)".toList) := rfl
  rw [ht] at hfound
  obtain ⟨v, hv, ha⟩ := (hget _ _).1 hfound
  rw [(Prod.mk.inj (List.mem_singleton.1 hv)).2] at ha
  exact absurd ha (by decide)

end TypeDesc

end Shmdata

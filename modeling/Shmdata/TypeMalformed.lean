/-
**Malformed items.**

An item that is no `key=value` is reported and passed over.  This is so wherever it stands in a description,
and whatever its text, as long as it contains no comma and does not escape the one behind it: the separators
on its two sides remain, and with them all the other words.  What counts is the item as the parser sees it: the
blanks around it belong to the separators, and an escaped equal sign is no equal sign.  As always in `parse`, the
matcher of the regular expressions is taken to come to its end on every text.

Main definitions:

* `Shmdata.TypeDesc.tokenOf`, `Shmdata.TypeDesc.Malformed` — an item as the parser sees it;
* `Shmdata.TypeDesc.PassedOver` — an item changes nothing but the parsing errors.

Main results:

* `Shmdata.TypeDesc.words_insert` — an item in the middle is one more word;
* `Shmdata.TypeDesc.passedOver_of_malformed` — **a malformed item is isolated**.
-/

import Shmdata.TypeWords

set_option relaxedAutoImplicit false
set_option autoImplicit false

namespace Shmdata

open Regex

namespace TypeDesc

/-- `A, B`. -/
def joined (a b : List Char) : List Char := a ++ ',' :: ' ' :: b

/-- An item with its markers, without the blanks around it. -/
def tokenOf (m : List Char) : List Char := trim (escape m)

/-- Without the white space around its equal signs, the text is no `key=value`. -/
def Malformed (m : List Char) : Prop := fullMatch keyvalRgx (replaceAll spaceRgx ['='] m) = false

instance (m : List Char) : Decidable (Malformed m) := inferInstanceAs (Decidable (_ = false))

/-- The item `m` between `a` and `b` changes nothing but the parsing errors, to which its own report is added
between those of `a` and those of `b`. -/
def PassedOver (a m b : List Char) (t : TypeDesc) : Prop :=
  ∃ u ta tb, parse (joined a (joined m b)) = .ok u ∧ parse (joined a []) = .ok ta ∧
    parse (joined ['a'] b) = .ok tb ∧ u.name = t.name ∧ u.properties = t.properties ∧ u.str = t.str ∧
    t.parsingErrors = ta.parsingErrors ++ tb.parsingErrors ∧
    u.parsingErrors = ta.parsingErrors ++ (wrongSyntax ++ tokenOf m) ++ tb.parsingErrors

variable {a b m : List Char} {t : TypeDesc} {c : Char}

/-! ### Words -/

theorem words_joined (h : a.getLast? ≠ some '\\') (b : List Char) :
    words (joined a b) = words (a ++ [',']) ++ words (b.dropWhile isBlank) := words_append h _

/-- A text with something besides blanks leaves a word. -/
theorem tokenOf_ne_nil (hc : c ∈ m) (hb : c ≠ ' ') : tokenOf m ≠ [] := by
  rw [tokenOf, trim, dropWhile_escape]
  intro hnil
  have hall := List.rdropWhile_eq_nil_iff.1 hnil
  have hdrop : m.dropWhile isBlank ≠ [] := fun h => hb (eq_of_beq (List.dropWhile_eq_nil_iff.1 h c hc))
  obtain ⟨d, u, hd⟩ := List.exists_cons_of_ne_nil (escape_ne_nil hdrop)
  rw [hd] at hall
  -- the text begins with no blank
  have hblank : isBlank d = true := hall d List.mem_cons_self
  have hhead : (escape (m.dropWhile isBlank)).head? = some ' ' := by
    rw [hd, ← eq_of_beq hblank]
    rfl
  have hnot := List.head?_dropWhile_not isBlank m
  rw [head?_escape hhead (by decide)] at hnot
  cases hnot

theorem coma_not_mem_escape (h : ',' ∉ m) : ',' ∉ escape m := fun hc =>
  h (mem_of_plain (plain_of_mem_escape hc (Or.inl rfl)))

/-- **An item in the middle is one more word.** -/
theorem words_insert (ha : a.getLast? ≠ some '\\') (hm : m.getLast? ≠ some '\\') (hcoma : ',' ∉ m)
    (hne : tokenOf m ≠ []) (b : List Char) :
    words (joined a (joined m b)) = words (a ++ [',']) ++ tokenOf m :: words (b.dropWhile isBlank) := by
  have hnil : m.dropWhile isBlank ≠ [] := by
    intro h
    rw [tokenOf, trim, dropWhile_escape, h] at hne
    exact hne rfl
  have hdrop : (joined m b).dropWhile isBlank = joined (m.dropWhile isBlank) b := by
    rw [joined, List.dropWhile_append, if_neg (by simpa using hnil), joined]
  have hlast : (m.dropWhile isBlank).getLast? ≠ some '\\' := by
    rwa [← List.takeWhile_append_dropWhile (p := isBlank) (l := m), List.getLast?_append_of_ne_nil _ hnil] at hm
  have hmem : ',' ∉ escape (m.dropWhile isBlank) :=
    coma_not_mem_escape fun hc => hcoma ((List.dropWhile_suffix isBlank).subset hc)
  have hword : (escape (m.dropWhile isBlank)).rdropWhile isBlank = tokenOf m := by
    rw [tokenOf, trim, dropWhile_escape]
  rw [words_joined ha, hdrop, words_joined hlast, words_coma hlast hmem, hword, List.filter_cons,
    if_pos (by simpa using hne)]
  rfl

/-! ### The theorem -/

theorem itemOf_malformed (h : Malformed m) (hne : m ≠ []) : itemOf m = none ∧ report m = wrongSyntax ++ m := by
  have hnone : itemOf m = none := by
    rw [itemOf, if_neg hne]
    exact if_neg (by rw [h]; decide)
  exact ⟨hnone, if_neg (by simp [hne, hnone])⟩

/-- **A malformed item is isolated**: between two parts of a description it changes nothing but the parsing
errors. -/
theorem passedOver_of_malformed (hname : ∃ c ∈ a, c ≠ ' ' ∧ c ≠ ',') (ha : a.getLast? ≠ some '\\')
    (hcoma : ',' ∉ m) (hm : m.getLast? ≠ some '\\') (hblank : ∃ c ∈ m, c ≠ ' ')
    (hbad : Malformed (tokenOf m)) (h : parse (joined a b) = .ok t) : PassedOver a m b t := by
  obtain ⟨c, hc, hcb, hcc⟩ := hname
  obtain ⟨d, hd, hdb⟩ := hblank
  have hne := tokenOf_ne_nil hd hdb
  obtain ⟨hitem, hreport⟩ := itemOf_malformed hbad hne
  -- the words of the four descriptions
  obtain ⟨n, wa, hwa⟩ := List.exists_cons_of_ne_nil
    (words_ne_nil hcb hcc (List.mem_append_left [','] hc))
  have hwords := words_joined ha b
  have hinsert := words_insert ha hm hcoma hne b
  have hfirst := words_joined ha []
  have hsecond := words_joined (a := ['a']) (by decide) b
  generalize words (b.dropWhile isBlank) = wb at hwords hinsert hsecond
  have hnil : words (List.dropWhile isBlank []) = [] := rfl
  have hletter : words (['a'] ++ [',']) = [['a']] := rfl
  rw [hwa] at hwords hinsert hfirst
  rw [hnil, List.append_nil] at hfirst
  rw [hletter] at hsecond
  obtain ⟨hconv, ht⟩ := parse_eq_ok_words.1 h
  rw [hwords, List.cons_append, List.tail_cons, List.filterMap_append] at hconv
  rw [hwords, List.cons_append, List.tail_cons, List.headD_cons] at ht
  have hall : Converts ((wa ++ tokenOf m :: wb).filterMap itemOf) := by
    rwa [List.filterMap_append, List.filterMap_cons_none hitem]
  have hparse {s n : List Char} {ws : List (List Char)} (hs : words s = n :: ws)
      (hc : Converts (ws.filterMap itemOf)) : parse s = .ok (addTokens (ofName n) ws) :=
    parse_eq_ok_words.2 ⟨by rwa [hs], by rw [hs]; rfl⟩
  have hitems : (wa ++ tokenOf m :: wb).filterMap itemOf = (wa ++ wb).filterMap itemOf := by
    rw [List.filterMap_append, List.filterMap_cons_none hitem, List.filterMap_append]
  have hu : addTokens (ofName n) (wa ++ tokenOf m :: wb) =
      { t with parsingErrors := (addTokens (ofName n) (wa ++ tokenOf m :: wb)).parsingErrors } := by
    rw [ht, addTokens, addTokens, hitems]
  refine ⟨addTokens (ofName n) (wa ++ tokenOf m :: wb), addTokens (ofName n) wa,
    addTokens (ofName ['a']) wb, hparse hinsert hall, hparse hfirst fun x hx => hconv x (List.mem_append_left _ hx),
    hparse hsecond fun x hx => hconv x (List.mem_append_right _ hx), by rw [hu], by rw [hu],
    by rw [hu]; rfl, ?_, ?_⟩
  · rw [ht]
    simp [addTokens, ofName]
  · simp [addTokens, ofName, hreport]

/-- An item with two equal signs between two properties. -/
theorem twoEquals_passedOver : ∃ t, parse "caps, width=(int)320, height=(int)240".toList = .ok t ∧
    PassedOver "caps, width=(int)320".toList "a = b = c".toList "height=(int)240".toList t := by
  have hok : (parse "caps, width=(int)320, height=(int)240".toList).toOption.isSome = true := by
    decide +kernel
  cases hp : parse "caps, width=(int)320, height=(int)240".toList with
  | error e =>
      rw [hp] at hok
      cases hok
  | ok t =>
      exact ⟨t, rfl, passedOver_of_malformed ⟨'c', by decide, by decide⟩ (by decide) (by decide) (by decide)
        ⟨'a', by decide, by decide⟩ (by decide) hp⟩

/-- **The blanks around an item and its escaped equal signs do not make it malformed.** -/
theorem spaced_not_passedOver :
    (Malformed " k=v".toList ∧ ∃ t, parse (joined "caps".toList []) = .ok t ∧ t.get ['k'] = none ∧
      (∃ u, parse (joined "caps".toList (joined " k=v".toList [])) = .ok u ∧
        u.get ['k'] = some (.string ['v'])) ∧ ¬ PassedOver "caps".toList " k=v".toList [] t) ∧
    Malformed "k=x\\=y".toList ∧ ∃ t, parse (joined "caps".toList []) = .ok t ∧
      (∃ u, parse (joined "caps".toList (joined "k=x\\=y".toList [])) = .ok u ∧
        u.get ['k'] = some (.string "x=y".toList)) ∧
      ¬ PassedOver "caps".toList "k=x\\=y".toList [] t := by
  have hnot {t u : TypeDesc} {m : List Char} {v : Any} (ht : t.get ['k'] = none)
      (hu : parse (joined "caps".toList (joined m [])) = .ok u) (hv : u.get ['k'] = some v) :
      ¬ PassedOver "caps".toList m [] t := by
    rintro ⟨u', -, -, hu', -, -, -, hprop, -⟩
    obtain rfl := Except.ok.inj (hu.symm.trans hu')
    rw [get, hprop] at hv
    rw [get, hv] at ht
    cases ht
  have hcaps : parse (joined "caps".toList []) = .ok (ofName "caps".toList) := rfl
  have hspaced : ∃ u, parse (joined "caps".toList (joined " k=v".toList [])) = .ok u ∧
      u.get ['k'] = some (.string ['v']) := ⟨_, rfl, rfl⟩
  have hescaped : ∃ u, parse (joined "caps".toList (joined "k=x\\=y".toList [])) = .ok u ∧
      u.get ['k'] = some (.string "x=y".toList) := ⟨_, rfl, rfl⟩
  refine ⟨⟨by decide, _, hcaps, rfl, hspaced, ?_⟩, by decide, _, hcaps, hescaped, ?_⟩
  · obtain ⟨u, hu, hv⟩ := hspaced
    exact hnot rfl hu hv
  · obtain ⟨u, hu, hv⟩ := hescaped
    exact hnot rfl hu hv

end TypeDesc

end Shmdata

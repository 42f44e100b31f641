/-
**Which strings survive the value codec.**

`Type::get_serialized_string_value` writes four characters with backslashes and puts the value in quotes if it
has to; `Type::escape` turns two of these escapes into markers, and `Type::unescape` turns everything back,
with all double quotes removed.  A double quote of the string itself is lost.  The markers are ordinary text:
a string that contains one, or that comes to contain one when a comma or an equal sign next to it is written
as a marker, is read as another string.  There are eighteen such texts, and no string without them and without
double quotes is changed.

Main definitions:

* `Shmdata.TypeDesc.traps` — the texts that are taken for markers.

Main results:

* `Shmdata.TypeDesc.noStray_coma_iff`, `Shmdata.TypeDesc.noStray_equal_iff` — no marker is found by mistake;
* `Shmdata.TypeDesc.survives_iff` — **a string survives exactly if it has no double quotes and no traps**.
-/

import Shmdata.TypeAtoms

set_option relaxedAutoImplicit false
set_option autoImplicit false

namespace Shmdata

open Regex

namespace TypeDesc

/-! ### Markers in a coded string -/

/-- The two blanks at the end of a marker are those of the string, or the second of them or both are in the
marker that is written for a character of `marks`. -/
def endings (marks : List Char) : List (List Char) := ['_', '_'] :: marks.flatMap fun c => [['_', c], [c]]

/-- A code that writes markers for `marks` and leaves blanks and the characters of the word `m` alone. -/
structure Marking (f : Char → List Char) (m marks : List Char) : Prop where
  mark : ∀ c ∈ marks, ∃ s, f c = '_' :: '_' :: s
  blank : f '_' = ['_']
  letter : ∀ c ∈ m, f c = [c]
  other : ∀ c, c ∉ marks → c ≠ '_' → c ∉ m → ∃ e s, f c = e :: s ∧ e ≠ '_' ∧ e ∉ m
  word : '_' ∉ m

variable {f : Char → List Char} {m marks u v w r s : List Char} {c d : Char}

/-- A character of the word is found where it is written. -/
theorem Marking.letter_prefix (hf : Marking f m marks) (hd : d ∈ m) :
    d :: r <+: (c :: u).flatMap f ↔ c = d ∧ r <+: u.flatMap f := by
  have hblank : d ≠ '_' := fun h => hf.word (h ▸ hd)
  rw [List.flatMap_cons]
  by_cases hcd : c = d
  · subst hcd
    rw [hf.letter c hd, List.singleton_append, List.cons_prefix_cons]
  · refine iff_of_false (fun h => ?_) fun h => hcd h.1
    have hhead {e : Char} {s : List Char} (he : f c = e :: s) : d = e := by
      rw [he, List.cons_append] at h
      exact (List.cons_prefix_cons.1 h).1
    by_cases hmark : c ∈ marks
    · obtain ⟨s, hs⟩ := hf.mark c hmark
      exact hblank (hhead hs)
    · by_cases hc : c = '_'
      · subst hc
        exact hblank (hhead hf.blank)
      · by_cases hm : c ∈ m
        · exact hcd (hhead (hf.letter c hm)).symm
        · obtain ⟨e, s, hs, -, he⟩ := hf.other c hmark hc hm
          exact he (hhead hs ▸ hd)

/-- The word is found where it is written. -/
theorem Marking.word_prefix (hf : Marking f m marks) (hw : w ⊆ m) :
    w ++ r <+: u.flatMap f ↔ ∃ t, u = w ++ t ∧ r <+: t.flatMap f := by
  induction w generalizing u with
  | nil => exact ⟨fun h => ⟨u, rfl, h⟩, fun ⟨t, ht, h⟩ => ht ▸ h⟩
  | cons d w ih =>
      cases u with
      | nil => exact iff_of_false (by simp) (by simp)
      | cons c u =>
          rw [List.cons_append, hf.letter_prefix (hw List.mem_cons_self),
            ih (List.subset_of_cons_subset hw)]
          constructor
          · rintro ⟨rfl, t, rfl, h⟩
            exact ⟨t, rfl, h⟩
          · rintro ⟨t, ht, h⟩
            obtain ⟨rfl, rfl⟩ := List.cons.inj ht
            exact ⟨rfl, t, rfl, h⟩

/-- A blank is one of the string, or the beginning of a marker. -/
theorem Marking.blank_prefix (hf : Marking f m marks) :
    '_' :: r <+: (c :: u).flatMap f ↔
      (c = '_' ∧ r <+: u.flatMap f) ∨ (c ∈ marks ∧ '_' :: r <+: f c ++ u.flatMap f) := by
  rw [List.flatMap_cons]
  constructor
  · intro h
    by_cases hmark : c ∈ marks
    · exact Or.inr ⟨hmark, h⟩
    · left
      have hhead {e : Char} {s : List Char} (he : f c = e :: s) : '_' = e := by
        rw [he, List.cons_append] at h
        exact (List.cons_prefix_cons.1 h).1
      by_cases hc : c = '_'
      · subst hc
        rw [hf.blank, List.singleton_append, List.cons_prefix_cons] at h
        exact ⟨rfl, h.2⟩
      · by_cases hm : c ∈ m
        · exact absurd (hhead (hf.letter c hm)).symm hc
        · obtain ⟨e, s, hs, he, -⟩ := hf.other c hmark hc hm
          exact absurd (hhead hs).symm he
  · rintro (⟨rfl, h⟩ | ⟨-, h⟩)
    · rw [hf.blank, List.singleton_append, List.cons_prefix_cons]
      exact ⟨rfl, h⟩
    · exact h

/-- One blank. -/
theorem Marking.one_blank (hf : Marking f m marks) :
    ['_'] <+: u.flatMap f ↔ ∃ c ∈ '_' :: marks, [c] <+: u := by
  cases u with
  | nil => simp
  | cons c u =>
      rw [hf.blank_prefix]
      have hmark : c ∈ marks → ['_'] <+: f c ++ u.flatMap f := fun hc => by
        obtain ⟨s, hs⟩ := hf.mark c hc
        rw [hs]
        simp
      simp only [List.nil_prefix, and_true, and_iff_left_of_imp hmark]
      simp [List.cons_prefix_cons]

/-- **The end of a marker.** -/
theorem Marking.two_blanks (hf : Marking f m marks) :
    ['_', '_'] <+: u.flatMap f ↔ ∃ q ∈ endings marks, q <+: u := by
  cases u with
  | nil => simp [endings]
  | cons c u =>
      rw [hf.blank_prefix, hf.one_blank]
      have hmark : c ∈ marks → ['_', '_'] <+: f c ++ u.flatMap f := fun hc => by
        obtain ⟨s, hs⟩ := hf.mark c hc
        rw [hs]
        simp
      rw [and_iff_left_of_imp hmark]
      constructor
      · rintro (⟨rfl, d, hd, h⟩ | hc)
        · rcases List.mem_cons.1 hd with rfl | hd
          · exact ⟨['_', '_'], by simp [endings], List.cons_prefix_cons.2 ⟨rfl, h⟩⟩
          · exact ⟨['_', d], by simp [endings, hd], List.cons_prefix_cons.2 ⟨rfl, h⟩⟩
        · exact ⟨[c], by simp [endings, hc], by simp⟩
      · rintro ⟨q, hq, h⟩
        rcases List.mem_cons.1 hq with rfl | hq
        · obtain ⟨hc, htail⟩ := List.cons_prefix_cons.1 h
          exact Or.inl ⟨hc.symm, '_', by simp, htail⟩
        · obtain ⟨d, hd, hq⟩ := List.mem_flatMap.1 hq
          rcases List.mem_pair.1 hq with rfl | rfl
          · obtain ⟨hc, htail⟩ := List.cons_prefix_cons.1 h
            exact Or.inl ⟨hc.symm, d, by simp [hd], htail⟩
          · exact Or.inr ((List.cons_prefix_cons.1 h).1 ▸ hd)

/-- The word of a marker and the end of it. -/
theorem Marking.word_blanks (hf : Marking f m marks) :
    m ++ ['_', '_'] <+: u.flatMap f ↔ ∃ q ∈ endings marks, m ++ q <+: u := by
  rw [hf.word_prefix (List.Subset.refl m)]
  constructor
  · rintro ⟨t, rfl, h⟩
    obtain ⟨q, hq, h⟩ := hf.two_blanks.1 h
    exact ⟨q, hq, (List.prefix_append_right_inj m).2 h⟩
  · rintro ⟨q, hq, t, rfl⟩
    exact ⟨q ++ t, by simp, hf.two_blanks.2 ⟨q, hq, by simp⟩⟩

/-- The same, with a blank in front of the word. -/
theorem Marking.blank_word_blanks (hf : Marking f m marks) (hne : m ≠ []) :
    '_' :: (m ++ ['_', '_']) <+: u.flatMap f ↔ ∃ q ∈ endings marks, '_' :: (m ++ q) <+: u := by
  cases u with
  | nil => simp
  | cons c u =>
      rw [hf.blank_prefix, hf.word_blanks]
      constructor
      · rintro (⟨rfl, q, hq, h⟩ | ⟨hc, h⟩)
        · exact ⟨q, hq, List.cons_prefix_cons.2 ⟨rfl, h⟩⟩
        · -- the second character of a marker is a blank
          obtain ⟨s, hs⟩ := hf.mark c hc
          obtain ⟨d, w, rfl⟩ := List.exists_cons_of_ne_nil hne
          rw [hs] at h
          have hd := (List.cons_prefix_cons.1 (List.cons_prefix_cons.1 h).2).1
          exact absurd (hd ▸ List.mem_cons_self) hf.word
      · rintro ⟨q, hq, h⟩
        obtain ⟨hc, htail⟩ := List.cons_prefix_cons.1 h
        exact Or.inl ⟨hc.symm, q, hq, htail⟩

/-! ### Texts that are taken for markers -/

/-- `__COMA__` with blanks of the string or of the markers that are written next to it. -/
def comaTraps : List (List Char) :=
  (endings [',', '=']).flatMap fun q => ["__COMA".toList ++ q, "=COMA".toList ++ q, "=_COMA".toList ++ q]

/-- `__EQUAL__`; the commas have been turned back when it is looked for. -/
def equalTraps : List (List Char) := (endings ['=']).map fun q => "__EQUAL".toList ++ q

/-- The texts that `Type::unescape` takes for markers. -/
def traps : List (List Char) := comaTraps ++ equalTraps

/-- What is left of a character of a string when the markers of commas are replaced. -/
abbrev comaCode : Char → List Char := code [','] equalMark ['\\', '('] ['\\', ')']

theorem marking_marked : Marking markedCode "COMA".toList [',', '='] where
  mark c hc := by
    rcases List.mem_pair.1 hc with rfl | rfl
    · exact ⟨_, rfl⟩
    · exact ⟨_, rfl⟩
  blank := rfl
  letter := List.forall_iff_forall_mem.1 ⟨rfl, rfl, rfl, rfl⟩
  other c hc hblank hm := by
    unfold markedCode code
    simp only [List.mem_cons, List.not_mem_nil, or_false, not_or] at hc
    rw [if_neg hc.1, if_neg hc.2]
    split_ifs
    · exact ⟨_, _, rfl, by decide, by decide⟩
    · exact ⟨_, _, rfl, by decide, by decide⟩
    · exact ⟨_, _, rfl, hblank, hm⟩
  word := by decide

theorem marking_coma : Marking comaCode "EQUAL".toList ['='] where
  mark c hc := by
    obtain rfl := List.mem_singleton.1 hc
    exact ⟨_, rfl⟩
  blank := rfl
  letter := List.forall_iff_forall_mem.1 ⟨rfl, rfl, rfl, rfl, rfl⟩
  other c hc hblank hm := by
    unfold comaCode code
    rw [List.mem_singleton] at hc
    rw [if_neg hc]
    split_ifs
    · exact ⟨_, _, rfl, by decide, by decide⟩
    · exact ⟨_, _, rfl, by decide, by decide⟩
    · exact ⟨_, _, rfl, by decide, by decide⟩
    · exact ⟨_, _, rfl, hblank, hm⟩
  word := by decide

/-- Where a marker of a comma begins by mistake. -/
theorem free_comaMark_iff (h : c ≠ ',') :
    Free comaMark (markedCode c) (u.flatMap markedCode) ↔ ∀ w ∈ comaTraps, ¬ w <+: c :: u := by
  have hword := marking_marked.word_blanks (u := u)
  have hblank := marking_marked.blank_word_blanks (u := u) (by simp)
  have htraps : (∀ w ∈ comaTraps, ¬ w <+: c :: u) ↔ ∀ q ∈ endings [',', '='],
      (c = '_' → ¬ '_' :: ("COMA".toList ++ q) <+: u) ∧
        (c = '=' → ¬ "COMA".toList ++ q <+: u ∧ ¬ '_' :: ("COMA".toList ++ q) <+: u) := by
    rw [comaTraps, List.forall_mem_flatMap]
    refine forall₂_congr fun q _ => ?_
    simp [List.cons_prefix_cons, imp_and, @eq_comm _ _ c]
  rw [htraps]
  generalize u.flatMap markedCode = x at hword hblank ⊢
  by_cases hc : c = '_'
  · -- the marker goes on with a blank and the word
    subst hc
    have hcode : markedCode '_' = ['_'] := rfl
    have hmark : comaMark = '_' :: '_' :: ("COMA".toList ++ ['_', '_']) := rfl
    rw [hcode, free_cons_iff, hmark, List.cons_prefix_cons, List.nil_append, hblank]
    simp [free_nil]
  · by_cases hequal : c = '='
    · -- the marker begins with the last two blanks of the other one, or with the last
      subst hequal
      have hcode : markedCode '=' = equalMark := rfl
      have hfree : Free comaMark equalMark x ↔
          ¬ "COMA".toList ++ ['_', '_'] <+: x ∧ ¬ '_' :: ("COMA".toList ++ ['_', '_']) <+: x := by
        simp [free_cons_iff, free_nil, equalMark, comaMark]
      rw [hcode, hfree, hword, hblank]
      simp [forall_and]
    · have hnot : '_' ∉ markedCode c := by
        unfold markedCode code
        rw [if_neg h, if_neg hequal]
        split_ifs <;> simp [Ne.symm hc]
      exact iff_of_true (free_of_not_mem hnot) fun q _ => ⟨fun h => absurd h hc, fun h => absurd h hequal⟩

/-- No marker of a comma is found by mistake. -/
theorem noStray_coma_iff : NoStray markedCode ',' v ↔ ∀ w ∈ comaTraps, ¬ w <:+: v :=
  noStray_iff_infix (by decide) fun _ _ => free_comaMark_iff

/-- Where a marker of an equal sign begins by mistake. -/
theorem free_equalMark_iff (h : c ≠ '=') :
    Free equalMark (comaCode c) (u.flatMap comaCode) ↔ ∀ w ∈ equalTraps, ¬ w <+: c :: u := by
  have hblank := marking_coma.blank_word_blanks (u := u) (by simp)
  have htraps : (∀ w ∈ equalTraps, ¬ w <+: c :: u) ↔ ∀ q ∈ endings ['='],
      c = '_' → ¬ '_' :: ("EQUAL".toList ++ q) <+: u := by
    simp [equalTraps, List.cons_prefix_cons, @eq_comm _ _ c]
  rw [htraps]
  generalize u.flatMap comaCode = x at hblank ⊢
  by_cases hc : c = '_'
  · subst hc
    have hcode : comaCode '_' = ['_'] := rfl
    have hmark : equalMark = '_' :: '_' :: ("EQUAL".toList ++ ['_', '_']) := rfl
    rw [hcode, free_cons_iff, hmark, List.cons_prefix_cons, List.nil_append, hblank]
    simp [free_nil]
  · have hnot : '_' ∉ comaCode c := by
      unfold comaCode code
      rw [if_neg h]
      split_ifs <;> simp [Ne.symm hc]
    exact iff_of_true (free_of_not_mem hnot) fun q _ h => absurd h hc

/-- No marker of an equal sign is found by mistake. -/
theorem noStray_equal_iff : NoStray comaCode '=' v ↔ ∀ w ∈ equalTraps, ¬ w <:+: v :=
  noStray_iff_infix (by decide) fun _ _ => free_equalMark_iff

/-! ### The codec -/

/-- The atom that is written for a character. -/
def charAtom (c : Char) : Atom :=
  if c = ',' then .coma else if c = '=' then .equal else if c = '(' then .lparent
  else if c = ')' then .rparent else .plain c

theorem decode_charAtom (coma equal lparent rparent quote : List Char) (c : Char) :
    decode coma equal lparent rparent quote (charAtom c) = code coma equal lparent rparent c := by
  unfold charAtom code
  split_ifs <;> rfl

theorem flatMap_charAtom (coma equal lparent rparent quote v : List Char) :
    (v.map charAtom).flatMap (decode coma equal lparent rparent quote) =
      v.flatMap (code coma equal lparent rparent) := by
  rw [List.flatMap_map]
  exact List.flatMap_congr fun c _ => decode_charAtom ..

theorem charAtom_eq_coma (c : Char) : charAtom c = .coma ↔ c = ',' := by
  unfold charAtom
  split_ifs <;> simp_all

theorem charAtom_eq_equal (c : Char) : charAtom c = .equal ↔ c = '=' := by
  unfold charAtom
  split_ifs <;> simp_all

/-- No parenthesis is written without its backslash. -/
theorem noGap_charAtom (v : List Char) : NoGap (v.map charAtom) := by
  intro u hu
  obtain ⟨t, rfl⟩ : ∃ t : List Char, u = t.map charAtom := by
    obtain ⟨x, hx⟩ := hu
    obtain ⟨-, y, -, -, hy⟩ := List.map_eq_append_iff.1 hx.symm
    obtain ⟨-, t, -, -, ht⟩ := List.map_eq_cons_iff.1 hy
    exact ⟨t, ht.symm⟩
  rw [flatMap_charAtom]
  cases t with
  | nil => simp
  | cons c t =>
      rw [List.flatMap_cons]
      unfold code
      split_ifs <;> simp_all

/-- **A string without traps is taken for nothing else.** -/
theorem faithful_charAtom (v : List Char) : Faithful (v.map charAtom) ↔ ∀ w ∈ traps, ¬ w <:+: v := by
  have hcoma : NoStray markedAtom .coma (v.map charAtom) ↔ NoStray markedCode ',' v := by
    rw [noStray_map charAtom_eq_coma]
    simp only [decode_charAtom]
  have hequal : NoStray quoteAtom .equal (v.map charAtom) ↔ NoStray comaCode '=' v := by
    rw [noStray_map charAtom_eq_equal]
    simp only [decode_charAtom]
  rw [traps, List.forall_mem_append, ← noStray_coma_iff, ← noStray_equal_iff, ← hcoma, ← hequal]
  exact ⟨fun h => ⟨h.coma, h.equal⟩, fun h => ⟨h.1, h.2, noGap_charAtom v⟩⟩

/-- The quotes around a value are removed. -/
theorem unescape_around (v s : List Char) : unescape (quote v s) = unescape s := by
  unfold quote
  split
  · have hcoma : replaceAll (lit comaMark) [','] ('"' :: (s ++ ['"'])) =
        '"' :: (replaceAll (lit comaMark) [','] s ++ ['"']) := by
      have hborder (x y : List Char) : replaceAll (lit comaMark) [','] (x ++ '"' :: y) =
          replaceAll (lit comaMark) [','] x ++ '"' :: replaceAll (lit comaMark) [','] y :=
        replaceAll_border (by decide) (by decide) x y
      have hfront := hborder [] (s ++ ['"'])
      have hback := hborder s []
      rw [replaceAll_nil] at hfront hback
      rw [← hback]
      exact hfront
    rw [unescape, unescape, hcoma, replaceAll_char, replaceAll_char]
    simp
  · rfl

/-- No double quote is left. -/
theorem quote_not_mem_unescape (s : List Char) : '"' ∉ unescape s := by
  intro h
  have h := mem_of_mem_replaceAll (by simp) (by decide) h
  have h := mem_of_mem_replaceAll (by simp) (by decide) h
  have h := mem_of_mem_replaceAll (by decide) (by decide) h
  rw [replaceAll_char] at h
  obtain ⟨c, -, hc⟩ := List.mem_flatMap.1 h
  split_ifs at hc with hq
  · simp at hc
  · exact hq (List.mem_singleton.1 hc).symm

/-- A string is what is read of what is written for it. -/
def Survives (v : List Char) : Prop :=
  (getSerializedStringValue (.string v)).map (fun s => unescape (escape s)) = .ok v

theorem survives_eq (v : List Char) : Survives v ↔ unescape (escape (serializedString v)) = v :=
  ⟨Except.ok.inj, congrArg Except.ok⟩

/-- **A string survives the codec exactly if it has no double quotes and no traps.** -/
theorem survives_iff (v : List Char) : Survives v ↔ '"' ∉ v ∧ ∀ w ∈ traps, ¬ w <:+: v := by
  have hread : unescape (escape (serializedString v)) = unescape ((v.map charAtom).flatMap markedAtom) := by
    have h := escape_serialized (v := v) (y := []) (Or.inl rfl)
    rw [List.append_nil, escape_nil, List.append_nil] at h
    rw [h, unescape_around, flatMap_charAtom]
  have hmeant : (v.map charAtom).flatMap meantAtom = v := by
    rw [flatMap_charAtom]
    refine (List.flatMap_congr fun c _ => ?_).trans (List.flatMap_singleton' v)
    unfold code
    split_ifs <;> simp_all
  rw [survives_eq, hread]
  by_cases hquote : '"' ∈ v
  · exact iff_of_false (fun h => quote_not_mem_unescape _ (h ▸ hquote)) fun h => h.1 hquote
  · have hq : Atom.plain '"' ∉ v.map charAtom := by
      intro hmem
      obtain ⟨c, hc, heq⟩ := List.mem_map.1 hmem
      unfold charAtom at heq
      split_ifs at heq
      exact hquote (Atom.plain.inj heq ▸ hc)
    have h := unescape_marked_iff (b := []) (l := v.map charAtom) (by simp) hq
    rw [List.nil_append, hmeant, and_iff_right rfl, faithful_charAtom] at h
    rw [h, and_iff_right hquote]

/-- A double quote is lost; a marker is read as what it stands for, and so is one that is completed by the marker
of a comma. -/
theorem quoted_not_survives :
    ¬ Survives "say \"hi\"".toList ∧ ¬ Survives "__COMA__".toList ∧ ¬ Survives "__COMA,".toList := by
  simp only [survives_eq]
  refine ⟨?_, ?_, ?_⟩ <;> decide

end TypeDesc

end Shmdata

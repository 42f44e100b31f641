/-
**The layout of a description.**

The items of a description may stand in any order, with any number of spaces around the commas between them
and any white space around their equal signs.  The spaces belong to the separators, the white space around
the equal sign of an item is removed before it is read, and its key is inserted in a map that keeps the order
of its keys.  The escaped commas and equal signs of a value are no longer there when this happens.  White space
makes a text longer, and one that is too long for the matcher of the regular expressions is left out here.

Main definitions:

* `Shmdata.TypeDesc.Spacing` — the white space around the parts of an item;
* `Shmdata.TypeDesc.layout` — items with white space;
* `Shmdata.TypeDesc.Agree` — two texts give the same `Type`.

Main results:

* `Shmdata.TypeDesc.words_layout` — the words are the name and the items;
* `Shmdata.TypeDesc.parse_layout` — what the constructor makes of the items;
* `Shmdata.TypeDesc.agree_of_perm` — **the layout does not matter**.
-/

import Shmdata.TypeHistory
import Shmdata.TypeWords

set_option relaxedAutoImplicit false
set_option autoImplicit false

namespace Shmdata

open Regex

namespace TypeDesc

/-- The number of spaces around the comma in front of an item, and the white space around its equal sign. -/
structure Spacing where
  before : ℕ
  after : ℕ
  left : List Char
  right : List Char
  isSpace_left : ∀ c ∈ left, isSpace c = true
  isSpace_right : ∀ c ∈ right, isSpace c = true

/-- An item with white space around its equal sign. -/
def spacedText (x : Item × Spacing) : List Char := x.1.1 ++ (x.2.left ++ '=' :: (x.2.right ++ x.1.2))

/-- The items, with a comma in front of each. -/
def layout (xs : List (Item × Spacing)) : List Char :=
  xs.flatMap fun x =>
    List.replicate x.2.before ' ' ++ ',' :: (List.replicate x.2.after ' ' ++ spacedText x)

/-- The key is over `[A-Za-z0-9_-]`, and the value is clean and converted; there is a number behind `(int)`. -/
structure SoundItem (x : Item) : Prop where
  key_ne_nil : x.1 ≠ []
  key : ∀ c ∈ x.1, isKeyChar c = true
  value : CleanValue x.2
  bare : x.2 ≠ "(int)".toList
  converts : ∃ a, valueFound (escape x.2) = .ok a

/-- The two texts are read without an error, as the same name with the same properties, and are written as the
same text. -/
def Agree (name s₁ s₂ : List Char) : Prop :=
  ∃ t u s, parse s₁ = .ok t ∧ parse s₂ = .ok u ∧ t.name = name ∧ u.name = name ∧
    t.properties = u.properties ∧ t.parsingErrors = [] ∧ u.parsingErrors = [] ∧ t.str = .ok s ∧ u.str = .ok s

variable {name s : List Char} {xs ys : List (Item × Spacing)} {x : Item × Spacing} {t : TypeDesc}

/-! ### The words -/

theorem isBlank_of_mem_replicate {n : ℕ} {c : Char} (h : c ∈ List.replicate n ' ') : isBlank c = true :=
  beq_iff_eq.2 (List.eq_of_mem_replicate h)

/-- The text of an item, when the special characters have become markers. -/
theorem escape_spacedText (h : SoundItem x.1) :
    escape (spacedText x) = x.1.1 ++ (x.2.left ++ '=' :: (x.2.right ++ escape x.1.2)) := by
  have hspace {s : List Char} (hs : ∀ c ∈ s, isSpace c = true) : '\\' ∉ s := fun hc =>
    absurd (hs _ hc) (by decide)
  have hkey : '\\' ∉ x.1.1 := fun hc => absurd (h.key _ hc) (by decide)
  rw [spacedText, escape_append hkey, escape_append (hspace x.2.isSpace_left), escape_cons (by decide),
    escape_append (hspace x.2.isSpace_right)]

/-- No separator is in an item. -/
theorem coma_not_mem_spacedText (h : SoundItem x.1) : ',' ∉ escape (spacedText x) := by
  rw [escape_spacedText h]
  simp only [List.mem_append, List.mem_cons, not_or]
  exact ⟨fun hc => absurd (h.key _ hc) (by decide), fun hc => absurd (x.2.isSpace_left _ hc) (by decide),
    by decide, fun hc => absurd (x.2.isSpace_right _ hc) (by decide), h.value.not_mem_escape (Or.inl rfl)⟩

/-- A text that is one word: it has no separator, and no blank or backslash at its end. -/
structure OneWord (s : List Char) : Prop where
  ne_nil : s ≠ []
  coma : ',' ∉ escape s
  last : ∀ c, s.getLast? = some c → c ≠ ' ' ∧ c ≠ '\\'

theorem oneWord_spacedText (h : SoundItem x.1) : OneWord (spacedText x) := by
  refine ⟨by simp [spacedText], coma_not_mem_spacedText h, fun c hc => ?_⟩
  have hlast : (spacedText x).getLast? = x.1.2.getLast? := by
    rw [spacedText, ← List.append_assoc, ← List.cons_append, ← List.append_assoc,
      List.getLast?_append_of_ne_nil _ h.value.ne_nil]
  rw [hlast] at hc
  refine ⟨?_, ?_⟩
  · rintro rfl
    exact absurd (h.value.space ' ' (Or.inr hc)) (by decide)
  · rintro rfl
    exact h.value.last hc

theorem GoodName.oneWord (h : GoodName name) : OneWord name :=
  ⟨h.ne_nil, by rw [escape_of_not_mem h.backslash]; exact h.coma, fun c hc =>
    ⟨fun he => h.space (he ▸ List.mem_of_getLast? hc), fun he => h.backslash (he ▸ List.mem_of_getLast? hc)⟩⟩

/-- The word at the beginning of a text, and the rest of its words. -/
theorem words_cons (h : OneWord s) (n : ℕ) (y : List Char) :
    words (s ++ (List.replicate n ' ' ++ ',' :: y)) = escape s :: words (y.dropWhile isBlank) := by
  have hblank : '\\' ∉ List.replicate n ' ' := fun hc => absurd (List.eq_of_mem_replicate hc) (by decide)
  have hescape : escape (s ++ List.replicate n ' ') = escape s ++ List.replicate n ' ' := by
    rw [escape_append_of_last fun hl => (h.last _ hl).2 rfl, escape_of_not_mem hblank]
  have hlast : (s ++ List.replicate n ' ').getLast? ≠ some '\\' := by
    rw [List.getLast?_append]
    cases hl : (List.replicate n ' ').getLast? with
    | none => simpa using fun hl => (h.last _ hl).2 rfl
    | some c =>
        rw [Option.some_or]
        exact fun hc => hblank (Option.some.inj hc ▸ List.mem_of_getLast? hl)
  have hcoma : ',' ∉ escape (s ++ List.replicate n ' ') := by
    rw [hescape, List.mem_append, not_or]
    exact ⟨h.coma, fun hc => absurd (List.eq_of_mem_replicate hc) (by decide)⟩
  have hend : (escape s).getLast? ≠ some ' ' := fun hl => (h.last _ (getLast?_escape hl (by decide))).1 rfl
  rw [← List.append_assoc, words_append hlast, words_coma hlast hcoma, hescape, rdropWhile_blanks hend,
    List.filter_cons, if_pos (by simpa using escape_ne_nil h.ne_nil)]
  rfl

/-- **The words are the name and the items.** -/
theorem words_layout (h : OneWord s) (hx : ∀ x ∈ xs, SoundItem x.1) :
    words (s ++ layout xs) = escape s :: xs.map fun x => escape (spacedText x) := by
  induction xs generalizing s with
  | nil =>
      have hpass : Passes comaRgx (escape s) [] :=
        passes_coma h.coma fun hl => (h.last _ (getLast?_escape hl (by decide))).1 rfl
      rw [layout, List.flatMap_nil, List.append_nil, words, pieces_of_passes hpass, List.filter_cons,
        if_pos (by simpa using escape_ne_nil h.ne_nil)]
      rfl
  | cons x xs ih =>
      have hgood := hx x List.mem_cons_self
      have hdrop : (List.replicate x.2.after ' ' ++ (spacedText x ++ layout xs)).dropWhile isBlank =
          spacedText x ++ layout xs := by
        obtain ⟨c, key, hkey⟩ := List.exists_cons_of_ne_nil hgood.key_ne_nil
        have hc : isBlank c = false := by
          refine beq_eq_false_iff_ne.2 fun hc => ?_
          have := hgood.key c (hkey ▸ List.mem_cons_self)
          rw [hc] at this
          cases this
        rw [List.dropWhile_append_of_pos fun c hc => isBlank_of_mem_replicate hc, spacedText, hkey]
        simp [hc]
      have hcons : s ++ layout (x :: xs) = s ++ (List.replicate x.2.before ' ' ++
          ',' :: (List.replicate x.2.after ' ' ++ (spacedText x ++ layout xs))) := by
        simp [layout]
      rw [hcons, words_cons h, hdrop, ih (oneWord_spacedText hgood) fun y hy => hx y (List.mem_cons_of_mem _ hy),
        List.map_cons]

/-! ### The items -/

theorem itemOf_spacedText (h : SoundItem x.1) : itemOf (escape (spacedText x)) = some (markItem x.1) := by
  rw [escape_spacedText h]
  exact itemOf_around h.key_ne_nil h.key h.value.plainValue x.2.isSpace_left x.2.isSpace_right

theorem filterMap_itemOf (hx : ∀ x ∈ xs, SoundItem x.1) :
    (xs.map fun x => escape (spacedText x)).filterMap itemOf = xs.map fun x => markItem x.1 := by
  rw [List.filterMap_map, ← List.filterMap_eq_map]
  exact List.filterMap_congr fun x hx' => itemOf_spacedText (hx x hx')

/-- **What the constructor makes of the items.** -/
theorem parse_layout (hname : GoodName name) (hx : ∀ x ∈ xs, SoundItem x.1) :
    parse (name ++ layout xs) = .ok
      { name := name
        properties := (xs.map Prod.fst).foldl (fun m x => m.emplace? x.1 (some (found (escape x.2)))) .empty
        strTypes := (xs.map Prod.fst).foldl (fun m x => m.emplace? x.1 (typeFound (escape x.2))) .empty
        parsingErrors := [] } := by
  have hwords := words_layout hname.oneWord hx
  have hreport : (xs.map fun x => escape (spacedText x)).flatMap report = [] := by
    refine List.flatMap_eq_nil_iff.2 fun tok htok => ?_
    obtain ⟨x, hx', rfl⟩ := List.mem_map.1 htok
    exact if_pos (Or.inr (by rw [itemOf_spacedText (hx x hx')]; rfl))
  refine parse_eq_ok_words.2 ?_
  rw [hwords, List.tail_cons, List.headD_cons, escape_of_not_mem hname.backslash, addTokens,
    filterMap_itemOf hx, hreport]
  constructor
  · intro y hy
    obtain ⟨x, hx', rfl⟩ := List.mem_map.1 hy
    exact (hx x hx').converts
  · simp [ofName, List.foldl_map, markItem, OrdMap.emplace?]

/-- What is read is written: a type is given with a value, and the keys are different. -/
theorem exists_str_layout (hname : GoodName name) (hkeys : (xs.map fun x => x.1.1).Nodup)
    (hx : ∀ x ∈ xs, SoundItem x.1) (h : parse (name ++ layout xs) = .ok t) : ∃ s, t.str = .ok s := by
  have hitems : items (name ++ layout xs) = xs.map fun x => markItem x.1 := by
    rw [items_words, words_layout hname.oneWord hx, List.tail_cons, filterMap_itemOf hx]
  have hfirst : TypedFirst (history (name ++ layout xs) []) := by
    rw [history, hitems, List.map_map, List.map_nil, List.append_nil]
    intro e he htype e' he'
    have hnodup : ((xs.map (itemEntry ∘ fun x => markItem x.1)).map Entry.key).Nodup := by
      rwa [List.map_map]
    have hfind := Option.mem_def.1 he'
    have hkey : e'.key = e.key := by simpa using List.find?_some hfind
    have heq : e' = e := List.inj_on_of_nodup_map hnodup (List.mem_of_find?_eq_some hfind) he hkey
    exact heq ▸ htype
  exact ((together_iff h []).2 hfirst).str

/-! ### The theorem -/

/-- **The layout does not matter**: the order of the items, the spaces around the commas, and the white space
around the equal signs. -/
theorem agree_of_perm (hname : GoodName name) (hkeys : (xs.map fun x => x.1.1).Nodup)
    (hx : ∀ x ∈ xs, SoundItem x.1) (hp : (xs.map Prod.fst).Perm (ys.map Prod.fst)) :
    Agree name (name ++ layout xs) (name ++ layout ys) := by
  have hy : ∀ y ∈ ys, SoundItem y.1 := by
    intro y hy
    obtain ⟨x, hx', hxy⟩ := List.mem_map.1 (hp.mem_iff.2 (List.mem_map_of_mem hy))
    exact hxy ▸ hx x hx'
  have hnodup : ((xs.map Prod.fst).map Prod.fst).Nodup := by rwa [List.map_map]
  have hxs := parse_layout hname hx
  have hys := parse_layout hname hy
  rw [← OrdMap.foldl_emplace?_perm Prod.fst (fun x : Item => some (found (escape x.2))) hp hnodup,
    ← OrdMap.foldl_emplace?_perm Prod.fst (fun x : Item => typeFound (escape x.2)) hp hnodup, ← hxs] at hys
  obtain ⟨s, hs⟩ := exists_str_layout hname hkeys hx hxs
  exact ⟨_, _, s, hxs, hys.trans hxs, rfl, rfl, rfl, rfl, rfl, hs, hs⟩

/-- Two items, with and without white space. -/
def spacious : List (Item × Spacing) :=
  [(("format".toList, "(string)I420".toList),
      ⟨2, 0, [' ', '\t'], ['\n'], List.all_eq_true.1 rfl, List.all_eq_true.1 rfl⟩),
    (("label".toList, "a\\, b \\= c".toList),
      ⟨0, 3, [], [' '], List.all_eq_true.1 rfl, List.all_eq_true.1 rfl⟩)]

def narrow : List (Item × Spacing) :=
  [(("label".toList, "a\\, b \\= c".toList), ⟨0, 0, [], [], List.all_eq_true.1 rfl, List.all_eq_true.1 rfl⟩),
    (("format".toList, "(string)I420".toList), ⟨0, 0, [], [], List.all_eq_true.1 rfl, List.all_eq_true.1 rfl⟩)]

theorem spacious_agree :
    Agree "caps".toList ("caps".toList ++ layout spacious) ("caps".toList ++ layout narrow) := by
  have hname : GoodName "caps".toList := ⟨by decide, by decide, by decide, by decide⟩
  refine agree_of_perm hname (by decide) ?_ (List.Perm.swap _ _ _)
  have hsound {x : Item} (h : GoodItem x) (hbare : x.2 ≠ "(int)".toList)
      (hv : ∃ a, valueFound (escape x.2) = .ok a) : SoundItem x :=
    ⟨h.key_ne_nil, h.key, h.value.clean, hbare, hv⟩
  exact List.forall_mem_cons.2
    ⟨hsound (goodItem_of_checks (by decide) (by decide) (by decide)) (by decide) ⟨_, rfl⟩,
      List.forall_mem_cons.2
        ⟨hsound (goodItem_of_checks (by decide) (by decide) (by decide)) (by decide) ⟨_, rfl⟩, by simp⟩⟩

end TypeDesc

end Shmdata

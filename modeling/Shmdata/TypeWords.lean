/-
**The words between the commas.**

The separator takes the blanks around a comma, so that the tokens of a text are what stands between its commas,
without blanks.  Empty tokens play no part: the name is the first word, and the other words are the items and
what is reported.  A comma divides a text into two parts whose words do not depend on each other.

Main definitions:

* `Shmdata.TypeDesc.trim` — a text without the blanks around it;
* `Shmdata.TypeDesc.words` — the tokens that are not empty.

Main results:

* `Shmdata.TypeDesc.parse_eq_ok_words` — the constructor is determined by the words;
* `Shmdata.TypeDesc.words_append` — **a comma divides the words**.
-/

import Mathlib.Data.List.DropRight
import Shmdata.TypeItems

set_option relaxedAutoImplicit false
set_option autoImplicit false

namespace Shmdata

open Regex

namespace TypeDesc

/-- The blanks that belong to a separator. -/
abbrev isBlank (c : Char) : Bool := c == ' '

/-- A text without the blanks around it. -/
def trim (s : List Char) : List Char := (s.dropWhile isBlank).rdropWhile isBlank

/-- The tokens that are not empty. -/
def words (s : List Char) : List (List Char) := (pieces comaRgx (escape s)).filter (!·.isEmpty)

variable {s x y p : List Char} {t : TypeDesc} {toks : List (List Char)} {c : Char}

/-! ### Words and tokens -/

theorem filter_tokens (s : List Char) :
    (tokens comaRgx s).filter (!·.isEmpty) = (pieces comaRgx s).filter (!·.isEmpty) := by
  unfold tokens
  split
  · next h => rw [h]
  · split
    · next h =>
        obtain ⟨l, hl⟩ := List.getLast?_eq_some_iff.1 h
        rw [hl, List.dropLast_concat, List.filter_append]
        simp
    · rfl

theorem filter_report (toks : List (List Char)) :
    (toks.filter (!·.isEmpty)).filterMap itemOf = toks.filterMap itemOf ∧
      (toks.filter (!·.isEmpty)).flatMap report = toks.flatMap report := by
  induction toks with
  | nil => exact ⟨rfl, rfl⟩
  | cons tok toks ih =>
      by_cases hnil : tok = []
      · simpa [hnil, itemOf, report] using ih
      · simp [hnil, List.filterMap_cons, ih.1, ih.2]

/-- The name is the first word, and the empty tokens behind it do not matter. -/
theorem findName_words (toks : List (List Char)) :
    (findName toks).1 = (toks.filter (!·.isEmpty)).headD [] ∧
      (findName toks).2.filter (!·.isEmpty) = (toks.filter (!·.isEmpty)).tail := by
  induction toks with
  | nil => exact ⟨rfl, rfl⟩
  | cons tok toks ih =>
      rw [findName]
      by_cases hnil : tok = []
      · simpa [hnil] using ih
      · simp [hnil]

/-- The items are among the words behind the name. -/
theorem items_words (s : List Char) : items s = (words s).tail.filterMap itemOf := by
  obtain ⟨-, htail⟩ := findName_words (tokens comaRgx (escape s))
  rw [filter_tokens, ← words] at htail
  rw [items, ← htail, nameAndTokens, (filter_report _).1]

/-- **The constructor is determined by the words.** -/
theorem parse_eq_ok_words : parse s = .ok t ↔
    Converts ((words s).tail.filterMap itemOf) ∧
      t = addTokens (ofName ((words s).headD [])) (words s).tail := by
  obtain ⟨hname, htail⟩ := findName_words (tokens comaRgx (escape s))
  rw [filter_tokens, ← words] at hname htail
  have hreport : (words s).tail.flatMap report = (nameAndTokens s).2.flatMap report := by
    rw [← htail]
    exact (filter_report _).2
  have hname : (nameAndTokens s).1 = (words s).headD [] := hname
  have hitems : (nameAndTokens s).2.filterMap itemOf = (words s).tail.filterMap itemOf := items_words s
  rw [parse_eq_ok, items_words, hname, addTokens, addTokens, hitems, hreport]

/-! ### Commas -/

/-- A text, and the blanks behind it. -/
theorem exists_blanks (s : List Char) :
    ∃ b, s = s.rdropWhile isBlank ++ b ∧ (∀ c ∈ b, isBlank c = true) ∧
      (s.rdropWhile isBlank).getLast? ≠ some ' ' := by
  refine ⟨s.rtakeWhile isBlank, List.rdropWhile_append_rtakeWhile.symm,
    fun c hc => List.mem_rtakeWhile_imp hc, fun hl => ?_⟩
  have hne : s.rdropWhile isBlank ≠ [] := by
    intro hnil
    rw [hnil] at hl
    cases hl
  rw [List.getLast?_eq_some_getLast hne] at hl
  exact List.rdropWhile_last_not isBlank s hne (by rw [Option.some.inj hl]; rfl)

/-- Blanks that are put behind a text are dropped. -/
theorem rdropWhile_blanks (h : s.getLast? ≠ some ' ') (n : ℕ) :
    (s ++ List.replicate n ' ').rdropWhile isBlank = s := by
  induction n with
  | zero =>
      rw [List.replicate_zero, List.append_nil, List.rdropWhile_eq_self_iff]
      intro hne hlast
      rw [List.getLast?_eq_some_getLast hne, eq_of_beq hlast] at h
      exact h rfl
  | succ n ih => rw [List.replicate_succ', ← List.append_assoc, List.rdropWhile_concat_pos _ _ _ rfl, ih]

/-- The separator takes the blanks around the comma. -/
theorem first_blanks {b : List Char} (hb : ∀ c ∈ b, isBlank c = true) (y : List Char) :
    first comaRgx (b ++ ',' :: y) = some (y.dropWhile isBlank) := by
  rw [comaRgx, first_around (fun c hc => by rw [eq_of_beq hc]; decide), List.dropWhile_append_of_pos hb]
  rfl

/-- **The first comma ends the first piece.** -/
theorem pieces_coma (h : ',' ∉ p) (y : List Char) :
    pieces comaRgx (p ++ ',' :: y) = p.rdropWhile isBlank :: pieces comaRgx (y.dropWhile isBlank) := by
  obtain ⟨b, hp, hb, hlast⟩ := exists_blanks p
  have hmem : ',' ∉ p.rdropWhile isBlank := fun hc => h ((List.rdropWhile_prefix isBlank p).subset hc)
  have hne : y.dropWhile isBlank ≠ b ++ ',' :: y := fun heq => by
    have hlen := congrArg List.length heq
    have hle := (List.dropWhile_suffix (p := isBlank) (l := y)).length_le
    simp only [List.length_append, List.length_cons] at hlen
    omega
  calc pieces comaRgx (p ++ ',' :: y)
      = pieces comaRgx (p.rdropWhile isBlank ++ (b ++ ',' :: y)) := by rw [← List.append_assoc, ← hp]
    _ = p.rdropWhile isBlank :: pieces comaRgx (y.dropWhile isBlank) :=
      pieces_append (passes_coma hmem hlast) (first_blanks hb y) hne

/-- Induction along the commas of a text: one is taken off with what is in front of it and the blanks
behind it. -/
theorem coma_induction {P : List Char → Prop} (last : ∀ x, ',' ∉ x → P x)
    (coma : ∀ p z, ',' ∉ p → P (z.dropWhile isBlank) → P (p ++ ',' :: z)) (x : List Char) : P x := by
  induction hn : x.length using Nat.strongRecOn generalizing x with
  | ind n ih =>
      by_cases hx : ',' ∈ x
      · obtain ⟨p, z, rfl, hp⟩ := List.eq_append_cons_of_mem hx
        refine coma p z hp (ih _ ?_ _ rfl)
        have hle := (List.dropWhile_suffix (p := isBlank) (l := z)).length_le
        rw [List.length_append, List.length_cons] at hn
        omega
      · exact last x hx

/-- **A comma divides the pieces.** -/
theorem pieces_append_coma (x y : List Char) :
    pieces comaRgx (x ++ ',' :: y) =
      (pieces comaRgx (x ++ [','])).dropLast ++ pieces comaRgx (y.dropWhile isBlank) := by
  induction x using coma_induction with
  | last x hx =>
      rw [pieces_coma hx, pieces_coma hx]
      rfl
  | coma p z hp ih =>
      -- the blanks behind the first comma end at the next one
      have hdrop (y : List Char) : (z ++ ',' :: y).dropWhile isBlank = z.dropWhile isBlank ++ ',' :: y := by
        rw [List.dropWhile_append]
        split
        · next hz =>
            rw [List.isEmpty_iff.1 hz]
            rfl
        · rfl
      rw [List.append_assoc, List.append_assoc, List.cons_append, List.cons_append, pieces_coma hp,
        pieces_coma hp, hdrop, hdrop, ih, List.dropLast_cons_of_ne_nil (pieces_ne_nil _ _), List.cons_append]

theorem dropWhile_escape (y : List Char) : (escape y).dropWhile isBlank = escape (y.dropWhile isBlank) := by
  induction y with
  | nil => rfl
  | cons c y ih =>
      rw [List.dropWhile_cons]
      split
      · next hc =>
          rw [eq_of_beq hc, escape_cons (by decide), List.dropWhile_cons, if_pos (by decide), ih]
      · next hc =>
          -- the first character is kept, or is the first of a marker
          cases hs : escape (c :: y) with
          | nil => rfl
          | cons d z =>
              rw [List.dropWhile_cons, if_neg]
              intro hd
              have hhead : (escape (c :: y)).head? = some ' ' := by rw [hs, ← eq_of_beq hd]; rfl
              exact hc (beq_iff_eq.2 (Option.some.inj (head?_escape hhead (by decide))))

/-- **A comma divides the words**, if there is no backslash in front of it. -/
theorem words_append (h : x.getLast? ≠ some '\\') (y : List Char) :
    words (x ++ ',' :: y) = words (x ++ [',']) ++ words (y.dropWhile isBlank) := by
  have hescape (y : List Char) : escape (x ++ ',' :: y) = escape x ++ ',' :: escape y := by
    rw [escape_append_of_last h, escape_cons (by decide)]
  have hnil : pieces comaRgx (escape x ++ [',']) = (pieces comaRgx (escape x ++ [','])).dropLast ++ [[]] :=
    pieces_append_coma (escape x) []
  unfold words
  rw [hescape, hescape, escape_nil, pieces_append_coma (escape x) (escape y), dropWhile_escape,
    List.filter_append, hnil, List.filter_append, List.dropLast_concat]
  simp

/-- The words of a text without commas. -/
theorem words_coma (h : x.getLast? ≠ some '\\') (hx : ',' ∉ escape x) :
    words (x ++ [',']) = [(escape x).rdropWhile isBlank].filter (!·.isEmpty) := by
  unfold words
  rw [escape_append_of_last h, escape_cons (by decide), escape_nil, pieces_coma hx]
  rfl

/-- Nothing but blanks and commas is lost. -/
theorem exists_piece (hb : c ≠ ' ') (hc : c ≠ ',') (h : c ∈ x) : ∃ p ∈ pieces comaRgx x, c ∈ p := by
  induction x using coma_induction with
  | last x hx =>
      have hpass : Passes comaRgx x [] := by
        intro z _ hz
        rw [List.append_nil, comaRgx, first_around (fun d hd => by rw [eq_of_beq hd]; decide)]
        cases hd : z.dropWhile isBlank with
        | nil => rfl
        | cons d u =>
            refine if_neg fun hcoma => hx (hz.subset ((List.dropWhile_suffix isBlank).subset ?_))
            rw [hd, ← eq_of_beq hcoma]
            exact List.mem_cons_self
      rw [pieces_of_passes hpass]
      exact ⟨x, List.mem_singleton_self x, h⟩
  | coma p z hp ih =>
      have hblank {b : List Char} (hall : ∀ d ∈ b, isBlank d = true) : c ∉ b := fun hmem =>
        hb (eq_of_beq (hall c hmem))
      rw [pieces_coma hp]
      rcases List.mem_append.1 h with h | h
      · obtain ⟨b, hpb, hall, -⟩ := exists_blanks p
        rw [hpb] at h
        exact ⟨_, List.mem_cons_self, (List.mem_append.1 h).resolve_right (hblank hall)⟩
      · have hz : c ∈ z := (List.mem_cons.1 h).resolve_left hc
        rw [← List.takeWhile_append_dropWhile (p := isBlank) (l := z)] at hz
        have hdrop := (List.mem_append.1 hz).resolve_left (hblank fun d hd => List.mem_takeWhile_imp hd)
        obtain ⟨q, hq, hmem⟩ := ih hdrop
        exact ⟨q, List.mem_cons_of_mem _ hq, hmem⟩

/-- A text with something besides blanks and commas has a word. -/
theorem words_ne_nil (hb : c ≠ ' ') (hc : c ≠ ',') (h : c ∈ s) : words s ≠ [] := by
  obtain ⟨d, hd, hdb, hdc⟩ : ∃ d ∈ escape s, d ≠ ' ' ∧ d ≠ ',' := by
    rw [← flatMap_sourceAtom s] at h
    obtain ⟨a, ha, hmem⟩ := List.mem_flatMap.1 h
    rw [escape_eq]
    cases a with
    | coma | equal => exact ⟨'_', List.mem_flatMap.2 ⟨_, ha, by decide⟩, by decide, by decide⟩
    | lparent | rparent => exact ⟨'\\', List.mem_flatMap.2 ⟨_, ha, by decide⟩, by decide, by decide⟩
    | quote => exact ⟨'"', List.mem_flatMap.2 ⟨_, ha, by decide⟩, by decide, by decide⟩
    | plain d =>
        obtain rfl := List.mem_singleton.1 hmem
        exact ⟨c, List.mem_flatMap.2 ⟨_, ha, List.mem_singleton_self c⟩, hb, hc⟩
  obtain ⟨p, hp, hmem⟩ := exists_piece hdb hdc hd
  refine List.ne_nil_of_mem (List.mem_filter.2 ⟨hp, ?_⟩)
  cases p with
  | nil => cases hmem
  | cons e p => rfl

end TypeDesc

end Shmdata

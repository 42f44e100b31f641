/-
**What can go wrong in the constructor of `Type`.**

The loop of `Type::Type` has three places where a text that has passed the filters can do harm.  The first
character of the un-escaped value is read before it is known that there is one; `std::stoi` throws when the
number is no `int`; and `iss >> tmp_int` assigns nothing when there is nothing but white space behind `(int)`.
When something is there, but no number or one that is too large, the stream assigns `0` or the nearest `int`,
and the item is neither reported nor kept as a string.

Besides, each search for a regular expression may fail: the matcher of the library is recursive, and gives up or
runs out of stack on a long text.  Which texts these are is the library's affair, and a parameter here.

The constructor is written here once more with these faults.  When none of them occurs, it makes the same
description as before.

Main definitions:

* `Shmdata.TypeDesc.Fault`, `Shmdata.TypeDesc.construct` — the constructor with its faults;
* `Shmdata.TypeDesc.searches` — the expressions that are searched for, each with the text;
* `Shmdata.TypeDesc.numeral` — the integer that is written in a value;
* `Shmdata.TypeDesc.Sound` — the constructor returns, and its integers are those of the text;
* `Shmdata.TypeDesc.Convertible` — the values that do no harm.

Main results:

* `Shmdata.TypeDesc.construct_eq_ok` — **the constructor returns exactly if no value does harm**;
* `Shmdata.TypeDesc.sound_iff` — **exactly these texts are parsed soundly**.
-/

import Shmdata.TypeItems

set_option relaxedAutoImplicit false
set_option autoImplicit false

namespace Shmdata

open Regex

namespace TypeDesc

/-! ### The constructor with its faults -/

/-- The faults of the constructor. -/
inductive Fault
  | exn (e : StdExn)
  /-- The matcher of `std::regex` throws `error_stack` or `error_complexity`, or runs out of stack. -/
  | regex
  /-- `*unescaped.begin()` of an empty text. -/
  | emptyFront
  /-- `tmp_int` is used, and has not been assigned. -/
  | unassigned
  deriving DecidableEq

/-- The words that `escape` replaces. -/
def escapes : List (List Char × List Char) := [(['\\', ','], comaMark), (['\\', '='], equalMark)]

/-- The words that `unescape` replaces. -/
def unescapes : List (List Char × List Char) :=
  [(comaMark, [',']), (['"'], []), (equalMark, ['=']), (['\\', '('], ['(']), (['\\', ')'], [')'])]

/-- `iss >> tmp_int`: nothing is assigned if nothing but white space is read. -/
def extractInt (s : List Char) : Except Fault Int32 :=
  if s.dropWhile isSpace = [] then .error .unassigned else .ok (streamInt s)

section

-- the searches for an expression in a text that come to their end
variable (ends : Rgx → List Char → Bool)

/-- Some calls of `std::regex_replace`, one after the other. -/
def regexReplaces : List (List Char × List Char) → List Char → Except Fault (List Char)
  | [], s => .ok s
  | x :: xs, s => if ends (lit x.1) s then regexReplaces xs (replaceAll (lit x.1) x.2 s) else .error .regex

/-- The value of a property, with the steps in the order of the source. -/
def convert (value : List Char) : Except Fault Any :=
  match regexReplaces ends unescapes value with
  | .error e => .error e
  | .ok unescaped =>
      if unescaped = [] then .error .emptyFront
      else
        match untypedValue value with
        | .error e => .error (.exn e)
        | .ok anyValue =>
            if ends literalTypeRgx value then
              match search literalTypeRgx value with
              | some (sm, _) =>
                  if sm = "(int)".toList then (extractInt (value.drop sm.length)).map .int
                  else (regexReplaces ends unescapes (value.drop sm.length)).map .string
              | none => .ok anyValue
            else .error .regex

/-- One token after the name. -/
def parsePropFault (t : TypeDesc) (tok : List Char) : Except Fault TypeDesc :=
  if tok = [] then .ok t
  else if ends spaceRgx tok && ends keyvalRgx (replaceAll spaceRgx ['='] tok) then
    match itemOf tok with
    | some x =>
        (convert ends x.2).map fun a =>
          { t with
            properties := t.properties.emplace x.1 a
            strTypes := t.strTypes.emplace? x.1 (typeFound x.2) }
    | none => .ok { t with parsingErrors := t.parsingErrors ++ report tok }
  else .error .regex

/-- `Type::Type`, with its faults.  The iterator that goes from comma to comma is one search here. -/
def construct (str : List Char) : Except Fault TypeDesc :=
  match regexReplaces ends escapes str with
  | .error e => .error e
  | .ok type =>
      if ends comaRgx type then
        let x := findName (tokens comaRgx type)
        x.2.foldlM (parsePropFault ends) (ofName x.1)
      else .error .regex

end

/-! ### The searches of the constructor -/

/-- Some replacements, one after the other. -/
def replaceWords (xs : List (List Char × List Char)) (s : List Char) : List Char :=
  xs.foldl (fun s x => replaceAll (lit x.1) x.2 s) s

/-- What is searched for in some replacements, and where. -/
def searched : List (List Char × List Char) → List Char → List (Rgx × List Char)
  | [], _ => []
  | x :: xs, s => (lit x.1, s) :: searched xs (replaceAll (lit x.1) x.2 s)

/-- What is searched for in a value. -/
def valueSearches (value : List Char) : List (Rgx × List Char) :=
  searched unescapes value ++ (literalTypeRgx, value) ::
    match search literalTypeRgx value with
    | some (sm, _) => if sm = "(int)".toList then [] else searched unescapes (value.drop sm.length)
    | none => []

/-- What is searched for in a token. -/
def tokenSearches (tok : List Char) : List (Rgx × List Char) :=
  if tok = [] then []
  else
    (spaceRgx, tok) :: (keyvalRgx, replaceAll spaceRgx ['='] tok) ::
      match itemOf tok with
      | some x => valueSearches x.2
      | none => []

/-- What the constructor searches for, and in which texts. -/
def searches (str : List Char) : List (Rgx × List Char) :=
  searched escapes str ++ (comaRgx, escape str) :: (nameAndTokens str).2.flatMap tokenSearches

/-! ### Sound descriptions -/

/-- The integer that is written in a text: white space, a sign and digits. -/
def intText (s : List Char) : Option ℤ :=
  let u := s.dropWhile isSpace
  let digits := if u.head? = some '-' ∨ u.head? = some '+' then u.drop 1 else u
  if digits ≠ [] ∧ digits.all Char.isDigit then some (signedValue u) else none

/-- The integer that is written in a value, behind `(int)` or without a type. -/
def numeral (value : List Char) : Option ℤ :=
  match search literalTypeRgx value with
  | some (sm, _) => if sm = "(int)".toList then intText (value.drop sm.length) else none
  | none => intText (unescape value)

/-- The constructor returns; what is no item is reported, and an `int` is stored only for the integer that is
written in its item. -/
def Sound (ends : Rgx → List Char → Bool) (str : List Char) : Prop :=
  ∃ t, construct ends str = .ok t ∧ t.parsingErrors = (nameAndTokens str).2.flatMap report ∧
    ∀ x ∈ items str, ∀ n, convert ends x.2 = .ok (.int n) → numeral x.2 = some n.toInt

/-- The text without its double quotes. -/
def unquoted (s : List Char) : List Char := s.filter (· ≠ '"')

/-- A value that does no harm: there is something besides the quotes, an integer is an `int`, and so is what
is behind `(int)`. -/
structure Convertible (value : List Char) : Prop where
  unquoted_ne_nil : unquoted value ≠ []
  range : isInteger (unquoted value) = true → InRange (signedValue (unquoted value))
  typed : ∀ rest, search literalTypeRgx value = some ("(int)".toList, rest) →
    ∃ z, intText (value.drop 5) = some z ∧ InRange z

variable {s value w fmt : List Char} {str : List Char} {t u : TypeDesc} {a : Any} {toks : List (List Char)}
  {c : Char} {ends : Rgx → List Char → Bool}

/-! ### Texts that are un-escaped to nothing, or to a number -/

theorem replaceAll_quotes (s : List Char) : replaceAll (lit ['"']) [] s = unquoted s := by
  rw [replaceAll_char, unquoted, List.flatMap_def]
  induction s with
  | nil => rfl
  | cons c s ih => by_cases hc : c = '"' <;> simp_all

theorem replaceAll_ne_nil (hw : w ≠ []) (hf : fmt ≠ []) (h : s ≠ []) : replaceAll (lit w) fmt s ≠ [] := by
  induction s using word_induction hw with
  | nil => exact h
  | word t ih =>
      rw [replaceAll_lit_append hw]
      simp [hf]
  | char c s hp ih =>
      rw [replaceAll_of_none (first_lit_eq_none hp)]
      simp

/-- A value is un-escaped to nothing exactly if there is nothing but quotes. -/
theorem unescape_eq_nil (s : List Char) : unescape s = [] ↔ unquoted s = [] := by
  have hquotes (s : List Char) : unquoted s = [] ↔ ∀ c ∈ s, c = '"' := by
    simp [unquoted, List.filter_eq_nil_iff]
  have hrest {s : List Char} (h : s ≠ []) (w fmt : List Char) (hw : w ≠ [] ∧ fmt ≠ []) :
      replaceAll (lit w) fmt s ≠ [] := replaceAll_ne_nil hw.1 hw.2 h
  unfold unescape
  rw [replaceAll_quotes]
  constructor
  · intro h
    by_contra hs
    refine hrest (hrest (hrest (fun hnil => hs ?_) equalMark ['='] (by decide)) ['\\', '('] ['('] (by decide))
      ['\\', ')'] [')'] (by decide) h
    rw [hquotes] at hnil ⊢
    intro c hc
    -- a marker of a comma would leave the comma
    by_cases hmark : comaMark <:+: s
    · have hcoma := hnil ',' (mem_replaceAll_of_occurs (by decide) hmark)
      exact absurd hcoma (by decide)
    · rw [replaceAll_of_absent hmark] at hnil
      exact hnil c hc
  · intro h
    have hall := (hquotes s).1 h
    have hmark : ¬ comaMark <:+: s := fun hmark =>
      absurd (hall '_' (hmark.subset (by decide))) (by decide)
    rw [replaceAll_of_absent hmark, h]
    rfl

/-- A number can not come from a marker or an escape. -/
theorem unescape_of_isInteger (h : isInteger (unescape s) = true) : unescape s = unquoted s := by
  have hno {c : Char} (hc : c ≠ '-') (hd : c.isDigit = false) : c ∉ unescape s := not_mem_of_isInteger h hc hd
  have hcoma : ¬ comaMark <:+: s := by
    intro hmark
    refine hno (by decide : ',' ≠ '-') (by decide) ?_
    have hmem := mem_replaceAll_of_occurs (d := ',') (by decide) hmark
    exact mem_replaceAll (by decide) (by decide) (mem_replaceAll (by decide) (by decide)
      (mem_replaceAll (by decide) (by decide) (mem_replaceAll (by decide) (by decide) hmem)))
  rw [unescape, replaceAll_of_absent hcoma, replaceAll_quotes] at h hno ⊢
  have hequal : ¬ equalMark <:+: unquoted s := by
    intro hmark
    refine hno (by decide : '=' ≠ '-') (by decide) ?_
    have hmem := mem_replaceAll_of_occurs (d := '=') (by decide) hmark
    exact mem_replaceAll (by decide) (by decide) (mem_replaceAll (by decide) (by decide) hmem)
  rw [replaceAll_of_absent hequal] at h hno ⊢
  have hlparent : ¬ ['\\', '('] <:+: unquoted s := by
    intro hmark
    refine hno (by decide : '(' ≠ '-') (by decide) ?_
    have hmem := mem_replaceAll_of_occurs (d := '(') (by decide) hmark
    exact mem_replaceAll (by decide) (by decide) hmem
  rw [replaceAll_of_absent hlparent] at h hno ⊢
  refine replaceAll_of_absent fun hmark => hno (by decide : ')' ≠ '-') (by decide) ?_
  exact mem_replaceAll_of_occurs (by decide) hmark

theorem unescape_of_isInteger_unquoted (h : isInteger (unquoted s) = true) : unescape s = unquoted s := by
  have hno {c : Char} (hc : c ≠ '-' ∧ c ≠ '"') (hd : c.isDigit = false) : c ∉ s := fun hmem =>
    not_mem_of_isInteger h hc.1 hd (List.mem_filter.2 ⟨hmem, by simp [hc.2]⟩)
  have hkeep {d : Char} {s : List Char} (hd : d ∉ s) (w fmt : List Char) :
      replaceAll (lit (d :: w)) fmt s = s := replaceAll_of_passes (passes_lit (free_of_not_mem hd))
  have hsub {d : Char} (hd : d ∉ s) : d ∉ unquoted s := fun hmem => hd (List.mem_filter.1 hmem).1
  have hunder : '_' ∉ s := hno (by decide) (by decide)
  have hback : '\\' ∉ s := hno (by decide) (by decide)
  unfold unescape comaMark equalMark
  rw [hkeep hunder, replaceAll_quotes, hkeep (hsub hunder), hkeep (hsub hback), hkeep (hsub hback)]

/-! ### The faults that do not occur -/

/-- There is a first character, and something to read behind `(int)`. -/
def Assigned (value : List Char) : Prop :=
  unescape value ≠ [] ∧
    ∀ rest, search literalTypeRgx value = some ("(int)".toList, rest) → (value.drop 5).dropWhile isSpace ≠ []

theorem exceptMap_eq_ok {ε α β : Type} {r : Except ε α} {f : α → β} {b : β} :
    r.map f = .ok b ↔ ∃ x, r = .ok x ∧ f x = b := by
  cases r <;> simp [Except.map]

/-- Some replacements are made exactly if their searches come to their end. -/
theorem regexReplaces_eq_ok {xs : List (List Char × List Char)} : regexReplaces ends xs s = .ok w ↔
    (∀ y ∈ searched xs s, ends y.1 y.2 = true) ∧ replaceWords xs s = w := by
  induction xs generalizing s with
  | nil => simp [regexReplaces, searched, replaceWords]
  | cons x xs ih =>
      by_cases hx : ends (lit x.1) s = true
      · simpa [regexReplaces, searched, replaceWords, hx] using ih
      · simp [regexReplaces, searched, hx]

/-- Either all their searches come to their end and the replacements are made, or one of them fails. -/
theorem regexReplaces_cases (ends : Rgx → List Char → Bool) (xs : List (List Char × List Char)) (s : List Char) :
    (∀ y ∈ searched xs s, ends y.1 y.2 = true) ∧ regexReplaces ends xs s = .ok (replaceWords xs s) ∨
      (¬ ∀ y ∈ searched xs s, ends y.1 y.2 = true) ∧ ∃ e, regexReplaces ends xs s = .error e := by
  by_cases hall : ∀ y ∈ searched xs s, ends y.1 y.2 = true
  · exact Or.inl ⟨hall, regexReplaces_eq_ok.2 ⟨hall, rfl⟩⟩
  · cases hr : regexReplaces ends xs s with
    | error e => exact Or.inr ⟨hall, e, rfl⟩
    | ok w => exact absurd (regexReplaces_eq_ok.1 hr).1 hall

theorem convert_eq_ok : convert ends value = .ok a ↔
    (∀ y ∈ valueSearches value, ends y.1 y.2 = true) ∧ Assigned value ∧ valueFound value = .ok a := by
  unfold convert valueSearches Assigned valueFound
  rw [List.forall_mem_append, List.forall_mem_cons]
  rcases regexReplaces_cases ends unescapes value with ⟨hall, hr⟩ | ⟨hall, e, hr⟩
  · replace hr : regexReplaces ends unescapes value = .ok (unescape value) := hr
    rw [hr, and_iff_right hall]
    by_cases hnil : unescape value = []
    · simp [hnil]
    cases hv : untypedValue value with
    | error e => simp [hnil, Except.map]
    | ok anyValue =>
        by_cases hlit : ends literalTypeRgx value = true
        · cases hs : search literalTypeRgx value with
          | none => simp [hnil, hlit, Except.map]
          | some p =>
              obtain ⟨sm, rest⟩ := p
              by_cases hint : sm = "(int)".toList
              · subst hint
                by_cases hblank : (value.drop 5).dropWhile isSpace = []
                · simp [hnil, hlit, Except.map, extractInt, hblank]
                · simp [hnil, hlit, Except.map, extractInt, hblank]
              · have hnot (rest' : List Char) (h : some (sm, rest) = some ("(int)".toList, rest')) : False :=
                  hint (Prod.mk.inj (Option.some.inj h)).1
                simp only [if_neg hnil, hlit, if_true, if_neg hint, exceptMap_eq_ok, regexReplaces_eq_ok,
                  true_and, Except.ok.injEq, exists_eq_left']
                constructor
                · rintro ⟨w, ⟨hw, rfl⟩, ha⟩
                  exact ⟨hw, ⟨hnil, fun rest' h => (hnot rest' h).elim⟩, ha⟩
                · rintro ⟨hw, -, ha⟩
                  exact ⟨_, ⟨hw, rfl⟩, ha⟩
        · simp [hnil, hlit]
  · rw [hr]
    exact iff_of_false (by simp) fun h => hall h.1.1

theorem parsePropFault_eq_ok (tok : List Char) : parsePropFault ends t tok = .ok u ↔
    (∀ y ∈ tokenSearches tok, ends y.1 y.2 = true) ∧ (∀ x ∈ (itemOf tok).toList, Assigned x.2) ∧
      t.parseProp tok = .ok u := by
  rw [parsePropFault, parseProp_eq, tokenSearches]
  by_cases htok : tok = []
  · simp [htok, itemOf, report]
  rw [if_neg htok, if_neg htok, List.forall_mem_cons, List.forall_mem_cons]
  by_cases hends : ends spaceRgx tok = true ∧ ends keyvalRgx (replaceAll spaceRgx ['='] tok) = true
  · rw [if_pos (by simpa using hends), and_iff_right hends.1, and_iff_right hends.2]
    cases itemOf tok with
    | none => simp
    | some x =>
        dsimp only
        rw [addProp_found, exceptMap_eq_ok, exceptMap_eq_ok]
        simp only [convert_eq_ok, Option.toList_some, List.mem_singleton, forall_eq]
        simp only [and_assoc, exists_and_left]
  · rw [if_neg (by simpa using hends)]
    exact iff_of_false (by simp) fun h => hends ⟨h.1.1, h.1.2.1⟩

/-- **The constructor returns exactly if its searches do and no value does harm**, and makes then the description
that was modelled without the faults. -/
theorem construct_eq_ok : construct ends str = .ok t ↔ (∀ y ∈ searches str, ends y.1 y.2 = true) ∧
    (∀ x ∈ items str, Assigned x.2) ∧ parse str = .ok t := by
  have hloop (toks : List (List Char)) (t u : TypeDesc) : toks.foldlM (parsePropFault ends) t = .ok u ↔
      (∀ y ∈ toks.flatMap tokenSearches, ends y.1 y.2 = true) ∧
        (∀ x ∈ toks.filterMap itemOf, Assigned x.2) ∧ toks.foldlM parseProp t = .ok u := by
    induction toks generalizing t with
    | nil => simp [pure, Except.pure]
    | cons tok toks ih =>
        have hsplit : (∀ x ∈ (tok :: toks).filterMap itemOf, Assigned x.2) ↔
            (∀ x ∈ (itemOf tok).toList, Assigned x.2) ∧ ∀ x ∈ toks.filterMap itemOf, Assigned x.2 := by
          cases hi : itemOf tok <;> simp [hi]
        have hbind {ε : Type} {r : Except ε TypeDesc} {f : TypeDesc → Except ε TypeDesc} :
            r >>= f = .ok u ↔ ∃ v, r = .ok v ∧ f v = .ok u := by
          cases r <;> simp [bind, Except.bind]
        rw [List.foldlM_cons, List.foldlM_cons, hsplit, List.flatMap_cons, List.forall_mem_append, hbind, hbind]
        simp only [parsePropFault_eq_ok, ih]
        constructor
        · rintro ⟨v, ⟨he, ha, hv⟩, he', ha', hu⟩
          exact ⟨⟨he, he'⟩, ⟨ha, ha'⟩, v, hv, hu⟩
        · rintro ⟨⟨he, he'⟩, ⟨ha, ha'⟩, v, hv, hu⟩
          exact ⟨v, ⟨he, ha, hv⟩, he', ha', hu⟩
  rw [construct, searches, List.forall_mem_append, List.forall_mem_cons]
  rcases regexReplaces_cases ends escapes str with ⟨hall, hr⟩ | ⟨hall, e, hr⟩
  · replace hr : regexReplaces ends escapes str = .ok (escape str) := hr
    rw [hr, and_iff_right hall]
    dsimp only
    by_cases hcoma : ends comaRgx (escape str) = true
    · rw [if_pos hcoma, and_iff_right hcoma]
      exact hloop _ _ _
    · rw [if_neg hcoma]
      exact iff_of_false (by simp) fun h => hcoma h.1.1
  · rw [hr]
    exact iff_of_false (by simp) fun h => hall h.1.1

/-! ### Integers -/

theorem dropWhile_of_isInteger (h : isInteger s = true) : s.dropWhile isSpace = s := by
  cases s with
  | nil => rfl
  | cons c s =>
      rw [List.dropWhile_cons, if_neg]
      rcases mem_of_isInteger h List.mem_cons_self with rfl | hc
      · decide
      · simp [(isDigit_ne hc).1]

theorem intText_of_isInteger (h : isInteger s = true) : intText s = some (signedValue s) := by
  have hdigits := h
  rw [intText, dropWhile_of_isInteger h]
  simp only [isInteger, Bool.and_eq_true, decide_eq_true_eq] at hdigits
  obtain ⟨⟨hne, hminus⟩, hall⟩ := hdigits
  by_cases hm : s.head? = some '-'
  · obtain ⟨u, rfl⟩ := List.head?_eq_some_iff.1 hm
    have hu : u ≠ [] := by
      rintro rfl
      exact hminus rfl
    simp_all
  · have hplus : s.head? ≠ some '+' := by
      intro hp
      obtain ⟨u, rfl⟩ := List.head?_eq_some_iff.1 hp
      rcases mem_of_isInteger h List.mem_cons_self with hc | hc <;> exact absurd hc (by decide)
    simp_all

/-- What the stream reads when an integer is written. -/
theorem of_intText {z : ℤ} (h : intText s = some z) :
    s.dropWhile isSpace ≠ [] ∧ signedValue (s.dropWhile isSpace) = z := by
  unfold intText at h
  dsimp only at h
  rw [Option.ite_none_right_eq_some] at h
  obtain ⟨hd, h⟩ := h
  refine ⟨fun hnil => ?_, Option.some.inj h⟩
  rw [hnil] at hd
  simp at hd

theorem streamInt_of_intText {z : ℤ} (h : intText s = some z) (hz : InRange z) :
    (streamInt s).toInt = z := by
  obtain ⟨-, hv⟩ := of_intText h
  obtain ⟨hmin, hmax⟩ := hz
  rw [streamInt, hv, min_eq_right hmax, max_eq_right hmin]
  exact Int32.toInt_ofInt_of_le hmin (Int.lt_add_one_iff.2 hmax)

theorem inRange_toInt (n : Int32) : InRange n.toInt := ⟨Int32.minValue_le_toInt n, Int32.toInt_le n⟩

theorem stoi_of_inRange (h : InRange (signedValue s)) : stoi s = .ok (.ofInt (signedValue s)) := if_pos h

theorem stoi_of_not_inRange (h : ¬ InRange (signedValue s)) : stoi s = .error .outOfRange := if_neg h

/-! ### The theorem -/

/-- The searches in the value of an item are among those of the constructor. -/
theorem ends_of_item (h : ∀ y ∈ searches str, ends y.1 y.2 = true) {x : Item} (hx : x ∈ items str) :
    ∀ y ∈ valueSearches x.2, ends y.1 y.2 = true := by
  obtain ⟨tok, htok, hitem⟩ := List.mem_filterMap.1 hx
  have hne : tok ≠ [] := by
    rintro rfl
    cases hitem
  refine fun y hy => h y (List.mem_append_right _ (List.mem_cons_of_mem _ (List.mem_flatMap.2 ⟨tok, htok, ?_⟩)))
  rw [tokenSearches, if_neg hne, hitem]
  exact List.mem_cons_of_mem _ (List.mem_cons_of_mem _ hy)

/-- **A value does no harm exactly if it is converted, and to the integer that is written in it.** -/
theorem convertible_iff : Convertible value ↔
    ∃ a, (Assigned value ∧ valueFound value = .ok a) ∧ ∀ n, a = .int n → numeral value = some n.toInt := by
  constructor
  · rintro ⟨hne, hrange, htyped⟩
    have hnil : unescape value ≠ [] := fun h => hne ((unescape_eq_nil value).1 h)
    have hany : ∃ a, untypedValue value = .ok a ∧ ∀ n, a = .int n →
        isInteger (unescape value) = true ∧ n.toInt = signedValue (unescape value) := by
      unfold untypedValue
      by_cases hi : isInteger (unescape value) = true
      · have heq := unescape_of_isInteger hi
        have hr := hrange (heq ▸ hi)
        rw [← heq] at hr
        refine ⟨.int (.ofInt (signedValue (unescape value))), ?_, ?_⟩
        · rw [if_pos hi, stoi_of_inRange hr]
          rfl
        · rintro n ⟨⟩
          exact ⟨hi, Int32.toInt_ofInt_of_le hr.1 (Int.lt_add_one_iff.2 hr.2)⟩
      · exact ⟨_, if_neg hi, by rintro n ⟨⟩⟩
    obtain ⟨a, ha, hint⟩ := hany
    unfold Assigned valueFound numeral
    rw [ha]
    cases hs : search literalTypeRgx value with
    | none =>
        refine ⟨a, ⟨⟨hnil, by simp⟩, rfl⟩, fun n hn => ?_⟩
        obtain ⟨hi, hz⟩ := hint n hn
        rw [hz]
        exact intText_of_isInteger hi
    | some p =>
        obtain ⟨sm, rest⟩ := p
        by_cases hsm : sm = "(int)".toList
        · subst hsm
          have hlen : "(int)".toList.length = 5 := rfl
          obtain ⟨z, hz, hr⟩ := htyped rest hs
          refine ⟨.int (streamInt (value.drop 5)), ⟨⟨hnil, fun _ _ => (of_intText hz).1⟩, rfl⟩, ?_⟩
          rintro n ⟨⟩
          rw [streamInt_of_intText hz hr]
          exact hz
        · refine ⟨.string (unescape (value.drop sm.length)), ⟨⟨hnil, fun rest' h => ?_⟩, ?_⟩, by rintro n ⟨⟩⟩
          · exact absurd (Prod.mk.inj (Option.some.inj h)).1 hsm
          · simp only [Except.map, if_neg hsm]
  · rintro ⟨a, ⟨⟨hnil, -⟩, hvalue⟩, hnumeral⟩
    refine ⟨fun h => hnil ((unescape_eq_nil value).2 h), fun hi => ?_, fun rest hs => ?_⟩
    · have heq := unescape_of_isInteger_unquoted hi
      rw [← heq] at hi ⊢
      by_contra hr
      have hstoi : untypedValue value = .error .outOfRange := by
        rw [untypedValue, if_pos hi, stoi_of_not_inRange hr]
        rfl
      rw [valueFound, hstoi] at hvalue
      cases hvalue
    · unfold valueFound at hvalue
      unfold numeral at hnumeral
      rw [hs] at hvalue hnumeral
      cases hv : untypedValue value with
      | error e =>
          rw [hv] at hvalue
          cases hvalue
      | ok b =>
          rw [hv] at hvalue
          have ha : Any.int (streamInt (value.drop 5)) = a := Except.ok.inj hvalue
          exact ⟨_, hnumeral _ ha.symm, inRange_toInt _⟩

/-- A library that finds every expression in every text. -/
def alwaysEnds (_ : Rgx) (_ : List Char) : Bool := true

end TypeDesc

end Shmdata

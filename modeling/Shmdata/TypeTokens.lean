/-
**The tokens of a description.**

The text of a description is cut at its commas.  An item is one token, unless its value is open: it ends in
a backslash, has no quotes, and so takes the comma behind it for its own.  Then the token goes on with the
next item.  A token that consists of one item gives back the key, with the type and the value; a joined
token has more than one equal sign, and the parser reports it and goes on.

Main definitions:

* `Shmdata.Arg.isOpen` — the value takes the comma behind it;
* `Shmdata.TypeDesc.joinTokens` — the tokens, with the property that each of them gives;
* `Shmdata.TypeDesc.load` — what the parser does with a token.

Main results:

* `Shmdata.TypeDesc.pieces_items` — **the pieces between the commas are these tokens**;
* `Shmdata.TypeDesc.parseProp_token` — what is parsed from a token;
* `Shmdata.TypeDesc.parse_text` — **the constructor is a loop over the tokens**.
-/

import Mathlib.Data.List.TakeWhile
import Shmdata.TypeText

set_option relaxedAutoImplicit false
set_option autoImplicit false

namespace Shmdata

open Regex

namespace Arg

open TypeDesc

/-- The value, when the special characters have become markers. -/
def marked : Arg → List Char
  | .int n => intToString n
  | .string v => quote v (v.flatMap markedCode)
  | .typed _ v => quote v (v.flatMap markedCode)

/-- The value ends in a backslash and is not quoted. -/
def isOpen : Arg → Bool
  | .int _ => false
  | .string v => v.getLast? = some '\\' && !quoted v
  | .typed _ v => v.getLast? = some '\\' && !quoted v

/-- The value with the comma that its backslash takes. -/
def glued (a : Arg) : List Char := a.marked.dropLast ++ comaMark

/-- The value that is found in the text. -/
def reparsed : Arg → Any
  | .int n => .int n
  | .string v => .string (unescape (quote v (v.flatMap markedCode)))
  | .typed _ v => .string (unescape (quote v (v.flatMap markedCode)))

end Arg

namespace TypeDesc

variable {name : List Char} {xs : List Call} {t : TypeDesc} {x : Call} {a : Arg}

/-! ### The special characters of a value -/

theorem mem_intToString {n : Int32} {c : Char} (h : c ∈ intToString n) : c = '-' ∨ c.isDigit = true := by
  have hd (h : c ∈ Nat.toDigits 10 n.toInt.natAbs) : c.isDigit = true :=
    Nat.isDigit_of_mem_toDigits (by decide) (by decide) h
  unfold intToString at h
  split at h
  · rcases List.mem_cons.1 h with h | h
    · exact Or.inl h
    · exact Or.inr (hd h)
  · exact Or.inr (hd h)

theorem not_mem_intToString {n : Int32} {c : Char} (h : c ≠ '-') (hd : c.isDigit = false) :
    c ∉ intToString n := by
  intro hc
  rcases mem_intToString hc with hc | hc
  · exact h hc
  · exact absurd hc (by simp [hd])

theorem head?_replaceAll_coma {c : Char} (h : c ≠ '\\') (y : List Char) :
    (replaceAll (lit ['\\', ',']) comaMark (c :: y)).head? = some c := by
  have hc : replaceAll (lit ['\\', ',']) comaMark ([c] ++ y) = [c] ++ _ :=
    replaceAll_append (passes_lit (free_of_not_mem (by simpa using h.symm)))
  rw [List.singleton_append] at hc
  rw [hc]
  rfl

theorem escape_serialized {v y : List Char}
    (hy : y = [] ∨ ∃ z, y = ',' :: z ∧ (v.getLast? = some '\\' && !quoted v) = false) :
    escape (serializedString v ++ y) = quote v (v.flatMap markedCode) ++ escape y := by
  rw [serializedString_eq]
  cases hq : quoted v with
  | true =>
      have h := escape_written (v := v) (y := '"' :: y) (fun _ => by simp)
        (by rw [head?_replaceAll_coma (by decide)]; decide)
      have hquote (s : List Char) : quote v s ++ y = '"' :: (s ++ '"' :: y) := by simp [quote, hq]
      rw [hquote, escape_cons (by decide), h, escape_cons (by decide)]
      simp [quote, hq]
  | false =>
      have hquote (s : List Char) : quote v s = s := by simp [quote, hq]
      rw [hquote, hquote]
      rcases hy with rfl | ⟨z, rfl, ho⟩
      · exact escape_written (by simp) (by simp)
      · refine escape_written (fun hl => ?_) (by rw [head?_replaceAll_coma (by decide)]; decide)
        simp [hl, hq] at ho

/-- The value at the end of the text, or in front of a comma that it does not take. -/
theorem escape_text {y : List Char} (hy : y = [] ∨ ∃ z, y = ',' :: z ∧ a.isOpen = false) :
    escape (a.text ++ y) = a.marked ++ escape y := by
  cases a with
  | int n => exact escape_append (not_mem_intToString (by decide) (by decide)) y
  | string v => exact escape_serialized hy
  | typed w v => exact escape_serialized hy

theorem escape_serialized_open {v : List Char} (h : (v.getLast? = some '\\' && !quoted v) = true)
    (y : List Char) : escape (serializedString v ++ ',' :: y) =
      (quote v (v.flatMap markedCode)).dropLast ++ comaMark ++ escape y := by
  rw [Bool.and_eq_true, decide_eq_true_eq, Bool.not_eq_true'] at h
  have hquote (s : List Char) : quote v s = s := by simp [quote, h.2]
  obtain ⟨u, rfl⟩ := List.getLast?_eq_some_iff.1 h.1
  have hcode : ∀ f, f = writtenCode ∨ f = markedCode →
      (u ++ ['\\']).flatMap f = u.flatMap f ++ ['\\'] := by
    rintro f (rfl | rfl) <;> rw [List.flatMap_append] <;> rfl
  rw [serializedString_eq, hquote, hquote, hcode _ (Or.inl rfl), hcode _ (Or.inr rfl),
    List.append_assoc, List.singleton_append, List.dropLast_concat,
    escape_written (fun _ => by simp), escape_coma, List.append_assoc]
  have hc : replaceAll (lit ['\\', ',']) comaMark ('\\' :: ',' :: y) = comaMark ++ _ :=
    replaceAll_lit_append (w := ['\\', ',']) (by simp) y
  rw [hc, comaMark, List.cons_append, List.head?_cons]
  decide

/-- An open value takes the comma behind it. -/
theorem escape_text_open (h : a.isOpen = true) (y : List Char) :
    escape (a.text ++ ',' :: y) = a.glued ++ escape y := by
  cases a with
  | int n => cases h
  | string v => exact escape_serialized_open h y
  | typed w v => exact escape_serialized_open h y

/-! ### Commas -/

/-- No separator begins in text without commas that does not end in a blank. -/
theorem passes_coma {s y : List Char} (h : ',' ∉ s) (hl : s.getLast? ≠ some ' ') :
    Passes comaRgx s y := by
  intro z hz hs
  have hdrop : z.dropWhile (· == ' ') ≠ [] := by
    intro hnil
    -- then `z` is blank, and so is the last character of `s`
    have hblank : ∀ c ∈ z, (c == ' ') = true := List.dropWhile_eq_nil_iff.1 hnil
    obtain ⟨u, rfl⟩ := hs
    have hlast := hblank _ (List.getLast_mem hz)
    rw [List.getLast?_append_of_ne_nil _ hz, List.getLast?_eq_some_getLast hz] at hl
    exact hl (congrArg some (eq_of_beq hlast))
  obtain ⟨c, t, hct⟩ := List.exists_cons_of_ne_nil hdrop
  have hc : c ∈ s := hs.subset ((List.dropWhile_suffix _).subset (hct ▸ List.mem_cons_self))
  have happ : (z ++ y).dropWhile (· == ' ') = c :: (t ++ y) := by
    rw [List.dropWhile_append, hct]
    rfl
  rw [comaRgx, first_around (fun c hc => by rw [eq_of_beq hc]; decide), happ]
  refine if_neg fun hcoma => h ?_
  rw [eq_of_beq hcoma] at hc
  exact hc

theorem first_coma {s : List Char} (h : s.head? ≠ some ' ') :
    first comaRgx (',' :: ' ' :: s) = some s := by
  have hs : s.dropWhile (· == ' ') = s := by
    cases s with
    | nil => rfl
    | cons c s =>
        rw [List.dropWhile_cons, if_neg]
        intro hc
        exact h (congrArg some (eq_of_beq hc))
  rw [comaRgx, first_around (fun c hc => by rw [eq_of_beq hc]; decide)]
  simp [hs]

theorem mem_markedCode {c d : Char} (h : d ∈ markedCode c) (hd : d = ',' ∨ d = '=') : False := by
  unfold markedCode code at h
  split_ifs at h with h1 h2
  · rcases hd with rfl | rfl <;> exact absurd h (by decide)
  · rcases hd with rfl | rfl <;> exact absurd h (by decide)
  · rcases hd with rfl | rfl <;> exact absurd h (by decide)
  · rcases hd with rfl | rfl <;> exact absurd h (by decide)
  · rcases hd with rfl | rfl
    · exact h1 (List.mem_singleton.1 h).symm
    · exact h2 (List.mem_singleton.1 h).symm

/-- There are no separators in a marked value. -/
theorem not_mem_marked {d : Char} (hd : d = ',' ∨ d = '=') (a : Arg) : d ∉ a.marked := by
  have hstring (v : List Char) : d ∉ quote v (v.flatMap markedCode) := by
    have hcode : d ∉ v.flatMap markedCode := by
      intro h
      obtain ⟨c, -, hc⟩ := List.mem_flatMap.1 h
      exact mem_markedCode hc hd
    have hq : d ≠ '"' := by rcases hd with rfl | rfl <;> decide
    unfold quote
    split
    · simp [hcode, hq]
    · exact hcode
  cases a with
  | int n => rcases hd with rfl | rfl <;> exact not_mem_intToString (by decide) (by decide)
  | string v => exact hstring v
  | typed w v => exact hstring v

/-- A blank at the end of a value is quoted. -/
theorem getLast?_marked (a : Arg) : a.marked.getLast? ≠ some ' ' := by
  have hstring (v : List Char) : (quote v (v.flatMap markedCode)).getLast? ≠ some ' ' := by
    unfold quote
    split
    · rw [← List.cons_append, List.getLast?_concat]
      decide
    · next hq =>
        intro h
        obtain ⟨c, hc, hcc⟩ := List.mem_flatMap.1 (List.mem_of_getLast? h)
        have hblank : ' ' = c := by
          unfold markedCode code at hcc
          split_ifs at hcc
          · exact absurd hcc (by decide)
          · exact absurd hcc (by decide)
          · exact absurd hcc (by decide)
          · exact absurd hcc (by decide)
          · exact List.mem_singleton.1 hcc
        exact hq (by simp [quoted, hblank ▸ hc])
  cases a with
  | int n => exact fun h => not_mem_intToString (by decide) (by decide) (List.mem_of_getLast? h)
  | string v => exact hstring v
  | typed w v => exact hstring v

/-! ### Labels -/

theorem isKeyChar_of_isWord {c : Char} (h : isWord c = true) : isKeyChar c = true := by
  simp [isKeyChar, h]

theorem GoodCall.typeName (h : GoodCall x) :
    x.2.typeName ≠ [] ∧ ∀ c ∈ x.2.typeName, isWord c = true := by
  obtain ⟨key, a⟩ := x
  cases a with
  | int n => exact ⟨by simp [Arg.typeName], List.all_eq_true.1 (by decide : "int".toList.all isWord = true)⟩
  | string v =>
      exact ⟨by simp [Arg.typeName], List.all_eq_true.1 (by decide : "string".toList.all isWord = true)⟩
  | typed w v => exact ⟨(h.type w v rfl).1, (h.type w v rfl).2.1⟩

/-- A character that is not of a word and not of the punctuation is not in a label. -/
theorem GoodCall.not_mem_label (h : GoodCall x) {c : Char} (hc : isKeyChar c = false)
    (hp : c ≠ '=' ∧ c ≠ '(' ∧ c ≠ ')') : c ∉ label x := by
  intro hmem
  have hnot : ¬ isKeyChar c = true := by simp [hc]
  simp only [label, List.mem_append, List.mem_cons, List.not_mem_nil, or_false] at hmem
  rcases hmem with hmem | hmem | hmem | hmem | hmem
  · exact hnot (h.key c hmem)
  · exact hp.1 hmem
  · exact hp.2.1 hmem
  · exact hnot (isKeyChar_of_isWord (h.typeName.2 c hmem))
  · exact hp.2.2 hmem

theorem GoodCall.head_label (h : GoodCall x) (s : List Char) :
    ∃ c u, label x ++ s = c :: u ∧ isKeyChar c = true := by
  obtain ⟨c, u, hc⟩ := List.exists_cons_of_ne_nil h.key_ne_nil
  refine ⟨c, u ++ '=' :: '(' :: (x.2.typeName ++ [')']) ++ s, ?_, h.key c (hc ▸ List.mem_cons_self)⟩
  rw [label, hc]
  rfl

/-! ### Tokens -/

/-- A token, with the property that it gives, if it gives one. -/
structure Token where
  text : List Char
  call : Option Call

/-- The value of `x` takes the comma in front of the items `xs`. -/
def swallows (x : Call) (xs : List Call) : Bool := x.2.isOpen && !xs.isEmpty

/-- The tokens of items, when the text `acc` is joined with the first of them. -/
def joinTokens : List Char → List Call → List Token
  | _, [] => []
  | acc, x :: xs =>
      if swallows x xs then joinTokens (acc ++ (label x ++ (x.2.glued ++ [' ']))) xs
      else ⟨acc ++ (label x ++ x.2.marked), if acc = [] then some x else none⟩ :: joinTokens [] xs

theorem escape_label (h : GoodCall x) (y : List Char) : escape (label x ++ y) = label x ++ escape y :=
  escape_append (h.not_mem_label (by decide) (by decide)) y

theorem coma_not_mem (h : GoodCall x) : ',' ∉ label x ∧ ',' ∉ x.2.glued := by
  refine ⟨h.not_mem_label (by decide) (by decide), fun hc => ?_⟩
  rcases List.mem_append.1 hc with hc | hc
  · exact not_mem_marked (Or.inl rfl) x.2 (List.dropLast_subset _ hc)
  · exact absurd hc (by decide)

/-- No separator begins in an item. -/
theorem passes_item (h : GoodCall x) {acc : List Char} (hacc : ',' ∉ acc) (y : List Char) :
    Passes comaRgx (acc ++ (label x ++ x.2.marked)) y := by
  refine passes_coma ?_ ?_
  · simp [hacc, (coma_not_mem h).1, not_mem_marked]
  · rw [List.getLast?_append, List.getLast?_append, label, ← List.cons_append, ← List.cons_append,
      ← List.append_assoc, List.getLast?_concat, Option.or_some]
    cases hl : x.2.marked.getLast? with
    | none => simp
    | some c =>
        intro hc
        exact getLast?_marked x.2 (hl.trans (by simpa using hc))

/-- The comma in front of an item ends a piece. -/
theorem pieces_fields (h : GoodCall x) {s y : List Char}
    (hs : Passes comaRgx s (escape (',' :: ' ' :: (label x ++ y)))) :
    pieces comaRgx (s ++ escape (',' :: ' ' :: (label x ++ y))) =
      s :: pieces comaRgx (escape (label x ++ y)) := by
  have hhead : (escape (label x ++ y)).head? ≠ some ' ' := by
    rw [escape_label h]
    obtain ⟨c, u, hc, hkey⟩ := h.head_label (escape y)
    rw [hc, List.head?_cons]
    rintro ⟨⟩
    exact absurd hkey (by decide)
  have hne (s : List Char) : s ≠ ',' :: ' ' :: s := fun h => by
    have hlen := congrArg List.length h
    simp only [List.length_cons] at hlen
    omega
  rw [escape_cons (by decide), escape_cons (by decide)] at hs ⊢
  exact pieces_append hs (first_coma hhead) (hne _)

/-- **The pieces between the commas.** -/
theorem pieces_items (hx : ∀ y ∈ x :: xs, GoodCall y) {acc : List Char} (hacc : ',' ∉ acc) :
    pieces comaRgx (acc ++ escape (label x ++ (x.2.text ++ fields xs))) =
      (joinTokens acc (x :: xs)).map Token.text := by
  induction xs generalizing x acc with
  | nil =>
      have hgood := hx x List.mem_cons_self
      rw [escape_label hgood, fields, List.flatMap_nil, escape_text (Or.inl rfl), escape_nil,
        List.append_nil, pieces_of_passes (passes_item hgood hacc [])]
      simp [joinTokens, swallows]
  | cons x' xs ih =>
      have hgood := hx x List.mem_cons_self
      have hgood' := hx x' (by simp)
      have ih {acc : List Char} (hacc : ',' ∉ acc) :=
        ih (fun y hy => hx y (List.mem_cons_of_mem _ hy)) hacc
      rw [escape_label hgood, fields_cons, joinTokens]
      by_cases hopen : x.2.isOpen = true
      · have hcoma : ',' ∉ acc ++ (label x ++ (x.2.glued ++ [' '])) := by
          simp [hacc, coma_not_mem hgood]
        rw [if_pos (by simp [swallows, hopen]), ← ih hcoma, escape_text_open hopen,
          escape_cons (by decide)]
        simp
      · have hclosed : x.2.isOpen = false := by simpa using hopen
        rw [if_neg (by simp [swallows, hclosed]), escape_text (Or.inr ⟨_, rfl, hclosed⟩),
          ← List.append_assoc, ← List.append_assoc, List.append_assoc acc,
          pieces_fields hgood' (passes_item hgood hacc _)]
        exact congrArg _ (ih List.not_mem_nil)

/-! ### The equal sign of a token -/

theorem first_space (s : List Char) : first spaceRgx s =
    match s.dropWhile isSpace with
    | [] => none
    | c :: t => if c == '=' then some (t.dropWhile isSpace) else none :=
  first_around (q := (· == '=')) (fun c hc => by
    by_contra hne
    rw [Bool.not_eq_false] at hne
    rw [eq_of_beq hne] at hc
    exact absurd hc (by decide)) s

/-- The equal signs are kept when the blanks around them are removed. -/
theorem count_replaceAll_space (s : List Char) :
    (replaceAll spaceRgx ['='] s).count '=' = s.count '=' := by
  have hdrop (s : List Char) : (s.dropWhile isSpace).count '=' = s.count '=' := by
    induction s with
    | nil => rfl
    | cons c s ih =>
        rw [List.dropWhile_cons]
        split
        · next hc =>
            rw [ih, List.count_cons_of_ne]
            rintro rfl
            exact absurd hc (by decide)
        · rfl
  induction hn : s.length using Nat.strong_induction_on generalizing s with
  | _ n ih =>
      cases s with
      | nil => rfl
      | cons c s =>
          cases hf : first spaceRgx (c :: s) with
          | none =>
              rw [replaceAll_of_none hf, List.count_cons, List.count_cons,
                ih s.length (by simp [← hn]) s rfl]
          | some t =>
              -- what the match leaves is what follows the equal sign and the blanks behind it
              have hcount := hdrop (c :: s)
              have hmatch := hf
              rw [first_space] at hmatch
              cases hd : (c :: s).dropWhile isSpace with
              | nil =>
                  rw [hd] at hmatch
                  cases hmatch
              | cons d u =>
                  rw [hd] at hmatch hcount
                  dsimp only at hmatch
                  split at hmatch
                  · next heq =>
                      rw [Option.some.injEq] at hmatch
                      rw [eq_of_beq heq, List.count_cons_self] at hcount
                      have hlen : t.length < (c :: s).length := by
                        have h1 := (List.dropWhile_suffix isSpace (l := c :: s)).length_le
                        have h2 := (List.dropWhile_suffix isSpace (l := u)).length_le
                        rw [hd, List.length_cons] at h1
                        rw [hmatch] at h2
                        omega
                      rw [replaceAll_of_some hf (by rintro rfl; exact lt_irrefl _ hlen), ← hcount,
                        List.singleton_append, List.count_cons_self, ih t.length (hn ▸ hlen) t rfl,
                        ← hmatch, hdrop]
                  · cases hmatch

theorem isKeyChar_ne {c : Char} (h : isKeyChar c = true) : isSpace c = false ∧ c ≠ '=' := by
  constructor
  · by_contra hs
    rw [Bool.not_eq_false, isSpace, Bool.or_eq_true] at hs
    rcases hs with hs | hs
    · rw [eq_of_beq hs] at h
      exact absurd h (by decide)
    · simp only [Char.le_def, UInt32.le_iff_toNat_le, Bool.and_eq_true, decide_eq_true_eq] at hs
      -- there are five characters between the tabulator and the carriage return
      have hnot : ∀ n < 14, 9 ≤ n → isKeyChar (Char.ofNat n) = false := by decide
      have hc := hnot c.toNat (Nat.lt_succ_of_le hs.2) hs.1
      rw [Char.ofNat_toNat, h] at hc
      cases hc
  · rintro rfl
    exact absurd h (by decide)

/-- `(type)value`, which follows the equal sign. -/
def valueText (a : Arg) : List Char := '(' :: (a.typeName ++ ')' :: a.marked)

theorem item_eq (x : Call) : label x ++ x.2.marked = x.1 ++ '=' :: valueText x.2 := by
  simp [label, valueText]

theorem GoodCall.not_mem_valueText (h : GoodCall x) : '=' ∉ valueText x.2 := by
  simp only [valueText, List.mem_cons, List.mem_append, not_or]
  refine ⟨by decide, fun hc => ?_, by decide, not_mem_marked (Or.inr rfl) x.2⟩
  exact absurd (h.typeName.2 _ hc) (by decide)

/-- A value that `[^=]+` matches and that has no blank in front. -/
structure PlainValue (m : List Char) : Prop where
  ne_nil : m ≠ []
  equal : '=' ∉ m
  head : ∀ c, m.head? = some c → isSpace c = false

section keyval

variable {key m : List Char} (hne : key ≠ []) (hkey : ∀ c ∈ key, isKeyChar c = true) (hm : PlainValue m)
include hkey hm

/-- **The white space around the equal sign is removed.** -/
theorem replaceAll_space_around {l r : List Char} (hl : ∀ c ∈ l, isSpace c = true)
    (hr : ∀ c ∈ r, isSpace c = true) :
    replaceAll spaceRgx ['='] (key ++ (l ++ '=' :: (r ++ m))) = key ++ '=' :: m := by
  have hpass (y : List Char) : Passes spaceRgx key y := by
    intro z hz hsuf
    obtain ⟨c, u, rfl⟩ := List.exists_cons_of_ne_nil hz
    obtain ⟨hspace, hne⟩ := isKeyChar_ne (hkey c (hsuf.subset List.mem_cons_self))
    rw [first_space, List.cons_append, List.dropWhile_cons, if_neg (by simp [hspace])]
    exact if_neg fun hc => hne (eq_of_beq hc)
  have hvalue : Passes spaceRgx m [] := by
    intro z hz hsuf
    rw [first_space, List.append_nil]
    cases hd : z.dropWhile isSpace with
    | nil => rfl
    | cons c t =>
        refine if_neg fun hc => hm.equal (hsuf.subset ?_)
        rw [← eq_of_beq hc]
        exact (List.dropWhile_suffix _).subset (hd ▸ List.mem_cons_self)
  have hequal : first spaceRgx (l ++ '=' :: (r ++ m)) = some m := by
    obtain ⟨c, u, rfl⟩ := List.exists_cons_of_ne_nil hm.ne_nil
    have hdrop : (r ++ c :: u).dropWhile isSpace = c :: u := by
      rw [List.dropWhile_append_of_pos hr, List.dropWhile_cons, if_neg (by simp [hm.head c rfl])]
    rw [first_space, List.dropWhile_append_of_pos hl]
    exact congrArg some hdrop
  have hlen : m ≠ l ++ '=' :: (r ++ m) := fun h => by
    have hlen := congrArg List.length h
    simp only [List.length_append, List.length_cons] at hlen
    omega
  rw [replaceAll_append (hpass _), replaceAll_of_some hequal hlen, replaceAll_of_passes hvalue]
  rfl

/-- There are no blanks to remove. -/
theorem replaceAll_space_keyval :
    replaceAll spaceRgx ['='] (key ++ '=' :: m) = key ++ '=' :: m :=
  replaceAll_space_around hkey hm (l := []) (r := []) (by simp) (by simp)

include hne

theorem fullMatch_keyval : fullMatch keyvalRgx (key ++ '=' :: m) = true := by
  rw [fullMatch, List.contains_iff_mem, keyvalRgx, rests, List.mem_flatMap]
  refine ⟨'=' :: m, mem_rests_plus.2 ⟨key, hne, rfl, hkey⟩, ?_⟩
  rw [rests, List.mem_flatMap]
  refine ⟨m, by simp [rests], mem_rests_plus.2 ⟨m, hm.ne_nil, by simp, ?_⟩⟩
  intro c hc
  simpa using fun heq : c = '=' => hm.equal (heq ▸ hc)

/-- **A key and a value are found in their token.** -/
theorem parseProp_keyval (t : TypeDesc) : t.parseProp (key ++ '=' :: m) = t.addProp key m := by
  have hchar {c : Char} (hc : c ∈ key) : (c != '=') = true := by
    simpa using (isKeyChar_ne (hkey c hc)).2
  have htake : (key ++ '=' :: m).takeWhile (· != '=') = key := by
    rw [List.takeWhile_append_of_pos fun c hc => hchar hc]
    simp
  have hdrop : ((key ++ '=' :: m).dropWhile (· != '=')).drop 1 = m := by
    rw [List.dropWhile_append_of_pos fun c hc => hchar hc]
    simp
  unfold parseProp
  dsimp only
  rw [if_neg (by simp), replaceAll_space_keyval hkey hm, if_pos (fullMatch_keyval hne hkey hm), htake, hdrop]

end keyval

theorem GoodCall.plainValue (h : GoodCall x) : PlainValue (valueText x.2) where
  ne_nil := by simp [valueText]
  equal := h.not_mem_valueText
  head c hc := by
    obtain rfl : '(' = c := Option.some.inj hc
    decide

/-- A property has one equal sign. -/
theorem count_of_fullMatch {s : List Char} (h : fullMatch keyvalRgx s = true) : s.count '=' = 1 := by
  rw [fullMatch, List.contains_iff_mem, keyvalRgx, rests, List.mem_flatMap] at h
  obtain ⟨t, ht, h⟩ := h
  obtain ⟨u, -, rfl, hu⟩ := mem_rests_plus.1 ht
  rw [rests, List.mem_flatMap] at h
  obtain ⟨w, hw, h⟩ := h
  obtain ⟨v, -, rfl, hv⟩ := mem_rests_plus.1 h
  have hu0 : u.count '=' = 0 := List.count_eq_zero.2 fun hc => (isKeyChar_ne (hu _ hc)).2 rfl
  have hv0 : v.count '=' = 0 := List.count_eq_zero.2 fun hc => absurd (hv _ hc) (by decide)
  cases t with
  | nil => cases hw
  | cons c t =>
      rw [rests] at hw
      split at hw
      · next hc =>
          rw [← List.mem_singleton.1 hw, List.append_nil, eq_of_beq hc] at *
          rw [List.count_append, List.count_cons_self, hu0, hv0]
      · cases hw

/-! ### The value of a token -/

/-- The type at the beginning of a value. -/
theorem search_type {w m : List Char} (hne : w ≠ []) (hword : ∀ c ∈ w, isWord c = true) :
    search literalTypeRgx ('(' :: (w ++ ')' :: m)) = some ('(' :: (w ++ [')']), m) := by
  obtain ⟨c, u, hc⟩ := List.exists_cons_of_ne_nil hne
  have hrest (w : List Char) (hw : ∀ d ∈ w, isWord d = true) :
      (w ++ ')' :: m).dropWhile isWord = ')' :: m := by
    rw [List.dropWhile_append_of_pos hw]
    rfl
  have hfirst : first literalTypeRgx ('(' :: (w ++ ')' :: m)) = some m := by
    rw [first, literalTypeRgx, rests, rests]
    simp only [beq_self_eq_true, ite_true, List.flatMap_singleton]
    rw [rests, plus, rests, hc, List.cons_append, rests, if_pos (hword c (hc ▸ List.mem_cons_self)),
      List.flatMap_singleton]
    have hstar := rests_star_cls (p := isWord) (q := (· == ')'))
      (fun d hd => by
        by_contra hb
        rw [Bool.not_eq_false] at hb
        rw [eq_of_beq hb] at hd
        exact absurd hd (by decide)) (u ++ ')' :: m)
    rw [hrest u fun d hd => hword d (hc ▸ List.mem_cons_of_mem _ hd)] at hstar
    exact congrArg List.head? hstar
  rw [search, hfirst]
  simp only [Option.some.injEq, Prod.mk.injEq, and_true]
  have hlen : (w ++ ')' :: m).length + 1 - m.length = ('(' :: (w ++ [')'])).length := by
    simp only [List.length_append, List.length_cons, List.length_nil]
    omega
  have happ : '(' :: (w ++ ')' :: m) = ('(' :: (w ++ [')'])) ++ m := by simp
  rw [hlen, happ, List.take_left]

theorem unescape_cons {c : Char} (hb : c ≠ '\\') (hq : c ≠ '"') (hm : c ≠ '_') (s : List Char) :
    unescape (c :: s) = c :: unescape s := by
  have hpass (d : Char) (w fmt s : List Char) (hd : d ≠ c) :
      replaceAll (lit (d :: w)) fmt (c :: s) = c :: replaceAll (lit (d :: w)) fmt s :=
    replaceAll_append (x := [c]) (passes_lit (free_of_not_mem (by simpa using hd)))
  unfold unescape comaMark equalMark
  rw [hpass _ _ _ _ hm.symm, hpass _ _ _ _ hq.symm, hpass _ _ _ _ hm.symm, hpass _ _ _ _ hb.symm,
    hpass _ _ _ _ hb.symm]

/-- A value that begins with a parenthesis is no number. -/
theorem untypedValue_lparent (s : List Char) :
    untypedValue ('(' :: s) = .ok (.string (unescape ('(' :: s))) := by
  rw [untypedValue, if_neg]
  rw [unescape_cons (by decide) (by decide) (by decide)]
  simp [isInteger]

theorem digitsValue_toDigits (n : ℕ) : digitsValue (Nat.toDigits 10 n) = n := by
  have hall : (Nat.toDigits 10 n).takeWhile Char.isDigit = Nat.toDigits 10 n :=
    List.takeWhile_eq_self_iff.2 fun c hc => Nat.isDigit_of_mem_toDigits (by decide) (by decide) hc
  rw [digitsValue, hall, Nat.ofDigitChars_ten_toDigits]

theorem isDigit_ne {c : Char} (h : c.isDigit = true) : isSpace c = false ∧ c ≠ '-' ∧ c ≠ '+' := by
  refine ⟨(isKeyChar_ne ?_).1, ?_, ?_⟩
  · simp [isKeyChar, isWord, Char.isAlphanum, h]
  · rintro rfl
    exact absurd h (by decide)
  · rintro rfl
    exact absurd h (by decide)

theorem signedValue_toDigits (n : ℕ) : signedValue (Nat.toDigits 10 n) = n := by
  have hvalue := digitsValue_toDigits n
  unfold signedValue
  split
  · next h => exact absurd rfl (isDigit_ne (Nat.isDigit_of_mem_toDigits (b := 10) (n := n)
      (by decide) (by decide) (h ▸ List.mem_cons_self))).2.1
  · next h => exact absurd rfl (isDigit_ne (Nat.isDigit_of_mem_toDigits (b := 10) (n := n)
      (by decide) (by decide) (h ▸ List.mem_cons_self))).2.2
  · rw [hvalue]

theorem dropWhile_intToString (n : Int32) : (intToString n).dropWhile isSpace = intToString n := by
  cases hs : intToString n with
  | nil => rfl
  | cons c s =>
      rw [List.dropWhile_cons, if_neg]
      rcases mem_intToString (hs ▸ List.mem_cons_self : c ∈ intToString n) with rfl | hc
      · decide
      · simp [(isDigit_ne hc).1]

theorem signedValue_intToString (n : Int32) : signedValue (intToString n) = n.toInt := by
  unfold intToString
  split
  · rw [signedValue, digitsValue_toDigits]
    omega
  · rw [signedValue_toDigits]
    omega

/-- An `int` is read as it was written. -/
theorem streamInt_intToString (n : Int32) : streamInt (intToString n) = n := by
  rw [streamInt, dropWhile_intToString, signedValue_intToString, min_eq_right (Int32.toInt_le n),
    max_eq_right (Int32.minValue_le_toInt n), Int32.ofInt_toInt]

/-! ### The loop of the constructor -/

/-- What the parser does with a token. -/
def load (t : TypeDesc) (tok : Token) : TypeDesc :=
  match tok.call with
  | some x =>
      { t with
        properties := t.properties.emplace x.1 x.2.reparsed
        strTypes := t.strTypes.emplace? x.1 x.2.parsedType }
  | none => { t with parsingErrors := t.parsingErrors ++ wrongSyntax ++ tok.text }

theorem addProp_item (h : GoodCall x) (t : TypeDesc) :
    t.addProp x.1 (valueText x.2) = .ok (t.load ⟨label x ++ x.2.marked, some x⟩) := by
  have happ : valueText x.2 = ('(' :: (x.2.typeName ++ [')'])) ++ x.2.marked := by
    simp [valueText]
  have hdrop : (valueText x.2).drop ('(' :: (x.2.typeName ++ [')'])).length = x.2.marked := by
    rw [happ, List.drop_left]
  have htype : (('(' :: (x.2.typeName ++ [')'])).drop 1).take
      (('(' :: (x.2.typeName ++ [')'])).length - 2) = x.2.typeName := by
    simp
  rw [addProp, valueText, untypedValue_lparent, search_type h.typeName.1 h.typeName.2, ← valueText]
  simp only [Except.map, hdrop, htype]
  obtain ⟨key, a⟩ := x
  cases a with
  | int n =>
      rw [if_pos (by simp [Arg.typeName])]
      simp [load, Arg.reparsed, Arg.parsedType, OrdMap.emplace?, Arg.marked, streamInt_intToString]
  | string v =>
      rw [if_neg (by simp [Arg.typeName])]
      simp [load, Arg.reparsed, Arg.parsedType, OrdMap.emplace?, Arg.marked, Arg.typeName]
  | typed w v =>
      have hint : '(' :: ((key, Arg.typed w v).2.typeName ++ [')']) ≠ "(int)".toList := fun hint =>
        (h.type w v rfl).2.2 ((List.append_left_inj [')']).1 (List.cons.inj hint).2)
      rw [if_neg hint]
      simp [load, Arg.reparsed, Arg.parsedType, OrdMap.emplace?, Arg.marked, Arg.typeName]

/-- A token is a whole item, or has more than one equal sign. -/
theorem mem_joinTokens {acc : List Char} (hacc : acc = [] ∨ '=' ∈ acc) {tok : Token}
    (h : tok ∈ joinTokens acc xs) :
    (∃ x ∈ xs, tok = ⟨label x ++ x.2.marked, some x⟩) ∨
      tok.call = none ∧ 2 ≤ tok.text.count '=' := by
  induction xs generalizing acc with
  | nil => cases h
  | cons x xs ih =>
      have hlabel : '=' ∈ label x := by simp [label]
      have hmono {acc : List Char} (hacc : acc = [] ∨ '=' ∈ acc) (h : tok ∈ joinTokens acc xs) :
          (∃ y ∈ x :: xs, tok = ⟨label y ++ y.2.marked, some y⟩) ∨
            tok.call = none ∧ 2 ≤ tok.text.count '=' := by
        refine (ih hacc h).imp_left fun hitem => ?_
        obtain ⟨y, hy, heq⟩ := hitem
        exact ⟨y, List.mem_cons_of_mem _ hy, heq⟩
      rw [joinTokens] at h
      split at h
      · refine hmono (Or.inr ?_) h
        simp [hlabel]
      · rcases List.mem_cons.1 h with rfl | h
        · rcases hacc with rfl | hacc
          · exact Or.inl ⟨x, List.mem_cons_self, by simp⟩
          · refine Or.inr ⟨if_neg (List.ne_nil_of_mem hacc), ?_⟩
            have h1 := List.one_le_count_iff.2 hacc
            have h2 := List.one_le_count_iff.2 hlabel
            dsimp only
            rw [List.count_append, List.count_append]
            omega
        · exact hmono (Or.inl rfl) h

/-- **What is parsed from a token.** -/
theorem parseProp_token (hx : ∀ x ∈ xs, GoodCall x) {tok : Token} (h : tok ∈ joinTokens [] xs)
    (t : TypeDesc) : t.parseProp tok.text = .ok (t.load tok) := by
  rcases mem_joinTokens (Or.inl rfl) h with ⟨x, hmem, rfl⟩ | ⟨hnone, hcount⟩
  · have hgood := hx x hmem
    exact (congrArg _ (item_eq x)).trans
      ((parseProp_keyval hgood.key_ne_nil hgood.key hgood.plainValue t).trans (addProp_item hgood t))
  · have hne : tok.text ≠ [] := by
      intro hnil
      rw [hnil] at hcount
      exact absurd hcount (by decide)
    unfold parseProp load
    dsimp only
    rw [if_neg hne, if_neg, hnone]
    intro hmatch
    have hone := count_of_fullMatch hmatch
    rw [count_replaceAll_space] at hone
    omega

theorem tokens_text (hname : GoodName name) (hx : ∀ x ∈ xs, GoodCall x) :
    tokens comaRgx (escape (name ++ fields xs)) = name :: (joinTokens [] xs).map Token.text := by
  have hpass (y : List Char) : Passes comaRgx name y :=
    passes_coma hname.coma fun hl => hname.space (List.mem_of_getLast? hl)
  have hpieces : pieces comaRgx (escape (name ++ fields xs)) =
      name :: (joinTokens [] xs).map Token.text := by
    rw [escape_append hname.backslash]
    cases xs with
    | nil =>
        rw [fields, List.flatMap_nil, escape_nil, List.append_nil, pieces_of_passes (hpass [])]
        rfl
    | cons x xs =>
        rw [fields_cons, pieces_fields (hx x List.mem_cons_self) (hpass _)]
        exact congrArg _ (pieces_items hx List.not_mem_nil)
  rw [tokens_eq_pieces, hpieces]
  rw [hpieces]
  intro p hp
  rcases List.mem_cons.1 hp with rfl | hp
  · exact hname.ne_nil
  · obtain ⟨tok, htok, rfl⟩ := List.mem_map.1 hp
    rcases mem_joinTokens (Or.inl rfl) htok with ⟨x, -, rfl⟩ | ⟨-, hcount⟩
    · simp [label]
    · intro hnil
      rw [hnil] at hcount
      exact absurd hcount (by decide)

/-- **The constructor is a loop over the tokens.** -/
theorem parse_text (hname : GoodName name) (hx : ∀ x ∈ xs, GoodCall x) :
    parse (name ++ fields xs) = .ok ((joinTokens [] xs).foldl load (ofName name)) := by
  have hloop (toks : List Token) (htoks : ∀ tok ∈ toks, tok ∈ joinTokens [] xs) (t : TypeDesc) :
      (toks.map Token.text).foldlM parseProp t = .ok (toks.foldl load t) := by
    induction toks generalizing t with
    | nil => rfl
    | cons tok toks ih =>
        rw [List.map_cons, List.foldlM_cons, parseProp_token hx (htoks tok List.mem_cons_self)]
        exact ih (fun tok' h => htoks tok' (List.mem_cons_of_mem _ h)) _
  unfold parse
  rw [tokens_text hname hx, findName, if_neg hname.ne_nil]
  exact hloop _ (fun _ h => h) _

/-- The properties that the tokens give. -/
def survivors (xs : List Call) : List Call := (joinTokens [] xs).filterMap Token.call

/-- **What the loop leaves**: the properties of the tokens, in their order. -/
theorem foldl_load (toks : List Token) (t : TypeDesc) :
    let u := toks.foldl load t
    u.name = t.name ∧
      u.properties =
        (toks.filterMap Token.call).foldl (fun m x => m.emplace x.1 x.2.reparsed) t.properties ∧
      u.strTypes =
        (toks.filterMap Token.call).foldl (fun m x => m.emplace? x.1 x.2.parsedType) t.strTypes ∧
      ((∀ tok ∈ toks, tok.call ≠ none) → u.parsingErrors = t.parsingErrors) := by
  induction toks generalizing t with
  | nil => exact ⟨rfl, rfl, rfl, fun _ => rfl⟩
  | cons tok toks ih =>
      obtain ⟨hn, hp, hs, he⟩ := ih (t.load tok)
      obtain ⟨text, call⟩ := tok
      cases call with
      | none => exact ⟨hn, hp, hs, fun h => absurd rfl (h _ List.mem_cons_self)⟩
      | some x => exact ⟨hn, hp, hs, fun h => he fun tok htok => h tok (List.mem_cons_of_mem _ htok)⟩

theorem parse_name (hname : GoodName name) : parse name = .ok (ofName name) := by
  have h : parse (name ++ fields []) = .ok ((joinTokens [] []).foldl load (ofName name)) :=
    parse_text hname (by simp)
  simpa [fields, joinTokens] using h

/-- **What `set_prop` builds.** -/
theorem exists_build {calls : List Call} (hname : GoodName name) (hkeys : (calls.map Prod.fst).Nodup) :
    ∃ t, build name calls = .ok t ∧ t.name = name ∧ t.properties = (callMap calls).map Arg.value ∧
      t.str = .ok (name ++ fields (callMap calls).entries) := by
  obtain ⟨hn, hp, hs⟩ := foldl_setArg calls (ofName name)
  refine ⟨_, by rw [build, parse_name hname]; rfl, hn, hp.trans (properties_callMap calls Arg.value), ?_⟩
  rw [str_of_describes (describes_of_foldl hkeys hp hs (Or.inl rfl)), hn]
  rfl

/-- **What the parser finds in the text.** -/
theorem parse_fields (hname : GoodName name) (hx : ∀ x ∈ xs, GoodCall x) :
    ∃ u, parse (name ++ fields xs) = .ok u ∧ u.name = name ∧
      u.properties = (survivors xs).foldl (fun m x => m.emplace x.1 x.2.reparsed) .empty ∧
      u.strTypes = (survivors xs).foldl (fun m x => m.emplace? x.1 x.2.parsedType) .empty ∧
      ((∀ tok ∈ joinTokens [] xs, tok.call ≠ none) → u.parsingErrors = []) :=
  ⟨_, parse_text hname hx, foldl_load _ _⟩

end TypeDesc

end Shmdata

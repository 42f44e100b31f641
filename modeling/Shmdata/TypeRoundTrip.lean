/-
**The round trip of a description.**

When no value is open, every item is a token of its own, and the parser finds the keys in the order in which
they were written.  A string comes back if it has no double quote, which the parser removes, and does not
contain the words of the two markers: then a marker in the text stands for a special character of the
string, and each of the five replacements of `unescape` decodes one of them.  The searches for the regular
expressions are taken to come to their end.

Main definitions:

* `Shmdata.PlainString` — the strings that come back;
* `Shmdata.TypeDesc.MarkCode` — the codes in which a marker can be recognised.

Main results:

* `Shmdata.TypeDesc.unescape_quote` — a string is read as it was written;
* `Shmdata.TypeDesc.round_trip` — **the round trip**.
-/

import Mathlib.Data.List.Infix
import Shmdata.TypeTokens

set_option relaxedAutoImplicit false
set_option autoImplicit false

namespace Shmdata

open Regex

/-- A string without double quotes and marker words that does not end in a backslash. -/
structure PlainString (v : List Char) : Prop where
  quote : '"' ∉ v
  coma : ¬ "COMA".toList <:+: v
  equal : ¬ "EQUAL".toList <:+: v
  backslash : v.getLast? ≠ some '\\'

/-- The string of a value is plain. -/
def Arg.Plain : Arg → Prop
  | .int _ => True
  | .string v => PlainString v
  | .typed _ v => PlainString v

namespace TypeDesc

/-! ### Markers -/

variable {f : Char → List Char} {m t u v y : List Char}

/-- A code word is the character itself, or begins as a marker does, or begins with a character that occurs
in no marker. -/
def MarkCode (f : Char → List Char) (m : List Char) : Prop :=
  ∀ c, f c = [c] ∨ (∃ s, f c = '_' :: '_' :: s) ∨ ∃ e s, f c = e :: s ∧ e ≠ '_' ∧ e ∉ m

/-- The word of a marker stands in the encoded text only where it stands in the text. -/
theorem prefix_of_prefix_flatMap (hf : MarkCode f m) (hm : '_' ∉ m) (hy : ∀ c ∈ y, c ∉ m)
    {w : List Char} (hw : w ⊆ m) (h : w <+: u.flatMap f ++ y) : w <+: u := by
  induction w generalizing u with
  | nil => exact List.nil_prefix
  | cons d w ih =>
      have hd : d ∈ m := hw List.mem_cons_self
      cases u with
      | nil =>
          obtain ⟨z, rfl⟩ := h
          exact absurd hd (hy d (by simp))
      | cons c u =>
          rw [List.flatMap_cons, List.append_assoc] at h
          rcases hf c with hc | ⟨s, hc⟩ | ⟨e, s, hc, -, he⟩
          · rw [hc, List.singleton_append] at h
            obtain ⟨hdc, htail⟩ := List.cons_prefix_cons.1 h
            exact List.cons_prefix_cons.2 ⟨hdc, ih (List.subset_of_cons_subset hw) htail⟩
          · rw [hc] at h
            exact absurd ((List.cons_prefix_cons.1 h).1 ▸ hd) hm
          · rw [hc] at h
            exact absurd ((List.cons_prefix_cons.1 h).1 ▸ hd) he

/-- The same, with a blank of the marker in front. -/
theorem infix_of_prefix_flatMap (hf : MarkCode f m) (hm : '_' ∉ m) (hne : m ≠ [])
    (hy : ∀ c ∈ y, c ∉ m ∧ c ≠ '_') (h : '_' :: m <+: u.flatMap f ++ y) : m <:+: u := by
  cases u with
  | nil =>
      obtain ⟨z, rfl⟩ := h
      exact absurd rfl (hy '_' (by simp)).2
  | cons c u =>
      rw [List.flatMap_cons, List.append_assoc] at h
      rcases hf c with hc | ⟨s, hc⟩ | ⟨e, s, hc, he, -⟩
      · rw [hc] at h
        have hpre := prefix_of_prefix_flatMap hf hm (fun c hc => (hy c hc).1) (List.Subset.refl m)
          (List.cons_prefix_cons.1 h).2
        exact hpre.isInfix.trans (List.suffix_cons ..).isInfix
      · rw [hc] at h
        obtain ⟨d, w, rfl⟩ := List.exists_cons_of_ne_nil hne
        have hd := (List.cons_prefix_cons.1 (List.cons_prefix_cons.1 h).2).1
        exact absurd (hd ▸ List.mem_cons_self) hm
      · rw [hc] at h
        exact absurd (List.cons_prefix_cons.1 h).1.symm he

theorem free_blank (hf : MarkCode f m) (hm : '_' ∉ m) (hne : m ≠ []) (hy : ∀ c ∈ y, c ∉ m ∧ c ≠ '_')
    (hu : ¬ m <:+: u) : Free ('_' :: '_' :: (m ++ t)) ['_'] (u.flatMap f ++ y) := by
  refine free_cons (fun h => hu ?_) (free_nil _ _)
  refine infix_of_prefix_flatMap hf hm hne hy (List.IsPrefix.trans ?_ (List.cons_prefix_cons.1 h).2)
  exact List.cons_prefix_cons.2 ⟨rfl, List.prefix_append ..⟩

theorem free_blanks (hf : MarkCode f m) (hm : '_' ∉ m) (hne : m ≠ []) (hy : ∀ c ∈ y, c ∉ m ∧ c ≠ '_')
    (hu : ¬ m <:+: u) : Free ('_' :: '_' :: (m ++ t)) ['_', '_'] (u.flatMap f ++ y) := by
  refine free_cons (fun h => hu ?_) (free_blank hf hm hne hy hu)
  have h := (List.cons_prefix_cons.1 (List.cons_prefix_cons.1 h).2).2
  exact (prefix_of_prefix_flatMap hf hm (fun c hc => (hy c hc).1) (List.Subset.refl m)
    ((List.prefix_append ..).trans h)).isInfix

/-- No marker begins in a character of the string. -/
theorem free_mark_char (hf : MarkCode f m) (hm : '_' ∉ m) (hne : m ≠ [])
    (hy : ∀ c ∈ y, c ∉ m ∧ c ≠ '_') (hu : ¬ m <:+: u) (c : Char) :
    Free ('_' :: '_' :: (m ++ t)) [c] (u.flatMap f ++ y) := by
  by_cases hc : c = '_'
  · rw [hc]
    exact free_blank hf hm hne hy hu
  · exact free_of_not_mem (by simpa using Ne.symm hc)

/-! ### The value of a string -/

theorem markCode_code {coma equal m : List Char} (hm : '\\' ∉ m)
    (hc : (∃ s, coma = '_' :: '_' :: s) ∨ coma = [',']) (he : ∃ s, equal = '_' :: '_' :: s) :
    MarkCode (code coma equal ['\\', '('] ['\\', ')']) m := by
  intro c
  unfold code
  split_ifs with h1
  · exact hc.elim (fun h => Or.inr (Or.inl h)) fun h => Or.inl (h1 ▸ h)
  · exact Or.inr (Or.inl he)
  · exact Or.inr (Or.inr ⟨_, _, rfl, by decide, hm⟩)
  · exact Or.inr (Or.inr ⟨_, _, rfl, by decide, hm⟩)
  · exact Or.inl rfl

/-- The markers of the commas are decoded. -/
theorem replaceAll_comaMark (hv : ¬ "COMA".toList <:+: v) (hy : ∀ c ∈ y, c = '"') :
    replaceAll (lit comaMark) [','] (v.flatMap markedCode ++ y) =
      v.flatMap (code [','] equalMark ['\\', '('] ['\\', ')']) ++ y := by
  have hf : MarkCode markedCode "COMA".toList :=
    markCode_code (by decide) (Or.inl ⟨_, rfl⟩) ⟨_, rfl⟩
  have hy' : ∀ c ∈ y, c ∉ "COMA".toList ∧ c ≠ '_' := by
    intro c hc
    rw [hy c hc]
    decide
  have hend : replaceAll (lit comaMark) [','] y = y :=
    replaceAll_of_passes (passes_lit (free_of_not_mem fun hc => (hy' _ hc).2 rfl))
  refine (replaceAll_flatMap (f := markedCode) (g := code [','] equalMark ['\\', '('] ['\\', ')'])
    (d := ',') (by decide) (fun c hc => by simp [code, hc]) fun c u hs hc => ?_).trans (by
      show _ ++ replaceAll (lit comaMark) [','] y = _
      rw [hend])
  show Free ('_' :: '_' :: ("COMA".toList ++ ['_', '_'])) (markedCode c) (u.flatMap markedCode ++ y)
  have hu : ¬ "COMA".toList <:+: u := fun h =>
    hv (h.trans ((List.suffix_cons ..).trans hs).isInfix)
  have hchar := free_mark_char (t := ['_', '_']) hf (by decide) (by decide) hy' hu c
  have hblanks := free_blanks (t := ['_', '_']) hf (by decide) (by decide) hy' hu
  generalize u.flatMap markedCode ++ y = z at hchar hblanks ⊢
  unfold markedCode code
  rw [if_neg hc]
  split_ifs
  · -- the only other marker
    refine free_cons (by simp) (free_cons (by simp) (free_cons (by simp) (free_cons (by simp)
      (free_cons (by simp) (free_cons (by simp) (free_cons (by simp) hblanks))))))
  · exact free_of_not_mem (by decide)
  · exact free_of_not_mem (by decide)
  · exact hchar

/-- The markers of the equal signs are decoded. -/
theorem replaceAll_equalMark (hv : ¬ "EQUAL".toList <:+: v) :
    replaceAll (lit equalMark) ['='] (v.flatMap (code [','] equalMark ['\\', '('] ['\\', ')'])) =
      v.flatMap (code [','] ['='] ['\\', '('] ['\\', ')']) := by
  have hf : MarkCode (code [','] equalMark ['\\', '('] ['\\', ')']) "EQUAL".toList :=
    markCode_code (by decide) (Or.inr rfl) ⟨_, rfl⟩
  have h := replaceAll_flatMap (f := code [','] equalMark ['\\', '('] ['\\', ')'])
    (g := code [','] ['='] ['\\', '('] ['\\', ')']) (d := '=') (v := v) (y := [])
    (by decide) (fun c hc => by simp [code, hc]) fun c u hs hc => by
      show Free ('_' :: '_' :: ("EQUAL".toList ++ ['_', '_'])) (code [','] equalMark ['\\', '('] ['\\', ')'] c)
        (u.flatMap _ ++ [])
      have hu : ¬ "EQUAL".toList <:+: u := fun h =>
        hv (h.trans ((List.suffix_cons ..).trans hs).isInfix)
      have hchar := free_mark_char (t := ['_', '_']) (y := []) hf (by decide) (by decide) (by simp) hu c
      generalize u.flatMap (code [','] equalMark ['\\', '('] ['\\', ')']) ++ [] = z at hchar ⊢
      unfold code
      rw [if_neg hc]
      split_ifs
      · exact free_of_not_mem (by decide)
      · exact free_of_not_mem (by decide)
      · exact free_of_not_mem (by decide)
      · exact hchar
  rw [List.append_nil, replaceAll_nil, List.append_nil] at h
  exact h

/-- The backslashes in front of the parentheses are removed. -/
theorem replaceAll_parents (v : List Char) : replaceAll (lit ['\\', ')']) [')']
    (replaceAll (lit ['\\', '(']) ['('] (v.flatMap (code [','] ['='] ['\\', '('] ['\\', ')']))) = v := by
  have hl := replaceAll_flatMap (f := code [','] ['='] ['\\', '('] ['\\', ')'])
    (g := code [','] ['='] ['('] ['\\', ')']) (d := '(') (v := v) (y := [])
    (by decide) (fun c hc => by simp [code, hc]) fun c u hs hc => by
      show Free ['\\', '('] (code [','] ['='] ['\\', '('] ['\\', ')'] c) (u.flatMap _ ++ [])
      have hheads : Heads (code [','] ['='] ['\\', '('] ['\\', ')']) '(' :=
        heads_code (by simp) ⟨_, _, rfl, by decide⟩ ⟨_, _, rfl, by decide⟩ ⟨_, _, rfl, by decide⟩
          ⟨_, _, rfl, by decide⟩
      have hchar := free_char hheads (c := c) (u := u) (y := []) (by simp)
      generalize u.flatMap (code [','] ['='] ['\\', '('] ['\\', ')']) ++ [] = z at hchar ⊢
      unfold code
      split_ifs
      · exact free_of_not_mem (by decide)
      · exact free_of_not_mem (by decide)
      · exact free_escaped (by decide) (by decide) z
      · exact hchar
  have hr := replaceAll_flatMap (f := code [','] ['='] ['('] ['\\', ')'])
    (g := code [','] ['='] ['('] [')']) (d := ')') (v := v) (y := [])
    (by decide) (fun c hc => by simp [code, hc]) fun c u hs hc => by
      show Free ['\\', ')'] (code [','] ['='] ['('] ['\\', ')'] c) (u.flatMap _ ++ [])
      have hheads : Heads (code [','] ['='] ['('] ['\\', ')']) ')' :=
        heads_code (by simp) ⟨_, _, rfl, by decide⟩ ⟨_, _, rfl, by decide⟩ ⟨_, _, rfl, by decide⟩
          ⟨_, _, rfl, by decide⟩
      have hchar := free_char hheads (c := c) (u := u) (y := []) (by simp)
      generalize u.flatMap (code [','] ['='] ['('] ['\\', ')']) ++ [] = z at hchar ⊢
      unfold code
      split_ifs
      · exact free_of_not_mem (by decide)
      · exact free_of_not_mem (by decide)
      · exact free_of_not_mem (by decide)
      · exact hchar
  have hself : v.flatMap (code [','] ['='] ['('] [')']) = v := by
    have hcode : code [','] ['='] ['('] [')'] = fun c => [c] := by
      funext c
      unfold code
      split_ifs <;> simp_all
    rw [hcode, List.flatMap_singleton']
  rw [List.append_nil, replaceAll_nil, List.append_nil] at hl hr
  exact (congrArg _ hl).trans (hr.trans hself)

/-- **A string is read as it was written.** -/
theorem unescape_quote (h : PlainString v) : unescape (quote v (v.flatMap markedCode)) = v := by
  have hcoma : replaceAll (lit comaMark) [','] (quote v (v.flatMap markedCode)) =
      quote v (v.flatMap (code [','] equalMark ['\\', '('] ['\\', ')'])) := by
    unfold quote
    split
    · have hpass : replaceAll (lit comaMark) [','] ('"' :: (v.flatMap markedCode ++ ['"'])) =
          ['"'] ++ replaceAll (lit comaMark) [','] (v.flatMap markedCode ++ ['"']) :=
        replaceAll_append (x := ['"']) (passes_lit (free_of_not_mem (by decide)))
      rw [hpass, replaceAll_comaMark h.coma (by simp), List.singleton_append]
    · have hplain := replaceAll_comaMark (y := []) h.coma (by simp)
      rwa [List.append_nil, List.append_nil] at hplain
  have hquot : replaceAll (lit ['"']) []
      (quote v (v.flatMap (code [','] equalMark ['\\', '('] ['\\', ')']))) =
      v.flatMap (code [','] equalMark ['\\', '('] ['\\', ')']) := by
    have hnot : '"' ∉ v.flatMap (code [','] equalMark ['\\', '('] ['\\', ')']) := by
      intro hc
      obtain ⟨c, hmem, hc⟩ := List.mem_flatMap.1 hc
      suffices hcq : '"' = c from h.quote (hcq ▸ hmem)
      unfold code at hc
      split_ifs at hc
      · exact absurd hc (by decide)
      · exact absurd hc (by decide)
      · exact absurd hc (by decide)
      · exact absurd hc (by decide)
      · exact List.mem_singleton.1 hc
    generalize v.flatMap (code [','] equalMark ['\\', '('] ['\\', ')']) = w at hnot ⊢
    have hkeep : w.flatMap (fun d => if d = '"' then [] else [d]) = w := by
      refine (List.flatMap_congr fun c hc => if_neg fun heq => ?_).trans (List.flatMap_singleton' w)
      exact hnot (heq ▸ hc)
    rw [replaceAll_char]
    unfold quote
    split
    · rw [List.flatMap_cons, List.flatMap_append, hkeep]
      simp
    · exact hkeep
  rw [unescape, hcoma, hquot, replaceAll_equalMark h.equal, replaceAll_parents]

/-! ### The round trip -/

variable {name : List Char} {calls xs : List Call} {t' : TypeDesc}

theorem not_isOpen {a : Arg} (h : a.Plain) : a.isOpen = false := by
  cases a with
  | int n => rfl
  | string v => simp [Arg.isOpen, PlainString.backslash h]
  | typed w v => simp [Arg.isOpen, PlainString.backslash h]

theorem reparsed_of_plain {a : Arg} (h : a.Plain) : a.reparsed = a.value := by
  cases a with
  | int n => rfl
  | string v => exact congrArg Any.string (unescape_quote h)
  | typed w v => exact congrArg Any.string (unescape_quote h)

/-- When no value is open, every item is a token. -/
theorem joinTokens_of_closed (h : ∀ x ∈ xs, x.2.isOpen = false) :
    joinTokens [] xs = xs.map fun x => ⟨label x ++ x.2.marked, some x⟩ := by
  induction xs with
  | nil => rfl
  | cons x xs ih =>
      have hclosed : swallows x xs = false := by simp [swallows, h x List.mem_cons_self]
      rw [joinTokens, if_neg (by simp [hclosed]), ih fun y hy => h y (List.mem_cons_of_mem _ hy)]
      rfl

/-- **What is read of plain values**, and what is written of it again. -/
theorem parse_plain (m : OrdMap (List Char) Arg) (hname : GoodName name)
    (hgood : ∀ x ∈ m.entries, GoodCall x) (hplain : ∀ x ∈ m.entries, x.2.Plain) :
    ∃ u, parse (name ++ fields m.entries) = .ok u ∧ u.name = name ∧ u.properties = m.map Arg.value ∧
      u.parsingErrors = [] ∧ u.str = .ok (name ++ fields m.entries) := by
  have hclosed : ∀ x ∈ m.entries, x.2.isOpen = false := fun x hx => not_isOpen (hplain x hx)
  obtain ⟨u, hparse, hun, hup, hus, hue⟩ := parse_fields hname hgood
  have htokens := joinTokens_of_closed hclosed
  have hsurv : survivors m.entries = m.entries := by
    rw [survivors, htokens, List.filterMap_map]
    exact List.filterMap_some
  have hval : m.entries.foldl
        (fun m x => m.emplace x.1 x.2.reparsed) (OrdMap.empty : OrdMap (List Char) Any) =
      m.entries.foldl (fun m x => m.emplace x.1 x.2.value) .empty :=
    List.foldl_ext _ _ _ fun m x hx => by rw [reparsed_of_plain (hplain x hx)]
  have hself : callMap m.entries = m := OrdMap.foldl_entries _
  rw [hsurv] at hup hus
  have hdesc := describes_of_foldl (OrdMap.nodup_entries _) (hup.trans hval) hus (Or.inr rfl)
  rw [hself] at hdesc
  refine ⟨u, hparse, hun, ?_, hue ?_, ?_⟩
  · rw [hup, hval, properties_callMap, hself]
  · rw [htokens]
    intro tok htok
    obtain ⟨x, -, rfl⟩ := List.mem_map.1 htok
    simp
  · rw [str_of_describes hdesc, hun]

/-- **The round trip.**  The properties may be set in any order. -/
theorem round_trip (hname : GoodName name) (hkeys : (calls.map Prod.fst).Nodup)
    (hgood : ∀ x ∈ calls, GoodCall x) (hplain : ∀ x ∈ calls, x.2.Plain) :
    ∃ t s u, build name calls = .ok t ∧ t.str = .ok s ∧ parse s = .ok u ∧
      u.name = name ∧ (∀ x ∈ calls, u.get x.1 = some x.2.value) ∧ u.properties = t.properties ∧
      u.parsingErrors = [] ∧ u.str = .ok s := by
  obtain ⟨t, hbuild, htn, htp, hstr⟩ := exists_build hname hkeys
  have hmem {x : Call} (hx : x ∈ (callMap calls).entries) : x ∈ calls := (mem_callMap hkeys).1 hx
  obtain ⟨u, hparse, hun, hup, hue, hus⟩ := parse_plain (callMap calls) hname
    (fun x hx => hgood x (hmem hx)) fun x hx => hplain x (hmem hx)
  refine ⟨t, _, u, hbuild, hstr, hparse, hun, fun x hx => ?_, hup.trans htp.symm, hue, hus⟩
  have hfind : (callMap calls).find? x.1 = some x.2 := (OrdMap.find?_foldl_emplace hkeys).2 hx
  rw [get, hup, OrdMap.find?_map, hfind]
  rfl

/-- A video with a label in which every special character occurs. -/
def videoCalls : List Call :=
  [("width".toList, .int 320), ("label".toList, .string "a, (b)=c".toList),
    ("framerate".toList, .typed "fraction".toList "30/1".toList)]

theorem round_trip_video : ∃ t s u, build "video/x-raw".toList videoCalls = .ok t ∧ t.str = .ok s ∧
    parse s = .ok u ∧ u.get "label".toList = some (.string "a, (b)=c".toList) ∧ u.str = .ok s := by
  have hname : GoodName "video/x-raw".toList := ⟨by decide, by decide, by decide, by decide⟩
  have hgood : ∀ x ∈ videoCalls, GoodCall x := by
    refine List.forall_mem_cons.2 ⟨⟨by decide, List.all_eq_true.1 (by decide), by rintro w v ⟨⟩⟩, ?_⟩
    refine List.forall_mem_cons.2 ⟨⟨by decide, List.all_eq_true.1 (by decide), by rintro w v ⟨⟩⟩, ?_⟩
    refine List.forall_mem_cons.2 ⟨⟨by decide, List.all_eq_true.1 (by decide), ?_⟩, by simp⟩
    rintro w v ⟨⟩
    exact ⟨by decide, List.all_eq_true.1 (by decide), by decide⟩
  have hplain : ∀ x ∈ videoCalls, x.2.Plain := by
    refine List.forall_mem_cons.2 ⟨trivial, List.forall_mem_cons.2 ⟨?_, List.forall_mem_cons.2 ⟨?_, by simp⟩⟩⟩
    · exact ⟨by decide, by decide, by decide, by decide⟩
    · exact ⟨by decide, by decide, by decide, by decide⟩
  obtain ⟨t, s, u, hbuild, hstr, hparse, -, hget, -, -, hstr'⟩ :=
    round_trip hname (by decide) hgood hplain
  exact ⟨t, s, u, hbuild, hstr, hparse, hget ("label".toList, .string "a, (b)=c".toList) (by decide), hstr'⟩

end TypeDesc

end Shmdata

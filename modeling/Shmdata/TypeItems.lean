/-
**The items of any text.**

Whatever text it is given, `Type::Type` makes a list of tokens of it.  The first one that is not empty is the
name.  Each of the others is an item, with a key and a value, or is reported as an error, or is empty.  An
item gives a value to its key and possibly a type, unless the key has them already.  So the constructor is a
loop that fills the two maps from the items and collects the reports, and the only thing that can stop it is
the conversion of a number.

Main definitions:

* `Shmdata.TypeDesc.itemOf`, `Shmdata.TypeDesc.items` — the items of a token and of a text;
* `Shmdata.TypeDesc.report` — what is reported of a token;
* `Shmdata.TypeDesc.addTokens` — a description to which the tokens have been added.

Main results:

* `Shmdata.TypeDesc.parse_eq_ok` — **what the constructor makes of any text**;
* `Shmdata.TypeDesc.find?_of_parse` — the value of a key is that of its first item.
-/

import Shmdata.TypeGrammar

set_option relaxedAutoImplicit false
set_option autoImplicit false

namespace Shmdata

open Regex

namespace TypeDesc

/-- The key and the value of a token, if it has them. -/
def itemOf (tok : List Char) : Option Item :=
  if tok = [] then none
  else
    let prop := replaceAll spaceRgx ['='] tok
    if fullMatch keyvalRgx prop then
      some (prop.takeWhile (· != '='), (prop.dropWhile (· != '=')).drop 1)
    else none

/-- What is added to the parsing errors for a token. -/
def report (tok : List Char) : List Char :=
  if tok = [] ∨ (itemOf tok).isSome then [] else wrongSyntax ++ tok

/-- The name and the tokens behind it. -/
def nameAndTokens (str : List Char) : List Char × List (List Char) := findName (tokens comaRgx (escape str))

/-- The items of a text. -/
def items (str : List Char) : List Item := (nameAndTokens str).2.filterMap itemOf

/-- The description `t` to which the tokens have been added. -/
def addTokens (t : TypeDesc) (toks : List (List Char)) : TypeDesc where
  name := t.name
  properties := (toks.filterMap itemOf).foldl (fun m x => m.emplace x.1 (found x.2)) t.properties
  strTypes := (toks.filterMap itemOf).foldl (fun m x => m.emplace? x.1 (typeFound x.2)) t.strTypes
  parsingErrors := t.parsingErrors ++ toks.flatMap report

/-- The values of the items are all converted. -/
def Converts (xs : List Item) : Prop := ∀ x ∈ xs, ∃ a, valueFound x.2 = .ok a

variable {s key m tok : List Char} {toks : List (List Char)} {t u : TypeDesc} {a : Any} {xs : List Item}

theorem parseProp_eq (t : TypeDesc) (tok : List Char) :
    t.parseProp tok =
      match itemOf tok with
      | some x => t.addProp x.1 x.2
      | none => .ok { t with parsingErrors := t.parsingErrors ++ report tok } := by
  unfold parseProp report itemOf
  by_cases hnil : tok = []
  · simp [hnil]
  · dsimp only
    rw [if_neg hnil, if_neg hnil]
    by_cases hmatch : fullMatch keyvalRgx (replaceAll spaceRgx ['='] tok) = true
    · simp [hmatch]
    · simp [hmatch, hnil]

/-- One token is added, if its value is converted. -/
theorem parseProp_eq_ok :
    t.parseProp tok = .ok u ↔ Converts (itemOf tok).toList ∧ u = addTokens t [tok] := by
  rw [parseProp_eq]
  unfold Converts addTokens
  cases hi : itemOf tok with
  | none =>
      rw [List.filterMap_cons, hi]
      simp [eq_comm]
  | some x =>
      have hreport : report tok = [] := if_pos (Or.inr (by rw [hi]; rfl))
      rw [List.filterMap_cons, hi]
      simp only [Option.toList_some, List.mem_singleton, forall_eq, List.filterMap_nil, List.foldl_cons,
        List.foldl_nil, List.flatMap_cons, hreport, List.flatMap_nil, List.append_nil]
      rw [addProp_found]
      cases hv : valueFound x.2 with
      | error e => simp [Except.map]
      | ok a => simp [Except.map, found_of_valueFound hv, eq_comm]

theorem addTokens_cons (t : TypeDesc) (tok : List Char) (toks : List (List Char)) :
    addTokens t (tok :: toks) = addTokens (addTokens t [tok]) toks := by
  unfold addTokens
  cases hi : itemOf tok <;> simp [hi]

/-- **The tokens are added one after the other**, if all their values are converted. -/
theorem foldlM_parseProp :
    toks.foldlM parseProp t = .ok u ↔ Converts (toks.filterMap itemOf) ∧ u = addTokens t toks := by
  induction toks generalizing t with
  | nil =>
      have hnil : addTokens t [] = t := by simp [addTokens]
      rw [List.filterMap_nil, List.foldlM_nil, hnil]
      simp [Converts, pure, Except.pure, eq_comm]
  | cons tok toks ih =>
      have hsplit : Converts ((tok :: toks).filterMap itemOf) ↔
          Converts (itemOf tok).toList ∧ Converts (toks.filterMap itemOf) := by
        unfold Converts
        cases hi : itemOf tok <;> simp [hi]
      rw [List.foldlM_cons, hsplit, addTokens_cons]
      cases hp : t.parseProp tok with
      | error e =>
          refine iff_of_false (by simp [bind, Except.bind]) fun h => ?_
          have hok := (parseProp_eq_ok (u := addTokens t [tok])).2 ⟨h.1.1, rfl⟩
          rw [hp] at hok
          cases hok
      | ok v =>
          obtain ⟨hc, rfl⟩ := parseProp_eq_ok.1 hp
          refine ih.trans ?_
          simp [hc]

/-- **What the constructor makes of any text.** -/
theorem parse_eq_ok :
    parse s = .ok t ↔
      Converts (items s) ∧ t = addTokens (ofName (nameAndTokens s).1) (nameAndTokens s).2 :=
  foldlM_parseProp

/-- The value of a key is that of its first item, and the type that of its first item with a type. -/
theorem find?_of_parse (h : parse s = .ok t) (k : List Char) :
    t.properties.find? k = ((items s).find? fun x => x.1 = k).map (fun x => found x.2) ∧
      t.strTypes.find? k = (items s).findSome? fun x => if x.1 = k then typeFound x.2 else none := by
  obtain ⟨-, rfl⟩ := parse_eq_ok.1 h
  have hprop := OrdMap.find?_foldl Prod.fst (fun x : Item => some (found x.2)) (items s) .empty k
  have htype := OrdMap.find?_foldl Prod.fst (fun x : Item => typeFound x.2) (items s) .empty k
  dsimp only [OrdMap.emplace?] at hprop
  rw [OrdMap.find?_empty, Option.none_or] at hprop htype
  refine ⟨hprop.trans ?_, htype.trans (by congr!)⟩
  induction items s with
  | nil => rfl
  | cons x xs ih =>
      rw [List.findSome?_cons, List.find?_cons]
      by_cases hk : x.1 = k
      · simp [hk]
      · simpa [hk] using ih

/-! ### Listed items -/

/-- The key and the value of an item, whatever white space there is around its equal sign. -/
theorem itemOf_around (hne : key ≠ []) (hkey : ∀ c ∈ key, isKeyChar c = true) (hm : PlainValue m)
    {l r : List Char} (hl : ∀ c ∈ l, isSpace c = true) (hr : ∀ c ∈ r, isSpace c = true) :
    itemOf (key ++ (l ++ '=' :: (r ++ m))) = some (key, m) := by
  have hchar {c : Char} (hc : c ∈ key) : (c != '=') = true := by
    simpa using (isKeyChar_ne (hkey c hc)).2
  unfold itemOf
  rw [if_neg (by simp)]
  dsimp only
  rw [replaceAll_space_around hkey hm hl hr, if_pos (fullMatch_keyval hne hkey hm),
    List.takeWhile_append_of_pos fun c hc => hchar hc, List.dropWhile_append_of_pos fun c hc => hchar hc]
  simp

theorem itemOf_keyval (hne : key ≠ []) (hkey : ∀ c ∈ key, isKeyChar c = true) (hm : PlainValue m) :
    itemOf (key ++ '=' :: m) = some (key, m) :=
  itemOf_around hne hkey hm (l := []) (r := []) (by simp) (by simp)

/-- **The items of a listing are found.** -/
theorem items_listing {name : List Char} (hname : PlainName name) (h : ∀ x ∈ xs, GoodItem x) :
    (nameAndTokens (name ++ listing xs)).1 = escape name ∧ items (name ++ listing xs) = xs.map markItem := by
  have hsplit : nameAndTokens (name ++ listing xs) =
      (escape name, xs.map fun x => itemText (markItem x)) := by
    rw [nameAndTokens, tokens_listing hname h, findName, if_neg hname.escape_name.1]
  refine ⟨by rw [hsplit], ?_⟩
  rw [items, hsplit, List.filterMap_map, ← List.filterMap_eq_map]
  refine List.filterMap_congr fun x hx => ?_
  have hx := h x hx
  exact itemOf_keyval hx.key_ne_nil hx.key hx.value.clean.plainValue

end TypeDesc

end Shmdata

/-
**The text of a description and how it is read again.**

A `Type` is built from a name by calls of `set_prop`, each with an `int`, a string, or a string with a type
of its own; its properties are then sorted by their keys.  `Type::str` writes one item for each of them,
with a comma in front of it, and `Type::Type` cuts the text at the commas that are left when the special
characters of the values have been replaced by markers.

There is one trap.  A backslash is itself not escaped, so that a value that ends in one and is not quoted
swallows the comma behind it, and the item is joined with the next one.  A joined token has two equal signs
and is no property.  Which tokens there are is thus computed from the calls alone, and the parser is a loop
over these tokens.

Main definitions:

* `Shmdata.Arg`, `Shmdata.TypeDesc.build` — the calls of `set_prop` and the `Type` they build;
* `Shmdata.TypeDesc.fields` — what is written for the properties;
* `Shmdata.Arg.isOpen` — the value swallows the comma behind it;
* `Shmdata.TypeDesc.joinTokens`, `Shmdata.TypeDesc.load` — the tokens and what each of them adds.

Main results:

* `Shmdata.TypeDesc.str_of_describes` — what `Type::str` writes;
* `Shmdata.TypeDesc.escape_written` — **the special characters become markers**;
* `Shmdata.TypeDesc.pieces_items` — **the pieces between the commas**;
* `Shmdata.TypeDesc.parse_text` — **what the constructor makes of such a text**.
-/

import Shmdata.TypeDescription

set_option relaxedAutoImplicit false
set_option autoImplicit false

namespace Shmdata

open Regex

/-- What a call of `set_prop` gives a key. -/
inductive Arg
  | int (n : Int32)
  | string (value : List Char)
  | typed (customType value : List Char)
  deriving DecidableEq

/-- A call of `set_prop`. -/
abbrev Call := List Char × Arg

namespace Arg

/-- The entry in `properties_`. -/
def value : Arg → Any
  | .int n => .int n
  | .string v => .string v
  | .typed _ v => .string v

/-- The entry in `str_types_`. -/
def customType : Arg → Option (List Char)
  | .typed w _ => some w
  | _ => none

/-- The entry in `str_types_` when the property has been parsed. -/
def parsedType : Arg → Option (List Char)
  | .int _ => none
  | .string _ => some "string".toList
  | .typed w _ => some w

/-- The type that is written. -/
def typeName : Arg → List Char
  | .int _ => "int".toList
  | .string _ => "string".toList
  | .typed w _ => w

/-- The value that is written. -/
def text : Arg → List Char
  | .int n => TypeDesc.intToString n
  | .string v => TypeDesc.serializedString v
  | .typed _ v => TypeDesc.serializedString v

end Arg

namespace TypeDesc

/-! ### Building a description -/

/-- The overloads of `set_prop`. -/
def setArg (t : TypeDesc) (key : List Char) : Arg → TypeDesc
  | .int n => t.setProp key (.int n)
  | .string v => t.setProp key (.string v)
  | .typed w v => t.setPropTyped key w v

/-- A `Type` made from a name, and the calls of `set_prop` that follow. -/
def build (name : List Char) (calls : List Call) : Except StdExn TypeDesc :=
  (parse name).map fun t => calls.foldl (fun t x => t.setArg x.1 x.2) t

/-- The calls, as a map from the keys. -/
def callMap (calls : List Call) : OrdMap (List Char) Arg :=
  calls.foldl (fun m x => m.emplace x.1 x.2) .empty

/-- A name without separators. -/
structure GoodName (name : List Char) : Prop where
  ne_nil : name ≠ []
  coma : ',' ∉ name
  space : ' ' ∉ name
  backslash : '\\' ∉ name

/-- The key is over `[A-Za-z0-9_-]`, and a custom type is a word other than `int`. -/
structure GoodCall (x : Call) : Prop where
  key_ne_nil : x.1 ≠ []
  key : ∀ c ∈ x.1, isKeyChar c = true
  type : ∀ w v, x.2 = .typed w v → w ≠ [] ∧ (∀ c ∈ w, isWord c = true) ∧ w ≠ "int".toList

/-- `key=(type)`. -/
def label (x : Call) : List Char := x.1 ++ '=' :: '(' :: (x.2.typeName ++ [')'])

/-- What is written for the properties. -/
def fields (xs : List Call) : List Char := xs.flatMap fun x => ',' :: ' ' :: (label x ++ x.2.text)

theorem fields_cons (x : Call) (xs : List Call) :
    fields (x :: xs) = ',' :: ' ' :: (label x ++ (x.2.text ++ fields xs)) := by
  simp [fields]

/-- The properties of `t`, in the order of their keys, are those of the calls `xs`. -/
structure Describes (t : TypeDesc) (xs : List Call) : Prop where
  entries : t.properties.entries = xs.map fun x => (x.1, x.2.value)
  types : ∀ x ∈ xs, t.strTypes.find? x.1 = x.2.customType ∨ t.strTypes.find? x.1 = x.2.parsedType

variable {name : List Char} {calls xs : List Call} {t : TypeDesc} {x : Call}

theorem serializeProp_of_type
    (h : t.strTypes.find? x.1 = x.2.customType ∨ t.strTypes.find? x.1 = x.2.parsedType) :
    t.serializeProp x.1 x.2.value = .ok (',' :: ' ' :: (label x ++ x.2.text), []) := by
  have hfield : ',' :: ' ' :: (label x ++ x.2.text) = field x.1 x.2.typeName x.2.text := by
    simp only [label, field, List.append_assoc, List.cons_append, List.nil_append]
  rw [hfield]
  obtain ⟨key, a⟩ := x
  unfold serializeProp
  cases a with
  | int n =>
      have h : t.strTypes.find? key = none := h.elim id id
      rw [h]
      rfl
  | string v =>
      rcases h with h | h
      · have h : t.strTypes.find? key = none := h
        rw [h]
        rfl
      · have h : t.strTypes.find? key = some "string".toList := h
        rw [h]
        rfl
  | typed w v =>
      have h : t.strTypes.find? key = some w := h.elim id id
      rw [h]
      rfl

/-- **What `Type::str` writes.** -/
theorem str_of_describes (h : Describes t xs) : t.str = .ok (t.name ++ fields xs) := by
  have hrun (ys : List Call) (hy : ∀ x ∈ ys, x ∈ xs) (res err : List Char) :
      (ys.map fun x => (x.1, x.2.value)).foldlM
        (fun res x => (t.serializeProp x.1 x.2).map fun y => (res.1 ++ y.1, res.2 ++ y.2)) (res, err) =
      Except.ok (ε := StdExn) (res ++ fields ys, err) := by
    induction ys generalizing res err with
    | nil => simp [fields, pure, Except.pure]
    | cons y ys ih =>
        rw [List.map_cons, List.foldlM_cons, serializeProp_of_type (h.types y (hy y (by simp)))]
        refine (ih (fun x hx => hy x (List.mem_cons_of_mem _ hx)) _ _).trans ?_
        simp [fields]
  rw [str, serialize, h.entries, hrun xs fun x hx => hx]
  rfl

/-! ### What was built -/

theorem foldl_setArg (calls : List Call) (t : TypeDesc) :
    let u := calls.foldl (fun t x => t.setArg x.1 x.2) t
    u.name = t.name ∧
      u.properties = calls.foldl (fun m x => m.emplace x.1 x.2.value) t.properties ∧
      u.strTypes = calls.foldl (fun m x => m.emplace? x.1 x.2.customType) t.strTypes := by
  induction calls generalizing t with
  | nil => exact ⟨rfl, rfl, rfl⟩
  | cons x calls ih =>
      obtain ⟨key, a⟩ := x
      obtain ⟨hn, hp, ht⟩ := ih (t.setArg key a)
      cases a <;> exact ⟨hn, hp, ht⟩

theorem mem_callMap (h : (calls.map Prod.fst).Nodup) : x ∈ (callMap calls).entries ↔ x ∈ calls := by
  rw [← OrdMap.find?_eq_some]
  exact OrdMap.find?_foldl_emplace h

/-- The map of values that the calls make is the map of calls, with the values. -/
theorem properties_callMap (calls : List Call) (f : Arg → Any) :
    calls.foldl (fun m x => m.emplace x.1 (f x.2)) .empty = (callMap calls).map f := by
  refine OrdMap.ext_find? fun k => ?_
  have hl := OrdMap.find?_foldl Prod.fst (fun x : Call => some (f x.2)) calls .empty k
  have hr := OrdMap.find?_foldl Prod.fst (fun x : Call => some x.2) calls .empty k
  dsimp only [OrdMap.emplace?] at hl hr
  rw [OrdMap.find?_map, callMap, hl, hr, OrdMap.find?_empty, OrdMap.find?_empty, Option.none_or,
    Option.none_or, List.map_findSome?]
  congr 1
  funext x
  by_cases hk : x.1 = k
  · simp [hk]
  · simp [hk]

/-- A `Type` made by a loop over calls with distinct keys has their properties. -/
theorem describes_of_foldl (h : (calls.map Prod.fst).Nodup)
    (hp : t.properties = calls.foldl (fun m x => m.emplace x.1 x.2.value) .empty)
    {type : Arg → Option (List Char)}
    (ht : t.strTypes = calls.foldl (fun m x => m.emplace? x.1 (type x.2)) .empty)
    (htype : type = Arg.customType ∨ type = Arg.parsedType) : Describes t (callMap calls).entries where
  entries := by
    rw [hp, properties_callMap calls Arg.value]
    rfl
  types x hx := by
    have hfind : t.strTypes.find? x.1 = type x.2 := by
      have hl := OrdMap.find?_foldl Prod.fst (fun x : Call => type x.2) calls .empty x.1
      rw [ht, hl, OrdMap.find?_empty, Option.none_or]
      exact OrdMap.findSome?_of_nodup h ((mem_callMap h).1 hx) type
    rcases htype with rfl | rfl
    · exact Or.inl hfind
    · exact Or.inr hfind

/-! ### Special characters -/

/-- A replacement of the four special characters. -/
def code (coma equal lparent rparent : List Char) (c : Char) : List Char :=
  if c = ',' then coma else if c = '=' then equal else if c = '(' then lparent
  else if c = ')' then rparent else [c]

/-- What is written for a character of a string. -/
abbrev writtenCode : Char → List Char := code ['\\', ','] ['\\', '='] ['\\', '('] ['\\', ')']

/-- What the parser makes of it. -/
abbrev markedCode : Char → List Char := code comaMark equalMark ['\\', '('] ['\\', ')']

/-- The string is written in quotes. -/
def quoted (v : List Char) : Bool := ' ' ∈ v || ',' ∈ v || '=' ∈ v

/-- The quotes, where there are any. -/
def quote (v s : List Char) : List Char := if quoted v then '"' :: (s ++ ['"']) else s

theorem serializedString_eq (v : List Char) : serializedString v = quote v (v.flatMap writtenCode) := by
  have hcode : replaceAll (lit [')']) ['\\', ')']
      (replaceAll (lit ['(']) ['\\', '(']
        (replaceAll (lit ['=']) ['\\', '=']
          (replaceAll (lit [',']) ['\\', ','] v))) = v.flatMap writtenCode := by
    simp only [replaceAll_char, List.flatMap_assoc]
    congr 1
    funext c
    unfold writtenCode code
    split_ifs <;> simp_all
  have hmem (d : Char) (hd : d = ' ' ∨ d = ',' ∨ d = '=') : d ∈ v.flatMap writtenCode ↔ d ∈ v := by
    rw [List.mem_flatMap]
    constructor
    · rintro ⟨c, hc, hdc⟩
      suffices hcd : d = c from hcd ▸ hc
      unfold writtenCode code at hdc
      rcases hd with rfl | rfl | rfl <;> split_ifs at hdc <;>
        first | exact List.mem_singleton.1 hdc | simp_all
    · intro hv
      refine ⟨d, hv, ?_⟩
      rcases hd with rfl | rfl | rfl <;> decide
  unfold serializedString
  dsimp only
  simp only [hcode, hmem ' ' (by simp), hmem ',' (by simp), hmem '=' (by simp)]
  rw [quote, quoted]
  by_cases h : ' ' ∈ v ∨ ',' ∈ v ∨ '=' ∈ v
  · rw [if_pos h, if_pos (by simpa [or_assoc] using h)]
  · rw [if_neg h, if_neg (by simpa [or_assoc] using h)]

theorem escape_nil : escape [] = [] := rfl

theorem escape_append {x : List Char} (h : '\\' ∉ x) (y : List Char) : escape (x ++ y) = x ++ escape y := by
  rw [escape, replaceAll_append (passes_lit (free_of_not_mem h)),
    replaceAll_append (passes_lit (free_of_not_mem h)), escape]

theorem escape_cons {c : Char} (h : c ≠ '\\') (y : List Char) : escape (c :: y) = c :: escape y :=
  escape_append (x := [c]) (by simpa using h.symm) y

/-- A backslash swallows the comma behind it. -/
theorem escape_coma (y : List Char) : escape ('\\' :: ',' :: y) = comaMark ++ escape y := by
  have h : replaceAll (lit ['\\', ',']) comaMark ('\\' :: ',' :: y) =
      comaMark ++ replaceAll (lit ['\\', ',']) comaMark y :=
    replaceAll_lit_append (w := ['\\', ',']) (by simp) y
  rw [escape, h, replaceAll_append (passes_lit (free_of_not_mem (by decide))), escape]

/-- Every code word begins with another character than `d`. -/
def Heads (f : Char → List Char) (d : Char) : Prop := ∀ c, ∃ e s, f c = e :: s ∧ e ≠ d

theorem heads_code {coma equal lparent rparent : List Char} {d : Char}
    (hd : d = ',' ∨ d = '=' ∨ d = '(' ∨ d = ')') (hc : ∃ e s, coma = e :: s ∧ e ≠ d)
    (he : ∃ e s, equal = e :: s ∧ e ≠ d) (hl : ∃ e s, lparent = e :: s ∧ e ≠ d)
    (hr : ∃ e s, rparent = e :: s ∧ e ≠ d) : Heads (code coma equal lparent rparent) d := by
  intro c
  unfold code
  split_ifs
  · exact hc
  · exact he
  · exact hl
  · exact hr
  · refine ⟨c, [], rfl, ?_⟩
    rcases hd with rfl | rfl | rfl | rfl <;> assumption

/-- An escaped character is not another one. -/
theorem free_escaped {d e : Char} (he : e ≠ d) (hb : e ≠ '\\') (y : List Char) :
    Free ['\\', d] ['\\', e] y := by
  refine free_cons (fun h => he ?_) (free_of_not_mem (by simpa using hb.symm))
  exact (List.cons_prefix_cons.1 (List.cons_prefix_cons.1 h).2).1.symm

/-- A backslash of the string itself is followed by the beginning of a code word. -/
theorem free_char {f : Char → List Char} {d : Char} (hf : Heads f d) {c : Char} {u y : List Char}
    (hy : c = '\\' → u = [] → y.head? ≠ some d) : Free ['\\', d] [c] (u.flatMap f ++ y) := by
  refine free_cons (fun h => ?_) (free_nil _ _)
  obtain ⟨hc, h⟩ := List.cons_prefix_cons.1 h
  exact not_prefix_flatMap hf (hy hc.symm) h

/-- **The special characters become markers**, if no backslash at the end of the string escapes what comes
after it. -/
theorem escape_written {v y : List Char} (hy : v.getLast? = some '\\' → y.head? ≠ some ',')
    (he : (replaceAll (lit ['\\', ',']) comaMark y).head? ≠ some '=') :
    escape (v.flatMap writtenCode ++ y) = v.flatMap markedCode ++ escape y := by
  have hlast {c : Char} {u : List Char} (hs : c :: u <:+ v) (hu : u = []) : v.getLast? = some c := by
    obtain ⟨z, rfl⟩ := hs
    simp [hu]
  have hcoma : replaceAll (lit ['\\', ',']) comaMark (v.flatMap writtenCode ++ y) =
      v.flatMap (code comaMark ['\\', '='] ['\\', '('] ['\\', ')']) ++
        replaceAll (lit ['\\', ',']) comaMark y := by
    have hheads : Heads writtenCode ',' :=
      heads_code (by simp) ⟨_, _, rfl, by decide⟩ ⟨_, _, rfl, by decide⟩
        ⟨_, _, rfl, by decide⟩ ⟨_, _, rfl, by decide⟩
    refine replaceAll_flatMap (f := writtenCode)
      (g := code comaMark ['\\', '='] ['\\', '('] ['\\', ')']) (d := ',') (by decide)
      (fun c hc => by simp [code, hc]) fun c u hs hc => ?_
    show Free ['\\', ','] (writtenCode c) (u.flatMap writtenCode ++ y)
    have hchar : Free ['\\', ','] [c] (u.flatMap writtenCode ++ y) :=
      free_char hheads fun hb hu => hy (hb ▸ hlast hs hu)
    generalize u.flatMap writtenCode ++ y = z at hchar ⊢
    unfold writtenCode code
    rw [if_neg hc]
    split_ifs
    · exact free_escaped (by decide) (by decide) z
    · exact free_escaped (by decide) (by decide) z
    · exact free_escaped (by decide) (by decide) z
    · exact hchar
  have hequal (z : List Char) (hz : z.head? ≠ some '=') : replaceAll (lit ['\\', '=']) equalMark
      (v.flatMap (code comaMark ['\\', '='] ['\\', '('] ['\\', ')']) ++ z) =
      v.flatMap markedCode ++ replaceAll (lit ['\\', '=']) equalMark z := by
    have hheads : Heads (code comaMark ['\\', '='] ['\\', '('] ['\\', ')']) '=' :=
      heads_code (by simp) ⟨_, _, rfl, by decide⟩ ⟨_, _, rfl, by decide⟩
        ⟨_, _, rfl, by decide⟩ ⟨_, _, rfl, by decide⟩
    refine replaceAll_flatMap (f := code comaMark ['\\', '='] ['\\', '('] ['\\', ')'])
      (g := markedCode) (d := '=') (by decide)
      (fun c hc => by simp [code, hc]) fun c u hs hc => ?_
    show Free ['\\', '='] (code comaMark ['\\', '='] ['\\', '('] ['\\', ')'] c) (u.flatMap _ ++ z)
    have hchar := free_char hheads (c := c) (u := u) fun _ _ => hz
    generalize u.flatMap (code comaMark ['\\', '='] ['\\', '('] ['\\', ')']) ++ z = z at hchar ⊢
    unfold code
    rw [if_neg hc]
    split_ifs
    · exact free_of_not_mem (by decide)
    · exact free_escaped (by decide) (by decide) z
    · exact free_escaped (by decide) (by decide) z
    · exact hchar
  rw [escape, hcoma, hequal _ he, escape]

end TypeDesc

end Shmdata

/-
**The description parser of the Python wrapper.**

`Reader_parse_datatype` of `pyshmdata.cpp` reads the text that `Type::str` writes and makes a dictionary of
it.  It removes all spaces, cuts at every comma, and takes an item with an equal sign for a property: what
stands between the parentheses of the value is its type, and tells whether the rest becomes an integer, a
floating point number or a string.

The text arrives as a `const char*`, so that a null character ends it.  Its characters are bytes: a part that is
no UTF-8 makes no Python string, and the null pointer that stands for it goes to `PyDict_SetItem`.  `stof`, on
which only the value of a fraction depends, is a parameter.

Main definitions:

* `Shmdata.PyDatatype.readerParseDatatype` — the function;
* `Shmdata.PyDatatype.Agrees` — the dictionary is what `Type` reads from the same text;
* `Shmdata.PyDatatype.Shared` — the values that both parsers read alike.

Main results:

* `Shmdata.PyDatatype.parseLoop_items` — **the dictionary is filled by a loop over the items**;
* `Shmdata.PyDatatype.agrees_iff` — **when the two parsers agree**.
-/

import Mathlib.Algebra.Group.Int.Defs
import Shmdata.TypeRoundTrip

set_option relaxedAutoImplicit false
set_option autoImplicit false

namespace Shmdata

open Regex TypeDesc

namespace PyDatatype

/-! ### The function -/

/-- How the function fails: the exceptions of `std::stoi` and `std::stof`, and a null pointer that is used. -/
inductive Fault
  | invalidArgument
  | outOfRange
  | nullPointer
  deriving DecidableEq

/-- A Python value. -/
inductive PyObj
  | str (s : List Char)
  | int (n : ℤ)
  | float (x : Float32)

/-- A Python dictionary, by its lookups. -/
abbrev PyDict := List Char → Option PyObj

/-- What a `const char*` shows of a text. -/
def cString (s : List Char) : List Char := s.takeWhile (· ≠ '\x00')

/-- The ranges of the bytes that follow the first byte of a character in UTF-8. -/
def following (c : ℕ) : Option (List (ℕ × ℕ)) :=
  let tail := (0x80, 0xBF)
  if c < 0x80 then some []
  else if c < 0xC2 then none
  else if c < 0xE0 then some [tail]
  else if c = 0xE0 then some [(0xA0, 0xBF), tail]
  else if c = 0xED then some [(0x80, 0x9F), tail]
  else if c < 0xF0 then some [tail, tail]
  else if c = 0xF0 then some [(0x90, 0xBF), tail, tail]
  else if c < 0xF4 then some [tail, tail, tail]
  else if c = 0xF4 then some [(0x80, 0x8F), tail, tail]
  else none

/-- The text ends the character under way, whose remaining bytes lie in the given ranges, and goes on in
UTF-8. -/
def endsUtf8 : List (ℕ × ℕ) → List Char → Bool
  | owed, [] => owed.isEmpty
  | [], c :: s =>
      match following c.toNat with
      | some owed => endsUtf8 owed s
      | none => false
  | (lo, hi) :: owed, c :: s => (lo ≤ c.toNat ∧ c.toNat ≤ hi) && endsUtf8 owed s

/-- The characters of the text are the bytes of a text in UTF-8. -/
def isUtf8 (s : List Char) : Bool := endsUtf8 [] s

/-- `PyUnicode_FromString(s.c_str())`, which is null if the text is no UTF-8, and then its use. -/
def unicodeFromString (s : List Char) : Except Fault (List Char) :=
  if isUtf8 (cString s) then .ok (cString s) else .error .nullPointer

/-- `Py_BuildValue("I", n)`. -/
def buildUnsigned (n : ℤ) : PyObj := .int (n % 2 ^ 32)

/-- `s.find(c)`. -/
def find (c : Char) (s : List Char) : Option ℕ := s.findIdx? (· = c)

/-- The text has a number at the beginning. -/
def hasDigits : List Char → Bool
  | '-' :: s | '+' :: s => (s.head?.map Char.isDigit).getD false
  | s => (s.head?.map Char.isDigit).getD false

/-- `std::stoi`. -/
def stoi (s : List Char) : Except Fault ℤ :=
  if hasDigits (s.dropWhile isSpace) then
    let n := signedValue (s.dropWhile isSpace)
    if Int32.minValue.toInt ≤ n ∧ n ≤ Int32.maxValue.toInt then .ok n else .error .outOfRange
  else .error .invalidArgument

variable (stof : List Char → Except Fault Float32)

/-- The value of a fraction. -/
def fraction (val : List Char) : Except Fault PyObj := do
  let denominator ← stof (match find '/' val with | some p => val.take p | none => val)
  let numerator ← stof (match find '/' val with | some p => val.drop (p + 1) | none => val)
  return .float (denominator / numerator)

/-- `val.substr(open_parenthesis + 1, close_parenthesis - 1)`, whose second argument is a length. -/
def typeOf (val : List Char) (op cp : ℕ) : List Char :=
  (val.drop (op + 1)).take (if cp = 0 then val.length else cp - 1)

/-- `val.replace(open_parenthesis, close_parenthesis - open_parenthesis + 1, "")`; a length below zero is
one that is longer than any text. -/
def removeType (val : List Char) (op cp : ℕ) : List Char :=
  val.take op ++ if op ≤ cp + 1 then val.drop (cp + 1) else []

/-- The value of a property. -/
def parseValue (val : List Char) : Except Fault PyObj :=
  match find '(' val, find ')' val with
  | some op, some cp =>
      if typeOf val op cp = "int".toList then (stoi (removeType val op cp)).map buildUnsigned
      else if typeOf val op cp = "fraction".toList then fraction stof (removeType val op cp)
      else (unicodeFromString (removeType val op cp)).map .str
  | _, _ => (unicodeFromString val).map .str

/-- `PyDict_SetItem`. -/
def setItem (d : PyDict) (key : List Char) (o : PyObj) : PyDict := Function.update d key (some o)

/-- What is done with the text between two commas. -/
def parseItem (d : PyDict) (substr : List Char) : Except Fault PyDict :=
  match find '=' substr with
  | none => (unicodeFromString substr).map fun value => setItem d "type".toList (.str value)
  | some equalPos => do
      let val := substr.drop (equalPos + 1)
      let key := if substr.head? = some ' ' then (substr.drop 1).take equalPos else substr.take equalPos
      let value ← parseValue stof val
      let dictkey ← unicodeFromString key
      return setItem d dictkey value

/-- `while (!datatype.empty())`. -/
def parseLoop : List Char → PyDict → Except Fault PyDict
  | [], d => .ok d
  | c :: s, d =>
      match find ',' (c :: s) with
      | none => parseItem stof d (c :: s)
      | some commaPos => do
          let d ← parseItem stof d ((c :: s).take commaPos)
          parseLoop ((c :: s).drop (commaPos + 1)) d
termination_by s => s.length
decreasing_by
  rw [List.length_drop, List.length_cons]
  omega

/-- `Reader_parse_datatype`. -/
def readerParseDatatype (typeDescr : List Char) : Except Fault PyDict :=
  parseLoop stof ((cString typeDescr).filter (· ≠ ' ')) fun _ => none

/-! ### Agreement -/

/-- A value of `Type` as a Python value. -/
def ofAny : Any → Option PyObj
  | .string s => some (.str s)
  | .int n => some (.int n.toInt)
  | .number .. | .other _ => none

/-- The function returns the dictionary of the name and of the properties that `Type` reads. -/
def Agrees (u : TypeDesc) (s : List Char) : Prop :=
  ∃ d, readerParseDatatype stof s = .ok d ∧ d "type".toList = some (.str u.name) ∧
    ∀ k, k ≠ "type".toList → d k = (u.get k).bind ofAny

/-- A text without spaces, separators, parentheses, double quotes and backslashes. -/
def Bare (s : List Char) : Prop := ∀ c ∈ s, c ∉ [' ', ',', '=', '(', ')', '"', '\\']

/-- The string of a value is bare. -/
def BareArg : Arg → Prop
  | .int _ => True
  | .string v => Bare v
  | .typed _ v => Bare v

/-- A string in UTF-8 without markers and null characters. -/
structure Clean (v : List Char) : Prop where
  coma : ¬ comaMark <:+: v
  equal : ¬ equalMark <:+: v
  null : '\x00' ∉ v
  utf8 : isUtf8 v = true

/-- A value that both parsers read alike: an integer that is not negative, or a string in UTF-8 without markers
and null characters that is not a fraction. -/
def Shared : Arg → Prop
  | .int n => 0 ≤ n.toInt
  | .string v => Clean v
  | .typed w v => w ≠ "fraction".toList ∧ Clean v

/-! ### Null characters -/

variable {name : List Char} {calls xs : List Call} {x : Call} {a : Arg} {v : List Char}

theorem cString_of_not_mem (h : '\x00' ∉ v) : cString v = v :=
  List.takeWhile_eq_self_iff.2 fun c hc => by
    simpa using fun h' : c = '\x00' => h (h' ▸ hc)

theorem not_mem_cString (v : List Char) : '\x00' ∉ cString v := fun h => by
  simpa using List.mem_takeWhile_imp h

theorem cString_subset (v : List Char) : cString v ⊆ v := (List.takeWhile_prefix _).subset

theorem cString_append (h : '\x00' ∉ v) (s : List Char) : cString (v ++ s) = v ++ cString s :=
  List.takeWhile_append_of_pos fun c hc => by
    simpa using fun h' : c = '\x00' => h (h' ▸ hc)

theorem cString_append_of_mem (h : '\x00' ∈ v) (s : List Char) : cString (v ++ s) = cString v := by
  unfold cString
  rw [List.takeWhile_append, if_neg]
  intro hlen
  have hself := (List.takeWhile_prefix (· ≠ '\x00') (l := v)).eq_of_length hlen
  exact not_mem_cString v (by rw [cString, hself]; exact h)

theorem isUtf8_of_ascii (h : ∀ c ∈ v, c.toNat < 0x80) : isUtf8 v = true := by
  induction v with
  | nil => rfl
  | cons c s ih =>
      obtain ⟨hc, hs⟩ := List.forall_mem_cons.1 h
      have hfollow : following c.toNat = some [] := if_pos hc
      rw [isUtf8, endsUtf8, hfollow]
      exact ih hs

theorem unicodeFromString_eq_ok {t : List Char} :
    unicodeFromString v = .ok t ↔ cString v = t ∧ isUtf8 t = true := by
  unfold unicodeFromString
  split
  · next h =>
      rw [Except.ok.injEq]
      exact ⟨fun heq => ⟨heq, heq ▸ h⟩, fun heq => heq.1⟩
  · next h =>
      refine iff_of_false (by simp) ?_
      rintro ⟨rfl, h'⟩
      exact h h'

/-- The value, up to its first null character. -/
def cutArg : Arg → Arg
  | .int n => .int n
  | .string v => .string (cString v)
  | .typed w v => .typed w (cString v)

/-- The call with its value cut. -/
def cut (x : Call) : Call := (x.1, cutArg x.2)

/-! ### The text of a bare value -/

theorem not_quoted (h : Bare v) : quoted v = false := by
  have hn (c : Char) (hc : c ∈ [' ', ',', '=', '(', ')', '"', '\\']) : c ∉ v := fun hv => h c hv hc
  simp [quoted, hn ' ' (by simp), hn ',' (by simp), hn '=' (by simp)]

theorem flatMap_code (h : Bare v) (f : Char → List Char) (hf : ∀ c, c ∉ [',', '=', '(', ')'] → f c = [c]) :
    v.flatMap f = v := by
  refine (List.flatMap_congr fun c hc => hf c fun hmem => h c hc ?_).trans (List.flatMap_singleton' v)
  simp only [List.mem_cons, List.not_mem_nil, or_false] at hmem ⊢
  tauto

/-- A bare string is written as it is. -/
theorem serializedString_of_bare (h : Bare v) : serializedString v = v := by
  rw [serializedString_eq, quote, not_quoted h, if_neg Bool.false_ne_true]
  exact flatMap_code h _ fun c hc => by simp_all [code]

/-- What `Type` reads for a bare value. -/
def bareValue : Arg → Any
  | .int n => .int n
  | .string v | .typed _ v => .string (unescape v)

theorem reparsed_of_bare (h : BareArg a) : a.reparsed = bareValue a := by
  have hv (v : List Char) (h : Bare v) : quote v (v.flatMap markedCode) = v := by
    rw [quote, not_quoted h, if_neg Bool.false_ne_true]
    exact flatMap_code h _ fun c hc => by simp_all [code]
  cases a with
  | int n => rfl
  | string v => rw [Arg.reparsed, hv v h, bareValue]
  | typed w v => rw [Arg.reparsed, hv v h, bareValue]

/-- A special character is not in the text of a bare value. -/
theorem not_mem_text (h : BareArg a) {c : Char} (hc : c ∈ [' ', ',', '=', '(', ')']) : c ∉ a.text := by
  have hlist : c ∈ [' ', ',', '=', '(', ')', '"', '\\'] := by
    simp only [List.mem_cons, List.not_mem_nil, or_false] at hc ⊢
    tauto
  cases a with
  | int n =>
      simp only [List.mem_cons, List.not_mem_nil, or_false] at hc
      rcases hc with rfl | rfl | rfl | rfl | rfl <;> exact not_mem_intToString (by decide) (by decide)
  | string v =>
      rw [Arg.text, serializedString_of_bare h]
      exact fun hm => h c hm hlist
  | typed w v =>
      rw [Arg.text, serializedString_of_bare h]
      exact fun hm => h c hm hlist

theorem bareArg_cutArg (h : BareArg a) : BareArg (cutArg a) := by
  cases a with
  | int n => trivial
  | string v => exact fun c hc => h c (cString_subset v hc)
  | typed w v => exact fun c hc => h c (cString_subset v hc)

theorem goodCall_cut (h : GoodCall x) : GoodCall (cut x) := by
  refine ⟨h.key_ne_nil, h.key, fun w v hw => ?_⟩
  obtain ⟨key, a⟩ := x
  cases a with
  | int n => cases hw
  | string v => cases hw
  | typed w' v' =>
      obtain ⟨rfl, -⟩ := Arg.typed.inj hw
      exact h.type w' v' rfl

/-! ### A string that comes back -/

/-- `Type` reads a bare string as it is exactly if no marker is in it. -/
theorem unescape_eq_iff (h : Bare v) : unescape v = v ↔ ¬ comaMark <:+: v ∧ ¬ equalMark <:+: v := by
  have hn (c : Char) (hc : c ∈ [' ', ',', '=', '(', ')', '"', '\\']) : c ∉ v := fun hv => h c hv hc
  -- a word with a character that is not in the text is not replaced
  have hkeep (w fmt : List Char) (c : Char) (hw : c ∈ w) (hc : c ∈ [' ', ',', '=', '(', ')', '"', '\\']) :
      replaceAll (lit w) fmt v = v :=
    replaceAll_of_absent fun hi => hn c hc (hi.subset hw)
  constructor
  · intro heq
    have hcoma : ¬ comaMark <:+: v := by
      intro hi
      have hm : ',' ∈ replaceAll (lit comaMark) [','] v :=
        (infix_replaceAll (by decide) hi).subset List.mem_cons_self
      refine hn ',' (by decide) (heq ▸ ?_)
      exact mem_replaceAll (by decide) (by decide) (mem_replaceAll (by decide) (by decide)
        (mem_replaceAll (by decide) (by decide) (mem_replaceAll (by decide) (by decide) hm)))
    refine ⟨hcoma, fun hi => ?_⟩
    have hm : '=' ∈ replaceAll (lit equalMark) ['='] v :=
      (infix_replaceAll (by decide) hi).subset List.mem_cons_self
    refine hn '=' (by decide) (heq ▸ ?_)
    rw [unescape, replaceAll_of_absent hcoma, hkeep ['"'] [] '"' (by decide) (by decide)]
    exact mem_replaceAll (by decide) (by decide) (mem_replaceAll (by decide) (by decide) hm)
  · rintro ⟨hcoma, hequal⟩
    rw [unescape, replaceAll_of_absent hcoma, hkeep ['"'] [] '"' (by decide) (by decide),
      replaceAll_of_absent hequal, hkeep ['\\', '('] _ '(' (by decide) (by decide),
      hkeep ['\\', ')'] _ ')' (by decide) (by decide)]

/-- A null character stays. -/
theorem null_mem_unescape (h : '\x00' ∈ v) : '\x00' ∈ unescape v :=
  mem_replaceAll (by decide) (by decide) (mem_replaceAll (by decide) (by decide)
    (mem_replaceAll (by decide) (by decide) (mem_replaceAll (by decide) (by decide)
      (mem_replaceAll (by decide) (by decide) h))))

theorem clean_iff (h : Bare v) : Clean v ↔ unicodeFromString v = .ok (unescape v) := by
  rw [unicodeFromString_eq_ok]
  constructor
  · intro hc
    have hself := (unescape_eq_iff h).2 ⟨hc.coma, hc.equal⟩
    exact ⟨(cString_of_not_mem hc.null).trans hself.symm, hself.symm ▸ hc.utf8⟩
  · rintro ⟨heq, hutf8⟩
    have hnull : '\x00' ∉ v := fun hm => not_mem_cString v (heq ▸ null_mem_unescape hm)
    rw [cString_of_not_mem hnull] at heq
    obtain ⟨hcoma, hequal⟩ := (unescape_eq_iff h).1 heq.symm
    exact ⟨hcoma, hequal, hnull, heq.symm ▸ hutf8⟩

/-! ### One item -/

theorem find_append {c : Char} (h : c ∉ v) (s : List Char) : find c (v ++ c :: s) = some v.length := by
  rw [find, List.findIdx?_append, List.findIdx?_eq_none_iff.2 fun d hd => by
    simpa using fun h' : d = c => h (h' ▸ hd)]
  simp [List.findIdx?_cons]

theorem find_eq_none {c : Char} (h : c ∉ v) : find c v = none :=
  List.findIdx?_eq_none_iff.2 fun d hd => by simpa using fun h' : d = c => h (h' ▸ hd)

/-- The value that an item becomes. -/
def written : Arg → Except Fault PyObj
  | .int n => .ok (buildUnsigned n.toInt)
  | .string v => (unicodeFromString v).map .str
  | .typed w v => if w = "fraction".toList then fraction stof v else (unicodeFromString v).map .str

theorem stoi_intToString (n : Int32) : stoi (intToString n) = .ok n.toInt := by
  have hdigits : hasDigits (intToString n) = true := by
    have hd (m : ℕ) : ∃ c s, Nat.toDigits 10 m = c :: s ∧ c.isDigit = true := by
      obtain ⟨c, s, hcs⟩ := List.exists_cons_of_ne_nil (Nat.toDigits_ne_nil (b := 10) (n := m))
      exact ⟨c, s, hcs, Nat.isDigit_of_mem_toDigits (by decide) (by decide) (hcs ▸ List.mem_cons_self)⟩
    obtain ⟨c, s, hcs, hc⟩ := hd n.toInt.natAbs
    unfold intToString
    rw [hcs]
    split
    · simpa [hasDigits] using hc
    · obtain ⟨-, h₁, h₂⟩ := isDigit_ne hc
      unfold hasDigits
      split
      · next h => exact absurd (List.cons.inj h).1 h₁
      · next h => exact absurd (List.cons.inj h).1 h₂
      · simpa using hc
  rw [stoi, dropWhile_intToString, if_pos hdigits, signedValue_intToString]
  exact if_pos ⟨Int32.minValue_le_toInt n, Int32.toInt_le n⟩

/-- A value that begins with a type. -/
theorem parseValue_typed {w : List Char} (hw : ')' ∉ w) (s : List Char) :
    parseValue stof ('(' :: (w ++ ')' :: s)) =
      if w = "int".toList then (stoi s).map buildUnsigned
      else if w = "fraction".toList then fraction stof s else (unicodeFromString s).map .str := by
  have hop : find '(' ('(' :: (w ++ ')' :: s)) = some 0 := find_append (v := []) List.not_mem_nil _
  have hcp : find ')' ('(' :: (w ++ ')' :: s)) = some (w.length + 1) := by
    refine find_append (v := '(' :: w) ?_ s
    simpa using hw
  have htype : typeOf ('(' :: (w ++ ')' :: s)) 0 (w.length + 1) = w := by simp [typeOf]
  have hremove : removeType ('(' :: (w ++ ')' :: s)) 0 (w.length + 1) = s := by simp [removeType]
  rw [parseValue, hop, hcp]
  dsimp only
  rw [htype, hremove]

/-- The value in an item. -/
theorem parseValue_item (h : GoodCall x) (hb : BareArg x.2) :
    parseValue stof ('(' :: (x.2.typeName ++ ')' :: x.2.text)) = written stof x.2 := by
  have hword : ')' ∉ x.2.typeName := fun hm => absurd (h.typeName.2 ')' hm) (by decide)
  obtain ⟨key, a⟩ := x
  refine (parseValue_typed stof hword _).trans ?_
  cases a with
  | int n =>
      refine (if_pos rfl).trans ?_
      rw [Arg.text, stoi_intToString]
      rfl
  | string v =>
      refine (if_neg (by simp [Arg.typeName])).trans ((if_neg (by simp [Arg.typeName])).trans ?_)
      rw [Arg.text, serializedString_of_bare hb]
      rfl
  | typed w v =>
      refine (if_neg (h.type w v rfl).2.2).trans ?_
      rw [Arg.text, serializedString_of_bare hb]
      rfl

/-- The characters of a key are those of ASCII. -/
theorem lt_of_isKeyChar {c : Char} (h : isKeyChar c = true) : c.toNat < 0x80 := by
  by_contra hge
  have hne (d : Char) (hd : d.toNat < 0x80) : c ≠ d := by
    rintro rfl
    exact hge hd
  have habove (v : UInt32) (hv : v.toNat < 0x80) : ¬ c.val ≤ v := fun hle =>
    hge (lt_of_le_of_lt (UInt32.le_iff_toNat_le.1 hle) hv)
  have hupper : c.isUpper = false := decide_eq_false fun h => habove _ (by decide) h.2
  have hlower : c.isLower = false :=
    Bool.and_eq_false_iff.2 (Or.inr (decide_eq_false (habove _ (by decide))))
  have hdigit : c.isDigit = false :=
    Bool.and_eq_false_iff.2 (Or.inr (decide_eq_false (habove _ (by decide))))
  have halnum : c.isAlphanum = false := by
    show (c.isUpper || c.isLower || c.isDigit) = false
    rw [hupper, hlower, hdigit]
    rfl
  simp [isKeyChar, isWord, halnum, hne '_' (by decide), hne '-' (by decide)] at h

/-- **What one item adds to the dictionary.** -/
theorem parseItem_item (h : GoodCall x) (hb : BareArg x.2) (d : PyDict) :
    parseItem stof d (label x ++ x.2.text) = (written stof x.2).map (setItem d x.1) := by
  have hkey (c : Char) (hc : isKeyChar c = false) : c ∉ x.1 := fun hm =>
    absurd (h.key c hm) (by simp [hc])
  have htext : label x ++ x.2.text = x.1 ++ '=' :: '(' :: (x.2.typeName ++ ')' :: x.2.text) := by
    simp [label]
  have hhead : (x.1 ++ '=' :: '(' :: (x.2.typeName ++ ')' :: x.2.text)).head? ≠ some ' ' := by
    obtain ⟨c, u, hc⟩ := List.exists_cons_of_ne_nil h.key_ne_nil
    rw [hc]
    simpa using fun h' : c = ' ' => hkey ' ' (by decide) (h' ▸ hc ▸ List.mem_cons_self)
  have hdrop : (x.1 ++ '=' :: '(' :: (x.2.typeName ++ ')' :: x.2.text)).drop (x.1.length + 1) =
      '(' :: (x.2.typeName ++ ')' :: x.2.text) := by
    simp
  have hdictkey : unicodeFromString x.1 = .ok x.1 := unicodeFromString_eq_ok.2
    ⟨cString_of_not_mem (hkey _ (by decide)), isUtf8_of_ascii fun c hc => lt_of_isKeyChar (h.key c hc)⟩
  rw [htext, parseItem, find_append (hkey '=' (by decide))]
  dsimp only
  rw [if_neg hhead, hdrop, List.take_left' rfl, hdictkey, parseValue_item stof h hb]
  cases written stof x.2 <;> rfl

/-! ### The loop -/

theorem parseLoop_of_not_mem (hne : v ≠ []) (h : ',' ∉ v) (d : PyDict) :
    parseLoop stof v d = parseItem stof d v := by
  cases v with
  | nil => exact absurd rfl hne
  | cons c s => rw [parseLoop, find_eq_none h]

theorem parseLoop_append (h : ',' ∉ v) (s : List Char) (d : PyDict) :
    parseLoop stof (v ++ ',' :: s) d = (parseItem stof d v).bind (parseLoop stof s) := by
  obtain ⟨c, u, hc⟩ := List.exists_cons_of_ne_nil (l := v ++ ',' :: s) (by simp)
  have hfind : find ',' (c :: u) = some v.length := hc ▸ find_append h s
  have htake : (c :: u).take v.length = v := by rw [← hc, List.take_left' rfl]
  have hdrop : (c :: u).drop (v.length + 1) = s := by rw [← hc]; simp
  rw [hc, parseLoop, hfind]
  dsimp only
  rw [htake, hdrop]
  rfl

/-- The items, when the spaces are removed. -/
def items (xs : List Call) : List Char := xs.flatMap fun x => ',' :: (label x ++ x.2.text)

/-- The loop over the items. -/
def fill (d : PyDict) (xs : List Call) : Except Fault PyDict :=
  xs.foldlM (fun d x => (written stof x.2).map (setItem d x.1)) d

/-- **The dictionary is filled by a loop over the items.** -/
theorem parseLoop_items (hx : ∀ x ∈ xs, GoodCall x ∧ BareArg x.2) (hne : v ≠ []) (hv : ',' ∉ v) (d : PyDict) :
    parseLoop stof (v ++ items xs) d = (parseItem stof d v).bind fun e => fill stof e xs := by
  induction xs generalizing v d with
  | nil =>
      rw [items, List.flatMap_nil, List.append_nil, parseLoop_of_not_mem stof hne hv]
      cases parseItem stof d v <;> rfl
  | cons x xs ih =>
      obtain ⟨hgood, hbare⟩ := hx x List.mem_cons_self
      have hcoma : ',' ∉ label x ++ x.2.text := by
        rw [List.mem_append, not_or]
        exact ⟨hgood.not_mem_label (by decide) (by decide), not_mem_text hbare (by decide)⟩
      have hsplit : v ++ items (x :: xs) = v ++ ',' :: ((label x ++ x.2.text) ++ items xs) := by
        simp [items]
      rw [hsplit, parseLoop_append stof hv]
      congr 1
      funext e
      rw [ih (fun y hy => hx y (List.mem_cons_of_mem _ hy)) (by simp [label]) hcoma,
        parseItem_item stof hgood hbare, fill, List.foldlM_cons]
      rfl

/-- The dictionary after the loop: each key has the value of its item. -/
theorem fill_eq_ok (hkeys : (xs.map Prod.fst).Nodup) {d e : PyDict} : fill stof d xs = .ok e ↔
    (∀ x ∈ xs, ∃ o, written stof x.2 = .ok o ∧ e x.1 = some o) ∧
      ∀ k, k ∉ xs.map Prod.fst → e k = d k := by
  induction xs generalizing d with
  | nil =>
      simp only [fill, List.foldlM_nil, List.not_mem_nil, List.map_nil, not_false_eq_true]
      constructor
      · intro h
        obtain rfl := Except.ok.inj h
        exact ⟨by simp, fun k _ => rfl⟩
      · rintro ⟨-, h⟩
        exact congrArg Except.ok (funext fun k => (h k trivial).symm)
  | cons x xs ih =>
      obtain ⟨hx, hkeys⟩ := List.nodup_cons.1 hkeys
      have hstep : fill stof d (x :: xs) = .ok e ↔
          ∃ o, written stof x.2 = .ok o ∧ fill stof (setItem d x.1 o) xs = .ok e := by
        rw [fill, List.foldlM_cons]
        cases hw : written stof x.2 with
        | error err => simp [Except.map, bind, Except.bind]
        | ok o => simp [Except.map, bind, Except.bind, fill]
      rw [hstep]
      constructor
      · rintro ⟨o, ho, hfill⟩
        obtain ⟨hval, hrest⟩ := (ih hkeys).1 hfill
        refine ⟨fun y hy => ?_, fun k hk => ?_⟩
        · rcases List.mem_cons.1 hy with rfl | hy
          · exact ⟨o, ho, by rw [hrest _ hx, setItem, Function.update_self]⟩
          · exact hval y hy
        · rw [List.map_cons, List.mem_cons, not_or] at hk
          rw [hrest k hk.2, setItem, Function.update_of_ne hk.1]
      · rintro ⟨hval, hrest⟩
        obtain ⟨o, ho, he⟩ := hval x List.mem_cons_self
        refine ⟨o, ho, (ih hkeys).2 ⟨fun y hy => hval y (List.mem_cons_of_mem _ hy), fun k hk => ?_⟩⟩
        by_cases hkx : k = x.1
        · rw [hkx, he, setItem, Function.update_self]
        · rw [setItem, Function.update_of_ne hkx, hrest k (by simp [hkx, hk])]

/-! ### The text -/

/-- The spaces of the text are those behind the commas. -/
theorem filter_text (hname : ' ' ∉ name) (hx : ∀ x ∈ xs, GoodCall x ∧ BareArg x.2) :
    (name ++ fields xs).filter (· ≠ ' ') = name ++ items xs := by
  have hkeep {s : List Char} (h : ' ' ∉ s) : s.filter (· ≠ ' ') = s :=
    List.filter_eq_self.2 fun c hc => by simpa using fun h' : c = ' ' => h (h' ▸ hc)
  rw [List.filter_append, hkeep hname, fields, items, List.filter_flatMap]
  congr 1
  refine List.flatMap_congr fun x hmem => ?_
  obtain ⟨hgood, hbare⟩ := hx x hmem
  have hitem : ' ' ∉ label x ++ x.2.text := by
    rw [List.mem_append, not_or]
    exact ⟨hgood.not_mem_label (by decide) (by decide), not_mem_text hbare (by decide)⟩
  rw [List.filter_cons_of_pos (by decide), List.filter_cons_of_neg (by decide), hkeep hitem]

theorem null_not_mem_text (h : BareArg a) : '\x00' ∉ a.text ↔ cutArg a = a := by
  have hv (v : List Char) : '\x00' ∉ v ↔ cString v = v :=
    ⟨cString_of_not_mem, fun h hm => not_mem_cString v (h.symm ▸ hm)⟩
  cases a with
  | int n => exact iff_of_true (not_mem_intToString (by decide) (by decide)) rfl
  | string v => rw [Arg.text, serializedString_of_bare h, hv, cutArg, Arg.string.injEq]
  | typed w v => rw [Arg.text, serializedString_of_bare h, hv, cutArg, Arg.typed.injEq]; simp

theorem text_cutArg (h : BareArg a) (hn : '\x00' ∈ a.text) : (cutArg a).text = cString a.text := by
  have hb := bareArg_cutArg h
  cases a with
  | int n => exact absurd hn (not_mem_intToString (by decide) (by decide))
  | string v => rw [cutArg, Arg.text, Arg.text, serializedString_of_bare h, serializedString_of_bare hb]
  | typed w v => rw [cutArg, Arg.text, Arg.text, serializedString_of_bare h, serializedString_of_bare hb]

theorem null_not_mem_label (h : GoodCall x) : '\x00' ∉ ',' :: ' ' :: label x := by
  simpa using h.not_mem_label (by decide) (by decide)

/-- Without null characters the whole text arrives. -/
theorem cString_fields_of_shared (hx : ∀ x ∈ xs, GoodCall x ∧ BareArg x.2) (h : ∀ x ∈ xs, cutArg x.2 = x.2) :
    cString (fields xs) = fields xs := by
  refine cString_of_not_mem fun hm => ?_
  obtain ⟨x, hmem, hc⟩ := List.mem_flatMap.1 hm
  obtain ⟨hgood, hbare⟩ := hx x hmem
  have htext := (null_not_mem_text hbare).2 (h x hmem)
  have hlabel := null_not_mem_label hgood
  simp only [List.mem_cons, List.mem_append] at hc hlabel
  tauto

/-- **What arrives of the items**: some of them, up to a value that is cut. -/
theorem cString_fields (hx : ∀ x ∈ xs, GoodCall x ∧ BareArg x.2) :
    ∃ n, cString (fields xs) = fields ((xs.take n).map cut) := by
  induction xs with
  | nil => exact ⟨0, rfl⟩
  | cons x xs ih =>
      obtain ⟨hgood, hbare⟩ := hx x List.mem_cons_self
      have happ : fields (x :: xs) = (',' :: ' ' :: label x) ++ (x.2.text ++ fields xs) := by
        simp [fields]
      rw [happ, cString_append (null_not_mem_label hgood)]
      by_cases hnull : '\x00' ∈ x.2.text
      · refine ⟨1, ?_⟩
        rw [cString_append_of_mem hnull, ← text_cutArg hbare hnull]
        simp [fields, cut, label, (show (cutArg x.2).typeName = x.2.typeName by cases x.2 <;> rfl)]
      · obtain ⟨n, hn⟩ := ih fun y hy => hx y (List.mem_cons_of_mem _ hy)
        refine ⟨n + 1, ?_⟩
        rw [cString_append hnull, hn]
        simp [fields, cut, (null_not_mem_text hbare).1 hnull]

/-! ### The agreement -/

/-- **The values that both parsers read alike.** -/
theorem shared_iff (h : BareArg a) :
    Shared a ↔ ∃ o, written stof (cutArg a) = .ok o ∧ ofAny a.reparsed = some o := by
  have hstr (v : List Char) (hv : Bare v) :
      Clean v ↔ ∃ o, (unicodeFromString (cString v)).map PyObj.str = .ok o ∧
        some (.str (unescape v)) = some o := by
    rw [clean_iff hv, unicodeFromString, unicodeFromString, cString_of_not_mem (not_mem_cString v)]
    split
    · constructor
      · intro heq
        exact ⟨_, rfl, by rw [Except.ok.inj heq]⟩
      · rintro ⟨o, ho, heq⟩
        rw [← Except.ok.inj ho] at heq
        rw [PyObj.str.inj (Option.some.inj heq)]
    · refine iff_of_false (by simp) ?_
      rintro ⟨o, ho, -⟩
      cases ho
  rw [reparsed_of_bare h]
  cases a with
  | int n =>
      have hlt : n.toInt < 2 ^ 32 := (Int32.toInt_lt n).trans (by decide)
      constructor
      · intro hn
        exact ⟨_, rfl, by rw [bareValue, ofAny, buildUnsigned, Int.emod_eq_of_lt hn hlt]⟩
      · rintro ⟨o, ho, heq⟩
        rw [← Except.ok.inj ho] at heq
        have hmod : n.toInt = n.toInt % 2 ^ 32 := PyObj.int.inj (Option.some.inj heq)
        show 0 ≤ n.toInt
        rw [hmod]
        exact Int.emod_nonneg _ (by decide)
  | string v => exact hstr v h
  | typed w v =>
      show w ≠ "fraction".toList ∧ Clean v ↔ ∃ o, written stof (.typed w (cString v)) = .ok o ∧ _
      by_cases hw : w = "fraction".toList
      · refine iff_of_false (fun h => h.1 hw) ?_
        rintro ⟨o, ho, heq⟩
        rw [written, if_pos hw, fraction] at ho
        rw [← Option.some.inj heq] at ho
        simp only [bind, Except.bind] at ho
        split at ho
        · cases ho
        · split at ho <;> cases ho
      · rw [written, if_neg hw]
        exact (and_iff_right hw).trans (hstr v h)

theorem cutArg_of_shared (h : Shared a) : cutArg a = a := by
  cases a with
  | int n => rfl
  | string v => rw [cutArg, cString_of_not_mem (Clean.null h)]
  | typed w v => rw [cutArg, cString_of_not_mem h.2.null]

/-- A name that is not empty, and bare. -/
theorem goodName_of_bare (hne : name ≠ []) (h : Bare name) : GoodName name where
  ne_nil := hne
  coma := fun hm => h ',' hm (by decide)
  space := fun hm => h ' ' hm (by decide)
  backslash := fun hm => h '\\' hm (by decide)

/-- What `Type` reads from the text of bare values. -/
theorem exists_parsed (hname : GoodName name) (hkeys : (calls.map Prod.fst).Nodup)
    (hgood : ∀ x ∈ calls, GoodCall x) (hbare : ∀ x ∈ calls, BareArg x.2) :
    ∃ t u, build name calls = .ok t ∧ t.str = .ok (name ++ fields (callMap calls).entries) ∧
      parse (name ++ fields (callMap calls).entries) = .ok u ∧ u.name = name ∧
      u.properties = (callMap calls).map Arg.reparsed := by
  obtain ⟨t, hbuild, -, -, hstr⟩ := exists_build hname hkeys
  have hmem {x : Call} (hx : x ∈ (callMap calls).entries) : x ∈ calls := (mem_callMap hkeys).1 hx
  have hclosed : ∀ x ∈ (callMap calls).entries, x.2.isOpen = false := by
    intro x hx
    have hb := hbare x (hmem hx)
    have hlast (v : List Char) (hv : Bare v) : v.getLast? ≠ some '\\' := fun hl =>
      hv '\\' (List.mem_of_getLast? hl) (by decide)
    obtain ⟨key, a⟩ := x
    cases a with
    | int n => rfl
    | string v => simp [Arg.isOpen, hlast v hb]
    | typed w v => simp [Arg.isOpen, hlast v hb]
  obtain ⟨u, hparse, hun, hup, -, -⟩ := parse_fields hname fun x hx => hgood x (hmem hx)
  have hsurv : survivors (callMap calls).entries = (callMap calls).entries := by
    rw [survivors, joinTokens_of_closed hclosed, List.filterMap_map]
    exact List.filterMap_some
  have hself : callMap (callMap calls).entries = callMap calls := OrdMap.foldl_entries _
  refine ⟨t, u, hbuild, hstr, hparse, hun, ?_⟩
  rw [hup, hsurv, properties_callMap, hself]

theorem get_parsed {u : TypeDesc} (hkeys : (calls.map Prod.fst).Nodup)
    (hup : u.properties = (callMap calls).map Arg.reparsed) (hx : x ∈ calls) :
    u.get x.1 = some x.2.reparsed := by
  show u.properties.find? x.1 = _
  rw [hup, OrdMap.find?_map, OrdMap.find?_eq_some.2 ((mem_callMap hkeys).2 hx)]
  rfl

theorem get_parsed_none {u : TypeDesc} (hup : u.properties = (callMap calls).map Arg.reparsed)
    {k : List Char} (hk : k ∉ (callMap calls).entries.map Prod.fst) : u.get k = none := by
  show u.properties.find? k = _
  rw [hup, OrdMap.find?_map, Option.map_eq_none_iff, Option.eq_none_iff_forall_ne_some]
  exact fun a ha => hk (List.mem_map_of_mem (OrdMap.find?_eq_some.1 ha))

/-- The dictionary of the name alone. -/
def nameDict (name : List Char) : PyDict := setItem (fun _ => none) "type".toList (.str name)

theorem parseItem_name (hname : Bare name) :
    parseItem stof (fun _ => none) name = (unicodeFromString name).map nameDict := by
  rw [parseItem, find_eq_none fun hm => hname '=' hm (by decide)]
  rfl

/-- The function, when the null character, if there is one, is behind the name. -/
theorem readerParseDatatype_eq (hne : name ≠ []) (hname : Bare name) (hnull : '\x00' ∉ name) {s : List Char}
    {ys : List Call} (hs : cString s = fields ys) (hy : ∀ y ∈ ys, GoodCall y ∧ BareArg y.2) :
    readerParseDatatype stof (name ++ s) =
      if isUtf8 name then fill stof (nameDict name) ys else .error .nullPointer := by
  rw [readerParseDatatype, cString_append hnull, hs, filter_text (fun hm => hname ' ' hm (by decide)) hy,
    parseLoop_items stof hy hne fun hm => hname ',' hm (by decide), parseItem_name stof hname, unicodeFromString,
    cString_of_not_mem hnull]
  split <;> rfl

/-- A name with a null character is not found. -/
theorem null_not_mem_name (hname : Bare name) {s : List Char} {d : PyDict}
    (hd : readerParseDatatype stof (name ++ s) = .ok d) (htype : d "type".toList = some (.str name)) :
    '\x00' ∉ name := by
  intro hnull
  have hbare : Bare (cString name) := fun c hc => hname c (cString_subset name hc)
  have hfilter : (cString name).filter (· ≠ ' ') = cString name :=
    List.filter_eq_self.2 fun c hc => by
      simpa using fun h' : c = ' ' => hbare ' ' (h' ▸ hc) (by decide)
  rw [readerParseDatatype, cString_append_of_mem hnull, hfilter] at hd
  by_cases hempty : cString name = []
  · rw [hempty, parseLoop] at hd
    rw [← Except.ok.inj hd] at htype
    cases htype
  · rw [parseLoop_of_not_mem stof hempty (fun hm => hbare ',' hm (by decide)), parseItem_name stof hbare,
      unicodeFromString, cString_of_not_mem (not_mem_cString name)] at hd
    split at hd
    · rw [← Except.ok.inj hd, nameDict, setItem, Function.update_self] at htype
      have heq : cString name = name := PyObj.str.inj (Option.some.inj htype)
      exact not_mem_cString name (heq.symm ▸ hnull)
    · cases hd

/-- **When the two parsers agree**: exactly if the name is UTF-8 without a null character, no integer is negative,
the strings are UTF-8 without markers and null characters, and no string is a fraction. -/
theorem agrees_iff (hne : name ≠ []) (hname : Bare name) (hkeys : (calls.map Prod.fst).Nodup)
    (htype : "type".toList ∉ calls.map Prod.fst) (hgood : ∀ x ∈ calls, GoodCall x)
    (hbare : ∀ x ∈ calls, BareArg x.2) :
    ∃ t s u, build name calls = .ok t ∧ t.str = .ok s ∧ parse s = .ok u ∧
      (Agrees stof u s ↔ '\x00' ∉ name ∧ isUtf8 name = true ∧ ∀ x ∈ calls, Shared x.2) := by
  obtain ⟨t, u, hbuild, hstr, hparse, hun, hup⟩ := exists_parsed (goodName_of_bare hne hname) hkeys hgood hbare
  refine ⟨t, _, u, hbuild, hstr, hparse, ?_⟩
  have hmem {x : Call} : x ∈ (callMap calls).entries ↔ x ∈ calls := mem_callMap hkeys
  have hx : ∀ x ∈ (callMap calls).entries, GoodCall x ∧ BareArg x.2 := fun x hx =>
    ⟨hgood x (hmem.1 hx), hbare x (hmem.1 hx)⟩
  have hnodup := OrdMap.nodup_entries (callMap calls)
  have hget {x : Call} (hx : x ∈ calls) : u.get x.1 = some x.2.reparsed := get_parsed hkeys hup hx
  have hnone {k : List Char} (hk : k ∉ (callMap calls).entries.map Prod.fst) : u.get k = none :=
    get_parsed_none hup hk
  constructor
  · rintro ⟨d, hd, htypeName, hvalues⟩
    rw [hun] at htypeName
    have hnull := null_not_mem_name stof hname hd htypeName
    obtain ⟨n, hn⟩ := cString_fields hx
    have hys : ((callMap calls).entries.take n).map cut ⊆ (callMap calls).entries.map cut :=
      fun y hy => List.map_subset cut (List.take_subset n _) hy
    have hgoodys : ∀ y ∈ ((callMap calls).entries.take n).map cut, GoodCall y ∧ BareArg y.2 := by
      intro y hy
      obtain ⟨x, hxm, rfl⟩ := List.mem_map.1 (hys hy)
      exact ⟨goodCall_cut (hx x hxm).1, bareArg_cutArg (hx x hxm).2⟩
    have hkeysys : ((((callMap calls).entries.take n).map cut).map Prod.fst).Nodup := by
      rw [List.map_map]
      exact (hnodup.sublist ((List.take_sublist n _).map Prod.fst))
    rw [readerParseDatatype_eq stof hne hname hnull hn hgoodys] at hd
    obtain ⟨hutf8, hd⟩ : isUtf8 name = true ∧ fill stof (nameDict name) _ = .ok d := by
      split at hd
      · next h => exact ⟨h, hd⟩
      · cases hd
    rw [fill_eq_ok stof hkeysys] at hd
    obtain ⟨hvals, hrest⟩ := hd
    refine ⟨hnull, hutf8, fun x hxc => ?_⟩
    have hkey : x.1 ≠ "type".toList := fun h => htype (h ▸ List.mem_map_of_mem hxc)
    have hval := hvalues x.1 hkey
    rw [hget hxc, Option.bind_some] at hval
    -- the item of `x` has arrived, since its key is in the dictionary
    have hin : x ∈ (callMap calls).entries.take n := by
      by_contra hnot
      have hkeyn : x.1 ∉ (((callMap calls).entries.take n).map cut).map Prod.fst := by
        rw [List.map_map]
        intro hm
        obtain ⟨y, hy, hyx⟩ := List.mem_map.1 hm
        have hyc : y ∈ calls := hmem.1 (List.take_subset n _ hy)
        exact hnot (List.inj_on_of_nodup_map hkeys hyc hxc hyx ▸ hy)
      rw [hrest x.1 hkeyn, nameDict, setItem, Function.update_of_ne hkey, reparsed_of_bare (hbare x hxc)] at hval
      cases hx2 : x.2 <;> simp [hx2, bareValue, ofAny] at hval
    obtain ⟨o, ho, hdo⟩ := hvals (cut x) (List.mem_map_of_mem hin)
    exact (shared_iff stof (hbare x hxc)).2 ⟨o, ho, hval.symm.trans hdo⟩
  · rintro ⟨hnull, hutf8, hshared⟩
    have hcut : ∀ x ∈ (callMap calls).entries, cutArg x.2 = x.2 := fun x hx =>
      cutArg_of_shared (hshared x (hmem.1 hx))
    have hval : ∀ x ∈ calls, ∃ o, written stof x.2 = .ok o ∧ ofAny x.2.reparsed = some o := by
      intro x hxc
      obtain ⟨o, ho, hval⟩ := (shared_iff stof (hbare x hxc)).1 (hshared x hxc)
      rw [hcut x (hmem.2 hxc)] at ho
      exact ⟨o, ho, hval⟩
    refine ⟨setItem (fun k => (u.get k).bind ofAny) "type".toList (.str name), ?_, ?_, fun k hk => ?_⟩
    · rw [readerParseDatatype_eq stof hne hname hnull (cString_fields_of_shared hx hcut) hx,
        if_pos hutf8, fill_eq_ok stof hnodup]
      constructor
      · intro x hxm
        obtain ⟨o, ho, hv⟩ := hval x (hmem.1 hxm)
        have hkey : x.1 ≠ "type".toList := fun h => htype (h ▸ List.mem_map_of_mem (hmem.1 hxm))
        exact ⟨o, ho, by rw [setItem, Function.update_of_ne hkey, hget (hmem.1 hxm), Option.bind_some, hv]⟩
      · intro k hk
        by_cases hkt : k = "type".toList
        · rw [hkt, nameDict, setItem, setItem, Function.update_self, Function.update_self]
        · rw [nameDict, setItem, setItem, Function.update_of_ne hkt, Function.update_of_ne hkt, hnone hk]
          rfl
    · rw [setItem, Function.update_self, hun]
    · rw [setItem, Function.update_of_ne hk]

/-- A conversion of texts that are no numbers. -/
def noNumber (_ : List Char) : Except Fault Float32 := .error .invalidArgument

/-- A stream with a negative offset. -/
def negativeOffset : List Call := [("offset".toList, .int (-1))]

theorem negativeOffset_good : ∀ x ∈ negativeOffset, GoodCall x ∧ BareArg x.2 := by
  refine List.forall_mem_cons.2 ⟨⟨⟨by decide, List.all_eq_true.1 (by decide), ?_⟩, trivial⟩, by simp⟩
  rintro w v ⟨⟩

theorem bare_audio : Bare "audio".toList := by
  intro c hc
  have hall : ("audio".toList.all fun c => c ∉ [' ', ',', '=', '(', ')', '"', '\\']) = true := by decide
  simpa using List.all_eq_true.1 hall c hc

/-- **The wrapper reads the offset `-1` as `4294967295`.** -/
theorem negativeOffset_not_agrees : ∃ t s u d, build "audio".toList negativeOffset = .ok t ∧
    t.str = .ok s ∧ parse s = .ok u ∧ readerParseDatatype noNumber s = .ok d ∧
      u.get "offset".toList = some (.int (-1)) ∧ d "offset".toList = some (.int 4294967295) ∧
      ¬ Agrees noNumber u s := by
  have hnull : '\x00' ∉ "audio".toList := by decide
  have hkeys : (negativeOffset.map Prod.fst).Nodup := by decide
  obtain ⟨t, u, hbuild, hstr, hparse, -, hup⟩ := exists_parsed (goodName_of_bare (by decide) bare_audio) hkeys
    (fun x hx => (negativeOffset_good x hx).1) fun x hx => (negativeOffset_good x hx).2
  have hget : u.get "offset".toList = some (.int (-1)) := get_parsed hkeys hup List.mem_cons_self
  have hentries : (callMap negativeOffset).entries = negativeOffset := rfl
  rw [hentries] at hstr hparse
  have hd := readerParseDatatype_eq noNumber (by decide) bare_audio hnull
    (cString_fields_of_shared negativeOffset_good (by simp [negativeOffset, cutArg])) negativeOffset_good
  refine ⟨t, _, u, _, hbuild, hstr, hparse, hd, hget, rfl, ?_⟩
  rintro ⟨d, hd', -, hvalues⟩
  have heq := hvalues "offset".toList (by decide)
  rw [hget, ← Except.ok.inj (hd.symm.trans hd')] at heq
  exact absurd (PyObj.int.inj (Option.some.inj heq)) (by decide)

/-- A stream with a rate and a format. -/
def samples : List Call := [("rate".toList, .int 44100), ("format".toList, .string "S16LE".toList)]

/-- The wrapper reads it as `Type` does. -/
theorem samples_agrees : ∃ t s u, build "audio".toList samples = .ok t ∧ t.str = .ok s ∧
    parse s = .ok u ∧ Agrees noNumber u s := by
  have hkeys : (samples.map Prod.fst).Nodup := by decide
  have hgood : ∀ x ∈ samples, GoodCall x := by
    refine List.forall_mem_cons.2 ⟨⟨by decide, List.all_eq_true.1 (by decide), by rintro w v ⟨⟩⟩, ?_⟩
    exact List.forall_mem_cons.2 ⟨⟨by decide, List.all_eq_true.1 (by decide), by rintro w v ⟨⟩⟩, by simp⟩
  have hbare : Bare "S16LE".toList := by
    intro c hc
    have hall : ("S16LE".toList.all fun c => c ∉ [' ', ',', '=', '(', ')', '"', '\\']) = true := by decide
    simpa using List.all_eq_true.1 hall c hc
  have hshared : ∀ x ∈ samples, Shared x.2 := by
    refine List.forall_mem_cons.2 ⟨(by decide : (0 : ℤ) ≤ (44100 : Int32).toInt), ?_⟩
    exact List.forall_mem_cons.2 ⟨(⟨by decide, by decide, by decide, by decide⟩ : Clean "S16LE".toList), by simp⟩
  obtain ⟨t, s, u, hbuild, hstr, hparse, hiff⟩ := agrees_iff noNumber (by decide) bare_audio hkeys
    (by decide) hgood (List.forall_mem_cons.2 ⟨trivial, List.forall_mem_cons.2 ⟨hbare, by simp⟩⟩)
  exact ⟨t, s, u, hbuild, hstr, hparse, hiff.2 ⟨by decide, by decide, hshared⟩⟩

end PyDatatype

end Shmdata

/-
**The description of the data: `Type`.**

A shmdata carries a textual description of its frames, a name and properties, such as
`video/x-raw, width=(int)320, framerate=(fraction)30/1`.  `Type` parses such a text and writes it.  The
text is flat: properties are separated by commas, a key and its value by an equal sign, and a value begins
with the name of its type in parentheses.  In the value of a string these characters are preceded by a
backslash, which the parser replaces by markers before it looks for separators.

Strings are lists of characters; the regular expressions are those of the source.  A search for one is taken to
come to its end: a text that is too long for the matcher of the library is a fault of `construct`.

Main definitions:

* `Shmdata.TypeDesc` — the fields of `Type`;
* `Shmdata.TypeDesc.escape`, `Shmdata.TypeDesc.unescape`, `Shmdata.TypeDesc.getSerializedStringValue` —
  the treatment of the special characters;
* `Shmdata.TypeDesc.parse` — the constructor;
* `Shmdata.TypeDesc.serialize`, `Shmdata.TypeDesc.str` — `Type::str`.
-/

import Mathlib.Data.Char
import Mathlib.Data.List.Lex
import Shmdata.OrderedMap
import Shmdata.Regex

set_option relaxedAutoImplicit false
set_option autoImplicit false

namespace Shmdata

open Regex

/-- The exceptions of the standard library that `Type` does not catch. -/
inductive StdExn
  | badAnyCast
  | outOfRange
  deriving DecidableEq

/-- The numeric types other than `int` that `Type::str` knows. -/
inductive Number
  | long
  | longLong
  | unsigned
  | unsignedLong
  | unsignedLongLong
  | float
  | double
  | longDouble
  deriving DecidableEq

/-- The name that `Type::str` writes for a numeric type. -/
def Number.name : Number → List Char
  | .long => "long".toList
  | .longLong => "long long".toList
  | .unsigned => "unsigned".toList
  | .unsignedLong => "unsigned long".toList
  | .unsignedLongLong => "unsigned long long".toList
  | .float => "float".toList
  | .double => "double".toList
  | .longDouble => "long double".toList

/-- A value: a string, an `int`, a number of another type, with the text that `std::to_string` gives for
it, or a value of a type that `Type::str` does not know. -/
inductive Any
  | string (s : List Char)
  | int (n : Int32)
  | number (type : Number) (text : List Char)
  | other (typeName : List Char)
  deriving DecidableEq

/-- The fields of `Type`. -/
structure TypeDesc where
  name : List Char
  properties : OrdMap (List Char) Any
  strTypes : OrdMap (List Char) (List Char)
  parsingErrors : List Char

namespace TypeDesc

/-! ### Characters and numbers -/

/-- `\s`. -/
def isSpace (c : Char) : Bool := c == ' ' || ('\t' ≤ c && c ≤ '\r')

/-- `\w`. -/
def isWord (c : Char) : Bool := c.isAlphanum || c == '_'

/-- `[\w-]`. -/
def isKeyChar (c : Char) : Bool := isWord c || c == '-'

/-- `std::to_string` of an `int`. -/
def intToString (n : Int32) : List Char :=
  if n.toInt < 0 then '-' :: Nat.toDigits 10 n.toInt.natAbs else Nat.toDigits 10 n.toInt.natAbs

/-- The number at the beginning of a text, `0` if there is none. -/
def digitsValue (s : List Char) : ℕ := Nat.ofDigitChars 10 (s.takeWhile Char.isDigit) 0

/-- A sign and a number. -/
def signedValue : List Char → ℤ
  | '-' :: s => -digitsValue s
  | '+' :: s => digitsValue s
  | s => digitsValue s

/-- `iss >> tmp_int`: white space is passed, and a number that is too large gives the nearest `int`.  With nothing
but white space the source leaves `tmp_int` unassigned, for which `0` stands here; `construct` tells the two
apart. -/
def streamInt (s : List Char) : Int32 :=
  .ofInt (max Int32.minValue.toInt (min Int32.maxValue.toInt (signedValue (s.dropWhile isSpace))))

/-- `std::stoi` of a text that is a number. -/
def stoi (s : List Char) : Except StdExn Int32 :=
  if Int32.minValue.toInt ≤ signedValue s ∧ signedValue s ≤ Int32.maxValue.toInt then
    .ok (.ofInt (signedValue s))
  else .error .outOfRange

/-- The test before `std::stoi`: digits, with a minus sign in front or without. -/
def isInteger (s : List Char) : Bool :=
  s ≠ [] && s ≠ ['-'] && (if s.head? = some '-' then s.drop 1 else s).all Char.isDigit

/-! ### Special characters -/

/-- `__COMA__`. -/
def comaMark : List Char := ['_', '_', 'C', 'O', 'M', 'A', '_', '_']

/-- `__EQUAL__`. -/
def equalMark : List Char := ['_', '_', 'E', 'Q', 'U', 'A', 'L', '_', '_']

def escape (str : List Char) : List Char :=
  replaceAll (lit ['\\', '=']) equalMark (replaceAll (lit ['\\', ',']) comaMark str)

def unescape (str : List Char) : List Char :=
  replaceAll (lit ['\\', ')']) [')']
    (replaceAll (lit ['\\', '(']) ['(']
      (replaceAll (lit equalMark) ['=']
        (replaceAll (lit ['"']) []
          (replaceAll (lit comaMark) [','] str))))

/-- `get_serialized_string_value` on a string. -/
def serializedString (value : List Char) : List Char :=
  let res :=
    replaceAll (lit [')']) ['\\', ')']
      (replaceAll (lit ['(']) ['\\', '(']
        (replaceAll (lit ['=']) ['\\', '=']
          (replaceAll (lit [',']) ['\\', ','] value)))
  if ' ' ∈ res ∨ ',' ∈ res ∨ '=' ∈ res then '"' :: (res ++ ['"']) else res

def getSerializedStringValue : Any → Except StdExn (List Char)
  | .string value => .ok (serializedString value)
  | _ => .error .badAnyCast

/-! ### The constructor -/

/-- ` *, *`. -/
def comaRgx : Rgx := .seq (.seq (.star (· == ' ')) (.cls (· == ','))) (.star (· == ' '))

/-- `\s*=\s*`. -/
def spaceRgx : Rgx := .seq (.seq (.star isSpace) (.cls (· == '='))) (.star isSpace)

/-- `[\w-]+=[^=]+`. -/
def keyvalRgx : Rgx := .seq (plus isKeyChar) (.seq (.cls (· == '=')) (plus (· != '=')))

/-- `\([\w]+\)`. -/
def literalTypeRgx : Rgx := .seq (.cls (· == '(')) (.seq (plus isWord) (.cls (· == ')')))

/-- The first token that is not empty is the name. -/
def findName : List (List Char) → List Char × List (List Char)
  | [] => ([], [])
  | tok :: toks => if tok = [] then findName toks else (tok, toks)

/-- The value of a property without a type: a number, or a string. -/
def untypedValue (value : List Char) : Except StdExn Any :=
  if isInteger (unescape value) then (stoi (unescape value)).map .int
  else .ok (.string (unescape value))

/-- A property of which the key and the value are known. -/
def addProp (t : TypeDesc) (key value : List Char) : Except StdExn TypeDesc :=
  (untypedValue value).map fun anyValue =>
    match search literalTypeRgx value with
    | some (sm, _) =>
        -- the text after the type is found by the length of the match, wherever that is
        if sm = "(int)".toList then
          { t with properties := t.properties.emplace key (.int (streamInt (value.drop sm.length))) }
        else
          { t with
            properties := t.properties.emplace key (.string (unescape (value.drop sm.length)))
            strTypes := t.strTypes.emplace key ((sm.drop 1).take (sm.length - 2)) }
    | none => { t with properties := t.properties.emplace key anyValue }

/-- The text put before a token that is not a property. -/
def wrongSyntax : List Char :=
  "wrong parameter syntax (expecting param_name=param_value, but got ".toList

/-- One token after the name. -/
def parseProp (t : TypeDesc) (tok : List Char) : Except StdExn TypeDesc :=
  if tok = [] then .ok t
  else
    let prop := replaceAll spaceRgx ['='] tok
    if fullMatch keyvalRgx prop then
      t.addProp (prop.takeWhile (· != '=')) ((prop.dropWhile (· != '=')).drop 1)
    else .ok { t with parsingErrors := t.parsingErrors ++ wrongSyntax ++ tok }

/-- A description without properties. -/
def ofName (name : List Char) : TypeDesc where
  name := name
  properties := .empty
  strTypes := .empty
  parsingErrors := []

/-- `Type::Type`. -/
def parse (str : List Char) : Except StdExn TypeDesc :=
  let x := findName (tokens comaRgx (escape str))
  x.2.foldlM parseProp (ofName x.1)

/-! ### Access and serialisation -/

def get (t : TypeDesc) (key : List Char) : Option Any := t.properties.find? key

/-- `set_prop(key, value)`. -/
def setProp (t : TypeDesc) (key : List Char) (value : Any) : TypeDesc :=
  { t with properties := t.properties.emplace key value }

/-- `set_prop(key, custom_type, value)`. -/
def setPropTyped (t : TypeDesc) (key customType value : List Char) : TypeDesc :=
  { t with
    properties := t.properties.emplace key (.string value)
    strTypes := t.strTypes.emplace key customType }

/-- `, key=(type)value`. -/
def field (key type value : List Char) : List Char :=
  [',', ' '] ++ key ++ ['=', '('] ++ type ++ [')'] ++ value

/-- What one property adds to the text and to `serialization_errors_`. -/
def serializeProp (t : TypeDesc) (key : List Char) (value : Any) :
    Except StdExn (List Char × List Char) :=
  match t.strTypes.find? key with
  | some type => (getSerializedStringValue value).map fun s => (field key type s, [])
  | none =>
      match value with
      | .string s => .ok (field key "string".toList (serializedString s), [])
      | .int n => .ok (field key "int".toList (intToString n), [])
      | .number type text => .ok (field key type.name text, [])
      | .other typeName =>
          .ok ([], "unknown type for key ".toList ++ key ++ " cpp type name is ".toList ++ typeName)

/-- `Type::str`, with the text it adds to `serialization_errors_`. -/
def serialize (t : TypeDesc) : Except StdExn (List Char × List Char) :=
  t.properties.entries.foldlM
    (fun res x => (t.serializeProp x.1 x.2).map fun y => (res.1 ++ y.1, res.2 ++ y.2)) (t.name, [])

/-- `Type::str`. -/
def str (t : TypeDesc) : Except StdExn (List Char) := t.serialize.map Prod.fst

end TypeDesc

end Shmdata

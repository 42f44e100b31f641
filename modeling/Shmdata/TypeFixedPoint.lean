/-
**Integers of all types, written and read again.**

`Type::str` writes the name of the C++ type in front of a number.  For some of the types the name consists of
several words, as in `(long long)5`.  This is no word in parentheses, so that the parser keeps the whole of it
as a string, and the next `Type::str` quotes and escapes it.  Serialisation is a fixed point exactly for the
types with a name of one word.  On every text the searches are taken to come to their end.

Main definitions:

* `Shmdata.Number.integral`, `Shmdata.Any.Integral` — integers of a C++ type;
* `Shmdata.TypeDesc.FixedPoint` — what is written is read without an error, and written again as it is;
* `Shmdata.Any.OneWord` — the name of the type is one word.

Main results:

* `Shmdata.TypeDesc.exists_of_str` — what `Type::str` has written for each property;
* `Shmdata.TypeDesc.fixedPoint_iff` — **when serialisation is a fixed point**.
-/

import Shmdata.TypeFaults
import Shmdata.TypeHistory
import Shmdata.TypeRoundTrip

set_option relaxedAutoImplicit false
set_option autoImplicit false

namespace Shmdata

open Regex

/-- The integer types among those that `Type::str` knows. -/
def Number.integral : Number → Bool
  | .long | .longLong | .unsigned | .unsignedLong | .unsignedLongLong => true
  | .float | .double | .longDouble => false

/-- `std::to_string` of an integer. -/
def decimal (z : ℤ) : List Char := if z < 0 then '-' :: Nat.toDigits 10 z.natAbs else Nat.toDigits 10 z.natAbs

namespace Any

/-- An integer, with the text that `std::to_string` gives for it. -/
def Integral : Any → Prop
  | .int _ => True
  | .number type text => type.integral = true ∧ ∃ z, text = decimal z
  | _ => False

/-- The name of the type is one word. -/
def OneWord : Any → Prop
  | .number type _ => type = .long ∨ type = .unsigned
  | _ => True

/-- The name of the type and the number. -/
def written : Any → List Char × List Char
  | .int n => ("int".toList, TypeDesc.intToString n)
  | .number type text => (type.name, text)
  | _ => ([], [])

/-- A number as it is read. -/
def arg : Any → Arg
  | .int n => .int n
  | .number type text => .typed type.name text
  | _ => .int 0

end Any

namespace TypeDesc

/-- What is written is read without an error, and written again as it is. -/
def FixedPoint (t : TypeDesc) : Prop :=
  ∃ s u, t.str = .ok s ∧ parse s = .ok u ∧ u.parsingErrors = [] ∧ u.str = .ok s

/-- The item that is written for a number. -/
def numberItem (x : List Char × Any) : Item :=
  (x.1, '(' :: (x.2.written.1 ++ ')' :: x.2.written.2))

variable {s k v : List Char} {t u : TypeDesc} {a : Any} {x : List Char × Any} {c : Char}

/-! ### What is written -/

/-- What `Type::str` has written for each property. -/
theorem exists_of_str (h : t.str = .ok s) :
    ∃ f : List Char × Any → List Char,
      (∀ x ∈ t.properties.entries, ∃ e, t.serializeProp x.1 x.2 = .ok (f x, e)) ∧
        s = t.name ++ t.properties.entries.flatMap f := by
  refine ⟨fun x => ((t.serializeProp x.1 x.2).toOption.map Prod.fst).getD [], ?_⟩
  have hloop (l : List (List Char × Any)) (r r' : List Char × List Char)
      (hr : l.foldlM (fun res x => (t.serializeProp x.1 x.2).map fun y => (res.1 ++ y.1, res.2 ++ y.2)) r =
        .ok r') :
      (∀ x ∈ l, ∃ e, t.serializeProp x.1 x.2 =
        .ok (((t.serializeProp x.1 x.2).toOption.map Prod.fst).getD [], e)) ∧
        r'.1 = r.1 ++ l.flatMap fun x => ((t.serializeProp x.1 x.2).toOption.map Prod.fst).getD [] := by
    induction l generalizing r with
    | nil =>
        obtain rfl : r = r' := Except.ok.inj hr
        simp
    | cons x l ih =>
        rw [List.foldlM_cons] at hr
        cases hx : t.serializeProp x.1 x.2 with
        | error e =>
            rw [hx] at hr
            cases hr
        | ok p =>
            rw [hx] at hr
            obtain ⟨hl, hr'⟩ := ih _ hr
            rw [List.forall_mem_cons, List.flatMap_cons, hx]
            refine ⟨⟨⟨p.2, rfl⟩, hl⟩, hr'.trans ?_⟩
            simp [Except.toOption]
  rw [str, serialize] at h
  cases hf : t.properties.entries.foldlM
      (fun res x => (t.serializeProp x.1 x.2).map fun y => (res.1 ++ y.1, res.2 ++ y.2)) (t.name, []) with
  | error e =>
      rw [hf] at h
      cases h
  | ok r =>
      rw [hf] at h
      obtain ⟨hl, hr⟩ := hloop _ _ _ hf
      exact ⟨hl, (Except.ok.inj h).symm.trans hr⟩

theorem decimal_ne_nil (z : ℤ) : decimal z ≠ [] := by
  unfold decimal
  split
  · simp
  · exact Nat.toDigits_ne_nil

theorem isInteger_decimal (z : ℤ) : isInteger (decimal z) = true := by
  have hdigits : (Nat.toDigits 10 z.natAbs).all Char.isDigit = true :=
    List.all_eq_true.2 fun c hc => Nat.isDigit_of_mem_toDigits (by decide) (by decide) hc
  have hne : Nat.toDigits 10 z.natAbs ≠ [] := Nat.toDigits_ne_nil
  unfold isInteger decimal
  split
  · simp [hne, hdigits]
  · obtain ⟨c, u, hc⟩ := List.exists_cons_of_ne_nil hne
    rw [hc] at hdigits ⊢
    have hminus : c ≠ '-' := (isDigit_ne (List.all_eq_true.1 hdigits c List.mem_cons_self)).2.1
    simp [hminus, hdigits]

theorem mem_decimal {z : ℤ} (h : c ∈ decimal z) : c = '-' ∨ c.isDigit = true :=
  mem_of_isInteger (isInteger_decimal z) h

theorem mem_number_name {type : Number} (h : c ∈ type.name) : isWord c = true ∨ c = ' ' := by
  have hall : type.name.all (fun c => isWord c || c == ' ') = true := by cases type <;> decide
  simpa using List.all_eq_true.1 hall c h

/-- The number behind the type, and the letters of the type. -/
theorem written_of_integral (h : a.Integral) :
    a.written.2 ≠ [] ∧ (∀ c ∈ a.written.2, c = '-' ∨ c.isDigit = true) ∧
      ∀ c ∈ a.written.1, isWord c = true ∨ c = ' ' := by
  cases a with
  | string v => exact h.elim
  | int n =>
      refine ⟨decimal_ne_nil _, fun c hc => mem_decimal hc, fun c hc => ?_⟩
      have hall : "int".toList.all isWord = true := by decide
      exact Or.inl (List.all_eq_true.1 hall c hc)
  | number type text =>
      obtain ⟨-, z, rfl⟩ := h
      exact ⟨decimal_ne_nil _, fun c hc => mem_decimal hc, fun c hc => mem_number_name hc⟩
  | other typeName => exact h.elim

/-- A name of a type other than `int`. -/
theorem name_ne_int (type : Number) : type.name ≠ "int".toList := by cases type <;> decide

/-- An integer is written, unless its key has a type. -/
theorem serializeProp_of_integral (h : a.Integral) : t.serializeProp k a =
    match t.strTypes.find? k with
    | some _ => .error .badAnyCast
    | none => .ok (',' :: ' ' :: itemText (numberItem (k, a)), []) := by
  unfold serializeProp
  cases t.strTypes.find? k <;> cases a with
  | string v => exact h.elim
  | int n => simp [getSerializedStringValue, field, itemText, numberItem, Any.written, Except.map]
  | number type text => simp [getSerializedStringValue, field, itemText, numberItem, Any.written, Except.map]
  | other typeName => exact h.elim

/-- The characters of an item. -/
theorem mem_numberItem (h : x.2.Integral) (hc : c ∈ (numberItem x).2) :
    isWord c = true ∨ c = ' ' ∨ c = '-' ∨ c = '(' ∨ c = ')' := by
  obtain ⟨-, hdigits, hname⟩ := written_of_integral h
  simp only [numberItem, List.mem_cons, List.mem_append] at hc
  rcases hc with rfl | hc | rfl | hc
  · simp
  · exact (hname c hc).imp_right Or.inl
  · simp
  · rcases hdigits c hc with rfl | hc
    · simp
    · exact Or.inl (by simp [isWord, Char.isAlphanum, hc])

/-- The text of a number is a value in which nothing is escaped. -/
theorem goodItem_of_integral (hne : x.1 ≠ []) (hkey : ∀ c ∈ x.1, isKeyChar c = true) (h : x.2.Integral) :
    GoodItem (numberItem x) := by
  obtain ⟨hdne, hdigits, hname⟩ := written_of_integral h
  have hno {c : Char} (hw : isWord c = false) (hc : c ≠ ' ' ∧ c ≠ '-' ∧ c ≠ '(' ∧ c ≠ ')') :
      c ∉ (numberItem x).2 := by
    intro hmem
    rcases mem_numberItem h hmem with hmem | hmem | hmem | hmem | hmem
    · rw [hw] at hmem
      cases hmem
    · exact hc.1 hmem
    · exact hc.2.1 hmem
    · exact hc.2.2.1 hmem
    · exact hc.2.2.2 hmem
  obtain ⟨d, hd⟩ := Option.ne_none_iff_exists'.1 (mt List.getLast?_eq_none_iff.1 hdne)
  have hlast : (numberItem x).2.getLast? = some d := by
    rw [numberItem, List.getLast?_cons, List.getLast?_append, List.getLast?_cons, hd]
    rfl
  have hdigit : d = '-' ∨ d.isDigit = true := hdigits d (List.mem_of_getLast? hd)
  refine ⟨hne, hkey, ⟨by simp [numberItem], fun i hi hc => ?_, ?_, fun c hc => ?_, fun r hr => ?_, fun hi => ?_⟩⟩
  · rcases hc with hc | hc
    · exact absurd (List.mem_of_getElem? hc) (hno (by decide) (by decide))
    · exact absurd (List.mem_of_getElem? hc) (hno (by decide) (by decide))
  · exact fun hl => hno (by decide) (by decide) (List.mem_of_getLast? hl)
  · rcases hc with hc | hc
    · obtain rfl : '(' = c := Option.some.inj hc
      decide
    · obtain rfl : d = c := Option.some.inj (hlast.symm.trans hc)
      rcases hdigit with rfl | hdigit
      · decide
      · exact (isDigit_ne hdigit).1
  · -- the type that is written is `int`
    obtain ⟨key, a⟩ := x
    have hr : a.written.1 ++ ')' :: a.written.2 = "int".toList ++ ')' :: r := (List.cons.inj hr).2
    have hnot : ')' ∉ a.written.1 ∧ ')' ∉ a.written.2 := by
      refine ⟨fun hc => ?_, fun hc => ?_⟩
      · rcases hname _ hc with hc | hc <;> exact absurd hc (by decide)
      · rcases hdigits _ hc with hc | hc <;> exact absurd hc (by decide)
    have hwritten : a.written.1 = "int".toList ∧ a.written.2 = r := by
      have hinj := (List.append_cons_inj_of_notMem hnot.1 hnot.2).1 hr
      exact ⟨hinj.1, hinj.2.2⟩
    cases a with
    | string v => exact h.elim
    | int n =>
        obtain rfl : intToString n = r := hwritten.2
        exact ⟨isInteger_decimal _, by rw [signedValue_intToString]; exact inRange_toInt n⟩
    | number type text => exact absurd hwritten.1 (name_ne_int type)
    | other typeName => exact h.elim
  · exact absurd List.mem_cons_self (not_mem_of_isInteger hi (by decide : '(' ≠ '-') (by decide))

/-- **What is written for integers.** -/
theorem listing_of_str (hint : ∀ x ∈ t.properties.entries, x.2.Integral) (h : t.str = .ok s) :
    (∀ x ∈ t.properties.entries, t.strTypes.find? x.1 = none) ∧
      s = t.name ++ listing (t.properties.entries.map numberItem) := by
  obtain ⟨f, hf, rfl⟩ := exists_of_str h
  have hitem (x : List Char × Any) (hx : x ∈ t.properties.entries) :
      t.strTypes.find? x.1 = none ∧ f x = ',' :: ' ' :: itemText (numberItem x) := by
    obtain ⟨e, he⟩ := hf x hx
    rw [serializeProp_of_integral (hint x hx)] at he
    split at he
    · cases he
    · next hnone => exact ⟨hnone, (Prod.mk.inj (Except.ok.inj he)).1.symm⟩
  refine ⟨fun x hx => (hitem x hx).1, ?_⟩
  rw [listing, List.flatMap_map]
  exact congrArg _ (List.flatMap_congr fun x hx => (hitem x hx).2)

/-! ### Several words in parentheses -/

/-- What is matched is one word in parentheses. -/
theorem eq_of_first_type {r : List Char} (h : first literalTypeRgx s = some r) :
    ∃ w, w ≠ [] ∧ (∀ c ∈ w, isWord c = true) ∧ s = '(' :: (w ++ ')' :: r) := by
  have hmem : r ∈ rests literalTypeRgx s := List.mem_of_mem_head? h
  rw [literalTypeRgx, rests] at hmem
  obtain ⟨s', hs', hmem⟩ := List.mem_flatMap.1 hmem
  rw [rests] at hmem
  obtain ⟨s'', hs'', hmem⟩ := List.mem_flatMap.1 hmem
  have hcls {d : Char} {x y : List Char} (hy : y ∈ rests (.cls (· == d)) x) : x = d :: y := by
    cases x with
    | nil => cases hy
    | cons e x =>
        rw [rests] at hy
        split at hy
        · next he => rw [eq_of_beq he, List.mem_singleton.1 hy]
        · cases hy
  obtain ⟨w, hne, hw, hword⟩ := mem_rests_plus.1 hs''
  refine ⟨w, hne, hword, ?_⟩
  rw [hcls hs', hw, hcls hmem]

/-- Two words in parentheses are no type. -/
theorem search_blank {w m : List Char} (hword : ∀ c ∈ w, isWord c = true) (hm : '(' ∉ m) :
    search literalTypeRgx ('(' :: (w ++ ' ' :: m)) = none := by
  have hfirst : first literalTypeRgx ('(' :: (w ++ ' ' :: m)) = none := by
    by_contra hne
    obtain ⟨r, hr⟩ := Option.ne_none_iff_exists'.1 hne
    obtain ⟨u, -, hu, heq⟩ := eq_of_first_type hr
    have hdrop := congrArg (List.dropWhile isWord) (List.cons.inj heq).2
    rw [List.dropWhile_append_of_pos hword, List.dropWhile_append_of_pos hu] at hdrop
    exact absurd (List.cons.inj hdrop).1 (by decide)
  rw [search, hfirst]
  dsimp only
  cases hs : search literalTypeRgx (w ++ ' ' :: m) with
  | none => rfl
  | some p =>
      obtain ⟨sm, rest⟩ := p
      rcases List.mem_append.1 (search_eq_some hs).1 with h | h
      · exact absurd (hword _ h) (by decide)
      · exact absurd ((List.mem_cons.1 h).resolve_left (by decide)) hm

/-- The name of a type is one word, or has a blank behind the first one. -/
theorem number_name (type : Number) : type = .long ∨ type = .unsigned ∨ type.integral = false ∨
    ∃ w w', type.name = w ++ ' ' :: w' ∧ (∀ c ∈ w, isWord c = true) ∧ '(' ∉ w' := by
  have hword {w : List Char} (h : w.all isWord = true) : ∀ c ∈ w, isWord c = true := List.all_eq_true.1 h
  cases type with
  | long => simp
  | unsigned => simp
  | longLong =>
      exact Or.inr (Or.inr (Or.inr ⟨"long".toList, "long".toList, rfl, hword (by decide), by decide⟩))
  | unsignedLong =>
      exact Or.inr (Or.inr (Or.inr ⟨"unsigned".toList, "long".toList, rfl, hword (by decide), by decide⟩))
  | unsignedLongLong =>
      exact Or.inr (Or.inr (Or.inr ⟨"unsigned".toList, "long long".toList, rfl, hword (by decide), by decide⟩))
  | float => exact Or.inr (Or.inr (Or.inl rfl))
  | double => exact Or.inr (Or.inr (Or.inl rfl))
  | longDouble => exact Or.inr (Or.inr (Or.inl rfl))

/-- **A number with a type of several words is read as a string**, parentheses included. -/
theorem found_of_not_oneWord (h : x.2.Integral) (hx : ¬ x.2.OneWord) :
    ∃ v, found (escape (numberItem x).2) = .string v ∧ '(' ∈ v := by
  obtain ⟨key, a⟩ := x
  have hback : '\\' ∉ (numberItem (key, a)).2 := fun hc => by
    rcases mem_numberItem h hc with hc | hc | hc | hc | hc <;> exact absurd hc (by decide)
  rw [escape_of_not_mem hback]
  cases a with
  | string v => exact h.elim
  | int n => exact absurd trivial hx
  | other typeName => exact h.elim
  | number type text =>
      obtain ⟨hint, z, rfl⟩ := h
      have hsearch : search literalTypeRgx (numberItem (key, .number type (decimal z))).2 = none := by
        rcases number_name type with ht | ht | ht | ⟨w, w', ht, hw, hw'⟩
        · exact absurd (Or.inl ht) hx
        · exact absurd (Or.inr ht) hx
        · rw [ht] at hint
          cases hint
        · have hnot : '(' ∉ w' ++ ')' :: decimal z := by
            simp only [List.mem_append, List.mem_cons, not_or]
            exact ⟨hw', by decide, not_mem_of_isInteger (isInteger_decimal z) (by decide) (by decide)⟩
          have hsplit : (numberItem (key, .number type (decimal z))).2 =
              '(' :: (w ++ ' ' :: (w' ++ ')' :: decimal z)) := by
            simp [numberItem, Any.written, ht]
          rw [hsplit]
          exact search_blank hw hnot
      refine ⟨unescape (numberItem (key, .number type (decimal z))).2, found_of_valueFound ?_, ?_⟩
      · rw [valueFound, hsearch, numberItem, untypedValue_lparent]
        rfl
      · rw [numberItem, unescape_cons (by decide) (by decide) (by decide)]
        exact List.mem_cons_self

/-! ### The theorem -/

/-- The keys are over `[A-Za-z0-9_-]`, and the values are integers. -/
def Integers (t : TypeDesc) : Prop :=
  ∀ x ∈ t.properties.entries, x.1 ≠ [] ∧ (∀ c ∈ x.1, isKeyChar c = true) ∧ x.2.Integral

theorem Integers.goodItem (h : t.Integers) : ∀ x ∈ t.properties.entries.map numberItem, GoodItem x := by
  intro y hy
  obtain ⟨x, hx, rfl⟩ := List.mem_map.1 hy
  obtain ⟨hne, hkey, hint⟩ := h x hx
  exact goodItem_of_integral hne hkey hint

/-- There is no backslash in what is written. -/
theorem Integers.backslash (h : t.Integers) :
    '\\' ∉ listing (t.properties.entries.map numberItem) := by
  intro hmem
  obtain ⟨y, hy, hmem⟩ := List.mem_flatMap.1 hmem
  obtain ⟨x, hx, rfl⟩ := List.mem_map.1 hy
  obtain ⟨-, hkey, hint⟩ := h x hx
  simp only [itemText, List.mem_cons, List.mem_append] at hmem
  rcases hmem with hc | hc | hc | hc | hc
  · exact absurd hc (by decide)
  · exact absurd hc (by decide)
  · exact absurd (hkey _ hc) (by decide)
  · exact absurd hc (by decide)
  · rcases mem_numberItem hint hc with hc | hc | hc | hc | hc <;> exact absurd hc (by decide)

/-- A parenthesis in a string is escaped. -/
theorem backslash_of_serializeProp {e f : List Char} (hv : '(' ∈ v)
    (h : t.serializeProp k (.string v) = .ok (f, e)) : '\\' ∈ f := by
  have hquote {s : List Char} (hs : '\\' ∈ s) : '\\' ∈ quote v s := by
    unfold quote
    split
    · simp [hs]
    · exact hs
  have hstring : '\\' ∈ serializedString v := by
    rw [serializedString_eq]
    exact hquote (List.mem_flatMap.2 ⟨'(', hv, by decide⟩)
  unfold serializeProp getSerializedStringValue at h
  cases ht : t.strTypes.find? k with
  | none =>
      rw [ht] at h
      obtain ⟨rfl, -⟩ := Prod.mk.inj (Except.ok.inj h)
      simp [field, hstring]
  | some w =>
      rw [ht] at h
      obtain ⟨rfl, -⟩ := Prod.mk.inj (Except.ok.inj h)
      simp [field, hstring]

/-- **A name of several words is escaped the second time.** -/
theorem oneWord_of_fixedPoint (hname : GoodName t.name) (h : t.Integers) (hfix : FixedPoint t)
    (hx : x ∈ t.properties.entries) : x.2.OneWord := by
  obtain ⟨s, u, hs, hu, -, hus⟩ := hfix
  obtain ⟨hkey, hkeys, hint⟩ := h x hx
  obtain ⟨-, rfl⟩ := listing_of_str (fun y hy => (h y hy).2.2) hs
  by_contra hword
  have hplain : PlainName t.name :=
    ⟨hname.ne_nil, hname.coma, fun hl => hname.space (List.mem_of_getLast? hl),
      fun hl => hname.backslash (List.mem_of_getLast? hl)⟩
  -- the value is found to be a string
  obtain ⟨v, hv, hparen⟩ := found_of_not_oneWord hint hword
  have hfind : u.properties.find? x.1 = some (.string v) := by
    -- the keys are compared as texts, and as keys of the map
    have hentry : (t.properties.entries.find? fun y => y.1 = x.1) = some x := by
      rw [← OrdMap.find?_entries hx]
      exact congrArg (fun p => List.find? p _) (funext fun y => decide_eq_decide.2 Iff.rfl)
    have hsame : ((fun y : Item => decide (y.1 = x.1)) ∘ (markItem ∘ numberItem)) =
        fun y => decide (y.1 = x.1) := rfl
    rw [(find?_of_parse hu x.1).1, (items_listing hplain h.goodItem).2, List.map_map, List.find?_map, hsame,
      hentry, ← hv]
    rfl
  -- and is written with a backslash
  obtain ⟨f, hf, heq⟩ := exists_of_str hus
  obtain ⟨e, he⟩ := hf _ (OrdMap.find?_eq_some.1 hfind)
  have hback : '\\' ∈ f (x.1, .string v) := backslash_of_serializeProp hparen he
  have hmem : '\\' ∈ t.name ++ listing (t.properties.entries.map numberItem) := by
    rw [heq]
    exact List.mem_append_right _ (List.mem_flatMap.2 ⟨_, OrdMap.find?_eq_some.1 hfind, hback⟩)
  exact (List.mem_append.1 hmem).elim hname.backslash h.backslash

/-- Without a name, the first item is taken for it. -/
theorem name_of_listing {y : Item} {ys : List Item} (h : ∀ x ∈ y :: ys, GoodItem x) :
    (nameAndTokens (listing (y :: ys))).1 = itemText (markItem y) := by
  have hpieces := pieces_listing h List.not_mem_nil (s := []) (by simp)
  rw [← escape_listing h, List.nil_append] at hpieces
  have hlast : (pieces comaRgx (escape (listing (y :: ys)))).getLast? ≠ some [] := by
    rw [hpieces, List.getLast?_cons_of_ne_nil (by simp)]
    intro hl
    obtain ⟨x, -, hx⟩ := List.mem_map.1 (List.mem_of_getLast? hl)
    simp [itemText] at hx
  rw [nameAndTokens, tokens_of_getLast? hlast, hpieces, List.map_cons, findName, if_pos rfl, findName,
    if_neg (by simp [itemText])]

theorem not_fixedPoint_of_nil (hname : t.name = []) (h : t.Integers) (hne : t.properties.entries ≠ []) :
    ¬ FixedPoint t := by
  rintro ⟨s, u, hs, hu, -, hus⟩
  obtain ⟨-, rfl⟩ := listing_of_str (fun y hy => (h y hy).2.2) hs
  obtain ⟨f, -, heq⟩ := exists_of_str hus
  obtain ⟨-, rfl⟩ := parse_eq_ok.1 hu
  have hgood := h.goodItem
  obtain ⟨x, xs, hxs⟩ := List.exists_cons_of_ne_nil hne
  rw [hname, List.nil_append, hxs, List.map_cons] at heq
  rw [hxs, List.map_cons] at hgood
  -- the text begins with a comma, and the name that is found does not
  have hhead := congrArg List.head? heq
  rw [addTokens, ofName, name_of_listing hgood] at hhead
  obtain ⟨c, key, hkey⟩ := List.exists_cons_of_ne_nil (hgood _ List.mem_cons_self).key_ne_nil
  have hc : isKeyChar c = true := (hgood _ List.mem_cons_self).key c (hkey ▸ List.mem_cons_self)
  rw [itemText, markItem, hkey] at hhead
  obtain rfl : ',' = c := Option.some.inj hhead
  exact absurd hc (by decide)

/-! ### One word in parentheses -/

/-- There is nothing to escape in a number. -/
theorem serializedString_decimal (z : ℤ) : serializedString (decimal z) = decimal z := by
  have hno {c : Char} (hc : c ≠ '-') (hd : c.isDigit = false) : c ∉ decimal z :=
    not_mem_of_isInteger (isInteger_decimal z) hc hd
  have hquoted : quoted (decimal z) = false := by
    simp [quoted, hno (by decide : ' ' ≠ '-') (by decide), hno (by decide : ',' ≠ '-') (by decide),
      hno (by decide : '=' ≠ '-') (by decide)]
  have hcode : (decimal z).flatMap writtenCode = (decimal z).flatMap fun c => [c] := by
    refine List.flatMap_congr fun c hc => ?_
    have hne {d : Char} (hd : d ≠ '-') (hd' : d.isDigit = false) : c ≠ d := fun h => hno hd hd' (h ▸ hc)
    rw [writtenCode, code, if_neg (hne (by decide) (by decide)), if_neg (hne (by decide) (by decide)),
      if_neg (hne (by decide) (by decide)), if_neg (hne (by decide) (by decide))]
  rw [serializedString_eq, quote, hquoted, if_neg (by decide), hcode, List.flatMap_singleton']

theorem plainString_decimal (z : ℤ) : PlainString (decimal z) := by
  have hno {c : Char} (hc : c ≠ '-') (hd : c.isDigit = false) : c ∉ decimal z :=
    not_mem_of_isInteger (isInteger_decimal z) hc hd
  exact ⟨hno (by decide) (by decide), fun h => hno (by decide : 'C' ≠ '-') (by decide) (h.subset (by decide)),
    fun h => hno (by decide : 'E' ≠ '-') (by decide) (h.subset (by decide)),
    fun h => hno (by decide) (by decide) (List.mem_of_getLast? h)⟩

/-- **A number with a type of one word is written as a string with that type would be.** -/
theorem call_of_oneWord (hne : x.1 ≠ []) (hkey : ∀ c ∈ x.1, isKeyChar c = true) (h : x.2.Integral)
    (hword : x.2.OneWord) :
    GoodCall (x.1, x.2.arg) ∧ x.2.arg.Plain ∧
      itemText (numberItem x) = label (x.1, x.2.arg) ++ x.2.arg.text := by
  obtain ⟨key, a⟩ := x
  cases a with
  | string v => exact h.elim
  | int n =>
      refine ⟨⟨hne, hkey, by rintro w v ⟨⟩⟩, trivial, ?_⟩
      simp [itemText, numberItem, Any.written, Any.arg, label, Arg.typeName, Arg.text]
  | other typeName => exact h.elim
  | number type text =>
      obtain ⟨-, z, rfl⟩ := h
      refine ⟨⟨hne, hkey, ?_⟩, plainString_decimal z, ?_⟩
      · rintro w v ⟨⟩
        have hall : type.name ≠ [] ∧ type.name.all isWord = true := by
          rcases hword with rfl | rfl <;> decide
        exact ⟨hall.1, List.all_eq_true.1 hall.2, name_ne_int type⟩
      · simp [itemText, numberItem, Any.written, Any.arg, label, Arg.typeName, Arg.text,
          serializedString_decimal]

/-- **Names of one word are read and written again.** -/
theorem fixedPoint_of_oneWord (hname : GoodName t.name) (h : t.Integers)
    (hword : ∀ x ∈ t.properties.entries, t.strTypes.find? x.1 = none ∧ x.2.OneWord) : FixedPoint t := by
  have hcall (x : List Char × Any) (hx : x ∈ t.properties.entries) :=
    call_of_oneWord (h x hx).1 (h x hx).2.1 (h x hx).2.2 (hword x hx).2
  have hentries : (t.properties.map Any.arg).entries = t.properties.entries.map fun x => (x.1, x.2.arg) := rfl
  obtain ⟨s, hs⟩ : ∃ s, t.str = .ok s := by
    refine exists_str fun k w a hw ha => ?_
    have hnone := (hword _ (OrdMap.find?_eq_some.1 ha)).1
    rw [hw] at hnone
    cases hnone
  have hfields : s = t.name ++ fields (t.properties.map Any.arg).entries := by
    rw [(listing_of_str (fun x hx => (h x hx).2.2) hs).2, listing, fields, hentries, List.flatMap_map,
      List.flatMap_map]
    exact congrArg _ (List.flatMap_congr fun x hx => by rw [(hcall x hx).2.2])
  obtain ⟨u, hu, -, -, he, hus⟩ := parse_plain (t.properties.map Any.arg) hname
    (by
      rw [hentries, List.forall_mem_map]
      exact fun x hx => (hcall x hx).1)
    (by
      rw [hentries, List.forall_mem_map]
      exact fun x hx => (hcall x hx).2.1)
  rw [← hfields] at hu hus
  exact ⟨s, u, hs, hu, he, hus⟩

/-- **When serialisation is a fixed point**, for a name that is no separator and integers of all types. -/
theorem fixedPoint_iff (hcoma : ',' ∉ t.name) (hspace : ' ' ∉ t.name) (hback : '\\' ∉ t.name)
    (h : t.Integers) : FixedPoint t ↔ (t.name = [] → t.properties.entries = []) ∧
      ∀ x ∈ t.properties.entries, t.strTypes.find? x.1 = none ∧ x.2.OneWord := by
  constructor
  · intro hfix
    have hnil (hname : t.name = []) : t.properties.entries = [] := by
      by_contra hne
      exact not_fixedPoint_of_nil hname h hne hfix
    refine ⟨hnil, fun x hx => ⟨?_, ?_⟩⟩
    · obtain ⟨s, u, hs, -⟩ := hfix
      exact (listing_of_str (fun y hy => (h y hy).2.2) hs).1 x hx
    · refine oneWord_of_fixedPoint ⟨fun hname => ?_, hcoma, hspace, hback⟩ h hfix hx
      rw [hnil hname] at hx
      cases hx
  · rintro ⟨hnil, hword⟩
    by_cases hname : t.name = []
    · have hstr : t.str = .ok [] := by
        rw [str, serialize, hnil hname, hname]
        rfl
      exact ⟨[], ofName [], hstr, rfl, rfl, rfl⟩
    · exact fixedPoint_of_oneWord ⟨hname, hcoma, hspace, hback⟩ h hword

/-- Numbers of the types with a name of one word. -/
def numbers : TypeDesc :=
  (((ofName "caps".toList).setProp "width".toList (.int (-320))).setProp "offset".toList
    (.number .long (decimal (-7)))).setProp "size".toList (.number .unsigned (decimal 4096))

theorem integers_numbers : numbers.Integers := by
  intro x hx
  have hmem : x ∈ [("offset".toList, Any.number .long (decimal (-7))),
      ("size".toList, .number .unsigned (decimal 4096)), ("width".toList, .int (-320))] := hx
  simp only [List.mem_cons, List.not_mem_nil, or_false] at hmem
  rcases hmem with rfl | rfl | rfl
  · exact ⟨by decide, List.all_eq_true.1 (by decide), rfl, -7, rfl⟩
  · exact ⟨by decide, List.all_eq_true.1 (by decide), rfl, 4096, rfl⟩
  · exact ⟨by decide, List.all_eq_true.1 (by decide), trivial⟩

theorem numbers_fixedPoint : FixedPoint numbers := by
  refine (fixedPoint_iff (by decide) (by decide) (by decide) integers_numbers).2 ⟨by decide, fun x hx => ?_⟩
  have hmem : x ∈ [("offset".toList, Any.number .long (decimal (-7))),
      ("size".toList, .number .unsigned (decimal 4096)), ("width".toList, .int (-320))] := hx
  simp only [List.mem_cons, List.not_mem_nil, or_false] at hmem
  rcases hmem with rfl | rfl | rfl
  · exact ⟨rfl, Or.inl rfl⟩
  · exact ⟨rfl, Or.inr rfl⟩
  · exact ⟨rfl, trivial⟩

/-- A `long long`. -/
def wide : TypeDesc := (ofName "caps".toList).setProp "k".toList (.number .longLong (decimal 5))

/-- **A `long long` is read as a string**, and then written as one. -/
theorem wide_not_fixedPoint : wide.Integers ∧ wide.str = .ok "caps, k=(long long)5".toList ∧
    (∃ u, parse "caps, k=(long long)5".toList = .ok u ∧ u.parsingErrors = [] ∧
      u.str = .ok "caps, k=(string)\"\\(long long\\)5\"".toList) ∧ ¬ FixedPoint wide := by
  have hstr : wide.str = .ok "caps, k=(long long)5".toList := rfl
  have hback : ∃ u, parse "caps, k=(long long)5".toList = .ok u ∧ u.parsingErrors = [] ∧
      u.str = .ok "caps, k=(string)\"\\(long long\\)5\"".toList := ⟨_, rfl, rfl, rfl⟩
  refine ⟨fun x hx => ?_, hstr, hback, ?_⟩
  · obtain rfl : x = ("k".toList, .number .longLong (decimal 5)) := List.mem_singleton.1 hx
    exact ⟨by decide, List.all_eq_true.1 (by decide), rfl, 5, rfl⟩
  · rintro ⟨s, u, hs, hu, -, hus⟩
    obtain rfl := Except.ok.inj (hs.symm.trans hstr)
    obtain ⟨v, hv, -, hvs⟩ := hback
    obtain rfl := Except.ok.inj (hu.symm.trans hv)
    exact absurd (Except.ok.inj (hus.symm.trans hvs)) (by decide)

end TypeDesc

end Shmdata

/-
**Where the value and the type of a key come from.**

`Type` keeps the values of its properties in one map and the names of their types in another.  Both are filled
by `emplace`, by the items of the text that is parsed and then by the calls of `set_prop`; an entry that is
there already stays.  So the value of a key is that of the first item or call for it, and its type is that of
the first one that names a type.  These are the same one, unless a key has first been given a value without a
type: then the later type is joined to the earlier value, and `Type::str` prints the two together, or throws
when the value is no string.  The texts are those in which the regular expressions are searched for to the end.

Main definitions:

* `Shmdata.TypeDesc.Entry`, `Shmdata.TypeDesc.Setter` — what an item or a call gives to a key;
* `Shmdata.TypeDesc.history` — the entries of a text and of the calls that follow;
* `Shmdata.TypeDesc.Together` — each type was given with the value of its key;
* `Shmdata.TypeDesc.TypedFirst` — no type is given to a key that has a value without a type.

Main results:

* `Shmdata.TypeDesc.find?_of_history` — the maps in terms of the history;
* `Shmdata.TypeDesc.together_iff` — **value and type belong together exactly if the type came first**.
-/

import Shmdata.TypeItems

set_option relaxedAutoImplicit false
set_option autoImplicit false

namespace Shmdata

open Regex

namespace TypeDesc

/-- What an item or a call of `set_prop` gives to a key. -/
structure Entry where
  key : List Char
  value : Any
  type : Option (List Char)
  deriving DecidableEq

/-- The overloads of `set_prop`: a value of any type, or a string with a type of its own. -/
inductive Setter
  | prop (key : List Char) (value : Any)
  | typed (key customType value : List Char)
  deriving DecidableEq

def Setter.apply (t : TypeDesc) : Setter → TypeDesc
  | .prop key value => t.setProp key value
  | .typed key customType value => t.setPropTyped key customType value

def Setter.entry : Setter → Entry
  | .prop key value => ⟨key, value, none⟩
  | .typed key customType value => ⟨key, .string value, some customType⟩

/-- What an item gives. -/
def itemEntry (x : Item) : Entry := ⟨x.1, found x.2, typeFound x.2⟩

/-- What the items of a text and the calls after it give, one after the other. -/
def history (str : List Char) (calls : List Setter) : List Entry :=
  (items str).map itemEntry ++ calls.map Setter.entry

/-- The type of a key was given with its value, by the first entry for the key, and `Type::str` returns. -/
structure Together (t : TypeDesc) (es : List Entry) : Prop where
  types : ∀ k w, t.strTypes.find? k = some w → ∃ pre post v, es = pre ++ ⟨k, .string v, some w⟩ :: post ∧
    (∀ e ∈ pre, e.key ≠ k) ∧ t.properties.find? k = some (.string v)
  str : ∃ s, t.str = .ok s

/-- The first entry for a key names a type if any entry for it does. -/
def TypedFirst (es : List Entry) : Prop :=
  ∀ e ∈ es, e.type ≠ none → ∀ x ∈ es.find? fun y => y.key = e.key, x.type ≠ none

instance (es : List Entry) : Decidable (TypedFirst es) := inferInstanceAs (Decidable (∀ e ∈ es, _))

variable {str k w : List Char} {calls : List Setter} {es : List Entry} {e x : Entry} {t : TypeDesc}

/-! ### The maps -/

/-- The value of a key is that of its first entry, and its type that of its first entry with a type. -/
theorem find?_of_history (h : parse str = .ok t) (calls : List Setter) (k : List Char) :
    let u := calls.foldl Setter.apply t
    u.properties.find? k = ((history str calls).find? fun e => e.key = k).map Entry.value ∧
      u.strTypes.find? k = (history str calls).findSome? fun e => if e.key = k then e.type else none := by
  have hloop (t : TypeDesc) :
      (calls.foldl Setter.apply t).properties.find? k =
          (t.properties.find? k).or (((calls.map Setter.entry).find? fun e => e.key = k).map Entry.value) ∧
        (calls.foldl Setter.apply t).strTypes.find? k =
          (t.strTypes.find? k).or
            ((calls.map Setter.entry).findSome? fun e => if e.key = k then e.type else none) := by
    induction calls generalizing t with
    | nil => simp
    | cons c calls ih =>
        obtain ⟨hp, ht⟩ := ih (c.apply t)
        rw [List.foldl_cons, hp, ht, List.map_cons, List.find?_cons, List.findSome?_cons]
        cases c with
        | prop key value =>
            simp only [Setter.apply, setProp, Setter.entry, OrdMap.find?_emplace, Option.or_assoc]
            by_cases hk : key = k
            · simp [hk]
            · simp [hk]
        | typed key customType value =>
            simp only [Setter.apply, setPropTyped, Setter.entry, OrdMap.find?_emplace, Option.or_assoc]
            by_cases hk : key = k
            · simp [hk]
            · simp [hk]
  obtain ⟨hp, ht⟩ := find?_of_parse h k
  obtain ⟨hp', ht'⟩ := hloop t
  refine ⟨hp'.trans ?_, ht'.trans ?_⟩
  · rw [hp, history, List.find?_append, List.find?_map, List.find?_map, Option.map_or, Option.map_map,
      Option.map_map]
    rfl
  · rw [ht, history, List.findSome?_append, List.findSome?_map, List.findSome?_map]
    rfl

/-- A type is given with a string. -/
theorem value_of_type {m w : List Char} {a : Any} (h : valueFound m = .ok a) (hw : typeFound m = some w) :
    ∃ v, a = .string v := by
  unfold valueFound at h
  unfold typeFound at hw
  cases hs : search literalTypeRgx m with
  | none =>
      rw [hs] at hw
      cases hw
  | some p =>
      obtain ⟨sm, rest⟩ := p
      rw [hs] at h hw
      by_cases hint : sm = "(int)".toList
      · simp [hint] at hw
      · simp only [if_neg hint] at h
        cases hu : untypedValue m with
        | error e =>
            rw [hu] at h
            cases h
        | ok b =>
            rw [hu] at h
            exact ⟨_, (Except.ok.inj h).symm⟩

theorem string_of_history (h : parse str = .ok t) (he : e ∈ history str calls) (hw : e.type = some w) :
    ∃ v, e.value = .string v := by
  rcases List.mem_append.1 he with he | he
  · obtain ⟨x, hx, rfl⟩ := List.mem_map.1 he
    obtain ⟨a, ha⟩ := (parse_eq_ok.1 h).1 x hx
    obtain ⟨v, rfl⟩ := value_of_type ha hw
    exact ⟨v, found_of_valueFound ha⟩
  · obtain ⟨c, -, rfl⟩ := List.mem_map.1 he
    cases c with
    | prop key value => cases hw
    | typed key customType value => exact ⟨value, rfl⟩

/-! ### The theorem -/

theorem exists_serializeProp {k : List Char} {a : Any} (h : ∀ w, t.strTypes.find? k = some w → ∃ v, a = .string v) :
    ∃ p, t.serializeProp k a = .ok p := by
  unfold serializeProp
  cases ht : t.strTypes.find? k with
  | some w =>
      obtain ⟨v, rfl⟩ := h w ht
      exact ⟨_, rfl⟩
  | none => cases a <;> exact ⟨_, rfl⟩

/-- `Type::str` returns if every key that has a type has a string. -/
theorem exists_str (h : ∀ k w a, t.strTypes.find? k = some w → t.properties.find? k = some a →
    ∃ v, a = .string v) : ∃ s, t.str = .ok s := by
  have hloop (l : List (List Char × Any)) (hl : ∀ x ∈ l, x ∈ t.properties.entries) (r : List Char × List Char) :
      ∃ r', l.foldlM (fun res x => (t.serializeProp x.1 x.2).map fun y => (res.1 ++ y.1, res.2 ++ y.2)) r =
        .ok r' := by
    induction l generalizing r with
    | nil => exact ⟨r, rfl⟩
    | cons x l ih =>
        have hx := OrdMap.find?_eq_some.2 (hl x List.mem_cons_self)
        obtain ⟨p, hp⟩ := exists_serializeProp fun w hw => h x.1 w x.2 hw hx
        rw [List.foldlM_cons, hp]
        exact ih (fun y hy => hl y (List.mem_cons_of_mem _ hy)) _
  obtain ⟨r, hr⟩ := hloop t.properties.entries (fun _ hx => hx) (t.name, [])
  exact ⟨r.1, by rw [str, serialize, hr]; rfl⟩

/-- The first entry for a key, and those before it. -/
theorem exists_of_find? (h : (es.find? fun y => y.key = k) = some x) :
    ∃ pre post, es = pre ++ x :: post ∧ (∀ e ∈ pre, e.key ≠ k) ∧ x.key = k := by
  obtain ⟨hx, pre, post, hes, hpre⟩ := List.find?_eq_some_iff_append.1 h
  exact ⟨pre, post, hes, fun e he => by simpa using hpre e he, by simpa using hx⟩

/-- **Value and type belong together exactly if the type came first**, after every text that is parsed and all
calls of `set_prop`. -/
theorem together_iff (h : parse str = .ok t) (calls : List Setter) :
    Together (calls.foldl Setter.apply t) (history str calls) ↔ TypedFirst (history str calls) := by
  have hmaps := find?_of_history h calls
  have hstring {e : Entry} {w : List Char} (he : e ∈ history str calls) (hw : e.type = some w) :
      ∃ v, e.value = .string v := string_of_history h he hw
  generalize history str calls = es at hmaps hstring ⊢
  generalize calls.foldl Setter.apply t = u at hmaps ⊢
  constructor
  · rintro ⟨htypes, -⟩ e he hne x hx
    obtain ⟨-, ht⟩ := hmaps e.key
    have hsome : (u.strTypes.find? e.key).isSome = true := by
      rw [ht]
      exact List.findSome?_isSome_iff.2 ⟨e, he, by simpa [Option.isSome_iff_ne_none] using hne⟩
    obtain ⟨w, hw⟩ := Option.isSome_iff_exists.1 hsome
    obtain ⟨pre, post, v, rfl, hpre, -⟩ := htypes e.key w hw
    have hnone : (pre.find? fun y => y.key = e.key) = none :=
      List.find?_eq_none.2 fun y hy => by simpa using hpre y hy
    rw [List.find?_append, hnone, Option.none_or, List.find?_cons] at hx
    simp only [decide_true, Option.mem_some_iff] at hx
    rw [← hx]
    simp
  · intro hfirst
    have htypes (k w : List Char) (hw : u.strTypes.find? k = some w) :
        ∃ pre post v, es = pre ++ ⟨k, .string v, some w⟩ :: post ∧ (∀ e ∈ pre, e.key ≠ k) ∧
          u.properties.find? k = some (.string v) := by
      obtain ⟨hp, ht⟩ := hmaps k
      -- there is an entry with a type, so the first entry has one
      obtain ⟨e, he, hew⟩ := List.exists_of_findSome?_eq_some (ht ▸ hw)
      rw [Option.ite_none_right_eq_some] at hew
      obtain ⟨hek, hew⟩ := hew
      have hsome : (es.find? fun y => y.key = k).isSome = true :=
        List.find?_isSome.2 ⟨e, he, by simpa using hek⟩
      obtain ⟨x, hx⟩ := Option.isSome_iff_exists.1 hsome
      have hxw := hfirst e he (by rw [hew]; simp) x (hek ▸ hx)
      obtain ⟨w', hw'⟩ := Option.ne_none_iff_exists'.1 hxw
      obtain ⟨pre, post, rfl, hpre, hxk⟩ := exists_of_find? hx
      obtain ⟨v, hv⟩ := hstring (by simp) hw'
      have hnone : (pre.findSome? fun e => if e.key = k then e.type else none) = none :=
        List.findSome?_eq_none_iff.2 fun e he => if_neg (hpre e he)
      rw [List.findSome?_append, hnone, Option.none_or, List.findSome?_cons, if_pos hxk, hw'] at ht
      obtain rfl : w' = w := Option.some.inj (ht.symm.trans hw)
      obtain ⟨xk, xv, xt⟩ := x
      obtain rfl : xk = k := hxk
      obtain rfl : xv = .string v := hv
      obtain rfl : xt = some w' := hw'
      refine ⟨pre, post, v, rfl, hpre, ?_⟩
      rw [hp, hx]
      rfl
    refine ⟨htypes, exists_str fun k w a hw ha => ?_⟩
    obtain ⟨-, -, v, -, -, hv⟩ := htypes k w hw
    exact ⟨v, Option.some.inj (ha.symm.trans hv)⟩

/-- A type given with the value, to a key that had none. -/
def framerate : List Setter :=
  [.typed "framerate".toList "fraction".toList "30/1".toList, .prop "framerate".toList (.int 30)]

theorem framerate_together : ∃ t, parse "video/x-raw, format=(string)I420".toList = .ok t ∧
    Together (framerate.foldl Setter.apply t) (history "video/x-raw, format=(string)I420".toList framerate) := by
  have hfirst : TypedFirst (history "video/x-raw, format=(string)I420".toList framerate) := by decide +kernel
  have hok : (parse "video/x-raw, format=(string)I420".toList).toOption.isSome = true := by decide +kernel
  cases hp : parse "video/x-raw, format=(string)I420".toList with
  | error e =>
      rw [hp] at hok
      cases hok
  | ok t => exact ⟨t, rfl, (together_iff hp _).2 hfirst⟩

/-- **A type given to a key that has an `int`** is kept, and its value is not; then `Type::str` throws. -/
theorem lateType_not_together :
    (∃ t, parse "video/x-raw, k=1, k=(fraction)30/1".toList = .ok t ∧
      t.strTypes.find? "k".toList = some "fraction".toList ∧ t.get "k".toList = some (.int 1) ∧
      t.str = .error .badAnyCast ∧
      ¬ Together t (history "video/x-raw, k=1, k=(fraction)30/1".toList [])) ∧
    ∃ t, parse "video/x-raw, k=1".toList = .ok t ∧
      ¬ Together ([Setter.typed "k".toList "fraction".toList "30/1".toList].foldl Setter.apply t)
        (history "video/x-raw, k=1".toList [.typed "k".toList "fraction".toList "30/1".toList]) := by
  have hthrows {u : TypeDesc} {es : List Entry} (h : u.str = .error .badAnyCast) : ¬ Together u es := by
    rintro ⟨-, s, hs⟩
    rw [h] at hs
    cases hs
  exact ⟨⟨_, rfl, rfl, rfl, rfl, hthrows rfl⟩, _, rfl, hthrows rfl⟩

end TypeDesc

end Shmdata

/-
**The tables of System V IPC objects.**

The kernel keeps one table of shared memory segments and one of semaphore sets.  An object has an
identifier, which is a number that no other object of the table has, and a key, which no other object has
either unless it is `IPC_PRIVATE`.  Both facts are part of the type, so that no other table can be built.

Which identifier a new object gets, and whether there is room for it, is decided by the kernel: the call
is given the identifier it gets when there is room, and fails when that one is taken.

* `SysV.IpcObject`, `SysV.IpcTable` — the objects and their tables;
* `SysV.IpcTable.create` — the call with `IPC_CREAT | IPC_EXCL`, and `SysV.IpcTable.get` — the call
  without flags;
* `SysV.IpcTable.remove` — `IPC_RMID`;
* `SysV.IpcTable.create_eq_some` — **when an object is created**;
* `SysV.IpcTable.lookup_remove` — a key is free again once its object is removed.
-/

import Mathlib.Data.Int.Notation
import Mathlib.Tactic.Common

set_option relaxedAutoImplicit false
set_option autoImplicit false

namespace SysV

/-- The key `IPC_PRIVATE`, for which every call makes a new object. -/
def ipcPrivate : ℤ := 0

/-- An object: a segment of `size` bytes, or a set of `size` semaphores, with its permission bits. -/
structure IpcObject where
  id : ℕ
  key : ℤ
  size : ℕ
  mode : ℕ
  deriving DecidableEq

/-- The objects of one kind. -/
structure IpcTable where
  objects : List IpcObject
  ids : ∀ o ∈ objects, ∀ o' ∈ objects, o.id = o'.id → o = o'
  keys : ∀ o ∈ objects, ∀ o' ∈ objects, o.key = o'.key → o.key ≠ ipcPrivate → o = o'

namespace IpcTable

variable {t : IpcTable} {o : IpcObject} {key : ℤ} {size mode id : ℕ} {room : Option ℕ}

/-- The table without objects. -/
def empty : IpcTable := ⟨[], by simp, by simp⟩

/-- No object has the identifier. -/
def Free (t : IpcTable) (id : ℕ) : Prop := ∀ o ∈ t.objects, o.id ≠ id

instance (t : IpcTable) (id : ℕ) : Decidable (t.Free id) :=
  inferInstanceAs (Decidable (∀ o ∈ t.objects, _))

/-- The object with a given identifier. -/
def find (t : IpcTable) (id : ℕ) : Option IpcObject := t.objects.find? fun o => o.id = id

/-- The object that a key leads to. -/
def lookup (t : IpcTable) (key : ℤ) : Option IpcObject :=
  if key = ipcPrivate then none else t.objects.find? fun o => o.key = key

theorem find_eq_some : t.find id = some o ↔ o ∈ t.objects ∧ o.id = id := by
  constructor
  · intro h
    exact ⟨List.mem_of_find?_eq_some h, by simpa using List.find?_some h⟩
  · rintro ⟨hmem, rfl⟩
    obtain ⟨o', ho'⟩ := Option.isSome_iff_exists.1
      (List.find?_isSome (p := fun o' : IpcObject => o'.id = o.id) |>.2 ⟨o, hmem, by simp⟩)
    have hid : o'.id = o.id := by simpa using List.find?_some ho'
    rw [find, ho', t.ids o' (List.mem_of_find?_eq_some ho') o hmem hid]

theorem lookup_eq_none : t.lookup key = none ↔ key = ipcPrivate ∨ ∀ o ∈ t.objects, o.key ≠ key := by
  by_cases hp : key = ipcPrivate
  · simp [lookup, hp]
  · simp [lookup, hp]

/-- A new object. -/
def add (t : IpcTable) (o : IpcObject) (hid : t.Free o.id) (hkey : t.lookup o.key = none) :
    IpcTable where
  objects := o :: t.objects
  ids := by
    intro a ha b hb h
    rcases List.mem_cons.1 ha with ha' | ha' <;> rcases List.mem_cons.1 hb with hb' | hb'
    · rw [ha', hb']
    · exact absurd (ha' ▸ h.symm) (hid b hb')
    · exact absurd (hb' ▸ h) (hid a ha')
    · exact t.ids a ha' b hb' h
  keys := by
    have hnew (a : IpcObject) (ha : a ∈ t.objects) (h : a.key = o.key) : o.key = ipcPrivate :=
      (lookup_eq_none.1 hkey).resolve_right fun hn => hn a ha h
    intro a ha b hb h hp
    rcases List.mem_cons.1 ha with ha' | ha' <;> rcases List.mem_cons.1 hb with hb' | hb'
    · rw [ha', hb']
    · exact absurd (ha' ▸ hnew b hb' (ha' ▸ h.symm)) hp
    · exact absurd (h.trans (hb' ▸ hnew a ha' (hb' ▸ h))) hp
    · exact t.keys a ha' b hb' h hp

/-- The call with `IPC_CREAT | IPC_EXCL` and the permission bits `mode`.  `room` is the identifier that the
kernel has for a new object, if it has room for one. -/
def create (t : IpcTable) (key : ℤ) (size mode : ℕ) (room : Option ℕ) : IpcTable × Option ℕ :=
  match room with
  | some id =>
      if h : t.lookup key = none ∧ 0 < size ∧ t.Free id then
        (t.add ⟨id, key, size, mode⟩ h.2.2 h.1, some id)
      else (t, none)
  | none => (t, none)

/-- The call without flags.  The permission bits of an object made for `IPC_PRIVATE` are all clear;
`permitted` tells whether those of an object that exists let the process in. -/
def get (t : IpcTable) (key : ℤ) (size : ℕ) (permitted : Bool) (room : Option ℕ) :
    IpcTable × Option ℕ :=
  if key = ipcPrivate then t.create key size 0 room
  else
    match t.lookup key with
    | some o => (t, if size ≤ o.size ∧ permitted = true then some o.id else none)
    | none => (t, none)

/-- `IPC_RMID`. -/
def remove (t : IpcTable) (id : ℕ) : IpcTable where
  objects := t.objects.filter fun o => o.id ≠ id
  ids := fun a ha b hb => t.ids a (List.mem_filter.1 ha).1 b (List.mem_filter.1 hb).1
  keys := fun a ha b hb => t.keys a (List.mem_filter.1 ha).1 b (List.mem_filter.1 hb).1

/-- An object is created when its key is free, its size is not `0` and there is room. -/
theorem create_eq_some :
    (t.create key size mode room).2 = some id ↔
      t.lookup key = none ∧ 0 < size ∧ t.Free id ∧ room = some id := by
  unfold create
  cases room with
  | none => simp
  | some i =>
      simp only [Option.some.injEq]
      constructor
      · intro h
        split at h
        · next hc =>
            obtain rfl : i = id := by simpa using h
            exact ⟨hc.1, hc.2.1, hc.2.2, rfl⟩
        · cases h
      · rintro ⟨h1, h2, h3, rfl⟩
        rw [dif_pos ⟨h1, h2, h3⟩]

/-- What is created is added to the table. -/
theorem objects_create (h : (t.create key size mode room).2 = some id) :
    (t.create key size mode room).1.objects = ⟨id, key, size, mode⟩ :: t.objects := by
  obtain ⟨h1, h2, h3, rfl⟩ := create_eq_some.1 h
  simp only [create, dif_pos (And.intro h1 (And.intro h2 h3))]
  rfl

theorem create_of_none (h : (t.create key size mode room).2 = none) :
    (t.create key size mode room).1 = t := by
  unfold create at h ⊢
  cases room with
  | none => rfl
  | some i =>
      simp only at h ⊢
      split at h
      · cases h
      · next hc => rw [dif_neg hc]

/-- Creation keeps what is there. -/
theorem mem_create (h : o ∈ t.objects) : o ∈ (t.create key size mode room).1.objects := by
  cases hid : (t.create key size mode room).2 with
  | none =>
      rw [create_of_none hid]
      exact h
  | some id =>
      rw [objects_create hid]
      exact List.mem_cons_of_mem _ h

/-- The call for a key other than `IPC_PRIVATE`, without flags, changes nothing. -/
theorem get_of_ne {permitted : Bool} (h : key ≠ ipcPrivate) : (t.get key size permitted room).1 = t := by
  rw [get, if_neg h]
  split <;> rfl

/-- The call without flags keeps what is there. -/
theorem mem_get {permitted : Bool} (h : o ∈ t.objects) : o ∈ (t.get key size permitted room).1.objects := by
  by_cases hp : key = ipcPrivate
  · rw [get, if_pos hp]
    exact mem_create h
  · rw [get_of_ne hp]
    exact h

theorem find_create (h : (t.create key size mode room).2 = some id) :
    (t.create key size mode room).1.find id = some ⟨id, key, size, mode⟩ :=
  find_eq_some.2 ⟨by rw [objects_create h]; exact List.mem_cons_self .., rfl⟩

theorem mem_remove : o ∈ (t.remove id).objects ↔ o ∈ t.objects ∧ o.id ≠ id := by
  simp [remove]

theorem find_remove : (t.remove id).find id = none := by
  refine List.find?_eq_none.2 fun o ho => ?_
  simpa using (mem_remove.1 ho).2

theorem find_remove_of_ne {n : ℕ} (h : n ≠ id) : (t.remove id).find n = t.find n := by
  refine Option.ext fun o => ?_
  rw [find_eq_some, find_eq_some, mem_remove]
  constructor
  · rintro ⟨⟨hmem, -⟩, hid⟩
    exact ⟨hmem, hid⟩
  · rintro ⟨hmem, rfl⟩
    exact ⟨⟨hmem, h⟩, rfl⟩

theorem free_iff_find : t.Free id ↔ t.find id = none := by
  simp [Free, find]

/-- The key of an object is free once the object is removed. -/
theorem lookup_remove (h : o ∈ t.objects) : (t.remove o.id).lookup o.key = none := by
  rw [lookup_eq_none]
  by_cases hp : o.key = ipcPrivate
  · exact Or.inl hp
  · refine Or.inr fun o' ho' hkey => (mem_remove.1 ho').2 ?_
    rw [t.keys o' (mem_remove.1 ho').1 o h hkey fun hp' => hp (hkey ▸ hp')]

end IpcTable

end SysV

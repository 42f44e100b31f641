/-
**`sysVShm` and `sysVSem`: the owners of IPC objects.**

A `sysVShm` that is an owner creates its segment in its constructor and removes it in its destructor, and
a `sysVSem` does the same with its pair of semaphores.  Four guards look at the identifier: `is_valid` and
the destructor of either class.  Those of `sysVShm` differ, `0 <= shmid_` in one and `0 < shmid_` in the
other, and both guards of `sysVSem` read `0 < semid_`.  The kernel gives the identifier `0` to the first
object of a fresh namespace.

The state is the two tables of the kernel with any number of objects of the two classes, which are
numbered in the order of their construction.

Main definitions:

* `Shmdata.SysVShm`, `Shmdata.SysVSem` — the two classes, with their constructors and destructors;
* `Shmdata.IpcObjects`, `Shmdata.IpcObjects.step` — constructions and destructions in any order;
* `Shmdata.IpcObjects.Positive` — **the runs in which no guard meets the identifier `0`**.

Main results:

* `Shmdata.IpcObjects.exact_of_positive` — **in such a run the objects of the kernel live exactly as long
  as their owners**;
* `Shmdata.IpcObjects.firstSet_not_exact` — the first semaphores of a fresh namespace.
-/

import Shmdata.IpcTable
import Shmdata.Runs
import Mathlib.Data.Nat.Notation
import Mathlib.Logic.Function.Basic

set_option relaxedAutoImplicit false
set_option autoImplicit false

namespace Shmdata

open SysV Runs

/-! ### The two classes -/

/-- The permission that the declarations of the two constructors give when the caller gives none. -/
def defaultPermission : ℕ := 0o600

/-- The identifier that a call returns, `-1` when it fails. -/
def idOf : Option ℕ → ℤ
  | some id => id
  | none => -1

/-- What the kernel decides in a constructor: the identifier of a new object, if there is room for one,
whether the permission bits of an object that exists let the process in, and where a segment is attached,
if `shmat` succeeds. -/
structure IpcOutcome where
  room : Option ℕ
  permitted : Bool
  address : Option ℕ

/-- The fields of `sysVShm`; `shm` is `none` for `(void*)-1`. -/
structure SysVShm where
  key : ℤ
  size : ℕ
  shmid : ℤ
  owner : Bool
  shm : Option ℕ

/-- The fields of `sysVSem`. -/
structure SysVSem where
  key : ℤ
  owner : Bool
  semid : ℤ

/-- The call of `shmget`, or of `semget`, in a constructor. -/
def getId (t : IpcTable) (key : ℤ) (size : ℕ) (owner : Bool) (unixPermission : ℕ) (o : IpcOutcome) :
    IpcTable × Option ℕ :=
  if owner then t.create key size (unixPermission % 512) o.room
  else t.get key size o.permitted o.room

/-- `sysVShm::sysVShm`.  For the key `-1`, `shmget` is called but `shmat` is not. -/
def newSysVShm (t : IpcTable) (key : ℤ) (size : ℕ) (owner : Bool) (unixPermission : ℕ) (o : IpcOutcome) :
    IpcTable × SysVShm :=
  let got := getId t key size owner unixPermission o
  (got.1,
    { key, size, shmid := idOf got.2, owner,
      shm := if key = -1 then none else got.2.bind fun _ => o.address })

/-- `sysVShm::is_valid`. -/
def SysVShm.isValid (s : SysVShm) : Bool :=
  decide (s.key ≠ -1) && decide (0 ≤ s.shmid) && s.shm.isSome

/-- `sysVShm::~sysVShm`. -/
def SysVShm.destroy (s : SysVShm) (t : IpcTable) : IpcTable :=
  if 0 < s.shmid ∧ s.owner = true then t.remove s.shmid.toNat else t

/-- `sysVSem::sysVSem`. -/
def newSysVSem (t : IpcTable) (key : ℤ) (owner : Bool) (unixPermission : ℕ) (o : IpcOutcome) :
    IpcTable × SysVSem :=
  let got := getId t key 2 owner unixPermission o
  (got.1, { key, owner, semid := idOf got.2 })

/-- `sysVSem::is_valid`. -/
def SysVSem.isValid (s : SysVSem) : Bool := decide (0 < s.semid)

/-- `sysVSem::~sysVSem`. -/
def SysVSem.destroy (s : SysVSem) (t : IpcTable) : IpcTable :=
  if s.isValid = true ∧ s.owner = true then t.remove s.semid.toNat else t

/-! ### Constructions and destructions -/

/-- An object of the program, with what its system calls returned: `id` is the identifier, `attached` tells
that `shmat` was called and succeeded. -/
structure ShmRecord where
  obj : SysVShm
  id : Option ℕ
  attached : Bool

@[inherit_doc ShmRecord]
structure SemRecord where
  obj : SysVSem
  id : Option ℕ

/-- What an owner has created. -/
def ShmRecord.created (r : ShmRecord) : Option ℕ := if r.obj.owner then r.id else none

@[inherit_doc ShmRecord.created]
def SemRecord.created (r : SemRecord) : Option ℕ := if r.obj.owner then r.id else none

/-- The tables of the kernel and the objects of the program.  `shmBy` and `semBy` record, for the
identifiers that were given to a new object, the number of the object whose constructor made it. -/
structure IpcObjects where
  shms : IpcTable
  sems : IpcTable
  shm : ℕ → Option ShmRecord
  sem : ℕ → Option SemRecord
  next : ℕ
  shmBy : ℕ → Option ℕ
  semBy : ℕ → Option ℕ

namespace IpcObjects

/-- No object of the program, on any tables. -/
def init (shms sems : IpcTable) : IpcObjects where
  shms := shms
  sems := sems
  shm _ := none
  sem _ := none
  next := 0
  shmBy _ := none
  semBy _ := none

inductive Act
  | newShm (key : ℤ) (size : ℕ) (owner : Bool) (unixPermission : ℕ) (o : IpcOutcome)
  | deleteShm (i : ℕ)
  | newSem (key : ℤ) (owner : Bool) (unixPermission : ℕ) (o : IpcOutcome)
  | deleteSem (i : ℕ)

/-- The record of who made an object, after a call by the object `i`. -/
def recordMaker (by' : ℕ → Option ℕ) (i : ℕ) (makes : Bool) (id : Option ℕ) : ℕ → Option ℕ :=
  match id with
  | some id => if makes then Function.update by' id (some i) else by'
  | none => by'

/-- One construction or destruction. -/
def step (s : IpcObjects) : Act → Option IpcObjects
  | .newShm key size owner unixPermission o =>
      let id := (getId s.shms key size owner unixPermission o).2
      let made := newSysVShm s.shms key size owner unixPermission o
      let attached := decide (key ≠ -1) && id.isSome && o.address.isSome
      some
        { s with
          shms := made.1
          shm := Function.update s.shm s.next (some ⟨made.2, id, attached⟩)
          next := s.next + 1
          shmBy := recordMaker s.shmBy s.next (owner || decide (key = ipcPrivate)) id }
  | .deleteShm i =>
      match s.shm i with
      | some r => some { s with shms := r.obj.destroy s.shms, shm := Function.update s.shm i none }
      | none => none
  | .newSem key owner unixPermission o =>
      let id := (getId s.sems key 2 owner unixPermission o).2
      let made := newSysVSem s.sems key owner unixPermission o
      some
        { s with
          sems := made.1
          sem := Function.update s.sem s.next (some ⟨made.2, id⟩)
          next := s.next + 1
          semBy := recordMaker s.semBy s.next (owner || decide (key = ipcPrivate)) id }
  | .deleteSem i =>
      match s.sem i with
      | some r => some { s with sems := r.obj.destroy s.sems, sem := Function.update s.sem i none }
      | none => none

/-! ### What the claim of ownership means -/

/-- The destruction of the object `i`: what it created as an owner, under `key` and with the identifier
`id`, was there and is gone, nothing is removed but what it created, and its key can be used again. -/
structure Releases (before after : IpcTable) (by' : ℕ → Option ℕ) (i : ℕ) (key : ℤ) (id : Option ℕ) :
    Prop where
  removed : ∀ n ∈ id, (before.find n).isSome = true ∧ after.find n = none
  others : ∀ o ∈ before.objects, o ∈ after.objects ∨ by' o.id = some i
  sub : ∀ o ∈ after.objects, o ∈ before.objects
  again : ∀ n ∈ id, ∀ size mode n', 0 < size → after.Free n' →
    (after.create key size mode (some n')).2 = some n'

/-- A step removes what it has to remove, and nothing else. -/
def Clean (s : IpcObjects) (a : Act) (t : IpcObjects) : Prop :=
  match a with
  | .newShm .. => (∀ o ∈ s.shms.objects, o ∈ t.shms.objects) ∧ t.sems = s.sems
  | .newSem .. => (∀ o ∈ s.sems.objects, o ∈ t.sems.objects) ∧ t.shms = s.shms
  | .deleteShm i => t.sems = s.sems ∧
      ∀ r, s.shm i = some r → Releases s.shms t.shms s.shmBy i r.obj.key (ShmRecord.created r)
  | .deleteSem i => t.shms = s.shms ∧
      ∀ r, s.sem i = some r → Releases s.sems t.sems s.semBy i r.obj.key (SemRecord.created r)

/-- `operator bool` tells whether the system calls of the constructor succeeded. -/
def Tells (s : IpcObjects) : Prop :=
  (∀ i r, s.shm i = some r → (r.obj.isValid = true ↔ r.id.isSome = true ∧ r.attached = true)) ∧
    ∀ i r, s.sem i = some r → (r.obj.isValid = true ↔ r.id.isSome = true)

/-- No semaphores with the identifier `0` are found or created, and no owner of a segment with the
identifier `0` is destroyed. -/
def Positive (s : IpcObjects) : Act → Prop
  | .newShm .. => True
  | .deleteShm i => ∀ r ∈ s.shm i, ShmRecord.created r ≠ some 0
  | .newSem key owner unixPermission o => (getId s.sems key 2 owner unixPermission o).2 ≠ some 0
  | .deleteSem _ => True

instance (s : IpcObjects) (a : Act) : Decidable (Positive s a) := by
  cases a <;> unfold Positive <;> infer_instance

/-! ### The tables -/

variable {t : IpcTable} {by' : ℕ → Option ℕ} {i j : ℕ} {key key' : ℤ} {c id : Option ℕ} {size p : ℕ}
  {owner : Bool} {o : IpcOutcome}

/-- What the object `i` has created is in the table. -/
def Owned (t : IpcTable) (by' : ℕ → Option ℕ) (i : ℕ) (key : ℤ) (c : Option ℕ) : Prop :=
  ∀ n ∈ c, (∃ x, t.find n = some x ∧ x.key = key) ∧ by' n = some i

/-- Removing what an object has created. -/
def removeOpt (t : IpcTable) : Option ℕ → IpcTable
  | some n => t.remove n
  | none => t

theorem mem_getId {x : IpcObject} (h : x ∈ t.objects) :
    x ∈ (getId t key size owner p o).1.objects := by
  unfold getId
  split
  · exact IpcTable.mem_create h
  · exact IpcTable.mem_get h

theorem find_getId {n : ℕ} {x : IpcObject} (h : t.find n = some x) :
    (getId t key size owner p o).1.find n = some x := by
  rw [IpcTable.find_eq_some] at h ⊢
  exact ⟨mem_getId h.1, h.2⟩

/-- A call that makes an object gives it an identifier that was free. -/
theorem getId_makes {n : ℕ} (h : (getId t key size owner p o).2 = some n)
    (hm : owner = true ∨ key = ipcPrivate) :
    t.Free n ∧ ∃ x, (getId t key size owner p o).1.find n = some x ∧ x.key = key := by
  cases owner with
  | true =>
      have h : (t.create key size (p % 512) o.room).2 = some n := h
      exact ⟨(IpcTable.create_eq_some.1 h).2.2.1, _, IpcTable.find_create h, rfl⟩
  | false =>
      have hp : key = ipcPrivate := hm.resolve_left (by simp)
      have heq : getId t key size false p o = t.create key size 0 o.room := by
        rw [getId, if_neg (by simp), IpcTable.get, if_pos hp]
      rw [heq] at h ⊢
      exact ⟨(IpcTable.create_eq_some.1 h).2.2.1, _, IpcTable.find_create h, rfl⟩

namespace Owned

/-- A constructor leaves what the others have created. -/
theorem kept (h : Owned t by' j key' c) :
    Owned (getId t key size owner p o).1
      (recordMaker by' i (owner || decide (key = ipcPrivate)) (getId t key size owner p o).2) j key' c := by
  intro n hn
  obtain ⟨⟨x, hx, hkey⟩, hby⟩ := h n hn
  refine ⟨⟨x, find_getId hx, hkey⟩, ?_⟩
  cases hid : (getId t key size owner p o).2 with
  | none => exact hby
  | some m =>
      simp only [recordMaker]
      split
      · next hm =>
          -- the new identifier was free, so it is another one
          have hfree := (getId_makes hid (by simpa using hm)).1
          rw [Function.update_of_ne, hby]
          rintro rfl
          rw [IpcTable.free_iff_find, hx] at hfree
          cases hfree
      · exact hby

/-- What a constructor creates as an owner. -/
theorem created (h : owner = true) :
    Owned (getId t key size owner p o).1
      (recordMaker by' i (owner || decide (key = ipcPrivate)) (getId t key size owner p o).2) i
      key (getId t key size owner p o).2 := by
  intro n hn
  obtain ⟨-, x, hx⟩ := getId_makes hn (Or.inl h)
  refine ⟨⟨x, hx⟩, ?_⟩
  rw [Option.mem_def.1 hn, h]
  exact Function.update_self ..

/-- Removing what one object has created leaves what the others have created. -/
theorem removeOpt (h : Owned t by' j key' c) (hi : Owned t by' i key id) (hne : i ≠ j) :
    Owned (removeOpt t id) by' j key' c := by
  intro n hn
  obtain ⟨⟨x, hx, hkey⟩, hby⟩ := h n hn
  refine ⟨⟨x, ?_, hkey⟩, hby⟩
  cases id with
  | none => exact hx
  | some m =>
      refine (IpcTable.find_remove_of_ne ?_).trans hx
      rintro rfl
      exact hne (Option.some.inj ((hi n rfl).2.symm.trans hby))

theorem releases (h : Owned t by' i key c) : Releases t (IpcObjects.removeOpt t c) by' i key c := by
  cases c with
  | none => exact ⟨by simp, fun _ hx => Or.inl hx, fun _ hx => hx, by simp⟩
  | some n =>
      obtain ⟨⟨x, hx, hkey⟩, hby⟩ := h n rfl
      obtain ⟨hmem, hid⟩ := IpcTable.find_eq_some.1 hx
      refine ⟨?_, fun y hy => ?_, fun y hy => (IpcTable.mem_remove.1 hy).1, ?_⟩
      · rintro m ⟨⟩
        exact ⟨by rw [hx]; rfl, IpcTable.find_remove⟩
      · by_cases hyn : y.id = n
        · exact Or.inr (hyn ▸ hby)
        · exact Or.inl (IpcTable.mem_remove.2 ⟨hy, hyn⟩)
      · rintro m ⟨⟩ size mode n' hsize hfree
        refine IpcTable.create_eq_some.2 ⟨?_, hsize, hfree, rfl⟩
        rw [← hkey, ← hid]
        exact IpcTable.lookup_remove hmem

end Owned

/-! ### The guards -/

theorem idOf_nonneg : 0 ≤ idOf id ↔ id.isSome = true := by
  cases id with
  | none => simp [idOf]
  | some n => simp [idOf]

theorem idOf_pos : 0 < idOf id ↔ id.isSome = true ∧ id ≠ some 0 := by
  cases id with
  | none => simp [idOf]
  | some n =>
      simp only [idOf, Option.isSome_some, ne_eq, Option.some.injEq, true_and]
      omega

/-- What an owner removes in its destructor, when the guard lets through what is positive. -/
theorem remove_idOf (h : (if owner then id else none) ≠ some 0) :
    (if 0 < idOf id ∧ owner = true then t.remove (idOf id).toNat else t) =
      removeOpt t (if owner then id else none) := by
  cases owner with
  | false => rw [if_neg (by simp)]; rfl
  | true =>
      cases id with
      | none => rfl
      | some n =>
          have hn : n ≠ 0 := by simpa using h
          have hpos : 0 < idOf (some n) ∧ true = true := ⟨idOf_pos.2 ⟨rfl, h⟩, rfl⟩
          rw [if_pos hpos]
          rfl

/-! ### The invariant -/

/-- What holds in every state of a run without the identifier `0`. -/
structure Inv (s : IpcObjects) : Prop where
  shm_lt : ∀ i r, s.shm i = some r → i < s.next
  sem_lt : ∀ i r, s.sem i = some r → i < s.next
  shm_id : ∀ i r, s.shm i = some r → r.obj.shmid = idOf r.id
  sem_id : ∀ i r, s.sem i = some r → r.obj.semid = idOf r.id
  attached : ∀ i r, s.shm i = some r →
    (r.obj.key ≠ -1 ∧ r.obj.shm.isSome = true ↔ r.id.isSome = true ∧ r.attached = true)
  sem_pos : ∀ i r, s.sem i = some r → r.id ≠ some 0
  shm_owned : ∀ i r, s.shm i = some r → Owned s.shms s.shmBy i r.obj.key (ShmRecord.created r)
  sem_owned : ∀ i r, s.sem i = some r → Owned s.sems s.semBy i r.obj.key (SemRecord.created r)

variable {s u : IpcObjects} {a : Act}

theorem inv_init (shms sems : IpcTable) : Inv (init shms sems) := by
  constructor <;> simp [init]

theorem Inv.tells (hi : Inv s) : Tells s := by
  refine ⟨fun i r hr => ?_, fun i r hr => ?_⟩
  · have hat := hi.attached i r hr
    have hnonneg : 0 ≤ idOf r.id ↔ r.id.isSome = true := idOf_nonneg
    simp only [SysVShm.isValid, Bool.and_eq_true, decide_eq_true_eq, hi.shm_id i r hr]
    tauto
  · rw [SysVSem.isValid, decide_eq_true_eq, hi.sem_id i r hr, idOf_pos]
    exact and_iff_left (hi.sem_pos i r hr)

/-- A live object, after the construction of the object `i` or the destruction of an object. -/
theorem of_update {ρ : Type} {f : ℕ → Option ρ} {x : Option ρ} {r : ρ}
    (h : Function.update f i x j = some r) : j = i ∧ x = some r ∨ j ≠ i ∧ f j = some r := by
  by_cases hj : j = i
  · rw [hj, Function.update_self] at h
    exact Or.inl ⟨hj, h⟩
  · rw [Function.update_of_ne hj] at h
    exact Or.inr ⟨hj, h⟩

/-- A construction of a `sysVShm`. -/
theorem Inv.newShm (hi : Inv s) (h : s.step (.newShm key size owner p o) = some u) : Inv u := by
  simp only [step, Option.some.injEq] at h
  subst h
  refine ⟨fun j r hr => ?_, fun j r hr => Nat.lt_succ_of_lt (hi.sem_lt j r hr), fun j r hr => ?_,
    hi.sem_id, fun j r hr => ?_, hi.sem_pos, fun j r hr => ?_, hi.sem_owned⟩
  · rcases of_update hr with ⟨rfl, -⟩ | ⟨-, hr⟩
    · exact Nat.lt_succ_self _
    · exact Nat.lt_succ_of_lt (hi.shm_lt j r hr)
  · rcases of_update hr with ⟨-, hr⟩ | ⟨-, hr⟩
    · obtain rfl := Option.some.inj hr
      rfl
    · exact hi.shm_id j r hr
  · rcases of_update hr with ⟨-, hr⟩ | ⟨-, hr⟩
    · obtain rfl := Option.some.inj hr
      by_cases hk : key = -1
      · simp [newSysVShm, hk]
      · cases hid : (getId s.shms key size owner p o).2 with
        | none => simp [newSysVShm, hk, hid]
        | some n => simp [newSysVShm, hk, hid]
    · exact hi.attached j r hr
  · rcases of_update hr with ⟨rfl, hx⟩ | ⟨-, hx⟩
    · obtain rfl := Option.some.inj hx
      cases owner with
      | true => exact Owned.created rfl
      | false => exact fun n hn => nomatch hn
    · exact (hi.shm_owned j r hx).kept

/-- A construction of a `sysVSem`. -/
theorem Inv.newSem (hi : Inv s) (hp : Positive s (.newSem key owner p o))
    (h : s.step (.newSem key owner p o) = some u) : Inv u := by
  simp only [step, Option.some.injEq] at h
  subst h
  refine ⟨fun j r hr => Nat.lt_succ_of_lt (hi.shm_lt j r hr), fun j r hr => ?_, hi.shm_id,
    fun j r hr => ?_, hi.attached, fun j r hr => ?_, hi.shm_owned, fun j r hr => ?_⟩
  · rcases of_update hr with ⟨rfl, -⟩ | ⟨-, hr⟩
    · exact Nat.lt_succ_self _
    · exact Nat.lt_succ_of_lt (hi.sem_lt j r hr)
  · rcases of_update hr with ⟨-, hr⟩ | ⟨-, hr⟩
    · obtain rfl := Option.some.inj hr
      rfl
    · exact hi.sem_id j r hr
  · rcases of_update hr with ⟨-, hr⟩ | ⟨-, hr⟩
    · obtain rfl := Option.some.inj hr
      exact hp
    · exact hi.sem_pos j r hr
  · rcases of_update hr with ⟨rfl, hx⟩ | ⟨-, hx⟩
    · obtain rfl := Option.some.inj hx
      cases owner with
      | true => exact Owned.created rfl
      | false => exact fun n hn => nomatch hn
    · exact (hi.sem_owned j r hx).kept

/-- What the destructor of a `sysVShm` does to the table. -/
theorem Inv.destroy_shm (hi : Inv s) {r : ShmRecord} (hr : s.shm i = some r)
    (h0 : ShmRecord.created r ≠ some 0) : r.obj.destroy s.shms = removeOpt s.shms r.created := by
  rw [SysVShm.destroy, hi.shm_id i r hr]
  exact remove_idOf h0

@[inherit_doc Inv.destroy_shm]
theorem Inv.destroy_sem (hi : Inv s) {r : SemRecord} (hr : s.sem i = some r) :
    r.obj.destroy s.sems = removeOpt s.sems r.created := by
  have hpos := hi.sem_pos i r hr
  have h0 : SemRecord.created r ≠ some 0 := by
    unfold SemRecord.created
    split
    · exact hpos
    · simp
  simp only [SysVSem.destroy, SysVSem.isValid, decide_eq_true_eq, hi.sem_id i r hr]
  exact remove_idOf h0

theorem inv_step (hi : Inv s) (hp : Positive s a) (h : s.step a = some u) : Inv u := by
  cases a with
  | newShm key size owner p o => exact hi.newShm h
  | newSem key owner p o => exact hi.newSem hp h
  | deleteShm i =>
      cases hr : s.shm i with
      | none => simp [step, hr] at h
      | some r =>
          obtain rfl : _ = u := by simpa [step, hr] using h
          have hown := hi.shm_owned i r hr
          refine ⟨fun j r' hr' => ?_, hi.sem_lt, fun j r' hr' => ?_, hi.sem_id, fun j r' hr' => ?_,
            hi.sem_pos, fun j r' hr' => ?_, hi.sem_owned⟩
          all_goals obtain ⟨hj, hr'⟩ := (of_update hr').resolve_left (by simp)
          · exact hi.shm_lt j r' hr'
          · exact hi.shm_id j r' hr'
          · exact hi.attached j r' hr'
          · rw [hi.destroy_shm hr (hp r hr)]
            exact (hi.shm_owned j r' hr').removeOpt hown (Ne.symm hj)
  | deleteSem i =>
      cases hr : s.sem i with
      | none => simp [step, hr] at h
      | some r =>
          obtain rfl : _ = u := by simpa [step, hr] using h
          have hown := hi.sem_owned i r hr
          refine ⟨hi.shm_lt, fun j r' hr' => ?_, hi.shm_id, fun j r' hr' => ?_, hi.attached,
            fun j r' hr' => ?_, hi.shm_owned, fun j r' hr' => ?_⟩
          all_goals obtain ⟨hj, hr'⟩ := (of_update hr').resolve_left (by simp)
          · exact hi.sem_lt j r' hr'
          · exact hi.sem_id j r' hr'
          · exact hi.sem_pos j r' hr'
          · rw [hi.destroy_sem hr]
            exact (hi.sem_owned j r' hr').removeOpt hown (Ne.symm hj)

/-! ### The theorem -/

/-- A step that meets no `0` removes what it has to remove. -/
theorem Inv.clean (hi : Inv s) (hp : Positive s a) (h : s.step a = some u) : Clean s a u := by
  cases a with
  | newShm key size owner p o =>
      obtain rfl := Option.some.inj h
      exact ⟨fun x hx => mem_getId hx, rfl⟩
  | newSem key owner p o =>
      obtain rfl := Option.some.inj h
      exact ⟨fun x hx => mem_getId hx, rfl⟩
  | deleteShm i =>
      cases hr : s.shm i with
      | none => simp [step, hr] at h
      | some r =>
          obtain rfl : _ = u := by simpa [step, hr] using h
          refine ⟨rfl, fun r' hr' => ?_⟩
          obtain rfl : r = r' := Option.some.inj (hr.symm.trans hr')
          show Releases s.shms (r.obj.destroy s.shms) ..
          rw [hi.destroy_shm hr (hp r hr)]
          exact (hi.shm_owned i r hr).releases
  | deleteSem i =>
      cases hr : s.sem i with
      | none => simp [step, hr] at h
      | some r =>
          obtain rfl : _ = u := by simpa [step, hr] using h
          refine ⟨rfl, fun r' hr' => ?_⟩
          obtain rfl : r = r' := Option.some.inj (hr.symm.trans hr')
          show Releases s.sems (r.obj.destroy s.sems) ..
          rw [hi.destroy_sem hr]
          exact (hi.sem_owned i r hr).releases

/-- A step that meets a `0` leaves an object whose `operator bool` is wrong, or a segment without an
owner. -/
theorem Inv.positive_of_clean (hi : Inv s) (h : s.step a = some u) (ht : Tells u)
    (hc : Clean s a u) : Positive s a := by
  cases a with
  | newShm | deleteSem => trivial
  | newSem key owner p o =>
      intro h0
      obtain rfl := Option.some.inj h
      have htell := ht.2 s.next _ (Function.update_self ..)
      simp [newSysVSem, SysVSem.isValid, h0, idOf] at htell
  | deleteShm i =>
      intro r hr h0
      have hr : s.shm i = some r := hr
      obtain rfl : _ = u := by simpa [step, hr] using h
      obtain ⟨hthere, hgone⟩ := (hc.2 r hr).removed 0 h0
      have hid : r.obj.shmid = 0 := by
        rw [hi.shm_id i r hr]
        unfold ShmRecord.created at h0
        split at h0
        · rw [h0]; rfl
        · cases h0
      have hkeep : r.obj.destroy s.shms = s.shms := by
        rw [SysVShm.destroy, hid]
        rfl
      rw [hkeep] at hgone
      rw [hgone] at hthere
      cases hthere

/-- **The objects of the kernel live exactly as long as their owners, when no guard meets the identifier
`0`.**  In every state of such a run `operator bool` tells whether the system calls of the constructor
succeeded; and a next step again keeps this, and removes what the destroyed owner created and nothing
else, exactly when it meets no `0` either. -/
theorem exact_of_positive {shms sems : IpcTable} {as : List Act}
    (h : exec (restrict step Positive) (init shms sems) as = some s) :
    Tells s ∧ ∀ a u, s.step a = some u → (Tells u ∧ Clean s a u ↔ Positive s a) := by
  have hi : Inv s := exec_invariant (fun s a u hi hst =>
    inv_step hi (restrict_eq_some.1 hst).1 (restrict_eq_some.1 hst).2) h (inv_init shms sems)
  refine ⟨hi.tells, fun a u hst => ⟨fun hc => hi.positive_of_clean hst hc.1 hc.2, fun hp => ?_⟩⟩
  exact ⟨(inv_step hi hp hst).tells, hi.clean hp hst⟩

/-- An owner and a reader of one segment, and the owner of another. -/
def twoOwners : List Act :=
  [.newShm 1234 1024 true defaultPermission ⟨some 7, true, some 0⟩,
    .newShm 1234 0 false defaultPermission ⟨none, true, some 1⟩,
    .newSem 1235 true defaultPermission ⟨some 7, true, none⟩,
    .deleteShm 0,
    .newShm 1234 2048 true defaultPermission ⟨some 8, true, some 2⟩]

/-- The owner is destroyed and another one is constructed on its key, while the reader is there. -/
theorem twoOwners_exact :
    ∃ s r, exec (restrict step Positive) (init .empty .empty) twoOwners = some s ∧
      s.shm 3 = some r ∧ r.obj.isValid = true ∧ Tells s := by
  have hrun : exec (restrict step Positive) (init .empty .empty) twoOwners = some _ := rfl
  exact ⟨_, _, hrun, rfl, rfl, (exact_of_positive hrun).1⟩

/-- The first semaphores of a fresh namespace, which get the identifier `0`. -/
def firstSet : List Act := [.newSem 1234 true defaultPermission ⟨some 0, true, none⟩]

/-- **`semget` succeeds and the object is not valid; its destructor leaves the semaphores, and the next
owner on the key fails.** -/
theorem firstSet_not_exact :
    ∃ s u, exec step (init .empty .empty) firstSet = some s ∧ ¬ Tells s ∧
      s.step (.deleteSem 0) = some u ∧ ¬ Clean s (.deleteSem 0) u ∧
      (newSysVSem u.sems 1234 true defaultPermission ⟨some 1, true, none⟩).2.isValid = false := by
  have hrun : exec step (init .empty .empty) firstSet = some _ := rfl
  refine ⟨_, _, hrun, fun h => ?_, rfl, fun h => ?_, rfl⟩
  · exact absurd ((h.2 0 _ rfl).2 rfl) (by decide)
  · exact absurd ((h.2 _ rfl).removed 0 rfl).2 (by decide)

end IpcObjects

end Shmdata

/-
**System V semaphore sets and the atomic operation lists of `semop`.**

A semaphore set is a function from semaphore numbers to values.  `semop` performs a list of
operations on it as a whole: each operation is applied to the value its predecessors left, and if
one of them cannot be performed the set stays as it was.  An operation `0` waits until the value
is zero, a negative one waits until the value can be decremented by its amount, and a positive one
never waits but fails when the value would exceed `SEMVMX`.

* `SysV.SemBuf`, `SysV.applyOp`, `SysV.semop` — the operations and the call;
* `SysV.perform` — the call as a step that is enabled once it returns;
* `SysV.semop_zero_eq_ok`, `SysV.semop_neg_one_eq_ok`, `SysV.semop_pos_eq_ok` — when a single
  operation is performed, and what it does;
* `SysV.semop_cons_eq_ok` — a list is performed one operation after the other.
-/

import Mathlib.Data.Int.Notation
import Mathlib.Logic.Function.Basic
import Mathlib.Tactic.Common

set_option relaxedAutoImplicit false
set_option autoImplicit false

namespace SysV

/-- One entry of the array passed to `semop`: the number of a semaphore and the operation on it
(`sem_flg` is `0`). -/
structure SemBuf where
  num : ℕ
  op : ℤ
  deriving DecidableEq

/-- Why `semop` did not perform its list: the caller has to wait, or the call fails with
`ERANGE`. -/
inductive SemStop
  | wait
  | range
  deriving DecidableEq

/-- The largest value of a semaphore. -/
def SEMVMX : ℕ := 32767

/-- One operation on one value. -/
def applyOp (v : ℕ) (op : ℤ) : Except SemStop ℕ :=
  if op = 0 then
    if v = 0 then .ok v else .error .wait
  else if (v : ℤ) + op < 0 then .error .wait
  else if 0 < op ∧ (SEMVMX : ℤ) < (v : ℤ) + op then .error .range
  else .ok ((v : ℤ) + op).toNat

/-- The operations of a list, one after the other, on a semaphore set. -/
def semop (f : ℕ → ℕ) : List SemBuf → Except SemStop (ℕ → ℕ)
  | [] => .ok f
  | b :: bs =>
      match applyOp (f b.num) b.op with
      | .error e => .error e
      | .ok v => semop (Function.update f b.num v) bs

/-- The set after a call that returns; `none` while the call has to wait, or when it fails. -/
def perform (f : ℕ → ℕ) (bs : List SemBuf) : Option (ℕ → ℕ) := (semop f bs).toOption

theorem perform_eq_some {f g : ℕ → ℕ} {bs : List SemBuf} :
    perform f bs = some g ↔ semop f bs = .ok g := by
  unfold perform
  cases semop f bs with
  | error e => simp [Except.toOption]
  | ok h => simp [Except.toOption]

@[simp] theorem semop_nil (f : ℕ → ℕ) : semop f [] = .ok f := rfl

theorem semop_cons_eq_ok {f g : ℕ → ℕ} {b : SemBuf} {bs : List SemBuf} :
    semop f (b :: bs) = .ok g ↔
      ∃ v, applyOp (f b.num) b.op = .ok v ∧ semop (Function.update f b.num v) bs = .ok g := by
  rw [semop]
  cases applyOp (f b.num) b.op with
  | error e => simp
  | ok v => simp

theorem applyOp_zero_eq_ok {v w : ℕ} : applyOp v 0 = .ok w ↔ v = 0 ∧ w = 0 := by
  by_cases h : v = 0
  · simp [applyOp, h, eq_comm]
  · simp [applyOp, h]

theorem applyOp_neg_one_eq_ok {v w : ℕ} : applyOp v (-1) = .ok w ↔ v = w + 1 := by
  unfold applyOp
  rw [if_neg (by decide)]
  by_cases h : (v : ℤ) + -1 < 0
  · rw [if_pos h]
    constructor
    · intro hw; cases hw
    · intro hw; omega
  · rw [if_neg h, if_neg (by omega), Except.ok.injEq]
    omega

theorem applyOp_pos_eq_ok {v w n : ℕ} (hn : 0 < n) :
    applyOp v n = .ok w ↔ w = v + n ∧ v + n ≤ SEMVMX := by
  unfold applyOp
  rw [if_neg (by omega), if_neg (by omega)]
  by_cases h : 0 < (n : ℤ) ∧ (SEMVMX : ℤ) < (v : ℤ) + n
  · rw [if_pos h]
    constructor
    · intro hw; cases hw
    · intro hw; omega
  · rw [if_neg h, Except.ok.injEq]
    omega

/-- Waiting for zero. -/
theorem semop_zero_eq_ok {f g : ℕ → ℕ} {i : ℕ} :
    semop f [⟨i, 0⟩] = .ok g ↔ f i = 0 ∧ g = f := by
  simp only [semop_cons_eq_ok, semop_nil, applyOp_zero_eq_ok, Except.ok.injEq]
  constructor
  · rintro ⟨v, ⟨h, rfl⟩, rfl⟩
    exact ⟨h, by rw [← h, Function.update_eq_self]⟩
  · rintro ⟨h, rfl⟩
    exact ⟨0, ⟨h, rfl⟩, by rw [← h, Function.update_eq_self]⟩

/-- A decrement is performed as soon as the value is positive. -/
theorem semop_neg_one_eq_ok {f g : ℕ → ℕ} {i : ℕ} :
    semop f [⟨i, -1⟩] = .ok g ↔ 1 ≤ f i ∧ g = Function.update f i (f i - 1) := by
  simp only [semop_cons_eq_ok, semop_nil, applyOp_neg_one_eq_ok, Except.ok.injEq]
  constructor
  · rintro ⟨v, h, rfl⟩
    exact ⟨by omega, by rw [h, Nat.add_sub_cancel]⟩
  · rintro ⟨h, rfl⟩
    exact ⟨f i - 1, by omega, rfl⟩

/-- An increment never waits. -/
theorem semop_pos_eq_ok {f g : ℕ → ℕ} {i n : ℕ} (hn : 0 < n) :
    semop f [⟨i, n⟩] = .ok g ↔ f i + n ≤ SEMVMX ∧ g = Function.update f i (f i + n) := by
  simp only [semop_cons_eq_ok, semop_nil, applyOp_pos_eq_ok hn, Except.ok.injEq]
  constructor
  · rintro ⟨v, ⟨rfl, h⟩, rfl⟩
    exact ⟨h, rfl⟩
  · rintro ⟨h, rfl⟩
    exact ⟨f i + n, ⟨rfl, h⟩, rfl⟩

end SysV

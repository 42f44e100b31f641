/-
**The semaphore operations of `sysv-sem.cpp`.**

One set of two semaphores is shared by a writer and its readers: semaphore `0` counts the reads
that are still owed for the current frame, plus one while the frame is being written; semaphore
`1` is `1` while the frame is being written.  The four operation lists below are those of the
source, and every acquisition or release of a `ReadLock` or a `WriteLock` is one `semop` call with
one of them, so that it is atomic.

* `Shmdata.Semops.readStart`, `Shmdata.Semops.readEnd`, `Shmdata.Semops.writeStart`,
  `Shmdata.Semops.writeEnd`, `Shmdata.Semops.commitReaders` — the operation lists;
* `Shmdata.Semops.readStart_eq_ok`, … — **what each of them waits for and what it does**, one
  equation for each list;
* `Shmdata.toShort` — the conversion to `short` by which `notify_update` returns its count.
-/

import Shmdata.SemOp
import Mathlib.Tactic.NormNum

set_option relaxedAutoImplicit false
set_option autoImplicit false

namespace Shmdata

open SysV

/-- The value of a `size_t` converted to `short`: its residue in `-2 ^ 15, …, 2 ^ 15 - 1`. -/
def toShort (n : ℕ) : ℤ := ((n : ℤ) + 32768) % 65536 - 32768

theorem toShort_of_lt {n : ℕ} (h : n < 32768) : toShort n = n := by
  unfold toShort
  rw [Int.emod_eq_of_lt (by omega) (by omega)]
  omega

namespace Semops

/-- `read_start`: wait until no writer holds its lock. -/
def readStart : List SemBuf := [⟨1, 0⟩]

/-- `read_end`: give back one read. -/
def readEnd : List SemBuf := [⟨0, -1⟩]

/-- `write_start`: wait until no read is owed, then raise both semaphores. -/
def writeStart : List SemBuf := [⟨0, 0⟩, ⟨1, 1⟩, ⟨0, 1⟩]

/-- `write_end`: lower both semaphores. -/
def writeEnd : List SemBuf := [⟨0, -1⟩, ⟨1, -1⟩]

/-- The list built by `WriteLock::commit_readers`. -/
def commitReaders (numReader : ℤ) : List SemBuf := [⟨0, numReader⟩]

theorem readStart_eq_ok {f g : ℕ → ℕ} : semop f readStart = .ok g ↔ f 1 = 0 ∧ g = f :=
  semop_zero_eq_ok

theorem readEnd_eq_ok {f g : ℕ → ℕ} :
    semop f readEnd = .ok g ↔ 1 ≤ f 0 ∧ g = Function.update f 0 (f 0 - 1) :=
  semop_neg_one_eq_ok

theorem commitReaders_eq_ok {f g : ℕ → ℕ} {n : ℕ} (hn : 0 < n) :
    semop f (commitReaders n) = .ok g ↔
      f 0 + n ≤ SEMVMX ∧ g = Function.update f 0 (f 0 + n) :=
  semop_pos_eq_ok hn

theorem writeStart_eq_ok {f g : ℕ → ℕ} :
    semop f writeStart = .ok g ↔
      f 0 = 0 ∧ f 1 + 1 ≤ SEMVMX ∧
        g = Function.update (Function.update f 1 (f 1 + 1)) 0 1 := by
  have one (v w : ℕ) : applyOp v 1 = .ok w ↔ w = v + 1 ∧ v + 1 ≤ SEMVMX :=
    applyOp_pos_eq_ok (n := 1) Nat.one_pos
  simp only [writeStart, semop_cons_eq_ok, semop_nil, applyOp_zero_eq_ok, one, Except.ok.injEq]
  constructor
  · rintro ⟨v, ⟨h0, rfl⟩, w, ⟨rfl, h1⟩, x, ⟨rfl, -⟩, rfl⟩
    have hf : Function.update f 0 0 = f := Function.update_eq_self_iff.2 h0.symm
    rw [hf] at h1 ⊢
    refine ⟨h0, h1, ?_⟩
    rw [Function.update_of_ne (by decide), h0]
  · rintro ⟨h0, h1, rfl⟩
    have hf : Function.update f 0 0 = f := Function.update_eq_self_iff.2 h0.symm
    refine ⟨0, ⟨h0, rfl⟩, f 1 + 1, ?_, 1, ?_, ?_⟩
    · rw [hf]; exact ⟨rfl, h1⟩
    · rw [hf, Function.update_of_ne (by decide), h0]; exact ⟨rfl, by decide⟩
    · rw [hf]

theorem writeEnd_eq_ok {f g : ℕ → ℕ} :
    semop f writeEnd = .ok g ↔
      1 ≤ f 0 ∧ 1 ≤ f 1 ∧
        g = Function.update (Function.update f 0 (f 0 - 1)) 1 (f 1 - 1) := by
  simp only [writeEnd, semop_cons_eq_ok, semop_nil, applyOp_neg_one_eq_ok, Except.ok.injEq]
  constructor
  · rintro ⟨v, h0, w, h1, rfl⟩
    rw [Function.update_of_ne (by decide)] at h1
    exact ⟨by omega, by omega, by rw [h0, h1, Nat.add_sub_cancel, Nat.add_sub_cancel]⟩
  · rintro ⟨h0, h1, rfl⟩
    refine ⟨f 0 - 1, by omega, f 1 - 1, ?_, rfl⟩
    rw [Function.update_of_ne (by decide)]
    omega

end Semops

end Shmdata

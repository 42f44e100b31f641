/-
**How `sdflow` prints a frame.**

`print_vals` prints the first elements of a frame, and dots if there are more.  Its loop goes on while the
first byte of the next element lies inside the frame, but the whole element is read; the dots are printed when
the number of elements printed is not the number of elements of the frame.  With a frame whose size is no
multiple of the width of the elements, the last bytes are read as an element that lies partly behind the
frame, and the dots come after an element too many.

The indices are unsigned numbers of 32 bits and the sizes of 64, so that the product of the two could be
reduced; but this happens behind the end of the frame only.

Main definitions:

* `Shmdata.Sdflow.Format`, `Shmdata.Sdflow.formatOf` — the elements that a format of the command line selects;
* `Shmdata.Sdflow.elements`, `Shmdata.Sdflow.printVals` — the loop, and what is printed;
* `Shmdata.Sdflow.Framed` — nothing behind the frame is read, and what is printed tells the number of elements.

Main results:

* `Shmdata.Sdflow.elements_eq` — the loop of a frame of whole elements;
* `Shmdata.Sdflow.framed_iff` — **when a frame is printed as it should be**.
-/

import Shmdata.Bytes

set_option relaxedAutoImplicit false
set_option autoImplicit false

namespace Shmdata

open Bytes

namespace Sdflow

/-! ### The formats -/

/-- What is handed to `printf` for an element. -/
inductive Arg
  | float (bits : ℕ)
  | int (n : ℤ)
  deriving DecidableEq

/-- A branch of the dispatch on the format: the width of the elements, and how they are printed. -/
structure Format where
  width : UInt64
  width_pos : 0 < width.toNat
  load : List UInt8 → Arg
  printf : String

def Format.float : Format := ⟨4, by decide, fun bs => .float (ofLe bs), "% 1.2f "⟩

/-- A `char` is printed as a number between 0 and 255. -/
def Format.char (printf : String) : Format := ⟨1, by decide, fun bs => .int (ofLe bs % 256 : ℕ), printf⟩

def Format.int16 : Format := ⟨2, by decide, fun bs => .int (Int.bmod (ofLe bs) 65536), "% 05d "⟩

/-- The format of the option `-f`. -/
def formatOf (format : String) : Format :=
  if format = "f" then .float
  else if format = "c" then .char "%c"
  else if format = "i16" then .int16
  else .char "%02x "

/-! ### The loop -/

/-- One output of `printf`. -/
inductive Printed
  | val (printf : String) (arg : Arg)
  | dots
  deriving DecidableEq

variable {f : Format} {maxVal valIndex : UInt32} {size : UInt64} {i n : ℕ}

/-- The elements that the loop reads from `val_index` on. -/
def elements (f : Format) (maxVal : UInt32) (size : UInt64) (valIndex : UInt32) : List UInt32 :=
  if _h : valIndex < maxVal ∧ valIndex.toUInt64 * f.width < size then
    valIndex :: elements f maxVal size (valIndex + 1)
  else []
termination_by maxVal.toNat - valIndex.toNat
decreasing_by
  have hlt : valIndex.toNat < maxVal.toNat := _h.1
  have hadd : (valIndex + 1).toNat = (valIndex.toNat + 1) % 2 ^ 32 := UInt32.toNat_add valIndex 1
  have := maxVal.toNat_lt
  omega

/-- `print_vals`, for a frame of `size` bytes at the beginning of `mem`. -/
def printVals (f : Format) (mem : ℕ → UInt8) (maxVal : UInt32) (size : UInt64) : List Printed :=
  let read := elements f maxVal size 0
  let vals := read.map fun i =>
    .val f.printf (f.load ((List.range f.width.toNat).map fun k => mem (i.toNat * f.width.toNat + k)))
  if read.length ≠ (size / f.width).toNat then vals ++ [.dots] else vals

/-- Every element lies inside the frame; as many are printed as there are in the frame, up to the limit; the
dots tell that there are more. -/
structure Framed (f : Format) (mem : ℕ → UInt8) (maxVal : UInt32) (size : UInt64) : Prop where
  inside : ∀ i ∈ elements f maxVal size 0, i.toNat * f.width.toNat + f.width.toNat ≤ size.toNat
  count : (printVals f mem maxVal size).countP (· ≠ .dots) = min maxVal.toNat (size.toNat / f.width.toNat)
  dots : .dots ∈ printVals f mem maxVal size ↔ maxVal.toNat < size.toNat / f.width.toNat

theorem elements_of_lt (h : valIndex < maxVal) (hsize : valIndex.toUInt64 * f.width < size) :
    elements f maxVal size valIndex = valIndex :: elements f maxVal size (valIndex + 1) := by
  rw [elements, dif_pos ⟨h, hsize⟩]

theorem elements_of_not (h : ¬ (valIndex < maxVal ∧ valIndex.toUInt64 * f.width < size)) :
    elements f maxVal size valIndex = [] := by
  rw [elements, dif_neg h]

theorem toNat_succ (h : valIndex < maxVal) : (valIndex + 1).toNat = valIndex.toNat + 1 := by
  have hlt : valIndex.toNat < maxVal.toNat := h
  have hadd : (valIndex + 1).toNat = (valIndex.toNat + 1) % 2 ^ 32 := UInt32.toNat_add valIndex 1
  have := maxVal.toNat_lt
  omega

/-- Up to the end of the frame the product is not reduced. -/
theorem lt_size_iff (h : valIndex.toNat * f.width.toNat ≤ size.toNat) :
    valIndex.toUInt64 * f.width < size ↔ valIndex.toNat * f.width.toNat < size.toNat := by
  have hmul : (valIndex.toUInt64 * f.width).toNat = valIndex.toNat * f.width.toNat % 2 ^ 64 := by
    rw [UInt64.toNat_mul, UInt32.toNat_toUInt64]
  have := size.toNat_lt
  rw [UInt64.lt_iff_toNat_lt, hmul, Nat.mod_eq_of_lt (by omega)]

/-- The number of elements that should be printed. -/
def wanted (f : Format) (maxVal : UInt32) (size : UInt64) : ℕ := min maxVal.toNat (size.toNat / f.width.toNat)

/-- **The loop of a frame of whole elements**, or of one with more elements than are printed. -/
theorem elements_eq (h : size.toNat % f.width.toNat = 0 ∨ maxVal.toNat ≤ size.toNat / f.width.toNat)
    (hi : valIndex.toNat + n = wanted f maxVal size) :
    (elements f maxVal size valIndex).map UInt32.toNat = List.range' valIndex.toNat n := by
  have hdiv := Nat.div_add_mod size.toNat f.width.toNat
  induction n generalizing valIndex with
  | zero =>
      -- the loop has come to the limit, or to the end of the frame
      have hstop : ¬ (valIndex < maxVal ∧ valIndex.toUInt64 * f.width < size) := by
        rintro ⟨hmax, hsize⟩
        have hmax : valIndex.toNat < maxVal.toNat := hmax
        have hend : valIndex.toNat = size.toNat / f.width.toNat := by
          unfold wanted at hi
          omega
        have hmul : valIndex.toNat * f.width.toNat = size.toNat := by
          rw [hend, Nat.mul_comm]
          omega
        have := (lt_size_iff hmul.le).1 hsize
        omega
      rw [elements_of_not hstop]
      rfl
  | succ n ih =>
      have hmax : valIndex < maxVal := by
        rw [UInt32.lt_iff_toNat_lt]
        unfold wanted at hi
        omega
      have hend : (valIndex.toNat + 1) * f.width.toNat ≤ size.toNat :=
        (Nat.le_div_iff_mul_le f.width_pos).1 (by unfold wanted at hi; omega)
      rw [Nat.add_mul, Nat.one_mul] at hend
      have hpos := f.width_pos
      have hsize : valIndex.toUInt64 * f.width < size := (lt_size_iff (by omega)).2 (by omega)
      rw [elements_of_lt hmax hsize, List.map_cons, List.range'_succ, ← toNat_succ hmax,
        ih (by rw [toNat_succ hmax]; omega)]

/-- The loop reaches every element that begins in the frame. -/
theorem mem_elements {k : UInt32} (hk : valIndex.toNat + n = k.toNat) (hmax : k < maxVal)
    (hsize : k.toNat * f.width.toNat < size.toNat) : k ∈ elements f maxVal size valIndex := by
  have hmax : k.toNat < maxVal.toNat := hmax
  induction n generalizing valIndex with
  | zero =>
      obtain rfl : valIndex = k := UInt32.toNat_inj.1 (by omega)
      rw [elements_of_lt (by assumption) ((lt_size_iff hsize.le).2 hsize)]
      exact List.mem_cons_self
  | succ n ih =>
      have hlt : valIndex < maxVal := by
        rw [UInt32.lt_iff_toNat_lt]
        omega
      have hle : valIndex.toNat * f.width.toNat ≤ k.toNat * f.width.toNat := Nat.mul_le_mul_right _ (by omega)
      rw [elements_of_lt hlt ((lt_size_iff (by omega)).2 (by omega))]
      exact List.mem_cons_of_mem _ (ih (by rw [toNat_succ hlt]; omega))

/-! ### What is printed -/

variable {mem : ℕ → UInt8}

theorem countP_printVals :
    (printVals f mem maxVal size).countP (· ≠ .dots) = (elements f maxVal size 0).length := by
  unfold printVals
  dsimp only
  split <;> simp [List.countP_eq_length]

theorem dots_mem_printVals : .dots ∈ printVals f mem maxVal size ↔
    (elements f maxVal size 0).length ≠ size.toNat / f.width.toNat := by
  unfold printVals
  rw [UInt64.toNat_div]
  dsimp only
  split <;> simp_all

/-- **When a frame is printed as it should be**: if its elements are whole, or it has as many as are printed. -/
theorem framed_iff (f : Format) (mem : ℕ → UInt8) (maxVal : UInt32) (size : UInt64) :
    Framed f mem maxVal size ↔
      size.toNat % f.width.toNat = 0 ∨ maxVal.toNat ≤ size.toNat / f.width.toNat := by
  constructor
  · intro h
    by_contra hnot
    obtain ⟨hmod, hmax⟩ := not_or.1 hnot
    -- the element that is not whole is read
    obtain ⟨k, hk⟩ : ∃ k : UInt32, k.toNat = size.toNat / f.width.toNat := by
      refine ⟨.ofNat (size.toNat / f.width.toNat), UInt32.toNat_ofNat_of_lt' ?_⟩
      exact Nat.lt_trans (by omega) maxVal.toNat_lt
    have hdiv := Nat.div_add_mod size.toNat f.width.toNat
    rw [← hk, Nat.mul_comm] at hdiv
    have hlt := Nat.mod_lt size.toNat f.width_pos
    have hmem : k ∈ elements f maxVal size 0 := mem_elements (Nat.zero_add _)
      (UInt32.lt_iff_toNat_lt.2 (by omega)) (by omega)
    have := h.inside k hmem
    omega
  · intro h
    have hmap : (elements f maxVal size 0).map UInt32.toNat = List.range' 0 (wanted f maxVal size) :=
      elements_eq h (Nat.zero_add _)
    have hlength : (elements f maxVal size 0).length = wanted f maxVal size := by
      rw [← List.length_map (f := UInt32.toNat), hmap, List.length_range']
    refine ⟨fun i hi => ?_, ?_, ?_⟩
    · have hmem : i.toNat ∈ List.range' 0 (wanted f maxVal size) := hmap ▸ List.mem_map_of_mem hi
      have hlt : i.toNat < wanted f maxVal size := by simpa using hmem
      have hend := (Nat.le_div_iff_mul_le f.width_pos).1 (Nat.le_trans hlt (Nat.min_le_right ..))
      rwa [Nat.succ_mul] at hend
    · rw [countP_printVals, hlength]
      rfl
    · rw [dots_mem_printVals, hlength]
      unfold wanted
      omega

/-- Characters are always whole. -/
example (printf : String) (size : UInt64) : size.toNat % (Format.char printf).width.toNat = 0 := Nat.mod_one _

/-- A frame of five bytes: the third number of 16 bits is made of the last byte and one behind the frame, and
dots are printed although the frame has no more than two numbers. -/
theorem fiveBytes_not_framed : ¬ Framed (formatOf "i16") (fun _ => 0) 12 5 := by
  intro h
  have hmem : (2 : UInt32) ∈ elements .int16 12 5 0 :=
    mem_elements (n := 2) (by decide) (by decide) (by decide)
  exact absurd (h.inside 2 hmem) (by decide)

end Sdflow

end Shmdata

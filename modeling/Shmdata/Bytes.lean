/-
**Bytes: little-endian numbers and buffers filled from the front.**

A fixed-width number is laid out with its least significant byte first, and `read` copies what it
gets to the beginning of the buffer it is given and leaves the rest of the buffer as it was.
Nothing here depends on a particular message format.

* `Bytes.le`, `Bytes.ofLe` — a number as bytes, and back;
* `Bytes.fill` — the buffer after a `read`;
* `Bytes.ofLe_le` — **reading back a number that fits**.
-/

import Mathlib.Data.Nat.ModEq
import Mathlib.Data.List.Basic

set_option relaxedAutoImplicit false
set_option autoImplicit false

namespace Bytes

/-- The `n` lowest bytes of `v`, the lowest first. -/
def le : ℕ → ℕ → List UInt8
  | 0, _ => []
  | n + 1, v => UInt8.ofNat v :: le n (v / 256)

/-- The number that a list of bytes represents, the lowest byte first. -/
def ofLe : List UInt8 → ℕ
  | [] => 0
  | b :: bs => b.toNat + 256 * ofLe bs

@[simp] theorem length_le (n v : ℕ) : (le n v).length = n := by
  induction n generalizing v with
  | zero => rfl
  | succ n ih => simp [le, ih]

/-- **Reading back a number laid out on `n` bytes.** -/
theorem ofLe_le (n v : ℕ) : ofLe (le n v) = v % 256 ^ n := by
  induction n generalizing v with
  | zero => simp [le, ofLe, Nat.mod_one]
  | succ n ih =>
      calc ofLe (le (n + 1) v)
          = v % 256 + 256 * (v / 256 % 256 ^ n) := by
            rw [le, ofLe, ih, UInt8.toNat_ofNat']
        _ = v % (256 * 256 ^ n) := (Nat.mod_mul ..).symm
        _ = v % 256 ^ (n + 1) := by rw [Nat.pow_succ']

/-- The buffer `buf` after a `read` that returned `bs`. -/
def fill (buf bs : List UInt8) : List UInt8 := bs ++ buf.drop bs.length

theorem length_fill {buf bs : List UInt8} (h : bs.length ≤ buf.length) :
    (fill buf bs).length = buf.length := by
  rw [fill, List.length_append, List.length_drop]
  omega

@[simp] theorem take_fill (buf bs : List UInt8) : (fill buf bs).take bs.length = bs := by
  rw [fill, List.take_left']
  rfl

/-- A `read` that fills the whole buffer leaves nothing of its former contents. -/
theorem fill_of_length_eq {buf bs : List UInt8} (h : bs.length = buf.length) :
    fill buf bs = bs := by
  rw [fill, h, List.drop_length, List.append_nil]

end Bytes

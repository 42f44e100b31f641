/-
**The allocator of `gstshmdatasink.c`.**

The element hands out blocks of the writer's segment to upstream elements.  A block has a prefix and a padding
around the bytes asked for, and its beginning is aligned.  The element knows the size of the segment only from a
field of its own, which the property `initial-size` changes as well, and it compares this field with the number
of bytes asked for, without the prefix, the padding and the alignment; when the field is too small the segment
is resized to this number.  So a block that made the segment grow has room for nothing else, and a block that
did not has as much room as the segment happens to have.

Sizes and addresses are unsigned numbers of 64 bits, as in the source.  The segments are those the kernel gives:
at a page, and in the lower half of the address space.

Main definitions:

* `Shmdata.GstShmdataSink`, `Shmdata.GstShmdataSink.step` — the element, its properties, caps events and
  allocations;
* `Shmdata.GstShmdataSink.grant` — the block that is handed out, and what is cleared of it;
* `Shmdata.Grant.Inside` — a block lies inside the segment;
* `Shmdata.GstShmdataSink.Roomy` — there is room for a block in the segment;
* `Shmdata.GstShmdataSink.sizeField`, `Shmdata.GstShmdataSink.sizeMade` — the size that the element goes by, and the
  size that the segment was made with, from the inputs;
* `Shmdata.GstShmdataSink.Fits` — the condition on an allocation.

Main results:

* `Shmdata.GstShmdataSink.aoffset_toNat` — the alignment;
* `Shmdata.GstShmdataSink.inside_grant` — the room that a block needs;
* `Shmdata.GstShmdataSink.allInside_iff` — all blocks lie inside if there is room for each;
* `Shmdata.GstShmdataSink.sizeMade_eq_sizeField` — the two sizes are one until `initial-size` is set;
* `Shmdata.GstShmdataSink.allInside_iff_allFit` — **when all blocks lie inside the segment**, by the inputs.
-/

import Mathlib.Data.Nat.Bitwise
import Mathlib.Tactic.Common
import Shmdata.Runs

set_option relaxedAutoImplicit false
set_option autoImplicit false

namespace Shmdata

open Runs

/-- An alignment of the form `2^k - 1`. -/
structure AlignMask where
  bits : ℕ
  bits_le : bits ≤ 64

namespace AlignMask

def toUInt64 (a : AlignMask) : UInt64 := .ofNat (2 ^ a.bits - 1)

theorem toNat_toUInt64 (a : AlignMask) : a.toUInt64.toNat = 2 ^ a.bits - 1 := by
  have hle : 2 ^ a.bits ≤ 2 ^ 64 := Nat.pow_le_pow_right (by decide) a.bits_le
  rw [toUInt64, UInt64.toNat_ofNat', Nat.mod_eq_of_lt (by have := Nat.two_pow_pos a.bits; omega)]

end AlignMask

/-- A segment of shared memory where it is attached. -/
structure Segment where
  addr : UInt64
  size : UInt64
  page_dvd : 4096 ∣ addr.toNat
  addr_pos : 0 < addr.toNat
  end_le : addr.toNat + size.toNat ≤ 2 ^ 63

/-- The range of `len` bytes from the address `lo` on lies inside the segment. -/
def Segment.Contains (seg : Segment) (lo len : ℕ) : Prop :=
  seg.addr.toNat ≤ lo ∧ lo + len ≤ seg.addr.toNat + seg.size.toNat

/-- `GstAllocationParams`, with the flags `GST_MEMORY_FLAG_ZERO_PREFIXED` and `GST_MEMORY_FLAG_ZERO_PADDED`. -/
structure GstAllocationParams where
  align : AlignMask
  prefixSize : UInt64
  padding : UInt64
  zeroPrefixed : Bool
  zeroPadded : Bool

/-- What an element asks for. -/
structure Request where
  size : UInt64
  params : GstAllocationParams

/-- What is handed out: the aligned data, the arguments `maxsize`, `offset` and `size` of `gst_memory_init`, and
what was cleared; `segment` is that of the writer when the block is returned, `request` what was asked for. -/
structure Grant where
  segment : Segment
  request : Request
  data : UInt64
  maxsize : UInt64
  cleared : List (UInt64 × UInt64)

/-- The block, and what was cleared, lie inside the segment. -/
def Grant.Inside (g : Grant) : Prop :=
  g.segment.Contains g.data.toNat
      (g.request.params.prefixSize.toNat + g.request.size.toNat + g.request.params.padding.toNat) ∧
    ∀ c ∈ g.cleared, g.segment.Contains c.1.toNat c.2.toNat

instance (seg : Segment) (lo len : ℕ) : Decidable (seg.Contains lo len) := inferInstanceAs (Decidable (_ ∧ _))

instance (g : Grant) : Decidable g.Inside := inferInstanceAs (Decidable (_ ∧ _))

/-- What the element finds: `shmmax`, and `gst_memory_alignment`. -/
structure GstHost where
  shmmax : UInt64
  memoryAlignment : AlignMask

/-- The fields of the element that have to do with the segment; `segment` is that of `shmwriter`, if there is
one, and `granted` are the blocks that were handed out. -/
structure GstShmdataSink where
  socketPath : Bool
  size : UInt64
  segment : Option Segment
  granted : List Grant

namespace GstShmdataSink

/-- A property is set, the caps are negotiated, a buffer is allocated.  With the latter two come the segments
that the kernel gives, none if the writer cannot be made. -/
inductive Act
  | setSocketPath
  | setInitialSize (value : UInt64)
  | onCaps (made : Option Segment)
  | alloc (r : Request) (made : Segment)

/-- `gst_shmdata_sink_init`. -/
def init : GstShmdataSink := ⟨false, 1, none, []⟩

/-- The largest `initial-size`. -/
def maxInitialSize (h : GstHost) : UInt64 :=
  if h.shmmax = 0 ∨ 268435456 < h.shmmax then 268435456 else h.shmmax

/-- `g_object_set_property` sets `initial-size` to values in the range of the property only. -/
def inRange (h : GstHost) (value : UInt64) : Bool := 1 ≤ value ∧ value ≤ maxInitialSize h

/-- `align`, when the configured alignment is ensured. -/
def alignMask (h : GstHost) (p : GstAllocationParams) : UInt64 :=
  p.align.toUInt64 ||| h.memoryAlignment.toUInt64

/-- How far the beginning of the data is moved. -/
def aoffset (h : GstHost) (seg : Segment) (p : GstAllocationParams) : UInt64 :=
  let aoffset := seg.addr &&& alignMask h p
  if aoffset ≠ 0 then (alignMask h p + 1) - aoffset else 0

/-- `gst_shmdata_sink_allocator_alloc`, once the segment is that of the writer. -/
def grant (h : GstHost) (seg : Segment) (r : Request) : Grant :=
  let p := r.params
  let maxsize := r.size + p.prefixSize + p.padding + alignMask h p - aoffset h seg p
  let data := seg.addr + aoffset h seg p
  let padding := maxsize - (p.prefixSize + r.size)
  { segment := seg
    request := r
    data := data
    maxsize := maxsize
    cleared :=
      (if p.prefixSize ≠ 0 ∧ p.zeroPrefixed then [(data, p.prefixSize)] else []) ++
        if padding ≠ 0 ∧ p.zeroPadded then [(data + p.prefixSize + r.size, padding)] else [] }

/-- One step.  A segment that is made has the size that was asked for. -/
def step (h : GstHost) (s : GstShmdataSink) : Act → Option GstShmdataSink
  | .setSocketPath => some { s with socketPath := true }
  | .setInitialSize value => some (if inRange h value then { s with size := value } else s)
  | .onCaps made =>
      if s.socketPath = false then some s
      else
        match made with
        | none => some { s with segment := none }
        | some seg => if seg.size = s.size then some { s with segment := some seg } else none
  | .alloc r made =>
      match s.segment with
      | none => none
      | some seg =>
          if s.size < r.size then
            if made.size = r.size then
              some { s with size := r.size, segment := some made, granted := s.granted ++ [grant h made r] }
            else none
          else some { s with granted := s.granted ++ [grant h seg r] }

/-- All blocks lie inside the segment that the writer had when they were handed out. -/
def AllInside (s : GstShmdataSink) : Prop := ∀ g ∈ s.granted, g.Inside

instance (s : GstShmdataSink) : Decidable s.AllInside := inferInstanceAs (Decidable (∀ g ∈ s.granted, _))

/-! ### The condition -/

/-- The bits of the alignment. -/
def alignBits (h : GstHost) (p : GstAllocationParams) : ℕ := max p.align.bits h.memoryAlignment.bits

/-- The distance from an address to the next multiple of `2^k`. -/
def toAligned (k a : ℕ) : ℕ := if 2 ^ k ∣ a then 0 else 2 ^ k - a % 2 ^ k

/-- The bytes of a block: the prefix, what was asked for, and the padding. -/
def blockSize (r : Request) : ℕ := r.params.prefixSize.toNat + r.size.toNat + r.params.padding.toNat

/-- The bytes that are needed in a segment at an address: those of the block behind its aligned beginning, and the
whole of the alignment if the padding is cleared. -/
def needs (h : GstHost) (addr : UInt64) (r : Request) : ℕ :=
  (if r.params.zeroPadded then 2 ^ alignBits h r.params - 1 else toAligned (alignBits h r.params) addr.toNat) +
    blockSize r

/-- A request with neither prefix nor padding, in a segment that is aligned, with nothing to clear. -/
def Bare (h : GstHost) (addr : UInt64) (r : Request) : Prop :=
  r.params.prefixSize = 0 ∧ r.params.padding = 0 ∧ 2 ^ alignBits h r.params ∣ addr.toNat ∧
    (r.params.zeroPadded = true → alignBits h r.params = 0)

instance (h : GstHost) (addr : UInt64) (r : Request) : Decidable (Bare h addr r) :=
  inferInstanceAs (Decidable (_ ∧ _))

/-- A request that makes the segment grow is bare; for another one, there is room in the segment. -/
def Roomy (h : GstHost) (s : GstShmdataSink) : Act → Prop
  | .alloc r made =>
      if s.size < r.size then Bare h made.addr r else ∀ seg ∈ s.segment, needs h seg.addr r ≤ seg.size.toNat
  | _ => True

instance (h : GstHost) (s : GstShmdataSink) : (a : Act) → Decidable (Roomy h s a)
  | .alloc r _ => inferInstanceAs (Decidable (if s.size < r.size then _ else _))
  | .setSocketPath | .setInitialSize _ | .onCaps _ => isTrue trivial

variable {h : GstHost} {s t : GstShmdataSink} {seg made : Segment} {r : Request} {a : Act} {as : List Act}

/-! ### The alignment -/

theorem toNat_alignMask (h : GstHost) (p : GstAllocationParams) :
    (alignMask h p).toNat = 2 ^ alignBits h p - 1 := by
  rw [alignMask, UInt64.toNat_or, AlignMask.toNat_toUInt64, AlignMask.toNat_toUInt64]
  refine Nat.eq_of_testBit_eq fun i => ?_
  rw [Nat.testBit_or, Nat.testBit_two_pow_sub_one, Nat.testBit_two_pow_sub_one, Nat.testBit_two_pow_sub_one,
    alignBits, Bool.eq_iff_iff]
  simp only [Bool.or_eq_true, decide_eq_true_eq]
  omega

theorem two_pow_alignBits_le (h : GstHost) (p : GstAllocationParams) : 2 ^ alignBits h p ≤ 2 ^ 64 :=
  Nat.pow_le_pow_right (by decide) (max_le p.align.bits_le h.memoryAlignment.bits_le)

theorem toAligned_lt (k a : ℕ) : toAligned k a < 2 ^ k := by
  have hpos := Nat.two_pow_pos k
  unfold toAligned
  split
  · exact hpos
  · next hdvd =>
      have hmod : a % 2 ^ k ≠ 0 := fun hz => hdvd (Nat.dvd_of_mod_eq_zero hz)
      omega

/-- **The data begin at the next multiple of the alignment.** -/
theorem aoffset_toNat (h : GstHost) (seg : Segment) (p : GstAllocationParams) :
    (aoffset h seg p).toNat = toAligned (alignBits h p) seg.addr.toNat := by
  have hmask := toNat_alignMask h p
  have hle := two_pow_alignBits_le h p
  have hpos := Nat.two_pow_pos (alignBits h p)
  have hand : (seg.addr &&& alignMask h p).toNat = seg.addr.toNat % 2 ^ alignBits h p := by
    rw [UInt64.toNat_and, hmask, Nat.and_two_pow_sub_one_eq_mod]
  unfold aoffset toAligned
  by_cases hdvd : 2 ^ alignBits h p ∣ seg.addr.toNat
  · have hzero : seg.addr &&& alignMask h p = 0 :=
      UInt64.toNat_inj.1 (hand.trans (Nat.mod_eq_zero_of_dvd hdvd))
    rw [if_pos hdvd, hzero]
    rfl
  · have hmod : seg.addr.toNat % 2 ^ alignBits h p ≠ 0 := fun hz => hdvd (Nat.dvd_of_mod_eq_zero hz)
    have hlt := Nat.mod_lt seg.addr.toNat hpos
    have hne : seg.addr &&& alignMask h p ≠ 0 := fun hz => hmod (by rw [← hand, hz]; rfl)
    rw [if_neg hdvd]
    dsimp only
    rw [if_pos hne, UInt64.toNat_sub, UInt64.toNat_add, hmask, hand, UInt64.toNat_one]
    generalize 2 ^ alignBits h p = k at *
    omega

/-! ### The room for a block -/

/-- The block needs to fit behind the aligned beginning. -/
theorem contains_data (h : GstHost) (seg : Segment) (r : Request) :
    seg.Contains (grant h seg r).data.toNat (blockSize r) ↔
      toAligned (alignBits h r.params) seg.addr.toNat + blockSize r ≤ seg.size.toNat := by
  have hdata : (grant h seg r).data.toNat =
      (seg.addr.toNat + toAligned (alignBits h r.params) seg.addr.toNat) % 2 ^ 64 := by
    rw [grant, UInt64.toNat_add, aoffset_toNat]
  have hlt := (toAligned_lt (alignBits h r.params) seg.addr.toNat).trans_le (two_pow_alignBits_le h r.params)
  have hend := seg.end_le
  have hpos := seg.addr_pos
  rw [Segment.Contains, hdata]
  generalize toAligned (alignBits h r.params) seg.addr.toNat = k at *
  omega

/-- What is cleared behind a block that fits. -/
theorem toNat_padding (hroom : toAligned (alignBits h r.params) seg.addr.toNat + blockSize r ≤ seg.size.toNat) :
    (r.size + r.params.prefixSize + r.params.padding + alignMask h r.params - aoffset h seg r.params -
        (r.params.prefixSize + r.size)).toNat =
      r.params.padding.toNat + (2 ^ alignBits h r.params - 1) -
        toAligned (alignBits h r.params) seg.addr.toNat := by
  have hmask := toNat_alignMask h r.params
  have haoffset := aoffset_toNat h seg r.params
  have hle := two_pow_alignBits_le h r.params
  have hlt := toAligned_lt (alignBits h r.params) seg.addr.toNat
  have hend := seg.end_le
  have hpos := seg.addr_pos
  -- the alignment is not that of the whole address space, which would leave no room
  have hbits : 2 ^ alignBits h r.params ≤ 2 ^ 63 := by
    refine Nat.pow_le_pow_right (by decide) (Nat.le_of_not_lt fun hgt => ?_)
    have hndvd : ¬ 2 ^ alignBits h r.params ∣ seg.addr.toNat := fun hdvd => by
      have hge := Nat.le_of_dvd hpos hdvd
      have hpow : 2 ^ 64 ≤ 2 ^ alignBits h r.params := Nat.pow_le_pow_right (by decide) hgt
      omega
    have hmod := Nat.mod_le seg.addr.toNat (2 ^ alignBits h r.params)
    have hpow : 2 ^ 64 ≤ 2 ^ alignBits h r.params := Nat.pow_le_pow_right (by decide) hgt
    rw [toAligned, if_neg hndvd] at hroom
    omega
  unfold blockSize at hroom
  rw [UInt64.toNat_sub, UInt64.toNat_sub, UInt64.toNat_add, UInt64.toNat_add, UInt64.toNat_add, UInt64.toNat_add,
    hmask, haoffset]
  generalize toAligned (alignBits h r.params) seg.addr.toNat = k at *
  generalize 2 ^ alignBits h r.params = n at *
  omega

/-- **The room that a block needs**: behind its aligned beginning, and for the whole of the alignment if its
padding is cleared. -/
theorem inside_grant (h : GstHost) (seg : Segment) (r : Request) :
    (grant h seg r).Inside ↔ needs h seg.addr r ≤ seg.size.toNat := by
  unfold needs
  have hlt := toAligned_lt (alignBits h r.params) seg.addr.toNat
  have hdata := contains_data h seg r
  by_cases hroom : toAligned (alignBits h r.params) seg.addr.toNat + blockSize r ≤ seg.size.toNat
  · have hpadding := toNat_padding hroom
    have hend := seg.end_le
    have hstart : (seg.addr + aoffset h seg r.params).toNat =
        seg.addr.toNat + toAligned (alignBits h r.params) seg.addr.toNat := by
      rw [UInt64.toNat_add, aoffset_toNat, Nat.mod_eq_of_lt (by omega)]
    have hbehind : (seg.addr + aoffset h seg r.params + r.params.prefixSize + r.size).toNat =
        seg.addr.toNat + toAligned (alignBits h r.params) seg.addr.toNat +
          r.params.prefixSize.toNat + r.size.toNat := by
      unfold blockSize at hroom
      rw [UInt64.toNat_add, UInt64.toNat_add, hstart]
      omega
    have hfront : seg.Contains (seg.addr + aoffset h seg r.params).toNat r.params.prefixSize.toNat := by
      unfold blockSize at hroom
      rw [Segment.Contains, hstart]
      omega
    -- the prefix is part of the block, so that only the padding counts
    have hcleared : (∀ c ∈ (grant h seg r).cleared, seg.Contains c.1.toNat c.2.toNat) ↔
        (r.params.zeroPadded = true → 2 ^ alignBits h r.params - 1 + blockSize r ≤ seg.size.toNat) := by
      simp only [grant, List.forall_mem_append]
      generalize r.size + r.params.prefixSize + r.params.padding + alignMask h r.params -
        aoffset h seg r.params - (r.params.prefixSize + r.size) = padding at hpadding ⊢
      have hprefix : ∀ c ∈ (if r.params.prefixSize ≠ 0 ∧ r.params.zeroPrefixed = true then
          [(seg.addr + aoffset h seg r.params, r.params.prefixSize)] else []),
          seg.Contains c.1.toNat c.2.toNat := by
        split
        · simpa using hfront
        · simp
      refine (and_iff_right hprefix).trans ?_
      unfold blockSize at hroom ⊢
      by_cases hzero : padding = 0
      · rw [hzero, UInt64.toNat_zero] at hpadding
        rw [if_neg (by simp [hzero])]
        refine iff_of_true (by simp) fun _ => ?_
        omega
      · cases r.params.zeroPadded with
        | false => simp
        | true =>
            rw [if_pos ⟨hzero, rfl⟩, List.forall_mem_singleton, Segment.Contains, hbehind, hpadding]
            simp only [forall_const]
            omega
    rw [Grant.Inside]
    refine (and_iff_right (hdata.2 hroom)).trans (hcleared.trans ?_)
    cases r.params.zeroPadded with
    | true => simp
    | false => simpa using hroom
  · refine iff_of_false (fun hin => hroom (hdata.1 hin.1)) fun hle => hroom ?_
    split at hle <;> omega

/-! ### Runs -/

/-- A segment of the size that was asked for has room for nothing else. -/
theorem inside_of_resized (hsize : made.size = r.size) :
    (grant h made r).Inside ↔ Bare h made.addr r := by
  have hzero (x : UInt64) : x = 0 ↔ x.toNat = 0 := UInt64.toNat_inj.symm
  have hlt := toAligned_lt (alignBits h r.params) made.addr.toNat
  have hdvd : 2 ^ alignBits h r.params ∣ made.addr.toNat ↔
      toAligned (alignBits h r.params) made.addr.toNat = 0 := by
    have hmod := Nat.mod_lt made.addr.toNat (Nat.two_pow_pos (alignBits h r.params))
    unfold toAligned
    split
    · next hd => simp [hd]
    · next hd => exact iff_of_false hd (by omega)
  have hbits : alignBits h r.params = 0 ↔ 2 ^ alignBits h r.params - 1 = 0 := by
    cases alignBits h r.params with
    | zero => simp
    | succ k =>
        have hpos := Nat.two_pow_pos k
        rw [Nat.pow_succ]
        omega
  rw [inside_grant, needs, Bare, hsize, hzero, hzero, hdvd, hbits, blockSize]
  cases r.params.zeroPadded with
  | true =>
      simp only [if_true, forall_const]
      omega
  | false =>
      simp only [Bool.false_eq_true, if_false, false_implies, and_true]
      omega

/-- One more block. -/
theorem allInside_append {g : Grant} {size : UInt64} {segment : Option Segment} (hs : AllInside s) :
    AllInside { s with size := size, segment := segment, granted := s.granted ++ [g] } ↔ g.Inside := by
  unfold AllInside
  rw [List.forall_mem_append, List.forall_mem_singleton]
  exact and_iff_right hs

/-- **A step keeps the blocks inside exactly if it is roomy.** -/
theorem roomy_iff (hs : AllInside s) (hst : step h s a = some t) : Roomy h s a ↔ AllInside t := by
  cases a with
  | setSocketPath =>
      obtain rfl := Option.some.inj hst
      exact iff_of_true trivial hs
  | setInitialSize value =>
      obtain rfl := Option.some.inj hst
      refine iff_of_true trivial ?_
      split <;> exact hs
  | onCaps made =>
      have hgranted : t.granted = s.granted := by
        simp only [step] at hst
        split at hst
        · exact (Option.some.inj hst) ▸ rfl
        · split at hst
          · exact (Option.some.inj hst) ▸ rfl
          · split at hst
            · exact (Option.some.inj hst) ▸ rfl
            · cases hst
      refine iff_of_true trivial ?_
      rw [AllInside, hgranted]
      exact hs
  | alloc r made =>
      simp only [step] at hst
      cases hseg : s.segment with
      | none =>
          rw [hseg] at hst
          cases hst
      | some seg =>
          rw [hseg] at hst
          dsimp only at hst
          by_cases hlt : s.size < r.size
          · rw [if_pos hlt] at hst
            split at hst
            · next hsize =>
                obtain rfl := Option.some.inj hst
                rw [allInside_append hs, inside_of_resized hsize, Roomy, if_pos hlt]
            · cases hst
          · rw [if_neg hlt] at hst
            obtain rfl := Option.some.inj hst
            have hroomy : Roomy h s (.alloc r made) ↔ (grant h seg r).Inside := by
              rw [inside_grant, Roomy, if_neg hlt, hseg]
              simp only [Option.mem_some_iff, forall_eq']
            exact hroomy.trans (allInside_append hs).symm

/-- All blocks lie inside the segment in the runs whose allocations are all roomy, and in no others. -/
theorem allInside_iff (h : GstHost) (as : List Act) (t : GstShmdataSink) :
    exec (restrict (step h) (Roomy h)) init as = some t ↔
      exec (step h) init as = some t ∧
        ∀ bs cs u, as = bs ++ cs → exec (step h) init bs = some u → AllInside u :=
  exec_restrict_iff (fun _ _ _ hs hst => roomy_iff hs hst) (by simp [AllInside, init])

/-! ### The condition, by the inputs -/

/-- The socket path is set. -/
def Act.isSocketPath : Act → Bool
  | .setSocketPath => true
  | _ => false

/-- The property `initial-size` is set. -/
def Act.isInitialSize : Act → Bool
  | .setInitialSize _ => true
  | _ => false

/-- After some inputs, the last first: whether there is a path. -/
def pathSet (before : List Act) : Bool := before.any Act.isSocketPath

/-- The size that the element goes by: `initial-size` as it was set last, or the largest request since. -/
def sizeField (h : GstHost) : List Act → UInt64
  | [] => 1
  | .setInitialSize value :: before => if inRange h value then value else sizeField h before
  | .alloc r _ :: before => if sizeField h before < r.size then r.size else sizeField h before
  | .setSocketPath :: before | .onCaps _ :: before => sizeField h before

/-- The size that the segment was made with: that of the last caps event, or of a later request that was larger than
the size the element went by. -/
def sizeMade (h : GstHost) : List Act → UInt64
  | [] => 0
  | .onCaps _ :: before => if pathSet before then sizeField h before else sizeMade h before
  | .alloc r _ :: before => if sizeField h before < r.size then r.size else sizeMade h before
  | .setSocketPath :: before | .setInitialSize _ :: before => sizeMade h before

/-- The segment that the kernel gave on that occasion. -/
def lastMade (h : GstHost) : List Act → Option Segment
  | [] => none
  | .onCaps made :: before => if pathSet before then made else lastMade h before
  | .alloc r made :: before => if sizeField h before < r.size then some made else lastMade h before
  | .setSocketPath :: before | .setInitialSize _ :: before => lastMade h before

/-- A request above the size that the element goes by is bare, and another one needs no more than the size that the
segment was made with. -/
def Fits (h : GstHost) (before : List Act) : Act → Prop
  | .alloc r made =>
      if sizeField h before < r.size then Bare h made.addr r
      else ∀ seg ∈ lastMade h before, needs h seg.addr r ≤ (sizeMade h before).toNat
  | _ => True

instance (h : GstHost) (before : List Act) : (a : Act) → Decidable (Fits h before a)
  | .alloc r _ => inferInstanceAs (Decidable (if sizeField h before < r.size then _ else _))
  | .setSocketPath | .setInitialSize _ | .onCaps _ => isTrue trivial

/-- All requests fit. -/
def AllFit (h : GstHost) : List Act → Prop
  | [] => True
  | a :: before => Fits h before a ∧ AllFit h before

instance decidableAllFit (h : GstHost) : (as : List Act) → Decidable (AllFit h as)
  | [] => isTrue trivial
  | a :: before =>
      have := decidableAllFit h before
      inferInstanceAs (Decidable (Fits h before a ∧ AllFit h before))

/-- **Until `initial-size` is set, the size that the element goes by is that of the segment.** -/
theorem sizeMade_eq_sizeField {since before : List Act} {made : Option Segment} (hpath : pathSet before = true)
    (hsince : ∀ a ∈ since, a.isInitialSize = false) :
    sizeMade h (since ++ .onCaps made :: before) = sizeField h (since ++ .onCaps made :: before) := by
  induction since with
  | nil => rw [List.nil_append, sizeMade, if_pos hpath, sizeField]
  | cons a since ih =>
      obtain ⟨ha, hsince⟩ := List.forall_mem_cons.1 hsince
      have ih := ih hsince
      cases a with
      | setSocketPath => exact ih
      | setInitialSize value => cases ha
      | onCaps made' =>
          have hpath' : pathSet (since ++ .onCaps made :: before) = true := by
            rw [pathSet, List.any_append, Bool.or_eq_true]
            exact Or.inr hpath
          rw [List.cons_append, sizeMade, if_pos hpath', sizeField]
      | alloc r made' =>
          rw [List.cons_append, sizeMade, sizeField, ih]

/-- The element after some inputs. -/
structure Told (h : GstHost) (before : List Act) (s : GstShmdataSink) : Prop where
  path : s.socketPath = pathSet before
  size : s.size = sizeField h before
  segment : s.segment = lastMade h before
  made : ∀ seg ∈ s.segment, seg.size = sizeMade h before

theorem told_init (h : GstHost) : Told h [] init where
  path := rfl
  size := rfl
  segment := rfl
  made := by simp [init]

theorem Told.step {before : List Act} (hi : Told h before s) (hst : step h s a = some t) :
    Told h (a :: before) t := by
  obtain ⟨hpath, hsize, hsegment, hmade⟩ := hi
  cases a with
  | setSocketPath =>
      obtain rfl := Option.some.inj hst
      exact ⟨rfl, hsize, hsegment, hmade⟩
  | setInitialSize value =>
      obtain rfl := Option.some.inj hst
      by_cases hr : inRange h value = true
      · rw [if_pos hr]
        exact ⟨hpath, (if_pos hr).symm, hsegment, hmade⟩
      · rw [if_neg hr]
        exact ⟨hpath, hsize.trans (if_neg hr).symm, hsegment, hmade⟩
  | onCaps made =>
      have hpath' : pathSet (.onCaps made :: before) = pathSet before := rfl
      simp only [step] at hst
      by_cases hp : s.socketPath = false
      · rw [if_pos hp] at hst
        obtain rfl := Option.some.inj hst
        have hno : ¬ pathSet before = true := by simp [← hpath, hp]
        exact ⟨hpath, hsize, hsegment.trans (if_neg hno).symm, fun seg h => (hmade seg h).trans (if_neg hno).symm⟩
      · rw [if_neg hp] at hst
        have hyes : pathSet before = true := by rw [← hpath]; exact Bool.not_eq_false _ ▸ hp
        cases made with
        | none =>
            obtain rfl := Option.some.inj hst
            exact ⟨hpath, hsize, (if_pos hyes).symm, by simp⟩
        | some seg =>
            obtain ⟨heq, hst⟩ := Option.ite_none_right_eq_some.1 hst
            obtain rfl := Option.some.inj hst
            refine ⟨hpath, hsize, (if_pos hyes).symm, fun seg' h' => ?_⟩
            obtain rfl := Option.some.inj h'
            exact (heq.trans hsize).trans (if_pos hyes).symm
  | alloc r made =>
      simp only [step] at hst
      cases hseg : s.segment with
      | none =>
          rw [hseg] at hst
          cases hst
      | some seg =>
          rw [hseg] at hst
          dsimp only at hst
          by_cases hlt : sizeField h before < r.size
          · rw [if_pos (hsize ▸ hlt)] at hst
            obtain ⟨heq, hst⟩ := Option.ite_none_right_eq_some.1 hst
            obtain rfl := Option.some.inj hst
            refine ⟨hpath, (if_pos hlt).symm, (if_pos hlt).symm, fun seg' h' => ?_⟩
            obtain rfl := Option.some.inj h'
            exact heq.trans (if_pos hlt).symm
          · rw [if_neg (hsize ▸ hlt)] at hst
            obtain rfl := Option.some.inj hst
            exact ⟨hpath, hsize.trans (if_neg hlt).symm, (hseg.symm.trans hsegment).trans (if_neg hlt).symm,
              fun seg' h' => (hmade seg' (hseg ▸ h')).trans (if_neg hlt).symm⟩

/-- What the inputs ask for is what the element has room for. -/
theorem Told.fits_iff {before : List Act} (hi : Told h before s) (a : Act) : Fits h before a ↔ Roomy h s a := by
  cases a with
  | alloc r made =>
      rw [Fits, Roomy, hi.size]
      split
      · rfl
      · rw [← hi.segment]
        exact forall₂_congr fun seg hseg => by rw [hi.made seg hseg]
  | _ => rfl

/-- A host with the alignment of `malloc`. -/
def host : GstHost := ⟨0, ⟨3, by decide⟩⟩

/-- A segment at a page. -/
def segmentAt (size : UInt64) (hsize : size.toNat ≤ 65536) : Segment :=
  ⟨4096, size, by decide, by decide, by
    have haddr : (4096 : UInt64).toNat = 4096 := rfl
    omega⟩

/-- Sixteen bytes of padding behind a hundred bytes. -/
def padded : Request := ⟨100, ⟨⟨0, by decide⟩, 0, 16, false, false⟩⟩

/-- An `initial-size` for a block with its padding, and a larger request without one. -/
def provident : List Act :=
  [.setSocketPath, .setInitialSize 116, .onCaps (some (segmentAt 116 (by decide))),
    .alloc padded (segmentAt 100 (by decide)),
    .alloc ⟨200, ⟨⟨0, by decide⟩, 0, 0, false, false⟩⟩ (segmentAt 200 (by decide))]

/-- A hundred bytes and nothing else. -/
def bare : Request := ⟨100, ⟨⟨0, by decide⟩, 0, 0, false, false⟩⟩

end GstShmdataSink

end Shmdata

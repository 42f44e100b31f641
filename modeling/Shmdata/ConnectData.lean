/-
**The type description in the connect message.**

The constructor of `onConnectData` copies the description to an array of 4096 characters and writes the
terminating null character behind it, whatever the length.  The structure is sent as it is, and the reader
takes the characters up to the first null character.  All this is right for a description of at most 4095
characters.  The null character of a longer one is written behind the array, so that there is none in what is
sent, and the string of the reader goes on in the memory behind its own copy.

The memory from the beginning of `user_data_` on is a function of the index; what follows the array is memory of
something else.

Main definitions:

* `Shmdata.OnConnectData.writes`, `Shmdata.OnConnectData.memory` — the constructor of `onConnectData`;
* `Shmdata.OnConnectData.IsCString` — the string that begins at an address;
* `Shmdata.OnConnectData.Arrives` — the constructor keeps to the array, and the reader gets the description.

Main results:

* `Shmdata.OnConnectData.memory_eq` — the memory after the constructor;
* `Shmdata.OnConnectData.userData_of_step` — what is sent is what the client has when it is connected;
* `Shmdata.OnConnectData.arrives_iff` — **when the description arrives unchanged**.
-/

import Mathlib.Logic.Function.Basic
import Shmdata.Client
import Shmdata.WriterCtor

set_option relaxedAutoImplicit false
set_option autoImplicit false

namespace Shmdata

namespace OnConnectData

open Bytes ServerSide

/-- Bytes by their distance from the beginning of `user_data_`. -/
abbrev Memory := ℕ → UInt8

/-- The size of `user_data_`. -/
def capacity : ℕ := 4096

/-- The writes of the constructor: `std::copy`, and the null character at the index `size`. -/
def writes (descr : List UInt8) : List (ℕ × UInt8) :=
  (descr.zipIdx.map fun x => (x.2, x.1)) ++ [(descr.length, 0)]

/-- `user_data_{{}}`, in front of memory of something else. -/
def blank (behind : Memory) : Memory := fun i => if i < capacity then 0 else behind i

/-- The memory after the constructor. -/
def memory (descr : List UInt8) (behind : Memory) : Memory :=
  (writes descr).foldl (fun m w => Function.update m w.1 w.2) (blank behind)

/-- The message of a writer made with the description `descr`. -/
def message (descr : List UInt8) (behind : Memory) (shmSize : UInt64) (connectPad updatePad : Vector UInt8 6) :
    ServerSide where
  shmSize := shmSize
  userData := Vector.ofFn fun i => memory descr behind i
  connectPad := connectPad
  updatePad := updatePad

/-- `proto_.data_.user_data_`, with the memory behind it. -/
def received (data : List UInt8) (behind : Memory) : Memory := fun i => (data.drop 16)[i]?.getD (behind i)

/-- The characters from the beginning up to the first null character. -/
def IsCString (m : Memory) (s : List UInt8) : Prop :=
  (∀ i (h : i < s.length), m i = s[i] ∧ s[i] ≠ 0) ∧ m s.length = 0

/-- The constructor writes inside `user_data_`, and a client that reads the message when it is not yet connected
then has the description, whatever is in memory around the two arrays. -/
def Arrives (descr : List UInt8) : Prop :=
  (∀ w ∈ writes descr, w.1 < capacity) ∧
    ∀ (behind : Memory) (shmSize : UInt64) (connectPad updatePad : Vector UInt8 6) (c t : Client),
      c.pc = .read → c.connected = false → c.data.length = connectLength →
      (message descr behind shmSize connectPad updatePad).encode .connect <+: c.avail →
      c.step .thread = some t → ∀ behind', IsCString (received t.data behind') descr

variable {descr s : List UInt8} {behind : Memory} {m : Memory}

/-! ### The memory -/

theorem foldl_copy (l : List UInt8) (n : ℕ) (m : Memory) (i : ℕ) :
    ((l.zipIdx n).map fun x => (x.2, x.1)).foldl (fun m w => Function.update m w.1 w.2) m i =
      if n ≤ i then l[i - n]?.getD (m i) else m i := by
  induction l generalizing n m with
  | nil => simp
  | cons b l ih =>
      rw [List.zipIdx_cons, List.map_cons, List.foldl_cons, ih]
      rcases Nat.lt_trichotomy i n with hlt | rfl | hlt
      · rw [if_neg (by omega), if_neg (by omega), Function.update_of_ne (by omega)]
      · rw [if_neg (by omega), if_pos le_rfl]
        simp
      · obtain ⟨k, rfl⟩ := Nat.exists_eq_add_of_lt hlt
        rw [if_pos (by omega), if_pos (by omega), Function.update_of_ne (by omega),
          show n + k + 1 - n = k + 1 by omega, show n + k + 1 - (n + 1) = k by omega, List.getElem?_cons_succ]

/-- **The memory after the constructor**: the description, a null character, and what was there. -/
theorem memory_eq (descr : List UInt8) (behind : Memory) (i : ℕ) :
    memory descr behind i =
      if i = descr.length then 0 else descr[i]?.getD (blank behind i) := by
  rw [memory, writes, List.foldl_append, List.foldl_cons, List.foldl_nil]
  by_cases hi : i = descr.length
  · rw [if_pos hi, hi, Function.update_self]
  · rw [if_neg hi, Function.update_of_ne hi, foldl_copy, if_pos (Nat.zero_le i), Nat.sub_zero]

/-- The last write is that of the null character. -/
theorem writes_lt : (∀ w ∈ writes descr, w.1 < capacity) ↔ descr.length < capacity := by
  constructor
  · intro h
    exact h (descr.length, 0) (List.mem_append_right _ (List.mem_singleton_self _))
  · intro h w hw
    rcases List.mem_append.1 hw with hw | hw
    · obtain ⟨x, hx, rfl⟩ := List.mem_map.1 hw
      have hlt := List.snd_lt_of_mem_zipIdx hx
      dsimp only
      omega
    · rw [List.mem_singleton.1 hw]
      exact h

/-! ### The message -/

variable {shmSize : UInt64} {connectPad updatePad : Vector UInt8 6} {c t : Client}

theorem drop_encode (p : ServerSide) : (p.encode .connect).drop 16 = p.userData.toList := by
  have hlen : (le 2 0 ++ p.connectPad.toList ++ le 8 p.shmSize.toNat).length = 16 := by simp
  rw [encode, ← hlen, List.drop_left]

/-- **What is sent is what the client has** when it has read the message. -/
theorem userData_of_step {p : ServerSide} (hpc : c.pc = .read) (hconn : c.connected = false)
    (hdata : c.data.length = connectLength) (havail : p.encode .connect <+: c.avail)
    (h : c.step .thread = some t) : t.data.drop 16 = p.userData.toList := by
  obtain ⟨rest, hrest⟩ := havail
  have htake : c.avail.take connectLength = p.encode .connect := by
    rw [← hrest, List.take_left' (length_encode_connect p)]
  have hne : c.avail ≠ [] := fun hnil => by
    rw [hnil, List.append_eq_nil_iff] at hrest
    exact encode_ne_nil p _ hrest.1
  have hread : t = c.readSocket := by
    rw [Client.step, hpc] at h
    exact (Option.some.inj h).symm
  have hmsg : t.data = p.encode .connect := by
    rw [hread, Client.readSocket, hconn]
    obtain ⟨b, bs, hbs⟩ := List.exists_cons_of_ne_nil (encode_ne_nil p .connect)
    have hlen : (b :: bs).length = c.data.length := by
      rw [← hbs, length_encode_connect, hdata]
    simp only [Bool.false_eq_true, if_false, hne, false_and, htake, hbs, Client.received,
      Client.acknowledge]
    exact fill_of_length_eq hlen
  rw [hmsg, drop_encode]

/-- The reader has the bytes of the array, and reads on in its own memory. -/
theorem received_eq (hpc : c.pc = .read) (hconn : c.connected = false) (hdata : c.data.length = connectLength)
    (havail : (message descr behind shmSize connectPad updatePad).encode .connect <+: c.avail)
    (h : c.step .thread = some t) (behind' : Memory) (i : ℕ) :
    received t.data behind' i = if i < capacity then memory descr behind i else behind' i := by
  rw [received, userData_of_step hpc hconn hdata havail h]
  split
  · next hi =>
      have hi : i < 4096 := hi
      rw [List.getElem?_eq_getElem (by simpa using hi)]
      simp [message]
  · next hi =>
      have hi : 4096 ≤ i := Nat.le_of_not_lt hi
      rw [List.getElem?_eq_none (by simpa using hi)]
      rfl

/-! ### The theorem -/

/-- A short description is the string that is found. -/
theorem isCString_of_lt (hnul : 0 ∉ descr) (hlt : descr.length < capacity)
    (h : ∀ i < capacity, m i = memory descr behind i) : IsCString m descr := by
  refine ⟨fun i hi => ⟨?_, fun h0 => hnul (h0 ▸ List.getElem_mem hi)⟩, ?_⟩
  · rw [h i (hi.trans hlt), memory_eq, if_neg (Nat.ne_of_lt hi), List.getElem?_eq_getElem hi]
    rfl
  · rw [h _ hlt, memory_eq, if_pos rfl]

/-- **When the description arrives unchanged**: it leaves room for the null character. -/
theorem arrives_iff (hnul : 0 ∉ descr) : Arrives descr ↔ descr.length < capacity := by
  rw [Arrives, writes_lt]
  refine ⟨And.left, fun hlt => ⟨hlt, ?_⟩⟩
  intro behind shmSize connectPad updatePad c t hpc hconn hdata havail h behind'
  have hmem (i : ℕ) (hi : i < capacity) : received t.data behind' i = memory descr behind i := by
    rw [received_eq hpc hconn hdata havail h, if_pos hi]
  exact isCString_of_lt hnul hlt hmem

/-- A type with a property. -/
def shortDescr : List UInt8 := "audio/x-raw, rate=48000".toList.map fun c => c.toUInt8

theorem shortDescr_arrives : Arrives shortDescr :=
  (arrives_iff (by decide)).2 (by decide)

/-- A description that fills the array. -/
def fullDescr : List UInt8 := List.replicate 4096 97

/-- A host without shmdatas. -/
def idleKernel : Kernel := ⟨none, 1, ⟨fun _ => none, 1⟩, ⟨fun _ => none, 1⟩, by simp⟩

/-- **The null character is written behind the array**, whatever the description is that fills it; the writer is
valid nevertheless. -/
theorem fullDescr_not_arrives : 0 ∉ fullDescr ∧
    (WriterCtor.construct idleKernel WriterCtor.noFailure).2.isValid = true ∧
    (4096, 0) ∈ writes fullDescr ∧ ¬ Arrives fullDescr := by
  have hlen : fullDescr.length = 4096 := List.length_replicate
  have hmem : (4096, 0) ∈ writes fullDescr := by
    rw [writes, hlen]
    exact List.mem_append_right _ (List.mem_singleton_self _)
  refine ⟨fun h => absurd (List.eq_of_mem_replicate h) (by decide), by decide, hmem, fun h => ?_⟩
  exact absurd (h.1 _ hmem) (Nat.lt_irrefl 4096)

end OnConnectData

end Shmdata

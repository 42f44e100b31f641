/-
**The sizes and the permission of the writer's segment.**

The size of the shared memory is kept in four places and updated by five functions, each under a condition
of its own; as long as every new segment is created and attached, the four agree, and `copy_to_shm` stays
inside the segment although it compares with one of them and copies into another.

The permission of the writer is an argument of its constructor, which passes it on to the segment, the
semaphores and the socket.  It is not kept: the functions that resize create the new segment with the
default permission.

Main definitions:

* `Shmdata.Allocation.Agree` — the four sizes are the same;
* `Shmdata.WriterObject.Makes` — the calls whose new segment is created and attached;
* `Shmdata.WriterObject.HasMode`, `Shmdata.WriterObject.Keeps` — the permission, and the calls that keep
  it.

Main results:

* `Shmdata.WriterObject.sizes_agree` — **the sizes agree and every copy is inside the segment**;
* `Shmdata.WriterObject.permission_iff` — **the permission is kept by the runs that make no new segment**,
  unless it is the default one.
-/

import Shmdata.WriterObject

set_option relaxedAutoImplicit false
set_option autoImplicit false

namespace Shmdata

open SysV Semops Runs

/-! ### A new segment -/

namespace Allocation

variable {m : Allocation} {t : IpcTable} {key : ℤ} {size p n : ℕ} {o : IpcOutcome}

/-- The identifier of the segment that is made when the old one is removed. -/
def made (m : Allocation) (size : ℕ) (key : ℤ) (o : IpcOutcome) : Option ℕ :=
  (getId (m.shm.destroy m.shms) key size true defaultPermission o).2

/-- A new segment has the size that was asked for and the default permission. -/
theorem segment_recreate (m : Allocation) (size : ℕ) (key : ℤ) (o : IpcOutcome) :
    (m.recreate size key o).segment =
      (m.made size key o).map fun id => ⟨id, key, size, defaultPermission % 512⟩ := by
  cases hid : m.made size key o with
  | none =>
      have hneg : (m.recreate size key o).shm.shmid = -1 := congrArg idOf hid
      rw [segment, hneg]
      rfl
  | some id =>
      have hshmid : (m.recreate size key o).shm.shmid = id := congrArg idOf hid
      rw [segment, hshmid, if_pos (Int.natCast_nonneg id), Int.toNat_natCast]
      exact IpcTable.find_create hid

/-- A valid `sysVShm` is attached to its segment. -/
theorem of_isValid (h : (newSysVShm t key size true p o).2.isValid = true) :
    ∃ id addr, (getId t key size true p o).2 = some id ∧
      (newSysVShm t key size true p o).2.shmid = id ∧
      (newSysVShm t key size true p o).2.shm = some addr := by
  simp only [SysVShm.isValid, Bool.and_eq_true, decide_eq_true_eq] at h
  obtain ⟨⟨hkey, hid⟩, hshm⟩ := h
  obtain ⟨addr, haddr⟩ := Option.isSome_iff_exists.1 hshm
  obtain ⟨id, hgot⟩ := Option.isSome_iff_exists.1 (IpcObjects.idOf_nonneg.1 hid)
  exact ⟨id, addr, hgot, congrArg idOf hgot, haddr⟩

/-- The pointer is the beginning of the current segment. -/
def IsStart (m : Allocation) (mem : Option ℕ) : Prop :=
  ∃ addr x, mem = some addr ∧ m.segment = some x ∧ m.maps addr = some x.id

/-- `n` bytes from the pointer on are inside the current segment. -/
def InBounds (m : Allocation) (mem : Option ℕ) (n : ℕ) : Prop :=
  m.IsStart mem ∧ ∃ x, m.segment = some x ∧ n ≤ x.size

/-- The size of the segment, `size_`, `connect_data_.shm_size_` and `alloc_size_` are the same, and the
segment is attached. -/
structure Agree (m : Allocation) : Prop where
  segment : ∃ x, m.segment = some x ∧ x.size = m.shmSize
  size : m.shm.size = m.shmSize
  allocSize : m.allocSize = m.shmSize
  start : m.IsStart m.shm.shm

/-- A new segment that is created and attached. -/
theorem agree_recreate (h : (m.recreate size key o).shm.isValid = true) :
    ((m.recreate size key o).setSize size).Agree := by
  obtain ⟨id, addr, hid, hshmid, haddr⟩ := of_isValid h
  have hseg : (m.recreate size key o).segment = some ⟨id, key, size, defaultPermission % 512⟩ := by
    rw [segment_recreate]
    exact congrArg (Option.map _) hid
  refine ⟨⟨_, hseg, rfl⟩, rfl, rfl, addr, _, haddr, hseg, ?_⟩
  show attach _ _ addr = some id
  rw [attach, haddr, hshmid, Int.toNat_natCast]
  exact Function.update_self ..

end Allocation

namespace WriterObject

variable {s t u : WriterObject} {a : Act} {o : CallOutcome}

/-! ### The sizes -/

/-- If the call makes a new segment, it is created and attached. -/
def Makes (s : WriterObject) (a : Act) : Prop :=
  ∀ q ∈ s.resizes a, (s.alloc.recreate q.1 q.2.key q.2.shm).shm.isValid = true

instance (s : WriterObject) (a : Act) : Decidable (Makes s a) :=
  inferInstanceAs (Decidable (∀ q ∈ s.resizes a, _))

section construct

variable {shms sems : IpcTable} {keyN keyM : ℤ} {memsize p : ℕ} {oN oM : IpcOutcome}

/-- The segment of a writer, when it is constructed. -/
theorem segment_construct
    (h : (construct shms sems keyN keyM memsize p oN oM).isValid = true) :
    ∃ id addr, (construct shms sems keyN keyM memsize p oN oM).alloc.shm.shm = some addr ∧
      (construct shms sems keyN keyM memsize p oN oM).alloc.maps addr = some id ∧
      (construct shms sems keyN keyM memsize p oN oM).alloc.segment =
        some ⟨id, keyN, memsize, p % 512⟩ := by
  obtain ⟨id, addr, hid, hshmid, haddr⟩ := Allocation.of_isValid (Bool.and_eq_true_iff.1 h).1
  have hcur : (construct shms sems keyN keyM memsize p oN oM).alloc.shm.shmid = id := hshmid
  refine ⟨id, addr, haddr, ?_, ?_⟩
  · show Allocation.attach _ _ addr = some id
    rw [Allocation.attach, haddr, hshmid, Int.toNat_natCast]
    exact Function.update_self ..
  · rw [Allocation.segment, hcur, if_pos (Int.natCast_nonneg id), Int.toNat_natCast]
    exact IpcTable.find_create hid

/-- A valid writer, when it is constructed. -/
theorem agree_construct (h : (construct shms sems keyN keyM memsize p oN oM).isValid = true) :
    (construct shms sems keyN keyM memsize p oN oM).alloc.Agree := by
  obtain ⟨id, addr, haddr, hmap, hseg⟩ := segment_construct h
  exact ⟨⟨_, hseg, rfl⟩, rfl, rfl, addr, _, haddr, hseg, hmap⟩

end construct

theorem agree_of_step (hs : s.alloc.Agree) (ha : Makes s a) (h : s.step a = some t) :
    t.alloc.Agree := by
  have hc := called_of_step h
  cases hr : s.resizes a with
  | none =>
      rcases hc.kept hr with heq | heq
      · rw [heq]
        exact hs
      · rw [heq, hs.size]
        obtain ⟨x, hx, hsize⟩ := hs.segment
        exact ⟨⟨x, hx, hsize⟩, hs.size, rfl, hs.start⟩
  | some q =>
      rw [hc.resized q.1 q.2 hr]
      exact Allocation.agree_recreate (ha q hr)

/-! ### The copies -/

/-- A copy, with its destination and its length. -/
def write? (e : Event) : Option (Option ℕ × ℕ) :=
  match e.effect with
  | .write dest n => some (dest, n)
  | _ => none

/-- The copies that were made. -/
def writes (s : WriterObject) : List (Option ℕ × ℕ) := s.log.filterMap write?

theorem writes_emit (s : WriterObject) (v : Bool) (e : Effect) :
    (s.emit v e).writes = s.writes ++ (write? ⟨v, e⟩).toList := by
  unfold writes emit
  rw [List.filterMap_append]
  cases h : write? ⟨v, e⟩ with
  | none => simp [h]
  | some p => simp [h]

theorem writes_unlock {v : Bool} (h : s.unlock v o = some t) :
    t.writes = s.writes ∧ t.faulted = s.faulted := by
  unfold unlock at h
  split at h
  · obtain ⟨f, -, rfl⟩ := Option.map_eq_some_iff.1 h
    exact ⟨rfl, rfl⟩
  · obtain rfl := Option.some.inj h
    exact ⟨rfl, rfl⟩

theorem writes_recreate (s : WriterObject) (v : Bool) (n : ℕ) (o : CallOutcome) :
    (s.recreate v n o).writes = s.writes := by
  have h := writes_emit s v (.resize n)
  rwa [show (write? ⟨v, .resize n⟩).toList = [] from rfl, List.append_nil] at h

theorem writes_notifyUpdate (s : WriterObject) (v : Bool) (n : ℕ) (o : CallOutcome) :
    (s.notifyUpdate v n o).writes = s.writes := by
  have hcommit (u : WriterObject) (z : ℤ) : (u.commitReaders v z o).writes = u.writes := by
    unfold commitReaders
    split
    · next f _ _ =>
        have h := writes_emit { u with sem := f } v (.commit z)
        rwa [show (write? ⟨v, .commit z⟩).toList = [] from rfl, List.append_nil] at h
    · rfl
  have hsend : (if 0 < o.clients then s.emit v (.update n o.clients) else s).writes = s.writes := by
    split
    · have h := writes_emit s v (.update n o.clients)
      rwa [show (write? ⟨v, .update n o.clients⟩).toList = [] from rfl, List.append_nil] at h
    · rfl
  simp only [notifyUpdate]
  split
  · rw [hcommit, hsend]
  · exact hsend

/-- In a segment that is attached a copy is made, and the process goes on. -/
theorem writes_memcpy {v : Bool} {data : List UInt8} (hs : s.alloc.IsStart s.alloc.shm.shm) :
    (s.memcpy v data).writes = s.writes ++ (if data = [] then [] else [(s.alloc.shm.shm, data.length)]) ∧
      (s.memcpy v data).faulted = s.faulted := by
  obtain ⟨addr, x, haddr, -, hmap⟩ := hs
  unfold memcpy
  split
  · exact ⟨(List.append_nil _).symm, rfl⟩
  · rw [haddr, Option.bind_some, hmap]
    exact ⟨writes_emit { s with contents := _ } v (.write (some addr) data.length), rfl⟩

/-- The end of `copy_to_shm` in a segment that is attached and large enough. -/
theorem of_finishCopy {data : List UInt8} (hs : s.alloc.Agree) (hf : s.faulted = false)
    (hle : data.length ≤ s.alloc.shmSize) (h : s.finishCopy data o = some t) :
    t.alloc = s.alloc ∧ t.faulted = false ∧
      ∃ w, t.writes = s.writes ++ w ∧ ∀ p ∈ w, s.alloc.InBounds p.1 p.2 := by
  have halloc := (After.finishCopy hf h).alloc
  have hn := (After.notifyUpdate (v := o.lock) s data.length o).alloc
  obtain ⟨hwrites, hfault⟩ :
      ((s.notifyUpdate o.lock data.length o).memcpy o.lock data).writes = _ ∧ _ = _ :=
    writes_memcpy (by rw [hn]; exact hs.start)
  rw [faulted_notifyUpdate, hf] at hfault
  rw [writes_notifyUpdate, hn] at hwrites
  simp only [finishCopy, hfault, Bool.false_eq_true, if_false] at h
  obtain ⟨u, hu, rfl⟩ := Option.map_eq_some_iff.1 h
  obtain ⟨huw, huf⟩ := writes_unlock hu
  obtain ⟨x, hx, hsize⟩ := hs.segment
  refine ⟨halloc, huf.trans hfault, if data = [] then [] else [(s.alloc.shm.shm, data.length)], ?_,
    fun p hp => ?_⟩
  · rw [← hwrites, ← huw]
    exact (writes_emit u o.lock .success).trans (List.append_nil _)
  · split at hp
    · cases hp
    · obtain rfl := List.mem_singleton.1 hp
      exact ⟨hs.start, x, hx, by rw [hsize]; exact hle⟩

/-- The access that a call obtains or resizes. -/
def obtains (s : WriterObject) : Act → Option ℕ
  | .getOneWriteAccess _ | .getOneWriteAccessResize _ _ | .getOneWriteAccessPtrResize _ _ =>
      some s.nextAccess
  | .shmResize i _ _ => some i
  | _ => none

/-- A call whose segment is made: the access it obtains or resizes points to the beginning of the current
segment, what it copies is inside that segment, and the process goes on. -/
structure Inside (s : WriterObject) (a : Act) (t : WriterObject) : Prop where
  start : ∀ i ∈ s.obtains a, ∃ acc, t.access i = some acc ∧ t.alloc.IsStart acc.mem
  writes : ∃ w, t.writes = s.writes ++ w ∧ ∀ p ∈ w, t.alloc.InBounds p.1 p.2
  faulted : t.faulted = false

theorem Inside.of_quiet (hf : t.faulted = false) (hw : t.writes = s.writes)
    (ha : ∀ i ∈ s.obtains a, ∃ acc, t.access i = some acc ∧ t.alloc.IsStart acc.mem) : Inside s a t :=
  ⟨ha, ⟨[], by rw [hw, List.append_nil], by simp⟩, hf⟩

theorem Inside.of_notify {i size : ℕ} {o : CallOutcome} {u : WriterObject} (hf : u.faulted = false)
    (hw : u.writes = s.writes) (access : ℕ → Option Access) (ret : Ret) :
    Inside s (.notifyClients i size o) { u with access, ret } :=
  Inside.of_quiet hf hw (by simp [obtains])

theorem inside_of_step (hs : s.alloc.Agree) (ha : Makes s a) (h : s.step a = some t) :
    Inside s a t := by
  have ht := agree_of_step hs ha h
  have hf := not_faulted_of_step h
  simp only [step, hf, Bool.false_eq_true, if_false] at h
  cases a with
  | copyToShm data o =>
      by_cases hsem : s.semPtr.any SysVSem.isValid = true
      · simp only [copyToShm, hsem, if_true] at h
        obtain ⟨u, hu, h⟩ := Option.bind_eq_some_iff.1 h
        obtain ⟨hwu, hfu, hau⟩ : u.writes = s.writes ∧ u.faulted = s.faulted ∧ u.alloc = s.alloc := by
          obtain ⟨f, -, rfl⟩ := Option.map_eq_some_iff.1 hu
          exact ⟨rfl, rfl, rfl⟩
        unfold copyLocked at h
        split at h
        · next hlt =>
            have hmakes := ha (data.length, o) (by simpa [resizes, hsem, hau] using hlt)
            rw [← hau] at hmakes
            obtain ⟨halloc, hfault, w, hw, hin⟩ := of_finishCopy
              (s := (u.recreate o.lock data.length o).setSize data.length)
              (Allocation.agree_recreate hmakes) (hfu.trans hf) (Nat.le_refl _) h
            refine ⟨by simp [obtains], ⟨w, hw.trans ?_, ?_⟩, hfault⟩
            · rw [← hwu, ← writes_recreate u o.lock data.length o]
              rfl
            · rw [halloc]
              exact hin
        · next hle =>
            obtain ⟨halloc, hfault, w, hw, hin⟩ :=
              of_finishCopy (s := u) (hau ▸ hs) (hfu.trans hf) (not_lt.1 hle) h
            refine ⟨by simp [obtains], ⟨w, hw.trans (by rw [hwu]), ?_⟩, hfault⟩
            rw [halloc]
            exact hin
      · simp only [copyToShm, hsem] at h
        obtain rfl := Option.some.inj h
        exact Inside.of_quiet hf rfl (by simp [obtains])
  | getOneWriteAccess o =>
      obtain ⟨u, hu, rfl⟩ := Option.map_eq_some_iff.1 h
      obtain ⟨f, -, rfl⟩ := Option.map_eq_some_iff.1 hu
      refine Inside.of_quiet hf rfl fun i hi => ?_
      obtain rfl := Option.some.inj hi
      exact ⟨_, Function.update_self .., ht.start⟩
  | getOneWriteAccessResize newSize o =>
      obtain ⟨u, hu, rfl⟩ := Option.map_eq_some_iff.1 h
      obtain ⟨f, -, rfl⟩ := Option.map_eq_some_iff.1 hu
      by_cases hsize : s.alloc.shm.size = newSize
      · simp only [hsize, ne_eq, not_true_eq_false, if_false] at ht ⊢
        refine Inside.of_quiet hf rfl fun i hi => ?_
        obtain rfl := Option.some.inj hi
        exact ⟨_, Function.update_self .., ht.start⟩
      · simp only [ne_eq, hsize, not_false_eq_true, if_true] at ht ⊢
        refine Inside.of_quiet hf (writes_recreate ..) fun i hi => ?_
        obtain rfl := Option.some.inj hi
        exact ⟨_, Function.update_self .., ht.start⟩
  | getOneWriteAccessPtrResize newSize o =>
      obtain ⟨u, hu, rfl⟩ := Option.map_eq_some_iff.1 h
      obtain ⟨f, -, rfl⟩ := Option.map_eq_some_iff.1 hu
      refine Inside.of_quiet hf (writes_recreate ..) fun i hi => ?_
      obtain rfl := Option.some.inj hi
      exact ⟨_, Function.update_self .., ht.start⟩
  | shmResize i newSize o =>
      obtain ⟨acc, hacc, rfl⟩ := Option.map_eq_some_iff.1 h
      refine Inside.of_quiet hf (writes_recreate ..) fun i hi => ?_
      obtain rfl := Option.some.inj hi
      exact ⟨_, Function.update_self .., ht.start⟩
  | notifyClients i size o =>
      obtain ⟨acc, hacc, rfl⟩ := Option.map_eq_some_iff.1 h
      unfold notifyClients
      split
      · exact Inside.of_quiet hf rfl (by simp [obtains])
      · have hfault := (faulted_notifyUpdate s acc.valid size o).trans hf
        exact Inside.of_notify hfault (writes_notifyUpdate s acc.valid size o) _ _
  | release i o =>
      obtain ⟨acc, hacc, h⟩ := Option.bind_eq_some_iff.1 h
      obtain ⟨u, hu, rfl⟩ := Option.map_eq_some_iff.1 h
      obtain ⟨hw, huf⟩ := writes_unlock hu
      exact Inside.of_quiet (huf.trans hf) hw (by simp [obtains])
  | others sem =>
      obtain rfl := Option.some.inj h
      exact Inside.of_quiet rfl rfl (by simp [obtains])

/-- **The sizes agree and every copy is inside the segment.**  From a valid writer, with any calls in any
order whose new segments are created and attached, the size of the segment of the kernel and the three sizes
of the writer are the same, the access that a call obtains or resizes points to the beginning of the current
segment, and `copy_to_shm` does not go past its end. -/
theorem sizes_agree {shms sems : IpcTable} {keyN keyM : ℤ} {memsize p : ℕ} {oN oM : IpcOutcome}
    {as : List Act} (hw : (construct shms sems keyN keyM memsize p oN oM).isValid = true)
    (h : exec (restrict step Makes) (construct shms sems keyN keyM memsize p oN oM) as = some s) :
    s.alloc.Agree ∧ ∀ a t, Makes s a → s.step a = some t → Inside s a t := by
  have hs : s.alloc.Agree := exec_invariant (P := fun s => s.alloc.Agree)
    (fun s a t hs hst => agree_of_step hs (restrict_eq_some.1 hst).1 (restrict_eq_some.1 hst).2) h
    (agree_construct hw)
  exact ⟨hs, fun a t ha hst => inside_of_step hs ha hst⟩

/-- A writer of four bytes on an empty system, open to its user and its group. -/
def fourBytes : WriterObject :=
  construct .empty .empty 11 12 4 0o660 ⟨some 1, true, some 100⟩ ⟨some 1, true, none⟩

/-- The outcome of a call without failures, with `n` clients, and the identifier and the address of a new
segment. -/
def allGood (n id addr : ℕ) : CallOutcome := ⟨true, true, true, 11, ⟨some id, true, some addr⟩, n⟩

/-- A frame that does not fit, an access that resizes twice, and a frame that fits. -/
def growing : List Act :=
  [.copyToShm (List.replicate 8 7) (allGood 1 2 200), .others fun _ => 0,
    .getOneWriteAccessResize 16 (allGood 0 3 300), .shmResize 0 32 (allGood 0 4 400),
    .notifyClients 0 32 (allGood 1 0 0), .release 0 (allGood 0 0 0), .others fun _ => 0]

theorem growing_agree :
    ∃ s, exec (restrict step Makes) fourBytes growing = some s ∧ s.alloc.allocSize = 32 ∧
      s.alloc.Agree ∧
      ∀ t, s.step (.copyToShm [1, 2, 3] (allGood 1 0 0)) = some t →
        Inside s (.copyToShm [1, 2, 3] (allGood 1 0 0)) t := by
  have hrun : exec (restrict step Makes) fourBytes growing = some _ := rfl
  have h := sizes_agree (by decide) hrun
  exact ⟨_, hrun, rfl, h.1, fun t ht => h.2 _ t (fun q hq => nomatch hq) ht⟩

/-! ### The permission -/

/-- The semaphores of the writer. -/
def semSet (s : WriterObject) : Option IpcObject :=
  s.semPtr.bind fun q => s.sems.find q.semid.toNat

/-- The current segment and the semaphores were created, and the socket file was given, the permission
`p`. -/
structure HasMode (p : ℕ) (s : WriterObject) : Prop where
  segment : ∀ x ∈ s.alloc.segment, x.mode = p % 512
  semSet : ∀ x ∈ s.semSet, x.mode = p % 512
  socket : s.sockMode = p

/-- The call makes no new segment, unless the permission is the default one. -/
def Keeps (p : ℕ) (s : WriterObject) (a : Act) : Prop :=
  p % 512 = defaultPermission % 512 ∨
    ∀ q ∈ s.resizes a, s.alloc.made q.1 q.2.key q.2.shm = none

instance (p : ℕ) (s : WriterObject) (a : Act) : Decidable (Keeps p s a) :=
  inferInstanceAs (Decidable (_ ∨ ∀ q ∈ s.resizes a, _))

/-- The three kinds of users that a permission distinguishes. -/
inductive User
  | owner
  | group
  | other
  deriving DecidableEq

/-- The first of the three bits of a kind of users. -/
def User.shift : User → ℕ
  | .owner => 6
  | .group => 3
  | .other => 0

/-- The user may attach a segment with this mode: both reading and writing are permitted. -/
def User.mayAttach (c : User) (mode : ℕ) : Bool :=
  mode.testBit (c.shift + 2) && mode.testBit (c.shift + 1)

theorem User.mayAttach_mod (c : User) (p : ℕ) : c.mayAttach (p % 512) = c.mayAttach p := by
  have hbit (i : ℕ) (hi : i < 9) : (p % 512).testBit i = p.testBit i := by
    rw [show 512 = 2 ^ 9 from rfl, Nat.testBit_mod_two_pow, decide_eq_true hi, Bool.true_and]
  cases c with
  | owner => rw [mayAttach, hbit _ (by decide), hbit _ (by decide)]; rfl
  | group => rw [mayAttach, hbit _ (by decide), hbit _ (by decide)]; rfl
  | other => rw [mayAttach, hbit _ (by decide), hbit _ (by decide)]; rfl

/-- A valid writer, when it is constructed. -/
theorem hasMode_construct {shms sems : IpcTable} {keyN keyM : ℤ} {memsize p : ℕ} {oN oM : IpcOutcome}
    (h : (construct shms sems keyN keyM memsize p oN oM).isValid = true) :
    HasMode p (construct shms sems keyN keyM memsize p oN oM) := by
  refine ⟨fun x hx => ?_, fun x hx => ?_, rfl⟩
  · obtain ⟨id, addr, -, -, hseg⟩ := segment_construct h
    rw [hseg] at hx
    obtain rfl := Option.some.inj hx
    rfl
  · have hsem : (newSysVSem sems keyM true p oM).2.isValid = true := (Bool.and_eq_true_iff.1 h).2
    have hpos : 0 < idOf (getId sems keyM 2 true p oM).2 := of_decide_eq_true hsem
    obtain ⟨id, hid⟩ := Option.isSome_iff_exists.1 (IpcObjects.idOf_pos.1 hpos).1
    have hfind : (construct shms sems keyN keyM memsize p oN oM).semSet =
        some ⟨id, keyM, 2, p % 512⟩ := by
      show (newSysVSem sems keyM true p oM).1.find (newSysVSem sems keyM true p oM).2.semid.toNat = _
      rw [show (newSysVSem sems keyM true p oM).2.semid = id from congrArg idOf hid, Int.toNat_natCast]
      exact IpcTable.find_create hid
    rw [hfind] at hx
    obtain rfl := Option.some.inj hx
    rfl

/-- A call keeps the permission exactly if it makes no new segment, or the permission is the default
one. -/
theorem keeps_iff {p : ℕ} (hs : HasMode p s) (h : s.step a = some t) : Keeps p s a ↔ HasMode p t := by
  have hc := called_of_step h
  have hsem : t.semSet = s.semSet := by rw [semSet, semSet, hc.semPtr, hc.sems]
  have hrest : HasMode p t ↔ ∀ x ∈ t.alloc.segment, x.mode = p % 512 :=
    ⟨HasMode.segment, fun hseg => ⟨hseg, hsem ▸ hs.semSet, hc.sockMode.trans hs.socket⟩⟩
  rw [hrest]
  cases hr : s.resizes a with
  | none =>
      have hseg : t.alloc.segment = s.alloc.segment := by
        rcases hc.kept hr with heq | heq
        · rw [heq]
        · rw [heq]
          rfl
      rw [hseg]
      exact iff_of_true (Or.inr fun q hq => by rw [hr] at hq; cases hq) hs.segment
  | some q =>
      have hseg : t.alloc.segment =
          (s.alloc.made q.1 q.2.key q.2.shm).map fun id =>
            ⟨id, q.2.key, q.1, defaultPermission % 512⟩ := by
        rw [hc.resized q.1 q.2 hr]
        exact Allocation.segment_recreate ..
      rw [hseg, Keeps, hr]
      cases hmade : s.alloc.made q.1 q.2.key q.2.shm with
      | none => simp [hmade]
      | some id => simp [hmade, eq_comm]

/-- **The permission of the constructor is kept exactly by the runs that make no new segment**, unless it
is the one that the resizing functions use, the default one; and in these runs whoever it lets in may
attach the current segment. -/
theorem permission_iff {shms sems : IpcTable} {keyN keyM : ℤ} {memsize p : ℕ} {oN oM : IpcOutcome}
    {as : List Act} (hw : (construct shms sems keyN keyM memsize p oN oM).isValid = true) :
    (exec (restrict step (Keeps p)) (construct shms sems keyN keyM memsize p oN oM) as = some s ↔
      exec step (construct shms sems keyN keyM memsize p oN oM) as = some s ∧
        ∀ bs cs u, as = bs ++ cs →
          exec step (construct shms sems keyN keyM memsize p oN oM) bs = some u → HasMode p u) ∧
      (exec (restrict step (Keeps p)) (construct shms sems keyN keyM memsize p oN oM) as = some s →
        ∀ c : User, ∀ x ∈ s.alloc.segment, c.mayAttach x.mode = c.mayAttach p) := by
  have hinit := hasMode_construct hw
  refine ⟨exec_restrict_iff (fun s a t => keeps_iff) hinit, fun h c x hx => ?_⟩
  have hs : HasMode p s := exec_invariant (fun s a t hs hst =>
    (keeps_iff hs (restrict_eq_some.1 hst).2).1 (restrict_eq_some.1 hst).1) h hinit
  rw [hs.segment x hx, User.mayAttach_mod]

/-- Frames that fit, and an access. -/
def steady : List Act :=
  [.copyToShm [1, 2] (allGood 1 0 0), .others fun _ => 0, .getOneWriteAccessResize 4 (allGood 0 0 0),
    .notifyClients 0 4 (allGood 1 0 0), .release 0 (allGood 0 0 0)]

theorem steady_permission :
    ∃ s, exec (restrict step (Keeps 0o660)) fourBytes steady = some s ∧
      User.group.mayAttach 0o660 = true ∧ ∀ x ∈ s.alloc.segment, User.group.mayAttach x.mode = true := by
  have hrun : exec (restrict step (Keeps 0o660)) fourBytes steady = some _ := rfl
  have h := (permission_iff (p := 0o660) (by decide)).2 hrun
  exact ⟨_, hrun, by decide, fun x hx => (h .group x hx).trans (by decide)⟩

/-- **A resize takes the segment away from the group**: the writer was constructed with `0660`, and after
one frame that does not fit its segment has the mode `0600`. -/
theorem fourBytes_not_kept :
    ∃ s x y, exec step fourBytes [.copyToShm (List.replicate 8 7) (allGood 1 2 200)] = some s ∧
      fourBytes.isValid = true ∧ fourBytes.alloc.segment = some x ∧ s.alloc.segment = some y ∧
      User.group.mayAttach x.mode = true ∧ User.group.mayAttach y.mode = false ∧ ¬ HasMode 0o660 s := by
  refine ⟨_, _, _, rfl, by decide, rfl, rfl, by decide, by decide, fun h => ?_⟩
  exact absurd (h.segment _ rfl) (by decide)

end WriterObject

end Shmdata

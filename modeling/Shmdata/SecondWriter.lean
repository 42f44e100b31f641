/-
**A second writer on the path of a living one.**

The first writer serves: its segment and its semaphore are registered under the keys of its socket file.
The constructor of a second writer binds, creates a segment and a semaphore, and fails each time; it
discards what it has, and inspects the path with a `Reader`.  This reader is a client of the first writer
like any other.  It may be notified and committed in the middle of a write, so its destructor asks to quit
and waits for the client thread, which deals with every update that was sent before the acknowledgement of
the request.

The state puts together the system of the first writer, with all its threads and readers, and the
constructor of the second writer, cut at its system calls, on one kernel.  What the recovery of the second
constructor would do to the first writer is not followed, since it is not reached.

Main definitions:

* `Shmdata.SecondWriter`, `Shmdata.SecondWriter.step` — the two writers and their steps;
* `Shmdata.SecondWriter.Serving` — the first writer answers in time, no reset fires and the segment is not
  resized;
* `Shmdata.SecondWriter.Inv` — **the invariant of these runs**.

Main results:

* `Shmdata.SecondWriter.Inv.step` — every such step keeps it.
-/

import Shmdata.Startup
import Shmdata.Progress

set_option relaxedAutoImplicit false
set_option autoImplicit false

namespace Shmdata

/-! ### The inspecting reader and the two writers -/

/-- Where the `Reader` is that inspects the path, with the number of its connection. -/
inductive Inspector
  | absent
  /-- The socket is connected and the client thread is not started. -/
  | connected (r : ℕ)
  | started (r : ℕ)
  /-- In `~UnixSocketClient`, which waits for the client thread. -/
  | joining (r : ℕ)
  | gone (r : ℕ)
  deriving DecidableEq

/-- The number of its connection. -/
@[simp] def Inspector.id : Inspector → Option ℕ
  | .absent => none
  | .connected r | .started r | .joining r | .gone r => some r

/-- The reader that an action belongs to. -/
@[simp] def System.Act.reader? : System.Act → Option ℕ
  | .reader r | .quit r | .die r => some r
  | _ => none

/-- The kernel, the system of the first writer, and the constructor of the second one. -/
structure SecondWriter where
  kernel : Kernel
  sys : System
  ctor : Startup.Proc
  inspector : Inspector

namespace SecondWriter

open Runs

/-- The first writer on a kernel, and the second one about to be constructed. -/
def init (k : Kernel) (s : System) : SecondWriter := ⟨k, s, .init, .absent⟩

/-- A step of the first writer or of one of its readers, a step of the client thread of the inspecting
reader, or the next step of the second constructor. -/
inductive Act
  | first (a : System.Act)
  | client
  | ctor (ok : Bool)

/-- The step belongs to the process of the second writer. -/
@[simp] def Act.second : Act → Bool
  | .first _ => false
  | _ => true

/-- What a step of the system from `s` to `t` does to the segments of the kernel: the first writer removes
its segment, or creates another one. -/
def follow (k : Kernel) (s t : System) : Kernel :=
  if t.key = s.key then k
  else match t.key with
    | none => { k with shms := k.shms.clean (k.ftok 'n') true }
    | some _ => { k with shms := (k.shms.create (k.ftok 'n') true).1 }

/-- A step of the second constructor that concerns the kernel only. -/
def call (s : SecondWriter) (ok : Bool) (i : Inspector) : Option SecondWriter :=
  (Startup.sysCall s.kernel s.ctor ok).map fun x =>
    { s with kernel := x.1, ctor := x.2, inspector := i }

/-- A step of the second constructor with a step of the inspecting reader. -/
def callWith (s : SecondWriter) (ok : Bool) (a : System.Act) (i : Inspector) : Option SecondWriter :=
  (s.sys.step a).bind fun sys => { s with sys := sys }.call ok i

/-- A step of the inspecting reader alone. -/
def inspect (s : SecondWriter) (a : System.Act) (i : Inspector) : Option SecondWriter :=
  (s.sys.step a).map fun sys => { s with sys := sys, inspector := i }

/-- `~Reader`, at the end of the scope of the inspecting reader, and what follows it. -/
def leave (s : SecondWriter) (canRead ok : Bool) : Option SecondWriter :=
  match s.inspector with
  | .connected r =>
      -- without a protocol no quit message can be sent; the socket is closed
      s.inspect (.die r) (.gone r)
  | .started r =>
      if canRead && (s.sys.rd r).isOpen then s.inspect (.quit r) (.joining r)
      else some { s with inspector := .joining r }
  | .joining r => if (s.sys.rd r).pc = .closed then some { s with inspector := .gone r } else none
  | i => s.call ok i

/-- The next step of the second constructor. -/
def ctorStep (s : SecondWriter) (ok : Bool) : Option SecondWriter :=
  match s.ctor.pc with
  | .inspectConnect =>
      if ok && s.kernel.file.any (fun f => f.isSock && f.live) then
        s.callWith ok .connect (.connected s.sys.nrd)
      else s.call ok .absent
  | .inspectShmat =>
      match s.inspector, ok with
      | .connected r, true => s.callWith true (.reader r) (.connected r)
      | i, ok => s.call ok i
  | .inspectSemget shm =>
      -- `start` is called if the segment and the semaphore were found
      match s.inspector, shm && (s.kernel.sems.tab s.ctor.key).any (0 < ·) && ok with
      | .connected r, true => s.call ok (.started r)
      | i, _ => s.call ok i
  | .inspectWait =>
      match s.inspector with
      | .started r =>
          -- `start` returns `connected_`
          if ok = (s.sys.rd r).connected then s.call ok (.started r) else none
      | i => s.call ok i
  | .conclude canRead => s.leave canRead ok
  | _ => s.call ok s.inspector

/-- One step. -/
def step (s : SecondWriter) : Act → Option SecondWriter
  | .first a =>
      if a.reader?.isSome && a.reader? = s.inspector.id then none
      else (s.sys.step a).map fun sys => { s with kernel := follow s.kernel s.sys sys, sys := sys }
  | .client =>
      match s.inspector with
      | .started r | .joining r => s.inspect (.reader r) s.inspector
      | _ => none
  | .ctor ok => s.ctorStep ok

/-- The first writer serves: its segment is not taken away or replaced, no reset fires, the inspecting
reader may use the path, the segment and the semaphore, and when it has waited for the connect message it
has got it. -/
def Serving (s : SecondWriter) : Act → Prop
  | .first a => a.isReset = false ∧ (s.sys.step a).all (fun t => t.key = s.sys.key) = true
  | .client => True
  | .ctor ok =>
      match s.ctor.pc with
      | .inspectConnect | .inspectShmget | .inspectShmat | .inspectSemget _ | .inspectWait => ok = true
      | _ => True

instance (s : SecondWriter) (a : Act) : Decidable (Serving s a) := by
  unfold Serving
  split
  · infer_instance
  · infer_instance
  · split <;> infer_instance

/-- The socket file of a living server is at the path, and a segment and a valid semaphore are registered
under its keys. -/
structure Registered (k : Kernel) : Prop where
  file : ∃ f, k.file = some f ∧ f.isSock = true ∧ f.live = true
  shm : ∃ id, k.shms.tab (k.ftok 'n') = some id
  sem : ∃ id, k.sems.tab (k.ftok 'm') = some id ∧ 0 < id

end SecondWriter

/-! ### What a step of the system leaves to a reader -/

namespace System

variable {s t : System} {a : Act} {r : ℕ}

/-- The steps of the readers do not concern the writer and its segments. -/
theorem of_reader (h : s.step a = some t) (ha : a.reader? ≠ none ∨ a = .connect) :
    t.w = s.w ∧ t.key = s.key ∧ t.mem = s.mem ∧ t.srv = s.srv ∧
      ∀ q, a.reader? ≠ some q → t.rd q = s.rd q := by
  cases trans_of_step h with
  | connect => exact ⟨rfl, rfl, rfl, rfl, fun _ _ => rfl⟩
  | attach | receiveConnect | receiveUpdate | receiveQuit | receiveEof | update | readStart | readEnd
  | quit | die =>
      exact ⟨rfl, rfl, rfl, rfl, fun q hq => Function.update_of_ne (fun heq => hq (congrArg some heq.symm)) _ _⟩
  | _ => rcases ha with ha | ha <;> first | exact absurd rfl ha | cases ha

end System

namespace SecondWriter

open Runs Startup

variable {k : Kernel} {s : System} {t u : SecondWriter}

/-! ### The invariant -/

/-- Where the second constructor and the inspecting reader are. -/
def Place (k : Kernel) (c : Startup.Proc) (i : Inspector) : Prop :=
  match c.pc with
  | .bind | .ftokShm | .ftokSem | .resetSem | .resetShm | .resetSrv | .inspectConnect => i = .absent
  | .shmget => i = .absent ∧ c.key = k.ftok 'n'
  | .semget => i = .absent ∧ c.key = k.ftok 'm'
  | .inspectFtokShm | .inspectShmat | .inspectFtokSem true => ∃ r, i = .connected r
  | .inspectShmget => (∃ r, i = .connected r) ∧ c.key = k.ftok 'n'
  | .inspectSemget true => (∃ r, i = .connected r) ∧ c.key = k.ftok 'm'
  | .inspectWait => ∃ r, i = .started r
  | .conclude true => ∃ r, i = .started r ∨ i = .joining r ∨ i = .gone r
  | .invalid => ∃ r, i = .gone r
  | _ => False

/-- The invariant: the kernel is as it was, the second constructor holds nothing, and the system of the
first writer, which was `s`, has the same segment and lacks as much of semaphore `0` as before. -/
structure Inv (k : Kernel) (s : System) (t : SecondWriter) : Prop where
  kernel : t.kernel = k
  key : t.sys.key = s.key
  debt : t.sys.debt = s.debt
  base : t.sys.Base
  mail : t.sys.Mail
  srv : t.ctor.srv = none
  shm : t.ctor.shm = none
  sem : t.ctor.sem = none
  place : Place k t.ctor t.inspector
  live : ∀ r, t.inspector.id = some r → r < t.sys.nrd ∧ (t.sys.rd r).dead = false
  gone : ∀ r, t.inspector = .gone r → (t.sys.rd r).pc = .closed

theorem inv_init (hb : s.Base) (hm : s.Mail) : Inv k s (init k s) where
  kernel := rfl
  key := rfl
  debt := rfl
  base := hb
  mail := hm
  srv := rfl
  shm := rfl
  sem := rfl
  place := rfl
  live := by simp [init]
  gone := by simp [init]

/-- How the inspecting reader stands after the next system call of the constructor. -/
def After (pc : Startup.Pc) (i i' : Inspector) : Prop :=
  match pc with
  | .inspectConnect => ∃ r, i' = .connected r
  | .inspectSemget _ => ∃ r, i' = .started r
  | .conclude _ => i' = i ∧ ∃ r, i = .gone r
  | _ => i' = i

/-- The calls that fail when the first writer cannot be used. -/
def inspects : Startup.Pc → Bool
  | .inspectConnect | .inspectShmget | .inspectShmat | .inspectSemget _ | .inspectWait => true
  | _ => false

/-- What the constructor does next when the path is in use. -/
def follows : Startup.Pc → Startup.Pc
  | .bind => .ftokShm
  | .ftokShm => .shmget
  | .shmget => .ftokSem
  | .ftokSem => .semget
  | .semget => .resetSem
  | .resetSem => .resetShm
  | .resetShm => .resetSrv
  | .resetSrv => .inspectConnect
  | .inspectConnect => .inspectFtokShm
  | .inspectFtokShm => .inspectShmget
  | .inspectShmget => .inspectShmat
  | .inspectShmat => .inspectFtokSem true
  | .inspectFtokSem shm => .inspectSemget shm
  | .inspectSemget _ => .inspectWait
  | .inspectWait => .conclude true
  | .conclude _ => .invalid
  | pc => pc

/-- **No system call of the second constructor changes anything.**  Its attempts to create fail, it has
nothing to remove, and its inspection succeeds. -/
theorem sysCall_spec (hk : Registered k) {c : Startup.Proc} {i i' : Inspector} {ok : Bool}
    {x : Kernel × Startup.Proc} (hsrv : c.srv = none) (hshm : c.shm = none) (hsem : c.sem = none)
    (hp : Place k c i) (hok : inspects c.pc = true → ok = true) (ha : After c.pc i i')
    (h : sysCall k c ok = some x) :
    x.1 = k ∧ x.2.pc = follows c.pc ∧ x.2.srv = none ∧ x.2.shm = none ∧ x.2.sem = none ∧ Place k x.2 i' := by
  obtain ⟨f, hf, hsock, hlive⟩ := hk.file
  obtain ⟨shmid, hshmid⟩ := hk.shm
  obtain ⟨semid, hsemid, hpos⟩ := hk.sem
  unfold Place at hp
  unfold After at ha
  cases hpc : c.pc with
  | bind =>
      simp only [hpc] at hp ha
      simp only [sysCall, hpc, bindCall, hf, reduceCtorEq, and_false, if_false, Option.some.injEq] at h
      subst h
      exact ⟨rfl, rfl, hsrv, hshm, hsem, ha.trans hp⟩
  | ftokShm | ftokSem =>
      simp only [hpc] at hp ha
      simp only [sysCall, hpc, Option.some.injEq] at h
      subst h
      exact ⟨rfl, rfl, hsrv, hshm, hsem, ha.trans hp, rfl⟩
  | shmget =>
      -- `EEXIST`
      simp only [hpc] at hp ha
      have hcreate : k.shms.create c.key ok = (k.shms, none) := by
        rw [Ipc.create, hp.2, if_neg (by simp [hshmid])]
      simp only [sysCall, hpc, shmgetCall, hcreate, Option.some.injEq] at h
      subst h
      exact ⟨rfl, by simp [follows], hsrv, rfl, hsem, by simpa [Place] using ha.trans hp.1⟩
  | semget =>
      simp only [hpc] at hp ha
      have hcreate : k.sems.create c.key ok = (k.sems, none) := by
        rw [Ipc.create, hp.2, if_neg (by simp [hsemid])]
      simp only [sysCall, hpc, semgetCall, hcreate, Option.some.injEq, Prod.map] at h
      subst h
      refine ⟨rfl, ?_, hsrv, hshm, rfl, ?_⟩
      · dsimp only [Proc.conclude]
        rw [if_neg (by simp [Proc.isValid, hsrv])]
        rfl
      dsimp only [Proc.conclude]
      rw [if_neg (by simp [Proc.isValid, hsrv])]
      exact ha.trans hp.1
  | resetSem =>
      simp only [hpc] at hp ha
      simp only [sysCall, hpc, hsem, Option.some.injEq] at h
      subst h
      exact ⟨rfl, rfl, hsrv, hshm, rfl, ha.trans hp⟩
  | resetShm =>
      simp only [hpc] at hp ha
      simp only [sysCall, hpc, hshm, Option.some.injEq] at h
      subst h
      exact ⟨rfl, rfl, hsrv, rfl, hsem, ha.trans hp⟩
  | resetSrv =>
      simp only [hpc] at hp ha
      simp only [sysCall, hpc, hsrv, Option.some.injEq] at h
      subst h
      exact ⟨rfl, rfl, rfl, hshm, hsem, ha.trans hp⟩
  | inspectConnect =>
      simp only [hpc] at hp ha
      obtain rfl := hok (by simp [hpc, inspects])
      have hany : (k.file.any fun f => f.isSock && f.live) = true := by simp [hf, hsock, hlive]
      simp only [sysCall, hpc, hany, Option.some.injEq] at h
      subst h
      exact ⟨rfl, rfl, hsrv, hshm, hsem, ha⟩
  | inspectFtokShm =>
      simp only [hpc] at hp ha
      simp only [sysCall, hpc, Option.some.injEq] at h
      subst h
      exact ⟨rfl, rfl, hsrv, hshm, hsem, ha ▸ hp, rfl⟩
  | inspectShmget =>
      simp only [hpc] at hp ha
      obtain rfl := hok (by simp [hpc, inspects])
      have hkey : c.key.isSome = true := by simp [hp.2, Kernel.ftok, hf]
      have hfound : (k.shms.tab c.key).isSome = true := by simp [hp.2, hshmid]
      simp only [sysCall, hpc, hkey, hfound, Option.some.injEq] at h
      subst h
      exact ⟨rfl, rfl, hsrv, hshm, hsem, ha ▸ hp.1⟩
  | inspectShmat =>
      simp only [hpc] at hp ha
      obtain rfl := hok (by simp [hpc, inspects])
      simp only [sysCall, hpc, Option.some.injEq] at h
      subst h
      exact ⟨rfl, rfl, hsrv, hshm, hsem, ha ▸ hp⟩
  | inspectFtokSem b =>
      cases b with
      | false => exact absurd hp (by simp [hpc])
      | true =>
          simp only [hpc] at hp ha
          simp only [sysCall, hpc, Option.some.injEq] at h
          subst h
          exact ⟨rfl, rfl, hsrv, hshm, hsem, ha ▸ hp, rfl⟩
  | inspectSemget b =>
      cases b with
      | false => exact absurd hp (by simp [hpc])
      | true =>
          simp only [hpc] at hp ha
          obtain rfl := hok (by simp [hpc, inspects])
          have hfound : (k.sems.tab c.key).any (0 < ·) = true := by simp [hp.2, hsemid, hpos]
          simp only [sysCall, hpc, hfound, Option.some.injEq] at h
          subst h
          exact ⟨rfl, rfl, hsrv, hshm, hsem, ha⟩
  | inspectWait =>
      simp only [hpc] at hp ha
      obtain rfl := hok (by simp [hpc, inspects])
      simp only [sysCall, hpc, Option.some.injEq] at h
      subst h
      obtain ⟨r, rfl⟩ := hp
      exact ⟨rfl, rfl, hsrv, hshm, hsem, r, Or.inl ha⟩
  | conclude b =>
      cases b with
      | false => exact absurd hp (by simp [hpc])
      | true =>
          simp only [hpc] at ha
          simp only [sysCall, hpc, Option.some.injEq] at h
          subst h
          obtain ⟨rfl, hgone⟩ := ha
          exact ⟨rfl, rfl, hsrv, hshm, hsem, hgone⟩
  | invalid => simp [sysCall, hpc] at h
  | _ => exact absurd hp (by simp [hpc])

/-- What a step of the second constructor does. -/
inductive Moved (t u : SecondWriter) : Prop
  | called (hsys : u.sys = t.sys) (hi : u.inspector = t.inspector) (hpc : u.ctor.pc = follows t.ctor.pc)
      (hwait : t.ctor.pc = .inspectWait → ∀ r, t.inspector = .started r → (t.sys.rd r).connected = true)
  | connect (hpc : t.ctor.pc = .inspectConnect) (hsys : t.sys.step .connect = some u.sys)
      (hi : u.inspector = .connected t.sys.nrd) (hu : u.ctor.pc = .inspectFtokShm)
  | attach {r : ℕ} (hpc : t.ctor.pc = .inspectShmat) (hr : t.inspector = .connected r)
      (hsys : t.sys.step (.reader r) = some u.sys) (hi : u.inspector = .connected r)
      (hu : u.ctor.pc = .inspectFtokSem true)
  | start {r : ℕ} (hpc : t.ctor.pc = .inspectSemget true) (hr : t.inspector = .connected r)
      (hsys : u.sys = t.sys) (hi : u.inspector = .started r) (hu : u.ctor.pc = .inspectWait)
  | quit {r : ℕ} (hr : t.inspector = .started r) (hsys : t.sys.step (.quit r) = some u.sys)
      (hi : u.inspector = .joining r) (hu : u.ctor = t.ctor)
  | left {r : ℕ} (hr : t.inspector = .started r) (ho : (t.sys.rd r).isOpen = false) (hsys : u.sys = t.sys)
      (hi : u.inspector = .joining r) (hu : u.ctor = t.ctor)
  | joined {r : ℕ} (hr : t.inspector = .joining r) (hsys : u.sys = t.sys) (hi : u.inspector = .gone r)
      (hu : u.ctor = t.ctor)

namespace Inv

/-- A step of the system. -/
theorem sysStep (hi : Inv k s t) {a : System.Act} {sys : System} (h : t.sys.step a = some sys)
    (hreset : a.isReset = false) (hkey : sys.key = t.sys.key)
    (hdie : ∀ r, t.inspector.id = some r → a ≠ .die r) : Inv k s { t with sys := sys } :=
  { hi with
    key := hkey.trans hi.key
    debt := by
      have hdisc : a.discards t.sys = 0 := by cases a <;> first | rfl | cases hreset
      show sys.debt = s.debt
      rw [System.debt_step hi.base h, hdisc, hi.debt]
      simp
    base := hi.base.step h
    mail := hi.mail.step hi.base h
    live := fun r hr => ⟨lt_of_lt_of_le (hi.live r hr).1 (System.nrd_le_of_step h),
      System.alive_of_step h (hdie r hr) (hi.live r hr).2⟩
    gone := fun r hr => (System.moves_of_step h r).closed (hi.gone r hr) }

/-- The inspecting reader goes on, which has the same connection or a new one. -/
theorem moveTo (hi : Inv k s t) {i : Inspector} (hp : Place k t.ctor i)
    (hid : ∀ r, i.id = some r → r < t.sys.nrd ∧ (t.sys.rd r).dead = false)
    (hgone : ∀ r, i = .gone r → (t.sys.rd r).pc = .closed) : Inv k s { t with inspector := i } :=
  { hi with
    place := hp
    live := hid
    gone := hgone }

/-- A system call of the second constructor. -/
theorem call (hi : Inv k s t) (hk : Registered k) {ok : Bool} {i : Inspector}
    (hok : inspects t.ctor.pc = true → ok = true) (ha : After t.ctor.pc t.inspector i)
    (hid : ∀ r, i.id = some r → r < t.sys.nrd ∧ (t.sys.rd r).dead = false)
    (hgone : ∀ r, i = .gone r → (t.sys.rd r).pc = .closed) (h : t.call ok i = some u) :
    Inv k s u ∧ u.sys = t.sys ∧ u.inspector = i ∧ u.ctor.pc = follows t.ctor.pc := by
  obtain ⟨x, hx, rfl⟩ := Option.map_eq_some_iff.1 h
  rw [hi.kernel] at hx
  obtain ⟨hkernel, hpc, hsrv, hshm, hsem, hp⟩ :=
    sysCall_spec hk hi.srv hi.shm hi.sem hi.place hok ha hx
  exact ⟨{ hi with
    kernel := hkernel
    srv := hsrv
    shm := hshm
    sem := hsem
    place := hp
    live := hid
    gone := hgone }, rfl, rfl, hpc⟩

/-- A step of the inspecting reader. -/
theorem readerStep (hi : Inv k s t) {a : System.Act} {sys : System} (h : t.sys.step a = some sys)
    (ha : (a.reader? ≠ none ∨ a = .connect) ∧ ∀ r, a ≠ .die r) : Inv k s { t with sys := sys } := by
  refine hi.sysStep h ?_ (System.of_reader h ha.1).2.1 fun r _ => ha.2 r
  cases a with
  | reset => rcases ha.1 with h | h <;> first | exact absurd rfl h | cases h
  | _ => rfl

/-- A system call of the second constructor that leaves the inspecting reader where it is. -/
theorem callSame (hi : Inv k s t) (hk : Registered k) {ok : Bool}
    (hok : inspects t.ctor.pc = true → ok = true) (ha : After t.ctor.pc t.inspector t.inspector)
    (hwait : t.ctor.pc = .inspectWait → ∀ r, t.inspector = .started r → (t.sys.rd r).connected = true)
    (h : t.call ok t.inspector = some u) : Inv k s u ∧ Moved t u := by
  obtain ⟨hu, hsys, hins, hpc⟩ := hi.call hk hok ha hi.live hi.gone h
  exact ⟨hu, .called hsys hins hpc hwait⟩

/-- **The end of the inspection.** -/
theorem leave (hi : Inv k s t) (hk : Registered k) {canRead ok : Bool}
    (hpc : t.ctor.pc = .conclude canRead) (h : t.leave canRead ok = some u) : Inv k s u ∧ Moved t u := by
  have hplace := hi.place
  cases canRead with
  | false => exact absurd hplace (by simp [Place, hpc])
  | true =>
      have hto {i : Inspector} (hr : ∃ r, i = .started r ∨ i = .joining r ∨ i = .gone r) :
          Place k t.ctor i := by simpa only [Place, hpc] using hr
      simp only [Place, hpc] at hplace
      obtain ⟨r, hr | hr | hr⟩ := hplace
      · have hlive := hi.live r (by simp [hr])
        simp only [SecondWriter.leave, hr, Bool.true_and] at h
        split at h
        · obtain ⟨sys, hsys, rfl⟩ := Option.map_eq_some_iff.1 h
          have hi' := hi.readerStep hsys ⟨Or.inl (by simp), by simp⟩
          refine ⟨hi'.moveTo (hto ⟨r, Or.inr (Or.inl rfl)⟩) (fun q hq => ?_) (by simp),
            .quit hr hsys rfl rfl⟩
          obtain rfl := Option.some.inj hq
          exact hi'.live _ (by simp [hr])
        · next ho =>
            obtain rfl := Option.some.inj h
            refine ⟨hi.moveTo (hto ⟨r, Or.inr (Or.inl rfl)⟩) (fun q hq => ?_) (by simp),
              .left hr (Bool.eq_false_iff.2 ho) rfl rfl rfl⟩
            obtain rfl := Option.some.inj hq
            exact hlive
      · have hlive := hi.live r (by simp [hr])
        simp only [SecondWriter.leave, hr] at h
        split at h
        · next hclosed =>
            obtain rfl := Option.some.inj h
            refine ⟨hi.moveTo (hto ⟨r, Or.inr (Or.inr rfl)⟩) (fun q hq => ?_) (fun q hq => ?_),
              .joined hr rfl rfl rfl⟩
            · obtain rfl := Option.some.inj hq
              exact hlive
            · obtain rfl := Inspector.gone.inj hq
              exact hclosed
        · cases h
      · simp only [SecondWriter.leave, hr] at h
        rw [← hr] at h
        refine hi.callSame hk (by simp [hpc, inspects]) ?_ (by simp [hpc]) h
        simp only [After, hpc]
        exact ⟨trivial, r, hr⟩

/-- **The next step of the second constructor.** -/
theorem ctorStep (hi : Inv k s t) (hk : Registered k) {ok : Bool} (hs : Serving t (.ctor ok))
    (h : t.ctorStep ok = some u) : Inv k s u ∧ Moved t u := by
  have hplace := hi.place
  simp only [SecondWriter.ctorStep] at h
  simp only [Serving] at hs
  cases hpc : t.ctor.pc with
  | inspectConnect =>
      -- the server accepts the new connection later
      simp only [hpc] at h hs
      subst hs
      obtain ⟨f, hf, hsock, hlive⟩ := hk.file
      have hany : (t.kernel.file.any fun f => f.isSock && f.live) = true := by
        simp [hi.kernel, hf, hsock, hlive]
      simp only [hany, Bool.true_and, if_true] at h
      obtain ⟨sys, hsys, h⟩ := Option.bind_eq_some_iff.1 h
      have hi' := hi.readerStep hsys ⟨Or.inr rfl, by simp⟩
      have hlive : t.sys.nrd < sys.nrd ∧ (sys.rd t.sys.nrd).dead = false := by
        obtain rfl := Option.some.inj hsys
        exact ⟨Nat.lt_succ_self _, congrArg Reader.dead (hi.base.fresh _ le_rfl).1⟩
      obtain ⟨hu, hsame, hins, hnext⟩ := hi'.call hk (fun _ => rfl) (by simp only [After, hpc]; exact ⟨_, rfl⟩)
        (fun r hr => by obtain rfl := Option.some.inj hr; exact hlive) (by simp) h
      refine ⟨hu, .connect hpc (hsame ▸ hsys) hins (hnext.trans ?_)⟩
      simp only [hpc, follows]
  | inspectShmat =>
      simp only [hpc] at h hs
      subst hs
      simp only [Place, hpc] at hplace
      obtain ⟨r, hr⟩ := hplace
      simp only [hr] at h
      obtain ⟨sys, hsys, h⟩ := Option.bind_eq_some_iff.1 h
      have hi' := hi.readerStep hsys ⟨Or.inl (by simp), by simp⟩
      obtain ⟨hu, hsame, hins, hnext⟩ := hi'.call hk (fun _ => rfl) (by simp only [After, hpc]; exact hr.symm)
        (fun q hq => hi'.live q (by rw [hr]; exact hq)) (by simp) h
      refine ⟨hu, .attach hpc hr (hsame ▸ hsys) hins (hnext.trans ?_)⟩
      simp only [hpc, follows]
  | inspectSemget shm =>
      cases shm with
      | false => exact absurd hplace (by simp [Place, hpc])
      | true =>
          simp only [hpc] at h hs
          subst hs
          simp only [Place, hpc] at hplace
          obtain ⟨⟨r, hr⟩, hkey⟩ := hplace
          obtain ⟨id, hid, hpos⟩ := hk.sem
          simp only [hr, hi.kernel, hkey, hid, Option.any_some, hpos, decide_true, Bool.and_self] at h
          obtain ⟨hu, hsame, hins, hnext⟩ := hi.call hk (fun _ => rfl)
            (by simp only [After, hpc]; exact ⟨r, rfl⟩)
            (fun q hq => by obtain rfl := Option.some.inj hq; exact hi.live _ (by simp [hr])) (by simp) h
          refine ⟨hu, .start hpc hr hsame hins (hnext.trans ?_)⟩
          simp only [hpc, follows]
  | inspectWait =>
      simp only [hpc] at h hs
      subst hs
      simp only [Place, hpc] at hplace
      obtain ⟨r, hr⟩ := hplace
      simp only [hr] at h
      obtain ⟨hconn, h⟩ := Option.ite_none_right_eq_some.1 h
      rw [← hr] at h
      refine hi.callSame hk (fun _ => rfl) (by simp [After, hpc]) (fun _ q hq => ?_) h
      obtain rfl := Inspector.started.inj (hr.symm.trans hq)
      exact hconn.symm
  | conclude canRead =>
      simp only [hpc] at h
      exact hi.leave hk hpc h
  | inspectShmget =>
      simp only [hpc] at h hs
      subst hs
      exact hi.callSame hk (fun _ => rfl) (by simp [After, hpc]) (by simp [hpc]) h
  | bind | ftokShm | shmget | ftokSem | semget | resetSem | resetShm | resetSrv | inspectFtokShm
  | inspectFtokSem =>
      simp only [hpc] at h
      exact hi.callSame hk (by simp [hpc, inspects]) (by simp [After, hpc]) (by simp [hpc]) h
  | invalid =>
      simp only [hpc, SecondWriter.call, sysCall, Option.map_none] at h
      cases h
  | _ => exact absurd hplace (by simp [Place, hpc])

/-- **Every step of such a run keeps the invariant.** -/
theorem step (hi : Inv k s t) (hk : Registered k) {a : Act} (hs : Serving t a)
    (h : t.step a = some u) : Inv k s u := by
  cases a with
  | first a =>
      simp only [SecondWriter.step] at h
      obtain ⟨hne, h⟩ := Option.ite_none_left_eq_some.1 h
      obtain ⟨sys, hsys, rfl⟩ := Option.map_eq_some_iff.1 h
      have hkey : sys.key = t.sys.key := by simpa [hsys] using hs.2
      rw [follow, if_pos hkey]
      refine hi.sysStep hsys hs.1 hkey fun r hr hdie => hne ?_
      rw [hdie, hr]
      simp
  | client =>
      simp only [SecondWriter.step] at h
      have hread {r : ℕ} (h : t.inspect (.reader r) t.inspector = some u) : Inv k s u := by
        obtain ⟨sys, hsys, rfl⟩ := Option.map_eq_some_iff.1 h
        exact hi.readerStep hsys ⟨Or.inl (by simp), by simp⟩
      split at h
      · exact hread h
      · exact hread h
      · cases h
  | ctor ok => exact (hi.ctorStep hk hs h).1

end Inv

end SecondWriter

end Shmdata

/-
**Several writers that start on one path.**

The constructor of `Writer` as in `Shmdata.WriterCtor`, now cut at its system calls, so that the
constructors of several writers on one path can be interleaved.  What the constructor finds out about the
other party it uses several calls later: `ftok` looks at the file at the path and the key is used
afterwards, and the inspection may find nobody because the other writer has bound its socket and does not
listen yet.  A constructor that concludes that the shmdata is dead removes the semaphore, the segment and
the socket file, whoever has made them.  An inspecting reader that is connected and hears nothing within its
time does not conclude: it waits until the connection is closed.

Main definitions:

* `Shmdata.Startup.Pc`, `Shmdata.Startup.Proc` — the places of the constructor and its members;
* `Shmdata.Startup.sysCall`, `Shmdata.Startup.step` — one system call of one constructor;
* `Shmdata.Startup.Apart` — no constructor concludes that the shmdata is dead while another runs or has
  succeeded, and none starts during a recovery;
* `Shmdata.Startup.Owns` — the socket file at the path, the segment and the semaphore are those of the
  writer.

Main results:

* `Shmdata.Startup.survivor` — **in such runs at most one writer is valid, and it owns its resources**;
* `Shmdata.Startup.earlyInspection_both_valid` — two valid writers, the first of which has lost everything.
-/

import Shmdata.Runs
import Shmdata.WriterCtor
import Mathlib.Data.Fintype.Basic

set_option relaxedAutoImplicit false
set_option autoImplicit false

namespace Shmdata

namespace Kernel

/-- A socket starts listening, or is closed: this matters for the path if it is the one bound there. -/
def setLive (k : Kernel) (ino : ℕ) (live : Bool) : Kernel :=
  { k with
    file := k.file.map fun f => if f.ino = ino then { f with live := live } else f
    fresh := by
      intro f hf
      obtain ⟨g, hg, rfl⟩ := Option.map_eq_some_iff.1 hf
      have hlt := k.fresh g hg
      split <;> exact hlt }

end Kernel

namespace Startup

open Runs

/-! ### The constructor, cut at its system calls -/

/-- The next system call of a constructor.  The first group is the first attempt, the second its
destruction and the inspection, the third the recovery. -/
inductive Pc
  | bind
  | listen
  | ftokShm
  | shmget
  | shmat
  | ftokSem
  | semget
  | resetSem
  | resetShm
  | resetSrv
  | inspectConnect
  | inspectFtokShm
  | inspectShmget
  | inspectShmat
  | inspectFtokSem (shm : Bool)
  | inspectSemget (shm : Bool)
  | inspectWait
  /-- No message has come in time: `~UnixSocketClient` waits for the end of the client thread, which is that of the
  connection. -/
  | inspectJoin
  /-- `if (!can_read)`. -/
  | conclude (canRead : Bool)
  | cleanFtokSem
  | cleanSemget
  | cleanSemRmid (semid : ℕ)
  | newFtokSem
  | newSemget
  | cleanFtokShm
  | cleanShmget
  | cleanShmRmid (shmid : ℕ)
  | newFtokShm
  | newShmget
  | newShmat
  | stat
  | unlink
  | newBind
  | newListen
  /-- The constructor has returned with a valid writer, after a recovery or without. -/
  | valid (recovered : Bool)
  | invalid
  deriving DecidableEq

namespace Pc

/-- In the recovery, from its first call on. -/
@[simp] def recovers : Pc → Bool
  | .cleanFtokSem | .cleanSemget | .cleanSemRmid _ | .newFtokSem | .newSemget | .cleanFtokShm
  | .cleanShmget | .cleanShmRmid _ | .newFtokShm | .newShmget | .newShmat | .stat | .unlink | .newBind
  | .newListen => true
  | _ => false

/-- The places at which `srv_` may hold a bound socket. -/
@[simp] def holdsSrv : Pc → Bool
  | .listen | .ftokShm | .shmget | .shmat | .ftokSem | .semget | .resetSem | .resetShm | .resetSrv
  | .newListen | .valid _ | .invalid => true
  | _ => false

/-- The places at which `shm_` may hold a segment. -/
@[simp] def holdsShm : Pc → Bool
  | .shmat | .ftokSem | .semget | .resetSem | .resetShm | .newShmat | .stat | .unlink | .newBind
  | .newListen | .valid _ | .invalid => true
  | _ => false

/-- The places at which `sem_` may hold a semaphore. -/
@[simp] def holdsSem : Pc → Bool
  | .resetSem | .cleanFtokShm | .cleanShmget | .cleanShmRmid _ | .newFtokShm | .newShmget | .newShmat
  | .stat | .unlink | .newBind | .newListen | .valid _ | .invalid => true
  | _ => false

/-- The first attempt, and its success. -/
@[simp] def first : Pc → Bool
  | .bind | .listen | .ftokShm | .shmget | .shmat | .ftokSem | .semget | .valid false => true
  | _ => false

/-- The constructor has not begun, or has ended without a valid writer. -/
@[simp] def idle : Pc → Bool
  | .bind | .invalid => true
  | _ => false

end Pc

/-- A constructor: the key of its last `ftok`, and what `srv_`, `shm_` and `sem_` hold, that is, the inode
of the bound socket, and the key and the identifier of the segment and of the semaphore.  `peer` is the inode of
the socket that the inspecting reader is connected to. -/
structure Proc where
  pc : Pc
  key : Key
  srv : Option ℕ
  listening : Bool
  shm : Option (Key × ℕ)
  attached : Bool
  sem : Option (Key × ℕ)
  peer : Option ℕ

/-- A constructor that has not begun. -/
def Proc.init : Proc where
  pc := .bind
  key := none
  srv := none
  listening := false
  shm := none
  attached := false
  sem := none
  peer := none

/-- `(*srv_.get()) && (*shm_.get()) && (*sem_.get())`. -/
def Proc.isValid (p : Proc) : Bool :=
  p.srv.isSome && p.listening && (p.shm.any fun x => x.1.isSome) && p.attached &&
    p.sem.any fun x => 0 < x.2

/-- The end of an attempt. -/
def Proc.conclude (p : Proc) (recovered : Bool) (fail : Pc) : Proc :=
  { p with pc := if p.isValid then .valid recovered else fail }

/-- `bind`, at the beginning of either attempt.  Without a bound socket the constructor of the server
returns at once. -/
def bindCall (k : Kernel) (p : Proc) (ok : Bool) (next : Pc) (failed : Proc) : Kernel × Proc :=
  if ok = true ∧ k.file = none then (k.bind false, { p with srv := some k.nextIno, pc := next })
  else (k, failed)

/-- `listen`. -/
def listenCall (k : Kernel) (p : Proc) (ok : Bool) : Kernel × Proc :=
  match p.srv with
  | some ino => if ok then (k.setLive ino true, { p with listening := true }) else (k, p)
  | none => (k, p)

/-- `shmget` with `IPC_EXCL`; `shmat` follows when the key and the identifier are right. -/
def shmgetCall (k : Kernel) (p : Proc) (ok : Bool) (next failed : Pc) : Kernel × Proc :=
  let (shms, shmid) := k.shms.create p.key ok
  ({ k with shms := shms },
    { p with
      shm := shmid.map fun id => (p.key, id)
      pc := if p.key.isSome && shmid.isSome then next else failed })

/-- `semget` with `IPC_EXCL`. -/
def semgetCall (k : Kernel) (p : Proc) (ok : Bool) : Kernel × Proc :=
  let (sems, semid) := k.sems.create p.key ok
  ({ k with sems := sems }, { p with sem := semid.map fun id => (p.key, id) })

/-- The next system call of a constructor, `ok` telling whether it succeeds as far as the state of the
kernel does not decide. -/
def sysCall (k : Kernel) (p : Proc) (ok : Bool) : Option (Kernel × Proc) :=
  match p.pc with
  | .bind => some (bindCall k p ok .listen { p with pc := .ftokShm })
  | .listen => some ((listenCall k p ok).map id fun p => { p with pc := .ftokShm })
  | .ftokShm => some (k, { p with key := k.ftok 'n', pc := .shmget })
  | .shmget => some (shmgetCall k p ok .shmat .ftokSem)
  | .shmat => some (k, { p with attached := ok, pc := .ftokSem })
  | .ftokSem => some (k, { p with key := k.ftok 'm', pc := .semget })
  | .semget => some ((semgetCall k p ok).map id fun p => p.conclude false .resetSem)
  | .resetSem =>
      some ({ k with sems := k.sems.drop (p.sem.map Prod.snd) }, { p with sem := none, pc := .resetShm })
  | .resetShm =>
      some ({ k with shms := k.shms.drop (p.shm.map Prod.snd) },
        { p with shm := none, attached := false, pc := .resetSrv })
  | .resetSrv =>
      some (match p.srv with
        | some ino => k.setLive ino false
        | none => k, { p with srv := none, listening := false, pc := .inspectConnect })
  | .inspectConnect =>
      some (k, { p with
        peer := k.file.map File.ino
        pc :=
          if ok && k.file.any (fun f => f.isSock && f.live) then .inspectFtokShm
          else .conclude false })
  | .inspectFtokShm => some (k, { p with key := k.ftok 'n', pc := .inspectShmget })
  | .inspectShmget =>
      some (k, { p with
        pc :=
          if p.key.isSome && (k.shms.tab p.key).isSome && ok then .inspectShmat
          else .inspectFtokSem false })
  | .inspectShmat => some (k, { p with pc := .inspectFtokSem ok })
  | .inspectFtokSem shm => some (k, { p with key := k.ftok 'm', pc := .inspectSemget shm })
  | .inspectSemget shm =>
      some (k, { p with
        pc :=
          if shm && (k.sems.tab p.key).any (0 < ·) && ok then .inspectWait
          else .conclude false })
  | .inspectWait => some (k, { p with pc := if ok then .conclude true else .inspectJoin })
  | .inspectJoin => some (k, { p with pc := .conclude false })
  | .conclude canRead => some (k, { p with pc := if canRead then .invalid else .cleanFtokSem })
  | .cleanFtokSem => some (k, { p with key := k.ftok 'm', pc := .cleanSemget })
  | .cleanSemget =>
      some (k, { p with
        pc := match if ok then k.sems.tab p.key else none with
          | some id => .cleanSemRmid id
          | none => .newFtokSem })
  | .cleanSemRmid id =>
      some (if ok then { k with sems := k.sems.remove id } else k, { p with pc := .newFtokSem })
  | .newFtokSem => some (k, { p with key := k.ftok 'm', pc := .newSemget })
  | .newSemget => some ((semgetCall k p ok).map id fun p => { p with pc := .cleanFtokShm })
  | .cleanFtokShm => some (k, { p with key := k.ftok 'n', pc := .cleanShmget })
  | .cleanShmget =>
      some (k, { p with
        pc := match if ok then k.shms.tab p.key else none with
          | some id => .cleanShmRmid id
          | none => .newFtokShm })
  | .cleanShmRmid id =>
      some (if ok then { k with shms := k.shms.remove id } else k, { p with pc := .newFtokShm })
  | .newFtokShm => some (k, { p with key := k.ftok 'n', pc := .newShmget })
  | .newShmget => some (shmgetCall k p ok .newShmat .stat)
  | .newShmat => some (k, { p with attached := ok, pc := .stat })
  | .stat => some (k, { p with pc := if k.file.any (·.isSock) then .unlink else .newBind })
  | .unlink => some (if ok then k.unlink else k, { p with pc := .newBind })
  | .newBind => some (bindCall k p ok .newListen (p.conclude true .invalid))
  | .newListen => some ((listenCall k p ok).map id fun p => p.conclude true .invalid)
  | .valid _ | .invalid => none

section run

variable {ι : Type} [DecidableEq ι]

/-- The kernel and the constructors, of any number. -/
structure State (ι : Type) where
  kernel : Kernel
  proc : ι → Proc

/-- Any kernel, and no constructor has begun. -/
def init (k : Kernel) : State ι := ⟨k, fun _ => .init⟩

/-- The next system call of constructor `i`. -/
structure Act (ι : Type) where
  i : ι
  ok : Bool

/-- The inspecting reader of constructor `i` waits for the end of a connection to the server of another
constructor, which has not closed it. -/
def waits [Fintype ι] (s : State ι) (i : ι) : Bool :=
  (s.proc i).pc = .inspectJoin ∧ ∃ j, (s.proc j).srv.isSome ∧ (s.proc j).srv = (s.proc i).peer

/-- One step. -/
def step [Fintype ι] (s : State ι) (a : Act ι) : Option (State ι) :=
  if waits s a.i then none
  else
    (sysCall s.kernel (s.proc a.i) a.ok).map fun x =>
      { kernel := x.1, proc := Function.update s.proc a.i x.2 }

/-- No constructor concludes that the shmdata is dead while another one runs or has succeeded, and none
starts during a recovery. -/
def Apart (s : State ι) (a : Act ι) : Prop :=
  match (s.proc a.i).pc with
  | .conclude false => ∀ j, j ≠ a.i → (s.proc j).pc.idle = true
  | .bind => ∀ j, (s.proc j).pc.recovers = false
  | _ => True

instance [Fintype ι] (s : State ι) (a : Act ι) : Decidable (Apart s a) := by
  unfold Apart
  split <;> infer_instance

/-- The socket file at the path, the segment and the semaphore are those of writer `i`: it listens on the
file, and the two others are registered under the keys that it made them for, which are the keys of the
file unless the writer comes from a recovery. -/
structure Owns (s : State ι) (i : ι) : Prop where
  file : ∃ f, s.kernel.file = some f ∧ (s.proc i).srv = some f.ino ∧ f.isSock = true ∧ f.live = true
  shm : ∃ x, (s.proc i).shm = some x ∧ s.kernel.shms.tab x.1 = some x.2
  sem : ∃ x, (s.proc i).sem = some x ∧ s.kernel.sems.tab x.1 = some x.2
  keys : (s.proc i).pc = .valid false →
    (∀ x ∈ (s.proc i).shm, x.1 = s.kernel.ftok 'n') ∧ ∀ x ∈ (s.proc i).sem, x.1 = s.kernel.ftok 'm'

/-- At most one writer is valid, and it owns its resources. -/
def OneSurvives (s : State ι) : Prop :=
  (∀ i j b c, (s.proc i).pc = .valid b → (s.proc j).pc = .valid c → i = j) ∧
    ∀ i b, (s.proc i).pc = .valid b → Owns s i

end run

/-! ### What a system call does -/

/-- What a constructor holds at each place. -/
structure Proc.Ok (p : Proc) : Prop where
  srv : p.pc.holdsSrv = false → p.srv = none
  listening : p.srv = none → p.listening = false
  shm : p.pc.holdsShm = false → p.shm = none
  sem : p.pc.holdsSem = false → p.sem = none
  valid : ∀ b, p.pc = .valid b → p.isValid = true

/-- The members of a constructor that a system call leaves. -/
structure Same (p q : Proc) : Prop where
  srv : q.srv = p.srv
  listening : q.listening = p.listening
  shm : q.shm = p.shm
  sem : q.sem = p.sem

/-- What a system call of a constructor does to the kernel and to the members. -/
inductive Effect (k : Kernel) (p : Proc) : Kernel → Proc → Prop
  | moved {q : Proc} (h : Same p q) : Effect k p k q
  | bound {q : Proc} (hf : k.file = none) (hs : p.srv = none)
      (h : Same { p with srv := some k.nextIno } q) : Effect k p (k.bind false) q
  | listened {q : Proc} {ino : ℕ} (hs : p.srv = some ino) (h : Same { p with listening := true } q) :
      Effect k p (k.setLive ino true) q
  | closed {q : Proc} {ino : ℕ} (hs : p.srv = some ino)
      (h : Same { p with srv := none, listening := false } q) : Effect k p (k.setLive ino false) q
  | shmget {q : Proc} {ok : Bool} (hs : p.shm = none)
      (h : Same { p with shm := (k.shms.create p.key ok).2.map fun id => (p.key, id) } q) :
      Effect k p { k with shms := (k.shms.create p.key ok).1 } q
  | semget {q : Proc} {ok : Bool} (hs : p.sem = none)
      (h : Same { p with sem := (k.sems.create p.key ok).2.map fun id => (p.key, id) } q) :
      Effect k p { k with sems := (k.sems.create p.key ok).1 } q
  | shmDropped {q : Proc} (h : Same { p with shm := none } q) :
      Effect k p { k with shms := k.shms.drop (p.shm.map Prod.snd) } q
  | semDropped {q : Proc} (h : Same { p with sem := none } q) :
      Effect k p { k with sems := k.sems.drop (p.sem.map Prod.snd) } q
  | shmRemoved {q : Proc} {id : ℕ} (hr : p.pc.recovers = true) (hs : p.shm = none) (h : Same p q) :
      Effect k p { k with shms := k.shms.remove id } q
  | semRemoved {q : Proc} {id : ℕ} (hr : p.pc.recovers = true) (hs : p.sem = none) (h : Same p q) :
      Effect k p { k with sems := k.sems.remove id } q
  | unlinked {q : Proc} (hr : p.pc.recovers = true) (hs : p.srv = none) (h : Same p q) :
      Effect k p k.unlink q

theorem effect_of_bindCall {k : Kernel} {p failed : Proc} {ok : Bool} {next : Pc} (hs : p.srv = none)
    (h : Same p failed) :
    Effect k p (bindCall k p ok next failed).1 (bindCall k p ok next failed).2 := by
  unfold bindCall
  split
  · next hf => exact .bound hf.2 hs ⟨rfl, rfl, rfl, rfl⟩
  · exact .moved h

theorem effect_of_listenCall {k : Kernel} {p : Proc} {ok : Bool} {f : Proc → Proc}
    (hf : ∀ p, Same p (f p)) :
    Effect k p (listenCall k p ok).1 (f (listenCall k p ok).2) := by
  unfold listenCall
  cases hs : p.srv with
  | none => exact .moved (hf p)
  | some ino =>
      cases ok with
      | true =>
          exact .listened hs ⟨(hf _).srv.trans hs.symm, (hf _).listening, (hf _).shm, (hf _).sem⟩
      | false => exact .moved (hf p)

/-- Every system call has one of these effects. -/
theorem effect_of_sysCall {k k' : Kernel} {p q : Proc} {ok : Bool} (hp : p.Ok)
    (h : sysCall k p ok = some (k', q)) : Effect k p k' q := by
  have hconclude (b : Bool) (fail : Pc) (p : Proc) : Same p (p.conclude b fail) := ⟨rfl, rfl, rfl, rfl⟩
  cases hpc : p.pc with
  | bind =>
      simp only [sysCall, hpc, Option.some.injEq] at h
      obtain ⟨rfl, rfl⟩ := Prod.ext_iff.1 h
      exact effect_of_bindCall (hp.srv (by simp [hpc])) ⟨rfl, rfl, rfl, rfl⟩
  | newBind =>
      simp only [sysCall, hpc, Option.some.injEq] at h
      obtain ⟨rfl, rfl⟩ := Prod.ext_iff.1 h
      exact effect_of_bindCall (hp.srv (by simp [hpc])) (hconclude _ _ _)
  | listen =>
      simp only [sysCall, hpc, Option.some.injEq] at h
      obtain ⟨rfl, rfl⟩ := Prod.ext_iff.1 h
      exact effect_of_listenCall (f := fun p => { p with pc := .ftokShm }) fun _ => ⟨rfl, rfl, rfl, rfl⟩
  | newListen =>
      simp only [sysCall, hpc, Option.some.injEq] at h
      obtain ⟨rfl, rfl⟩ := Prod.ext_iff.1 h
      exact effect_of_listenCall (hconclude _ _)
  | shmget | newShmget =>
      simp only [sysCall, hpc, Option.some.injEq] at h
      obtain ⟨rfl, rfl⟩ := Prod.ext_iff.1 h
      exact .shmget (hp.shm (by simp [hpc])) ⟨rfl, rfl, rfl, rfl⟩
  | semget | newSemget =>
      simp only [sysCall, hpc, Option.some.injEq] at h
      obtain ⟨rfl, rfl⟩ := Prod.ext_iff.1 h
      exact .semget (hp.sem (by simp [hpc])) ⟨rfl, rfl, rfl, rfl⟩
  | resetSem =>
      simp only [sysCall, hpc, Option.some.injEq, Prod.mk.injEq] at h
      obtain ⟨rfl, rfl⟩ := h
      exact .semDropped ⟨rfl, rfl, rfl, rfl⟩
  | resetShm =>
      simp only [sysCall, hpc, Option.some.injEq, Prod.mk.injEq] at h
      obtain ⟨rfl, rfl⟩ := h
      exact .shmDropped ⟨rfl, rfl, rfl, rfl⟩
  | resetSrv =>
      simp only [sysCall, hpc, Option.some.injEq, Prod.mk.injEq] at h
      obtain ⟨rfl, rfl⟩ := h
      cases hs : p.srv with
      | none => exact .moved ⟨hs.symm, (hp.listening hs).symm, rfl, rfl⟩
      | some ino => exact .closed hs ⟨rfl, rfl, rfl, rfl⟩
  | cleanSemRmid id =>
      simp only [sysCall, hpc, Option.some.injEq, Prod.mk.injEq] at h
      obtain ⟨rfl, rfl⟩ := h
      cases ok with
      | true => exact .semRemoved (by simp [hpc]) (hp.sem (by simp [hpc])) ⟨rfl, rfl, rfl, rfl⟩
      | false => exact .moved ⟨rfl, rfl, rfl, rfl⟩
  | cleanShmRmid id =>
      simp only [sysCall, hpc, Option.some.injEq, Prod.mk.injEq] at h
      obtain ⟨rfl, rfl⟩ := h
      cases ok with
      | true => exact .shmRemoved (by simp [hpc]) (hp.shm (by simp [hpc])) ⟨rfl, rfl, rfl, rfl⟩
      | false => exact .moved ⟨rfl, rfl, rfl, rfl⟩
  | unlink =>
      simp only [sysCall, hpc, Option.some.injEq, Prod.mk.injEq] at h
      obtain ⟨rfl, rfl⟩ := h
      cases ok with
      | true => exact .unlinked (by simp [hpc]) (hp.srv (by simp [hpc])) ⟨rfl, rfl, rfl, rfl⟩
      | false => exact .moved ⟨rfl, rfl, rfl, rfl⟩
  | valid | invalid => simp [sysCall, hpc] at h
  | _ =>
      simp only [sysCall, hpc, Option.some.injEq, Prod.mk.injEq] at h
      obtain ⟨rfl, rfl⟩ := h
      exact .moved ⟨rfl, rfl, rfl, rfl⟩

theorem ok_init : Proc.init.Ok := by
  constructor <;> simp [Proc.init]

namespace Proc.Ok

variable {p q : Proc}

/-- A call that leaves the members, to a place where as much may be held. -/
theorem moved (hp : p.Ok) (h : Same p q) (h1 : q.pc.holdsSrv = false → p.pc.holdsSrv = false)
    (h2 : q.pc.holdsShm = false → p.pc.holdsShm = false)
    (h3 : q.pc.holdsSem = false → p.pc.holdsSem = false) (hv : ∀ b, q.pc ≠ .valid b) : q.Ok where
  srv hq := h.srv.trans (hp.srv (h1 hq))
  listening hq := h.listening.trans (hp.listening (h.srv.symm.trans hq))
  shm hq := h.shm.trans (hp.shm (h2 hq))
  sem hq := h.sem.trans (hp.sem (h3 hq))
  valid b hb := absurd hb (hv b)

/-- The end of an attempt, after which everything may be held. -/
theorem conclude {b : Bool} {fail : Pc} (h : p.srv = none → p.listening = false)
    (hf : fail = .resetSem ∨ fail = .invalid) : (p.conclude b fail).Ok := by
  by_cases hv : p.isValid = true
  · have hpc : (p.conclude b fail).pc = .valid b := if_pos hv
    exact ⟨by simp [hpc], h, by simp [hpc], by simp [hpc], fun _ _ => hv⟩
  · have hpc : (p.conclude b fail).pc = fail := if_neg hv
    rcases hf with rfl | rfl
    · exact ⟨by simp [hpc], h, by simp [hpc], by simp [hpc], by simp [hpc]⟩
    · exact ⟨by simp [hpc], h, by simp [hpc], by simp [hpc], by simp [hpc]⟩

theorem listenCall {k : Kernel} {ok : Bool} (hp : p.Ok) :
    (listenCall k p ok).2.srv = none → (listenCall k p ok).2.listening = false := by
  unfold Startup.listenCall
  cases hs : p.srv with
  | none => exact fun _ => hp.listening hs
  | some ino =>
      intro h
      cases ok <;> simp [hs] at h

/-- A constructor holds at each place what it should. -/
theorem sysCall {k k' : Kernel} {ok : Bool} (hp : p.Ok) (h : sysCall k p ok = some (k', q)) :
    q.Ok := by
  cases hpc : p.pc with
  | bind =>
      simp only [Startup.sysCall, hpc, Option.some.injEq] at h
      obtain ⟨-, rfl⟩ := Prod.ext_iff.1 h
      unfold bindCall
      split
      · exact ⟨by simp, by simp, fun _ => hp.shm (by simp [hpc]), fun _ => hp.sem (by simp [hpc]),
          by simp⟩
      · exact hp.moved ⟨rfl, rfl, rfl, rfl⟩ (by simp) (by simp [hpc]) (by simp [hpc]) (by simp)
  | newBind =>
      simp only [Startup.sysCall, hpc, Option.some.injEq] at h
      obtain ⟨-, rfl⟩ := Prod.ext_iff.1 h
      unfold bindCall
      split
      · exact ⟨by simp, by simp, by simp, by simp, by simp⟩
      · exact conclude hp.listening (Or.inr rfl)
  | listen =>
      simp only [Startup.sysCall, hpc, Option.some.injEq] at h
      obtain ⟨-, rfl⟩ := Prod.ext_iff.1 h
      have hshm := hp.shm (by simp [hpc])
      have hsem := hp.sem (by simp [hpc])
      refine ⟨by simp, hp.listenCall, fun _ => ?_, fun _ => ?_, by simp⟩
      · show (Startup.listenCall k p ok).2.shm = none
        unfold Startup.listenCall
        cases p.srv <;> cases ok <;> exact hshm
      · show (Startup.listenCall k p ok).2.sem = none
        unfold Startup.listenCall
        cases p.srv <;> cases ok <;> exact hsem
  | newListen =>
      simp only [Startup.sysCall, hpc, Option.some.injEq] at h
      obtain ⟨-, rfl⟩ := Prod.ext_iff.1 h
      exact conclude hp.listenCall (Or.inr rfl)
  | semget =>
      simp only [Startup.sysCall, hpc, Option.some.injEq] at h
      obtain ⟨-, rfl⟩ := Prod.ext_iff.1 h
      exact conclude hp.listening (Or.inl rfl)
  | newSemget =>
      simp only [Startup.sysCall, hpc, Option.some.injEq] at h
      obtain ⟨-, rfl⟩ := Prod.ext_iff.1 h
      exact ⟨fun _ => hp.srv (by simp [hpc]), hp.listening, fun _ => hp.shm (by simp [hpc]), by simp,
        by simp⟩
  | shmget | newShmget =>
      simp only [Startup.sysCall, hpc, Option.some.injEq] at h
      obtain ⟨-, rfl⟩ := Prod.ext_iff.1 h
      unfold shmgetCall
      refine ⟨fun hq => hp.srv ?_, hp.listening, fun hq => ?_, fun hq => hp.sem ?_, fun b hb => ?_⟩
      all_goals
        dsimp only at *
        split at * <;> simp_all
  | resetSem | resetShm | resetSrv =>
      simp only [Startup.sysCall, hpc, Option.some.injEq, Prod.mk.injEq] at h
      obtain ⟨-, rfl⟩ := h
      have h1 := hp.srv
      have h2 := hp.listening
      have h3 := hp.shm
      have h4 := hp.sem
      rw [hpc] at h1 h3 h4
      constructor <;> simp_all
  | valid | invalid => simp [Startup.sysCall, hpc] at h
  | inspectConnect | inspectShmget | inspectSemget | inspectWait | cleanSemget | cleanShmget | stat =>
      simp only [Startup.sysCall, hpc, Option.some.injEq, Prod.mk.injEq] at h
      obtain ⟨-, rfl⟩ := h
      refine hp.moved ⟨rfl, rfl, rfl, rfl⟩ ?_ ?_ ?_ ?_ <;> dsimp only <;> split <;> simp [hpc]
  | conclude canRead =>
      simp only [Startup.sysCall, hpc, Option.some.injEq, Prod.mk.injEq] at h
      obtain ⟨-, rfl⟩ := h
      refine hp.moved ⟨rfl, rfl, rfl, rfl⟩ ?_ ?_ ?_ ?_ <;> cases canRead <;> simp [hpc]
  | _ =>
      simp only [Startup.sysCall, hpc, Option.some.injEq, Prod.mk.injEq] at h
      obtain ⟨-, rfl⟩ := h
      exact hp.moved ⟨rfl, rfl, rfl, rfl⟩ (by simp [hpc]) (by simp [hpc]) (by simp [hpc]) (by simp)

end Proc.Ok

/-- A recovery begins when the shmdata is found dead, and the first attempt is not entered again. -/
theorem pc_of_sysCall {k k' : Kernel} {p q : Proc} {ok : Bool} (h : sysCall k p ok = some (k', q)) :
    (q.pc.recovers = true → p.pc.recovers = true ∨ p.pc = .conclude false) ∧
      (q.pc.first = true → p.pc.first = true) ∧ p.pc ≠ .invalid := by
  have hconclude (b : Bool) (fail : Pc) (p : Proc) : (p.conclude b fail).pc = .valid b ∨
      (p.conclude b fail).pc = fail := by
    unfold Proc.conclude
    cases p.isValid
    · exact Or.inr rfl
    · exact Or.inl rfl
  cases hpc : p.pc with
  | bind =>
      simp only [sysCall, hpc, Option.some.injEq] at h
      obtain ⟨-, rfl⟩ := Prod.ext_iff.1 h
      unfold bindCall
      split <;> simp
  | newBind =>
      simp only [sysCall, hpc, Option.some.injEq] at h
      obtain ⟨-, rfl⟩ := Prod.ext_iff.1 h
      unfold bindCall
      split
      · simp
      · rcases hconclude true .invalid p with h | h <;> rw [h] <;> simp
  | newListen =>
      simp only [sysCall, hpc, Option.some.injEq] at h
      obtain ⟨-, rfl⟩ := Prod.ext_iff.1 h
      rcases hconclude true .invalid (listenCall k p ok).2 with h | h <;>
        simp only [Prod.map_snd, h] <;> simp
  | semget =>
      simp only [sysCall, hpc, Option.some.injEq] at h
      obtain ⟨-, rfl⟩ := Prod.ext_iff.1 h
      rcases hconclude false .resetSem (semgetCall k p ok).2 with h | h <;>
        simp only [Prod.map_snd, h] <;> simp
  | listen | newSemget =>
      simp only [sysCall, hpc, Option.some.injEq] at h
      obtain ⟨-, rfl⟩ := Prod.ext_iff.1 h
      simp
  | shmget | newShmget =>
      simp only [sysCall, hpc, Option.some.injEq] at h
      obtain ⟨-, rfl⟩ := Prod.ext_iff.1 h
      unfold shmgetCall
      dsimp only
      split <;> simp
  | inspectConnect | inspectShmget | inspectSemget | inspectWait | cleanSemget | cleanShmget | stat =>
      simp only [sysCall, hpc, Option.some.injEq, Prod.mk.injEq] at h
      obtain ⟨-, rfl⟩ := h
      dsimp only
      split <;> simp
  | conclude canRead =>
      simp only [sysCall, hpc, Option.some.injEq, Prod.mk.injEq] at h
      obtain ⟨-, rfl⟩ := h
      cases canRead <;> simp
  | valid | invalid => simp [sysCall, hpc] at h
  | _ =>
      simp only [sysCall, hpc, Option.some.injEq, Prod.mk.injEq] at h
      obtain ⟨-, rfl⟩ := h
      simp

/-! ### The tables of the kernel and what the constructors hold -/

section tables

variable {ι : Type} [DecidableEq ι]

/-- What the constructors hold of one table, by `hold`: the identifiers are used and distinct, and those
of the constructors in `A` are registered. -/
structure Registered (t : Ipc) (hold : ι → Option (Key × ℕ)) (A : ι → Prop) : Prop where
  lt : ∀ i x, hold i = some x → x.2 < t.next
  inj : ∀ i j x y, hold i = some x → hold j = some y → x.2 = y.2 → i = j
  tab : ∀ i x, A i → hold i = some x → t.tab x.1 = some x.2

namespace Registered

variable {t : Ipc} {hold : ι → Option (Key × ℕ)} {A B : ι → Prop}

omit [DecidableEq ι] in
theorem mono (h : Registered t hold A) (hAB : ∀ i, B i → A i) : Registered t hold B :=
  ⟨h.lt, h.inj, fun i x hi => h.tab i x (hAB i hi)⟩

theorem update_none_eq_some {i j : ι} {x : Key × ℕ} (hx : Function.update hold i none j = some x) :
    j ≠ i ∧ hold j = some x := by
  by_cases hj : j = i
  · subst hj
    rw [Function.update_self] at hx
    cases hx
  · rw [Function.update_of_ne hj] at hx
    exact ⟨hj, hx⟩

/-- A constructor gives up its object. -/
theorem unhold (h : Registered t hold A) (i : ι) : Registered t (Function.update hold i none) A where
  lt j x hx := h.lt j x (update_none_eq_some hx).2
  inj j l x y hx hy := h.inj j l x y (update_none_eq_some hx).2 (update_none_eq_some hy).2
  tab j x hj hx := h.tab j x hj (update_none_eq_some hx).2

/-- A constructor creates an object: the others keep theirs, since their keys are in use. -/
theorem create (h : Registered t hold A) (i : ι) (key : Key) (ok : Bool) :
    Registered (t.create key ok).1 (Function.update hold i ((t.create key ok).2.map fun id => (key, id)))
      A := by
  unfold Ipc.create
  split
  · next hc =>
      simp only [Option.map_some]
      have hcases {j : ι} {x : Key × ℕ} (hx : Function.update hold i (some (key, t.next)) j = some x) :
          j = i ∧ x = (key, t.next) ∨ j ≠ i ∧ hold j = some x := by
        by_cases hj : j = i
        · subst hj
          rw [Function.update_self] at hx
          exact Or.inl ⟨rfl, (Option.some.inj hx).symm⟩
        · rw [Function.update_of_ne hj] at hx
          exact Or.inr ⟨hj, hx⟩
      constructor
      · intro j x hx
        rcases hcases hx with ⟨-, rfl⟩ | ⟨-, hx⟩
        · exact Nat.lt_succ_self _
        · exact (h.lt j x hx).trans (Nat.lt_succ_self _)
      · intro j l x y hx hy hxy
        rcases hcases hx with ⟨hj, rfl⟩ | ⟨-, hx'⟩ <;> rcases hcases hy with ⟨hl, rfl⟩ | ⟨-, hy'⟩
        · rw [hj, hl]
        · exact absurd (h.lt l y hy') (hxy ▸ lt_irrefl _)
        · exact absurd (h.lt j x hx') (hxy ▸ lt_irrefl _)
        · exact h.inj j l x y hx' hy' hxy
      · intro j x hj hx
        rcases hcases hx with ⟨-, rfl⟩ | ⟨-, hx⟩
        · exact Function.update_self ..
        · have htab := h.tab j x hj hx
          refine (Function.update_of_ne ?_ ..).trans htab
          intro hkey
          rw [hkey, hc.1] at htab
          cases htab
  · exact h.unhold i

omit [DecidableEq ι] in
/-- An object that no constructor in `A` holds is removed. -/
theorem remove (h : Registered t hold A) {id : ℕ}
    (hid : ∀ i x, A i → hold i = some x → x.2 ≠ id) : Registered (t.remove id) hold A where
  lt := h.lt
  inj := h.inj
  tab i x hi hx := by
    have htab := h.tab i x hi hx
    refine (if_neg ?_).trans htab
    rw [htab]
    exact fun heq => hid i x hi hx (Option.some.inj heq)

/-- A constructor destroys its object. -/
theorem drop (h : Registered t hold A) (i : ι) :
    Registered (t.drop ((hold i).map Prod.snd)) (Function.update hold i none) A := by
  cases hi : hold i with
  | none => exact h.unhold i
  | some x =>
      show Registered (if 0 < x.2 then t.remove x.2 else t) _ A
      split
      · refine (h.unhold i).remove fun j y _ hy hxy => ?_
        obtain ⟨hj, hy⟩ := update_none_eq_some hy
        exact hj (h.inj j i y x hy hi hxy)
      · exact h.unhold i

end Registered

/-- The bound sockets of the constructors: the inodes are used and distinct, and the file at the path is the
one bound by a constructor that has not failed. -/
structure Bound (k : Kernel) (proc : ι → Proc) : Prop where
  lt : ∀ i ino, (proc i).srv = some ino → ino < k.nextIno
  inj : ∀ i j ino, (proc i).srv = some ino → (proc j).srv = some ino → i = j
  file : ∀ i ino, (proc i).pc ≠ .invalid → (proc i).srv = some ino →
    ∃ f, k.file = some f ∧ f.ino = ino ∧ f.isSock = true ∧ ((proc i).listening = true → f.live = true)

namespace Bound

variable {k k' : Kernel} {proc : ι → Proc} {i : ι} {q : Proc}

/-- A call that leaves the file and the sockets. -/
theorem same (h : Bound k proc) (hf : k'.file = k.file) (hn : k'.nextIno = k.nextIno)
    (hi : (proc i).pc ≠ .invalid) (hs : q.srv = (proc i).srv) (hl : q.listening = (proc i).listening) :
    Bound k' (Function.update proc i q) := by
  have hsrv (j : ι) : (Function.update proc i q j).srv = (proc j).srv ∧
      (Function.update proc i q j).listening = (proc j).listening := by
    by_cases hj : j = i
    · subst hj
      rw [Function.update_self]
      exact ⟨hs, hl⟩
    · rw [Function.update_of_ne hj]
      exact ⟨rfl, rfl⟩
  constructor
  · intro j ino hj
    rw [hn]
    exact h.lt j ino ((hsrv j).1 ▸ hj)
  · intro j l ino hj hl
    exact h.inj j l ino ((hsrv j).1 ▸ hj) ((hsrv l).1 ▸ hl)
  · intro j ino hpc hj
    rw [hf, (hsrv j).2]
    refine h.file j ino ?_ ((hsrv j).1 ▸ hj)
    by_cases hji : j = i
    · exact hji ▸ hi
    · rwa [Function.update_of_ne hji] at hpc

/-- A call on the socket of a constructor. -/
theorem setLive (h : Bound k proc) (hi : (proc i).pc ≠ .invalid) {ino : ℕ} {live : Bool}
    (hs : (proc i).srv = some ino) (hq : q.srv = none ∨ q.srv = some ino ∧ live = true) :
    Bound (k.setLive ino live) (Function.update proc i q) := by
  have hsrv {j : ι} {n : ℕ} (hj : (Function.update proc i q j).srv = some n) :
      (proc j).srv = some n ∧ (j = i → live = true) := by
    by_cases hji : j = i
    · subst hji
      rw [Function.update_self] at hj
      rcases hq with hq | ⟨hq, hl⟩
      · rw [hq] at hj
        cases hj
      · exact ⟨hs.trans (hq.symm.trans hj), fun _ => hl⟩
    · rw [Function.update_of_ne hji] at hj
      exact ⟨hj, fun h => absurd h hji⟩
  constructor
  · exact fun j n hj => h.lt j n (hsrv hj).1
  · exact fun j l n hj hl => h.inj j l n (hsrv hj).1 (hsrv hl).1
  · intro j n hpc hj
    obtain ⟨hjs, hlive⟩ := hsrv hj
    by_cases hji : j = i
    · subst hji
      obtain ⟨f, hf, hino, hsock, -⟩ := h.file j n hi hjs
      have hn : f.ino = ino := hino.trans (Option.some.inj (hjs.symm.trans hs))
      refine ⟨{ f with live := live }, ?_, hino, hsock, fun _ => hlive rfl⟩
      simp [Kernel.setLive, hf, hn]
    · rw [Function.update_of_ne hji] at hpc ⊢
      obtain ⟨f, hf, hino, hsock, hl⟩ := h.file j n hpc hjs
      refine ⟨f, ?_, hino, hsock, hl⟩
      have hne : f.ino ≠ ino := by
        rintro heq
        exact hji (h.inj j i n hjs (hs.trans (by rw [← heq, hino])))
      simp [Kernel.setLive, hf, hne]

/-- A constructor binds its socket: nobody else has one at the path. -/
theorem bound (h : Bound k proc) (hf : k.file = none) (hsrv : q.srv = some k.nextIno)
    (hl : q.listening = false) : Bound (k.bind false) (Function.update proc i q) := by
  have hcases {j : ι} {n : ℕ} (hj : (Function.update proc i q j).srv = some n) :
      j = i ∧ n = k.nextIno ∨ j ≠ i ∧ (proc j).srv = some n := by
    by_cases hji : j = i
    · subst hji
      rw [Function.update_self, hsrv] at hj
      exact Or.inl ⟨rfl, (Option.some.inj hj).symm⟩
    · rw [Function.update_of_ne hji] at hj
      exact Or.inr ⟨hji, hj⟩
  constructor
  · intro j n hj
    rcases hcases hj with ⟨-, rfl⟩ | ⟨-, hj⟩
    · exact Nat.lt_succ_self _
    · exact (h.lt j n hj).trans (Nat.lt_succ_self _)
  · intro j l n hj hl
    rcases hcases hj with ⟨hji, rfl⟩ | ⟨-, hj'⟩ <;> rcases hcases hl with ⟨hli, hn⟩ | ⟨-, hl'⟩
    · rw [hji, hli]
    · exact absurd (h.lt l _ hl') (lt_irrefl _)
    · exact absurd (h.lt j n hj') (hn ▸ lt_irrefl _)
    · exact h.inj j l n hj' hl'
  · intro j n hpc hj
    rcases hcases hj with ⟨rfl, rfl⟩ | ⟨hji, hj⟩
    · refine ⟨_, rfl, rfl, rfl, fun hlist => ?_⟩
      rw [Function.update_self, hl] at hlist
      cases hlist
    · rw [Function.update_of_ne hji] at hpc
      obtain ⟨f, hf', -⟩ := h.file j n hpc hj
      rw [hf] at hf'
      cases hf'

/-- The file at the path is removed when no constructor has bound it. -/
theorem unlink (h : Bound k proc) (hn : ∀ j, (proc j).pc ≠ .invalid → (proc j).srv = none)
    (hi : (proc i).pc ≠ .invalid) (hs : Same (proc i) q) :
    Bound k.unlink (Function.update proc i q) := by
  have hb : Bound k (Function.update proc i q) := h.same rfl rfl hi hs.srv hs.listening
  refine ⟨hb.lt, hb.inj, fun j n hpc hj => ?_⟩
  by_cases hji : j = i
  · subst hji
    rw [Function.update_self, hs.srv, hn j hi] at hj
    cases hj
  · rw [Function.update_of_ne hji] at hpc hj
    rw [hn j hpc] at hj
    cases hj

end Bound

end tables

/-! ### The keys of the first attempt -/

/-- In the first attempt the keys are made from the bound socket. -/
structure FirstKeys (p : Proc) : Prop where
  shmget : p.pc = .shmget → ∀ ino ∈ p.srv, p.key = some (ino, 'n')
  semget : p.pc = .semget → ∀ ino ∈ p.srv, p.key = some (ino, 'm')
  shm : p.pc.first = true → ∀ ino ∈ p.srv, ∀ x ∈ p.shm, x.1 = some (ino, 'n')
  sem : p.pc.first = true → ∀ ino ∈ p.srv, ∀ x ∈ p.sem, x.1 = some (ino, 'm')

theorem firstKeys_of_not_first {p : Proc} (h : p.pc.first = false) : FirstKeys p where
  shmget hpc := by simp [hpc] at h
  semget hpc := by simp [hpc] at h
  shm hpc := absurd (h.symm.trans hpc) Bool.false_ne_true
  sem hpc := absurd (h.symm.trans hpc) Bool.false_ne_true

theorem FirstKeys.sysCall {k k' : Kernel} {p q : Proc} {ok : Bool} (hk : FirstKeys p) (hp : p.Ok)
    (hfile : ∀ ino ∈ p.srv, ∃ f, k.file = some f ∧ f.ino = ino)
    (h : sysCall k p ok = some (k', q)) : FirstKeys q := by
  by_cases hq : q.pc.first = false
  · exact firstKeys_of_not_first hq
  have hfirst := (pc_of_sysCall h).2.1 (Bool.not_eq_false _ ▸ hq)
  have hftok {ino : ℕ} (hino : ino ∈ p.srv) (c : Char) : k.ftok c = some (ino, c) := by
    obtain ⟨f, hf, rfl⟩ := hfile ino hino
    simp [Kernel.ftok, hf]
  have hshm := hk.shm hfirst
  have hsem := hk.sem hfirst
  cases hpc : p.pc with
  | bind =>
      have h1 := hp.shm (by simp [hpc])
      have h2 := hp.sem (by simp [hpc])
      simp only [Startup.sysCall, hpc, Option.some.injEq] at h
      obtain ⟨-, rfl⟩ := Prod.ext_iff.1 h
      unfold bindCall
      split <;> constructor <;> simp [h1, h2]
  | listen =>
      simp only [Startup.sysCall, hpc, Option.some.injEq] at h
      obtain ⟨-, rfl⟩ := Prod.ext_iff.1 h
      have h1 := hp.shm (by simp [hpc])
      have h2 := hp.sem (by simp [hpc])
      have h3 : (listenCall k p ok).2.shm = p.shm ∧ (listenCall k p ok).2.sem = p.sem := by
        unfold listenCall
        cases p.srv <;> cases ok <;> exact ⟨rfl, rfl⟩
      constructor <;> simp [h1, h2, h3.1, h3.2]
  | ftokShm =>
      simp only [Startup.sysCall, hpc, Option.some.injEq, Prod.mk.injEq] at h
      obtain ⟨-, rfl⟩ := h
      exact ⟨fun _ ino hino => hftok hino 'n', by simp, fun _ => hshm, fun _ => hsem⟩
  | shmget =>
      simp only [Startup.sysCall, hpc, Option.some.injEq] at h
      obtain ⟨-, rfl⟩ := Prod.ext_iff.1 h
      refine ⟨?_, ?_, fun _ ino hino x hx => ?_, fun _ => hsem⟩
      · unfold shmgetCall
        dsimp only
        split <;> simp
      · unfold shmgetCall
        dsimp only
        split <;> simp
      · obtain ⟨id, -, rfl⟩ := Option.map_eq_some_iff.1 hx
        exact hk.shmget hpc ino hino
  | shmat =>
      simp only [Startup.sysCall, hpc, Option.some.injEq, Prod.mk.injEq] at h
      obtain ⟨-, rfl⟩ := h
      exact ⟨by simp, by simp, fun _ => hshm, fun _ => hsem⟩
  | ftokSem =>
      simp only [Startup.sysCall, hpc, Option.some.injEq, Prod.mk.injEq] at h
      obtain ⟨-, rfl⟩ := h
      exact ⟨by simp, fun _ ino hino => hftok hino 'm', fun _ => hshm, fun _ => hsem⟩
  | semget =>
      simp only [Startup.sysCall, hpc, Option.some.injEq] at h
      obtain ⟨-, rfl⟩ := Prod.ext_iff.1 h
      refine ⟨?_, ?_, fun _ => hshm, fun _ ino hino x hx => ?_⟩
      · simp only [Prod.map_snd, Proc.conclude]
        split <;> simp
      · simp only [Prod.map_snd, Proc.conclude]
        split <;> simp
      · obtain ⟨id, -, rfl⟩ := Option.map_eq_some_iff.1 hx
        exact hk.semget hpc ino hino
  | valid | invalid => simp [Startup.sysCall, hpc] at h
  | _ => simp [hpc] at hfirst

/-! ### Every step -/

section steps

variable {ι : Type} [DecidableEq ι]

/-- The invariant of the constructors that keep apart. -/
structure Inv (s : State ι) : Prop where
  ok : ∀ i, (s.proc i).Ok
  alone : ∀ j, (s.proc j).pc.recovers = true → ∀ i, i ≠ j → (s.proc i).pc.idle = true
  shm : Registered s.kernel.shms (fun i => (s.proc i).shm) fun i => (s.proc i).pc ≠ .invalid
  sem : Registered s.kernel.sems (fun i => (s.proc i).sem) fun i => (s.proc i).pc ≠ .invalid
  srv : Bound s.kernel s.proc
  keys : ∀ i, FirstKeys (s.proc i)

omit [DecidableEq ι] in
theorem inv_init (k : Kernel) : Inv (init k : State ι) where
  ok _ := ok_init
  alone := by simp [init, Proc.init]
  shm := by constructor <;> simp [init, Proc.init]
  sem := by constructor <;> simp [init, Proc.init]
  srv := by constructor <;> simp [init, Proc.init]
  keys _ := by constructor <;> simp [init, Proc.init]

namespace Inv

variable {s : State ι} {i : ι} {q : Proc}

omit [DecidableEq ι] in
/-- While a constructor is in its recovery no other one holds anything. -/
theorem alone_holds (hi : Inv s) {j : ι} (hr : (s.proc j).pc.recovers = true) (hij : i ≠ j)
    (hpc : (s.proc i).pc ≠ .invalid) :
    (s.proc i).srv = none ∧ (s.proc i).shm = none ∧ (s.proc i).sem = none := by
  have hidle := hi.alone j hr i hij
  have hb : (s.proc i).pc = .bind := by
    cases h : (s.proc i).pc with
    | bind => rfl
    | invalid => exact absurd h hpc
    | _ => simp [h] at hidle
  have hok := hi.ok i
  exact ⟨hok.srv (by simp [hb]), hok.shm (by simp [hb]), hok.sem (by simp [hb])⟩

/-- The recoveries stay alone. -/
theorem alone_step {k' : Kernel} {ok : Bool} (hi : Inv s) (hap : Apart s ⟨i, ok⟩)
    (h : sysCall s.kernel (s.proc i) ok = some (k', q)) (j : ι)
    (hr : (Function.update s.proc i q j).pc.recovers = true) (l : ι) (hlj : l ≠ j) :
    (Function.update s.proc i q l).pc.idle = true := by
  have hap : match (s.proc i).pc with
    | .conclude false => ∀ j, j ≠ i → (s.proc j).pc.idle = true
    | .bind => ∀ j, (s.proc j).pc.recovers = false
    | _ => True := hap
  by_cases hji : j = i
  · subst hji
    rw [Function.update_self] at hr
    rw [Function.update_of_ne hlj]
    rcases (pc_of_sysCall h).1 hr with hp | hp
    · exact hi.alone j hp l hlj
    · rw [hp] at hap
      exact hap l hlj
  · rw [Function.update_of_ne hji] at hr
    -- the constructor that moves is idle, so it is about to start
    have hidle := hi.alone j hr i (Ne.symm hji)
    cases hpc : (s.proc i).pc with
    | bind =>
        rw [hpc] at hap
        rw [hap j] at hr
        cases hr
    | invalid => exact absurd hpc (pc_of_sysCall h).2.2
    | _ => simp [hpc] at hidle

/-- A table that the system call leaves. -/
theorem registered_same {t : Ipc} {g : Proc → Option (Key × ℕ)}
    (h : Registered t (fun i => g (s.proc i)) fun i => (s.proc i).pc ≠ .invalid)
    (hpc : (s.proc i).pc ≠ .invalid) (hq : g q = g (s.proc i)) :
    Registered t (fun j => g (Function.update s.proc i q j))
      fun j => (Function.update s.proc i q j).pc ≠ .invalid := by
  have hfun : (fun j => g (Function.update s.proc i q j)) = fun j => g (s.proc j) := by
    funext j
    by_cases hji : j = i
    · subst hji
      rw [Function.update_self, hq]
    · rw [Function.update_of_ne hji]
  rw [hfun]
  refine h.mono fun j hj => ?_
  by_cases hji : j = i
  · exact hji ▸ hpc
  · rwa [Function.update_of_ne hji] at hj

/-- A table that the system call changes, with what the constructor then holds of it. -/
theorem registered_update {t : Ipc} {g : Proc → Option (Key × ℕ)} {x : Option (Key × ℕ)}
    (h : Registered t (Function.update (fun i => g (s.proc i)) i x) fun i => (s.proc i).pc ≠ .invalid)
    (hpc : (s.proc i).pc ≠ .invalid) (hq : g q = x) :
    Registered t (fun j => g (Function.update s.proc i q j))
      fun j => (Function.update s.proc i q j).pc ≠ .invalid := by
  have hfun : (fun j => g (Function.update s.proc i q j)) =
      Function.update (fun j => g (s.proc j)) i x := by
    funext j
    rw [Function.apply_update fun _ => g, hq]
  rw [hfun]
  refine h.mono fun j hj => ?_
  by_cases hji : j = i
  · exact hji ▸ hpc
  · rwa [Function.update_of_ne hji] at hj

/-- The segments of the constructors. -/
theorem shm_step {k' : Kernel} (hi : Inv s) (hpc : (s.proc i).pc ≠ .invalid)
    (he : Effect s.kernel (s.proc i) k' q) :
    Registered k'.shms (fun j => (Function.update s.proc i q j).shm)
      fun j => (Function.update s.proc i q j).pc ≠ .invalid := by
  cases he with
  | shmget hs h => exact registered_update (g := Proc.shm) (hi.shm.create i _ _) hpc h.shm
  | shmDropped h => exact registered_update (g := Proc.shm) (hi.shm.drop i) hpc h.shm
  | shmRemoved hr hs h =>
      refine registered_same (g := Proc.shm) (hi.shm.remove fun j x hj hx _ => ?_) hpc h.shm
      by_cases hji : j = i
      · rw [hji, hs] at hx
        cases hx
      · rw [(hi.alone_holds hr hji hj).2.1] at hx
        cases hx
  | moved h | bound _ _ h | listened _ h | closed _ h | semget _ h | semDropped h | semRemoved _ _ h
  | unlinked _ _ h => exact registered_same (g := Proc.shm) hi.shm hpc h.shm

/-- The semaphores of the constructors. -/
theorem sem_step {k' : Kernel} (hi : Inv s) (hpc : (s.proc i).pc ≠ .invalid)
    (he : Effect s.kernel (s.proc i) k' q) :
    Registered k'.sems (fun j => (Function.update s.proc i q j).sem)
      fun j => (Function.update s.proc i q j).pc ≠ .invalid := by
  cases he with
  | semget hs h => exact registered_update (g := Proc.sem) (hi.sem.create i _ _) hpc h.sem
  | semDropped h => exact registered_update (g := Proc.sem) (hi.sem.drop i) hpc h.sem
  | semRemoved hr hs h =>
      refine registered_same (g := Proc.sem) (hi.sem.remove fun j x hj hx _ => ?_) hpc h.sem
      by_cases hji : j = i
      · rw [hji, hs] at hx
        cases hx
      · rw [(hi.alone_holds hr hji hj).2.2] at hx
        cases hx
  | moved h | bound _ _ h | listened _ h | closed _ h | shmget _ h | shmDropped h | shmRemoved _ _ h
  | unlinked _ _ h => exact registered_same (g := Proc.sem) hi.sem hpc h.sem

/-- The sockets of the constructors. -/
theorem srv_step {k' : Kernel} (hi : Inv s) (hpc : (s.proc i).pc ≠ .invalid)
    (he : Effect s.kernel (s.proc i) k' q) : Bound k' (Function.update s.proc i q) := by
  cases he with
  | bound hf hs h =>
      exact hi.srv.bound hf h.srv (h.listening.trans ((hi.ok i).listening hs))
  | listened hs h => exact hi.srv.setLive hpc hs (Or.inr ⟨h.srv.trans hs, rfl⟩)
  | closed hs h => exact hi.srv.setLive hpc hs (Or.inl h.srv)
  | unlinked hr hs h =>
      refine hi.srv.unlink (fun j hj => ?_) hpc h
      by_cases hji : j = i
      · rw [hji, hs]
      · exact (hi.alone_holds hr hji hj).1
  | moved h | shmRemoved _ _ h | semRemoved _ _ h | shmget _ h | semget _ h | shmDropped h
  | semDropped h => exact hi.srv.same rfl rfl hpc h.srv h.listening

/-- **Every step of constructors that keep apart keeps the invariant.** -/
theorem step [Fintype ι] {t : State ι} {a : Act ι} (hi : Inv s) (hap : Apart s a)
    (h : step s a = some t) : Inv t := by
  obtain ⟨i, ok⟩ := a
  obtain ⟨-, h⟩ := Option.ite_none_left_eq_some.1 h
  obtain ⟨⟨k', q⟩, hcall, rfl⟩ := Option.map_eq_some_iff.1 h
  have hcall : sysCall s.kernel (s.proc i) ok = some (k', q) := hcall
  have hpc := (pc_of_sysCall hcall).2.2
  have hok : ∀ j, (Function.update s.proc i q j).Ok := by
    intro j
    by_cases hji : j = i
    · subst hji
      rw [Function.update_self]
      exact (hi.ok j).sysCall hcall
    · rw [Function.update_of_ne hji]
      exact hi.ok j
  have hkeys : ∀ j, FirstKeys (Function.update s.proc i q j) := by
    intro j
    by_cases hji : j = i
    · subst hji
      rw [Function.update_self]
      refine (hi.keys j).sysCall (hi.ok j) (fun ino hino => ?_) hcall
      obtain ⟨f, hf, hfi, -⟩ := hi.srv.file j ino hpc hino
      exact ⟨f, hf, hfi⟩
    · rw [Function.update_of_ne hji]
      exact hi.keys j
  have he := effect_of_sysCall (hi.ok i) hcall
  exact ⟨hok, hi.alone_step hap hcall, hi.shm_step hpc he, hi.sem_step hpc he, hi.srv_step hpc he, hkeys⟩

end Inv

/-- **At most one of the writers that start on a path survives, and it owns its resources**, whatever the
kernel they find and the order of their system calls, as long as no constructor concludes that the shmdata
is dead while another one runs or has succeeded, and none starts during a recovery. -/
theorem survivor [Fintype ι] {k : Kernel} {as : List (Act ι)} {s : State ι}
    (h : exec (restrict step Apart) (init k) as = some s) : OneSurvives s := by
  have hi : Inv s := by
    refine exec_invariant (fun s a t hs hst => ?_) h (inv_init k)
    obtain ⟨hap, hst⟩ := restrict_eq_some.1 hst
    exact hs.step hap hst
  have howns {i : ι} {b : Bool} (hpc : (s.proc i).pc = .valid b) : Owns s i := by
    have hv := (hi.ok i).valid b hpc
    simp only [Proc.isValid, Bool.and_eq_true, Option.any_eq_true] at hv
    obtain ⟨⟨⟨⟨hsrv, hl⟩, x, hx, -⟩, -⟩, y, hy, -⟩ := hv
    obtain ⟨ino, hino⟩ := Option.isSome_iff_exists.1 hsrv
    have hne : (s.proc i).pc ≠ .invalid := by simp [hpc]
    obtain ⟨f, hf, rfl, hsock, hlive⟩ := hi.srv.file i ino hne hino
    refine ⟨⟨f, hf, hino, hsock, hlive hl⟩, ⟨x, hx, hi.shm.tab i x hne hx⟩,
      ⟨y, hy, hi.sem.tab i y hne hy⟩, fun hfirst => ?_⟩
    have hftok (c : Char) : s.kernel.ftok c = some (f.ino, c) := by simp [Kernel.ftok, hf]
    rw [hftok, hftok]
    exact ⟨(hi.keys i).shm (by simp [hfirst]) f.ino hino, (hi.keys i).sem (by simp [hfirst]) f.ino hino⟩
  refine ⟨fun i j b c hb hc => ?_, fun i b hb => howns hb⟩
  obtain ⟨f, hf, hfi, -⟩ := (howns hb).file
  obtain ⟨g, hg, hgj, -⟩ := (howns hc).file
  rw [hf] at hg
  cases hg
  exact hi.srv.inj i j f.ino hfi hgj

end steps

/-! ### Two writers -/

theorem fresh_none : ∀ f ∈ (none : Option File), f.ino < 1 := by simp

/-- Nothing is at the path. -/
def emptyKernel : Kernel where
  file := none
  nextIno := 1
  sems := ⟨fun _ => none, 1⟩
  shms := ⟨fun _ => none, 1⟩
  fresh := fresh_none

/-- `n` system calls of constructor `i` that succeed. -/
def calls (i : Fin 2) (n : ℕ) : List (Act (Fin 2)) := List.replicate n ⟨i, true⟩

/-- The second constructor starts while the first is in its first attempt, and then finds it answering. -/
def refused : List (Act (Fin 2)) := calls 0 5 ++ calls 1 3 ++ calls 0 2 ++ calls 1 13

theorem refused_oneSurvives :
    ∃ s, exec (restrict step Apart) (init emptyKernel) refused = some s ∧
      (s.proc 0).pc = .valid false ∧ (s.proc 1).pc = .invalid ∧ OneSurvives s := by
  have hrun : ((exec (restrict step Apart) (init emptyKernel) refused).any fun s =>
      (s.proc 0).pc = .valid false ∧ (s.proc 1).pc = .invalid) = true := by
    decide +kernel
  obtain ⟨s, hs, hrun⟩ := (Option.any_eq_true _ _).1 hrun
  obtain ⟨h0, h1⟩ := of_decide_eq_true hrun
  exact ⟨s, hs, h0, h1, survivor hs⟩

/-- The first constructor has bound its socket and does not listen yet when the second one inspects the path: the
connection is refused. -/
def earlyInspection : List (Act (Fin 2)) := calls 0 1 ++ calls 1 10 ++ calls 0 6 ++ calls 1 16

/-- **Two valid writers**: the second one has removed the semaphore, the segment and the socket file of the
first. -/
theorem earlyInspection_both_valid :
    ∃ s, exec step (init emptyKernel) earlyInspection = some s ∧ (s.proc 0).pc = .valid false ∧
      (s.proc 1).pc = .valid true ∧ ¬ Owns s 0 ∧ ¬ OneSurvives s := by
  have hrun : ((exec step (init emptyKernel) earlyInspection).any fun s =>
      (s.proc 0).pc = .valid false ∧ (s.proc 1).pc = .valid true ∧
        (s.proc 0).srv ≠ s.kernel.file.map File.ino) = true := by
    decide +kernel
  obtain ⟨s, hs, hrun⟩ := (Option.any_eq_true _ _).1 hrun
  obtain ⟨h0, h1, hsrv⟩ := of_decide_eq_true hrun
  have howns : ¬ Owns s 0 := by
    intro h
    obtain ⟨f, hf, hfi, -⟩ := h.file
    exact hsrv (by rw [hf, hfi]; rfl)
  exact ⟨s, hs, h0, h1, howns, fun h => howns (h.2 0 false h0)⟩

end Startup

end Shmdata

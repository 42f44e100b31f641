/-
**Many `WriteLock`s on one semaphore set.**

Two writers exclude each other because `write_start` waits until semaphore `0` is zero and then raises it:
while a lock is held the semaphore is positive, whatever number of readers is committed.  The safeguard
against crashed readers undoes this.  A `WriteLock` that waits because *another lock* is held for more
than a second cannot tell this from a crashed reader, its reset thread sets semaphore `0` to `0`, and
`write_start` goes through.

The state below is any number of `WriteLock`s, each with its two threads, interleaved at the granularity
of their system calls and critical sections.  `cv_m` is held by the constructor at `Ctor.setFlag` and by
the reset thread at `Reset.test` and `Reset.setval`.  The readers are seen through the decrements of
semaphore `0`, by the destructor of a `ReadLock` or by `cancel_commited_reader`.

Main definitions:

* `Shmdata.Exclusion.Lock`, `Shmdata.Exclusion.State`, `Shmdata.Exclusion.step` — the locks and their steps;
* `Shmdata.Exclusion.Spares` — the steps that do not touch the count of a held lock;
* `Shmdata.Exclusion.Exclusive` — at most one lock is valid, and semaphore `1` is at most `1`.

Main results:

* `Shmdata.Exclusion.exclusive_of_exec` — **the locks exclude each other while nothing touches the count of
  a held lock**;
* `Shmdata.Exclusion.raised_twice` — a reset by a waiting lock while another is held lets the second in;
* `Shmdata.Exclusion.longAccess_not_exclusive` — two valid locks after one of them is held for a second.
-/

import Shmdata.WriteLock

set_option relaxedAutoImplicit false
set_option autoImplicit false

namespace Shmdata

namespace Exclusion

open SysV Semops Runs WriteLock

/-! ### The locks -/

/-- One `WriteLock`: where its constructor and its reset thread are, the flag between them, and the
member `valid_`. -/
structure Lock where
  ctor : Ctor
  reset : Reset
  gotSemaphoreInAReasonableTime : Bool
  valid : Bool

/-- A lock at the beginning of its constructor. -/
def Lock.init : Lock where
  ctor := .writeStart
  reset := .start
  gotSemaphoreInAReasonableTime := false
  valid := true

/-- A step of the constructor or of the reset thread that calls nothing on the semaphores. -/
inductive Tick
  | lockFlag
  | setFlag
  | notify
  | join
  /-- The reset thread takes `cv_m` and evaluates the predicate of its wait for the first time. -/
  | resetLock
  /-- A notification, or a spurious wake-up. -/
  | wake
  | timeout
  | test

/-- The steps of the two threads between their system calls. -/
def Lock.tick (l : Lock) : Tick → Option Lock
  | .lockFlag =>
      if l.ctor = .lockFlag ∧ l.reset ≠ .test ∧ l.reset ≠ .setval then
        some { l with ctor := .setFlag }
      else none
  | .setFlag =>
      if l.ctor = .setFlag then
        some { l with ctor := .notify, gotSemaphoreInAReasonableTime := true }
      else none
  | .notify => if l.ctor = .notify then some { l with ctor := .join } else none
  | .join =>
      if l.ctor = .join ∧ l.reset = .ended then some { l with ctor := .valid } else none
  | .resetLock =>
      if l.reset = .start ∧ l.ctor ≠ .setFlag then
        some { l with reset := if l.gotSemaphoreInAReasonableTime then .test else .waiting }
      else none
  | .wake =>
      if l.reset = .waiting ∧ l.ctor ≠ .setFlag then
        some { l with reset := if l.gotSemaphoreInAReasonableTime then .test else .waiting }
      else none
  | .timeout =>
      if l.reset = .waiting ∧ l.ctor ≠ .setFlag then some { l with reset := .test } else none
  | .test =>
      if l.reset = .test then
        some { l with reset := if l.gotSemaphoreInAReasonableTime then .ended else .setval }
      else none

/-- The constructor has returned, `valid_` is true and the destructor has not run. -/
def Lock.isValid (l : Lock) : Prop := l.ctor = .valid ∧ l.valid = true

/-- `write_start` has succeeded and the destructor has not run. -/
def Lock.Holds (l : Lock) : Prop := l.valid = true ∧ l.ctor ≠ .writeStart ∧ l.ctor ≠ .released

/-- The semaphores and the locks by their number, `none` for one that is not created yet.  `owed` is the
number of committed reads that semaphore `0` counts. -/
structure State where
  sem : ℕ → ℕ
  lock : ℕ → Option Lock
  owed : ℕ

/-- A semaphore set that was just created. -/
def init : State where
  sem := fun _ => 0
  lock := fun _ => none
  owed := 0

/-- One step of one lock or of a reader. -/
inductive Act
  /-- A thread enters the constructor of lock `i`. -/
  | create (i : ℕ)
  | tick (i : ℕ) (e : Tick)
  /-- `semop(write_start)` returns, with `-1` for `false`. -/
  | writeStart (i : ℕ) (ok : Bool)
  | setval (i : ℕ)
  /-- `commit_readers(n)`, which the callers make with a positive number only. -/
  | commitReaders (i : ℕ) (n : ℕ)
  /-- `~WriteLock`; `semop(write_end)` is interrupted for `false`. -/
  | writeEnd (i : ℕ) (ok : Bool)
  /-- `semop(read_end)`, by a reader or by `cancel_commited_reader`. -/
  | readEnd

/-- The state with another value of lock `i`. -/
def State.setLock (s : State) (i : ℕ) (l : Lock) : State :=
  { s with lock := Function.update s.lock i (some l) }

/-- A step of a lock that exists. -/
def lockStep (s : State) (l : Lock) : Act → Option State
  | .tick i e => (l.tick e).map (s.setLock i)
  | .writeStart i ok =>
      if l.ctor = .writeStart then
        if ok then
          (perform s.sem writeStart).map fun f =>
            { s with sem := f }.setLock i { l with ctor := .lockFlag }
        else some (s.setLock i { l with ctor := .lockFlag, valid := false })
      else none
  | .setval i =>
      if l.reset = .setval then
        some ({ s with sem := Function.update s.sem 0 0, owed := 0 }.setLock i
          { l with reset := .ended })
      else none
  | .commitReaders _ n =>
      -- `copy_to_shm` and `notify_clients` do not test whether the lock is valid
      if l.ctor = .valid ∧ 0 < n then
        (perform s.sem (commitReaders n)).map fun f => { s with sem := f, owed := s.owed + n }
      else none
  | .writeEnd i ok =>
      if l.ctor = .valid then
        if l.valid ∧ ok then
          (perform s.sem writeEnd).map fun f =>
            { s with sem := f }.setLock i { l with ctor := .released }
        else some (s.setLock i { l with ctor := .released })
      else none
  | .create _ | .readEnd => none

/-- The steps of the locks and of the readers.  A step that would have to wait is not enabled. -/
def step (s : State) (a : Act) : Option State :=
  match a with
  | .create i => if s.lock i = none then some (s.setLock i .init) else none
  | .readEnd => (perform s.sem readEnd).map fun f => { s with sem := f, owed := s.owed - 1 }
  | .tick i _ | .writeStart i _ | .setval i | .commitReaders i _ | .writeEnd i _ =>
      (s.lock i).bind fun l => lockStep s l a

/-! ### The transitions, one by one -/

/-- The steps again, by what they do to the semaphores. -/
inductive Trans : State → Act → State → Prop
  | create {s : State} {i : ℕ} (hi : s.lock i = none) : Trans s (.create i) (s.setLock i .init)
  /-- A step of one lock that leaves the semaphores, and by which it neither acquires nor releases. -/
  | moved {s : State} {i : ℕ} {e : Tick} {l m : Lock} (hi : s.lock i = some l)
      (hm : m.Holds → l.Holds) : Trans s (.tick i e) (s.setLock i m)
  | acquired {s : State} {i : ℕ} {l : Lock} (hi : s.lock i = some l) (hc : l.ctor = .writeStart)
      (h0 : s.sem 0 = 0) :
      Trans s (.writeStart i true)
        ({ s with sem := Function.update (Function.update s.sem 1 (s.sem 1 + 1)) 0 1 }.setLock i
          { l with ctor := .lockFlag })
  | notAcquired {s : State} {i : ℕ} {l : Lock} (hi : s.lock i = some l) :
      Trans s (.writeStart i false) (s.setLock i { l with ctor := .lockFlag, valid := false })
  | setval {s : State} {i : ℕ} {l : Lock} (hi : s.lock i = some l) (hr : l.reset = .setval) :
      Trans s (.setval i)
        ({ s with sem := Function.update s.sem 0 0, owed := 0 }.setLock i { l with reset := .ended })
  | committed {s : State} {i n : ℕ} :
      Trans s (.commitReaders i n)
        { s with sem := Function.update s.sem 0 (s.sem 0 + n), owed := s.owed + n }
  | released {s : State} {i : ℕ} {l : Lock} (hi : s.lock i = some l) (hl : l.isValid)
      (h0 : 1 ≤ s.sem 0) :
      Trans s (.writeEnd i true)
        ({ s with
          sem := Function.update (Function.update s.sem 0 (s.sem 0 - 1)) 1 (s.sem 1 - 1) }.setLock i
          { l with ctor := .released })
  | abandoned {s : State} {i : ℕ} {ok : Bool} {l : Lock} (hi : s.lock i = some l) :
      Trans s (.writeEnd i ok) (s.setLock i { l with ctor := .released })
  | readEnd {s : State} (h0 : 1 ≤ s.sem 0) :
      Trans s .readEnd { s with sem := Function.update s.sem 0 (s.sem 0 - 1), owed := s.owed - 1 }

/-- The threads of a lock neither acquire nor release it between their system calls. -/
theorem holds_of_tick {l m : Lock} {e : Tick} (h : l.tick e = some m) (hm : m.Holds) : l.Holds := by
  cases e with
  | lockFlag | setFlag | notify | join | resetLock | wake | timeout | test =>
      obtain ⟨hc, h⟩ := Option.ite_none_right_eq_some.1 h
      obtain rfl := Option.some.inj h
      simp_all [Lock.Holds]

theorem trans_of_step {s t : State} {a : Act} (h : step s a = some t) : Trans s a t := by
  cases a with
  | create i =>
      obtain ⟨hi, h⟩ := Option.ite_none_right_eq_some.1 h
      exact Option.some.inj h ▸ .create hi
  | readEnd =>
      obtain ⟨f, hf, rfl⟩ := Option.map_eq_some_iff.1 h
      obtain ⟨h0, rfl⟩ := readEnd_eq_ok.1 (perform_eq_some.1 hf)
      exact .readEnd h0
  | tick i e =>
      obtain ⟨l, hi, h⟩ := Option.bind_eq_some_iff.1 h
      obtain ⟨m, hm, rfl⟩ := Option.map_eq_some_iff.1 h
      exact .moved hi (holds_of_tick hm)
  | writeStart i ok =>
      obtain ⟨l, hi, h⟩ := Option.bind_eq_some_iff.1 h
      obtain ⟨hc, h⟩ := Option.ite_none_right_eq_some.1 h
      cases ok with
      | true =>
          obtain ⟨f, hf, rfl⟩ := Option.map_eq_some_iff.1 h
          obtain ⟨h0, -, rfl⟩ := writeStart_eq_ok.1 (perform_eq_some.1 hf)
          exact .acquired hi hc h0
      | false => exact Option.some.inj h ▸ .notAcquired hi
  | setval i =>
      obtain ⟨l, hi, h⟩ := Option.bind_eq_some_iff.1 h
      obtain ⟨hr, h⟩ := Option.ite_none_right_eq_some.1 h
      exact Option.some.inj h ▸ .setval hi hr
  | commitReaders i n =>
      obtain ⟨l, hi, h⟩ := Option.bind_eq_some_iff.1 h
      obtain ⟨⟨hc, hn⟩, h⟩ := Option.ite_none_right_eq_some.1 h
      obtain ⟨f, hf, rfl⟩ := Option.map_eq_some_iff.1 h
      obtain ⟨-, rfl⟩ := (commitReaders_eq_ok hn).1 (perform_eq_some.1 hf)
      exact .committed
  | writeEnd i ok =>
      obtain ⟨l, hi, h⟩ := Option.bind_eq_some_iff.1 h
      obtain ⟨hc, h⟩ := Option.ite_none_right_eq_some.1 h
      by_cases hv : l.valid = true ∧ ok = true
      · obtain ⟨hv, rfl⟩ := hv
        rw [if_pos ⟨hv, rfl⟩] at h
        obtain ⟨f, hf, rfl⟩ := Option.map_eq_some_iff.1 h
        obtain ⟨h0, -, rfl⟩ := writeEnd_eq_ok.1 (perform_eq_some.1 hf)
        exact .released hi ⟨hc, hv⟩ h0
      · rw [if_neg hv] at h
        exact Option.some.inj h ▸ .abandoned hi

/-! ### Exclusion -/

/-- No reset thread sets semaphore `0` while semaphore `1` is raised, and a decrement gives back a read
that is still counted. -/
def Spares (s : State) : Act → Prop
  | .setval _ => s.sem 1 = 0
  | .readEnd => 0 < s.owed
  | _ => True

instance (s : State) (a : Act) : Decidable (Spares s a) := by
  cases a <;> unfold Spares <;> infer_instance

/-- At most one `WriteLock` is valid, and semaphore `1` is at most `1`. -/
def Exclusive (s : State) : Prop :=
  (∀ i j l m, s.lock i = some l → s.lock j = some m → l.isValid → m.isValid → i = j) ∧ s.sem 1 ≤ 1

/-- The invariant of exclusion: semaphore `0` counts the owed reads and the held lock. -/
structure Inv (s : State) : Prop where
  count : s.sem 0 = s.owed + s.sem 1
  le : s.sem 1 ≤ 1
  held : ∀ i l, s.lock i = some l → l.Holds → s.sem 1 = 1
  unique : ∀ i j l m, s.lock i = some l → s.lock j = some m → l.Holds → m.Holds → i = j

theorem inv_init : Inv init := by
  constructor <;> simp [init]

/-- The holders after a step of one lock: that lock, or one that was a holder before. -/
theorem State.lock_setLock {s : State} {i j : ℕ} {l m : Lock} (h : (s.setLock i l).lock j = some m) :
    j = i ∧ m = l ∨ j ≠ i ∧ s.lock j = some m := by
  have h : Function.update s.lock i (some l) j = some m := h
  by_cases hj : j = i
  · subst hj
    rw [Function.update_self] at h
    exact Or.inl ⟨rfl, (Option.some.inj h).symm⟩
  · rw [Function.update_of_ne hj] at h
    exact Or.inr ⟨hj, h⟩

namespace Inv

variable {s : State}

/-- A step of one lock that leaves semaphore `1`, and by which it does not become a holder. -/
theorem setLock (hi : Inv s) {i owed : ℕ} {l : Lock} {f : ℕ → ℕ} (h1 : f 1 = s.sem 1)
    (hc : f 0 = owed + f 1) (hl : l.Holds → ∃ l', s.lock i = some l' ∧ l'.Holds) :
    Inv ({ s with sem := f, owed := owed }.setLock i l) := by
  have hold {j : ℕ} {m : Lock} (hj : ({ s with sem := f, owed := owed }.setLock i l).lock j = some m)
      (hm : m.Holds) : ∃ m', s.lock j = some m' ∧ m'.Holds := by
    rcases State.lock_setLock hj with ⟨rfl, rfl⟩ | ⟨-, hj⟩
    · exact hl hm
    · exact ⟨m, hj, hm⟩
  constructor
  · exact hc
  · exact h1.trans_le hi.le
  · intro j m hj hm
    obtain ⟨m', hj, hm⟩ := hold hj hm
    exact h1.trans (hi.held j m' hj hm)
  · intro j k m n hj hk hm hn
    obtain ⟨m', hj, hm⟩ := hold hj hm
    obtain ⟨n', hk, hn⟩ := hold hk hn
    exact hi.unique j k m' n' hj hk hm hn

/-- While semaphore `1` is zero no lock is held. -/
theorem not_holds (hi : Inv s) (h1 : s.sem 1 = 0) {i : ℕ} {l : Lock} (hl : s.lock i = some l) :
    ¬ l.Holds := by
  intro hh
  have := hi.held i l hl hh
  omega

theorem acquired (hi : Inv s) {i : ℕ} {l : Lock} (h0 : s.sem 0 = 0) :
    Inv ({ s with sem := Function.update (Function.update s.sem 1 (s.sem 1 + 1)) 0 1 }.setLock i
      { l with ctor := .lockFlag }) := by
  have hcount := hi.count
  have h1 : s.sem 1 = 0 := by omega
  have howed : s.owed = 0 := by omega
  -- nobody else holds, since semaphore `1` was zero
  have hold {j : ℕ} {m : Lock} (hj : (s.setLock i { l with ctor := .lockFlag }).lock j = some m)
      (hm : m.Holds) : j = i := by
    rcases State.lock_setLock hj with ⟨rfl, -⟩ | ⟨-, hj⟩
    · rfl
    · exact absurd hm (hi.not_holds h1 hj)
  constructor
  · simp [State.setLock, h1, howed]
  · simp [State.setLock, h1]
  · intro j m _ _
    simp [State.setLock, h1]
  · intro j k m n hj hk hm hn
    rw [hold hj hm, hold hk hn]

theorem released (hi : Inv s) {i : ℕ} {l : Lock} (hl : s.lock i = some l) (hv : l.isValid) :
    Inv ({ s with
      sem := Function.update (Function.update s.sem 0 (s.sem 0 - 1)) 1 (s.sem 1 - 1) }.setLock i
      { l with ctor := .released }) := by
  have hh : l.Holds := ⟨hv.2, by rw [hv.1]; decide, by rw [hv.1]; decide⟩
  have hcount := hi.count
  have h1 := hi.held i l hl hh
  have hold {j : ℕ} {m : Lock} (hj : (s.setLock i { l with ctor := .released }).lock j = some m) :
      ¬ m.Holds := by
    intro hm
    rcases State.lock_setLock hj with ⟨-, rfl⟩ | ⟨hne, hj⟩
    · exact hm.2.2 rfl
    · exact hne (hi.unique j i m l hj hl hm hh)
  constructor
  · simp [State.setLock, h1]
    omega
  · simp [State.setLock, h1]
  · intro j m hj hm
    exact absurd hm (hold hj)
  · intro j k m n hj _ hm _
    exact absurd hm (hold hj)

theorem step {t : State} {a : Act} (hi : Inv s) (hok : Spares s a) (h : step s a = some t) : Inv t := by
  have hcount := hi.count
  cases trans_of_step h with
  | create _ => exact hi.setLock rfl hcount fun hl => absurd rfl hl.2.1
  | moved hl hm => exact hi.setLock rfl hcount fun hh => ⟨_, hl, hm hh⟩
  | acquired _ _ h0 => exact hi.acquired h0
  | notAcquired _ => exact hi.setLock rfl hcount fun hl => absurd hl.1 Bool.false_ne_true
  | setval hl _ =>
      have h1 : s.sem 1 = 0 := hok
      exact hi.setLock (Function.update_of_ne (by decide) ..) (by simp [h1]) fun hh => ⟨_, hl, hh⟩
  | committed =>
      refine { hi with count := ?_ }
      simp only [Function.update_self, Function.update_of_ne (show 1 ≠ 0 by decide)]
      omega
  | released hl hv _ => exact hi.released hl hv
  | abandoned _ => exact hi.setLock rfl hcount fun hl => absurd rfl hl.2.2
  | readEnd h0 =>
      have howed : 0 < s.owed := hok
      refine { hi with count := ?_ }
      simp only [Function.update_self, Function.update_of_ne (show 1 ≠ 0 by decide)]
      omega

end Inv

/-- **The locks exclude each other**, whatever their number and the schedule, as long as no reset thread
acts while a lock is held and no reader gives back more than was committed. -/
theorem exclusive_of_exec {as : List Act} {s : State}
    (h : exec (restrict step Spares) init as = some s) : Exclusive s := by
  have hi : Inv s := by
    refine exec_invariant (fun s a t hs hst => ?_) h inv_init
    obtain ⟨hok, hst⟩ := restrict_eq_some.1 hst
    exact hs.step hok hst
  have hholds {l : Lock} (hl : l.isValid) : l.Holds :=
    ⟨hl.2, by rw [hl.1]; decide, by rw [hl.1]; decide⟩
  exact ⟨fun i j l m hl hm hv hv' => hi.unique i j l m hl hm (hholds hv) (hholds hv'), hi.le⟩

/-- A waiting lock that resets semaphore `0` while another lock is held raises semaphore `1` a second
time. -/
theorem raised_twice {s : State} {i : ℕ} {l : Lock} (hi : s.lock i = some l)
    (hc : l.ctor = .writeStart) (hr : l.reset = .setval) (h1 : s.sem 1 = 1) :
    ∃ t, exec step s [.setval i, .writeStart i true] = some t ∧ t.sem 1 = 2 := by
  let u := { s with sem := Function.update s.sem 0 0, owed := 0 }.setLock i { l with reset := .ended }
  have hset : step s (.setval i) = some u := by
    simp [step, lockStep, hi, hr, u]
  obtain ⟨f, hf, hf1⟩ : ∃ f, perform u.sem writeStart = some f ∧ f 1 = 2 := by
    refine ⟨_, perform_eq_some.2 (writeStart_eq_ok.2 ⟨?_, ?_, rfl⟩), ?_⟩
    · simp [u, State.setLock]
    · simp [u, State.setLock, h1, SEMVMX]
    · simp [u, State.setLock, h1]
  have hstart : step u (.writeStart i true) =
      some ({ u with sem := f }.setLock i { l with reset := .ended, ctor := .lockFlag }) := by
    have hu : u.lock i = some { l with reset := .ended } := Function.update_self ..
    simp [step, lockStep, hu, hc, hf]
  exact ⟨_, by rw [exec_cons, hset, Option.bind_some, exec_cons, hstart]; rfl, hf1⟩

/-- The steps of the constructor of lock `i`, from the acquisition to its end. -/
def acquireSteps (i : ℕ) : List Act :=
  [.writeStart i true, .tick i .lockFlag, .tick i .setFlag, .tick i .notify, .tick i .wake,
    .tick i .test, .tick i .join]

/-- Two writers in turn, the second with a committed reader that crashed before it. -/
def takeTurns : List Act :=
  .create 0 :: .tick 0 .resetLock :: acquireSteps 0 ++
    ([.commitReaders 0 1, .create 1, .tick 1 .resetLock, .writeEnd 0 true, .tick 1 .timeout,
      .tick 1 .test, .setval 1, .writeStart 1 true, .tick 1 .lockFlag, .tick 1 .setFlag,
      .tick 1 .notify, .tick 1 .join] : List Act)

theorem takeTurns_exclusive :
    ∃ s l, exec (restrict step Spares) init takeTurns = some s ∧ s.lock 1 = some l ∧ l.isValid ∧
      s.sem 1 = 1 ∧ Exclusive s := by
  have hrun : exec (restrict step Spares) init takeTurns = some _ := rfl
  exact ⟨_, _, hrun, rfl, ⟨rfl, rfl⟩, rfl, exclusive_of_exec hrun⟩

/-- A lock is held while another one waits for more than a second. -/
def longAccess : List Act :=
  .create 0 :: .tick 0 .resetLock :: acquireSteps 0 ++
    [.create 1, .tick 1 .resetLock, .tick 1 .timeout, .tick 1 .test, .setval 1, .writeStart 1 true,
      .tick 1 .lockFlag, .tick 1 .setFlag, .tick 1 .notify, .tick 1 .join]

/-- **Two writers hold their locks**: the second one took the first for a crashed reader. -/
theorem longAccess_not_exclusive :
    ∃ s l m, exec step init longAccess = some s ∧ s.lock 0 = some l ∧ s.lock 1 = some m ∧
      l.isValid ∧ m.isValid ∧ s.sem 1 = 2 ∧ ¬ Exclusive s := by
  refine ⟨_, _, _, rfl, rfl, rfl, ⟨rfl, rfl⟩, ⟨rfl, rfl⟩, rfl, ?_⟩
  rintro ⟨-, h⟩
  exact absurd h (by decide)

end Exclusion

end Shmdata

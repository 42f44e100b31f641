/-
**The constructor of `WriteLock` and its reset thread.**

`WriteLock::WriteLock` starts a thread that waits on a condition variable for at most a second,
and then calls `semop` with `write_start`.  If the wait times out before the constructor has set
`got_semaphore_in_a_reasonable_time`, the thread concludes that a committed reader has crashed and
sets semaphore `0` to `0`.  The flag is set in a critical section of its own, after `semop` has
returned, so the time-out may fall between the two; it may also fall before `semop` returns while
the `SETVAL` it leads to comes after.

The state below is one `WriteLock` from its construction to its destruction, the two threads
interleaved at the granularity of their system calls and critical sections, and the readers that
were committed before.  The mutex `cv_m` is held by the constructor at `Ctor.setFlag` and by the
reset thread at `Reset.test` and `Reset.setval`, and by nobody elsewhere.

Main definitions:

* `Shmdata.WriteLock.State`, `Shmdata.WriteLock.step` — the two threads and the readers;
* `Shmdata.WriteLock.Safe` — no `SETVAL` came after `write_start`, and a valid lock can be
  released;
* `Shmdata.WriteLock.InTime` — the schedules on which the time-out and the acquisition do not
  cross.

Main results:

* `Shmdata.WriteLock.safe_of_inTime` — **in every run that is in time, every state is safe**;
* `Shmdata.WriteLock.late_of_crossing` — a time-out or an acquisition that crosses the other leads
  to a late `SETVAL`;
* `Shmdata.WriteLock.lateSchedule_not_safe` — a run of nine steps at whose end the lock is valid
  and can never be released.
-/

import Shmdata.Runs
import Shmdata.SysVSem

set_option relaxedAutoImplicit false
set_option autoImplicit false

namespace Shmdata

namespace WriteLock

open SysV Semops Runs

/-! ### The two threads -/

/-- Where the thread that owns the lock is. -/
inductive Ctor
  /-- In the call `semop(write_start)` of the constructor. -/
  | writeStart
  /-- `semop` has returned; before `std::lock_guard lk(cv_m)`. -/
  | lockFlag
  /-- `cv_m` held, about to set the flag. -/
  | setFlag
  /-- About to call `cv.notify_one()`. -/
  | notify
  /-- In `read_semaphore_reset_thread.join()`. -/
  | join
  /-- The constructor has returned. -/
  | valid
  /-- The destructor has performed `write_end`. -/
  | released
  deriving DecidableEq

/-- Where the reset thread is. -/
inductive Reset
  /-- Before `std::unique_lock lk(cv_m)`. -/
  | start
  /-- Inside `cv.wait_for`, with `cv_m` released. -/
  | waiting
  /-- The wait is over, `cv_m` is held, the flag is about to be tested. -/
  | test
  /-- The flag was found unset; about to call `semctl(SETVAL)`. -/
  | setval
  | ended
  deriving DecidableEq

/-- The semaphores, the two threads, and the reads committed before this lock: `owed` of them are
counted by semaphore `0`, and `orphans` are those whose count a `SETVAL` has discarded although
their `ReadLock` is not released.  `lateReset` records a `SETVAL` that came after `write_start`. -/
structure State where
  sem : ℕ → ℕ
  ctor : Ctor
  reset : Reset
  gotSemaphoreInAReasonableTime : Bool
  owed : ℕ
  orphans : ℕ
  lateReset : Bool

/-- The beginning of the constructor, with `k` committed reads not yet released. -/
def init (k : ℕ) : State where
  sem := fun i => if i = 0 then k else 0
  ctor := .writeStart
  reset := .start
  gotSemaphoreInAReasonableTime := false
  owed := k
  orphans := 0
  lateReset := false

/-- One step of one of the threads. -/
inductive Act
  /-- `semop(write_start)` succeeds. -/
  | writeStart
  | lockFlag
  | setFlag
  | notify
  | join
  /-- `commit_readers(n)` on the valid lock. -/
  | commitReaders (n : ℕ)
  /-- `~WriteLock`. -/
  | writeEnd
  /-- The reset thread takes `cv_m` and evaluates the predicate of its wait for the first time. -/
  | resetLock
  /-- A notification, or a spurious wake-up. -/
  | wake
  | timeout
  | test
  | setval
  /-- A reader whose read is counted releases its `ReadLock`. -/
  | readEnd
  /-- A reader whose count was discarded releases its `ReadLock`. -/
  | orphanEnd

/-- The steps of the two threads.  A step that would have to wait, for a semaphore or for `cv_m`,
is not enabled. -/
def step (s : State) : Act → Option State
  | .writeStart =>
      if s.ctor = .writeStart then
        (perform s.sem writeStart).map fun f => { s with sem := f, ctor := .lockFlag }
      else none
  | .lockFlag =>
      if s.ctor = .lockFlag ∧ s.reset ≠ .test ∧ s.reset ≠ .setval then
        some { s with ctor := .setFlag }
      else none
  | .setFlag =>
      if s.ctor = .setFlag then
        some { s with ctor := .notify, gotSemaphoreInAReasonableTime := true }
      else none
  | .notify => if s.ctor = .notify then some { s with ctor := .join } else none
  | .join =>
      if s.ctor = .join ∧ s.reset = .ended then some { s with ctor := .valid } else none
  | .commitReaders n =>
      if s.ctor = .valid ∧ 0 < n then
        (perform s.sem (commitReaders n)).map fun f => { s with sem := f }
      else none
  | .writeEnd =>
      if s.ctor = .valid then
        (perform s.sem writeEnd).map fun f => { s with sem := f, ctor := .released }
      else none
  | .resetLock =>
      if s.reset = .start ∧ s.ctor ≠ .setFlag then
        some { s with
          reset := if s.gotSemaphoreInAReasonableTime then .test else .waiting }
      else none
  | .wake =>
      -- the predicate form of `wait_for` goes back to waiting while the flag is unset
      if s.reset = .waiting ∧ s.ctor ≠ .setFlag then
        some { s with
          reset := if s.gotSemaphoreInAReasonableTime then .test else .waiting }
      else none
  | .timeout =>
      if s.reset = .waiting ∧ s.ctor ≠ .setFlag then some { s with reset := .test } else none
  | .test =>
      if s.reset = .test then
        some { s with
          reset := if s.gotSemaphoreInAReasonableTime then .ended else .setval }
      else none
  | .setval =>
      if s.reset = .setval then
        some { s with
          sem := Function.update s.sem 0 0
          reset := .ended
          owed := 0
          orphans := s.orphans + s.owed
          lateReset := s.lateReset || decide (s.ctor ≠ .writeStart) }
      else none
  | .readEnd =>
      if 0 < s.owed then
        (perform s.sem readEnd).map fun f => { s with sem := f, owed := s.owed - 1 }
      else none
  | .orphanEnd =>
      if 0 < s.orphans then
        (perform s.sem readEnd).map fun f => { s with sem := f, orphans := s.orphans - 1 }
      else none

/-- The reset thread has not acted on an acquired lock, and when the lock is valid `write_end` does
not have to wait. -/
def Safe (s : State) : Prop :=
  s.lateReset = false ∧ (s.ctor = .valid → 1 ≤ s.sem 0 ∧ (semop s.sem writeEnd).toBool = true)

/-! ### Runs in which the time-out and the acquisition do not cross -/

/-- The wait does not time out while the lock is acquired and the flag unset; `write_start` does
not succeed while the reset thread is between its time-out and its `SETVAL`; and a reader whose
count was discarded releases nothing before the lock is released. -/
def InTime (s : State) : Act → Prop
  | .timeout => s.ctor = .writeStart ∨ s.gotSemaphoreInAReasonableTime = true
  | .writeStart => s.reset ≠ .test ∧ s.reset ≠ .setval
  | .orphanEnd => s.ctor = .released
  | _ => True

instance (s : State) (a : Act) : Decidable (InTime s a) := by
  cases a <;> unfold InTime <;> infer_instance

/-- What holds in every state of a run that is in time. -/
structure Inv (s : State) : Prop where
  /-- Before the acquisition semaphore `0` counts the owed reads. -/
  before : s.ctor = .writeStart →
    s.sem 1 = 0 ∧ s.sem 0 = s.owed ∧ s.gotSemaphoreInAReasonableTime = false
  /-- Once acquired, the lock is counted by both semaphores and nothing older is. -/
  held : s.ctor ≠ .writeStart → s.ctor ≠ .released → 1 ≤ s.sem 0 ∧ s.sem 1 = 1
  owed : s.ctor ≠ .writeStart → s.owed = 0
  flag : s.ctor = .notify ∨ s.ctor = .join ∨ s.ctor = .valid ∨ s.ctor = .released →
    s.gotSemaphoreInAReasonableTime = true
  ended : s.ctor = .valid ∨ s.ctor = .released → s.reset = .ended
  test : s.reset = .test → s.ctor = .writeStart ∨ s.gotSemaphoreInAReasonableTime = true
  setval : s.reset = .setval → s.ctor = .writeStart
  late : s.lateReset = false

theorem inv_init (k : ℕ) : Inv (init k) := by
  constructor <;> simp [init]

/-- A move of the reset thread that is not its `SETVAL`. -/
theorem Inv.setReset {s : State} {r : Reset} (hi : Inv s) (hne : s.reset ≠ .ended)
    (htest : r = .test → s.ctor = .writeStart ∨ s.gotSemaphoreInAReasonableTime = true)
    (hsetval : r = .setval → s.ctor = .writeStart) : Inv { s with reset := r } where
  before := hi.before
  held := hi.held
  owed := hi.owed
  flag := hi.flag
  ended hc := absurd (hi.ended hc) hne
  test := htest
  setval := hsetval
  late := hi.late

/-- A move of the constructor behind the acquisition. -/
theorem Inv.setCtor {s : State} {c : Ctor} {flag : Bool} (hi : Inv s) (hw : s.ctor ≠ .writeStart)
    (hr : s.ctor ≠ .released) (hc : c ≠ .writeStart)
    (hkeep : s.gotSemaphoreInAReasonableTime = true → flag = true)
    (hflag : c = .notify ∨ c = .join ∨ c = .valid ∨ c = .released → flag = true)
    (hended : c = .valid ∨ c = .released → s.reset = .ended) :
    Inv { s with ctor := c, gotSemaphoreInAReasonableTime := flag } where
  before h := absurd h hc
  held _ _ := hi.held hw hr
  owed _ := hi.owed hw
  flag := hflag
  ended := hended
  test h := Or.inr (hkeep ((hi.test h).resolve_left hw))
  setval h := absurd (hi.setval h) hw
  late := hi.late

/-- The reset thread goes on waiting as long as the flag is not set. -/
theorem Inv.setReset_flag {s : State} (hi : Inv s) (hne : s.reset ≠ .ended) :
    Inv { s with reset := if s.gotSemaphoreInAReasonableTime then .test else .waiting } := by
  refine hi.setReset hne (fun h => ?_) fun h => ?_
  · split at h
    · next hflag => exact Or.inr hflag
    · cases h
  · split at h
    · cases h
    · cases h

/-- The lock is acquired: the semaphore was `0`, so nothing older is owed any more. -/
theorem Inv.acquire {s : State} (hi : Inv s) (hc : s.ctor = .writeStart) (h0 : s.sem 0 = 0)
    (htest : s.reset ≠ .test) (hsetval : s.reset ≠ .setval) :
    Inv { s with
      sem := Function.update (Function.update s.sem 1 (s.sem 1 + 1)) 0 1
      ctor := .lockFlag } := by
  obtain ⟨hb1, hb0, -⟩ := hi.before hc
  exact
    { before := by simp
      held := by simp [hb1]
      owed := fun _ => hb0.symm.trans h0
      flag := by simp
      ended := by simp
      test := fun h => absurd h htest
      setval := fun h => absurd h hsetval
      late := hi.late }

theorem Inv.commit {s : State} (hi : Inv s) (hc : s.ctor = .valid) (n : ℕ) :
    Inv { s with sem := Function.update s.sem 0 (s.sem 0 + n) } := by
  have hheld := hi.held (by simp [hc]) (by simp [hc])
  exact
    { before := by simp [hc]
      held := fun _ _ => ⟨Nat.le_trans hheld.1 (by simp), by simpa using hheld.2⟩
      owed := hi.owed
      flag := hi.flag
      ended := hi.ended
      test := hi.test
      setval := hi.setval
      late := hi.late }

theorem Inv.release {s : State} (hi : Inv s) (hc : s.ctor = .valid) (f : ℕ → ℕ) :
    Inv { s with sem := f, ctor := .released } := by
  have hended := hi.ended (Or.inl hc)
  exact
    { before := by simp
      held := by simp
      owed := fun _ => hi.owed (by simp [hc])
      flag := fun _ => hi.flag (by simp [hc])
      ended := fun _ => hended
      test := by simp [hended]
      setval := by simp [hended]
      late := hi.late }

/-- A `SETVAL` finds the lock not acquired yet. -/
theorem Inv.discard {s : State} (hi : Inv s) (hr : s.reset = .setval) (n : ℕ) :
    Inv { s with
      sem := Function.update s.sem 0 0
      reset := .ended
      owed := 0
      orphans := n
      lateReset := s.lateReset || decide (s.ctor ≠ .writeStart) } := by
  have hc := hi.setval hr
  obtain ⟨hb1, -, hflag⟩ := hi.before hc
  exact
    { before := fun _ => ⟨by simpa using hb1, by simp, hflag⟩
      held := fun hw => absurd hc hw
      owed := fun _ => rfl
      flag := hi.flag
      ended := fun _ => rfl
      test := by simp
      setval := by simp
      late := by simp [hi.late, hc] }

/-- An owed read means that the lock is not acquired yet. -/
theorem Inv.readEnd {s : State} (hi : Inv s) (howed : 0 < s.owed) :
    Inv { s with sem := Function.update s.sem 0 (s.sem 0 - 1), owed := s.owed - 1 } := by
  have hc : s.ctor = .writeStart := by
    by_contra hne
    have := hi.owed hne
    omega
  obtain ⟨hb1, hb0, hflag⟩ := hi.before hc
  exact
    { before := fun _ => ⟨by simpa using hb1, by simp [hb0], hflag⟩
      held := fun hw => absurd hc hw
      owed := fun hw => absurd hc hw
      flag := hi.flag
      ended := hi.ended
      test := hi.test
      setval := hi.setval
      late := hi.late }

/-- Once the lock is released, the semaphores do not matter any more. -/
theorem Inv.orphanEnd {s : State} (hi : Inv s) (hc : s.ctor = .released) (f : ℕ → ℕ) (n : ℕ) :
    Inv { s with sem := f, orphans := n } where
  before h := by
    rw [show s.ctor = .writeStart from h] at hc
    cases hc
  held _ h := absurd hc h
  owed := hi.owed
  flag := hi.flag
  ended := hi.ended
  test := hi.test
  setval := hi.setval
  late := hi.late

theorem inv_step {s t : State} {a : Act} (hi : Inv s) (ha : InTime s a) (h : step s a = some t) :
    Inv t := by
  cases a with
  | writeStart =>
      obtain ⟨hc, h⟩ := Option.ite_none_right_eq_some.1 h
      obtain ⟨f, hf, rfl⟩ := Option.map_eq_some_iff.1 h
      obtain ⟨h0, -, rfl⟩ := writeStart_eq_ok.1 (perform_eq_some.1 hf)
      exact hi.acquire hc h0 ha.1 ha.2
  | lockFlag =>
      obtain ⟨⟨hc, -⟩, h⟩ := Option.ite_none_right_eq_some.1 h
      obtain rfl := Option.some.inj h
      exact hi.setCtor (by simp [hc]) (by simp [hc]) (by simp) id (by simp) (by simp)
  | setFlag =>
      obtain ⟨hc, h⟩ := Option.ite_none_right_eq_some.1 h
      obtain rfl := Option.some.inj h
      exact hi.setCtor (by simp [hc]) (by simp [hc]) (by simp) (fun _ => rfl) (fun _ => rfl) (by simp)
  | notify =>
      obtain ⟨hc, h⟩ := Option.ite_none_right_eq_some.1 h
      obtain rfl := Option.some.inj h
      exact hi.setCtor (by simp [hc]) (by simp [hc]) (by simp) id (fun _ => hi.flag (Or.inl hc)) (by simp)
  | join =>
      obtain ⟨⟨hc, hended⟩, h⟩ := Option.ite_none_right_eq_some.1 h
      obtain rfl := Option.some.inj h
      exact hi.setCtor (by simp [hc]) (by simp [hc]) (by simp) id (fun _ => hi.flag (Or.inr (Or.inl hc)))
        fun _ => hended
  | commitReaders n =>
      obtain ⟨⟨hc, hn⟩, h⟩ := Option.ite_none_right_eq_some.1 h
      obtain ⟨f, hf, rfl⟩ := Option.map_eq_some_iff.1 h
      obtain ⟨-, rfl⟩ := (commitReaders_eq_ok hn).1 (perform_eq_some.1 hf)
      exact hi.commit hc n
  | writeEnd =>
      obtain ⟨hc, h⟩ := Option.ite_none_right_eq_some.1 h
      obtain ⟨f, -, rfl⟩ := Option.map_eq_some_iff.1 h
      exact hi.release hc f
  | resetLock | wake =>
      obtain ⟨⟨hr, -⟩, h⟩ := Option.ite_none_right_eq_some.1 h
      obtain rfl := Option.some.inj h
      exact hi.setReset_flag (by simp [hr])
  | timeout =>
      obtain ⟨⟨hr, -⟩, h⟩ := Option.ite_none_right_eq_some.1 h
      obtain rfl := Option.some.inj h
      exact hi.setReset (by simp [hr]) (fun _ => ha) (by simp)
  | test =>
      obtain ⟨hr, h⟩ := Option.ite_none_right_eq_some.1 h
      obtain rfl := Option.some.inj h
      refine hi.setReset (by simp [hr]) (fun h => ?_) fun h => ?_
      · split at h
        · cases h
        · cases h
      · split at h
        · cases h
        · next hflag => exact (hi.test hr).resolve_right hflag
  | setval =>
      obtain ⟨hr, h⟩ := Option.ite_none_right_eq_some.1 h
      obtain rfl := Option.some.inj h
      exact hi.discard hr _
  | readEnd =>
      obtain ⟨howed, h⟩ := Option.ite_none_right_eq_some.1 h
      obtain ⟨f, hf, rfl⟩ := Option.map_eq_some_iff.1 h
      obtain ⟨-, rfl⟩ := readEnd_eq_ok.1 (perform_eq_some.1 hf)
      exact hi.readEnd howed
  | orphanEnd =>
      obtain ⟨-, h⟩ := Option.ite_none_right_eq_some.1 h
      obtain ⟨f, -, rfl⟩ := Option.map_eq_some_iff.1 h
      exact hi.orphanEnd ha f _

theorem inv_of_inTime {k : ℕ} {as : List Act} {s : State}
    (h : exec (restrict step InTime) (init k) as = some s) : Inv s := by
  refine exec_invariant (fun s a t hs hst => ?_) h (inv_init k)
  obtain ⟨ha, hst⟩ := restrict_eq_some.1 hst
  exact inv_step hs ha hst

/-- **The reset thread and the acquisition, when they do not cross**: whatever the number of
committed reads and the schedule, no `SETVAL` comes after `write_start`, and the valid lock finds
semaphore `0` positive and releases without waiting. -/
theorem safe_of_inTime {k : ℕ} {as : List Act} {s : State}
    (h : exec (restrict step InTime) (init k) as = some s) : Safe s := by
  have hi := inv_of_inTime h
  refine ⟨hi.late, fun hv => ?_⟩
  obtain ⟨h0, h1⟩ := hi.held (by rw [hv]; decide) (by rw [hv]; decide)
  have hend : semop s.sem writeEnd = .ok _ := writeEnd_eq_ok.2 ⟨h0, h1.ge, rfl⟩
  exact ⟨h0, by rw [hend]; rfl⟩

/-- One committed reader that crashed: the wait times out first, semaphore `0` is reset, and the
lock is acquired, used and found releasable. -/
def crashSchedule : List Act :=
  [.resetLock, .timeout, .test, .setval, .writeStart, .lockFlag, .setFlag, .notify, .join,
    .commitReaders 2]

theorem crashSchedule_safe :
    ∃ s, exec (restrict step InTime) (init 1) crashSchedule = some s ∧ s.ctor = .valid ∧
      s.sem 0 = 3 ∧ Safe s := by
  have hrun : exec (restrict step InTime) (init 1) crashSchedule = some _ := rfl
  exact ⟨_, hrun, rfl, rfl, safe_of_inTime hrun⟩

/-! ### Runs in which they cross -/

/-- The reset thread, once past its time-out with the flag unset, goes on to a `SETVAL`; if the lock
is acquired by then, that is a late one. -/
theorem late_of_test {s : State} (hr : s.reset = .test ∨ s.reset = .setval)
    (hf : s.gotSemaphoreInAReasonableTime = false) (hc : s.ctor ≠ .writeStart) :
    ∃ as t, exec step s as = some t ∧ t.lateReset = true := by
  have hset {u : State} (hu : u.reset = .setval) (huc : u.ctor ≠ .writeStart) :
      ∃ t, step u .setval = some t ∧ t.lateReset = true :=
    ⟨_, if_pos hu, by simp [huc]⟩
  rcases hr with hr | hr
  · have htest : step s .test = some { s with reset := .setval } := by simp [step, hr, hf]
    obtain ⟨t, ht, hl⟩ := hset (u := { s with reset := .setval }) rfl hc
    exact ⟨[.test, .setval], t, by rw [exec_cons, htest, Option.bind_some, exec_cons, ht]; rfl, hl⟩
  · obtain ⟨t, ht, hl⟩ := hset hr hc
    exact ⟨[.setval], t, by rw [exec_cons, ht]; rfl, hl⟩

/-- **The first two conditions of `InTime` are needed**: after a time-out, or an acquisition, that
breaks them the reset thread can go on to a late `SETVAL`. -/
theorem late_of_crossing {s t : State} {a : Act} (ha : a = .timeout ∨ a = .writeStart)
    (hflag : s.ctor = .writeStart → s.gotSemaphoreInAReasonableTime = false)
    (hn : ¬ InTime s a) (h : step s a = some t) :
    ∃ as u, exec step t as = some u ∧ u.lateReset = true := by
  rcases ha with rfl | rfl
  · obtain ⟨-, h⟩ := Option.ite_none_right_eq_some.1 h
    obtain rfl := Option.some.inj h
    simp only [InTime, not_or, Bool.not_eq_true] at hn
    exact late_of_test (Or.inl rfl) hn.2 hn.1
  · obtain ⟨hc, h⟩ := Option.ite_none_right_eq_some.1 h
    obtain ⟨f, -, rfl⟩ := Option.map_eq_some_iff.1 h
    have hr : s.reset = .test ∨ s.reset = .setval := by
      simp only [InTime] at hn
      by_contra hne
      exact hn (not_or.1 hne)
    exact late_of_test hr (hflag hc) (fun h => Ctor.noConfusion h)

/-- No read is owed and `write_start` succeeds at once, but the wait times out before the flag is
set. -/
def lateSchedule : List Act :=
  [.resetLock, .writeStart, .timeout, .test, .setval, .lockFlag, .setFlag, .notify, .join]

/-- **The reset thread acts on an acquired lock**: at the end of the schedule the lock is valid,
semaphore `0` is `0`, and `write_end` has to wait. -/
theorem lateSchedule_not_safe :
    ∃ s, exec step (init 0) lateSchedule = some s ∧ s.lateReset = true ∧ s.ctor = .valid ∧
      s.sem 0 = 0 ∧ semop s.sem writeEnd = .error .wait ∧ ¬ Safe s := by
  refine ⟨_, rfl, rfl, rfl, rfl, rfl, ?_⟩
  rintro ⟨h, -⟩
  exact absurd h (by decide)

end WriteLock

end Shmdata

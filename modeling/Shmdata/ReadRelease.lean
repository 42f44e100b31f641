/-
**What a reader gives back for each update.**

The writer counts a reader before the reader has seen the update: the read is given back by the destructor of
the `ReadLock` that `on_buffer` constructs.  Both `semop` calls of the lock may fail, as when a signal
interrupts them.  A constructor that fails leaves a lock that is not valid, `on_buffer` returns, and the
destructor does nothing.

The state is the client thread of one `Reader` and the pair of semaphores, which the other processes change as
they like between two of its steps.

Main definitions:

* `Shmdata.ReaderThread`, `Shmdata.ReaderThread.step` — the client thread and its semaphores;
* `Shmdata.ReaderThread.ReleasesOnce` — each update that was dealt with has given back one read;
* `Shmdata.ReaderThread.Completes` — the step is not a `semop` that fails.

Main results:

* `Shmdata.ReaderThread.releasesOnce_iff` — **one read for each update**: exactly in the runs in which no
  `semop` of the thread fails.
-/

import Shmdata.Runs
import Shmdata.Server
import Shmdata.SysVSem

set_option relaxedAutoImplicit false
set_option autoImplicit false

namespace Shmdata

open SysV Semops Runs

namespace ReaderThread

/-- Where the client thread is. -/
inductive Pc
  /-- In the loop of `server_interaction`. -/
  | idle
  /-- In `on_update_cb_`. -/
  | update (size : ℕ)
  /-- In the constructor of `ReadLock`. -/
  | readStart (size : ℕ)
  /-- The `ReadLock` is valid. -/
  | onData (size : ℕ)
  /-- In the destructor of the valid `ReadLock`. -/
  | readEnd
  /-- The loop is left. -/
  | closed
  deriving DecidableEq

/-- The thread deals with an update. -/
@[simp] def Pc.busy : Pc → Bool
  | .idle | .closed => false
  | .update _ | .readStart _ | .onData _ | .readEnd => true

/-- A step of the client thread, or of the other processes. -/
inductive Act
  /-- The next message is read. -/
  | receive (msg : SrvMsg ℕ)
  /-- The read finds the end of file or fails. -/
  | eof
  /-- The lambda of the constructor, with the segment that is found under the key. -/
  | update (key : Option ℕ)
  /-- `semop(read_start)` returns, and whether it has succeeded. -/
  | readStart (ok : Bool)
  | onData
  /-- `semop(read_end)` returns, and whether it has succeeded. -/
  | readEnd (ok : Bool)
  /-- The other processes change the semaphores. -/
  | others (f : ℕ → ℕ)

end ReaderThread

/-- The fields of a `Reader` that its client thread uses: whether it is connected, whether there is an
`on_data_cb_`, the size of the last update and the segment attached.  `calls` records the calls of
`on_data_cb_`; `given` records, for each update that was read, the last one first, how often semaphore `0`
was decremented for it. -/
structure ReaderThread where
  pc : ReaderThread.Pc
  connected : Bool
  hasOnData : Bool
  curSize : ℕ
  shm : Option ℕ
  sem : ℕ → ℕ
  calls : List (Option ℕ × ℕ)
  given : List ℕ

namespace ReaderThread

/-- A `Reader` when `UnixSocketClient::start` has started the thread. -/
def init (hasOnData : Bool) (shm : Option ℕ) (sem : ℕ → ℕ) : ReaderThread where
  pc := .idle
  connected := false
  hasOnData := hasOnData
  curSize := 0
  shm := shm
  sem := sem
  calls := []
  given := []

/-- A message is processed by `server_interaction`. -/
def receive (s : ReaderThread) (msg : SrvMsg ℕ) : ReaderThread :=
  if s.connected then
    match msg with
    | .connect => s
    | .update size => { s with pc := .update size, given := 0 :: s.given }
    | .quit => { s with pc := .closed }
  else { s with connected := true }

/-- One more decrement for the update at hand. -/
def give : List ℕ → List ℕ
  | [] => []
  | n :: ns => (n + 1) :: ns

/-- One step. -/
def step (s : ReaderThread) : Act → Option ReaderThread
  | .receive msg => if s.pc = .idle then some (s.receive msg) else none
  | .eof => if s.pc = .idle then some { s with pc := .closed } else none
  | .update key =>
      match s.pc with
      | .update size =>
          some { s with
            shm := if size ≠ s.curSize then key else s.shm
            curSize := size
            pc := .readStart size }
      | _ => none
  | .readStart ok =>
      match s.pc with
      | .readStart size =>
          if ok then (perform s.sem readStart).map fun f => { s with sem := f, pc := .onData size }
          else some { s with pc := .idle }
      | _ => none
  | .onData =>
      match s.pc with
      | .onData size =>
          some { s with calls := if s.hasOnData then s.calls ++ [(s.shm, size)] else s.calls, pc := .readEnd }
      | _ => none
  | .readEnd ok =>
      match s.pc with
      | .readEnd =>
          if ok then
            (perform s.sem readEnd).map fun f => { s with sem := f, given := give s.given, pc := .idle }
          else some { s with pc := .idle }
      | _ => none
  | .others f => some { s with sem := f }

/-! ### The steps, one by one -/

variable {s t : ReaderThread} {a : Act} {as : List Act}

/-- The steps again, one constructor for each of them; a `semop` that fails has one of its own. -/
inductive Trans (s : ReaderThread) : Act → ReaderThread → Prop
  | receive {msg : SrvMsg ℕ} : s.pc = .idle → Trans s (.receive msg) (s.receive msg)
  | eof : s.pc = .idle → Trans s .eof { s with pc := .closed }
  | update {key : Option ℕ} {size : ℕ} : s.pc = .update size →
      Trans s (.update key) { s with
        shm := if size ≠ s.curSize then key else s.shm
        curSize := size
        pc := .readStart size }
  | readStart {size : ℕ} : s.pc = .readStart size → s.sem 1 = 0 →
      Trans s (.readStart true) { s with pc := .onData size }
  | readStartFails {size : ℕ} : s.pc = .readStart size → Trans s (.readStart false) { s with pc := .idle }
  | onData {size : ℕ} : s.pc = .onData size →
      Trans s .onData { s with
        calls := if s.hasOnData then s.calls ++ [(s.shm, size)] else s.calls
        pc := .readEnd }
  | readEnd : s.pc = .readEnd → 1 ≤ s.sem 0 →
      Trans s (.readEnd true) { s with
        sem := Function.update s.sem 0 (s.sem 0 - 1)
        given := give s.given
        pc := .idle }
  | readEndFails : s.pc = .readEnd → Trans s (.readEnd false) { s with pc := .idle }
  | others {f : ℕ → ℕ} : Trans s (.others f) { s with sem := f }

theorem trans_of_step (h : s.step a = some t) : Trans s a t := by
  cases a with
  | receive msg =>
      obtain ⟨hpc, h⟩ := Option.ite_none_right_eq_some.1 h
      obtain rfl := Option.some.inj h
      exact .receive hpc
  | eof =>
      obtain ⟨hpc, h⟩ := Option.ite_none_right_eq_some.1 h
      obtain rfl := Option.some.inj h
      exact .eof hpc
  | update key =>
      simp only [step] at h
      split at h
      · next hpc =>
          obtain rfl := Option.some.inj h
          exact .update hpc
      · cases h
  | readStart ok =>
      simp only [step] at h
      split at h
      · next hpc =>
          cases ok with
          | false =>
              obtain rfl := Option.some.inj h
              exact .readStartFails hpc
          | true =>
              obtain ⟨f, hf, rfl⟩ := Option.map_eq_some_iff.1 h
              obtain ⟨hfree, rfl⟩ := readStart_eq_ok.1 (perform_eq_some.1 hf)
              exact .readStart hpc hfree
      · cases h
  | onData =>
      simp only [step] at h
      split at h
      · next hpc =>
          obtain rfl := Option.some.inj h
          exact .onData hpc
      · cases h
  | readEnd ok =>
      simp only [step] at h
      split at h
      · next hpc =>
          cases ok with
          | false =>
              obtain rfl := Option.some.inj h
              exact .readEndFails hpc
          | true =>
              obtain ⟨f, hf, rfl⟩ := Option.map_eq_some_iff.1 h
              obtain ⟨hpos, rfl⟩ := readEnd_eq_ok.1 (perform_eq_some.1 hf)
              exact .readEnd hpc hpos
      · cases h
  | others f =>
      obtain rfl := Option.some.inj h
      exact .others

/-! ### The reads given back -/

/-- The reads given back for the updates that were dealt with. -/
def settled (s : ReaderThread) : List ℕ := if s.pc.busy then s.given.tail else s.given

/-- Each update that was dealt with has given back one read. -/
def ReleasesOnce (s : ReaderThread) : Prop := ∀ n ∈ s.settled, n = 1

/-- No read was given back for the update at hand yet. -/
def Pending (s : ReaderThread) : Prop := s.pc.busy = true → ∃ ns, s.given = 0 :: ns

/-- The step is not a `semop` that fails. -/
def Completes (_ : ReaderThread) : Act → Prop
  | .readStart ok | .readEnd ok => ok = true
  | _ => True

instance (s : ReaderThread) (a : Act) : Decidable (Completes s a) := by
  cases a <;> unfold Completes <;> infer_instance

/-- The thread gives back a read as the last thing it does for an update. -/
theorem Pending.step (hs : s.Pending) (h : s.step a = some t) : t.Pending := by
  cases trans_of_step h with
  | @receive msg hpc =>
      unfold receive Pending
      cases s.connected <;> cases msg <;> simp [hpc]
  | eof | readStartFails | readEnd | readEndFails => exact fun hb => by simp at hb
  | update hpc | readStart hpc | onData hpc => exact fun _ => hs (by simp [hpc])
  | others => exact hs

/-- **A step keeps one read for each update exactly if it is not a `semop` that fails.** -/
theorem completes_iff (hp : s.Pending) (hs : s.ReleasesOnce) (h : s.step a = some t) :
    Completes s a ↔ t.ReleasesOnce := by
  unfold ReleasesOnce settled at hs ⊢
  cases trans_of_step h with
  | @receive msg hpc =>
      simp only [hpc, Pc.busy, Bool.false_eq_true, if_false] at hs
      refine iff_of_true trivial ?_
      unfold receive
      cases s.connected <;> cases msg <;> simpa [hpc] using hs
  | eof hpc =>
      simp only [hpc, Pc.busy, Bool.false_eq_true, if_false] at hs
      exact iff_of_true trivial hs
  | update hpc | onData hpc => exact iff_of_true trivial (by simpa [hpc] using hs)
  | readStart hpc => exact iff_of_true rfl (by simpa [hpc] using hs)
  | readStartFails hpc | readEndFails hpc =>
      -- the update is dealt with, and nothing was given back for it
      obtain ⟨ns, hns⟩ := hp (by simp [hpc])
      exact iff_of_false Bool.false_ne_true (by simp [hns])
  | readEnd hpc =>
      obtain ⟨ns, hns⟩ := hp (by simp [hpc])
      exact iff_of_true rfl (by simpa [hpc, hns, give] using hs)
  | others => exact iff_of_true trivial hs

theorem pending_of_exec {hasOnData : Bool} {shm : Option ℕ} {sem : ℕ → ℕ}
    (h : exec step (init hasOnData shm sem) as = some t) : t.Pending :=
  exec_invariant (fun _ _ _ hs hst => hs.step hst) h (fun hb => by simp [init] at hb)

/-- **One read for each update**: the runs in which no `semop` of the `ReadLock`s fails are those in which
each update that was read has given back exactly one read by the time the next one is read, whether or not
there is an `on_data_cb_`. -/
theorem releasesOnce_iff (hasOnData : Bool) (shm : Option ℕ) (sem : ℕ → ℕ) (as : List Act)
    (t : ReaderThread) :
    exec (restrict step Completes) (init hasOnData shm sem) as = some t ↔
      exec step (init hasOnData shm sem) as = some t ∧
        ∀ bs cs u, as = bs ++ cs → exec step (init hasOnData shm sem) bs = some u →
          u.ReleasesOnce := by
  have hiff : exec (restrict step Completes) (init hasOnData shm sem) as = some t ↔
      exec step (init hasOnData shm sem) as = some t ∧
        ∀ bs cs u, as = bs ++ cs → exec step (init hasOnData shm sem) bs = some u →
          u.Pending ∧ u.ReleasesOnce := by
    refine exec_restrict_iff (fun s a t hs hst => ?_) ⟨fun hb => by simp [init] at hb, ?_⟩
    · exact (completes_iff hs.1 hs.2 hst).trans ⟨fun ht => ⟨hs.1.step hst, ht⟩, fun ht => ht.2⟩
    · exact fun n hn => by simp [init, settled] at hn
  rw [hiff]
  refine and_congr_right fun _ => ?_
  constructor
  · intro h bs cs u has hu
    exact (h bs cs u has hu).2
  · intro h bs cs u has hu
    exact ⟨pending_of_exec hu, h bs cs u has hu⟩

/-! ### An interrupted acquisition -/

/-- The semaphores with the given two values. -/
def pair (v w : ℕ) : ℕ → ℕ := fun i => if i = 0 then v else if i = 1 then w else 0

/-- The writer has its lock and has committed the reader, whose `read_start` is interrupted by a signal while
it waits; then the writer releases the lock and sends nothing more until semaphore `0` is zero. -/
def interrupted : List Act :=
  [.receive .connect, .others (pair 2 1), .receive (.update 4), .update (some 0), .readStart false,
    .others (pair 1 0)]

/-- **The read is still counted, and the reader waits for the next update.** -/
theorem interrupted_not_releasesOnce :
    ∃ t, exec step (init true (some 0) (pair 0 0)) interrupted = some t ∧
      t.pc = .idle ∧ t.given = [0] ∧ t.calls = [] ∧ t.sem 0 = 1 ∧ t.sem 1 = 0 ∧ ¬ t.ReleasesOnce :=
  ⟨_, rfl, rfl, rfl, rfl, rfl, rfl, fun h => absurd (h 0 (List.mem_singleton.2 rfl)) (by decide)⟩

end ReaderThread

end Shmdata

/-
**After a reset the semaphores stay out of step.**

The reset thread of a `WriteLock` sets semaphore `0` to `0` when the committed readers take too long.
The readers keep the right to lower it: a slow reader that was still inside its callback releases its
`ReadLock` afterwards, and its `read_end` takes a count that belongs to the writer or to a later
frame.  The ledger shows that this is never made good.  What semaphore `0` lacks is not changed by any
other step, so in every later state it is less than the number of held locks and committed reads that
are not released, whatever the readers and the writer do.

Main definitions:

* `Shmdata.System.InStep` — the readers and the writer exclude each other, and semaphore `0` counts
  the lock and the committed reads that are not released.

Main results:

* `Shmdata.System.not_inStep_after_reset` — **no state after such a reset is in step**;
* `Shmdata.System.lateRelease_not_inStep` — a run with one reader: its late `read_end` takes the count
  of the writer, and at the next frame it is inside its callback while the lock is held;
* `Shmdata.System.semaphores_balance` — **the balance of every run**, with what its resets discard.
-/

import Shmdata.Ledger

set_option relaxedAutoImplicit false
set_option autoImplicit false

namespace Shmdata

namespace System

open Finset Runs

variable {s t u : System}

/-- No reader is inside its callback while the write lock is held, and semaphore `0` counts the held
lock and the committed reads whose `ReadLock` is not released. -/
def InStep (s : System) : Prop :=
  (∀ r size, (s.rd r).pc = .onData size → s.w.pc.held = false) ∧
    s.sem 0 = (if s.w.pc.held then 1 else 0) + ∑ r ∈ range s.nrd, (s.committed r - s.released r)

/-- All readers live. -/
def Live (_ : System) (a : Act) : Prop := a.isDie = false

instance (s : System) (a : Act) : Decidable (Live s a) := inferInstanceAs (Decidable (_ = _))

/-- What every state of a run has: the ledger, no dead reader, and no semaphore that counts too
much. -/
structure Lagging (s : System) : Prop where
  base : Base s
  live : ∀ r, (s.rd r).dead = false
  debt : 0 ≤ s.debt

theorem lagging_init (lfd memsize : ℕ) : Lagging (init lfd memsize) where
  base := base_init lfd memsize
  live := by simp [init, Reader.init]
  debt := by simp [System.debt, init]

/-- Nobody dies but by a step that says so. -/
theorem dead_of_step {a : Act} (h : s.step a = some t) (ha : a.isDie = false) {r : ℕ}
    (hd : (t.rd r).dead = true) : (s.rd r).dead = true := by
  have hset {q : ℕ} {rd : Reader} (h : (Function.update s.rd q rd r).dead = true)
      (hrd : rd.dead = (s.rd q).dead) : (s.rd r).dead = true :=
    (rel_update (P := fun a b => b.dead = a.dead) (fun _ => rfl) hrd r).symm.trans h
  cases trans_of_step h with
  | @locked op hpc =>
      obtain ⟨w, key, heq, -⟩ := s.locked_eq op
      rw [heq] at hd
      exact hd
  | take | attach | receiveConnect | receiveUpdate | receiveQuit | receiveEof | update | readStart
  | readEnd | quit => exact hset hd rfl
  | die => cases ha
  | _ => exact hd

theorem Lagging.step {a : Act} (hl : Lagging s) (ha : Live s a) (h : s.step a = some t) :
    Lagging t where
  base := hl.base.step h
  live r := by
    by_contra hd
    rw [Bool.not_eq_false] at hd
    have := dead_of_step h ha hd
    rw [hl.live r] at this
    cases this
  debt := by
    rw [debt_step hl.base h]
    have := hl.debt
    omega

theorem lagging_of_exec {as : List Act} (h : exec (restrict step Live) s as = some t)
    (hl : Lagging s) : Lagging t :=
  exec_invariant (fun _ _ _ hs hst => hs.step (restrict_eq_some.1 hst).1 (restrict_eq_some.1 hst).2)
    h hl

/-- What semaphore `0` lacks never gets less. -/
theorem debt_le_of_exec {as : List Act} (h : exec (restrict step Live) s as = some t)
    (hl : Lagging s) : s.debt ≤ t.debt := by
  refine exec_rel (P := Lagging) (R := fun s t => s.debt ≤ t.debt) (fun _ => le_rfl)
    (fun _ _ _ => le_trans) ?_ ?_ h hl
  · exact fun s a t hs hst => hs.step (restrict_eq_some.1 hst).1 (restrict_eq_some.1 hst).2
  · intro s a t hs hst
    rw [debt_step hs.base (restrict_eq_some.1 hst).2]
    omega

theorem Lagging.cancelled_eq_zero (hl : Lagging s) (r : ℕ) : s.cancelled r = 0 := by
  by_contra hne
  have := hl.base.cancelled r (Nat.pos_of_ne_zero hne)
  rw [hl.live r] at this
  cases this

/-- In step, semaphore `0` lacks nothing. -/
theorem Lagging.debt_eq_zero (hl : Lagging s) (h : InStep s) : s.debt = 0 := by
  have hsum : ∑ r ∈ range s.nrd, (s.committed r - s.released r) + ∑ r ∈ range s.nrd, s.released r =
      ∑ r ∈ range s.nrd, s.committed r := by
    rw [← sum_add_distrib]
    refine sum_congr rfl fun r _ => ?_
    have := (hl.base.released_le r).1
    omega
  have h0 := h.2
  rw [← hl.base.held] at h0
  simp only [System.debt, hl.cancelled_eq_zero, sum_const_zero]
  omega

/-- **The semaphores are not in step in any state after a reset with a reader inside its callback.**
-/
theorem not_inStep_after_reset {lfd memsize : ℕ} {as bs : List Act}
    (h : exec (restrict step Live) (init lfd memsize) as = some s)
    (hslow : ∃ r size, (s.rd r).pc = .onData size) (hr : s.step .reset = some t)
    (h' : exec (restrict step Live) t bs = some u) : ¬ InStep u := by
  have hl := lagging_of_exec h (lagging_init lfd memsize)
  have hlt := hl.step (a := .reset) rfl hr
  have hpos : 0 < t.debt := by
    -- either semaphore `0` counts the slow reader, and the reset discards it, or it lacked it before
    obtain ⟨r, size, hpc⟩ := hslow
    have hrange : r ∈ range s.nrd := by
      refine mem_range.2 (lt_of_not_ge fun hge => ?_)
      rw [(hl.base.fresh r hge).1] at hpc
      cases hpc
    have hlt : ∑ r ∈ range s.nrd, s.released r < ∑ r ∈ range s.nrd, s.committed r := by
      refine sum_lt_sum (fun q _ => ?_) ⟨r, hrange, hl.base.released_lt_of_onData hpc⟩
      have := (hl.base.released_le q).1
      omega
    rw [debt_step hl.base hr]
    simp only [System.debt, hl.cancelled_eq_zero, sum_const_zero, Act.discards]
    omega
  intro hin
  have hle := debt_le_of_exec h' hlt
  have hzero := (lagging_of_exec h' hlt).debt_eq_zero hin
  omega

/-- A reader connects, attaches, and becomes a client. -/
def connectReader : List Act :=
  [.connect, .reader 0, .server .tau, .server (.select [] true), .server .tau,
    .server (.accept (some 4)), .server (.send true), .reader 0, .server .tau,
    .server (.select [4] false), .server .tau, .server .tau, .server .tau, .server (.read .data),
    .server .tau, .server .tau]

/-- A frame of one byte is written and the reader enters its callback. -/
def slowFrame : List Act :=
  [.call (.copyToShm [1]), .writer, .writer, .writer, .writer, .writer, .writer, .writer, .writer,
    .reader 0, .reader 0, .reader 0]

theorem slowFrame_reset_not_inStep :
    ∃ s t, exec (restrict step Live) (init 3 1) (connectReader ++ slowFrame ++
        [.call (.copyToShm [2])]) = some s ∧ s.step .reset = some t ∧ ¬ InStep t := by
  have hrun : ((exec (restrict step Live) (init 3 1) (connectReader ++ slowFrame ++
      [.call (.copyToShm [2])])).any fun s => (s.rd 0).pc = .onData 1 ∧
        (s.step .reset).isSome) = true := by
    decide +kernel
  obtain ⟨s, hs, hrun⟩ := (Option.any_eq_true _ _).1 hrun
  obtain ⟨hslow, hreset⟩ := of_decide_eq_true hrun
  obtain ⟨t, ht⟩ := Option.isSome_iff_exists.1 hreset
  have hend : exec (restrict step Live) t [] = some t := rfl
  exact ⟨s, t, hs, ht, not_inStep_after_reset hs ⟨0, 1, hslow⟩ ht hend⟩

/-- The next frame is written after a reset: the slow reader releases its `ReadLock` while the lock
is held, is notified, enters its callback again in time, and a third frame is begun. -/
def lateRelease : List Act :=
  [.writer, .reader 0, .writer, .writer, .writer, .writer, .writer, .writer, .writer, .reader 0,
    .reader 0, .reader 0, .call (.copyToShm [3]), .writer]

theorem lateRelease_not_inStep :
    ∃ s t u, exec (restrict step Live) (init 3 1) (connectReader ++ slowFrame ++
        [.call (.copyToShm [2])]) = some s ∧ (s.rd 0).pc = .onData 1 ∧ s.step .reset = some t ∧
      exec (restrict step Live) t lateRelease = some u ∧ u.released 0 = 1 ∧
      (u.rd 0).pc = .onData 1 ∧ u.w.pc.held = true ∧ u.sem 0 = 1 ∧ u.committed 0 = 2 ∧
      ¬ InStep u := by
  have hrun : ((exec (restrict step Live) (init 3 1) (connectReader ++ slowFrame ++
      [.call (.copyToShm [2])])).any fun s => (s.rd 0).pc = .onData 1 ∧
        (s.step .reset).any fun t => (exec (restrict step Live) t lateRelease).any fun u =>
          u.released 0 = 1 ∧ (u.rd 0).pc = .onData 1 ∧ u.w.pc.held = true ∧ u.sem 0 = 1 ∧
            u.committed 0 = 2) = true := by
    decide +kernel
  obtain ⟨s, hs, hrun⟩ := (Option.any_eq_true _ _).1 hrun
  obtain ⟨hslow, hrun⟩ := of_decide_eq_true hrun
  obtain ⟨t, ht, hrun⟩ := (Option.any_eq_true _ _).1 hrun
  obtain ⟨u, hu, hrun⟩ := (Option.any_eq_true _ _).1 hrun
  obtain ⟨h1, h2, h3, h4, h5⟩ := of_decide_eq_true hrun
  refine ⟨s, t, u, hs, hslow, ht, hu, h1, h2, h3, h4, h5, fun hin => ?_⟩
  rw [hin.1 0 1 h2] at h3
  cases h3

/-! ### The balance of a whole run -/

/-- **The balance of the semaphores**, in every run, however many resets fire, readers die and reads are
cancelled: what was committed for the readers and is not in semaphore `0`, but for the lock itself, was
released by a reader, given back by the server, or discarded by a reset. -/
theorem semaphores_balance {lfd memsize : ℕ} {as : List Act}
    (h : exec step (init lfd memsize) as = some s) :
    s.sem 0 + ∑ r ∈ range s.nrd, (s.released r + s.cancelled r) +
        (trace step (fun s a => [a.discards s]) (init lfd memsize) as).sum =
      (if s.w.pc.held then 1 else 0) + ∑ r ∈ range s.nrd, s.committed r := by
  have hall : Base s ∧ s.debt =
      ((trace step (fun s a => [a.discards s]) (init lfd memsize) as).sum : ℕ) := by
    have htrace := exec_trace (fun s a => [Act.discards s a])
      (R := fun l s => Base s ∧ s.debt = (l.sum : ℕ)) (fun l s a t hs hst => by
        refine ⟨hs.1.step hst, ?_⟩
        rw [debt_step hs.1 hst, hs.2, List.sum_append, List.sum_singleton, Nat.cast_add]) h (l := [])
      ⟨base_init lfd memsize, by simp [debt, init]⟩
    rwa [List.nil_append] at htrace
  obtain ⟨hb, hdebt⟩ := hall
  rw [debt, hb.held] at hdebt
  rw [sum_add_distrib]
  omega

/-- A reset discards the read of the slow reader, which takes it from the next lock. -/
theorem lateRelease_balance :
    ∃ s, exec step (init 3 1) (connectReader ++ slowFrame ++ [.call (.copyToShm [2]), .reset] ++
        lateRelease) = some s ∧
      s.sem 0 + ∑ r ∈ range s.nrd, (s.released r + s.cancelled r) + 1 =
        (if s.w.pc.held then 1 else 0) + ∑ r ∈ range s.nrd, s.committed r := by
  have hrun : (exec step (init 3 1) (connectReader ++ slowFrame ++ [.call (.copyToShm [2]), .reset] ++
      lateRelease)).isSome = true := by
    decide +kernel
  have hsum : (trace step (fun s a => [Act.discards s a]) (init 3 1) (connectReader ++ slowFrame ++
      [.call (.copyToShm [2]), .reset] ++ lateRelease)).sum = 1 := by
    decide +kernel
  obtain ⟨s, hs⟩ := Option.isSome_iff_exists.1 hrun
  have hbalance := semaphores_balance hs
  rw [hsum] at hbalance
  exact ⟨s, hs, hbalance⟩

end System

end Shmdata

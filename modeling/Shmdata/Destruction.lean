/-
**A follower that is destroyed while its writer goes away.**

The destructor of a follower sets `is_destructing_`, stores `true` in `quit_`, and waits for the monitor in
`monitor_`.  The disconnect callback tests `is_destructing_` and stores `false` in `quit_`.  If the two stores of
the destructor fall between the test and the store of the callback, then `quit_` is `false` for good, the monitor
that the callback starts never leaves its loop unless a writer appears, and the destructor waits for it.

In the runs where no callback is at that place when the destructor stores `true`, the flag stays `true`, and
from then on all threads together make only a bounded number of steps, however long the writers go on: a monitor
that tests the flag ends, and the iteration that it may be in is finite.

Main definitions:

* `Shmdata.Follower.DtorPc.stored` — the destructor has stored `true`;
* `Shmdata.Follower.Heeded` — it did so when no callback was about to store `false`;
* `Shmdata.Follower.Flags` — the invariant;
* `Shmdata.Follower.rank` — the steps that the threads still make at most;
* `Shmdata.Follower.Stuck` — the destructor waits for a monitor that has nothing to find.

Main results:

* `Shmdata.Follower.rank_of_step` — every step of a thread lowers the rank;
* `Shmdata.Follower.flags_of_exec`, `Shmdata.Follower.countP_own_le` — the flag stays `true`, and the bound;
* `Shmdata.Follower.Stuck.step` — without a writer the destructor waits for ever.
-/

import Mathlib.Algebra.BigOperators.Group.Finset.Basic
import Shmdata.Alternation

set_option relaxedAutoImplicit false
set_option autoImplicit false

namespace Shmdata

namespace Follower

open Runs

variable {s t : Follower} {a : Act} {as bs : List Act} {m r n : ℕ}

/-! ### The flags of a follower that is being destroyed -/

/-- The destructor has stored `true` in `quit_`. -/
def DtorPc.stored : DtorPc → Bool
  | .idle | .store => false
  | _ => true

/-- The destructor stores `true` when no disconnect callback is between its test and its store. -/
def Heeded (s : Follower) (a : Act) : Prop := a = .dtorStore → ∀ r < s.nextRd, (s.cli r).pc ≠ .store

/-- The destructor's store. -/
def Act.isDtorStore : Act → Bool
  | .dtorStore => true
  | _ => false

theorem heeded_iff (s : Follower) (a : Act) :
    (a.isDtorStore = true → ∀ r < s.nextRd, (s.cli r).pc ≠ .store) ↔ Heeded s a := by
  have ha : a.isDtorStore = true ↔ a = .dtorStore := by cases a <;> simp [Act.isDtorStore]
  rw [Heeded, ha]

instance (s : Follower) (a : Act) : Decidable (Heeded s a) := decidable_of_iff _ (heeded_iff s a)

/-- Once the destructor has begun no callback passes its test, and once it has stored `true` no callback stores
`false`. -/
structure Flags (s : Follower) : Prop where
  fresh : Fresh s
  begun : s.dtor ≠ .idle → s.isDestructing = true ∧ s.ctor = .done
  stored : s.dtor.stored = true → s.quit = true ∧ ∀ r, (s.cli r).pc ≠ .store

theorem flags_init (writer : Option ℕ) (file : Bool) : Flags (init writer file) where
  fresh := fresh_init writer file
  begun h := absurd rfl h
  stored h := by cases h

theorem store_of_step (hst : s.step a = some t) (h : (t.cli r).pc = .store) :
    (s.cli r).pc = .store ∨ s.isDestructing = false := by
  by_cases hdes : s.isDestructing = true
  · left
    have hmove := clientMove_of_step hst r
    rw [h] at hmove
    generalize hpc : (s.cli r).pc = pc at *
    cases hmove with
    | stay => rfl
    | new _ hpc => rcases hpc with h | h <;> cases h
    | cbTest =>
        cases trans_of_step hst with
        | cbTest =>
            rw [setCli_pc, if_pos rfl, if_pos hdes] at h
            cases h
  · exact Or.inr (by simpa using hdes)

/-- The flags of the destructor. -/
theorem dtor_step (hst : s.step a = some t) :
    (t.dtor = s.dtor ∧ t.isDestructing = s.isDestructing) ∨ a = .dtorBegin ∨
      (s.dtor ≠ .idle ∧ t.isDestructing = s.isDestructing) := by
  cases trans_of_step hst with
  | dtorBegin => exact Or.inr (Or.inl rfl)
  | dtorStore hd | dtorLockMonitor hd | dtorGet hd | dtorLockReader hd | dtorDropped hd | dtorMembers hd =>
      exact Or.inr (Or.inr ⟨by rw [hd]; simp, rfl⟩)
  | _ => exact Or.inl ⟨rfl, rfl⟩

theorem begun_step (h : s.dtor ≠ .idle → s.isDestructing = true ∧ s.ctor = .done) (hst : s.step a = some t)
    (hd : t.dtor ≠ .idle) : t.isDestructing = true ∧ t.ctor = .done := by
  have hctor (hc : s.ctor = .done) : t.ctor = .done := by
    by_contra hne
    exact Sessions.ctor_of_step hst hne hc
  rcases dtor_step hst with ⟨hdtor, hdes⟩ | rfl | ⟨hdtor, hdes⟩
  · obtain ⟨hs, hc⟩ := h (hdtor ▸ hd)
    exact ⟨hdes.trans hs, hctor hc⟩
  · cases trans_of_step hst with
    | dtorBegin hc => exact ⟨rfl, hc⟩
  · obtain ⟨hs, hc⟩ := h hdtor
    exact ⟨hdes.trans hs, hctor hc⟩

/-- The flag `quit_` becomes `false` by the store of a callback only. -/
theorem quit_of_step (hst : s.step a = some t) (h : s.quit = true) (hr : ∀ r, (s.cli r).pc ≠ .store) :
    t.quit = true := by
  cases trans_of_step hst with
  | @cbStore r hstore => exact absurd hstore (hr r)
  | store | last | dtorStore => rfl
  | _ => exact h

theorem Flags.step (h : Flags s) (hok : Heeded s a) (hst : s.step a = some t) : Flags t where
  fresh := fresh_of_step h.fresh hst
  begun := begun_step h.begun hst
  stored hd := by
    have hbegun : s.dtor ≠ .idle := by
      intro hidle
      cases trans_of_step hst with
      | dtorBegin => cases hd
      | dtorStore hc | dtorLockMonitor hc | dtorGet hc | dtorLockReader hc | dtorDropped hc
      | dtorMembers hc =>
          rw [hidle] at hc
          cases hc
      | _ =>
          have hd : s.dtor.stored = true := hd
          rw [hidle] at hd
          cases hd
    have hdes := (h.begun hbegun).1
    have hkeep (hr : ∀ r, (s.cli r).pc ≠ .store) (r : ℕ) : (t.cli r).pc ≠ .store := fun hpc => by
      rcases store_of_step hst hpc with hold | hnot
      · exact hr r hold
      · rw [hdes] at hnot
        cases hnot
    by_cases hstore : s.dtor.stored = true
    · obtain ⟨hquit, hr⟩ := h.stored hstore
      exact ⟨quit_of_step hst hquit hr, hkeep hr⟩
    · -- the destructor stores `true` in this step
      cases trans_of_step hst with
      | dtorStore =>
          refine ⟨rfl, hkeep fun r hpc => ?_⟩
          by_cases hr : r < s.nextRd
          · exact hok rfl r hr hpc
          · rw [h.fresh.cli r (by omega)] at hpc
            cases hpc
      | dtorBegin => cases hd
      | dtorLockMonitor hc | dtorGet hc | dtorLockReader hc | dtorDropped hc | dtorMembers hc =>
          rw [hc] at hstore
          exact absurd rfl hstore
      | _ => exact absurd hd hstore

/-- **The destructor's store stays.** -/
theorem flags_of_exec {writer : Option ℕ} {file : Bool}
    (h : exec (restrict step Heeded) (init writer file) as = some s) : Flags s := by
  refine exec_invariant (fun s a t hs hst => ?_) h (flags_init writer file)
  obtain ⟨hok, hst⟩ := restrict_eq_some.1 hst
  exact hs.step hok hst

/-- Otherwise the callback that is between its test and its store takes it back. -/
theorem lost_of_not_heeded (hd : s.dtor = .store) (hr : (s.cli r).pc = .store) :
    ∃ t, exec step s [.dtorStore, .cbStore r] = some t ∧ t.dtor.stored = true ∧ t.quit = false := by
  have hstore : s.step .dtorStore = some { s with quit := true, dtor := .lockMonitor } := by
    simp [step, hd]
  have htake : step { s with quit := true, dtor := .lockMonitor } (.cbStore r) =
      some { s.setCli r .lockMonitor with quit := false, dtor := .lockMonitor } := if_pos hr
  exact ⟨_, exec_cons_eq_some.2 ⟨_, hstore, exec_cons_eq_some.2 ⟨_, htake, rfl⟩⟩, rfl, rfl⟩

/-! ### The steps that are left -/

/-- The steps of the threads of a follower, but for the data callback; those of the writers are not among
them. -/
def Act.own : Act → Bool
  | .onData _ | .writerStart | .writerStop | .writerCrash => false
  | _ => true

/-- The steps that a monitor still makes, when `quit_` is `true`, and those of the reader that it may make. -/
def MonitorPc.rank : MonitorPc → ℕ
  | .absent | .done => 0
  | .last => 1
  | .load => 2
  | .store | .clear => 3
  | .drop _ _ => 4
  | .join _ => 5
  | .wait _ => 6
  | .new => 16
  | .lockReader => 17
  | .check => 18

/-- The steps that a client thread still makes, and those of the monitor that its callback may start. -/
def ClientPc.rank : ClientPc → ℕ
  | .absent | .ended => 0
  | .user => 1
  | .assign _ => 2
  | .lockMonitor => 5
  | .store => 6
  | .test => 7
  | .live => 8
  | .waiting => 9

def DtorPc.rank : DtorPc → ℕ
  | .done => 0
  | .members => 1
  | .drop _ => 2
  | .lockReader => 3
  | .get => 4
  | .lockMonitor => 5
  | .store => 6
  | .idle => 7

def monRank (s : Follower) : ℕ := ∑ m ∈ Finset.range s.nextMon, (s.mon m).rank

def cliRank (s : Follower) : ℕ := ∑ r ∈ Finset.range s.nextRd, (s.cli r).pc.rank

/-- The steps that the threads still make at most. -/
def rank (s : Follower) : ℕ := s.dtor.rank + s.monRank + s.cliRank

/-- A sum of which one term changes. -/
theorem sum_range_moved {f g : ℕ → ℕ} {i : ℕ} (hi : i < n) (h : ∀ j, j ≠ i → g j = f j) :
    ∑ j ∈ Finset.range n, g j + f i = ∑ j ∈ Finset.range n, f j + g i := by
  have hmem := Finset.mem_range.2 hi
  have hrest : ∑ j ∈ (Finset.range n).erase i, g j = ∑ j ∈ (Finset.range n).erase i, f j :=
    Finset.sum_congr rfl fun j hj => h j (Finset.ne_of_mem_erase hj)
  rw [← Finset.sum_erase_add _ g hmem, ← Finset.sum_erase_add _ f hmem, hrest]
  omega

/-- A monitor moves. -/
theorem monRank_setMon (hf : Fresh s) (hm : s.mon m ≠ .absent) (pc : MonitorPc) :
    (s.setMon m pc).monRank + (s.mon m).rank = s.monRank + pc.rank := by
  have hlt : m < s.nextMon := by
    by_contra hge
    exact hm (hf.mon m (by omega))
  have hself : ((s.setMon m pc).mon m).rank = pc.rank := by rw [setMon_mon, if_pos rfl]
  rw [← hself]
  exact sum_range_moved (f := fun m => (s.mon m).rank) hlt fun m' hne => by rw [setMon_mon, if_neg hne]

/-- A client thread moves. -/
theorem cliRank_setCli (hf : Fresh s) (hr : (s.cli r).pc ≠ .absent) (pc : ClientPc) :
    (s.setCli r pc).cliRank + (s.cli r).pc.rank = s.cliRank + pc.rank := by
  have hlt : r < s.nextRd := by
    by_contra hge
    exact hr (hf.cli r (by omega))
  have hself : ((s.setCli r pc).cli r).pc.rank = pc.rank := by rw [setCli_pc, if_pos rfl]
  rw [← hself]
  exact sum_range_moved (f := fun r => (s.cli r).pc.rank) hlt fun r' hne => by rw [setCli_pc, if_neg hne]

theorem cliRank_hearConnect (s : Follower) (r : ℕ) : (s.hearConnect r).cliRank = (s.setCli r .live).cliRank :=
  Finset.sum_congr rfl fun r' _ => by rw [hearConnect_pc, setCli_pc]

theorem monRank_async (s : Follower) : s.async.monRank = s.monRank + 2 := by
  have hnew : s.async.monRank =
      ∑ m ∈ Finset.range s.nextMon, (s.async.mon m).rank + (s.async.mon s.nextMon).rank :=
    Finset.sum_range_succ (fun m => (s.async.mon m).rank) s.nextMon
  have hold : ∑ m ∈ Finset.range s.nextMon, (s.async.mon m).rank = s.monRank :=
    Finset.sum_congr rfl fun m hm => by rw [async_mon, if_neg (Finset.mem_range.1 hm).ne]
  rw [hnew, hold, async_mon, if_pos rfl]
  rfl

theorem cliRank_newReader (s : Follower) (pc : ClientPc) (w : ℕ) :
    (s.newReader pc w).cliRank = s.cliRank + pc.rank := by
  have hnew : (s.newReader pc w).cliRank = ∑ r ∈ Finset.range s.nextRd, ((s.newReader pc w).cli r).pc.rank +
      ((s.newReader pc w).cli s.nextRd).pc.rank :=
    Finset.sum_range_succ (fun r => ((s.newReader pc w).cli r).pc.rank) s.nextRd
  have hold : ∑ r ∈ Finset.range s.nextRd, ((s.newReader pc w).cli r).pc.rank = s.cliRank :=
    Finset.sum_congr rfl fun r hr => by rw [newReader_cli, if_neg (Finset.mem_range.1 hr).ne]
  rw [hnew, hold, newReader_cli, if_pos rfl]

theorem cliRank_resetReader (s : Follower) (p : Option ℕ) : (s.resetReader p).cliRank = s.cliRank :=
  Finset.sum_congr rfl fun r _ => by rw [(resetReader_cli s p r).1]

/-- A monitor lowers the rank, with the reader that it may make. -/
theorem rank_monitor (hf : Fresh s) {pc pc' : MonitorPc} (hm : s.mon m = pc) (hpc : pc ≠ .absent)
    (hd : t.dtor = s.dtor) (hmon : t.monRank = (s.setMon m pc').monRank) (hcli : t.cliRank = s.cliRank + n)
    (hlt : pc'.rank + n < pc.rank) : t.rank + 1 ≤ s.rank := by
  have hmove := monRank_setMon hf (hm ▸ hpc) pc'
  rw [hm] at hmove
  unfold rank
  rw [hd, hmon, hcli]
  omega

/-- A client thread lowers the rank, with the monitor that it may start. -/
theorem rank_client (hf : Fresh s) {pc pc' : ClientPc} (hr : (s.cli r).pc = pc) (hpc : pc ≠ .absent)
    (hd : t.dtor = s.dtor) (hcli : t.cliRank = (s.setCli r pc').cliRank) (hmon : t.monRank = s.monRank + n)
    (hlt : pc'.rank + n < pc.rank) : t.rank + 1 ≤ s.rank := by
  have hmove := cliRank_setCli hf (hr ▸ hpc) pc'
  rw [hr] at hmove
  unfold rank
  rw [hd, hcli, hmon]
  omega

theorem rank_dtor {d : DtorPc} (hd : s.dtor = d) (hmon : t.monRank = s.monRank) (hcli : t.cliRank = s.cliRank)
    (hlt : t.dtor.rank < d.rank) : t.rank + 1 ≤ s.rank := by
  unfold rank
  rw [hmon, hcli, hd]
  omega

/-- **Every step of a thread lowers the rank**, and the steps of the writers leave it as it is. -/
theorem rank_of_step (h : Flags s) (hd : s.dtor.stored = true) (hst : s.step a = some t) :
    t.rank + (if a.own then 1 else 0) ≤ s.rank := by
  have hf := h.fresh
  obtain ⟨hquit, hstore⟩ := h.stored hd
  have hidle : s.dtor ≠ .idle := fun hidle => by
    rw [hidle] at hd
    cases hd
  obtain ⟨hdes, hctor⟩ := h.begun hidle
  cases trans_of_step hst with
  | ctorCheck hc | ctorRefused hc | ctorConnect _ hc | ctorMade hc | ctorTimeout hc | ctorJoined hc
  | ctorAsync hc | ctorAssign hc =>
      rw [hctor] at hc
      cases hc
  | load hm => exact rank_monitor hf hm (by simp) rfl rfl (Nat.add_zero _).symm (by simp [hquit, MonitorPc.rank])
  | check hm =>
      refine rank_monitor hf hm (by simp) rfl rfl (Nat.add_zero _).symm ?_
      split <;> decide
  | lockReader hm | timeout hm | store hm | clear hm | last hm =>
      exact rank_monitor hf hm (by simp) rfl rfl (Nat.add_zero _).symm (by simp [MonitorPc.rank])
  | dropped hm =>
      refine rank_monitor hf hm (by simp) rfl rfl (Nat.add_zero _).symm ?_
      split <;> simp [MonitorPc.rank]
  | refused hm =>
      have hcli := (cliRank_resetReader (s.newReader .ended 0) (some s.nextRd)).trans (cliRank_newReader s .ended 0)
      exact rank_monitor hf hm (by simp) rfl rfl hcli (by simp [MonitorPc.rank, ClientPc.rank])
  | connect _ hm =>
      exact rank_monitor hf hm (by simp) rfl rfl (cliRank_newReader ..) (by simp [MonitorPc.rank, ClientPc.rank])
  | @made m r hm | @joined m r hm =>
      have hcli := cliRank_resetReader s (some r)
      exact rank_monitor (n := 0) hf hm (by simp) rfl rfl hcli (by simp [MonitorPc.rank])
  | onConnect hr =>
      exact rank_client (n := 0) hf hr (by simp) rfl (cliRank_hearConnect ..) rfl (by simp [ClientPc.rank])
  | onDisconnect hr | abandoned hr | cbUser hr | cbAssign hr =>
      exact rank_client hf hr (by simp) rfl rfl (Nat.add_zero _).symm (by simp [ClientPc.rank])
  | cbTest hr =>
      refine rank_client hf hr (by simp) rfl rfl (Nat.add_zero _).symm ?_
      split <;> decide
  | cbStore hr => exact absurd hr (hstore _)
  | cbAsync hr =>
      exact rank_client hf hr (by simp) rfl rfl (monRank_async s) (by simp [ClientPc.rank])
  | dtorBegin _ hc => exact absurd hc hidle
  | dtorStore hc =>
      rw [hc] at hd
      cases hd
  | dtorLockMonitor hc | dtorGet hc | dtorDropped hc | dtorMembers hc =>
      exact rank_dtor hc rfl rfl (by simp [DtorPc.rank])
  | dtorLockReader hc => exact rank_dtor hc rfl (cliRank_resetReader s none) (by simp [DtorPc.rank])
  | onData | writerStart | writerStop | writerCrash => exact Nat.le_refl _

/-- Once the destructor has stored `true` it stays behind this store. -/
theorem stored_of_step (hd : s.dtor.stored = true) (hst : s.step a = some t) : t.dtor.stored = true := by
  cases trans_of_step hst with
  | dtorBegin _ hc | dtorStore hc =>
      rw [hc] at hd
      cases hd
  | dtorLockMonitor | dtorGet | dtorLockReader | dtorDropped | dtorMembers => rfl
  | _ => exact hd

/-- **However long the writers go on, the threads make a bounded number of steps.** -/
theorem countP_own_le (h : Flags s) (hd : s.dtor.stored = true) (hrun : exec step s bs = some t) :
    bs.countP Act.own ≤ s.rank := by
  have hstep (s : Follower) (a : Act) (t : Follower) (hs : Flags s ∧ s.dtor.stored = true)
      (hst : s.step a = some t) : Flags t ∧ t.dtor.stored = true := by
    refine ⟨hs.1.step ?_ hst, stored_of_step hs.2 hst⟩
    rintro rfl
    cases trans_of_step hst with
    | dtorStore hc =>
        rw [hc] at hs
        cases hs.2
  have hrank : bs.countP Act.own + rank t ≤ rank s :=
    exec_countP_add_rank_le rank hstep (fun s a t hs => rank_of_step hs.1 hs.2) hrun ⟨h, hd⟩
  omega

/-! ### A callback that is overtaken by the destructor -/

/-- The destructor waits for a monitor in its loop that has nothing to find, and nobody else is left. -/
structure Stuck (s : Follower) (m : ℕ) : Prop where
  dtor : s.dtor = .get
  monitor : s.monitor = some m
  mon : s.mon m = .load ∨ s.mon m = .check
  quit : s.quit = false
  file : s.file = false
  writer : s.writer = none
  ctor : s.ctor = .done
  others : ∀ m', m' ≠ m → (s.mon m').inactive = true
  clients : ∀ r, (s.cli r).pc = .absent ∨ (s.cli r).pc = .ended

/-- Without a writer nothing changes. -/
theorem Stuck.step (h : Stuck s m) (hst : s.step a = some t) (ha : a ≠ .writerStart) : Stuck t m := by
  have hmon {m' : ℕ} {pc : MonitorPc} (hm : s.mon m' = pc) (hpc : pc.inactive = false) :
      m' = m ∧ (pc = .load ∨ pc = .check) := by
    have hself : m' = m := by
      by_contra hne
      exact not_inactive_of_eq (h.others m' hne) hm hpc
    refine ⟨hself, ?_⟩
    rw [← hm, hself]
    exact h.mon
  have hmove {pc : MonitorPc} (hpc : pc = .load ∨ pc = .check) : Stuck (s.setMon m pc) m := by
    refine ⟨h.dtor, h.monitor, ?_, h.quit, h.file, h.writer, h.ctor, fun m' hm' => ?_, h.clients⟩
    · rw [setMon_mon, if_pos rfl]
      exact hpc
    · rw [setMon_mon, if_neg hm']
      exact h.others m' hm'
  have hcli {r : ℕ} {pc : ClientPc} (hr : (s.cli r).pc = pc) : pc = .absent ∨ pc = .ended := hr ▸ h.clients r
  have hactive : (s.mon m).inactive = false := by rcases h.mon with hm | hm <;> rw [hm] <;> rfl
  have hget : ¬ s.Ready := Sessions.not_ready_of_active hactive h.monitor
  cases trans_of_step hst with
  | ctorCheck hc | ctorRefused hc | ctorConnect _ hc | ctorMade hc | ctorTimeout hc | ctorJoined hc
  | ctorAsync hc | ctorAssign hc =>
      rw [h.ctor] at hc
      cases hc
  | load hm =>
      obtain ⟨rfl, -⟩ := hmon hm rfl
      rw [if_neg (by simp [h.quit])]
      exact hmove (Or.inr rfl)
  | check hm =>
      obtain ⟨rfl, -⟩ := hmon hm rfl
      rw [if_neg (by simp [h.file])]
      exact hmove (Or.inl rfl)
  | lockReader hm | refused hm | connect _ hm | made hm | timeout hm | joined hm | dropped hm | store hm
  | clear hm | last hm =>
      have := (hmon hm rfl).2
      simp at this
  | onConnect hr | onData hr | onDisconnect hr | abandoned hr | cbTest hr | cbStore hr | cbAsync hr
  | cbAssign hr | cbUser hr =>
      have := hcli hr
      simp at this
  | dtorGet _ hready => exact absurd hready hget
  | dtorBegin _ hc | dtorStore hc | dtorLockMonitor hc | dtorLockReader hc | dtorDropped hc | dtorMembers hc =>
      rw [h.dtor] at hc
      cases hc
  | writerStart => exact absurd rfl ha
  | writerStop hw | writerCrash hw =>
      rw [h.writer] at hw
      cases hw

/-- The writer goes away, the callback passes its test, the destructor sets both flags, and the callback stores
`false` and starts a monitor. -/
def overtakenStore : List Act :=
  [.store 0, .load 0, .last 0, .writerStop, .onDisconnect 0, .cbTest 0, .dtorBegin, .dtorStore, .cbStore 0,
    .cbAsync 0, .cbAssign 0 1, .cbUser 0, .dtorLockMonitor]

/-- All of this is in turn, and leaves the destructor with a monitor that has nothing to find. -/
theorem stuck_of_overtakenStore :
    ∃ s, exec (restrict step InTurn) (init none false) (firstConnection ++ overtakenStore) = some s ∧
      Stuck s 1 := by
  have hrun : ((exec (restrict step InTurn) (init none false) (firstConnection ++ overtakenStore)).any
      fun s => (s.dtor = .get ∧ s.monitor = some 1 ∧ s.mon 1 = .load ∧ s.quit = false ∧ s.file = false ∧
        s.writer = none ∧ s.ctor = .done) ∧ (∀ m < s.nextMon, m ≠ 1 → s.mon m = .done) ∧
          ∀ r < s.nextRd, (s.cli r).pc = .ended) = true := by
    decide +kernel
  obtain ⟨s, hs, hrun⟩ := (Option.any_eq_true _ _).1 hrun
  obtain ⟨⟨hdtor, hmonitor, hmon, hquit, hfile, hwriter, hctor⟩, hothers, hclients⟩ := of_decide_eq_true hrun
  have hf : Fresh s :=
    exec_invariant (fun _ _ _ hf hst => fresh_of_step hf hst) (exec_of_restrict hs) (fresh_init _ _)
  refine ⟨s, hs, hdtor, hmonitor, Or.inl hmon, hquit, hfile, hwriter, hctor, fun m hm => ?_, fun r => ?_⟩
  · rcases Nat.lt_or_ge m s.nextMon with h | h
    · rw [hothers m h hm]
      rfl
    · rw [hf.mon m h]
      rfl
  · exact (Nat.lt_or_ge r s.nextRd).symm.imp (hf.cli r) (hclients r)

/-- The step at which a writer appears. -/
def Act.appears : Act → Bool
  | .writerStart => true
  | _ => false

/-- A run of the constructor, two monitors, one reader, its writer and the destructor, after which `quit_` is
`false`, and in which the second monitor is in its loop and the destructor waits for it as long as no writer
appears. -/
theorem overtakenStore_waits :
    ∃ s, exec (restrict step InTurn) (init none false) (firstConnection ++ overtakenStore) = some s ∧
      s.dtor.stored = true ∧ s.quit = false ∧
      ∀ bs t, exec (restrict step fun _ a => a.appears = false) s bs = some t →
        t.quit = false ∧ t.dtor = .get ∧ t.monitor = some 1 ∧ (t.mon 1).inLoop = true := by
  obtain ⟨s, hs, hstuck⟩ := stuck_of_overtakenStore
  refine ⟨s, hs, by rw [hstuck.dtor]; rfl, hstuck.quit, fun bs t hrun => ?_⟩
  have ht : Stuck t 1 := by
    refine exec_invariant (P := fun s => Stuck s 1) (fun s a t hs hst => ?_) hrun hstuck
    obtain ⟨ha, hst⟩ := restrict_eq_some.1 hst
    refine hs.step hst ?_
    rintro rfl
    cases ha
  refine ⟨ht.quit, ht.dtor, ht.monitor, ?_⟩
  rcases ht.mon with hm | hm
  · rw [hm]
    rfl
  · rw [hm]
    rfl

end Follower

end Shmdata

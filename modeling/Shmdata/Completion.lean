/-
**The destructor of a follower comes to its end.**

The destructor waits for the monitor in `monitor_`, and for the client thread of the reader in `reader_`; a
monitor waits for the client threads of the readers that it gives up or replaces; a disconnect callback waits for
the mutex of `monitor_` and for the monitor that is there.  In the runs where the destructor's store of `true`
stays, where the callbacks are in turn, and where no server stays silent, these waits do not form a circle: as
long as the destructor is not done or a monitor is active, some thread can move.  Since all of them together make
a bounded number of steps only, the destructor ends, and every monitor has left its loop.

Main definitions:

* `Shmdata.Follower.Orderly` — the condition on the steps of a run;
* `Shmdata.Follower.MonitorMove` — what a step does to a monitor;
* `Shmdata.Follower.Locks`, `Shmdata.Follower.Known`, `Shmdata.Follower.Awaited` — who holds the two mutexes,
  which threads there are, and which readers are waited for;
* `Shmdata.Follower.Settled` — no thread can move.

Main results:

* `Shmdata.Follower.Proper.done_of_settled` — the waits do not form a circle;
* `Shmdata.Follower.stops_of_heeded` — **a follower that is destroyed stops**.
-/

import Shmdata.Leaving

set_option relaxedAutoImplicit false
set_option autoImplicit false

namespace Shmdata

namespace Follower

open Runs

variable {s t : Follower} {a : Act} {as bs : List Act} {m r n : ℕ}

/-! ### The moves of a monitor -/

/-- What a step does to the monitor `m`: where it was, and where it is. -/
inductive MonitorMove (s : Follower) (m : ℕ) : Act → MonitorPc → MonitorPc → Prop
  | stay {a : Act} {pc : MonitorPc} : MonitorMove s m a pc pc
  | new {a : Act} {pc : MonitorPc} : m = s.nextMon → a.starts = true → MonitorMove s m a pc .load
  | load {pc' : MonitorPc} : pc' = .last ∨ pc' = .check → MonitorMove s m (.load m) .load pc'
  | check {pc' : MonitorPc} : pc' = .lockReader ∨ pc' = .load → MonitorMove s m (.check m) .check pc'
  | lockReader : MonitorMove s m (.lockReader m) .lockReader .new
  | refused : MonitorMove s m (.refused m) .new (.drop s.reader false)
  | connect : MonitorMove s m (.connect m) .new (.wait s.nextRd)
  | made {r : ℕ} : MonitorMove s m (.made m r) (.wait r) (.drop s.reader true)
  | timeout {r : ℕ} : (s.cli r).connected = false → MonitorMove s m (.timeout m r) (.wait r) (.join r)
  | joined {r : ℕ} : MonitorMove s m (.joined m r) (.join r) (.drop s.reader false)
  | dropped {old : Option ℕ} {valid : Bool} {pc' : MonitorPc} : pc' = .store ∨ pc' = .clear →
      MonitorMove s m (.dropped m old valid) (.drop old valid) pc'
  | store : MonitorMove s m (.store m) .store .load
  | clear : MonitorMove s m (.clear m) .clear .load
  | last : MonitorMove s m (.last m) .last .done

theorem monitorMove_of_step (hst : s.step a = some t) (m : ℕ) : MonitorMove s m a (s.mon m) (t.mon m) := by
  -- the monitor is the one that moves, or another one is
  have hmove {b : Act} {m' : ℕ} {pc pc' : MonitorPc} (hm : s.mon m' = pc)
      (hself : m = m' → MonitorMove s m b pc pc') :
      MonitorMove s m b (s.mon m) (if m = m' then pc' else s.mon m) := by
    split
    · next h =>
        have hpc : s.mon m = pc := h ▸ hm
        exact hpc ▸ hself h
    · exact .stay
  have hasync {b : Act} (hb : b.starts = true) : MonitorMove s m b (s.mon m) (s.async.mon m) := by
    rw [async_mon]
    split
    · next h => exact .new h hb
    · exact .stay
  cases trans_of_step hst with
  | ctorAsync | cbAsync => exact hasync rfl
  | load hm =>
      rw [setMon_mon]
      refine hmove hm fun h => h ▸ .load ?_
      split
      · exact Or.inl rfl
      · exact Or.inr rfl
  | check hm =>
      rw [setMon_mon]
      refine hmove hm fun h => h ▸ .check ?_
      split
      · exact Or.inl rfl
      · exact Or.inr rfl
  | lockReader hm => exact (setMon_mon s _ m _) ▸ hmove hm fun h => h ▸ .lockReader
  | refused hm => exact (setMon_mon _ _ m _) ▸ hmove hm fun h => h ▸ .refused
  | connect _ hm => exact (setMon_mon _ _ m _) ▸ hmove hm fun h => h ▸ .connect
  | made hm => exact (setMon_mon _ _ m _) ▸ hmove hm fun h => h ▸ .made
  | timeout hm hc => exact (setMon_mon s _ m _) ▸ hmove hm fun h => h ▸ .timeout hc
  | joined hm => exact (setMon_mon _ _ m _) ▸ hmove hm fun h => h ▸ .joined
  | @dropped _ _ valid hm =>
      rw [setMon_mon]
      refine hmove hm fun h => h ▸ .dropped ?_
      cases valid with
      | true => exact Or.inl rfl
      | false => exact Or.inr rfl
  | store hm => exact (setMon_mon s _ m _) ▸ hmove hm fun h => h ▸ .store
  | clear hm => exact (setMon_mon s _ m _) ▸ hmove hm fun h => h ▸ .clear
  | last hm => exact (setMon_mon s _ m _) ▸ hmove hm fun h => h ▸ .last
  | _ => exact .stay

/-! ### The mutexes -/

/-- In the block that locks `reader_mtx_`. -/
def MonitorPc.constructs : MonitorPc → Bool
  | .new | .wait _ | .join _ | .drop _ _ | .store | .clear => true
  | _ => false

theorem inactive_of_constructs {pc : MonitorPc} (h : pc.constructs = true) : pc.inactive = false := by
  cases pc with
  | absent | done => cases h
  | _ => rfl

/-- Where a thread that holds `monitor_mtx_` is. -/
def HoldsMonitor (s : Follower) : Thread → Prop
  | .user => s.dtor = .get
  | .client r => ∃ m, (s.cli r).pc = .assign m
  | .monitor _ => False

/-- Where a thread that holds `reader_mtx_` is. -/
def HoldsReader (s : Follower) : Thread → Prop
  | .user => ∃ old, s.dtor = .drop old
  | .monitor m => (s.mon m).constructs = true
  | .client _ => False

/-- Who holds the mutexes. -/
structure Locks (s : Follower) : Prop where
  monitor : ∀ th, s.monitorMtx = some th → HoldsMonitor s th
  assign : ∀ r m, (s.cli r).pc = .assign m → s.monitorMtx = some (.client r)
  get : s.dtor = .get → s.monitorMtx = some .user
  reader : ∀ th, s.readerMtx = some th → HoldsReader s th

theorem locks_init (writer : Option ℕ) (file : Bool) : Locks (init writer file) where
  monitor _ h := by cases h
  assign _ _ h := by cases h
  get h := by cases h
  reader _ h := by cases h

namespace Locks

theorem monitor_step (h : Locks s) (hf : Fresh s) (hst : s.step a = some t) (th : Thread)
    (hth : t.monitorMtx = some th) : HoldsMonitor t th := by
  have hkeep (hmtx : t.monitorMtx = s.monitorMtx) (hd : s.dtor = .get → t.dtor = .get)
      (ha : ∀ r m, a ≠ .cbAssign r m) : HoldsMonitor t th := by
    have hold := h.monitor th (hmtx ▸ hth)
    cases th with
    | user => exact hd hold
    | monitor m => exact hold
    | client r =>
        obtain ⟨m, hr⟩ := hold
        exact ⟨m, (assign_or_cbAssign hf hst hr).resolve_right (ha r m)⟩
  cases trans_of_step hst with
  | @cbAsync r =>
      obtain rfl : Thread.client r = th := Option.some.inj hth
      exact ⟨s.nextMon, (setCli_pc s.async r r _).trans (if_pos rfl)⟩
  | cbAssign | dtorGet => cases hth
  | dtorLockMonitor =>
      obtain rfl : Thread.user = th := Option.some.inj hth
      exact rfl
  | dtorBegin _ hc | dtorStore hc | dtorLockReader hc | dtorDropped hc | dtorMembers hc =>
      refine hkeep rfl (fun hd => ?_) (by simp)
      rw [hc] at hd
      cases hd
  | _ => exact hkeep rfl id (by simp)

theorem monitorHeld (h : Locks s) : MonitorHeld s := ⟨h.assign, h.get⟩

/-- A monitor leaves the block by releasing the mutex. -/
theorem constructs_of_step (hf : Fresh s) (hst : s.step a = some t) (hm : (s.mon m).constructs = true)
    (h1 : a ≠ .store m) (h2 : a ≠ .clear m) : (t.mon m).constructs = true := by
  have hmove := monitorMove_of_step hst m
  have hfresh := hf.mon m
  generalize s.mon m = pc at *
  generalize t.mon m = pc' at *
  cases hmove with
  | stay => exact hm
  | new hnew =>
      rw [hfresh (by omega)] at hm
      cases hm
  | load | check | lockReader | last => cases hm
  | dropped hpc => rcases hpc with rfl | rfl <;> rfl
  | store => exact absurd rfl h1
  | clear => exact absurd rfl h2
  | refused | connect | made | timeout | joined => rfl

theorem reader_step (h : Locks s) (hf : Fresh s) (hst : s.step a = some t) (th : Thread)
    (hth : t.readerMtx = some th) : HoldsReader t th := by
  have hkeep (hmtx : t.readerMtx = s.readerMtx) (hd : ∀ old, s.dtor = .drop old → t.dtor = .drop old)
      (h1 : ∀ m, a ≠ .store m) (h2 : ∀ m, a ≠ .clear m) : HoldsReader t th := by
    have hold := h.reader th (hmtx ▸ hth)
    cases th with
    | user =>
        obtain ⟨old, hdrop⟩ := hold
        exact ⟨old, hd old hdrop⟩
    | monitor m => exact constructs_of_step hf hst hold (h1 m) (h2 m)
    | client r => exact hold
  cases trans_of_step hst with
  | @lockReader m =>
      obtain rfl : Thread.monitor m = th := Option.some.inj hth
      show ((s.setMon m .new).mon m).constructs = true
      rw [setMon_mon, if_pos rfl]
      rfl
  | store | clear | dtorDropped => cases hth
  | dtorLockReader =>
      obtain rfl : Thread.user = th := Option.some.inj hth
      exact ⟨s.reader, rfl⟩
  | dtorBegin _ hc | dtorStore hc | dtorLockMonitor hc | dtorGet hc | dtorMembers hc =>
      refine hkeep rfl (fun old hd => ?_) (by simp) (by simp)
      rw [hc] at hd
      cases hd
  | _ => exact hkeep rfl (fun _ => id) (by simp) (by simp)

theorem step (h : Locks s) (hf : Fresh s) (hst : s.step a = some t) : Locks t where
  monitor := h.monitor_step hf hst
  assign := (h.monitorHeld.step hst).assign
  get := (h.monitorHeld.step hst).get
  reader := h.reader_step hf hst

end Locks

/-! ### The threads and readers there are -/

theorem nextMon_le_of_step (hst : s.step a = some t) : s.nextMon ≤ t.nextMon := by
  cases trans_of_step hst with
  | ctorAsync | cbAsync => exact Nat.le_succ _
  | _ => exact Nat.le_refl _

theorem resetReader_quitting {o : ℕ} (h : s.reader = some o) (p : Option ℕ) :
    ((s.resetReader p).cli o).quitting = true := by
  unfold resetReader
  rw [h]
  simp

/-- The monitors and the readers that are spoken of have been created. -/
structure Known (s : Follower) : Prop where
  started : ∀ m < s.nextMon, s.mon m ≠ .absent
  created : ∀ r < s.nextRd, (s.cli r).pc ≠ .absent
  monitor : ∀ m, s.monitor = some m → m < s.nextMon
  ctorAssign : ∀ m, s.ctor = .assign m → m < s.nextMon
  assign : ∀ r m, (s.cli r).pc = .assign m → m < s.nextMon
  reader : ∀ r, s.reader = some r → r < s.nextRd
  ctorReader : ∀ r, s.ctor = .wait r ∨ s.ctor = .join r → r < s.nextRd
  monReader : ∀ m r, s.mon m = .wait r ∨ s.mon m = .join r → r < s.nextRd
  dropped : ∀ m o valid, s.mon m = .drop (some o) valid → o < s.nextRd ∧ (s.cli o).quitting = true
  dropping : ∀ o, s.dtor = .drop (some o) → o < s.nextRd ∧ (s.cli o).quitting = true

theorem known_init (writer : Option ℕ) (file : Bool) : Known (init writer file) where
  started _ h := by cases h
  created _ h := by cases h
  monitor _ h := by cases h
  ctorAssign _ h := by cases h
  assign _ _ h := by cases h
  reader _ h := by cases h
  ctorReader _ h := by rcases h with h | h <;> cases h
  monReader _ _ h := by rcases h with h | h <;> cases h
  dropped _ _ _ h := by cases h
  dropping _ h := by cases h

namespace Known

theorem started_step (h : Known s) (hst : s.step a = some t) (m : ℕ) (hm : m < t.nextMon) :
    t.mon m ≠ .absent := by
  by_cases hold : m < s.nextMon
  · have hmove := monitorMove_of_step hst m
    have hne := h.started m hold
    generalize s.mon m = pc at *
    generalize t.mon m = pc' at *
    cases hmove with
    | stay => exact hne
    | load hpc | check hpc | dropped hpc => rcases hpc with rfl | rfl <;> simp
    | _ => simp
  · cases trans_of_step hst with
    | ctorAsync | cbAsync =>
        have hm : m < s.nextMon + 1 := hm
        show s.async.mon m ≠ .absent
        rw [async_mon, if_pos (by omega)]
        simp
    | _ => exact absurd hm hold

theorem created_step (h : Known s) (hst : s.step a = some t) (r : ℕ) (hr : r < t.nextRd) :
    (t.cli r).pc ≠ .absent := by
  have hmove := clientMove_of_step hst r
  have hold := h.created r
  by_cases hlt : r < s.nextRd
  · have hne := hold hlt
    generalize (s.cli r).pc = pc at *
    generalize (t.cli r).pc = pc' at *
    cases hmove with
    | stay => exact hne
    | new _ hpc | cbTest hpc => rcases hpc with rfl | rfl <;> simp
    | _ => simp
  · have hnew (pc : ClientPc) (w : ℕ) (hpc : pc ≠ .absent) (hr : r < s.nextRd + 1) :
        ((s.newReader pc w).cli r).pc ≠ .absent := by
      rw [newReader_cli, if_pos (by omega)]
      exact hpc
    cases trans_of_step hst with
    | ctorRefused => exact hnew .ended 0 (by simp) hr
    | @ctorConnect w => exact hnew .waiting w (by simp) hr
    | @connect m w => exact hnew .waiting w (by simp) hr
    | refused =>
        show (((s.newReader .ended 0).resetReader (some s.nextRd)).cli r).pc ≠ .absent
        rw [(resetReader_cli ..).1]
        exact hnew .ended 0 (by simp) hr
    | _ => exact absurd hr hlt

theorem monitor_step (h : Known s) (hst : s.step a = some t) (m : ℕ) (hm : t.monitor = some m) :
    m < t.nextMon := by
  have hle := nextMon_le_of_step hst
  cases trans_of_step hst with
  | ctorAssign hc =>
      obtain rfl := Option.some.inj hm
      exact h.ctorAssign _ hc
  | cbAssign hr =>
      obtain rfl := Option.some.inj hm
      exact h.assign _ _ hr
  | dtorGet => cases hm
  | _ => exact Nat.lt_of_lt_of_le (h.monitor m hm) hle

theorem ctorAssign_step (h : Known s) (hst : s.step a = some t) (m : ℕ) (hm : t.ctor = .assign m) :
    m < t.nextMon := by
  have hle := nextMon_le_of_step hst
  cases trans_of_step hst with
  | ctorCheck =>
      simp only at hm
      split at hm <;> cases hm
  | ctorRefused | ctorConnect | ctorMade | ctorTimeout | ctorJoined | ctorAssign => cases hm
  | ctorAsync =>
      obtain rfl : s.nextMon = m := by simpa using hm
      exact Nat.lt_succ_self _
  | _ => exact Nat.lt_of_lt_of_le (h.ctorAssign m hm) hle

theorem assign_step (h : Known s) (hst : s.step a = some t) (r m : ℕ) (hr : (t.cli r).pc = .assign m) :
    m < t.nextMon := by
  rcases assign_of_step hst hr with hold | ⟨rfl, rfl⟩
  · exact Nat.lt_of_lt_of_le (h.assign r m hold) (nextMon_le_of_step hst)
  · cases trans_of_step hst with
    | cbAsync => exact Nat.lt_succ_self _

theorem reader_step (h : Known s) (hst : s.step a = some t) (r : ℕ) (hr : t.reader = some r) : r < t.nextRd := by
  have hle := nextRd_le_of_step hst
  cases trans_of_step hst with
  | ctorRefused =>
      obtain rfl := Option.some.inj hr
      exact Nat.lt_succ_self _
  | refused =>
      obtain rfl : s.nextRd = r := Option.some.inj hr
      exact Nat.lt_succ_self _
  | ctorMade hc =>
      obtain rfl := Option.some.inj hr
      exact h.ctorReader _ (Or.inl hc)
  | ctorJoined hc =>
      obtain rfl := Option.some.inj hr
      exact h.ctorReader _ (Or.inr hc)
  | @made m q hm =>
      obtain rfl : q = r := Option.some.inj hr
      exact h.monReader _ _ (Or.inl hm)
  | @joined m q hm =>
      obtain rfl : q = r := Option.some.inj hr
      exact h.monReader _ _ (Or.inr hm)
  | clear | dtorLockReader => cases hr
  | _ => exact Nat.lt_of_lt_of_le (h.reader r hr) hle

theorem ctorReader_step (h : Known s) (hst : s.step a = some t) (r : ℕ)
    (hr : t.ctor = .wait r ∨ t.ctor = .join r) : r < t.nextRd := by
  have hle := nextRd_le_of_step hst
  cases trans_of_step hst with
  | ctorCheck =>
      simp only at hr
      split at hr <;> simp at hr
  | ctorRefused | ctorMade | ctorJoined | ctorAsync | ctorAssign => simp at hr
  | ctorConnect =>
      obtain rfl : s.nextRd = r := by simpa using hr
      exact Nat.lt_succ_self _
  | @ctorTimeout q hc =>
      obtain rfl : q = r := by simpa using hr
      exact h.ctorReader _ (Or.inl hc)
  | _ => exact Nat.lt_of_lt_of_le (h.ctorReader r hr) hle

theorem monReader_step (h : Known s) (hst : s.step a = some t) (m r : ℕ)
    (hm : t.mon m = .wait r ∨ t.mon m = .join r) : r < t.nextRd := by
  have hmove := monitorMove_of_step hst m
  have hold := h.monReader m
  have hle := nextRd_le_of_step hst
  generalize s.mon m = pc at *
  generalize t.mon m = pc' at *
  cases hmove with
  | stay => exact Nat.lt_of_lt_of_le (hold r hm) hle
  | connect =>
      obtain rfl : s.nextRd = r := by simpa using hm
      cases trans_of_step hst with
      | connect => exact Nat.lt_succ_self _
  | @timeout q =>
      obtain rfl : q = r := by simpa using hm
      exact Nat.lt_of_lt_of_le (hold q (Or.inl rfl)) hle
  | load hpc | check hpc | dropped hpc => rcases hpc with rfl | rfl <;> simp at hm
  | new | lockReader | refused | made | joined | store | clear | last => simp at hm

/-- What `reader_.reset` destroys has been created, and is told to quit. -/
theorem dropped_step (h : Known s) (hst : s.step a = some t) (m o : ℕ) (valid : Bool)
    (hm : t.mon m = .drop (some o) valid) : o < t.nextRd ∧ (t.cli o).quitting = true := by
  have hmove := monitorMove_of_step hst m
  have hold := h.dropped m
  have hle := nextRd_le_of_step hst
  generalize s.mon m = pc at *
  generalize t.mon m = pc' at *
  have hreader {p : Option ℕ} {v : Bool} (hp : MonitorPc.drop p v = .drop (some o) valid) : p = some o :=
    (MonitorPc.drop.inj hp).1
  cases hmove with
  | stay =>
      obtain ⟨hlt, hquit⟩ := hold o valid hm
      exact ⟨Nat.lt_of_lt_of_le hlt hle, (kept_of_step hst hlt).quitting hquit⟩
  | refused =>
      have hr := hreader hm
      refine ⟨Nat.lt_of_lt_of_le (h.reader o hr) hle, ?_⟩
      cases trans_of_step hst with
      | refused => exact resetReader_quitting (s := s.newReader .ended 0) hr (some s.nextRd)
  | @made q =>
      have hr := hreader hm
      refine ⟨Nat.lt_of_lt_of_le (h.reader o hr) hle, ?_⟩
      cases trans_of_step hst with
      | made => exact resetReader_quitting hr (some q)
  | @joined q =>
      have hr := hreader hm
      refine ⟨Nat.lt_of_lt_of_le (h.reader o hr) hle, ?_⟩
      cases trans_of_step hst with
      | joined => exact resetReader_quitting hr (some q)
  | load hpc | check hpc | dropped hpc => rcases hpc with rfl | rfl <;> cases hm
  | new | lockReader | connect | timeout | store | clear | last => cases hm

theorem dropping_step (h : Known s) (hst : s.step a = some t) (o : ℕ) (hd : t.dtor = .drop (some o)) :
    o < t.nextRd ∧ (t.cli o).quitting = true := by
  have hkeep (hold : s.dtor = .drop (some o)) : o < t.nextRd ∧ (t.cli o).quitting = true := by
    obtain ⟨hlt, hquit⟩ := h.dropping o hold
    exact ⟨Nat.lt_of_lt_of_le hlt (nextRd_le_of_step hst), (kept_of_step hst hlt).quitting hquit⟩
  cases trans_of_step hst with
  | dtorBegin | dtorStore | dtorLockMonitor | dtorGet | dtorDropped | dtorMembers => cases hd
  | dtorLockReader =>
      have hr : s.reader = some o := DtorPc.drop.inj hd
      exact ⟨h.reader o hr, resetReader_quitting hr none⟩
  | _ => exact hkeep hd

theorem step (h : Known s) (hst : s.step a = some t) : Known t where
  started := h.started_step hst
  created := h.created_step hst
  monitor := h.monitor_step hst
  ctorAssign := h.ctorAssign_step hst
  assign := h.assign_step hst
  reader := h.reader_step hst
  ctorReader := h.ctorReader_step hst
  monReader := h.monReader_step hst
  dropped := h.dropped_step hst
  dropping := h.dropping_step hst

end Known

/-! ### The readers that are waited for -/

/-- The wait of a monitor for a connect message times out only if the server has gone. -/
def Answered (s : Follower) : Act → Prop
  | .timeout _ r => s.writer ≠ some (s.cli r).server
  | _ => True

/-- The reader of which the wait times out. -/
def Act.timedOut : Act → Option ℕ
  | .timeout _ r => some r
  | _ => none

theorem answered_iff (s : Follower) (a : Act) :
    (∀ r ∈ a.timedOut, s.writer ≠ some (s.cli r).server) ↔ Answered s a := by
  cases a <;> simp [Act.timedOut, Answered]

instance (s : Follower) (a : Act) : Decidable (Answered s a) := decidable_of_iff _ (answered_iff s a)

/-- The destructor's store stays, the callbacks are in turn, and no server stays silent. -/
def Orderly (s : Follower) (a : Act) : Prop := Heeded s a ∧ InTurn s a ∧ Answered s a

instance (s : Follower) (a : Act) : Decidable (Orderly s a) := inferInstanceAs (Decidable (_ ∧ _ ∧ _))

/-- The server of the reader `r` has gone. -/
def Gone (s : Follower) (r : ℕ) : Prop := s.writer ≠ some (s.cli r).server

/-- A reader whose constructor waits is connected, or will hear of its server or of its end; a monitor that has
given up waiting for a reader finds it ended, or with its server gone; at most the last monitor is active. -/
structure Awaited (s : Follower) : Prop where
  server : ∀ r, (s.cli r).server < s.nextWriter
  writer : ∀ w, s.writer = some w → w < s.nextWriter
  unheard : ∀ r, (s.cli r).connected = false →
    (s.cli r).pc = .absent ∨ (s.cli r).pc = .waiting ∨ (s.cli r).pc = .ended
  waiting : ∀ r, (s.cli r).pc = .waiting →
    (s.cli r).connected = false ∧ (Awaits s r ∨ Gone s r ∨ s.ctor = .join r)
  wait : ∀ m r, s.mon m = .wait r → (s.cli r).connected = true ∨ (s.cli r).pc = .waiting ∨ Gone s r
  join : ∀ m r, s.mon m = .join r → (s.cli r).pc = .ended ∨ (s.cli r).pc = .waiting ∧ Gone s r
  latest : ∀ m, m + 1 ≠ s.nextMon → (s.mon m).inactive = true
  early : ∀ r m, (s.cli r).pc = .assign m → s.ctor = .done
  assign : ∀ r m, (s.cli r).pc = .assign m → m + 1 = s.nextMon ∧ s.monitor ≠ some m

theorem awaited_init {writer : Option ℕ} (hw : ∀ w ∈ writer, w = 0) (file : Bool) :
    Awaited (init writer file) where
  server _ := Nat.zero_lt_one
  writer w h := by
    rw [hw w h]
    exact Nat.zero_lt_one
  unheard _ _ := Or.inl rfl
  waiting _ h := by cases h
  wait _ _ h := by cases h
  join _ _ h := by cases h
  latest _ _ := rfl
  early _ _ h := by cases h
  assign _ _ h := by cases h

theorem nextWriter_le_of_step (hst : s.step a = some t) : s.nextWriter ≤ t.nextWriter := by
  cases trans_of_step hst with
  | writerStart => exact Nat.le_succ _
  | _ => exact Nat.le_refl _

/-- A server that has gone does not come back. -/
theorem gone_of_step (hserver : (s.cli r).server < s.nextWriter) (hst : s.step a = some t) (hr : r < s.nextRd)
    (h : Gone s r) : Gone t r := by
  have hsame := (kept_of_step hst hr).server
  unfold Gone
  rw [hsame]
  cases trans_of_step hst with
  | writerStart =>
      intro heq
      have heq : s.nextWriter = (s.cli r).server := Option.some.inj heq
      omega
  | writerStop | writerCrash => simp
  | _ => exact h

/-- A reader is connected when it has heard the connect message. -/
theorem connected_cases (hst : s.step a = some t) (h : (t.cli r).connected = true) :
    (s.cli r).connected = true ∨ a = .onConnect r := by
  have hnew (pc : ClientPc) (w : ℕ) (h : ((s.newReader pc w).cli r).connected = true) :
      (s.cli r).connected = true := by
    rw [newReader_cli] at h
    split at h
    · cases h
    · exact h
  cases trans_of_step hst with
  | ctorRefused => exact Or.inl (hnew _ _ h)
  | ctorConnect => exact Or.inl (hnew _ _ h)
  | connect => exact Or.inl (hnew _ _ h)
  | refused => exact Or.inl (hnew _ _ ((resetReader_cli _ (some s.nextRd) r).2 ▸ h))
  | @made m r' => exact Or.inl ((resetReader_cli s (some r') r).2 ▸ h)
  | @joined m r' => exact Or.inl ((resetReader_cli s (some r') r).2 ▸ h)
  | dtorLockReader => exact Or.inl ((resetReader_cli s none r).2 ▸ h)
  | @onConnect r' =>
      rw [hearConnect_connected] at h
      split at h
      · next heq => exact Or.inr (by rw [heq])
      · exact Or.inl h
  | onDisconnect | abandoned | cbTest => exact Or.inl ((setCli_connected ..) ▸ h)
  | @cbStore r' => exact Or.inl ((setCli_connected s r' r .lockMonitor) ▸ h)
  | @cbAssign r' => exact Or.inl ((setCli_connected s r' r .user) ▸ h)
  | @cbUser r' => exact Or.inl ((setCli_connected s r' r .ended) ▸ h)
  | @cbAsync r' => exact Or.inl ((setCli_connected s.async r' r (.assign s.nextMon)) ▸ h)
  | _ => exact Or.inl h

theorem nextMon_of_step (hst : s.step a = some t) :
    (a.starts = false ∧ t.nextMon = s.nextMon) ∨ (a.starts = true ∧ t.nextMon = s.nextMon + 1) := by
  cases trans_of_step hst with
  | ctorAsync | cbAsync => exact Or.inr ⟨rfl, rfl⟩
  | _ => exact Or.inl ⟨rfl, rfl⟩

/-- A monitor is started when all the others are inactive, and by a callback only when the constructor is done. -/
theorem inactive_of_starts (hphase : Phase s) (htoken : s.ctor ≠ .done → Token s) (hst : s.step a = some t)
    (ha : a.starts = true) : (∀ m, (s.mon m).inactive = true) ∧ (a = .ctorAsync ∨ s.ctor = .done) := by
  cases trans_of_step hst with
  | ctorAsync hc =>
      refine ⟨?_, Or.inl rfl⟩
      rcases htoken (by simp [hc]) with h | ⟨r, h⟩ | ⟨r, h⟩ | ⟨m, h⟩
      · exact h.mon
      · have hctor := h.ctor
        simp [hc] at hctor
      · have hctor := h.ctor
        simp [hc] at hctor
      · have hctor := h.ctor
        simp [hc] at hctor
  | @cbAsync r hr =>
      refine ⟨inactive_of_lockMonitor hphase hr, Or.inr ?_⟩
      by_contra hctor
      have hbusy : (s.cli r).pc.busy = true := by rw [hr]; rfl
      rcases htoken hctor with h | ⟨q, h⟩ | ⟨q, h⟩ | ⟨m, h⟩
      · rw [h.none r] at hbusy
        cases hbusy
      · obtain rfl := h.eq_of_busy hbusy
        have hlinked := h.linked
        rw [hr] at hlinked
        cases hlinked
      · exact hctor h.ctor
      · rw [h.none r] at hbusy
        cases hbusy
  | _ => cases ha

/-- The constructor of the follower goes on waiting for a reader that has not connected, or gives it up. -/
theorem awaits_of_ctor (hst : s.step a = some t) (hc : s.ctor = .wait r) (hconn : (s.cli r).connected = false) :
    t.ctor = .wait r ∨ t.ctor = .join r := by
  cases trans_of_step hst with
  | ctorCheck hc' | ctorRefused hc' | ctorConnect _ hc' | ctorJoined hc' | ctorAsync hc' | ctorAssign hc' =>
      rw [hc] at hc'
      cases hc'
  | ctorMade hc' hheard =>
      rw [hc] at hc'
      cases hc'
      rw [hconn] at hheard
      cases hheard
  | ctorTimeout hc' =>
      rw [hc] at hc'
      cases hc'
      exact Or.inr rfl
  | _ => exact Or.inl hc

namespace Awaited

theorem server_step (h : Awaited s) (hst : s.step a = some t) (r : ℕ) : (t.cli r).server < t.nextWriter := by
  refine Nat.lt_of_lt_of_le ?_ (nextWriter_le_of_step hst)
  rcases kept_or_new hst r with hkept | ⟨-, hzero | hw⟩
  · rw [hkept.server]
    exact h.server r
  · rw [hzero]
    exact Nat.zero_lt_of_lt (h.server r)
  · exact h.writer _ hw

theorem writer_step (h : Awaited s) (hst : s.step a = some t) (w : ℕ) (hw : t.writer = some w) :
    w < t.nextWriter := by
  have hle := nextWriter_le_of_step hst
  cases trans_of_step hst with
  | writerStart =>
      obtain rfl : s.nextWriter = w := Option.some.inj hw
      exact Nat.lt_succ_self _
  | writerStop | writerCrash => cases hw
  | _ => exact Nat.lt_of_lt_of_le (h.writer w hw) hle

theorem unheard_step (h : Awaited s) (hf : Fresh s) (hst : s.step a = some t) (r : ℕ)
    (hr : (t.cli r).connected = false) :
    (t.cli r).pc = .absent ∨ (t.cli r).pc = .waiting ∨ (t.cli r).pc = .ended := by
  have hmove := clientMove_of_step hst r
  have hold : (s.cli r).pc = .absent ∨ (s.cli r).pc = .waiting ∨ (s.cli r).pc = .ended := by
    by_cases hlt : r < s.nextRd
    · refine h.unheard r ?_
      by_contra hconn
      rw [connected_of_step hst hlt (by simpa using hconn)] at hr
      cases hr
    · exact Or.inl (hf.cli r (by omega))
  generalize (s.cli r).pc = pc at *
  generalize hpc' : (t.cli r).pc = pc' at *
  cases hmove with
  | stay => exact hold
  | new _ hpc => exact Or.inr hpc
  | onConnect =>
      cases trans_of_step hst with
      | onConnect =>
          rw [hearConnect_connected, if_pos rfl] at hr
          cases hr
  | abandoned => exact Or.inr (Or.inr rfl)
  | onDisconnect | cbTest | cbStore | cbAsync | cbAssign | cbUser => simp at hold

theorem waiting_step (h : Awaited s) (hf : Fresh s) (hok : Answered s a) (hst : s.step a = some t) (r : ℕ)
    (hr : (t.cli r).pc = .waiting) :
    (t.cli r).connected = false ∧ (Awaits t r ∨ Gone t r ∨ t.ctor = .join r) := by
  have hmove := clientMove_of_step hst r
  rw [hr] at hmove
  have hnot : a ≠ .onConnect r := by
    rintro rfl
    cases trans_of_step hst with
    | onConnect =>
        rw [hearConnect_pc, if_pos rfl] at hr
        cases hr
  by_cases hlt : r < s.nextRd
  · have hold : (s.cli r).pc = .waiting := by
      generalize (s.cli r).pc = pc at *
      cases hmove with
      | stay => rfl
      | new hnew => omega
      | cbTest hpc => rcases hpc with h | h <;> cases h
    obtain ⟨hconn, hwait⟩ := h.waiting r hold
    refine ⟨?_, ?_⟩
    · by_contra hheard
      rcases connected_cases hst (by simpa using hheard) with hheard | rfl
      · rw [hconn] at hheard
        cases hheard
      · exact hnot rfl
    · rcases hwait with (hc | ⟨m, hm, hwait⟩) | hgone | hc
      · exact (awaits_of_ctor hst hc hconn).elim (fun hc => Or.inl (Or.inl hc)) fun hc => Or.inr (Or.inr hc)
      · have hmon := monitorMove_of_step hst m
        rw [hwait] at hmon
        generalize hpc : t.mon m = pc at hmon
        cases hmon with
        | stay => exact Or.inl (Or.inr ⟨m, Nat.lt_of_lt_of_le hm (nextMon_le_of_step hst), hpc⟩)
        | new hnew => omega
        | made =>
            cases trans_of_step hst with
            | made _ hheard =>
                rw [hconn] at hheard
                cases hheard
        | timeout => exact Or.inr (Or.inl (gone_of_step (h.server r) hst hlt hok))
      · exact Or.inr (Or.inl (gone_of_step (h.server r) hst hlt hgone))
      · refine Or.inr (Or.inr ?_)
        cases trans_of_step hst with
        | ctorCheck hc' | ctorRefused hc' | ctorConnect _ hc' | ctorMade hc' | ctorTimeout hc' | ctorAsync hc'
        | ctorAssign hc' =>
            rw [hc] at hc'
            cases hc'
        | ctorJoined hc' hended =>
            rw [hc] at hc'
            cases hc'
            rw [hold] at hended
            cases hended
        | _ => exact hc
  · -- the reader is made in this step
    have hlt' : r < t.nextRd := by
      by_contra hge
      rw [(fresh_of_step hf hst).cli r (by omega)] at hr
      cases hr
    have hnew (h : r < s.nextRd + 1) : r = s.nextRd := by omega
    cases trans_of_step hst with
    | ctorRefused =>
        have hpc : ((s.newReader .ended 0).cli r).pc = .ended := by rw [newReader_cli, if_pos (hnew hlt')]
        cases hpc.symm.trans hr
    | refused =>
        have hpc : (((s.newReader .ended 0).resetReader (some s.nextRd)).cli r).pc = .ended := by
          rw [(resetReader_cli ..).1, newReader_cli, if_pos (hnew hlt')]
        cases hpc.symm.trans hr
    | @ctorConnect w =>
        obtain rfl := hnew hlt'
        refine ⟨?_, Or.inl (Or.inl rfl)⟩
        show ((s.newReader .waiting w).cli s.nextRd).connected = false
        rw [newReader_cli, if_pos rfl]
    | @connect m w _ hm =>
        obtain rfl := hnew hlt'
        refine ⟨?_, Or.inl (Or.inr ⟨m, ?_, (setMon_mon ..).trans (if_pos rfl)⟩)⟩
        · show ((s.newReader .waiting w).cli s.nextRd).connected = false
          rw [newReader_cli, if_pos rfl]
        · show m < s.nextMon
          by_contra hge
          rw [hf.mon m (by omega)] at hm
          cases hm
    | _ => exact absurd hlt' hlt

/-- A client thread that waits goes on waiting, hears the connect message, or ends with its server gone. -/
theorem waiting_cases (hst : s.step a = some t) (hlt : r < s.nextRd) (hr : (s.cli r).pc = .waiting) :
    (t.cli r).pc = .waiting ∨ a = .onConnect r ∧ (t.cli r).connected = true ∨
      (t.cli r).pc = .ended ∧ Gone s r := by
  have hmove := clientMove_of_step hst r
  rw [hr] at hmove
  generalize hpc : (t.cli r).pc = pc' at *
  cases hmove with
  | stay => exact Or.inl rfl
  | new hnew => omega
  | onConnect =>
      refine Or.inr (Or.inl ⟨rfl, ?_⟩)
      cases trans_of_step hst with
      | onConnect => rw [hearConnect_connected, if_pos rfl]
  | abandoned =>
      refine Or.inr (Or.inr ⟨rfl, ?_⟩)
      cases trans_of_step hst with
      | abandoned _ hgone => exact hgone

theorem wait_step (h : Awaited s) (hk : Known s) (hst : s.step a = some t) (m r : ℕ) (hm : t.mon m = .wait r) :
    (t.cli r).connected = true ∨ (t.cli r).pc = .waiting ∨ Gone t r := by
  have hmove := monitorMove_of_step hst m
  rw [hm] at hmove
  generalize hpc : s.mon m = pc at hmove
  cases hmove with
  | stay =>
      have hlt := hk.monReader m r (Or.inl hpc)
      have hgone (hg : Gone s r) : Gone t r := gone_of_step (h.server r) hst hlt hg
      rcases h.wait m r hpc with hconn | hr | hg
      · exact Or.inl (connected_of_step hst hlt hconn)
      · rcases waiting_cases hst hlt hr with hr | ⟨-, hconn⟩ | ⟨-, hg⟩
        · exact Or.inr (Or.inl hr)
        · exact Or.inl hconn
        · exact Or.inr (Or.inr (hgone hg))
      · exact Or.inr (Or.inr (hgone hg))
  | connect =>
      refine Or.inr (Or.inl ?_)
      cases trans_of_step hst with
      | @connect _ w =>
          show ((s.newReader .waiting w).cli s.nextRd).pc = .waiting
          rw [newReader_cli, if_pos rfl]
  | load hpc | check hpc | dropped hpc => rcases hpc with h | h <;> cases h

/-- A reader that a monitor has given up is not waited for by anybody else. -/
theorem not_awaits (h : Awaited s) (htoken : s.ctor ≠ .done → Token s) (hm : s.mon m = .join r) :
    ¬ Awaits s r := by
  rintro (hc | ⟨m', -, hwait⟩)
  · rcases htoken (by simp [hc]) with h | ⟨q, h⟩ | ⟨q, h⟩ | ⟨q, h⟩
    · exact not_inactive_of_eq (h.mon m) hm rfl
    · exact h.past_of_eq hm
    · cases hc.symm.trans h.ctor
    · have hctor := h.ctor
      simp [hc] at hctor
  · -- at most the last monitor is active
    have hlast {k : ℕ} {pc : MonitorPc} (hk : s.mon k = pc) (hpc : pc.inactive = false) : k + 1 = s.nextMon := by
      by_contra hne
      exact not_inactive_of_eq (h.latest k hne) hk hpc
    have h1 := hlast hm rfl
    have h2 := hlast hwait rfl
    obtain rfl : m = m' := by omega
    cases hm.symm.trans hwait

theorem join_step (h : Awaited s) (hk : Known s) (htoken : s.ctor ≠ .done → Token s) (hok : Orderly s a)
    (hst : s.step a = some t) (m r : ℕ) (hm : t.mon m = .join r) :
    (t.cli r).pc = .ended ∨ (t.cli r).pc = .waiting ∧ Gone t r := by
  have hmove := monitorMove_of_step hst m
  rw [hm] at hmove
  generalize hpc : s.mon m = pc at hmove
  cases hmove with
  | stay =>
      have hlt := hk.monReader m r (Or.inr hpc)
      rcases h.join m r hpc with hended | ⟨hr, hg⟩
      · have hmove := clientMove_of_step hst r
        rw [hended] at hmove
        generalize (t.cli r).pc = pc' at *
        cases hmove with
        | stay => exact Or.inl rfl
        | new hnew => omega
      · rcases waiting_cases hst hlt hr with hr | ⟨rfl, -⟩ | ⟨hended, -⟩
        · exact Or.inr ⟨hr, gone_of_step (h.server r) hst hlt hg⟩
        · exact absurd hok.2.1.1 (h.not_awaits htoken hpc)
        · exact Or.inl hended
  | timeout hconn =>
      have hlt := hk.monReader m r (Or.inl hpc)
      have hpc' : (t.cli r).pc = (s.cli r).pc := by
        cases trans_of_step hst with
        | timeout => rfl
      rw [hpc']
      rcases h.unheard r hconn with habsent | hr | hended
      · exact absurd habsent (hk.created r hlt)
      · exact Or.inr ⟨hr, gone_of_step (h.server r) hst hlt hok.2.2⟩
      · exact Or.inl hended
  | load hpc | check hpc | dropped hpc => rcases hpc with h | h <;> cases h

theorem latest_step (h : Awaited s) (hphase : Phase s) (htoken : s.ctor ≠ .done → Token s)
    (hst : s.step a = some t) (m : ℕ) (hm : m + 1 ≠ t.nextMon) : (t.mon m).inactive = true := by
  by_contra hactive
  have hactive : (t.mon m).inactive = false := by simpa using hactive
  rcases active_of_step hst hactive with hold | ⟨hstarts, rfl⟩
  · rcases nextMon_of_step hst with ⟨-, hnext⟩ | ⟨hstarts, -⟩
    · rw [h.latest m (hnext ▸ hm)] at hold
      cases hold
    · rw [(inactive_of_starts hphase htoken hst hstarts).1 m] at hold
      cases hold
  · rcases nextMon_of_step hst with ⟨hnot, -⟩ | ⟨-, hnext⟩
    · rw [hstarts] at hnot
      cases hnot
    · exact hm hnext.symm

theorem early_step (h : Awaited s) (hphase : Phase s) (htoken : s.ctor ≠ .done → Token s)
    (hst : s.step a = some t) (r m : ℕ) (hr : (t.cli r).pc = .assign m) : t.ctor = .done := by
  have hdone (hc : s.ctor = .done) : t.ctor = .done := by
    by_contra hne
    exact Sessions.ctor_of_step hst hne hc
  rcases assign_of_step hst hr with hold | ⟨rfl, -⟩
  · exact hdone (h.early r m hold)
  · exact hdone ((inactive_of_starts hphase htoken hst rfl).2.resolve_left (by simp))

/-- The monitor that a callback has started is the last one, and not yet in `monitor_`. -/
theorem assign_step (h : Awaited s) (hk : Known s) (hl : Locks s) (hst : s.step a = some t) (r m : ℕ)
    (hr : (t.cli r).pc = .assign m) : m + 1 = t.nextMon ∧ t.monitor ≠ some m := by
  rcases assign_of_step hst hr with hold | ⟨rfl, rfl⟩
  · have hmtx := hl.assign r m hold
    have hctor := h.early r m hold
    obtain ⟨hlast, hne⟩ := h.assign r m hold
    cases trans_of_step hst with
    | ctorCheck hc | ctorRefused hc | ctorConnect _ hc | ctorMade hc | ctorTimeout hc | ctorJoined hc
    | ctorAsync hc | ctorAssign hc => exact (not_ctor hctor hc (by simp)).elim
    | cbAsync _ hnone =>
        rw [hmtx] at hnone
        cases hnone
    | @cbAssign r' m' hr' =>
        -- only one client thread holds the mutex
        have hmtx' := hl.assign r' m' hr'
        rw [hmtx] at hmtx'
        cases hmtx'
        rw [show _ = _ from setCli_pc s r r .user, if_pos rfl] at hr
        cases hr
    | dtorGet => exact ⟨hlast, by simp⟩
    | _ => exact ⟨hlast, hne⟩
  · cases trans_of_step hst with
    | cbAsync => exact ⟨rfl, fun hmon => (hk.monitor _ hmon).ne rfl⟩

theorem step (h : Awaited s) (hf : Fresh s) (hk : Known s) (hl : Locks s) (hphase : Phase s)
    (htoken : s.ctor ≠ .done → Token s) (hok : Orderly s a) (hst : s.step a = some t) : Awaited t where
  server := h.server_step hst
  writer := h.writer_step hst
  unheard := h.unheard_step hf hst
  waiting := h.waiting_step hf hok.2.2 hst
  wait := h.wait_step hk hst
  join := h.join_step hk htoken hok hst
  latest := h.latest_step hphase htoken hst
  early := h.early_step hphase htoken hst
  assign := h.assign_step hk hl hst

end Awaited

/-! ### Orderly runs -/

/-- What holds in every state of an orderly run. -/
structure Proper (s : Follower) : Prop where
  flags : Flags s
  inv : Inv s
  phase : Phase s
  locks : Locks s
  known : Known s
  awaited : Awaited s

theorem proper_init {writer : Option ℕ} (hw : ∀ w ∈ writer, w = 0) (file : Bool) :
    Proper (init writer file) where
  flags := flags_init writer file
  inv := inv_init writer file
  phase := Phase.of_token (token_init writer file)
  locks := locks_init writer file
  known := known_init writer file
  awaited := awaited_init hw file

namespace Proper

/-- The destructor begins when the constructor is done. -/
theorem token (h : Proper s) (hctor : s.ctor ≠ .done) : Token s := by
  refine h.inv.token ?_
  by_contra hd
  exact hctor (h.flags.begun hd).2

theorem phase_step (h : Proper s) (hok : InTurn s a) (hst : s.step a = some t) : Phase t := by
  by_cases hd : s.dtor = .idle
  · by_cases hd' : t.dtor = .idle
    · exact Phase.of_token ((inv_step h.inv hok hst).token hd')
    · cases trans_of_step hst with
      | dtorBegin => exact (still_of_step hst rfl).phase h.phase
      | dtorStore hc | dtorLockMonitor hc | dtorGet hc | dtorLockReader hc | dtorDropped hc | dtorMembers hc =>
          rw [hd] at hc
          cases hc
      | _ => exact absurd hd hd'
  · obtain ⟨hdes, hctor⟩ := h.flags.begun hd
    exact h.phase.step h.flags.fresh hctor hdes (fun r hr => (h.awaited.waiting r hr).1) hok hst

theorem step (h : Proper s) (hok : Orderly s a) (hst : s.step a = some t) : Proper t where
  flags := h.flags.step hok.1 hst
  inv := inv_step h.inv hok.2.1 hst
  phase := h.phase_step hok.2.1 hst
  locks := h.locks.step h.flags.fresh hst
  known := h.known.step hst
  awaited := h.awaited.step h.flags.fresh h.known h.locks h.phase h.token hok hst

end Proper

theorem proper_of_exec (hs : Proper s) (h : exec (restrict step Orderly) s as = some t) : Proper t := by
  refine exec_invariant (fun s a t hs hst => ?_) h hs
  obtain ⟨hok, hst⟩ := restrict_eq_some.1 hst
  exact hs.step hok hst

/-! ### The waits do not form a circle -/

/-- No thread can move. -/
def Settled (s : Follower) : Prop := ∀ a, a.own = true → restrict step Orderly s a = none

/-- The steps that the condition on runs says nothing about. -/
def Act.plain : Act → Bool
  | .dtorStore | .onConnect _ | .cbStore _ | .timeout _ _ => false
  | _ => true

theorem orderly_of_plain (ha : a.plain = true) : Orderly s a := by
  cases a with
  | dtorStore | onConnect | cbStore | timeout => cases ha
  | _ => exact ⟨by simp [Heeded], ⟨trivial, by simp [Act.storesFalse]⟩, trivial⟩

namespace Proper

/-- The monitor in `monitor_` has ended if it is inactive. -/
theorem ready (h : Proper s) (hm : ∀ m, s.monitor = some m → (s.mon m).inactive = true) : s.Ready := by
  intro m hmon
  have hinactive := hm m hmon
  have hstarted := h.known.started m (h.known.monitor m hmon)
  cases hpc : s.mon m with
  | done => rfl
  | absent => exact absurd hpc hstarted
  | _ =>
      rw [hpc] at hinactive
      cases hinactive

theorem not_enabled (hset : Settled s) (hown : a.own = true) (hok : Orderly s a) (hst : s.step a = some t) :
    False := by
  have hnone := hset a hown
  rw [restrict_eq_some.2 ⟨hok, hst⟩] at hnone
  cases hnone

/-- No callback waits for a monitor. -/
theorem not_assign_of_settled (h : Proper s) (hset : Settled s) (m : ℕ) : (s.cli r).pc ≠ .assign m := by
  intro hr
  obtain ⟨hlast, hne⟩ := h.awaited.assign r m hr
  -- the monitor that it waits for is not the last one
  have hready : s.Ready := h.ready fun m' hm' => h.awaited.latest m' fun hlast' => by
    obtain rfl : m' = m := by omega
    exact hne hm'
  exact not_enabled hset (a := .cbAssign r m) rfl (orderly_of_plain rfl) (if_pos ⟨hr, hready⟩)

/-- The mutex of `monitor_` is free, or the destructor has it and waits for the monitor. -/
theorem monitorMtx_of_settled (h : Proper s) (hset : Settled s) : s.monitorMtx = none ∨ s.dtor = .get := by
  cases hmtx : s.monitorMtx with
  | none => exact Or.inl rfl
  | some th =>
      have hholds := h.locks.monitor th hmtx
      cases th with
      | user => exact Or.inr hholds
      | monitor m => exact hholds.elim
      | client r =>
          obtain ⟨m, hr⟩ := hholds
          exact absurd hr (h.not_assign_of_settled hset m)

theorem not_lockMonitor_of_settled (h : Proper s) (hset : Settled s) : (s.cli r).pc ≠ .lockMonitor := by
  intro hr
  rcases h.monitorMtx_of_settled hset with hmtx | hget
  · exact not_enabled hset (a := .cbAsync r) rfl (orderly_of_plain rfl) (if_pos ⟨hr, hmtx⟩)
  · -- no monitor is active that the destructor could wait for
    have hready := h.ready fun m _ => inactive_of_lockMonitor h.phase hr m
    exact not_enabled hset (a := .dtorGet) rfl (orderly_of_plain rfl) (if_pos ⟨hget, hready⟩)

theorem not_waiting_of_settled (h : Proper s) (hd : s.dtor.stored = true) (hset : Settled s) :
    (s.cli r).pc ≠ .waiting := by
  intro hr
  have hctor : s.ctor = .done := (h.flags.begun fun hidle => by rw [hidle] at hd; cases hd).2
  rcases (h.awaited.waiting r hr).2 with hawaits | hgone | hjoin
  · have hok : Orderly s (.onConnect r) := ⟨by simp [Heeded], ⟨hawaits, by simp [Act.storesFalse]⟩, trivial⟩
    exact not_enabled hset rfl hok (if_pos hr)
  · exact not_enabled hset (a := .abandoned r) rfl (orderly_of_plain rfl) (if_pos ⟨hr, hgone⟩)
  · exact not_ctor hctor hjoin (by simp)

/-- A reader that is told to quit has ended. -/
theorem ended_of_settled (h : Proper s) (hd : s.dtor.stored = true) (hset : Settled s) (hlt : r < s.nextRd)
    (hquit : (s.cli r).quitting = true) : (s.cli r).pc = .ended := by
  cases hr : (s.cli r).pc with
  | ended => rfl
  | absent => exact absurd hr (h.known.created r hlt)
  | waiting => exact absurd hr (h.not_waiting_of_settled hd hset)
  | live =>
      exact (not_enabled hset (a := .onDisconnect r) rfl (orderly_of_plain rfl) (if_pos ⟨hr, Or.inr hquit⟩)).elim
  | test => exact (not_enabled hset (a := .cbTest r) rfl (orderly_of_plain rfl) (if_pos hr)).elim
  | store => exact absurd hr ((h.flags.stored hd).2 r)
  | lockMonitor => exact absurd hr (h.not_lockMonitor_of_settled hset)
  | assign m => exact absurd hr (h.not_assign_of_settled hset m)
  | user => exact (not_enabled hset (a := .cbUser r) rfl (orderly_of_plain rfl) (if_pos hr)).elim

/-- The destructor does not hold the mutex of `reader_`. -/
theorem not_drop_of_settled (h : Proper s) (hd : s.dtor.stored = true) (hset : Settled s) (old : Option ℕ) :
    s.dtor ≠ .drop old := by
  intro hdrop
  have hjoined : s.Joined old := by
    rintro o rfl
    obtain ⟨hlt, hquit⟩ := h.known.dropping o hdrop
    exact h.ended_of_settled hd hset hlt hquit
  exact not_enabled hset (a := .dtorDropped old) rfl (orderly_of_plain rfl) (if_pos ⟨hdrop, hjoined⟩)

/-- Every monitor has left its loop. -/
theorem inactive_of_settled (h : Proper s) (hd : s.dtor.stored = true) (hset : Settled s) (m : ℕ) :
    (s.mon m).inactive = true := by
  cases hm : s.mon m with
  | absent | done => rfl
  | load => exact (not_enabled hset (a := .load m) rfl (orderly_of_plain rfl) (if_pos hm)).elim
  | check => exact (not_enabled hset (a := .check m) rfl (orderly_of_plain rfl) (if_pos hm)).elim
  | new => exact (not_enabled hset (a := .refused m) rfl (orderly_of_plain rfl) (if_pos hm)).elim
  | store => exact (not_enabled hset (a := .store m) rfl (orderly_of_plain rfl) (if_pos hm)).elim
  | clear => exact (not_enabled hset (a := .clear m) rfl (orderly_of_plain rfl) (if_pos hm)).elim
  | last => exact (not_enabled hset (a := .last m) rfl (orderly_of_plain rfl) (if_pos hm)).elim
  | wait r =>
      by_cases hconn : (s.cli r).connected = true
      · exact (not_enabled hset (a := .made m r) rfl (orderly_of_plain rfl) (if_pos ⟨hm, hconn⟩)).elim
      · have hgone : Gone s r := by
          rcases h.awaited.wait m r hm with hheard | hr | hgone
          · exact absurd hheard hconn
          · exact absurd hr (h.not_waiting_of_settled hd hset)
          · exact hgone
        have hok : Orderly s (.timeout m r) := ⟨by simp [Heeded], ⟨trivial, by simp [Act.storesFalse]⟩, hgone⟩
        exact (not_enabled hset rfl hok (if_pos ⟨hm, by simpa using hconn⟩)).elim
  | join r =>
      have hended : (s.cli r).pc = .ended := by
        refine (h.awaited.join m r hm).resolve_right fun hr => ?_
        exact h.not_waiting_of_settled hd hset hr.1
      exact (not_enabled hset (a := .joined m r) rfl (orderly_of_plain rfl) (if_pos ⟨hm, hended⟩)).elim
  | drop old valid =>
      have hjoined : s.Joined old := by
        rintro o rfl
        obtain ⟨hlt, hquit⟩ := h.known.dropped m o valid hm
        exact h.ended_of_settled hd hset hlt hquit
      exact (not_enabled hset (a := .dropped m old valid) rfl (orderly_of_plain rfl) (if_pos ⟨hm, hjoined⟩)).elim
  | lockReader =>
      cases hmtx : s.readerMtx with
      | none => exact (not_enabled hset (a := .lockReader m) rfl (orderly_of_plain rfl) (if_pos ⟨hm, hmtx⟩)).elim
      | some th =>
          have hholds := h.locks.reader th hmtx
          cases th with
          | user =>
              obtain ⟨old, hdrop⟩ := hholds
              exact absurd hdrop (h.not_drop_of_settled hd hset old)
          | client r => exact hholds.elim
          | monitor m' =>
              -- both monitors would be the last one
              have hlast {k : ℕ} (hk : (s.mon k).inactive = false) : k + 1 = s.nextMon := by
                by_contra hne
                rw [h.awaited.latest k hne] at hk
                cases hk
              have h1 := hlast (k := m) (by rw [hm]; rfl)
              have h2 := hlast (inactive_of_constructs hholds)
              obtain rfl : m = m' := by omega
              have hholds : (s.mon m).constructs = true := hholds
              rw [hm] at hholds
              cases hholds

/-- **The waits do not form a circle**: when no thread can move, the destructor is done and no monitor is left. -/
theorem done_of_settled (h : Proper s) (hd : s.dtor.stored = true) (hset : Settled s) :
    s.dtor = .done ∧ ∀ m, (s.mon m).inactive = true := by
  have hinactive := h.inactive_of_settled hd hset
  have hready : s.Ready := h.ready fun m _ => hinactive m
  refine ⟨?_, hinactive⟩
  cases hdtor : s.dtor with
  | done => rfl
  | idle | store =>
      rw [hdtor] at hd
      cases hd
  | lockMonitor =>
      rcases h.monitorMtx_of_settled hset with hmtx | hget
      · exact (not_enabled hset (a := .dtorLockMonitor) rfl (orderly_of_plain rfl) (if_pos ⟨hdtor, hmtx⟩)).elim
      · cases hdtor.symm.trans hget
  | get => exact (not_enabled hset (a := .dtorGet) rfl (orderly_of_plain rfl) (if_pos ⟨hdtor, hready⟩)).elim
  | lockReader =>
      have hmtx : s.readerMtx = none := by
        by_contra hne
        obtain ⟨th, hth⟩ := Option.ne_none_iff_exists'.1 hne
        have hholds := h.locks.reader th hth
        cases th with
        | user =>
            obtain ⟨old, hdrop⟩ := hholds
            cases hdtor.symm.trans hdrop
        | client r => exact hholds.elim
        | monitor m =>
            have hactive := inactive_of_constructs hholds
            rw [hinactive m] at hactive
            cases hactive
      exact (not_enabled hset (a := .dtorLockReader) rfl (orderly_of_plain rfl) (if_pos ⟨hdtor, hmtx⟩)).elim
  | drop old => exact absurd hdtor (h.not_drop_of_settled hd hset old)
  | members => exact (not_enabled hset (a := .dtorMembers) rfl (orderly_of_plain rfl) (if_pos ⟨hdtor, hready⟩)).elim

/-- Some orderly run leads to a state in which no thread can move. -/
theorem settles (h : Proper s) (hd : s.dtor.stored = true) :
    ∃ bs t, exec (restrict Follower.step Orderly) s bs = some t ∧ Settled t := by
  have hmove (s : Follower) (hs : Proper s ∧ s.dtor.stored = true) (hset : ¬ Settled s) :
      ∃ a t, restrict Follower.step Orderly s a = some t ∧ (Proper t ∧ t.dtor.stored = true) ∧ t.rank < s.rank := by
    unfold Settled at hset
    push Not at hset
    obtain ⟨a, hown, ha⟩ := hset
    obtain ⟨t, ht⟩ := Option.ne_none_iff_exists'.1 ha
    obtain ⟨hok, hst⟩ := restrict_eq_some.1 ht
    have hrank := rank_of_step hs.1.flags hs.2 hst
    rw [if_pos hown] at hrank
    exact ⟨a, t, ht, ⟨hs.1.step hok hst, stored_of_step hs.2 hst⟩, hrank⟩
  obtain ⟨bs, t, hrun, -, hset⟩ := exec_of_rank rank hmove ⟨h, hd⟩
  exact ⟨bs, t, hrun, hset⟩

end Proper

/-! ### The theorem -/

/-- Before the first step of the constructor, with or without a writer, and with or without a socket at the
path. -/
def start (alive file : Bool) : Follower := init (if alive then some 0 else none) file

theorem proper_of_start {alive file : Bool} (h : exec (restrict step Orderly) (start alive file) as = some s) :
    Proper s := by
  refine proper_of_exec (proper_init (fun w hw => ?_) file) h
  cases alive with
  | true => exact (Option.some.inj hw).symm
  | false => cases hw

theorem stored_of_exec (hd : s.dtor.stored = true) (h : exec step s bs = some t) : t.dtor.stored = true :=
  exec_invariant (P := fun s => s.dtor.stored = true) (fun _ _ _ hd hst => stored_of_step hd hst) h hd

/-- **A follower that is destroyed stops.**  In every run whose destructor stores `true` in `quit_` when no callback
is between its test and its store, and in every state behind this store, `quit_` is `true`, and however long the
writers go on, all threads together make a bounded number of steps.  If the run is orderly and goes on so, then the
destructor is done and all monitors have left their loops when no thread can move. -/
theorem stops_of_heeded {alive file : Bool} (h : exec (restrict step Heeded) (start alive file) as = some s)
    (hd : s.dtor.stored = true) :
    s.quit = true ∧ (∃ N, ∀ bs t, exec step s bs = some t → bs.countP Act.own ≤ N) ∧
      (exec (restrict step Orderly) (start alive file) as = some s →
        ∀ bs t, exec (restrict step Orderly) s bs = some t → Settled t →
          t.dtor = .done ∧ ∀ m, (t.mon m).inactive = true) := by
  have hflags := flags_of_exec h
  refine ⟨(hflags.stored hd).1, ⟨s.rank, fun bs t hrun => countP_own_le hflags hd hrun⟩, ?_⟩
  intro horderly bs t hrun hset
  have hproper := proper_of_exec (proper_of_start horderly) hrun
  exact hproper.done_of_settled (stored_of_exec hd (exec_of_restrict hrun)) hset

/-- The writer goes away, its callback has started the next monitor, and then the destructor sets both flags. -/
def heededEnd : List Act :=
  [.store 0, .load 0, .last 0, .writerStop, .onDisconnect 0, .cbTest 0, .cbStore 0, .cbAsync 0, .dtorBegin,
    .dtorStore, .cbAssign 0 1]

/-- The new monitor leaves its loop without having found a writer, and the destructor ends. -/
theorem heededEnd_stops :
    ∃ s, exec (restrict step Heeded) (start false false) (firstConnection ++ heededEnd) = some s ∧
      s.dtor = .lockMonitor ∧ s.quit = true ∧ s.mon 1 = .load ∧
      ∃ bs t, exec (restrict step Orderly) s bs = some t ∧ t.dtor = .done ∧ ∀ m, (t.mon m).inactive = true := by
  have hrun : ((exec (restrict step Orderly) (start false false) (firstConnection ++ heededEnd)).any
      fun s => s.dtor = .lockMonitor ∧ s.mon 1 = .load) = true := by
    decide +kernel
  obtain ⟨s, hs, hrun⟩ := (Option.any_eq_true _ _).1 hrun
  obtain ⟨hdtor, hmon⟩ := of_decide_eq_true hrun
  have hheeded : exec (restrict step Heeded) (start false false) (firstConnection ++ heededEnd) = some s :=
    exec_restrict_mono (fun _ _ hok => hok.1) hs
  have hd : s.dtor.stored = true := by rw [hdtor]; rfl
  obtain ⟨hquit, -, hdone⟩ := stops_of_heeded hheeded hd
  obtain ⟨bs, t, hend, hset⟩ := (proper_of_start hs).settles hd
  exact ⟨s, hheeded, hdtor, hquit, hmon, bs, t, hend, hdone hs bs t hend hset⟩

end Follower

end Shmdata

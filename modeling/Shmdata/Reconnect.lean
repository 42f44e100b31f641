/-
**A follower keeps its ability to reconnect, unless `quit_` is stored in the wrong order.**

The flag `quit_` is shared by all the monitors of a follower.  A monitor that has made a valid `Reader`
stores `true` twice, once in its loop and once after it, and the disconnect callback of that very
`Reader` stores `false` before it starts the next monitor.  If the writer vanishes at once, the callback
may overtake the monitor: the last store of the old monitor then stops the new one, and nobody looks for
a writer any more.

In the runs where no callback overtakes a monitor, the ability to reconnect is a token.  It is held by
the client thread of the reader that is connected, passed to a monitor by the disconnect callback, and
passed back by the monitor to the client thread of the reader it makes.

Main definitions:

* `Shmdata.Follower.CanReconnect` — somebody is connected or will be;
* `Shmdata.Follower.Owes` — a monitor still has to read or to store `true` in `quit_`;
* `Shmdata.Follower.InTurn` — prompt runs in which no callback overtakes a monitor;
* `Shmdata.Follower.Held`, `Shmdata.Follower.Passing`, `Shmdata.Follower.Searching` — where the token is.

Main results:

* `Shmdata.Follower.canReconnect_of_inTurn` — **a follower whose callbacks are in turn can reconnect in
  every state**;
* `Shmdata.Follower.overtaken_lost` — a run in which the callback overtakes the monitor, after which a
  new writer is not found.
-/

import Shmdata.Follower

set_option relaxedAutoImplicit false
set_option autoImplicit false

namespace Shmdata

namespace Follower

open Runs

variable {s t : Follower} {a : Act} {m r : ℕ}

/-! ### The ability to reconnect -/

/-- The monitor is in its loop. -/
def MonitorPc.inLoop : MonitorPc → Bool
  | .absent | .last | .done => false
  | _ => true

/-- The disconnect callback has begun and will start a monitor, as long as the follower is not being
destroyed. -/
def ClientPc.startsMonitor : ClientPc → Bool
  | .test | .store | .lockMonitor => true
  | _ => false

/-- The step at which a monitor has made a valid reader. -/
def Act.makes : Act → Bool
  | .made _ _ => true
  | _ => false

/-- The monitor does not leave its loop before a valid reader has been made, whatever the threads and the
writers do, as long as the follower is not being destroyed. -/
def Persists (s : Follower) (m : ℕ) : Prop :=
  (s.mon m).inLoop = true ∧ ∀ as t, exec (restrict step fun _ a => a.makes = false) s as = some t →
    t.dtor = .idle → (t.mon m).inLoop = true

/-- The current reader is connected, or a disconnect callback is going to start a monitor, or a monitor
is in its loop until a valid reader has been made. -/
def CanReconnect (s : Follower) : Prop :=
  (∃ r, s.reader = some r ∧ (s.cli r).pc = .live) ∨ (∃ r, (s.cli r).pc.startsMonitor = true) ∨
    ∃ m, Persists s m

/-! ### Callbacks in turn -/

/-- The monitor has made a valid reader, or has left its loop or is about to, and is not done with
`quit_`. -/
def Owes (s : Follower) (m : ℕ) : Prop :=
  match s.mon m with
  | .wait r => (s.cli r).connected = true
  | .drop _ valid => valid = true
  | .load => s.quit = true
  | .store | .last => True
  | _ => False

instance (s : Follower) (m : ℕ) : Decidable (Owes s m) := by
  unfold Owes
  split <;> infer_instance

/-- The store of `false`. -/
def Act.storesFalse : Act → Bool
  | .cbStore _ => true
  | _ => false

/-- A prompt step; a disconnect callback stores `false` only when every monitor that has made a valid
reader is done with `quit_`. -/
def InTurn (s : Follower) (a : Act) : Prop :=
  Prompt s a ∧ (a.storesFalse = true → ∀ m < s.nextMon, ¬ Owes s m)

instance (s : Follower) (a : Act) : Decidable (InTurn s a) := inferInstanceAs (Decidable (_ ∧ _))

/-! ### The token -/

/-- The client thread is connected, and has not stored `false` yet. -/
def ClientPc.linked : ClientPc → Bool
  | .live | .test | .store => true
  | _ => false

/-- The client thread is connected, and has not started a monitor yet. -/
def ClientPc.busy (pc : ClientPc) : Bool := pc.linked || pc == .lockMonitor

def MonitorPc.inactive : MonitorPc → Bool
  | .absent | .done => true
  | _ => false

/-- The monitor looks for a writer and has not found one. -/
def MonitorPc.seeking : MonitorPc → Bool
  | .load | .check | .lockReader | .new | .wait _ | .join _ | .clear => true
  | .drop _ valid => !valid
  | _ => false

/-- The place of a monitor, with the value of `quit_`, while the reader `r` is connected: the monitor has
made this reader, or does not matter any more. -/
def Past (quit : Bool) (r : ℕ) : MonitorPc → Prop
  | .wait r' => r' = r
  | .drop _ valid => valid = true
  | .load => quit = true
  | .absent | .store | .last | .done => True
  | _ => False

/-- The token is with the client thread of `r`. -/
structure Held (s : Follower) (r : ℕ) : Prop where
  linked : (s.cli r).pc.linked = true
  connected : (s.cli r).connected = true
  only : ∀ r', r' ≠ r → (s.cli r').pc.busy = false
  past : ∀ m, Past s.quit r (s.mon m)
  ctor : s.ctor = .wait r ∨ (∃ m, s.ctor = .assign m) ∨ s.ctor = .done
  owner : s.ctor = .wait r ∨ (∃ m, s.mon m = .wait r) ∨ s.reader = some r

/-- The client thread of `r` has stored `false` and is about to start a monitor. -/
structure Passing (s : Follower) (r : ℕ) : Prop where
  pc : (s.cli r).pc = .lockMonitor
  only : ∀ r', r' ≠ r → (s.cli r').pc.busy = false
  mon : ∀ m, (s.mon m).inactive = true
  quit : s.quit = false
  ctor : s.ctor = .done

/-- The token is with the monitor `m`. -/
structure Searching (s : Follower) (m : ℕ) : Prop where
  seeking : (s.mon m).seeking = true
  unheard : ∀ r, s.mon m = .wait r → (s.cli r).connected = false
  others : ∀ m', m' ≠ m → (s.mon m').inactive = true
  none : ∀ r, (s.cli r).pc.busy = false
  quit : s.quit = false
  ctor : (∃ m, s.ctor = .assign m) ∨ s.ctor = .done

/-- The constructor has neither made a valid reader nor started a monitor. -/
structure Starting (s : Follower) : Prop where
  mon : ∀ m, (s.mon m).inactive = true
  none : ∀ r, (s.cli r).pc.busy = false
  quit : s.quit = false
  unheard : ∀ r, s.ctor = .wait r → (s.cli r).connected = false
  ctor : s.ctor ≠ .done ∧ ∀ m, s.ctor ≠ .assign m

/-- What holds in every state of a run in turn, before the destructor. -/
def Token (s : Follower) : Prop :=
  Starting s ∨ (∃ r, Held s r) ∨ (∃ r, Passing s r) ∨ ∃ m, Searching s m

theorem token_init (writer : Option ℕ) (file : Bool) : Token (init writer file) :=
  Or.inl ⟨fun _ => rfl, fun _ => rfl, rfl, by simp [init], by simp [init]⟩

/-- A step that leaves the monitors, `quit_`, `reader_` and the constructor as they are, and moves only
client threads that are not busy. -/
structure Quiet (s t : Follower) : Prop where
  mon : t.mon = s.mon
  quit : t.quit = s.quit
  ctor : t.ctor = s.ctor
  reader : t.reader = s.reader
  connected : ∀ r, (t.cli r).connected = (s.cli r).connected
  pc : ∀ r, (t.cli r).pc = (s.cli r).pc ∨ (s.cli r).pc.busy = false ∧ (t.cli r).pc.busy = false

namespace Quiet

theorem busy (hq : Quiet s t) {r : ℕ} (h : (s.cli r).pc.busy = false) : (t.cli r).pc.busy = false := by
  rcases hq.pc r with hr | hr
  · rw [hr]
    exact h
  · exact hr.2

theorem pc_eq (hq : Quiet s t) {r : ℕ} (h : (s.cli r).pc.busy = true) : (t.cli r).pc = (s.cli r).pc := by
  rcases hq.pc r with hr | hr
  · exact hr
  · rw [h] at hr
    cases hr.1

theorem setCli (hmon : t.mon = s.mon) (hquit : t.quit = s.quit) (hctor : t.ctor = s.ctor)
    (hreader : t.reader = s.reader) {pc : ClientPc} (hcli : t.cli = (s.setCli r pc).cli)
    (h : (s.cli r).pc.busy = false) (h' : pc.busy = false) : Quiet s t := by
  refine ⟨hmon, hquit, hctor, hreader, fun r' => ?_, fun r' => ?_⟩
  · rw [hcli, setCli_connected]
  · rw [hcli, setCli_pc]
    split
    · next hr =>
        rw [hr]
        exact Or.inr ⟨h, h'⟩
    · exact Or.inl rfl

theorem token (hq : Quiet s t) (h : Token s) : Token t := by
  rcases h with h | ⟨r, h⟩ | ⟨r, h⟩ | ⟨m, h⟩
  · refine Or.inl ⟨?_, fun r => hq.busy (h.none r), hq.quit.trans h.quit, ?_, ?_⟩
    · rw [hq.mon]
      exact h.mon
    · intro r hr
      rw [hq.connected]
      exact h.unheard r (hq.ctor ▸ hr)
    · rw [hq.ctor]
      exact h.ctor
  · have hpc : (t.cli r).pc = (s.cli r).pc := hq.pc_eq (by simp [ClientPc.busy, h.linked])
    refine Or.inr (Or.inl ⟨r, ?_, ?_, fun r' hr' => hq.busy (h.only r' hr'), ?_, ?_, ?_⟩)
    · rw [hpc]
      exact h.linked
    · rw [hq.connected]
      exact h.connected
    · rw [hq.mon, hq.quit]
      exact h.past
    · rw [hq.ctor]
      exact h.ctor
    · rw [hq.ctor, hq.mon, hq.reader]
      exact h.owner
  · have hpc : (t.cli r).pc = (s.cli r).pc := hq.pc_eq (by rw [h.pc]; rfl)
    refine Or.inr (Or.inr (Or.inl ⟨r, hpc.trans h.pc, fun r' hr' => hq.busy (h.only r' hr'), ?_,
      hq.quit.trans h.quit, hq.ctor.trans h.ctor⟩))
    rw [hq.mon]
    exact h.mon
  · refine Or.inr (Or.inr (Or.inr ⟨m, ?_, ?_, ?_, fun r => hq.busy (h.none r), hq.quit.trans h.quit,
      ?_⟩))
    · rw [hq.mon]
      exact h.seeking
    · intro r hr
      rw [hq.connected]
      exact h.unheard r (hq.mon ▸ hr)
    · rw [hq.mon]
      exact h.others
    · rw [hq.ctor]
      exact h.ctor

end Quiet

/-- The steps of the constructor, of the monitors and of busy client threads; those of the destructor are
not considered. -/
def Act.moving : Act → Bool
  | .onData _ | .abandoned _ | .cbAssign _ _ | .cbUser _ | .writerStart | .writerStop | .writerCrash
  | .dtorBegin | .dtorStore | .dtorLockMonitor | .dtorGet | .dtorLockReader | .dtorDropped _
  | .dtorMembers => false
  | _ => true

/-- The other steps, before the destructor begins, are quiet. -/
theorem quiet_of_step (hst : s.step a = some t) (hd : s.dtor = .idle) (hd' : t.dtor = .idle)
    (ha : a.moving = false) : Quiet s t := by
  cases trans_of_step hst with
  | @abandoned r hr => exact Quiet.setCli rfl rfl rfl rfl rfl (r := r) (by rw [hr]; rfl) rfl
  | @cbAssign r m hr => exact Quiet.setCli rfl rfl rfl rfl rfl (r := r) (by rw [hr]; rfl) rfl
  | @cbUser r hr => exact Quiet.setCli rfl rfl rfl rfl rfl (r := r) (by rw [hr]; rfl) rfl
  | onData | writerStart | writerStop | writerCrash =>
      exact ⟨rfl, rfl, rfl, rfl, fun _ => rfl, fun _ => Or.inl rfl⟩
  | dtorBegin => cases hd'
  | dtorStore hc | dtorLockMonitor hc | dtorGet hc | dtorLockReader hc | dtorDropped hc
  | dtorMembers hc =>
      rw [hd] at hc
      cases hc
  | _ => cases ha

/-! ### Monitors that do not matter -/

theorem past_mono {quit quit' : Bool} {pc : MonitorPc} (h : Past quit r pc)
    (hq : quit' = quit ∨ quit' = true) : Past quit' r pc := by
  rcases hq with rfl | rfl
  · exact h
  · cases pc with
    | load => rfl
    | _ => exact h

theorem past_of_inactive {quit : Bool} {pc : MonitorPc} (h : pc.inactive = true) : Past quit r pc := by
  cases pc with
  | absent | done => trivial
  | _ => cases h

/-- `std::async`. -/
def Act.starts : Act → Bool
  | .ctorAsync | .cbAsync _ => true
  | _ => false

/-- While the reader `r` is connected, and as long as no callback stores `false` and no monitor is
started, no monitor comes to matter. -/
theorem past_of_step (hp : ∀ m, Past s.quit r (s.mon m)) (hconn : (s.cli r).connected = true)
    (hst : s.step a = some t) (ha : a.storesFalse = false) (ha' : a.starts = false) (m : ℕ) :
    Past t.quit r (t.mon m) := by
  have hat {m' : ℕ} {pc : MonitorPc} (hm : s.mon m' = pc) : Past s.quit r pc := hm ▸ hp m'
  have hmove {quit : Bool} {m' : ℕ} {pc : MonitorPc} (hpc : Past quit r pc)
      (hq : quit = s.quit ∨ quit = true) : Past quit r (if m = m' then pc else s.mon m) := by
    split
    · exact hpc
    · exact past_mono (hp m) hq
  cases trans_of_step hst with
  | load hm =>
      rw [if_pos (show s.quit = true from hat hm)]
      exact (setMon_mon s _ m _).symm ▸ hmove trivial (Or.inl rfl)
  | check hm | lockReader hm | refused hm | connect _ hm | joined hm | clear hm => exact (hat hm).elim
  | made hm => exact (setMon_mon _ _ m _).symm ▸ hmove rfl (Or.inl rfl)
  | timeout hm hc =>
      obtain rfl := hat hm
      rw [hconn] at hc
      cases hc
  | @dropped m' old valid hm =>
      rw [if_pos (show valid = true from hat hm)]
      exact (setMon_mon s _ m _).symm ▸ hmove trivial (Or.inl rfl)
  | store hm => exact (setMon_mon s _ m _).symm ▸ hmove rfl (Or.inr rfl)
  | last hm => exact (setMon_mon s _ m _).symm ▸ hmove trivial (Or.inr rfl)
  | dtorStore => exact past_mono (hp m) (Or.inr rfl)
  | ctorAsync | cbAsync => cases ha'
  | cbStore => cases ha
  | _ => exact hp m

/-- A monitor that waits for a reader that has connected goes on waiting until it has made it. -/
theorem wait_of_step (hf : Fresh s) (hm : s.mon m = .wait r) (hconn : (s.cli r).connected = true)
    (hst : s.step a = some t) (ha : a.makes = false) : t.mon m = .wait r := by
  have hother {m' : ℕ} {pc pc' : MonitorPc} (h : s.mon m' = pc) (hne : pc ≠ .wait r) :
      (if m = m' then pc' else s.mon m) = .wait r := by
    rw [if_neg]
    · exact hm
    · rintro rfl
      exact hne (h.symm.trans hm)
  have hasync : s.async.mon m = .wait r := by
    rw [async_mon]
    exact hother (hf.mon _ (Nat.le_refl _)) (by simp)
  cases trans_of_step hst with
  | ctorAsync | cbAsync => exact hasync
  | load h | check h | lockReader h | store h | clear h | last h | dropped h =>
      exact (setMon_mon ..).trans (hother h (by simp))
  | refused h | connect _ h | joined h => exact (setMon_mon ..).trans (hother h (by simp))
  | made => cases ha
  | @timeout m' r' h hc =>
      refine (setMon_mon ..).trans (hother h ?_)
      rintro ⟨⟩
      rw [hconn] at hc
      cases hc
  | _ => exact hm

/-! ### The token with a client thread -/

namespace Held

/-- A monitor moves to a place that does not matter, or sets `reader_` to the reader that holds the
token. -/
theorem monitor (h : Held s r) (hpast : ∀ m, Past t.quit r (t.mon m))
    (hcli : ∀ r', (t.cli r').pc = (s.cli r').pc ∧ (t.cli r').connected = (s.cli r').connected)
    (hctor : t.ctor = s.ctor)
    (howner : t.reader = some r ∨
      t.reader = s.reader ∧ ∀ m, s.mon m = .wait r → t.mon m = .wait r) : Held t r := by
  refine ⟨?_, ?_, fun r' hr' => ?_, hpast, ?_, ?_⟩
  · rw [(hcli r).1]
    exact h.linked
  · rw [(hcli r).2]
    exact h.connected
  · rw [(hcli r').1]
    exact h.only r' hr'
  · rw [hctor]
    exact h.ctor
  · rw [hctor]
    rcases howner with hr | ⟨hr, hm⟩
    · exact Or.inr (Or.inr hr)
    · rw [hr]
      exact h.owner.imp_right (Or.imp_left fun ⟨m, hwait⟩ => ⟨m, hm m hwait⟩)

/-- The client thread that holds the token moves. -/
theorem client (h : Held s r) {pc : ClientPc} (hpc : pc.linked = true) : Held (s.setCli r pc) r := by
  refine ⟨?_, ?_, fun r' hr' => ?_, h.past, h.ctor, h.owner⟩
  · rw [setCli_pc, if_pos rfl]
    exact hpc
  · rw [setCli_connected]
    exact h.connected
  · rw [setCli_pc, if_neg hr']
    exact h.only r' hr'

/-- A busy client thread is the one that holds the token. -/
theorem eq_of_busy (h : Held s r) {r' : ℕ} (hr : (s.cli r').pc.busy = true) : r' = r := by
  by_contra hne
  rw [h.only r' hne] at hr
  cases hr

theorem past_of_eq (h : Held s r) {pc : MonitorPc} (hm : s.mon m = pc) : Past s.quit r pc :=
  hm ▸ h.past m

/-- When no monitor owes anything, all of them have ended. -/
theorem inactive (h : Held s r) (hf : Fresh s) (howes : ∀ m < s.nextMon, ¬ Owes s m) (m : ℕ) :
    (s.mon m).inactive = true := by
  by_cases hm : m < s.nextMon
  · have hp := h.past m
    have ho := howes m hm
    unfold Owes at ho
    cases hpc : s.mon m with
    | absent | done => rfl
    | load | drop | store | last =>
        rw [hpc] at hp ho
        exact absurd hp ho
    | wait r' =>
        rw [hpc] at hp ho
        obtain rfl : r' = r := hp
        exact absurd h.connected ho
    | check | lockReader | new | join | clear =>
        rw [hpc] at hp
        cases hp
  · rw [hf.mon m (by omega)]
    rfl

/-- The steps while the token is with a client thread. -/
theorem step (h : Held s r) (hf : Fresh s) (hdes : s.isDestructing = false) (hok : InTurn s a)
    (hst : s.step a = some t) (ha : a.moving = true) : Token t := by
  have hkeep {u : Follower} (hu : Held u r) : Token u := Or.inr (Or.inl ⟨r, hu⟩)
  cases trans_of_step hst with
  | ctorCheck hc | ctorRefused hc | ctorConnect _ hc | ctorJoined hc | ctorAsync hc =>
      have hctor := h.ctor
      simp [hc] at hctor
  | @ctorMade r' hc hconn =>
      have hctor := h.ctor
      obtain rfl : r' = r := by simpa [hc] using hctor
      exact hkeep ⟨h.linked, h.connected, h.only, h.past, Or.inr (Or.inr rfl), Or.inr (Or.inr rfl)⟩
  | @ctorTimeout r' hc hconn =>
      have hctor := h.ctor
      obtain rfl : r' = r := by simpa [hc] using hctor
      rw [h.connected] at hconn
      cases hconn
  | @ctorAssign m hc =>
      have howner := h.owner
      rw [hc] at howner
      exact hkeep ⟨h.linked, h.connected, h.only, h.past, Or.inr (Or.inr rfl),
        Or.inr (howner.resolve_left (by simp))⟩
  | load | dropped | store | last =>
      exact hkeep (h.monitor (past_of_step h.past h.connected hst rfl rfl) (fun _ => ⟨rfl, rfl⟩) rfl
        (Or.inr ⟨rfl, fun m hm => wait_of_step hf hm h.connected hst rfl⟩))
  | check hm | lockReader hm | refused hm | connect _ hm | joined hm | clear hm =>
      exact (h.past_of_eq hm).elim
  | @made m r' hm hconn =>
      obtain rfl : r' = r := h.past_of_eq hm
      exact hkeep (h.monitor (past_of_step h.past h.connected hst rfl rfl)
        (resetReader_cli s (some r')) rfl (Or.inl rfl))
  | @timeout m r' hm hconn =>
      obtain rfl : r' = r := h.past_of_eq hm
      rw [h.connected] at hconn
      cases hconn
  | @onConnect r' hr =>
      -- a reader that is still awaited is the one that holds the token, which has connected
      have hne : r' ≠ r := by
        rintro rfl
        have hl := h.linked
        rw [hr] at hl
        cases hl
      rcases hok.1 with hc | ⟨m, -, hm⟩
      · have hctor := h.ctor
        exact absurd (by simpa [hc] using hctor) hne
      · exact absurd (h.past_of_eq hm) hne
  | @onDisconnect r' hr =>
      obtain rfl := h.eq_of_busy (by rw [hr]; rfl)
      exact hkeep (h.client rfl)
  | @cbTest r' hr =>
      obtain rfl := h.eq_of_busy (by rw [hr]; rfl)
      rw [hdes]
      exact hkeep (h.client rfl)
  | @cbStore r' hr =>
      obtain rfl := h.eq_of_busy (by rw [hr]; rfl)
      refine Or.inr (Or.inr (Or.inl ⟨r', ?_, fun r hne => ?_, ?_, rfl, hok.1⟩))
      · exact (setCli_pc ..).trans (if_pos rfl)
      · have hpc : ((s.setCli r' .lockMonitor).cli r).pc = (s.cli r).pc :=
          (setCli_pc ..).trans (if_neg hne)
        show ((s.setCli r' .lockMonitor).cli r).pc.busy = false
        rw [hpc]
        exact h.only r hne
      · exact h.inactive hf (hok.2 rfl)
  | @cbAsync r' hr =>
      obtain rfl := h.eq_of_busy (by rw [hr]; rfl)
      have hl := h.linked
      rw [hr] at hl
      cases hl
  | _ => cases ha

end Held

/-! ### The token on its way, with a monitor, and before -/

/-- No monitor moves while all of them are inactive, and no reader is awaited by one. -/
theorem not_inactive_of_eq {pc : MonitorPc} (h : (s.mon m).inactive = true) (hm : s.mon m = pc)
    (hpc : pc.inactive = false) : False := by
  rw [hm, hpc] at h
  cases h

theorem not_busy_of_eq {pc : ClientPc} (h : ∀ r, (s.cli r).pc.busy = false) (hr : (s.cli r).pc = pc)
    (hpc : pc.busy = true) : False := by
  have hn := h r
  rw [hr, hpc] at hn
  cases hn

/-- A new monitor takes the token when all the others are inactive. -/
theorem searching_of_async (hmon : ∀ m, t.mon m = if m = s.nextMon then .load else s.mon m)
    (hidle : ∀ m, (s.mon m).inactive = true) (hnone : ∀ r, (t.cli r).pc.busy = false)
    (hquit : t.quit = false) (hctor : (∃ m, t.ctor = .assign m) ∨ t.ctor = .done) :
    Searching t s.nextMon := by
  have hself : t.mon s.nextMon = .load := (hmon _).trans (if_pos rfl)
  refine ⟨by rw [hself]; rfl, fun r hr => ?_, fun m hm => ?_, hnone, hquit, hctor⟩
  · rw [hself] at hr
    cases hr
  · rw [hmon, if_neg hm]
    exact hidle m

/-- The connect message hands the token to the client thread, when every monitor waits for this reader or
is inactive. -/
theorem held_of_hearConnect (hmon : ∀ m, s.mon m = .wait r ∨ (s.mon m).inactive = true)
    (hnone : ∀ r, (s.cli r).pc.busy = false)
    (hctor : s.ctor = .wait r ∨ (∃ m, s.ctor = .assign m) ∨ s.ctor = .done)
    (howner : s.ctor = .wait r ∨ (∃ m, s.mon m = .wait r) ∨ s.reader = some r) :
    Held (s.hearConnect r) r := by
  refine ⟨?_, ?_, fun r' hr' => ?_, fun m => ?_, hctor, howner⟩
  · rw [hearConnect_pc, if_pos rfl]
    rfl
  · rw [hearConnect_connected, if_pos rfl]
  · rw [hearConnect_pc, if_neg hr']
    exact hnone r'
  · show Past s.quit r (s.mon m)
    rcases hmon m with hm | hi
    · rw [hm]
      rfl
    · exact past_of_inactive hi

/-- While a callback is about to start a monitor, and no other thread does anything, it is the one that
moves. -/
theorem eq_cbAsync_of_moving (hpc : (s.cli r).pc = .lockMonitor)
    (honly : ∀ r', r' ≠ r → (s.cli r').pc.busy = false) (hmon : ∀ m, (s.mon m).inactive = true)
    (hctor : s.ctor = .done) (hok : InTurn s a) (hst : s.step a = some t) (ha : a.moving = true) :
    a = .cbAsync r := by
  have hidle (m : ℕ) {pc : MonitorPc} (hm : s.mon m = pc) (hpc : pc.inactive = false) : False :=
    not_inactive_of_eq (hmon m) hm hpc
  have heq {r' : ℕ} (hr : (s.cli r').pc.busy = true) : r' = r := by
    by_contra hne
    rw [honly r' hne] at hr
    cases hr
  cases trans_of_step hst with
  | ctorCheck hc | ctorRefused hc | ctorConnect _ hc | ctorMade hc | ctorTimeout hc | ctorJoined hc
  | ctorAsync hc | ctorAssign hc =>
      rw [hctor] at hc
      cases hc
  | load hm | check hm | lockReader hm | refused hm | connect _ hm | made hm | timeout hm | joined hm
  | dropped hm | store hm | clear hm | last hm => exact (hidle _ hm rfl).elim
  | onConnect hr =>
      rcases hok.1 with hc | ⟨m, -, hm⟩
      · rw [hctor] at hc
        cases hc
      · exact (hidle m hm rfl).elim
  | onDisconnect hr | cbTest hr | cbStore hr =>
      obtain rfl := heq (by rw [hr]; rfl)
      rw [hpc] at hr
      cases hr
  | @cbAsync r' hr =>
      obtain rfl := heq (by rw [hr]; rfl)
      rfl
  | _ => cases ha

namespace Passing

/-- The steps while the token is on its way. -/
theorem step (h : Passing s r) (hok : InTurn s a) (hst : s.step a = some t) (ha : a.moving = true) :
    Token t := by
  obtain rfl := eq_cbAsync_of_moving h.pc h.only h.mon h.ctor hok hst ha
  cases trans_of_step hst with
  | cbAsync =>
      refine Or.inr (Or.inr (Or.inr ⟨_, searching_of_async (async_mon s) h.mon (fun r' => ?_) h.quit
        (Or.inr h.ctor)⟩))
      have hpc := setCli_pc s.async r r' (.assign s.nextMon)
      show ((s.async.setCli r (.assign s.nextMon)).cli r').pc.busy = false
      rw [hpc]
      split
      · rfl
      · next hne => exact h.only r' hne

end Passing

namespace Searching

/-- The monitor that holds the token moves on without having made a valid reader. -/
theorem monitor (h : Searching s m) {pc : MonitorPc}
    (hmon : ∀ m', t.mon m' = if m' = m then pc else s.mon m') (hpc : pc.seeking = true)
    (hheard : ∀ r, pc = .wait r → (t.cli r).connected = false)
    (hcli : ∀ r, (t.cli r).pc.busy = false) (hquit : t.quit = s.quit) (hctor : t.ctor = s.ctor) :
    Searching t m := by
  have hself : t.mon m = pc := (hmon m).trans (if_pos rfl)
  refine ⟨hself ▸ hpc, fun r hr => hheard r (hself ▸ hr), fun m' hm' => ?_, hcli,
    hquit.trans h.quit, hctor ▸ h.ctor⟩
  rw [hmon, if_neg hm']
  exact h.others m' hm'

/-- A new reader that has not connected is not busy. -/
theorem newReader_busy (h : ∀ r, (s.cli r).pc.busy = false) {pc : ClientPc} (hpc : pc.busy = false)
    (w r : ℕ) : ((s.newReader pc w).cli r).pc.busy = false := by
  rw [newReader_cli]
  split
  · exact hpc
  · exact h r

theorem resetReader_busy (h : ∀ r, (s.cli r).pc.busy = false) (p : Option ℕ) (r : ℕ) :
    ((s.resetReader p).cli r).pc.busy = false := by
  rw [(resetReader_cli s p r).1]
  exact h r

/-- A monitor at a place that is not inactive is the one that holds the token. -/
theorem eq_of_mon (h : Searching s m) {m' : ℕ} {pc : MonitorPc} (hm : s.mon m' = pc)
    (hpc : pc.inactive = false) : m' = m := by
  by_contra hne
  exact not_inactive_of_eq (h.others m' hne) hm hpc

/-- The steps while the token is with a monitor. -/
theorem step (h : Searching s m) (hok : InTurn s a) (hst : s.step a = some t) (ha : a.moving = true) :
    Token t := by
  have hkeep {u : Follower} (hu : Searching u m) : Token u := Or.inr (Or.inr (Or.inr ⟨m, hu⟩))
  have hctor {pc : CtorPc} (hc : s.ctor = pc) : (∃ m, pc = .assign m) ∨ pc = .done := hc ▸ h.ctor
  have hseek {pc : MonitorPc} (hm : s.mon m = pc) : pc.seeking = true := hm ▸ h.seeking
  cases trans_of_step hst with
  | ctorCheck hc | ctorRefused hc | ctorConnect _ hc | ctorMade hc | ctorTimeout hc | ctorJoined hc
  | ctorAsync hc =>
      have := hctor hc
      simp at this
  | ctorAssign => exact hkeep ⟨h.seeking, h.unheard, h.others, h.none, h.quit, Or.inr rfl⟩
  | load hm =>
      obtain rfl := h.eq_of_mon hm rfl
      rw [if_neg (by simp [h.quit])]
      exact hkeep (h.monitor (setMon_mon s _ · _) rfl (by simp) h.none rfl rfl)
  | check hm =>
      obtain rfl := h.eq_of_mon hm rfl
      refine hkeep (h.monitor (setMon_mon s _ · _) ?_ (fun r hr => ?_) h.none rfl rfl)
      · split <;> rfl
      · split at hr <;> cases hr
  | lockReader hm =>
      obtain rfl := h.eq_of_mon hm rfl
      exact hkeep (h.monitor (setMon_mon s _ · _) rfl (by simp) h.none rfl rfl)
  | refused hm =>
      obtain rfl := h.eq_of_mon hm rfl
      exact hkeep (h.monitor (setMon_mon _ _ · _) rfl (by simp)
        (resetReader_busy (newReader_busy h.none rfl 0) (some s.nextRd)) rfl rfl)
  | @connect _ w _ hm =>
      obtain rfl := h.eq_of_mon hm rfl
      refine hkeep (h.monitor (setMon_mon _ _ · _) rfl (fun r hr => ?_) (newReader_busy h.none rfl w)
        rfl rfl)
      obtain rfl : s.nextRd = r := by simpa using hr
      show ((s.newReader .waiting w).cli s.nextRd).connected = false
      rw [newReader_cli, if_pos rfl]
  | made hm hconn =>
      obtain rfl := h.eq_of_mon hm rfl
      rw [h.unheard _ hm] at hconn
      cases hconn
  | timeout hm =>
      obtain rfl := h.eq_of_mon hm rfl
      exact hkeep (h.monitor (setMon_mon s _ · _) rfl (by simp) h.none rfl rfl)
  | @joined _ r hm =>
      obtain rfl := h.eq_of_mon hm rfl
      exact hkeep (h.monitor (setMon_mon _ _ · _) rfl (by simp)
        (resetReader_busy h.none (some r)) rfl rfl)
  | dropped hm =>
      obtain rfl := h.eq_of_mon hm rfl
      have hv := hseek hm
      rw [MonitorPc.seeking, Bool.not_eq_true'] at hv
      rw [hv]
      exact hkeep (h.monitor (setMon_mon s _ · _) rfl (by simp) h.none rfl rfl)
  | store hm | last hm =>
      obtain rfl := h.eq_of_mon hm rfl
      cases hseek hm
  | clear hm =>
      obtain rfl := h.eq_of_mon hm rfl
      exact hkeep (h.monitor (setMon_mon s _ · _) rfl (by simp) h.none rfl rfl)
  | onConnect hr =>
      rcases hok.1 with hc | ⟨m', -, hm⟩
      · have := hctor hc
        simp at this
      · obtain rfl := h.eq_of_mon hm rfl
        refine Or.inr (Or.inl ⟨_, held_of_hearConnect (fun m => ?_) h.none (Or.inr h.ctor)
          (Or.inr (Or.inl ⟨_, hm⟩))⟩)
        by_cases hne : m = m'
        · exact Or.inl (hne ▸ hm)
        · exact Or.inr (h.others m hne)
  | onDisconnect hr | cbTest hr | cbStore hr | cbAsync hr =>
      exact (not_busy_of_eq h.none hr rfl).elim
  | _ => cases ha

end Searching

namespace Starting

/-- The steps before the token is there. -/
theorem step (h : Starting s) (hok : InTurn s a) (hst : s.step a = some t) (ha : a.moving = true) :
    Token t := by
  have hidle (m : ℕ) {pc : MonitorPc} (hm : s.mon m = pc) (hpc : pc.inactive = false) : False :=
    not_inactive_of_eq (h.mon m) hm hpc
  cases trans_of_step hst with
  | ctorCheck hc =>
      refine Or.inl ⟨h.mon, h.none, h.quit, fun r hr => ?_, ?_⟩
      · simp only at hr
        split at hr <;> cases hr
      · simp only
        split <;> simp
  | ctorRefused hc =>
      exact Or.inl ⟨h.mon, Searching.newReader_busy h.none rfl 0, h.quit, by simp, by simp⟩
  | @ctorConnect w _ hc =>
      refine Or.inl ⟨h.mon, Searching.newReader_busy h.none rfl w, h.quit, fun r hr => ?_, by simp⟩
      obtain rfl : s.nextRd = r := by simpa using hr
      show ((s.newReader .waiting w).cli s.nextRd).connected = false
      rw [newReader_cli, if_pos rfl]
  | ctorMade hc hconn =>
      rw [h.unheard _ hc] at hconn
      cases hconn
  | ctorTimeout hc => exact Or.inl ⟨h.mon, h.none, h.quit, by simp, by simp⟩
  | ctorJoined hc => exact Or.inl ⟨h.mon, h.none, h.quit, by simp, by simp⟩
  | ctorAsync hc =>
      exact Or.inr (Or.inr (Or.inr ⟨_, searching_of_async (async_mon s) h.mon h.none h.quit
        (Or.inl ⟨_, rfl⟩)⟩))
  | ctorAssign hc => exact absurd hc (h.ctor.2 _)
  | load hm | check hm | lockReader hm | refused hm | connect _ hm | made hm | timeout hm | joined hm
  | dropped hm | store hm | clear hm | last hm => exact (hidle _ hm rfl).elim
  | @onConnect r hr =>
      rcases hok.1 with hc | ⟨m, -, hm⟩
      · exact Or.inr (Or.inl ⟨r, held_of_hearConnect (fun m => Or.inr (h.mon m)) h.none (Or.inl hc)
          (Or.inl hc)⟩)
      · exact (hidle m hm rfl).elim
  | onDisconnect hr | cbTest hr | cbStore hr | cbAsync hr =>
      exact (not_busy_of_eq h.none hr rfl).elim
  | _ => cases ha

end Starting

/-! ### Runs in turn -/

/-- Before the destructor begins, `is_destructing_` is not set. -/
theorem dtor_of_step (hst : s.step a = some t) (hd : t.dtor = .idle) :
    s.dtor = .idle ∧ t.isDestructing = s.isDestructing := by
  cases trans_of_step hst with
  | dtorBegin | dtorStore | dtorLockMonitor | dtorGet | dtorLockReader | dtorDropped | dtorMembers =>
      cases hd
  | _ => exact ⟨hd, rfl⟩

/-- The invariant of the runs in turn. -/
structure Inv (s : Follower) : Prop where
  fresh : Fresh s
  destructing : s.dtor = .idle → s.isDestructing = false
  token : s.dtor = .idle → Token s

theorem inv_init (writer : Option ℕ) (file : Bool) : Inv (init writer file) :=
  ⟨fresh_init writer file, fun _ => rfl, fun _ => token_init writer file⟩

theorem inv_step (hi : Inv s) (hok : InTurn s a) (hst : s.step a = some t) : Inv t := by
  refine ⟨fresh_of_step hi.fresh hst, fun hd' => ?_, fun hd' => ?_⟩
  · obtain ⟨hd, heq⟩ := dtor_of_step hst hd'
    exact heq.trans (hi.destructing hd)
  · have hd := (dtor_of_step hst hd').1
    cases ha : a.moving with
    | false => exact (quiet_of_step hst hd hd' ha).token (hi.token hd)
    | true =>
        rcases hi.token hd with h | ⟨r, h⟩ | ⟨r, h⟩ | ⟨m, h⟩
        · exact h.step hok hst ha
        · exact h.step hi.fresh (hi.destructing hd) hok hst ha
        · exact h.step hok hst ha
        · exact h.step hok hst ha

theorem inv_of_exec {writer : Option ℕ} {file : Bool} {as : List Act}
    (h : exec (restrict step InTurn) (init writer file) as = some s) : Inv s := by
  refine exec_invariant (fun s a t hs hst => ?_) h (inv_init writer file)
  obtain ⟨hok, hst⟩ := restrict_eq_some.1 hst
  exact inv_step hs hok hst

/-! ### Monitors that stay -/

/-- The monitor has made a valid reader, or has left its loop. -/
def MonitorPc.storing : MonitorPc → Bool
  | .drop _ valid => valid
  | .store | .last => true
  | _ => false

/-- The flag is `false` and no monitor is about to change that. -/
structure Calm (s : Follower) (m : ℕ) : Prop where
  quit : s.quit = false
  mon : ∀ m', (s.mon m').storing = false
  inLoop : (s.mon m).inLoop = true

namespace Calm

/-- A monitor moves within its loop. -/
theorem monitor (h : Calm s m) {m' : ℕ} {pc : MonitorPc}
    (hmon : ∀ m'', t.mon m'' = if m'' = m' then pc else s.mon m'') (hpc : pc.storing = false)
    (hloop : pc.inLoop = true) (hquit : t.quit = s.quit) : Calm t m := by
  refine ⟨hquit.trans h.quit, fun m'' => ?_, ?_⟩
  · rw [hmon]
    split
    · exact hpc
    · exact h.mon m''
  · rw [hmon]
    split
    · exact hloop
    · exact h.inLoop

theorem not_storing (h : Calm s m) {m' : ℕ} {pc : MonitorPc} (hm : s.mon m' = pc)
    (hpc : pc.storing = true) : False := by
  have hn := h.mon m'
  rw [hm, hpc] at hn
  cases hn

theorem step (h : Calm s m) (hst : s.step a = some t) (ha : a.makes = false) (hd : t.dtor = .idle) :
    Calm t m := by
  cases trans_of_step hst with
  | ctorAsync => exact h.monitor (async_mon s) rfl rfl rfl
  | cbAsync => exact h.monitor (async_mon s) rfl rfl rfl
  | load hm =>
      rw [if_neg (by simp [h.quit])]
      exact h.monitor (setMon_mon s _ · _) rfl rfl rfl
  | check hm =>
      refine h.monitor (setMon_mon s _ · _) ?_ ?_ rfl
      · split <;> rfl
      · split <;> rfl
  | lockReader hm => exact h.monitor (setMon_mon s _ · _) rfl rfl rfl
  | refused hm => exact h.monitor (setMon_mon _ _ · _) rfl rfl rfl
  | connect _ hm => exact h.monitor (setMon_mon _ _ · _) rfl rfl rfl
  | made => cases ha
  | timeout hm => exact h.monitor (setMon_mon s _ · _) rfl rfl rfl
  | joined hm => exact h.monitor (setMon_mon _ _ · _) rfl rfl rfl
  | @dropped m' old valid hm =>
      cases valid with
      | true => exact (h.not_storing hm rfl).elim
      | false => exact h.monitor (setMon_mon s _ · _) rfl rfl rfl
  | store hm | last hm => exact (h.not_storing hm rfl).elim
  | clear hm => exact h.monitor (setMon_mon s _ · _) rfl rfl rfl
  | cbStore => exact ⟨rfl, h.mon, h.inLoop⟩
  | dtorStore => cases hd
  | _ => exact ⟨h.quit, h.mon, h.inLoop⟩

theorem persists (h : Calm s m) : Persists s m := by
  refine ⟨h.inLoop, fun as t hrun hd => ?_⟩
  have hinv : t.dtor = .idle → Calm t m := by
    refine exec_invariant (P := fun s => s.dtor = .idle → Calm s m) (fun s a u hs hst hd' => ?_) hrun
      fun _ => h
    obtain ⟨ha, hst⟩ := restrict_eq_some.1 hst
    exact (hs (dtor_of_step hst hd').1).step hst ha hd'
  exact (hinv hd).inLoop

end Calm

/-- A reader keeps its server, and its flags are only raised. -/
structure Client.Kept (c d : Client) : Prop where
  server : d.server = c.server
  connected : c.connected = true → d.connected = true
  quitting : c.quitting = true → d.quitting = true

theorem Client.Kept.refl (c : Client) : c.Kept c := ⟨rfl, id, id⟩

theorem Client.Kept.trans {c d e : Client} (h : c.Kept d) (h' : d.Kept e) : c.Kept e :=
  ⟨h'.server.trans h.server, fun hc => h'.connected (h.connected hc), fun hq => h'.quitting (h.quitting hq)⟩

theorem kept_update (s : Follower) {r' : ℕ} {c : Client} (h : (s.cli r').Kept c) (r : ℕ) :
    (s.cli r).Kept (Function.update s.cli r' c r) := by
  by_cases hr : r = r'
  · subst hr
    rwa [Function.update_self]
  · rw [Function.update_of_ne hr]
    exact .refl _

theorem kept_resetReader (s : Follower) (p : Option ℕ) (r : ℕ) :
    (s.cli r).Kept ((s.resetReader p).cli r) := by
  unfold resetReader
  cases s.reader with
  | none => exact .refl _
  | some o => exact kept_update s (c := { s.cli o with quitting := true }) ⟨rfl, id, fun _ => rfl⟩ r

theorem kept_setCli (s : Follower) (r' : ℕ) (pc : ClientPc) (r : ℕ) :
    (s.cli r).Kept ((s.setCli r' pc).cli r) :=
  kept_update s (c := { s.cli r' with pc := pc }) ⟨rfl, id, id⟩ r

theorem kept_hearConnect (s : Follower) (r' r : ℕ) : (s.cli r).Kept ((s.hearConnect r').cli r) :=
  kept_update s (c := { s.cli r' with pc := .live, connected := true }) ⟨rfl, fun _ => rfl, id⟩ r

/-- What a step does to a reader that there is, and what it makes. -/
theorem kept_or_new (hst : s.step a = some t) (r : ℕ) : (s.cli r).Kept (t.cli r) ∨
    r = s.nextRd ∧ ((t.cli r).server = 0 ∨ s.writer = some (t.cli r).server) := by
  have hnew (pc : ClientPc) {w : ℕ} (hw : w = 0 ∨ s.writer = some w) :
      (s.cli r).Kept ((s.newReader pc w).cli r) ∨ r = s.nextRd ∧
        (((s.newReader pc w).cli r).server = 0 ∨ s.writer = some ((s.newReader pc w).cli r).server) := by
    rw [newReader_cli]
    split
    · next h => exact Or.inr ⟨h, hw⟩
    · exact Or.inl (.refl _)
  cases trans_of_step hst with
  | ctorRefused => exact hnew .ended (Or.inl rfl)
  | ctorConnect hw => exact hnew .waiting (Or.inr hw)
  | connect hw => exact hnew .waiting (Or.inr hw)
  | refused =>
      have hreset := kept_resetReader (s.newReader .ended 0) (some s.nextRd) r
      refine (hnew .ended (Or.inl rfl)).imp (fun h => h.trans hreset) fun h => ⟨h.1, ?_⟩
      exact hreset.server ▸ h.2
  | @made m r' => exact Or.inl (kept_resetReader s (some r') r)
  | @joined m r' => exact Or.inl (kept_resetReader s (some r') r)
  | dtorLockReader => exact Or.inl (kept_resetReader s none r)
  | onConnect => exact Or.inl (kept_hearConnect s _ r)
  | onDisconnect | abandoned | cbTest | cbStore | cbAssign | cbUser =>
      exact Or.inl (kept_setCli s _ _ r)
  | cbAsync => exact Or.inl (kept_setCli s.async _ _ r)
  | _ => exact Or.inl (.refl _)

theorem kept_of_step (hst : s.step a = some t) (hr : r < s.nextRd) : (s.cli r).Kept (t.cli r) :=
  (kept_or_new hst r).resolve_right fun hnew => Nat.ne_of_lt hr hnew.1

/-- What a reader has heard, it has heard. -/
theorem connected_of_step (hst : s.step a = some t) (hr : r < s.nextRd)
    (hconn : (s.cli r).connected = true) : (t.cli r).connected = true :=
  (kept_of_step hst hr).connected hconn

theorem nextRd_le_of_step (hst : s.step a = some t) : s.nextRd ≤ t.nextRd := by
  cases trans_of_step hst with
  | ctorRefused | ctorConnect | connect | refused => exact Nat.le_succ _
  | _ => exact Nat.le_refl _

theorem persists_of_wait (hf : Fresh s) (hr : r < s.nextRd) (hm : s.mon m = .wait r)
    (hconn : (s.cli r).connected = true) : Persists s m := by
  refine ⟨by rw [hm]; rfl, fun as t hrun _ => ?_⟩
  have hinv : Fresh t ∧ r < t.nextRd ∧ t.mon m = .wait r ∧ (t.cli r).connected = true := by
    refine exec_invariant
      (P := fun s => Fresh s ∧ r < s.nextRd ∧ s.mon m = .wait r ∧ (s.cli r).connected = true)
      (fun s a u hs hst => ?_) hrun ⟨hf, hr, hm, hconn⟩
    obtain ⟨ha, hst⟩ := restrict_eq_some.1 hst
    obtain ⟨hf, hr, hm, hconn⟩ := hs
    exact ⟨fresh_of_step hf hst, Nat.lt_of_lt_of_le hr (nextRd_le_of_step hst),
      wait_of_step hf hm hconn hst ha, connected_of_step hst hr hconn⟩
  rw [hinv.2.2.1]
  rfl

/-! ### The theorem -/

theorem Searching.calm (h : Searching s m) : Calm s m := by
  have hstoring {pc : MonitorPc} (hpc : pc.inactive = true) : pc.storing = false := by
    cases pc with
    | absent | done => rfl
    | _ => cases hpc
  have hseek := h.seeking
  refine ⟨h.quit, fun m' => ?_, ?_⟩
  · by_cases hm : m' = m
    · rw [hm]
      cases hpc : s.mon m with
      | drop old valid => simpa [hpc, MonitorPc.seeking, MonitorPc.storing] using hseek
      | store | last =>
          rw [hpc] at hseek
          cases hseek
      | _ => rfl
    · exact hstoring (h.others m' hm)
  · cases hpc : s.mon m with
    | absent | last | done =>
        rw [hpc] at hseek
        cases hseek
    | _ => rfl

/-- A linked reader has been created. -/
theorem lt_of_linked (hf : Fresh s) (h : (s.cli r).pc.linked = true) : r < s.nextRd := by
  by_contra hlt
  rw [hf.cli r (by omega)] at h
  cases h

theorem Held.canReconnect (h : Held s r) (hf : Fresh s) (hctor : s.ctor = .done) :
    CanReconnect s := by
  have hlinked := h.linked
  cases hpc : (s.cli r).pc with
  | test | store => exact Or.inr (Or.inl ⟨r, by rw [hpc]; rfl⟩)
  | live =>
      rcases h.owner with hc | ⟨m, hm⟩ | hreader
      · rw [hctor] at hc
        cases hc
      · exact Or.inr (Or.inr ⟨m, persists_of_wait hf (lt_of_linked hf hlinked) hm h.connected⟩)
      · exact Or.inl ⟨r, hreader, hpc⟩
  | _ =>
      rw [hpc] at hlinked
      cases hlinked

/-- **In every run whose callbacks are in turn, and in every state between the end of the constructor
and the beginning of the destructor, the follower can reconnect.** -/
theorem canReconnect_of_inTurn {writer : Option ℕ} {file : Bool} {as : List Act}
    (h : exec (restrict step InTurn) (init writer file) as = some s) (hctor : s.ctor = .done)
    (hdtor : s.dtor = .idle) : CanReconnect s := by
  have hi := inv_of_exec h
  rcases hi.token hdtor with hs | ⟨r, hr⟩ | ⟨r, hr⟩ | ⟨m, hm⟩
  · exact absurd hctor hs.ctor.1
  · exact hr.canReconnect hi.fresh hctor
  · exact Or.inr (Or.inl ⟨r, by rw [hr.pc]; rfl⟩)
  · exact Or.inr (Or.inr ⟨m, hm.calm.persists⟩)

/-- The constructor finds nothing and starts the first monitor; a writer starts, and the monitor makes a
valid reader of it. -/
def firstConnection : List Act :=
  [.ctorCheck, .ctorAsync, .ctorAssign 0, .writerStart, .load 0, .check 0, .lockReader 0, .connect 0,
    .onConnect 0, .made 0 0, .dropped 0 none true]

/-- The monitor ends, and then the writer goes away. -/
def calmEnd : List Act :=
  [.store 0, .load 0, .last 0, .onData 0, .writerStop, .onDisconnect 0, .cbTest 0, .cbStore 0,
    .cbAsync 0, .cbAssign 0 1, .cbUser 0]

/-- After the first writer has gone the follower still looks for the next one. -/
theorem calmEnd_canReconnect :
    ∃ s, exec (restrict step InTurn) (init none false) (firstConnection ++ calmEnd) = some s ∧
      (s.cli 0).pc = .ended ∧ s.mon 1 = .load ∧ CanReconnect s := by
  have hrun : ((exec (restrict step InTurn) (init none false) (firstConnection ++ calmEnd)).any
      fun s => s.ctor = .done ∧ s.dtor = .idle ∧ (s.cli 0).pc = .ended ∧ s.mon 1 = .load) = true := by
    decide +kernel
  obtain ⟨s, hs, hrun⟩ := (Option.any_eq_true _ _).1 hrun
  obtain ⟨hctor, hdtor, hcli, hmon⟩ := of_decide_eq_true hrun
  exact ⟨s, hs, hcli, hmon, canReconnect_of_inTurn hs hctor hdtor⟩

/-- The writer goes away before the monitor has left its loop for good: the callback stores `false`, and
the last store of the old monitor stops the new one. -/
def overtaken : List Act :=
  [.store 0, .load 0, .writerStop, .onDisconnect 0, .cbTest 0, .cbStore 0, .cbAsync 0, .last 0,
    .cbAssign 0 1, .cbUser 0, .load 1, .last 1, .writerStart]

/-- A run of the constructor, two monitors, one reader and two writers, at the end of which nobody looks
for the second writer. -/
theorem overtaken_lost :
    ∃ s, exec (restrict step Prompt) (init none false) (firstConnection ++ overtaken) = some s ∧
      s.ctor = .done ∧ s.dtor = .idle ∧ s.writer = some 2 ∧ ¬ CanReconnect s := by
  have hrun : ((exec (restrict step Prompt) (init none false) (firstConnection ++ overtaken)).any
      fun s => (s.ctor = .done ∧ s.dtor = .idle ∧ s.writer = some 2) ∧
        (∀ r < s.nextRd, (s.cli r).pc = .ended) ∧ ∀ m < s.nextMon, s.mon m = .done) = true := by
    decide +kernel
  obtain ⟨s, hs, hrun⟩ := (Option.any_eq_true _ _).1 hrun
  obtain ⟨⟨hctor, hdtor, hwriter⟩, hcli, hmon⟩ := of_decide_eq_true hrun
  have hf : Fresh s :=
    exec_invariant (fun _ _ _ hf hst => fresh_of_step hf hst) (exec_of_restrict hs) (fresh_init _ _)
  have hpc (r : ℕ) : (s.cli r).pc = .ended ∨ (s.cli r).pc = .absent :=
    (Nat.lt_or_ge r s.nextRd).imp (hcli r) (hf.cli r)
  refine ⟨s, hs, hctor, hdtor, hwriter, ?_⟩
  rintro (⟨r, -, hr⟩ | ⟨r, hr⟩ | ⟨m, hm, -⟩)
  · rcases hpc r with h | h <;> rw [h] at hr <;> cases hr
  · rcases hpc r with h | h <;> rw [h] at hr <;> cases hr
  · rcases Nat.lt_or_ge m s.nextMon with h | h
    · rw [hmon m h] at hm
      cases hm
    · rw [hf.mon m h] at hm
      cases hm

end Follower

end Shmdata

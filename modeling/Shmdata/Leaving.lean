/-
**Where the monitors and the callbacks of a follower are while it is destroyed.**

Before the destructor begins, a run in turn has a token (`Shmdata.Reconnect`): it is with the client thread of the
reader that is connected, with a callback on its way, or with a monitor.  The destructor takes the token out of
the game, since a callback that finds `is_destructing_` set starts no monitor, but the threads finish what they
have begun in the same order.  What is left of the token says where the threads can be: at most the monitor that
was started last is active, and no monitor is active while a callback is about to start one.

Main definitions:

* `Shmdata.Follower.Lingering`, `Shmdata.Follower.Entering`, `Shmdata.Follower.Looking`, `Shmdata.Follower.Over` —
  the four phases;
* `Shmdata.Follower.Phase` — one of them.

Main results:

* `Shmdata.Follower.Phase.step` — the phases while the follower is destroyed;
* `Shmdata.Follower.Phase.of_token` — the phases before;
* `Shmdata.Follower.inactive_of_lockMonitor` — no monitor is active when a callback is about to start one.
-/

import Shmdata.Destruction

set_option relaxedAutoImplicit false
set_option autoImplicit false

namespace Shmdata

namespace Follower

open Runs

variable {s t : Follower} {a : Act} {as bs : List Act} {m r n : ℕ}

/-! ### The phases -/

/-- The client thread of `r` is connected, and has not found `is_destructing_` set; no monitor looks for a
writer. -/
structure Lingering (s : Follower) (r : ℕ) : Prop where
  linked : (s.cli r).pc.linked = true
  connected : (s.cli r).connected = true
  only : ∀ r', r' ≠ r → (s.cli r').pc.busy = false
  past : ∀ m, Past s.quit r (s.mon m)

/-- The client thread of `r` is about to start a monitor. -/
structure Entering (s : Follower) (r : ℕ) : Prop where
  pc : (s.cli r).pc = .lockMonitor
  only : ∀ r', r' ≠ r → (s.cli r').pc.busy = false
  mon : ∀ m, (s.mon m).inactive = true

/-- The monitor `m` looks for a writer. -/
structure Looking (s : Follower) (m : ℕ) : Prop where
  seeking : (s.mon m).seeking = true
  unheard : ∀ r, s.mon m = .wait r → (s.cli r).connected = false
  others : ∀ m', m' ≠ m → (s.mon m').inactive = true
  none : ∀ r, (s.cli r).pc.busy = false

/-- The monitors that are active are about to leave their loops. -/
structure Over (s : Follower) : Prop where
  none : ∀ r, (s.cli r).pc.busy = false
  owes : ∀ m, Owes s m ∨ (s.mon m).inactive = true

def Phase (s : Follower) : Prop := (∃ r, Lingering s r) ∨ (∃ r, Entering s r) ∨ (∃ m, Looking s m) ∨ Over s

/-- Before the destructor begins, the token is in one of the phases. -/
theorem Phase.of_token (h : Token s) : Phase s := by
  rcases h with h | ⟨r, h⟩ | ⟨r, h⟩ | ⟨m, h⟩
  · exact Or.inr (Or.inr (Or.inr ⟨h.none, fun m => Or.inr (h.mon m)⟩))
  · exact Or.inl ⟨r, h.linked, h.connected, h.only, h.past⟩
  · exact Or.inr (Or.inl ⟨r, h.pc, h.only, h.mon⟩)
  · exact Or.inr (Or.inr (Or.inl ⟨m, h.seeking, h.unheard, h.others, h.none⟩))

/-- No monitor is active when a callback is about to start one. -/
theorem inactive_of_lockMonitor (h : Phase s) (hr : (s.cli r).pc = .lockMonitor) (m : ℕ) :
    (s.mon m).inactive = true := by
  have hbusy : (s.cli r).pc.busy = true := by rw [hr]; rfl
  rcases h with ⟨q, h⟩ | ⟨q, h⟩ | ⟨q, h⟩ | h
  · by_cases hq : r = q
    · have hlinked := h.linked
      rw [← hq, hr] at hlinked
      cases hlinked
    · rw [h.only r hq] at hbusy
      cases hbusy
  · exact h.mon m
  · rw [h.none r] at hbusy
    cases hbusy
  · rw [h.none r] at hbusy
    cases hbusy

/-! ### Steps of other threads -/

theorem owes_congr (hmon : t.mon m = s.mon m) (hquit : t.quit = s.quit ∨ t.quit = true)
    (hconn : ∀ r, (s.cli r).connected = true → (t.cli r).connected = true) (h : Owes s m) : Owes t m := by
  unfold Owes at h ⊢
  rw [hmon]
  cases hpc : s.mon m with
  | wait r =>
      rw [hpc] at h
      exact hconn r h
  | load =>
      rw [hpc] at h
      rcases hquit with hq | hq
      · exact hq.trans h
      · exact hq
  | _ =>
      rw [hpc] at h
      exact h

/-- A step that moves no monitor and no busy client thread. -/
structure Still (s t : Follower) : Prop where
  mon : t.mon = s.mon
  quit : t.quit = s.quit ∨ t.quit = true
  connected : ∀ r, (t.cli r).connected = (s.cli r).connected
  pc : ∀ r, (t.cli r).pc = (s.cli r).pc ∨ (s.cli r).pc.busy = false ∧ (t.cli r).pc.busy = false

namespace Still

theorem busy (h : Still s t) (hr : (s.cli r).pc.busy = false) : (t.cli r).pc.busy = false := by
  rcases h.pc r with hpc | hpc
  · rw [hpc]
    exact hr
  · exact hpc.2

theorem pc_eq (h : Still s t) (hr : (s.cli r).pc.busy = true) : (t.cli r).pc = (s.cli r).pc := by
  rcases h.pc r with hpc | hpc
  · exact hpc
  · rw [hr] at hpc
    cases hpc.1

/-- A step of the destructor, a writer or the data callback. -/
theorem of_cli (hmon : t.mon = s.mon) (hquit : t.quit = s.quit ∨ t.quit = true) (hcli : t.cli = s.cli) :
    Still s t :=
  ⟨hmon, hquit, fun _ => by rw [hcli], fun _ => Or.inl (by rw [hcli])⟩

/-- A client thread that is not busy moves. -/
theorem of_setCli (hmon : t.mon = s.mon) (hquit : t.quit = s.quit) {pc : ClientPc}
    (hcli : t.cli = (s.setCli r pc).cli) (h : (s.cli r).pc.busy = false) (h' : pc.busy = false) : Still s t := by
  refine ⟨hmon, Or.inl hquit, fun r' => ?_, fun r' => ?_⟩
  · rw [hcli, setCli_connected]
  · rw [hcli, setCli_pc]
    split
    · next hr =>
        rw [hr]
        exact Or.inr ⟨h, h'⟩
    · exact Or.inl rfl

theorem phase (hs : Still s t) (h : Phase s) : Phase t := by
  rcases h with ⟨r, h⟩ | ⟨r, h⟩ | ⟨m, h⟩ | h
  · refine Or.inl ⟨r, ?_, ?_, fun r' hr' => hs.busy (h.only r' hr'), fun m => ?_⟩
    · rw [hs.pc_eq (by simp [ClientPc.busy, h.linked])]
      exact h.linked
    · rw [hs.connected]
      exact h.connected
    · rw [hs.mon]
      exact past_mono (h.past m) hs.quit
  · refine Or.inr (Or.inl ⟨r, ?_, fun r' hr' => hs.busy (h.only r' hr'), ?_⟩)
    · rw [hs.pc_eq (by rw [h.pc]; rfl)]
      exact h.pc
    · rw [hs.mon]
      exact h.mon
  · refine Or.inr (Or.inr (Or.inl ⟨m, ?_, fun r hr => ?_, ?_, fun r => hs.busy (h.none r)⟩))
    · rw [hs.mon]
      exact h.seeking
    · rw [hs.connected]
      exact h.unheard r (hs.mon ▸ hr)
    · rw [hs.mon]
      exact h.others
  · refine Or.inr (Or.inr (Or.inr ⟨fun r => hs.busy (h.none r), fun m => ?_⟩))
    refine (h.owes m).imp (owes_congr (by rw [hs.mon]) hs.quit fun r hr => (hs.connected r).trans hr) fun hi => ?_
    rw [hs.mon]
    exact hi

end Still

/-- The steps that are still. -/
theorem still_of_step (hst : s.step a = some t) (ha : a.moving = false) : Still s t := by
  cases trans_of_step hst with
  | @abandoned r hr => exact Still.of_setCli rfl rfl rfl (r := r) (by rw [hr]; rfl) rfl
  | @cbAssign r m hr => exact Still.of_setCli rfl rfl rfl (r := r) (by rw [hr]; rfl) rfl
  | @cbUser r hr => exact Still.of_setCli rfl rfl rfl (r := r) (by rw [hr]; rfl) rfl
  | dtorStore => exact Still.of_cli rfl (Or.inr rfl) rfl
  | dtorLockReader =>
      exact ⟨rfl, Or.inl rfl, fun r => (resetReader_cli s none r).2, fun r => Or.inl (resetReader_cli s none r).1⟩
  | onData | writerStart | writerStop | writerCrash | dtorBegin | dtorLockMonitor | dtorGet | dtorDropped
  | dtorMembers => exact Still.of_cli rfl (Or.inl rfl) rfl
  | _ => cases ha

/-! ### The steps that move the phase -/

/-- A monitor that has made the reader that is connected is about to leave its loop. -/
theorem owes_of_past (h : Past s.quit r (s.mon m)) (hconn : (s.cli r).connected = true) :
    Owes s m ∨ (s.mon m).inactive = true := by
  unfold Owes
  cases hpc : s.mon m with
  | absent | done => exact Or.inr rfl
  | store | last => exact Or.inl trivial
  | load | drop =>
      rw [hpc] at h
      exact Or.inl h
  | wait r' =>
      rw [hpc] at h
      obtain rfl : r' = r := h
      exact Or.inl hconn
  | check | lockReader | new | join | clear =>
      rw [hpc] at h
      exact h.elim

theorem not_ctor {pc : CtorPc} (hctor : s.ctor = .done) (hc : s.ctor = pc) (hpc : pc ≠ .done) : False :=
  hpc (hc.symm.trans hctor)

/-- While a reader is connected. -/
theorem Lingering.step (h : Lingering s r) (hf : Fresh s) (hctor : s.ctor = .done) (hdes : s.isDestructing = true)
    (hok : InTurn s a) (hst : s.step a = some t) (ha : a.moving = true) : Phase t := by
  have heq {r' : ℕ} (hr : (s.cli r').pc.busy = true) : r' = r := by
    by_contra hne
    rw [h.only r' hne] at hr
    cases hr
  have hpast {m' : ℕ} {pc : MonitorPc} (hm : s.mon m' = pc) : Past s.quit r pc := hm ▸ h.past m'
  -- a monitor moves
  have hmonitor (hstores : a.storesFalse = false) (hstarts : a.starts = false)
      (hcli : ∀ r', (t.cli r').pc = (s.cli r').pc ∧ (t.cli r').connected = (s.cli r').connected) : Phase t := by
    refine Or.inl ⟨r, ?_, ?_, fun r' hr' => ?_, past_of_step h.past h.connected hst hstores hstarts⟩
    · rw [(hcli r).1]
      exact h.linked
    · rw [(hcli r).2]
      exact h.connected
    · rw [(hcli r').1]
      exact h.only r' hr'
  cases trans_of_step hst with
  | ctorCheck hc | ctorRefused hc | ctorConnect _ hc | ctorMade hc | ctorTimeout hc | ctorJoined hc
  | ctorAsync hc | ctorAssign hc => exact (not_ctor hctor hc (by simp)).elim
  | load | dropped | store | last => exact hmonitor rfl rfl fun _ => ⟨rfl, rfl⟩
  | check hm | lockReader hm | refused hm | connect _ hm | joined hm | clear hm => exact (hpast hm).elim
  | @made m r' => exact hmonitor rfl rfl (resetReader_cli s (some r'))
  | @timeout m r' hm hconn =>
      obtain rfl : r' = r := hpast hm
      rw [h.connected] at hconn
      cases hconn
  | @onConnect r' hr =>
      -- the only reader that is awaited has connected
      rcases hok.1 with hc | ⟨m, -, hm⟩
      · exact (not_ctor hctor hc (by simp)).elim
      · obtain rfl : r' = r := hpast hm
        have hlinked := h.linked
        rw [hr] at hlinked
        cases hlinked
  | @onDisconnect r' hr =>
      obtain rfl := heq (by rw [hr]; rfl)
      refine Or.inl ⟨r', ?_, ?_, fun q hq => ?_, h.past⟩
      · rw [setCli_pc, if_pos rfl]
        rfl
      · rw [setCli_connected]
        exact h.connected
      · rw [setCli_pc, if_neg hq]
        exact h.only q hq
  | @cbTest r' hr =>
      obtain rfl := heq (by rw [hr]; rfl)
      rw [if_pos hdes]
      refine Or.inr (Or.inr (Or.inr ⟨fun q => ?_, fun m => ?_⟩))
      · rw [setCli_pc]
        split
        · rfl
        · next hq => exact h.only q hq
      · have hkeep : Owes s m → Owes (s.setCli r' .user) m :=
          owes_congr rfl (Or.inl rfl) fun q hq => (setCli_connected ..).trans hq
        exact (owes_of_past (h.past m) h.connected).imp_left hkeep
  | @cbStore r' hr =>
      obtain rfl := heq (by rw [hr]; rfl)
      refine Or.inr (Or.inl ⟨r', (setCli_pc ..).trans (if_pos rfl), fun q hq => ?_, fun m => ?_⟩)
      · rw [show _ = _ from setCli_pc s r' q .lockMonitor, if_neg hq]
        exact h.only q hq
      · -- no monitor owes anything
        by_cases hm : m < s.nextMon
        · exact (owes_of_past (h.past m) h.connected).resolve_left (hok.2 rfl m hm)
        · show (s.mon m).inactive = true
          rw [hf.mon m (by omega)]
          rfl
  | @cbAsync r' hr =>
      obtain rfl := heq (by rw [hr]; rfl)
      have hlinked := h.linked
      rw [hr] at hlinked
      cases hlinked
  | _ => cases ha

/-- While a callback is about to start a monitor. -/
theorem Entering.step (h : Entering s r) (hctor : s.ctor = .done) (hok : InTurn s a) (hst : s.step a = some t)
    (ha : a.moving = true) : Phase t := by
  obtain rfl := eq_cbAsync_of_moving h.pc h.only h.mon hctor hok hst ha
  cases trans_of_step hst with
  | cbAsync =>
      have hnew : s.async.mon s.nextMon = .load := (async_mon ..).trans (if_pos rfl)
      refine Or.inr (Or.inr (Or.inl ⟨s.nextMon, ?_, fun q hq => ?_, fun m hm => ?_, fun q => ?_⟩))
      · show (s.async.mon s.nextMon).seeking = true
        rw [hnew]
        rfl
      · have hq : s.async.mon s.nextMon = .wait q := hq
        rw [hnew] at hq
        cases hq
      · show (s.async.mon m).inactive = true
        rw [async_mon, if_neg hm]
        exact h.mon m
      · rw [show _ = _ from setCli_pc s.async r q (.assign s.nextMon)]
        split
        · rfl
        · next hq => exact h.only q hq

/-- While a monitor looks for a writer. -/
theorem Looking.step (h : Looking s m) (hctor : s.ctor = .done) (hok : InTurn s a) (hst : s.step a = some t)
    (ha : a.moving = true) : Phase t := by
  have heq {m' : ℕ} {pc : MonitorPc} (hm : s.mon m' = pc) (hpc : pc.inactive = false) : m' = m := by
    by_contra hne
    exact not_inactive_of_eq (h.others m' hne) hm hpc
  have hseek {pc : MonitorPc} (hm : s.mon m = pc) : pc.seeking = true := hm ▸ h.seeking
  -- the monitor moves on without having made a valid reader
  have hmove {pc : MonitorPc} (hmon : ∀ m', t.mon m' = if m' = m then pc else s.mon m') (hpc : pc.seeking = true)
      (hheard : ∀ r, pc = .wait r → (t.cli r).connected = false) (hcli : ∀ r, (t.cli r).pc.busy = false) :
      Phase t := by
    have hself : t.mon m = pc := (hmon m).trans (if_pos rfl)
    refine Or.inr (Or.inr (Or.inl ⟨m, hself ▸ hpc, fun r hr => hheard r (hself ▸ hr), fun m' hm' => ?_, hcli⟩))
    rw [hmon, if_neg hm']
    exact h.others m' hm'
  cases trans_of_step hst with
  | ctorCheck hc | ctorRefused hc | ctorConnect _ hc | ctorMade hc | ctorTimeout hc | ctorJoined hc
  | ctorAsync hc | ctorAssign hc => exact (not_ctor hctor hc (by simp)).elim
  | @load q hm =>
      obtain rfl := heq hm rfl
      by_cases hquit : s.quit = true
      · rw [if_pos hquit]
        refine Or.inr (Or.inr (Or.inr ⟨h.none, fun m' => ?_⟩))
        by_cases hne : m' = q
        · left
          unfold Owes
          rw [setMon_mon, if_pos hne]
          trivial
        · right
          rw [setMon_mon, if_neg hne]
          exact h.others m' hne
      · refine hmove (setMon_mon s _ · _) ?_ (fun r hr => ?_) h.none
        · rw [if_neg hquit]
          rfl
        · rw [if_neg hquit] at hr
          cases hr
  | check hm =>
      obtain rfl := heq hm rfl
      refine hmove (setMon_mon s _ · _) ?_ (fun r hr => ?_) h.none
      · split <;> rfl
      · split at hr <;> cases hr
  | lockReader hm | timeout hm | clear hm =>
      obtain rfl := heq hm rfl
      exact hmove (setMon_mon s _ · _) rfl (by simp) h.none
  | refused hm =>
      obtain rfl := heq hm rfl
      exact hmove (setMon_mon _ _ · _) rfl (by simp)
        (Searching.resetReader_busy (Searching.newReader_busy h.none rfl 0) (some s.nextRd))
  | @connect _ w _ hm =>
      obtain rfl := heq hm rfl
      refine hmove (setMon_mon _ _ · _) rfl (fun r hr => ?_) (Searching.newReader_busy h.none rfl w)
      obtain rfl : s.nextRd = r := by simpa using hr
      show ((s.newReader .waiting w).cli s.nextRd).connected = false
      rw [newReader_cli, if_pos rfl]
  | made hm hconn =>
      obtain rfl := heq hm rfl
      rw [h.unheard _ hm] at hconn
      cases hconn
  | @joined _ r hm =>
      obtain rfl := heq hm rfl
      exact hmove (setMon_mon _ _ · _) rfl (by simp) (Searching.resetReader_busy h.none (some r))
  | dropped hm =>
      obtain rfl := heq hm rfl
      have hvalid := hseek hm
      rw [MonitorPc.seeking, Bool.not_eq_true'] at hvalid
      refine hmove (setMon_mon s _ · _) ?_ (fun r hr => ?_) h.none
      · rw [hvalid]
        rfl
      · rw [hvalid] at hr
        cases hr
  | store hm | last hm =>
      obtain rfl := heq hm rfl
      cases hseek hm
  | @onConnect r hr =>
      rcases hok.1 with hc | ⟨m', -, hm⟩
      · exact (not_ctor hctor hc (by simp)).elim
      · obtain rfl := heq hm rfl
        refine Or.inl ⟨r, ?_, ?_, fun q hq => ?_, fun q => ?_⟩
        · rw [hearConnect_pc, if_pos rfl]
          rfl
        · rw [hearConnect_connected, if_pos rfl]
        · rw [hearConnect_pc, if_neg hq]
          exact h.none q
        · show Past s.quit r (s.mon q)
          by_cases hq : q = m'
          · rw [hq, hm]
            rfl
          · exact past_of_inactive (h.others q hq)
  | onDisconnect hr | cbTest hr | cbStore hr | cbAsync hr => exact (not_busy_of_eq h.none hr rfl).elim
  | _ => cases ha

/-- When all active monitors are about to leave their loops. -/
theorem Over.step (h : Over s) (hctor : s.ctor = .done)
    (hwaiting : ∀ r, (s.cli r).pc = .waiting → (s.cli r).connected = false) (hok : InTurn s a)
    (hst : s.step a = some t) (ha : a.moving = true) : Phase t := by
  have howes {m : ℕ} {pc : MonitorPc} (hm : s.mon m = pc) (hpc : pc.inactive = false) : Owes s m := by
    refine (h.owes m).resolve_right fun hi => ?_
    exact not_inactive_of_eq hi hm hpc
  -- a monitor moves on
  have hmove {m : ℕ} {pc : MonitorPc} (hmon : ∀ m', t.mon m' = if m' = m then pc else s.mon m')
      (hquit : t.quit = s.quit ∨ t.quit = true)
      (hcli : ∀ r, (t.cli r).pc = (s.cli r).pc ∧ (t.cli r).connected = (s.cli r).connected)
      (hpc : Owes t m ∨ pc.inactive = true) : Phase t := by
    refine Or.inr (Or.inr (Or.inr ⟨fun r => ?_, fun m' => ?_⟩))
    · rw [(hcli r).1]
      exact h.none r
    · by_cases hm' : m' = m
      · rw [hm', hmon, if_pos rfl]
        exact hpc
      · have hsame : t.mon m' = s.mon m' := (hmon m').trans (if_neg hm')
        rw [hsame]
        exact (h.owes m').imp_left (owes_congr hsame hquit fun r hr => (hcli r).2.trans hr)
  have hself {u : Follower} {m : ℕ} {pc : MonitorPc} : (u.setMon m pc).mon m = pc :=
    (setMon_mon ..).trans (if_pos rfl)
  cases trans_of_step hst with
  | ctorCheck hc | ctorRefused hc | ctorConnect _ hc | ctorMade hc | ctorTimeout hc | ctorJoined hc
  | ctorAsync hc | ctorAssign hc => exact (not_ctor hctor hc (by simp)).elim
  | load hm =>
      have hquit : s.quit = true := by simpa only [Owes, hm] using howes hm rfl
      refine hmove (setMon_mon s _ · _) (Or.inl rfl) (fun _ => ⟨rfl, rfl⟩) (Or.inl ?_)
      unfold Owes
      rw [hself, if_pos hquit]
      trivial
  | check hm | lockReader hm | refused hm | connect _ hm | joined hm | clear hm =>
      have ho : False := by simpa only [Owes, hm] using howes hm rfl
      exact ho.elim
  | @made m r hm =>
      refine hmove (setMon_mon _ _ · _) (Or.inl rfl) (resetReader_cli s (some r)) (Or.inl ?_)
      unfold Owes
      rw [hself]
  | @timeout m r hm hconn =>
      have ho : (s.cli r).connected = true := by simpa only [Owes, hm] using howes hm rfl
      rw [ho] at hconn
      cases hconn
  | @dropped m old valid hm =>
      have hvalid : valid = true := by simpa only [Owes, hm] using howes hm rfl
      refine hmove (setMon_mon s _ · _) (Or.inl rfl) (fun _ => ⟨rfl, rfl⟩) (Or.inl ?_)
      unfold Owes
      rw [hself, if_pos hvalid]
      trivial
  | store hm =>
      refine hmove (setMon_mon s _ · _) (Or.inr rfl) (fun _ => ⟨rfl, rfl⟩) (Or.inl ?_)
      unfold Owes
      rw [show _ = _ from hself (u := s)]
  | last hm => exact hmove (setMon_mon s _ · _) (Or.inr rfl) (fun _ => ⟨rfl, rfl⟩) (Or.inr rfl)
  | @onConnect r hr =>
      rcases hok.1 with hc | ⟨m, -, hm⟩
      · exact (not_ctor hctor hc (by simp)).elim
      · have ho : (s.cli r).connected = true := by simpa only [Owes, hm] using howes hm rfl
        rw [hwaiting r hr] at ho
        cases ho
  | onDisconnect hr | cbTest hr | cbStore hr | cbAsync hr => exact (not_busy_of_eq h.none hr rfl).elim
  | _ => cases ha

/-- **The phases while the follower is destroyed.** -/
theorem Phase.step (h : Phase s) (hf : Fresh s) (hctor : s.ctor = .done) (hdes : s.isDestructing = true)
    (hwaiting : ∀ r, (s.cli r).pc = .waiting → (s.cli r).connected = false) (hok : InTurn s a)
    (hst : s.step a = some t) : Phase t := by
  cases ha : a.moving with
  | false => exact (still_of_step hst ha).phase h
  | true =>
      rcases h with ⟨r, h⟩ | ⟨r, h⟩ | ⟨m, h⟩ | h
      · exact h.step hf hctor hdes hok hst ha
      · exact h.step hctor hok hst ha
      · exact h.step hctor hok hst ha
      · exact h.step hctor hwaiting hok hst ha

end Follower

end Shmdata

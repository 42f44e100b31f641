/-
**The callbacks of a follower alternate, unless a reader overtakes the disconnect callback.**

`Follower::on_server_disconnected` starts the next monitor before it calls the user's disconnect
callback, so that the monitor may find the next writer and its reader may make its connect callback
before the disconnect callback for the old one.  That is the only way in which the callbacks of a
follower get out of order: in the runs where no reader receives its connect message while a disconnect
callback is under way, they are a sequence of sessions, each of them a connect callback, any number of
data callbacks and a disconnect callback, and the beginning of one more.

The argument counts the monitors.  The assignment to `monitor_` waits for the monitor it replaces, so
when no callback is under way at most one monitor is active, and while a reader is connected the monitors
do not matter.

Main definitions:

* `Shmdata.Follower.session`, `Shmdata.Follower.Alternates` — the order of the callbacks;
* `Shmdata.Follower.Apart` — prompt runs in which no connect callback overtakes a disconnect callback;
* `Shmdata.Follower.Sessions` — the invariant.

Main results:

* `Shmdata.Follower.alternates_of_apart` — **the callbacks of such a run alternate**;
* `Shmdata.Follower.overlap_not_alternates` — a run with two connect callbacks in a row.
-/

import Shmdata.Reconnect

set_option relaxedAutoImplicit false
set_option autoImplicit false

namespace Shmdata

namespace Follower

open Runs

variable {s t : Follower} {a : Act} {m r : ℕ}

/-! ### The order of the callbacks -/

/-- The callbacks that a reader makes, with `n` frames. -/
def session (r n : ℕ) : List Event :=
  .connected r :: List.replicate n (.data r) ++ [.disconnected r]

/-- Sessions one after the other, and the beginning of one more. -/
def Alternates (l : List Event) : Prop :=
  ∃ (done : List (ℕ × ℕ)) (r n : ℕ) (rest : List Event),
    rest <+: session r n ∧ l = (done.flatMap fun p => session p.1 p.2) ++ rest

/-- Between two sessions. -/
def Outside (l : List Event) : Prop := ∃ done : List (ℕ × ℕ), l = done.flatMap fun p => session p.1 p.2

/-- In the session of the reader `r`. -/
def Inside (r : ℕ) (l : List Event) : Prop :=
  ∃ (done : List (ℕ × ℕ)) (n : ℕ),
    l = (done.flatMap fun p => session p.1 p.2) ++ .connected r :: List.replicate n (.data r)

theorem Outside.connected {l : List Event} (h : Outside l) (r : ℕ) : Inside r (l ++ [.connected r]) := by
  obtain ⟨done, rfl⟩ := h
  exact ⟨done, 0, rfl⟩

theorem Inside.data {l : List Event} (h : Inside r l) : Inside r (l ++ [.data r]) := by
  obtain ⟨done, n, rfl⟩ := h
  refine ⟨done, n + 1, ?_⟩
  rw [List.replicate_succ', List.append_assoc, List.cons_append]

theorem Inside.disconnected {l : List Event} (h : Inside r l) : Outside (l ++ [.disconnected r]) := by
  obtain ⟨done, n, rfl⟩ := h
  refine ⟨done ++ [(r, n)], ?_⟩
  simp [session]

theorem Outside.alternates {l : List Event} (h : Outside l) : Alternates l := by
  obtain ⟨done, rfl⟩ := h
  exact ⟨done, 0, 0, [], List.nil_prefix, (List.append_nil _).symm⟩

theorem Inside.alternates {l : List Event} (h : Inside r l) : Alternates l := by
  obtain ⟨done, n, rfl⟩ := h
  exact ⟨done, r, n, _, List.prefix_append .., rfl⟩

/-- The second callback of a session is not a connect callback. -/
theorem second_of_session (r n : ℕ) (l : List Event) :
    ∃ e l', session r n ++ l = .connected r :: e :: l' ∧ ∀ r', e ≠ .connected r' := by
  cases n with
  | zero => exact ⟨.disconnected r, l, rfl, by simp⟩
  | succ n => exact ⟨.data r, List.replicate n (.data r) ++ [.disconnected r] ++ l, rfl, by simp⟩

/-- Two connect callbacks in a row are out of order. -/
theorem not_alternates_of_connected (e : Event) (r : ℕ) (l : List Event) :
    ¬ Alternates (e :: .connected r :: l) := by
  rintro ⟨done, q, n, rest, ⟨tail, hrest⟩, h⟩
  cases done with
  | nil =>
      obtain ⟨e', l', hs, hne⟩ := second_of_session q n []
      rw [List.append_nil, ← hrest, show rest = e :: .connected r :: l from h.symm] at hs
      simp only [List.cons_append, List.cons.injEq] at hs
      exact hne r hs.2.1.symm
  | cons p done =>
      obtain ⟨e', l', hs, hne⟩ := second_of_session p.1 p.2
        ((done.flatMap fun p => session p.1 p.2) ++ rest)
      rw [List.flatMap_cons, List.append_assoc, hs] at h
      simp only [List.cons.injEq] at h
      exact hne r h.2.1.symm

/-! ### Connect callbacks apart from disconnect callbacks -/

/-- The connect callback was made, and the disconnect callback was not. -/
def ClientPc.isOpen : ClientPc → Bool
  | .live | .test | .store | .lockMonitor | .assign _ | .user => true
  | _ => false

/-- `Follower::on_server_disconnected` is under way, and has not called the user's callback. -/
def ClientPc.inCallback : ClientPc → Bool
  | .live => false
  | pc => pc.isOpen

def Act.connects : Act → Bool
  | .onConnect _ => true
  | _ => false

/-- A prompt step; a reader receives its connect message only when no disconnect callback is under
way. -/
def Apart (s : Follower) (a : Act) : Prop :=
  Prompt s a ∧ (a.connects = true → ∀ r < s.nextRd, (s.cli r).pc.inCallback = false)

instance (s : Follower) (a : Act) : Decidable (Apart s a) := inferInstanceAs (Decidable (_ ∧ _))

/-- What holds in every state of a run whose connect callbacks are apart. -/
structure Sessions (s : Follower) : Prop where
  fresh : Fresh s
  trace : (∀ r, (s.cli r).pc.isOpen = false) ∧ Outside s.trace ∨
    ∃ r, (s.cli r).pc.isOpen = true ∧ (∀ r', (s.cli r').pc.isOpen = true → r' = r) ∧ Inside r s.trace
  heard : ∀ r, (s.cli r).pc.isOpen = true → (s.cli r).connected = true
  past : ∀ r, (s.cli r).pc = .live → ∀ m, Past s.quit r (s.mon m)
  linkedCtor : ∀ r, (s.cli r).pc = .live →
    s.ctor = .wait r ∨ (∃ m, s.ctor = .assign m) ∨ s.ctor = .done
  active : ∀ m, (s.mon m).inactive = false →
    s.monitor = some m ∨ (∃ r, (s.cli r).pc = .assign m) ∨ s.ctor = .assign m
  mtx : ∀ r m, (s.cli r).pc = .assign m → s.monitorMtx = some (.client r)
  getting : s.dtor = .get → s.monitorMtx = some .user
  early : s.ctor ≠ .done → s.monitor = none ∧
    ∀ r, (s.cli r).pc ≠ .lockMonitor ∧ ∀ m, (s.cli r).pc ≠ .assign m
  starting : s.ctor ≠ .done → (∀ m, s.ctor ≠ .assign m) → ∀ m, (s.mon m).inactive = true

theorem sessions_init (writer : Option ℕ) (file : Bool) : Sessions (init writer file) where
  fresh := fresh_init writer file
  trace := Or.inl ⟨fun _ => rfl, [], rfl⟩
  heard _ h := by cases h
  past _ h := by cases h
  linkedCtor _ h := by cases h
  active _ h := by cases h
  mtx _ _ h := by cases h
  getting h := by cases h
  early _ := ⟨rfl, fun _ => ⟨by simp [init], by simp [init]⟩⟩
  starting _ _ _ := rfl

/-! ### The moves of a client thread -/

/-- What a step does to the client thread of `r`: where it was, and where it is. -/
inductive ClientMove (s : Follower) (r : ℕ) : Act → ClientPc → ClientPc → Prop
  | stay {a : Act} {pc : ClientPc} : a ≠ .onConnect r → a ≠ .cbUser r → ClientMove s r a pc pc
  | new {a : Act} {pc pc' : ClientPc} : r = s.nextRd → pc' = .waiting ∨ pc' = .ended →
      a.connects = false → a.starts = false → a.storesFalse = false → a ≠ .cbUser r →
      ClientMove s r a pc pc'
  | onConnect : ClientMove s r (.onConnect r) .waiting .live
  | onDisconnect : ClientMove s r (.onDisconnect r) .live .test
  | abandoned : ClientMove s r (.abandoned r) .waiting .ended
  | cbTest {pc' : ClientPc} : pc' = .user ∨ pc' = .store → ClientMove s r (.cbTest r) .test pc'
  | cbStore : ClientMove s r (.cbStore r) .store .lockMonitor
  | cbAsync : ClientMove s r (.cbAsync r) .lockMonitor (.assign s.nextMon)
  | cbAssign {m : ℕ} : ClientMove s r (.cbAssign r m) (.assign m) .user
  | cbUser : ClientMove s r (.cbUser r) .user .ended

theorem clientMove_of_step (hst : s.step a = some t) (r : ℕ) :
    ClientMove s r a (s.cli r).pc (t.cli r).pc := by
  have hstay {b : Act} {pc : ClientPc} (h : pc = (s.cli r).pc) (h1 : b ≠ .onConnect r)
      (h2 : b ≠ .cbUser r) : ClientMove s r b (s.cli r).pc pc := h ▸ .stay h1 h2
  -- the client thread is the one that moves, or another one is
  have hmove {b : Act} {r' : ℕ} {pc pc' : ClientPc} (hr : (s.cli r').pc = pc)
      (hself : r = r' → ClientMove s r b pc pc')
      (hother : r ≠ r' → b ≠ .onConnect r ∧ b ≠ .cbUser r) :
      ClientMove s r b (s.cli r).pc (if r = r' then pc' else (s.cli r).pc) := by
    split
    · next h =>
        have hpc : (s.cli r).pc = pc := h ▸ hr
        exact hpc ▸ hself h
    · next h => exact .stay (hother h).1 (hother h).2
  have hnew {b : Act} (pc : ClientPc) (w : ℕ) (hpc : pc = .waiting ∨ pc = .ended)
      (h1 : b.connects = false) (h2 : b.starts = false) (h3 : b.storesFalse = false)
      (h4 : ∀ r, b ≠ .cbUser r) :
      ClientMove s r b (s.cli r).pc ((s.newReader pc w).cli r).pc := by
    rw [newReader_cli]
    split
    · next h => exact .new h hpc h1 h2 h3 (h4 r)
    · refine .stay ?_ (h4 r)
      rintro rfl
      cases h1
  cases trans_of_step hst with
  | ctorRefused => exact hnew .ended 0 (Or.inr rfl) rfl rfl rfl (by simp)
  | @ctorConnect w => exact hnew .waiting w (Or.inl rfl) rfl rfl rfl (by simp)
  | refused =>
      have hpc := (resetReader_cli (s.newReader .ended 0) (some s.nextRd) r).1
      exact hpc ▸ hnew .ended 0 (Or.inr rfl) rfl rfl rfl (by simp)
  | @connect m w => exact hnew .waiting w (Or.inl rfl) rfl rfl rfl (by simp)
  | @made m r' => exact hstay (resetReader_cli s (some r') r).1 (by simp) (by simp)
  | @joined m r' => exact hstay (resetReader_cli s (some r') r).1 (by simp) (by simp)
  | dtorLockReader => exact hstay (resetReader_cli s none r).1 (by simp) (by simp)
  | @onConnect r' hr =>
      rw [hearConnect_pc]
      refine hmove hr (fun h => h ▸ .onConnect) fun h => ⟨?_, by simp⟩
      simpa using Ne.symm h
  | @onDisconnect r' hr =>
      rw [setCli_pc]
      exact hmove hr (fun h => h ▸ .onDisconnect) fun _ => ⟨by simp, by simp⟩
  | @abandoned r' hr =>
      rw [setCli_pc]
      exact hmove hr (fun h => h ▸ .abandoned) fun _ => ⟨by simp, by simp⟩
  | @cbTest r' hr =>
      rw [setCli_pc]
      refine hmove hr (fun h => h ▸ .cbTest ?_) fun _ => ⟨by simp, by simp⟩
      split
      · exact Or.inl rfl
      · exact Or.inr rfl
  | @cbStore r' hr =>
      rw [show _ = _ from setCli_pc s r' r .lockMonitor]
      exact hmove hr (fun h => h ▸ .cbStore) fun _ => ⟨by simp, by simp⟩
  | @cbAsync r' hr =>
      rw [show _ = _ from setCli_pc s.async r' r (.assign s.nextMon)]
      exact hmove hr (fun h => h ▸ .cbAsync) fun _ => ⟨by simp, by simp⟩
  | @cbAssign r' m hr =>
      rw [show _ = _ from setCli_pc s r' r .user]
      exact hmove hr (fun h => h ▸ .cbAssign) fun _ => ⟨by simp, by simp⟩
  | @cbUser r' hr =>
      rw [show _ = _ from setCli_pc s r' r .ended]
      refine hmove hr (fun h => h ▸ .cbUser) fun h => ⟨by simp, ?_⟩
      simpa using Ne.symm h
  | _ => exact .stay (by simp) (by simp)

/-- Only the connect message and the end of the callback open and close a session. -/
theorem isOpen_of_step (hf : Fresh s) (hst : s.step a = some t) (h1 : a ≠ .onConnect r)
    (h2 : a ≠ .cbUser r) : (t.cli r).pc.isOpen = (s.cli r).pc.isOpen := by
  have hmove := clientMove_of_step hst r
  have hfresh := hf.cli r
  generalize (s.cli r).pc = pc at *
  generalize (t.cli r).pc = pc' at *
  cases hmove with
  | stay => rfl
  | new hr hpc =>
      rw [hfresh (by omega)]
      rcases hpc with rfl | rfl <;> rfl
  | onConnect => exact absurd rfl h1
  | cbTest hpc => rcases hpc with rfl | rfl <;> rfl
  | cbUser => exact absurd rfl h2
  | onDisconnect | abandoned | cbStore | cbAsync | cbAssign => rfl

theorem live_of_step (hst : s.step a = some t) (h : (t.cli r).pc = .live) (ha : a ≠ .onConnect r) :
    (s.cli r).pc = .live := by
  have hmove := clientMove_of_step hst r
  rw [h] at hmove
  generalize (s.cli r).pc = pc at *
  cases hmove with
  | stay => rfl
  | new _ hpc => rcases hpc with h | h <;> cases h
  | onConnect => exact absurd rfl ha
  | cbTest hpc => rcases hpc with h | h <;> cases h

theorem assign_of_step (hst : s.step a = some t) (h : (t.cli r).pc = .assign m) :
    (s.cli r).pc = .assign m ∨ a = .cbAsync r ∧ m = s.nextMon := by
  have hmove := clientMove_of_step hst r
  rw [h] at hmove
  generalize (s.cli r).pc = pc at *
  cases hmove with
  | stay => exact Or.inl rfl
  | new _ hpc => rcases hpc with h | h <;> cases h
  | cbTest hpc => rcases hpc with h | h <;> cases h
  | cbAsync => exact Or.inr ⟨rfl, rfl⟩

theorem lockMonitor_of_step (hst : s.step a = some t) (h : (t.cli r).pc = .lockMonitor) :
    (s.cli r).pc = .lockMonitor ∨ a = .cbStore r := by
  have hmove := clientMove_of_step hst r
  rw [h] at hmove
  generalize (s.cli r).pc = pc at *
  cases hmove with
  | stay => exact Or.inl rfl
  | new _ hpc => rcases hpc with h | h <;> cases h
  | cbTest hpc => rcases hpc with h | h <;> cases h
  | cbStore => exact Or.inr rfl

theorem assign_or_cbAssign (hf : Fresh s) (hst : s.step a = some t) (h : (s.cli r).pc = .assign m) :
    (t.cli r).pc = .assign m ∨ a = .cbAssign r m := by
  have hmove := clientMove_of_step hst r
  have hfresh := hf.cli r
  rw [h] at hmove hfresh
  generalize (t.cli r).pc = pc' at *
  cases hmove with
  | stay => exact Or.inl rfl
  | new hr =>
      have := hfresh (by omega)
      cases this
  | cbAssign => exact Or.inr rfl

/-- Only active monitors and new ones move. -/
theorem active_of_step (hst : s.step a = some t) (h : (t.mon m).inactive = false) :
    (s.mon m).inactive = false ∨ a.starts = true ∧ m = s.nextMon := by
  have hmove {m' : ℕ} {pc pc' : MonitorPc} (hm : s.mon m' = pc) (hpc : pc.inactive = false)
      (h : (if m = m' then pc' else s.mon m).inactive = false) : (s.mon m).inactive = false := by
    split at h
    · next heq => rw [heq, hm, hpc]
    · exact h
  cases trans_of_step hst with
  | ctorAsync | cbAsync =>
      have h : (s.async.mon m).inactive = false := h
      rw [async_mon] at h
      split at h
      · next heq => exact Or.inr ⟨rfl, heq⟩
      · exact Or.inl h
  | load hm | check hm | lockReader hm | refused hm | connect _ hm | made hm | timeout hm | joined hm
  | dropped hm | store hm | clear hm | last hm =>
      exact Or.inl (hmove hm rfl ((setMon_mon _ _ m _) ▸ h))
  | _ => exact Or.inl h

/-- The threads that are between locking and unlocking `monitor_mtx_` hold it. -/
structure MonitorHeld (s : Follower) : Prop where
  assign : ∀ r m, (s.cli r).pc = .assign m → s.monitorMtx = some (.client r)
  get : s.dtor = .get → s.monitorMtx = some .user

namespace MonitorHeld

theorem assign_step (h : MonitorHeld s) (hst : s.step a = some t) (r m : ℕ)
    (hr : (t.cli r).pc = .assign m) : t.monitorMtx = some (.client r) := by
  rcases assign_of_step hst hr with hr' | ⟨rfl, -⟩
  · have hmtx := h.assign r m hr'
    cases trans_of_step hst with
    | cbAsync _ hnone | dtorLockMonitor _ hnone =>
        rw [hmtx] at hnone
        cases hnone
    | @cbAssign r' m' hr'' =>
        have hr'' := h.assign r' m' hr''
        rw [hmtx] at hr''
        cases hr''
        rw [show _ = _ from setCli_pc s r r .user, if_pos rfl] at hr
        cases hr
    | dtorGet hd =>
        have hget := h.get hd
        rw [hmtx] at hget
        cases hget
    | _ => exact hmtx
  · cases trans_of_step hst with
    | cbAsync => rfl

theorem get_step (h : MonitorHeld s) (hst : s.step a = some t) (hd : t.dtor = .get) :
    t.monitorMtx = some .user := by
  cases trans_of_step hst with
  | dtorLockMonitor => rfl
  | dtorBegin | dtorStore | dtorGet | dtorLockReader | dtorDropped | dtorMembers => cases hd
  | cbAsync _ hnone =>
      rw [h.get hd] at hnone
      cases hnone
  | cbAssign hr =>
      have hmtx := h.assign _ _ hr
      rw [h.get hd] at hmtx
      cases hmtx
  | _ => exact h.get hd

theorem step (h : MonitorHeld s) (hst : s.step a = some t) : MonitorHeld t :=
  ⟨h.assign_step hst, h.get_step hst⟩

end MonitorHeld

/-! ### The invariant of the runs apart -/

namespace Sessions

theorem monitorHeld (h : Sessions s) : MonitorHeld s := ⟨h.mtx, h.getting⟩

/-- At most one reader is in a session. -/
theorem eq_of_isOpen (h : Sessions s) {r r' : ℕ} (hr : (s.cli r).pc.isOpen = true)
    (hr' : (s.cli r').pc.isOpen = true) : r = r' := by
  rcases h.trace with ⟨hnone, -⟩ | ⟨q, -, honly, -⟩
  · rw [hnone r] at hr
    cases hr
  · exact (honly r hr).trans (honly r' hr').symm

/-- A reader that is awaited receives its connect message between two sessions. -/
theorem outside_of_connect (h : Sessions s) (hok : Apart s (.onConnect r))
    (hr : (s.cli r).pc = .waiting) : (∀ r, (s.cli r).pc.isOpen = false) ∧ Outside s.trace := by
  refine h.trace.resolve_right ?_
  rintro ⟨q, hq, -, -⟩
  have hlt : q < s.nextRd := by
    by_contra hlt
    rw [h.fresh.cli q (by omega)] at hq
    cases hq
  have hcb := hok.2 rfl q hlt
  have hlive : (s.cli q).pc = .live := by
    cases hpc : (s.cli q).pc with
    | live => rfl
    | _ =>
        rw [hpc] at hq hcb
        exact absurd (hq.symm.trans hcb) (by simp)
  have hne : r ≠ q := by
    rintro rfl
    rw [hr] at hlive
    cases hlive
  -- whoever awaits `r` would matter while `q` is connected
  rcases hok.1 with hc | ⟨m, -, hm⟩
  · have hctor := h.linkedCtor q hlive
    exact hne (by simpa [hc] using hctor)
  · have hpast := h.past q hlive m
    rw [hm] at hpast
    exact hne hpast

/-- Between two sessions at most one monitor is active. -/
theorem eq_of_active (h : Sessions s) (hnone : ∀ r, (s.cli r).pc.isOpen = false) {m m' : ℕ}
    (hm : (s.mon m).inactive = false) (hm' : (s.mon m').inactive = false) : m = m' := by
  have hone {n : ℕ} (hn : (s.mon n).inactive = false) :
      s.ctor = .done ∧ s.monitor = some n ∨ s.ctor = .assign n := by
    rcases h.active n hn with hmon | ⟨r, hr⟩ | hc
    · refine Or.inl ⟨?_, hmon⟩
      by_contra hctor
      rw [(h.early hctor).1] at hmon
      cases hmon
    · have hopen := hnone r
      rw [hr] at hopen
      cases hopen
    · exact Or.inr hc
  rcases hone hm with ⟨hc, hmon⟩ | hc <;> rcases hone hm' with ⟨hc', hmon'⟩ | hc'
  · exact Option.some.inj (hmon.symm.trans hmon')
  · rw [hc] at hc'
    cases hc'
  · rw [hc] at hc'
    cases hc'
  · rw [hc] at hc'
    cases hc'
    rfl

theorem trace_step (h : Sessions s) (hok : Apart s a) (hst : s.step a = some t) :
    (∀ r, (t.cli r).pc.isOpen = false) ∧ Outside t.trace ∨
      ∃ r, (t.cli r).pc.isOpen = true ∧ (∀ r', (t.cli r').pc.isOpen = true → r' = r) ∧
        Inside r t.trace := by
  have hopen (r : ℕ) := isOpen_of_step (r := r) h.fresh hst
  cases trans_of_step hst with
  | @onConnect r hr =>
      obtain ⟨hnone, hout⟩ := h.outside_of_connect hok hr
      refine Or.inr ⟨r, ?_, fun r' hr' => ?_, hout.connected r⟩
      · rw [hearConnect_pc, if_pos rfl]
        rfl
      · by_contra hne
        rw [hopen r' (by simpa using Ne.symm hne) (by simp), hnone r'] at hr'
        cases hr'
  | @onData r hr =>
      rcases h.trace with ⟨hnone, -⟩ | ⟨q, hq, honly, hin⟩
      · have hr' := hnone r
        rw [hr] at hr'
        cases hr'
      · obtain rfl := honly r (by rw [hr]; rfl)
        exact Or.inr ⟨r, hq, honly, hin.data⟩
  | @cbUser r hr =>
      rcases h.trace with ⟨hnone, -⟩ | ⟨q, hq, honly, hin⟩
      · have hr' := hnone r
        rw [hr] at hr'
        cases hr'
      · obtain rfl := honly r (by rw [hr]; rfl)
        refine Or.inl ⟨fun r' => ?_, hin.disconnected⟩
        rw [show _ = _ from setCli_pc s r r' .ended]
        split
        · rfl
        · next hne =>
            cases hr' : (s.cli r').pc.isOpen with
            | false => rfl
            | true => exact absurd (honly r' hr') hne
  | _ =>
      have heq (r : ℕ) := hopen r (by simp) (by simp)
      rcases h.trace with ⟨hnone, hout⟩ | ⟨q, hq, honly, hin⟩
      · exact Or.inl ⟨fun r => (heq r).trans (hnone r), hout⟩
      · exact Or.inr ⟨q, (heq q).trans hq, fun r' hr' => honly r' ((heq r').symm.trans hr'), hin⟩

theorem heard_step (h : Sessions s) (hst : s.step a = some t) (r : ℕ)
    (hr : (t.cli r).pc.isOpen = true) : (t.cli r).connected = true := by
  by_cases h1 : a = .onConnect r
  · subst h1
    cases trans_of_step hst with
    | onConnect => rw [hearConnect_connected, if_pos rfl]
  · have hopen : (s.cli r).pc.isOpen = true := by
      by_cases h2 : a = .cbUser r
      · subst h2
        cases trans_of_step hst with
        | cbUser =>
            rw [show _ = _ from setCli_pc s r r .ended, if_pos rfl] at hr
            cases hr
      · exact (isOpen_of_step h.fresh hst h1 h2).symm.trans hr
    have hlt : r < s.nextRd := by
      by_contra hlt
      rw [h.fresh.cli r (by omega)] at hopen
      cases hopen
    exact connected_of_step hst hlt (h.heard r hopen)

theorem linkedCtor_step (h : Sessions s) (hok : Apart s a) (hst : s.step a = some t) (r : ℕ)
    (hr : (t.cli r).pc = .live) :
    t.ctor = .wait r ∨ (∃ m, t.ctor = .assign m) ∨ t.ctor = .done := by
  by_cases h1 : a = .onConnect r
  · subst h1
    cases trans_of_step hst with
    | onConnect =>
        rcases hok.1 with hc | ⟨m, -, hm⟩
        · exact Or.inl hc
        · by_cases hdone : s.ctor = .done
          · exact Or.inr (Or.inr hdone)
          · refine Or.inr (Or.inl ?_)
            by_contra hassign
            have hi := h.starting hdone (fun m hm => hassign ⟨m, hm⟩) m
            rw [hm] at hi
            cases hi
  · have hlive := live_of_step hst hr h1
    have hctor := h.linkedCtor r hlive
    cases trans_of_step hst with
    | ctorCheck hc | ctorRefused hc | ctorConnect _ hc | ctorJoined hc | ctorAsync hc => simp [hc] at hctor
    | @ctorTimeout r' hc hconn =>
        obtain rfl : r' = r := by simpa [hc] using hctor
        rw [h.heard r' (by rw [hlive]; rfl)] at hconn
        cases hconn
    | ctorMade | ctorAssign => exact Or.inr (Or.inr rfl)
    | _ => exact hctor

theorem past_step (h : Sessions s) (hok : Apart s a) (hst : s.step a = some t) (r : ℕ)
    (hr : (t.cli r).pc = .live) (m : ℕ) : Past t.quit r (t.mon m) := by
  by_cases h1 : a = .onConnect r
  · subst h1
    cases trans_of_step hst with
    | onConnect hw =>
        show Past s.quit r (s.mon m)
        obtain ⟨hnone, -⟩ := h.outside_of_connect hok hw
        cases hi : (s.mon m).inactive with
        | true => exact past_of_inactive hi
        | false =>
            rcases hok.1 with hc | ⟨m', -, hm'⟩
            · rw [h.starting (by simp [hc]) (by simp [hc]) m] at hi
              cases hi
            · have hi' : (s.mon m').inactive = false := by
                rw [hm']
                rfl
              rw [h.eq_of_active hnone hi hi', hm']
              rfl
  · have hlive := live_of_step hst hr h1
    have hopen : (s.cli r).pc.isOpen = true := by
      rw [hlive]
      rfl
    -- another reader in its callback would be in a session too
    have hother {r' : ℕ} {pc : ClientPc} (hr' : (s.cli r').pc = pc) (hpc : pc.isOpen = true)
        (hne : pc ≠ .live) : False := by
      have hopen' : (s.cli r').pc.isOpen = true := by rw [hr', hpc]
      exact hne (hr'.symm.trans (h.eq_of_isOpen hopen hopen' ▸ hlive))
    refine past_of_step (h.past r hlive) (h.heard r hopen) hst ?_ ?_ m
    · cases trans_of_step hst with
      | cbStore hr' => exact (hother hr' rfl (by simp)).elim
      | _ => rfl
    · cases trans_of_step hst with
      | ctorAsync hc =>
          have hctor := h.linkedCtor r hlive
          simp [hc] at hctor
      | cbAsync hr' => exact (hother hr' rfl (by simp)).elim
      | _ => rfl

/-- The future in `monitor_` is not replaced while its monitor is active. -/
theorem not_ready_of_active (hi : (s.mon m).inactive = false) (hm : s.monitor = some m) : ¬ s.Ready := by
  intro hready
  rw [hready m hm] at hi
  cases hi

theorem active_step (h : Sessions s) (hst : s.step a = some t) (m : ℕ)
    (hm : (t.mon m).inactive = false) :
    t.monitor = some m ∨ (∃ r, (t.cli r).pc = .assign m) ∨ t.ctor = .assign m := by
  rcases active_of_step hst hm with hi | ⟨ha, rfl⟩
  · rcases h.active m hi with hmon | ⟨r, hr⟩ | hc
    · refine Or.inl ?_
      cases trans_of_step hst with
      | ctorAssign _ hready | cbAssign _ hready | dtorGet _ hready =>
          exact absurd hready (not_ready_of_active hi hmon)
      | _ => exact hmon
    · rcases assign_or_cbAssign h.fresh hst hr with hr | rfl
      · exact Or.inr (Or.inl ⟨r, hr⟩)
      · cases trans_of_step hst with
        | cbAssign => exact Or.inl rfl
    · cases trans_of_step hst with
      | ctorCheck hc' | ctorRefused hc' | ctorConnect _ hc' | ctorMade hc' | ctorTimeout hc'
      | ctorJoined hc' | ctorAsync hc' =>
          rw [hc] at hc'
          cases hc'
      | ctorAssign hc' =>
          rw [hc] at hc'
          cases hc'
          exact Or.inl rfl
      | _ => exact Or.inr (Or.inr hc)
  · cases trans_of_step hst with
    | ctorAsync => exact Or.inr (Or.inr rfl)
    | @cbAsync r => exact Or.inr (Or.inl ⟨r, (setCli_pc s.async r r _).trans (if_pos rfl)⟩)
    | _ => cases ha

/-- The constructor does not begin again. -/
theorem ctor_of_step (hst : s.step a = some t) (hc : t.ctor ≠ .done) : s.ctor ≠ .done := by
  intro hdone
  cases trans_of_step hst with
  | ctorCheck hc' | ctorRefused hc' | ctorConnect _ hc' | ctorMade hc' | ctorTimeout hc'
  | ctorJoined hc' | ctorAsync hc' | ctorAssign hc' =>
      rw [hdone] at hc'
      cases hc'
  | _ => exact hc hdone

theorem early_step (h : Sessions s) (hok : Apart s a) (hst : s.step a = some t)
    (hc : t.ctor ≠ .done) : t.monitor = none ∧
      ∀ r, (t.cli r).pc ≠ .lockMonitor ∧ ∀ m, (t.cli r).pc ≠ .assign m := by
  have hc' := ctor_of_step hst hc
  obtain ⟨hmon, hcli⟩ := h.early hc'
  refine ⟨?_, fun r => ⟨fun hr => ?_, fun m hr => ?_⟩⟩
  · cases trans_of_step hst with
    | ctorAssign => exact absurd rfl hc
    | @cbAssign r m hr => exact absurd hr ((hcli r).2 m)
    | dtorGet => rfl
    | _ => exact hmon
  · rcases lockMonitor_of_step hst hr with hr | rfl
    · exact (hcli r).1 hr
    · exact hc' hok.1
  · rcases assign_of_step hst hr with hr | ⟨rfl, -⟩
    · exact (hcli r).2 m hr
    · cases trans_of_step hst with
      | cbAsync hlock => exact (hcli r).1 hlock

theorem starting_step (h : Sessions s) (hst : s.step a = some t) (hc : t.ctor ≠ .done)
    (hassign : ∀ m, t.ctor ≠ .assign m) (m : ℕ) : (t.mon m).inactive = true := by
  have hc' := ctor_of_step hst hc
  have hassign' : ∀ m, s.ctor ≠ .assign m := by
    intro m hm
    cases trans_of_step hst with
    | ctorCheck hc'' | ctorRefused hc'' | ctorConnect _ hc'' | ctorMade hc'' | ctorTimeout hc''
    | ctorJoined hc'' | ctorAsync hc'' =>
        rw [hm] at hc''
        cases hc''
    | ctorAssign => exact hc rfl
    | _ => exact hassign m hm
  by_contra hi
  rcases active_of_step hst (by simpa using hi) with hi | ⟨ha, -⟩
  · rw [h.starting hc' hassign' m] at hi
    cases hi
  · cases trans_of_step hst with
    | ctorAsync => exact hassign _ rfl
    | @cbAsync r hr => exact ((h.early hc').2 r).1 hr
    | _ => cases ha

/-- Every step of a run apart keeps the sessions. -/
theorem step (h : Sessions s) (hok : Apart s a) (hst : s.step a = some t) : Sessions t where
  fresh := fresh_of_step h.fresh hst
  trace := h.trace_step hok hst
  heard := h.heard_step hst
  past := h.past_step hok hst
  linkedCtor := h.linkedCtor_step hok hst
  active := h.active_step hst
  mtx := (h.monitorHeld.step hst).assign
  getting := (h.monitorHeld.step hst).get
  early := h.early_step hok hst
  starting := h.starting_step hst

end Sessions

/-! ### The theorem -/

/-- **The callbacks of a follower alternate in every run in which no connect callback overtakes a
disconnect callback.** -/
theorem alternates_of_apart {writer : Option ℕ} {file : Bool} {as : List Act}
    (h : exec (restrict step Apart) (init writer file) as = some s) : Alternates s.trace := by
  have hs : Sessions s := by
    refine exec_invariant (fun s a t hs hst => ?_) h (sessions_init writer file)
    obtain ⟨hok, hst⟩ := restrict_eq_some.1 hst
    exact hs.step hok hst
  rcases hs.trace with ⟨-, hout⟩ | ⟨r, -, -, hin⟩
  · exact hout.alternates
  · exact hin.alternates

/-- The second writer is found after the disconnect callback for the first. -/
def secondConnection : List Act :=
  [.writerStart, .load 1, .check 1, .lockReader 1, .connect 1, .onConnect 1, .made 1 1,
    .dropped 1 (some 0) true, .store 1, .onData 1]

theorem secondConnection_alternates :
    ∃ s, exec (restrict step Apart) (init none false) (firstConnection ++ calmEnd ++ secondConnection) =
        some s ∧
      s.trace = [.connected 0, .data 0, .disconnected 0, .connected 1, .data 1] ∧
      Alternates s.trace := by
  have hrun : ((exec (restrict step Apart) (init none false)
      (firstConnection ++ calmEnd ++ secondConnection)).any fun s =>
        s.trace = [.connected 0, .data 0, .disconnected 0, .connected 1, .data 1]) = true := by
    decide +kernel
  obtain ⟨s, hs, hrun⟩ := (Option.any_eq_true _ _).1 hrun
  exact ⟨s, hs, of_decide_eq_true hrun, alternates_of_apart hs⟩

/-- The second writer starts while the disconnect callback for the first is under way, and is found by
the monitor that this callback has started. -/
def overlap : List Act :=
  [.store 0, .load 0, .last 0, .writerStop, .onDisconnect 0, .cbTest 0, .cbStore 0, .cbAsync 0,
    .cbAssign 0 1, .writerStart, .load 1, .check 1, .lockReader 1, .connect 1, .onConnect 1, .cbUser 0]

/-- The connect callback for the second writer comes before the disconnect callback for the first. -/
theorem overlap_not_alternates :
    ∃ s, exec (restrict step InTurn) (init none false) (firstConnection ++ overlap) = some s ∧
      s.trace = [.connected 0, .connected 1, .disconnected 0] ∧ ¬ Alternates s.trace := by
  have hrun : ((exec (restrict step InTurn) (init none false) (firstConnection ++ overlap)).any
      fun s => s.trace = [.connected 0, .connected 1, .disconnected 0]) = true := by
    decide +kernel
  obtain ⟨s, hs, hrun⟩ := (Option.any_eq_true _ _).1 hrun
  have htrace := of_decide_eq_true hrun
  refine ⟨s, hs, htrace, ?_⟩
  rw [htrace]
  exact not_alternates_of_connected (.connected 0) 1 [.disconnected 0]

end Follower

end Shmdata

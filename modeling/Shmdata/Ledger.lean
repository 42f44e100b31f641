/-
**The ledger of the reads.**

The writer sends an update to each client, counts the updates it has sent, and raises semaphore `0`
by their number; each reader lowers it once when it has dealt with an update.  This module follows
every update from the server to the release of the `ReadLock`: the updates sent to a reader are those
it has released, the one it is dealing with, and those it has not read; they are also those that were
committed and those that `commit_readers` is about to commit.  Nothing here depends on the semaphores
being in step with the readers, so that all of it holds in every run, with crashes and resets.

Main definitions:

* `Shmdata.System.sent`, `Shmdata.System.unread`, `Shmdata.System.load` — the updates of a reader by
  their place;
* `Shmdata.System.batch` — the updates that are sent and not committed yet;
* `Shmdata.System.Base` — **the invariant of the ledger**.

Main results:

* `Shmdata.System.Base.step` — every step keeps it;
* `Shmdata.System.debt_step` — **what semaphore `0` lacks changes only at a reset**, which adds to it
  the value it discards.
-/

import Shmdata.System
import Mathlib.Algebra.BigOperators.Group.Finset.Piecewise
import Mathlib.Algebra.Order.BigOperators.Group.Finset

set_option relaxedAutoImplicit false
set_option autoImplicit false

namespace Shmdata

/-! ### What the serving thread leaves alone -/

/-- The message is an update. -/
@[simp] def SrvMsg.isUpdate {σ : Type} : SrvMsg σ → Bool
  | .update _ => true
  | _ => false

/-- What was not read of a stream, once its connect message was, are updates. -/
theorem SrvMsg.Running.countP_drop_pos {σ : Type} {l : List (SrvMsg σ)} (h : Running l) {i : ℕ}
    (hi : 0 < i) (hl : i < l.length) : 0 < (l.drop i).countP SrvMsg.isUpdate := by
  obtain ⟨sizes, rfl⟩ := h
  obtain ⟨j, rfl⟩ := Nat.exists_eq_succ_of_ne_zero hi.ne'
  rw [List.drop_succ_cons, ← List.map_drop, List.countP_map]
  have hall : (sizes.drop j).countP (SrvMsg.isUpdate ∘ SrvMsg.update) = (sizes.drop j).length :=
    List.countP_eq_length.2 fun _ _ => rfl
  rw [hall, List.length_drop]
  simp only [List.length_cons, List.length_map] at hl
  omega

namespace Server

variable {σ : Type} {s t : Server σ} {ev : Ev}

/-- The serving thread has no part in notifications and in the destructor. -/
theorem thread_frame (h : s.step (.thread ev) = some t) :
    t.notify = s.notify ∧ t.clientsNotified = s.clientsNotified ∧ t.dtor = s.dtor := by
  cases trans_of_step h <;> exact ⟨rfl, rfl, rfl⟩

/-- It sends a connect message or a quit acknowledgement, on the connection it is at. -/
theorem thread_out (h : s.step (.thread ev) = some t) (c : ℕ) :
    t.out c = s.out c ∨ ∃ fd m, s.conn fd = some c ∧ ev = .send true ∧
      (s.pc = .greet (some fd) ∨ ∃ todo, s.pc = .ackQuit fd todo) ∧
      m.isUpdate = false ∧ t.out c = s.out c ++ [m] := by
  have hrec (fd : ℕ) (m : SrvMsg σ) (hm : m.isUpdate = false)
      (hpc : s.pc = .greet (some fd) ∨ ∃ todo, s.pc = .ackQuit fd todo) :
      record s.out (s.conn fd) m c = s.out c ∨ ∃ fd' m', s.conn fd' = some c ∧
        Ev.send true = .send true ∧ (s.pc = .greet (some fd') ∨ ∃ todo, s.pc = .ackQuit fd' todo) ∧
        m'.isUpdate = false ∧ record s.out (s.conn fd) m c = s.out c ++ [m'] := by
    cases hc : s.conn fd with
    | none => exact Or.inl rfl
    | some d =>
        by_cases hd : c = d
        · subst hd
          exact Or.inr ⟨fd, m, hc, rfl, hpc, hm, record_self ..⟩
        · exact Or.inl (record_of_ne _ _ hd)
  cases trans_of_step h with
  | greeted hpc => exact hrec _ _ rfl (Or.inl hpc)
  | @quitAcked it todo ok hpc =>
      cases ok with
      | true => exact hrec _ _ rfl (Or.inr ⟨todo, hpc⟩)
      | false => exact Or.inl rfl
  | _ => exact Or.inl rfl

/-- It opens at most one connection, the next one. -/
theorem thread_conn (h : s.step (.thread ev) = some t) :
    (t.nconn = s.nconn ∨ t.nconn = s.nconn + 1 ∧ ∃ fd, ev = .accept (some fd)) ∧
      ∀ fd c, t.conn fd = some c → s.conn fd = some c ∨ c = s.nconn := by
  cases trans_of_step h with
  | @accepted fd hpc hc hl =>
      refine ⟨Or.inr ⟨rfl, fd, rfl⟩, fun fd' c h' => ?_⟩
      by_cases hfd : fd' = fd
      · subst hfd
        exact Or.inr (by simpa using h'.symm)
      · exact Or.inl (by simpa [hfd] using h')
  | dropped _ => exact ⟨Or.inl rfl, fun fd c h' => Or.inl (update_none_eq_some.1 h').2⟩
  | pendingDropped _ => exact ⟨Or.inl rfl, fun fd c h' => Or.inl (update_none_eq_some.1 h').2⟩
  | _ => exact ⟨Or.inl rfl, fun fd c h' => Or.inl h'⟩

/-- An acknowledgement is taken from the connection it was read on. -/
theorem thread_acked (h : s.step (.thread ev) = some t) {c : ℕ} (ha : t.acked c = true) :
    s.acked c = true ∨ ev = .read .data ∧ ∃ it todo, s.pc = .pending (it :: todo) ∧
      s.conn it = some c := by
  cases trans_of_step h with
  | @ackRead it todo hpc hr =>
      cases hc : s.conn it with
      | none =>
          simp only [hc, mark] at ha
          exact Or.inl ha
      | some d =>
          by_cases hd : c = d
          · subst hd
            exact Or.inr ⟨rfl, it, todo, hpc, hc⟩
          · simp only [hc] at ha
            rw [mark_of_ne _ hd] at ha
            exact Or.inl ha
  | _ => exact Or.inl ha

/-- The thread is about to call `on_client_error_` after a read error on a notified client. -/
theorem thread_recover (h : s.step (.thread ev) = some t) {it : ℕ} {todo : List ℕ}
    (hpc : t.pc = .recover it todo) :
    ev = .read .error ∧ s.pc = .clients (it :: todo) ∧ it ∈ s.clientsNotified ∧ t.conn = s.conn := by
  cases trans_of_step h with
  | loadQuit _ => cases hq : s.quit <;> simp [hq] at hpc
  | lock _ _ => cases hq : s.listening <;> simp [hq] at hpc
  | @greeted fd => by_cases hfd : fd < FD_SETSIZE <;> simp [hfd] at hpc
  | @readError it' todo' hpc' hr =>
      dsimp only at hpc
      split at hpc
      · next hit =>
          cases hpc
          exact ⟨rfl, hpc', hit, rfl⟩
      · cases hpc
  | _ => cases hpc

/-- A successful send of `notify_update`. -/
theorem notifySend_spec {size : σ} {it c : ℕ} {todo : List ℕ}
    (h : s.step (.notifySend true) = some t) (hn : s.notify = some (size, it :: todo))
    (hc : s.conn it = some c) :
    t = { s with
      out := record s.out (some c) (.update size)
      clientsNotified := setInsert it s.clientsNotified
      notify := some (size, todo) } := by
  rw [step, hn] at h
  rw [← Option.some.inj h, hc]
  rfl

end Server

/-- The reader has read an update and not yet released its `ReadLock`. -/
@[simp] def Reader.Pc.busy : Reader.Pc → ℕ
  | .update _ | .readStart _ | .onData _ => 1
  | _ => 0

/-- The reader has read an update and has not got its `ReadLock` yet. -/
@[simp] def Reader.Pc.locking : Reader.Pc → ℕ
  | .update _ | .readStart _ => 1
  | _ => 0

/-- Updates were sent and `commit_readers` is still to be called. -/
@[simp] def Writer.Pc.uncommitted : Writer.Pc → Bool
  | .notifying _ | .commit _ _ => true
  | _ => false

namespace System

open SysV Semops Finset

variable {s t : System}

/-! ### The updates of a reader -/

/-- The updates sent to a reader. -/
def sent (s : System) (r : ℕ) : ℕ := (s.srv.out r).countP SrvMsg.isUpdate

/-- The updates that a reader has not read. -/
def unread (s : System) (r : ℕ) : ℕ := ((s.srv.out r).drop (s.rd r).rcvd).countP SrvMsg.isUpdate

/-- The updates that a reader has not read or is dealing with. -/
def load (s : System) (r : ℕ) : ℕ := (s.rd r).pc.busy + s.unread r

/-- The updates sent to a reader and not committed yet. -/
def batch (s : System) (r : ℕ) : ℕ := if s.w.pc.uncommitted then s.notified.count r else 0

/-- The invariant of the ledger. -/
structure Base (s : System) : Prop where
  wf : s.srv.WellFormed
  alive : s.srv.dtor = .alive
  nconn : s.srv.nconn ≤ s.nrd
  fresh : ∀ r, s.nrd ≤ r → s.rd r = Reader.init ∧ s.committed r = 0 ∧ s.released r = 0 ∧
    s.cancelled r = 0
  notifiedLt : ∀ r ∈ s.notified, r < s.srv.nconn
  rcvd : ∀ r, (s.rd r).rcvd ≤ (s.srv.out r).length
  closed : ∀ r, (s.rd r).pc = .closed → (s.rd r).rcvd = (s.srv.out r).length
  acked : ∀ r, s.srv.acked r = true ∨ (s.rd r).connected = true ∨ (s.rd r).toSrv ≠ [] →
    0 < (s.rd r).rcvd
  sent : ∀ r, s.committed r + s.batch r = s.sent r
  taken : ∀ r, s.released r + s.load r = s.sent r
  pending : ∀ r, s.batch r ≤ (s.rd r).pc.locking + s.unread r
  held : s.sem 1 = if s.w.pc.held then 1 else 0
  count : s.w.pc.uncommitted = true → s.notified.length = s.srv.clientsNotified.length
  commit : ∀ num next, s.w.pc = .commit num next → num = s.notified.length
  conn : ∀ fd r, s.srv.conn fd = some r → r ∈ s.notified → fd ∈ s.srv.clientsNotified
  recover : ∀ it todo r, s.srv.pc = .recover it todo → s.srv.conn it = some r →
    (s.rd r).dead = true ∧ 0 < s.unread r
  cancelled : ∀ r, 0 < s.cancelled r → (s.rd r).dead = true

theorem base_init (lfd memsize : ℕ) : Base (init lfd memsize) where
  wf := Server.wellFormed_init lfd
  alive := rfl
  nconn := le_rfl
  fresh r _ := ⟨rfl, rfl, rfl, rfl⟩
  notifiedLt := by simp [init]
  rcvd := by simp [init, Server.init, Reader.init]
  closed := by simp [init, Reader.init]
  acked := by simp [init, Server.init, Reader.init]
  sent := by simp [init, System.sent, Server.init, System.batch]
  taken := by simp [init, System.sent, Server.init, System.load, System.unread, Reader.init]
  pending := by simp [init, System.batch]
  held := by simp [init]
  count := by simp [init]
  commit := by simp [init]
  conn := by simp [init]
  recover := by simp [init, Server.init]
  cancelled := by simp [init]

namespace Base

/-! ### Steps of the writer that leave the ledger alone -/

/-- A step of the writer's thread outside notification and locking. -/
theorem congr (hb : Base s) (h1 : t.sem = s.sem) (h2 : t.srv = s.srv) (h3 : t.rd = s.rd)
    (h4 : t.nrd = s.nrd) (h5 : t.committed = s.committed) (h6 : t.released = s.released)
    (h7 : t.cancelled = s.cancelled) (h8 : t.notified = s.notified)
    (hh : t.w.pc.held = s.w.pc.held) (hs : s.w.pc.uncommitted = false)
    (ht : t.w.pc.uncommitted = false) : Base t := by
  have hsent (r : ℕ) : t.sent r = s.sent r := by rw [System.sent, h2]; rfl
  have hunread (r : ℕ) : t.unread r = s.unread r := by rw [System.unread, h2, h3]; rfl
  have hload (r : ℕ) : t.load r = s.load r := by rw [System.load, hunread, h3]; rfl
  have hbatch (r : ℕ) : t.batch r = s.batch r := by rw [System.batch, System.batch, hs, ht]; rfl
  exact
    { wf := by rw [h2]; exact hb.wf
      alive := by rw [h2]; exact hb.alive
      nconn := by rw [h2, h4]; exact hb.nconn
      fresh := by rw [h3, h4, h5, h6, h7]; exact hb.fresh
      notifiedLt := by rw [h2, h8]; exact hb.notifiedLt
      rcvd := by rw [h2, h3]; exact hb.rcvd
      closed := by rw [h2, h3]; exact hb.closed
      acked := by rw [h2, h3]; exact hb.acked
      sent := fun r => by rw [hsent, hbatch, h5]; exact hb.sent r
      taken := fun r => by rw [hsent, hload, h6]; exact hb.taken r
      pending := fun r => by rw [hbatch, hunread, h3]; exact hb.pending r
      held := by rw [h1, hh]; exact hb.held
      count := fun h => by rw [ht] at h; cases h
      commit := fun num next h => by rw [h] at ht; cases ht
      conn := by rw [h2, h8]; exact hb.conn
      recover := fun it todo r hpc hc => by
        rw [hunread, h3]
        exact hb.recover it todo r (h2 ▸ hpc) (h2 ▸ hc)
      cancelled := by rw [h3, h7]; exact hb.cancelled }

/-! ### Steps of the readers -/

/-- A step of a reader: the updates that it has released, is dealing with or has not read are the
same before and after. -/
theorem readerStep (hb : Base s) {r : ℕ} {rd : Reader} {f released : ℕ → ℕ} (hr : r < s.nrd)
    (hrcvd : rd.rcvd ≤ (s.srv.out r).length) (hle : (s.rd r).rcvd ≤ rd.rcvd)
    (hclosed : rd.pc = .closed → rd.rcvd = (s.srv.out r).length)
    (hacked : rd.connected = true ∨ rd.toSrv ≠ [] → 0 < rd.rcvd)
    (hrel : ∀ q, q ≠ r → released q = s.released q)
    (hload : released r + (rd.pc.busy + ((s.srv.out r).drop rd.rcvd).countP SrvMsg.isUpdate) =
      s.released r + s.load r)
    (hpend : s.batch r ≤
      rd.pc.locking + ((s.srv.out r).drop rd.rcvd).countP SrvMsg.isUpdate)
    (hdead : (s.rd r).dead = true → rd.dead = true ∧ rd.rcvd = (s.rd r).rcvd)
    (hsem : f 1 = s.sem 1) : Base (setRd { s with sem := f, released := released } r rd) := by
  set t := setRd { s with sem := f, released := released } r rd with ht
  have hself : t.rd r = rd := Function.update_self ..
  have hne {q : ℕ} (h : q ≠ r) : t.rd q = s.rd q := Function.update_of_ne h ..
  have hunread {q : ℕ} (h : q ≠ r) : t.unread q = s.unread q := by
    rw [System.unread, hne h]; rfl
  have hunread' : t.unread r = ((s.srv.out r).drop rd.rcvd).countP SrvMsg.isUpdate := by
    rw [System.unread, hself]; rfl
  exact
    { wf := hb.wf
      alive := hb.alive
      nconn := hb.nconn
      fresh := fun q hq => by
        have hqr : q ≠ r := by
          rintro rfl
          exact absurd hr (not_lt.2 hq)
        rw [hne hqr]
        obtain ⟨h1, h2, h3, h4⟩ := hb.fresh q hq
        exact ⟨h1, h2, (hrel q hqr).trans h3, h4⟩
      notifiedLt := hb.notifiedLt
      rcvd := fun q => by
        by_cases h : q = r
        · subst h; rw [hself]; exact hrcvd
        · rw [hne h]; exact hb.rcvd q
      closed := fun q => by
        by_cases h : q = r
        · subst h; rw [hself]; exact hclosed
        · rw [hne h]; exact hb.closed q
      acked := fun q => by
        by_cases h : q = r
        · subst h
          rw [hself]
          rintro (ha | ha)
          · exact lt_of_lt_of_le (hb.acked q (Or.inl ha)) hle
          · exact hacked ha
        · rw [hne h]; exact hb.acked q
      sent := hb.sent
      taken := fun q => by
        have hq := hb.taken q
        by_cases h : q = r
        · subst h
          rw [System.load, hunread', hself]
          exact hload.trans hq
        · rw [System.load, hunread h, hne h]
          exact (congrArg (· + _) (hrel q h)).trans hq
      pending := fun q => by
        by_cases h : q = r
        · subst h; rw [hself, hunread']; exact hpend
        · rw [hne h, hunread h]; exact hb.pending q
      held := hsem.trans hb.held
      count := hb.count
      commit := hb.commit
      conn := hb.conn
      recover := fun it todo q hpc hc => by
        obtain ⟨hd, hu⟩ := hb.recover it todo q hpc hc
        by_cases h : q = r
        · subst h
          obtain ⟨hd', hrc⟩ := hdead hd
          rw [hself, hunread', hrc]
          exact ⟨hd', hu⟩
        · rw [hne h, hunread h]; exact ⟨hd, hu⟩
      cancelled := fun q hq => by
        by_cases h : q = r
        · subst h; rw [hself]; exact (hdead (hb.cancelled q hq)).1
        · rw [hne h]; exact hb.cancelled q hq }

/-- A step of a reader that leaves its socket alone. -/
theorem readerMoved (hb : Base s) {r : ℕ} {rd : Reader} (hr : r < s.nrd)
    (h1 : rd.rcvd = (s.rd r).rcvd) (hclosed : rd.pc = .closed → rd.rcvd = (s.srv.out r).length)
    (hacked : rd.connected = true ∨ rd.toSrv ≠ [] → (s.rd r).connected = true ∨ (s.rd r).toSrv ≠ [])
    (hbusy : rd.pc.busy = (s.rd r).pc.busy)
    (hpend : rd.pc.locking = (s.rd r).pc.locking ∨ s.batch r = 0)
    (hdead : (s.rd r).dead = true → rd.dead = true) : Base (s.setRd r rd) := by
  refine hb.readerStep hr (h1 ▸ hb.rcvd r) h1.ge hclosed ?_ (fun _ _ => rfl) ?_ ?_
    (fun h => ⟨hdead h, h1⟩) rfl
  · exact fun h => h1 ▸ hb.acked r (Or.inr (hacked h))
  · rw [h1, hbusy]; rfl
  · rw [h1]
    rcases hpend with h | h
    · rw [h]; exact hb.pending r
    · rw [h]; exact Nat.zero_le _

/-- The message at a position, and those after it. -/
theorem drop_eq {l : List (SrvMsg ℕ)} {i : ℕ} {m : SrvMsg ℕ} (h : l[i]? = some m) :
    i < l.length ∧ l.drop i = m :: l.drop (i + 1) := by
  obtain ⟨hi, rfl⟩ := List.getElem?_eq_some_iff.1 h
  exact ⟨hi, List.drop_eq_getElem_cons hi⟩

/-- Reading a message: an update is now being dealt with. -/
theorem receive (hb : Base s) {r : ℕ} {rd : Reader} {m : SrvMsg ℕ} (hr : r < s.nrd)
    (hd : (s.rd r).dead = false) (hpc : (s.rd r).pc = .idle)
    (hm : (s.srv.out r)[(s.rd r).rcvd]? = some m) (h1 : rd.rcvd = (s.rd r).rcvd + 1)
    (hclosed : rd.pc = .closed → m = .quit) (hbusy : rd.pc.busy = if m.isUpdate then 1 else 0)
    (hlock : rd.pc.locking = rd.pc.busy) : Base (s.setRd r rd) := by
  obtain ⟨hlt, hdrop⟩ := drop_eq hm
  refine hb.readerStep hr (by omega) (by omega) ?_ (fun _ => by omega) (fun _ _ => rfl) ?_
    ?_ (fun h => by rw [hd] at h; cases h) rfl
  · -- nothing is sent after a quit message
    intro h
    have hconv := hb.wf.streams.stream r
    rw [← List.take_append_drop (s.rd r).rcvd (s.srv.out r), hdrop, hclosed h] at hconv
    have hnil := List.drop_eq_nil_iff.1 hconv.quit_last
    omega
  · rw [h1, hbusy, System.load, System.unread, hdrop, List.countP_cons, hpc]
    simp only [Reader.Pc.busy]
    omega
  · have := hb.pending r
    rw [System.unread, hdrop, List.countP_cons, hpc] at this
    rw [h1, hlock, hbusy]
    simp only [Reader.Pc.locking] at this
    omega

/-- The release of a `ReadLock`. -/
theorem readEnd (hb : Base s) {r size : ℕ} {f : ℕ → ℕ} (hr : r < s.nrd)
    (hd : (s.rd r).dead = false) (hpc : (s.rd r).pc = .onData size)
    (hf : semop s.sem readEnd = .ok f) :
    Base (setRd { s with
      sem := f
      released := Function.update s.released r (s.released r + 1) } r
        { s.rd r with pc := .idle }) := by
  obtain ⟨h0, rfl⟩ := readEnd_eq_ok.1 hf
  refine hb.readerStep hr (hb.rcvd r) le_rfl (fun h => by cases h)
    (fun h => hb.acked r (Or.inr h)) (fun q hq => Function.update_of_ne hq ..) ?_
    (by have := hb.pending r; rwa [hpc] at this) (fun h => by rw [hd] at h; cases h)
    (Function.update_of_ne (by decide) ..)
  rw [Function.update_self, System.load, System.unread, hpc]
  simp only [Reader.Pc.busy]
  omega

/-! ### Steps of the serving thread -/

theorem countP_append_of_not {l : List (SrvMsg ℕ)} {m : SrvMsg ℕ} (hm : m.isUpdate = false) :
    (l ++ [m]).countP SrvMsg.isUpdate = l.countP SrvMsg.isUpdate := by
  rw [List.countP_append, List.countP_cons, List.countP_nil, hm]
  rfl

/-- The serving thread sends no update. -/
theorem sent_server {ev : Server.Ev} {srv : Server ℕ} (h : s.srv.step (.thread ev) = some srv)
    (r : ℕ) : System.sent { s with srv := srv } r = s.sent r := by
  rcases Server.thread_out h r with ho | ⟨fd, m, -, -, -, hm, ho⟩
  · simp only [System.sent, ho]
  · simp only [System.sent, ho, countP_append_of_not hm]

theorem unread_server (hb : Base s) {ev : Server.Ev} {srv : Server ℕ}
    (h : s.srv.step (.thread ev) = some srv) (r : ℕ) :
    System.unread { s with srv := srv } r = s.unread r := by
  rcases Server.thread_out h r with ho | ⟨fd, m, -, -, -, hm, ho⟩
  · simp only [System.unread, ho]
  · simp only [System.unread, ho]
    rw [List.drop_append_of_le_length (hb.rcvd r), countP_append_of_not hm]

/-- The serving thread changes nothing in the ledger. -/
theorem server (hb : Base s) {ev : Server.Ev} {srv : Server ℕ}
    (h : s.srv.step (.thread ev) = some srv)
    (hsend : ∀ fd r, ev = .send true →
      (s.srv.pc = .greet (some fd) ∨ ∃ todo, s.srv.pc = .ackQuit fd todo) →
      s.srv.conn fd = some r → (s.rd r).isOpen = true)
    (hread : ∀ it todo r, ev = .read .data → s.srv.pc = .pending (it :: todo) →
      s.srv.conn it = some r → (s.rd r).toSrv ≠ [])
    (haccept : ∀ fd, ev = .accept (some fd) → s.srv.nconn < s.nrd)
    (hrec : ∀ it todo r, srv.pc = .recover it todo → srv.conn it = some r →
      (s.rd r).dead = true ∧ 0 < s.unread r) : Base { s with srv := srv } := by
  obtain ⟨hn, hcn, hdt⟩ := Server.thread_frame h
  obtain ⟨hnc, hconn⟩ := Server.thread_conn h
  have hsent := sent_server (s := s) h
  have hunread := hb.unread_server h
  have hle : s.srv.nconn ≤ srv.nconn := by
    rcases hnc with h | ⟨h, -⟩ <;> omega
  exact
    { wf := hb.wf.step h
      alive := hdt.trans hb.alive
      nconn := by
        rcases hnc with h' | ⟨h', fd, hev⟩
        · exact h'.symm ▸ hb.nconn
        · exact h'.symm ▸ haccept fd hev
      fresh := hb.fresh
      notifiedLt := fun r hr => lt_of_lt_of_le (hb.notifiedLt r hr) hle
      rcvd := fun r => (hb.rcvd r).trans (Server.out_prefix_of_step h r).length_le
      closed := fun r hpc => by
        rcases Server.thread_out h r with ho | ⟨fd, m, hc, hev, hpc', -, -⟩
        · exact (hb.closed r hpc).trans (by rw [ho])
        · -- a message is sent to an open end only
          exact absurd hpc (Reader.isOpen_iff.1 (hsend fd r hev hpc' hc)).2
      acked := fun r ha => by
        rcases ha with ha | ha
        · rcases Server.thread_acked h ha with ha | ⟨hev, it, todo, hpc, hc⟩
          · exact hb.acked r (Or.inl ha)
          · exact hb.acked r (Or.inr (Or.inr (hread it todo r hev hpc hc)))
        · exact hb.acked r (Or.inr ha)
      sent := fun r => by rw [hsent]; exact hb.sent r
      taken := fun r => by rw [hsent, System.load, hunread]; exact hb.taken r
      pending := fun r => by rw [hunread]; exact hb.pending r
      held := hb.held
      count := by rw [hcn]; exact hb.count
      commit := hb.commit
      conn := fun fd r hc hr => by
        rw [hcn]
        rcases hconn fd r hc with hc | rfl
        · exact hb.conn fd r hc hr
        · exact absurd (hb.notifiedLt _ hr) (lt_irrefl _)
      recover := fun it todo r hpc hc => by rw [hunread]; exact hrec it todo r hpc hc
      cancelled := hb.cancelled }

/-- `cancel_commited_reader` gives back a read of a dead reader. -/
theorem cancel (hb : Base s) {it : ℕ} {todo : List ℕ} {srv : Server ℕ} {f : ℕ → ℕ}
    (hpc : s.srv.pc = .recover it todo) (hf : semop s.sem Semops.readEnd = .ok f)
    (hb' : Base { s with srv := srv }) : Base (s.cancel it f srv) := by
  obtain ⟨h0, rfl⟩ := readEnd_eq_ok.1 hf
  obtain ⟨r, hr⟩ := hb.wf.lists.conn_of_scan_head (i := it) (l := todo) (by simp [hpc])
  have hlt : r < s.nrd := lt_of_lt_of_le (hb.wf.lists.lt it r hr) hb.nconn
  have heq : s.cancel it (Function.update s.sem 0 (s.sem 0 - 1)) srv =
      { s with
        srv := srv
        sem := Function.update s.sem 0 (s.sem 0 - 1)
        cancelled := Function.update s.cancelled r (s.cancelled r + 1) } := by
    simp only [System.cancel, hr]
  rw [heq]
  exact
    { hb' with
      fresh := fun q hq => by
        obtain ⟨h1, h2, h3, h4⟩ := hb.fresh q hq
        refine ⟨h1, h2, h3, (Function.update_of_ne ?_ ..).trans h4⟩
        rintro rfl
        exact absurd hlt (not_lt.2 hq)
      cancelled := fun q hc => by
        by_cases hq : q = r
        · exact hq ▸ (hb.recover it todo r hpc hr).1
        · exact hb.cancelled q (by simpa [hq] using hc)
      held := by simpa using hb.held }

/-! ### Steps of the writer -/

theorem batch_of_not_uncommitted (h : s.w.pc.uncommitted = false) (r : ℕ) : s.batch r = 0 := by
  rw [System.batch, h]
  rfl

/-- The acquisition of the lock. -/
theorem writeStart (hb : Base s) {op : Writer.Op} {f : ℕ → ℕ} (hpc : s.w.pc = .writeStart op)
    (hf : semop s.sem Semops.writeStart = .ok f) :
    Base { s with sem := f, w := { s.w with pc := .locked op } } := by
  obtain ⟨h0, -, rfl⟩ := writeStart_eq_ok.1 hf
  have h1 : s.sem 1 = 0 := by rw [hb.held, hpc]; rfl
  have hs : s.w.pc.uncommitted = false := by rw [hpc]; rfl
  have hbase := hb.congr (t := { s with w := { s.w with pc := .idle } }) rfl rfl rfl rfl rfl rfl rfl
    rfl (by rw [hpc]; rfl) hs rfl
  exact
    { hbase with
      commit := fun _ _ h => by cases h
      held := by simp [h1] }

/-- The release of the lock. -/
theorem writeEnd (hb : Base s) {f : ℕ → ℕ} (hpc : s.w.pc = .writeEnd)
    (hf : semop s.sem Semops.writeEnd = .ok f) :
    Base { s with sem := f, w := { s.w with pc := .idle } } := by
  obtain ⟨h0, h1, rfl⟩ := writeEnd_eq_ok.1 hf
  have hone : s.sem 1 = 1 := by rw [hb.held, hpc]; rfl
  have hs : s.w.pc.uncommitted = false := by rw [hpc]; rfl
  have hbase := hb.congr (t := { s with w := { s.w with pc := .access } }) rfl rfl rfl rfl rfl rfl
    rfl rfl (by rw [hpc]; rfl) hs rfl
  exact
    { hbase with
      commit := fun _ _ h => by cases h
      held := by simp [hone] }

/-- The reset does not touch semaphore `1`. -/
theorem reset (hb : Base s) : Base { s with sem := Function.update s.sem 0 0 } :=
  { hb with held := by simpa using hb.held }

/-- A new reader. -/
theorem connect (hb : Base s) : Base { s with nrd := s.nrd + 1 } :=
  { hb with
    nconn := hb.nconn.trans (Nat.le_succ _)
    fresh := fun r hr => hb.fresh r ((Nat.le_succ _).trans hr) }

/-- `notify_update` begins: nothing is sent yet. -/
theorem notifyLock (hb : Base s) {size : ℕ} {next : Writer.Next} {srv : Server ℕ}
    (hpc : s.w.pc = .notify size next) (h : s.srv.step (.notifyLock size) = some srv) :
    Base (s.notifyLock size next srv) := by
  have hs : s.w.pc.uncommitted = false := by rw [hpc]; rfl
  have hwf := hb.wf.step h
  cases Server.trans_of_step h with
  | notifyLock hl hn hd =>
      exact
        { wf := hwf
          alive := hb.alive
          nconn := hb.nconn
          fresh := hb.fresh
          notifiedLt := fun r hr => absurd hr List.not_mem_nil
          rcvd := hb.rcvd
          closed := hb.closed
          acked := hb.acked
          sent := fun r => (congrArg _ (batch_of_not_uncommitted hs r).symm).trans (hb.sent r)
          taken := hb.taken
          pending := fun r => Nat.zero_le _
          held := by
            have := hb.held
            rw [hpc] at this
            exact this
          count := fun _ => rfl
          commit := fun _ _ h => by cases h
          conn := fun _ r _ hr => absurd hr List.not_mem_nil
          recover := hb.recover
          cancelled := hb.cancelled }

/-- One update is sent. -/
theorem notifySend (hb : Base s) {size it r : ℕ} {todo : List ℕ} {next : Writer.Next}
    {srv : Server ℕ} (hpc : s.w.pc = .notifying next)
    (hn : s.srv.notify = some (size, it :: todo)) (hr : s.srv.conn it = some r)
    (ho : (s.rd r).isOpen = true) (h : s.srv.step (.notifySend true) = some srv) :
    Base { s with srv := srv, notified := s.notified ++ [r] } := by
  have hwf := hb.wf.step h
  obtain ⟨-, hit, -⟩ := hb.wf.lists.notify_head hn
  have hu : s.w.pc.uncommitted = true := by rw [hpc]; rfl
  have hspec := Server.notifySend_spec h hn hr
  have hcn : srv.conn = s.srv.conn := by rw [hspec]
  have hout : srv.out = Server.record s.srv.out (some r) (.update size) := by rw [hspec]
  have hself : srv.out r = s.srv.out r ++ [.update size] := by rw [hout, Server.record_self]
  have hne {q : ℕ} (hq : q ≠ r) : srv.out q = s.srv.out q := by
    rw [hout, Server.record_of_ne _ _ hq]
  set t : System := { s with srv := srv, notified := s.notified ++ [r] } with ht
  -- the reader `r` has one more update, sent, unread and uncommitted
  have hsent (q : ℕ) : t.sent q = s.sent q + if q = r then 1 else 0 := by
    by_cases hq : q = r
    · subst hq
      simp only [System.sent, ht, hself, List.countP_append, if_true]
      rfl
    · simp [System.sent, ht, hne hq, hq]
  have hunread (q : ℕ) : t.unread q = s.unread q + if q = r then 1 else 0 := by
    by_cases hq : q = r
    · subst hq
      simp only [System.unread, ht, hself, if_true]
      rw [List.drop_append_of_le_length (hb.rcvd q), List.countP_append]
      rfl
    · simp [System.unread, ht, hne hq, hq]
  have hbatch (q : ℕ) : t.batch q = s.batch q + if q = r then 1 else 0 := by
    simp only [System.batch, ht, hu, if_true, List.count_append, List.count_singleton]
    by_cases hq : q = r
    · simp [hq]
    · simp [hq, Ne.symm hq]
  exact
    { wf := hwf
      alive := by rw [ht, hspec]; exact hb.alive
      nconn := by rw [ht, hspec]; exact hb.nconn
      fresh := hb.fresh
      notifiedLt := fun q hq => by
        have hnc : srv.nconn = s.srv.nconn := by rw [hspec]
        show q < srv.nconn
        rw [hnc]
        rcases List.mem_append.1 hq with hq | hq
        · exact hb.notifiedLt q hq
        · exact List.mem_singleton.1 hq ▸ hb.wf.lists.lt it r hr
      rcvd := fun q => (hb.rcvd q).trans (Server.out_prefix_of_step h q).length_le
      closed := fun q hq => by
        have hqr : q ≠ r := by
          rintro rfl
          exact (Reader.isOpen_iff.1 ho).2 hq
        exact (hb.closed q hq).trans (by rw [ht, hne hqr])
      acked := by
        have hack : srv.acked = s.srv.acked := by rw [hspec]
        intro q
        show srv.acked q = true ∨ _ → _
        rw [hack]
        exact hb.acked q
      sent := fun q => by
        have := hb.sent q
        rw [hsent, hbatch, ← this, Nat.add_assoc]
      taken := fun q => by
        have := hb.taken q
        rw [hsent, System.load, hunread, ← this, System.load]
        show s.released q + ((s.rd q).pc.busy + _) = _
        omega
      pending := fun q => by
        have := hb.pending q
        rw [hbatch, hunread]
        show _ ≤ (s.rd q).pc.locking + _
        omega
      held := hb.held
      count := fun _ => by
        have hcl : srv.clientsNotified = Server.setInsert it s.srv.clientsNotified := by rw [hspec]
        show (s.notified ++ [r]).length = srv.clientsNotified.length
        rw [hcl, Server.length_setInsert hit, List.length_append, hb.count hu]
        rfl
      commit := fun num next' h' => by
        rw [show t.w.pc = s.w.pc from rfl, hpc] at h'
        cases h'
      conn := fun fd q hc hq => by
        have hcl : srv.clientsNotified = Server.setInsert it s.srv.clientsNotified := by rw [hspec]
        show fd ∈ srv.clientsNotified
        rw [hcl, Server.mem_setInsert]
        replace hc : s.srv.conn fd = some q := hcn ▸ hc
        rcases List.mem_append.1 hq with hq | hq
        · exact Or.inr (hb.conn fd q hc hq)
        · rw [List.mem_singleton.1 hq] at hc
          exact Or.inl (hb.wf.lists.inj fd it r hc hr)
      recover := fun it' todo' q hp hc => by
        have hp' : srv.pc = s.srv.pc := by rw [hspec]
        obtain ⟨hd, hpos⟩ := hb.recover it' todo' q (hp' ▸ hp) (hcn ▸ hc)
        exact ⟨hd, by rw [hunread]; omega⟩
      cancelled := hb.cancelled }

/-- A send that failed: the client is not notified. -/
theorem notifyFailed (hb : Base s) {srv : Server ℕ}
    (h : s.srv.step (.notifySend false) = some srv) : Base { s with srv := srv } := by
  have hwf := hb.wf.step h
  cases Server.trans_of_step h with
  | notifySend hn => exact { hb with wf := hwf }

/-- `notify_update` returns the number of updates sent. -/
theorem notifyUnlock (hb : Base s) {next : Writer.Next} {srv : Server ℕ}
    (hpc : s.w.pc = .notifying next) (h : s.srv.step .notifyUnlock = some srv) :
    Base { s with
      srv := srv
      w := { s.w with pc := .commit (toShort s.srv.clientsNotified.length) next } } := by
  have hu : s.w.pc.uncommitted = true := by rw [hpc]; rfl
  have hbatch (r : ℕ) : s.batch r = s.notified.count r := by rw [System.batch, hu]; rfl
  have hwf := hb.wf.step h
  cases Server.trans_of_step h with
  | notifyUnlock hn =>
      exact
        { hb with
          wf := hwf
          sent := fun r => (congrArg _ (hbatch r).symm).trans (hb.sent r)
          pending := fun r => (hbatch r).symm.le.trans (hb.pending r)
          held := by
            have := hb.held
            rw [hpc] at this
            exact this
          count := fun _ => hb.count hu
          commit := fun num next h => by
            have hlen := hb.wf.lists.notified_length_le
            have hcount := hb.count hu
            obtain ⟨rfl, -⟩ : toShort _ = num ∧ _ = next := by simpa using h
            rw [toShort_of_lt (by unfold FD_SETSIZE at hlen; omega), ← hcount] }

/-- `commit_readers` counts the updates sent. -/
theorem commitReaders (hb : Base s) {num : ℤ} {next : Writer.Next} {f : ℕ → ℕ}
    (hpc : s.w.pc = .commit num next) (hn : 0 < num)
    (hf : semop s.sem (Semops.commitReaders num) = .ok f) :
    Base { s with
      sem := f
      committed := fun r => s.committed r + s.notified.count r
      w := { s.w with pc := next.pc } } := by
  have hu : s.w.pc.uncommitted = true := by rw [hpc]; rfl
  have hnext : next.pc.uncommitted = false ∧ next.pc.held = true := by cases next <;> exact ⟨rfl, rfl⟩
  obtain rfl := hb.commit num next hpc
  obtain ⟨-, rfl⟩ := (commitReaders_eq_ok (by omega)).1 hf
  have hbatch (r : ℕ) : s.batch r = s.notified.count r := by rw [System.batch, hu]; rfl
  have hcount (r : ℕ) (hr : s.nrd ≤ r) : s.notified.count r = 0 :=
    List.count_eq_zero.2 fun h => absurd (hb.notifiedLt r h) (not_lt.2 (hb.nconn.trans hr))
  exact
    { hb with
      fresh := fun r hr => by
        obtain ⟨h1, h2, h3, h4⟩ := hb.fresh r hr
        exact ⟨h1, by simp only [h2, hcount r hr], h3, h4⟩
      sent := fun r => by
        rw [batch_of_not_uncommitted hnext.1]
        exact (congrArg _ (hbatch r).symm).trans (hb.sent r)
      pending := fun r => by
        rw [batch_of_not_uncommitted hnext.1]
        exact Nat.zero_le _
      held := by
        have := hb.held
        rw [hpc] at this
        show Function.update s.sem 0 (s.sem 0 + s.notified.length) 1 = if next.pc.held then 1 else 0
        rw [hnext.2, Function.update_of_ne (by decide)]
        exact this
      count := fun h => by
        rw [show _ = next.pc.uncommitted from rfl, hnext.1] at h
        cases h
      commit := fun num' next' h => by
        have := hnext.1
        rw [show next.pc = _ from h] at this
        cases this }

/-- There is nothing to commit when no update was sent. -/
theorem commitNone (hb : Base s) {num : ℤ} {next : Writer.Next}
    (hpc : s.w.pc = .commit num next) (hn : ¬ 0 < num) :
    Base { s with w := { s.w with pc := next.pc } } := by
  have hnext : next.pc.uncommitted = false ∧ next.pc.held = true := by cases next <;> exact ⟨rfl, rfl⟩
  have hnil : s.notified = [] := by
    have := hb.commit num next hpc
    exact List.eq_nil_of_length_eq_zero (by omega)
  have hbatch (r : ℕ) : s.batch r = 0 := by rw [System.batch, hnil, List.count_nil, ite_self]
  exact
    { hb with
      sent := fun r => by
        rw [batch_of_not_uncommitted hnext.1]
        exact (congrArg _ (hbatch r).symm).trans (hb.sent r)
      pending := fun r => by
        rw [batch_of_not_uncommitted hnext.1]
        exact Nat.zero_le _
      held := by
        have := hb.held
        rw [hpc] at this
        show s.sem 1 = if next.pc.held then 1 else 0
        rw [hnext.2]
        exact this
      count := fun h => by
        rw [show _ = next.pc.uncommitted from rfl, hnext.1] at h
        cases h
      commit := fun num' next' h => by
        have := hnext.1
        rw [show next.pc = _ from h] at this
        cases this }

/-! ### Every step -/

/-- A read error comes from a dead client that has left an update unread. -/
theorem dead_of_error (hb : Base s) {it : ℕ} {todo : List ℕ} {r : ℕ}
    (hpc : s.srv.pc = .clients (it :: todo)) (hc : s.srv.conn it = some r)
    (he : s.readRes r = some .error) : (s.rd r).dead = true ∧ 0 < s.unread r := by
  obtain ⟨ho, hlt, -⟩ := readRes_error_iff.1 he
  obtain ⟨hcl, hrm⟩ := hb.wf.lists.scan_head (i := it) (l := todo) (by simp [hpc])
  obtain ⟨hrun, hack⟩ := hb.wf.streams.serving it r
    ⟨hcl, Or.inr hrm, hb.wf.lists.not_ended (by simp [hpc]) (by simp [hpc]), hc⟩
  refine ⟨?_, hrun.countP_drop_pos (hb.acked r (Or.inl hack)) hlt⟩
  -- a reader that has closed its socket by itself has read everything
  by_contra hd
  have hcl' : (s.rd r).pc = .closed := by
    by_contra hne
    rw [Reader.isOpen_iff.2 ⟨Bool.eq_false_iff.2 hd, hne⟩] at ho
    cases ho
  exact absurd (hb.closed r hcl') hlt.ne

/-- What the kernel answers is what the steps of the serving thread rely on. -/
theorem server_of_kernel (hb : Base s) {ev : Server.Ev} {srv : Server ℕ}
    (hk : s.kernel ev = true) (h : s.srv.step (.thread ev) = some srv) :
    Base { s with srv := srv } := by
  refine hb.server h ?_ ?_ ?_ ?_
  · rintro fd r rfl hpc hc
    rcases hpc with hpc | ⟨todo, hpc⟩ <;> simpa [kernel, hpc, hc] using hk
  · rintro it todo r rfl hpc hc
    exact toSrv_ne_nil_of_readRes (by simpa [kernel, hpc, hc] using hk)
  · rintro fd rfl
    have hk : s.srv.nconn < s.nrd ∧ fd < FD_SETSIZE := by simpa [kernel] using hk
    exact hk.1
  · intro it todo r hpc hc
    obtain ⟨rfl, hpc', -, hcn⟩ := Server.thread_recover h hpc
    rw [hcn] at hc
    exact hb.dead_of_error hpc' hc (by simpa [kernel, hpc', hc] using hk)

/-- While no lock is held everything sent is committed. -/
theorem batch_eq_zero (hb : Base s) (h : s.sem 1 = 0) (r : ℕ) : s.batch r = 0 := by
  refine batch_of_not_uncommitted ?_ r
  have hheld := hb.held
  rw [h] at hheld
  cases hpc : s.w.pc with
  | notifying next | commit num next =>
      rw [hpc] at hheld
      cases hheld
  | _ => rfl

/-- **Every step keeps the ledger.** -/
theorem step {a : Act} (hb : Base s) (h : s.step a = some t) : Base t := by
  cases trans_of_step h with
  | call hpc =>
      exact hb.congr rfl rfl rfl rfl rfl rfl rfl rfl (by rw [hpc]; rfl) (by rw [hpc]; rfl) rfl
  | writeStart hpc hf => exact hb.writeStart hpc hf
  | @locked op hpc =>
      obtain ⟨w, key, heq, hw⟩ := s.locked_eq op
      have hw' : w.pc.held = s.w.pc.held ∧ w.pc.uncommitted = false := by
        rcases hw with ⟨size, next, hw⟩ | ⟨data, hw⟩ | hw <;> rw [hw, hpc] <;> exact ⟨rfl, rfl⟩
      rw [heq]
      exact hb.congr rfl rfl rfl rfl rfl rfl rfl rfl hw'.1 (by rw [hpc]; rfl) hw'.2
  | @create size next hpc =>
      cases next <;>
        exact hb.congr rfl rfl rfl rfl rfl rfl rfl rfl (by rw [hpc]; rfl) (by rw [hpc]; rfl) rfl
  | notifyLock hpc hsrv => exact hb.notifyLock hpc hsrv
  | @notifySend size it todo next srv hpc hn hsrv =>
      obtain ⟨-, -, r, hr⟩ := hb.wf.lists.notify_head hn
      rw [hr, Option.any_some] at hsrv ⊢
      cases ho : (s.rd r).isOpen with
      | true =>
          rw [ho] at hsrv
          exact hb.notifySend hpc hn hr ho hsrv
      | false =>
          rw [ho] at hsrv
          exact hb.notifyFailed hsrv
  | notifyUnlock hpc hsrv => exact hb.notifyUnlock hpc hsrv
  | commit hpc hn hf => exact hb.commitReaders hpc hn hf
  | commitNone hpc hn => exact hb.commitNone hpc hn
  | memcpy hpc | shmResize hpc | notifyClients hpc _ | release hpc =>
      exact hb.congr rfl rfl rfl rfl rfl rfl rfl rfl (by rw [hpc]; rfl) (by rw [hpc]; rfl) rfl
  | writeEnd hpc hf => exact hb.writeEnd hpc hf
  | reset hpc => exact hb.reset
  | notifyIgnored hpc hn => exact hb
  | write hpc hl =>
      exact hb.congr rfl rfl rfl rfl rfl rfl rfl rfl rfl (by rw [hpc]; rfl) (by rw [hpc]; rfl)
  | server hk hsrv hs => exact hb.server_of_kernel hk hsrv
  | @take it todo r srv hpc hr hd hsrv =>
      have hk : s.kernel (.read .data) = true := by
        rcases hpc with hpc | hpc <;> simp [kernel, hpc, hr, hd]
      have hlt : r < s.nrd := lt_of_lt_of_le (hb.wf.lists.lt it r hr) hb.nconn
      have hb' := hb.server_of_kernel hk hsrv
      have hne := toSrv_ne_nil_of_readRes hd
      exact hb'.readerMoved (r := r) hlt rfl (hb'.closed r) (fun _ => Or.inr hne) rfl (Or.inl rfl) id
  | @cancel it todo srv f hpc hf hsrv => exact hb.cancel hpc hf (hb.server_of_kernel rfl hsrv)
  | connect => exact hb.connect
  | attach hr hd hpc hg =>
      exact hb.readerMoved hr rfl (by simp) id (by simp [hpc]) (Or.inl (by simp [hpc])) id
  | receiveConnect hr hd hpc hm =>
      exact hb.receive hr hd hpc hm rfl (by simp [hpc]) (by simp [hpc]) (by simp [hpc])
  | receiveUpdate hr hd hpc hm => exact hb.receive hr hd hpc hm rfl (by simp) rfl rfl
  | receiveQuit hr hd hpc hm => exact hb.receive hr hd hpc hm rfl (fun _ => rfl) rfl rfl
  | @receiveEof r hr hd hpc hm hc =>
      refine hb.readerMoved hr rfl (fun _ => ?_) id (by simp [hpc]) (Or.inl (by simp [hpc])) id
      exact le_antisymm (hb.rcvd r) (List.getElem?_eq_none_iff.1 hm)
  | update hr hd hpc =>
      exact hb.readerMoved hr rfl (by simp) id (by simp [hpc]) (Or.inl (by simp [hpc])) id
  | @readStart r size hr hd hpc hf =>
      exact hb.readerMoved hr rfl (by simp) id (by simp [hpc]) (Or.inr (hb.batch_eq_zero hf r)) id
  | readEnd hr hd hpc hf => exact hb.readEnd hr hd hpc hf
  | @quit r hr ho hc hq =>
      exact hb.readerMoved hr rfl (hb.closed r) (fun _ => Or.inl hc) rfl (Or.inl rfl) id
  | @die r hr ho =>
      exact hb.readerMoved hr rfl (hb.closed r) id rfl (Or.inl rfl) (fun _ => rfl)

end Base

/-- The only step that gives a reader an update is a send of `notify_update`. -/
theorem load_le_of_step {a : Act} (hb : Base s) (h : s.step a = some t)
    (hn : ∀ next, s.w.pc = .notifying next → a ≠ .writer) (r : ℕ) : t.load r ≤ s.load r := by
  have hset {q : ℕ} {rd : Reader}
      (hle : rd.pc.busy + ((s.srv.out q).drop rd.rcvd).countP SrvMsg.isUpdate ≤ s.load q) :
      (s.setRd q rd).load r ≤ s.load r := by
    by_cases hr : r = q
    · subst hr
      simpa only [System.load, System.unread, setRd, Function.update_self] using hle
    · simp only [System.load, System.unread, setRd, Function.update_of_ne hr, le_refl]
  cases trans_of_step h with
  | @locked op hpc =>
      obtain ⟨w, key, heq, -⟩ := s.locked_eq op
      rw [heq]
      rfl
  | notifyLock hpc hsrv =>
      cases Server.trans_of_step hsrv
      rfl
  | notifySend hpc _ _ => exact absurd rfl (hn _ hpc)
  | notifyUnlock hpc _ => exact absurd rfl (hn _ hpc)
  | server hk hsrv hs => exact (congrArg (_ + ·) (hb.unread_server hsrv r)).le
  | @take it todo q srv hpc hr hd hsrv =>
      refine le_trans (le_of_eq ?_) (congrArg (_ + ·) (hb.unread_server hsrv r)).le
      by_cases hq : r = q
      · subst hq
        simp only [System.load, System.unread, Function.update_self, taken_pc, taken_rcvd]
      · simp only [System.load, System.unread, Function.update_of_ne hq]
  | cancel hpc hf hsrv => exact (congrArg (_ + ·) (hb.unread_server hsrv r)).le
  | attach hr hd hpc => exact hset (by rw [System.load, hpc]; rfl)
  | receiveConnect hr hd hpc hm | receiveUpdate hr hd hpc hm | receiveQuit hr hd hpc hm =>
      refine hset ?_
      rw [System.load, System.unread, (Base.drop_eq hm).2, List.countP_cons]
      simp only [hpc, Reader.Pc.busy, SrvMsg.isUpdate, if_true]
      omega
  | receiveEof hr hd hpc => exact hset (by rw [System.load, hpc]; rfl)
  | update hr hd hpc => exact hset (by rw [System.load, hpc]; rfl)
  | readStart hr hd hpc => exact hset (by rw [System.load, hpc]; rfl)
  | readEnd hr hd hpc =>
      exact hset (by rw [System.load]; exact Nat.add_le_add_right (Nat.zero_le _) _)
  | quit | die => exact hset le_rfl
  | _ => exact le_rfl

/-! ### The balance of the semaphores -/

/-- A sum when one of its terms grows by one. -/
theorem sum_bump {f : ℕ → ℕ} {r n : ℕ} (hr : r < n) :
    ∑ i ∈ range n, Function.update f r (f r + 1) i = ∑ i ∈ range n, f i + 1 := by
  have hmem : r ∈ range n := mem_range.2 hr
  have hself := sum_update_of_mem hmem f (f r)
  rw [Function.update_eq_self] at hself
  rw [sum_update_of_mem hmem, hself]
  omega

/-- The occurrences of the elements of a list add up to its length. -/
theorem sum_count {l : List ℕ} {n : ℕ} (h : ∀ r ∈ l, r < n) :
    ∑ r ∈ range n, l.count r = l.length := by
  rw [← List.sum_toFinset_count_eq_length]
  refine (sum_subset (fun r hr => mem_range.2 (h r (List.mem_toFinset.1 hr))) ?_).symm
  intro r _ hr
  exact List.count_eq_zero.2 fun hm => hr (List.mem_toFinset.2 hm)

/-- What semaphore `0` lacks: the lock and the reads that are committed and not given back, less its
value. -/
def debt (s : System) : ℤ :=
  (s.sem 1 + ∑ r ∈ range s.nrd, s.committed r : ℕ) -
    (s.sem 0 + ∑ r ∈ range s.nrd, s.released r + ∑ r ∈ range s.nrd, s.cancelled r : ℕ)

/-- What a step adds to what semaphore `0` lacks. -/
def Act.discards (s : System) : Act → ℕ
  | .reset => s.sem 0
  | _ => 0

theorem debt_congr (h1 : t.sem = s.sem) (h2 : t.nrd = s.nrd) (h3 : t.committed = s.committed)
    (h4 : t.released = s.released) (h5 : t.cancelled = s.cancelled) : t.debt = s.debt + 0 := by
  rw [debt, debt, h1, h2, h3, h4, h5, Int.add_zero]

/-- **What semaphore `0` lacks changes only at a reset.** -/
theorem debt_step {a : Act} (hb : Base s) (h : s.step a = some t) :
    t.debt = s.debt + a.discards s := by
  cases trans_of_step h with
  | writeStart hpc hf =>
      obtain ⟨h0, -, rfl⟩ := writeStart_eq_ok.1 hf
      simp only [debt, Act.discards, Function.update_self,
        Function.update_of_ne (show (1 : ℕ) ≠ 0 by decide)]
      omega
  | writeEnd hpc hf =>
      obtain ⟨h0, h1, rfl⟩ := writeEnd_eq_ok.1 hf
      simp only [debt, Act.discards, Function.update_self,
        Function.update_of_ne (show (0 : ℕ) ≠ 1 by decide)]
      omega
  | @commit num next f hpc hn hf =>
      obtain rfl := hb.commit num next hpc
      obtain ⟨-, rfl⟩ := (commitReaders_eq_ok (by omega)).1 hf
      have hlen := sum_count fun r hr => lt_of_lt_of_le (hb.notifiedLt r hr) hb.nconn
      simp only [debt, Act.discards, sum_add_distrib, hlen, Function.update_self,
        Function.update_of_ne (show (1 : ℕ) ≠ 0 by decide)]
      omega
  | reset hpc =>
      simp only [debt, Act.discards, Function.update_self,
        Function.update_of_ne (show (1 : ℕ) ≠ 0 by decide)]
      omega
  | @cancel it todo srv f hpc hf hsrv =>
      obtain ⟨h0, rfl⟩ := readEnd_eq_ok.1 hf
      obtain ⟨r, hr⟩ := hb.wf.lists.conn_of_scan_head (i := it) (l := todo) (by simp [hpc])
      have hlt : r < s.nrd := lt_of_lt_of_le (hb.wf.lists.lt it r hr) hb.nconn
      simp only [debt, Act.discards, System.cancel, hr, sum_bump hlt, Function.update_self,
        Function.update_of_ne (show (1 : ℕ) ≠ 0 by decide)]
      omega
  | @readEnd r size f hr hd hpc hf =>
      obtain ⟨h0, rfl⟩ := readEnd_eq_ok.1 hf
      simp only [debt, Act.discards, setRd, sum_bump hr, Function.update_self,
        Function.update_of_ne (show (1 : ℕ) ≠ 0 by decide)]
      omega
  | connect =>
      obtain ⟨-, h1, h2, h3⟩ := hb.fresh s.nrd le_rfl
      simp only [debt, Act.discards, sum_range_succ, h1, h2, h3]
      omega
  | @locked op hpc =>
      obtain ⟨w, key, heq, -⟩ := s.locked_eq op
      rw [heq]
      exact debt_congr rfl rfl rfl rfl rfl
  | _ => exact debt_congr rfl rfl rfl rfl rfl

/-- A step of the reset thread. -/
@[simp] def Act.isReset : Act → Bool
  | .reset => true
  | _ => false

/-- The death of a reader. -/
@[simp] def Act.isDie : Act → Bool
  | .die _ => true
  | _ => false

/-- What a reader has released was committed. -/
theorem Base.released_le (hb : Base s) (r : ℕ) :
    s.released r + (s.load r - s.batch r) = s.committed r ∧ s.batch r ≤ s.load r := by
  have hp := hb.pending r
  have hs := hb.sent r
  have ht := hb.taken r
  have hle : (s.rd r).pc.locking ≤ (s.rd r).pc.busy := by cases (s.rd r).pc <;> simp
  unfold System.load at ht ⊢
  omega

/-- The update that a reader is inside its callback for was committed. -/
theorem Base.released_lt_of_onData (hb : Base s) {r size : ℕ} (h : (s.rd r).pc = .onData size) :
    s.released r < s.committed r := by
  have hp := hb.pending r
  have hs := hb.sent r
  have ht := hb.taken r
  rw [System.load, h] at ht
  rw [h] at hp
  simp only [Reader.Pc.busy, Reader.Pc.locking] at hp ht
  omega

theorem base_of_exec {lfd memsize : ℕ} {as : List Act}
    (h : Runs.exec step (init lfd memsize) as = some s) : Base s :=
  Runs.exec_invariant (fun _ _ _ hs hst => Base.step hs hst) h (base_init lfd memsize)

end System

end Shmdata

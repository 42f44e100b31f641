/-
**Who has left.**

The last facts about the connections that hold in every run: a client that was acknowledged stays in
`clients_` until its descriptor is closed, a reader acknowledges once and before it asks to quit, and
it closes its socket only after the server has sent it quit or has closed the connection.  So what the
server reads from a client is a request to quit, and a client that it still serves, and that is alive,
is listening.

Main definitions:

* `Shmdata.Reader.Moves` — what a step may do to a reader;
* `Shmdata.System.Mail` — **the invariant of the mailboxes**.

Main results:

* `Shmdata.System.Mail.step` — every step keeps it;
* `Shmdata.System.Mail.isOpen_of_serving` — a client that is served and alive is listening;
* `Shmdata.System.mailboxes_bounded` — **without a reset, no connection holds more than two unread
  messages in either direction**.
-/

import Shmdata.Accounting
import Shmdata.ServerConnections

set_option relaxedAutoImplicit false
set_option autoImplicit false

namespace Shmdata

/-! ### What is unread of a stream -/

namespace SrvMsg

variable {σ : Type} {l : List (SrvMsg σ)} {i : ℕ}

/-- What is unread of a stream without quit: the connect message alone, or the updates. -/
theorem Running.length_drop_le (h : Running l) (hfirst : i = 0 → ∀ size, .update size ∉ l) :
    (l.drop i).length ≤ max 1 ((l.drop i).countP isUpdate) := by
  obtain ⟨sizes, rfl⟩ := h
  cases i with
  | zero =>
      cases sizes with
      | nil => exact le_max_left ..
      | cons size sizes => exact absurd (by simp) (hfirst rfl size)
  | succ i =>
      rw [List.drop_succ_cons, ← List.map_drop, List.countP_map]
      have hall : (sizes.drop i).countP (isUpdate ∘ SrvMsg.update) = (sizes.drop i).length :=
        List.countP_eq_length.2 fun _ _ => rfl
      rw [hall, List.length_map]
      exact le_max_right ..

/-- What is unread of a conversation in which at most one update is. -/
theorem Conversation.length_drop_le (h : Conversation l) (hone : (l.drop i).countP isUpdate ≤ 1)
    (hfirst : i = 0 → ∀ size, .update size ∉ l) : (l.drop i).length ≤ 2 := by
  rcases h with rfl | h | ⟨k, h, rfl⟩
  · simp
  · have hle := h.length_drop_le hfirst
    omega
  · have hle := h.length_drop_le (i := i) fun hi size hm =>
      hfirst hi size (List.mem_append_left _ hm)
    have hcount : (k.drop i).countP isUpdate ≤ ((k ++ [quit]).drop i).countP isUpdate := by
      rw [List.drop_append, List.countP_append]
      exact Nat.le_add_right ..
    rw [List.length_drop] at hle ⊢
    rw [List.length_append, List.length_singleton]
    omega

end SrvMsg

/-! ### The serving thread between two reads -/

namespace Server

variable {σ : Type} {s t : Server σ}

/-- The serving thread acknowledges a client, or is about to acknowledge a quit, only when it has read
something. -/
theorem thread_quiet {ev : Ev} (h : s.step (.thread ev) = some t) (hev : ev ≠ .read .data) :
    t.acked = s.acked ∧ ∀ it todo, t.pc ≠ .ackQuit it todo := by
  cases trans_of_step h with
  | loadQuit _ => exact ⟨rfl, fun it todo => by cases s.quit <;> simp⟩
  | lock _ _ => exact ⟨rfl, fun it todo => by cases s.listening <;> simp⟩
  | readError _ _ | greeted _ => exact ⟨rfl, fun it todo => by dsimp only; split <;> simp⟩
  | readQuit | ackRead => exact absurd rfl hev
  | _ => exact ⟨rfl, fun it todo h => by cases h⟩

end Server

/-! ### What a step leaves to a reader -/

/-- What one step may do to a reader: a dead one does nothing more, a closed one stays so, and a
request to quit stands. -/
structure Reader.Moves (rd rd' : Reader) : Prop where
  dead : rd.dead = true →
    rd'.dead = true ∧ rd'.pc = rd.pc ∧ rd'.rcvd = rd.rcvd ∧ rd'.quitSent = rd.quitSent
  closed : rd.pc = .closed → rd'.pc = .closed
  quitSent : rd.quitSent = true → rd'.quitSent = true

theorem Reader.Moves.rfl {rd : Reader} : rd.Moves rd := ⟨fun h => ⟨h, .refl _, .refl _, .refl _⟩, id, id⟩

/-- A step of the reader's own thread. -/
theorem Reader.Moves.thread {rd rd' : Reader} (hd : rd.dead = false) (hc : rd.pc ≠ .closed)
    (hq : rd.quitSent = true → rd'.quitSent = true) : rd.Moves rd' where
  dead h := by
    rw [hd] at h
    cases h
  closed h := absurd h hc
  quitSent := hq

theorem Reader.Moves.isOpen {rd rd' : Reader} (h : rd.Moves rd') (ho : rd'.isOpen = true) :
    rd.isOpen = true := by
  obtain ⟨hd, hc⟩ := Reader.isOpen_iff.1 ho
  refine Reader.isOpen_iff.2 ⟨?_, fun h' => hc (h.closed h')⟩
  by_contra hne
  rw [(h.dead (Bool.not_eq_false _ ▸ hne)).1] at hd
  cases hd

namespace System

variable {s t : System}

theorem moves_of_step {a : Act} (h : s.step a = some t) (r : ℕ) : (s.rd r).Moves (t.rd r) := by
  have hset {q : ℕ} {rd : Reader} (hm : (s.rd q).Moves rd) :
      (s.rd r).Moves (Function.update s.rd q rd r) := rel_update (fun _ => .rfl) hm r
  cases trans_of_step h with
  | @locked op hpc =>
      obtain ⟨w, key, heq, -⟩ := s.locked_eq op
      rw [heq]
      exact .rfl
  | take => exact hset ⟨fun h => ⟨h, rfl, rfl, rfl⟩, id, id⟩
  | attach hr hd hpc | receiveConnect hr hd hpc | receiveUpdate hr hd hpc | receiveQuit hr hd hpc
  | receiveEof hr hd hpc | update hr hd hpc | readStart hr hd hpc | readEnd hr hd hpc =>
      exact hset (.thread hd (by simp [hpc]) id)
  | quit hr ho => exact hset (.thread (Reader.isOpen_iff.1 ho).1 (Reader.isOpen_iff.1 ho).2 fun _ => rfl)
  | die hr ho => exact hset (.thread (Reader.isOpen_iff.1 ho).1 (Reader.isOpen_iff.1 ho).2 id)
  | _ => exact .rfl

/-- The connect message is the first one. -/
theorem Base.rcvd_of_connect (hb : Base s) {r : ℕ}
    (hmsg : (s.srv.out r)[(s.rd r).rcvd]? = some .connect) : (s.rd r).rcvd = 0 := by
  by_contra hne
  obtain ⟨hlt, hdrop⟩ := Base.drop_eq hmsg
  have hconv := hb.wf.streams.stream r
  rw [← List.take_append_drop (s.rd r).rcvd (s.srv.out r), hdrop] at hconv
  have hnil : (s.srv.out r).take (s.rd r).rcvd ≠ [] := by
    rw [Ne, List.take_eq_nil_iff]
    rintro (h | h)
    · exact hne h
    · rw [h] at hlt
      exact Nat.not_lt_zero _ hlt
  rcases hconv.next hnil with ⟨size, h⟩ | ⟨h, -⟩ <;> cases h

/-! ### The mailboxes -/

/-- The invariant of the mailboxes. -/
structure Mail (s : System) : Prop where
  closes : s.srv.Closes
  acked : ∀ r, s.srv.acked r = true → .ack ∉ (s.rd r).toSrv
  first : ∀ r, s.srv.acked r = false → (s.rd r).connected = true ∨ (s.rd r).toSrv ≠ [] →
    ∃ l, (s.rd r).toSrv = .ack :: l ∧ .ack ∉ l
  quit : ∀ r, .quit ∈ (s.rd r).toSrv → (s.rd r).quitSent = true
  ackQuit : ∀ it todo r, s.srv.pc = .ackQuit it todo → s.srv.conn it = some r →
    (s.rd r).quitSent = true
  left : ∀ r, (s.rd r).pc = .closed → s.srv.closed r = true ∨ .quit ∈ s.srv.out r

theorem mail_init (lfd memsize : ℕ) : Mail (init lfd memsize) where
  closes := Server.closes_init lfd
  acked := by simp [init, Server.init]
  first := by simp [init, Reader.init]
  quit := by simp [init, Reader.init]
  ackQuit := by simp [init, Server.init]
  left := by simp [init, Reader.init]

namespace Mail

/-- A step of the server in which no message is taken. -/
theorem congr (hm : Mail s) (hb : Base s) {a : Server.Act ℕ} (h : s.srv.step a = some t.srv)
    (h1 : t.rd = s.rd) (h2 : t.srv.acked = s.srv.acked)
    (h3 : ∀ it todo r, t.srv.pc = .ackQuit it todo → t.srv.conn it = some r →
      s.srv.pc = .ackQuit it todo ∧ s.srv.conn it = some r) : Mail t where
  closes := hm.closes.step hb.wf.lists h
  acked := by rw [h1, h2]; exact hm.acked
  first := by rw [h1, h2]; exact hm.first
  quit := by rw [h1]; exact hm.quit
  ackQuit it todo r hpc hc := by
    obtain ⟨hpc, hc⟩ := h3 it todo r hpc hc
    rw [h1]
    exact hm.ackQuit it todo r hpc hc
  left r hpc := by
    rcases hm.left r (h1 ▸ hpc) with h' | h'
    · exact Or.inl (Server.closed_of_step h h')
    · exact Or.inr ((Server.out_prefix_of_step h r).subset h')

/-- A step of a reader. -/
theorem setRd (hm : Mail s) {r : ℕ} {rd : Reader}
    (hacked : s.srv.acked r = true → .ack ∉ rd.toSrv)
    (hfirst : s.srv.acked r = false → rd.connected = true ∨ rd.toSrv ≠ [] →
      ∃ l, rd.toSrv = .ack :: l ∧ .ack ∉ l)
    (hquit : .quit ∈ rd.toSrv → rd.quitSent = true)
    (hsent : (s.rd r).quitSent = true → rd.quitSent = true)
    (hleft : rd.pc = .closed → s.srv.closed r = true ∨ .quit ∈ s.srv.out r) :
    Mail (s.setRd r rd) := by
  have hself : (s.setRd r rd).rd r = rd := Function.update_self ..
  have hne {q : ℕ} (h : q ≠ r) : (s.setRd r rd).rd q = s.rd q := Function.update_of_ne h ..
  exact
    { closes := hm.closes
      acked := fun q => by
        by_cases h : q = r
        · subst h; rw [hself]; exact hacked
        · rw [hne h]; exact hm.acked q
      first := fun q => by
        by_cases h : q = r
        · subst h; rw [hself]; exact hfirst
        · rw [hne h]; exact hm.first q
      quit := fun q => by
        by_cases h : q = r
        · subst h; rw [hself]; exact hquit
        · rw [hne h]; exact hm.quit q
      ackQuit := fun it todo q hpc hc => by
        have := hm.ackQuit it todo q hpc hc
        by_cases h : q = r
        · subst h; rw [hself]; exact hsent this
        · rw [hne h]; exact this
      left := fun q => by
        by_cases h : q = r
        · subst h; rw [hself]; exact hleft
        · rw [hne h]; exact hm.left q }

/-- A step of a reader that leaves its mailbox alone. -/
theorem moved (hm : Mail s) {r : ℕ} {rd : Reader} (h1 : rd.toSrv = (s.rd r).toSrv)
    (h2 : rd.connected = (s.rd r).connected) (h3 : rd.quitSent = (s.rd r).quitSent)
    (hleft : rd.pc = .closed → s.srv.closed r = true ∨ .quit ∈ s.srv.out r) :
    Mail (s.setRd r rd) := by
  refine hm.setRd ?_ ?_ ?_ (fun h => h3.trans h) hleft
  · rw [h1]; exact hm.acked r
  · rw [h1, h2]; exact hm.first r
  · rw [h1, h3]; exact hm.quit r

/-- The connect message is the first one, and is acknowledged once. -/
theorem receiveConnect (hm : Mail s) (hb : Base s) {r : ℕ} (hpc : (s.rd r).pc = .idle)
    (hmsg : (s.srv.out r)[(s.rd r).rcvd]? = some .connect) :
    Mail (s.setRd r { s.rd r with
      rcvd := (s.rd r).rcvd + 1
      connected := true
      toSrv := (s.rd r).toSrv ++ [.ack] }) := by
  have hzero := hb.rcvd_of_connect hmsg
  have hpos := hb.acked r
  rw [hzero] at hpos
  have hnil : (s.rd r).toSrv = [] := by
    by_contra h
    exact absurd (hpos (Or.inr (Or.inr h))) (lt_irrefl _)
  have hack : s.srv.acked r = false := by
    by_contra h
    exact absurd (hpos (Or.inl (Bool.not_eq_false _ ▸ h))) (lt_irrefl _)
  refine hm.setRd ?_ ?_ ?_ id (by simp [hpc])
  · rw [hack]
    exact fun h => by cases h
  · exact fun _ _ => ⟨[], by simp [hnil], List.not_mem_nil⟩
  · simp [hnil]

/-- The serving thread takes a message: the acknowledgement of a pending client, or the request of a
client to quit. -/
theorem take (hm : Mail s) (hb : Base s) {it : ℕ} {todo : List ℕ} {r : ℕ} {srv : Server ℕ}
    (hpc : s.srv.pc = .clients (it :: todo) ∨ s.srv.pc = .pending (it :: todo))
    (hr : s.srv.conn it = some r) (hd : s.readRes r = some .data)
    (h : s.srv.step (.thread (.read .data)) = some srv) :
    Mail { s with
      srv := srv
      rd := Function.update s.rd r (s.taken r srv) } := by
  have hne := toSrv_ne_nil_of_readRes hd
  set t : System := { s with
    srv := srv
    rd := Function.update s.rd r (s.taken r srv) } with ht
  have hself : t.rd r = s.taken r srv := Function.update_self ..
  have hother {q : ℕ} (hq : q ≠ r) : t.rd q = s.rd q := Function.update_of_ne hq ..
  have hquit (q : ℕ) : .quit ∈ (t.rd q).toSrv → (t.rd q).quitSent = true := by
    by_cases hq : q = r
    · subst hq; rw [hself]; exact fun h' => hm.quit q (List.mem_of_mem_tail h')
    · rw [hother hq]; exact hm.quit q
  have hleft (q : ℕ) (hcl : (t.rd q).pc = .closed) :
      srv.closed q = true ∨ .quit ∈ srv.out q := by
    have hcl' : (s.rd q).pc = .closed := by
      by_cases hq : q = r
      · subst hq; rw [hself] at hcl; exact hcl
      · rwa [hother hq] at hcl
    rcases hm.left q hcl' with h' | h'
    · exact Or.inl (Server.closed_of_step h h')
    · exact Or.inr ((Server.out_prefix_of_step h q).subset h')
  have hcloses := hm.closes.step hb.wf.lists h
  rcases hpc with hpc | hpc
  · -- a client: its acknowledgement was read before
    obtain ⟨hcl, hrm⟩ := hb.wf.lists.scan_head (i := it) (l := todo) (by simp [hpc])
    obtain ⟨-, hack⟩ := hb.wf.streams.serving it r
      ⟨hcl, Or.inr hrm, hb.wf.lists.not_ended (by simp [hpc]) (by simp [hpc]), hr⟩
    have hsrv : srv = { s.srv with pc := .ackQuit it todo } := by
      cases Server.trans_of_step h with
      | readQuit hpc' _ =>
          obtain ⟨rfl, rfl⟩ : it = _ ∧ todo = _ := by simpa [hpc] using hpc'
          rfl
      | ackRead hpc' _ => rw [hpc] at hpc'; cases hpc'
    exact
      { closes := hcloses
        acked := fun q hq => by
          rw [ht, hsrv] at hq
          by_cases hqr : q = r
          · subst hqr; rw [hself]; exact fun h' => hm.acked q hq (List.mem_of_mem_tail h')
          · rw [hother hqr]; exact hm.acked q hq
        first := fun q hq => by
          have hqr : q ≠ r := by
            rintro rfl
            rw [ht, hsrv] at hq
            exact absurd (hack.symm.trans hq) (by decide)
          rw [ht, hsrv] at hq
          rw [hother hqr]
          exact hm.first q hq
        quit := hquit
        ackQuit := fun it' todo' q hpc' hc => by
          rw [ht, hsrv] at hpc' hc
          obtain ⟨rfl, rfl⟩ : it = it' ∧ todo = todo' := by simpa using hpc'
          obtain rfl : r = q := Option.some.inj (hr.symm.trans hc)
          rw [hself]
          -- what is left of its mailbox has no acknowledgement
          cases hl : (s.rd r).toSrv with
          | nil => exact absurd hl hne
          | cons m l =>
              cases m with
              | ack => exact absurd (hl ▸ List.mem_cons_self) (hm.acked r hack)
              | quit => exact hm.quit r (hl ▸ List.mem_cons_self)
        left := hleft }
  · -- a pending client: the first message is its acknowledgement
    obtain ⟨hp, hrm⟩ := hb.wf.lists.pend_head (i := it) (l := todo) (by simp [hpc])
    obtain ⟨-, hack⟩ := hb.wf.streams.waiting it r ⟨hp, hrm, hr⟩
    obtain ⟨l, hl, hnl⟩ := hm.first r hack (Or.inr hne)
    obtain ⟨hacked, hnq⟩ : srv.acked = Server.mark s.srv.acked (some r) ∧
        ∀ it todo, srv.pc ≠ .ackQuit it todo := by
      cases Server.trans_of_step h with
      | readQuit hpc' _ => rw [hpc] at hpc'; cases hpc'
      | ackRead hpc' _ =>
          obtain ⟨rfl, rfl⟩ : it = _ ∧ todo = _ := by simpa [hpc] using hpc'
          exact ⟨by rw [hr], by simp⟩
    exact
      { closes := hcloses
        acked := fun q hq => by
          by_cases hqr : q = r
          · subst hqr; rw [hself, taken_toSrv, hl]; exact hnl
          · rw [hother hqr]
            refine hm.acked q ?_
            rwa [ht, hacked, Server.mark_of_ne _ hqr] at hq
        first := fun q hq => by
          by_cases hqr : q = r
          · subst hqr
            rw [ht, hacked, Server.mark_self] at hq
            cases hq
          · rw [hother hqr]
            refine hm.first q ?_
            rwa [ht, hacked, Server.mark_of_ne _ hqr] at hq
        quit := hquit
        ackQuit := fun it' todo' q hpc' _ => absurd hpc' (hnq it' todo')
        left := hleft }

/-- A step outside the server and the readers. -/
theorem frame (hm : Mail s) (h1 : t.srv = s.srv) (h2 : t.rd = s.rd) : Mail t where
  closes := by rw [h1]; exact hm.closes
  acked := by rw [h1, h2]; exact hm.acked
  first := by rw [h1, h2]; exact hm.first
  quit := by rw [h2]; exact hm.quit
  ackQuit := by rw [h1, h2]; exact hm.ackQuit
  left := by rw [h1, h2]; exact hm.left

/-- **Every step keeps the mailboxes.** -/
theorem step {a : Act} (hm : Mail s) (hb : Base s) (h : s.step a = some t) : Mail t := by
  cases trans_of_step h with
  | @locked op hpc =>
      obtain ⟨w, key, heq, -⟩ := s.locked_eq op
      rw [heq]
      exact hm.frame rfl rfl
  | notifyLock hpc hsrv =>
      cases Server.trans_of_step hsrv with
      | notifyLock => exact hm.congr hb hsrv rfl rfl fun _ _ _ h hc => ⟨h, hc⟩
  | notifySend hpc hn hsrv =>
      refine hm.congr hb hsrv rfl ?_ fun _ _ _ h hc => ?_
      · cases Server.trans_of_step hsrv
        rfl
      · revert h hc
        cases Server.trans_of_step hsrv
        exact fun h hc => ⟨h, hc⟩
  | notifyUnlock hpc hsrv =>
      cases Server.trans_of_step hsrv with
      | notifyUnlock => exact hm.congr hb hsrv rfl rfl fun _ _ _ h hc => ⟨h, hc⟩
  | @server ev srv hk hsrv hs =>
      obtain ⟨hack, hpc⟩ := Server.thread_quiet hsrv (by rintro rfl; cases hs)
      exact hm.congr hb hsrv rfl hack fun it todo _ h => absurd h (hpc it todo)
  | take hpc hr hd hsrv => exact hm.take hb hpc hr hd hsrv
  | cancel hpc hf hsrv =>
      obtain ⟨hack, hpc⟩ := Server.thread_quiet hsrv (by simp)
      exact hm.congr hb hsrv rfl hack fun it todo _ h => absurd h (hpc it todo)
  | attach | receiveUpdate | update | readStart => exact hm.moved rfl rfl rfl (by simp)
  | receiveConnect hr hd hpc hmsg => exact hm.receiveConnect hb hpc hmsg
  | receiveQuit hr hd hpc hmsg =>
      exact hm.moved rfl rfl rfl fun _ => Or.inr (List.mem_of_getElem? hmsg)
  | receiveEof hr hd hpc hmsg hc => exact hm.moved rfl rfl rfl fun _ => Or.inl hc
  | @readEnd r size f hr hd hpc hf =>
      exact (@moved s hm r { s.rd r with pc := .idle } rfl rfl rfl (by simp)).frame rfl rfl
  | @quit r hr ho hc hq =>
      refine hm.setRd (fun ha => ?_) (fun ha _ => ?_) (fun _ => rfl) (fun _ => rfl) (hm.left r)
      · simpa using hm.acked r ha
      · obtain ⟨l, hl, hnl⟩ := hm.first r ha (Or.inl hc)
        exact ⟨l ++ [.quit], by rw [hl]; rfl, by simpa using hnl⟩
  | @die r hr ho => exact hm.moved rfl rfl rfl (hm.left r)
  | _ => exact hm.frame rfl rfl

/-- A client that is served and alive has its socket open. -/
theorem isOpen_of_serving (hm : Mail s) (hb : Base s) {fd r : ℕ} (hs : s.srv.Serving fd r)
    (hd : (s.rd r).dead = false) : (s.rd r).isOpen = true := by
  refine Reader.isOpen_iff.2 ⟨hd, fun hpc => ?_⟩
  rcases hm.left r hpc with h | h
  · rw [hm.closes.opened fd r hs.2.2.2] at h
    cases h
  · obtain ⟨sizes, hout⟩ := (hb.wf.streams.serving fd r hs).1
    rw [hout] at h
    simp at h

end Mail

theorem mail_of_exec {lfd memsize : ℕ} {as : List Act}
    (h : Runs.exec step (init lfd memsize) as = some s) : Mail s :=
  (Runs.exec_invariant (P := fun s => Base s ∧ Mail s)
    (fun _ _ _ hs hst => ⟨hs.1.step hst, hs.2.step hs.1 hst⟩) h
    ⟨base_init lfd memsize, mail_init lfd memsize⟩).2

/-! ### How much is in the sockets -/

/-- A reader asks to quit once. -/
theorem quit_count_of_step {a : Act} (hm : Mail s) (hq : ∀ r, (s.rd r).toSrv.count .quit ≤ 1)
    (h : s.step a = some t) (r : ℕ) : (t.rd r).toSrv.count .quit ≤ 1 := by
  have hset {q : ℕ} {rd : Reader} (hrd : rd.toSrv.count .quit ≤ 1) :
      (Function.update s.rd q rd r).toSrv.count .quit ≤ 1 :=
    rel_update (P := fun a b => a.toSrv.count .quit ≤ 1 → b.toSrv.count .quit ≤ 1) (fun _ => id)
      (fun _ => hrd) r (hq r)
  cases trans_of_step h with
  | @locked op _ =>
      obtain ⟨w, key, heq, -⟩ := s.locked_eq op
      rw [heq]
      exact hq r
  | @take it todo q =>
      refine hset (le_trans ?_ (hq q))
      exact (List.tail_sublist _).count_le _
  | @receiveConnect q =>
      refine hset ?_
      rw [List.count_append]
      exact hq q
  | @quit q _ _ _ hsent =>
      refine hset ?_
      have hnone : (s.rd q).toSrv.count .quit = 0 :=
        List.count_eq_zero.2 fun hmem => by simp [hm.quit q hmem] at hsent
      rw [List.count_append, hnone]
      decide
  | @attach q | @receiveUpdate q | @receiveQuit q | @receiveEof q | @update q | @readStart q
  | @readEnd q | @die q => exact hset (hq q)
  | _ => exact hq r

/-- A reader acknowledges once. -/
theorem Mail.ack_count (hm : Mail s) (r : ℕ) : (s.rd r).toSrv.count .ack ≤ 1 := by
  cases hack : s.srv.acked r with
  | true => exact (List.count_eq_zero.2 (hm.acked r hack)).le.trans zero_le_one
  | false =>
      by_cases hnil : (s.rd r).toSrv = []
      · rw [hnil]
        exact zero_le_one
      · obtain ⟨l, hl, hl'⟩ := hm.first r hack (Or.inr hnil)
        rw [hl, List.count_cons_self, List.count_eq_zero.2 hl']

/-- What a reader has sent are acknowledgements and requests to quit. -/
theorem CliMsg.length_eq (l : List CliMsg) : l.length = l.count .ack + l.count .quit := by
  induction l with
  | nil => rfl
  | cons m l ih => cases m <;> simp [ih] <;> omega

/-- **The sockets never fill up**: in every run in which no reset fires, whoever dies, no connection holds
more than two messages that were not read in either direction, so that none of the sends has to wait for
its peer. -/
theorem mailboxes_bounded {lfd memsize : ℕ} {as : List Act}
    (h : Runs.exec (Runs.restrict step InTime) (init lfd memsize) as = some s) (r : ℕ) :
    ((s.srv.out r).drop (s.rd r).rcvd).length ≤ 2 ∧ (s.rd r).toSrv.length ≤ 2 := by
  have ha := acc_of_exec h
  have hrun := Runs.exec_of_restrict h
  have hm := mail_of_exec hrun
  have hquit : Base s ∧ Mail s ∧ ∀ r, (s.rd r).toSrv.count .quit ≤ 1 :=
    Runs.exec_invariant (P := fun s => Base s ∧ Mail s ∧ ∀ r, (s.rd r).toSrv.count .quit ≤ 1)
      (fun _ _ _ hs hst => ⟨hs.1.step hst, hs.2.1.step hs.1 hst, quit_count_of_step hs.2.1 hs.2.2 hst⟩)
      hrun ⟨base_init lfd memsize, mail_init lfd memsize, fun _ => Nat.zero_le _⟩
  constructor
  · refine (ha.base.wf.streams.stream r).length_drop_le ?_ fun h0 size hmem => ?_
    · have hone := ha.single r
      unfold System.load System.unread at hone
      omega
    · have hpos := ha.base.acked r (Or.inl (ha.base.wf.streams.acked r size hmem))
      omega
  · rw [CliMsg.length_eq]
    have h1 := hm.ack_count r
    have h2 := hquit.2.2 r
    omega

theorem slowFrame_mailboxes :
    ∃ s, Runs.exec (Runs.restrict step InTime) (init 3 1) (connectReader ++ slowFrame) = some s ∧
      ((s.srv.out 0).drop (s.rd 0).rcvd).length ≤ 2 ∧ (s.rd 0).toSrv.length ≤ 2 := by
  have hrun : (Runs.exec (Runs.restrict step InTime) (init 3 1)
      (connectReader ++ slowFrame)).isSome = true := by
    decide +kernel
  obtain ⟨s, hs⟩ := Option.isSome_iff_exists.1 hrun
  exact ⟨s, hs, mailboxes_bounded hs 0⟩

end System

end Shmdata

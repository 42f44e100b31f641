/-
**The serving thread gets through its loop.**

Inside its critical section the serving thread goes through its clients and its pending clients once, and
every step brings it closer to the end.  What it does with a descriptor that `select` has reported is
decided when the pass comes to it: until then the connection behind it stays what it is.

Main definitions:

* `Shmdata.Server.rank` — the steps that are left of the critical section;
* `Shmdata.Server.toScan` — the descriptors that the passes have still to look at;
* `Shmdata.Server.Watches` — what is listed and open is reported by `select`.

Main results:

* `Shmdata.Server.rank_lt_of_step` — every step in the critical section lowers the rank;
* `Shmdata.Server.toScan_of_step`, `Shmdata.Server.toScan_kept` — how the passes proceed;
* `Shmdata.Server.waiting_of_step` — how a pending client stops being one.
-/

import Shmdata.ServerConnections

set_option relaxedAutoImplicit false
set_option autoImplicit false

namespace Shmdata

namespace Server

variable {σ : Type} {s t : Server σ} {ev : Ev}

/-! ### The critical section comes to its end -/

/-- How many steps of the serving thread are left at most, from the lock on, before it is back at `top`. -/
def rank (s : Server σ) : ℕ :=
  match s.pc with
  | .top | .select | .stopped | .undefined => 0
  | .lock => 3 * s.clients.length + 2 * s.pendingClients.length + 5
  | .accept => 2
  | .greet _ => 1
  | .clients todo => 3 * todo.length + 2 * s.pendingClients.length + 4
  | .recover _ todo | .ackQuit _ todo => 3 * todo.length + 2 * s.pendingClients.length + 6
  | .drop _ todo => 3 * todo.length + 2 * s.pendingClients.length + 5
  | .erase => 2 * s.pendingClients.length + 3
  | .pending todo => 2 * todo.length + 2
  | .dropPending _ todo => 2 * todo.length + 3
  | .purge => 1

/-- **Every step of the critical section brings its end closer.** -/
theorem rank_lt_of_step (h : s.step (.thread ev) = some t) (htop : s.pc ≠ .top)
    (hsel : s.pc ≠ .select) : t.rank < s.rank := by
  cases trans_of_step h with
  | loadQuit hpc => exact absurd hpc htop
  | selectFailed hpc | selected hpc => exact absurd hpc hsel
  | lock hpc =>
      cases hlis : s.listening <;> simp only [rank, hpc, Bool.false_eq_true, if_false, if_true] <;> omega
  | @readError it todo hpc =>
      by_cases hmem : it ∈ s.clientsNotified
      · simp [rank, hpc, hmem]; omega
      · simp [rank, hpc, hmem]; omega
  | @greeted fd hpc =>
      by_cases hfd : fd < FD_SETSIZE
      · simp [rank, hpc, hfd]
      · simp [rank, hpc, hfd]
  | acceptFailed hpc | accepted hpc | greetFailed hpc | scanned hpc | recovered hpc | erased hpc
  | pendingScanned hpc | purged hpc => simp [rank, hpc]
  | dropped hpc | pendingDropped hpc => simp [rank, hpc, close]
  | skip hpc | readEof hpc | readQuit hpc | quitAcked hpc | pendingSkip hpc | ackError hpc
  | ackEof hpc | ackRead hpc =>
      simp only [rank, hpc, List.length_cons]
      omega

/-! ### What the passes have still to look at -/

/-- The descriptors that the two passes have still to look at. -/
def toScan (s : Server σ) : List ℕ :=
  match s.pc with
  | .lock => s.clients ++ s.pendingClients
  | .clients todo | .recover _ todo | .ackQuit _ todo | .drop _ todo => todo ++ s.pendingClients
  | .erase => s.pendingClients
  | .pending todo | .dropPending _ todo => todo
  | _ => []

/-- A client is looked at once. -/
theorem Lists.scan_ne (hl : Lists s) {it : ℕ} {todo : List ℕ} (h : s.pc.scanTodo = some (it :: todo))
    {fd : ℕ} (hfd : fd ∈ todo ++ s.pendingClients) : fd ≠ it := by
  rintro rfl
  rcases List.mem_append.1 hfd with hfd | hfd
  · obtain ⟨seen, hc, -⟩ := hl.scan _ h
    have hn := hl.nodupClients
    rw [hc, List.nodup_append] at hn
    exact (List.nodup_cons.1 hn.2.1).1 hfd
  · have hp : s.pc.pendingTodo = none := by cases hpc : s.pc <;> simp [hpc] at h ⊢
    exact hl.not_mem_pending hp (hl.scan_head h).1 hfd

/-- A pending client is looked at once. -/
theorem Lists.pend_ne (hl : Lists s) {it : ℕ} {todo : List ℕ}
    (h : s.pc.pendingTodo = some (it :: todo)) {fd : ℕ} (hfd : fd ∈ todo) : fd ≠ it := by
  rintro rfl
  obtain ⟨seen, hc, -⟩ := hl.pend _ h
  have hn := hl.nodupPending
  rw [hc, List.nodup_append] at hn
  exact (List.nodup_cons.1 hn.2.1).1 hfd

/-- **What is still to be looked at was so before**, or has just been reported by `select`. -/
theorem toScan_of_step (hl : Lists s) (h : s.step (.thread ev) = some t) {fd : ℕ} (hfd : fd ∈ t.toScan) :
    (∃ rset listening, ev = .select rset listening ∧ t.rset = rset ∧ t.conn = s.conn) ∨
      fd ∈ s.toScan ∧ t.rset = s.rset ∧ t.conn fd = s.conn fd ∧
        ∀ it todo, s.pc = .clients (it :: todo) ∨ s.pc = .pending (it :: todo) → fd ≠ it := by
  have hclient {it : ℕ} {todo : List ℕ} (hpc : s.pc = .clients (it :: todo))
      (hfd : fd ∈ todo ++ s.pendingClients) : fd ∈ s.toScan ∧
        ∀ it' todo', s.pc = .clients (it' :: todo') ∨ s.pc = .pending (it' :: todo') → fd ≠ it' := by
    refine ⟨by rw [toScan, hpc]; exact List.mem_cons_of_mem _ hfd, ?_⟩
    rintro it' todo' (h | h) <;> rw [hpc] at h <;> cases h
    exact hl.scan_ne (by simp [hpc]) hfd
  have hpending {it : ℕ} {todo : List ℕ} (hpc : s.pc = .pending (it :: todo)) (hfd : fd ∈ todo) :
      fd ∈ s.toScan ∧
        ∀ it' todo', s.pc = .clients (it' :: todo') ∨ s.pc = .pending (it' :: todo') → fd ≠ it' := by
    refine ⟨by rw [toScan, hpc]; exact List.mem_cons_of_mem _ hfd, ?_⟩
    rintro it' todo' (h | h) <;> rw [hpc] at h <;> cases h
    exact hl.pend_ne (by simp [hpc]) hfd
  cases trans_of_step h with
  | loadQuit hpc => cases hq : s.quit <;> simp [toScan, hq] at hfd
  | selected hpc => exact Or.inl ⟨_, _, rfl, rfl, rfl⟩
  | @greeted fd' hpc => by_cases hfd' : fd' < FD_SETSIZE <;> simp [toScan, hfd'] at hfd
  | lock hpc =>
      refine Or.inr ⟨?_, rfl, rfl, by simp [hpc]⟩
      rw [toScan, hpc]
      cases hlis : s.listening <;> simp only [toScan, hlis] at hfd
      · exact hfd
      · cases hfd
  | scanned hpc | recovered hpc | quitAcked hpc | erased hpc =>
      exact Or.inr ⟨by rw [toScan, hpc]; exact hfd, rfl, rfl, by simp [hpc]⟩
  | @readError it todo hpc =>
      have hfd : fd ∈ todo ++ s.pendingClients := by
        by_cases hmem : it ∈ s.clientsNotified <;> simpa only [toScan, hmem, if_true, if_false] using hfd
      obtain ⟨hscan, hne⟩ := hclient hpc hfd
      exact Or.inr ⟨hscan, rfl, rfl, hne⟩
  | skip hpc | readEof hpc | readQuit hpc =>
      obtain ⟨hscan, hne⟩ := hclient hpc hfd
      exact Or.inr ⟨hscan, rfl, rfl, hne⟩
  | dropped hpc =>
      refine Or.inr ⟨by rw [toScan, hpc]; exact hfd, rfl, ?_, by simp [hpc]⟩
      exact Function.update_of_ne (hl.scan_ne (by simp [hpc]) hfd) ..
  | pendingSkip hpc | ackError hpc | ackEof hpc | ackRead hpc =>
      obtain ⟨hscan, hne⟩ := hpending hpc hfd
      exact Or.inr ⟨hscan, rfl, rfl, hne⟩
  | @pendingDropped it todo hpc =>
      have hfd : fd ∈ todo := hfd
      refine Or.inr ⟨by rw [toScan, hpc]; exact hfd, rfl, ?_, by simp [hpc]⟩
      exact Function.update_of_ne (hl.pend_ne (by simp [hpc]) hfd) ..
  | _ => cases hfd

/-- What is still to be looked at remains so, until the pass comes to it. -/
theorem toScan_kept (h : s.step (.thread ev) = some t) {fd : ℕ} (hfd : fd ∈ s.toScan)
    (hlis : s.pc = .lock → s.listening = false)
    (hne : ∀ it todo, s.pc = .clients (it :: todo) ∨ s.pc = .pending (it :: todo) → fd ≠ it) :
    fd ∈ t.toScan := by
  have hhead {it : ℕ} {todo : List ℕ} (hpc : s.pc = .clients (it :: todo) ∨ s.pc = .pending (it :: todo))
      {l : List ℕ} (hfd : fd ∈ it :: l) : fd ∈ l := (List.mem_cons.1 hfd).resolve_left (hne it todo hpc)
  cases trans_of_step h with
  | lock hpc =>
      rw [toScan, hpc] at hfd
      simpa only [toScan, hlis hpc, Bool.false_eq_true, if_false] using hfd
  | scanned hpc | recovered hpc | quitAcked hpc | erased hpc | dropped hpc | pendingDropped hpc =>
      rw [toScan, hpc] at hfd
      exact hfd
  | skip hpc | readEof hpc | readQuit hpc =>
      rw [toScan, hpc] at hfd
      exact hhead (Or.inl hpc) hfd
  | @readError it todo hpc =>
      rw [toScan, hpc] at hfd
      have hfd : fd ∈ todo ++ s.pendingClients := hhead (Or.inl hpc) hfd
      by_cases hmem : it ∈ s.clientsNotified <;> simpa only [toScan, hmem, if_true, if_false] using hfd
  | pendingSkip hpc | ackError hpc | ackEof hpc | ackRead hpc =>
      rw [toScan, hpc] at hfd
      exact hhead (Or.inr hpc) hfd
  | loadQuit hpc | selectFailed hpc | selected hpc | acceptFailed hpc | accepted hpc | greetFailed hpc
  | greeted hpc | purged hpc | pendingScanned hpc =>
      rw [toScan, hpc] at hfd
      cases hfd

/-! ### What `select` reports -/

/-- Every descriptor that is listed and open is in `allset`, up to `maxfd`. -/
def Watches (s : Server σ) : Prop :=
  ∀ fd, fd ∈ s.clients ∨ fd ∈ s.pendingClients → (∃ c, s.conn fd = some c) →
    fd ∈ s.allset ∧ fd ≤ s.maxfd

theorem watches_init (lfd : ℕ) : Watches (init lfd : Server σ) := by
  simp [Watches, init]

/-- A descriptor that is closed leaves `allset`. -/
theorem Watches.close (hw : Watches s) {it : ℕ} {pc : Pc} : Watches (s.close it pc) := by
  intro fd hfd hcn
  obtain ⟨c, hcn⟩ := hcn
  obtain ⟨hne, hcn⟩ := update_none_eq_some.1 hcn
  obtain ⟨hset, hmax⟩ := hw fd hfd ⟨c, hcn⟩
  exact ⟨List.mem_filter.2 ⟨hset, by simpa using hne⟩, hmax⟩

theorem Watches.step {a : Act σ} (hw : Watches s) (hl : Lists s) (h : s.step a = some t) : Watches t := by
  cases trans_of_step h with
  | @accepted fd' hpc hcn =>
      -- the new descriptor is not listed, since all the listed ones are open
      have hrm : s.clientsToRemove = [] := hl.rest (by simp [hpc]) (by simp [hpc])
      intro fd hfd hc
      have hopen : ∃ c, s.conn fd = some c := by
        rcases hfd with hfd | hfd
        · exact hl.openClients fd hfd (Or.inr (by simp [hrm]))
        · exact hl.openPending fd hfd (by simp [hrm])
      exact hw fd hfd hopen
  | @greeted fd' hpc =>
      intro fd hfd hc
      show fd ∈ setInsert fd' s.allset ∧ fd ≤ max s.maxfd fd'
      rw [mem_setInsert]
      by_cases hne : fd = fd'
      · exact ⟨Or.inl hne, hne ▸ le_max_right _ _⟩
      · have hfd := hfd.imp_right fun h => (mem_setInsert.1 h).resolve_left hne
        obtain ⟨hset, hmax⟩ := hw fd hfd hc
        exact ⟨Or.inr hset, hmax.trans (le_max_left _ _)⟩
  | dropped | pendingDropped => exact hw.close
  | erased => exact fun fd hfd => hw fd (hfd.imp_left fun h => (hl.mem_erased.1 h).1)
  | @ackRead it todo hpc =>
      obtain ⟨hp, -⟩ := hl.pend_head (i := it) (l := todo) (by simp [hpc])
      refine fun fd hfd => hw fd ?_
      rcases hfd with hfd | hfd
      · rcases List.mem_append.1 hfd with hfd | hfd
        · exact Or.inl hfd
        · exact Or.inr (List.mem_singleton.1 hfd ▸ hp)
      · exact Or.inr hfd
  | purged => exact fun fd hfd => hw fd (hfd.imp_right fun h => (List.mem_filter.1 h).1)
  | _ => exact hw

/-! ### How a pending client stops being one -/

/-- **A pending client is acknowledged or closed**, unless reading its acknowledgement fails. -/
theorem waiting_of_step (hl : Lists s) (h : s.step (.thread ev) = some t) {fd c : ℕ}
    (hw : s.Waiting fd c) :
    t.Waiting fd c ∨ t.closed c = true ∨ t.acked c = true ∨
      ev = .read .error ∧ ∃ todo, s.pc = .pending (fd :: todo) := by
  obtain ⟨hp, hrm, hcn⟩ := hw
  have hrm' {it : ℕ} (hne : fd ≠ it) : fd ∉ s.clientsToRemove ++ [it] := fun hm =>
    (List.mem_append.1 hm).elim hrm fun hm => hne (List.mem_singleton.1 hm)
  cases trans_of_step h with
  | @accepted fd' hpc hnone =>
      refine Or.inl ⟨hp, hrm, (Function.update_of_ne ?_ ..).trans hcn⟩
      rintro rfl
      rw [hnone] at hcn
      cases hcn
  | greeted hpc => exact Or.inl ⟨mem_setInsert.2 (Or.inr hp), hrm, hcn⟩
  | @dropped it todo hpc =>
      have hne : fd ≠ it := by
        rintro rfl
        exact hl.not_mem_pending (by simp [hpc]) (hl.scan_head (i := fd) (l := todo) (by simp [hpc])).1 hp
      exact Or.inl ⟨hp, hrm' hne, (Function.update_of_ne hne ..).trans hcn⟩
  | erased hpc => exact Or.inl ⟨hp, List.not_mem_nil, hcn⟩
  | @ackError it todo hpc =>
      by_cases hne : fd = it
      · exact Or.inr (Or.inr (Or.inr ⟨rfl, todo, hne ▸ hpc⟩))
      · exact Or.inl ⟨hp, hrm' hne, hcn⟩
  | @ackRead it todo hpc =>
      by_cases hne : fd = it
      · subst hne
        exact Or.inr (Or.inr (Or.inl (by rw [hcn]; exact mark_self ..)))
      · exact Or.inl ⟨hp, hrm' hne, hcn⟩
  | @pendingDropped it todo hpc =>
      by_cases hne : fd = it
      · subst hne
        exact Or.inr (Or.inl (by rw [close, hcn]; exact mark_self ..))
      · exact Or.inl ⟨hp, hrm' hne, (Function.update_of_ne hne ..).trans hcn⟩
  | purged hpc =>
      exact Or.inl ⟨List.mem_filter.2 ⟨hp, by simpa using hrm⟩, List.not_mem_nil, hcn⟩
  | _ => exact Or.inl ⟨hp, hrm, hcn⟩

/-- An acknowledged client stays so. -/
theorem acked_of_step {a : Act σ} (h : s.step a = some t) {c : ℕ} (ha : s.acked c = true) :
    t.acked c = true := by
  cases trans_of_step h with
  | ackRead => exact mark_mono _ _ ha
  | _ => exact ha

/-- Only `select` leads to the lock. -/
theorem select_of_lock (h : s.step (.thread ev) = some t) (hpc : t.pc = .lock) : s.pc = .select := by
  cases trans_of_step h with
  | selected hpc' => exact hpc'
  | loadQuit => cases hq : s.quit <;> simp [hq] at hpc
  | lock => cases hlis : s.listening <;> simp [hlis] at hpc
  | @greeted fd => by_cases hfd : fd < FD_SETSIZE <;> simp [hfd] at hpc
  | @readError it todo => by_cases hmem : it ∈ s.clientsNotified <;> simp [hmem] at hpc
  | _ => cases hpc

theorem select_of_selected {rset : List ℕ} {listening : Bool}
    (h : s.step (.thread (.select rset listening)) = some t) : s.pc = .select := by
  cases trans_of_step h with
  | selected hpc => exact hpc

/-- A descriptor that was reported is read when the pass comes to it. -/
theorem read_of_head (h : s.step (.thread ev) = some t) {fd : ℕ} {todo : List ℕ}
    (hpc : s.pc = .clients (fd :: todo) ∨ s.pc = .pending (fd :: todo)) (hset : fd ∈ s.rset) :
    ∃ res, ev = .read res := by
  cases trans_of_step h with
  | readError | readEof | readQuit | ackError | ackEof | ackRead => exact ⟨_, rfl⟩
  | skip hpc' hr | pendingSkip hpc' hr =>
      rcases hpc with hpc | hpc <;> rw [hpc] at hpc' <;> cases hpc'
      exact absurd hset hr
  | _ hpc' => rcases hpc with hpc | hpc <;> rw [hpc] at hpc' <;> cases hpc'

/-- Updates are sent to acknowledged clients only. -/
theorem acked_of_notifySend {ok : Bool} (h : s.step (.notifySend ok) = some t) (ht : Streams t) (c : ℕ) :
    t.out c = s.out c ∨ s.acked c = true := by
  cases trans_of_step h with
  | @notifySend size it todo ok hn =>
      cases ok with
      | false => exact Or.inl rfl
      | true =>
          cases hc : s.conn it with
          | none => exact Or.inl rfl
          | some d =>
              by_cases hcd : c = d
              · subst hcd
                refine Or.inr (ht.acked c size ?_)
                show SrvMsg.update size ∈ record s.out (s.conn it) (.update size) c
                rw [hc, record_self]
                simp
              · exact Or.inl (record_of_ne _ _ hcd)

/-- The serving thread is about to answer the request on a connection, or has just done so. -/
def Answering (s : Server σ) (c : ℕ) : Prop :=
  ∃ it todo, (s.pc = .ackQuit it todo ∨ s.pc = .drop it todo) ∧ s.conn it = some c

/-- An answer under way is given, and the connection is closed. -/
theorem answering_of_step (h : s.step (.thread ev) = some t) {c : ℕ} (ha : s.Answering c) :
    t.closed c = true ∨ t.Answering c := by
  obtain ⟨it, todo, hpc | hpc, hc⟩ := ha
  · cases trans_of_step h with
    | quitAcked hpc' =>
        obtain ⟨rfl, rfl⟩ := Pc.ackQuit.inj (hpc.symm.trans hpc')
        exact Or.inr ⟨it, todo, Or.inr rfl, hc⟩
    | _ hpc' => rw [hpc] at hpc'; cases hpc'
  · cases trans_of_step h with
    | dropped hpc' =>
        obtain ⟨rfl, rfl⟩ := Pc.drop.inj (hpc.symm.trans hpc')
        rw [close, hc]
        exact Or.inl (mark_self ..)
    | _ hpc' => rw [hpc] at hpc'; cases hpc'

/-- The serving thread does not stop before the destructor asks for it. -/
theorem running_of_step (hq : s.quit = false) (hpc : s.pc ≠ .stopped) {a : Act σ}
    (ha : a ≠ .dtorStart) (h : s.step a = some t) : t.quit = false ∧ t.pc ≠ .stopped := by
  cases trans_of_step h with
  | loadQuit => exact ⟨hq, by simp [hq]⟩
  | lock => exact ⟨hq, by dsimp only; split <;> simp⟩
  | greeted => exact ⟨hq, by dsimp only; split <;> simp⟩
  | readError => exact ⟨hq, by dsimp only; split <;> simp⟩
  | dtorStart => exact absurd rfl ha
  | dropped | pendingDropped => exact ⟨hq, by simp [close]⟩
  | notifyLock | notifySend | notifyUnlock | dtorJoin | dtorSend | dtorEnd => exact ⟨hq, hpc⟩
  | _ => exact ⟨hq, by simp⟩

end Server

end Shmdata

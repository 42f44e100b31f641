/-
**The system is a broadcast channel.**

One writer with its semaphores, its segments and the serving thread of its server, and the readers with
their client threads, refine the broadcast channel in lockstep: a frame is published when
`notify_update` takes the mutex, to the clients of that moment, and handed to a reader when it gets its
`ReadLock` and its callback is called.  A reader joins when the server reads its acknowledgement, and
leaves when its descriptor is closed.  All other steps are not seen.

What is seen of a frame and of a call is a parameter.  What is seen of a frame may depend on the memory,
as long as the memory of a frame stays as it is while a reader waits for it.

A reader is given the frames from its place on, `Shmdata.Reader.joined`, which is set when the server takes its
acknowledgement to the number of frames announced by then.

Main definitions:

* `Shmdata.System.events` — what is seen of a step;
* `Shmdata.System.Tracks` — **the simulation**, between the system and a channel;
* `Shmdata.System.Filled` — a writer that minds the sizes it announces, and writes before it announces them;
* `Shmdata.System.copied` — the data `copy_to_shm` was called with;
* `Shmdata.System.Given` — what a reader was given of a log, from its place on.

Main results:

* `Shmdata.System.joined_of_step` — the place of a reader is set when its acknowledgement is taken, and only then;

* `Shmdata.System.Tracks.step` — every step is matched by acts of the channel;
* `Shmdata.System.prompt_broadcast` — **every trace of the system is a trace of the channel**, when the sizes
  and the segments are seen;
* `Shmdata.System.filled_broadcast` — **the same for the sizes and the bytes**;
* `Shmdata.System.copyToShm_broadcast` — **every reader is given a contiguous piece of the sequence of
  byte strings that `copy_to_shm` was called with**, and no live client is more than one behind.
-/

import Shmdata.Announce
import Shmdata.Broadcast
import Mathlib.Data.Finset.Filter

set_option relaxedAutoImplicit false
set_option autoImplicit false

namespace Shmdata

/-- The data of the call of `copy_to_shm` that has not notified it yet. -/
@[simp] def Writer.Pc.copying : Writer.Pc → List (List UInt8)
  | .writeStart (.copyToShm data) | .locked (.copyToShm data) => [data]
  | .create _ (.copy data) | .notify _ (.copy data) => [data]
  | _ => []

namespace System

open SysV Semops Runs
open Broadcast (Channel Event)

variable {s t : System} {ok : Frame → Prop} {r : ℕ}

/-! ### Who is a client -/

/-- A step of the serving thread makes one reader a client, for the first time, or none. -/
theorem clients_of_thread (hb : Base s) {ev : Server.Ev} {srv : Server ℕ}
    (h : s.srv.step (.thread ev) = some srv) :
    (∃ it todo q, s.srv.pc = .pending (it :: todo) ∧ s.srv.conn it = some q ∧
      s.srv.acked q = false ∧ srv.acked = Function.update s.srv.acked q true ∧
      ∀ r, isClient { s with srv := srv } r = true ↔ s.isClient r = true ∨ r = q) ∨
    (srv.acked = s.srv.acked ∧
      ∀ r, isClient { s with srv := srv } r = true → s.isClient r = true) := by
  simp only [isClient, List.any_eq_true, decide_eq_true_eq]
  cases Server.trans_of_step h with
  | @accepted fd hpc hc hl =>
      refine Or.inr ⟨rfl, ?_⟩
      rintro r ⟨fd', hfd', hc'⟩
      have hrm : s.srv.clientsToRemove = [] := hb.wf.lists.rest (by simp [hpc]) (by simp [hpc])
      have hne : fd' ≠ fd := by
        rintro rfl
        obtain ⟨q, hq⟩ := hb.wf.lists.openClients fd' hfd' (Or.inr (by simp [hrm]))
        rw [hc] at hq
        cases hq
      exact ⟨fd', hfd', by simpa [hne] using hc'⟩
  | dropped hpc | pendingDropped hpc =>
      refine Or.inr ⟨rfl, ?_⟩
      rintro r ⟨fd', hfd', hc'⟩
      exact ⟨fd', hfd', (Server.update_none_eq_some.1 hc').2⟩
  | erased hpc =>
      refine Or.inr ⟨rfl, ?_⟩
      rintro r ⟨fd', hfd', hc'⟩
      rw [← List.diff_eq_foldl, hb.wf.lists.nodupClients.mem_sdiff_iff] at hfd'
      exact ⟨fd', hfd'.1, hc'⟩
  | @ackRead it todo hpc hr =>
      obtain ⟨hp, hrm⟩ := hb.wf.lists.pend_head (i := it) (l := todo) (by simp [hpc])
      obtain ⟨q, hq⟩ := hb.wf.lists.openPending it hp hrm
      refine Or.inl ⟨it, todo, q, hpc, hq, (hb.wf.streams.waiting it q ⟨hp, hrm, hq⟩).2,
        by rw [hq]; rfl, fun r => ?_⟩
      constructor
      · rintro ⟨fd, hfd, hc⟩
        rcases List.mem_append.1 hfd with hfd | hfd
        · exact Or.inl ⟨fd, hfd, hc⟩
        · obtain rfl := List.mem_singleton.1 hfd
          exact Or.inr (Option.some.inj (hc.symm.trans hq))
      · rintro (⟨fd, hfd, hc⟩ | rfl)
        · exact ⟨fd, List.mem_append_left _ hfd, hc⟩
        · exact ⟨it, List.mem_append_right _ (List.mem_singleton.2 rfl), hq⟩
  | _ => exact Or.inr ⟨rfl, fun _ => id⟩

theorem joined_update {q : ℕ} {rd : Reader} (h : rd.joined = (s.rd q).joined) (r : ℕ) :
    (Function.update s.rd q rd r).joined = (s.rd r).joined :=
  rel_update (P := fun a b => b.joined = a.joined) (fun _ => rfl) h r

/-- **Where a reader joins**: the step that takes its acknowledgement, and no other, writes down how many
frames have been announced. -/
theorem joined_of_step (hb : Base s) {a : Act} (h : s.step a = some t) (r : ℕ) :
    (t.rd r).joined = if t.srv.acked r = s.srv.acked r then (s.rd r).joined else s.announced := by
  have hset {u : System} {q : ℕ} {rd : Reader} (hu : u.rd = Function.update s.rd q rd)
      (hj : rd.joined = (s.rd q).joined) (hack : u.srv.acked = s.srv.acked) :
      (u.rd r).joined = if u.srv.acked r = s.srv.acked r then (s.rd r).joined else s.announced := by
    rw [hack, if_pos rfl, hu]
    exact joined_update hj r
  cases trans_of_step h with
  | @locked op hpc =>
      obtain ⟨w, key, heq, -⟩ := s.locked_eq op
      rw [heq]
      exact (if_pos rfl).symm
  | notifyLock hpc hsrv | notifyUnlock hpc hsrv | notifySend hpc hn hsrv =>
      exact (if_pos (congrFun (isClient_notify hsrv (by simp)).1 r)).symm
  | server hk hsrv hs =>
      exact (if_pos (congrFun (Server.thread_quiet hsrv (by rintro rfl; cases hs)).1 r)).symm
  | cancel hpc hf hsrv => exact (if_pos (congrFun (Server.thread_quiet hsrv (by simp)).1 r)).symm
  | @take it todo q srv hpc hq hd hsrv =>
      by_cases hr : r = q
      · subst hr
        show (Function.update s.rd r (s.taken r srv) r).joined = _
        rw [Function.update_self]
        rfl
      · have hack : srv.acked r = s.srv.acked r := by
          rcases clients_of_thread hb hsrv with ⟨it', todo', q', hpc', hq', -, hack, -⟩ | ⟨hack, -⟩
          · obtain rfl : it = it' := by
              rcases hpc with hpc | hpc <;> rw [hpc] at hpc' <;> cases hpc'
              rfl
            obtain rfl : q = q' := Option.some.inj (hq.symm.trans hq')
            rw [hack, Function.update_of_ne hr]
          · rw [hack]
        show (Function.update s.rd q (s.taken q srv) r).joined = _
        rw [Function.update_of_ne hr, if_pos hack]
  | attach | receiveConnect | receiveUpdate | receiveQuit | receiveEof | update | readStart | readEnd
  | quit | die => exact hset rfl rfl rfl
  | _ => exact (if_pos rfl).symm

/-- A live reader with an update to deal with is one call behind its frames. -/
theorem Served.length_of_owing (h : Served ok s r) (ho : Owing s r) :
    (s.due r).length = (s.rd r).calls.length + 1 := by
  obtain ⟨done, hdue, hcalls⟩ := h.owing ho
  rw [hdue, List.length_append, hcalls.length_eq, List.length_singleton]

/-- The call that a reader is about to get fits the current frame. -/
theorem Delivers.good (hi : Delivers ok s) (hok : ∀ f : Frame, f.size ≠ 0 → ok f) {size : ℕ}
    (hd : (s.rd r).dead = false) (hpc : (s.rd r).pc = .readStart size) (hf : s.sem 1 = 0) :
    s.frame ∈ s.due r ∧ Good ok s.frame ⟨size, (s.rd r).shm, s.bytesAt r size⟩ := by
  have hs := hi.served r hd
  have how : Owing s r := Or.inr (Or.inr (by rw [hpc]; exact Nat.one_pos))
  obtain ⟨done, hdue, -⟩ := hs.owing how
  refine ⟨by rw [hdue]; simp, ?_⟩
  have hs' := hs.readStart hok hi.acc hi.segs hd hpc hf
  set call : Reader.Call := ⟨size, (s.rd r).shm, s.bytesAt r size⟩ with hcall
  set rd : Reader := { s.rd r with pc := .onData size, calls := (s.rd r).calls ++ [call] } with hrd
  have hself : (s.setRd r rd).rd r = rd := setRd_rd_self ..
  have hbehind : ¬ Owing (s.setRd r rd) r := by
    rw [← hs'.behind, hself]
    show ¬ ((s.rd r).calls ++ [call]).length < (s.due r).length
    rw [List.length_append, hs.length_of_owing how, List.length_singleton]
    exact lt_irrefl _
  have hall := hs'.settled hbehind
  rw [hself] at hall
  replace hall : List.Forall₂ (Good ok) (s.due r) ((s.rd r).calls ++ [call]) := hall
  rw [hdue, ← List.forall₂_reverse_iff, List.reverse_append, List.reverse_append] at hall
  exact (List.forall₂_cons.1 hall).1

/-! ### The simulation -/

section simulation

variable {β : Type} {view : (ℕ → List UInt8) → Frame → β} {seen : Reader.Call → β}

/-- What is seen of a step: a frame that is notified, a callback that is called. -/
def events (view : (ℕ → List UInt8) → Frame → β) (seen : Reader.Call → β) (s : System) :
    Act → List (Event ℕ β)
  | .writer =>
      match s.w.pc with
      | .notify size next => [.published (view s.mem ⟨size, s.w.shm, next.data⟩)]
      | _ => []
  | .reader r =>
      match (s.rd r).pc with
      | .readStart size => [.delivered r (seen ⟨size, (s.rd r).shm, s.bytesAt r size⟩)]
      | _ => []
  | _ => []

/-- The simulation: the members are the live clients, and those wait that are one call behind.  A member
joined where the reader became a client. -/
structure Tracks (view : (ℕ → List UInt8) → Frame → β) (seen : Reader.Call → β) (s : System)
    (c : Channel ℕ β) : Prop where
  members : ∀ r, r ∈ c.members ↔ s.isClient r = true ∧ (s.rd r).dead = false
  waiting : ∀ r, r ∈ c.waiting ↔
    (s.rd r).dead = false ∧ (s.rd r).calls.length < (s.due r).length
  unknown : ∀ r, s.srv.acked r = false → c.joined r = none
  joined : ∀ r k, c.joined r = some k → k = (s.rd r).joined
  start : ∀ r, (s.rd r).joined ≤ c.log.length
  announced : c.log.length = s.announced
  taken : ∀ r, c.taken r = (s.rd r).calls.map seen
  last : ∀ r ∈ c.waiting, c.log.getLast? = some (view s.mem s.frame)

theorem tracks_init (lfd memsize : ℕ) : Tracks view seen (init lfd memsize) Channel.init where
  members := by simp [init, Channel.init, Server.init, isClient]
  waiting := by simp [init, Channel.init, Reader.init]
  unknown _ _ := rfl
  joined _ _ h := by cases h
  start _ := le_rfl
  announced := rfl
  taken := by simp [init, Channel.init, Reader.init]
  last r h := absurd h (Finset.notMem_empty r)

namespace Tracks

variable {c : Channel ℕ β}

/-- A step that changes nothing of what a channel holds. -/
theorem congr (hc : Tracks view seen s c) (h1 : ∀ r, t.isClient r = s.isClient r)
    (h2 : t.srv.acked = s.srv.acked) (h3 : t.frame = s.frame) (h4 : t.due = s.due)
    (h5 : t.announced = s.announced)
    (hrd : ∀ r, (t.rd r).dead = (s.rd r).dead ∧ (t.rd r).calls = (s.rd r).calls ∧
      (t.rd r).joined = (s.rd r).joined)
    (hmem : c.waiting.Nonempty → view t.mem s.frame = view s.mem s.frame) : Tracks view seen t c where
  members r := by rw [h1, (hrd r).1]; exact hc.members r
  waiting r := by rw [(hrd r).1, (hrd r).2.1, h4]; exact hc.waiting r
  unknown r h := hc.unknown r (h2 ▸ h)
  joined r k h := by rw [(hrd r).2.2]; exact hc.joined r k h
  start r := by rw [(hrd r).2.2]; exact hc.start r
  announced := hc.announced.trans h5.symm
  taken r := by rw [(hrd r).2.1]; exact hc.taken r
  last r hr := by rw [h3, hmem ⟨r, hr⟩]; exact hc.last r hr

/-- A step that changes neither the readers nor what is announced. -/
theorem frame (hc : Tracks view seen s c) (h1 : t.srv = s.srv) (h2 : t.rd = s.rd)
    (h3 : t.frame = s.frame ∧ t.due = s.due ∧ t.announced = s.announced)
    (hmem : c.waiting.Nonempty → view t.mem s.frame = view s.mem s.frame) : Tracks view seen t c :=
  hc.congr (fun _ => by rw [isClient, isClient, h1]) (by rw [h1]) h3.1 h3.2.1 h3.2.2
    (fun _ => by rw [h2]; exact ⟨rfl, rfl, rfl⟩) hmem

/-- A step of a reader that leaves its calls alone. -/
theorem setRd (hc : Tracks view seen s c) {rd : Reader} (h1 : rd.dead = (s.rd r).dead)
    (h2 : rd.calls = (s.rd r).calls) (h3 : rd.joined = (s.rd r).joined) :
    Tracks view seen (s.setRd r rd) c := by
  refine hc.congr (fun _ => rfl) rfl rfl rfl rfl (fun q => ?_) fun _ => rfl
  by_cases hq : q = r
  · subst hq
    rw [setRd_rd_self]
    exact ⟨h1, h2, h3⟩
  · rw [show (s.setRd r rd).rd q = s.rd q from Function.update_of_ne hq ..]
    exact ⟨rfl, rfl, rfl⟩

/-- The act of a channel that matches a step. -/
theorem matched {a : Act} {b : Broadcast.Act ℕ β} {d : Channel ℕ β} (h : c.step b = some d)
    (ht : Tracks view seen t d) (he : Channel.event c b = events view seen s a) :
    ∃ bs d, exec Channel.step c bs = some d ∧ Tracks view seen t d ∧
      trace Channel.step Channel.event c bs = events view seen s a := by
  refine ⟨[b], d, exec_cons_eq_some.2 ⟨d, h, rfl⟩, ht, ?_⟩
  rw [trace_cons [] h, trace_nil, List.append_nil, he]

/-- A step that is not seen. -/
theorem unseen {a : Act} (ht : Tracks view seen t c) (he : events view seen s a = []) :
    ∃ bs d, exec Channel.step c bs = some d ∧ Tracks view seen t d ∧
      trace Channel.step Channel.event c bs = events view seen s a :=
  ⟨[], c, rfl, ht, he.symm⟩

/-- A step of the serving thread that acknowledges nobody: some readers leave. -/
theorem leave (hc : Tracks view seen s c) (hb : Base s) {ev : Server.Ev} {srv : Server ℕ}
    (h : s.srv.step (.thread ev) = some srv) (hack : srv.acked = s.srv.acked) :
    ∃ b d, c.step b = some d ∧ Channel.event c b = [] ∧
      Tracks view seen { s with srv := srv } d := by
  rcases clients_of_thread hb h with ⟨it, todo, q, -, -, hq, hnew, -⟩ | ⟨-, hcl⟩
  · have heq := congrFun (hnew.symm.trans hack) q
    rw [Function.update_self, hq] at heq
    cases heq
  · refine ⟨.leave (c.members.filter fun r => ¬ isClient { s with srv := srv } r = true), _, rfl,
      rfl, ?_⟩
    exact
      { hc with
        members := fun r => by
          rw [Finset.mem_sdiff, Finset.mem_filter, hc.members r]
          constructor
          · rintro ⟨⟨h, hd⟩, hn⟩
            refine ⟨?_, hd⟩
            by_contra hne
            exact hn ⟨⟨h, hd⟩, hne⟩
          · rintro ⟨h, hd⟩
            exact ⟨⟨hcl r h, hd⟩, fun hn => hn.2 h⟩
        unknown := fun r hr => hc.unknown r (by rw [← hack]; exact hr) }

/-- The serving thread reads the acknowledgement of a reader: it joins, unless it has died. -/
theorem join (hc : Tracks view seen s c) {srv : Server ℕ} {q : ℕ}
    (hq : s.srv.acked q = false) (hack : srv.acked = Function.update s.srv.acked q true)
    (hcl : ∀ r, isClient { s with srv := srv } r = true ↔ s.isClient r = true ∨ r = q) :
    ∃ b d, c.step b = some d ∧ Channel.event c b = [] ∧
      Tracks view seen { s with srv := srv, rd := Function.update s.rd q (s.taken q srv) } d := by
  have hjoined : (s.taken q srv).joined = s.announced :=
    if_neg (by rw [hack, Function.update_self, hq]; decide)
  set u : System := { s with srv := srv, rd := Function.update s.rd q (s.taken q srv) } with hu
  have hself : u.rd q = s.taken q srv := Function.update_self ..
  have hother {r : ℕ} (hr : r ≠ q) : u.rd r = s.rd r := Function.update_of_ne hr ..
  have hdead : ∀ r, (u.rd r).dead = (s.rd r).dead :=
    rel_update (P := fun a b => b.dead = a.dead) (fun _ => rfl) (s.taken_dead q srv)
  have hcalls : ∀ r, (u.rd r).calls = (s.rd r).calls :=
    rel_update (P := fun a b => b.calls = a.calls) (fun _ => rfl) (s.taken_calls q srv)
  have hunknown {r : ℕ} (hr : u.srv.acked r = false) : r ≠ q ∧ c.joined r = none := by
    rw [show u.srv.acked r = _ from congrFun hack r] at hr
    have hne : r ≠ q := by
      rintro rfl
      rw [Function.update_self] at hr
      cases hr
    rw [Function.update_of_ne hne] at hr
    exact ⟨hne, hc.unknown r hr⟩
  have hclient (r : ℕ) : u.isClient r = true ↔ s.isClient r = true ∨ r = q := hcl r
  have hstart (r : ℕ) : (u.rd r).joined ≤ c.log.length := by
    by_cases hr : r = q
    · rw [hr, hself, hjoined, hc.announced]
    · rw [hother hr]
      exact hc.start r
  by_cases hd : (s.rd q).dead = false
  · refine ⟨.join q, _, if_pos (hc.unknown q hq), rfl, ?_⟩
    exact
      { members := fun r => by
          rw [hdead r, Finset.mem_insert, hc.members r, hclient r]
          constructor
          · rintro (rfl | ⟨h, hd'⟩)
            · exact ⟨Or.inr rfl, hd⟩
            · exact ⟨Or.inl h, hd'⟩
          · rintro ⟨h | rfl, hd'⟩
            · exact Or.inr ⟨h, hd'⟩
            · exact Or.inl rfl
        waiting := fun r => by rw [hdead r, hcalls r]; exact hc.waiting r
        unknown := fun r hr => (Function.update_of_ne (hunknown hr).1 ..).trans (hunknown hr).2
        joined := fun r k hk => by
          by_cases hr : r = q
          · subst hr
            rw [hself, hjoined, ← hc.announced]
            have hself' : Function.update c.joined r (some c.log.length) r = some k := hk
            rw [Function.update_self, Option.some_inj] at hself'
            exact hself'.symm
          · rw [hother hr]
            exact hc.joined r k ((Function.update_of_ne hr ..).symm.trans hk)
        start := hstart
        announced := hc.announced
        taken := fun r => by rw [hcalls r]; exact hc.taken r
        last := hc.last }
  · refine ⟨.leave ∅, _, rfl, rfl, ?_⟩
    exact
      { members := fun r => by
          rw [hdead r, Finset.sdiff_empty, hc.members r, hclient r]
          refine ⟨fun h => ⟨Or.inl h.1, h.2⟩, fun h => ⟨h.1.resolve_right ?_, h.2⟩⟩
          rintro rfl
          exact hd h.2
        waiting := fun r => by rw [hdead r, hcalls r]; exact hc.waiting r
        unknown := fun r hr => (hunknown hr).2
        joined := fun r k hk => by
          have hr : r ≠ q := by
            rintro rfl
            cases (hc.unknown r hq).symm.trans hk
          rw [hother hr]
          exact hc.joined r k hk
        start := hstart
        announced := hc.announced
        taken := fun r => by rw [hcalls r]; exact hc.taken r
        last := hc.last }

/-- The serving thread takes a message: a reader joins, or nothing changes. -/
theorem take (hc : Tracks view seen s c) (hb : Base s) {it : ℕ} {todo : List ℕ} {srv : Server ℕ}
    (hpc : s.srv.pc = .clients (it :: todo) ∨ s.srv.pc = .pending (it :: todo))
    (hr : s.srv.conn it = some r) (h : s.srv.step (.thread (.read .data)) = some srv) :
    ∃ b d, c.step b = some d ∧ Channel.event c b = [] ∧
      Tracks view seen { s with srv := srv, rd := Function.update s.rd r (s.taken r srv) } d := by
  rcases clients_of_thread hb h with ⟨it', todo', q, hpc', hq', hq, hack, hcl⟩ | ⟨hack, -⟩
  · obtain rfl : it = it' := by
      rcases hpc with hpc | hpc <;> rw [hpc] at hpc' <;> cases hpc'
      rfl
    obtain rfl : r = q := Option.some.inj (hr.symm.trans hq')
    exact hc.join hq hack hcl
  · obtain ⟨b, d, hd, he, ht⟩ := hc.leave hb h hack
    exact ⟨b, d, hd, he, ht.setRd rfl rfl (if_pos (congrFun hack r))⟩

/-- `notify_update` takes the mutex: nobody waits, and the frame is published to the live clients. -/
theorem notifyLock (hc : Tracks view seen s c) (hi : Delivers ok s) {size : ℕ} {next : Writer.Next}
    {srv : Server ℕ} (hpc : s.w.pc = .notify size next)
    (h : s.srv.step (.notifyLock size) = some srv) :
    ∃ d, c.step (.publish (view s.mem ⟨size, s.w.shm, next.data⟩)) = some d ∧
      Tracks view seen (s.notifyLock size next srv) d := by
  obtain ⟨hack, hcl⟩ := isClient_notify h (by simp)
  have hsettled {r : ℕ} (hd : (s.rd r).dead = false) : (s.due r).length = (s.rd r).calls.length :=
    ((hi.served r hd).settled (not_owing_of_notify hi.acc hi.segs hpc hd)).length_eq
  have hwait : c.waiting = ∅ := by
    refine Finset.eq_empty_of_forall_notMem fun r hr => ?_
    obtain ⟨hd, hlt⟩ := (hc.waiting r).1 hr
    exact absurd (hsettled hd) hlt.ne'
  refine ⟨_, if_pos hwait, ?_⟩
  exact
    { members := fun r => by
        rw [hc.members r, ← hcl r]
        rfl
      waiting := fun r => by
        rw [hc.members r]
        show _ ↔ (s.rd r).dead = false ∧ (s.rd r).calls.length < (if s.isClient r = true then
          s.due r ++ [⟨size, s.w.shm, next.data⟩] else s.due r).length
        constructor
        · rintro ⟨hcr, hd⟩
          rw [if_pos hcr, List.length_append, hsettled hd]
          exact ⟨hd, Nat.lt_succ_self _⟩
        · rintro ⟨hd, hlt⟩
          refine ⟨?_, hd⟩
          by_contra hcr
          rw [if_neg hcr, hsettled hd] at hlt
          exact lt_irrefl _ hlt
      unknown := fun r hr => hc.unknown r (by rw [← hack]; exact hr)
      joined := hc.joined
      start := fun r => by
        rw [List.length_append]
        exact (hc.start r).trans (Nat.le_add_right ..)
      announced := by
        rw [List.length_append, hc.announced]
        rfl
      taken := hc.taken
      last := fun _ _ => List.getLast?_concat }

/-- A reader gets its `ReadLock`: it is handed the frame that was published last. -/
theorem readStart (hc : Tracks view seen s c) (hi : Delivers ok s)
    {size : ℕ} (hd : (s.rd r).dead = false) (hpc : (s.rd r).pc = .readStart size)
    (hseen : seen ⟨size, (s.rd r).shm, s.bytesAt r size⟩ = view s.mem s.frame) :
    ∃ d, c.step (.deliver r) = some d ∧
      Channel.event c (.deliver r) =
        [.delivered r (seen ⟨size, (s.rd r).shm, s.bytesAt r size⟩)] ∧
      Tracks view seen
        (s.setRd r { s.rd r with
          pc := .onData size
          calls := (s.rd r).calls ++ [⟨size, (s.rd r).shm, s.bytesAt r size⟩] }) d := by
  have hs := hi.served r hd
  have how : Owing s r := Or.inr (Or.inr (by rw [hpc]; exact Nat.one_pos))
  set call : Reader.Call := ⟨size, (s.rd r).shm, s.bytesAt r size⟩ with hcall
  set rd : Reader := { s.rd r with pc := .onData size, calls := (s.rd r).calls ++ [call] } with hrd
  have hself : (s.setRd r rd).rd r = rd := setRd_rd_self ..
  have hlen := hs.length_of_owing how
  have hw : r ∈ c.waiting := (hc.waiting r).2 ⟨hd, hs.behind.2 how⟩
  have hlast := hc.last r hw
  refine ⟨_, (if_pos hw).trans (by rw [hlast]; rfl), by rw [Channel.event, hlast, hseen]; rfl, ?_⟩
  have hrd' (q : ℕ) (hq : q ≠ r) : (s.setRd r rd).rd q = s.rd q := Function.update_of_ne hq ..
  have hjoined : ∀ q, ((s.setRd r rd).rd q).joined = (s.rd q).joined := joined_update rfl
  exact
    { members := fun q => by
        refine (hc.members q).trans (and_congr Iff.rfl ?_)
        by_cases hq : q = r
        · subst hq
          rw [hself]
        · rw [hrd' q hq]
      waiting := fun q => by
        rw [Finset.mem_erase, hc.waiting q]
        by_cases hq : q = r
        · subst hq
          rw [hself]
          show _ ↔ _ ∧ ((s.rd q).calls ++ [call]).length < (s.due q).length
          rw [List.length_append, hlen, List.length_singleton]
          exact ⟨fun h => absurd rfl h.1, fun h => absurd h.2 (lt_irrefl _)⟩
        · rw [hrd' q hq]
          exact ⟨fun h => h.2, fun h => ⟨hq, h⟩⟩
      unknown := hc.unknown
      joined := fun q k hk => by rw [hjoined q]; exact hc.joined q k hk
      start := fun q => by rw [hjoined q]; exact hc.start q
      announced := hc.announced
      taken := fun q => by
        by_cases hq : q = r
        · subst hq
          rw [hself]
          refine (Function.update_self ..).trans ?_
          rw [hc.taken q, hrd, List.map_append, List.map_singleton, hseen]
        · rw [hrd' q hq]
          exact (Function.update_of_ne hq ..).trans (hc.taken q)
      last := fun q hq => hc.last q (Finset.mem_of_mem_erase hq) }

/-- A reader dies: it is no longer waited for. -/
theorem die (hc : Tracks view seen s c) :
    ∃ d, c.step (.crash r) = some d ∧ Tracks view seen (s.setRd r { s.rd r with dead := true }) d := by
  have hself : (s.setRd r { s.rd r with dead := true }).rd r = { s.rd r with dead := true } :=
    setRd_rd_self ..
  have hrd (q : ℕ) (hq : q ≠ r) : (s.setRd r { s.rd r with dead := true }).rd q = s.rd q :=
    Function.update_of_ne hq ..
  have hjoined : ∀ q, ((s.setRd r { s.rd r with dead := true }).rd q).joined = (s.rd q).joined :=
    joined_update rfl
  refine ⟨_, rfl, ?_⟩
  exact
    { members := fun q => by
        rw [Finset.mem_erase, hc.members q]
        by_cases hq : q = r
        · subst hq
          rw [hself]
          simp
        · rw [hrd q hq]
          exact ⟨fun h => h.2, fun h => ⟨hq, h⟩⟩
      waiting := fun q => by
        rw [Finset.mem_erase, hc.waiting q]
        by_cases hq : q = r
        · subst hq
          rw [hself]
          simp
        · rw [hrd q hq]
          exact ⟨fun h => h.2, fun h => ⟨hq, h⟩⟩
      unknown := hc.unknown
      joined := fun q k hk => by rw [hjoined q]; exact hc.joined q k hk
      start := fun q => by rw [hjoined q]; exact hc.start q
      announced := hc.announced
      taken := fun q => by
        by_cases hq : q = r
        · subst hq
          rw [hself]
          exact hc.taken q
        · rw [hrd q hq]
          exact hc.taken q
      last := fun q hq => hc.last q (Finset.mem_of_mem_erase hq) }

/-- **Every step is matched by acts of the channel.** -/
theorem step {a : Act} (hc : Tracks view seen s c) (hi : Delivers ok s)
    (hseen : ∀ r size, (s.rd r).dead = false → (s.rd r).pc = .readStart size → s.sem 1 = 0 →
      seen ⟨size, (s.rd r).shm, s.bytesAt r size⟩ = view s.mem s.frame)
    (hmem : ∀ r, (s.rd r).dead = false → Owing s r → view t.mem s.frame = view s.mem s.frame)
    (h : s.step a = some t) :
    ∃ bs d, exec Channel.step c bs = some d ∧ Tracks view seen t d ∧
      trace Channel.step Channel.event c bs = events view seen s a := by
  have hunseen (he : events view seen s a = []) (ht : Tracks view seen t c) := unseen (s := s) ht he
  have hheld : c.waiting.Nonempty → view t.mem s.frame = view s.mem s.frame := by
    rintro ⟨r, hr⟩
    obtain ⟨hd, hlt⟩ := (hc.waiting r).1 hr
    exact hmem r hd ((hi.served r hd).behind.1 hlt)
  cases trans_of_step h with
  | call | shmResize | notifyIgnored | notifyClients | write | release | connect | reset =>
      exact hunseen rfl (hc.frame rfl rfl ⟨rfl, rfl, rfl⟩ hheld)
  | writeStart hpc | create hpc | commit hpc | commitNone hpc | memcpy hpc | writeEnd hpc =>
      exact hunseen (by simp [events, hpc]) (hc.frame rfl rfl ⟨rfl, rfl, rfl⟩ hheld)
  | @locked op hpc =>
      obtain ⟨w, key, heq, -⟩ := s.locked_eq op
      rw [heq] at hheld ⊢
      refine unseen ?_ (by simp [events, hpc])
      exact hc.frame rfl rfl ⟨rfl, rfl, rfl⟩ hheld
  | @notifyLock size next srv hpc hsrv =>
      obtain ⟨d, hd, ht⟩ := hc.notifyLock hi hpc hsrv
      exact matched hd ht (by simp [events, hpc, Channel.event])
  | notifySend hpc hn hsrv =>
      obtain ⟨hack, hcl⟩ := isClient_notify hsrv (by simp)
      exact hunseen (by simp [events, hpc])
        (hc.congr hcl hack rfl rfl rfl (fun _ => ⟨rfl, rfl, rfl⟩) fun _ => rfl)
  | notifyUnlock hpc hsrv =>
      obtain ⟨hack, hcl⟩ := isClient_notify hsrv (by simp)
      exact hunseen (by simp [events, hpc])
        (hc.congr hcl hack rfl rfl rfl (fun _ => ⟨rfl, rfl, rfl⟩) fun _ => rfl)
  | server hk hsrv hs =>
      obtain ⟨hack, -⟩ := Server.thread_quiet hsrv (by rintro rfl; cases hs)
      obtain ⟨b, d, hd, he, ht⟩ := hc.leave hi.acc.base hsrv hack
      exact matched hd ht he
  | take hpc hr hdata hsrv =>
      obtain ⟨b, d, hd, he, ht⟩ := hc.take hi.acc.base hpc hr hsrv
      exact matched hd ht he
  | cancel hpc hf hsrv =>
      obtain ⟨hack, -⟩ := Server.thread_quiet hsrv (by simp)
      obtain ⟨b, d, hd, he, ht⟩ := hc.leave hi.acc.base hsrv hack
      exact matched hd (ht.frame rfl rfl ⟨rfl, rfl, rfl⟩ fun _ => rfl) he
  | attach hr hd hpc | receiveConnect hr hd hpc | receiveUpdate hr hd hpc | receiveQuit hr hd hpc
  | receiveEof hr hd hpc | update hr hd hpc =>
      exact hunseen (by simp [events, hpc]) (hc.setRd rfl rfl rfl)
  | @readStart r size hr hd hpc hf =>
      obtain ⟨d, hd', he, ht⟩ := hc.readStart hi hd hpc (hseen r size hd hpc hf)
      exact matched hd' ht (by simp [events, hpc, he])
  | @readEnd r size f hr hd hpc hf =>
      have ht : Tracks view seen
          { s with sem := f, released := Function.update s.released r (s.released r + 1) } c :=
        hc.frame rfl rfl ⟨rfl, rfl, rfl⟩ fun _ => rfl
      exact hunseen (by simp [events, hpc]) (ht.setRd rfl rfl rfl)
  | quit => exact hunseen rfl (hc.setRd rfl rfl rfl)
  | die =>
      obtain ⟨d, hd, ht⟩ := hc.die
      exact matched hd ht rfl

end Tracks

/-- **What a reader was given of a log**, the frames announced: nothing before it was a client; then a
contiguous piece, from the first frame that was announced after it became one; and a live client lacks at
most the last frame. -/
structure Given (seen : Reader.Call → β) (s : System) (r : ℕ) (log : List β) : Prop where
  early : s.srv.acked r = false → (s.rd r).calls = []
  start : (s.rd r).joined ≤ log.length
  piece : (s.rd r).calls.map seen <+: log.drop (s.rd r).joined
  lacks : s.isClient r = true → (s.rd r).dead = false →
    log.length ≤ (s.rd r).joined + (s.rd r).calls.length + 1

theorem Tracks.given {c : Channel ℕ β} (hc : Tracks view seen s c) (hinv : c.Inv) (r : ℕ) :
    Given seen s r c.log := by
  have hnone (hj : c.joined r = none) : (s.rd r).calls = [] :=
    List.map_eq_nil_iff.1 ((hc.taken r).symm.trans (hinv.unknown r hj).2.2)
  refine ⟨fun hr => hnone (hc.unknown r hr), hc.start r, ?_, fun hcl hd => ?_⟩
  · cases hj : c.joined r with
    | none =>
        rw [hnone hj]
        exact List.nil_prefix
    | some k =>
        rw [← hc.joined r k hj, ← hc.taken r]
        exact (List.prefix_append _ _).trans (hinv.segment r k hj)
  · obtain ⟨k, hj, -, hle⟩ := hinv.lockstep ((hc.members r).2 ⟨hcl, hd⟩)
    rwa [hc.taken r, List.length_map, hc.joined r k hj] at hle

theorem Given.map {γ : Type} {log : List β} (hg : Given seen s r log) (f : β → γ) :
    Given (f ∘ seen) s r (log.map f) where
  early := hg.early
  start := by rw [List.length_map]; exact hg.start
  piece := by rw [← List.map_map, ← List.map_drop]; exact hg.piece.map f
  lacks := by rw [List.length_map]; exact hg.lacks

/-- The simulation of whole runs, in a machine whose runs deliver the frames, when a reader sees what the
writer means by a frame and the memory of a frame stays as it is while a reader waits for it. -/
theorem simulation (view : (ℕ → List UInt8) → Frame → β) (seen : Reader.Call → β)
    {cond : System → Act → Prop} [∀ s a, Decidable (cond s a)] {lfd memsize : ℕ}
    (hinv : ∀ as s, exec (restrict step cond) (init lfd memsize) as = some s → Delivers ok s ∧
      ∀ r size, (s.rd r).dead = false → (s.rd r).pc = .readStart size → s.sem 1 = 0 →
        seen ⟨size, (s.rd r).shm, s.bytesAt r size⟩ = view s.mem s.frame)
    (hmem : ∀ as s a t, exec (restrict step cond) (init lfd memsize) as = some s → cond s a →
      s.step a = some t → ∀ r, (s.rd r).dead = false → Owing s r →
        view t.mem s.frame = view s.mem s.frame)
    {as : List Act} (h : exec (restrict step cond) (init lfd memsize) as = some s) :
    ∃ bs c, exec Channel.step Channel.init bs = some c ∧ Tracks view seen s c ∧
      trace Channel.step Channel.event Channel.init bs =
        trace (restrict step cond) (events view seen) (init lfd memsize) as := by
  have hsim : ∃ bs c, exec Channel.step Channel.init bs = some c ∧
      ((∃ as, exec (restrict step cond) (init lfd memsize) as = some s) ∧ Tracks view seen s c) ∧
      trace Channel.step Channel.event Channel.init bs =
        trace (restrict step cond) (events view seen) (init lfd memsize) as := by
    refine exec_simulation (R := fun s c =>
      (∃ as, exec (restrict step cond) (init lfd memsize) as = some s) ∧ Tracks view seen s c)
      (fun s a s' c hs hst => ?_) h ⟨⟨[], rfl⟩, tracks_init lfd memsize⟩
    obtain ⟨⟨as, has⟩, hc⟩ := hs
    obtain ⟨hi, hseen⟩ := hinv as s has
    obtain ⟨ha, hst'⟩ := restrict_eq_some.1 hst
    obtain ⟨bs, d, hbs, hd, htr⟩ := hc.step hi hseen (hmem as s a s' has ha hst') hst'
    exact ⟨bs, d, hbs, ⟨⟨as ++ [a], exec_append_eq_some.2
      ⟨s, has, exec_cons_eq_some.2 ⟨s', hst, rfl⟩⟩⟩, hd⟩, htr⟩
  obtain ⟨bs, c, hbs, ⟨-, hc⟩, htr⟩ := hsim
  exact ⟨bs, c, hbs, hc, htr⟩

end simulation

/-! ### Write accesses -/

/-- Of a frame the size and the segment. -/
def segmentOfFrame (_ : ℕ → List UInt8) (f : Frame) : ℕ × Option ℕ := (f.size, some f.seg)

/-- Of a call the size and the segment. -/
def segmentOfCall (c : Reader.Call) : ℕ × Option ℕ := (c.size, c.seg)

/-- **The system refines the channel**: in the runs in which the sign that the readers look for is right,
whatever operations the writer uses and whichever readers die, what is seen of the system, the sizes and
segments notified and those that callbacks are called with, is what is seen of a run of the channel whose
members are the live clients. -/
theorem prompt_broadcast {lfd memsize : ℕ} {as : List Act}
    (h : exec (restrict step Prompt) (init lfd memsize) as = some s) :
    ∃ bs c, exec Channel.step Channel.init bs = some c ∧
      trace Channel.step Channel.event Channel.init bs =
        trace (restrict step Prompt) (events segmentOfFrame segmentOfCall) (init lfd memsize) as ∧
      ∀ r, r ∈ c.members ↔ s.isClient r = true ∧ (s.rd r).dead = false := by
  have hall (as : List Act) (s : System)
      (has : exec (restrict step Prompt) (init lfd memsize) as = some s) :
      Delivers (fun _ => True) s ∧ ∀ r size, (s.rd r).dead = false → (s.rd r).pc = .readStart size →
        s.sem 1 = 0 → segmentOfCall ⟨size, (s.rd r).shm, s.bytesAt r size⟩ =
          segmentOfFrame s.mem s.frame := by
    have hi := delivers_of_prompt has
    refine ⟨hi, fun r size hd hpc hf => ?_⟩
    obtain ⟨-, hgood⟩ := hi.good (fun _ _ => trivial) hd hpc hf
    exact Prod.ext hgood.size (hgood.seg trivial)
  obtain ⟨bs, c, hbs, hc, htr⟩ := simulation segmentOfFrame segmentOfCall hall
    (fun _ _ _ _ _ _ _ _ _ _ => rfl) h
  exact ⟨bs, c, hbs, htr, hc.members⟩

/-- A frame of four bytes, then an access of six bytes: two messages, each handed to the reader before the
next. -/
theorem resizedAccess_broadcast :
    ∃ bs c, exec Channel.step Channel.init bs = some c ∧
      trace Channel.step Channel.event Channel.init bs =
        [.published (4, some 0), .delivered 0 (4, some 0), .published (6, some 1),
          .delivered 0 (6, some 1)] := by
  have hrun : (exec (restrict step Prompt) (init 3 4) (connectReader ++ wholeFrame [1, 2, 3, 4] ++
      resizedAccess 6 6)).isSome = true := by
    decide +kernel
  have htrace : trace (restrict step Prompt) (events segmentOfFrame segmentOfCall) (init 3 4)
      (connectReader ++ wholeFrame [1, 2, 3, 4] ++ resizedAccess 6 6) =
        [.published (4, some 0), .delivered 0 (4, some 0), .published (6, some 1),
          .delivered 0 (6, some 1)] := by
    decide +kernel
  obtain ⟨s, hs⟩ := Option.isSome_iff_exists.1 hrun
  obtain ⟨bs, c, hbs, htr, -⟩ := prompt_broadcast hs
  exact ⟨bs, c, hbs, htr.trans htrace⟩

/-- A frame as its reader sees it: the size, and the bytes at the beginning of its segment, which are those
of the call if it is written by `copy_to_shm`. -/
def contentsOfFrame (mem : ℕ → List UInt8) (f : Frame) : ℕ × List UInt8 :=
  (f.size, f.data.getD ((mem f.seg).take f.size))

/-- Of a call the size and the bytes. -/
def contentsOfCall (c : Reader.Call) : ℕ × List UInt8 := (c.size, c.bytes)

/-- The user writes through `mem_`. -/
@[simp] def Act.isWrite : Act → Bool
  | .write _ => true
  | _ => false

/-- A careful run in which the user writes before he notifies. -/
def Filled (s : System) (a : Act) : Prop := Careful s a ∧ (a.isWrite = true → s.w.hasNotified = false)

instance (s : System) (a : Act) : Decidable (Filled s a) := inferInstanceAs (Decidable (_ ∧ _))

/-- Under the lock, before the first update is sent, no live reader has one to deal with. -/
theorem not_owing_of_early (ha : Acc s) (hs : Segs s) (he : s.w.early = true)
    (hu : s.w.pc.uncommitted = false) (hd : (s.rd r).dead = false) : ¬ Owing s r := by
  have hload : s.load r = 0 := by
    by_contra hne
    exact ha.not_pending he hu ⟨r, hd, Nat.pos_of_ne_zero hne⟩
  obtain ⟨hun, -, hloc⟩ := not_unread_of_load hload
  rintro (⟨size, todo, it, hn, -⟩ | ⟨size, h⟩ | h)
  · obtain ⟨-, next, hpc⟩ := hs.notifying size todo hn
    rw [hpc] at hu
    cases hu
  · exact hun size h
  · rw [hloc] at h
    exact lt_irrefl _ h

/-- The memory of a frame stays as it is while a live reader has it to deal with, but for the bytes that
`copy_to_shm` announced. -/
theorem contents_of_step {a : Act} (hi : Delivers ok s) (ha : a.isWrite = true → s.w.hasNotified = false)
    (h : s.step a = some t) (hd : (s.rd r).dead = false) (ho : Owing s r) :
    contentsOfFrame t.mem s.frame = contentsOfFrame s.mem s.frame := by
  cases trans_of_step h with
  | @locked op hpc =>
      obtain ⟨w, key, heq, -⟩ := s.locked_eq op
      rw [heq]
  | create hpc =>
      -- the new segment is another
      have hkept (mem : List UInt8) : Function.update s.mem s.nseg mem s.frame.seg = s.mem s.frame.seg :=
        Function.update_of_ne hi.segs.lt.2.ne ..
      exact congrArg (fun l => (s.frame.size, s.frame.data.getD (l.take s.frame.size))) (hkept _)
  | memcpy hpc =>
      obtain ⟨-, hdata⟩ := hi.segs.current (.copy _) (by rw [hpc]; rfl)
      rw [contentsOfFrame, contentsOfFrame, hdata]
      rfl
  | write hpc hb =>
      have hn := ha rfl
      exact absurd ho (not_owing_of_early hi.acc hi.segs (by simp [hpc, hn]) (by rw [hpc]; rfl) hd)
  | _ => rfl

/-- A reader sees what the writer means by a frame. -/
theorem contents_of_readStart (hi : Delivers NonEmpty s) {size : ℕ} (hd : (s.rd r).dead = false)
    (hpc : (s.rd r).pc = .readStart size) (hf : s.sem 1 = 0) :
    contentsOfCall ⟨size, (s.rd r).shm, s.bytesAt r size⟩ = contentsOfFrame s.mem s.frame := by
  obtain ⟨-, hgood⟩ := hi.good (fun _ => Nat.pos_of_ne_zero) hd hpc hf
  have hsize : size = s.frame.size := hgood.size
  refine Prod.ext hsize ?_
  show s.bytesAt r size = s.frame.data.getD ((s.mem s.frame.seg).take s.frame.size)
  cases hdata : s.frame.data with
  | some d => exact hgood.bytes d hdata
  | none =>
      rw [Option.getD_none, ← hsize]
      rcases Nat.eq_zero_or_pos size with hz | hpos
      · rw [System.bytesAt, hz]
        split <;> rfl
      · have hshm : (s.rd r).shm = some s.frame.seg := hgood.seg (hsize ▸ hpos : 0 < s.frame.size)
        rw [System.bytesAt, hshm]

theorem careful_of_filled {lfd memsize : ℕ} {as : List Act}
    (h : exec (restrict step Filled) (init lfd memsize) as = some s) :
    exec (restrict step Careful) (init lfd memsize) as = some s :=
  exec_restrict_mono (fun _ _ ha => ha.1) h

/-- The simulation of a writer that minds its sizes and writes before it announces. -/
theorem tracks_of_filled {lfd memsize : ℕ} {as : List Act}
    (h : exec (restrict step Filled) (init lfd memsize) as = some s) :
    ∃ bs c, exec Channel.step Channel.init bs = some c ∧ Tracks contentsOfFrame contentsOfCall s c ∧
      trace Channel.step Channel.event Channel.init bs =
        trace (restrict step Filled) (events contentsOfFrame contentsOfCall) (init lfd memsize) as :=
  simulation contentsOfFrame contentsOfCall
    (fun _ _ has => ⟨(current_of_exec (careful_of_filled has)).1, fun _ _ hd hpc hf =>
      contents_of_readStart (current_of_exec (careful_of_filled has)).1 hd hpc hf⟩)
    (fun _ _ _ _ has ha hst _ hd ho =>
      contents_of_step (current_of_exec (careful_of_filled has)).1 ha.2 hst hd ho) h

/-- **The system refines the channel, byte for byte**, for every writer that minds the sizes it announces
and writes before it announces them, whichever functions it uses and whichever readers die: what the
callbacks are called with, the sizes and the bytes, is what the frames held when they were announced. -/
theorem filled_broadcast {lfd memsize : ℕ} {as : List Act}
    (h : exec (restrict step Filled) (init lfd memsize) as = some s) :
    ∃ bs c, exec Channel.step Channel.init bs = some c ∧
      trace Channel.step Channel.event Channel.init bs =
        trace (restrict step Filled) (events contentsOfFrame contentsOfCall) (init lfd memsize) as ∧
      ∀ r, r ∈ c.members ↔ s.isClient r = true ∧ (s.rd r).dead = false := by
  obtain ⟨bs, c, hbs, hc, htr⟩ := tracks_of_filled h
  exact ⟨bs, c, hbs, htr, hc.members⟩

/-- A frame of two bytes, then an access whose four bytes the user writes. -/
def filledAccess : List Act :=
  wholeFrame [7, 8] ++
  ([.call (.getOneWriteAccessPtrResize 4), .writer, .writer, .writer, .write [1, 2, 3, 4],
    .notifyClients 3, .writer, .writer, .writer, .writer, .release, .writer, .reader 0, .reader 0,
    .reader 0] : List Act)

theorem filledAccess_broadcast :
    ∃ (bs : List (Broadcast.Act ℕ (ℕ × List UInt8))) (c : Channel ℕ (ℕ × List UInt8)),
      exec Channel.step Channel.init bs = some c ∧ trace Channel.step Channel.event Channel.init bs =
        [.published (2, [7, 8]), .delivered 0 (2, [7, 8]), .published (3, [1, 2, 3]),
          .delivered 0 (3, [1, 2, 3])] := by
  have hrun : (exec (restrict step Filled) (init 3 2) (connectReader ++ filledAccess)).isSome = true := by
    decide +kernel
  have htrace : trace (restrict step Filled) (events contentsOfFrame contentsOfCall) (init 3 2)
      (connectReader ++ filledAccess) =
        [.published (2, [7, 8]), .delivered 0 (2, [7, 8]), .published (3, [1, 2, 3]),
          .delivered 0 (3, [1, 2, 3])] := by
    decide +kernel
  obtain ⟨s, hs⟩ := Option.isSome_iff_exists.1 hrun
  obtain ⟨bs, c, hbs, htr, -⟩ := filled_broadcast hs
  exact ⟨bs, c, hbs, htr.trans htrace⟩

/-! ### `copy_to_shm` -/

/-- Of a frame its bytes. -/
def bytesOfFrame (_ : ℕ → List UInt8) (f : Frame) : List UInt8 := f.data.getD []

/-- The data of a call of `copy_to_shm`. -/
def Act.copied? : Act → Option (List UInt8)
  | .call (.copyToShm data) => some data
  | _ => none

/-- The data that `copy_to_shm` was called with, in order. -/
def copied (as : List Act) : List (List UInt8) := as.filterMap Act.copied?

/-- The data of a call is carried to its notification. -/
theorem copying_step {a : Act} (hg : Grows s) (ha : Copying s a) (h : s.step a = some t) :
    s.w.pc.copying ++ a.copied?.toList =
      (events bytesOfFrame Reader.Call.bytes s a).filterMap Event.published? ++ t.w.pc.copying := by
  have hfor := hg.forCopy
  cases trans_of_step h with
  | @call op hpc =>
      cases op with
      | copyToShm data => simp [hpc, events, Act.copied?]
      | _ => cases ha
  | @writeStart op f hpc hf =>
      rw [hpc] at hfor
      cases op with
      | copyToShm data => simp [hpc, events, Act.copied?]
      | _ => cases hfor
  | @locked op hpc =>
      rw [hpc] at hfor
      cases op with
      | copyToShm data =>
          simp only [System.locked]
          split <;> simp [hpc, events, Act.copied?, System.removeSegment]
      | _ => cases hfor
  | @create size next hpc =>
      rw [hpc] at hfor
      cases next with
      | access => cases hfor
      | copy data => simp [hpc, events, Act.copied?, System.createSegment]
  | @notifyLock size next srv hpc hsrv =>
      rw [hpc] at hfor
      cases next with
      | access => cases hfor
      | copy data =>
          simp [hpc, events, Act.copied?, System.notifyLock, Event.published?, bytesOfFrame,
            Writer.Next.data]
  | @notifyUnlock next srv hpc hsrv => simp [hpc, events, Act.copied?]
  | notifySend hpc hn hsrv => simp [hpc, events, Act.copied?]
  | @commit num next f hpc hn hf =>
      rw [hpc] at hfor
      cases next with
      | access => cases hfor
      | copy data => simp [hpc, events, Act.copied?, Writer.Next.pc]
  | @commitNone num next hpc hn =>
      rw [hpc] at hfor
      cases next with
      | access => cases hfor
      | copy data => simp [hpc, events, Act.copied?, Writer.Next.pc]
  | memcpy hpc | writeEnd hpc => simp [hpc, events, Act.copied?]
  | shmResize hpc | notifyIgnored hpc | notifyClients hpc | write hpc | release hpc =>
      rw [hpc] at hfor
      cases hfor
  | reset => cases ha
  | readStart hr hd hpc hf => simp [hpc, events, Act.copied?, Event.published?, System.setRd]
  | attach hr hd hpc | receiveConnect hr hd hpc | receiveUpdate hr hd hpc | receiveQuit hr hd hpc
  | receiveEof hr hd hpc | update hr hd hpc | readEnd hr hd hpc =>
      simp [hpc, events, Act.copied?, System.setRd]
  | _ => simp [events, Act.copied?, System.setRd, System.cancel]

/-- What was published is what `copy_to_shm` was called with, up to the call in progress. -/
theorem copied_eq {lfd memsize : ℕ} {as : List Act}
    (h : exec (restrict step Copying) (init lfd memsize) as = some s) :
    copied as =
      (trace (restrict step Copying) (events bytesOfFrame Reader.Call.bytes) (init lfd memsize)
        as).filterMap Event.published? ++ s.w.pc.copying := by
  have hall : exec (restrict step Copying) (init lfd memsize) as = some s ∧ copied as =
      (trace (restrict step Copying) (events bytesOfFrame Reader.Call.bytes) (init lfd memsize)
        as).filterMap Event.published? ++ s.w.pc.copying := by
    refine exec_history (R := fun as s =>
      exec (restrict step Copying) (init lfd memsize) as = some s ∧ copied as =
        (trace (restrict step Copying) (events bytesOfFrame Reader.Call.bytes) (init lfd memsize)
          as).filterMap Event.published? ++ s.w.pc.copying) (fun as s a t hs hst => ?_) h ⟨rfl, rfl⟩
    obtain ⟨hexec, hcopied⟩ := hs
    obtain ⟨ha, hst'⟩ := restrict_eq_some.1 hst
    refine ⟨exec_append_eq_some.2 ⟨s, hexec, exec_cons_eq_some.2 ⟨t, hst, rfl⟩⟩, ?_⟩
    have hone : copied [a] = a.copied?.toList := by
      cases hca : a.copied? <;> simp [copied, hca]
    have hstep := copying_step (grows_of_exec hexec).2 ha hst'
    rw [trace_append [a] hexec, trace_cons [] hst, trace_nil, List.append_nil, List.filterMap_append,
      List.append_assoc, ← hstep, ← List.append_assoc, ← hcopied, ← hone]
    exact List.filterMap_append
  exact hall.2

/-- The simulation of a writer that calls `copy_to_shm` only, with what it was called with as the log. -/
theorem tracks_of_copying {lfd memsize : ℕ} {as : List Act}
    (h : exec (restrict step Copying) (init lfd memsize) as = some s) :
    ∃ c : Channel ℕ (List UInt8), c.Inv ∧ Tracks bytesOfFrame Reader.Call.bytes s c ∧
      copied as = c.log ++ s.w.pc.copying := by
  have hall (as : List Act) (s : System)
      (has : exec (restrict step Copying) (init lfd memsize) as = some s) : Delivers NonEmpty s ∧
      ∀ r size, (s.rd r).dead = false → (s.rd r).pc = .readStart size → s.sem 1 = 0 →
        Reader.Call.bytes ⟨size, (s.rd r).shm, s.bytesAt r size⟩ = bytesOfFrame s.mem s.frame := by
    obtain ⟨hi, hg⟩ := grows_of_exec has
    refine ⟨hi, fun r size hd hpc hf => ?_⟩
    obtain ⟨hdue, hgood⟩ := hi.good (fun _ => Nat.pos_of_ne_zero) hd hpc hf
    obtain ⟨data, hdata, -⟩ := hg.due r s.frame hdue
    rw [bytesOfFrame, hdata]
    exact hgood.bytes data hdata
  obtain ⟨bs, c, hbs, hc, htr⟩ := simulation bytesOfFrame Reader.Call.bytes hall
    (fun _ _ _ _ _ _ _ _ _ _ => rfl) h
  refine ⟨c, Channel.inv_of_exec hbs, hc, ?_⟩
  rw [Channel.log_eq hbs, htr]
  exact copied_eq h

/-- **Every reader is given a contiguous piece of what `copy_to_shm` was called with**, byte for byte: the
frames announced are the data of the calls, in order, but for the call that has not notified yet; the
callbacks of a reader, also of one that died, were called with the bytes of consecutive frames, from the
first one announced after it became a client; and a live client lacks at most the last frame. -/
theorem copyToShm_broadcast {lfd memsize : ℕ} {as : List Act}
    (h : exec (restrict step Copying) (init lfd memsize) as = some s) :
    ∃ log, copied as = log ++ s.w.pc.copying ∧ log.length = s.announced ∧
      ∀ r, Given Reader.Call.bytes s r log := by
  obtain ⟨c, hinv, hc, hlog⟩ := tracks_of_copying h
  exact ⟨c.log, hlog, hc.announced, hc.given hinv⟩

/-- A frame of one byte that nobody is there to hear of. -/
def unheardFrame : List Act := .call (.copyToShm [4]) :: List.replicate 7 .writer

/-- A frame before the reader is a client, then one of two bytes, for which the segment is recreated: the
reader is given the second. -/
theorem unheardFrame_broadcast :
    ∃ s log, exec (restrict step Copying) (init 3 1) (unheardFrame ++ connectReader ++ growingFrame) =
        some s ∧ [[4], [5, 6]] = log ++ s.w.pc.copying ∧ (s.rd 0).joined = 1 ∧
      (s.rd 0).calls.length = 1 ∧ Given Reader.Call.bytes s 0 log := by
  have hrun : ((exec (restrict step Copying) (init 3 1) (unheardFrame ++ connectReader ++
      growingFrame)).map fun s => ((s.rd 0).joined, (s.rd 0).calls.length)) = some (1, 1) := by
    decide +kernel
  obtain ⟨s, hs, hone⟩ := Option.map_eq_some_iff.1 hrun
  obtain ⟨log, hlog, -, hall⟩ := copyToShm_broadcast hs
  exact ⟨s, log, hs, hlog, (Prod.mk.inj hone).1, (Prod.mk.inj hone).2, hall 0⟩

end System

end Shmdata

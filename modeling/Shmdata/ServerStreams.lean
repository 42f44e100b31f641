/-
**What the server sends on each connection.**

The messages of one connection come from four places: the connect message at acceptance, the update
messages of `notify_update` from the writer's thread, the quit acknowledgement of
`client_interaction`, and the quit message of the destructor.  This module shows that in every
reachable state they form a stream: one connect message, then updates, then at most one quit
message; and that no update is sent before the acknowledgement of the client was read.

Main definitions:

* `Shmdata.SrvMsg.Running`, `Shmdata.SrvMsg.Conversation` — a stream that may go on, and any stream;
* `Shmdata.Server.Waiting`, `Shmdata.Server.Serving` — the connections that wait for their
  acknowledgement, and those an update may be sent to;
* `Shmdata.Server.Streams` — **the invariant of the streams**.

Main results:

* `Shmdata.Server.Streams.step` — every step keeps the invariant;
* `Shmdata.Server.wellFormed_of_exec` — both invariants in every reachable state.
-/

import Shmdata.ServerLists
import Mathlib.Data.List.Induction

set_option relaxedAutoImplicit false
set_option autoImplicit false

namespace Shmdata

namespace SrvMsg

variable {σ : Type}

/-- A connect message and updates. -/
def Running (l : List (SrvMsg σ)) : Prop := ∃ sizes : List σ, l = .connect :: sizes.map .update

/-- What may be sent on one connection: nothing yet, or a connect message and updates, then
possibly a quit message. -/
def Conversation (l : List (SrvMsg σ)) : Prop :=
  l = [] ∨ Running l ∨ ∃ l', Running l' ∧ l = l' ++ [.quit]

theorem running_connect : Running [(.connect : SrvMsg σ)] := ⟨[], rfl⟩

theorem Running.update {l : List (SrvMsg σ)} (h : Running l) (size : σ) :
    Running (l ++ [.update size]) := by
  obtain ⟨sizes, rfl⟩ := h
  exact ⟨sizes ++ [size], by simp⟩

theorem Running.stream {l : List (SrvMsg σ)} (h : Running l) : Conversation l := Or.inr (Or.inl h)

theorem Running.quit {l : List (SrvMsg σ)} (h : Running l) : Conversation (l ++ [.quit]) :=
  Or.inr (Or.inr ⟨l, h, rfl⟩)

/-- A stream begins with the connect message. -/
theorem Conversation.head {m : SrvMsg σ} {l : List (SrvMsg σ)} (h : Conversation (m :: l)) :
    m = .connect := by
  rcases h with h | ⟨sizes, h⟩ | ⟨l', ⟨sizes, rfl⟩, h⟩
  · cases h
  · exact (List.cons.inj h).1
  · exact (List.cons.inj h).1

theorem Running.next {done l : List (SrvMsg σ)} {m : SrvMsg σ} (h : Running (done ++ m :: l))
    (hd : done ≠ []) : ∃ size, m = .update size := by
  obtain ⟨sizes, h⟩ := h
  cases done with
  | nil => exact absurd rfl hd
  | cons d done =>
      have hm : m ∈ sizes.map SrvMsg.update := by
        rw [← (List.cons.inj h).2]
        simp
      obtain ⟨size, -, rfl⟩ := List.mem_map.1 hm
      exact ⟨size, rfl⟩

/-- After its connect message a stream goes on with an update, or with the quit message that is its
last. -/
theorem Conversation.next {done l : List (SrvMsg σ)} {m : SrvMsg σ}
    (h : Conversation (done ++ m :: l)) (hd : done ≠ []) :
    (∃ size, m = .update size) ∨ m = .quit ∧ l = [] := by
  rcases h with h | h | ⟨l', hl', h⟩
  · simp at h
  · exact Or.inl (h.next hd)
  · rcases List.eq_nil_or_concat l with rfl | ⟨k, x, rfl⟩
    · exact Or.inr ⟨by simpa using (List.append_inj' h rfl).2, rfl⟩
    · have hk : done ++ m :: k = l' := by
        have hx : done ++ m :: k ++ [x] = l' ++ [.quit] := by simpa using h
        exact (List.append_inj' hx rfl).1
      rw [← hk] at hl'
      exact Or.inl (hl'.next hd)

/-- A stream that is cut at a message boundary is a stream. -/
theorem Conversation.cut {l k : List (SrvMsg σ)} (h : Conversation (l ++ k)) : Conversation l := by
  induction k using List.reverseRecOn with
  | nil => simpa using h
  | append_singleton k m ih =>
      refine ih ?_
      rw [← List.append_assoc] at h
      generalize l ++ k = l at h
      rcases h with h | ⟨sizes, h⟩ | ⟨l', hl', h⟩
      · simp at h
      · rcases List.eq_nil_or_concat sizes with rfl | ⟨sizes, x, rfl⟩
        · cases l with
          | nil => exact Or.inl rfl
          | cons d l => simp at h
        · have : l = .connect :: sizes.map .update := by
            have hm : l ++ [m] = .connect :: sizes.map .update ++ [.update x] := by simpa using h
            exact (List.append_inj' hm rfl).1
          exact Or.inr (Or.inl ⟨sizes, this⟩)
      · exact Or.inr (Or.inl ((List.append_inj' h rfl).1 ▸ hl'))

/-- Nothing follows a quit message. -/
theorem Conversation.quit_last {done l : List (SrvMsg σ)} (h : Conversation (done ++ .quit :: l)) :
    l = [] := by
  cases done with
  | nil => cases h.head
  | cons d done => simpa using h.next (List.cons_ne_nil d done)

end SrvMsg

namespace Server

open SrvMsg

variable {σ : Type} {s t : Server σ}

@[simp] theorem record_self {β : Type} (f : ℕ → List β) (c : ℕ) (x : β) :
    record f (some c) x c = f c ++ [x] := Function.update_self ..

theorem record_of_ne {β : Type} (f : ℕ → List β) {c d : ℕ} (x : β) (h : d ≠ c) :
    record f (some c) x d = f d := Function.update_of_ne h ..

@[simp] theorem mark_self (f : ℕ → Bool) (c : ℕ) : mark f (some c) c = true :=
  Function.update_self ..

theorem mark_of_ne (f : ℕ → Bool) {c d : ℕ} (h : d ≠ c) : mark f (some c) d = f d :=
  Function.update_of_ne h ..

/-- A mark stays. -/
theorem mark_mono (f : ℕ → Bool) (o : Option ℕ) {c : ℕ} (h : f c = true) : mark f o c = true := by
  cases o with
  | none => exact h
  | some d =>
      by_cases hcd : c = d
      · subst hcd; exact mark_self ..
      · rw [mark_of_ne _ hcd]; exact h

/-! ### The connections by their place in the protocol -/

/-- The connection has just been accepted, and is about to be greeted. -/
def Greeting (s : Server σ) (fd c : ℕ) : Prop := s.pc = .greet (some fd) ∧ s.conn fd = some c

/-- The connection waits for the acknowledgement of its client. -/
def Waiting (s : Server σ) (fd c : ℕ) : Prop :=
  fd ∈ s.pendingClients ∧ fd ∉ s.clientsToRemove ∧ s.conn fd = some c

/-- A quit message was sent on the descriptor, or is no longer to be sent. -/
def Ended (s : Server σ) (fd : ℕ) : Prop :=
  (∃ todo, s.pc = .drop fd todo) ∨ ∃ todo, s.dtor.rest = some todo ∧ fd ∉ todo

theorem Ended.mono {fd : ℕ} (he : s.Ended fd) (hd : t.dtor = s.dtor)
    (hpc : ∀ todo, s.pc = .drop fd todo → t.pc = .drop fd todo) : t.Ended fd := by
  rcases he with ⟨todo, h⟩ | h
  · exact Or.inl ⟨todo, hpc todo h⟩
  · rw [← hd] at h
    exact Or.inr h

theorem Lists.not_ended (hl : Lists s) {fd : ℕ} (hpc : ∀ todo, s.pc ≠ .drop fd todo)
    (hs : s.pc ≠ .stopped) : ¬ s.Ended fd := by
  rintro (⟨todo, h⟩ | ⟨todo, h, -⟩)
  · exact hpc todo h
  · exact hl.quitting_vacuous hs h

/-- The connection belongs to an open client that no quit message was sent to. -/
def Serving (s : Server σ) (fd c : ℕ) : Prop :=
  fd ∈ s.clients ∧ (s.pc.pendingTodo ≠ none ∨ fd ∉ s.clientsToRemove) ∧ ¬ s.Ended fd ∧
    s.conn fd = some c

/-- The invariant of the streams. -/
structure Streams (s : Server σ) : Prop where
  fresh : ∀ c, s.nconn ≤ c → s.out c = [] ∧ s.acked c = false
  greeting : ∀ fd c, s.Greeting fd c → s.out c = [] ∧ s.acked c = false
  waiting : ∀ fd c, s.Waiting fd c → s.out c = [.connect] ∧ s.acked c = false
  serving : ∀ fd c, s.Serving fd c → Running (s.out c) ∧ s.acked c = true
  stream : ∀ c, Conversation (s.out c)
  acked : ∀ c size, .update size ∈ s.out c → s.acked c = true

theorem streams_init (lfd : ℕ) : Streams (init lfd : Server σ) := by
  constructor <;> simp [init, Greeting, Waiting, Serving, Conversation]

namespace Streams

/-- A step that sends nothing and moves no connection forward keeps the streams. -/
theorem congr (hi : Streams s) (hout : t.out = s.out) (hack : t.acked = s.acked)
    (hn : t.nconn = s.nconn) (hg : ∀ fd c, t.Greeting fd c → s.Greeting fd c)
    (hw : ∀ fd c, t.Waiting fd c → s.Waiting fd c)
    (hs : ∀ fd c, t.Serving fd c → s.Serving fd c) : Streams t where
  fresh := by rw [hout, hack, hn]; exact hi.fresh
  greeting fd c h := by rw [hout, hack]; exact hi.greeting fd c (hg fd c h)
  waiting fd c h := by rw [hout, hack]; exact hi.waiting fd c (hw fd c h)
  serving fd c h := by rw [hout, hack]; exact hi.serving fd c (hs fd c h)
  stream := by rw [hout]; exact hi.stream
  acked := by rw [hout, hack]; exact hi.acked

/-- A step that moves the serving thread and leaves the connections where they are. -/
theorem moved (hi : Streams s) (h1 : t.out = s.out) (h2 : t.acked = s.acked)
    (h3 : t.nconn = s.nconn) (h4 : t.conn = s.conn) (h5 : t.clients = s.clients)
    (h6 : t.pendingClients = s.pendingClients) (h7 : t.clientsToRemove = s.clientsToRemove)
    (h8 : t.dtor = s.dtor) (hg : ∀ fd, t.pc ≠ .greet (some fd))
    (hp : t.pc.pendingTodo = none ∨ s.pc.pendingTodo ≠ none)
    (hd : ∀ fd todo, s.pc ≠ .drop fd todo) : Streams t := by
  refine hi.congr h1 h2 h3 (fun fd c h => absurd h.1 (hg fd)) ?_ ?_
  · rintro fd c ⟨hm, hr, hcn⟩
    rw [h4] at hcn
    exact ⟨h6 ▸ hm, h7 ▸ hr, hcn⟩
  · rintro fd c ⟨hm, hr, he, hcn⟩
    rw [h4] at hcn
    rw [h7] at hr
    refine ⟨h5 ▸ hm, ?_, fun he' => he (he'.mono h8 fun todo h => absurd h (hd fd todo)), hcn⟩
    exact hr.elim (fun hr => Or.inl (hp.resolve_left hr)) Or.inr

/-- A message sent on one connection: the others keep their streams. -/
theorem send (hi : Streams s) (hl : Lists s) {fd c : ℕ} {m : SrvMsg σ} (hcn : s.conn fd = some c)
    (hout : t.out = record s.out (some c) m) (hack : t.acked = s.acked) (hn : t.nconn = s.nconn)
    (hconn : t.conn = s.conn) (hg : ∀ fd', t.pc ≠ .greet (some fd'))
    (hw : ∀ fd' d, t.Waiting fd' d → fd' ≠ fd ∧ s.Waiting fd' d ∨
      fd' = fd ∧ s.out c ++ [m] = [.connect] ∧ s.acked c = false)
    (hs : ∀ fd' d, t.Serving fd' d → fd' ≠ fd ∧ s.Serving fd' d ∨
      fd' = fd ∧ Running (s.out c ++ [m]) ∧ s.acked c = true)
    (hst : Conversation (s.out c ++ [m]))
    (ha : ∀ size, .update size ∈ s.out c ++ [m] → s.acked c = true) : Streams t := by
  have hself {d : ℕ} (h : t.conn fd = some d) : d = c := by
    rw [hconn, hcn] at h
    exact (Option.some.inj h).symm
  have hof {d : ℕ} (h : d ≠ c) : t.out d = s.out d := by rw [hout, record_of_ne _ _ h]
  have hof' {fd' d : ℕ} (h : t.conn fd' = some d) (hne : fd' ≠ fd) : t.out d = s.out d :=
    hof fun e => hne (hl.inj fd' fd c (by rw [← hconn, h, e]) hcn)
  have hat : t.out c = s.out c ++ [m] := by rw [hout, record_self]
  constructor
  case fresh =>
    intro d hd
    rw [hn] at hd
    have := hl.lt fd c hcn
    rw [hof (by omega), hack]
    exact hi.fresh d hd
  case greeting => exact fun fd' d h => absurd h.1 (hg fd')
  case waiting =>
    intro fd' d h
    rcases hw fd' d h with ⟨hne, h'⟩ | ⟨rfl, h'⟩
    · rw [hof' h.2.2 hne, hack]
      exact hi.waiting fd' d h'
    · rw [hself h.2.2, hat, hack]
      exact h'
  case serving =>
    intro fd' d h
    rcases hs fd' d h with ⟨hne, h'⟩ | ⟨rfl, h'⟩
    · rw [hof' h.2.2.2 hne, hack]
      exact hi.serving fd' d h'
    · rw [hself h.2.2.2, hat, hack]
      exact h'
  case stream =>
    intro d
    by_cases hd : d = c
    · rw [hd, hat]; exact hst
    · rw [hof hd]; exact hi.stream d
  case acked =>
    intro d size hm
    rw [hack]
    by_cases hd : d = c
    · rw [hd, hat] at hm
      rw [hd]
      exact ha size hm
    · rw [hof hd] at hm
      exact hi.acked d size hm

/-- The accepted connection is a new one: nothing was sent on it. -/
theorem accepted (hi : Streams s) (hl : Lists s) {fd : ℕ} (hpc : s.pc = .accept)
    (hc : s.conn fd = none) :
    Streams { s with
      pc := .greet (some fd)
      conn := Function.update s.conn fd (some s.nconn)
      nconn := s.nconn + 1 } := by
  have hrm : s.clientsToRemove = [] := hl.rest (by simp [hpc]) (by simp [hpc])
  -- the listed descriptors are open, so none of them is the new one
  have hof {fd' c : ℕ} (hopen : ∃ d, s.conn fd' = some d)
      (h : Function.update s.conn fd (some s.nconn) fd' = some c) : s.conn fd' = some c := by
    rwa [Function.update_of_ne] at h
    rintro rfl
    obtain ⟨d, hd⟩ := hopen
    rw [hc] at hd
    cases hd
  constructor
  case fresh => exact fun c h => hi.fresh c (by simp only at h; omega)
  case greeting =>
    rintro fd' c ⟨hg, h⟩
    cases hg
    obtain rfl : s.nconn = c := by simpa using h
    exact hi.fresh _ le_rfl
  case waiting =>
    rintro fd' c ⟨hp, hr, h⟩
    exact hi.waiting fd' c ⟨hp, hr, hof (hl.openPending fd' hp hr) h⟩
  case serving =>
    rintro fd' c ⟨hm, hr, he, h⟩
    have hr' : fd' ∉ s.clientsToRemove := by rw [hrm]; exact List.not_mem_nil
    refine hi.serving fd' c ⟨hm, Or.inr hr', ?_, hof (hl.openClients fd' hm (Or.inr hr')) h⟩
    exact hl.not_ended (by simp [hpc]) (by simp [hpc])
  case stream => exact hi.stream
  case acked => exact hi.acked

/-- A descriptor is closed: the others stay where they are. -/
theorem closed (hi : Streams s) {it : ℕ} {todo : List ℕ} {pc : Pc}
    (hpc : s.pc = .drop it todo ∧ pc = .clients todo ∨
      s.pc = .dropPending it todo ∧ pc = .pending todo) : Streams (s.close it pc) := by
  refine hi.congr rfl rfl rfl ?_ ?_ ?_
  · rintro fd c ⟨h, -⟩
    rcases hpc with ⟨-, rfl⟩ | ⟨-, rfl⟩ <;> cases h
  · rintro fd c ⟨hp, hr, h⟩
    refine ⟨hp, fun hfd => hr (List.mem_append_left _ hfd), (update_none_eq_some.1 h).2⟩
  · rintro fd c ⟨hm, hr, he, h⟩
    obtain ⟨hne, h⟩ := update_none_eq_some.1 h
    refine ⟨hm, ?_, fun he' => he (he'.mono rfl fun todo' h' => ?_), h⟩
    · rcases hpc with ⟨h', rfl⟩ | ⟨h', -⟩
      · exact hr.elim (fun h => absurd rfl h) fun hr =>
          Or.inr fun hfd => hr (List.mem_append_left _ hfd)
      · exact Or.inl (by simp [h'])
    · rcases hpc with ⟨hpc, -⟩ | ⟨hpc, -⟩ <;> rw [hpc] at h' <;> cases h'
      exact absurd rfl hne

/-- The closed clients leave `clients_`. -/
theorem erased (hi : Streams s) (hl : Lists s) (hpc : s.pc = .erase) :
    Streams { s with
      clients := s.clientsToRemove.foldl List.erase s.clients
      clientsToRemove := []
      pc := .pending s.pendingClients } := by
  obtain ⟨seen, hc, hr⟩ := hl.scan [] (by simp [hpc])
  refine hi.congr rfl rfl rfl (fun fd c h => by cases h.1) ?_ ?_
  · rintro fd c ⟨hp, -, h⟩
    refine ⟨hp, fun hfd => ?_, h⟩
    have : fd ∈ s.clients := by rw [hc]; exact List.mem_append_left _ (hr hfd)
    exact hl.not_mem_pending (by simp [hpc]) this hp
  · rintro fd c ⟨hm, -, -, h⟩
    have hm := hl.mem_erased.1 hm
    exact ⟨hm.1, Or.inr hm.2, hl.not_ended (by simp [hpc]) (by simp [hpc]), h⟩

/-- The acknowledgement of a pending client is read. -/
theorem ackRead (hi : Streams s) (hl : Lists s) {it : ℕ} {todo : List ℕ}
    (hpc : s.pc = .pending (it :: todo)) {cbs : ℕ → List Cb} :
    Streams { s with
      clients := s.clients ++ [it]
      clientsToRemove := s.clientsToRemove ++ [it]
      acked := mark s.acked (s.conn it)
      cbs := cbs
      pc := .pending todo } := by
  have hpt : s.pc.pendingTodo = some (it :: todo) := by simp [hpc]
  obtain ⟨hp, hr⟩ := hl.pend_head hpt
  obtain ⟨c, hcn⟩ := hl.openPending it hp hr
  obtain ⟨hout, -⟩ := hi.waiting it c ⟨hp, hr, hcn⟩
  have hof {fd d : ℕ} (h : s.conn fd = some d) (hne : fd ≠ it) :
      mark s.acked (s.conn it) d = s.acked d := by
    rw [hcn]
    exact mark_of_ne _ fun e => hne (hl.inj fd it c (e ▸ h) hcn)
  constructor <;> dsimp only
  case fresh =>
    intro d hd
    have := hl.lt it c hcn
    rw [hcn, mark_of_ne _ (by omega)]
    exact hi.fresh d hd
  case greeting => exact fun fd d h => by cases h.1
  case waiting =>
    rintro fd d ⟨hp', hr', h⟩
    rw [List.mem_append, List.mem_singleton, not_or] at hr'
    rw [hof h hr'.2]
    exact hi.waiting fd d ⟨hp', hr'.1, h⟩
  case serving =>
    rintro fd d ⟨hm, -, -, h⟩
    by_cases hne : fd = it
    · subst hne
      obtain rfl : c = d := Option.some.inj (hcn.symm.trans h)
      rw [hout, hcn, mark_self]
      exact ⟨running_connect, rfl⟩
    · rw [hof h hne]
      have hm : fd ∈ s.clients := by simpa [hne] using hm
      exact hi.serving fd d
        ⟨hm, Or.inl (by simp [hpc]), hl.not_ended (by simp [hpc]) (by simp [hpc]), h⟩
  case stream => exact hi.stream
  case acked =>
    intro d size hm
    by_cases hd : d = c
    · rw [hd, hcn, mark_self]
    · rw [hcn, mark_of_ne _ hd]
      exact hi.acked d size hm

/-- The pass over `pending_clients_` goes on, or ends, with some descriptors marked. -/
theorem passed (hi : Streams s) {removed : List ℕ} {pc : Pc} (hs : s.pc.pendingTodo ≠ none)
    (hsub : s.clientsToRemove ⊆ removed) (hg : ∀ fd, pc ≠ .greet (some fd)) :
    Streams { s with clientsToRemove := removed, pc := pc } := by
  refine hi.congr rfl rfl rfl (fun fd c h => absurd h.1 (hg fd)) ?_ ?_
  · rintro fd c ⟨hm, hr, hcn⟩
    exact ⟨hm, fun hfd => hr (hsub hfd), hcn⟩
  · rintro fd c ⟨hm, -, he, hcn⟩
    refine ⟨hm, Or.inl hs, fun he' => he (he'.mono rfl fun todo h => ?_), hcn⟩
    rw [h] at hs
    exact absurd rfl hs

/-- The pending clients that were marked leave `pending_clients_`. -/
theorem purged (hi : Streams s) (hpc : s.pc = .purge) :
    Streams { s with
      pendingClients := s.pendingClients.filter (· ∉ s.clientsToRemove)
      clientsToRemove := []
      pc := .top } := by
  refine hi.congr rfl rfl rfl (fun fd c h => by cases h.1) ?_ ?_
  · rintro fd c ⟨hm, -, hcn⟩
    have hm : fd ∈ s.pendingClients ∧ fd ∉ s.clientsToRemove := by simpa using hm
    exact ⟨hm.1, hm.2, hcn⟩
  · rintro fd c ⟨hm, -, he, hcn⟩
    exact ⟨hm, Or.inl (by simp [hpc]), fun he' => he (he'.mono rfl (by simp [hpc])), hcn⟩

/-- The accepted connection is sent its connect message and becomes a pending one. -/
theorem greeted (hi : Streams s) (hl : Lists s) {fd : ℕ} (hpc : s.pc = .greet (some fd))
    {allset : List ℕ} {maxfd : ℕ} {pc : Pc} (hpc' : pc = if fd < FD_SETSIZE then .top else .undefined) :
    Streams { s with
      maxfd := maxfd
      allset := allset
      pendingClients := setInsert fd s.pendingClients
      out := record s.out (s.conn fd) .connect
      pc := pc } := by
  obtain ⟨⟨c, hcn⟩, hcl, -⟩ := hl.greet fd hpc
  obtain ⟨hout, hack⟩ := hi.greeting fd c ⟨hpc, hcn⟩
  have hrm : s.clientsToRemove = [] := hl.rest (by simp [hpc]) (by simp [hpc])
  have hgreet (fd' : ℕ) : pc ≠ .greet (some fd') := by
    rw [hpc']
    split <;> simp
  refine hi.send hl (m := .connect) hcn (by rw [hcn]) rfl rfl rfl hgreet ?_ ?_ ?_ ?_
  · rintro fd' d ⟨hm, hr, h⟩
    by_cases hne : fd' = fd
    · exact Or.inr ⟨hne, by rw [hout]; rfl, hack⟩
    · exact Or.inl ⟨hne, (mem_setInsert.1 hm).resolve_left hne, hr, h⟩
  · rintro fd' d ⟨hm, -, -, h⟩
    exact Or.inl ⟨fun e => hcl (e ▸ hm), hm, Or.inr (by simp [hrm]),
      hl.not_ended (by simp [hpc]) (by simp [hpc]), h⟩
  · rw [hout]
    exact running_connect.stream
  · intro size h
    rw [hout] at h
    simp at h

/-- The client that asked to quit is sent its acknowledgement. -/
theorem quitAcked (hi : Streams s) (hl : Lists s) {it : ℕ} {todo : List ℕ}
    (hpc : s.pc = .ackQuit it todo) {cbs : ℕ → List Cb} :
    Streams { s with
      out := record s.out (s.conn it) .quit
      cbs := cbs
      pc := .drop it todo } := by
  have hsc : s.pc.scanTodo = some (it :: todo) := by simp [hpc]
  have hne (fd : ℕ) : ¬ s.Ended fd := hl.not_ended (by simp [hpc]) (by simp [hpc])
  obtain ⟨c, hcn⟩ := hl.conn_of_scan_head hsc
  obtain ⟨hrun, hack⟩ := hi.serving it c
    ⟨(hl.scan_head hsc).1, Or.inr (hl.scan_head hsc).2, hne it, hcn⟩
  refine hi.send hl (m := .quit) hcn (by rw [hcn]) rfl rfl rfl (by simp) ?_ ?_ hrun.quit ?_
  · rintro fd d ⟨hm, hr, h⟩
    refine Or.inl ⟨?_, hm, hr, h⟩
    rintro rfl
    exact hl.not_mem_pending (by simp [hpc]) (hl.scan_head hsc).1 hm
  · rintro fd d ⟨hm, hr, he, h⟩
    refine Or.inl ⟨?_, hm, Or.inr (hr.resolve_left (by simp)), hne fd, h⟩
    rintro rfl
    exact he (Or.inl ⟨todo, rfl⟩)
  · exact fun _ _ => hack

/-- `notify_update` sends an update to the client it is at. -/
theorem notifySend (hi : Streams s) (hl : Lists s) {size : σ} {it : ℕ} {todo notified : List ℕ}
    (hn : s.notify = some (size, it :: todo)) :
    Streams { s with
      out := record s.out (s.conn it) (.update size)
      clientsNotified := notified
      notify := some (size, todo) } := by
  obtain ⟨hm, -, c, hcn⟩ := hl.notify_head hn
  have hlk := (hl.notify _ _ hn).1
  have hpt : s.pc.pendingTodo = none := by cases hpc : s.pc <;> simp [hpc] at hlk ⊢
  have hsc : s.pc.scanTodo = none := by cases hpc : s.pc <;> simp [hpc] at hlk ⊢
  have hg (fd : ℕ) : s.pc ≠ .greet (some fd) := fun h => by simp [h] at hlk
  have halive : s.dtor = .alive := by
    by_contra h
    rw [hl.alive h] at hn
    cases hn
  have hne (fd : ℕ) : ¬ s.Ended fd := by
    rintro (⟨todo, h⟩ | ⟨todo, h, -⟩)
    · simp [h] at hlk
    · simp [halive] at h
  have hsrv : s.Serving it c :=
    ⟨hm, Or.inr (by rw [hl.rest hsc hpt]; simp), hne it, hcn⟩
  obtain ⟨hrun, hack⟩ := hi.serving it c hsrv
  refine hi.send hl (m := .update size) hcn (by rw [hcn]) rfl rfl rfl hg ?_ ?_
    (hrun.update size).stream fun _ _ => hack
  · rintro fd d ⟨hp, hr, h⟩
    refine Or.inl ⟨?_, hp, hr, h⟩
    rintro rfl
    exact hl.not_mem_pending hpt hm hp
  · rintro fd d ⟨hm', hr, he, h⟩
    by_cases hfd : fd = it
    · exact Or.inr ⟨hfd, hrun.update size, hack⟩
    · exact Or.inl ⟨hfd, hm', hr, hne fd, h⟩

/-- The destructor sends quit to the client it is at. -/
theorem dtorSend (hi : Streams s) (hl : Lists s) {it : ℕ} {todo : List ℕ}
    (hd : s.dtor = .quitting (it :: todo)) :
    Streams { s with
      out := record s.out (s.conn it) .quit
      dtor := .quitting todo } := by
  obtain ⟨hpc, seen, hc⟩ := hl.quitting (it :: todo) (by simp [hd])
  have hrm : s.clientsToRemove = [] := hl.rest (by simp [hpc]) (by simp [hpc])
  have hnd := hl.nodupClients
  rw [hc, List.nodup_append] at hnd
  have hit : it ∉ todo := (List.nodup_cons.1 hnd.2.1).1
  have hm : it ∈ s.clients := by rw [hc]; simp
  obtain ⟨c, hcn⟩ := hl.openClients it hm (Or.inr (by simp [hrm]))
  have hne {fd : ℕ} (h : fd ∈ it :: todo) : ¬ s.Ended fd := by
    rintro (⟨todo', h'⟩ | ⟨todo', h', hfd⟩)
    · rw [hpc] at h'
      cases h'
    · rw [hd] at h'
      cases h'
      exact hfd h
  obtain ⟨hrun, hack⟩ := hi.serving it c
    ⟨hm, Or.inr (by simp [hrm]), hne (List.mem_cons_self ..), hcn⟩
  refine hi.send hl (m := .quit) hcn (by rw [hcn]) rfl rfl rfl (by simp [hpc]) ?_ ?_ hrun.quit
    fun _ _ => hack
  · rintro fd d ⟨hp, hr, h⟩
    refine Or.inl ⟨?_, hp, hr, h⟩
    rintro rfl
    exact hl.not_mem_pending (by simp [hpc]) hm hp
  · rintro fd d ⟨hm', hr, he, h⟩
    have hfd : fd ∈ todo := by
      by_contra hfd
      exact he (Or.inr ⟨todo, rfl, hfd⟩)
    exact Or.inl ⟨fun e => hit (e ▸ hfd), hm', hr, hne (List.mem_cons_of_mem _ hfd), h⟩

/-- The destructor goes on without sending anything. -/
theorem dtorMoved (hi : Streams s) {dtor : Dtor} {quit : Bool}
    (hd : ∀ fd todo, s.dtor.rest = some todo → fd ∉ todo → ∃ todo', dtor.rest = some todo' ∧
      fd ∉ todo') : Streams { s with quit := quit, dtor := dtor } := by
  refine hi.congr rfl rfl rfl (fun _ _ h => h) (fun _ _ h => h) ?_
  rintro fd c ⟨hm, hr, he, hcn⟩
  refine ⟨hm, hr, fun he' => he ?_, hcn⟩
  rcases he' with h | ⟨todo, h, hfd⟩
  · exact Or.inl h
  · exact Or.inr (hd fd todo h hfd)

/-! ### Every step -/

/-- **Every step of the server keeps the streams.** -/
theorem step {a : Act σ} (hi : Streams s) (hl : Lists s) (h : s.step a = some t) : Streams t := by
  cases trans_of_step h with
  | loadQuit hpc =>
      refine hi.moved rfl rfl rfl rfl rfl rfl rfl rfl ?_ (Or.inl ?_) (by simp [hpc]) <;>
        cases s.quit <;> simp
  | selectFailed hpc | selected hpc _ | greetFailed hpc | scanned hpc | skip hpc _ =>
      exact hi.moved rfl rfl rfl rfl rfl rfl rfl rfl (by simp) (Or.inl (by simp)) (by simp [hpc])
  | lock hpc _ | readError hpc _ =>
      refine hi.moved rfl rfl rfl rfl rfl rfl rfl rfl ?_ (Or.inl ?_) (by simp [hpc]) <;>
        dsimp only <;> split <;> simp
  | acceptFailed hpc | readEof hpc _ | readQuit hpc _ | recovered hpc =>
      exact hi.moved rfl rfl rfl rfl rfl rfl rfl rfl (by simp) (Or.inl (by simp)) (by simp [hpc])
  | accepted hpc hc => exact hi.accepted hl hpc hc
  | greeted hpc => exact hi.greeted hl hpc rfl
  | @quitAcked it todo ok hpc =>
      cases ok with
      | true => exact hi.quitAcked hl hpc
      | false =>
          exact hi.moved rfl rfl rfl rfl rfl rfl rfl rfl (by simp) (Or.inl (by simp)) (by simp [hpc])
  | dropped hpc => exact hi.closed (Or.inl ⟨hpc, rfl⟩)
  | erased hpc => exact hi.erased hl hpc
  | pendingScanned hpc | pendingSkip hpc _ | ackEof hpc _ =>
      exact hi.passed (by simp [hpc]) (List.Subset.refl _) (by simp)
  | ackError hpc _ => exact hi.passed (by simp [hpc]) (List.subset_append_left ..) (by simp)
  | ackRead hpc _ => exact hi.ackRead hl hpc
  | pendingDropped hpc => exact hi.closed (Or.inr ⟨hpc, rfl⟩)
  | purged hpc => exact hi.purged hpc
  | notifyLock hpc _ _ | notifyUnlock _ =>
      exact hi.congr rfl rfl rfl (fun _ _ h => h) (fun _ _ h => h) (fun _ _ h => h)
  | @notifySend size it todo ok hn =>
      cases ok with
      | true => exact hi.notifySend hl hn
      | false => exact hi.congr rfl rfl rfl (fun _ _ h => h) (fun _ _ h => h) (fun _ _ h => h)
  | dtorStart hd _ | dtorJoin hd _ => exact hi.dtorMoved (by simp [hd])
  | @dtorSend it todo ok hd =>
      cases ok with
      | true => exact hi.dtorSend hl hd
      | false =>
          refine hi.dtorMoved fun fd todo' h hfd => ⟨todo, rfl, ?_⟩
          rw [hd] at h
          cases h
          exact fun h => hfd (List.mem_cons_of_mem _ h)
  | dtorEnd hd => exact hi.dtorMoved fun fd todo _ _ => ⟨[], rfl, List.not_mem_nil⟩

end Streams

/-- What was sent on a connection stays sent. -/
theorem out_prefix_of_step {a : Act σ}
    (h : s.step a = some t) (c : ℕ) : s.out c <+: t.out c := by
  have hrec (o : Option ℕ) (m : SrvMsg σ) : s.out c <+: record s.out o m c := by
    cases o with
    | none => exact List.prefix_rfl
    | some d =>
        by_cases hd : c = d
        · rw [hd, record_self]
          exact List.prefix_append _ _
        · exact ⟨[], by rw [record_of_ne _ _ hd, List.append_nil]⟩
  have hite (ok : Bool) (o : Option ℕ) (m : SrvMsg σ) :
      s.out c <+: (if ok then record s.out o m else s.out) c := by
    cases ok with
    | false => exact List.prefix_rfl
    | true => exact hrec o m
  cases trans_of_step h with
  | greeted _ => exact hrec _ _
  | quitAcked _ => exact hite _ _ _
  | notifySend _ => exact hite _ _ _
  | dtorSend _ => exact hite _ _ _
  | _ => exact List.prefix_rfl

/-- What every reachable state of the server has. -/
structure WellFormed (s : Server σ) : Prop where
  lists : Lists s
  streams : Streams s

theorem wellFormed_init (lfd : ℕ) : WellFormed (init lfd : Server σ) :=
  ⟨lists_init lfd, streams_init lfd⟩

theorem WellFormed.step {a : Act σ} (hi : WellFormed s) (h : s.step a = some t) : WellFormed t :=
  ⟨hi.lists.step h, hi.streams.step hi.lists h⟩

/-- **Both invariants in every reachable state.** -/
theorem wellFormed_of_exec {lfd : ℕ} {as : List (Act σ)} (h : Runs.exec step (init lfd) as = some s) :
    WellFormed s :=
  Runs.exec_invariant (fun _ _ _ hs hst => WellFormed.step hs hst) h (wellFormed_init lfd)

end Server

end Shmdata

/-
**A client whose handshake has failed.**

`UnixSocketClient::start` runs `server_interaction` in a thread and waits for at most one second for the connect
message.  When it gives up it clears `is_valid_`, so that the destructor does not ask the server to let the
client go; but the loop of the thread ends only when the request to quit is acknowledged or the socket is
closed.  With a server that accepts the connection and stays silent, the thread never ends, and the destructor
waits for it.  With a server that is late, the thread answers the connect message, and calls back an object
whose `start` has failed.

The loop takes what `select` and `read` give it, step by step; the owner of the client is in `start` and then in
the destructor.  What is done with the bytes is that of `Shmdata.Client`.

Main definitions:

* `Shmdata.Handshake`, `Shmdata.Handshake.step` — the thread and the owner of a client;
* `Shmdata.Handshake.Leaves` — the loop ends although every `select` times out;
* `Shmdata.Handshake.Destroyable` — the loop ends, and nothing is called back after `start` has failed;
* `Shmdata.Handshake.Act.Closes`, `Shmdata.Handshake.Act.Heard` — the server closes the socket, or is heard.

Main results:

* `Shmdata.Handshake.Inv.step` — the invariant;
* `Shmdata.Handshake.leaves_iff` — the loop ends exactly if its request is acknowledged;
* `Shmdata.Handshake.destroyable_iff` — **when a client whose handshake has failed can be destroyed**.
-/

import Shmdata.Client
import Shmdata.Runs

set_option relaxedAutoImplicit false
set_option autoImplicit false

namespace Shmdata

open Runs ServerSide

/-! ### The thread and its owner -/

namespace Handshake

/-- Where the owner of the client is: in `start`, behind it, or in `~UnixSocketClient`. -/
inductive Owner
  /-- In `cv_.wait_for`. -/
  | wait
  /-- About to compute `is_valid_`. -/
  | check
  /-- About to return `connected_`. -/
  | leave
  | returned
  /-- In the destructor, about to store `quit_`. -/
  | store
  | join
  | gone
  deriving DecidableEq

/-- What happens to the socket in an iteration of the loop: `select` fails or times out, or the socket is
readable and `read` returns an error, the end of file, or some bytes. -/
inductive Event
  | selectFailed
  | timeout
  | readError
  | eof
  | bytes (b : UInt8) (bs : List UInt8)
  deriving DecidableEq

/-- A step of the thread outside of `select`, one iteration of it, a step of the owner, or its time-out. -/
inductive Act
  | thread
  | event (e : Event)
  | owner
  | giveUp
  deriving DecidableEq

/-- The server closes the socket, or its loss is found. -/
def Act.Closes (a : Act) : Prop := a = .event .readError ∨ a = .event .eof

/-- Something of the server is read. -/
def Act.Heard (a : Act) : Prop := ∃ b bs, a = .event (.bytes b bs)

end Handshake

/-- A client, its owner, and the number of callbacks that had been made when `start` returned `false`. -/
structure Handshake where
  client : Client
  owner : Handshake.Owner
  failedAt : Option ℕ

namespace Handshake

/-- `start` has made the thread. -/
def init : Handshake := ⟨Client.init [], .wait, none⟩

/-- The bytes that `read` is given room for. -/
def room (c : Client) : ℕ := if c.connected then updateLength else connectLength

/-- `select`, and what is done with its result. -/
def select (c : Client) : Event → Option Client
  | .selectFailed => some { c with pc := .top }
  | .timeout => some { c with pc := .load }
  | .readError => if c.fdOpen then some (c.received none) else none
  | .eof => if c.fdOpen then some (c.received (some [])) else none
  | .bytes b bs =>
      if c.fdOpen ∧ (b :: bs).length ≤ room c then some (c.received (some (b :: bs))) else none

/-- The next step of the owner. -/
def ownerStep (s : Handshake) : Option Handshake :=
  match s.owner with
  | .wait => if s.client.connected then some { s with owner := .check } else none
  | .check =>
      some { s with
        client := { s.client with isValid := s.client.isValid && s.client.connected }
        owner := .leave }
  | .leave =>
      some { s with
        owner := .returned
        failedAt := if s.client.connected then none else some s.client.calls.length }
  | .returned =>
      -- the quit message is sent by a valid client only
      some { s with
        client := { s.client with
          sent := if s.client.isValid ∧ s.client.fdOpen then s.client.sent ++ [Bytes.le 2 2] else s.client.sent }
        owner := .store }
  | .store => some { s with client := { s.client with quitStored := true }, owner := .join }
  | .join => if s.client.pc = .stopped then some { s with owner := .gone } else none
  | .gone => none

/-- One step. -/
def step (s : Handshake) : Act → Option Handshake
  | .thread =>
      if s.client.pc = .start ∨ s.client.pc = .top ∨ s.client.pc = .load then
        (s.client.step .thread).map fun c => { s with client := c }
      else none
  | .event e => if s.client.pc = .select then (select s.client e).map fun c => { s with client := c } else none
  | .owner => s.ownerStep
  | .giveUp => if s.owner = .wait then some { s with owner := .check } else none

/-- The next step of the loop when `select` times out. -/
def silent (c : Client) : Client :=
  match c.pc with
  | .start | .load => { c with quit := c.quit || c.quitStored, pc := .top }
  | .top => { c with pc := if !c.quit || !c.quitAcked then .select else .stopped }
  | .select => { c with pc := .load }
  | .read | .stopped => c

/-- The loop ends after finitely many steps although every `select` times out. -/
def Leaves (c : Client) : Prop := ∃ n, (silent^[n] c).pc = .stopped

/-- The loop ends, and nothing was called back after `start` has returned `false`. -/
def Destroyable (s : Handshake) : Prop := Leaves s.client ∧ s.failedAt = some s.client.calls.length

variable {s t : Handshake} {a : Act} {as : List Act} {c : Client} {n : ℕ}

/-! ### The invariant -/

/-- The thread is not between `select` and `read`; an acknowledged request has been seen, and the loop is about
to end; the loop ends for an acknowledged request only. -/
structure Settled (c : Client) : Prop where
  place : c.pc ≠ .read
  quitting : c.quitAcked = true → c.quit = true ∧ (c.pc = .load ∨ c.pc = .top ∨ c.pc = .stopped)
  stopped : c.pc = .stopped → c.quitAcked = true

/-- What a schedule has done: the client is connected if it has heard the server, has called back only then,
and has an acknowledged request, if it is not connected, only if the socket was closed. -/
structure Inv (as : List Act) (s : Handshake) : Prop where
  settled : Settled s.client
  connected : s.client.connected = true ↔ ∃ a ∈ as, a.Heard
  calls : s.client.calls = [] ↔ s.client.connected = false
  acked : s.client.connected = false → (s.client.quitAcked = true ↔ ∃ a ∈ as, a.Closes)
  failedAt : ∀ n, s.failedAt = some n → n = 0

theorem inv_init : Inv [] init where
  settled := ⟨by simp [init, Client.init], by simp [init, Client.init], by simp [init, Client.init]⟩
  connected := by simp [init, Client.init]
  calls := by simp [init, Client.init]
  acked := by simp [init, Client.init]
  failedAt := by simp [init]

/-- What some bytes do to a client. -/
structure Took (c d : Client) : Prop where
  connected : d.connected = true
  calls : d.calls ≠ []
  pc : d.pc = .load
  quitting : d.quitAcked = true → d.quit = true ∨ (c.quitAcked = true ∧ d.quit = c.quit)

theorem took_received (b : UInt8) (bs : List UInt8) (hcalls : c.connected = true → c.calls ≠ []) :
    Took c (c.received (some (b :: bs))) := by
  unfold Client.received
  dsimp only
  split
  · next hconn =>
      have hcalls := hcalls hconn
      unfold Client.process
      split
      · exact ⟨hconn, by simp, rfl, fun hq => Or.inr ⟨hq, rfl⟩⟩
      · split
        · exact ⟨hconn, by simp [Client.disconnect, hconn], rfl, fun _ => Or.inl rfl⟩
        · exact ⟨hconn, hcalls, rfl, fun hq => Or.inr ⟨hq, rfl⟩⟩
  · exact ⟨rfl, by simp [Client.acknowledge], rfl, fun hq => Or.inr ⟨hq, rfl⟩⟩

/-- A step that is not one of the socket's events. -/
theorem Inv.of_client (h : Inv as s) (hconn : t.client.connected = s.client.connected)
    (hcalls : t.client.calls = s.client.calls) (hacked : t.client.quitAcked = s.client.quitAcked)
    (hsettled : Settled t.client) (hfailed : ∀ n, t.failedAt = some n → n = 0) (hheard : ¬ a.Heard)
    (hcloses : ¬ a.Closes) : Inv (as ++ [a]) t where
  settled := hsettled
  connected := by simp [hconn, h.connected, hheard]
  calls := by rw [hcalls, hconn, h.calls]
  acked hc := by
    rw [hconn] at hc
    simp [hacked, h.acked hc, hcloses]
  failedAt := hfailed

/-- The socket is closed. -/
theorem Inv.of_disconnect (h : Inv as s) (hcloses : a.Closes) (hheard : ¬ a.Heard) :
    Inv (as ++ [a]) { s with client := s.client.disconnect } where
  settled := ⟨by simp [Client.disconnect], fun _ => ⟨rfl, Or.inl rfl⟩, by simp [Client.disconnect]⟩
  connected := by simp [Client.disconnect, h.connected, hheard]
  calls := by
    have hcalls := h.calls
    cases hconn : s.client.connected <;> simp [Client.disconnect, hconn] at hcalls ⊢
    exact hcalls
  acked _ := by simp [Client.disconnect, hcloses]
  failedAt := h.failedAt

theorem not_heard_event {e : Event} (he : ∀ b bs, e ≠ .bytes b bs) : ¬ (Act.event e).Heard := by
  rintro ⟨b, bs, hb⟩
  exact he b bs (Act.event.inj hb)

/-- **What happens to the socket keeps the invariant.** -/
theorem Inv.event {e : Event} (h : Inv as s) (hpc : s.client.pc = .select) (hc : select s.client e = some c) :
    Inv (as ++ [.event e]) { s with client := c } := by
  have hsettled := h.settled
  have hnot : s.client.quitAcked = false := by
    by_contra hq
    have hplace := (hsettled.quitting (by simpa using hq)).2
    rw [hpc] at hplace
    simp at hplace
  cases e with
  | selectFailed =>
      obtain rfl := Option.some.inj hc
      refine h.of_client rfl rfl rfl ⟨by simp, ?_, by simp⟩ h.failedAt (not_heard_event (by simp))
        (by simp [Act.Closes])
      simp [hnot]
  | timeout =>
      obtain rfl := Option.some.inj hc
      refine h.of_client rfl rfl rfl ⟨by simp, ?_, by simp⟩ h.failedAt (not_heard_event (by simp))
        (by simp [Act.Closes])
      simp [hnot]
  | readError =>
      obtain ⟨-, hc⟩ := Option.ite_none_right_eq_some.1 hc
      obtain rfl := Option.some.inj hc
      exact h.of_disconnect (Or.inl rfl) (not_heard_event (by simp))
  | eof =>
      obtain ⟨-, hc⟩ := Option.ite_none_right_eq_some.1 hc
      obtain rfl := Option.some.inj hc
      exact h.of_disconnect (Or.inr rfl) (not_heard_event (by simp))
  | bytes b bs =>
      obtain ⟨-, hc⟩ := Option.ite_none_right_eq_some.1 hc
      obtain rfl := Option.some.inj hc
      have htook := took_received (c := s.client) b bs fun hconn hcalls => by
        rw [h.calls.1 hcalls] at hconn
        cases hconn
      have hheard : (Act.event (.bytes b bs)).Heard := ⟨b, bs, rfl⟩
      refine ⟨⟨by simp [htook.pc], fun hq => ⟨?_, Or.inl htook.pc⟩, by simp [htook.pc]⟩, ?_, ?_, ?_, h.failedAt⟩
      · rcases htook.quitting hq with hquit | ⟨hold, -⟩
        · exact hquit
        · rw [hnot] at hold
          cases hold
      · simp [htook.connected, hheard]
      · simp [htook.connected, htook.calls]
      · intro hconn
        rw [htook.connected] at hconn
        cases hconn

/-- **Every step keeps the invariant.** -/
theorem Inv.step (h : Inv as s) (hst : step s a = some t) : Inv (as ++ [a]) t := by
  have hsettled := h.settled
  cases a with
  | event e =>
      simp only [Handshake.step] at hst
      obtain ⟨hpc, hst⟩ := Option.ite_none_right_eq_some.1 hst
      obtain ⟨c, hc, rfl⟩ := Option.map_eq_some_iff.1 hst
      exact h.event hpc hc
  | thread =>
      simp only [Handshake.step] at hst
      obtain ⟨hpc, hst⟩ := Option.ite_none_right_eq_some.1 hst
      obtain ⟨c, hc, rfl⟩ := Option.map_eq_some_iff.1 hst
      have hnot : ¬ Act.thread.Heard ∧ ¬ Act.thread.Closes := by simp [Act.Heard, Act.Closes]
      rcases hpc with hpc | hpc | hpc
      · simp only [Client.step, hpc] at hc
        obtain rfl := Option.some.inj hc
        refine h.of_client rfl rfl rfl ⟨by simp, fun hq => ?_, by simp⟩ h.failedAt hnot.1 hnot.2
        simp [(hsettled.quitting hq).1]
      · simp only [Client.step, hpc] at hc
        obtain rfl := Option.some.inj hc
        refine h.of_client rfl rfl rfl ⟨?_, fun hq => ?_, ?_⟩ h.failedAt hnot.1 hnot.2
        · dsimp only
          split <;> simp
        · have hq : s.client.quitAcked = true := hq
          have hquit := (hsettled.quitting hq).1
          simp [hq, hquit]
        · intro hstopped
          dsimp only at hstopped ⊢
          split at hstopped
          · cases hstopped
          · next hloop => simp_all
      · simp only [Client.step, hpc] at hc
        obtain rfl := Option.some.inj hc
        refine h.of_client rfl rfl rfl ⟨by simp, fun hq => ?_, by simp⟩ h.failedAt hnot.1 hnot.2
        simp [(hsettled.quitting hq).1]
  | giveUp =>
      simp only [Handshake.step] at hst
      obtain ⟨-, hst⟩ := Option.ite_none_right_eq_some.1 hst
      obtain rfl := Option.some.inj hst
      exact h.of_client rfl rfl rfl hsettled h.failedAt (by simp [Act.Heard]) (by simp [Act.Closes])
  | owner =>
      have hnot : ¬ Act.owner.Heard ∧ ¬ Act.owner.Closes := by simp [Act.Heard, Act.Closes]
      simp only [Handshake.step, ownerStep] at hst
      cases ho : s.owner with
      | wait =>
          rw [ho] at hst
          obtain ⟨-, hst⟩ := Option.ite_none_right_eq_some.1 hst
          obtain rfl := Option.some.inj hst
          exact h.of_client rfl rfl rfl hsettled h.failedAt hnot.1 hnot.2
      | check =>
          rw [ho] at hst
          obtain rfl := Option.some.inj hst
          exact h.of_client rfl rfl rfl ⟨hsettled.place, hsettled.quitting, hsettled.stopped⟩ h.failedAt
            hnot.1 hnot.2
      | leave =>
          rw [ho] at hst
          obtain rfl := Option.some.inj hst
          refine h.of_client rfl rfl rfl hsettled (fun n hn => ?_) hnot.1 hnot.2
          -- `start` fails when the client has heard nothing
          obtain ⟨hconn, hn⟩ := Option.ite_none_left_eq_some.1 hn
          obtain rfl := Option.some.inj hn
          rw [h.calls.2 (by simpa using hconn)]
          rfl
      | returned =>
          rw [ho] at hst
          obtain rfl := Option.some.inj hst
          exact h.of_client rfl rfl rfl ⟨hsettled.place, hsettled.quitting, hsettled.stopped⟩ h.failedAt
            hnot.1 hnot.2
      | store =>
          rw [ho] at hst
          obtain rfl := Option.some.inj hst
          exact h.of_client rfl rfl rfl ⟨hsettled.place, hsettled.quitting, hsettled.stopped⟩ h.failedAt
            hnot.1 hnot.2
      | join =>
          rw [ho] at hst
          obtain ⟨-, hst⟩ := Option.ite_none_right_eq_some.1 hst
          obtain rfl := Option.some.inj hst
          exact h.of_client rfl rfl rfl hsettled h.failedAt hnot.1 hnot.2
      | gone =>
          rw [ho] at hst
          cases hst

theorem inv_of_exec (h : exec step init as = some s) : Inv as s :=
  exec_history (fun _ _ _ _ hs hst => Inv.step hs hst) h inv_init

/-! ### Leaving the loop -/

/-- A loop whose request is not acknowledged goes on when `select` times out. -/
theorem silent_goes_on (h : c.quitAcked = false ∧ c.pc ≠ .stopped) :
    (silent c).quitAcked = false ∧ (silent c).pc ≠ .stopped := by
  obtain ⟨hacked, hpc⟩ := h
  cases hplace : c.pc with
  | stopped => exact absurd hplace hpc
  | _ => simp [silent, hplace, hacked]

/-- **The loop ends, whatever is still to come, exactly if its request to quit is acknowledged.** -/
theorem leaves_iff (h : Settled c) : Leaves c ↔ c.quitAcked = true := by
  constructor
  · rintro ⟨n, hn⟩
    by_contra hacked
    have hstart : c.quitAcked = false ∧ c.pc ≠ .stopped :=
      ⟨by simpa using hacked, fun hpc => hacked (h.stopped hpc)⟩
    have hrun : ∀ k, (silent^[k] c).quitAcked = false ∧ (silent^[k] c).pc ≠ .stopped := by
      intro k
      induction k with
      | zero => exact hstart
      | succ k ih =>
          rw [Function.iterate_succ_apply']
          exact silent_goes_on ih
    exact (hrun n).2 hn
  · intro hacked
    obtain ⟨hquit, hpc | hpc | hpc⟩ := h.quitting hacked
    · exact ⟨2, by simp [silent, hpc, hquit, hacked]⟩
    · exact ⟨1, by simp [silent, hpc, hquit, hacked]⟩
    · exact ⟨0, hpc⟩

/-- **When a client whose handshake has failed can be destroyed.**  In every state from then on, and so behind
the destructor's store to `quit_`, the loop ends without the server's help and nothing has been called back since
`start` has failed, exactly if the server has closed the socket and nothing was ever read of it. -/
theorem destroyable_iff (h : exec step init as = some s) (hfailed : s.failedAt = some n) :
    Destroyable s ↔ (∃ a ∈ as, a.Closes) ∧ ∀ a ∈ as, ¬ a.Heard := by
  have hinv := inv_of_exec h
  obtain rfl := hinv.failedAt n hfailed
  have hcalls : s.failedAt = some s.client.calls.length ↔ s.client.connected = false := by
    rw [hfailed, Option.some.injEq, eq_comm, List.length_eq_zero_iff, hinv.calls]
  have hheard : s.client.connected = false ↔ ∀ a ∈ as, ¬ a.Heard := by
    rw [← Bool.not_eq_true, hinv.connected]
    push Not
    rfl
  rw [Destroyable, leaves_iff hinv.settled, hcalls, ← hheard]
  exact and_congr_left fun hconn => hinv.acked hconn

/-- A server that closes the socket without a word. -/
theorem closed_destroyable :
    ∃ s, exec step init [.thread, .thread, .event .eof, .giveUp, .owner, .owner, .owner, .owner] = some s ∧
      s.failedAt = some 0 ∧ s.client.quitStored = true ∧ Destroyable s := by
  obtain ⟨s, hs, hfailed, hstored⟩ :
      ∃ s, exec step init [.thread, .thread, .event .eof, .giveUp, .owner, .owner, .owner, .owner] = some s ∧
        s.failedAt = some 0 ∧ s.client.quitStored = true := ⟨_, rfl, rfl, rfl⟩
  refine ⟨s, hs, hfailed, hstored, (destroyable_iff hs hfailed).2 ⟨⟨.event .eof, by decide, Or.inr rfl⟩, ?_⟩⟩
  simp [Act.Heard]

/-- A server that stays silent: the client whose `start` has failed sends no quit message, and its loop never
ends.  A server that is late: it is answered, and the object whose `start` has failed is called back. -/
theorem silent_not_destroyable :
    (∃ s, exec step init [.thread, .thread, .giveUp, .owner, .owner, .owner, .owner] = some s ∧
      s.failedAt = some 0 ∧ s.client.quitStored = true ∧ s.client.sent = [] ∧ ¬ Leaves s.client) ∧
    ∃ s, exec step init [.thread, .thread, .giveUp, .owner, .owner, .event (.bytes 0 []), .owner, .owner] = some s ∧
      s.failedAt = some 0 ∧ s.client.quitStored = true ∧ s.client.calls.length = 1 ∧ ¬ Destroyable s := by
  constructor
  · obtain ⟨s, hs, hfailed, hstored, hsent, hacked⟩ :
        ∃ s, exec step init [.thread, .thread, .giveUp, .owner, .owner, .owner, .owner] = some s ∧
          s.failedAt = some 0 ∧ s.client.quitStored = true ∧ s.client.sent = [] ∧ s.client.quitAcked = false :=
      ⟨_, rfl, rfl, rfl, rfl, rfl⟩
    refine ⟨s, hs, hfailed, hstored, hsent, fun hleaves => ?_⟩
    rw [leaves_iff (inv_of_exec hs).settled, hacked] at hleaves
    cases hleaves
  · obtain ⟨s, hs, hfailed, hstored, hcalls⟩ :
        ∃ s, exec step init
          [.thread, .thread, .giveUp, .owner, .owner, .event (.bytes 0 []), .owner, .owner] = some s ∧
          s.failedAt = some 0 ∧ s.client.quitStored = true ∧ s.client.calls.length = 1 :=
      ⟨_, rfl, rfl, rfl, by decide⟩
    refine ⟨s, hs, hfailed, hstored, hcalls, fun hdestroyable => ?_⟩
    have hlength := hdestroyable.2
    rw [hfailed, hcalls] at hlength
    cases hlength

end Handshake

end Shmdata

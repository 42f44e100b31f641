/-
**The client decodes what the server sends.**

The bytes that have arrived are always a whole number of messages, since each `send` arrives as a
whole and each `read` takes exactly one: before the acknowledgement there is nothing but the connect
message, an update fills the buffer, and a quit message, which is shorter, is the last of its stream.
The invariant `Inv` cuts the stream in three accordingly: what was read, what has arrived, and what
is under way.

Main results:

* `Shmdata.Client.inv_step` — every step of the client or of the network keeps the cut;
* `Shmdata.Client.exists_stopped` — **a stream that has arrived is followed to its end**;
* `Shmdata.server_stream_and_decoding` — **the stream of every connection of the server, and the
  callbacks of the client that reads it, at any cut and under any schedule**.
-/

import Shmdata.Client

set_option relaxedAutoImplicit false
set_option autoImplicit false

namespace Shmdata

open Bytes Runs

namespace Client

open ServerSide SrvMsg

/-! ### Decoding one message -/

theorem msgType_append {n : ℕ} (hn : n < 256 ^ 2) (bs : List UInt8) :
    msgType (le 2 n ++ bs) = n := by
  rw [msgType, List.take_left' (length_le 2 n), ofLe_le, Nat.mod_eq_of_lt hn]

theorem msgSize_encode (p : ServerSide) (size : UInt64) :
    msgSize (p.encode (.update size)) = size := by
  have hdrop : (p.encode (.update size)).drop 8 = le 8 size.toNat := by
    exact List.drop_left' (by simp)
  rw [msgSize, hdrop, List.take_of_length_le (by simp), ofLe_le,
    Nat.mod_eq_of_lt (show size.toNat < 256 ^ 8 from size.toNat_lt), UInt64.ofNat_toNat]

theorem heard_append (l k : List (SrvMsg UInt64)) : heard (l ++ k) = heard l ++ heard k :=
  List.filterMap_append

theorem script_of_ne_nil {l : List (SrvMsg UInt64)} (h : l ≠ []) :
    script l = heard l ++ [.onDisconnect] := by
  cases l with
  | nil => exact absurd rfl h
  | cons m l => rfl

theorem heard_prefix_script {l k : List (SrvMsg UInt64)} : heard l <+: script (l ++ k) := by
  cases hl : l with
  | nil => exact List.nil_prefix
  | cons m l' =>
      rw [script_of_ne_nil (by simp), heard_append, List.append_assoc]
      exact List.prefix_append _ _

/-! ### The cut of the stream -/

/-- The stream `l` cut in what was read, what has arrived and what is under way. -/
structure Cut (p : ServerSide) (l : List (SrvMsg UInt64)) (c : Client)
    (done queued rest : List (SrvMsg UInt64)) : Prop where
  whole : l = done ++ queued ++ rest
  avail : c.avail = queued.flatMap p.encode
  coming : c.coming = rest.map p.encode
  eof : c.eof = true → rest = []
  reads : c.reads = done.map p.encode
  connected : c.connected = true ↔ done ≠ []
  data : c.data.length = connectLength
  updateMsg : c.updateMsg.length = updateLength
  open_ : c.fdOpen = true → .quit ∉ done ∧ c.calls = heard done ∧ c.quitAcked = false ∧
    c.pc ≠ .stopped
  read : c.pc = .read → c.fdOpen = true ∧ (c.avail ≠ [] ∨ c.eof = true)
  select : c.pc = .select → c.fdOpen = true
  closed : c.fdOpen = false → done = l ∧ c.calls = script l ∧ c.quit = true ∧
    c.quitAcked = true ∧ (c.pc = .load ∨ c.pc = .top ∨ c.pc = .stopped)

/-- The invariant of the client that reads `l`. -/
def Inv (p : ServerSide) (l : List (SrvMsg UInt64)) (c : Client) : Prop :=
  ∃ done queued rest, Cut p l c done queued rest

theorem inv_init (p : ServerSide) (l : List (SrvMsg UInt64)) : Inv p l (init (l.map p.encode)) :=
  ⟨[], [], l, by constructor <;> simp [init, heard]⟩

variable {p : ServerSide} {l done queued rest : List (SrvMsg UInt64)} {c t : Client}

/-- A step of the thread that reads nothing. -/
theorem Cut.moved (h : Cut p l c done queued rest) (h1 : t.avail = c.avail)
    (h2 : t.coming = c.coming) (h3 : t.eof = c.eof) (h4 : t.reads = c.reads)
    (h5 : t.connected = c.connected) (h6 : t.data = c.data) (h7 : t.updateMsg = c.updateMsg)
    (h8 : t.fdOpen = c.fdOpen) (h9 : t.calls = c.calls) (h10 : t.quitAcked = c.quitAcked)
    (h11 : c.quit = true → t.quit = true) (ho : c.fdOpen = true → t.pc ≠ .stopped)
    (hr : t.pc = .read → c.fdOpen = true ∧ (c.avail ≠ [] ∨ c.eof = true))
    (hs : t.pc = .select → c.fdOpen = true)
    (hc : c.fdOpen = false → t.pc = .load ∨ t.pc = .top ∨ t.pc = .stopped) :
    Cut p l t done queued rest where
  whole := h.whole
  avail := h1.trans h.avail
  coming := h2.trans h.coming
  eof := by rw [h3]; exact h.eof
  reads := h4.trans h.reads
  connected := by rw [h5]; exact h.connected
  data := by rw [h6]; exact h.data
  updateMsg := by rw [h7]; exact h.updateMsg
  open_ := by
    rw [h8, h9, h10]
    intro ht
    obtain ⟨hq, hcalls, hack, -⟩ := h.open_ ht
    exact ⟨hq, hcalls, hack, ho ht⟩
  read := by rw [h1, h3, h8]; exact hr
  select := by rw [h8]; exact hs
  closed := by
    rw [h8, h9, h10]
    intro ht
    obtain ⟨hd, hcalls, hq, hack, -⟩ := h.closed ht
    exact ⟨hd, hcalls, h11 hq, hack, hc ht⟩

/-- The connection ends when the whole stream was read. -/
theorem Cut.disconnect (h : Cut p l c done queued rest) (hall : done = l)
    (hcalls : c.calls = heard done) : Cut p l c.disconnect done queued rest where
  whole := h.whole
  avail := h.avail
  coming := h.coming
  eof := h.eof
  reads := h.reads
  connected := h.connected
  data := h.data
  updateMsg := h.updateMsg
  open_ := by simp [Client.disconnect]
  read := by simp [Client.disconnect]
  select := by simp [Client.disconnect]
  closed _ := by
    refine ⟨hall, ?_, rfl, rfl, Or.inl rfl⟩
    show (if c.connected then c.calls ++ [.onDisconnect] else c.calls) = script l
    by_cases hd : done = []
    · rw [if_neg (fun hc => h.connected.1 hc hd), hcalls, ← hall, hd]
      rfl
    · rw [if_pos (h.connected.2 hd), hcalls, ← hall, script_of_ne_nil hd]

/-! ### Reading -/

theorem received_of_not_connected {bs : List UInt8} (hc : c.connected = false) (hbs : bs ≠ []) :
    c.received (some bs) = { c with reads := c.reads ++ [bs] }.acknowledge bs := by
  cases bs with
  | nil => exact absurd rfl hbs
  | cons b bs => simp [received, hc]

theorem received_of_connected {bs : List UInt8} (hc : c.connected = true) (hbs : bs ≠ []) :
    c.received (some bs) =
      { c with updateMsg := fill c.updateMsg bs, reads := c.reads ++ [bs] }.process := by
  cases bs with
  | nil => exact absurd rfl hbs
  | cons b bs => simp [received, hc]

theorem process_of_update (h : msgType c.updateMsg = 1) :
    c.process = { c with calls := c.calls ++ [.onUpdate (msgSize c.updateMsg)], pc := .load } :=
  if_pos h

theorem process_of_quit (h : msgType c.updateMsg = 2) : c.process = c.disconnect := by
  rw [process, if_neg (by omega), if_pos h]

/-- The connect message, and nothing else, is read by the first `read`. -/
theorem Cut.connect (h : Cut p l c [] (.connect :: queued) rest) (hpc : c.pc = .read) {k : List UInt8}
    (hk : k = queued.flatMap p.encode) :
    Inv p l ({ c with avail := k }.received (some (p.encode .connect))) := by
  have hconn : c.connected = false := by
    cases hc : c.connected with
    | false => rfl
    | true => exact absurd rfl (h.connected.1 hc)
  obtain ⟨-, hcalls, hack, -⟩ := h.open_ (h.read hpc).1
  rw [received_of_not_connected (c := { c with avail := k }) hconn (encode_ne_nil p _)]
  refine ⟨[.connect], queued, rest, ?_⟩
  exact
    { whole := h.whole
      avail := hk
      coming := h.coming
      eof := h.eof
      reads := by simp [acknowledge, h.reads]
      connected := by simp [acknowledge]
      data := by
        have := h.data
        simp only [acknowledge]
        rw [length_fill (by simp [h.data]), h.data]
      updateMsg := h.updateMsg
      open_ := fun _ => by simp [acknowledge, hcalls, hack, heard]
      read := by simp [acknowledge]
      select := by simp [acknowledge]
      closed := fun hf => by
        rw [show _ = c.fdOpen from rfl, (h.read hpc).1] at hf
        cases hf }

/-- An update fills the buffer, and its size is the one the server put in it. -/
theorem Cut.update {size : UInt64} (h : Cut p l c done (.update size :: queued) rest)
    (hd : done ≠ []) (hpc : c.pc = .read) {k : List UInt8} (hk : k = queued.flatMap p.encode) :
    Inv p l ({ c with avail := k }.received (some (p.encode (.update size)))) := by
  obtain ⟨hq, hcalls, hack, -⟩ := h.open_ (h.read hpc).1
  have hfill : fill c.updateMsg (p.encode (.update size)) = p.encode (.update size) :=
    fill_of_length_eq (by rw [length_encode_update, h.updateMsg])
  rw [received_of_connected (c := { c with avail := k }) (h.connected.2 hd) (encode_ne_nil p _),
    process_of_update]
  swap
  · show msgType (fill c.updateMsg _) = 1
    rw [hfill, encode, List.append_assoc]
    exact msgType_append (by decide) _
  refine ⟨done ++ [.update size], queued, rest, ?_⟩
  exact
    { whole := by rw [h.whole]; simp
      avail := hk
      coming := h.coming
      eof := h.eof
      reads := by simp [h.reads]
      connected := by simp [h.connected.2 hd]
      data := h.data
      updateMsg := by
        dsimp only
        rw [hfill, length_encode_update]
      open_ := fun _ => by
        dsimp only
        refine ⟨by simpa using hq, ?_, hack, by simp⟩
        rw [hfill, msgSize_encode, hcalls, heard_append]
        rfl
      read := by simp
      select := by simp
      closed := fun hf => by
        rw [show _ = c.fdOpen from rfl, (h.read hpc).1] at hf
        cases hf }

/-- A quit message is shorter than the buffer, but its type is in the bytes it does fill. -/
theorem Cut.quit (h : Cut p l c done [.quit] []) (hd : done ≠ []) (hpc : c.pc = .read) :
    Inv p l ({ c with avail := [] }.received (some (p.encode .quit))) := by
  obtain ⟨hq, hcalls, hack, -⟩ := h.open_ (h.read hpc).1
  rw [received_of_connected (c := { c with avail := [] }) (h.connected.2 hd) (encode_ne_nil p _),
    process_of_quit]
  swap
  · show msgType (fill c.updateMsg _) = 2
    exact msgType_append (by decide) _
  refine ⟨done ++ [.quit], [], [], ?_⟩
  exact
    { whole := by rw [h.whole]; simp
      avail := rfl
      coming := h.coming
      eof := h.eof
      reads := by simp [Client.disconnect, h.reads]
      connected := by simp [Client.disconnect, h.connected.2 hd]
      data := h.data
      updateMsg := by
        dsimp only [Client.disconnect]
        rw [length_fill (by rw [h.updateMsg, length_encode_quit]; decide), h.updateMsg]
      open_ := by simp [Client.disconnect]
      read := by simp [Client.disconnect]
      select := by simp [Client.disconnect]
      closed := fun _ => by
        refine ⟨by rw [h.whole]; simp, ?_, rfl, rfl, Or.inl rfl⟩
        have hwhole : l = done ++ [.quit] := by rw [h.whole]; simp
        dsimp only [Client.disconnect]
        rw [if_pos (h.connected.2 hd), hcalls, hwhole, script_of_ne_nil (by simp), heard_append]
        simp [heard] }

theorem readSocket_eq {n : ℕ} (hr : c.avail ≠ [] ∨ c.eof = true)
    (hn : (if c.connected then updateLength else connectLength) = n) :
    c.readSocket = { c with avail := c.avail.drop n }.received (some (c.avail.take n)) := by
  subst hn
  have hread : ¬ (c.avail = [] ∧ c.eof = false) := fun h =>
    hr.elim (fun hne => hne h.1) (by simp [h.2])
  simp only [readSocket, if_neg hread]

/-- Every `read` takes exactly one message, or finds the end of file after the last. -/
theorem inv_read (hl : Conversation l) (hi : Inv p l c) (hpc : c.pc = .read) :
    Inv p l c.readSocket := by
  obtain ⟨done, queued, rest, hc⟩ := hi
  obtain ⟨hopen, hr⟩ := hc.read hpc
  rw [readSocket_eq hr rfl]
  have hav := hc.avail
  cases queued with
  | nil =>
      have heof : c.eof = true := hr.resolve_left fun hne => hne hav
      obtain rfl := hc.eof heof
      obtain ⟨hq, hcalls, -, -⟩ := hc.open_ hopen
      have hall : done = l := by rw [hc.whole]; simp
      rw [hav, List.flatMap_nil, List.take_nil, List.drop_nil]
      refine ⟨done, [], [], Cut.disconnect (c := { c with avail := [] }) ?_ hall hcalls⟩
      exact { hc with avail := rfl, read := fun _ => ⟨hopen, Or.inr heof⟩ }
  | cons m queued =>
      rw [List.flatMap_cons] at hav
      have hw := hc.whole
      rw [List.append_assoc, List.cons_append] at hw
      by_cases hd : done = []
      · -- not connected yet: the whole of `data_` is read
        subst hd
        obtain rfl := (hw ▸ hl : Conversation (m :: _)).head
        rw [if_neg fun h => hc.connected.1 h rfl, hav,
          List.take_left' (length_encode_connect p), List.drop_left' (length_encode_connect p)]
        exact hc.connect hpc rfl
      · rw [if_pos (hc.connected.2 hd), hav]
        rcases (hw ▸ hl).next hd with ⟨size, rfl⟩ | ⟨rfl, hlast⟩
        · rw [List.take_left' (length_encode_update p size),
            List.drop_left' (length_encode_update p size)]
          exact hc.update hd hpc rfl
        · -- the quit message is the last, so that nothing follows its two bytes
          obtain ⟨rfl, rfl⟩ := List.append_eq_nil_iff.1 hlast
          rw [List.flatMap_nil, List.append_nil, List.take_of_length_le (by simp [updateLength]),
            List.drop_eq_nil_of_le (by simp [updateLength])]
          exact hc.quit hd hpc

/-- **Every step keeps the cut of the stream.** -/
theorem inv_step {a : Act} (hl : Conversation l) (hi : Inv p l c) (h : c.step a = some t) :
    Inv p l t := by
  cases a with
  | thread =>
      cases hpc : c.pc with
      | read =>
          simp only [step, hpc, Option.some_inj] at h
          exact h ▸ inv_read hl hi hpc
      | stopped => simp [step, hpc] at h
      | start | load =>
          obtain ⟨done, queued, rest, hc⟩ := hi
          simp only [step, hpc, Option.some_inj] at h
          subst h
          refine ⟨done, queued, rest, hc.moved rfl rfl rfl rfl rfl rfl rfl rfl rfl rfl ?_ ?_ ?_ ?_ ?_⟩ <;>
            simp +contextual
      | top =>
          obtain ⟨done, queued, rest, hc⟩ := hi
          simp only [step, hpc, Option.some_inj] at h
          subst h
          refine ⟨done, queued, rest, hc.moved rfl rfl rfl rfl rfl rfl rfl rfl rfl rfl id ?_ ?_ ?_ ?_⟩
          · intro hf
            simp [(hc.open_ hf).2.2.1]
          · dsimp only
            split <;> simp
          · intro hs
            by_contra hf
            obtain ⟨-, -, hq, hack, -⟩ := hc.closed (Bool.eq_false_iff.2 hf)
            simp [hq, hack] at hs
          · intro hf
            obtain ⟨-, -, hq, hack, -⟩ := hc.closed hf
            simp [hq, hack]
      | select =>
          obtain ⟨done, queued, rest, hc⟩ := hi
          simp only [step, hpc, Option.some_inj] at h
          subst h
          refine ⟨done, queued, rest, hc.moved rfl rfl rfl rfl rfl rfl rfl rfl rfl rfl id ?_ ?_ ?_ ?_⟩ <;>
            dsimp only <;> split <;> simp_all
  | selectFailed =>
      obtain ⟨done, queued, rest, hc⟩ := hi
      obtain ⟨hpc, h⟩ := Option.ite_none_right_eq_some.1 h
      obtain rfl := Option.some.inj h
      refine ⟨done, queued, rest, hc.moved rfl rfl rfl rfl rfl rfl rfl rfl rfl rfl id ?_ ?_ ?_ ?_⟩ <;>
        simp
  | arrive =>
      obtain ⟨done, queued, rest, hc⟩ := hi
      simp only [step] at h
      split at h
      · next m coming hm =>
          rw [hc.coming] at hm
          obtain ⟨r, rest, rfl, rfl, rfl⟩ := List.map_eq_cons_iff.1 hm
          obtain rfl := Option.some.inj h
          refine ⟨done, queued ++ [r], rest, ?_⟩
          exact
            { hc with
              whole := by rw [hc.whole]; simp
              avail := by simp [hc.avail]
              coming := rfl
              eof := fun he => absurd (hc.eof he) (by simp)
              read := fun hp => ⟨(hc.read hp).1, Or.inl (by simp [encode_ne_nil])⟩ }
      · next hm =>
          rw [hc.coming] at hm
          obtain rfl := List.map_eq_nil_iff.1 hm
          obtain ⟨-, h⟩ := Option.ite_none_left_eq_some.1 h
          obtain rfl := Option.some.inj h
          refine ⟨done, queued, [], ?_⟩
          exact { hc with eof := fun _ => rfl, read := fun hp => ⟨(hc.read hp).1, Or.inr rfl⟩ }
  | quit =>
      obtain ⟨done, queued, rest, hc⟩ := hi
      obtain rfl := Option.some.inj h
      exact ⟨done, queued, rest, { hc with }⟩

theorem inv_of_exec {as : List Act} (hl : Conversation l)
    (h : exec step (init (l.map p.encode)) as = some c) : Inv p l c :=
  exec_invariant (fun _ _ _ hs hst => inv_step hl hs hst) h (inv_init p l)

/-! ### What the client has done -/

theorem Inv.calls_prefix (hi : Inv p l c) : c.calls <+: script l := by
  obtain ⟨done, queued, rest, hc⟩ := hi
  cases hf : c.fdOpen with
  | true =>
      obtain ⟨-, hcalls, -⟩ := hc.open_ hf
      rw [hcalls, hc.whole, List.append_assoc]
      exact heard_prefix_script
  | false =>
      exact ⟨[], by rw [(hc.closed hf).2.1, List.append_nil]⟩

theorem Inv.reads_prefix (hi : Inv p l c) : c.reads <+: l.map p.encode := by
  obtain ⟨done, queued, rest, hc⟩ := hi
  rw [hc.reads, hc.whole, List.append_assoc, List.map_append]
  exact List.prefix_append _ _

theorem Inv.of_stopped (hi : Inv p l c) (hs : c.pc = .stopped) :
    c.calls = script l ∧ c.reads = l.map p.encode := by
  obtain ⟨done, queued, rest, hc⟩ := hi
  have hf : c.fdOpen = false := Bool.eq_false_iff.2 fun hf => (hc.open_ hf).2.2.2 hs
  obtain ⟨hall, hcalls, -⟩ := hc.closed hf
  exact ⟨hcalls, by rw [hc.reads, hall]⟩

/-! ### The end of the loop -/

/-- A bound on the steps that the thread has still to make when everything has arrived. -/
def rank (c : Client) : ℕ :=
  match c.fdOpen, c.pc with
  | _, .stopped => 0
  | false, .top => 1
  | false, _ => 2
  | true, .read => 4 * (c.avail.length + 1)
  | true, .select => 4 * (c.avail.length + 1) + 1
  | true, .top => 4 * (c.avail.length + 1) + 2
  | true, _ => 4 * (c.avail.length + 1) + 3

/-- Everything that makes the client leave its loop has arrived. -/
def Arrived (l : List (SrvMsg UInt64)) (c : Client) : Prop :=
  c.coming = [] ∧ (c.eof = true ∨ .quit ∈ l)

theorem received_arrived (c : Client) (res : Option (List UInt8)) :
    (c.received res).coming = c.coming ∧ (c.received res).eof = c.eof ∧
      (c.received res).avail = c.avail ∧ (c.received res).pc = .load := by
  rcases res with _ | _ | ⟨b, bs⟩
  · exact ⟨rfl, rfl, rfl, rfl⟩
  · exact ⟨rfl, rfl, rfl, rfl⟩
  · simp only [received, process, acknowledge, Client.disconnect]
    split
    · split
      · exact ⟨rfl, rfl, rfl, rfl⟩
      · split <;> exact ⟨rfl, rfl, rfl, rfl⟩
    · exact ⟨rfl, rfl, rfl, rfl⟩

theorem rank_of_closed (hf : c.fdOpen = false) (hpc : c.pc = .load) : rank c = 2 := by
  simp [rank, hf, hpc]

theorem rank_of_load (hpc : c.pc = .load) : rank c ≤ 4 * (c.avail.length + 1) + 3 := by
  cases hf : c.fdOpen <;> simp [rank, hf, hpc]

/-- Once everything has arrived, every step of the thread brings it closer to the end. -/
theorem rank_lt (hi : Inv p l c) (ha : Arrived l c) (hpc : c.pc ≠ .stopped) :
    ∃ t, c.step .thread = some t ∧ Arrived l t ∧ rank t < rank c := by
  obtain ⟨done, queued, rest, hc⟩ := hi
  cases hp : c.pc with
  | stopped => exact absurd hp hpc
  | start | load =>
      refine ⟨{ c with quit := c.quit || c.quitStored, pc := .top }, by simp only [step, hp], ha, ?_⟩
      cases hf : c.fdOpen <;> simp [rank, hf, hp]
  | top =>
      refine ⟨{ c with pc := if !c.quit || !c.quitAcked then .select else .stopped },
        by simp only [step, hp], ha, ?_⟩
      cases hf : c.fdOpen with
      | true =>
          obtain ⟨-, -, hack, -⟩ := hc.open_ hf
          simp [rank, hf, hp, hack]
      | false =>
          obtain ⟨-, -, hq, hack, -⟩ := hc.closed hf
          simp [rank, hf, hp, hq, hack]
  | select =>
      refine ⟨{ c with pc := if c.fdOpen ∧ (c.avail ≠ [] ∨ c.eof) then .read else .load },
        by simp only [step, hp], ha, ?_⟩
      have hf := hc.select hp
      have hready : c.avail ≠ [] ∨ c.eof = true := by
        rcases ha.2 with he | hq
        · exact Or.inr he
        · -- the quit message has arrived and was not read
          refine Or.inl fun hnil => ?_
          have hrest : rest = [] := by simpa [ha.1] using hc.coming.symm
          have hqueued : queued = [] := by
            rw [hc.avail, List.flatMap_eq_nil_iff] at hnil
            exact List.eq_nil_iff_forall_not_mem.2 fun m hm => encode_ne_nil p m (hnil m hm)
          rw [hc.whole, hrest, hqueued] at hq
          exact (hc.open_ hf).1 (by simpa using hq)
      simp [rank, hf, hp, hready]
  | read =>
      refine ⟨c.readSocket, by simp only [step, hp], ?_⟩
      obtain ⟨hf, hr⟩ := hc.read hp
      rw [readSocket_eq hr rfl]
      set n := if c.connected then updateLength else connectLength with hn
      have hpos : 0 < n := by rw [hn]; split <;> decide
      obtain ⟨h1, h2, h3, h4⟩ :=
        received_arrived { c with avail := c.avail.drop n } (some (c.avail.take n))
      refine ⟨⟨h1.trans ha.1, ha.2.imp (fun h => h2.trans h) id⟩, ?_⟩
      have hrank : rank c = 4 * (c.avail.length + 1) := by simp [rank, hf, hp]
      rw [hrank]
      by_cases hnil : c.avail = []
      · rw [rank_of_closed (by rw [hnil, List.take_nil]; rfl) h4]
        omega
      · have hlen := rank_of_load h4
        have hlt : 0 < c.avail.length := List.length_pos_iff.2 hnil
        rw [h3, List.length_drop] at hlen
        omega

/-- **Once everything has arrived, the thread leaves its loop by its own steps.** -/
theorem exists_stopped (hl : Conversation l) (hi : Inv p l c) (ha : Arrived l c) :
    ∃ n t, exec step c (List.replicate n .thread) = some t ∧ Inv p l t ∧ t.pc = .stopped := by
  induction hr : rank c using Nat.strong_induction_on generalizing c with
  | _ r ih =>
      by_cases hpc : c.pc = .stopped
      · exact ⟨0, c, rfl, hi, hpc⟩
      · obtain ⟨t, ht, hat, hlt⟩ := rank_lt hi ha hpc
        obtain ⟨n, u, hu, hiu, hs⟩ := ih (rank t) (hr ▸ hlt) (inv_step hl hi ht) hat rfl
        exact ⟨n + 1, u, exec_cons_eq_some.2 ⟨t, ht, hu⟩, hiu, hs⟩

end Client

/-! ### The server and the client -/

open SrvMsg

/-- An update is sent on a connection whose acknowledgement was read before. -/
theorem Server.acked_of_update {σ : Type} {s t : Server σ} {a : Server.Act σ} (hi : s.WellFormed)
    (h : s.step a = some t) {c : ℕ} {size : σ} (hu : t.out c = s.out c ++ [.update size]) :
    s.acked c = true := by
  have hack := (hi.step h).streams.acked c size (by rw [hu]; simp)
  have hne : t.out c ≠ s.out c := by rw [hu]; simp
  -- the step that reads an acknowledgement sends nothing
  cases Server.trans_of_step h <;> first | exact hack | exact absurd rfl hne

/-- **The streams of the server, and the client that reads one.**  Whatever the kernel answers and
however the three threads interleave, each connection carries one connect message, then updates,
then at most one quit message, and no update before the acknowledgement was read; a stream stays
one when it is cut at a message boundary.  A client that reads such a stream, under any schedule of
arrivals and reads, takes one whole message at each read and makes the callbacks the stream asks
for; when everything has arrived it leaves its loop, and when it has left its loop it has made all
of them. -/
theorem server_stream_and_decoding {lfd : ℕ} {as : List (Server.Act UInt64)} {s : Server UInt64}
    (h : exec Server.step (Server.init lfd) as = some s) :
    (∀ c, Conversation (s.out c) ∧ (∀ size, .update size ∈ s.out c → s.acked c = true) ∧
      ∀ l, l <+: s.out c → Conversation l) ∧
    (∀ a t, s.step a = some t → ∀ c, s.out c <+: t.out c ∧
      ∀ size, t.out c = s.out c ++ [.update size] → s.acked c = true) ∧
    ∀ (p : ServerSide) (l : List (SrvMsg UInt64)), Conversation l → ∀ (bs : List Client.Act)
      (c : Client), exec Client.step (Client.init (l.map p.encode)) bs = some c →
      c.calls <+: Client.script l ∧ c.reads <+: l.map p.encode ∧
      (c.pc = .stopped → c.calls = Client.script l ∧ c.reads = l.map p.encode) ∧
      (Client.Arrived l c → ∃ n t, exec Client.step c (List.replicate n .thread) = some t ∧
        t.pc = .stopped ∧ t.calls = Client.script l ∧ t.reads = l.map p.encode) := by
  have hwf := Server.wellFormed_of_exec h
  refine ⟨fun c => ⟨hwf.streams.stream c, hwf.streams.acked c, ?_⟩, ?_, ?_⟩
  · rintro l ⟨k, hk⟩
    exact (hk ▸ hwf.streams.stream c).cut
  · exact fun a t ht c => ⟨Server.out_prefix_of_step ht c, fun size => Server.acked_of_update hwf ht⟩
  · intro p l hl bs c hc
    have hi := Client.inv_of_exec hl hc
    refine ⟨hi.calls_prefix, hi.reads_prefix, hi.of_stopped, fun ha => ?_⟩
    obtain ⟨n, t, ht, hit, hs⟩ := Client.exists_stopped hl hi ha
    exact ⟨n, t, ht, hs, hit.of_stopped hs⟩

/-- A client connects and acknowledges, is sent an update, and the server is destroyed. -/
def oneClient : List (Server.Act UInt64) :=
  [.thread .tau, .thread (.select [] true), .thread .tau, .thread (.accept (some 4)),
    .thread (.send true), .thread .tau, .thread (.select [4] false), .thread .tau, .thread .tau,
    .thread .tau, .thread (.read .data), .thread .tau, .thread .tau, .notifyLock 5,
    .notifySend true, .notifyUnlock, .dtorStart, .thread .tau, .dtorJoin, .dtorSend true, .dtorEnd]

/-- A server side that has zeros to send. -/
def zeroSide : ServerSide := ⟨0, Vector.replicate 4096 0, Vector.replicate 6 0, Vector.replicate 6 0⟩

/-- The stream of the one client; what it is told when the three messages have arrived, and it has left its
loop. -/
theorem oneClient_stream :
    ∃ s, exec Server.step (Server.init 3) oneClient = some s ∧
      s.out 0 = [.connect, .update 5, .quit] ∧ Conversation (s.out 0) ∧ s.acked 0 = true ∧
      ∃ c n t, exec Client.step (Client.init ((s.out 0).map zeroSide.encode)) (List.replicate 3 .arrive) =
          some c ∧ exec Client.step c (List.replicate n .thread) = some t ∧ t.pc = .stopped ∧
        t.calls = [.onConnect, .onUpdate 5, .onDisconnect] := by
  obtain ⟨s, hs, hout⟩ : ∃ s, exec Server.step (Server.init 3) oneClient = some s ∧
      s.out 0 = [.connect, .update 5, .quit] := ⟨_, rfl, rfl⟩
  have harrive (a b d : List UInt8) : ∃ c, exec Client.step (Client.init [a, b, d])
      (List.replicate 3 .arrive) = some c ∧ c.coming = [] := ⟨_, rfl, rfl⟩
  obtain ⟨hstream, -, hdecode⟩ := server_stream_and_decoding hs
  obtain ⟨hconv, hack, -⟩ := hstream 0
  refine ⟨s, hs, hout, hconv, hack 5 (by rw [hout]; decide), ?_⟩
  rw [hout] at hconv ⊢
  obtain ⟨c, hc, hcoming⟩ := harrive (zeroSide.encode .connect) (zeroSide.encode (.update 5))
    (zeroSide.encode .quit)
  obtain ⟨-, -, -, hend⟩ := hdecode zeroSide _ hconv _ c hc
  obtain ⟨n, t, ht, hpc, hcalls, -⟩ := hend ⟨hcoming, Or.inr (by decide)⟩
  exact ⟨c, n, t, hc, ht, hpc, hcalls⟩

end Shmdata

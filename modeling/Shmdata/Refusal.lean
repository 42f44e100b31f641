/-
**A refused second writer leaves the first one untouched.**

The constructor of a second writer finds the path in use and returns an invalid writer.  Nothing that its
process does on the way changes the socket file, the segments, the semaphores or the contents of the segment.
The only step that counts for the first writer is the quitting of the inspecting reader, which the server and
the writer of the first party let happen.

Main definitions:

* `Shmdata.System.Keeps` — **the connections of a server over a run**;
* `Shmdata.SecondWriter.Live` — the invariant of the handshake and of the quitting of the inspecting reader;
* `Shmdata.SecondWriter.Waits`, `Shmdata.SecondWriter.Shaken` — the connect message is waited for, or has
  arrived.

Main results:

* `Shmdata.SecondWriter.refused` — **the second writer is refused, and the first one is as it was**.
-/

import Shmdata.SecondWriter

set_option relaxedAutoImplicit false
set_option autoImplicit false

namespace Shmdata

namespace System

variable {s t : System} {a : Act} {r : ℕ}

/-- What the other threads leave to a reader. -/
theorem other_of_step (h : s.step a = some t) (ha : a.reader? ≠ some r) :
    (t.rd r).pc = (s.rd r).pc ∧ (t.rd r).connected = (s.rd r).connected := by
  cases trans_of_step h with
  | @locked op hpc =>
      obtain ⟨w, key, heq, -⟩ := s.locked_eq op
      rw [heq]
      exact ⟨rfl, rfl⟩
  | @take it todo q =>
      by_cases hq : r = q
      · subst hq
        simp
      · simp [Function.update_of_ne hq]
  | attach | receiveConnect | receiveUpdate | receiveQuit | receiveEof | update | readStart | readEnd
  | quit | die =>
      simp only [Act.reader?, ne_eq, Option.some.injEq] at ha
      simp [setRd, Function.update_of_ne (Ne.symm ha)]
  | _ => exact ⟨rfl, rfl⟩

/-- A reader asks to quit in its destructor only. -/
theorem quitSent_of_step (h : s.step a = some t) (ha : a ≠ .quit r) :
    (t.rd r).quitSent = (s.rd r).quitSent := by
  have hset {q : ℕ} {rd : Reader} (hrd : rd.quitSent = (s.rd q).quitSent) :
      (Function.update s.rd q rd r).quitSent = (s.rd r).quitSent :=
    rel_update (P := fun a b => b.quitSent = a.quitSent) (fun _ => rfl) hrd r
  cases trans_of_step h with
  | @locked op hpc =>
      obtain ⟨w, key, heq, -⟩ := s.locked_eq op
      rw [heq]
  | @quit q =>
      refine congrArg Reader.quitSent (Function.update_of_ne ?_ ..)
      rintro rfl
      exact ha rfl
  | take | attach | receiveConnect | receiveUpdate | receiveQuit | receiveEof | update | readStart
  | readEnd | die => exact hset rfl
  | _ => rfl

/-- The segment is attached before anything is received. -/
theorem connected_of_attach (h : s.step (.reader r) = some t) (hpc : (s.rd r).pc = .attach) :
    (t.rd r).connected = (s.rd r).connected := by
  cases trans_of_step h with
  | receiveConnect _ _ hpc' => rw [hpc] at hpc'; cases hpc'
  | attach | receiveUpdate | receiveQuit | receiveEof | update | readStart | readEnd => simp [setRd]

theorem quitSent_of_quit (h : s.step (.quit r) = some t) : (t.rd r).quitSent = true := by
  cases trans_of_step h with
  | quit => simp [setRd]

/-! ### The clients of the first writer -/

/-- While no pass is going on, no connection of a living server has come to its end. -/
theorem Base.not_ended (hb : Base s) (hu : s.srv.pc.locked = false) {fd : ℕ} : ¬ s.srv.Ended fd := by
  rintro (⟨todo, h⟩ | ⟨todo, h, -⟩)
  · rw [h] at hu
    cases hu
  · rw [hb.alive] at h
    cases h

/-- The reader has asked to quit, or its end of the connection is closed. -/
def Departed (s : System) (r : ℕ) : Prop :=
  (s.rd r).quitSent = true ∨ (s.rd r).isOpen = false

theorem Departed.step (hd : s.Departed r) (h : s.step a = some t) : t.Departed r := by
  have hmoves := moves_of_step h r
  refine hd.imp hmoves.quitSent fun hclosed => ?_
  by_contra hopen
  rw [hmoves.isOpen (Bool.not_eq_false _ ▸ hopen)] at hclosed
  cases hclosed

/-- The connections of a server that was in the state `s` and is in the state `t` now: it has closed only those
of readers that have departed, and every other one is still open, at the same descriptor. -/
structure Keeps (s t : System) : Prop where
  departed : ∀ r, t.srv.Gone r → t.Departed r
  conn : ∀ fd r, s.srv.conn fd = some r → t.srv.conn fd = some r ∨ t.srv.closed r = true
  acked : ∀ r, s.srv.acked r = true → t.srv.acked r = true

theorem keeps_init (lfd memsize : ℕ) : Keeps (init lfd memsize) (init lfd memsize) where
  departed := by simp [init, Server.init, Server.Gone]
  conn := fun _ _ h => Or.inl h
  acked := fun _ h => h

namespace Keeps

theorem rebase {s₀ : System} (hk : Keeps s₀ s) : Keeps s s where
  departed := hk.departed
  conn := fun _ _ h => Or.inl h
  acked := fun _ h => h

theorem step {s₀ : System} (hk : Keeps s₀ s) (hb : Base s) (hm : Mail s) (h : s.step a = some t) :
    Keeps s₀ t where
  departed r hg := by
    rcases Crash.gone_of_step h hg with hg | ⟨it, todo, hc, ⟨herr, -⟩ | heof | ⟨hrec, -⟩ | hack⟩
    · exact (hk.departed r hg).step h
    · exact Departed.step (Or.inr (readRes_error_iff.1 herr).1) h
    · exact Departed.step (Or.inr (of_readRes_eof heof).1) h
    · refine Departed.step (Or.inr ?_) h
      by_contra hopen
      have hlive := (Reader.isOpen_iff.1 (Bool.not_eq_false _ ▸ hopen)).1
      rw [(hb.recover it todo r hrec hc).1] at hlive
      cases hlive
    · exact Departed.step (Or.inl (hm.ackQuit it todo r hack hc)) h
  conn fd r hc := by
    obtain heq | ⟨b, -, -, hsrv⟩ := srv_of_step h
    · rw [heq]
      exact hk.conn fd r hc
    · rcases hk.conn fd r hc with hc | hc
      · exact Server.conn_of_step hsrv hc
      · exact Or.inr (Server.closed_of_step hsrv hc)
  acked r hack := acked_of_step h (hk.acked r hack)

end Keeps

/-- A run of the system from its beginning. -/
theorem keeps_of_exec {lfd memsize : ℕ} {as : List Act} (h : Runs.exec step (init lfd memsize) as = some s) :
    Keeps s s := by
  have hall : Base s ∧ Mail s ∧ Keeps (init lfd memsize) s :=
    Runs.exec_invariant (P := fun s => Base s ∧ Mail s ∧ Keeps (init lfd memsize) s)
      (fun _ _ _ hinv hst => by
        obtain ⟨hb, hm, hk⟩ := hinv
        exact ⟨hb.step hst, hm.step hb hst, hk.step hb hm hst⟩) h
      ⟨base_init lfd memsize, mail_init lfd memsize, keeps_init lfd memsize⟩
  exact hall.2.2.rebase

/-- While no pass is going on, the clients are the open connections whose acknowledgement has been read. -/
theorem mem_clients_iff (hb : Base s) (hm : Mail s) (hu : s.srv.pc.locked = false) {fd : ℕ}
    (hc : s.srv.conn fd = some r) : fd ∈ s.srv.clients ↔ s.srv.acked r = true := by
  constructor
  · intro hfd
    have hrm := hb.wf.lists.removed_eq_nil hu
    exact (hb.wf.streams.serving fd r ⟨hfd, Or.inr (by simp [hrm]), hb.not_ended hu, hc⟩).2
  · intro hack
    rcases hm.closes.kept r hack with hclosed | ⟨fd', hfd', hc'⟩
    · rw [hm.closes.opened fd r hc] at hclosed
      cases hclosed
    · rwa [hb.wf.lists.inj fd fd' r hc hc']

/-- A client stays listed until it departs. -/
theorem Keeps.listed (hk : Keeps s t) (hb : Base t) (hm : Mail t) (hu : t.srv.pc.locked = false) {fd : ℕ}
    (hc : s.srv.conn fd = some r) (hack : s.srv.acked r = true) :
    t.Departed r ∨ t.srv.conn fd = some r ∧ fd ∈ t.srv.clients := by
  rcases hk.conn fd r hc with hc | hclosed
  · exact Or.inr ⟨hc, (mem_clients_iff hb hm hu hc).2 (hk.acked r hack)⟩
  · exact Or.inl (hk.departed r (Or.inl hclosed))

end System

/-- What is left of the life of the inspecting reader. -/
def Inspector.left : Inspector → ℕ
  | .started _ => 2
  | .joining _ => 1
  | _ => 0

namespace SecondWriter

open Runs Startup

variable {k : Kernel} {s : System} {t u : SecondWriter}

/-! ### The handshake and the quitting -/

/-- The invariant of the inspecting reader: its client thread is started after the segment is attached, it
asks to quit once, and only when the connect message has arrived. -/
structure Live (t : SecondWriter) : Prop where
  acc : t.sys.Acc
  flow : t.sys.Flow
  attach : ∀ r, t.inspector = .connected r →
    t.ctor.pc = .inspectFtokShm ∨ t.ctor.pc = .inspectShmget ∨ t.ctor.pc = .inspectShmat →
      (t.sys.rd r).pc = .attach
  silent : ∀ r, t.inspector = .connected r → (t.sys.rd r).connected = false
  fresh : ∀ r, t.inspector = .connected r ∨ t.inspector = .started r → (t.sys.rd r).quitSent = false
  connected : t.ctor.pc = .conclude true → ∀ r, t.inspector.id = some r → (t.sys.rd r).connected = true
  asked : ∀ r, t.inspector = .joining r →
    (t.sys.rd r).quitSent = true ∨ (t.sys.rd r).pc = .closed

theorem live_init (ha : s.Acc) (hf : s.Flow) : Live (init k s) where
  acc := ha
  flow := hf
  attach := by simp [init]
  silent := by simp [init]
  fresh := by simp [init]
  connected := by simp [init, Proc.init]
  asked := by simp [init]

namespace Live

/-- A step of the system that does not concern the inspecting reader. -/
theorem other (hv : Live t) (hm : t.sys.Mail) {a : System.Act} {sys : System} (h : t.sys.step a = some sys)
    (hreset : a.isReset = false) (ha : ∀ r, t.inspector.id = some r → a.reader? ≠ some r) (k : Kernel) :
    Live { t with kernel := k, sys := sys } where
  acc := hv.acc.step hreset h
  flow := hv.flow.step hm hv.acc.base h
  attach r hr hpc := (System.other_of_step h (ha r (by rw [hr]; rfl))).1.trans (hv.attach r hr hpc)
  silent r hr := (System.other_of_step h (ha r (by rw [hr]; rfl))).2.trans (hv.silent r hr)
  fresh r hr := by
    have hid : t.inspector.id = some r := by rcases hr with hr | hr <;> rw [hr] <;> rfl
    refine (System.quitSent_of_step h ?_).trans (hv.fresh r hr)
    rintro rfl
    exact ha r hid rfl
  connected hpc r hr := (System.other_of_step h (ha r hr)).2.trans (hv.connected hpc r hr)
  asked r hr := (hv.asked r hr).imp (System.moves_of_step h r).quitSent (System.moves_of_step h r).closed

/-- A step of the client thread of the inspecting reader. -/
theorem client (hv : Live t) (hm : t.sys.Mail) {r : ℕ} (hr : t.inspector = .started r ∨ t.inspector = .joining r)
    {sys : System} (h : t.sys.step (.reader r) = some sys) : Live { t with sys := sys } where
  acc := hv.acc.step rfl h
  flow := hv.flow.step hm hv.acc.base h
  attach q hq := by rcases hr with hr | hr <;> rw [hr] at hq <;> cases hq
  silent q hq := by rcases hr with hr | hr <;> rw [hr] at hq <;> cases hq
  fresh q hq := (System.quitSent_of_step h (by simp)).trans (hv.fresh q hq)
  connected hpc q hq := System.connected_of_step h (hv.connected hpc q hq)
  asked q hq := (hv.asked q hq).imp (System.moves_of_step h q).quitSent (System.moves_of_step h q).closed

/-- The inspecting reader stands where it stood, and the constructor has gone on. -/
theorem called (hv : Live t) (hp : Place k t.ctor t.inspector) (hsys : u.sys = t.sys)
    (hi : u.inspector = t.inspector) (hpc : u.ctor.pc = follows t.ctor.pc)
    (hwait : t.ctor.pc = .inspectWait → ∀ r, t.inspector = .started r → (t.sys.rd r).connected = true) :
    Live u where
  acc := hsys ▸ hv.acc
  flow := hsys ▸ hv.flow
  attach r hr h := by
    rw [hi] at hr
    rw [hsys]
    rw [hpc] at h
    cases ht : t.ctor.pc with
    | inspectConnect => simp [Place, ht, hr] at hp
    | inspectFtokShm | inspectShmget => exact hv.attach r hr (by simp [ht])
    | _ => simp [follows, ht] at h
  silent r hr := by
    rw [hsys]
    exact hv.silent r (hi ▸ hr)
  fresh r hr := by
    rw [hsys]
    exact hv.fresh r (hi ▸ hr)
  connected h r hr := by
    rw [hi] at hr
    rw [hsys]
    rw [hpc] at h
    cases ht : t.ctor.pc with
    | inspectWait =>
        simp only [Place, ht] at hp
        obtain ⟨q, hq⟩ := hp
        obtain rfl : q = r := by simpa [hq] using hr
        exact hwait ht q hq
    | _ => simp [follows, ht] at h
  asked r hr := by
    rw [hsys]
    exact hv.asked r (hi ▸ hr)

theorem ctorStep (hv : Live t) (hi : Inv k s t) (h : Moved t u) : Live u := by
  have hb := hv.acc.base
  cases h with
  | called hsys hins hpc hwait => exact hv.called hi.place hsys hins hpc hwait
  | connect hpc hsys hins hu =>
      have hnew : (u.sys.rd t.sys.nrd) = Reader.init := by
        obtain hsys := Option.some.inj hsys
        rw [← hsys]
        exact (hb.fresh _ le_rfl).1
      exact
        { acc := hv.acc.step rfl hsys
          flow := hv.flow.step hi.mail hb hsys
          attach := fun r hr _ => by
            obtain rfl := Inspector.connected.inj (hins.symm.trans hr)
            rw [hnew]; rfl
          silent := fun r hr => by
            obtain rfl := Inspector.connected.inj (hins.symm.trans hr)
            rw [hnew]; rfl
          fresh := fun r hr => by
            rw [hins] at hr
            obtain rfl : t.sys.nrd = r := by simpa using hr
            rw [hnew]; rfl
          connected := by simp [hu]
          asked := by simp [hins] }
  | @attach r hpc hr hsys hins hu =>
      have hpc' := hv.attach r hr (by simp [hpc])
      exact
        { acc := hv.acc.step rfl hsys
          flow := hv.flow.step hi.mail hb hsys
          attach := by simp [hu]
          silent := fun q hq => by
            obtain rfl := Inspector.connected.inj (hins.symm.trans hq)
            exact (System.connected_of_attach hsys hpc').trans (hv.silent _ hr)
          fresh := fun q hq => by
            rw [hins] at hq
            obtain rfl : r = q := by simpa using hq
            exact (System.quitSent_of_step hsys (by simp)).trans (hv.fresh _ (Or.inl hr))
          connected := by simp [hu]
          asked := by simp [hins] }
  | @start r hpc hr hsys hins hu =>
      exact
        { acc := hsys ▸ hv.acc
          flow := hsys ▸ hv.flow
          attach := by simp [hins]
          silent := by simp [hins]
          fresh := fun q hq => by
            rw [hins] at hq
            obtain rfl : r = q := by simpa using hq
            exact hsys ▸ hv.fresh r (Or.inl hr)
          connected := by simp [hu]
          asked := by simp [hins] }
  | @quit r hr hsys hins hu =>
      exact
        { acc := hv.acc.step rfl hsys
          flow := hv.flow.step hi.mail hb hsys
          attach := by simp [hins]
          silent := by simp [hins]
          fresh := by simp [hins]
          connected := fun hpc q hq => by
            rw [hu] at hpc
            refine System.connected_of_step hsys (hv.connected hpc q ?_)
            rw [hins] at hq
            exact hr ▸ hq
          asked := fun q hq => by
            obtain rfl := Inspector.joining.inj (hins.symm.trans hq)
            exact Or.inl (System.quitSent_of_quit hsys) }
  | @left r hr ho hsys hins hu =>
      exact
        { acc := hsys ▸ hv.acc
          flow := hsys ▸ hv.flow
          attach := by simp [hins]
          silent := by simp [hins]
          fresh := by simp [hins]
          connected := fun hpc q hq => by
            rw [hu] at hpc
            rw [hins] at hq
            exact hsys ▸ hv.connected hpc q (hr ▸ hq)
          asked := fun q hq => by
            obtain rfl := Inspector.joining.inj (hins.symm.trans hq)
            refine Or.inr ?_
            by_contra hne
            rw [hsys] at hne
            rw [Reader.isOpen_iff.2 ⟨(hi.live _ (by simp [hr])).2, hne⟩] at ho
            cases ho }
  | @joined r hr hsys hins hu =>
      exact
        { acc := hsys ▸ hv.acc
          flow := hsys ▸ hv.flow
          attach := by simp [hins]
          silent := by simp [hins]
          fresh := by simp [hins]
          connected := fun hpc q hq => by
            rw [hu] at hpc
            rw [hins] at hq
            exact hsys ▸ hv.connected hpc q (hr ▸ hq)
          asked := by simp [hins] }

/-- **Every step of such a run keeps the invariant.** -/
theorem step (hv : Live t) (hi : Inv k s t) (hk : Registered k) {a : Act} (hs : Serving t a)
    (h : t.step a = some u) : Live u := by
  cases a with
  | first a =>
      simp only [SecondWriter.step] at h
      obtain ⟨hne, h⟩ := Option.ite_none_left_eq_some.1 h
      obtain ⟨sys, hsys, rfl⟩ := Option.map_eq_some_iff.1 h
      refine hv.other hi.mail hsys hs.1 (fun r hr ha => hne ?_) _
      rw [ha, hr]
      simp
  | client =>
      simp only [SecondWriter.step] at h
      split at h
      · next r hr =>
          obtain ⟨sys, hsys, rfl⟩ := Option.map_eq_some_iff.1 h
          exact hv.client hi.mail (Or.inl hr) hsys
      · next r hr =>
          obtain ⟨sys, hsys, rfl⟩ := Option.map_eq_some_iff.1 h
          exact hv.client hi.mail (Or.inr hr) hsys
      · cases h
  | ctor ok => exact hv.ctorStep hi (hi.ctorStep hk hs h).2

end Live

/-! ### The constructor comes to its end -/

/-- The constructor is in `start`, and the connect message has not arrived. -/
def Waits (t : SecondWriter) : Prop :=
  t.ctor.pc = .inspectWait ∧ ∃ r, t.inspector = .started r ∧ (t.sys.rd r).connected = false

/-- The inspecting reader has got the connect message. -/
def Shaken (t : SecondWriter) : Prop :=
  ∃ r, t.inspector.id = some r ∧ (t.sys.rd r).connected = true

/-- `~UnixSocketClient` waits for the client thread. -/
def Joins (t : SecondWriter) : Prop := ∃ r, t.inspector = .joining r ∧ (t.sys.rd r).pc ≠ .closed

/-- The system calls that are left of the constructor. -/
def remaining : Startup.Pc → ℕ
  | .bind => 16
  | .ftokShm => 15
  | .shmget => 14
  | .ftokSem => 13
  | .semget => 12
  | .resetSem => 11
  | .resetShm => 10
  | .resetSrv => 9
  | .inspectConnect => 8
  | .inspectFtokShm => 7
  | .inspectShmget => 6
  | .inspectShmat => 5
  | .inspectFtokSem _ => 4
  | .inspectSemget _ => 3
  | .inspectWait => 2
  | .conclude _ => 1
  | _ => 0

/-- Before it has returned, the constructor goes on, unless it waits for the connect message or for the client
thread. -/
theorem exists_ctor (hi : Inv k s t) (hv : Live t) (hk : Registered k) (hkey : s.key ≠ none)
    (hpc : t.ctor.pc ≠ .invalid) (hw : ¬ Waits t) (hj : ¬ Joins t) :
    ∃ u, Serving t (.ctor true) ∧ t.step (.ctor true) = some u := by
  have hserving : Serving t (.ctor true) := by
    unfold Serving
    dsimp only
    split <;> trivial
  have hplace := hi.place
  have hcall {t : SecondWriter} {i : Inspector} (h : (sysCall t.kernel t.ctor true).isSome = true) :
      ∃ u, t.call true i = some u := by
    obtain ⟨x, hx⟩ := Option.isSome_iff_exists.1 h
    exact ⟨_, by rw [SecondWriter.call, hx]; rfl⟩
  suffices h : ∃ u, t.ctorStep true = some u from h.imp fun u hu => ⟨hserving, hu⟩
  cases hc : t.ctor.pc with
  | inspectConnect =>
      obtain ⟨f, hf, hsock, hlive⟩ := hk.file
      have hany : (t.kernel.file.any fun f => f.isSock && f.live) = true := by
        simp [hi.kernel, hf, hsock, hlive]
      simp only [ctorStep, hc, hany, Bool.and_self, if_true, callWith, System.step, Option.bind_some]
      exact hcall (by simp [sysCall, hc])
  | inspectShmat =>
      simp only [Place, hc] at hplace
      obtain ⟨r, hr⟩ := hplace
      have hlive := hi.live r (by simp [hr])
      have hisSome : t.sys.key.isSome = true := by
        rw [hi.key]
        exact Option.isSome_iff_ne_none.2 hkey
      have hpc := hv.attach r hr (by simp [hc])
      obtain ⟨sys, hsys⟩ : ∃ sys, t.sys.step (.reader r) = some sys := Option.isSome_iff_exists.1 (by
        simp only [System.step, System.readerStep, if_pos hlive, hpc, if_pos hisSome, Option.isSome_some])
      simp only [ctorStep, hc, hr, callWith, hsys, Option.bind_some]
      exact hcall (by simp [sysCall, hc])
  | inspectSemget shm =>
      cases shm with
      | false => exact absurd hplace (by simp [Place, hc])
      | true =>
          simp only [Place, hc] at hplace
          obtain ⟨⟨r, hr⟩, hkey⟩ := hplace
          obtain ⟨id, hid, hpos⟩ := hk.sem
          simp only [ctorStep, hc, hr, hi.kernel, hkey, hid, Option.any_some, hpos, decide_true, Bool.and_self]
          exact hcall (by simp [sysCall, hc])
  | inspectWait =>
      simp only [Place, hc] at hplace
      obtain ⟨r, hr⟩ := hplace
      have hconn : true = (t.sys.rd r).connected := by
        by_contra hne
        exact hw ⟨hc, r, hr, Bool.eq_false_iff.2 fun h => hne h.symm⟩
      simp only [ctorStep, hc, hr, if_pos hconn]
      exact hcall (by simp [sysCall, hc])
  | conclude canRead =>
      cases canRead with
      | false => exact absurd hplace (by simp [Place, hc])
      | true =>
          simp only [Place, hc] at hplace
          simp only [ctorStep, hc]
          obtain ⟨r, hr | hr | hr⟩ := hplace
          · have hlive := hi.live r (by simp [hr])
            have hconn := hv.connected hc r (by simp [hr])
            have hfresh := hv.fresh r (Or.inr hr)
            simp only [leave, hr, Bool.true_and]
            split
            · next ho =>
                have hquit : r < t.sys.nrd ∧ (t.sys.rd r).isOpen = true ∧
                    (t.sys.rd r).connected = true ∧ (t.sys.rd r).quitSent = false :=
                  ⟨hlive.1, ho, hconn, hfresh⟩
                exact Option.isSome_iff_exists.1 (by
                  simp only [inspect, System.step, if_pos hquit, Option.map_some, Option.isSome_some])
            · exact ⟨_, rfl⟩
          · have hclosed : (t.sys.rd r).pc = .closed := by
              by_contra hne
              exact hj ⟨r, hr, hne⟩
            simp only [leave, hr, if_pos hclosed]
            exact ⟨_, rfl⟩
          · simp only [leave, hr]
            exact hcall (by simp [sysCall, hc])
  | bind | ftokShm | shmget | ftokSem | semget | resetSem | resetShm | resetSrv | inspectFtokShm
  | inspectShmget | inspectFtokSem =>
      simp only [ctorStep, hc]
      exact hcall (by simp [sysCall, hc])
  | invalid => exact absurd hc hpc
  | _ => exact absurd hplace (by simp [Place, hc])

/-- A step of the constructor brings it closer to its end. -/
theorem remaining_lt (hi : Inv k s t) (hpc : t.ctor.pc ≠ .invalid) (h : Moved t u) :
    remaining u.ctor.pc < remaining t.ctor.pc ∨
      remaining u.ctor.pc = remaining t.ctor.pc ∧ u.inspector.left < t.inspector.left := by
  cases h with
  | called hsys hins hnext hwait =>
      have hplace := hi.place
      refine Or.inl ?_
      rw [hnext]
      cases hc : t.ctor.pc with
      | invalid => exact absurd hc hpc
      | bind | ftokShm | shmget | ftokSem | semget | resetSem | resetShm | resetSrv | inspectConnect
      | inspectFtokShm | inspectShmget | inspectShmat | inspectFtokSem | inspectSemget | inspectWait
      | conclude => simp [follows, remaining]
      | _ => exact absurd hplace (by simp [Place, hc])
  | connect hc hsys hins hu | attach hc hr hsys hins hu | start hc hr hsys hins hu =>
      exact Or.inl (by rw [hc, hu]; simp [remaining])
  | quit hr hsys hins hu | left hr ho hsys hins hu | joined hr hsys hins hu =>
      exact Or.inr (by rw [hu, hins, hr]; exact ⟨rfl, by simp [Inspector.left]⟩)

/-- The step of the two writers for a step of the first one, or of the client thread of the inspecting
reader. -/
def lift : System.Act → Act
  | .reader _ => .client
  | a => .first a

/-- While the destructor of the inspecting reader waits, the others do their part. -/
theorem exec_lift {r : ℕ} {as : List System.Act} {sys : System} (hl : t.sys.Leaving r)
    (hr : t.inspector = .joining r)
    (h : exec (restrict System.step fun _ => System.Helps r) t.sys as = some sys) :
    exec (restrict step Serving) t (as.map lift) = some { t with sys := sys } := by
  induction as generalizing t with
  | nil =>
      obtain rfl := Option.some.inj h
      rfl
  | cons a as ih =>
      obtain ⟨v, hv, h⟩ := exec_cons_eq_some.1 h
      obtain ⟨ha, hst⟩ := restrict_eq_some.1 hv
      have hkey := (hl.keeps ha hst).1
      have hstep : restrict step Serving t (lift a) = some { t with sys := v } := by
        refine restrict_eq_some.2 ?_
        cases a with
        | reader q =>
            obtain rfl : q = r := ha
            exact ⟨trivial, by simp only [lift, step, hr, inspect, hst, Option.map_some]⟩
        | writer | release | server ev =>
            refine ⟨⟨rfl, by rw [hst]; simpa using hkey⟩, ?_⟩
            simp [lift, step, hst, follow, hkey]
        | _ => cases ha
      exact exec_cons_eq_some.2 ⟨_, hstep, ih (t := { t with sys := v }) (hl.step ha hst) hr h⟩

/-- What the process of the second writer leaves alone. -/
theorem Moved.frame (h : Moved t u) : u.sys.w = t.sys.w ∧ u.sys.key = t.sys.key ∧ u.sys.mem = t.sys.mem ∧
    u.sys.srv = t.sys.srv ∧ ∀ q, t.inspector.id ≠ some q → u.sys.rd q = t.sys.rd q := by
  cases h with
  | called hsys | start _ _ hsys | left _ _ hsys | joined _ hsys =>
      rw [hsys]
      exact ⟨rfl, rfl, rfl, rfl, fun _ _ => rfl⟩
  | connect _ hsys =>
      obtain ⟨h1, h2, h3, h4, h5⟩ := System.of_reader hsys (Or.inr rfl)
      exact ⟨h1, h2, h3, h4, fun q _ => h5 q (by simp)⟩
  | attach _ hr hsys | quit hr hsys =>
      obtain ⟨h1, h2, h3, h4, h5⟩ := System.of_reader hsys (Or.inl (by simp))
      exact ⟨h1, h2, h3, h4, fun q hq => h5 q (by rw [hr] at hq; exact hq)⟩

/-- The connect message has arrived once and for all. -/
theorem Moved.shaken (hp : Place k t.ctor t.inspector) (h : Moved t u) (hs : Shaken t) : Shaken u := by
  obtain ⟨r, hr, hc⟩ := hs
  cases h with
  | called hsys hins => exact ⟨r, hins ▸ hr, hsys ▸ hc⟩
  | connect hpc =>
      simp only [Place, hpc] at hp
      rw [hp] at hr
      cases hr
  | attach _ hq hsys hins | quit hq hsys hins =>
      rw [hq] at hr
      exact ⟨r, hins ▸ hr, System.connected_of_step hsys hc⟩
  | start _ hq hsys hins | left hq _ hsys hins | joined hq hsys hins =>
      rw [hq] at hr
      exact ⟨r, hins ▸ hr, hsys ▸ hc⟩

/-- A step of the two writers is a step of the system, or leaves it as it is. -/
theorem sys_of_step (hi : Inv k s t) (hk : Registered k) {a : Act} (hs : Serving t a)
    (h : t.step a = some u) : u.sys = t.sys ∨ ∃ b, t.sys.step b = some u.sys := by
  have hread {r : ℕ} (h : t.inspect (.reader r) t.inspector = some u) :
      u.sys = t.sys ∨ ∃ b, t.sys.step b = some u.sys := by
    obtain ⟨sys, hsys, rfl⟩ := Option.map_eq_some_iff.1 h
    exact Or.inr ⟨_, hsys⟩
  cases a with
  | first a =>
      obtain ⟨-, h⟩ := Option.ite_none_left_eq_some.1 h
      obtain ⟨sys, hsys, rfl⟩ := Option.map_eq_some_iff.1 h
      exact Or.inr ⟨a, hsys⟩
  | client =>
      simp only [SecondWriter.step] at h
      split at h
      · exact hread h
      · exact hread h
      · cases h
  | ctor ok =>
      cases (hi.ctorStep hk hs h).2 with
      | called hsys | start _ _ hsys | left _ _ hsys | joined _ hsys => exact Or.inl hsys
      | connect _ hsys | attach _ _ hsys | quit _ hsys => exact Or.inr ⟨_, hsys⟩

/-- The inspecting reader that is waited for has asked to quit. -/
theorem leaving_of_joins (hi : Inv k s t) (hv : Live t) (hkey : s.key ≠ none) (hfits : t.sys.PendingFits) {r : ℕ}
    (hr : t.inspector = .joining r) (hpc : (t.sys.rd r).pc ≠ .closed) :
    t.sys.Leaving r ∧ t.ctor.pc = .conclude true := by
  have hplace := hi.place
  have hid : t.inspector.id = some r := by rw [hr]; rfl
  have hctor : t.ctor.pc = .conclude true := by
    unfold Place at hplace
    split at hplace <;> first | assumption | simp [hr] at hplace
  exact
    ⟨{ acc := hv.acc
       mail := hi.mail
       flow := hv.flow
       key := hi.key ▸ hkey
       fits := hfits
       lt := (hi.live r hid).1
       alive := (hi.live r hid).2
       connected := hv.connected hctor r hid
       sent := (hv.asked r hr).resolve_right hpc }, hctor⟩

/-- **The constructor comes to its end**, unless it waits for a connect message that has not arrived. -/
theorem ends (hi : Inv k s t) (hv : Live t) (hk : Registered k) (hkey : s.key ≠ none)
    (hfits : t.sys.PendingFits) :
    ∃ bs u, exec (restrict step Serving) t bs = some u ∧
      (u.ctor.pc = .invalid ∨ Waits u ∧ ¬ Shaken t) := by
  obtain ⟨bs, v, hrun, ⟨hi, hv, hfits, hshaken⟩, hq⟩ :
      ∃ bs v, exec (restrict step Serving) t bs = some v ∧
        (Inv k s v ∧ Live v ∧ v.sys.PendingFits ∧ (Shaken t → Shaken v)) ∧
          (v.ctor.pc = .invalid ∨ Waits v ∨ Joins v) := by
    refine exec_of_rank (fun v => toLex (remaining v.ctor.pc, v.inspector.left))
      (fun v ⟨hi, hv, hfits, hsh⟩ hnq => ?_) ⟨hi, hv, hfits, id⟩
    simp only [not_or] at hnq
    obtain ⟨u, hs, hst⟩ := exists_ctor hi hv hk hkey hnq.1 hnq.2.1 hnq.2.2
    obtain ⟨hu, hmoved⟩ := hi.ctorStep hk hs hst
    obtain ⟨hw, -, hmem, -⟩ := hmoved.frame
    refine ⟨.ctor true, u, restrict_eq_some.2 ⟨hs, hst⟩,
      ⟨hu, hv.ctorStep hi hmoved, ?_, fun h => hmoved.shaken hi.place (hsh h)⟩, ?_⟩
    · intro op hop
      rw [hw] at hop
      exact (System.fits_congr hw hmem op).2 (hfits op hop)
    · rcases remaining_lt hi hnq.1 hmoved with h | ⟨h1, h2⟩
      · exact Prod.Lex.left _ _ h
      · rw [h1]
        exact Prod.Lex.right _ h2
  rcases hq with hpc | hw | ⟨r, hr, hpc⟩
  · exact ⟨bs, v, hrun, Or.inl hpc⟩
  · refine ⟨bs, v, hrun, Or.inr ⟨hw, fun h => ?_⟩⟩
    obtain ⟨-, r, hr, hc⟩ := hw
    obtain ⟨q, hq, hcq⟩ := hshaken h
    obtain rfl : r = q := by simpa [hr] using hq
    rw [hc] at hcq
    cases hcq
  · -- the client thread comes to its end, then the reader is destroyed and the constructor returns
    obtain ⟨hleaving, hctor⟩ := leaving_of_joins hi hv hkey hfits hr hpc
    obtain ⟨as, sys, hsys, -, hclosed⟩ := hleaving.closes
    have hlift := exec_lift hleaving hr hsys
    have h1 : restrict step Serving { v with sys := sys } (.ctor true) =
        some { v with sys := sys, inspector := .gone r } :=
      restrict_eq_some.2
        ⟨by simp [Serving, hctor], by simp [step, SecondWriter.ctorStep, hctor, leave, hr, hclosed]⟩
    have h2 : restrict step Serving { v with sys := sys, inspector := .gone r } (.ctor true) =
        some { v with sys := sys, inspector := .gone r, ctor := { v.ctor with pc := .invalid } } :=
      restrict_eq_some.2 ⟨by simp [Serving, hctor],
        by simp [step, SecondWriter.ctorStep, hctor, leave, call, sysCall]⟩
    have hend : exec (restrict step Serving) { v with sys := sys } [.ctor true, .ctor true] = some _ :=
      exec_cons_eq_some.2 ⟨_, h1, exec_cons_eq_some.2 ⟨_, h2, rfl⟩⟩
    exact ⟨bs ++ (as.map lift ++ [.ctor true, .ctor true]), _,
      exec_append_eq_some.2 ⟨v, hrun, exec_append_eq_some.2 ⟨_, hlift, hend⟩⟩, Or.inl rfl⟩

/-! ### The theorem -/

/-- The first writer of a run that began with the kernel `k` and the system `s`, when the two writers have come
to `t`: the kernel has the same socket file, segments and semaphores; the first writer has the same segment,
and semaphore `0` counts as exactly as before; no step of the other process concerns the writer, the contents
of its segment, its server and its readers; and of an inspecting reader that has gone nothing is left.  The
clients of the first writer are the readers that have acknowledged, and each of them is listed under its
descriptor for as long as it neither asks to quit nor closes its socket. -/
structure Untouched (k : Kernel) (s : System) (t : SecondWriter) : Prop where
  kernel : t.kernel = k
  segment : t.sys.key = s.key
  count : t.sys.debt = s.debt
  frame : ∀ a u, a.second = true → Serving t a → t.step a = some u →
    u.kernel = k ∧ u.sys.w = t.sys.w ∧ u.sys.key = s.key ∧ u.sys.mem = t.sys.mem ∧ u.sys.srv = t.sys.srv ∧
      ∀ q, t.inspector.id ≠ some q → u.sys.rd q = t.sys.rd q
  reads : ∀ r, t.inspector = .gone r →
    t.sys.committed r = t.sys.released r ∧ t.sys.cancelled r = 0
  clients : ∀ r, t.inspector = .gone r → t.sys.srv.pc.locked = false →
    ∀ fd, fd ∈ t.sys.srv.clients ∨ fd ∈ t.sys.srv.pendingClients → t.sys.srv.conn fd ≠ some r
  listed : t.sys.srv.pc.locked = false → ∀ fd q, t.sys.srv.conn fd = some q →
    (fd ∈ t.sys.srv.clients ↔ t.sys.srv.acked q = true)
  others : t.sys.srv.pc.locked = false → ∀ fd q, s.srv.conn fd = some q → s.srv.acked q = true →
    t.sys.Departed q ∨ t.sys.srv.conn fd = some q ∧ fd ∈ t.sys.srv.clients

namespace Inv

/-- A step of the process of the second writer. -/
theorem second_step (hi : Inv k s t) (hk : Registered k) {a : Act} (ha : a.second = true) (hs : Serving t a)
    (h : t.step a = some u) :
    u.sys.w = t.sys.w ∧ u.sys.key = t.sys.key ∧ u.sys.mem = t.sys.mem ∧ u.sys.srv = t.sys.srv ∧
      ∀ q, t.inspector.id ≠ some q → u.sys.rd q = t.sys.rd q := by
  have hread {r : ℕ} (hr : t.inspector.id = some r) (h : t.inspect (.reader r) t.inspector = some u) :
      u.sys.w = t.sys.w ∧ u.sys.key = t.sys.key ∧ u.sys.mem = t.sys.mem ∧ u.sys.srv = t.sys.srv ∧
        ∀ q, t.inspector.id ≠ some q → u.sys.rd q = t.sys.rd q := by
    obtain ⟨sys, hsys, rfl⟩ := Option.map_eq_some_iff.1 h
    obtain ⟨h1, h2, h3, h4, h5⟩ := System.of_reader hsys (Or.inl (by simp))
    exact ⟨h1, h2, h3, h4, fun q hq => h5 q (by rw [hr] at hq; exact hq)⟩
  cases a with
  | first a => cases ha
  | client =>
      simp only [SecondWriter.step] at h
      split at h
      · next r hr => exact hread (by rw [hr]; rfl) h
      · next r hr => exact hread (by rw [hr]; rfl) h
      · cases h
  | ctor ok => exact (hi.ctorStep hk hs h).2.frame

/-- Of a reader that has gone no read is left over. -/
theorem reads (hi : Inv k s t) {r : ℕ} (hr : t.inspector = .gone r) :
    t.sys.committed r = t.sys.released r ∧ t.sys.cancelled r = 0 := by
  have hpc := hi.gone r hr
  have hload : t.sys.load r = 0 := by
    rw [System.load, hpc, System.unread, hi.base.closed r hpc, List.drop_length]
    rfl
  obtain ⟨hcommitted, -⟩ := hi.base.released_le r
  refine ⟨by omega, ?_⟩
  by_contra hne
  have hdead := hi.base.cancelled r (Nat.pos_of_ne_zero hne)
  rw [(hi.live r (by rw [hr]; rfl)).2] at hdead
  cases hdead

/-- A reader that has gone is not listed any more. -/
theorem not_listed (hi : Inv k s t) {r : ℕ} (hr : t.inspector = .gone r)
    (hu : t.sys.srv.pc.locked = false) {fd : ℕ}
    (hfd : fd ∈ t.sys.srv.clients ∨ fd ∈ t.sys.srv.pendingClients) : t.sys.srv.conn fd ≠ some r := by
  intro hc
  have hrm := hi.base.wf.lists.removed_eq_nil hu
  have hquit : .quit ∈ t.sys.srv.out r := by
    rcases hi.mail.left r (hi.gone r hr) with h | h
    · rw [hi.mail.closes.opened fd r hc] at h
      cases h
    · exact h
  rcases hfd with hfd | hfd
  · obtain ⟨sizes, hout⟩ := (hi.base.wf.streams.serving fd r
      ⟨hfd, Or.inr (by simp [hrm]), hi.base.not_ended hu, hc⟩).1
    rw [hout] at hquit
    simp at hquit
  · rw [(hi.base.wf.streams.waiting fd r ⟨hfd, by simp [hrm], hc⟩).1] at hquit
    simp at hquit

end Inv

/-- The connections of the first writer in a run of the two writers. -/
theorem keeps_of_exec (hk : Registered k) {bs : List Act}
    (h : exec (restrict step Serving) (init k s) bs = some t) (hinit : Inv k s (init k s))
    (hkeeps : s.Keeps s) : s.Keeps t.sys := by
  have hall : Inv k s t ∧ s.Keeps t.sys :=
    exec_invariant (P := fun t => Inv k s t ∧ s.Keeps t.sys)
      (fun _ _ _ hinv hst => by
        obtain ⟨hi, hkeeps⟩ := hinv
        obtain ⟨hs, hst⟩ := restrict_eq_some.1 hst
        refine ⟨hi.step hk hs hst, ?_⟩
        rcases sys_of_step hi hk hs hst with heq | ⟨b, hb⟩
        · rw [heq]
          exact hkeeps
        · exact hkeeps.step hi.base hi.mail hb) h ⟨hinit, hkeeps⟩
  exact hall.2

/-- **The second writer is refused, and the first one is untouched.**  The constructor never returns a valid
writer, and when it has returned the inspecting reader has gone.  It can return, whatever has happened so far,
once the handshake of the inspecting reader is done, provided that no reset of the first writer has ever fired
and that the frame being written fits into the segment. -/
theorem refused {lfd memsize : ℕ} {as : List System.Act} {s : System} {k : Kernel} {bs : List Act}
    {t : SecondWriter} (hs : exec System.step (System.init lfd memsize) as = some s) (hk : Registered k)
    (h : exec (restrict step Serving) (init k s) bs = some t) :
    Untouched k s t ∧ (∀ b, t.ctor.pc ≠ .valid b) ∧ (t.ctor.pc = .invalid → ∃ r, t.inspector = .gone r) ∧
      (exec (restrict System.step System.InTime) (System.init lfd memsize) as = some s → s.key ≠ none →
        t.sys.PendingFits → ∃ cs u, exec (restrict step Serving) t cs = some u ∧
          (u.ctor.pc = .invalid ∨ Waits u ∧ ¬ Shaken t)) := by
  have hinit : Inv k s (init k s) := inv_init (System.base_of_exec hs) (System.mail_of_exec hs)
  have hi : Inv k s t := exec_invariant
    (fun _ _ _ hi hst => hi.step hk (restrict_eq_some.1 hst).1 (restrict_eq_some.1 hst).2) h hinit
  have hkeeps := keeps_of_exec hk h hinit (System.keeps_of_exec hs)
  refine ⟨?_, fun b hpc => ?_, fun hpc => ?_, fun hs hkey hfits => ?_⟩
  · exact
      { kernel := hi.kernel
        segment := hi.key
        count := hi.debt
        frame := fun a u ha hserving hst => by
          obtain ⟨h1, h2, h3, h4, h5⟩ := hi.second_step hk ha hserving hst
          exact ⟨(hi.step hk hserving hst).kernel, h1, h2.trans hi.key, h3, h4, h5⟩
        reads := fun r => hi.reads
        clients := fun r hr hu fd => hi.not_listed hr hu
        listed := fun hu fd q hc => System.mem_clients_iff hi.base hi.mail hu hc
        others := fun hu fd q hc hack => hkeeps.listed hi.base hi.mail hu hc hack }
  · have hplace := hi.place
    simp [Place, hpc] at hplace
  · have hplace := hi.place
    simpa only [Place, hpc] using hplace
  · have hflow : s.Acc ∧ s.Mail ∧ s.Flow :=
      exec_invariant (P := fun s => System.Acc s ∧ System.Mail s ∧ System.Flow s)
        (fun _ _ _ hinv hst => by
          obtain ⟨ha, hm, hf⟩ := hinv
          obtain ⟨htime, hst⟩ := restrict_eq_some.1 hst
          exact ⟨ha.step htime hst, hm.step ha.base hst, hf.step hm ha.base hst⟩) hs
        ⟨System.acc_init lfd memsize, System.mail_init lfd memsize, System.flow_init lfd memsize⟩
    have hv : Inv k s t ∧ Live t := exec_invariant (P := fun t => Inv k s t ∧ Live t)
      (fun _ _ _ hinv hst => by
        obtain ⟨hi, hv⟩ := hinv
        obtain ⟨hserving, hst⟩ := restrict_eq_some.1 hst
        exact ⟨hi.step hk hserving hst, hv.step hi hk hserving hst⟩) h
      ⟨hinit, live_init hflow.1 hflow.2.2⟩
    exact ends hv.1 hv.2 hk hkey hfits

/-- A path in use: the socket of the first writer, its segment and its semaphore. -/
def usedKernel : Kernel where
  file := some ⟨0, true, true⟩
  nextIno := 1
  sems := ⟨fun key => if key = some (0, 'm') then some 1 else none, 2⟩
  shms := ⟨fun key => if key = some (0, 'n') then some 1 else none, 2⟩
  fresh := by simp

/-- The constructor of the second writer comes to the inspection, the first writer accepts the inspecting
reader and writes a frame of one byte that is notified to it, and the reader quits with its read committed. -/
def inspectedFrame : List Act :=
  List.replicate 14 (.ctor true) ++
    ([.first (.server .tau), .first (.server (.select [] true)), .first (.server .tau),
      .first (.server (.accept (some 4))), .first (.server (.send true)), .client, .ctor true,
      .first (.server .tau), .first (.server (.select [4] false)), .first (.server .tau),
      .first (.server .tau), .first (.server .tau), .first (.server (.read .data)), .first (.server .tau),
      .first (.server .tau), .first (.call (.copyToShm [1]))] : List Act) ++
    List.replicate 6 (.first .writer) ++ [.ctor true, .client] ++ List.replicate 2 (.first .writer) ++
    ([.client, .client, .client, .first (.server .tau), .first (.server (.select [4] false)),
      .first (.server .tau), .first (.server (.read .data)), .first (.server (.send true)),
      .first (.server .tau), .first (.server .tau), .first (.server .tau), .first (.server .tau),
      .first (.server .tau), .client, .ctor true, .ctor true] : List Act)

theorem inspectedFrame_refused :
    ∃ t, exec (restrict step Serving) (init usedKernel (System.init 3 1)) inspectedFrame = some t ∧
      t.ctor.pc = .invalid ∧ t.sys.committed 0 = 1 ∧ Untouched usedKernel (System.init 3 1) t := by
  have hrun : ((exec (restrict step Serving) (init usedKernel (System.init 3 1)) inspectedFrame).any
      fun t => t.ctor.pc = .invalid ∧ t.sys.committed 0 = 1) = true := by
    decide +kernel
  obtain ⟨t, ht, hrun⟩ := (Option.any_eq_true _ _).1 hrun
  obtain ⟨hpc, hc⟩ := of_decide_eq_true hrun
  have hk : Registered usedKernel := ⟨⟨_, rfl, rfl, rfl⟩, ⟨1, rfl⟩, ⟨1, rfl, Nat.one_pos⟩⟩
  have hs : exec System.step (System.init 3 1) [] = some (System.init 3 1) := rfl
  exact ⟨t, ht, hpc, hc, (refused hs hk ht).1⟩

end SecondWriter

end Shmdata

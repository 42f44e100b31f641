/-
**The segments of the writer.**

The writer recreates its segment in five of its functions, and always under the lock, before it sends
an update.  So while a reader has an update to deal with the writer keeps the segment that was current
when the update was sent, the key of the path leads to it, and once the lock is released it holds the
bytes of the frame.  The accounts of the runs without a reset say that nobody has an update when the
next segment is made.

Main definitions:

* `Shmdata.System.Ordered` — no reset fires, and `shm_resize` comes before `notify_clients`;
* `Shmdata.System.Segs` — **the invariant of the segments**.

Main results:

* `Shmdata.System.Segs.step` — every step of such a run keeps it.
-/

import Shmdata.Accounting
import Shmdata.Mailbox

set_option relaxedAutoImplicit false
set_option autoImplicit false

namespace Shmdata

/-- The frame of the notification under way, until its bytes are written or handed to the user. -/
@[simp] def Writer.Pc.next? : Writer.Pc → Option Writer.Next
  | .notifying next | .commit _ next => some next
  | .memcpy data => some (.copy data)
  | _ => none

/-- The writer is between `shm_.reset()` and the new segment. -/
@[simp] def Writer.Pc.creating : Writer.Pc → Bool
  | .create _ _ => true
  | _ => false

namespace System

open SysV Semops Runs

variable {s t : System}

/-- No reset fires, and an access is resized only before it has notified. -/
def Ordered (s : System) : Act → Prop
  | .reset => False
  | .shmResize _ => s.w.hasNotified = false
  | _ => True

/-- A live reader has an update to deal with. -/
def Pending (s : System) : Prop := ∃ r, (s.rd r).dead = false ∧ 0 < s.load r

/-- The bytes of the current frame are in its segment. -/
def Written (s : System) : Prop :=
  ∀ d, s.frame.data = some d → (s.mem s.frame.seg).take d.length = d

/-- The invariant of the segments. -/
structure Segs (s : System) : Prop where
  key : s.w.pc.creating = false → s.key = some s.w.shm
  lt : s.w.shm < s.nseg ∧ s.frame.seg < s.nseg
  length : (s.mem s.w.shm).length = s.w.shmSize ∧ s.w.allocSize = s.w.shmSize
  create : ∀ size, s.w.pc = .create size .access → s.w.hasNotified = false
  creates : ∀ size data, s.w.pc = .create size (.copy data) → size = data.length
  notify : ∀ size data, s.w.pc = .notify size (.copy data) →
    size = data.length ∧ data.length ≤ s.w.shmSize
  notifying : ∀ size todo, s.srv.notify = some (size, todo) →
    size = s.frame.size ∧ ∃ next, s.w.pc = .notifying next
  current : ∀ next, s.w.pc.next? = some next →
    s.frame.seg = s.w.shm ∧ s.frame.data = next.data
  fits : ∀ data, s.w.pc.next? = some (.copy data) → data.length ≤ s.w.shmSize
  access : s.w.pc = .access → s.w.hasNotified = true → s.frame.data = none
  size : ∀ d, s.frame.data = some d → s.frame.size = d.length
  pending : Pending s → s.frame.seg = s.w.shm
  written : s.w.pc.held = false ∨ s.w.pc = .writeEnd → Pending s → Written s

theorem segs_init (lfd memsize : ℕ) : Segs (init lfd memsize) where
  key := by simp [init]
  lt := by simp [init]
  length := by simp [init]
  create := by simp [init]
  creates := by simp [init]
  notify := by simp [init]
  notifying := by simp [init, Server.init]
  current := by simp [init]
  fits := by simp [init]
  access := by simp [init]
  size := by simp [init]
  pending := by simp [init]
  written := by simp [init, Written]

/-- Under the lock, before the first update is sent, no live reader has one. -/
theorem Acc.not_pending (ha : Acc s) (he : s.w.early = true) (hu : s.w.pc.uncommitted = false) :
    ¬ Pending s := by
  rintro ⟨r, hd, hpos⟩
  have hload := ha.load_of_early he (Base.batch_of_not_uncommitted hu r)
  rw [hload] at hpos
  have := ha.base.cancelled r hpos
  rw [hd] at this
  cases this

namespace Segs

/-- A step outside the writer's thread, after which nobody has an update who had none. -/
theorem congr (hs : Segs s) (h1 : t.w = s.w) (h2 : t.key = s.key) (h3 : t.nseg = s.nseg)
    (h4 : t.mem = s.mem) (h5 : t.frame = s.frame) (h6 : t.srv.notify = s.srv.notify)
    (hp : Pending t → Pending s) : Segs t where
  key := by rw [h1, h2]; exact hs.key
  lt := by rw [h1, h3, h5]; exact hs.lt
  length := by rw [h1, h4]; exact hs.length
  create := by rw [h1]; exact hs.create
  creates := by rw [h1]; exact hs.creates
  notify := by rw [h1]; exact hs.notify
  notifying := by rw [h1, h5, h6]; exact hs.notifying
  current := by rw [h1, h5]; exact hs.current
  fits := by rw [h1]; exact hs.fits
  access := by rw [h1, h5]; exact hs.access
  size := by rw [h5]; exact hs.size
  pending h := by rw [h1, h5]; exact hs.pending (hp h)
  written hpc h := by
    rw [h1] at hpc
    rw [Written, h4, h5]
    exact hs.written hpc (hp h)

theorem notify_none (hs : Segs s) (h : ∀ next, s.w.pc ≠ .notifying next) : s.srv.notify = none := by
  cases hn : s.srv.notify with
  | none => rfl
  | some p =>
      obtain ⟨-, next, hpc⟩ := hs.notifying p.1 p.2 hn
      exact absurd hpc (h next)

/-- A step of the writer's thread outside notification that leaves the segments alone. -/
theorem moved (hs : Segs s) (h1 : t.srv = s.srv) (h2 : t.rd = s.rd) (h3 : t.nseg = s.nseg)
    (h4 : t.mem = s.mem) (h5 : t.frame = s.frame) (h6 : t.w.shm = s.w.shm)
    (h7 : t.w.shmSize = s.w.shmSize) (h8 : t.w.allocSize = s.w.allocSize)
    (hnotifying : s.srv.notify = none) (hkey : t.w.pc.creating = false → t.key = some s.w.shm)
    (hcreate : ∀ size, t.w.pc = .create size .access → t.w.hasNotified = false)
    (hcreates : ∀ size data, t.w.pc = .create size (.copy data) → size = data.length)
    (hnotify : ∀ size data, t.w.pc = .notify size (.copy data) →
      size = data.length ∧ data.length ≤ s.w.shmSize)
    (hnext : ∀ next, t.w.pc.next? = some next → s.w.pc.next? = some next)
    (haccess : t.w.pc = .access → t.w.hasNotified = true → s.frame.data = none)
    (hwritten : t.w.pc.held = false ∨ t.w.pc = .writeEnd → Pending s → Written s) : Segs t := by
  have hp : Pending t → Pending s := by
    rintro ⟨r, hd, hl⟩
    refine ⟨r, h2 ▸ hd, ?_⟩
    rwa [System.load, System.unread, h1, h2] at hl
  exact
    { key := fun h => by rw [hkey h, h6]
      lt := by rw [h3, h5, h6]; exact hs.lt
      length := by rw [h4, h6, h7, h8]; exact hs.length
      create := hcreate
      creates := hcreates
      notify := by rw [h7]; exact hnotify
      notifying := fun size todo h => by
        rw [h1, hnotifying] at h
        cases h
      current := fun next h => by rw [h5, h6]; exact hs.current next (hnext next h)
      fits := fun data h => by rw [h7]; exact hs.fits data (hnext _ h)
      access := by rw [h5]; exact haccess
      size := by rw [h5]; exact hs.size
      pending := fun h => by rw [h5, h6]; exact hs.pending (hp h)
      written := fun hpc h => by
        rw [Written, h4, h5]
        exact hwritten hpc (hp h) }

/-- What follows the acquisition of the lock. -/
theorem locked (hs : Segs s) (ha : Acc s) {op : Writer.Op} (hpc : s.w.pc = .locked op) :
    Segs (s.locked op) := by
  have hkey := hs.key (by rw [hpc]; rfl)
  have hn := hs.notify_none (by simp [hpc])
  have hnp : ¬ Pending s := ha.not_pending (by simp [hpc]) (by rw [hpc]; rfl)
  cases op with
  | copyToShm data =>
      simp only [System.locked]
      split
      · exact hs.moved rfl rfl rfl rfl rfl rfl rfl rfl hn (by simp [removeSegment])
          (by simp [removeSegment]) (by simp [removeSegment]) (by simp [removeSegment])
          (by simp [removeSegment]) (by simp [removeSegment]) (fun _ h => absurd h hnp)
      · next hle =>
          refine hs.moved rfl rfl rfl rfl rfl rfl rfl rfl hn (fun _ => hkey) (by simp) (by simp)
            (fun size d h => ?_) (by simp) (by simp) (fun _ h => absurd h hnp)
          obtain ⟨rfl, rfl⟩ : data.length = size ∧ data = d := by simpa using h
          exact ⟨rfl, not_lt.1 hle⟩
  | getOneWriteAccess =>
      exact hs.moved rfl rfl rfl rfl rfl rfl rfl rfl hn (fun _ => hkey) (by simp [System.locked])
        (by simp [System.locked]) (by simp [System.locked]) (by simp [System.locked])
        (by simp [System.locked]) (fun _ h => absurd h hnp)
  | getOneWriteAccessResize newSize =>
      simp only [System.locked]
      split
      · exact hs.moved rfl rfl rfl rfl rfl rfl rfl rfl hn (by simp [removeSegment])
          (by simp [removeSegment]) (by simp [removeSegment]) (by simp [removeSegment])
          (by simp [removeSegment]) (by simp [removeSegment]) (fun _ h => absurd h hnp)
      · next heq =>
          rw [not_not] at heq
          have hsize : newSize = s.w.shmSize := heq.symm.trans hs.length.1
          exact hs.moved rfl rfl rfl rfl rfl rfl hsize (hsize.trans hs.length.2.symm) hn
            (fun _ => hkey) (by simp) (by simp) (by simp) (by simp) (by simp)
            (fun _ h => absurd h hnp)
  | getOneWriteAccessPtrResize newSize =>
      exact hs.moved rfl rfl rfl rfl rfl rfl rfl rfl hn (by simp [System.locked, removeSegment])
        (by simp [System.locked, removeSegment]) (by simp [System.locked, removeSegment])
        (by simp [System.locked, removeSegment]) (by simp [System.locked, removeSegment])
        (by simp [System.locked, removeSegment]) (fun _ h => absurd h hnp)

/-- A new segment, made while nobody has an update. -/
theorem createSegment (hs : Segs s) (ha : Acc s) {size : ℕ} {next : Writer.Next}
    (hpc : s.w.pc = .create size next) : Segs (s.createSegment size next) := by
  have hn := hs.notify_none (by simp [hpc])
  have he : s.w.early = true := by
    cases next with
    | copy data => simp [hpc]
    | access => simp [hpc, hs.create size hpc]
  have hnp : ¬ Pending s := ha.not_pending he (by rw [hpc]; rfl)
  exact
    { key := fun _ => rfl
      lt := ⟨Nat.lt_succ_self _, hs.lt.2.trans (Nat.lt_succ_self _)⟩
      length := by simp [System.createSegment]
      create := by cases next <;> simp [System.createSegment]
      creates := by cases next <;> simp [System.createSegment]
      notify := fun n d h => by
        cases next with
        | copy data =>
            obtain ⟨rfl, rfl⟩ : data.length = n ∧ data = d := by
              simpa [System.createSegment] using h
            exact ⟨rfl, (hs.creates size data hpc).ge⟩
        | access => simp [System.createSegment] at h
      notifying := fun n todo h => by
        rw [show (s.createSegment size next).srv = s.srv from rfl, hn] at h
        cases h
      current := by cases next <;> simp [System.createSegment]
      fits := by cases next <;> simp [System.createSegment]
      access := fun h hf => by
        cases next with
        | copy data => simp [System.createSegment] at h
        | access => exact absurd (hs.create size hpc) (by simpa [System.createSegment] using hf)
      size := hs.size
      pending := fun h => absurd h hnp
      written := fun _ h => absurd h hnp }

/-- `notify_update` begins: the frame gets the current segment. -/
theorem notifyLock (hs : Segs s) {size : ℕ} {next : Writer.Next} {srv : Server ℕ}
    (hpc : s.w.pc = .notify size next) (h : s.srv.step (.notifyLock size) = some srv) :
    Segs (s.notifyLock size next srv) := by
  have hkey := hs.key (by rw [hpc]; rfl)
  cases Server.trans_of_step h with
  | notifyLock hl hn hd =>
      exact
        { key := fun _ => hkey
          lt := ⟨hs.lt.1, hs.lt.1⟩
          length := hs.length
          create := by simp [System.notifyLock]
          creates := by simp [System.notifyLock]
          notify := by simp [System.notifyLock]
          notifying := fun size' todo h => by
            obtain ⟨rfl, -⟩ : size = size' ∧ s.srv.clients = todo := by
              simpa [System.notifyLock] using h
            exact ⟨rfl, next, rfl⟩
          current := fun next' h => by
            obtain rfl : next = next' := by simpa [System.notifyLock] using h
            exact ⟨rfl, rfl⟩
          fits := fun data h => by
            obtain rfl : next = .copy data := by simpa [System.notifyLock] using h
            exact (hs.notify size data hpc).2
          access := by simp [System.notifyLock]
          size := fun d h => by
            cases next with
            | copy data =>
                obtain rfl : data = d := by simpa [System.notifyLock, Writer.Next.data] using h
                exact (hs.notify size data hpc).1
            | access => simp [System.notifyLock, Writer.Next.data] at h
          pending := fun _ => rfl
          written := by simp [System.notifyLock] }

/-- One update is sent, or a send fails. -/
theorem notifySend (hs : Segs s) {next : Writer.Next} {srv : Server ℕ} {ok : Bool} {l : List ℕ}
    (hpc : s.w.pc = .notifying next) (h : s.srv.step (.notifySend ok) = some srv) :
    Segs { s with srv := srv, notified := l } := by
  cases Server.trans_of_step h with
  | @notifySend size it todo _ hn =>
      exact
        { hs with
          notifying := fun size' todo' h => by
            obtain ⟨rfl, -⟩ : size = size' ∧ todo = todo' := by simpa using h
            exact ⟨(hs.notifying size (it :: todo) hn).1, next, hpc⟩
          pending := fun _ => (hs.current next (by rw [hpc]; rfl)).1
          written := by simp [hpc] }

theorem notifyUnlock (hs : Segs s) {next : Writer.Next} {srv : Server ℕ} {num : ℤ}
    (hpc : s.w.pc = .notifying next) (h : s.srv.step .notifyUnlock = some srv) :
    Segs { s with srv := srv, w := { s.w with pc := .commit num next } } := by
  have hkey := hs.key (by rw [hpc]; rfl)
  have hcur := hs.current next (by rw [hpc]; rfl)
  have hfits := hs.fits
  rw [hpc] at hfits
  cases Server.trans_of_step h with
  | notifyUnlock hn =>
      exact
        { hs with
          key := fun _ => hkey
          create := by simp
          creates := by simp
          notify := by simp
          notifying := by simp
          current := fun next' h => by
            obtain rfl : next = next' := by simpa using h
            exact hcur
          fits := hfits
          access := by simp
          written := by simp }

/-- After `commit_readers` the frame is written, or the user goes on with the access. -/
theorem committed (hs : Segs s) {num : ℤ} {next : Writer.Next} {f c : ℕ → ℕ}
    (hpc : s.w.pc = .commit num next) :
    Segs { s with sem := f, committed := c, w := { s.w with pc := next.pc } } := by
  have hkey := hs.key (by rw [hpc]; rfl)
  have hn := hs.notify_none (by simp [hpc])
  obtain ⟨-, hdata⟩ := hs.current next (by rw [hpc]; rfl)
  cases next with
  | copy data =>
      exact hs.moved rfl rfl rfl rfl rfl rfl rfl rfl hn (fun _ => hkey) (by simp [Writer.Next.pc])
        (by simp [Writer.Next.pc]) (by simp [Writer.Next.pc]) (by simp [Writer.Next.pc, hpc])
        (by simp [Writer.Next.pc]) (by simp [Writer.Next.pc])
  | access =>
      exact hs.moved rfl rfl rfl rfl rfl rfl rfl rfl hn (fun _ => hkey) (by simp [Writer.Next.pc])
        (by simp [Writer.Next.pc]) (by simp [Writer.Next.pc]) (by simp [Writer.Next.pc])
        (fun _ _ => hdata) (by simp [Writer.Next.pc])

/-- The bytes of the frame are written. -/
theorem memcpy (hs : Segs s) {data : List UInt8} (hpc : s.w.pc = .memcpy data) :
    Segs { s with
      mem := Function.update s.mem s.w.shm (Bytes.fill (s.mem s.w.shm) data)
      w := { s.w with pc := .writeEnd } } := by
  have hkey := hs.key (by rw [hpc]; rfl)
  have hn := hs.notify_none (by simp [hpc])
  obtain ⟨hseg, hdata⟩ := hs.current (.copy data) (by rw [hpc]; rfl)
  have hfits := hs.fits data (by rw [hpc]; rfl)
  have hlen : (Function.update s.mem s.w.shm (Bytes.fill (s.mem s.w.shm) data) s.w.shm).length =
      (s.mem s.w.shm).length := by
    rw [Function.update_self, Bytes.length_fill (hs.length.1.symm ▸ hfits)]
  exact
    { hs with
      key := fun _ => hkey
      length := ⟨hlen.trans hs.length.1, hs.length.2⟩
      create := by simp
      creates := by simp
      notify := by simp
      notifying := fun size todo h => by
        rw [show s.srv.notify = _ from h] at hn
        cases hn
      current := by simp
      fits := by simp
      access := by simp
      written := fun _ _ d hd => by
        obtain rfl : data = d := Option.some.inj (hdata.symm.trans hd)
        show (Function.update s.mem s.w.shm _ s.frame.seg).take data.length = data
        rw [hseg, Function.update_self, Bytes.take_fill] }

/-- The user writes through `mem_`. -/
theorem write (hs : Segs s) {bytes : List UInt8} (hpc : s.w.pc = .access)
    (hb : bytes.length = (s.mem s.w.mem).length) :
    Segs { s with mem := Function.update s.mem s.w.mem bytes } := by
  have hlen : (Function.update s.mem s.w.mem bytes s.w.shm).length = (s.mem s.w.shm).length := by
    by_cases h : s.w.shm = s.w.mem
    · rw [h, Function.update_self, hb]
    · rw [Function.update_of_ne h]
  exact
    { hs with
      length := ⟨hlen.trans hs.length.1, hs.length.2⟩
      written := by simp [hpc] }

/-- **Every step of an ordered run keeps the segments.** -/
theorem step {a : Act} (hs : Segs s) (ha : Acc s) (ho : Ordered s a) (h : s.step a = some t) :
    Segs t := by
  -- outside `notify_update` nobody gets an update
  have hpend (hn : ∀ next, s.w.pc = .notifying next → a ≠ .writer) : Pending t → Pending s := by
    rintro ⟨r, hd, hl⟩
    refine ⟨r, ?_, hl.trans_le (load_le_of_step ha.base h hn r)⟩
    by_contra hne
    rw [((moves_of_step h r).dead (Bool.not_eq_false _ ▸ hne)).1] at hd
    cases hd
  cases trans_of_step h with
  | call hpc =>
      have hkey := hs.key (by rw [hpc]; rfl)
      exact hs.moved rfl rfl rfl rfl rfl rfl rfl rfl (hs.notify_none (by simp [hpc]))
        (fun _ => hkey) (by simp) (by simp) (by simp) (by simp) (by simp)
        (fun _ => hs.written (Or.inl (by rw [hpc]; rfl)))
  | writeStart hpc hf =>
      have hkey := hs.key (by rw [hpc]; rfl)
      exact hs.moved rfl rfl rfl rfl rfl rfl rfl rfl (hs.notify_none (by simp [hpc]))
        (fun _ => hkey) (by simp) (by simp) (by simp) (by simp) (by simp) (by simp)
  | locked hpc => exact hs.locked ha hpc
  | create hpc => exact hs.createSegment ha hpc
  | notifyLock hpc hsrv => exact hs.notifyLock hpc hsrv
  | notifySend hpc hn hsrv => exact hs.notifySend hpc hsrv
  | notifyUnlock hpc hsrv => exact hs.notifyUnlock hpc hsrv
  | commit hpc hn hf => exact hs.committed hpc
  | commitNone hpc hn => exact hs.committed hpc
  | memcpy hpc => exact hs.memcpy hpc
  | writeEnd hpc hf =>
      have hkey := hs.key (by rw [hpc]; rfl)
      exact hs.moved rfl rfl rfl rfl rfl rfl rfl rfl (hs.notify_none (by simp [hpc]))
        (fun _ => hkey) (by simp) (by simp) (by simp) (by simp) (by simp)
        (fun _ => hs.written (Or.inr hpc))
  | reset hpc => cases ho
  | shmResize hpc =>
      have hnp := ha.not_pending (by simp [hpc, show s.w.hasNotified = false from ho])
        (by rw [hpc]; rfl)
      exact hs.moved rfl rfl rfl rfl rfl rfl rfl rfl (hs.notify_none (by simp [hpc]))
        (by simp [removeSegment]) (fun _ _ => ho) (by simp [removeSegment])
        (by simp [removeSegment]) (by simp [removeSegment]) (by simp [removeSegment])
        (fun _ h => absurd h hnp)
  | notifyIgnored hpc hn => exact hs
  | notifyClients hpc hn =>
      have hkey := hs.key (by rw [hpc]; rfl)
      exact hs.moved rfl rfl rfl rfl rfl rfl rfl rfl (hs.notify_none (by simp [hpc]))
        (fun _ => hkey) (by simp) (by simp) (by simp) (by simp) (by simp) (by simp)
  | write hpc hb => exact hs.write hpc hb
  | release hpc =>
      have hkey := hs.key (by rw [hpc]; rfl)
      refine hs.moved rfl rfl rfl rfl rfl rfl rfl rfl (hs.notify_none (by simp [hpc]))
        (fun _ => hkey) (by simp) (by simp) (by simp) (by simp) (by simp) (fun _ hp => ?_)
      -- an access that has notified is for a frame without recorded bytes
      cases hn : s.w.hasNotified with
      | false => exact absurd hp (ha.not_pending (by simp [hpc, hn]) (by rw [hpc]; rfl))
      | true =>
          intro d hd
          rw [hs.access hpc hn] at hd
          cases hd
  | server hk hsrv hsp =>
      exact hs.congr rfl rfl rfl rfl rfl (Server.thread_frame hsrv).1 (hpend (by simp))
  | take hpc hr hd hsrv =>
      exact hs.congr rfl rfl rfl rfl rfl (Server.thread_frame hsrv).1 (hpend (by simp))
  | cancel hpc hf hsrv =>
      exact hs.congr rfl rfl rfl rfl rfl (Server.thread_frame hsrv).1 (hpend (by simp))
  | _ => exact hs.congr rfl rfl rfl rfl rfl rfl (hpend (by simp))

end Segs

end System

end Shmdata

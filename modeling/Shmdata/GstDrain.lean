/-
**The pipeline behind a `shmdatasrc` drains.**

`gst_shmdata_src_on_data` keeps the `ReadLock` until the frame is rendered, and with it the writer.  It does so
for a finite time, as long as the caps are accepted and buffers are released downstream: from every state of
the orderly runs the threads of the element have steps after which `on_data` has returned.  So whatever the
writer, the server and the readers can do without the element they can do with it, with some steps of the
element in between; and what they can do by themselves brings the system to rest.  Then nothing is under way,
and the pipeline has been given everything that was announced since its reader became a client.

Main definitions:

* `Shmdata.GstShmdataSrc.Rendered` — the flag of a frame that is rendered is set;
* `Shmdata.GstShmdataSrc.rank` — how far `on_data` is from its return.

Main results:

* `Shmdata.GstShmdataSrc.Lively.returns` — **`on_data` returns**;
* `Shmdata.GstShmdataSrc.Lively.follow` — **the element holds nobody up**: it follows every run of the
  writer's side;
* `Shmdata.GstShmdataSrc.copyToShm_drains` — **what `copy_to_shm` was called with reaches the pipeline**.
-/

import Shmdata.GstTransfer
import Shmdata.Quiescence

set_option relaxedAutoImplicit false
set_option autoImplicit false

namespace Shmdata

open Runs
open Broadcast (Channel)

namespace GstShmdataSrc

variable {e e' : GstShmdataSrc} {b : Act}

/-! ### The flag of a frame that is rendered -/

/-- The streaming thread is behind the place where the data of a frame are taken, or has none. -/
@[simp] def Create.past : Create → Bool
  | .idle | .wait | .first none | .clear none => true
  | _ => false

/-- The flag is set for a frame whose data were copied, or whose buffer was released. -/
def Rendered (e : GstShmdataSrc) : Prop :=
  e.reader = .waiting → e.onData = false → e.streaming.past = true → e.downstream = [] →
    e.dataRendered = true

theorem rendered_init (copyBuffers playing : Bool) : (init copyBuffers playing).Rendered :=
  fun h => OnData.noConfusion h

/-- Nothing is asked of an element whose frame is still at hand. -/
theorem rendered_of (h : e.reader = .waiting → e.onData = false → e.streaming.past = true →
    e.downstream ≠ []) : e.Rendered :=
  fun h1 h2 h3 h4 => absurd h4 (h h1 h2 h3)

/-- The buffer of a frame is handed out, or none when the frame was copied. -/
theorem Rendered.handOut (hr : e.Rendered) {outbuf : Option ℕ}
    (hpc : e.streaming = .first outbuf ∨ e.streaming = .clear outbuf) (isFirstRead : Bool) :
    (GstShmdataSrc.handOut { e with isFirstRead := isFirstRead } outbuf).Rendered := by
  cases outbuf with
  | none => exact fun h1 h2 _ h4 => hr h1 h2 (by rcases hpc with hpc | hpc <;> rw [hpc] <;> rfl) h4
  | some n => exact rendered_of fun _ _ _ h => by cases h

/-- The steps of the streaming thread, one for each place where it is. -/
theorem Rendered.create (hr : e.Rendered) {setCaps : Bool} (h : e.create setCaps = some e') :
    e'.Rendered := by
  unfold GstShmdataSrc.create at h
  cases hpc : e.streaming with
  | idle =>
      simp only [hpc, Option.some_inj] at h
      subst h
      split
      · exact hr
      · exact fun h1 h2 _ h4 => hr h1 h2 (by rw [hpc]; rfl) h4
  | wait =>
      simp only [hpc] at h
      split at h
      · obtain rfl := Option.some.inj h
        exact rendered_of fun _ _ h => by cases h
      · obtain ⟨-, h⟩ := Option.ite_none_right_eq_some.1 h
        obtain rfl := Option.some.inj h
        exact rendered_of fun _ _ h => by cases h
  | flush =>
      simp only [hpc, Option.some_inj] at h
      subst h
      exact fun _ _ _ _ => rfl
  | caps =>
      simp only [hpc, Option.some_inj] at h
      subst h
      split
      · cases setCaps <;> exact rendered_of fun _ _ h => by cases h
      · exact rendered_of fun _ _ h => by cases h
  | failed => simp only [hpc] at h; cases h
  | wrap =>
      simp only [hpc, Option.some_inj] at h
      subst h
      split <;> exact rendered_of fun _ _ h => by cases h
  | copied =>
      simp only [hpc, Option.some_inj] at h
      subst h
      exact fun _ _ _ _ => rfl
  | first outbuf =>
      simp only [hpc, Option.some_inj] at h
      subst h
      split
      · exact fun _ _ _ _ => rfl
      · exact hr.handOut (Or.inl hpc) e.isFirstRead
  | clear outbuf =>
      simp only [hpc, Option.some_inj] at h
      subst h
      exact hr.handOut (Or.inr hpc) false

theorem Rendered.step (hr : e.Rendered) (hok : Orderly e b) (h : e.step b = some e') : e'.Rendered := by
  cases b with
  | onBuffer size =>
      obtain ⟨-, h⟩ := Option.ite_none_right_eq_some.1 h
      obtain rfl := Option.some.inj h
      split
      · exact hr
      · exact rendered_of fun h => by cases h
  | publish =>
      simp only [GstShmdataSrc.step] at h
      split at h
      · obtain ⟨-, h⟩ := Option.ite_none_left_eq_some.1 h
        obtain rfl := Option.some.inj h
        exact rendered_of fun _ h => by cases h
      · cases h
  | leave =>
      obtain ⟨-, h⟩ := Option.ite_none_right_eq_some.1 h
      obtain rfl := Option.some.inj h
      exact rendered_of fun h => by cases h
  | connect caps =>
      obtain ⟨-, h⟩ := Option.ite_none_right_eq_some.1 h
      obtain rfl := Option.some.inj h
      exact hr
  | create setCaps => exact hr.create h
  | release n =>
      obtain ⟨-, h⟩ := Option.ite_none_right_eq_some.1 h
      obtain rfl := Option.some.inj h
      exact fun _ _ _ _ => rfl
  | unlock | unlockStop | pausedToReady => exact absurd hok.1 id

/-! ### `on_data` returns -/

/-- How far the streaming thread is from waiting for a frame. -/
@[simp] def Create.back : Create → ℕ
  | .first _ => 3
  | .clear _ => 2
  | .idle => 1
  | _ => 0

/-- How far the frame at hand is from being rendered, once the streaming thread has it. -/
def ahead (e : GstShmdataSrc) : ℕ :=
  match e.streaming with
  | .caps | .failed => 8
  | .wrap => 7
  | .copied => 6
  | .first _ => 5
  | .clear _ => 4
  | .idle | .wait | .flush => 1 + e.downstream.length

/-- How far `on_data` is from its return. -/
def rank (e : GstShmdataSrc) : ℕ :=
  match e.reader with
  | .idle => 0
  | .called _ => 20 + e.streaming.back
  | .waiting => if e.onData then 10 + e.streaming.back else e.ahead

/-- A step inside the element, which is not disturbed. -/
def Inside (e : GstShmdataSrc) (b : Act) : Prop := b.isCallback = false ∧ Orderly e b

instance (e : GstShmdataSrc) (b : Act) : Decidable (Inside e b) := inferInstanceAs (Decidable (_ ∧ _))

/-- The invariant of an element whose caps were accepted. -/
structure Lively (e : GstShmdataSrc) : Prop where
  handed : e.Handed
  rendered : e.Rendered
  accepted : e.streaming ≠ .failed

namespace Lively

/-- The streaming thread moves on. -/
theorem of_create (hl : Lively e) (h : e.create true = some e') :
    Inside e (.create true) ∧ e.step (.create true) = some e' ∧ Lively e' := by
  have hok : Orderly e (.create true) := ⟨trivial, fun h => by cases h⟩
  refine ⟨⟨rfl, hok⟩, h, hl.handed.step hok h, hl.rendered.create h, fun hf => ?_⟩
  unfold GstShmdataSrc.create at h
  split at h
  · split at h <;> obtain rfl := Option.some.inj h
    · exact hl.accepted hf
    · cases hf
  · split at h
    · obtain rfl := Option.some.inj h
      cases hf
    · obtain ⟨-, h⟩ := Option.ite_none_right_eq_some.1 h
      obtain rfl := Option.some.inj h
      cases hf
  · obtain rfl := Option.some.inj h
    cases hf
  · split at h <;> obtain rfl := Option.some.inj h <;> cases hf
  · cases h
  · split at h <;> obtain rfl := Option.some.inj h <;> cases hf
  · obtain rfl := Option.some.inj h
    cases hf
  · split at h <;> obtain rfl := Option.some.inj h <;> cases hf
  · obtain rfl := Option.some.inj h
    cases hf

/-- Nothing is taken yet: the streaming thread comes to the place where it takes the frame. -/
theorem exists_back (hl : Lively e) (hspent : e.Spent) (hpos : 0 < e.streaming.back) :
    ∃ e', e.create true = some e' ∧ e'.reader = e.reader ∧ e'.onData = e.onData ∧
      e'.streaming.back < e.streaming.back := by
  unfold GstShmdataSrc.create
  cases hpc : e.streaming with
  | idle =>
      refine ⟨_, rfl, ?_⟩
      rw [if_neg (by rw [hl.handed.unlocked]; exact Bool.false_ne_true)]
      exact ⟨rfl, rfl, Nat.one_pos⟩
  | first outbuf =>
      cases outbuf with
      | none =>
          refine ⟨_, rfl, ?_⟩
          have hfirst : e.isFirstRead = false := by rwa [Spent, hpc] at hspent
          rw [if_neg (by rw [hfirst]; exact Bool.false_ne_true)]
          exact ⟨rfl, rfl, by simp [handOut]⟩
      | some n => simp [Spent, hpc] at hspent
  | clear outbuf => exact ⟨_, rfl, rfl, rfl, by simp [handOut]⟩
  | wait | flush | caps | failed | wrap | copied => simp [hpc] at hpos

/-- The frame at hand comes closer to being rendered, or `on_data` leaves its wait. -/
theorem exists_ahead (hl : Lively e) (hw : e.reader = .waiting) (hon : e.onData = false) :
    ∃ b e', Inside e b ∧ e.step b = some e' ∧ Lively e' ∧ e'.rank < e.rank := by
  obtain ⟨hcur, hstage⟩ := hl.handed.stage hw
  have hrank : e.rank = e.ahead := by rw [rank, hw, hon]; rfl
  have hcreate {e' : GstShmdataSrc} (h : e.create true = some e') (hr : e'.reader = .waiting)
      (ho : e'.onData = false) (hlt : e'.ahead < e.ahead) :
      ∃ b e', Inside e b ∧ e.step b = some e' ∧ Lively e' ∧ e'.rank < e.rank := by
    obtain ⟨hin, hst, hl'⟩ := hl.of_create h
    refine ⟨_, e', hin, hst, hl', ?_⟩
    rw [hrank, rank, hr, ho]
    exact hlt
  simp only [Stage, hon, Bool.false_eq_true, if_false] at hstage
  cases hpc : e.streaming with
  | flush => simp [hpc] at hstage
  | failed => exact absurd hpc hl.accepted
  | caps =>
      simp only [hpc] at hstage
      refine hcreate (by rw [GstShmdataSrc.create, hpc]) ?_ ?_ ?_
      · split <;> exact hw
      · split <;> exact hon
      · split <;> simp [ahead, hpc]
  | wrap =>
      simp only [hpc] at hstage
      refine hcreate (by rw [GstShmdataSrc.create, hpc]) ?_ ?_ ?_
      · split <;> exact hw
      · split <;> exact hon
      · split <;> simp [ahead, hpc]
  | copied =>
      refine hcreate (by rw [GstShmdataSrc.create, hpc]) ?_ ?_ ?_
      · exact hw
      · exact hon
      · simp [ahead, hpc]
  | first outbuf =>
      refine hcreate (by rw [GstShmdataSrc.create, hpc]) ?_ ?_ ?_
      · split <;> exact hw
      · split <;> exact hon
      · cases outbuf <;> simp only [hpc] at hstage <;> split <;> simp [ahead, handOut, hpc, hstage]
  | clear outbuf =>
      refine hcreate (by rw [GstShmdataSrc.create, hpc]) ?_ ?_ ?_
      · exact hw
      · exact hon
      · cases outbuf <;> simp only [hpc] at hstage <;> simp [ahead, handOut, hpc, hstage]
  | idle | wait =>
      simp only [hpc] at hstage
      obtain ⟨hfirst, hcases⟩ := hstage
      by_cases hdown : e.downstream = []
      · -- the frame is rendered, and `on_data` leaves its wait
        have hset : e.dataRendered = true := hl.rendered hw hon (by rw [hpc]; rfl) hdown
        have hheeded : Orderly e .leave := by
          refine ⟨trivial, fun _ h0 => ?_⟩
          split
          · exact Or.inl hfirst
          · next hcopy =>
              rcases hcases with ⟨hc, -⟩ | ⟨-, hrel, -⟩ | ⟨-, hd, -⟩
              · exact absurd hc hcopy
              · exact h0 ▸ hrel
              · rw [hdown] at hd
                cases hd
        have hst : e.step .leave = some { e with
            dataRendered := false
            reader := .idle
            frame := e.frame + 1 } := if_pos ⟨hw, hset⟩
        refine ⟨.leave, _, ⟨rfl, hheeded⟩, hst, ⟨hl.handed.step hheeded hst, hl.rendered.step hheeded hst,
          hl.accepted⟩, ?_⟩
        rw [hrank]
        simp [rank, ahead, hpc]
      · -- a buffer is released downstream
        obtain ⟨n, down, hd⟩ := List.exists_cons_of_ne_nil hdown
        have hok : Orderly e (.release n) := ⟨trivial, fun h => by cases h⟩
        have hst : e.step (.release n) = some { e with
            downstream := e.downstream.erase n
            released := n :: e.released
            dataRendered := true } := if_pos (by rw [hd]; exact List.mem_cons_self)
        refine ⟨.release n, _, ⟨rfl, hok⟩, hst, ⟨hl.handed.step hok hst, hl.rendered.step hok hst,
          hl.accepted⟩, ?_⟩
        rw [hrank]
        simp [rank, ahead, hw, hon, hpc, hd]

/-- As long as `on_data` has not returned there is a step that brings its return closer. -/
theorem exists_step (hl : Lively e) (hidle : e.reader ≠ .idle) :
    ∃ b e', Inside e b ∧ e.step b = some e' ∧ Lively e' ∧ e'.rank < e.rank := by
  have hcreate (hspent : e.Spent) (hpos : 0 < e.streaming.back)
      (hr : e.reader ≠ .waiting ∨ e.onData = true) :
      ∃ b e', Inside e b ∧ e.step b = some e' ∧ Lively e' ∧ e'.rank < e.rank := by
    obtain ⟨e', h, hreader, hon, hlt⟩ := hl.exists_back hspent hpos
    obtain ⟨hin, hst, hl'⟩ := hl.of_create h
    refine ⟨_, e', hin, hst, hl', ?_⟩
    rw [rank, rank, hreader, hon]
    cases hr' : e.reader with
    | idle => exact absurd hr' hidle
    | called size => exact Nat.add_lt_add_left hlt 20
    | waiting =>
        rw [hr.resolve_left fun h => h hr', if_pos rfl, if_pos rfl]
        exact Nat.add_lt_add_left hlt 10
  have hwait (hspent : e.Spent) (hback : ¬ 0 < e.streaming.back) : e.streaming = .wait := by
    rw [Spent] at hspent
    cases hpc : e.streaming <;> simp [hpc] at hspent hback ⊢
  cases hr : e.reader with
  | idle => exact absurd hr hidle
  | called size =>
      obtain ⟨hspent, -⟩ := hl.handed.quiet (by rw [hr]; exact OnData.noConfusion)
      by_cases hback : 0 < e.streaming.back
      · exact hcreate hspent hback (Or.inl (by rw [hr]; exact OnData.noConfusion))
      · have hpc := hwait hspent hback
        have hok : Orderly e .publish := ⟨trivial, fun h => by cases h⟩
        have hst : e.step .publish = some (e.publish size) := by
          simp only [step, hr, hpc, Create.locks, Bool.false_eq_true, if_false]
        refine ⟨.publish, _, ⟨rfl, hok⟩, hst, ⟨hl.handed.step hok hst, hl.rendered.step hok hst,
          hl.accepted⟩, ?_⟩
        simp [rank, publish, hr, hpc]
  | waiting =>
      cases hon : e.onData with
      | false => exact hl.exists_ahead hr hon
      | true =>
          have hstage := (hl.handed.stage hr).2
          rw [Stage, if_pos hon] at hstage
          by_cases hback : 0 < e.streaming.back
          · exact hcreate hstage.1 hback (Or.inr hon)
          · have hpc := hwait hstage.1 hback
            obtain ⟨e', he'⟩ : ∃ e', e.create true = some e' ∧ e' = { e with
                onData := false
                streaming := .caps } := by
              simp [GstShmdataSrc.create, hpc, hl.handed.unlocked, hon]
            obtain ⟨hin, hst, hl'⟩ := hl.of_create he'.1
            refine ⟨_, e', hin, hst, hl', ?_⟩
            rw [he'.2]
            simp [rank, ahead, hr, hon, hpc]

/-- **`on_data` returns**: from every state the threads of the element, and whoever releases the buffers
downstream, have steps that lead there. -/
theorem returns (hl : Lively e) : ∃ bs e', exec (restrict GstShmdataSrc.step Inside) e bs = some e' ∧
    Lively e' ∧ e'.reader = .idle := by
  refine exec_of_rank (P := Lively) rank (fun e hl hidle => ?_) hl
  obtain ⟨b, e', hin, hst, hl', hlt⟩ := hl.exists_step hidle
  exact ⟨b, e', restrict_eq_some.2 ⟨hin, hst⟩, hl', hlt⟩

end Lively

/-! ### The element follows -/

variable {σ α : Type} {H : ReaderHost σ α} {ok : σ → α → Prop} [∀ s a, Decidable (ok s a)] {r : ℕ}
  {s t : σ} {out : List (List UInt8)}

/-- The element takes its steps while the writer's side stands still. -/
theorem together_of_inside (hd : ((H.sys s).rd r).dead = false) {bs : List Act}
    (h : exec (restrict step Inside) e bs = some e') :
    exec (together H ok r) (s, e) (bs.map .right) = some (s, e') := by
  induction bs generalizing e with
  | nil =>
      obtain rfl := Option.some.inj h
      rfl
  | cons b bs ih =>
      obtain ⟨u, hu, h⟩ := exec_cons_eq_some.1 h
      obtain ⟨⟨hcall, hok⟩, hst⟩ := restrict_eq_some.1 hu
      have hright : together H ok r (s, e) (.right b) = some (s, u) :=
        restrict_eq_some.2 ⟨⟨hd, hcall, hok⟩, by rw [both, hst]; rfl⟩
      exact exec_cons_eq_some.2 ⟨(s, u), hright, ih h⟩

/-- A step of the writer's side when `on_data` has returned, with the callback that it begins. -/
theorem exists_together (hl : Lively e) {a : α} (ha : ok s a) (hreset : H.isReset a = false)
    (hst : H.step s a = some t)
    (hidle : H.client? a = some r → e.reader = .idle)
    (hsize : H.client? a = some r → ∀ size, ((H.sys s).rd r).pc = .readStart size →
      size < UInt64.size) :
    ∃ c e', together H ok r (s, e) c = some (t, e') ∧ c.left? = some a ∧ Lively e' := by
  by_cases hc : H.client? a = some r ∧ (H.sys s).callsBack r = true
  · -- the callback and its first step go together
    obtain ⟨hclient, hcalls⟩ := hc
    have hjoin {b : Act} {e' : GstShmdataSrc} (hb : Begins (H.sys s) r b) (he : e.step b = some e') :
        together H ok r (s, e) (.both a b) = some (t, e') :=
      restrict_eq_some.2 ⟨⟨ha, hclient, hb⟩, by simp only [both, hst, he, Option.bind_some, Option.map_some]⟩
    have hreader := hidle hclient
    unfold System.callsBack at hcalls
    split at hcalls
    · next size hpc =>
        have he : e.step (.onBuffer (.ofNat size)) = some { e with reader := .called (.ofNat size) } := by
          simp only [step, if_pos hreader, hl.handed.stopRead, Bool.false_eq_true, if_false]
        have hb : Begins (H.sys s) r (.onBuffer (.ofNat size)) := by
          rw [Begins, hpc, UInt64.toNat_ofNat_of_lt' (hsize hclient size hpc)]
        refine ⟨.both a (.onBuffer (.ofNat size)), _, hjoin hb he, rfl, hl.handed.onBuffer he, ?_, hl.accepted⟩
        exact rendered_of fun h => by cases h
    · next hpc =>
        have he : e.step (.connect true) = some { e with hasNewCaps := e.hasNewCaps || true } :=
          if_pos hreader
        exact ⟨.both a (.connect true), _, hjoin ⟨hpc, of_decide_eq_true hcalls⟩ he, rfl,
          hl.handed.connect he, hl.rendered, hl.accepted⟩
    · cases hcalls
  · refine ⟨.left a, e, restrict_eq_some.2 ⟨⟨ha, hreset, fun hclient => ?_⟩, by rw [both, hst]; rfl⟩,
      rfl, hl⟩
    exact ⟨hidle hclient, Bool.eq_false_iff.2 fun hcalls => hc ⟨hclient, hcalls⟩⟩

/-- The invariant holds along a run from any state that satisfies it. -/
theorem exists_transfer {p q : σ × GstShmdataSrc} {cs : List (Joint α Act)}
    (h : exec (together H ok r) p cs = some q) (ht : Transfer (H.sys p.1) r p.2 out) :
    ∃ out, Transfer (H.sys q.1) r q.2 out := by
  refine exec_invariant (P := fun p => ∃ out, Transfer (H.sys p.1) r p.2 out) (fun p c q hp hst => ?_) h
    ⟨out, ht⟩
  obtain ⟨out, ht⟩ := hp
  exact ⟨_, ht.step (restrict_eq_some.1 hst).1 (restrict_eq_some.1 hst).2⟩

/-- The client thread moves only while its process lives. -/
theorem dead_of_client {a : α} (hst : H.step s a = some t) (hclient : H.client? a = some r) :
    ((H.sys s).rd r).dead = false := by
  rcases H.moves hst with ⟨-, hnone⟩ | ⟨b, hb, hcl, -⟩
  · rw [hnone] at hclient
    cases hclient
  · obtain rfl := System.eq_of_client? (hcl.trans hclient)
    exact (Option.ite_none_right_eq_some.1 hb).1.2

/-- **The element holds nobody up**: whatever run the writer's side can take, it takes together with the
element, which makes some steps in between. -/
theorem Lively.follow {P : σ → Prop} (hP : ∀ s a t, P s → ok s a → H.step s a = some t → P t)
    (hreset : ∀ s a, ok s a → H.isReset a = false)
    (hsize : ∀ s, P s → ((H.sys s).rd r).dead = false →
      ∀ size, ((H.sys s).rd r).pc = .readStart size → size < UInt64.size)
    {as : List α} (h : exec (restrict H.step ok) s as = some t) (hs : P s) (hl : Lively e)
    (ht : Transfer (H.sys s) r e out) :
    ∃ cs e' out', exec (together H ok r) (s, e) cs = some (t, e') ∧ cs.filterMap Joint.left? = as ∧
      Lively e' ∧ Transfer (H.sys t) r e' out' := by
  induction as generalizing s e out with
  | nil =>
      obtain rfl := Option.some.inj h
      exact ⟨[], e, out, rfl, rfl, hl, ht⟩
  | cons a as ih =>
      obtain ⟨u, hu, h⟩ := exec_cons_eq_some.1 h
      obtain ⟨ha, hst⟩ := restrict_eq_some.1 hu
      -- when it is the client thread's turn, `on_data` returns first
      obtain ⟨bs, f, hbs, hlf, hidle⟩ : ∃ (bs : List Act) (f : GstShmdataSrc),
          exec (together H ok r) (s, e) (bs.map .right) = some (s, f) ∧ Lively f ∧
            (H.client? a = some r → f.reader = .idle) := by
        by_cases hclient : H.client? a = some r
        · obtain ⟨bs, f, hbs, hlf, hidle⟩ := hl.returns
          exact ⟨bs, f, together_of_inside (dead_of_client hst hclient) hbs, hlf, fun _ => hidle⟩
        · exact ⟨[], e, rfl, hl, fun h => absurd h hclient⟩
      obtain ⟨c, g, hc, hleft, hlg⟩ := exists_together hlf ha (hreset s a ha) hst hidle
        fun hclient => hsize s hs (dead_of_client hst hclient)
      have hone : exec (together H ok r) (s, e) (bs.map .right ++ [c]) = some (u, g) :=
        exec_append_eq_some.2 ⟨_, hbs, exec_cons_eq_some.2 ⟨_, hc, rfl⟩⟩
      obtain ⟨out', htu⟩ := exists_transfer hone ht
      obtain ⟨cs, e', out'', hcs, hlefts, hl', ht'⟩ := ih h (hP s a u hs ha hst) hlg htu
      refine ⟨bs.map .right ++ [c] ++ cs, e', out'', exec_append_eq_some.2 ⟨_, hone, hcs⟩, ?_, hl', ht'⟩
      have hsingle : [c].filterMap Joint.left? = [a] := by simp [hleft]
      rw [List.filterMap_append, List.filterMap_append, filterMap_left?_map_right, hsingle, hlefts]
      rfl

/-- The flag of a frame that is rendered is set in every state of every run. -/
theorem rendered_of_exec {p : σ × GstShmdataSrc} {copyBuffers playing : Bool} {cs : List (Joint α Act)}
    (h : exec (together H ok r) (s, init copyBuffers playing) cs = some p) : p.2.Rendered := by
  refine exec_invariant (P := fun p => p.2.Rendered) (fun p c q hr hst => ?_) h
    (rendered_init copyBuffers playing)
  obtain ⟨hok, hst⟩ := restrict_eq_some.1 hst
  cases c with
  | left a =>
      obtain ⟨u, -, rfl⟩ := Option.map_eq_some_iff.1 hst
      exact hr
  | right b =>
      obtain ⟨e, he, rfl⟩ := Option.map_eq_some_iff.1 hst
      exact hr.step hok.2.2 he
  | both a b =>
      obtain ⟨u, -, hst⟩ := Option.bind_eq_some_iff.1 hst
      obtain ⟨e, he, rfl⟩ := Option.map_eq_some_iff.1 hst
      obtain ⟨-, -, hbegins⟩ := hok
      cases b with
      | onBuffer size =>
          have hok : Orderly p.2 (.onBuffer size) := ⟨trivial, fun h => by cases h⟩
          exact hr.step hok he
      | connect caps =>
          have hok : Orderly p.2 (.connect caps) := ⟨trivial, fun h => by cases h⟩
          exact hr.step hok he
      | publish | leave | create | release | unlock | unlockStop | pausedToReady => cases hbegins

end GstShmdataSrc

/-! ### A writer that uses `copy_to_shm` -/

namespace System

variable {s t : System} {r : ℕ}

/-- The writer uses `copy_to_shm`, with sizes of the type `size_t`; no reset fires, and nobody dies inside its
callback. -/
def Sending (s : System) (a : Act) : Prop :=
  Copying s a ∧ Tidy s a ∧ ∀ data ∈ a.copied?, data.length < UInt64.size

instance (s : System) (a : Act) : Decidable (Sending s a) := inferInstanceAs (Decidable (_ ∧ _ ∧ _))

theorem copying_of_sending {lfd memsize : ℕ} {as : List Act}
    (h : exec (restrict step Sending) (init lfd memsize) as = some s) :
    exec (restrict step Copying) (init lfd memsize) as = some s :=
  exec_restrict_mono (fun _ _ ha => ha.1) h

/-- What the threads do by themselves belongs to such a run. -/
theorem sending_of_own {a : Act} (ha : Own a) : Sending s a := by
  cases a with
  | writer | server | reader => exact ⟨trivial, trivial, fun _ h => by cases h⟩
  | _ => exact absurd ha not_false

theorem copied?_of_own {a : Act} (ha : Own a) : a.copied? = none := by
  cases a with
  | writer | server | reader => rfl
  | _ => exact absurd ha not_false

/-- The sizes that callbacks are called with are of the type `size_t`. -/
theorem size_lt_of_sending {lfd memsize : ℕ} {as : List Act}
    (h : exec (restrict step Sending) (init lfd memsize) as = some s) (hd : (s.rd r).dead = false) {size : ℕ}
    (hpc : (s.rd r).pc = .readStart size) : size < UInt64.size := by
  have hall : ∀ data ∈ copied as, data.length < UInt64.size := by
    refine exec_history (R := fun as _ => ∀ data ∈ copied as, data.length < UInt64.size)
      (fun as s a t has hst data hdata => ?_) h (by simp [copied])
    rw [copied, List.filterMap_append, List.mem_append] at hdata
    rcases hdata with hdata | hdata
    · exact has data hdata
    · refine (restrict_eq_some.1 hst).1.2.2 data ?_
      simpa using hdata
  obtain ⟨hi, hg⟩ := grows_of_exec (copying_of_sending h)
  obtain ⟨c, hinv, hc, hlog⟩ := tracks_of_copying (copying_of_sending h)
  have hserved := hi.served r hd
  have howing : Owing s r := Or.inr (Or.inr (by rw [hpc]; exact Nat.one_pos))
  -- the frame that the reader is behind is the last one of the log
  obtain ⟨done, hdue, -⟩ := hserved.owing howing
  obtain ⟨data, hdata, hsize⟩ := hg.due r s.frame (by rw [hdue]; simp)
  have hlast := hc.last r ((hc.waiting r).2 ⟨hd, by rw [hserved.length_of_owing howing]; omega⟩)
  have hmem : data ∈ copied as := by
    rw [hlog]
    refine List.mem_append_left _ (List.mem_of_getLast? ?_)
    rw [hlast, bytesOfFrame, hdata]
    rfl
  rw [hserved.sizes size (Or.inr (Or.inr (Or.inl hpc))), hsize]
  exact hall data hmem

/-- A client keeps its place. -/
theorem joined_of_exec {cond : System → Act → Prop} [∀ s a, Decidable (cond s a)] {as : List Act}
    (hb : Base s) (hack : s.srv.acked r = true) (h : exec (restrict step cond) s as = some t) :
    (t.rd r).joined = (s.rd r).joined := by
  have hall : Base t ∧ t.srv.acked r = true ∧ (t.rd r).joined = (s.rd r).joined := by
    refine exec_invariant (P := fun t => Base t ∧ t.srv.acked r = true ∧
      (t.rd r).joined = (s.rd r).joined) (fun u a v hu hst => ?_) h ⟨hb, hack, rfl⟩
    obtain ⟨hb, hack, hj⟩ := hu
    have hst := (restrict_eq_some.1 hst).2
    have hack' := acked_of_step hst hack
    refine ⟨hb.step hst, hack', ?_⟩
    rw [joined_of_step hb hst r, hack', hack, if_pos rfl, hj]
  exact hall.2.2

/-- At rest a live client has been given everything from the first frame on that was announced after it became
one. -/
theorem given_of_resting {lfd memsize : ℕ} {as : List Act}
    (h : exec (restrict step Sending) (init lfd memsize) as = some s) (hrest : Resting s)
    (hcl : s.isClient r = true) (hd : (s.rd r).dead = false) :
    (s.rd r).calls.map Reader.Call.bytes = (copied as).drop (s.rd r).joined := by
  obtain ⟨hi, hg⟩ := grows_of_exec (copying_of_sending h)
  obtain ⟨c, hinv, hc, hlog⟩ := tracks_of_copying (copying_of_sending h)
  obtain ⟨hpc, -, -, hsent⟩ := hrest
  have hload : s.load r = 0 := by
    have htaken := hi.acc.base.taken r
    have hcancelled := (hsent r).2 hd
    have := (hsent r).1
    omega
  obtain ⟨hun, -, hloc⟩ := not_unread_of_load hload
  have hbehind : ¬ Owing s r := by
    rintro (⟨size, todo, it, hn, -⟩ | ⟨size, hu⟩ | hpos)
    · obtain ⟨-, next, hnext⟩ := hi.segs.notifying size todo hn
      rw [hpc] at hnext
      cases hnext
    · exact hun size hu
    · omega
  have hlen := ((hi.served r hd).settled hbehind).length_eq
  have hwaiting : r ∉ c.waiting := fun hw => by
    have := ((hc.waiting r).1 hw).2
    omega
  have hmember := (hc.members r).2 ⟨hcl, hd⟩
  obtain ⟨k, hjoined, -⟩ := hinv.lockstep hmember
  have hgiven := hinv.member r hmember k hjoined
  rw [Channel.owed_of_notMem hwaiting, List.append_nil, hc.taken r] at hgiven
  rw [hgiven, hc.joined r k hjoined, hlog, hpc]
  simp

/-- **The writer's side comes to rest by itself**, and nothing is called on the way. -/
theorem rests_of_sending {lfd memsize : ℕ} {as : List Act}
    (h : exec (restrict step Sending) (init lfd memsize) as = some s) :
    ∃ bs t, exec (restrict step Sending) s bs = some t ∧ (∀ a ∈ bs, Own a) ∧
      copied (as ++ bs) = copied as ∧ Resting t := by
  obtain ⟨bs, t, hbs, hend⟩ := (going_of_exec (exec_restrict_mono (fun _ _ ha => ha.2.1) h)).rests
  have hown : ∀ a ∈ bs, Own a := by
    refine exec_history (R := fun bs _ => ∀ a ∈ bs, Own a) (fun bs s a t hs hst b hb => ?_) hbs (by simp)
    rcases List.mem_append.1 hb with hb | hb
    · exact hs b hb
    · exact List.mem_singleton.1 hb ▸ (restrict_eq_some.1 hst).1
  have hsending : exec (restrict step Sending) s bs = some t :=
    exec_restrict_mono (fun _ _ ha => sending_of_own ha) hbs
  refine ⟨bs, t, hsending, hown, ?_, hend.resolve_left fun hpc => ?_⟩
  · have hnone : bs.filterMap Act.copied? = [] :=
      List.filterMap_eq_nil_iff.2 fun a ha => copied?_of_own (hown a ha)
    rw [copied, List.filterMap_append, hnone, List.append_nil, copied]
  · have hfor := (grows_of_exec (copying_of_sending (exec_append_eq_some.2 ⟨s, h, hsending⟩))).2.forCopy
    rw [hpc] at hfor
    cases hfor

end System

namespace GstShmdataSrc

variable {r : ℕ}

/-- When `on_data` has returned, everything was taken. -/
theorem Transfer.out_of_idle {s : System} {e : GstShmdataSrc} {out : List (List UInt8)}
    (ht : Transfer s r e out) (hidle : e.reader = .idle) :
    out = (s.rd r).calls.map Reader.Call.bytes := by
  have htaken : e.taken = e.frame := taken_eq_frame (Or.inl (by rw [hidle]; exact OnData.noConfusion))
  have hlen := ht.length
  rw [begun, if_pos hidle, ← htaken] at hlen
  rw [ht.out]
  exact List.take_of_length_le (by rw [List.length_map, hlen])

/-- **The pipeline drains**: from every state in which the caps were not refused, the threads of the writer, of the
server, of the readers and of the element have steps by themselves, and buffers are released, after which the
call of `copy_to_shm` has returned, no lock is held, and all the frames announced since the reader became a
client were handed to the pipeline; a reader that was a client before has the same place. -/
theorem copyToShm_drains {lfd memsize : ℕ} {copyBuffers playing : Bool}
    {cs : List (Joint System.Act Act)} {p : System × GstShmdataSrc}
    (h : exec (together System.host System.Sending r)
      (System.init lfd memsize, init copyBuffers playing) cs = some p)
    (hcaps : p.2.streaming ≠ .failed) :
    ∃ ds q, exec (together System.host System.Sending r) p ds = some q ∧
      (∀ a ∈ ds.filterMap Joint.left?, System.Own a) ∧ System.Resting q.1 ∧
      (p.1.srv.acked r = true → (q.1.rd r).joined = (p.1.rd r).joined) ∧
      (q.1.isClient r = true → (q.1.rd r).dead = false → q.2.reader = .idle ∧
        received System.host System.Sending r (System.init lfd memsize, init copyBuffers playing)
          (cs ++ ds) = (System.copied (cs.filterMap Joint.left?)).drop (q.1.rd r).joined) := by
  have ht : Transfer p.1 r p.2 (received System.host System.Sending r
      (System.init lfd memsize, init copyBuffers playing) cs) :=
    transfer_of_exec (H := System.host) rfl h
  have hleft : exec (restrict System.step System.Sending) (System.init lfd memsize)
      (cs.filterMap Joint.left?) = some p.1 := left_of_exec h
  have hl : Lively p.2 := ⟨ht.handed, rendered_of_exec h, hcaps⟩
  -- the writer's side comes to rest, and the element follows
  obtain ⟨bs, t, hbs, hown, hcopied, hrest⟩ := System.rests_of_sending hleft
  have htotal := exec_append_eq_some.2 ⟨p.1, hleft, hbs⟩
  have hplace (hack : p.1.srv.acked r = true) := System.joined_of_exec ht.acc.base hack hbs
  obtain ⟨ds, e, out, hds, hlefts, hle, hte⟩ := hl.follow (H := System.host)
    (P := fun s => ∃ as, exec (restrict System.step System.Sending) (System.init lfd memsize) as = some s)
    (fun s a t hs ha hst => by
      obtain ⟨as, has⟩ := hs
      exact ⟨as ++ [a], exec_append_eq_some.2
        ⟨s, has, exec_cons_eq_some.2 ⟨t, restrict_eq_some.2 ⟨ha, hst⟩, rfl⟩⟩⟩)
    (fun s a ha => by
      cases a with
      | reset => exact absurd ha.1 not_false
      | _ => rfl)
    (fun s hs hd size hpc => by
      obtain ⟨as, has⟩ := hs
      exact System.size_lt_of_sending has hd hpc)
    hbs ⟨_, hleft⟩ ht
  cases hd : (t.rd r).dead with
  | true =>
      refine ⟨ds, (t, e), hds, fun a ha => hown a (hlefts ▸ ha), hrest, hplace, fun _ hd' => ?_⟩
      rw [hd] at hd'
      cases hd'
  | false =>
      -- `on_data` returns as well, and nothing is left
      obtain ⟨es, f, hes, -, hidle⟩ := hle.returns
      have hrun := exec_append_eq_some.2 ⟨(t, e), hds, together_of_inside (H := System.host) hd hes⟩
      have htf : Transfer t r f (received System.host System.Sending r
          (System.init lfd memsize, init copyBuffers playing) (cs ++ (ds ++ es.map .right))) :=
        transfer_of_exec (H := System.host) rfl (exec_append_eq_some.2 ⟨p, h, hrun⟩)
      refine ⟨ds ++ es.map .right, (t, f), hrun, fun a ha => hown a ?_, hrest, hplace,
        fun hcl _ => ⟨hidle, ?_⟩⟩
      · rw [List.filterMap_append, filterMap_left?_map_right, List.append_nil, hlefts] at ha
        exact ha
      · rw [htf.out_of_idle hidle, ← hcopied]
        exact System.given_of_resting htotal hrest hcl hd

/-- A frame is downstream in a buffer that is not released, and the writer waits with the next one. -/
theorem wrappedFrames_drains :
    ∃ p ds q, exec (together System.host System.Sending 0) (System.init 3 2, init false true)
        wrappedFrames = some p ∧ p.2.downstream = [1] ∧ p.1.w.pc.held = false ∧
      exec (together System.host System.Sending 0) p ds = some q ∧ System.Resting q.1 ∧
      (q.1.isClient 0 = true → (q.1.rd 0).dead = false → q.2.reader = .idle ∧
        received System.host System.Sending 0 (System.init 3 2, init false true) (wrappedFrames ++ ds) =
          [[7, 8], [9], [1]]) := by
  have hrun : ((exec (together System.host System.Sending 0) (System.init 3 2, init false true)
      wrappedFrames).any fun p => p.2.downstream = [1] ∧ p.1.w.pc.held = false ∧
        p.2.streaming ≠ .failed ∧ p.1.srv.acked 0 = true ∧ (p.1.rd 0).joined = 0) = true := by
    decide +kernel
  have hcopied : System.copied (wrappedFrames.filterMap Joint.left?) = [[7, 8], [9], [1]] := by
    decide +kernel
  obtain ⟨p, hp, hrun⟩ := (Option.any_eq_true _ _).1 hrun
  obtain ⟨hdown, hheld, hcaps, hack, hfirst⟩ := of_decide_eq_true hrun
  obtain ⟨ds, q, hds, -, hrest, hplace, hall⟩ := copyToShm_drains hp hcaps
  rw [hcopied, hplace hack, hfirst, List.drop_zero] at hall
  exact ⟨p, ds, q, hp, hdown, hheld, hds, hrest, hall⟩

end GstShmdataSrc

end Shmdata

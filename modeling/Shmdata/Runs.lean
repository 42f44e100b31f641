/-
**Runs of a machine given by a partial step function.**

A machine is a function `step : σ → α → Option σ`: `step s a` is the state reached from `s` by the
action `a`, or `none` when `a` is not enabled in `s`.  A schedule is a list of actions, and every
interleaving of the threads of a concurrent system is one such list, provided that each action
names the thread that moves.  Safety properties are invariants of the step function, carried along
schedules by one induction; properties that hold only of the schedules which avoid some steps are
stated for the machine `Runs.restrict step ok`, whose steps are those of `step` that are taken in a
state meeting `ok`.

* `Runs.exec` — the state reached by a schedule;
* `Runs.restrict` — the machine whose steps all meet a condition on the state and the action;
* `Runs.exec_append`, `Runs.exec_append_eq_some` — schedules compose;
* `Runs.exec_invariant` — **the invariant rule**;
* `Runs.exec_rel` — the same rule for a relation between the first and the last state of a run;
* `Runs.exec_history` — the invariant rule for a schedule and its last state;
* `Runs.exec_of_rank` — **the variant rule**;
* `Runs.exec_countP_add_rank_le` — the variant rule for runs that are given: a bound for the steps of a kind;
* `Runs.trace` — what the steps of a run let out, in order;
* `Runs.exec_trace` — the invariant rule for a state and what was let out before it;
* `Runs.exec_simulation` — **the simulation rule**: every trace of one machine is a trace of another;
* `Runs.exec_restrict_mono`, `Runs.exec_of_restrict` — weakening the condition;
* `Runs.exec_restrict_iff` — the runs whose steps all meet a condition, when it tells exactly which steps
  keep a property;
* `Runs.both` — two machines side by side, which also move together, with `Runs.exec_left`: a run of both
  is a run of the first.
-/

import Mathlib.Data.List.Induction
import Mathlib.Logic.Basic
import Mathlib.Order.RelClasses
import Mathlib.Tactic.Common

set_option relaxedAutoImplicit false
set_option autoImplicit false

namespace Runs

variable {σ α : Type*} {step : σ → α → Option σ}

/-- The state reached from `s` by the actions of a schedule, one after the other; `none` if one of
them is not enabled when its turn comes. -/
def exec (step : σ → α → Option σ) : σ → List α → Option σ
  | s, [] => some s
  | s, a :: as => (step s a).bind fun t => exec step t as

/-- The machine that takes a step of `step` only in a state and for an action that meet `ok`. -/
def restrict (step : σ → α → Option σ) (ok : σ → α → Prop) [∀ s a, Decidable (ok s a)] (s : σ)
    (a : α) : Option σ :=
  if ok s a then step s a else none

@[simp] theorem exec_nil (s : σ) : exec step s [] = some s := rfl

@[simp] theorem exec_cons (s : σ) (a : α) (as : List α) :
    exec step s (a :: as) = (step s a).bind fun t => exec step t as := rfl

theorem exec_cons_eq_some {s u : σ} {a : α} {as : List α} :
    exec step s (a :: as) = some u ↔ ∃ t, step s a = some t ∧ exec step t as = some u := by
  rw [exec_cons, Option.bind_eq_some_iff]

theorem exec_append (s : σ) (as bs : List α) :
    exec step s (as ++ bs) = (exec step s as).bind fun t => exec step t bs := by
  induction as generalizing s with
  | nil => rfl
  | cons a as ih =>
      rw [List.cons_append, exec_cons, exec_cons, Option.bind_assoc]
      congr 1
      funext t
      exact ih t

theorem exec_append_eq_some {s u : σ} {as bs : List α} :
    exec step s (as ++ bs) = some u ↔ ∃ t, exec step s as = some t ∧ exec step t bs = some u := by
  rw [exec_append, Option.bind_eq_some_iff]

/-- **The invariant rule**: what every step preserves holds at the end of every run. -/
theorem exec_invariant {P : σ → Prop} (hP : ∀ s a t, P s → step s a = some t → P t) {s t : σ}
    {as : List α} (h : exec step s as = some t) (hs : P s) : P t := by
  induction as generalizing s with
  | nil =>
      rw [exec_nil, Option.some_inj] at h
      exact h ▸ hs
  | cons a as ih =>
      obtain ⟨u, hu, h⟩ := exec_cons_eq_some.1 h
      exact ih h (hP s a u hs hu)

/-- The invariant rule for a reflexive and transitive relation between two states of a run, when
every step taken in a state that satisfies the invariant `P` is in the relation. -/
theorem exec_rel {P : σ → Prop} {R : σ → σ → Prop} (hrefl : ∀ s, R s s)
    (htrans : ∀ s t u, R s t → R t u → R s u) (hP : ∀ s a t, P s → step s a = some t → P t)
    (hR : ∀ s a t, P s → step s a = some t → R s t) {s t : σ} {as : List α}
    (h : exec step s as = some t) (hs : P s) : R s t := by
  induction as generalizing s with
  | nil =>
      rw [exec_nil, Option.some_inj] at h
      exact h ▸ hrefl s
  | cons a as ih =>
      obtain ⟨u, hu, h⟩ := exec_cons_eq_some.1 h
      exact htrans s u t (hR s a u hs hu) (ih h (hP s a u hs hu))

/-- **The history rule**: what every step preserves of a schedule and the state that it leads to holds of every
schedule and its last state. -/
theorem exec_history {R : List α → σ → Prop} {s t : σ} {as : List α}
    (hR : ∀ as s a t, R as s → step s a = some t → R (as ++ [a]) t) (h : exec step s as = some t)
    (hs : R [] s) : R as t := by
  induction as using List.reverseRecOn generalizing t with
  | nil =>
      rw [exec_nil, Option.some_inj] at h
      exact h ▸ hs
  | append_singleton as a ih =>
      obtain ⟨u, hu, ha⟩ := exec_append_eq_some.1 h
      obtain ⟨v, hv, ht⟩ := exec_cons_eq_some.1 ha
      rw [exec_nil, Option.some_inj] at ht
      exact ht ▸ hR as u a v (ih hu) hv

/-- **The variant rule**: when every state that satisfies the invariant `P` and not yet `Q` has a step to
one of a smaller rank, a run leads to `Q`. -/
theorem exec_of_rank {β : Type*} [LT β] [WellFoundedLT β] {P Q : σ → Prop} (rank : σ → β)
    (h : ∀ s, P s → ¬ Q s → ∃ a t, step s a = some t ∧ P t ∧ rank t < rank s) {s : σ} (hs : P s) :
    ∃ as t, exec step s as = some t ∧ P t ∧ Q t := by
  induction hb : rank s using WellFoundedLT.induction generalizing s with
  | ind b ih =>
      by_cases hq : Q s
      · exact ⟨[], s, rfl, hs, hq⟩
      · obtain ⟨a, t, ht, hPt, hlt⟩ := h s hs hq
        obtain ⟨as, u, hu, hPu, hQu⟩ := ih (rank t) (hb ▸ hlt) hPt rfl
        exact ⟨a :: as, u, exec_cons_eq_some.2 ⟨t, ht, hu⟩, hPu, hQu⟩

/-- When the steps of a kind make a rank smaller, and no step makes it greater, no run has more steps of that kind
than the rank at its beginning. -/
theorem exec_countP_add_rank_le {P : σ → Prop} {own : α → Bool} (rank : σ → ℕ)
    (hP : ∀ s a t, P s → step s a = some t → P t)
    (hrank : ∀ s a t, P s → step s a = some t → rank t + (if own a then 1 else 0) ≤ rank s) {s t : σ}
    {as : List α} (h : exec step s as = some t) (hs : P s) : as.countP own + rank t ≤ rank s := by
  induction as generalizing s with
  | nil =>
      rw [exec_nil, Option.some_inj] at h
      subst h
      simp
  | cons a as ih =>
      obtain ⟨u, hu, h⟩ := exec_cons_eq_some.1 h
      have hstep := hrank s a u hs hu
      have hrest := ih h (hP s a u hs hu)
      rw [List.countP_cons]
      omega

section trace

variable {τ β ω : Type*} {stepA : τ → β → Option τ} {out : σ → α → List ω} {outA : τ → β → List ω}

/-- What the steps of a run let out, in order, up to the first that is not enabled. -/
def trace (step : σ → α → Option σ) (out : σ → α → List ω) : σ → List α → List ω
  | _, [] => []
  | s, a :: as => (step s a).elim [] fun t => out s a ++ trace step out t as

@[simp] theorem trace_nil (s : σ) : trace step out s [] = [] := rfl

theorem trace_cons {s t : σ} {a : α} (as : List α) (h : step s a = some t) :
    trace step out s (a :: as) = out s a ++ trace step out t as := by
  rw [trace, h, Option.elim_some]

theorem trace_append {s t : σ} {as : List α} (bs : List α) (h : exec step s as = some t) :
    trace step out s (as ++ bs) = trace step out s as ++ trace step out t bs := by
  induction as generalizing s with
  | nil =>
      rw [exec_nil, Option.some_inj] at h
      rw [h, List.nil_append, trace_nil, List.nil_append]
  | cons a as ih =>
      obtain ⟨u, hu, h⟩ := exec_cons_eq_some.1 h
      rw [List.cons_append, trace_cons _ hu, trace_cons _ hu, ih h, List.append_assoc]

/-- What every step preserves of what was let out and the state holds of every trace and its last state. -/
theorem exec_trace (out : σ → α → List ω) {R : List ω → σ → Prop}
    (hR : ∀ l s a t, R l s → step s a = some t → R (l ++ out s a) t) {s t : σ} {as : List α}
    {l : List ω} (h : exec step s as = some t) (hs : R l s) : R (l ++ trace step out s as) t := by
  induction as generalizing s l with
  | nil =>
      rw [exec_nil, Option.some_inj] at h
      rw [trace_nil, List.append_nil]
      exact h ▸ hs
  | cons a as ih =>
      obtain ⟨u, hu, h⟩ := exec_cons_eq_some.1 h
      rw [trace_cons as hu, ← List.append_assoc]
      exact ih h (hR l s a u hs hu)

/-- **The simulation rule**: when every step between related states is matched by a run that lets out the
same and leads to related states again, so is every run. -/
theorem exec_simulation {R : σ → τ → Prop}
    (hR : ∀ s a s' t, R s t → step s a = some s' →
      ∃ bs t', exec stepA t bs = some t' ∧ R s' t' ∧ trace stepA outA t bs = out s a)
    {s s' : σ} {t : τ} {as : List α} (h : exec step s as = some s') (ht : R s t) :
    ∃ bs t', exec stepA t bs = some t' ∧ R s' t' ∧ trace stepA outA t bs = trace step out s as := by
  induction as generalizing s t with
  | nil =>
      rw [exec_nil, Option.some_inj] at h
      exact ⟨[], t, rfl, h ▸ ht, rfl⟩
  | cons a as ih =>
      obtain ⟨u, hu, h⟩ := exec_cons_eq_some.1 h
      obtain ⟨bs, v, hbs, hv, hout⟩ := hR s a u t ht hu
      obtain ⟨cs, t', hcs, ht', htr⟩ := ih h hv
      refine ⟨bs ++ cs, t', exec_append_eq_some.2 ⟨v, hbs, hcs⟩, ht', ?_⟩
      rw [trace_append cs hbs, trace_cons as hu, hout, htr]

end trace

section restrict

variable {ok ok' : σ → α → Prop} [∀ s a, Decidable (ok s a)] [∀ s a, Decidable (ok' s a)]

theorem restrict_eq_some {s t : σ} {a : α} :
    restrict step ok s a = some t ↔ ok s a ∧ step s a = some t := by
  unfold restrict
  by_cases h : ok s a <;> simp [h]

/-- A run that meets a condition meets every weaker one. -/
theorem exec_restrict_mono (hok : ∀ s a, ok s a → ok' s a) {s t : σ} {as : List α}
    (h : exec (restrict step ok) s as = some t) : exec (restrict step ok') s as = some t := by
  induction as generalizing s with
  | nil => exact h
  | cons a as ih =>
      obtain ⟨u, hu, h⟩ := exec_cons_eq_some.1 h
      obtain ⟨ha, hu⟩ := restrict_eq_some.1 hu
      exact exec_cons_eq_some.2 ⟨u, restrict_eq_some.2 ⟨hok s a ha, hu⟩, ih h⟩

/-- A run of the restricted machine is a run of the machine. -/
theorem exec_of_restrict {s t : σ} {as : List α} (h : exec (restrict step ok) s as = some t) :
    exec step s as = some t := by
  induction as generalizing s with
  | nil => exact h
  | cons a as ih =>
      obtain ⟨u, hu, h⟩ := exec_cons_eq_some.1 h
      exact exec_cons_eq_some.2 ⟨u, (restrict_eq_some.1 hu).2, ih h⟩

/-- When a step keeps `P` exactly if it meets the condition, the runs of the restricted machine are those
in which every state satisfies `P`. -/
theorem exec_restrict_iff {P : σ → Prop}
    (hP : ∀ s a t, P s → step s a = some t → (ok s a ↔ P t)) {s t : σ} {as : List α} (hs : P s) :
    exec (restrict step ok) s as = some t ↔
      exec step s as = some t ∧ ∀ bs cs u, as = bs ++ cs → exec step s bs = some u → P u := by
  constructor
  · intro h
    refine ⟨exec_of_restrict h, fun bs cs u has hu => ?_⟩
    rw [has, exec_append_eq_some] at h
    obtain ⟨v, hv, -⟩ := h
    obtain rfl : v = u := Option.some.inj ((exec_of_restrict hv).symm.trans hu)
    refine exec_invariant (fun s a t hs hst => ?_) hv hs
    obtain ⟨ha, hst⟩ := restrict_eq_some.1 hst
    exact (hP s a t hs hst).1 ha
  · rintro ⟨h, hall⟩
    induction as generalizing s with
    | nil => exact h
    | cons a as ih =>
        obtain ⟨u, hu, h⟩ := exec_cons_eq_some.1 h
        have hPu : P u := hall [a] as u rfl (exec_cons_eq_some.2 ⟨u, hu, rfl⟩)
        refine exec_cons_eq_some.2
          ⟨u, restrict_eq_some.2 ⟨(hP s a u hs hu).2 hPu, hu⟩, ih hPu h fun bs cs v has hv => ?_⟩
        exact hall (a :: bs) cs v (by rw [has, List.cons_append]) (exec_cons_eq_some.2 ⟨u, hu, hv⟩)

end restrict

section both

variable {τ β : Type*} {stepB : τ → β → Option τ}

/-- A step of one of two machines, or of both at once. -/
inductive Joint (α β : Type*)
  | left (a : α)
  | right (b : β)
  | both (a : α) (b : β)

/-- The part of the first machine. -/
def Joint.left? : Joint α β → Option α
  | .left a | .both a _ => some a
  | .right _ => none

/-- The part of the second machine. -/
def Joint.right? : Joint α β → Option β
  | .right b | .both _ b => some b
  | .left _ => none

@[simp] theorem filterMap_left?_map_right (bs : List β) :
    (bs.map (Joint.right : β → Joint α β)).filterMap Joint.left? = [] := by
  rw [List.filterMap_map]
  exact List.filterMap_eq_nil_iff.2 fun _ _ => rfl

/-- Two machines side by side. -/
def both (step : σ → α → Option σ) (stepB : τ → β → Option τ) (p : σ × τ) :
    Joint α β → Option (σ × τ)
  | .left a => (step p.1 a).map fun s => (s, p.2)
  | .right b => (stepB p.2 b).map fun t => (p.1, t)
  | .both a b => (step p.1 a).bind fun s => (stepB p.2 b).map fun t => (s, t)

/-- A step of both is a step of the first machine, or leaves it alone. -/
theorem both_left {p q : σ × τ} {c : Joint α β} (h : both step stepB p c = some q) :
    exec step p.1 c.left?.toList = some q.1 := by
  cases c with
  | left a =>
      obtain ⟨s, hs, rfl⟩ := Option.map_eq_some_iff.1 h
      exact exec_cons_eq_some.2 ⟨s, hs, rfl⟩
  | right b =>
      obtain ⟨t, ht, rfl⟩ := Option.map_eq_some_iff.1 h
      rfl
  | both a b =>
      obtain ⟨s, hs, h⟩ := Option.bind_eq_some_iff.1 h
      obtain ⟨t, ht, rfl⟩ := Option.map_eq_some_iff.1 h
      exact exec_cons_eq_some.2 ⟨s, hs, rfl⟩

/-- The same for the second machine. -/
theorem both_right {p q : σ × τ} {c : Joint α β} (h : both step stepB p c = some q) :
    exec stepB p.2 c.right?.toList = some q.2 := by
  cases c with
  | left a =>
      obtain ⟨s, hs, rfl⟩ := Option.map_eq_some_iff.1 h
      rfl
  | right b =>
      obtain ⟨t, ht, rfl⟩ := Option.map_eq_some_iff.1 h
      exact exec_cons_eq_some.2 ⟨t, ht, rfl⟩
  | both a b =>
      obtain ⟨s, hs, h⟩ := Option.bind_eq_some_iff.1 h
      obtain ⟨t, ht, rfl⟩ := Option.map_eq_some_iff.1 h
      exact exec_cons_eq_some.2 ⟨t, ht, rfl⟩

/-- **A run of both machines is a run of the first one**, with the conditions that its steps meet. -/
theorem exec_left {ok : σ × τ → Joint α β → Prop} {okA : σ → α → Prop} [∀ p c, Decidable (ok p c)]
    [∀ s a, Decidable (okA s a)] (hok : ∀ p c a, ok p c → c.left? = some a → okA p.1 a) {p q : σ × τ}
    {cs : List (Joint α β)} (h : exec (restrict (both step stepB) ok) p cs = some q) :
    exec (restrict step okA) p.1 (cs.filterMap Joint.left?) = some q.1 := by
  refine exec_history (R := fun cs q => exec (restrict step okA) p.1 (cs.filterMap Joint.left?) = some q.1)
    (fun cs q c u hq hst => ?_) h rfl
  obtain ⟨hc, hst⟩ := restrict_eq_some.1 hst
  rw [List.filterMap_append, exec_append_eq_some]
  refine ⟨q.1, hq, ?_⟩
  have hleft := both_left hst
  cases hl : c.left? with
  | none => simpa [hl] using hleft
  | some a =>
      rw [hl, Option.toList_some, exec_cons_eq_some] at hleft
      obtain ⟨s, hs, hu⟩ := hleft
      have hcons : [c].filterMap Joint.left? = [a] := by simp [hl]
      rw [hcons]
      exact exec_cons_eq_some.2 ⟨s, restrict_eq_some.2 ⟨hok q c a hc hl, hs⟩, hu⟩

/-- The same, with the two kinds of steps that the first machine takes. -/
theorem exec_left_of {ok : σ × τ → Joint α β → Prop} {okA : σ → α → Prop} [∀ p c, Decidable (ok p c)]
    [∀ s a, Decidable (okA s a)] (hleft : ∀ p a, ok p (.left a) → okA p.1 a)
    (hboth : ∀ p a b, ok p (.both a b) → okA p.1 a) {p q : σ × τ} {cs : List (Joint α β)}
    (h : exec (restrict (both step stepB) ok) p cs = some q) :
    exec (restrict step okA) p.1 (cs.filterMap Joint.left?) = some q.1 := by
  refine exec_left (fun p c a hc ha => ?_) h
  cases c with
  | left b =>
      obtain rfl := Option.some.inj ha
      exact hleft p b hc
  | right b => cases ha
  | both b d =>
      obtain rfl := Option.some.inj ha
      exact hboth p b d hc

end both

end Runs

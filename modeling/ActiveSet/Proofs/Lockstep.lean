import ActiveSet.Proofs.Comparison
import ActiveSet.Proofs.Session

/-!
# Solvers in lockstep

Two solvers, or one solver in two states, may have what decides the course in common and differ in the
rest. What they have in common is a relation between their states, and one more for the states in which
a direction has been determined. If the parts of a step keep these (`Method.Companions`), so does a step,
a homotopy, and every call of a session (`Interface.Companions`). Both return the same results then, and
their observers see the same records.

* `Method.Companions.step_alike`, `follow_alike`: one step and all steps.
* `Interface.solve_alike`, `resume_alike`: a solve.
* `Interface.Companions.call_eq`: what two calls return, show, and leave.
-/

namespace ActiveSet

variable {K : Type} {n m : Nat} {σ ρ δ δ' τ : Type}

/-! ## Records -/

/-- An observer that keeps the records it is shown, and otherwise does what another one does. -/
def Observer.logging (obs : Observer K n m τ) : Observer K n m (τ × List (Iteration K n m)) :=
  ⟨fun it t => (((obs.observe it t.1).1, t.2 ++ [it]), (obs.observe it t.1).2)⟩

variable [Scalar K]

/-- What an observer holds at the end of a run. -/
def viewed {α : Type} : EStateM.Result Fault (σ × τ) α → τ
  | .ok _ s => s.2
  | .error _ s => s.2

/-- The records that the observer of a call is shown, in order. -/
def Interface.records (I : Interface K n m σ δ) : Call K n m δ → σ → List (Iteration K n m)
  | .solve obs view budget xGuess yGuess, s =>
    (viewed (I.method.solve obs.logging budget xGuess yGuess (s, (view, [])))).2
  | .resume obs view budget, s => (viewed (I.method.resume obs.logging budget (s, (view, [])))).2
  | .load _, _ | .reset, _ => []

/-- The same call with an observer that keeps the records. -/
def Call.logging : Call K n m δ → Call K n m δ
  | .load d => .load d
  | .solve obs view budget xGuess yGuess =>
    .solve obs.logging (view, []) budget xGuess yGuess
  | .resume obs view budget => .resume obs.logging (view, []) budget
  | .reset => .reset

/-- The same call, with the data described in another way. -/
def Call.mapLoad (f : δ → δ') : Call K n m δ → Call K n m δ'
  | .load d => .load (f d)
  | .solve obs view budget xGuess yGuess => .solve obs view budget xGuess yGuess
  | .resume obs view budget => .resume obs view budget
  | .reset => .reset

/-! ## One step -/

namespace Method

/-- What decides the course of two solvers apart from the problem is the same. -/
structure SeenAlike (M : Method K n m σ) (M' : Method K n m ρ) (s : σ) (t : ρ) : Prop where
  status : M'.status t = M.status s
  infeasible : (M'.core t).infeasible = (M.core s).infeasible
  unbounded : (M'.core t).unbounded = (M.core s).unbounded
  bounds : (M'.core t).bounds = (M.core s).bounds
  activeRowCount : M'.activeRowCount t = M.activeRowCount s

/-- A relation between the states of two solvers that look the same. Status and verdicts may change, if
they change alike. -/
structure Pairs (M : Method K n m σ) (M' : Method K n m ρ) (R : σ → ρ → Prop) : Prop where
  seen : ∀ s t, R s t → M.SeenAlike M' s t
  verdict : ∀ {s t status status' infeasible infeasible' unbounded unbounded'}, R s t →
    status' = status → infeasible' = infeasible → unbounded' = unbounded →
      R (M.withCore s { M.core s with status, infeasible, unbounded })
        (M'.withCore t { M'.core t with
          status := status', infeasible := infeasible', unbounded := unbounded' })

/-- The parts of a step do the same in states that `R` relates. Once the direction is known, `D` relates
them. -/
structure Companions (M : Method K n m σ) (M' : Method K n m ρ) (P : Phases n m σ) (P' : Phases n m ρ)
    (R D : σ → ρ → Prop) : Prop extends M.Pairs M' R where
  direction : ∀ s t, P.moving s → P'.moving t → R s t →
    M.determineDirection.Alike M'.determineDirection s t (fun _ => D) fun _ => R
  stepLength : ∀ s t, D s t → M'.stepLength t = M.stepLength s
  perform : ∀ tau event s t, D s t → R (M.perform tau event s) (M'.perform tau event t)
  change : ∀ event s t, event ≠ .full → P.stepped event s → P'.stepped event t → R s t →
    (M.changeWorkingSet event).Alike (M'.changeWorkingSet event) s t (fun _ => R) fun _ => R

variable {M : Method K n m σ} {M' : Method K n m ρ} {P : Phases n m σ} {P' : Phases n m ρ}
  {R D : σ → ρ → Prop} {s : σ} {t : ρ}

namespace Pairs

omit [Scalar K]

theorem withStatus (h : M.Pairs M' R) (hst : R s t) (status : Status) :
    R (M.withStatus status s) (M'.withStatus status t) :=
  have hseen := h.seen s t hst
  h.verdict hst rfl hseen.infeasible hseen.unbounded

theorem clearVerdict (h : M.Pairs M' R) (hst : R s t) : R (M.clearVerdict s) (M'.clearVerdict t) :=
  h.verdict hst (h.seen s t hst).status rfl rfl

theorem directionFailed (h : M.Pairs M' R) (hst : R s t) (before : Status)
    {Q : Unit → σ → ρ → Prop} :
    (M.directionFailed before).Alike (M'.directionFailed before) s t Q fun _ => R :=
  Update.alike_modify_bind (Update.alike_fail (h.withStatus hst _))

theorem changeFailed (h : M.Pairs M' R) (hst : R s t) (e : QpError) {Q : Unit → σ → ρ → Prop} :
    (M.changeFailed e).Alike (M'.changeFailed e) s t Q fun _ => R := by
  have hseen := h.seen s t hst
  have hstatus : (M'.core t).status = (M.core s).status := hseen.status
  unfold Method.changeFailed
  refine Update.alike_ite Iff.rfl (fun _ => Update.alike_modify_bind (Update.alike_fail ?_))
    fun _ => Update.alike_ite Iff.rfl
      (fun _ => Update.alike_modify_bind (Update.alike_fail ?_))
      fun _ => Update.alike_modify_bind (Update.alike_fail (h.withStatus hst _))
  · refine h.verdict hst ?_ rfl hseen.unbounded
    rw [hstatus]
  · exact h.verdict hst rfl hseen.infeasible rfl

theorem record_eq (h : M.Pairs M' R) (hst : R s t) (index : Nat) (tau : K) (event : StepEvent n m) :
    M'.record index tau event t = M.record index tau event s := by
  have hseen := h.seen s t hst
  unfold Method.record
  rw [hseen.status, hseen.activeRowCount, hseen.bounds]

/-- A step that has come to its end returns its record. -/
theorem finish_alike (h : M.Pairs M' R) (index : Nat) (tau : K) (event : StepEvent n m)
    (status : Status) (hst : R s t) :
    (do
        modify (M.withStatus status)
        return M.record index tau event (← get) : Update σ (Iteration K n m)).Alike
      (do
        modify (M'.withStatus status)
        return M'.record index tau event (← get) : Update ρ (Iteration K n m))
      s t (fun _ => R) fun _ => R := by
  have hst := h.withStatus hst status
  refine Update.alike_modify_bind (Update.alike_get_bind ?_)
  rw [h.record_eq hst]
  exact Update.alike_pure _ hst

end Pairs

namespace Companions

/-- Steps from related states have the same record, or the same error. -/
theorem step_alike (h : M.Companions M' P P' R D) (hM : M.Respects P) (hM' : M'.Respects P')
    (index : Nat) (hs : P.moving s) (ht : P'.moving t) (hst : R s t) :
    (M.step index).Alike (M'.step index) s t (fun _ => R) fun _ => R := by
  have hstart := h.withStatus hst .performingHomotopy
  have hs1 := hM.moving_ignores.withStatus .performingHomotopy hs
  have ht1 := hM'.moving_ignores.withStatus .performingHomotopy ht
  unfold Method.step
  refine Update.alike_get_bind ?_
  rw [(h.seen s t hst).status]
  refine Update.alike_modify_bind (Update.alike_bind (Update.alike_recover ?_))
  refine (((h.direction _ _ hs1 ht1 hstart).and_left (hM.direction _ hs1)).and_right
    (hM'.direction _ ht1)).mono ?_ ?_
  · -- both have found a direction, take steps of the same length, and meet the same event
    rintro ⟨⟩ s1 t1 ⟨⟨hdirected, hs1, -⟩, ht1, -⟩
    refine Update.alike_get_bind ?_
    rw [h.stepLength s1 t1 hdirected]
    have hperform := h.perform (M.stepLength s1).1 (M.stepLength s1).2 s1 t1 hdirected
    have hstop := hM.stop s1 hs1
    have hstop' := hM'.stop t1 ht1
    rw [h.stepLength s1 t1 hdirected] at hstop'
    generalize M.stepLength s1 = length at hperform hstop hstop' ⊢
    obtain ⟨tau, event⟩ := length
    dsimp only at hperform hstop hstop' ⊢
    refine Update.alike_modify_bind (Update.alike_ite Iff.rfl (fun _ => ?_) fun hevent => ?_)
    · refine Update.alike_ite Iff.rfl (fun _ => h.finish_alike _ _ _ _ hperform) fun _ =>
        Update.alike_bind (Update.alike_throw hperform)
    · refine Update.alike_bind (Update.alike_recover ?_)
      refine (h.change event _ _ hevent (hstop hevent) (hstop' hevent) hperform).mono
        (fun _ _ _ hst => h.finish_alike _ _ _ _ hst) ?_
      intro f s2 t2 hst
      cases f with
      | broken => exact hst
      | failed e => exact h.changeFailed hst e
  · -- neither has found one
    rintro f s1 t1 ⟨⟨hst, ⟨e, rfl⟩, -⟩, -⟩
    exact h.directionFailed hst _

/-! ## All steps -/

/-- Homotopies from related states have the same records and the same result. -/
theorem follow_alike (h : M.Companions M' P P' R D) (hM : M.Respects P) (hM' : M'.Respects P')
    (obs : Observer K n m τ) (budget : Nat) : ∀ (index : Nat) {s : σ} {t : ρ} {view : τ},
      P.moving s → P'.moving t → (M.status s).isStart → R s t →
        (M.follow obs budget index).Alike (M'.follow obs budget index) (s, view) (t, view)
          (fun _ r q => R r.1 q.1 ∧ q.2 = r.2) fun _ r q => R r.1 q.1 ∧ q.2 = r.2 := by
  induction budget with
  | zero => exact fun index s t view _ _ _ hst => Update.alike_fail ⟨hst, rfl⟩
  | succ budget ih =>
    intro index s t view hs ht hstart hst
    have hstart' : (M'.status t).isStart := by
      rw [(h.seen s t hst).status]
      exact hstart
    unfold Method.follow
    refine Update.alike_bind (Update.alike_first ?_)
    -- one step of both is alike, and each leaves a state from which its own run can go on
    refine (((h.step_alike hM hM' index hs ht hst).and_left (hM.step_ensures index hs hstart)).and_right
      (hM'.step_ensures index ht hstart')).mono ?_ fun f s1 t1 hst => ⟨hst.1.1, rfl⟩
    rintro it s1 t1 ⟨⟨hst, hs1⟩, ht1⟩
    refine Update.alike_get_bind (Update.alike_bind (Update.alike_set ?_))
    -- the same event on both sides, so either both arrive or both go on
    refine Update.alike_ite Iff.rfl (fun _ => Update.alike_pure _ ⟨hst, rfl⟩) fun hevent => ?_
    refine Update.alike_ite Iff.rfl (fun _ => Update.alike_fail ⟨hst, rfl⟩) fun _ => ?_
    rw [if_neg hevent] at hs1 ht1
    refine ih (index + 1) hs1.1 ht1.1 ?_ hst
    rw [hs1.2]
    rfl

theorem homotopy_alike (h : M.Companions M' P P' R D) (hM : M.Respects P) (hM' : M'.Respects P')
    (obs : Observer K n m τ) (budget : Nat) {view : τ} (hs : P.moving s) (ht : P'.moving t)
    (hstart : (M.status s).isStart) (hst : R s t) :
    (M.homotopy obs budget).Alike (M'.homotopy obs budget) (s, view) (t, view)
      (fun _ r q => R r.1 q.1 ∧ q.2 = r.2) fun _ r q => R r.1 q.1 ∧ q.2 = r.2 := by
  unfold Method.homotopy
  refine Update.alike_bind (Update.alike_first (Update.alike_modify ?_))
  refine h.follow_alike hM hM' obs budget 0 (hM.moving_ignores.clearVerdict hs)
    (hM'.moving_ignores.clearVerdict ht) ?_ (h.clearVerdict hst)
  rw [hM.status_clearVerdict]
  exact hstart

end Companions

end Method

/-! ## Calls -/

omit [Scalar K] in
/-- Runs that end alike return the same, show the same, and leave related states. -/
theorem outcome_of_alike {R : σ → ρ → Prop} {u : Update (σ × τ) Nat} {v : Update (ρ × τ) Nat}
    {r : σ × τ} {q : ρ × τ} (h : u.Alike v r q (fun _ r q => R r.1 q.1 ∧ q.2 = r.2)
      fun _ r q => R r.1 q.1 ∧ q.2 = r.2) :
    (outcome (v q)).1 = (outcome (u r)).1 ∧ viewed (v q) = viewed (u r) ∧
      R (outcome (u r)).2 (outcome (v q)).2 := by
  obtain ⟨a, r', q', hu, hv, hst, hview⟩ | ⟨f, r', q', hu, hv, hst, hview⟩ := h.cases
  · rw [hu, hv]
    exact ⟨rfl, hview, hst⟩
  · rw [hu, hv]
    exact ⟨rfl, hview, hst⟩

/-- Auxiliary problems are set up alike in two states: they are related by `R` then, or by `A` if the
set-up fails. -/
def Interface.PreparedAlike (I : Interface K n m σ δ) (J : Interface K n m ρ δ') (R A : σ → ρ → Prop)
    (s : σ) (t : ρ) : Prop :=
  ∀ guess, (I.method.prepare guess).Alike (J.method.prepare guess) (I.method.reset s)
    (J.method.reset t) (fun _ => R) fun _ => A

namespace Interface

variable {I : Interface K n m σ δ} {J : Interface K n m ρ δ'} {P : Phases n m σ} {P' : Phases n m ρ}
  {admits : Call K n m δ → σ → Prop} {admits' : Call K n m δ' → ρ → Prop} {R D A : σ → ρ → Prop}
  {s : σ} {t : ρ}

/-- Solves from scratch do the same, if their auxiliary problems are set up alike. What the states have
in common before matters only where a guess is refused. -/
theorem solve_alike (h : I.method.Companions J.method P P' R D) (hI : I.Respects P admits)
    (hJ : J.Respects P' admits') (hRA : ∀ s t, R s t → A s t)
    (hA : ∀ s t status, A s t → A (I.method.withStatus status s) (J.method.withStatus status t))
    (obs : Observer K n m τ) (view : τ) (budget : Nat) (xGuess yGuess : Option (Array K))
    (hs : P.rest s) (ht : P'.rest t) (hc : admits (.solve obs view budget xGuess yGuess) s)
    (hc' : admits' (.solve obs view budget xGuess yGuess) t)
    (hrefused : ∀ e, Guess.ofArrays n m xGuess yGuess = .error e → A s t)
    (hprepare : I.PreparedAlike J R A s t) :
    (I.method.solve obs budget xGuess yGuess).Alike (J.method.solve obs budget xGuess yGuess)
      (s, view) (t, view) (fun _ r q => A r.1 q.1 ∧ q.2 = r.2)
      fun _ r q => A r.1 q.1 ∧ q.2 = r.2 := by
  unfold Method.solve
  refine Update.alike_bind (Update.alike_ofExcept (fun guess hguess => ?_)
    fun e he => ⟨hrefused e he, rfl⟩)
  refine Update.alike_bind (Update.alike_first (Update.alike_modify_bind
    (Update.alike_recover ?_)))
  refine (((hprepare guess).and_left
    (hI.prepare obs view budget xGuess yGuess s guess hc hs hguess)).and_right
    (hJ.prepare obs view budget xGuess yGuess t guess hc' ht hguess)).mono ?_ ?_
  · -- both have been set up, and their homotopies take the same steps
    rintro ⟨⟩ s1 t1 ⟨⟨hst, hs1, hstatus⟩, ht1, -⟩
    refine Update.alike_mapError ((h.homotopy_alike hI.method hJ.method obs budget hs1 ht1 ?_ hst).mono
      (fun _ _ _ h => ⟨hRA _ _ h.1, h.2⟩) fun _ _ _ h => ⟨hRA _ _ h.1, h.2⟩)
    rw [hstatus]
    rfl
  · -- neither has been set up
    rintro f s1 t1 ⟨⟨hst, ⟨e, rfl⟩, -⟩, -⟩
    exact Update.alike_modify_bind (Update.alike_fail ⟨hA _ _ _ hst, rfl⟩)

theorem resume_alike (h : I.method.Companions J.method P P' R D) (hI : I.Respects P admits)
    (hJ : J.Respects P' admits') (obs : Observer K n m τ) (view : τ) (budget : Nat)
    (hs : I.method.Settled P s) (ht : J.method.Settled P' t)
    (hc : admits (.resume obs view budget) s) (hc' : admits' (.resume obs view budget) t)
    (hlimits : J.method.checkLimits t = I.method.checkLimits s) (hst : R s t) :
    (I.method.resume obs budget).Alike (J.method.resume obs budget) (s, view) (t, view)
      (fun _ r q => R r.1 q.1 ∧ q.2 = r.2) fun _ r q => R r.1 q.1 ∧ q.2 = r.2 := by
  have hstatus := (h.seen s t hst).status
  unfold Method.resume
  refine Update.alike_get_bind ?_
  dsimp only
  rw [hstatus]
  refine Update.alike_ite Iff.rfl (fun hstart => ?_) fun _ => Update.alike_fail ⟨hst, rfl⟩
  have hstart' : (J.method.status t).isStart := by
    rw [hstatus]
    exact hstart
  rw [hlimits]
  refine Update.alike_bind (Update.alike_ofExcept (fun _ hok => ?_) fun _ _ => ⟨hst, rfl⟩)
  -- a state from which a homotopy starts is ready
  obtain ⟨-, hnot | ⟨-, hready⟩⟩ := hs
  · rw [hnot] at hstart
    cases hstart
  obtain ⟨-, hnot | ⟨-, hready'⟩⟩ := ht
  · rw [hnot] at hstart'
    cases hstart'
  exact h.homotopy_alike hI.method hJ.method obs budget
    (hI.resume obs view budget s hc hstart hready hok)
    (hJ.resume obs view budget t hc' hstart' hready' (hlimits.trans hok)) hstart hst

/-- The parts of a call do the same in related states, where `f` says how the second solver is told what
the first one is. -/
structure Companions (I : Interface K n m σ δ) (J : Interface K n m ρ δ') (P : Phases n m σ)
    (P' : Phases n m ρ) (R D : σ → ρ → Prop) (f : δ → δ') : Prop where
  method : I.method.Companions J.method P P' R D
  load : ∀ d s t, R s t →
    (∃ s' t', I.load d s = .ok s' ∧ J.load (f d) t = .ok t' ∧ R s' t') ∨
    ∃ e, I.load d s = .error e ∧ J.load (f d) t = .error e
  reset : ∀ s t, R s t → R (I.method.reset s) (J.method.reset t)
  prepare : ∀ s t, R s t → I.PreparedAlike J R R s t
  checkLimits : ∀ s t, R s t → J.method.checkLimits t = I.method.checkLimits s

namespace Companions

variable {f : δ → δ'}

theorem solve_alike (h : I.Companions J P P' R D f) (hI : I.Respects P admits)
    (hJ : J.Respects P' admits') (obs : Observer K n m τ) (view : τ) (budget : Nat)
    (xGuess yGuess : Option (Array K)) (hs : P.rest s) (ht : P'.rest t)
    (hc : admits (.solve obs view budget xGuess yGuess) s)
    (hc' : admits' (.solve obs view budget xGuess yGuess) t) (hst : R s t) :
    (I.method.solve obs budget xGuess yGuess).Alike (J.method.solve obs budget xGuess yGuess)
      (s, view) (t, view) (fun _ r q => R r.1 q.1 ∧ q.2 = r.2)
      fun _ r q => R r.1 q.1 ∧ q.2 = r.2 :=
  Interface.solve_alike h.method hI hJ (fun _ _ h => h)
    (fun _ _ status hst => h.method.withStatus hst status) obs view budget xGuess yGuess hs ht hc hc'
    (fun _ _ => hst) (h.prepare s t hst)

/-- Two solvers in related states return the same, and are in such states again. -/
theorem call_eq (h : I.Companions J P P' R D f) (hI : I.Respects P admits) (hJ : J.Respects P' admits')
    (c : Call K n m δ) (hs : I.method.Settled P s) (ht : J.method.Settled P' t)
    (hc : admits c s) (hc' : admits' (c.mapLoad f) t) (hst : R s t) :
    (J.call (c.mapLoad f) t).1 = (I.call c s).1 ∧ R (I.call c s).2 (J.call (c.mapLoad f) t).2 := by
  cases c with
  | load d =>
    simp only [Call.mapLoad, Interface.call]
    obtain ⟨s', t', hload, hload', hst'⟩ | ⟨e, hload, hload'⟩ := h.load d s t hst
    · rw [hload, hload']
      exact ⟨rfl, hst'⟩
    · rw [hload, hload']
      exact ⟨rfl, hst⟩
  | solve obs view budget xGuess yGuess =>
    have halike := h.solve_alike hI hJ obs view budget xGuess yGuess hs.1 ht.1 hc hc' hst
    obtain ⟨hresult, -, hst'⟩ := outcome_of_alike halike
    exact ⟨hresult, hst'⟩
  | resume obs view budget =>
    obtain ⟨hresult, -, hst'⟩ := outcome_of_alike (resume_alike h.method hI hJ obs view budget hs ht hc
      hc' (h.checkLimits s t hst) hst)
    exact ⟨hresult, hst'⟩
  | reset => exact ⟨rfl, h.reset s t hst⟩

/-- Two solvers in related states show their observers the same records. -/
theorem records_eq (h : I.Companions J P P' R D f) (hI : I.Respects P admits)
    (hJ : J.Respects P' admits') (c : Call K n m δ) (hs : I.method.Settled P s)
    (ht : J.method.Settled P' t) (hc : admits c.logging s) (hc' : admits' (c.mapLoad f).logging t)
    (hst : R s t) : J.records (c.mapLoad f) t = I.records c s := by
  cases c with
  | load d => rfl
  | solve obs view budget xGuess yGuess =>
    have halike := h.solve_alike hI hJ obs.logging (view, []) budget xGuess yGuess hs.1 ht.1 hc hc'
      hst
    exact congrArg Prod.snd (outcome_of_alike halike).2.1
  | resume obs view budget =>
    have halike := resume_alike h.method hI hJ obs.logging (view, []) budget hs ht hc hc'
      (h.checkLimits s t hst) hst
    exact congrArg Prod.snd (outcome_of_alike halike).2.1
  | reset => rfl

end Companions

end Interface

end ActiveSet

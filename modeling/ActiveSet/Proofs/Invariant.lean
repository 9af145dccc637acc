import ActiveSet.Proofs.Session

/-!
# Phases with one more invariant

A fact about the working set that all parts of a step keep does not need phases of its own: it can be
added to phases that are there already. `Method.Keeps` lists what the parts of a step have to do with
such a fact, in states that the phases speak of, and `Interface.Keeps` does so for the calls of a
session; the phases with the fact added are respected as well (`Interface.Respects.keeping`).
-/

namespace ActiveSet

variable {K : Type} [Scalar K] {n m : Nat} {σ δ : Type}

section Predicates

omit [Scalar K]

/-- The phases, with a predicate that holds as well while a homotopy could start. -/
def Phases.keeping (P : Phases n m σ) (q : σ → Prop) : Phases n m σ where
  rest := P.rest
  ready s := P.ready s ∧ q s
  moving s := P.moving s ∧ q s
  directed s := P.directed s ∧ q s
  stepped event s := P.stepped event s ∧ q s
  arrived s := P.arrived s ∧ q s
  blocked := P.blocked
  refusal := P.refusal

end Predicates

/-- What the parts of a step do with a predicate that is added to phases. -/
structure Method.Keeps (M : Method K n m σ) (P : Phases n m σ) (q : σ → Prop) : Prop where
  ignores : M.IgnoresStatus q
  direction : ∀ s, P.moving s → q s →
    M.determineDirection.Ensures s (fun _ s' => q s') fun _ s' => q s'
  perform : ∀ tau event s, q s → q (M.perform tau event s)
  change : ∀ event s, event ≠ .full → P.stepped event s → q s →
    (M.changeWorkingSet event).Ensures s (fun _ s' => q s') fun _ s' => q s'

theorem Method.Respects.keeping {M : Method K n m σ} {P : Phases n m σ} {q : σ → Prop}
    (hM : M.Respects P) (hq : M.Keeps P q) : M.Respects (P.keeping q) where
  core_withCore := hM.core_withCore
  rest_ignores := hM.rest_ignores
  ready_ignores s _ _ _ h := ⟨hM.ready_ignores s _ _ _ h.1, hq.ignores s _ _ _ h.2⟩
  moving_ignores s _ _ _ h := ⟨hM.moving_ignores s _ _ _ h.1, hq.ignores s _ _ _ h.2⟩
  arrived_ignores s _ _ _ h := ⟨hM.arrived_ignores s _ _ _ h.1, hq.ignores s _ _ _ h.2⟩
  blocked_ignores := hM.blocked_ignores
  rest_of_ready s h := hM.rest_of_ready s h.1
  ready_of_moving s h := ⟨hM.ready_of_moving s h.1, h.2⟩
  moving_of_arrived s h := ⟨hM.moving_of_arrived s h.1, h.2⟩
  -- the two specifications of the same run hold together
  direction s hs := ((hM.direction s hs.1).and (hq.direction s hs.1 hs.2)).mono
    (fun _ _ h => ⟨⟨h.1.1, h.2⟩, h.1.2⟩) fun _ _ h => ⟨h.1.1, h.1.2, h.2⟩
  full s hs hfull :=
    ⟨(hM.full s hs.1 hfull).1, (hM.full s hs.1 hfull).2, hq.perform _ _ s hs.2⟩
  stop s hs hstop := ⟨hM.stop s hs.1 hstop, hq.perform _ _ s hs.2⟩
  status_perform := hM.status_perform
  change event s hevent hs hstatus := by
    refine ((hM.change event s hevent hs.1 hstatus).and (hq.change event s hevent hs.1 hs.2)).mono
      (fun _ _ h => h) ?_
    rintro f s' ⟨⟨e, rfl, hrest, hcause⟩, hq'⟩
    -- where the verdict leaves the state standing the property is left standing too
    refine ⟨e, rfl, hrest, hcause.imp_left fun ⟨hinf, hblocked, hleft⟩ => ⟨hinf, hblocked, ?_⟩⟩
    exact hleft.imp_right fun ⟨hperforming, hready⟩ => ⟨hperforming, hready, hq'⟩

/-- What the calls of a session do with a predicate that is added to phases. -/
structure Interface.Keeps (I : Interface K n m σ δ) (P : Phases n m σ) (q : σ → Prop)
    (admits : Call K n m δ → σ → Prop) : Prop where
  method : I.method.Keeps P q
  load : ∀ d s s', I.load d s = .ok s' → q s → q s'
  prepare : ∀ {τ : Type} (obs : Observer K n m τ) view budget xGuess yGuess s guess,
    admits (.solve obs view budget xGuess yGuess) s → P.rest s →
    (I.method.prepare guess).Ensures (I.method.reset s) (fun _ s' => q s') fun _ _ => True

namespace Interface.Respects

variable {I : Interface K n m σ δ} {P : Phases n m σ} {q : σ → Prop}
  {admits admits' : Call K n m δ → σ → Prop}

theorem keeping (hI : I.Respects P admits) (hq : I.Keeps P q admits) :
    I.Respects (P.keeping q) admits where
  method := hI.method.keeping hq.method
  fresh := hI.fresh
  status_fresh := hI.status_fresh
  rest_load := hI.rest_load
  ready_load d s s' h := (hI.ready_load d s s' h).imp_right fun ⟨hstatus, hready⟩ =>
    ⟨hstatus, fun hs => ⟨hready hs.1, hq.load d s s' h hs.2⟩⟩
  reset := hI.reset
  status_reset := hI.status_reset
  prepare obs view budget xGuess yGuess s guess hc hs hguess :=
    ((hI.prepare obs view budget xGuess yGuess s guess hc hs hguess).and
      (hq.prepare obs view budget xGuess yGuess s guess hc hs)).mono
        (fun _ _ h => ⟨⟨h.1.1, h.2⟩, h.1.2⟩) fun _ _ h => h.1
  resume obs view budget s hc hstart hs hlimits :=
    ⟨hI.resume obs view budget s hc hstart hs.1 hlimits, hs.2⟩

/-- Fewer calls respect the same phases. -/
theorem restrict (hI : I.Respects P admits) (h : ∀ c s, admits' c s → admits c s) :
    I.Respects P admits' :=
  { hI with
    prepare := fun obs view budget xGuess yGuess s guess hc =>
      hI.prepare obs view budget xGuess yGuess s guess (h _ s hc)
    resume := fun obs view budget s hc => hI.resume obs view budget s (h _ s hc) }

end Interface.Respects

end ActiveSet

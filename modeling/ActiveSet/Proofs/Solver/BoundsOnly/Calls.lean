import ActiveSet.Proofs.Solver.BoundsOnly.Steps

/-!
# Two solvers of problems with bounds only are given the same calls

Whatever is loaded into both solvers, they take it or refuse it alike (`Core.Agrees.load`). With the
parts of a step, and with the set-up, this makes the two solvers companions (`companions`): every call
has the same result, shows the same records, and leaves states that agree.

The solver with constraints may be given another tolerance for dependence than the other one, which has
no use for it.
-/

namespace ActiveSet

variable {n : ℕ} {g : ℝ → ℝ}

/-! ## Loading -/

/-- The same data, where parameters have another tolerance for dependence. -/
def Core.Loading.mapDependent {K : Type} (g : K → K) : Core.Loading K → Core.Loading K
  | .parameters p => .parameters (p.mapDependent g)
  | d => d

namespace Core

variable {K : Type} {n m : ℕ} {g : K → K}

/-- Data has been loaded into two cores, which agree, or both have refused it. -/
inductive LoadedAlike (g : K → K) : Except QpError (Core K n m) → Except QpError (Core K n m) → Prop
  | loaded {c c' : Core K n m} (h : c.Agrees g c') : LoadedAlike g (.ok c) (.ok c')
  | refused (e : QpError) : LoadedAlike g (.error e) (.error e)

theorem LoadedAlike.bind {u u' : Except QpError (Core K n m)} (h : LoadedAlike g u u')
    {k k' : Core K n m → Except QpError (Core K n m)}
    (hk : ∀ c c', c.Agrees g c' → LoadedAlike g (k c) (k' c')) :
    LoadedAlike g (u >>= k) (u' >>= k') := by
  cases h with
  | loaded h => exact hk _ _ h
  | refused e => exact .refused e

theorem LoadedAlike.of_vector {k : ℕ} (v : Except QpError (Tuple K k))
    {f f' : Tuple K k → Core K n m} (h : ∀ x, (f x).Agrees g (f' x)) :
    LoadedAlike g (v >>= fun x => pure (f x)) (v >>= fun x => pure (f' x)) := by
  cases v with
  | error e => exact .refused e
  | ok x => exact .loaded (h x)

variable [Scalar K] {c c' : Core K n m}

theorem Agrees.setLower (h : c.Agrees g c') (a : Array K) :
    LoadedAlike g (c.setLower a) (c'.setLower a) := by
  cases h
  exact .of_vector _ fun x => .intro _ _ _ _ _

theorem Agrees.setUpper (h : c.Agrees g c') (a : Array K) :
    LoadedAlike g (c.setUpper a) (c'.setUpper a) := by
  cases h
  exact .of_vector _ fun x => .intro _ _ _ _ _

theorem Agrees.setGradient (h : c.Agrees g c') (a : Array K) :
    LoadedAlike g (c.setGradient a) (c'.setGradient a) := by
  cases h
  exact .of_vector _ fun x => .intro _ _ _ _ _

omit [Scalar K] in
theorem Agrees.setHessianType (h : c.Agrees g c') (t : HessianType) :
    LoadedAlike g (c.setHessianType t) (c'.setHessianType t) := by
  unfold Core.setHessianType
  rw [h.status]
  split
  · exact .refused _
  · cases h
    exact .loaded (.intro _ _ _ _ _)

theorem Agrees.setHessian (h : c.Agrees g c') (a : Array K) :
    LoadedAlike g (c.setHessian a) (c'.setHessian a) := by
  unfold Core.setHessian
  split
  · exact .refused _
  · cases h
    exact .loaded (.intro _ _ _ _ _)

theorem Agrees.setBounds (h : c.Agrees g c') (lower upper : Array K) :
    LoadedAlike g (c.setBounds lower upper) (c'.setBounds lower upper) := by
  unfold Core.setBounds
  split
  · exact .refused _
  split
  · exact .refused _
  · exact (h.setLower lower).bind fun c c' h => h.setUpper upper

/-- Cores that agree take the same data, or refuse it alike. -/
theorem Agrees.load (h : c.Agrees g c') (d : Loading K) :
    LoadedAlike g (d.apply c) ((d.mapDependent g).apply c') := by
  cases d with
  | parameters p =>
    cases h
    exact .loaded (.intro _ _ _ _ _)
  | hessianType t => exact h.setHessianType t
  | hessian a => exact h.setHessian a
  | gradient a => exact h.setGradient a
  | lower a => exact h.setLower a
  | upper a => exact h.setUpper a
  | bounds lower upper => exact h.setBounds lower upper

end Core

variable {s : Box ℝ n} {t : Constrained ℝ n 0}

/-- Without constraints there are no limits of rows that could cross. -/
theorem checkLimits_eq (h : s.Agrees g t.toCore) : t.checkLimits = s.checkBounds := by
  have hbounds : t.toCore.checkBounds = s.checkBounds := by
    generalize t.toCore = c at h
    cases h
    rfl
  unfold Constrained.checkLimits
  rw [hbounds]
  cases s.checkBounds <;> rfl

/-! ## Admitted calls -/

/-- In exact arithmetic no system counts as singular, and the other tolerances are such that a matrix
that is not definite has no factor, and that every free variable is independent of the others. -/
structure Parameters.Fit (p : Parameters ℝ) : Prop where
  epsZero_eq : p.epsZero = 0
  definite : 0 ≤ p.epsDefinite
  dependent : 0 ≤ p.epsDependent
  dependent_lt : p.epsDependent < 1

/-- Homotopies start with parameters of which `q` holds, and from scratch they start with a matrix of
the objective that is symmetric and what it is declared to be. -/
def Box.admits (q : Parameters ℝ → Prop) : Call ℝ n 0 (Core.Loading ℝ) → Box ℝ n → Prop
  | .solve .., s => s.Declared ∧ q s.parameters
  | .resume .., s => q s.parameters
  | .load _, _ | .reset, _ => True

/-- Homotopies start with parameters of which `q` holds, and from scratch they start with a matrix of
the objective that is symmetric and what it is declared to be. -/
def Constrained.admits (q : Parameters ℝ → Prop) :
    Call ℝ n 0 (Constrained.Loading ℝ) → Constrained ℝ n 0 → Prop
  | .solve .., t => t.Declared ∧ q t.parameters
  | .resume .., t => q t.parameters
  | .load _, _ | .reset, _ => True

/-- The phases of a session with a solver for bounds. -/
abbrev Box.phasesFor (q : Parameters ℝ → Prop) : Phases n 0 (Box ℝ n) :=
  Box.factoredPhases fun s => q s.parameters

/-- The phases of a session with a solver for bounds and constraints. -/
abbrev Constrained.phasesFor (q : Parameters ℝ → Prop) : Phases n 0 (Constrained ℝ n 0) :=
  Constrained.factoredPhases fun t => q t.parameters

theorem Box.ofData_parameters (q : Parameters ℝ → Prop) :
    Box.OfData fun s : Box ℝ n => q s.parameters := by
  intro s s' h hsame
  show q s'.parameters
  rwa [hsame.parameters]

theorem Constrained.ofData_parameters (q : Parameters ℝ → Prop) :
    Constrained.OfData fun t : Constrained ℝ n 0 => q t.parameters := by
  intro t t' h hsame
  show q t'.parameters
  rwa [hsame.parameters]

theorem Box.respects_for {q : Parameters ℝ → Prop} (hq : ∀ p, q p → 0 ≤ p.epsDefinite) :
    (Box.interface ℝ n).Respects (Box.phasesFor q) (Box.admits q) :=
  have hdata := Box.ofData_parameters q
  { Box.respects_factored hdata with
    prepare := fun _ _ _ _ _ s _ hc hs _ =>
      Box.prepare_moving hdata hs ⟨hc.1, hq s.parameters hc.2⟩ hc.2
    resume := fun _ _ _ s hc _ hs _ => ⟨⟨hs, hq s.parameters hc⟩, hc⟩ }

theorem Constrained.respects_for :
    (Constrained.interface ℝ n 0).Respects (Constrained.phasesFor Parameters.Fit)
      (Constrained.admits Parameters.Fit) :=
  have hdata := Constrained.ofData_parameters Parameters.Fit
  { Constrained.respects_factored hdata with
    prepare := fun _ _ _ _ _ _ _ hc hs _ =>
      Constrained.prepare_moving hdata hs ⟨hc.1, hc.2.definite, hc.2.dependent⟩ hc.2
    resume := fun _ _ _ _ hc _ hs _ => ⟨⟨hs, hc.definite, hc.dependent⟩, hc⟩ }

/-! ## Companions -/

/-- The parts of a step with both solvers. -/
theorem methodCompanions : (Box.method : Method ℝ n 0 (Box ℝ n)).Companions Constrained.method
    (Box.phasesFor fun p => (p.mapDependent g).Fit) (Constrained.phasesFor Parameters.Fit)
    (fun s t => s.Agrees g t.toCore) fun s t => s.AgreesAlong g t.toCore where
  seen s t h := ⟨h.status, h.infeasible, h.unbounded, h.bounds,
    congrArg List.length (Constrained.active_eq_nil t)⟩
  verdict h hstatus hinfeasible hunbounded := h.withVerdict hstatus hinfeasible hunbounded
  direction _ _ hs ht h := direction_alike hs.1 hs.2.epsZero_eq ht.1 ht.2.epsZero_eq h
  stepLength _ _ h := stepLength_eq h
  perform tau event _ _ h := h.perform tau event
  change event s t hevent hs ht h := by
    obtain ⟨⟨hs, hfits⟩, hq⟩ := hs
    obtain ⟨⟨ht, -⟩, hq'⟩ := ht
    -- there are no constraints, so that an event is about a bound on both sides
    cases event with
    | full => exact absurd rfl hevent
    | add e side =>
      cases e with
      | bound i => exact addBound_alike hs.inStep ht hq'.dependent_lt h hfits
      | constraint i => exact i.elim0
    | remove e =>
      cases e with
      | bound i => exact removeBound_alike hs hq.epsZero_eq ht hq'.epsZero_eq h hfits
      | constraint i => exact i.elim0

/-- A solver for bounds, and one for bounds and constraints without constraints. -/
theorem companions {f : Core.Loading ℝ → Constrained.Loading ℝ}
    (hf : ∀ d, f d = .core (d.mapDependent g)) :
    (Box.interface ℝ n).Companions (Constrained.interface ℝ n 0)
      (Box.phasesFor fun p => (p.mapDependent g).Fit) (Constrained.phasesFor Parameters.Fit)
      (fun s t => s.Agrees g t.toCore) (fun s t => s.AgreesAlong g t.toCore) f where
  method := methodCompanions
  load d s t h := by
    have hload : (Constrained.interface ℝ n 0).load (f d) t =
        ((d.mapDependent g).apply t.toCore).map t.withCore := by
      rw [hf]
      rfl
    rw [hload]
    have halike := Core.Agrees.load h d
    change Core.LoadedAlike g ((Box.interface ℝ n).load d s)
      ((d.mapDependent g).apply t.toCore) at halike
    generalize (Box.interface ℝ n).load d s = r at halike ⊢
    generalize (d.mapDependent g).apply t.toCore = r' at halike ⊢
    cases halike with
    | loaded h => exact .inl ⟨_, _, rfl, rfl, h⟩
    | refused e => exact .inr ⟨e, rfl, rfl⟩
  reset _ _ h := Core.Agrees.reset h
  prepare _ _ h _ := h.prepare_alike
  checkLimits _ _ h := checkLimits_eq h

/-! ## Sessions -/

/-- Two solvers between two calls, in states that agree. -/
structure Matched (g : ℝ → ℝ) (s : Box ℝ n) (t : Constrained ℝ n 0) : Prop where
  agrees : s.Agrees g t.toCore
  settled : (Box.method : Method ℝ n 0 (Box ℝ n)).Settled
    (Box.phasesFor fun p => (p.mapDependent g).Fit) s
  settled' : (Constrained.method : Method ℝ n 0 (Constrained ℝ n 0)).Settled
    (Constrained.phasesFor Parameters.Fit) t

theorem Core.Agrees.declared (h : s.Agrees g t.toCore) (hs : Box.Declared s) : t.Declared := by
  refine ⟨fun i j => ?_, fun htype i j hi hj => ?_⟩
  · rw [h.hessian]
    exact hs.symmetric i j
  · rw [h.hessian]
    exact hs.identity (h.hessianType ▸ htype) i j hi hj

/-- What is admitted with one solver is admitted with the other one. -/
theorem Matched.admits (h : Matched g s t) {f : Core.Loading ℝ → Constrained.Loading ℝ}
    {c : Call ℝ n 0 (Core.Loading ℝ)} (hc : Box.admits (fun p => (p.mapDependent g).Fit) c s) :
    Constrained.admits Parameters.Fit (c.mapLoad f) t := by
  have hparameters : t.parameters = s.parameters.mapDependent g := h.agrees.parameters
  cases c with
  | load d => trivial
  | solve obs view budget xGuess yGuess =>
    exact ⟨h.agrees.declared hc.1, hparameters ▸ hc.2⟩
  | resume obs view budget => exact (congrArg Parameters.Fit hparameters).mpr hc
  | reset => trivial

/-- The same call has the same result with both solvers, shows the same records, and leaves them in
states that agree. -/
theorem Matched.call (h : Matched g s t) {f : Core.Loading ℝ → Constrained.Loading ℝ}
    (hf : ∀ d, f d = .core (d.mapDependent g)) (c : Call ℝ n 0 (Core.Loading ℝ))
    (hc : Box.admits (fun p => (p.mapDependent g).Fit) c s) :
    ((Constrained.interface ℝ n 0).call (c.mapLoad f) t).1 = ((Box.interface ℝ n).call c s).1 ∧
      (Constrained.interface ℝ n 0).records (c.mapLoad f) t = (Box.interface ℝ n).records c s ∧
      Matched g ((Box.interface ℝ n).call c s).2
        ((Constrained.interface ℝ n 0).call (c.mapLoad f) t).2 := by
  have hI := Box.respects_for (n := n) (q := fun p => (p.mapDependent g).Fit) fun _ h => h.definite
  have hJ := Constrained.respects_for (n := n)
  have hc' := h.admits (f := f) hc
  have hlogging : Box.admits (fun p => (p.mapDependent g).Fit) c.logging s := by
    cases c <;> exact hc
  have hlogging' : Constrained.admits Parameters.Fit (c.mapLoad f).logging t := by
    cases c <;> exact hc'
  obtain ⟨hresult, hagree⟩ :=
    (companions hf).call_eq hI hJ c h.settled h.settled' hc hc' h.agrees
  exact ⟨hresult, (companions hf).records_eq hI hJ c h.settled h.settled' hlogging hlogging' h.agrees,
    hagree, hI.settled_call c h.settled hc, hJ.settled_call (c.mapLoad f) h.settled' hc'⟩

end ActiveSet

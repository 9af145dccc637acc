import ActiveSet.Proofs.Lifecycle
import ActiveSet.Proofs.Solver.Resumption

/-!
# The life of the solvers

Between two calls a solver is not initialised, or it holds the solution of the auxiliary problem, of a
problem on the way, or of the loaded one; it is never caught in the middle of a set-up or of a step.
What it reports after a call follows from the result of the call (`status_lifecycle`). This holds for
both solvers, for all calls with all arguments, and with any arithmetic.

Most of it comes from the homotopy, which both solvers share. What is left for each of them is which
parts of its state a failed step has written: no part touches the verdicts, and a change of the working
set that is refused for want of a feasible point has kept all activities, unless an exchange had already
taken an entity out.

* `Core.Loading.isMatrix`, `Constrained.Loading.isMatrix`: the data that a factorization is made of.
* `Constrained.ChangeFailed.sameTask`, `ChangeFailed.place`: what a failed change of the working set
  leaves.
* `status_lifecycle`: both solvers live by their documentation.
-/

namespace ActiveSet

variable {K : Type} [Scalar K] {n m : Nat}

omit [Scalar K] in
/-- Whether data is a matrix, which gives up the factorization of the one before it. -/
def Core.Loading.isMatrix : Core.Loading K → Bool
  | hessian _ => true
  | parameters _ | hessianType _ | gradient _ | lower _ | upper _ | bounds .. => false

omit [Scalar K] in
/-- Whether data is a matrix, which gives up the factorizations of the one before it. -/
def Constrained.Loading.isMatrix : Constrained.Loading K → Bool
  | core d => d.isMatrix
  | matrix _ => true
  | rowLower _ | rowUpper _ | rowBounds .. => false

namespace Core

variable {s s' : Core K n m}

/-- A matrix that is loaded leaves nothing to start from. -/
theorem Loading.status_of_isMatrix {d : Loading K} (h : d.apply s = .ok s')
    (hd : d.isMatrix = true) : s'.status = .notInitialised := by
  cases d with
  | hessian a =>
    simp only [apply, setHessian] at h
    split at h
    · cases h
    · cases h
      rfl
  | parameters p => cases hd
  | hessianType t => cases hd
  | gradient a => cases hd
  | lower a => cases hd
  | upper a => cases hd
  | bounds lower upper => cases hd

/-- Data other than a matrix keeps the status. -/
theorem Loading.status_eq {d : Loading K} (h : d.apply s = .ok s') (hd : d.isMatrix = false) :
    s'.status = s.status := by
  cases d with
  | hessian a => cases hd
  | parameters p =>
    cases h
    rfl
  | hessianType t =>
    simp only [apply, setHessianType] at h
    split at h
    · cases h
    · cases h
      rfl
  | gradient a =>
    obtain ⟨target, rfl⟩ := setGradient_cases h
    rfl
  | lower a =>
    obtain ⟨target, rfl⟩ := setLower_cases h
    rfl
  | upper a =>
    obtain ⟨target, rfl⟩ := setUpper_cases h
    rfl
  | bounds lower upper =>
    obtain ⟨target, rfl⟩ := setBounds_cases h
    rfl

end Core

-- ---------------------------------------------------------------------------
-- Bounds only
-- ---------------------------------------------------------------------------

namespace Box

/-- The activity of a bound. -/
def activity (s : Box K n) : Entity n 0 → Activity
  | .bound i => s.bounds.activity i
  | .constraint i => i.elim0

/-- Without constraints no change of the working set is refused for want of a feasible point. -/
theorem accountable : (method : Method K n 0 (Box K n)).Accountable (phases K n) activity where
  restartable := restartable
  activity_ignores _ _ _ _ := rfl
  direction s hs := by
    refine (determineDirection_ensures hs).mono (fun _ _ _ => trivial) ?_
    rintro f _ ⟨-, -, dx, dy, tilt, rfl⟩
    exact ⟨rfl, rfl, rfl⟩
  change event s hevent hs _ := by
    refine (changeWorkingSet_ensures hs.1 hevent hs.2).mono (fun _ _ _ => trivial) ?_
    rintro f s' ⟨i, error, -, rfl, hhalf, -⟩
    have hmem := hhalf.refusal
    simp only [phases, List.mem_cons, List.not_mem_nil, or_false] at hmem
    refine ⟨error, rfl, ?_, .inr ⟨?_, ?_⟩⟩
    · cases hhalf
      exact ⟨rfl, rfl, rfl⟩
    · rintro (rfl | rfl) <;> simp at hmem
    · obtain rfl | rfl | rfl := hmem <;> decide

end Box

-- ---------------------------------------------------------------------------
-- Bounds and constraints
-- ---------------------------------------------------------------------------

namespace Constrained

variable {s s' : Constrained K n m} {e : Entity n m}

/-- A matrix that is loaded leaves nothing to start from. -/
theorem Loading.status_of_isMatrix {d : Loading K} (h : d.apply s = .ok s')
    (hd : d.isMatrix = true) : s'.status = .notInitialised := by
  cases d with
  | core d =>
    obtain ⟨c, hcore, rfl⟩ := exists_of_map_ok h
    exact Core.Loading.status_of_isMatrix hcore hd
  | matrix a =>
    simp only [apply, setMatrix] at h
    split at h
    · cases h
    · cases h
      rfl
  | rowLower a => cases hd
  | rowUpper a => cases hd
  | rowBounds lower upper => cases hd

/-- Data other than a matrix keeps the status. -/
theorem Loading.status_eq {d : Loading K} (h : d.apply s = .ok s') (hd : d.isMatrix = false) :
    s'.status = s.status := by
  cases d with
  | core d =>
    obtain ⟨c, hcore, rfl⟩ := exists_of_map_ok h
    exact Core.Loading.status_eq hcore hd
  | matrix a => cases hd
  | rowLower a =>
    obtain ⟨target, rfl⟩ := setRowLower_cases h
    rfl
  | rowUpper a =>
    obtain ⟨target, rfl⟩ := setRowUpper_cases h
    rfl
  | rowBounds lower upper =>
    obtain ⟨target, rfl⟩ := setRowBounds_cases h
    rfl

/-! ### Activities -/

theorem Reordered.activity_eq (h : s.Reordered s') : s'.activity = s.activity := by
  cases h <;> funext a <;> cases a <;> rfl

theorem Dependent.activity_eq {w : PreparedRow K} (h : s.Dependent e w s') :
    s'.activity = s.activity := by
  cases h
  funext a
  cases a <;> rfl

/-- An entity that is released becomes inactive, and it is the only one. -/
theorem Released.activity_eq (h : s.Released e s') (hs : s.InOrder) (a : Entity n m) :
    s'.activity a = if a = e then .inactive else s.activity a := by
  cases h with
  | bound hdeactivate hnull =>
    have hmoved := (EntitySet.deactivate_spec hs.sound hdeactivate).2
    cases a with
    | bound j =>
      simp only [Entity.bound.injEq]
      exact hmoved.activity j
    | constraint j => rfl
  | constraint hp hdeactivate hnull =>
    have hmoved := (EntitySet.deactivate_spec hs.constraints_sound hdeactivate).2
    cases a with
    | bound j => rfl
    | constraint j =>
      simp only [Entity.constraint.injEq]
      exact hmoved.activity j

theorem Left.activity_eq (h : s.Left e s') (hs : s.InOrder) (a : Entity n m) :
    s'.activity a = if a = e then .inactive else s.activity a := by
  obtain ⟨s1, hreleased, -, hextended⟩ := h
  rw [← hreleased.activity_eq hs a]
  cases hextended
  cases a <;> rfl

/-! ### Tasks -/

theorem Reordered.sameTask (h : s.Reordered s') : s.toCore.SameTask s'.toCore := by
  cases h <;> exact ⟨rfl, rfl, rfl⟩

theorem Dependent.sameTask {w : PreparedRow K} (h : s.Dependent e w s') :
    s.toCore.SameTask s'.toCore := by
  cases h
  exact ⟨rfl, rfl, rfl⟩

theorem Released.sameTask (h : s.Released e s') : s.toCore.SameTask s'.toCore := by
  cases h <;> exact ⟨rfl, rfl, rfl⟩

theorem Stranded.sameTask {error : QpError} (h : s.Stranded e error s') :
    s.toCore.SameTask s'.toCore := by
  obtain ⟨s1, removal, hreleased, -, -, hunfollowed⟩ := h
  refine hreleased.sameTask.trans ?_
  cases hunfollowed
  exact ⟨rfl, rfl, rfl⟩

theorem Swapped.sameTask {leaver : Entity n m} {side : Activity} {w w' : PreparedRow K}
    {flip : Bool} {t : K} (h : s.Swapped e side w flip t leaver w' s') :
    s.toCore.SameTask s'.toCore := by
  obtain ⟨s1, s2, hdependent, -, ⟨s3, hreleased, -, hextended⟩, -, hreordered⟩ := h.chain
  refine (hdependent.sameTask.trans hreleased.sameTask).trans (.trans ?_ hreordered.sameTask)
  cases hextended
  exact ⟨rfl, rfl, rfl⟩

/-- A change of the working set that fails has not touched the verdicts. -/
theorem ChangeFailed.sameTask {event : StepEvent n m} {error : QpError}
    (h : s.ChangeFailed event error s') : s.toCore.SameTask s'.toCore := by
  cases h with
  | refused herror horder hcause =>
    cases hcause with
    | undetermined hreordered h => exact hreordered.sameTask
    | exchange hreordered hw hind hdependent hstranded =>
      exact (hreordered.sameTask.trans hdependent.sameTask).trans hstranded.sameTask
    | removal hstranded => exact hstranded.sameTask
  | stuck hreordered hw hind hstuck =>
    exact hreordered.sameTask.trans hstuck.dependent.sameTask
  | dependent hreordered hw hind hswapped hind' =>
    exact (hreordered.sameTask.trans hswapped.sameTask).trans ⟨rfl, rfl, rfl⟩

/-- A change of the working set that fails for want of a feasible point has kept the working set, or an
exchange has taken one entity out of it. -/
theorem ChangeFailed.place {event : StepEvent n m} {error : QpError} (hs : s.InStep)
    (hstatus : s.status = .performingHomotopy) (h : s.ChangeFailed event error s') :
    error.IsInfeasibility ∧ (s'.status = .performingHomotopy ∧ s'.activity = s.activity ∨
        s'.status = .notInitialised ∧ Method.Lost activity s s') ∨
      ¬error.IsInfeasibility ∧ error ∉ homotopyErrors := by
  cases h with
  | refused herror =>
    refine .inr ⟨(not_isInfeasibility_of_mem_refusals herror).1, ?_⟩
    simp only [refusals, removalErrors, List.mem_cons, List.not_mem_nil, or_false] at herror
    obtain rfl | rfl | rfl | rfl | rfl := herror <;> decide
  | stuck hreordered hw hind hstuck =>
    refine .inl ⟨isInfeasibility_addFailed _, .inl ⟨?_, ?_⟩⟩
    · rw [hstuck.status_eq, hreordered.status_eq, hstatus]
    · rw [hstuck.dependent.activity_eq, hreordered.activity_eq]
  | @dependent e side w w' flip t leaver s3 s4 hreordered hw hind hswapped hind' =>
    obtain ⟨s1, s2, hdependent, hleaving, hleft, -, hreordered'⟩ := hswapped.chain
    have hs1 := hdependent.inStep (hreordered.inStep hs)
    -- the entity that was exchanged away is the one that is lost
    have hleave := canLeave_of_leaving (firstLeaving_eq_some hleaving).2
    refine .inl ⟨isInfeasibility_addFailed _, .inr ⟨rfl, leaver, ?_, fun a => ?_⟩⟩
    · rw [← hreordered.activity_eq, ← hdependent.activity_eq]
      cases leaver <;> exact EntitySet.CanLeave.active hleave
    · rw [← hreordered.activity_eq, ← hdependent.activity_eq, ← hleft.activity_eq hs1.toInOrder,
        ← hreordered'.activity_eq]
      cases a <;> rfl

theorem accountable : (method : Method K n m (Constrained K n m)).Accountable
    (workingSetPhases K n m) activity where
  restartable := restartable
  activity_ignores s status infeasible unbounded := by
    funext a
    cases a <;> rfl
  direction s hs := by
    refine (determineDirection_ensures hs).mono (fun _ _ _ => trivial) ?_
    rintro f _ ⟨-, ⟨dx, dy, tilt, dax, rfl⟩, -⟩
    exact ⟨rfl, rfl, rfl⟩
  change event s hevent hs hstatus := by
    refine (changeWorkingSet_ensures hs.1 hevent hs.2).mono (fun _ _ _ => trivial) ?_
    rintro f s' ⟨error, rfl, hfailed⟩
    exact ⟨error, rfl, hfailed.sameTask, hfailed.place hs.1 hstatus⟩

end Constrained

-- ---------------------------------------------------------------------------
-- Sessions
-- ---------------------------------------------------------------------------

/-- The life of both solvers. In every state that any calls lead to, the status is one that callers may
see, and what a further call does to it and to the verdicts is as documented: data, resets and starts
without a solution, and all ends of a homotopy that has made a step. Of the arithmetic nothing is assumed
but that one equals one. -/
theorem status_lifecycle (K : Type) [Scalar K] (n m : Nat) (hone : ((1 : K) == 1) = true) :
    (∀ s, (Constrained.interface K n m).Reachable anyCall s →
      (Constrained.interface K n m).Lifecycle Constrained.activity Constrained.Loading.isMatrix s) ∧
      ∀ s, (Box.interface K n).Reachable anyCall s →
        (Box.interface K n).Lifecycle Box.activity Core.Loading.isMatrix s := by
  constructor
  · intro s hs
    have hI := Constrained.respects (K := K) (n := n) (m := m) hone
    refine hI.lifecycle Constrained.accountable
      (fun _ _ _ h hd => Constrained.Loading.status_of_isMatrix h hd)
      (fun _ _ _ h hd => Constrained.Loading.status_eq h hd) (fun hlimits => ?_) (hI.settled hs)
    obtain h | h := Constrained.checkLimits_error hlimits <;> cases h
  · intro s hs
    have hI := Box.respects (K := K) (n := n) hone
    refine hI.lifecycle Box.accountable (fun _ _ _ h hd => Core.Loading.status_of_isMatrix h hd)
      (fun _ _ _ h hd => Core.Loading.status_eq h hd) (fun hlimits => ?_) (hI.settled hs)
    cases Core.checkBounds_error hlimits

/-! ## An instance -/

/-- The session with integers goes on with another gradient. -/
def integerTurn : Constrained Int 2 1 :=
  ((Constrained.interface Int 2 1).call (.load (.core (.gradient #[-1, -4]))) integerState).2

/-- With integers a budget of one step is not enough for the new gradient: the call says so, and the
status is that of a problem on the way. -/
theorem status_lifecycle_integers :
    ((1 : Int) == 1) = true ∧
      (Constrained.interface Int 2 1).StartsBy integerTurn (.resume Observer.silent () 1)
        integerTurn ∧
      ((Constrained.interface Int 2 1).call (.resume Observer.silent () 1) integerTurn).1 =
        .error (.failed .maxNwsrReached) ∧
      ((Constrained.interface Int 2 1).call (.resume Observer.silent () 1) integerTurn).2.status =
        .homotopySolved := by
  have hone : ((1 : Int) == 1) = true := by decide
  have hreachable : (Constrained.interface Int 2 1).Reachable anyCall integerTurn :=
    .call _ reachable_integerState trivial
  -- the homotopy can be resumed, and one step does not suffice
  have hsolved : integerTurn.status = .solved := by decide +kernel
  have hlimits : integerTurn.checkLimits = .ok () := by decide +kernel
  have hstarts : (Constrained.interface Int 2 1).StartsBy integerTurn
      (.resume Observer.silent () 1) integerTurn := by
    refine .resumed ?_ hlimits
    change integerTurn.status.isStart = true
    rw [hsolved]
    rfl
  have hstopped : (match
        ((Constrained.interface Int 2 1).call (.resume Observer.silent () 1) integerTurn).1 with
      | .error (.failed .maxNwsrReached) => true
      | _ => false) = true := by decide +kernel
  have hresult : ((Constrained.interface Int 2 1).call (.resume Observer.silent () 1)
      integerTurn).1 = .error (.failed .maxNwsrReached) := by
    split at hstopped
    · next heq => exact heq
    · cases hstopped
  have hlife := (status_lifecycle Int 2 1 hone).1 integerTurn hreachable
  have hconcluded := hlife.concluded (.resume Observer.silent () 1) integerTurn hstarts Nat.one_pos
  generalize (Constrained.interface Int 2 1).call (.resume Observer.silent () 1) integerTurn = r
    at hconcluded hresult ⊢
  exact ⟨hone, hstarts, hresult, hconcluded.interrupted .maxNwsrReached (.inl rfl) hresult⟩

end ActiveSet

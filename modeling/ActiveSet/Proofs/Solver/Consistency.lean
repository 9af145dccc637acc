import ActiveSet.Proofs.Solver.Box
import ActiveSet.Proofs.Solver.Constrained.Session

/-!
# Working sets stay in step

Which entities are active is recorded several times: in the partitions, by the activities, in the
lists of the factorizations, and by the dimensions of the factors. The records are changed one after
the other, and a change can stop in between. Nevertheless, whatever calls are made with whatever
arguments, and whatever the arithmetic makes of the numbers, the records agree whenever a
factorization is there, and no requirement of an operation is ever broken.

* `Constrained.Consistent`, `Box.Consistent`: the records agree.
* `working_sets_in_step`: they do in every state, and no call breaks a requirement.
-/

namespace ActiveSet

/-- The records of the working set of a solver with constraints agree. -/
structure Constrained.Aligned {K : Type} {n m : Nat} (s : Constrained K n m) : Prop where
  nodup_free : s.free.Nodup
  mem_free : ∀ i, i ∈ s.free ↔ i ∈ s.bounds.inactive
  nodup_active : s.active.Nodup
  mem_active : ∀ i, i ∈ s.active ↔ i ∈ s.constraints.active
  nFree_eq : s.nullSpace.nFree = s.free.length
  nActive_eq : s.nullSpace.nActive = s.active.length
  nActive_le : s.nullSpace.nActive ≤ min n m
  count_le : s.nullSpace.nActive + s.bounds.activeCount ≤ n
  dim_eq : s.factor.dim = s.nullSpace.nFree - s.nullSpace.nActive
  bound_equality : ∀ i : Fin n, s.bounds.limitType i = .equality → s.bounds.isActive i = true
  row_equality : ∀ i : Fin m,
    s.constraints.limitType i = .equality → s.constraints.isActive i = true

/-- The sets of entities pass their checks, and the records of the working set agree while there is
a factorization. -/
structure Constrained.Consistent {K : Type} {n m : Nat} (s : Constrained K n m) : Prop where
  check_bounds : s.bounds.check = .ok ()
  check_constraints : s.constraints.check = .ok ()
  aligned : s.status ≠ .notInitialised → s.Aligned

/-- The records of the working set of a solver for bounds agree. -/
structure Box.Aligned {K : Type} {n : Nat} (s : Box K n) : Prop where
  nodup_free : s.free.Nodup
  mem_free : ∀ i, i ∈ s.free ↔ i ∈ s.bounds.inactive
  dim_eq : s.factor.dim = s.free.length
  equality : ∀ i : Fin n, s.bounds.limitType i = .equality → s.bounds.isActive i = true

/-- The set of bounds passes its check, and the records of the working set agree while there is a
factorization. -/
structure Box.Consistent {K : Type} {n : Nat} (s : Box K n) : Prop where
  check_bounds : s.bounds.check = .ok ()
  aligned : s.status ≠ .notInitialised → s.Aligned

/-- The errors of a change of the working set that does not fit it. -/
def misfits : List QpError := [.addBoundFailed, .addConstraintFailed, .stepLengthDeterminationFailed]

variable {K : Type} [Scalar K] {n m : Nat}

omit [Scalar K] in
theorem Constrained.InStep.aligned {s : Constrained K n m} (h : s.InStep) : s.Aligned where
  nodup_free := h.listed.nodup
  mem_free i := (h.listed.mem_iff i).trans (h.sound.mem_inactive i).symm
  nodup_active := h.active_listed.nodup
  mem_active i := (h.active_listed.mem_iff i).trans (h.constraints_sound.mem_active i).symm
  nFree_eq := h.nFree_eq
  nActive_eq := h.nActive_eq
  nActive_le := s.nullSpace.nActive_le_capacity
  count_le := by
    have hle := s.nullSpace.nActive_le
    have hfree := h.nFree_eq
    have hcount : n - s.bounds.activeCount = s.free.length :=
      h.sound.inactiveCount_eq h.listed
    have hactive : s.bounds.activeCount ≤ n :=
      Nat.le_trans s.bounds.partition.activeCount_le s.bounds.partition.capacity_le
    omega
  dim_eq := h.dim_eq
  bound_equality := h.classified.equality
  row_equality := h.equality

theorem Constrained.consistent_of_settled {s : Constrained K n m}
    (h : Constrained.method.Settled (workingSetPhases K n m) s) : s.Consistent where
  check_bounds := EntitySet.check_eq_ok_iff.2 h.1.sound
  check_constraints := EntitySet.check_eq_ok_iff.2 h.1.constraints_sound
  aligned hstatus := (h.2.resolve_left hstatus).2.aligned

omit [Scalar K] in
theorem Box.InStep.aligned {s : Box K n} (h : s.InStep) : s.Aligned where
  nodup_free := h.listed.nodup
  mem_free i := (h.listed.mem_iff i).trans (h.sound.mem_inactive i).symm
  dim_eq := h.dim_eq
  equality := h.classified.equality

theorem Box.consistent_of_settled {s : Box K n} (h : Box.method.Settled (phases K n) s) :
    s.Consistent where
  check_bounds := EntitySet.check_eq_ok_iff.2 h.1.sound
  aligned hstatus := (h.2.resolve_left hstatus).2.aligned

omit [Scalar K] in
/-- A homotopy that halts for a refusal does not name a misfit. -/
theorem notMem_misfits_of_halted {σ : Type} {M : Method K n m σ} {P : Phases n m σ}
    (hrefusal : ∀ e, P.refusal e → e ∉ misfits) {e : QpError} {s : σ} (h : M.Halted P e s) :
    e ∉ misfits := by
  cases h with
  | stopped he =>
    intro hmem
    simp only [List.mem_cons, List.not_mem_nil, or_false] at he
    obtain rfl | rfl | rfl := he
    · simp [misfits] at hmem
    · simp [misfits] at hmem
    · simp [misfits] at hmem
  | infeasible => simp [misfits]
  | refused he => exact hrefusal e he

/-- In every state that any calls lead to, the records of the working set agree; no call breaks a
requirement; and no homotopy ends because the working set does not fit the event of a step. Of the
arithmetic nothing is assumed but that one equals one. -/
theorem working_sets_in_step (K : Type) [Scalar K] (n m : Nat) (hone : ((1 : K) == 1) = true) :
    (∀ s, (Constrained.interface K n m).Reachable anyCall s →
      s.Consistent ∧ (∀ c, ((Constrained.interface K n m).call c s).1 ≠ .error .broken) ∧
        ∀ s', (Constrained.interface K n m).Starts s s' →
          ∀ {τ : Type} (obs : Observer K n m τ) view budget e r,
            Constrained.method.homotopy obs budget (s', view) = .error (.failed e) r →
            e ∉ misfits) ∧
      ∀ s, (Box.interface K n).Reachable anyCall s →
        s.Consistent ∧ (∀ c, ((Box.interface K n).call c s).1 ≠ .error .broken) ∧
          ∀ s', (Box.interface K n).Starts s s' →
            ∀ {τ : Type} (obs : Observer K n 0 τ) view budget e r,
              Box.method.homotopy obs budget (s', view) = .error (.failed e) r →
              e ∉ misfits := by
  constructor
  · intro s hs
    have hI := Constrained.respects (K := K) (n := n) (m := m) hone
    have hsettled := hI.settled hs
    refine ⟨Constrained.consistent_of_settled hsettled,
      fun c => hI.call_ne_broken c hsettled trivial, ?_⟩
    intro s' hstarts τ obs view budget e r hrun
    have hhalted := hI.halted_of_starts hsettled hstarts obs view budget hrun
    -- a homotopy halts with the errors that the phases allow, and no misfit is among them
    refine notMem_misfits_of_halted ?_ hhalted
    intro e he hmem
    simp only [Constrained.workingSetPhases, Constrained.refusals, Constrained.removalErrors,
      List.mem_cons, List.not_mem_nil, or_false] at he
    obtain rfl | rfl | rfl | rfl | rfl := he <;> simp [misfits] at hmem
  · intro s hs
    have hI := Box.respects (K := K) (n := n) hone
    have hsettled := hI.settled hs
    refine ⟨Box.consistent_of_settled hsettled,
      fun c => hI.call_ne_broken c hsettled trivial, ?_⟩
    intro s' hstarts τ obs view budget e r hrun
    have hhalted := hI.halted_of_starts hsettled hstarts obs view budget hrun
    refine notMem_misfits_of_halted ?_ hhalted
    intro e he hmem
    simp only [Box.phases, List.mem_cons, List.not_mem_nil, or_false] at he
    obtain rfl | rfl | rfl := he <;> simp [misfits] at hmem

/-! ## An instance -/

/-- Integer arithmetic, in which a division is rounded and a root is not taken. -/
instance integerScalar : Scalar Int where
  zero := 0
  one := 1
  abs a := a.natAbs
  sqrt a := a
  hypot a b := max a b
  decidableLT _ _ := inferInstance
  decidableLE _ _ := inferInstance

/-- A session with integers: two variables between `0` and `5`, of which a row
keeps the first one between `2` and `4`, and the point closest to `(9, 1)`. -/
def integerSession : List (Call Int 2 1 (Constrained.Loading Int)) :=
  [.load (.core (.hessian #[1, 0, 0, 1])), .load (.core (.gradient #[-9, -1])),
    .load (.core (.bounds #[0, 0] #[5, 5])), .load (.matrix #[1, 0]),
    .load (.rowBounds #[2] #[4]),
    .solve Observer.silent () 5 (some #[4, 1]) (some #[0, 0, -5])]

/-- The state after the session. -/
def integerState : Constrained Int 2 1 :=
  integerSession.foldl (fun s c => ((Constrained.interface Int 2 1).call c s).2)
    (Constrained.interface Int 2 1).fresh

theorem reachable_integerState :
    (Constrained.interface Int 2 1).Reachable anyCall integerState :=
  Interface.reachable_foldl _ _ .fresh

/-- With integers the session above ends at the solution, with the row in the working set. The
records agree there, and a further homotopy without a budget is stopped by nothing but that. -/
theorem working_sets_in_step_integers :
    ((1 : Int) == 1) = true ∧ integerState.status = .solved ∧ integerState.active = [0] ∧
      integerState.x.toList = [4, 1] ∧ integerState.Consistent ∧
      Constrained.method.homotopy Observer.silent 0 (integerState, ()) =
        .error (.failed .maxNwsrReached) (Constrained.method.clearVerdict integerState, ()) ∧
      QpError.maxNwsrReached ∉ misfits := by
  have hone : ((1 : Int) == 1) = true := by decide
  have hsolved : integerState.status = .solved := by decide +kernel
  have hlimits : integerState.checkLimits = .ok () := by decide +kernel
  have hresume : ∀ s : Constrained Int 2 1, s.status = .solved → s.checkLimits = .ok () →
      (Constrained.interface Int 2 1).Starts s s := by
    intro s hs hlimits
    refine .resumed ?_ hlimits
    change s.status.isStart = true
    rw [hs]
    rfl
  obtain ⟨hconsistent, -, herror⟩ :=
    (working_sets_in_step Int 2 1 hone).1 integerState reachable_integerState
  have hrun := Method.homotopy_zero (M := Constrained.method) Observer.silent integerState ()
  -- without a budget the homotopy fails, and no misfit is the reason
  exact ⟨hone, hsolved, by decide +kernel, by decide +kernel, hconsistent, hrun,
    herror _ (hresume _ hsolved hlimits) Observer.silent () 0 .maxNwsrReached _ hrun⟩

end ActiveSet

import ActiveSet.Proofs.Session
import ActiveSet.Solver.Box
import ActiveSet.Solver.Constrained

/-!
# What loading data changes

Each solver has its ways to load data, and `Box.interface` and `Constrained.interface` join them
with its method to what its users see. Loading writes the problem and the parameters, and nothing
else that a homotopy starts from: `Core.Loading.apply_cases` and `Constrained.Loading.apply_cases`
say that a matrix, or what is declared about it, is only ever changed together with giving up the
factorization.

The limits that have been loaded are checked before a homotopy goes on from the previous solution:
`Constrained.checkLimits_eq_ok_iff` and `checkLimits_eq_error` say what the check finds.
-/

namespace ActiveSet

/-- Data of a problem with bounds, as it is loaded. The arrays may have any size. -/
inductive Core.Loading (K : Type) where
  /-- The parameters. -/
  | parameters (p : Parameters K)
  /-- What the matrix of the objective is declared to be. -/
  | hessianType (t : HessianType)
  /-- The matrix of the objective. -/
  | hessian (a : Array K)
  /-- The gradient. -/
  | gradient (a : Array K)
  /-- The lower limits of the variables. -/
  | lower (a : Array K)
  /-- The upper limits of the variables. -/
  | upper (a : Array K)
  /-- Both limits of the variables. -/
  | bounds (lower upper : Array K)

/-- Data of a problem with constraints, as it is loaded. -/
inductive Constrained.Loading (K : Type) where
  /-- The part that does not belong to the constraints. -/
  | core (d : Core.Loading K)
  /-- The matrix of the constraints. -/
  | matrix (a : Array K)
  /-- The lower limits of the rows. -/
  | rowLower (a : Array K)
  /-- The upper limits of the rows. -/
  | rowUpper (a : Array K)
  /-- Both limits of the rows. -/
  | rowBounds (lower upper : Array K)

variable {K : Type} [Scalar K] {n m : Nat}

/-- Loads data, if it fits. -/
def Core.Loading.apply : Loading K → Core K n m → Except QpError (Core K n m)
  | parameters p, s => .ok { s with parameters := p }
  | hessianType t, s => s.setHessianType t
  | hessian a, s => s.setHessian a
  | gradient a, s => s.setGradient a
  | lower a, s => s.setLower a
  | upper a, s => s.setUpper a
  | bounds l u, s => s.setBounds l u

/-- Loads data, if it fits. -/
def Constrained.Loading.apply : Loading K → Constrained K n m → Except QpError (Constrained K n m)
  | core d, s => (d.apply s.toCore).map s.withCore
  | matrix a, s => s.setMatrix a
  | rowLower a, s => s.setRowLower a
  | rowUpper a, s => s.setRowUpper a
  | rowBounds l u, s => s.setRowBounds l u

/-- A solver for problems with bounds, as its users see it. -/
def Box.interface (K : Type) [Scalar K] (n : Nat) : Interface K n 0 (Box K n) (Core.Loading K) where
  method := Box.method
  fresh := Box.fresh n
  load := Core.Loading.apply

/-- A solver for problems with constraints, as its users see it. -/
def Constrained.interface (K : Type) [Scalar K] (n m : Nat) :
    Interface K n m (Constrained K n m) (Constrained.Loading K) where
  method := Constrained.method
  fresh := Constrained.fresh n m
  load := Constrained.Loading.apply

/-! ## Loaded vectors -/

namespace Core

variable {s s' : Core K n m}

theorem setGradient_cases {a : Array K} (h : s.setGradient a = .ok s') :
    ∃ target, s' = { s with target } := by
  obtain ⟨v, -, hv⟩ := exists_of_bind_ok h
  cases hv
  exact ⟨_, rfl⟩

theorem setLower_cases {a : Array K} (h : s.setLower a = .ok s') :
    ∃ target, s' = { s with target } := by
  obtain ⟨v, -, hv⟩ := exists_of_bind_ok h
  cases hv
  exact ⟨_, rfl⟩

theorem setUpper_cases {a : Array K} (h : s.setUpper a = .ok s') :
    ∃ target, s' = { s with target } := by
  obtain ⟨v, -, hv⟩ := exists_of_bind_ok h
  cases hv
  exact ⟨_, rfl⟩

theorem setBounds_cases {lower upper : Array K} (h : s.setBounds lower upper = .ok s') :
    ∃ target, s' = { s with target } := by
  unfold setBounds at h
  split at h
  · cases h
  split at h
  · cases h
  obtain ⟨s1, hlower, hupper⟩ := exists_of_bind_ok h
  obtain ⟨target, rfl⟩ := setLower_cases hlower
  obtain ⟨target', rfl⟩ := setUpper_cases hupper
  exact ⟨target', rfl⟩

/-- Loading gives up the factorization, or it changes nothing but the target and the parameters. -/
theorem Loading.apply_cases {d : Loading K} (h : d.apply s = .ok s') :
    (∃ parameters target hessianType hessian,
        s' = { s with status := .notInitialised, parameters, target, hessianType, hessian }) ∨
      ∃ parameters target, s' = { s with parameters, target } := by
  -- whatever drops the factorization also drops the status
  cases d with
  | parameters p =>
    cases h
    exact .inr ⟨p, _, rfl⟩
  | hessianType t =>
    simp only [apply, setHessianType] at h
    split at h
    · cases h
    next hstatus =>
      cases h
      exact .inl ⟨_, _, t, _, by rw [← Decidable.not_not.1 hstatus]⟩
  | hessian a =>
    simp only [apply, setHessian] at h
    split at h
    · cases h
    next H _ =>
      cases h
      exact .inl ⟨_, _, _, H, rfl⟩
  | gradient a =>
    obtain ⟨target, rfl⟩ := setGradient_cases h
    exact .inr ⟨_, target, rfl⟩
  | lower a =>
    obtain ⟨target, rfl⟩ := setLower_cases h
    exact .inr ⟨_, target, rfl⟩
  | upper a =>
    obtain ⟨target, rfl⟩ := setUpper_cases h
    exact .inr ⟨_, target, rfl⟩
  | bounds lower upper =>
    obtain ⟨target, rfl⟩ := setBounds_cases h
    exact .inr ⟨_, target, rfl⟩

end Core

namespace Constrained

variable {s s' : Constrained K n m}

theorem setRowLower_cases {a : Array K} (h : s.setRowLower a = .ok s') :
    ∃ target, s' = { s with target } := by
  obtain ⟨v, -, hv⟩ := exists_of_bind_ok h
  cases hv
  exact ⟨_, rfl⟩

theorem setRowUpper_cases {a : Array K} (h : s.setRowUpper a = .ok s') :
    ∃ target, s' = { s with target } := by
  obtain ⟨v, -, hv⟩ := exists_of_bind_ok h
  cases hv
  exact ⟨_, rfl⟩

theorem setRowBounds_cases {lower upper : Array K} (h : s.setRowBounds lower upper = .ok s') :
    ∃ target, s' = { s with target } := by
  unfold setRowBounds at h
  split at h
  · cases h
  split at h
  · cases h
  obtain ⟨s1, hlower, hupper⟩ := exists_of_bind_ok h
  obtain ⟨target, rfl⟩ := setRowLower_cases hlower
  obtain ⟨target', rfl⟩ := setRowUpper_cases hupper
  exact ⟨target', rfl⟩

/-- Loading gives up the factorization, or it changes nothing but the target and the parameters. -/
theorem Loading.apply_cases {d : Loading K} (h : d.apply s = .ok s') :
    (∃ parameters target hessianType hessian matrix,
        s' = { s with
          status := .notInitialised, parameters, target, hessianType, hessian, matrix }) ∨
      ∃ parameters target, s' = { s with parameters, target } := by
  cases d with
  | core d =>
    obtain ⟨c, hcore, rfl⟩ := exists_of_map_ok h
    obtain ⟨parameters, target, hessianType, hessian, rfl⟩ | ⟨parameters, target, rfl⟩ :=
      Core.Loading.apply_cases hcore
    · exact .inl ⟨parameters, target, hessianType, hessian, s.matrix, rfl⟩
    · exact .inr ⟨parameters, target, rfl⟩
  | matrix a =>
    simp only [apply, setMatrix] at h
    split at h
    · cases h
    next A _ =>
      cases h
      exact .inl ⟨_, _, _, _, A, rfl⟩
  | rowLower a =>
    obtain ⟨target, rfl⟩ := setRowLower_cases h
    exact .inr ⟨_, target, rfl⟩
  | rowUpper a =>
    obtain ⟨target, rfl⟩ := setRowUpper_cases h
    exact .inr ⟨_, target, rfl⟩
  | rowBounds lower upper =>
    obtain ⟨target, rfl⟩ := setRowBounds_cases h
    exact .inr ⟨_, target, rfl⟩

end Constrained

/-! ## Checks of the limits -/

namespace Core

theorem not_crosses_iff {k : Nat} {lower upper : Nat → K} :
    crosses k lower upper = false ↔ ∀ i : Fin k, ¬upper i < lower i := by
  unfold crosses
  rw [List.any_eq_false]
  constructor
  · exact fun h i hlt => h i (List.mem_range.2 i.isLt) (decide_eq_true hlt)
  · exact fun h i hi hlt => h ⟨i, List.mem_range.1 hi⟩ (of_decide_eq_true hlt)

variable {s : Core K n m}

theorem checkBounds_eq_ok_iff :
    s.checkBounds = .ok () ↔ crosses n s.target.lower s.target.upper = false := by
  unfold checkBounds
  cases crosses n s.target.lower s.target.upper with
  | false => exact iff_of_true rfl rfl
  | true => exact iff_of_false nofun nofun

/-- What the check of limits can find. -/
theorem checkBounds_error {e : QpError} (h : s.checkBounds = .error e) : e = .setupBoundFailed := by
  unfold checkBounds at h
  split at h
  · cases h
    rfl
  · cases h

end Core

namespace Constrained

variable {s : Constrained K n m} {e : QpError}

theorem checkLimits_eq_ok_iff :
    s.checkLimits = .ok () ↔ Core.crosses n s.target.lower s.target.upper = false ∧
      Core.crosses m s.target.rowLower s.target.rowUpper = false := by
  unfold checkLimits Core.checkBounds
  cases Core.crosses n s.target.lower s.target.upper with
  | true => exact iff_of_false nofun nofun
  | false =>
    cases Core.crosses m s.target.rowLower s.target.rowUpper with
    | true => exact iff_of_false nofun nofun
    | false => exact iff_of_true rfl ⟨rfl, rfl⟩

/-- The check of limits names the kind of those that cross. -/
theorem checkLimits_eq_error (h : s.checkLimits = .error e) :
    e = .setupBoundFailed ∧ Core.crosses n s.target.lower s.target.upper = true ∨
      e = .setupConstraintFailed ∧ Core.crosses m s.target.rowLower s.target.rowUpper = true := by
  unfold checkLimits Core.checkBounds at h
  cases hbounds : Core.crosses n s.target.lower s.target.upper with
  | true =>
    rw [hbounds] at h
    cases h
    exact .inl ⟨rfl, rfl⟩
  | false =>
    cases hrows : Core.crosses m s.target.rowLower s.target.rowUpper with
    | true =>
      rw [hbounds, hrows] at h
      cases h
      exact .inr ⟨rfl, rfl⟩
    | false =>
      rw [hbounds, hrows] at h
      cases h

/-- What the check of limits can find. -/
theorem checkLimits_error (h : s.checkLimits = .error e) :
    e = .setupBoundFailed ∨ e = .setupConstraintFailed :=
  (checkLimits_eq_error h).imp And.left And.left

end Constrained

end ActiveSet

import ActiveSet.Proofs.Atomic
import ActiveSet.Proofs.Solver.Loading

/-!
# Data that is loaded entry by entry

A solver keeps its problem in tables, and loading overwrites them in place: entry after entry of one
vector, and then perhaps of a second one. A vector of the wrong size that comes second, or limits that
turn out to cross, would then be refused too late, with half of the data overwritten.

`Core.Loading.write` and `Constrained.Loading.write` load in this way, with the checks where the solvers
have them. All checks of a vector come before its first entry is written, and all checks of a pair of
vectors before that of the first one; what is checked again for the second one has been checked already.
So data that is refused changes nothing, and data that is accepted is what the loading as a whole makes of
it (`Core.Loading.write_eq`, `Constrained.Loading.write_eq`).

* `loadInto`, `writeVector`: a vector, entry by entry.
* `Core.Loading.write`, `Constrained.Loading.write`: all that can be loaded.
-/

namespace ActiveSet

variable {K : Type} [Scalar K] {n m k : Nat} {τ : Type}

-- ---------------------------------------------------------------------------
-- One vector
-- ---------------------------------------------------------------------------

/-- Writes the clamped entries of an array into a vector of the same size. -/
def loadInto (infinity : K) (a : Array K) : Update (Tuple K k) Unit :=
  if a.size ≠ k then Update.fail .invalidArguments
  else
    Update.focus Tuple.entries (fun _ v => ⟨v⟩)
      (Update.fill fun i => Core.clamp infinity (a.getD i 0))

/-- Loads an array into a vector of a state, in which the infinity of the solver stands, too. -/
def writeVector (infinity : τ → K) (vector : τ → Tuple K k) (withVector : τ → Tuple K k → τ)
    (a : Array K) : Update τ Unit := do
  let t ← get
  Update.focus vector withVector (loadInto (infinity t) a)

theorem load_of_size {infinity : K} {a : Array K} (h : a.size = k) :
    Core.load infinity k a = .ok (.ofFn k fun i => Core.clamp infinity (a.getD i 0)) := by
  rw [Core.load, if_pos h]

theorem load_of_size_ne {infinity : K} {a : Array K} (h : a.size ≠ k) :
    Core.load infinity k a = .error .invalidArguments := by
  rw [Core.load, if_neg h]

theorem loadInto_ensures (infinity : K) (a : Array K) (x : Tuple K k) :
    (loadInto infinity a).Ensures x (fun _ x' => Core.load infinity k a = .ok x')
      fun f x' => x' = x ∧ f = .failed .invalidArguments ∧
        Core.load infinity k a = .error .invalidArguments := by
  unfold loadInto
  by_cases h : a.size = k
  · rw [if_neg (not_not_intro h), Update.ensures_focus, load_of_size h]
    refine (Update.fill_ensures _ x.entries).mono ?_ fun _ _ h => h.elim
    rintro _ v rfl
    rfl
  · rw [if_pos h, Update.ensures_fail]
    exact ⟨rfl, rfl, load_of_size_ne h⟩

/-- A vector is written as a whole, or it is refused with the state as it was. -/
theorem writeVector_eq {infinity : τ → K} {vector : τ → Tuple K k}
    {withVector : τ → Tuple K k → τ} (hsame : ∀ t, withVector t (vector t) = t) {a : Array K}
    {set : τ → Except QpError τ}
    (hset : ∀ t, set t = do return withVector t (← Core.load (infinity t) k a)) :
    writeVector infinity vector withVector a =
      Update.atomically fun t => (set t).map (Prod.mk ()) := by
  refine Update.eq_atomically fun t => ?_
  unfold writeVector
  rw [Update.ensures_bind, Update.ensures_get, Update.ensures_focus, hset]
  refine (loadInto_ensures (infinity t) a (vector t)).mono (fun _ x hx => ?_) ?_
  · rw [hx]
    rfl
  · rintro f x ⟨rfl, rfl, herror⟩
    exact ⟨hsame t, _, rfl, by rw [herror]; rfl⟩

/-- A vector of the right size is not refused. -/
theorem loaded_ne_error {infinity : K} {a : Array K} {f : Tuple K k → τ} (h : a.size = k) (e : QpError) :
    (do return f (← Core.load infinity k a)) ≠ Except.error e := by
  rw [load_of_size h]
  rintro ⟨⟩

/-- A vector of the wrong size is refused. -/
theorem loaded_of_size_ne {infinity : K} {a : Array K} {f : Tuple K k → τ} (h : a.size ≠ k) :
    (do return f (← Core.load infinity k a)) = Except.error .invalidArguments := by
  rw [load_of_size_ne h]
  rfl

omit [Scalar K] in
/-- A size that does not fit is noticed before the first entry, and where the vector checks it. -/
theorem checked_eq {a : Array K} {write : Update τ Unit} {set : τ → Except QpError τ}
    (hwrite : write = Update.atomically fun t => (set t).map (Prod.mk ()))
    (hset : a.size ≠ k → ∀ t, set t = .error .invalidArguments) :
    (if a.size ≠ k then Update.fail .invalidArguments else write) = write := by
  split
  · next h =>
    rw [hwrite]
    funext t
    rw [Update.atomically_map_of_error (hset h t)]
    rfl
  · rfl

/-- Two vectors of limits are written as a whole, or they are refused with the state as it was: after the
checks of the pair neither of the two can be refused any more. -/
theorem writePair_eq {l u : Array K} {e : QpError} {writeLower writeUpper : Update τ Unit}
    {setLower setUpper : τ → Except QpError τ}
    (hlower : writeLower = Update.atomically fun t => (setLower t).map (Prod.mk ()))
    (hupper : writeUpper = Update.atomically fun t => (setUpper t).map (Prod.mk ()))
    (hsetLower : l.size = k → ∀ t e, setLower t ≠ .error e)
    (hsetUpper : u.size = k → ∀ t e, setUpper t ≠ .error e) :
    (if l.size ≠ k ∨ u.size ≠ k then Update.fail .invalidArguments
      else if Core.crosses k (fun i => l.getD i 0) (fun i => u.getD i 0) then Update.fail e
      else do
        writeLower
        writeUpper) =
    Update.atomically fun t =>
      (if l.size ≠ k ∨ u.size ≠ k then Except.error .invalidArguments
        else if Core.crosses k (fun i => l.getD i 0) (fun i => u.getD i 0) then .error e
        else do setUpper (← setLower t)).map (Prod.mk ()) := by
  refine Update.eq_atomically fun t => ?_
  by_cases hsize : l.size ≠ k ∨ u.size ≠ k
  · rw [if_pos hsize, if_pos hsize]
    exact ⟨rfl, _, rfl, rfl⟩
  -- the sizes and the order are checked before anything is written
  rw [if_neg hsize, if_neg hsize]
  split
  · exact ⟨rfl, _, rfl, rfl⟩
  · rw [not_or, Decidable.not_not, Decidable.not_not] at hsize
    rw [hlower, hupper]
    refine (Update.ensures_atomically_bind (hsetLower hsize.1 t) (hsetUpper hsize.2)).mono
      (fun _ t' ht' => ?_) fun _ _ h => h.elim
    rw [ht']
    rfl

-- ---------------------------------------------------------------------------
-- Problems with bounds
-- ---------------------------------------------------------------------------

namespace Core

/-- Loads the lower limits of the variables, entry by entry. -/
def writeLower (a : Array K) : Update (Core K n m) Unit :=
  writeVector (fun s => s.parameters.infinity) (fun s => s.target.lower)
    (fun s x => { s with target := { s.target with lower := x } }) a

/-- Loads the upper limits of the variables, entry by entry. -/
def writeUpper (a : Array K) : Update (Core K n m) Unit :=
  writeVector (fun s => s.parameters.infinity) (fun s => s.target.upper)
    (fun s x => { s with target := { s.target with upper := x } }) a

/-- Loads limits of the variables, of which one kind may be missing. The sizes are checked first, then
whether the limits cross, and each vector checks its size once more. -/
def writeBounds (lower upper : Option (Array K)) : Update (Core K n m) Unit :=
  if lower.any (·.size ≠ n) ∨ upper.any (·.size ≠ n) then Update.fail .invalidArguments
  else
    match lower, upper with
    | some l, some u =>
      if crosses n (fun i => l.getD i 0) (fun i => u.getD i 0) then Update.fail .setupBoundFailed
      else do
        writeLower l
        writeUpper u
    | some l, none => writeLower l
    | none, some u => writeUpper u
    | none, none => pure ()

/-- Gives up the solution of the last problem, if there is one. -/
def giveUp : Update (Core K n m) Unit := do
  let s ← get
  if s.status ≠ .notInitialised then modify fun s => { s with status := .notInitialised }
  else pure ()

/-- Loads data part by part, each check where the solvers make it. -/
def Loading.write : Loading K → Update (Core K n m) Unit
  | parameters p => modify fun s => { s with parameters := p }
  | hessianType t => do
    let s ← get
    if s.status ≠ .notInitialised then Update.fail .qpAlreadyInitialised
    else modify fun s => { s with hessianType := t }
  | hessian a =>
    match Grid.ofArray? n n a with
    | none => Update.fail .invalidArguments
    | some H => do
      modify fun s => { s with hessian := H }
      giveUp
  | gradient a =>
    writeVector (fun s => s.parameters.infinity) (fun s => s.target.gradient)
      (fun s x => { s with target := { s.target with gradient := x } }) a
  | lower a => writeBounds (some a) none
  | upper a => writeBounds none (some a)
  | bounds l u => writeBounds (some l) (some u)

theorem writeLower_eq (a : Array K) : writeLower a =
    Update.atomically fun s : Core K n m => (s.setLower a).map (Prod.mk ()) :=
  writeVector_eq (fun _ => rfl) fun _ => rfl

theorem writeUpper_eq (a : Array K) : writeUpper a =
    Update.atomically fun s : Core K n m => (s.setUpper a).map (Prod.mk ()) :=
  writeVector_eq (fun _ => rfl) fun _ => rfl

theorem writeBounds_lower (a : Array K) :
    (writeBounds (some a) none : Update (Core K n m) Unit) = writeLower a := by
  unfold writeBounds
  simp only [Option.any_some, Option.any_none, Bool.false_eq_true, or_false, decide_eq_true_eq]
  exact checked_eq (writeLower_eq a) fun h _ => loaded_of_size_ne h

theorem writeBounds_upper (a : Array K) :
    (writeBounds none (some a) : Update (Core K n m) Unit) = writeUpper a := by
  unfold writeBounds
  simp only [Option.any_some, Option.any_none, Bool.false_eq_true, false_or, decide_eq_true_eq]
  exact checked_eq (writeUpper_eq a) fun h _ => loaded_of_size_ne h

theorem writeBounds_eq (l u : Array K) : writeBounds (some l) (some u) =
    Update.atomically fun s : Core K n m => (s.setBounds l u).map (Prod.mk ()) := by
  unfold writeBounds
  simp only [Option.any_some, decide_eq_true_eq]
  exact writePair_eq (writeLower_eq l) (writeUpper_eq u) (fun h _ => loaded_ne_error h)
    fun h _ => loaded_ne_error h

omit [Scalar K] in
theorem giveUp_ensures (s : Core K n m) :
    giveUp.Ensures s (fun _ s' => s' = { s with status := .notInitialised }) fun _ _ => False := by
  unfold giveUp
  rw [Update.ensures_bind, Update.ensures_get, Update.ensures_ite]
  refine ⟨fun _ => rfl, fun h => ?_⟩
  rw [Update.ensures_pure, ← Decidable.not_not.1 h]

/-- Data that is loaded part by part is loaded as a whole, or it is refused with the state as it was. -/
theorem Loading.write_eq (d : Loading K) :
    d.write = Update.atomically fun s : Core K n m => (d.apply s).map (Prod.mk ()) := by
  cases d with
  | parameters p => rfl
  | hessianType t =>
    refine Update.eq_atomically fun s => ?_
    rw [write, Update.ensures_bind, Update.ensures_get, apply, setHessianType]
    split
    · exact ⟨rfl, _, rfl, rfl⟩
    · rfl
  | hessian a =>
    refine Update.eq_atomically fun s => ?_
    simp only [write, apply, setHessian]
    cases Grid.ofArray? n n a with
    | none => exact ⟨rfl, _, rfl, rfl⟩
    | some H =>
      rw [Update.ensures_bind, Update.ensures_modify]
      refine (giveUp_ensures _).mono ?_ fun _ _ h => h.elim
      rintro _ s' rfl
      rfl
  | gradient a => exact writeVector_eq (fun _ => rfl) fun _ => rfl
  | lower a => exact (writeBounds_lower a).trans (writeLower_eq a)
  | upper a => exact (writeBounds_upper a).trans (writeUpper_eq a)
  | bounds l u => exact writeBounds_eq l u

end Core

-- ---------------------------------------------------------------------------
-- Problems with constraints
-- ---------------------------------------------------------------------------

namespace Constrained

/-- Loads the lower limits of the rows, entry by entry. -/
def writeRowLower (a : Array K) : Update (Constrained K n m) Unit :=
  writeVector (fun s => s.parameters.infinity) (fun s => s.target.rowLower)
    (fun s x => { s with target := { s.target with rowLower := x } }) a

/-- Loads the upper limits of the rows, entry by entry. -/
def writeRowUpper (a : Array K) : Update (Constrained K n m) Unit :=
  writeVector (fun s => s.parameters.infinity) (fun s => s.target.rowUpper)
    (fun s x => { s with target := { s.target with rowUpper := x } }) a

/-- Loads data part by part, each check where the solvers make it. -/
def Loading.write : Loading K → Update (Constrained K n m) Unit
  | core d => onCore d.write
  | matrix a =>
    match Grid.ofArray? m n a with
    | none => Update.fail .invalidArguments
    | some A => do
      modify fun s => { s with matrix := A }
      onCore Core.giveUp
  | rowLower a => writeRowLower a
  | rowUpper a => writeRowUpper a
  | rowBounds l u =>
    if l.size ≠ m ∨ u.size ≠ m then Update.fail .invalidArguments
    else if Core.crosses m (fun i => l.getD i 0) (fun i => u.getD i 0) then
      Update.fail .setupConstraintFailed
    else do
      writeRowLower l
      writeRowUpper u

theorem writeRowLower_eq (a : Array K) : writeRowLower a =
    Update.atomically fun s : Constrained K n m => (s.setRowLower a).map (Prod.mk ()) :=
  writeVector_eq (fun _ => rfl) fun _ => rfl

theorem writeRowUpper_eq (a : Array K) : writeRowUpper a =
    Update.atomically fun s : Constrained K n m => (s.setRowUpper a).map (Prod.mk ()) :=
  writeVector_eq (fun _ => rfl) fun _ => rfl

/-- Data that is loaded part by part is loaded as a whole, or it is refused with the state as it was. -/
theorem Loading.write_eq (d : Loading K) :
    d.write = Update.atomically fun s : Constrained K n m => (d.apply s).map (Prod.mk ()) := by
  cases d with
  | core d =>
    refine Update.eq_atomically fun s => ?_
    rw [write, onCore, Update.ensures_focus, d.write_eq]
    refine (Update.ensures_atomically_map d.apply s.toCore).mono (fun _ c hc => ?_) ?_
    · rw [apply, hc]
      rfl
    · rintro f c ⟨rfl, e, rfl, he⟩
      exact ⟨rfl, e, rfl, by rw [apply, he]; rfl⟩
  | matrix a =>
    refine Update.eq_atomically fun s => ?_
    simp only [write, apply, setMatrix]
    cases Grid.ofArray? m n a with
    | none => exact ⟨rfl, _, rfl, rfl⟩
    | some A =>
      rw [Update.ensures_bind, Update.ensures_modify, onCore, Update.ensures_focus]
      refine (Core.giveUp_ensures _).mono ?_ fun _ _ h => h.elim
      rintro _ c rfl
      rfl
  | rowLower a => exact writeRowLower_eq a
  | rowUpper a => exact writeRowUpper_eq a
  | rowBounds l u =>
    exact writePair_eq (writeRowLower_eq l) (writeRowUpper_eq u) (fun h _ => loaded_ne_error h)
      fun h _ => loaded_ne_error h

end Constrained

end ActiveSet

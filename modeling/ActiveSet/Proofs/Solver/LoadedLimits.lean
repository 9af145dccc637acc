import ActiveSet.Proofs.Solver.Constrained.Optimal
import ActiveSet.Proofs.Solver.Rejection

/-!
# Loaded limits and the calls that look at them

A solve begins with a look at the loaded limits. From scratch it classifies them, the constraints before
the bounds, and a solve that is resumed compares them as they are. Both are refused where the limits of an
entity cross, with the error of its kind, and nothing else is refused with these errors.

Nothing but loading writes to the loaded limits, however a call ends. So limits that are in order are of
no concern to any solve until other limits of that kind are loaded (`Interface.Vets.spares_of`), and
limits that cross are found by one.

* `Data.InOrder`: the limits of one kind do not cross.
* `Data.Halts`: how a set-up fails.
* `Method.Vets`: what a method looks at before it solves.
* `Interface.Spares`: no solve is refused because of limits of one kind, until such limits are loaded.
-/

namespace ActiveSet

open Update

variable {K : Type} [Scalar K] {n m : Nat} {σ δ τ : Type}

-- ---------------------------------------------------------------------------
-- Limits of one kind
-- ---------------------------------------------------------------------------

/-- The limits of one kind do not cross. -/
def Data.InOrder (d : Data K n m) (kind : EntityKind) : Prop :=
  ∀ e : Entity n m, e.kind = kind → ¬d.upperOf e < d.lowerOf e

/-- Two problems have the same limits of one kind. -/
def Data.SameLimits (kind : EntityKind) (d d' : Data K n m) : Prop :=
  ∀ e : Entity n m, e.kind = kind → d'.lowerOf e = d.lowerOf e ∧ d'.upperOf e = d.upperOf e

/-- How a set-up fails: the limits of a kind cross, which is why it is refused, or all limits are in
order, and it has come to the places of the entities. -/
inductive Data.Halts (d : Data K n m) : Fault → Prop
  | limits {kind : EntityKind} (hcross : ¬d.InOrder kind) : Halts d (.failed kind.setupFailed)
  | placement {f : Fault} (hordered : ∀ kind, d.InOrder kind)
    (hf : ∀ e, f = .failed e → e.OfPlacement) : Halts d f

theorem EntityKind.setupFailed_inj {kind kind' : EntityKind} (h : kind.setupFailed = kind'.setupFailed) :
    kind = kind' := by
  cases kind <;> cases kind' <;> first | rfl | cases h

theorem EntityKind.not_ofPlacement (kind : EntityKind) : ¬kind.setupFailed.OfPlacement := by
  cases kind <;> rintro (h | h) <;> cases h

theorem EntityKind.ofResuming (kind : EntityKind) : kind.setupFailed.OfResuming := by
  cases kind <;> decide

theorem EntityKind.ofLoading (kind : EntityKind) : kind.setupFailed.OfLoading := by
  cases kind <;> decide

theorem EntityKind.setupError (kind : EntityKind) :
    Method.setupError kind.setupFailed = kind.setupFailed := by
  cases kind <;> rfl

theorem EntityKind.eq_of_setupError {kind : EntityKind} {e : QpError}
    (h : Method.setupError e = kind.setupFailed) : e = kind.setupFailed := by
  cases kind <;> cases e <;> first | rfl | cases h

namespace Data

variable {d d' : Data K n m} {kind : EntityKind}

theorem SameLimits.refl (kind : EntityKind) (d : Data K n m) : SameLimits kind d d :=
  fun _ _ => ⟨rfl, rfl⟩

theorem SameLimits.trans {d'' : Data K n m} (h : SameLimits kind d d') (h' : SameLimits kind d' d'') :
    SameLimits kind d d'' :=
  fun e he => ⟨(h' e he).1.trans (h e he).1, (h' e he).2.trans (h e he).2⟩

theorem SameLimits.inOrder_iff (h : SameLimits kind d d') : d'.InOrder kind ↔ d.InOrder kind :=
  forall₂_congr fun e he => by rw [(h e he).1, (h e he).2]

theorem inOrder_bound : d.InOrder .bound ↔ ∀ i : Fin n, ¬d.upper i < d.lower i :=
  ⟨fun h i => h (.bound i) rfl, fun h e he => by
    cases e with
    | bound i => exact h i
    | constraint i => cases he⟩

theorem inOrder_constraint : d.InOrder .constraint ↔ ∀ i : Fin m, ¬d.rowUpper i < d.rowLower i :=
  ⟨fun h i => h (.constraint i) rfl, fun h e he => by
    cases e with
    | bound i => cases he
    | constraint i => exact h i⟩

/-- Without constraints there are none whose limits could cross. -/
theorem inOrder_of_noRows (d : Data K n 0) : d.InOrder .constraint :=
  inOrder_constraint.2 fun i => i.elim0

/-- A set-up is refused with the error of a kind only where the limits of that kind cross. -/
theorem Halts.not_inOrder (h : d.Halts (.failed kind.setupFailed)) : ¬d.InOrder kind := by
  generalize hf : Fault.failed kind.setupFailed = f at h
  cases h with
  | limits hcross =>
    obtain rfl := EntityKind.setupFailed_inj (Fault.failed.inj hf)
    exact hcross
  | placement _ hplacement => exact absurd (hplacement _ hf.symm) kind.not_ofPlacement

/-- A set-up is refused with the error of the only kind whose limits cross. -/
theorem Halts.eq_of_not_inOrder {f : Fault} (h : d.Halts f) (hcross : ¬d.InOrder kind)
    (hothers : ∀ kind', kind' ≠ kind → d.InOrder kind') : f = .failed kind.setupFailed := by
  cases h with
  | @limits kind' hcross' =>
    by_cases heq : kind' = kind
    · rw [heq]
    · exact absurd (hothers _ heq) hcross'
  | placement hordered => exact absurd (hordered kind) hcross

end Data

-- ---------------------------------------------------------------------------
-- Methods
-- ---------------------------------------------------------------------------

namespace Method

/-- What a method looks at before it solves: the loaded limits, which it leaves as they are. -/
structure Vets (M : Method K n m σ) : Prop where
  target_reset : ∀ s, (M.core (M.reset s)).target = (M.core s).target
  checkLimits : ∀ s e, M.checkLimits s = .error e →
    ∃ kind : EntityKind, e = kind.setupFailed ∧ ¬(M.core s).target.InOrder kind
  prepare : ∀ guess s, (M.prepare guess).Ensures (M.reset s)
    (fun _ s' => (M.core s').target = (M.core s).target ∧ ∀ kind, (M.core s).target.InOrder kind)
    fun f s' => (M.core s').target = (M.core s).target ∧ (M.core s).target.Halts f

variable {M : Method K n m σ}

omit [Scalar K] in
theorem Restartable.target_withStatus (hM : M.Restartable) (status : Status) (s : σ) :
    (M.core (M.withStatus status s)).target = (M.core s).target :=
  (hM.sameTask_withStatus status s).target

/-- A step leaves the loaded problem as it is, however it ends. -/
theorem Restartable.step_target (hM : M.Restartable) (index : Nat) (s : σ) :
    (M.step index).Ensures s (fun _ s' => (M.core s').target = (M.core s).target)
      fun _ s' => (M.core s').target = (M.core s).target := by
  -- up to any point where a step can end, nothing but the point has changed
  have hdirected {s1 : σ} (h : M.determineDirection.Leaves (M.withStatus .performingHomotopy s) s1) :
      (M.core s).SameTask (M.core s1) :=
    (hM.direction (M.core s)).of_leaves (hM.sameTask_withStatus .performingHomotopy s) h
  have hperformed {s1 : σ}
      (h : M.determineDirection.Leaves (M.withStatus .performingHomotopy s) s1) :
      (M.core s).SameTask (M.core (M.perform (M.stepLength s1).1 (M.stepLength s1).2 s1)) :=
    (hdirected h).trans (hM.perform _ _ s1)
  refine (M.step_spec index s).mono (fun it s' h => ?_) fun f s' h => ?_
  · cases h with
    | full hdirection =>
      rw [hM.target_withStatus]
      exact (hperformed (.inl ⟨_, hdirection⟩)).target
    | changed hdirection hevent hchange =>
      rw [hM.target_withStatus]
      exact ((hM.change _ _).of_leaves (hperformed (.inl ⟨_, hdirection⟩)) (.inl ⟨_, hchange⟩)).target
  · cases h with
    | undirected hdirection =>
      rw [hM.target_withStatus]
      exact (hdirected (.inr ⟨_, hdirection⟩)).target
    | unchanged hdirection hevent hchange hreported =>
      have hs2 := (hM.change _ _).of_leaves (hperformed (.inl ⟨_, hdirection⟩)) (.inr ⟨_, hchange⟩)
      cases hreported with
      | infeasible => exact (congrArg Core.target (hM.core_withCore _ _)).trans hs2.target
      | unbounded => exact (congrArg Core.target (hM.core_withCore _ _)).trans hs2.target
      | other => exact (hM.target_withStatus _ _).trans hs2.target
    | directionBroken hdirection => exact (hdirected (.inr ⟨_, hdirection⟩)).target
    | lengthBroken hdirection => exact (hperformed (.inl ⟨_, hdirection⟩)).target
    | changeBroken hdirection hevent hchange =>
      exact ((hM.change _ _).of_leaves (hperformed (.inl ⟨_, hdirection⟩)) (.inr ⟨_, hchange⟩)).target

/-- So does a homotopy. -/
theorem Restartable.follow_target (hM : M.Restartable) (obs : Observer K n m τ) (budget : Nat) :
    ∀ (index : Nat) (s : σ) (t : τ), (M.follow obs budget index).Ensures (s, t)
      (fun _ r => (M.core r.1).target = (M.core s).target)
      fun _ r => (M.core r.1).target = (M.core s).target := by
  induction budget with
  | zero =>
    intro index s t
    rw [follow, ensures_fail]
  | succ budget ih =>
    intro index s t
    rw [follow, ensures_bind, ensures_first]
    -- no step writes the loaded problem, and neither do the records of the observer
    refine (hM.step_target index s).mono (fun it s1 hs1 => ?_) fun _ _ h => h
    rw [ensures_bind, ensures_get]
    dsimp only
    rw [ensures_bind, ensures_set]
    split
    · rw [ensures_pure]
      exact hs1
    · split
      · rw [ensures_fail]
        exact hs1
      · exact (ih (index + 1) s1 _).mono (fun _ _ h => h.trans hs1) fun _ _ h => h.trans hs1

theorem Restartable.homotopy_target (hM : M.Restartable) (c : Call K n m δ) (s : σ) :
    (M.core (c.homotopy M s).2).target = (M.core s).target := by
  have hrun {τ : Type} (obs : Observer K n m τ) (t : τ) (budget : Nat) :
      (M.core (outcome (M.homotopy obs budget (s, t))).2).target = (M.core s).target := by
    have hfollow := hM.follow_target obs budget 0 (M.clearVerdict s) t
    rw [hM.core_clearVerdict] at hfollow
    obtain ⟨k, r, hr, h⟩ | ⟨f, r, hr, h⟩ := outcome_of_ensures hfollow
    · exact (congrArg (fun r => (M.core r.2).target) hr).trans h
    · exact (congrArg (fun r => (M.core r.2).target) hr).trans h
  cases c with
  | solve obs t budget => exact hrun obs t budget
  | resume obs t budget => exact hrun obs t budget
  | load d => rfl
  | reset => rfl

end Method

-- ---------------------------------------------------------------------------
-- Calls
-- ---------------------------------------------------------------------------

/-- Whether a call loads data of some sort. -/
def Call.sets (sets : δ → Bool) : Call K n m δ → Bool
  | .load d => sets d
  | .solve .. | .resume .. | .reset => false

namespace Interface

variable {I : Interface K n m σ δ} {frame : σ → σ → Prop} {sets : EntityKind → δ → Bool}
  {kind : EntityKind} {s : σ}

/-- No solve is refused because of the limits of a kind, until such limits are loaded. -/
def Spares (I : Interface K n m σ δ) (sets : δ → Bool) (kind : EntityKind) (s : σ) : Prop :=
  ∀ calls : List (Call K n m δ), (∀ c ∈ calls, c.sets sets = false) →
    ∀ c : Call K n m δ, c.isSolve = true →
      (I.call c (calls.foldl (fun s c => (I.call c s).2) s)).1 ≠ .error (.failed kind.setupFailed)

/-- A solver looks at the loaded limits before it solves, and they are written by nothing but loading
limits of the same kind. -/
structure Vets (I : Interface K n m σ δ) (sets : EntityKind → δ → Bool) : Prop where
  method : I.method.Vets
  load : ∀ kind d s s', sets kind d = false → I.load d s = .ok s' →
    Data.SameLimits kind (I.method.core s).target (I.method.core s').target

/-- Calls that do not load anything leave the loaded problem as it is. -/
theorem call_target (hF : I.method.Frames frame) (hV : I.method.Vets) {c : Call K n m δ}
    (hc : ∀ d, c ≠ .load d) (s : σ) :
    (I.method.core (I.call c s).2).target = (I.method.core s).target := by
  -- a homotopy does not load anything
  have hbegun {start : σ} (h : I.StartsBy s c start)
      (hstart : (I.method.core start).target = (I.method.core s).target) :
      (I.method.core (I.call c s).2).target = (I.method.core s).target := by
    rw [call_of_startsBy h]
    exact (hF.restartable.homotopy_target c start).trans hstart
  cases c with
  | load d => exact absurd rfl (hc d)
  | reset => exact hV.target_reset s
  | resume obs view budget =>
    obtain hstart | ⟨e, -, hcall⟩ := I.resume_cases s obs view budget
    · exact hbegun hstart rfl
    · rw [hcall]
  | solve obs view budget xGuess yGuess =>
    obtain ⟨e, -, hcall⟩ | ⟨guess, f, s1, s2, hprepare, hcall, hs2⟩ | ⟨start, hstart⟩ :=
      I.solve_cases s obs view budget xGuess yGuess
    · rw [hcall]
    · rw [hcall]
      have hs1 := ((hV.prepare guess s).of_error hprepare).1
      obtain rfl | rfl := hs2
      · exact hs1
      · exact (hF.restartable.target_withStatus _ _).trans hs1
    · refine hbegun hstart ?_
      cases hstart with
      | prepared hguess hprepare => exact ((hV.prepare _ s).of_ok hprepare).1

/-- A solve is refused with the error of a kind only where the loaded limits of that kind cross. -/
theorem not_inOrder_of_refused (hF : I.method.Frames frame) (hV : I.method.Vets) {c : Call K n m δ}
    (hc : c.isSolve = true) (h : (I.call c s).1 = .error (.failed kind.setupFailed)) :
    ¬(I.method.core s).target.InOrder kind := by
  have hpair : ∀ {r : Except Fault Nat × σ}, I.call c s = r →
      r.1 = .error (.failed kind.setupFailed) := fun hr => hr ▸ h
  cases c with
  | load d => cases hc
  | reset => cases hc
  | resume obs view budget =>
    -- errors about limits come from their check before the homotopy, and not from the homotopy
    obtain hstart | ⟨e, he, hcall⟩ := I.resume_cases s obs view budget
    · exact absurd kind.ofResuming (not_ofResuming hF obs view budget hstart (Prod.ext h rfl))
    · have heq := Fault.failed.inj (Except.error.inj (hpair hcall))
      obtain rfl | hlimits := he
      · cases kind <;> cases heq
      · obtain ⟨kind', rfl, hcross⟩ := hV.checkLimits s e hlimits
        obtain rfl := EntityKind.setupFailed_inj heq
        exact hcross
  | solve obs view budget xGuess yGuess =>
    -- errors about limits come from the set-up, and neither from the guess nor from the homotopy
    obtain ⟨e, hguess, hcall⟩ | ⟨guess, f, s1, s2, hprepare, hcall, -⟩ | ⟨start, hstart⟩ :=
      I.solve_cases s obs view budget xGuess yGuess
    · obtain rfl := Guess.ofArrays_error hguess
      have heq := Fault.failed.inj (Except.error.inj (hpair hcall))
      cases kind <;> cases heq
    · have hhalts := ((hV.prepare guess s).of_error hprepare).2
      have heq := Except.error.inj (hpair hcall)
      cases f with
      | broken => cases heq
      | failed e =>
        obtain rfl := EntityKind.eq_of_setupError (Fault.failed.inj heq)
        exact hhalts.not_inOrder
    · obtain ⟨e', -, he'⟩ := failed_of_startsBy hstart (Prod.ext h rfl)
      have hne := QpError.not_ofLoading_initError e'
      rw [show Method.initError e' = kind.setupFailed from he'] at hne
      exact absurd kind.ofLoading hne

/-- A solve from scratch is refused with the error of the only kind whose loaded limits cross. -/
theorem solve_refused (hV : I.method.Vets) (hcross : ¬(I.method.core s).target.InOrder kind)
    (hothers : ∀ kind', kind' ≠ kind → (I.method.core s).target.InOrder kind')
    (obs : Observer K n m τ) (view : τ) (budget : Nat) :
    (I.call (.solve obs view budget none none) s).1 = .error (.failed kind.setupFailed) := by
  have hnone : Guess.ofArrays (K := K) n m none none = .ok ⟨none, none⟩ := rfl
  rw [Interface.call, Method.solve_guessed hnone]
  have hprepare := hV.prepare ⟨none, none⟩ s
  cases hrun : I.method.prepare ⟨none, none⟩ (I.method.reset s) with
  | ok _ s1 => exact absurd ((hprepare.of_ok hrun).2 kind) hcross
  | error f s1 =>
    rw [(hprepare.of_error hrun).2.eq_of_not_inOrder hcross hothers]
    exact congrArg (fun e => Except.error (Fault.failed e)) kind.setupError

namespace Vets

/-- A call that does not load limits of a kind leaves them as they are. -/
theorem call_sameLimits (hI : I.Vets sets) (hF : I.method.Frames frame) {c : Call K n m δ}
    (hc : c.sets (sets kind) = false) (s : σ) :
    Data.SameLimits kind (I.method.core s).target (I.method.core (I.call c s).2).target := by
  cases c with
  | load d =>
    rw [Interface.call]
    cases hload : I.load d s with
    | error e => exact Data.SameLimits.refl kind (I.method.core s).target
    | ok s' => exact hI.load kind d s s' hc hload
  | solve | resume | reset =>
    rw [call_target hF hI.method (by rintro d ⟨⟩)]
    exact .refl kind _

theorem run_sameLimits (hI : I.Vets sets) (hF : I.method.Frames frame) (calls : List (Call K n m δ)) :
    (∀ c ∈ calls, c.sets (sets kind) = false) → ∀ s : σ,
      Data.SameLimits kind (I.method.core s).target
        (I.method.core (calls.foldl (fun s c => (I.call c s).2) s)).target := by
  induction calls with
  | nil => exact fun _ s => .refl kind _
  | cons c rest ih =>
    intro hcalls s
    obtain ⟨hc, hrest⟩ := List.forall_mem_cons.1 hcalls
    exact (hI.call_sameLimits hF hc s).trans (ih hrest _)

/-- Limits that are in order are of no concern to a solve until limits of their kind are loaded. -/
theorem spares_of (hI : I.Vets sets) (hF : I.method.Frames frame)
    (h : (I.method.core s).target.InOrder kind) : I.Spares (sets kind) kind s :=
  fun calls hcalls _ hc hrefused => not_inOrder_of_refused hF hI.method hc hrefused
    ((hI.run_sameLimits hF calls hcalls s).inOrder_iff.2 h)

/-- Limits that cross are found by a solve, as soon as those of the other kind do not cross. -/
theorem inOrder_of_spares (hI : I.Vets sets) (hF : I.method.Frames frame)
    (h : I.Spares (sets kind) kind s)
    (hclear : ∃ calls : List (Call K n m δ), (∀ c ∈ calls, c.sets (sets kind) = false) ∧
      ∀ kind', kind' ≠ kind →
        (I.method.core (calls.foldl (fun s c => (I.call c s).2) s)).target.InOrder kind') :
    (I.method.core s).target.InOrder kind := by
  by_contra hcross
  obtain ⟨calls, hcalls, hothers⟩ := hclear
  -- limits of the other kind that cross would be found in place of these
  have hsame := hI.run_sameLimits hF calls hcalls s
  exact h calls hcalls (.solve Observer.silent () 0 none none) rfl
    (solve_refused hI.method (mt hsame.inOrder_iff.1 hcross) hothers _ _ _)

end Vets

end Interface

-- ---------------------------------------------------------------------------
-- Set-ups
-- ---------------------------------------------------------------------------

omit [Scalar K] in
theorem Core.ofTask_target (d : Data K n m) : Core.OfTask fun c : Core K n m => c.target = d :=
  fun _ _ h ht _ _ _ => ht.trans h

theorem EntitySet.isActive_reset {kind : EntityKind} (s : EntitySet kind n) (i : Fin n) :
    s.reset.isActive i = false := by
  rw [isActive, activity_reset]
  rfl

namespace Core

variable {s : Core K n m}

theorem checkBounds_ok_iff : s.checkBounds = .ok () ↔ s.target.InOrder .bound := by
  rw [Data.inOrder_bound, checkBounds_eq_ok_iff, not_crosses_iff]

theorem not_inOrder_of_checkBounds {e : QpError} (h : s.checkBounds = .error e) :
    e = .setupBoundFailed ∧ ¬s.target.InOrder .bound :=
  ⟨checkBounds_error h, fun hordered => nomatch h.symm.trans (checkBounds_ok_iff.2 hordered)⟩

/-- The classification of the bounds is refused exactly where their limits cross. -/
theorem classifyBounds_vets (hs : s.bounds.Sound) (hinactive : ∀ i : Fin n, s.bounds.isActive i = false)
    (hunknown : ∀ i : Fin n, s.bounds.limitType i = .unknown) :
    classifyBounds.Ensures s (fun _ s' => s'.target = s.target ∧ s.target.InOrder .bound)
      fun f s' => s'.target = s.target ∧ f = .failed .setupBoundFailed ∧
        ¬s.target.InOrder .bound := by
  have hclassify := (classifyBounds_ensures hs hinactive).and s.classifyBounds_sameTask
  -- how it fails is known, and that it succeeds only on limits that do not cross
  by_cases h : s.target.InOrder .bound
  · have hok := classifyBounds_ok hunknown (Data.inOrder_bound.1 h)
    exact (hclassify.and hok).mono (fun _ _ hs' => ⟨hs'.1.2.1.target, h⟩) fun _ _ hs' => hs'.2.elim
  · refine hclassify.mono (fun _ _ hs' => absurd (checkBounds_ok_iff.1 hs'.2.2) h) ?_
    rintro _ _ ⟨⟨rfl, b, rfl, -⟩, -⟩
    exact ⟨rfl, rfl, h⟩

theorem prepareBounds_vets (hs : s.bounds.Sound) (hinactive : ∀ i : Fin n, s.bounds.isActive i = false)
    (hunknown : ∀ i : Fin n, s.bounds.limitType i = .unknown) (guess : Guess K n m) :
    (prepareBounds guess).Ensures s (fun _ s' => s'.target = s.target ∧ s.target.InOrder .bound)
      fun f s' => s'.target = s.target ∧ (f = .failed .setupBoundFailed ∧ ¬s.target.InOrder .bound ∨
        s.target.InOrder .bound ∧ ∀ e, f = .failed e → e.OfPlacement) := by
  unfold prepareBounds
  refine ensures_bind_of (classifyBounds_vets hs hinactive hunknown) (fun _ _ h => ⟨h.1, .inl h.2⟩) ?_
  rintro ⟨⟩ s1 ⟨hs1, hordered⟩
  rw [ensures_bind, ensures_modify]
  refine ensures_bind_of (activateBounds_preserves (ofTask_target s.target) guess _ hs1)
    (fun _ _ h => ⟨h.1, .inr ⟨hordered, h.2⟩⟩) ?_
  rintro ⟨⟩ s2 hs2
  rw [ensures_modify]
  exact ⟨hs2, hordered⟩

end Core

theorem Box.prepare_vets (guess : Guess K n 0) (s : Box K n) :
    (prepare guess).Ensures (Core.reset s)
      (fun _ s' => s'.target = s.target ∧ ∀ kind, s.target.InOrder kind)
      fun f s' => s'.target = s.target ∧ s.target.Halts f := by
  have hall (h : s.target.InOrder .bound) (kind : EntityKind) : s.target.InOrder kind := by
    cases kind with
    | bound => exact h
    | constraint => exact s.target.inOrder_of_noRows
  unfold prepare
  -- crossed limits are refused first, and other refusals come after all limits were looked at
  rw [ensures_bind, ensures_modify]
  refine ensures_bind_of (Core.prepareBounds_vets s.bounds.sound_reset s.bounds.isActive_reset
    s.bounds.limitType_reset guess) ?_ ?_
  · rintro f s1 ⟨hs1, ⟨rfl, hcross⟩ | ⟨hordered, hf⟩⟩
    · exact ⟨hs1, .limits hcross⟩
    · exact ⟨hs1, .placement (hall hordered) hf⟩
  rintro ⟨⟩ s1 ⟨hs1, hordered⟩
  refine ensures_bind_of (factorize_preserves (Core.ofTask_target s.target) s1 hs1)
    (fun _ _ h => ⟨h.1, .placement (hall hordered) h.2⟩) ?_
  rintro ⟨⟩ s2 hs2
  rw [ensures_modify]
  exact ⟨hs2, hall hordered⟩

theorem Box.vets : (Box.method : Method K n 0 (Box K n)).Vets where
  target_reset _ := rfl
  checkLimits _ _ h := ⟨.bound, Core.not_inOrder_of_checkBounds h⟩
  prepare := prepare_vets

namespace Constrained

variable {s : Constrained K n m}

/-- The classification of the constraints is refused exactly where their limits cross. -/
theorem classifyConstraints_vets (hs : s.constraints.Sound)
    (hinactive : ∀ i : Fin m, s.constraints.isActive i = false)
    (hunknown : ∀ i : Fin m, s.constraints.limitType i = .unknown) :
    classifyConstraints.Ensures s
      (fun _ s' => s'.toCore = s.toCore ∧ s.target.InOrder .constraint)
      fun f s' => s'.toCore = s.toCore ∧ f = .failed .setupConstraintFailed ∧
        ¬s.target.InOrder .constraint := by
  have hclassify := (classifyConstraints_ensures hs hinactive).and s.classifyConstraints_hasTask
  by_cases h : s.target.InOrder .constraint
  · have hok := classifyConstraints_ok hunknown (Data.inOrder_constraint.1 h)
    refine (hclassify.and hok).mono ?_ fun _ _ hs' => hs'.2.elim
    rintro _ _ ⟨⟨⟨c, rfl, -⟩, -⟩, -⟩
    exact ⟨rfl, h⟩
  · refine hclassify.mono (fun _ _ hs' => ?_) ?_
    · exact absurd (Data.inOrder_constraint.2 (Core.not_crosses_iff.1 hs'.2.2)) h
    · rintro _ _ ⟨⟨rfl, c, rfl, -⟩, -⟩
      exact ⟨rfl, rfl, h⟩

theorem prepare_vets (guess : Guess K n m) (s : Constrained K n m) :
    (prepare guess).Ensures s.reset
      (fun _ s' => s'.target = s.target ∧ ∀ kind, s.target.InOrder kind)
      fun f s' => s'.target = s.target ∧ s.target.Halts f := by
  unfold prepare
  rw [ensures_bind, ensures_modify]
  refine ensures_bind_of (classifyConstraints_vets s.constraints.sound_reset
    s.constraints.isActive_reset s.constraints.limitType_reset) ?_ ?_
  · rintro f s1 ⟨hs1, rfl, hcross⟩
    exact ⟨(congrArg Core.target hs1).trans rfl, .limits hcross⟩
  rintro ⟨⟩ ⟨core, matrix, constraints, nullSpace, active, ax, dax, dependency⟩ ⟨hs1, hrows⟩
  obtain rfl : core = _ := hs1
  rw [ensures_bind, onCore, ensures_focus]
  refine (Core.prepareBounds_vets s.bounds.sound_reset s.bounds.isActive_reset
    s.bounds.limitType_reset guess).mono ?_ ?_
  · rintro ⟨⟩ core ⟨hcore, hbounds⟩
    have hall (kind : EntityKind) : s.target.InOrder kind := by
      cases kind with
      | bound => exact hbounds
      | constraint => exact hrows
    have htarget := Core.ofTask_target (n := n) (m := m) s.target
    -- what is left looks for places, and writes to nothing that was loaded
    rw [ensures_bind, ensures_modify, ensures_bind, ensures_get]
    refine ensures_bind_of (preserves_require (P := fun s' => s'.target = s.target)
      (E := QpError.OfPlacement) _ _ hcore) (fun _ _ h => ⟨h.1, .placement hall h.2⟩) ?_
    intro nullSpace _ _
    rw [ensures_bind, ensures_set]
    refine ensures_bind_of (activateConstraints_preserves htarget guess _ hcore)
      (fun _ _ h => ⟨h.1, .placement hall h.2⟩) ?_
    intro _ s3 hs3
    rw [ensures_bind, ensures_modify]
    refine ensures_bind_of (factorize_preserves htarget _ hs3)
      (fun _ _ h => ⟨h.1, .placement hall h.2⟩) ?_
    intro _ s4 hs4
    rw [ensures_bind, ensures_modify, ensures_modify]
    exact ⟨hs4, hall⟩
  · rintro f core ⟨hcore, ⟨rfl, hcross⟩ | ⟨hbounds, hf⟩⟩
    · exact ⟨hcore, .limits hcross⟩
    · refine ⟨hcore, .placement (fun kind => ?_) hf⟩
      cases kind with
      | bound => exact hbounds
      | constraint => exact hrows

theorem not_inOrder_of_checkLimits {e : QpError} (h : s.checkLimits = .error e) :
    ∃ kind : EntityKind, e = kind.setupFailed ∧ ¬s.target.InOrder kind := by
  obtain ⟨rfl, hcross⟩ | ⟨rfl, hcross⟩ := checkLimits_eq_error h
  · refine ⟨.bound, rfl, fun hordered => ?_⟩
    rw [Core.not_crosses_iff.2 (Data.inOrder_bound.1 hordered)] at hcross
    cases hcross
  · refine ⟨.constraint, rfl, fun hordered => ?_⟩
    rw [Core.not_crosses_iff.2 (Data.inOrder_constraint.1 hordered)] at hcross
    cases hcross

theorem vets : (method : Method K n m (Constrained K n m)).Vets where
  target_reset _ := rfl
  checkLimits _ _ h := not_inOrder_of_checkLimits h
  prepare := prepare_vets

end Constrained

end ActiveSet

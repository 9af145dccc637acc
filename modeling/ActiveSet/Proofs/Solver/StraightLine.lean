import ActiveSet.Proofs.Lifecycle
import ActiveSet.Proofs.Solver.Constrained.Stepping
import ActiveSet.Proofs.Solver.Resumption

/-!
# A homotopy follows one straight line

A step recomputes the way that is left to the loaded problem and goes a part of it, separately for the
gradient and for each of the limits. Nevertheless all of them stay at the same point of the line from
where the homotopy has started to the loaded problem: steps that go the parts `τ₁`, …, `τₖ` of what was
left have gone the share `1 - (1 - τ₁) ⋯ (1 - τₖ)` of the whole. This is so over the real numbers, with
any tolerances, from any state, and wherever a step may stop (`homotopy_straight`).

* `Data.between`, `share`: the points of the line, and how far along it steps have come.
* `Method.Passes`: the states that a homotopy passes through, with the lengths of its steps so far.
* `Method.Straight`: what each part of a step does with the problems.
* `Interface.Straight`: what this comes to for the calls of a solver.
-/

namespace ActiveSet

open Update

variable {n m : ℕ} {σ δ τ : Type}

-- ---------------------------------------------------------------------------
-- The line
-- ---------------------------------------------------------------------------

/-- The vector a share `s` of the way from one vector to another one. -/
noncomputable def Tuple.between {k : ℕ} (s : ℝ) (x y : Tuple ℝ k) : Tuple ℝ k :=
  .ofFn k fun i => (1 - s) * x i + s * y i

/-- The problem a share `s` of the way from one problem to another one. -/
noncomputable def Data.between (s : ℝ) (a b : Data ℝ n m) : Data ℝ n m where
  gradient := .between s a.gradient b.gradient
  lower := .between s a.lower b.lower
  upper := .between s a.upper b.upper
  rowLower := .between s a.rowLower b.rowLower
  rowUpper := .between s a.rowUpper b.rowUpper

/-- The share of the whole way that steps have gone, each of which has gone a part of what was left. -/
noncomputable def share (taus : List ℝ) : ℝ := 1 - (taus.map (1 - ·)).prod

section Line

variable {k : ℕ} {taus more : List ℝ} {tau : ℝ}

theorem Tuple.between_zero (x y : Tuple ℝ k) : Tuple.between 0 x y = x :=
  Tuple.ext fun i hi => by rw [between, ofFn_apply hi]; ring

theorem Tuple.between_one (x y : Tuple ℝ k) : Tuple.between 1 x y = y :=
  Tuple.ext fun i hi => by rw [between, ofFn_apply hi]; ring

/-- A part of what is left of the way leads further on along the same line. -/
theorem Tuple.addScaled_between (tau s : ℝ) (x y : Tuple ℝ k) :
    Tuple.addScaled tau (y.sub (.between s x y)) (.between s x y) =
      .between (1 - (1 - s) * (1 - tau)) x y := by
  refine Tuple.ext fun i hi => ?_
  rw [addScaled_apply _ _ _ hi, sub_apply _ _ hi]
  simp only [between, ofFn_apply hi]
  ring

theorem Data.between_zero (a b : Data ℝ n m) : Data.between 0 a b = a := by
  simp only [between, Tuple.between_zero]

theorem Data.between_one (a b : Data ℝ n m) : Data.between 1 a b = b := by
  simp only [between, Tuple.between_one]

theorem Data.addScaled_between (tau s : ℝ) (a b : Data ℝ n m) :
    Data.addScaled tau (b.sub (.between s a b)) (.between s a b) =
      .between (1 - (1 - s) * (1 - tau)) a b := by
  simp only [between, addScaled, sub, Tuple.addScaled_between]

theorem share_nil : share [] = 0 := by simp [share]

theorem share_append : share (taus ++ more) = 1 - (1 - share taus) * (1 - share more) := by
  simp [share]

theorem share_singleton : share [tau] = tau := by simp [share]

/-- A step goes on from where the steps before it have come. -/
theorem share_concat : share (taus ++ [tau]) = 1 - (1 - share taus) * (1 - tau) := by
  rw [share_append, share_singleton]

theorem share_mem (h : ∀ t ∈ taus, 0 ≤ t ∧ t ≤ 1) : 0 ≤ share taus ∧ share taus ≤ 1 := by
  induction taus with
  | nil => simp [share_nil]
  | cons t rest ih =>
    obtain ⟨hlow, hhigh⟩ := h t List.mem_cons_self
    obtain ⟨hlow', hhigh'⟩ := ih fun t ht => h t (List.mem_cons_of_mem _ ht)
    have hprod := mul_nonneg (sub_nonneg.2 hhigh) (sub_nonneg.2 hhigh')
    have hle := mul_le_one₀ (by linarith : 1 - t ≤ 1) (sub_nonneg.2 hhigh') (by linarith)
    rw [← List.singleton_append, share_append, share_singleton]
    exact ⟨by linarith, by linarith⟩

/-- Further steps do not lead back. -/
theorem share_mono (h : ∀ t ∈ taus ++ more, 0 ≤ t ∧ t ≤ 1) : share taus ≤ share (taus ++ more) := by
  have hdone := share_mem fun t ht => h t (List.mem_append_left _ ht)
  have hmore := share_mem fun t ht => h t (List.mem_append_right _ ht)
  have hprod := mul_nonneg (sub_nonneg.2 hdone.2) hmore.1
  rw [share_append]
  linarith

end Line

-- ---------------------------------------------------------------------------
-- The parts of a homotopy
-- ---------------------------------------------------------------------------

/-- The loaded problem and the current one are the same. -/
structure Core.SamePlace (c c' : Core ℝ n m) : Prop where
  target : c'.target = c.target
  current : c'.current = c.current

namespace Method

variable {M : Method ℝ n m σ} {start s s' : σ} {taus : List ℝ}

/-- The states that a homotopy passes through, with the lengths of the steps that it has performed so
far. Between these it marks states with a status and with verdicts, determines directions and changes
working sets, all of which may fail. -/
inductive Passes (M : Method ℝ n m σ) (start : σ) : List ℝ → σ → Prop
  | start : Passes M start [] start
  | marked {taus : List ℝ} {s : σ} (status : Status) (infeasible unbounded : Bool)
    (h : Passes M start taus s) :
    Passes M start taus (M.withCore s { M.core s with status, infeasible, unbounded })
  | directed {taus : List ℝ} {s s' : σ} (h : Passes M start taus s)
    (hrun : M.determineDirection.Leaves s s') : Passes M start taus s'
  | performed {taus : List ℝ} {s : σ} (h : Passes M start taus s) :
    Passes M start (taus ++ [(M.stepLength s).1])
      (M.perform (M.stepLength s).1 (M.stepLength s).2 s)
  | changed {taus : List ℝ} {s s' : σ} (event : StepEvent n m) (h : Passes M start taus s)
    (hrun : (M.changeWorkingSet event).Leaves s s') : Passes M start taus s'

/-- Nothing but a step moves the current problem, and it goes a part of the way to the loaded one: the
whole of it, if it ends there. -/
structure Straight (M : Method ℝ n m σ) : Prop where
  core_withCore : ∀ s c, M.core (M.withCore s c) = c
  reset : ∀ s, (M.core (M.reset s)).target = (M.core s).target
  prepare : ∀ guess s s', M.prepare guess s = .ok () s' → (M.core s').target = (M.core s).target
  direction : ∀ s s', M.determineDirection.Leaves s s' → (M.core s).SamePlace (M.core s')
  change : ∀ event s s', (M.changeWorkingSet event).Leaves s s' → (M.core s).SamePlace (M.core s')
  stepLength : ∀ s, 0 ≤ (M.stepLength s).1 ∧ (M.stepLength s).1 ≤ 1
  stepLength_full : ∀ s, (M.stepLength s).2 = .full → (M.stepLength s).1 = 1
  perform : ∀ tau event s, (M.core (M.perform tau event s)).target = (M.core s).target ∧
    (M.core (M.perform tau event s)).current =
      if event = .full then (M.core s).target
      else .addScaled tau ((M.core s).target.sub (M.core s).current) (M.core s).current

/-- A state is at the point of the line from a start to the loaded problem to which steps lead. -/
structure OnLine (M : Method ℝ n m σ) (start : σ) (taus : List ℝ) (s : σ) : Prop where
  target : (M.core s).target = (M.core start).target
  current : (M.core s).current =
    .between (share taus) (M.core start).current (M.core start).target
  lengths : ∀ t ∈ taus, 0 ≤ t ∧ t ≤ 1

theorem OnLine.samePlace (h : M.OnLine start taus s) (hsame : (M.core s).SamePlace (M.core s')) :
    M.OnLine start taus s' :=
  ⟨hsame.target.trans h.target, hsame.current.trans h.current, h.lengths⟩

/-- A step from a point of the line leads to another one. -/
theorem OnLine.perform (hM : M.Straight) (h : M.OnLine start taus s) :
    M.OnLine start (taus ++ [(M.stepLength s).1])
      (M.perform (M.stepLength s).1 (M.stepLength s).2 s) := by
  obtain ⟨htarget, hcurrent⟩ := hM.perform (M.stepLength s).1 (M.stepLength s).2 s
  refine ⟨htarget.trans h.target, ?_, ?_⟩
  · rw [hcurrent, share_concat, h.target, h.current, Data.addScaled_between]
    split
    · next hfull => rw [hM.stepLength_full s hfull, sub_self, mul_zero, sub_zero, Data.between_one]
    · rfl
  · rw [List.forall_mem_append]
    exact ⟨h.lengths, List.forall_mem_singleton.2 (hM.stepLength s)⟩

/-- All states that a homotopy passes through are on the line. -/
theorem Passes.onLine (hM : M.Straight) (h : M.Passes start taus s) : M.OnLine start taus s := by
  induction h with
  | start => exact ⟨rfl, by rw [share_nil, Data.between_zero], nofun⟩
  | marked status infeasible unbounded _ ih =>
    exact ih.samePlace ⟨by rw [hM.core_withCore], by rw [hM.core_withCore]⟩
  | directed _ hrun ih => exact ih.samePlace (hM.direction _ _ hrun)
  | performed _ ih => exact ih.perform hM
  | changed event _ hrun ih => exact ih.samePlace (hM.change event _ _ hrun)

theorem Passes.withStatus (h : M.Passes start taus s) (status : Status) :
    M.Passes start taus (M.withStatus status s) :=
  h.marked status (M.core s).infeasible (M.core s).unbounded

theorem Passes.reported {e e' : QpError} (h : M.Passes start taus s) (hreported : M.Reported s e e' s') :
    M.Passes start taus s' := by
  cases hreported with
  | infeasible => exact h.marked _ true (M.core s).unbounded
  | unbounded => exact h.marked .notInitialised (M.core s).infeasible true
  | other => exact h.withStatus .notInitialised

-- ---------------------------------------------------------------------------
-- Homotopies
-- ---------------------------------------------------------------------------

/-- A step passes through states of its homotopy and records how far it goes. Where it fails it may have
gone that far, and it goes the whole way only to the loaded problem. -/
theorem step_passes (hM : M.Straight) (index : ℕ) (h : M.Passes start taus s) :
    (M.step index).Ensures s
      (fun it s' => M.Passes start (taus ++ [it.tau]) s' ∧
        (it.event = .full → (M.core s').current = (M.core s').target))
      fun _ s' => M.Passes start taus s' ∨ ∃ tau, M.Passes start (taus ++ [tau]) s' := by
  have hstart := h.withStatus .performingHomotopy
  -- the point moves once in a step, between finding the direction and changing the working set
  have hperformed {s1 : σ}
      (hdirection : M.determineDirection (M.withStatus .performingHomotopy s) = .ok () s1) :
      M.Passes start (taus ++ [(M.stepLength s1).1])
        (M.perform (M.stepLength s1).1 (M.stepLength s1).2 s1) :=
    (hstart.directed (.inl ⟨_, hdirection⟩)).performed
  refine (M.step_spec index s).mono (fun it s' hstep => ?_) fun f s' hfailed => ?_
  · cases hstep with
    | @full s1 hdirection hevent =>
      refine ⟨(hperformed hdirection).withStatus .solved, fun _ => ?_⟩
      obtain ⟨htarget, hcurrent⟩ := hM.perform (M.stepLength s1).1 (M.stepLength s1).2 s1
      rw [if_pos hevent] at hcurrent
      simp only [Method.withStatus, hM.core_withCore]
      exact hcurrent.trans htarget.symm
    | changed hdirection hevent hchange =>
      have hs2 := (hperformed hdirection).changed _ (.inl ⟨_, hchange⟩)
      exact ⟨hs2.withStatus .homotopySolved, fun hfull => absurd hfull hevent⟩
  · cases hfailed with
    | undirected hdirection => exact .inl ((hstart.directed (.inr ⟨_, hdirection⟩)).withStatus _)
    | unchanged hdirection hevent hchange hreported =>
      exact .inr ⟨_, ((hperformed hdirection).changed _ (.inr ⟨_, hchange⟩)).reported hreported⟩
    | directionBroken hdirection => exact .inl (hstart.directed (.inr ⟨_, hdirection⟩))
    | lengthBroken hdirection => exact .inr ⟨_, hperformed hdirection⟩
    | changeBroken hdirection hevent hchange =>
      exact .inr ⟨_, (hperformed hdirection).changed _ (.inr ⟨_, hchange⟩)⟩

/-- What an observer has come to after some records. -/
def view (obs : Observer ℝ n m τ) (t : τ) (records : List (Iteration ℝ n m)) : τ :=
  records.foldl (fun t it => (obs.observe it t).1) t

/-- The states of a homotopy follow the records that its observer is shown, except that the last step
may have failed after it has been performed. -/
theorem follow_passes (hM : M.Straight) (obs : Observer ℝ n m τ) (budget : ℕ) :
    ∀ (index : ℕ) {s : σ} {t : τ} {taus : List ℝ}, M.Passes start taus s →
      (M.follow obs budget index).Ensures (s, t)
        (fun k r => ∃ records, r.2 = view obs t records ∧ k = index + records.length ∧
          M.Passes start (taus ++ records.map (·.tau)) r.1 ∧
          (M.core r.1).current = (M.core r.1).target)
        fun _ r => ∃ records, r.2 = view obs t records ∧
          (M.Passes start (taus ++ records.map (·.tau)) r.1 ∨
            ∃ tau, M.Passes start (taus ++ records.map (·.tau) ++ [tau]) r.1) := by
  -- by induction on the budget, with the step lengths so far generalized
  induction budget with
  | zero =>
    intro index s t taus h
    rw [follow, ensures_fail]
    exact ⟨[], rfl, .inl (by rwa [List.map_nil, List.append_nil])⟩
  | succ budget ih =>
    intro index s t taus h
    rw [follow, ensures_bind, ensures_first]
    refine (step_passes hM index h).mono ?_ ?_
    · rintro it s1 ⟨hs1, hfull⟩
      rw [ensures_bind, ensures_get]
      dsimp only
      rw [ensures_bind, ensures_set]
      split
      · next hevent =>
        rw [ensures_pure]
        exact ⟨[it], rfl, rfl, hs1, hfull hevent⟩
      · split
        · rw [ensures_fail]
          exact ⟨[it], rfl, .inl hs1⟩
        · refine (ih (index + 1) hs1).mono ?_ ?_
          · rintro k r ⟨records, hview, rfl, hpasses, htarget⟩
            rw [List.append_assoc] at hpasses
            exact ⟨it :: records, hview, by rw [List.length_cons]; omega, hpasses, htarget⟩
          · rintro _ r ⟨records, hview, hpasses⟩
            refine ⟨it :: records, hview, ?_⟩
            simpa only [List.map_cons, List.append_assoc, List.cons_append, List.nil_append]
              using hpasses
    · intro _ s1 hs1
      exact ⟨[], rfl, by simpa using hs1⟩

end Method

-- ---------------------------------------------------------------------------
-- Calls
-- ---------------------------------------------------------------------------

/-- What a caller can rely on about the way of a homotopy.

`on_line`: from where it starts to the loaded problem, every state is on the line, at the point to which
the performed steps lead. `share_mem`, `share_mono`: that is a part of the way, and never a smaller one
than before. `full`: a step to the loaded problem reaches it. `change`: a change of the working set,
with or without an exchange, and whether it succeeds or fails, moves nothing. `homotopy`: the performed
steps are those whose records the observer is shown, and perhaps one that failed afterwards. `call`: that
is how a call ends. -/
structure Interface.Straight (I : Interface ℝ n m σ δ) : Prop where
  on_line : ∀ {s start : σ}, I.Starts s start → ∀ {taus : List ℝ} {s' : σ},
    I.method.Passes start taus s' →
      (I.method.core s').target = (I.method.core s).target ∧
        (I.method.core s').current =
          .between (share taus) (I.method.core start).current (I.method.core s).target
  share_mem : ∀ {start : σ} {taus : List ℝ} {s' : σ}, I.method.Passes start taus s' →
    0 ≤ share taus ∧ share taus ≤ 1
  share_mono : ∀ {start : σ} {taus more : List ℝ} {s' : σ},
    I.method.Passes start (taus ++ more) s' → share taus ≤ share (taus ++ more)
  full : ∀ s : σ, (I.method.stepLength s).2 = .full → (I.method.stepLength s).1 = 1 ∧
    (I.method.core (I.method.perform 1 .full s)).current = (I.method.core s).target
  change : ∀ (event : StepEvent n m) (s s' : σ), (I.method.changeWorkingSet event).Leaves s s' →
    (I.method.core s).SamePlace (I.method.core s')
  homotopy : ∀ {τ : Type} (obs : Observer ℝ n m τ) (t : τ) (budget : ℕ) (start : σ),
    (I.method.homotopy obs budget).Ensures (start, t)
      (fun k r => ∃ records, r.2 = Method.view obs t records ∧ k = records.length ∧
        I.method.Passes start (records.map (·.tau)) r.1 ∧
        (I.method.core r.1).current = (I.method.core start).target)
      fun _ r => ∃ records, r.2 = Method.view obs t records ∧
        (I.method.Passes start (records.map (·.tau)) r.1 ∨
          ∃ tau, I.method.Passes start (records.map (·.tau) ++ [tau]) r.1)
  call : ∀ {s start : σ} {c : Call ℝ n m δ}, I.StartsBy s c start →
    ∃ taus, I.method.Passes start taus (I.call c s).2 ∧
      ∀ k, (I.call c s).1 = .ok k → taus.length = k ∧
        (I.method.core (I.call c s).2).current = (I.method.core s).target

namespace Method.Straight

variable {I : Interface ℝ n m σ δ} {s start : σ}

theorem target_of_starts (hM : I.method.Straight) (h : I.Starts s start) :
    (I.method.core start).target = (I.method.core s).target := by
  cases h with
  | resumed => rfl
  | prepared hguess hprepare => exact (hM.prepare _ _ _ hprepare).trans (hM.reset s)

theorem homotopy_passes (hM : I.method.Straight) (obs : Observer ℝ n m τ) (t : τ) (budget : ℕ)
    (start : σ) :
    (I.method.homotopy obs budget).Ensures (start, t)
      (fun k r => ∃ records, r.2 = view obs t records ∧ k = records.length ∧
        I.method.Passes start (records.map (·.tau)) r.1 ∧
        (I.method.core r.1).current = (I.method.core start).target)
      fun _ r => ∃ records, r.2 = view obs t records ∧
        (I.method.Passes start (records.map (·.tau)) r.1 ∨
          ∃ tau, I.method.Passes start (records.map (·.tau) ++ [tau]) r.1) := by
  unfold Method.homotopy
  rw [ensures_bind, ensures_first, ensures_modify]
  have hstart : I.method.Passes start [] (I.method.clearVerdict start) :=
    .marked (I.method.core start).status false false .start
  refine (follow_passes hM obs budget 0 hstart).mono ?_ fun _ _ h => h
  rintro k r ⟨records, hview, hk, hpasses, htarget⟩
  exact ⟨records, hview, hk.trans (Nat.zero_add _), hpasses,
    htarget.trans (hpasses.onLine hM).target⟩

/-- The homotopy of a call has passed through its last state. -/
theorem call_passes (hM : I.method.Straight) {c : Call ℝ n m δ} (h : I.StartsBy s c start) :
    ∃ taus, I.method.Passes start taus (I.call c s).2 ∧
      ∀ k, (I.call c s).1 = .ok k → taus.length = k ∧
        (I.method.core (I.call c s).2).current = (I.method.core start).target := by
  have hhomotopy : ∃ taus, I.method.Passes start taus (c.homotopy I.method start).2 ∧
      ∀ k, (c.homotopy I.method start).1 = .ok k → taus.length = k ∧
        (I.method.core (c.homotopy I.method start).2).current = (I.method.core start).target := by
    -- the records of a run are as many as its steps, whoever observes them
    have hrun {τ : Type} (obs : Observer ℝ n m τ) (t : τ) (budget : ℕ) :
        ∃ taus, I.method.Passes start taus (outcome (I.method.homotopy obs budget (start, t))).2 ∧
          ∀ k, (outcome (I.method.homotopy obs budget (start, t))).1 = .ok k → taus.length = k ∧
            (I.method.core (outcome (I.method.homotopy obs budget (start, t))).2).current =
              (I.method.core start).target := by
      obtain ⟨k, r, hrun, records, -, rfl, hpasses, htarget⟩ | ⟨f, r, hrun, records, -, hpasses⟩ :=
        outcome_of_ensures (hM.homotopy_passes obs t budget start)
      · rw [hrun]
        refine ⟨_, hpasses, fun k hk => ?_⟩
        cases hk
        exact ⟨List.length_map _, htarget⟩
      · rw [hrun]
        obtain hpasses | ⟨tau, hpasses⟩ := hpasses
        · exact ⟨_, hpasses, nofun⟩
        · exact ⟨_, hpasses, nofun⟩
    cases h with
    | resumed => exact hrun _ _ _
    | prepared => exact hrun _ _ _
  rw [Interface.call_of_startsBy h]
  obtain ⟨taus, hpasses, hok⟩ := hhomotopy
  refine ⟨taus, hpasses, fun k hk => hok k ?_⟩
  cases hresult : (c.homotopy I.method start).1 with
  | ok k' =>
    rw [hresult] at hk
    exact hk
  | error f =>
    rw [hresult] at hk
    cases hk

theorem starts_of_startsBy {c : Call ℝ n m δ} (h : I.StartsBy s c start) : I.Starts s start := by
  cases h with
  | resumed hstart hlimits => exact .resumed hstart hlimits
  | prepared hguess hprepare => exact .prepared hguess hprepare

/-- A method whose parts keep to the line makes a solver that does. -/
theorem interface (hM : I.method.Straight) : I.Straight where
  on_line hstarts _ _ hpasses := by
    have hline := hpasses.onLine hM
    have htarget := hM.target_of_starts hstarts
    rw [hline.target, hline.current, htarget]
    exact ⟨rfl, rfl⟩
  share_mem hpasses := ActiveSet.share_mem (hpasses.onLine hM).lengths
  share_mono hpasses := ActiveSet.share_mono (hpasses.onLine hM).lengths
  full s hfull := by
    refine ⟨hM.stepLength_full s hfull, ?_⟩
    rw [(hM.perform 1 .full s).2, if_pos rfl]
  change := hM.change
  homotopy := hM.homotopy_passes
  call h := by
    rw [← hM.target_of_starts (starts_of_startsBy h)]
    exact hM.call_passes h

end Method.Straight

-- ---------------------------------------------------------------------------
-- Both solvers
-- ---------------------------------------------------------------------------

theorem Core.target_perform (tau : ℝ) (event : StepEvent n m) (s : Core ℝ n m) :
    (s.perform tau event).target = s.target ∧ (s.perform tau event).current =
      if event = .full then s.target else .addScaled tau (s.target.sub s.current) s.current := by
  cases event with
  | full => exact ⟨rfl, rfl⟩
  | add e side => cases e <;> exact ⟨rfl, rfl⟩
  | remove e => exact ⟨rfl, rfl⟩

/-- The place on the line is a matter of the problems. -/
theorem Core.SamePlace.ofTask (c : Core ℝ n m) : Core.OfTask c.SamePlace :=
  fun _ _ h ht hc _ _ => ⟨ht.trans h.target, hc.trans h.current⟩

/-- The first blocker is a part of the way. -/
theorem firstBlocker_bounds {l : List (Blocker ℝ n m)} (hnonneg : ∀ b ∈ l, 0 ≤ b.tau) :
    0 ≤ (firstBlocker l).tau ∧ (firstBlocker l).tau ≤ 1 := by
  obtain ⟨hcases, hle, -⟩ := firstBlocker_spec l
  refine ⟨?_, hle⟩
  obtain hfull | ⟨hmem, -⟩ := hcases
  · rw [hfull]
    exact zero_le_one
  · exact hnonneg _ hmem

theorem Box.straight : (Box.method : Method ℝ n 0 (Box ℝ n)).Straight where
  core_withCore _ _ := rfl
  reset _ := rfl
  prepare guess s s' h := ((prepare_sameTask guess s).of_ok h).1.target
  direction s _ h :=
    (determineDirection_preserves (Core.SamePlace.ofTask s).ignoresDirection).of_leaves ⟨rfl, rfl⟩ h
  change event s _ h := (changeWorkingSet_preserves (.ofTask s) event).of_leaves ⟨rfl, rfl⟩ h
  stepLength s := firstBlocker_bounds fun b hb => by
    obtain ⟨i, hi⟩ := Core.mem_boundBlockers.1 hb
    exact Course.blocker_tau_nonneg hi
  stepLength_full s hfull := by
    obtain h | h := stepLength_cases s
    · exact congrArg Prod.fst h
    · exact absurd hfull h.1
  perform tau event s := Core.target_perform tau event s

theorem Constrained.straight : (Constrained.method : Method ℝ n m (Constrained ℝ n m)).Straight where
  core_withCore _ _ := rfl
  reset _ := rfl
  prepare guess s s' h := ((prepare_sameTask guess s).of_ok h).1.target
  direction s _ h :=
    (determineDirection_preserves
      (Core.SamePlace.ofTask s.toCore).ignoresDirection_toCore).of_leaves ⟨rfl, rfl⟩ h
  change event s _ h :=
    (changeWorkingSet_preserves (.ofTask s.toCore) event).of_leaves ⟨rfl, rfl⟩ h
  stepLength s := firstBlocker_bounds fun b hb => by
    obtain ⟨e, he⟩ := mem_blockers.1 hb
    exact Course.blocker_tau_nonneg he
  stepLength_full s hfull := by
    obtain h | h := stepLength_cases s
    · exact congrArg Prod.fst h
    · exact absurd hfull h.1
  perform tau event s := Core.target_perform tau event s.toCore

/-- Every homotopy of both solvers follows the straight line from its start to the loaded problem. -/
theorem homotopy_straight (n m : ℕ) :
    (Constrained.interface ℝ n m).Straight ∧ (Box.interface ℝ n).Straight :=
  ⟨Constrained.straight.interface, Box.straight.interface⟩

end ActiveSet

import ActiveSet.Proofs.Lifecycle
import ActiveSet.Proofs.Lockstep

/-!
# The records of a homotopy

The observer of a call is all that its caller sees of the way to the result. This module says what can be
read from the records: what each of them tells about its step, how many there are, and how the call has
ended.

A homotopy goes one of five ways from each of its steps (`Method.Traced`), and it is followed by an
induction over them. What the records tell about the working set comes from the parts of a step, which is
what a method is asked for (`Method.Recordable`): what the working set does at an event, and how far a
step can go.

* `Observer.transcribing`, `Call.log`: the records of a call, with the answers of its observer.
* `StepEvent.Alters`, `StepEvent.Resizes`: what an event does with a working set, and with its size.
* `Method.Traced`, `Method.Made`: how a homotopy goes, and the steps that it has made.
* `Method.Tells`: what a record tells about its step.
* `Method.ComesBy`, `Interface.StartsBy.call_of_comesBy`: a homotopy that arrives by given events.
* `Interface.Records`: what the records tell about a call, for all calls by
  `Interface.Respects.records`.
-/

namespace ActiveSet

variable {K : Type} {n m : Nat} {σ δ τ : Type}

-- ---------------------------------------------------------------------------
-- Observers
-- ---------------------------------------------------------------------------

/-- An observer that keeps all records, with its answers to them. -/
def Observer.transcribing (obs : Observer K n m τ) :
    Observer K n m (τ × List (Iteration K n m × Answer)) :=
  ⟨fun it v =>
    let (t, answer) := obs.observe it v.1
    ((t, v.2 ++ [(it, answer)]), answer)⟩

/-- An observer that keeps its records has all of them in the end. -/
theorem Observer.foldl_logging (obs : Observer K n m τ) (its : List (Iteration K n m)) :
    ∀ (t : τ) (log : List (Iteration K n m)),
      (its.foldl (fun t it => (obs.logging.observe it t).1) (t, log)).2 = log ++ its := by
  induction its with
  | nil => exact fun t log => (List.append_nil log).symm
  | cons it its ih =>
    intro t log
    exact (ih _ _).trans (List.append_assoc log [it] its)

-- ---------------------------------------------------------------------------
-- Working sets
-- ---------------------------------------------------------------------------

/-- A working set: where the entities stand, and how many of them are in it. -/
structure Standing (n m : Nat) where
  /-- The places of the entities. -/
  activity : Entity n m → Activity
  /-- The size of the working set. -/
  count : Nat

namespace StepEvent

/-- What an event does with a working set. An entity that enters may take the place of another one. -/
inductive Alters : StepEvent n m → Standing n m → Standing n m → Prop
  | full {w : Standing n m} : Alters .full w w
  | added {w w' : Standing n m} {e : Entity n m} {side : Activity}
    (he : (w.activity e).isActive = false) (hside : side.isActive = true)
    (hactivity : ∀ a, w'.activity a = if a = e then side else w.activity a)
    (hcount : w'.count = w.count + 1) : Alters (.add e side) w w'
  | exchanged {w w' : Standing n m} {e leaver : Entity n m} {side : Activity}
    (he : (w.activity e).isActive = false) (hside : side.isActive = true)
    (hleaver : (w.activity leaver).isActive = true)
    (hactivity : ∀ a, w'.activity a =
      if a = e then side else if a = leaver then .inactive else w.activity a)
    (hcount : w'.count = w.count) : Alters (.add e side) w w'
  | removed {w w' : Standing n m} {e : Entity n m} (he : (w.activity e).isActive = true)
    (hactivity : ∀ a, w'.activity a = if a = e then .inactive else w.activity a)
    (hcount : w'.count + 1 = w.count) : Alters (.remove e) w w'

/-- What an event does with the size of a working set. -/
def Resizes : StepEvent n m → Nat → Nat → Prop
  | .full, w, w' => w' = w
  | .add .., w, w' => w' = w + 1 ∨ w' = w
  | .remove _, w, w' => w' + 1 = w

theorem Alters.resizes {event : StepEvent n m} {w w' : Standing n m} (h : event.Alters w w') :
    event.Resizes w.count w'.count := by
  cases h with
  | full => rfl
  | added he hside hactivity hcount => exact .inl hcount
  | exchanged he hside hleaver hactivity hcount => exact .inr hcount
  | removed he hactivity hcount => exact hcount

end StepEvent

/-- The size of the working set after a step: the variables that are not free, and the active
constraints. -/
def Iteration.activeCount (it : Iteration K n m) : Nat := n - it.nFree + it.nActive

/-- The sizes of the working set that records tell follow each other, from that of the start on, as the
events say. -/
inductive Sized : Nat → List (Iteration K n m) → Prop
  | none {w : Nat} : Sized w []
  | step {w : Nat} {it : Iteration K n m} {rest : List (Iteration K n m)}
    (hevent : it.event.Resizes w it.activeCount) (hrest : Sized it.activeCount rest) :
    Sized w (it :: rest)

-- ---------------------------------------------------------------------------
-- Homotopies
-- ---------------------------------------------------------------------------

namespace Method

/-- The working set of a state. -/
def standing (M : Method K n m σ) (activity : σ → Entity n m → Activity) (s : σ) : Standing n m :=
  ⟨activity s, n - (M.core s).bounds.inactiveCount + M.activeRowCount s⟩

variable [Scalar K]

/-- Steps from a given number on, with their records. -/
inductive Made (M : Method K n m σ) : Nat → σ → List (Iteration K n m) → σ → Prop
  | none {index : Nat} {s : σ} : Made M index s [] s
  | step {index : Nat} {s s1 s' : σ} {it : Iteration K n m} {its : List (Iteration K n m)}
    (hstep : M.step index s = .ok it s1) (hrest : Made M (index + 1) s1 its s') :
    Made M index s (it :: its) s'

/-- How a homotopy goes that has a budget left and comes to a step of a given number: the records that its
observer is shown, the answers to them, and how it ends. -/
inductive Traced (M : Method K n m σ) :
    Nat → Nat → σ → List (Iteration K n m × Answer) → Except Fault Nat → σ → Prop
  | exhausted {index : Nat} {s : σ} : Traced M 0 index s [] (.error (.failed .maxNwsrReached)) s
  | failed {budget index : Nat} {s s' : σ} {f : Fault} (hstep : M.step index s = .error f s') :
    Traced M (budget + 1) index s [] (.error f) s'
  | arrived {budget index : Nat} {s s' : σ} {it : Iteration K n m} {answer : Answer}
    (hstep : M.step index s = .ok it s') (hevent : it.event = .full) :
    Traced M (budget + 1) index s [(it, answer)] (.ok (index + 1)) s'
  | stopped {budget index : Nat} {s s' : σ} {it : Iteration K n m}
    (hstep : M.step index s = .ok it s') (hevent : it.event ≠ .full) :
    Traced M (budget + 1) index s [(it, .stop)] (.error (.failed .userAbortRequested)) s'
  | passed {budget index : Nat} {s s1 s' : σ} {it : Iteration K n m}
    {rest : List (Iteration K n m × Answer)} {result : Except Fault Nat}
    (hstep : M.step index s = .ok it s1) (hevent : it.event ≠ .full)
    (hrest : Traced M budget (index + 1) s1 rest result s') :
    Traced M (budget + 1) index s ((it, .proceed) :: rest) result s'

variable {M : Method K n m σ}

/-- An observer that keeps its records is shown how the homotopy goes. -/
theorem follow_traced (obs : Observer K n m τ) (budget : Nat) :
    ∀ (index : Nat) (s : σ) (t : τ) (log : List (Iteration K n m × Answer)), ∃ rest,
      (viewed (M.follow obs.transcribing budget index (s, (t, log)))).2 = log ++ rest ∧
        M.Traced budget index s rest (outcome (M.follow obs.transcribing budget index (s, (t, log)))).1
          (outcome (M.follow obs.transcribing budget index (s, (t, log)))).2 := by
  -- by induction on the budget; each step adds its record and the answer to the log
  induction budget with
  | zero => exact fun index s t log => ⟨[], (List.append_nil log).symm, .exhausted⟩
  | succ budget ih =>
    intro index s t log
    rw [follow_succ]
    cases hstep : M.step index s with
    | error f s' => exact ⟨[], (List.append_nil log).symm, .failed hstep⟩
    | ok it s' =>
      dsimp only
      by_cases hevent : it.event = .full
      · rw [if_pos hevent]
        exact ⟨[(it, (obs.observe it t).2)], rfl, .arrived hstep hevent⟩
      · rw [if_neg hevent]
        by_cases hanswer : (obs.observe it t).2 = .stop
        · rw [if_pos (show (obs.transcribing.observe it (t, log)).2 = .stop from hanswer)]
          refine ⟨[(it, .stop)], ?_, .stopped hstep hevent⟩
          rw [← hanswer]
          rfl
        · rw [if_neg (show ¬(obs.transcribing.observe it (t, log)).2 = .stop from hanswer)]
          obtain ⟨rest, hlog, hrest⟩ := ih (index + 1) s' (obs.observe it t).1
            (log ++ [(it, (obs.observe it t).2)])
          have hproceed : (obs.observe it t).2 = .proceed := by
            cases h : (obs.observe it t).2 with
            | proceed => rfl
            | stop => exact absurd h hanswer
          refine ⟨(it, .proceed) :: rest, hlog.trans ?_, .passed hstep hevent hrest⟩
          rw [hproceed, List.append_assoc, List.singleton_append]

/-- The number of a step is in its record. -/
theorem step_index (index : Nat) (s : σ) :
    (M.step index).Ensures s (fun it _ => it.index = index) fun _ _ => True := by
  refine (M.step_spec index s).mono (fun it s' h => ?_) fun _ _ _ => trivial
  cases h <;> rfl

namespace Traced

variable {budget index : Nat} {s s' : σ} {log : List (Iteration K n m × Answer)}
  {result : Except Fault Nat}

/-- The records are numbered one after the other. -/
theorem numbered (h : M.Traced budget index s log result s') :
    log.map (·.1.index) = List.range' index log.length := by
  induction h with
  | exhausted => rfl
  | failed hstep => rfl
  | arrived hstep hevent => exact congrArg ([·]) ((M.step_index _ _).of_ok hstep)
  | stopped hstep hevent => exact congrArg ([·]) ((M.step_index _ _).of_ok hstep)
  | passed hstep hevent hrest ih =>
    rw [List.map_cons, ih, (M.step_index _ _).of_ok hstep, List.length_cons, List.range'_succ]

/-- The homotopy has gone on after all records but the last one. -/
theorem passing (h : M.Traced budget index s log result s') :
    ∀ r ∈ log.dropLast, r.1.event ≠ .full ∧ r.2 = .proceed := by
  induction h with
  | exhausted => exact nofun
  | failed hstep => exact nofun
  | arrived hstep hevent => exact nofun
  | stopped hstep hevent => exact nofun
  | @passed budget index s s1 s' it rest result hstep hevent hrest ih =>
    cases rest with
    | nil => exact nofun
    | cons r rest =>
      rw [List.dropLast_cons_cons]
      exact List.forall_mem_cons.2 ⟨⟨hevent, rfl⟩, ih⟩

/-- The records are those of the steps that have been made. Unless the homotopy has been interrupted or
has arrived, it has ended with a further step, which has failed. -/
theorem made (hM : M.Restartable) (h : M.Traced budget index s log result s') :
    ∃ s1, M.Made index s (log.map (·.1)) s1 ∧
      (s1 = s' ∧ (∀ f, result = .error f → ∃ e : QpError, f = .failed e ∧ e.IsInterruption) ∨
        log.length < budget ∧ ∃ f, result = .error f ∧
          (∀ e : QpError, f = .failed e → ¬e.IsInterruption) ∧
          M.step (index + log.length) s1 = .error f s') := by
  induction h with
  | exhausted =>
    refine ⟨_, .none, .inl ⟨rfl, fun f hf => ?_⟩⟩
    cases hf
    exact ⟨_, rfl, .inl rfl⟩
  | failed hstep =>
    -- a step that fails stands at the end, after the steps that were made
    exact ⟨_, .none, .inr ⟨Nat.succ_pos _, _, rfl, (hM.step_ensures _ _).of_error hstep, hstep⟩⟩
  | arrived hstep hevent => exact ⟨_, .step hstep .none, .inl ⟨rfl, nofun⟩⟩
  | stopped hstep hevent =>
    refine ⟨_, .step hstep .none, .inl ⟨rfl, fun f hf => ?_⟩⟩
    cases hf
    exact ⟨_, rfl, .inr rfl⟩
  | passed hstep hevent hrest ih =>
    obtain ⟨s1, hmade, hend⟩ := ih
    refine ⟨s1, .step hstep hmade, hend.imp_right fun ⟨hlt, f, hf, hnot, hfailed⟩ => ?_⟩
    -- the step that failed is one later, counted from here
    refine ⟨Nat.succ_lt_succ hlt, f, hf, hnot, ?_⟩
    rwa [Nat.add_right_comm] at hfailed

/-- The homotopy has arrived if one of its records says so, and this is the last one. -/
theorem ok_iff (h : M.Traced budget index s log result s') (k : Nat) :
    result = .ok k ↔ ∃ j r, k = index + j + 1 ∧ log[j]? = some r ∧ r.1.event = .full := by
  induction h with
  | exhausted => exact iff_of_false nofun fun ⟨j, r, _, hr, _⟩ => by cases hr
  | failed hstep => exact iff_of_false nofun fun ⟨j, r, _, hr, _⟩ => by cases hr
  | arrived hstep hevent =>
    constructor
    · intro hk
      cases hk
      exact ⟨0, _, rfl, rfl, hevent⟩
    · rintro ⟨_ | j, r, rfl, hr, -⟩
      · rfl
      · cases hr
  | stopped hstep hevent =>
    refine iff_of_false nofun ?_
    rintro ⟨_ | j, r, rfl, hr, hfull⟩
    · cases hr
      exact hevent hfull
    · cases hr
  -- the first of the remaining records is the second of all
  | passed hstep hevent hrest ih =>
    rw [ih]
    constructor
    · rintro ⟨j, r, rfl, hr, hfull⟩
      exact ⟨j + 1, r, by omega, hr, hfull⟩
    · rintro ⟨_ | j, r, rfl, hr, hfull⟩
      · cases hr
        exact absurd hfull hevent
      · exact ⟨j, r, by omega, hr, hfull⟩

/-- The budget is used up if there are as many records, and the homotopy has gone on after all of
them. -/
theorem exhausted_iff (hM : M.Restartable) (h : M.Traced budget index s log result s') :
    result = .error (.failed .maxNwsrReached) ↔
      log.length = budget ∧ ∀ r ∈ log, r.1.event ≠ .full ∧ r.2 = .proceed := by
  induction h with
  | exhausted => exact iff_of_true rfl ⟨rfl, nofun⟩
  | failed hstep =>
    refine iff_of_false (fun hresult => ?_) fun hlog => Nat.succ_ne_zero _ hlog.1.symm
    cases hresult
    exact (hM.step_ensures _ _).of_error hstep _ rfl (.inl rfl)
  | arrived hstep hevent =>
    exact iff_of_false nofun fun hlog => (hlog.2 _ List.mem_cons_self).1 hevent
  | stopped hstep hevent =>
    exact iff_of_false nofun fun hlog => by cases (hlog.2 _ List.mem_cons_self).2
  | passed hstep hevent hrest ih =>
    rw [ih, List.length_cons, Nat.succ_inj, List.forall_mem_cons]
    exact and_congr_right fun _ => ⟨fun hrest => ⟨⟨hevent, rfl⟩, hrest⟩, And.right⟩

/-- The homotopy has been stopped if the last record has been answered so, short of the loaded
problem. -/
theorem stopped_iff (hM : M.Restartable) (h : M.Traced budget index s log result s') :
    result = .error (.failed .userAbortRequested) ↔
      ∃ r, log.getLast? = some r ∧ r.1.event ≠ .full ∧ r.2 = .stop := by
  induction h with
  | exhausted => exact iff_of_false nofun fun ⟨r, hr, _⟩ => by cases hr
  | failed hstep =>
    refine iff_of_false (fun hresult => ?_) fun ⟨r, hr, _⟩ => by cases hr
    cases hresult
    exact (hM.step_ensures _ _).of_error hstep _ rfl (.inr rfl)
  | arrived hstep hevent =>
    refine iff_of_false nofun ?_
    rintro ⟨r, hr, hnot, -⟩
    cases hr
    exact hnot hevent
  | stopped hstep hevent => exact iff_of_true rfl ⟨_, rfl, hevent, rfl⟩
  | @passed budget index s s1 s' it rest result hstep hevent hrest ih =>
    -- the last record is the one at hand only if nothing follows
    rw [ih]
    cases rest with
    | nil =>
      refine iff_of_false (fun ⟨r, hr, _⟩ => by cases hr) ?_
      rintro ⟨r, hr, -, hstop⟩
      cases hr
      cases hstop
    | cons r rest => rw [List.getLast?_cons_cons]

end Traced

-- ---------------------------------------------------------------------------
-- Records
-- ---------------------------------------------------------------------------

/-- What a record tells about its step: the counts are those after it, the event is what the working set
has followed, and the part of the way is the whole of it exactly for a step to the loaded problem. -/
structure Tells (M : Method K n m σ) (activity : σ → Entity n m → Activity) (s : σ)
    (it : Iteration K n m) (s' : σ) : Prop where
  nFree : it.nFree = (M.core s').bounds.inactiveCount
  nActive : it.nActive = M.activeRowCount s'
  alters : it.event.Alters (M.standing activity s) (M.standing activity s')
  whole : it.event = .full → it.status = .solved ∧ it.tau = 1
  partway : it.event ≠ .full → it.status = .homotopySolved ∧ 0 ≤ it.tau ∧ it.tau < 1

/-- Nothing but a change of the working set alters it, and a step that does not go the whole way goes a
smaller part. -/
structure Recordable (M : Method K n m σ) (P : Phases n m σ)
    (activity : σ → Entity n m → Activity) : Prop where
  restartable : M.Restartable
  ignores : ∀ s status infeasible unbounded,
    M.standing activity (M.withCore s { M.core s with status, infeasible, unbounded }) =
      M.standing activity s
  direction : ∀ s, P.moving s → M.determineDirection.Ensures s
    (fun _ s' => M.standing activity s' = M.standing activity s) fun _ _ => True
  perform : ∀ tau event s, M.standing activity (M.perform tau event s) = M.standing activity s
  change : ∀ event s, event ≠ .full → P.stepped event s → (M.changeWorkingSet event).Ensures s
    (fun _ s' => event.Alters (M.standing activity s) (M.standing activity s')) fun _ _ => True
  stepLength : ∀ s, M.stepLength s = (1, .full) ∨
    (M.stepLength s).2 ≠ .full ∧ 0 ≤ (M.stepLength s).1 ∧ (M.stepLength s).1 < 1

variable {P : Phases n m σ} {activity : σ → Entity n m → Activity} {budget index : Nat} {s s' : σ}
  {log : List (Iteration K n m × Answer)} {result : Except Fault Nat}

theorem Recordable.standing_withStatus (hR : M.Recordable P activity) (status : Status)
    (s : σ) : M.standing activity (M.withStatus status s) = M.standing activity s :=
  hR.ignores s status (M.core s).infeasible (M.core s).unbounded

/-- The record of a step tells what it should. -/
theorem Recordable.step_tells (hR : M.Recordable P activity) (hM : M.Respects P) (index : Nat)
    (hs : P.moving s) :
    (M.step index).Ensures s (fun it s' => M.Tells activity s it s') fun _ _ => True := by
  have hmoving := hM.moving_ignores.withStatus .performingHomotopy hs
  have hdirected := hM.direction _ hmoving
  have hstanding := hR.direction _ hmoving
  refine (M.step_spec index s).mono (fun it s' h => ?_) fun _ _ _ => trivial
  cases h with
  -- a full step changes no entity
  | @full s1 hdirection hevent htau =>
    obtain hfull | ⟨hnot, -⟩ := hR.stepLength s1
    · refine ⟨rfl, rfl, ?_, fun _ => ⟨hR.restartable.status_withStatus _ _, congrArg Prod.fst hfull⟩,
        fun hnot => absurd hevent hnot⟩
      show (M.stepLength s1).2.Alters _ _
      rw [hevent, hR.standing_withStatus, hR.perform, hstanding.of_ok hdirection,
        hR.standing_withStatus]
      exact .full
    · exact absurd hevent hnot
  -- other steps change what their event says
  | @changed s1 s2 hdirection hevent hchange =>
    obtain hfull | ⟨-, htau⟩ := hR.stepLength s1
    · exact absurd (congrArg Prod.snd hfull) hevent
    · refine ⟨rfl, rfl, ?_, fun hfull => absurd hfull hevent,
        fun _ => ⟨hR.restartable.status_withStatus _ _, htau⟩⟩
      have halters := (hR.change _ _ hevent
        (hM.stop s1 (hdirected.of_ok hdirection).1 hevent)).of_ok hchange
      rw [hR.perform, hstanding.of_ok hdirection, hR.standing_withStatus] at halters
      rw [hR.standing_withStatus]
      exact halters

/-- The size of the working set that a record tells is that after its step. -/
theorem Tells.activeCount_eq {it : Iteration K n m} (h : M.Tells activity s it s') :
    it.activeCount = (M.standing activity s').count := by
  rw [Iteration.activeCount, h.nFree, h.nActive]
  rfl

/-- All records of a homotopy tell about their steps what they should. -/
theorem Traced.tells (hR : M.Recordable P activity) (hM : M.Respects P)
    (h : M.Traced budget index s log result s') (hs : P.moving s) (hstart : (M.status s).isStart) :
    ∀ (k : Nat) (r : Iteration K n m × Answer), log[k]? = some r → ∃ s1 s2,
      M.Made index s ((log.map (·.1)).take k) s1 ∧ M.step (index + k) s1 = .ok r.1 s2 ∧
        M.Tells activity s1 r.1 s2 := by
  have hfirst : ∀ {index : Nat} {s s' : σ} {it : Iteration K n m}, P.moving s →
      M.step index s = .ok it s' → M.Tells activity s it s' :=
    fun hs hstep => (hR.step_tells hM _ hs).of_ok hstep
  -- by induction on the trace: a record is that of the first step, or one of the rest
  induction h with
  | exhausted => exact nofun
  | failed hstep => exact nofun
  | arrived hstep hevent =>
    rintro (_ | k) r hr
    · cases hr
      exact ⟨_, _, .none, hstep, hfirst hs hstep⟩
    · cases hr
  | stopped hstep hevent =>
    rintro (_ | k) r hr
    · cases hr
      exact ⟨_, _, .none, hstep, hfirst hs hstep⟩
    · cases hr
  | @passed budget index s s1 s' it rest result hstep hevent hrest ih =>
    rintro (_ | k) r hr
    · cases hr
      exact ⟨_, _, .none, hstep, hfirst hs hstep⟩
    · have hnext := (hM.step_ensures index hs hstart).of_ok hstep
      rw [if_neg hevent] at hnext
      obtain ⟨s2, s3, hmade, hlast, htells⟩ := ih hnext.1 (by rw [hnext.2]; rfl) k r hr
      refine ⟨s2, s3, .step hstep hmade, ?_, htells⟩
      rwa [Nat.add_right_comm] at hlast

/-- The sizes of the working set follow each other as the events say. -/
theorem Traced.sized (hR : M.Recordable P activity) (hM : M.Respects P)
    (h : M.Traced budget index s log result s') (hs : P.moving s) (hstart : (M.status s).isStart) :
    Sized (M.standing activity s).count (log.map (·.1)) := by
  -- one step changes the number of active entities as its event says
  have hfirst : ∀ {index : Nat} {s s' : σ} {it : Iteration K n m}, P.moving s →
      M.step index s = .ok it s' →
        it.event.Resizes (M.standing activity s).count it.activeCount ∧
          it.activeCount = (M.standing activity s').count := by
    intro index s s' it hs hstep
    have htells := (hR.step_tells hM _ hs).of_ok hstep
    rw [htells.activeCount_eq]
    exact ⟨htells.alters.resizes, rfl⟩
  induction h with
  | exhausted => exact .none
  | failed hstep => exact .none
  | arrived hstep hevent => exact .step (hfirst hs hstep).1 .none
  | stopped hstep hevent => exact .step (hfirst hs hstep).1 .none
  | @passed budget index s s1 s' it rest result hstep hevent hrest ih =>
    have hnext := (hM.step_ensures index hs hstart).of_ok hstep
    rw [if_neg hevent] at hnext
    refine .step (hfirst hs hstep).1 ?_
    rw [(hfirst hs hstep).2]
    exact ih hnext.1 (by rw [hnext.2]; rfl)

/-! ## Homotopies that arrive -/

/-- A homotopy that comes to a step of a given number arrives at the loaded problem by steps with given
events. -/
inductive ComesBy (M : Method K n m σ) : Nat → σ → List (StepEvent n m) → σ → Prop
  | arrives {index : Nat} {s s' : σ} {it : Iteration K n m} (hstep : M.step index s = .ok it s')
    (hevent : it.event = .full) : ComesBy M index s [.full] s'
  | passes {index : Nat} {s s1 s' : σ} {it : Iteration K n m} {events : List (StepEvent n m)}
    (hstep : M.step index s = .ok it s1) (hevent : it.event ≠ .full)
    (hrest : ComesBy M (index + 1) s1 events s') : ComesBy M index s (it.event :: events) s'

/-- With an observer that lets it go on and a budget that is large enough, such a homotopy arrives, and the
observer has been shown a record of each event. -/
theorem ComesBy.follow {index : Nat} {s s' : σ} {events : List (StepEvent n m)}
    (h : M.ComesBy index s events s') (obs : Observer K n m τ)
    (hobs : ∀ it t, (obs.observe it t).2 = .proceed) (budget : Nat) :
    ∀ t : τ, ∃ its : List (Iteration K n m), its.map (·.event) = events ∧
      M.follow obs (budget + events.length) index (s, t) =
        .ok (index + events.length) (s', its.foldl (fun t it => (obs.observe it t).1) t) := by
  -- an observer that always proceeds lets every event through
  induction h with
  | @arrives index s s' it hstep hevent =>
    intro t
    refine ⟨[it], congrArg ([·]) hevent, ?_⟩
    rw [List.length_singleton, follow_succ, hstep]
    exact if_pos hevent
  | @passes index s s1 s' it events hstep hevent hrest ih =>
    intro t
    obtain ⟨its, hits, hfollow⟩ := ih (obs.observe it t).1
    refine ⟨it :: its, congrArg (it.event :: ·) hits, ?_⟩
    have hanswer : (obs.observe it t).2 ≠ .stop := by
      rw [hobs]
      exact nofun
    rw [List.length_cons, ← Nat.add_assoc, follow_of_step hstep hevent hanswer, hfollow,
      Nat.add_assoc index 1, Nat.add_comm 1]
    rfl

end Method

-- ---------------------------------------------------------------------------
-- Calls
-- ---------------------------------------------------------------------------

variable [Scalar K]

/-- The observer of a call lets its homotopy go on. -/
def Call.Quiet : Call K n m δ → Prop
  | .solve obs .. | .resume obs .. => ∀ it t, (obs.observe it t).2 = .proceed
  | .load _ | .reset => True

/-- The records that the observer of a call is shown, and its answers to them, from the state in which the
homotopy of the call starts. -/
def Call.log (M : Method K n m σ) (start : σ) :
    Call K n m δ → List (Iteration K n m × Answer)
  | .solve obs view budget _ _ =>
    (viewed (M.homotopy obs.transcribing budget (start, (view, [])))).2
  | .resume obs view budget => (viewed (M.homotopy obs.transcribing budget (start, (view, [])))).2
  | .load _ | .reset => []

/-- An observer that keeps its records sees the same homotopy. -/
theorem Method.homotopy_transcribing (M : Method K n m σ) (obs : Observer K n m τ) (budget : Nat) (s : σ)
    (t : τ) (log : List (Iteration K n m × Answer)) :
    outcome (M.homotopy obs.transcribing budget (s, (t, log))) = outcome (M.homotopy obs budget (s, t)) := by
  have hview := follow_view (M := M) obs obs.transcribing Prod.fst (fun _ _ => rfl) budget 0
    (M.clearVerdict s) (t, log)
  change outcome (M.follow obs.transcribing budget 0 (M.clearVerdict s, (t, log))) =
    outcome (M.follow obs budget 0 (M.clearVerdict s, t))
  rw [show M.follow obs budget 0 (M.clearVerdict s, t) = _ from hview]
  cases M.follow obs.transcribing budget 0 (M.clearVerdict s, (t, log)) <;> rfl

namespace Interface

variable {I : Interface K n m σ δ} {P : Phases n m σ} {activity : σ → Entity n m → Activity} {s : σ}

/-- What the records of a call tell whose homotopy starts in a given state.

`numbered`: they are numbered from zero. `passing`: the call has gone on after all of them but the last
one. `tells`: each of them tells about its step what it should, and the records before it are those of the
steps before. `sized`: the sizes of the working set that they tell follow each other, from that of the start
on. `ok_iff`: the call has come to the loaded problem with as many steps if the record of that number says
so, whatever has been answered to it. `exhausted_iff`: its budget is used up if there are as many records
and it has gone on after all of them. `stopped_iff`: the observer has stopped it if the last record does not
say that the loaded problem is reached, and has been answered so. `made`: up to an interruption, the records
are those of all steps. `failed`: any other error is that of a further step, which has left no record. -/
structure Records (I : Interface K n m σ δ) (activity : σ → Entity n m → Activity) (s : σ)
    (c : Call K n m δ) (start : σ) : Prop where
  numbered : (c.log I.method start).map (·.1.index) = List.range (c.log I.method start).length
  passing : ∀ r ∈ (c.log I.method start).dropLast, r.1.event ≠ .full ∧ r.2 = .proceed
  tells : ∀ (k : Nat) (r : Iteration K n m × Answer), (c.log I.method start)[k]? = some r →
    ∃ s1 s2, I.method.Made 0 (I.method.clearVerdict start)
        (((c.log I.method start).map (·.1)).take k) s1 ∧
      I.method.step k s1 = .ok r.1 s2 ∧ I.method.Tells activity s1 r.1 s2
  sized : Sized (I.method.standing activity start).count ((c.log I.method start).map (·.1))
  ok_iff : ∀ k, (I.call c s).1 = .ok k ↔
    ∃ j r, k = j + 1 ∧ (c.log I.method start)[j]? = some r ∧ r.1.event = .full
  exhausted_iff : (I.call c s).1 = .error (.failed .maxNwsrReached) ↔
    (c.log I.method start).length = c.budget ∧
      ∀ r ∈ c.log I.method start, r.1.event ≠ .full ∧ r.2 = .proceed
  stopped_iff : (I.call c s).1 = .error (.failed .userAbortRequested) ↔
    ∃ r, (c.log I.method start).getLast? = some r ∧ r.1.event ≠ .full ∧ r.2 = .stop
  made : (∀ f, (I.call c s).1 = .error f → ∃ e : QpError, f = .failed e ∧ e.IsInterruption) →
    I.method.Made 0 (I.method.clearVerdict start) ((c.log I.method start).map (·.1)) (I.call c s).2
  failed : ∀ f, (I.call c s).1 = .error f → (∀ e : QpError, f = .failed e → ¬e.IsInterruption) →
    (c.log I.method start).length < c.budget ∧ ∃ s1 f', f = f'.mapError c.report ∧
      I.method.Made 0 (I.method.clearVerdict start) ((c.log I.method start).map (·.1)) s1 ∧
        I.method.step (c.log I.method start).length s1 = .error f' (I.call c s).2

/-- How the homotopy of a call goes. -/
theorem traced_of_startsBy {c : Call K n m δ} {start : σ} (h : I.StartsBy s c start) :
    I.method.Traced c.budget 0 (I.method.clearVerdict start) (c.log I.method start)
      (c.homotopy I.method start).1 (c.homotopy I.method start).2 := by
  -- the homotopy with the transcribing observer ends in the same state and leaves the log
  have htraced : ∀ {τ : Type} (obs : Observer K n m τ) view budget,
      I.method.Traced budget 0 (I.method.clearVerdict start)
        (viewed (I.method.homotopy obs.transcribing budget (start, (view, [])))).2
        (outcome (I.method.homotopy obs budget (start, view))).1
        (outcome (I.method.homotopy obs budget (start, view))).2 := by
    intro τ obs view budget
    obtain ⟨rest, hlog, hrest⟩ := Method.follow_traced (M := I.method) obs budget 0
      (I.method.clearVerdict start) view []
    rw [← I.method.homotopy_transcribing obs budget start view []]
    have hviewed : (viewed (I.method.homotopy obs.transcribing budget (start, (view, [])))).2 = rest :=
      hlog
    rw [hviewed]
    exact hrest
  cases h with
  | @resumed τ obs view budget hstart hlimits => exact htraced obs view budget
  | @prepared τ obs view budget xGuess yGuess guess s' hguess hprepare =>
    exact htraced obs view budget

omit [Scalar K] in
/-- What a caller learns from the result of a call about that of its homotopy. -/
theorem mapError_eq_iff {c : Call K n m δ} {result : Except Fault Nat} {e : QpError}
    (he : e.IsInterruption) :
    result.mapError (Fault.mapError c.report) = .error (.failed e) ↔ result = .error (.failed e) := by
  cases result with
  | ok k => exact iff_of_false nofun nofun
  | error f =>
    cases f with
    | broken => exact iff_of_false nofun nofun
    | failed e' =>
      have hreport : c.report e' = e ↔ e' = e := by
        rw [← Call.report_inj (c := c) (e := e') (by obtain rfl | rfl := he <;> decide),
          Call.report_of_interruption he]
      simp only [Except.mapError, Fault.mapError, Except.error.injEq, Fault.failed.injEq, hreport]

/-- The records of a call tell what they should, in every state between two calls. -/
theorem Respects.records (hI : I.Respects P anyCall) (hR : I.method.Recordable P activity)
    (hs : I.method.Settled P s) {c : Call K n m δ} {start : σ} (h : I.StartsBy s c start) :
    I.Records activity s c start := by
  have htraced := traced_of_startsBy h
  obtain ⟨hmoving, hstart⟩ := hI.moving_of_startsBy hs trivial h
  have hmoving' := hI.method.moving_ignores.clearVerdict hmoving
  have hstart' : (I.method.status (I.method.clearVerdict start)).isStart := by
    rw [hI.method.status_clearVerdict]
    exact hstart
  have hcall := call_of_startsBy h
  have hresult : (I.call c s).1 =
      (c.homotopy I.method start).1.mapError (Fault.mapError c.report) := by rw [hcall]
  have hstate : (I.call c s).2 = (c.homotopy I.method start).2 := by rw [hcall]
  have hstanding : I.method.standing activity (I.method.clearVerdict start) =
      I.method.standing activity start := hR.ignores start _ false false
  refine ⟨?_, htraced.passing, fun k r hr => ?_, ?_, fun k => ?_, ?_, ?_, fun hint => ?_,
    fun f hf hnot => ?_⟩
  · rw [htraced.numbered, List.range_eq_range']
  · have htells := htraced.tells hR hI.method hmoving' hstart' k r hr
    rwa [Nat.zero_add] at htells
  · rw [← hstanding]
    exact htraced.sized hR hI.method hmoving' hstart'
  · have hok := htraced.ok_iff k
    simp only [Nat.zero_add] at hok
    rw [← hok, hresult]
    cases (c.homotopy I.method start).1 with
    | ok k' => rfl
    | error f => exact iff_of_false nofun nofun
  · rw [hresult, mapError_eq_iff (.inl rfl)]
    exact htraced.exhausted_iff hR.restartable
  · rw [hresult, mapError_eq_iff (.inr rfl)]
    exact htraced.stopped_iff hR.restartable
  · obtain ⟨s1, hmade, ⟨rfl, -⟩ | ⟨-, f, hf, hnot, -⟩⟩ := htraced.made hR.restartable
    · rwa [hstate]
    · -- the error of a step is no interruption, and is not reported as one
      obtain ⟨e, hreported, he⟩ := hint (f.mapError c.report) (by rw [hresult, hf]; rfl)
      have herror : (c.homotopy I.method start).1 = .error (.failed e) := by
        rw [← mapError_eq_iff (c := c) he, hf, ← hreported]
        rfl
      rw [hf] at herror
      cases herror
      exact absurd he (hnot e rfl)
  · obtain ⟨s1, hmade, ⟨-, hint⟩ | ⟨hlt, f', hf', -, hfailed⟩⟩ := htraced.made hR.restartable
    · cases hhomotopy : (c.homotopy I.method start).1 with
      | ok k =>
        rw [hresult, hhomotopy] at hf
        cases hf
      | error f' =>
        obtain ⟨e, rfl, he⟩ := hint f' hhomotopy
        rw [hresult, (mapError_eq_iff he).2 hhomotopy] at hf
        cases hf
        exact absurd he (hnot e rfl)
    · rw [hresult, hf'] at hf
      cases hf
      rw [Nat.zero_add] at hfailed
      exact ⟨hlt, s1, f', rfl, hmade, hstate ▸ hfailed⟩

/-- A call whose homotopy arrives by given events succeeds, unless its budget is too small or its observer
stops it, and its records are those of the events. -/
theorem StartsBy.call_of_comesBy {c : Call K n m δ} {start s' : σ}
    {events : List (StepEvent n m)} (h : I.StartsBy s c start) (hquiet : c.Quiet)
    (hbudget : events.length ≤ c.budget)
    (hcomes : I.method.ComesBy 0 (I.method.clearVerdict start) events s') :
    I.call c s = (.ok events.length, s') ∧ (I.records c s).map (·.event) = events := by
  -- the steps do not depend on the observer, so the call and the recording make the same ones
  have hfollow {τ : Type} (obs : Observer K n m τ) (hobs : ∀ it t, (obs.observe it t).2 = .proceed)
      {budget : Nat} (hbudget : events.length ≤ budget) (view : τ) :
      ∃ its : List (Iteration K n m), its.map (·.event) = events ∧
        I.method.follow obs budget 0 (I.method.clearVerdict start, view) =
          .ok events.length (s', its.foldl (fun t it => (obs.observe it t).1) view) := by
    obtain ⟨budget, rfl⟩ := Nat.exists_eq_add_of_le' hbudget
    have hfollow := hcomes.follow obs hobs budget view
    rwa [Nat.zero_add] at hfollow
  cases h with
  | @resumed τ obs view budget hstart hlimits =>
    have hbudget : events.length ≤ budget := hbudget
    have hresume {τ : Type} (obs : Observer K n m τ) (view : τ) :
        I.method.resume obs budget (s, view) =
          I.method.follow obs budget 0 (I.method.clearVerdict s, view) := by
      rw [Method.resume_eq, if_pos hstart, hlimits]
    constructor
    · obtain ⟨its, -, hrun⟩ := hfollow obs hquiet hbudget view
      rw [Interface.call, hresume, hrun]
      rfl
    · obtain ⟨its, hits, hrun⟩ := hfollow obs.logging (fun it t => hquiet it t.1) hbudget (view, [])
      rw [Interface.records, hresume, hrun, viewed, obs.foldl_logging]
      exact hits
  | @prepared τ obs view budget xGuess yGuess guess start hguess hprepare =>
    have hbudget : events.length ≤ budget := hbudget
    have hsolve {τ : Type} (obs : Observer K n m τ) (view : τ) :
        I.method.solve obs budget xGuess yGuess (s, view) = mapFault Method.initError
          (I.method.follow obs budget 0 (I.method.clearVerdict start, view)) := by
      rw [Method.solve_guessed hguess, hprepare]
    constructor
    · obtain ⟨its, -, hrun⟩ := hfollow obs hquiet hbudget view
      rw [Interface.call, hsolve, hrun]
      rfl
    · obtain ⟨its, hits, hrun⟩ := hfollow obs.logging (fun it t => hquiet it t.1) hbudget (view, [])
      rw [Interface.records, hsolve, hrun, mapFault, viewed, obs.foldl_logging]
      exact hits

/-- A call whose homotopy fails at its first step reports the error of that step. -/
theorem StartsBy.call_of_failing {c : Call K n m δ} {start s' : σ} {f : Fault}
    (h : I.StartsBy s c start) (hbudget : 0 < c.budget)
    (hstep : I.method.step 0 (I.method.clearVerdict start) = .error f s') :
    I.call c s = (.error (f.mapError c.report), s') := by
  have hends {τ : Type} (obs : Observer K n m τ) (view : τ) {budget : Nat} (hbudget : 0 < budget) :
      outcome (I.method.homotopy obs budget (start, view)) = (.error f, s') := by
    obtain ⟨budget, rfl⟩ := Nat.exists_eq_add_of_le' hbudget
    change outcome (I.method.follow obs (budget + 1) 0 (I.method.clearVerdict start, view)) = _
    rw [Method.follow_succ, hstep]
    rfl
  rw [call_of_startsBy h]
  cases h with
  | @resumed τ obs view budget hstart hlimits =>
    have hbudget : 0 < budget := hbudget
    rw [Call.homotopy, hends obs view hbudget]
    rfl
  | @prepared τ obs view budget xGuess yGuess guess start hguess hprepare =>
    have hbudget : 0 < budget := hbudget
    rw [Call.homotopy, hends obs view hbudget]
    rfl

end Interface

end ActiveSet

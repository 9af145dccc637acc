import ActiveSet.Proofs.Records
import ActiveSet.Scalar.Double

/-!
# Pages with limited room

The writer of lines is an observer that asks to stop when its page is full. A call with such a writer
makes the same steps as one with an observer that never asks to stop, so its page shows the beginning of
the same report (`Truncated`). The call notices that the page is full from the first record for which there
is no room, unless this is the record of the step to the loaded problem: the answer to that one does not
matter.

* `Method.follow_writer`, `follow_truncated`: a homotopy with a page that has room for everything, and with
  one that has not.
* `Method.Written`: what a writer leaves on its page, for both kinds of calls by
  `Method.Restartable.written`.
-/

namespace ActiveSet

open Observer

variable {n m : Nat} {σ τ : Type}

/-- A page with the lines of some records. -/
def Observer.Page.report (limit : Option Nat) (its : List (Iteration Float n m)) : Page :=
  ⟨its.map Iteration.line, limit⟩

/-- A page has room for all records of a run, except perhaps for that of the step to the loaded
problem. -/
def Unimpeded (limit : Nat) (r : EStateM.Result Fault (σ × List (Iteration Float n m)) Nat) : Prop :=
  (viewed r).length ≤ limit ∨ (viewed r).length = limit + 1 ∧ ∃ k, (outcome r).1 = .ok k

/-- What becomes of a run if its records are written to a page with limited room. The page shows as many of
the first lines as it has room for. A run that this does not impede ends as before, and another one is
stopped. -/
structure Truncated (limit : Nat) (r : EStateM.Result Fault (σ × List (Iteration Float n m)) Nat)
    (w : EStateM.Result Fault (σ × Page) Nat) : Prop where
  page_eq : viewed w = .report (some limit) ((viewed r).take limit)
  unimpeded : Unimpeded limit r → outcome w = outcome r
  impeded : ¬Unimpeded limit r → (outcome w).1 = .error (.failed .userAbortRequested)

/-- A run whose records have room on the page. -/
theorem truncated_of_le {limit : Nat} {r : EStateM.Result Fault (σ × List (Iteration Float n m)) Nat}
    {w : EStateM.Result Fault (σ × Page) Nat} (hle : (viewed r).length ≤ limit)
    (hpage : viewed w = .report (some limit) (viewed r)) (houtcome : outcome w = outcome r) :
    Truncated limit r w := by
  refine ⟨?_, fun _ => houtcome, fun hnot => absurd (.inl hle) hnot⟩
  rw [List.take_of_length_le hle]
  exact hpage

/-- It does not matter to a page which errors a call reports for others. -/
theorem Truncated.reported {limit : Nat}
    {r : EStateM.Result Fault (σ × List (Iteration Float n m)) Nat}
    {w : EStateM.Result Fault (σ × Page) Nat} (h : Truncated limit r w) {g : QpError → QpError}
    (hg : g .userAbortRequested = .userAbortRequested) :
    Truncated limit (mapFault g r) (mapFault g w) := by
  have hviewed : ∀ {τ : Type} (r : EStateM.Result Fault (σ × τ) Nat),
      viewed (mapFault g r) = viewed r :=
    fun r => by cases r <;> rfl
  have houtcome : ∀ {τ : Type} (r : EStateM.Result Fault (σ × τ) Nat), outcome (mapFault g r) =
      ((outcome r).1.mapError (Fault.mapError g), (outcome r).2) := fun r => by
    cases r <;> rfl
  have hunimpeded : Unimpeded limit (mapFault g r) ↔ Unimpeded limit r := by
    simp only [Unimpeded, hviewed, houtcome]
    cases r <;> simp [outcome, Except.mapError]
  refine ⟨?_, fun hroom => ?_, fun hroom => ?_⟩
  · rw [hviewed, hviewed, h.page_eq]
  · rw [houtcome, houtcome, h.unimpeded (hunimpeded.1 hroom)]
  · rw [houtcome, h.impeded (mt hunimpeded.2 hroom)]
    simp only [Except.mapError, Fault.mapError, hg]

namespace Method

variable {M : Method Float n m σ}

theorem observe_recorder (it : Iteration Float n m) (its : List (Iteration Float n m)) :
    (recorder none).observe it its = (its ++ [it], .proceed) := by
  simp [recorder]

/-- What has been recorded before stands before what is recorded now. -/
theorem follow_recorder (M : Method Float n m σ) (budget index : Nat) (s : σ)
    (its : List (Iteration Float n m)) :
    M.follow (.recorder none) budget index (s, its) =
      mapView (its ++ ·) (M.follow (.recorder none) budget index (s, [])) := by
  have hview := follow_view (M := M) (.recorder none) (.recorder none) (its ++ ·)
    (fun it its' => by rw [observe_recorder, observe_recorder, List.append_assoc]) budget index s []
  rwa [List.append_nil] at hview

theorem viewed_follow_recorder (M : Method Float n m σ) (budget index : Nat) (s : σ)
    (its : List (Iteration Float n m)) : viewed (M.follow (.recorder none) budget index (s, its)) =
      its ++ viewed (M.follow (.recorder none) budget index (s, [])) := by
  rw [follow_recorder]
  cases M.follow (.recorder none) budget index (s, []) <;> rfl

/-- A homotopy that arrives has made a step. -/
theorem viewed_ne_nil_of_ok {budget index k : Nat} {s : σ}
    (h : (outcome (M.follow (.recorder none) budget index (s, []))).1 = .ok k) :
    viewed (M.follow (.recorder none) budget index (s, [])) ≠ [] := by
  cases budget with
  | zero => cases h
  | succ budget =>
    rw [follow_succ] at h ⊢
    cases hstep : M.step index s with
    | error f s' =>
      rw [hstep] at h
      cases h
    | ok it s' =>
      dsimp only
      split
      · exact List.cons_ne_nil it []
      · rw [observe_recorder, if_neg (by exact nofun)]
        exact (viewed_follow_recorder M budget (index + 1) s' [it]).trans_ne (List.cons_ne_nil it _)

/-- A page without a limit shows the lines of all records. -/
theorem follow_writer (M : Method Float n m σ) (budget index : Nat) (s : σ)
    (its : List (Iteration Float n m)) :
    M.follow writer budget index (s, .report none its) =
      mapView (.report none) (M.follow (.recorder none) budget index (s, its)) :=
  follow_view (M := M) writer (.recorder none) (.report none)
    (fun it its => by simp [observe_recorder, writer, Page.hasRoom, Page.report]) budget index s its

/-- What the writer does with one more record. -/
theorem observe_writer {limit : Nat} {its : List (Iteration Float n m)} (it : Iteration Float n m)
    (hle : its.length ≤ limit) :
    writer.observe it (.report (some limit) its) =
      if its.length = limit then (.report (some limit) its, .stop)
      else (.report (some limit) (its ++ [it]), .proceed) := by
  by_cases hfull : its.length = limit
  · simp [writer, Page.hasRoom, Page.report, hfull]
  · have hlt : its.length < limit := by omega
    simp [writer, Page.hasRoom, Page.report, hfull, hlt]

/-- A page shows as much of a homotopy as it has room for. -/
theorem follow_truncated (M : Method Float n m σ) (limit budget : Nat) :
    ∀ (index : Nat) (s : σ) (its : List (Iteration Float n m)), its.length ≤ limit →
      Truncated limit (M.follow (.recorder none) budget index (s, its))
        (M.follow writer budget index (s, .report (some limit) its)) := by
  induction budget with
  | zero => exact fun index s its hle => truncated_of_le hle rfl rfl
  | succ budget ih =>
    intro index s its hle
    rw [follow_succ, follow_succ]
    cases hstep : M.step index s with
    | error f s' => exact truncated_of_le hle rfl rfl
    | ok it s' =>
      dsimp only
      rw [observe_writer it hle, observe_recorder]
      dsimp only
      rw [if_neg (show ¬Answer.proceed = .stop from nofun)]
      by_cases hroom : its.length = limit
      · -- there is no room for this record
        rw [if_pos hroom]
        dsimp only
        rw [if_pos rfl]
        have htake : ∀ more, (its ++ more).take limit = its := fun more => List.take_left' hroom
        split
        · refine ⟨?_, fun _ => rfl, fun hnot => absurd (.inr ⟨?_, _, rfl⟩) hnot⟩
          · exact congrArg (Page.report (some limit)) (htake [it]).symm
          · exact (List.length_append ..).trans (by rw [hroom]; rfl)
        · have hviewed := viewed_follow_recorder M budget (index + 1) s' (its ++ [it])
          rw [List.append_assoc] at hviewed
          refine ⟨?_, fun hunimpeded => ?_, fun _ => rfl⟩
          · exact (congrArg (Page.report (some limit)) ((congrArg _ hviewed).trans (htake _))).symm
          · -- a homotopy that arrives later has made one more step
            exfalso
            obtain hle' | ⟨heq, k, hok⟩ := hunimpeded
            · rw [hviewed, List.length_append, List.length_append, List.length_singleton] at hle'
              omega
            · rw [follow_recorder] at hok
              have hne : viewed (M.follow (recorder none) budget (index + 1) (s', [])) ≠ [] := by
                refine viewed_ne_nil_of_ok (k := k) ?_
                rw [← hok]
                cases M.follow (recorder none) budget (index + 1) (s', []) <;> rfl
              have hpos := List.length_pos_of_ne_nil hne
              rw [hviewed, List.length_append, List.length_append, List.length_singleton] at heq
              omega
      · rw [if_neg hroom]
        dsimp only
        rw [if_neg (show ¬Answer.proceed = .stop from nofun)]
        have hlt : (its ++ [it]).length ≤ limit := by
          rw [List.length_append, List.length_singleton]
          omega
        split
        · exact truncated_of_le hlt rfl rfl
        · exact ih (index + 1) s' (its ++ [it]) hlt

/-- What a writer leaves on its page at the end of a call.

`unlimited`: without a limit, the lines of all records, and else the call is the one that nobody stops.
`limited`: with a limit, what has become of that. `lines_eq`: these are the first lines of those without a
limit, as many as there is room for. -/
structure Written (M : Method Float n m σ) (s : σ) (start : Start Float) (budget limit : Nat) :
    Prop where
  unlimited : M.run start writer budget (s, .blank none) =
    mapView (.report none) (M.run start (.recorder none) budget (s, []))
  limited : Truncated limit (M.run start (.recorder none) budget (s, []))
    (M.run start writer budget (s, .blank (some limit)))
  lines_eq : (viewed (M.run start writer budget (s, .blank (some limit)))).lines =
    (viewed (M.run start writer budget (s, .blank none))).lines.take limit

theorem Restartable.written (hM : M.Restartable) (s : σ) (start : Start Float) (budget limit : Nat) :
    M.Written s start budget limit := by
  have hboth : M.run start writer budget (s, .blank none) =
      mapView (.report none) (M.run start (.recorder none) budget (s, [])) ∧
        Truncated limit (M.run start (.recorder none) budget (s, []))
          (M.run start writer budget (s, .blank (some limit))) := by
    obtain ⟨f, s', -, hrun⟩ | ⟨s', -, -, -, -, hrun⟩ := hM.run_cases start s
    · rw [hrun, hrun, hrun]
      exact ⟨rfl, truncated_of_le (Nat.zero_le limit) rfl rfl⟩
    · rw [hrun, hrun, hrun, ← mapFault_mapView, ← follow_writer]
      exact ⟨rfl, (follow_truncated M limit budget 0 s' [] (Nat.zero_le limit)).reported
        (by cases start <;> rfl)⟩
  obtain ⟨hunlimited, hlimited⟩ := hboth
  refine ⟨hunlimited, hlimited, ?_⟩
  rw [hlimited.page_eq, hunlimited]
  cases M.run start (.recorder none) budget (s, []) <;> exact List.map_take

end Method

end ActiveSet

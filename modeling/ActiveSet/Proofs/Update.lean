import ActiveSet.Fault

/-!
# What an update ensures

An `Update` runs from a state to a value or to a fault, and in both cases to a state.
`Update.Ensures u s Q E` says of a run of `u` from `s` that a value comes with a state as `Q` says,
and a fault with a state as `E` says. So a broken requirement is ruled out by an `E` that admits
errors only, and a state that a failed operation leaves behind is described as precisely as the
state after a success.

For each way to build an update there is one equation, so that a statement about a composed update
is taken apart by rewriting. Where a composed update uses one that has a lemma of its own,
`Ensures.mono` and `ensures_bind_of` put that lemma in.

* `ensures_bind`, `ensures_modify`, `ensures_recover`, …: the equations.
* `Ensures.mono`, `Ensures.and`: weakening and conjunction.
* `ensures_forM`: an invariant of a loop, indexed by what is still to be done.

An operation without a state returns a value or an error. One that is composed of two has succeeded with
both of them (`exists_of_bind_ok`, `exists_of_map_ok`).
-/

namespace ActiveSet

section Results

variable {ε α β : Type} {r : Except ε α} {b : β}

/-- Both parts of a composed operation that succeeded have succeeded. -/
theorem exists_of_bind_ok {k : α → Except ε β} (h : r >>= k = .ok b) :
    ∃ a, r = .ok a ∧ k a = .ok b := by
  cases r with
  | error e => cases h
  | ok a => exact ⟨a, rfl, h⟩

/-- What becomes of the result of an operation that succeeded. -/
theorem exists_of_map_ok {g : α → β} (h : r.map g = .ok b) : ∃ a, r = .ok a ∧ g a = b := by
  cases r with
  | error e => cases h
  | ok a => exact ⟨a, rfl, Except.ok.inj h⟩

/-- The error of an operation of which the result is changed is that of the operation. -/
theorem of_map_error {g : α → β} {e : ε} (h : r.map g = .error e) : r = .error e := by
  cases r with
  | error e' => exact congrArg Except.error (Except.error.inj h)
  | ok a => cases h

end Results

namespace Update

variable {σ α β : Type} {s : σ}

/-- Run from `s`, the update ends with a value and a state for which `Q` holds, or with a fault and
a state for which `E` holds. -/
def Ensures (u : Update σ α) (s : σ) (Q : α → σ → Prop) (E : Fault → σ → Prop) : Prop :=
  match u s with
  | .ok a s' => Q a s'
  | .error f s' => E f s'

variable {Q : α → σ → Prop} {E : Fault → σ → Prop} {u : Update σ α}

theorem Ensures.mono {Q' : α → σ → Prop} {E' : Fault → σ → Prop} (h : u.Ensures s Q E)
    (hQ : ∀ a s', Q a s' → Q' a s') (hE : ∀ f s', E f s' → E' f s') : u.Ensures s Q' E' := by
  unfold Ensures at *
  split
  · next a s' heq =>
    rw [heq] at h
    exact hQ a s' h
  · next f s' heq =>
    rw [heq] at h
    exact hE f s' h

theorem Ensures.and {Q' : α → σ → Prop} {E' : Fault → σ → Prop} (h : u.Ensures s Q E)
    (h' : u.Ensures s Q' E') :
    u.Ensures s (fun a s' => Q a s' ∧ Q' a s') (fun f s' => E f s' ∧ E' f s') := by
  unfold Ensures at *
  split
  · next a s' heq =>
    rw [heq] at h h'
    exact ⟨h, h'⟩
  · next f s' heq =>
    rw [heq] at h h'
    exact ⟨h, h'⟩

/-- What a run that ended with a value ensured. -/
theorem Ensures.of_ok {a : α} {s' : σ} (h : u.Ensures s Q E) (hrun : u s = .ok a s') : Q a s' := by
  unfold Ensures at h
  rw [hrun] at h
  exact h

/-- What a run that ended with a fault ensured. -/
theorem Ensures.of_error {f : Fault} {s' : σ} (h : u.Ensures s Q E) (hrun : u s = .error f s') :
    E f s' := by
  unfold Ensures at h
  rw [hrun] at h
  exact h

/-- A run that cannot end with a fault ends with a value. -/
theorem Ensures.exists_ok (h : u.Ensures s Q fun _ _ => False) :
    ∃ a s', u s = .ok a s' ∧ Q a s' := by
  unfold Ensures at h
  split at h
  · next a s' hrun => exact ⟨a, s', hrun, h⟩
  · exact h.elim

theorem Ensures.exists_error (h : u.Ensures s (fun _ _ => False) E) :
    ∃ f s', u s = .error f s' ∧ E f s' := by
  unfold Ensures at h
  split at h
  · exact h.elim
  · next f s' hrun => exact ⟨f, s', hrun, h⟩

/-- A run ends as it does. -/
theorem ensures_run (u : Update σ α) (s : σ) :
    u.Ensures s (fun a s' => u s = .ok a s') fun f s' => u s = .error f s' := by
  unfold Ensures
  cases u s <;> rfl

/-- A run from one state leaves another one, whether it ends with a value or with a fault. -/
def Leaves (u : Update σ α) (s s' : σ) : Prop := (∃ a, u s = .ok a s') ∨ ∃ f, u s = .error f s'

/-- What a run ensures whichever way it ends holds of the state that it leaves. -/
theorem Ensures.of_leaves {P : σ → Prop} {s' : σ} (h : u.Ensures s (fun _ => P) fun _ => P)
    (hrun : u.Leaves s s') : P s' := by
  obtain ⟨a, hrun⟩ | ⟨f, hrun⟩ := hrun
  · exact h.of_ok hrun
  · exact h.of_error hrun

/-! ## Steps -/

@[simp] theorem ensures_pure (a : α) : (pure a : Update σ α).Ensures s Q E ↔ Q a s := Iff.rfl

@[simp] theorem ensures_get {Q : σ → σ → Prop} :
    (get : Update σ σ).Ensures s Q E ↔ Q s s := Iff.rfl

@[simp] theorem ensures_set {Q : PUnit → σ → Prop} (t : σ) :
    (set t : Update σ PUnit).Ensures s Q E ↔ Q ⟨⟩ t := Iff.rfl

theorem get_eq : (get : Update σ σ) s = .ok s s := rfl

theorem modify_eq (f : σ → σ) : (modify f : Update σ PUnit) s = .ok ⟨⟩ (f s) := rfl

@[simp] theorem ensures_modify {Q : PUnit → σ → Prop} (f : σ → σ) :
    (modify f : Update σ PUnit).Ensures s Q E ↔ Q ⟨⟩ (f s) := Iff.rfl

@[simp] theorem ensures_throw (f : Fault) :
    (throw f : Update σ α).Ensures s Q E ↔ E f s := Iff.rfl

@[simp] theorem ensures_fail (e : QpError) :
    (fail e : Update σ α).Ensures s Q E ↔ E (.failed e) s := Iff.rfl

@[simp] theorem require_some (a : α) : (require (some a) : Update σ α) = pure a := rfl

@[simp] theorem ofExcept_ok (a : α) : (ofExcept (.ok a) : Update σ α) = pure a := rfl

@[simp] theorem ofExcept_error (e : QpError) :
    (ofExcept (.error e) : Update σ α) = fail e := rfl

@[simp] theorem ofAttempt_ok (a : α) :
    (ofAttempt (some (.ok a) : Option (Except (Failure β) α)) : Update σ α) = pure a := rfl

@[simp] theorem ofAttempt_error (f : Failure β) :
    (ofAttempt (some (.error f) : Option (Except (Failure β) α)) : Update σ α) = fail f.error := rfl

/-- An operation whose requirement holds succeeds or fails. -/
theorem ensures_ofAttempt {o : Option (Except (Failure β) α)} (h : o.isSome = true)
    (hQ : ∀ a, o = some (.ok a) → Q a s)
    (hE : ∀ f, o = some (.error f) → E (.failed f.error) s) : (ofAttempt o).Ensures s Q E := by
  cases o with
  | none => cases h
  | some r =>
    cases r with
    | ok a => exact hQ a rfl
    | error f => exact hE f rfl

/-! ## Composition -/

theorem ensures_bind {Q : β → σ → Prop} {k : α → Update σ β} :
    (u >>= k).Ensures s Q E ↔ u.Ensures s (fun a s' => (k a).Ensures s' Q E) E := by
  change Ensures (EStateM.bind u k) s Q E ↔ _
  unfold Ensures EStateM.bind
  cases u s <;> rfl

/-- A composed update goes on where its first part has ended with a value. -/
theorem bind_of_ok {b : β} {s' : σ} {v : Update σ β} (hrun : v s = .ok b s') (k : β → Update σ α) :
    (v >>= k) s = k b s' := by
  change EStateM.bind v k s = _
  unfold EStateM.bind
  rw [hrun]

/-- The first part of a composed update, by a lemma about it. -/
theorem ensures_bind_of {Q : β → σ → Prop} {k : α → Update σ β} {P : α → σ → Prop}
    {E' : Fault → σ → Prop} (hu : u.Ensures s P E') (hE : ∀ f s', E' f s' → E f s')
    (hk : ∀ a s', P a s' → (k a).Ensures s' Q E) : (u >>= k).Ensures s Q E :=
  ensures_bind.2 (hu.mono hk hE)

/-- The second computation takes up an error of the first one, but no broken requirement. -/
theorem ensures_recover {handler : QpError → Update σ α} :
    (recover u handler).Ensures s Q E ↔
      u.Ensures s Q fun f s' =>
        match f with
        | .failed e => (handler e).Ensures s' Q E
        | .broken => E .broken s' := by
  unfold Ensures recover
  cases u s with
  | ok a s' => rfl
  | error f s' => cases f <;> rfl

theorem ensures_mapError {g : QpError → QpError} :
    (mapError g u).Ensures s Q E ↔ u.Ensures s Q fun f s' => E (f.mapError g) s' := by
  unfold Ensures mapError
  cases u s <;> rfl

theorem ensures_first {τ : Type} {t : τ} {Q : α → σ × τ → Prop} {E : Fault → σ × τ → Prop} :
    (first u).Ensures (s, t) Q E ↔
      u.Ensures s (fun a s' => Q a (s', t)) fun f s' => E f (s', t) := by
  unfold Ensures first
  cases u s <;> rfl

theorem ensures_focus {τ : Type} {get : τ → σ} {set : τ → σ → τ} {t : τ} {Q : α → τ → Prop}
    {E : Fault → τ → Prop} :
    (focus get set u).Ensures t Q E ↔
      u.Ensures (get t) (fun a s' => Q a (set t s')) fun f s' => E f (set t s') := by
  unfold Ensures focus
  cases u (get t) <;> rfl

theorem ensures_ite {c : Prop} [Decidable c] {v : Update σ α} :
    (if c then u else v).Ensures s Q E ↔
      (c → u.Ensures s Q E) ∧ (¬c → v.Ensures s Q E) := by
  split
  · next h => simp [h]
  · next h => simp [h]

/-- A loop over a list keeps an invariant that speaks of the elements still to come. -/
theorem ensures_forM {f : β → Update σ PUnit} {I : List β → σ → Prop}
    (step : ∀ b rest s, I (b :: rest) s → (f b).Ensures s (fun _ s' => I rest s') E) :
    ∀ {l : List β} {s : σ}, I l s → (l.forM f).Ensures s (fun _ s' => I [] s') E := by
  intro l
  induction l with
  | nil => exact fun h => h
  | cons b rest ih =>
    intro s h
    change (f b >>= fun _ => rest.forM f).Ensures s _ E
    exact ensures_bind_of (step b rest s h) (fun _ _ h => h) fun _ _ h => ih h

theorem ensures_forM_of {f : β → Update σ PUnit} {I : List β → σ → Prop} {P : σ → Prop}
    (step : ∀ b rest s, I (b :: rest) s → (f b).Ensures s (fun _ s' => I rest s') E)
    (hP : ∀ s, I [] s → P s) {l : List β} (h : I l s) :
    (l.forM f).Ensures s (fun _ s' => P s') E :=
  (ensures_forM step h).mono (fun _ s' => hP s') fun _ _ h => h

end Update

end ActiveSet

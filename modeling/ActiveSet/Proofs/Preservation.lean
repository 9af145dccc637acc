import ActiveSet.Proofs.Update

/-!
# What an update preserves

Some facts about an update hold in every state, whether or not the requirements of its operations
hold: what it never writes, and with which errors it can fail. `Update.Preserves u P E` says that `u`
leads from states with `P` to states with `P`, also where it fails, and that its errors satisfy `E`. A
broken requirement is admitted, since nothing is asked of the state.

There is one rule for each way to build an update, so that a statement follows the shape of the
program. The state that `get` returns has `P`, which is what a later `set` needs.
-/

namespace ActiveSet.Update

variable {σ α β : Type}

/-- From a state with `P` the update leads to a state with `P`, and it fails only with an error that
satisfies `E`, or since it breaks a requirement. -/
def Preserves (u : Update σ α) (P : σ → Prop) (E : QpError → Prop) : Prop :=
  ∀ s, P s → u.Ensures s (fun _ s' => P s') fun f s' => P s' ∧ ∀ e, f = .failed e → E e

variable {P : σ → Prop} {E : QpError → Prop} {u : Update σ α}

theorem Preserves.mono {E' : QpError → Prop} (h : u.Preserves P E) (hE : ∀ e, E e → E' e) :
    u.Preserves P E' :=
  fun s hs => (h s hs).mono (fun _ _ h => h) fun _ _ h => ⟨h.1, fun e he => hE e (h.2 e he)⟩

/-- What an update preserves holds of the state that a run leaves. -/
theorem Preserves.of_leaves {s s' : σ} (h : u.Preserves P E) (hs : P s) (hrun : u.Leaves s s') :
    P s' :=
  ((h s hs).mono (fun _ _ hs' => hs') fun _ _ hs' => hs'.1).of_leaves hrun

/-! ## Steps -/

theorem preserves_pure (a : α) : (pure a : Update σ α).Preserves P E := fun _ hs => hs

theorem preserves_set {t : σ} (ht : P t) : (set t : Update σ PUnit).Preserves P E := fun _ _ => ht

theorem preserves_modify {f : σ → σ} (hf : ∀ s, P s → P (f s)) :
    (modify f : Update σ PUnit).Preserves P E := hf

theorem preserves_fail {e : QpError} (he : E e) : (fail e : Update σ α).Preserves P E := by
  intro s hs
  rw [ensures_fail]
  refine ⟨hs, fun e' heq => ?_⟩
  cases heq
  exact he

theorem preserves_broken : (throw Fault.broken : Update σ α).Preserves P E := by
  intro s hs
  rw [ensures_throw]
  exact ⟨hs, fun _ => nofun⟩

/-- What would follow a broken requirement does not matter. -/
theorem preserves_broken_bind {k : β → Update σ α} :
    (throw Fault.broken >>= k : Update σ α).Preserves P E := by
  intro s hs
  rw [ensures_bind, ensures_throw]
  exact ⟨hs, fun _ => nofun⟩

theorem preserves_require (o : Option α) : (require o : Update σ α).Preserves P E := by
  cases o with
  | none => exact preserves_broken
  | some a => exact preserves_pure a

theorem preserves_ofExcept {o : Except QpError α} (hE : ∀ e, o = .error e → E e) :
    (ofExcept o : Update σ α).Preserves P E := by
  cases o with
  | error e => exact preserves_fail (hE e rfl)
  | ok a => exact preserves_pure a

theorem preserves_ofAttempt {o : Option (Except (Failure β) α)} (hE : ∀ e, E e) :
    (ofAttempt o : Update σ α).Preserves P E := by
  cases o with
  | none => exact preserves_broken
  | some r =>
    cases r with
    | error f => exact preserves_fail (hE f.error)
    | ok a => exact preserves_pure a

/-! ## Composition -/

theorem Preserves.bind {k : α → Update σ β} (hu : u.Preserves P E)
    (hk : ∀ a, (k a).Preserves P E) : (u >>= k).Preserves P E :=
  fun s hs => ensures_bind_of (hu s hs) (fun _ _ h => h) fun a s' hs' => hk a s' hs'

theorem preserves_get_bind {k : σ → Update σ β} (hk : ∀ s, P s → (k s).Preserves P E) :
    (get >>= k).Preserves P E := fun s hs => hk s hs s hs

theorem Preserves.ite {c : Prop} [Decidable c] {v : Update σ α} (hu : c → u.Preserves P E)
    (hv : ¬c → v.Preserves P E) : (if c then u else v).Preserves P E := by
  split
  · next h => exact hu h
  · next h => exact hv h

theorem Preserves.mapError {F : QpError → Prop} {g : QpError → QpError} (hu : u.Preserves P F)
    (hg : ∀ e, F e → E (g e)) : (mapError g u).Preserves P E := by
  intro s hs
  rw [ensures_mapError]
  refine (hu s hs).mono (fun _ _ h => h) fun f s' h => ⟨h.1, fun e he => ?_⟩
  cases f with
  | broken => cases he
  | failed e' =>
    cases he
    exact hg e' (h.2 e' rfl)

theorem Preserves.forM {f : β → Update σ PUnit} (hf : ∀ b, (f b).Preserves P E) (l : List β) :
    (l.forM f).Preserves P E :=
  fun _ hs => ensures_forM (I := fun _ s => P s) (fun b _ s hs => hf b s hs) hs

/-- A part of a state keeps what a predicate says of it. -/
theorem Preserves.focus {τ : Type} {Q : τ → Prop} {get : τ → σ} {set : τ → σ → τ}
    (hu : u.Preserves P E) (hget : ∀ t, Q t → P (get t)) (hset : ∀ t s, Q t → P s → Q (set t s)) :
    (Update.focus get set u).Preserves Q E := by
  intro t ht
  rw [ensures_focus]
  exact (hu _ (hget t ht)).mono (fun _ s' h => hset t s' ht h) fun _ s' h => ⟨hset t s' ht h.1, h.2⟩

end ActiveSet.Update

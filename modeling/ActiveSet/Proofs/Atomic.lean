import ActiveSet.Proofs.Update

/-!
# Updates made as a whole

An operation can be written in two ways. As a function it returns the next state or an error, and
then an error cannot come with half of a change. As an update it makes its writes one after the
other, and an error comes with whatever was written before it.

The two agree where every check of the update comes before its first write. `Update.atomically f` is
the update that makes the change of a function `f` as a whole, and an update that is equal to it
leaves the state it was started from wherever it fails.

* `atomically`, `eq_atomically`: updates made as a whole, and how an update is shown to be one.
* `result`, `left`: how a run ends, and what it leaves.
* `fill`: a table that is written one entry after the other.
* `left_foldl`: an invariant of the changes that are made one after the other.
-/

namespace ActiveSet.Update

variable {σ α : Type}

/-- Takes a state to the next one as a function says, or fails and leaves it as it is. -/
def atomically (f : σ → Except QpError (α × σ)) : Update σ α := fun s =>
  match f s with
  | .ok (a, s') => .ok a s'
  | .error e => .error (.failed e) s

/-- How a run ends. -/
def result (u : Update σ α) (s : σ) : Except Fault α :=
  match u s with
  | .ok a _ => .ok a
  | .error f _ => .error f

/-- The state that a run leaves, whichever way it ends. -/
def left (u : Update σ α) (s : σ) : σ :=
  match u s with
  | .ok _ s' => s'
  | .error _ s' => s'

variable {f : σ → Except QpError (α × σ)} {u : Update σ α} {s s' t : σ}

theorem result_of_ok {a : α} (h : u s = .ok a s') : u.result s = .ok a := by
  rw [result, h]

theorem left_of_ok {a : α} (h : u s = .ok a s') : u.left s = s' := by
  rw [left, h]

theorem result_of_error {e : Fault} (h : u s = .error e s') : u.result s = .error e := by
  rw [result, h]

theorem left_of_error {e : Fault} (h : u s = .error e s') : u.left s = s' := by
  rw [left, h]

/-! ## Changes as a whole -/

theorem atomically_of_ok {a : α} (h : f s = .ok (a, t)) : atomically f s = .ok a t := by
  rw [atomically, h]

theorem atomically_of_error {e : QpError} (h : f s = .error e) :
    atomically f s = .error (.failed e) s := by
  rw [atomically, h]

/-- A change that succeeds as a whole is that of the function. -/
theorem of_atomically_ok {a : α} (h : atomically f s = .ok a s') : f s = .ok (a, s') := by
  cases hf : f s with
  | error e =>
    rw [atomically_of_error hf] at h
    cases h
  | ok r =>
    rw [atomically_of_ok hf] at h
    cases h
    rfl

/-- A change that is refused as a whole leaves the state as it is. -/
theorem of_atomically_error {fault : Fault} (h : atomically f s = .error fault s') :
    s' = s ∧ ∃ e, fault = .failed e ∧ f s = .error e := by
  cases hf : f s with
  | error e =>
    rw [atomically_of_error hf] at h
    cases h
    exact ⟨rfl, e, rfl, rfl⟩
  | ok r =>
    rw [atomically_of_ok hf] at h
    cases h

theorem ensures_atomically {Q : α → σ → Prop} {E : Fault → σ → Prop}
    (hQ : ∀ a s', f s = .ok (a, s') → Q a s') (hE : ∀ e, f s = .error e → E (.failed e) s) :
    (atomically f).Ensures s Q E := by
  unfold Ensures
  cases hf : f s with
  | error e =>
    rw [atomically_of_error hf]
    exact hE e hf
  | ok r =>
    rw [atomically_of_ok hf]
    exact hQ r.1 r.2 hf

/-- An update makes the change of a function as a whole, if it ends as the function does and leaves
the state as it is where that is an error. -/
theorem eq_atomically (h : ∀ s, u.Ensures s (fun a s' => f s = .ok (a, s'))
    fun fault s' => s' = s ∧ ∃ e, fault = .failed e ∧ f s = .error e) : u = atomically f := by
  funext s
  cases hrun : u s with
  | ok a s' => rw [atomically_of_ok ((h s).of_ok hrun)]
  | error fault s' =>
    obtain ⟨rfl, e, rfl, he⟩ := (h s).of_error hrun
    rw [atomically_of_error he]

section States

variable {g h : σ → Except QpError σ} {e : QpError}

/-- An operation without a result that is accepted. -/
theorem atomically_map_of_ok (hg : g s = .ok t) :
    atomically (fun s => (g s).map (Prod.mk ())) s = .ok () t :=
  atomically_of_ok (by rw [hg]; rfl)

/-- An operation without a result that is refused. -/
theorem atomically_map_of_error (hg : g s = .error e) :
    atomically (fun s => (g s).map (Prod.mk ())) s = .error (.failed e) s :=
  atomically_of_error (by rw [hg]; rfl)

theorem ensures_atomically_map (g : σ → Except QpError σ) (s : σ) :
    (atomically fun s => (g s).map (Prod.mk ())).Ensures s (fun _ s' => g s = .ok s')
      fun f s' => s' = s ∧ ∃ e, f = .failed e ∧ g s = .error e := by
  refine ensures_atomically (fun _ s' hs' => ?_) fun e he => ⟨rfl, e, rfl, of_map_error he⟩
  obtain ⟨_, hok, heq⟩ := exists_of_map_ok hs'
  cases heq
  exact hok

/-- Two changes, neither of which is refused. -/
theorem ensures_atomically_bind (hg : ∀ e, g s ≠ .error e) (hh : ∀ s e, h s ≠ .error e) :
    ((atomically fun s => (g s).map (Prod.mk ())) >>= fun _ =>
      atomically fun s => (h s).map (Prod.mk ())).Ensures s (fun _ s' => (g s >>= h) = .ok s')
        fun _ _ => False := by
  refine ensures_bind_of (ensures_atomically_map g s) ?_ fun _ s1 hs1 => ?_
  · rintro f s' ⟨-, e, -, he⟩
    exact hg e he
  · refine (ensures_atomically_map h s1).mono (fun _ s2 hs2 => ?_) ?_
    · rw [hs1]
      exact hs2
    · rintro f s' ⟨-, e, -, he⟩
      exact hh s1 e he

end States

/-! ## Tables -/

section Tables

variable {n : Nat}

/-- Writes all entries of a table, one after the other. -/
def fill (a : Fin n → α) : Update (Vector α n) Unit :=
  (List.finRange n).forM fun i => modify fun v => v.set i (a i) i.isLt

/-- A table that has been written holds nothing else. -/
theorem fill_ensures (a : Fin n → α) (v : Vector α n) :
    (fill a).Ensures v (fun _ v' => v' = .ofFn a) fun _ _ => False := by
  -- the entries that are not to come any more have been written
  refine ensures_forM_of (I := fun rest v => ∀ i : Fin n, i ∉ rest → getElem v i.val i.isLt = a i)
    (fun i rest v h => ?_) (fun v h => ?_) fun i hi => absurd (List.mem_finRange i) hi
  · rw [ensures_modify]
    intro j hj
    by_cases hji : j = i
    · subst hji
      rw [Vector.getElem_set_self]
    · rw [Vector.getElem_set_ne _ _ fun heq => hji (Fin.ext heq.symm)]
      exact h j (List.not_mem_cons_of_ne_of_not_mem hji hj)
  · apply Vector.ext
    intro k hk
    rw [h ⟨k, hk⟩ List.not_mem_nil, Vector.getElem_ofFn]

end Tables

/-! ## Changes one after the other -/

/-- What every change keeps, a list of them keeps. -/
theorem left_foldl {ι γ : Type} {u : ι → Update σ α} {f : ι → γ → γ} {P : σ → γ → Prop}
    (step : ∀ c s g, P s g → P ((u c).left s) (f c g)) (l : List ι) :
    ∀ {s : σ} {g : γ}, P s g →
      P (l.foldl (fun s c => (u c).left s) s) (l.foldl (fun g c => f c g) g) := by
  induction l with
  | nil => exact fun h => h
  | cons c rest ih => exact fun h => ih (step c _ _ h)

end ActiveSet.Update

import ActiveSet.Proofs.Update

/-!
# Two updates side by side

`Update.Related u v s t Q E` compares a run of `u` from `s` with one of `v` from `t`, whose states may be
of different types. Both end with values and in states that `Q` relates, or both end with the same fault, in
states that `E` relates. If the values are the same, the runs are `Update.Alike`.

There is a rule for each way to build an update on both sides at once. A part that only one of the two
has is passed by a lemma about it alone (`Alike.right_get`, `Alike.right_modify`), and what is known of a
single run joins in by `Alike.and_left` and `Alike.and_right`.
-/

namespace ActiveSet

/-- Two attempts end in the same way: with related results, or with the same error and related remains. -/
inductive AttemptsAlike {α β δ ε : Type} (R : α → β → Prop) (L : δ → ε → Prop) :
    Except (Failure δ) α → Except (Failure ε) β → Prop
  | ok {a b} (h : R a b) : AttemptsAlike R L (.ok a) (.ok b)
  | error {x y} (e : QpError) (h : L x y) : AttemptsAlike R L (.error ⟨e, x⟩) (.error ⟨e, y⟩)

namespace Update

variable {σ ρ α α' β β' : Type} {s : σ} {t : ρ}

/-- Run from `s` and from `t`, two updates end with values and states that `Q` relates, or with the same
fault and states that `E` relates. -/
def Related (u : Update σ α) (v : Update ρ β) (s : σ) (t : ρ) (Q : α → β → σ → ρ → Prop)
    (E : Fault → σ → ρ → Prop) : Prop :=
  u.Ensures s (fun a s' => v.Ensures t (fun b t' => Q a b s' t') fun _ _ => False)
    fun f s' => v.Ensures t (fun _ _ => False) fun g t' => f = g ∧ E f s' t'

/-- Two updates end with the same value and states that `Q` relates, or with the same fault and states
that `E` relates. -/
abbrev Alike (u : Update σ α) (v : Update ρ α) (s : σ) (t : ρ) (Q : α → σ → ρ → Prop)
    (E : Fault → σ → ρ → Prop) : Prop :=
  u.Related v s t (fun a b s' t' => a = b ∧ Q a s' t') E

section Related

variable {Q : α → β → σ → ρ → Prop} {E : Fault → σ → ρ → Prop} {u : Update σ α} {v : Update ρ β}

theorem Related.mono {Q' : α → β → σ → ρ → Prop} {E' : Fault → σ → ρ → Prop} (h : u.Related v s t Q E)
    (hQ : ∀ a b s' t', Q a b s' t' → Q' a b s' t') (hE : ∀ f s' t', E f s' t' → E' f s' t') :
    u.Related v s t Q' E' :=
  Ensures.mono h
    (fun a s' h => h.mono (fun b t' h => hQ a b s' t' h) fun _ _ h => h)
    fun f s' h => h.mono (fun _ _ h => h) fun _ t' h => ⟨h.1, hE f s' t' h.2⟩

/-- The two ways in which runs end. -/
theorem Related.cases (h : u.Related v s t Q E) :
    (∃ a b s' t', u s = .ok a s' ∧ v t = .ok b t' ∧ Q a b s' t') ∨
      ∃ f s' t', u s = .error f s' ∧ v t = .error f t' ∧ E f s' t' := by
  unfold Related Ensures at h
  cases hu : u s with
  | ok a s' =>
    rw [hu] at h
    cases hv : v t with
    | ok b t' =>
      rw [hv] at h
      exact .inl ⟨a, b, s', t', rfl, rfl, h⟩
    | error g t' =>
      rw [hv] at h
      exact h.elim
  -- runs that are alike end the same way, so the two mixed cases are void
  | error f s' =>
    rw [hu] at h
    cases hv : v t with
    | ok b t' =>
      rw [hv] at h
      exact h.elim
    | error g t' =>
      rw [hv] at h
      obtain ⟨rfl, h⟩ := h
      exact .inr ⟨f, s', t', rfl, rfl, h⟩

theorem related_of_ok {a : α} {b : β} {s' : σ} {t' : ρ} (hu : u s = .ok a s') (hv : v t = .ok b t')
    (h : Q a b s' t') : u.Related v s t Q E := by
  unfold Related Ensures
  rw [hu, hv]
  exact h

theorem related_of_error {f : Fault} {s' : σ} {t' : ρ} (hu : u s = .error f s')
    (hv : v t = .error f t') (h : E f s' t') : u.Related v s t Q E := by
  unfold Related Ensures
  rw [hu, hv]
  exact ⟨rfl, h⟩

/-- Two runs of which everything is known that matters. They are related if neither can succeed where the
other fails. -/
theorem related_of_ensures {P : α → σ → Prop} {F : Fault → σ → Prop} {P' : β → ρ → Prop}
    {F' : Fault → ρ → Prop} (hu : u.Ensures s P F) (hv : v.Ensures t P' F')
    (hok : ∀ a s' b t', P a s' → P' b t' → Q a b s' t')
    (herror : ∀ f s' f' t', F f s' → F' f' t' → f = f' ∧ E f s' t')
    (hleft : ∀ a s' f' t', P a s' → ¬F' f' t') (hright : ∀ f s' b t', F f s' → ¬P' b t') :
    u.Related v s t Q E :=
  hu.mono
    (fun a s' hP => hv.mono (fun b t' hP' => hok a s' b t' hP hP') fun f' t' hF' =>
      hleft a s' f' t' hP hF')
    fun f s' hF => hv.mono (fun b t' hP' => hright f s' b t' hF hP') fun f' t' hF' =>
      herror f s' f' t' hF hF'

/-! ## Steps -/

theorem related_pure {a : α} {b : β} (h : Q a b s t) :
    (pure a : Update σ α).Related (pure b : Update ρ β) s t Q E := h

theorem related_throw {f : Fault} (h : E f s t) :
    (throw f : Update σ α).Related (throw f : Update ρ β) s t Q E := ⟨rfl, h⟩

theorem related_fail {e : QpError} (h : E (.failed e) s t) :
    (fail e : Update σ α).Related (fail e : Update ρ β) s t Q E := ⟨rfl, h⟩

theorem related_require {R : α → β → Prop} {o : Option α} {o' : Option β} (h : Option.Rel R o o')
    (hQ : ∀ a b, R a b → Q a b s t) (hE : E .broken s t) :
    (require o : Update σ α).Related (require o' : Update ρ β) s t Q E := by
  cases h with
  | none => exact related_throw hE
  | some h => exact related_pure (hQ _ _ h)

theorem related_ofAttempt {δ ε : Type} {R : α → β → Prop} {L : δ → ε → Prop}
    {o : Option (Except (Failure δ) α)} {o' : Option (Except (Failure ε) β)}
    (h : Option.Rel (AttemptsAlike R L) o o') (hQ : ∀ a b, R a b → Q a b s t) (hE : ∀ f, E f s t) :
    (ofAttempt o : Update σ α).Related (ofAttempt o' : Update ρ β) s t Q E := by
  cases h with
  | none => exact related_throw (hE _)
  | some h =>
    cases h with
    | ok h => exact related_pure (hQ _ _ h)
    | error e h => exact related_fail (hE _)

/-! ## Composition -/

theorem related_bind {Q : α' → β' → σ → ρ → Prop} {k : α → Update σ α'} {l : β → Update ρ β'}
    (h : u.Related v s t (fun a b s' t' => (k a).Related (l b) s' t' Q E) E) :
    (u >>= k).Related (v >>= l) s t Q E := by
  obtain ⟨a, b, s', t', hu, hv, hQ⟩ | ⟨f, s', t', hu, hv, hE⟩ := h.cases
  · have hu' : (u >>= k) s = k a s' := by
      change EStateM.bind u k s = _
      rw [EStateM.bind, hu]
    have hv' : (v >>= l) t = l b t' := by
      change EStateM.bind v l t = _
      rw [EStateM.bind, hv]
    unfold Related Ensures at hQ ⊢
    rw [hu', hv']
    exact hQ
  · refine related_of_error ?_ ?_ hE
    · change EStateM.bind u k s = _
      rw [EStateM.bind, hu]
    · change EStateM.bind v l t = _
      rw [EStateM.bind, hv]

/-- The first parts of two composed updates, by a lemma about them. -/
theorem related_bind_of {Q : α' → β' → σ → ρ → Prop} {k : α → Update σ α'} {l : β → Update ρ β'}
    {P : α → β → σ → ρ → Prop} {F : Fault → σ → ρ → Prop} (h : u.Related v s t P F)
    (hE : ∀ f s' t', F f s' t' → E f s' t')
    (hk : ∀ a b s' t', P a b s' t' → (k a).Related (l b) s' t' Q E) :
    (u >>= k).Related (v >>= l) s t Q E :=
  related_bind (h.mono hk hE)

theorem related_get_bind {k : σ → Update σ α} {l : ρ → Update ρ β} (h : (k s).Related (l t) s t Q E) :
    (get >>= k).Related (get >>= l) s t Q E := h

theorem related_set_bind {k : PUnit → Update σ α} {l : PUnit → Update ρ β} {s' : σ} {t' : ρ}
    (h : (k ⟨⟩).Related (l ⟨⟩) s' t' Q E) : (set s' >>= k).Related (set t' >>= l) s t Q E := h

theorem related_modify_bind {k : PUnit → Update σ α} {l : PUnit → Update ρ β} {f : σ → σ} {g : ρ → ρ}
    (h : (k ⟨⟩).Related (l ⟨⟩) (f s) (g t) Q E) :
    (modify f >>= k).Related (modify g >>= l) s t Q E := h

theorem related_ite {c c' : Prop} [Decidable c] [Decidable c'] (hc : c ↔ c') {u' : Update σ α}
    {v' : Update ρ β} (h : c → u.Related v s t Q E) (h' : ¬c → u'.Related v' s t Q E) :
    (if c then u else u').Related (if c' then v else v') s t Q E := by
  by_cases hcond : c
  · rw [if_pos hcond, if_pos (hc.1 hcond)]
    exact h hcond
  · rw [if_neg hcond, if_neg (fun h => hcond (hc.2 h))]
    exact h' hcond

theorem related_mapError {g : QpError → QpError}
    (h : u.Related v s t Q fun f s' t' => E (f.mapError g) s' t') :
    (mapError g u).Related (mapError g v) s t Q E := by
  obtain ⟨a, b, s', t', hu, hv, hQ⟩ | ⟨f, s', t', hu, hv, hE⟩ := h.cases
  · refine related_of_ok ?_ ?_ hQ
    · rw [mapError, hu]
    · rw [mapError, hv]
  · refine related_of_error ?_ ?_ hE
    · rw [mapError, hu]
    · rw [mapError, hv]

end Related

/-! ## The same value -/

variable {Q : α → σ → ρ → Prop} {E : Fault → σ → ρ → Prop} {u : Update σ α} {v : Update ρ α}

theorem Alike.mono {Q' : α → σ → ρ → Prop} {E' : Fault → σ → ρ → Prop} (h : u.Alike v s t Q E)
    (hQ : ∀ a s' t', Q a s' t' → Q' a s' t') (hE : ∀ f s' t', E f s' t' → E' f s' t') :
    u.Alike v s t Q' E' :=
  Related.mono h (fun a _ s' t' h => ⟨h.1, hQ a s' t' h.2⟩) hE

theorem Alike.cases (h : u.Alike v s t Q E) :
    (∃ a s' t', u s = .ok a s' ∧ v t = .ok a t' ∧ Q a s' t') ∨
      ∃ f s' t', u s = .error f s' ∧ v t = .error f t' ∧ E f s' t' := by
  obtain ⟨a, b, s', t', hu, hv, rfl, hQ⟩ | herror := Related.cases h
  · exact .inl ⟨a, s', t', hu, hv, hQ⟩
  · exact .inr herror

theorem alike_of_ok {a : α} {s' : σ} {t' : ρ} (hu : u s = .ok a s') (hv : v t = .ok a t')
    (h : Q a s' t') : u.Alike v s t Q E := related_of_ok hu hv ⟨rfl, h⟩

/-- What the first run ensures joins in. -/
theorem Alike.and_left {P : α → σ → Prop} {F : Fault → σ → Prop} (h : u.Alike v s t Q E)
    (hu : u.Ensures s P F) :
    u.Alike v s t (fun a s' t' => Q a s' t' ∧ P a s') fun f s' t' => E f s' t' ∧ F f s' := by
  obtain ⟨a, s', t', hus, hvt, hQ⟩ | ⟨f, s', t', hus, hvt, hE⟩ := h.cases
  · exact alike_of_ok hus hvt ⟨hQ, hu.of_ok hus⟩
  · exact related_of_error hus hvt ⟨hE, hu.of_error hus⟩

/-- What the second run ensures joins in. -/
theorem Alike.and_right {P : α → ρ → Prop} {F : Fault → ρ → Prop} (h : u.Alike v s t Q E)
    (hv : v.Ensures t P F) :
    u.Alike v s t (fun a s' t' => Q a s' t' ∧ P a t') fun f s' t' => E f s' t' ∧ F f t' := by
  obtain ⟨a, s', t', hus, hvt, hQ⟩ | ⟨f, s', t', hus, hvt, hE⟩ := h.cases
  · exact alike_of_ok hus hvt ⟨hQ, hv.of_ok hvt⟩
  · exact related_of_error hus hvt ⟨hE, hv.of_error hvt⟩

/-! ### Steps -/

theorem alike_pure (a : α) (h : Q a s t) :
    (pure a : Update σ α).Alike (pure a : Update ρ α) s t Q E := ⟨rfl, h⟩

theorem alike_set {Q : PUnit → σ → ρ → Prop} {s' : σ} {t' : ρ} (h : Q ⟨⟩ s' t') :
    (set s' : Update σ PUnit).Alike (set t' : Update ρ PUnit) s t Q E := ⟨rfl, h⟩

theorem alike_modify {Q : PUnit → σ → ρ → Prop} {f : σ → σ} {g : ρ → ρ} (h : Q ⟨⟩ (f s) (g t)) :
    (modify f : Update σ PUnit).Alike (modify g : Update ρ PUnit) s t Q E := ⟨rfl, h⟩

theorem alike_throw {f : Fault} (h : E f s t) :
    (throw f : Update σ α).Alike (throw f : Update ρ α) s t Q E := ⟨rfl, h⟩

theorem alike_fail {e : QpError} (h : E (.failed e) s t) :
    (fail e : Update σ α).Alike (fail e : Update ρ α) s t Q E := ⟨rfl, h⟩

theorem alike_ofExcept {o : Except QpError α} (hQ : ∀ a, o = .ok a → Q a s t)
    (hE : ∀ e, o = .error e → E (.failed e) s t) :
    (ofExcept o : Update σ α).Alike (ofExcept o : Update ρ α) s t Q E := by
  cases o with
  | ok a => exact alike_pure a (hQ a rfl)
  | error e => exact alike_fail (hE e rfl)

/-! ### Composition -/

theorem alike_bind {Q : β → σ → ρ → Prop} {k : α → Update σ β} {l : α → Update ρ β}
    (h : u.Alike v s t (fun a s' t' => (k a).Alike (l a) s' t' Q E) E) :
    (u >>= k).Alike (v >>= l) s t Q E :=
  related_bind_of h (fun _ _ _ h => h) fun _ _ _ _ ⟨hab, h⟩ => hab ▸ h

/-- The first parts of two composed updates, by a lemma about them. -/
theorem alike_bind_of {Q : β → σ → ρ → Prop} {k : α → Update σ β} {l : α → Update ρ β}
    {P : α → σ → ρ → Prop} {F : Fault → σ → ρ → Prop} (h : u.Alike v s t P F)
    (hE : ∀ f s' t', F f s' t' → E f s' t')
    (hk : ∀ a s' t', P a s' t' → (k a).Alike (l a) s' t' Q E) :
    (u >>= k).Alike (v >>= l) s t Q E :=
  alike_bind (h.mono hk hE)

theorem alike_get_bind {k : σ → Update σ α} {l : ρ → Update ρ α} (h : (k s).Alike (l t) s t Q E) :
    (get >>= k).Alike (get >>= l) s t Q E := h

theorem alike_modify_bind {k : PUnit → Update σ α} {l : PUnit → Update ρ α} {f : σ → σ} {g : ρ → ρ}
    (h : (k ⟨⟩).Alike (l ⟨⟩) (f s) (g t) Q E) :
    (modify f >>= k).Alike (modify g >>= l) s t Q E := h

theorem alike_ite {c c' : Prop} [Decidable c] [Decidable c'] (hc : c ↔ c') {u' : Update σ α}
    {v' : Update ρ α} (h : c → u.Alike v s t Q E) (h' : ¬c → u'.Alike v' s t Q E) :
    (if c then u else u').Alike (if c' then v else v') s t Q E := related_ite hc h h'

theorem Alike.right_get {l : ρ → Update ρ α} (h : u.Alike (l t) s t Q E) :
    u.Alike (get >>= l) s t Q E := h

theorem Alike.right_modify {l : PUnit → Update ρ α} {f : ρ → ρ}
    (h : u.Alike (l ⟨⟩) s (f t) Q E) : u.Alike (modify f >>= l) s t Q E := h

theorem alike_recover {k : QpError → Update σ α} {l : QpError → Update ρ α}
    (h : u.Alike v s t Q fun f s' t' =>
      match f with
      | .failed e => (k e).Alike (l e) s' t' Q E
      | .broken => E .broken s' t') :
    (recover u k).Alike (recover v l) s t Q E := by
  obtain ⟨a, s', t', hu, hv, hQ⟩ | ⟨f, s', t', hu, hv, hE⟩ := h.cases
  · refine alike_of_ok ?_ ?_ hQ
    · rw [recover, hu]
    · rw [recover, hv]
  · cases f with
    | broken =>
      refine related_of_error ?_ ?_ hE
      · rw [recover, hu]
      · rw [recover, hv]
    | failed e =>
      have hu' : recover u k s = k e s' := by rw [recover, hu]
      have hv' : recover v l t = l e t' := by rw [recover, hv]
      change (k e).Alike (l e) s' t' Q E at hE
      unfold Alike Related Ensures at hE ⊢
      rw [hu', hv']
      exact hE

theorem alike_mapError {g : QpError → QpError}
    (h : u.Alike v s t Q fun f s' t' => E (f.mapError g) s' t') :
    (mapError g u).Alike (mapError g v) s t Q E := related_mapError h

/-- Both states have the same part that neither update sees. -/
theorem alike_first {τ : Type} {w : τ} {Q : α → σ × τ → ρ × τ → Prop}
    {E : Fault → σ × τ → ρ × τ → Prop}
    (h : u.Alike v s t (fun a s' t' => Q a (s', w) (t', w)) fun f s' t' => E f (s', w) (t', w)) :
    (first u).Alike (first v) (s, w) (t, w) Q E := by
  obtain ⟨a, s', t', hu, hv, hQ⟩ | ⟨f, s', t', hu, hv, hE⟩ := h.cases
  · refine alike_of_ok ?_ ?_ hQ
    · rw [first, hu]
    · rw [first, hv]
  · refine related_of_error ?_ ?_ hE
    · rw [first, hu]
    · rw [first, hv]

/-- The second update works on a part of its state. -/
theorem Alike.focus {τ : Type} {get : τ → ρ} {set : τ → ρ → τ} {t : τ} {Q : α → σ → τ → Prop}
    {E : Fault → σ → τ → Prop}
    (h : u.Alike v s (get t) (fun a s' t' => Q a s' (set t t')) fun f s' t' => E f s' (set t t')) :
    u.Alike (focus get set v) s t Q E := by
  obtain ⟨a, s', t', hu, hv, hQ⟩ | ⟨f, s', t', hu, hv, hE⟩ := h.cases
  · refine alike_of_ok hu ?_ hQ
    rw [Update.focus, hv]
  · refine related_of_error hu ?_ hE
    rw [Update.focus, hv]

/-- Both updates work on a part of their state. -/
theorem alike_focus {σ' ρ' : Type} {get : σ' → σ} {set : σ' → σ → σ'} {get' : ρ' → ρ}
    {set' : ρ' → ρ → ρ'} {s : σ'} {t : ρ'} {Q : α → σ' → ρ' → Prop} {E : Fault → σ' → ρ' → Prop}
    (h : u.Alike v (get s) (get' t) (fun a s' t' => Q a (set s s') (set' t t'))
      fun f s' t' => E f (set s s') (set' t t')) :
    (focus get set u).Alike (focus get' set' v) s t Q E := by
  obtain ⟨a, s', t', hu, hv, hQ⟩ | ⟨f, s', t', hu, hv, hE⟩ := h.cases
  · refine alike_of_ok ?_ ?_ hQ
    · rw [Update.focus, hu]
    · rw [Update.focus, hv]
  · refine related_of_error ?_ ?_ hE
    · rw [Update.focus, hu]
    · rw [Update.focus, hv]

/-- Two loops over a list keep a relation between their states. -/
theorem alike_forM {f : β → Update σ PUnit} {g : β → Update ρ PUnit} {I : σ → ρ → Prop}
    (step : ∀ b s t, I s t → (f b).Alike (g b) s t (fun _ => I) E) (l : List β) :
    ∀ {s : σ} {t : ρ}, I s t → (l.forM f).Alike (l.forM g) s t (fun _ => I) E := by
  induction l with
  | nil => exact fun h => alike_pure _ h
  | cons b rest ih =>
    intro s t h
    change (f b >>= fun _ => rest.forM f).Alike (g b >>= fun _ => rest.forM g) s t _ E
    exact alike_bind_of (step b s t h) (fun _ _ _ h => h) fun _ _ _ h => ih h

end Update

end ActiveSet

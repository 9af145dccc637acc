import ActiveSet.Proofs.Clamping
import ActiveSet.Proofs.Solver.LoadedLimits

/-!
# Accepted limits

Lower and upper limits can be loaded as a pair, which is refused where they cross. They are compared as
they are given, and stored after they have been clamped. In double precision these two do not go together:
a comparison with something that is not a number fails, so that such a pair is accepted, and clamping
makes the missing limit the lower infinity. An upper limit that is missing is thereby stored below a lower
limit that is there, and every solve is refused until other limits are loaded (`missing_limit_accepted`).

This is the only exception. Limits that have been accepted are stored between the two infinities, in order
unless an upper limit is missing beside a lower one, and where all of them are in order no solve is refused
because of them, whatever else is called in between (`accepted_limits`). This holds of bounds and of
constraints, for both solvers and in every state.

* `Core.Accepted`: the state after a pair has been accepted.
* `Interface.Stores`: what the users of a solver can rely on then.
-/

namespace ActiveSet

variable {K : Type} [Scalar K] {n m : Nat} {σ δ : Type}

-- ---------------------------------------------------------------------------
-- Loading limits
-- ---------------------------------------------------------------------------

/-- Whether data holds limits of a kind. -/
def Core.Loading.sets (kind : EntityKind) : Core.Loading K → Bool
  | lower _ | upper _ | bounds .. => kind = .bound
  | parameters _ | hessianType _ | hessian _ | gradient _ => false

/-- Whether data holds limits of a kind. -/
def Constrained.Loading.sets (kind : EntityKind) : Constrained.Loading K → Bool
  | core d => d.sets kind
  | rowLower _ | rowUpper _ | rowBounds .. => kind = .constraint
  | matrix _ => false

/-- Both limits of the entities of a kind. -/
def Constrained.Loading.pair (kind : EntityKind) (l u : Array K) : Constrained.Loading K :=
  match kind with
  | .bound => .core (.bounds l u)
  | .constraint => .rowBounds l u

/-- A pair of arrays has been accepted as the limits of one kind: they do not cross, and they are stored
clamped. -/
structure Core.Accepted (kind : EntityKind) (l u : Array K) (s s' : Core K n m) : Prop where
  parameters : s'.parameters = s.parameters
  not_crossed : ∀ e : Entity n m, e.kind = kind → ¬u.getD e.index 0 < l.getD e.index 0
  lower : ∀ e : Entity n m, e.kind = kind →
    s'.target.lowerOf e = clamp s.parameters.infinity (l.getD e.index 0)
  upper : ∀ e : Entity n m, e.kind = kind →
    s'.target.upperOf e = clamp s.parameters.infinity (u.getD e.index 0)

namespace Core

variable {s s' : Core K n m} {l u : Array K}

/-- A vector that has been loaded is the clamped array, which has the right size. -/
theorem load_ok {k : Nat} {infinity : K} {a : Array K} {β : Type} {f : Tuple K k → β} {b : β}
    (h : (do return f (← load infinity k a)) = Except.ok b) :
    a.size = k ∧ b = f (.ofFn k fun i => clamp infinity (a.getD i 0)) := by
  by_cases hsize : a.size = k
  · rw [load_of_size hsize] at h
    exact ⟨hsize, (Except.ok.inj h).symm⟩
  · rw [load_of_size_ne hsize] at h
    cases h

/-- A pair of arrays is accepted if both have the right size and they do not cross. -/
theorem pair_ok_iff {k : Nat} {e : QpError} {first : Except QpError σ} {second : σ → Except QpError σ}
    {t t' : σ} (hrun : l.size = k → u.size = k → first >>= second = .ok t) :
    (if l.size ≠ k ∨ u.size ≠ k then .error .invalidArguments
      else if crosses k (fun i => l.getD i 0) (fun i => u.getD i 0) then .error e
      else first >>= second) = .ok t' ↔
    (l.size = k ∧ u.size = k) ∧ (∀ i : Fin k, ¬u.getD i 0 < l.getD i 0) ∧ t' = t := by
  have hcrosses : crosses k (fun i => l.getD i 0) (fun i => u.getD i 0) = false ↔
      ∀ i : Fin k, ¬u.getD i 0 < l.getD i 0 := not_crosses_iff
  by_cases hsize : l.size = k ∧ u.size = k
  · rw [if_neg (not_or.2 ⟨not_not_intro hsize.1, not_not_intro hsize.2⟩), hrun hsize.1 hsize.2,
      ← hcrosses]
    cases crosses k (fun i => l.getD i 0) fun i => u.getD i 0 with
    | true => exact iff_of_false nofun fun h => nomatch h.2.1
    | false =>
      refine ⟨fun h => ⟨hsize, rfl, (Except.ok.inj h).symm⟩, fun h => ?_⟩
      rw [h.2.2]
      rfl
  · rw [if_pos (not_and_or.1 hsize)]
    exact iff_of_false nofun fun h => hsize h.1

theorem setBounds_ok_iff : s.setBounds l u = .ok s' ↔
    (l.size = n ∧ u.size = n) ∧ (∀ i : Fin n, ¬u.getD i 0 < l.getD i 0) ∧
      s' = { s with target := { s.target with
        lower := .ofFn n fun i => clamp s.parameters.infinity (l.getD i 0)
        upper := .ofFn n fun i => clamp s.parameters.infinity (u.getD i 0) } } :=
  pair_ok_iff fun hl hu => by
    rw [setLower, load_of_size hl]
    change setUpper _ u = _
    rw [setUpper, load_of_size hu]
    rfl

theorem accepted_of_setBounds (h : s.setBounds l u = .ok s') : Accepted .bound l u s s' := by
  obtain ⟨-, hordered, rfl⟩ := setBounds_ok_iff.1 h
  refine ⟨rfl, ?_, ?_, ?_⟩
  · rintro (i | i) he
    · exact hordered i
    · cases he
  · rintro (i | i) he
    · exact Tuple.ofFn_apply i.isLt
    · cases he
  · rintro (i | i) he
    · exact Tuple.ofFn_apply i.isLt
    · cases he

/-- Data with no limits of a kind leaves those as they are. -/
theorem Loading.apply_sameLimits {kind : EntityKind} {d : Loading K} (hd : d.sets kind = false)
    (h : d.apply s = .ok s') : Data.SameLimits kind s.target s'.target := by
  -- a setter of limits leaves those of the other kind alone
  have hrow : ∀ {lower upper : Tuple K n}, d.sets kind = decide (kind = .bound) →
      Data.SameLimits kind s.target { s.target with lower, upper } := by
    rintro lower upper hsets (i | i) he
    · exact absurd (hsets.symm.trans hd) (by simp [← he, Entity.kind])
    · exact ⟨rfl, rfl⟩
  cases d with
  | parameters p =>
    cases h
    exact .refl kind _
  | hessianType t =>
    simp only [apply, setHessianType] at h
    split at h
    · cases h
    · cases h
      exact .refl kind _
  | hessian a =>
    simp only [apply, setHessian] at h
    split at h
    · cases h
    · cases h
      exact .refl kind _
  | gradient a =>
    obtain ⟨-, rfl⟩ := load_ok h
    rintro (i | i) he
    · exact ⟨rfl, rfl⟩
    · exact ⟨rfl, rfl⟩
  | lower a =>
    obtain ⟨-, rfl⟩ := load_ok h
    exact hrow rfl
  | upper a =>
    obtain ⟨-, rfl⟩ := load_ok h
    exact hrow rfl
  | bounds l u =>
    obtain ⟨-, -, rfl⟩ := setBounds_ok_iff.1 h
    exact hrow rfl

end Core

namespace Constrained

variable {s s' : Constrained K n m} {l u : Array K} {kind : EntityKind}

theorem setRowBounds_ok_iff : s.setRowBounds l u = .ok s' ↔
    (l.size = m ∧ u.size = m) ∧ (∀ i : Fin m, ¬u.getD i 0 < l.getD i 0) ∧
      s' = { s with target := { s.target with
        rowLower := .ofFn m fun i => Core.clamp s.parameters.infinity (l.getD i 0)
        rowUpper := .ofFn m fun i => Core.clamp s.parameters.infinity (u.getD i 0) } } :=
  Core.pair_ok_iff fun hl hu => by
    rw [setRowLower, load_of_size hl]
    change setRowUpper _ u = _
    rw [setRowUpper, load_of_size hu]
    rfl

theorem accepted_of_setRowBounds (h : s.setRowBounds l u = .ok s') :
    Core.Accepted .constraint l u s.toCore s'.toCore := by
  obtain ⟨-, hordered, rfl⟩ := setRowBounds_ok_iff.1 h
  refine ⟨rfl, ?_, ?_, ?_⟩
  · rintro (i | i) he
    · cases he
    · exact hordered i
  · rintro (i | i) he
    · cases he
    · exact Tuple.ofFn_apply i.isLt
  · rintro (i | i) he
    · cases he
    · exact Tuple.ofFn_apply i.isLt

/-- Data for the variables is loaded into the shared part of the state. -/
theorem core_of_apply {d : Core.Loading K} (h : (Loading.core d).apply s = .ok s') :
    d.apply s.toCore = .ok s'.toCore := by
  obtain ⟨c, hc, rfl⟩ := exists_of_map_ok h
  exact hc

theorem accepted_of_apply (h : (Loading.pair kind l u).apply s = .ok s') :
    Core.Accepted kind l u s.toCore s'.toCore := by
  cases kind with
  | bound => exact Core.accepted_of_setBounds (core_of_apply h)
  | constraint => exact accepted_of_setRowBounds h

/-- Data with no limits of a kind leaves those as they are. -/
theorem Loading.apply_sameLimits {d : Loading K} (hd : d.sets kind = false) (h : d.apply s = .ok s') :
    Data.SameLimits kind s.target s'.target := by
  have hbound : ∀ {rowLower rowUpper : Tuple K m}, d.sets kind = decide (kind = .constraint) →
      Data.SameLimits kind s.target { s.target with rowLower, rowUpper } := by
    rintro rowLower rowUpper hsets (i | i) he
    · exact ⟨rfl, rfl⟩
    · exact absurd (hsets.symm.trans hd) (by simp [← he, Entity.kind])
  cases d with
  | core d => exact Core.Loading.apply_sameLimits hd (core_of_apply h)
  | matrix a =>
    simp only [apply, setMatrix] at h
    split at h
    · cases h
    · cases h
      exact .refl kind _
  | rowLower a =>
    obtain ⟨-, rfl⟩ := Core.load_ok h
    exact hbound rfl
  | rowUpper a =>
    obtain ⟨-, rfl⟩ := Core.load_ok h
    exact hbound rfl
  | rowBounds l u =>
    obtain ⟨-, -, rfl⟩ := setRowBounds_ok_iff.1 h
    exact hbound rfl

/-- There are limits of a kind that are always accepted: all of them zero. -/
theorem exists_apply_zeros [NumberOrder K] (s : Constrained K n m) (kind : EntityKind) :
    ∃ zeros s', (Loading.pair kind zeros zeros).apply s = .ok s' ∧
      ∀ i, IsNumber (zeros.getD i 0 : K) := by
  have hzero (k i : Nat) : (Array.replicate k (0 : K)).getD i 0 = 0 := by
    unfold Array.getD
    split
    · exact Array.getElem_replicate _
    · rfl
  have hnumber (k i : Nat) : IsNumber ((Array.replicate k (0 : K)).getD i 0) := by
    rw [hzero]
    exact NumberOrder.isNumber_zero
  have hordered (k : Nat) (i : Fin k) :
      ¬(Array.replicate k (0 : K)).getD i 0 < (Array.replicate k (0 : K)).getD i 0 :=
    fun hlt => NumberOrder.lt_asymm hlt hlt
  cases kind with
  | bound =>
    have hok := (Core.setBounds_ok_iff (s := s.toCore)).2
      ⟨⟨Array.size_replicate, Array.size_replicate⟩, hordered n, rfl⟩
    exact ⟨_, _, congrArg (Except.map s.withCore) hok, hnumber n⟩
  | constraint =>
    have hok := (setRowBounds_ok_iff (s := s)).2
      ⟨⟨Array.size_replicate, Array.size_replicate⟩, hordered m, rfl⟩
    exact ⟨_, _, hok, hnumber m⟩

end Constrained

-- ---------------------------------------------------------------------------
-- What accepted limits come to
-- ---------------------------------------------------------------------------

namespace Core.Accepted

open NumberOrder

variable [ClampOrder K] {kind : EntityKind} {l u : Array K} {s s' : Core K n m} {e : Entity n m}

theorem range (h : Accepted kind l u s s') (hinfinity : 0 < s'.parameters.infinity) (he : e.kind = kind)
    {v : K} (hv : v ∈ [s'.target.lowerOf e, s'.target.upperOf e]) :
    -s'.parameters.infinity ≤ v ∧ v ≤ s'.parameters.infinity := by
  rw [h.lower e he, h.upper e he, ← h.parameters] at hv
  obtain rfl | hv := List.mem_cons.1 hv
  · exact clamp_mem hinfinity _
  · rw [List.mem_singleton.1 hv]
    exact clamp_mem hinfinity _

theorem order_iff (h : Accepted kind l u s s') (hinfinity : 0 < s'.parameters.infinity)
    (he : e.kind = kind) : s'.target.lowerOf e ≤ s'.target.upperOf e ↔
      IsNumber (u.getD e.index 0) ∨ ¬-s'.parameters.infinity < l.getD e.index 0 := by
  rw [h.lower e he, h.upper e he, ← h.parameters]
  exact clamp_le_clamp_iff hinfinity (h.not_crossed e he)

/-- Stored limits are numbers, so they are in order or they cross. -/
theorem inOrder_iff (h : Accepted kind l u s s') (hinfinity : 0 < s'.parameters.infinity) :
    s'.target.InOrder kind ↔
      ∀ e : Entity n m, e.kind = kind → s'.target.lowerOf e ≤ s'.target.upperOf e := by
  refine forall₂_congr fun e he => ⟨fun hcross => ?_, fun hle hlt => not_le_of_lt hlt hle⟩
  have hlower := (h.range hinfinity he List.mem_cons_self).2
  have hupper := (h.range hinfinity he (List.mem_cons_of_mem _ List.mem_cons_self)).2
  exact le_of_not_lt (isNumber_left hlower) (isNumber_left hupper) hcross

end Core.Accepted

/-- What the users of a solver can rely on once two arrays have been accepted as the limits of one kind.

`range`: what is stored lies between the two infinities. `order`: it is in order, unless the upper limit is
missing beside a lower one above the lower infinity. `spares`: if all of it is in order, and only then, no
solve is refused because of it until limits of the kind are loaded again. -/
structure Interface.Stores (I : Interface K n m σ δ) (sets : δ → Bool) (kind : EntityKind)
    (l u : Array K) (s : σ) : Prop where
  range : ∀ e : Entity n m, e.kind = kind →
    ∀ v ∈ [(I.method.core s).target.lowerOf e, (I.method.core s).target.upperOf e],
      -(I.method.core s).parameters.infinity ≤ v ∧ v ≤ (I.method.core s).parameters.infinity
  order : ∀ e : Entity n m, e.kind = kind →
    ((I.method.core s).target.lowerOf e ≤ (I.method.core s).target.upperOf e ↔
      IsNumber (u.getD e.index 0) ∨ ¬-(I.method.core s).parameters.infinity < l.getD e.index 0)
  spares : I.Spares sets kind s ↔ ∀ e : Entity n m, e.kind = kind →
    (I.method.core s).target.lowerOf e ≤ (I.method.core s).target.upperOf e

section Solvers

/-- A call accepts the data that can be loaded. -/
theorem Interface.call_load_iff {I : Interface K n m σ δ} {d : δ} {s s' : σ} :
    I.call (.load d) s = (.ok 0, s') ↔ I.load d s = .ok s' := by
  rw [Interface.call]
  cases I.load d s with
  | error e => exact iff_of_false (by rintro ⟨⟩) (by rintro ⟨⟩)
  | ok t => exact ⟨fun h => congrArg Except.ok (congrArg Prod.snd h), fun h => congrArg _ (Except.ok.inj h)⟩

theorem Box.call_bounds_iff {l u : Array K} {s s' : Box K n} :
    (Box.interface K n).call (.load (.bounds l u)) s = (.ok 0, s') ↔ s.setBounds l u = .ok s' :=
  Interface.call_load_iff

theorem Constrained.call_pair_iff {kind : EntityKind} {l u : Array K} {s s' : Constrained K n m} :
    (Constrained.interface K n m).call (.load (.pair kind l u)) s = (.ok 0, s') ↔
      (Loading.pair kind l u).apply s = .ok s' :=
  Interface.call_load_iff

theorem Box.interface_vets : (Box.interface K n).Vets Core.Loading.sets where
  method := Box.vets
  load _ _ _ _ hd h := Core.Loading.apply_sameLimits hd h

theorem Constrained.interface_vets : (Constrained.interface K n m).Vets Constrained.Loading.sets where
  method := Constrained.vets
  load _ _ _ _ hd h := Loading.apply_sameLimits hd h

/-- Without constraints the limits of the bounds are all there are. -/
theorem Box.exists_clear (s : Box K n) : ∃ calls : List (Call K n 0 (Core.Loading K)),
    (∀ c ∈ calls, c.sets (Core.Loading.sets .bound) = false) ∧ ∀ kind', kind' ≠ .bound →
      (calls.foldl (fun s c => ((Box.interface K n).call c s).2) s).target.InOrder kind' := by
  refine ⟨[], nofun, fun kind' hne => ?_⟩
  cases kind' with
  | bound => exact absurd rfl hne
  | constraint => exact s.target.inOrder_of_noRows

variable [ClampOrder K] {I : Interface K n m σ δ} {frame : σ → σ → Prop} {sets : EntityKind → δ → Bool}
  {kind : EntityKind} {l u : Array K} {s s' : σ}

/-- The users of a solver can rely on this in every state in which the limits of the other kind can be put
in order. -/
theorem Core.Accepted.stores (hI : I.Vets sets) (hF : I.method.Frames frame)
    (h : Accepted kind l u (I.method.core s) (I.method.core s'))
    (hinfinity : 0 < (I.method.core s').parameters.infinity)
    (hclear : ∃ calls : List (Call K n m δ), (∀ c ∈ calls, c.sets (sets kind) = false) ∧
      ∀ kind', kind' ≠ kind →
        (I.method.core (calls.foldl (fun s c => (I.call c s).2) s')).target.InOrder kind') :
    I.Stores (sets kind) kind l u s' where
  range _ he _ hv := h.range hinfinity he hv
  order _ he := h.order_iff hinfinity he
  spares := by
    rw [← h.inOrder_iff hinfinity]
    exact ⟨fun hspares => hI.inOrder_of_spares hF hspares hclear, hI.spares_of hF⟩

/-- Limits that are in order can be loaded for the entities of any kind. -/
theorem Constrained.exists_inOrder (s : Constrained K n m) (hinfinity : 0 < s.parameters.infinity)
    (other : EntityKind) : ∃ zeros : Array K,
      (((Constrained.interface K n m).call (.load (.pair other zeros zeros)) s).2).target.InOrder
        other := by
  obtain ⟨zeros, s', hs', hnumber⟩ := exists_apply_zeros s other
  have haccepted := accepted_of_apply hs'
  have hinfinity' : 0 < s'.parameters.infinity := haccepted.parameters ▸ hinfinity
  refine ⟨zeros, ?_⟩
  rw [Interface.call, show (Constrained.interface K n m).load _ s = .ok s' from hs']
  exact (haccepted.inOrder_iff hinfinity').2 fun e he =>
    (haccepted.order_iff hinfinity' he).2 (.inl (hnumber _))

/-- So the limits of the other kind can be put in order before a solve. -/
theorem Constrained.exists_clear (s : Constrained K n m) (hinfinity : 0 < s.parameters.infinity)
    (kind : EntityKind) : ∃ calls : List (Call K n m (Constrained.Loading K)),
      (∀ c ∈ calls, c.sets (Constrained.Loading.sets kind) = false) ∧ ∀ kind', kind' ≠ kind →
        (calls.foldl (fun s c => ((Constrained.interface K n m).call c s).2) s).target.InOrder kind' := by
  cases kind with
  | bound =>
    obtain ⟨zeros, hordered⟩ := exists_inOrder s hinfinity .constraint
    refine ⟨[.load (.pair .constraint zeros zeros)], List.forall_mem_singleton.2 rfl, fun kind' hne => ?_⟩
    cases kind' with
    | bound => exact absurd rfl hne
    | constraint => exact hordered
  | constraint =>
    obtain ⟨zeros, hordered⟩ := exists_inOrder s hinfinity .bound
    refine ⟨[.load (.pair .bound zeros zeros)], List.forall_mem_singleton.2 rfl, fun kind' hne => ?_⟩
    cases kind' with
    | bound => exact hordered
    | constraint => exact absurd rfl hne

end Solvers

/-- Limits that a solver has accepted, in double precision and in any state: they are stored between the
infinities, they are stored in order unless an upper one is missing beside a lower one, and if they are in
order no solve is refused because of them. -/
theorem accepted_limits (n m : ℕ) :
    (∀ (s s' : Box Float n) (l u : Array Float), 0 < s.parameters.infinity →
        (Box.interface Float n).call (.load (.bounds l u)) s = (.ok 0, s') →
        (Box.interface Float n).Stores (Core.Loading.sets .bound) .bound l u s') ∧
      ∀ (kind : EntityKind) (s s' : Constrained Float n m) (l u : Array Float),
        0 < s.parameters.infinity →
        (Constrained.interface Float n m).call (.load (.pair kind l u)) s = (.ok 0, s') →
        (Constrained.interface Float n m).Stores (Constrained.Loading.sets kind) kind l u s' := by
  constructor
  · intro s s' l u hinfinity hcall
    have haccepted := Core.accepted_of_setBounds (Box.call_bounds_iff.1 hcall)
    exact haccepted.stores Box.interface_vets Box.frames (haccepted.parameters ▸ hinfinity)
      s'.exists_clear
  · intro kind s s' l u hinfinity hcall
    have haccepted := Constrained.accepted_of_apply (Constrained.call_pair_iff.1 hcall)
    have hinfinity' : 0 < s'.parameters.infinity := haccepted.parameters ▸ hinfinity
    exact haccepted.stores Constrained.interface_vets Constrained.frames hinfinity'
      (s'.exists_clear hinfinity' kind)

/-- Two bounds of which the second one is missing altogether are stored in order, so that no solve is
refused because of them. A constraint without an upper limit is accepted as well, but not solved. -/
theorem accepted_limits_missing :
    (0 < (Box.fresh 2 : Box Float 2).parameters.infinity ∧ ∃ s',
      (Box.interface Float 2).call (.load (.bounds #[0, 0 / 0] #[1 / 0, 0 / 0])) (Box.fresh 2) =
        (.ok 0, s') ∧ (Box.interface Float 2).Spares (Core.Loading.sets .bound) .bound s') ∧
      0 < (Constrained.fresh 1 1 : Constrained Float 1 1).parameters.infinity ∧ ∃ s',
        (Constrained.interface Float 1 1).call (.load (.pair .constraint #[0] #[0 / 0]))
          (Constrained.fresh 1 1) = (.ok 0, s') ∧
        ¬(Constrained.interface Float 1 1).Spares (Constrained.Loading.sets .constraint) .constraint s' := by
  refine ⟨⟨by decide +kernel, ?_⟩, by decide +kernel, ?_⟩
  · -- a missing upper limit does no harm where the lower one is missing too
    have hload : Core.setBounds (Box.fresh 2) #[0, 0 / 0] #[(1 : Float) / 0, 0 / 0] = .ok _ :=
      Core.setBounds_ok_iff.2 ⟨⟨rfl, rfl⟩, by decide +kernel, rfl⟩
    have hcall := Box.call_bounds_iff.2 hload
    have hstores := (accepted_limits 2 0).1 _ _ _ _ (by decide +kernel) hcall
    have hpresent : ∀ i : Fin 2, IsNumber ((#[1 / 0, 0 / 0] : Array Float).getD i 0) ∨
        ¬-(Box.fresh 2 : Box Float 2).parameters.infinity < (#[0, 0 / 0] : Array Float).getD i 0 := by
      decide +kernel
    refine ⟨_, hcall, hstores.spares.2 fun e he => (hstores.order e he).2 ?_⟩
    cases e with
    | bound i => exact hpresent i
    | constraint i => exact i.elim0
  · -- it does where the lower one is a number
    have hload : (Constrained.fresh 1 1).setRowBounds #[0] #[(0 : Float) / 0] = .ok _ :=
      Constrained.setRowBounds_ok_iff.2 ⟨⟨rfl, rfl⟩, by decide +kernel, rfl⟩
    have hcall : (Constrained.interface Float 1 1).call (.load (.pair .constraint #[0] #[0 / 0]))
        (Constrained.fresh 1 1) = (.ok 0, _) := Constrained.call_pair_iff.2 hload
    have hstores := (accepted_limits 1 1).2 .constraint _ _ _ _ (by decide +kernel) hcall
    have hmissing : ¬(IsNumber ((#[0 / 0] : Array Float).getD 0 0) ∨
        ¬-(Constrained.fresh 1 1 : Constrained Float 1 1).parameters.infinity <
          (#[0] : Array Float).getD 0 0) := by
      decide +kernel
    refine ⟨_, hcall, fun hspares => hmissing ?_⟩
    exact (hstores.order (.constraint 0) rfl).1 (hstores.spares.1 hspares (.constraint 0) rfl)

/-- A bound without an upper limit is accepted, although the limits that are stored for it cross, and
although a solve is refused because of them. -/
theorem missing_limit_accepted :
    (¬∀ (s s' : Box Float 1) (l u : Array Float), 0 < s.parameters.infinity →
        (Box.interface Float 1).call (.load (.bounds l u)) s = (.ok 0, s') →
        ∀ i, i < 1 → s'.target.lower i ≤ s'.target.upper i) ∧
      ¬∀ (s s' : Box Float 1) (l u : Array Float), 0 < s.parameters.infinity →
        (Box.interface Float 1).call (.load (.bounds l u)) s = (.ok 0, s') →
        (Box.interface Float 1).Spares (Core.Loading.sets .bound) .bound s' := by
  have hload : Core.setBounds (Box.fresh 1) #[0] #[(0 : Float) / 0] = .ok _ :=
    Core.setBounds_ok_iff.2 ⟨⟨rfl, rfl⟩, by decide +kernel, rfl⟩
  have hcall := Box.call_bounds_iff.2 hload
  constructor
  · -- the missing limit was stored as minus infinity, below the lower limit of zero
    intro hall
    have hle := hall _ _ _ _ (by decide +kernel) hcall 0 Nat.zero_lt_one
    revert hle
    decide +kernel
  · -- a solve that may not refuse the limits would need them in order
    intro hall
    have hordered := Box.interface_vets.inOrder_of_spares Box.frames
      (hall _ _ _ _ (by decide +kernel) hcall) (Box.exists_clear _)
    refine hordered (.bound 0) rfl ?_
    decide +kernel

end ActiveSet

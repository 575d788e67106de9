import Aesd.Effects.Program

/-! # Programs that others interfere with

A program runs against a deterministic handler over a state, and before each of its operations
others may change the state any number of times. What they may do is a relation that may depend on
the events the program has issued so far. `RunsBeside h R p hist w ws a w'` says that `p`, which has
issued `hist`, comes from the state `w` to its end in `w'` with the value `a`, and that `ws` are the
states it passes through on the way, those that others made among them. -/

namespace Effects

variable {E : Interface} {S ε : Type}

/-- Steps of others that lead from one state to another, with the states passed through. -/
inductive Passes (R : S → S → Prop) : S → List S → S → Prop where
  /-- Nobody does anything. -/
  | refl (w : S) : Passes R w [w] w
  /-- One step, then others. -/
  | step {w w₁ v : S} {us : List S} (hR : R w w₁) (h : Passes R w₁ us v) : Passes R w (w :: us) v

/-- A complete run of a program between whose operations others take steps. -/
inductive RunsBeside (h : (o : E.Op) → S → Except ε (E.Res o × S))
    (R : List (Event E) → S → S → Prop) :
    {α : Type} → Prog E α → List (Event E) → S → List S → α → S → Prop where
  /-- There is nothing left to do. -/
  | pure {α : Type} (a : α) (hist : List (Event E)) (w : S) :
      RunsBeside h R (.pure a) hist w [w] a w
  /-- Others take their steps, then the operation is answered. -/
  | call {α : Type} {o : E.Op} {k : E.Res o → Prog E α} {r : E.Res o} {hist : List (Event E)}
      {w v v₁ w' : S} {us ws : List S} {a : α} (hothers : Passes (R hist) w us v)
      (ho : h o v = .ok (r, v₁)) (hk : RunsBeside h R (k r) (hist ++ [⟨o, r⟩]) v₁ ws a w') :
      RunsBeside h R (.call o k) hist w (us ++ ws) a w'
  /-- A loop is entered for one more round. -/
  | loop {α σ β : Type} {body : σ → Prog E (σ ⊕ β)} {s : σ} {k : β → Prog E α}
      {hist : List (Event E)} {w w' : S} {ws : List S} {a : α}
      (hk : RunsBeside h R (Prog.unfold body s k) hist w ws a w') :
      RunsBeside h R (.loop body s k) hist w ws a w'

section Others

variable {R : S → S → Prop} {J : S → Prop} {w v : S} {us : List S}

theorem Passes.mem_first (h : Passes R w us v) : w ∈ us := by
  cases h with
  | refl w => exact List.mem_singleton.mpr rfl
  | step _ _ => exact List.mem_cons_self

theorem Passes.mem_last (h : Passes R w us v) : v ∈ us := by
  induction h with
  | refl w => exact List.mem_singleton.mpr rfl
  | step _ _ ih => exact List.mem_cons_of_mem _ ih

/-- What every step of the others keeps is kept. -/
theorem Passes.invariant (h : Passes R w us v) (hJ : ∀ v ∈ us, ∀ v' ∈ us, R v v' → J v → J v')
    (hw : J w) : J v := by
  induction h with
  | refl w => exact hw
  | step hR h ih =>
      refine ih (fun v hv v' hv' => ?_) ?_
      · exact hJ v (List.mem_cons_of_mem _ hv) v' (List.mem_cons_of_mem _ hv')
      · exact hJ _ List.mem_cons_self _ (List.mem_cons_of_mem _ h.mem_first) hR hw

/-- Where nobody can take a step nothing changes. -/
theorem Passes.eq_of_stuck (h : Passes R w us v) (hstuck : ∀ v', ¬R w v') : v = w := by
  cases h with
  | refl w => rfl
  | step hR _ => exact absurd hR (hstuck _)

end Others

section Beside

variable {h : (o : E.Op) → S → Except ε (E.Res o × S)} {R : List (Event E) → S → S → Prop}
  {α β σ : Type} {hist : List (Event E)} {w w' : S} {ws : List S} {a : α}

/-- A returned value comes from no further step. -/
theorem RunsBeside.of_pure {b : α} (hrun : RunsBeside h R (.pure b) hist w ws a w') :
    a = b ∧ w' = w ∧ w ∈ ws := by
  cases hrun
  exact ⟨rfl, rfl, List.mem_singleton.mpr rfl⟩

/-- An operation is answered in a state that the steps of the others have led to. -/
theorem RunsBeside.of_call {o : E.Op} {k : E.Res o → Prog E α}
    (hrun : RunsBeside h R (.call o k) hist w ws a w') :
    ∃ us v r v₁ vs, us ⊆ ws ∧ Passes (R hist) w us v ∧ h o v = .ok (r, v₁) ∧ vs ⊆ ws ∧
      RunsBeside h R (k r) (hist ++ [⟨o, r⟩]) v₁ vs a w' := by
  cases hrun with
  | call hothers ho hk =>
      exact ⟨_, _, _, _, _, List.subset_append_left _ _, hothers, ho,
        List.subset_append_right _ _, hk⟩

/-- An operation that is answered in a state in which the others are stuck. -/
theorem RunsBeside.of_call_stuck {o : E.Op} {k : E.Res o → Prog E α} {r : E.Res o} {w₁ : S}
    (hrun : RunsBeside h R (.call o k) hist w ws a w') (hstuck : ∀ v, ¬R hist w v)
    (ho : h o w = .ok (r, w₁)) :
    ∃ us, us ⊆ ws ∧ RunsBeside h R (k r) (hist ++ [⟨o, r⟩]) w₁ us a w' := by
  cases hrun with
  | call hothers ho' hk =>
      obtain rfl := hothers.eq_of_stuck hstuck
      rw [ho, Except.ok.injEq, Prod.mk.injEq] at ho'
      obtain ⟨rfl, rfl⟩ := ho'
      exact ⟨_, List.subset_append_right _ _, hk⟩

theorem RunsBeside.of_loop {body : σ → Prog E (σ ⊕ β)} {s : σ} {k : β → Prog E α}
    (hrun : RunsBeside h R (.loop body s k) hist w ws a w') :
    RunsBeside h R (Prog.unfold body s k) hist w ws a w' := by
  cases hrun with
  | loop hk => exact hk

/-- An operation before which the others do nothing. -/
theorem RunsBeside.own {o : E.Op} {k : E.Res o → Prog E α} {r : E.Res o} {w₁ : S}
    (ho : h o w = .ok (r, w₁)) (hk : RunsBeside h R (k r) (hist ++ [⟨o, r⟩]) w₁ ws a w') :
    RunsBeside h R (.call o k) hist w (w :: ws) a w' := .call (.refl w) ho hk

end Beside

end Effects

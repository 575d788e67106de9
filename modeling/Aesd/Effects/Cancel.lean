import Aesd.Effects.Typestate

/-! # Programs that can be cancelled

A text over the interface `E` is run where an operation may end the program instead of returning an
answer. **`Prog.attempt`** is the text over an interface with such operations: it issues each
operation `o` of `E` as the operation `op o`, goes on with the answer if there is one, and ends with
`none` at the first operation that has none. A text that follows a monitor still follows it then, up
to the operation that has no answer (`Follows.attempt`). -/

namespace Effects

open Prog

variable {E F : Interface} {Γ Δ : Type} {α β σ : Type}

/-- What a round that may not have ended says of its loop. -/
def leaveOrRepeat : Option (σ ⊕ β) → σ ⊕ Option β
  | some (.inl s) => .inl s
  | some (.inr b) => .inr (some b)
  | none => .inr none

/-- The text with its operations issued as `op o`; it ends at the first one without an answer. -/
def Prog.attempt (op : E.Op → F.Op) (res : (o : E.Op) → F.Res (op o) → Option (E.Res o)) :
    {α : Type} → Prog E α → Prog F (Option α)
  | _, .pure a => .pure (some a)
  | _, .call o k => .call (op o) fun r => (res o r).elim (.pure none) fun r => attempt op res (k r)
  | _, .loop body s k =>
      .loop (fun s => (attempt op res (body s)).bind fun r => .pure (leaveOrRepeat r)) s fun b =>
        b.elim (.pure none) fun b => attempt op res (k b)

section Attempt

variable {op : E.Op → F.Op} {res : (o : E.Op) → F.Res (op o) → Option (E.Res o)}

@[simp] theorem attempt_call (o : E.Op) (k : E.Res o → Prog E α) :
    (Prog.call o k).attempt op res =
      .call (op o) fun r => (res o r).elim (.pure none) fun r => (k r).attempt op res := rfl

/-- What comes next is attempted if the program has ended with a value. -/
theorem attempt_bind (p : Prog E α) (f : α → Prog E β) :
    (p.bind f).attempt op res =
      (p.attempt op res).bind fun r => r.elim (.pure none) fun a => (f a).attempt op res := by
  induction p with
  | pure a => rfl
  | call o k ih =>
      rw [call_bind, attempt_call, attempt_call, call_bind]
      congr 1
      funext r
      cases res o r with
      | none => rfl
      | some r => exact ih r f
  | loop body s k _ ih =>
      rw [loop_bind, Prog.attempt, Prog.attempt, loop_bind]
      congr 1
      funext b
      cases b with
      | none => rfl
      | some b => exact ih b f

/-- A loop written out for one round. -/
theorem attempt_unfold (body : σ → Prog E (σ ⊕ β)) (s : σ) (k : β → Prog E α) :
    (Prog.unfold body s k).attempt op res =
      Prog.unfold (fun s => ((body s).attempt op res).bind fun r => .pure (leaveOrRepeat r)) s
        fun b => b.elim (.pure none) fun b => (k b).attempt op res := by
  rw [Prog.unfold, attempt_bind, Prog.unfold, bind_assoc]
  congr 1
  funext r
  rcases r with _ | s' | b <;> rfl

/-- An operation with its answer, as it is issued. -/
def Event.lift (op : E.Op → F.Op) (ans : (o : E.Op) → E.Res o → F.Res (op o)) (e : Event E) :
    Event F := ⟨op e.op, ans e.op e.res⟩

/-- A run all of whose operations have been answered. -/
theorem Runs.attempt {ans : (o : E.Op) → E.Res o → F.Res (op o)}
    (hans : ∀ o r, res o (ans o r) = some r) {p q : Prog E α} {t : List (Event E)} (h : Runs p t q) :
    Runs (p.attempt op res) (t.map (Event.lift op ans)) (q.attempt op res) := by
  induction h with
  | refl p => exact .refl _
  | call r _ ih =>
      refine .call (ans _ r) ?_
      rw [hans]
      exact ih
  | loop _ ih =>
      rw [attempt_unfold] at ih
      exact .loop ih

/-- **Attempts follow the monitor.** The states of `M` are among those of `N`. A text that follows
`M` follows `N` when it is attempted, if `N` moves as `M` does on an answer, and to a state that
satisfies `C` on an operation that has none. -/
theorem Follows.attempt {M : Monitor E Γ} {N : Monitor F Δ} (emb : Γ → Δ) (C : Δ → Prop) {g : Γ}
    (hanswer : ∀ g o r' r, N.expects (emb g) ⟨op o, r'⟩ → res o r' = some r →
      M.expects g ⟨o, r⟩ ∧ ∀ g', M.step g ⟨o, r⟩ = some g' → N.step (emb g) ⟨op o, r'⟩ = some (emb g'))
    (hnone : ∀ g o r', N.expects (emb g) ⟨op o, r'⟩ → res o r' = none →
      (∀ r, M.expects g ⟨o, r⟩ → ∃ g', M.step g ⟨o, r⟩ = some g') →
        ∃ c, N.step (emb g) ⟨op o, r'⟩ = some c ∧ C c)
    {p : Prog E α} {Q : α → Γ → Prop} (h : Follows M g p Q) :
    Follows N (emb g) (p.attempt op res) fun r c =>
      r.elim (C c) fun a => ∃ g', c = emb g' ∧ Q a g' := by
  induction p generalizing g with
  | pure a => exact ⟨g, rfl, h⟩
  | call o k ih =>
      intro r' hexp
      cases hr : res o r' with
      | none =>
          obtain ⟨c, hc, hC⟩ := hnone g o r' hexp hr fun r hr => by
            obtain ⟨g', hg', -⟩ := h r hr
            exact ⟨g', hg'⟩
          refine ⟨c, hc, ?_⟩
          beta_reduce
          rw [hr]
          exact hC
      | some r =>
          obtain ⟨hexp', hstep⟩ := hanswer g o r' r hexp hr
          obtain ⟨g', hg', hk⟩ := h r hexp'
          refine ⟨emb g', hstep g' hg', ?_⟩
          beta_reduce
          rw [hr]
          exact ih r hk
  | loop body s k ihbody ih =>
      obtain ⟨I, R, hI, hbody, hk⟩ := h
      -- the invariants are those of the text, and `C` once the program has been ended
      refine ⟨fun s c => ∃ g, c = emb g ∧ I s g,
        fun b c => b.elim (C c) fun b => ∃ g, c = emb g ∧ R b g, ⟨g, rfl, hI⟩, ?_, ?_⟩
      · rintro s _ ⟨g, rfl, hI⟩
        refine (ihbody s (hbody s g hI)).bind fun r c hr => ?_
        rcases r with _ | s' | b
        · exact hr
        · exact hr
        · exact hr
      · intro b c hb
        cases b with
        | none => exact hb
        | some b =>
            obtain ⟨g, rfl, hR⟩ := hb
            exact ih b (hk b g hR)

end Attempt

end Effects

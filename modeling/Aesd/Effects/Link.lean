import Aesd.Effects.Typestate

/-! # Linking a program with the code of its operations

A client is a program over an interface `F`. Each operation of `F` is implemented by a program over
`E`, and **`Prog.link`** is the client with the implementations in the place of its operations. -/

namespace Effects

open Prog

variable {E F : Interface} {α β σ : Type}

/-- The client with each operation replaced by the text that implements it. -/
def Prog.link (impl : (o : F.Op) → Prog E (F.Res o)) : {α : Type} → Prog F α → Prog E α
  | _, .pure a => .pure a
  | _, .call o k => (impl o).bind fun r => link impl (k r)
  | _, .loop body s k => .loop (fun s => link impl (body s)) s fun b => link impl (k b)

section Bind

variable {p : Prog E α} {f : α → Prog E β}

/-- Nothing comes next. -/
theorem bind_pure (p : Prog E α) : p.bind .pure = p := by
  induction p with
  | pure a => rfl
  | call o k ih =>
      rw [call_bind]
      congr 1
      funext r
      exact ih r
  | loop body s k _ ih =>
      rw [loop_bind]
      congr 1
      funext b
      exact ih b

/-- A composition that has come to its end. -/
theorem bind_eq_pure {b : β} (h : p.bind f = .pure b) : ∃ a, p = .pure a ∧ f a = .pure b := by
  cases p with
  | pure a => exact ⟨a, rfl, by rwa [pure_bind] at h⟩
  | call e k => rw [call_bind] at h; cases h
  | loop body i k => rw [loop_bind] at h; cases h

/-- The operation that a composition begins with is the first one of its first part, unless that
part has come to its end. -/
theorem bind_eq_call {e : E.Op} {k : E.Res e → Prog E β} (h : p.bind f = .call e k) :
    (∃ a, p = .pure a ∧ f a = .call e k) ∨ ∃ k', p = .call e k' ∧ k = fun r => (k' r).bind f := by
  cases p with
  | pure a => exact .inl ⟨a, rfl, by rwa [pure_bind] at h⟩
  | call e' k' =>
      rw [call_bind] at h
      cases h
      exact .inr ⟨k', rfl, rfl⟩
  | loop body i k => rw [loop_bind] at h; cases h

theorem bind_eq_loop {γ : Type} {body : σ → Prog E (σ ⊕ γ)} {i : σ} {k : γ → Prog E β}
    (h : p.bind f = .loop body i k) :
    (∃ a, p = .pure a ∧ f a = .loop body i k) ∨
      ∃ k', p = .loop body i k' ∧ k = fun b => (k' b).bind f := by
  cases p with
  | pure a => exact .inl ⟨a, rfl, by rwa [pure_bind] at h⟩
  | call e' k' => rw [call_bind] at h; cases h
  | loop body' i' k' =>
      rw [loop_bind] at h
      cases h
      exact .inr ⟨k', rfl, rfl⟩

end Bind

section Link

variable {impl : (o : F.Op) → Prog E (F.Res o)}

/-- What comes next is linked on its own. -/
theorem link_bind (p : Prog F α) (f : α → Prog F β) :
    (p.bind f).link impl = (p.link impl).bind fun a => (f a).link impl := by
  induction p with
  | pure a => rw [pure_bind, Prog.link, pure_bind]
  | call o k ih =>
      rw [call_bind, Prog.link, Prog.link, bind_assoc]
      congr 1
      funext r
      exact ih r f
  | loop body s k _ ih =>
      rw [loop_bind, Prog.link, Prog.link, loop_bind]
      congr 1
      funext b
      exact ih b f

/-- Operations whose own texts use operations with texts. -/
theorem link_link {H : Interface} {impl' : (o : E.Op) → Prog H (E.Res o)} (p : Prog F α) :
    (p.link impl).link impl' = p.link fun o => (impl o).link impl' := by
  induction p with
  | pure a => rfl
  | call o k ih =>
      rw [Prog.link, link_bind, Prog.link]
      congr 1
      funext r
      exact ih r
  | loop body s k ihbody ih =>
      rw [Prog.link, Prog.link, Prog.link]
      congr 1
      · funext s
        exact ihbody s
      · funext b
        exact ih b

/-- A loop written out for one round. -/
theorem link_unfold (body : σ → Prog F (σ ⊕ β)) (s : σ) (k : β → Prog F α) :
    (unfold body s k).link impl =
      unfold (fun s => (body s).link impl) s fun b => (k b).link impl := by
  rw [unfold, link_bind, unfold]
  congr 1
  funext r
  cases r <;> rfl

/-- A run of the client, each operation being run by its text. -/
theorem Runs.link {events : Event F → List (Event E)} {p q : Prog F α} {t : List (Event F)}
    (himpl : ∀ e, Runs (impl e.op) (events e) (.pure e.res)) (h : Runs p t q) :
    Runs (p.link impl) (t.flatMap events) (q.link impl) := by
  induction h with
  | refl p => exact .refl _
  | call r _ ih => exact (himpl ⟨_, r⟩).seq ih
  | loop _ ih =>
      rw [link_unfold] at ih
      exact .loop ih

/-- A client that follows a monitor of its operations follows, with their code in their place, a
monitor of the code that comes to the same states. -/
theorem Follows.link {Γ : Type} {M : Monitor F Γ} {N : Monitor E Γ}
    (himpl : ∀ o g, (∀ r, M.expects g ⟨o, r⟩ → ∃ g', M.step g ⟨o, r⟩ = some g') →
      Follows N g (impl o) fun r g' => M.expects g ⟨o, r⟩ ∧ M.step g ⟨o, r⟩ = some g')
    {p : Prog F α} {g : Γ} {Q : α → Γ → Prop} (h : Follows M g p Q) :
    Follows N g (p.link impl) Q := by
  induction p generalizing g with
  | pure a => exact h
  | call o k ih =>
      have hallowed : ∀ r, M.expects g ⟨o, r⟩ → ∃ g', M.step g ⟨o, r⟩ = some g' := fun r hr =>
        (h r hr).imp fun _ hg' => hg'.1
      refine (himpl o g hallowed).bind fun r g' hr => ?_
      obtain ⟨g₁, hg₁, hrest⟩ := h r hr.1
      obtain rfl := Option.some.inj (hg₁.symm.trans hr.2)
      exact ih r hrest
  | loop body s k ihbody ih =>
      obtain ⟨I, R, hI, hbody, hk⟩ := h
      exact ⟨I, R, hI, fun s g hs => ihbody s (hbody s g hs), fun b g hb => ih b (hk b g hb)⟩

end Link

end Effects

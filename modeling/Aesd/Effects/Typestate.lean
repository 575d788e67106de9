import Aesd.Effects.Program

/-! # Monitors and the programs that follow them

A `Monitor` is an automaton reading the events of a program: in the state `g` it expects of the
environment that an event meets `expects g`, and moves by `step g`, which is `none` on an event the
protocol forbids. **`Follows M g p Q`** says that `p`, started in the monitor state `g`, never
issues a forbidden event as long as the answers are as expected, and ends only in states that
satisfy `Q`. It is computed over the program text; a loop is judged by an invariant. The soundness
theorem `Follows.runs` carries it along any run, finished or not. -/

namespace Effects

variable {E : Interface} {Γ : Type} {α β σ : Type}

/-- An automaton over the events of a program. -/
structure Monitor (E : Interface) (Γ : Type) where
  /-- What the environment promises about the next event. -/
  expects : Γ → Event E → Prop
  /-- The next state, or `none` on a forbidden event. -/
  step : Γ → Event E → Option Γ

namespace Monitor

/-- The state after a whole trace. -/
def after (M : Monitor E Γ) : Γ → List (Event E) → Option Γ
  | g, [] => some g
  | g, e :: t => (M.step g e).bind fun g' => after M g' t

/-- The trace keeps the environment's promises. -/
def Admits (M : Monitor E Γ) : Γ → List (Event E) → Prop
  | _, [] => True
  | g, e :: t => M.expects g e ∧ ∀ g', M.step g e = some g' → Admits M g' t

variable {M : Monitor E Γ} {g g' : Γ} {e : Event E} {t u : List (Event E)}

@[simp] theorem after_nil : M.after g [] = some g := rfl

@[simp] theorem after_cons : M.after g (e :: t) = (M.step g e).bind fun g' => M.after g' t := rfl

theorem after_append : M.after g (t ++ u) = (M.after g t).bind fun g' => M.after g' u := by
  induction t generalizing g with
  | nil => rfl
  | cons e t ih =>
      rw [List.cons_append, after_cons, after_cons, Option.bind_assoc]
      exact congrArg _ (funext fun g' => ih)

/-- Reading one more event at the end of a trace. -/
theorem after_concat (h : M.after g t = some g') : M.after g (t ++ [e]) = M.step g' e := by
  rw [after_append, h, Option.bind_some, after_cons]
  cases M.step g' e <;> rfl

/-- What every step keeps holds after a trace. -/
theorem after_invariant {I : Γ → Prop} (hg : I g)
    (hstep : ∀ g e g', I g → M.step g e = some g' → I g') (h : M.after g t = some g') : I g' := by
  induction t generalizing g with
  | nil =>
      cases h
      exact hg
  | cons e t ih =>
      rw [after_cons, Option.bind_eq_some_iff] at h
      obtain ⟨g₁, hg₁, h⟩ := h
      exact ih (hstep g e g₁ hg hg₁) h

/-- What the steps of two monitors keep holds after a trace that both have read. -/
theorem after_related {Δ : Type} {N : Monitor E Δ} {d d' : Δ} {R : Γ → Δ → Prop} (hR : R g d)
    (hstep : ∀ g d e g' d', R g d → M.step g e = some g' → N.step d e = some d' → R g' d')
    (hM : M.after g t = some g') (hN : N.after d t = some d') : R g' d' := by
  induction t generalizing g d with
  | nil =>
      cases hM
      cases hN
      exact hR
  | cons e t ih =>
      rw [after_cons, Option.bind_eq_some_iff] at hM hN
      obtain ⟨g₁, hg₁, hM⟩ := hM
      obtain ⟨d₁, hd₁, hN⟩ := hN
      exact ih (hstep g d e g₁ d₁ hR hg₁ hd₁) hM hN

/-- A trace of events that are expected in any state is admitted. -/
theorem admits_of_mem (h : ∀ e ∈ t, ∀ g, M.expects g e) (g : Γ) : M.Admits g t := by
  induction t generalizing g with
  | nil => trivial
  | cons e t ih =>
      refine ⟨h e List.mem_cons_self g, fun g' _ => ih (fun e' he' => ?_) g'⟩
      exact h e' (List.mem_cons_of_mem _ he')

/-- The operation does not move the monitor. -/
def Ignores (M : Monitor E Γ) (o : E.Op) : Prop := ∀ g r, M.step g ⟨o, r⟩ = some g

/-- The monitor that forbids nothing and only computes `f` over the events. -/
def watch (expects : Event E → Prop) (f : Γ → Event E → Γ) : Monitor E Γ where
  expects _ e := expects e
  step g e := some (f g e)

theorem after_watch {expects : Event E → Prop} {f : Γ → Event E → Γ} :
    (watch expects f).after g t = some (t.foldl f g) := by
  induction t generalizing g with
  | nil => rfl
  | cons e t ih => exact ih

end Monitor

/-- `Follows M g p Q`: from the monitor state `g` the program `p` stays inside the protocol and
every value it returns satisfies `Q` together with the state reached. -/
def Follows (M : Monitor E Γ) : {α : Type} → Γ → Prog E α → (α → Γ → Prop) → Prop
  | _, g, .pure a, Q => Q a g
  | _, g, .call o k, Q =>
      ∀ r, M.expects g ⟨o, r⟩ → ∃ g', M.step g ⟨o, r⟩ = some g' ∧ Follows M g' (k r) Q
  | _, g, .loop (σ := σ) (β := β) body s k, Q =>
      -- `I` holds whenever a round starts, `R` whenever the loop has been left
      ∃ (I : σ → Γ → Prop) (R : β → Γ → Prop), I s g ∧
        (∀ s g, I s g → Follows M g (body s) fun r g' => Sum.elim (I · g') (R · g') r) ∧
        ∀ b g, R b g → Follows M g (k b) Q

namespace Follows

variable {M : Monitor E Γ} {g : Γ}

@[simp] theorem pure_iff {a : α} {Q : α → Γ → Prop} : Follows M g (.pure a) Q ↔ Q a g := Iff.rfl

/-- A weaker postcondition. -/
theorem mono {p : Prog E α} {Q Q' : α → Γ → Prop} (h : Follows M g p Q)
    (hQ : ∀ a g', Q a g' → Q' a g') : Follows M g p Q' := by
  induction p generalizing g with
  | pure a => exact hQ a g h
  | call o k ih =>
      intro r hr
      obtain ⟨g', hg', h'⟩ := h r hr
      exact ⟨g', hg', ih r h' hQ⟩
  | loop body s k _ ih =>
      obtain ⟨I, R, hI, hbody, hk⟩ := h
      exact ⟨I, R, hI, hbody, fun b g' hR => ih b (hk b g' hR) hQ⟩

/-- Sequential composition. -/
theorem bind {p : Prog E α} {f : α → Prog E β} {R : α → Γ → Prop} {Q : β → Γ → Prop}
    (h : Follows M g p R) (hf : ∀ a g', R a g' → Follows M g' (f a) Q) :
    Follows M g (p.bind f) Q := by
  induction p generalizing g with
  | pure a => exact hf a g h
  | call o k ih =>
      intro r hr
      obtain ⟨g', hg', h'⟩ := h r hr
      exact ⟨g', hg', ih r h' hf⟩
  | loop body s k _ ih =>
      obtain ⟨I, R', hI, hbody, hk⟩ := h
      exact ⟨I, R', hI, hbody, fun b g' hR => ih b (hk b g' hR) hf⟩

/-- An operation that does not move the monitor. -/
theorem skip {o : E.Op} {k : E.Res o → Prog E α} {Q : α → Γ → Prop} (ho : M.Ignores o)
    (hk : ∀ r, M.expects g ⟨o, r⟩ → Follows M g (k r) Q) : Follows M g (.call o k) Q := by
  intro r hr
  exact ⟨g, ho g r, hk r hr⟩

/-- An operation that a watching monitor takes note of. -/
theorem note {expects : Event E → Prop} {f : Γ → Event E → Γ} {o : E.Op} {k : E.Res o → Prog E α}
    {Q : α → Γ → Prop}
    (hk : ∀ r, expects ⟨o, r⟩ → Follows (.watch expects f) (f g ⟨o, r⟩) (k r) Q) :
    Follows (.watch expects f) g (.call o k) Q := by
  intro r hr
  exact ⟨_, rfl, hk r hr⟩

/-- A branch whose condition does not matter. -/
theorem ite {c : Prop} {_ : Decidable c} {p q : Prog E α} {Q : α → Γ → Prop} (hp : Follows M g p Q)
    (hq : Follows M g q Q) : Follows M g (if c then p else q) Q := by
  split
  · exact hp
  · exact hq

/-- The loop rule: `I` is kept by every round that goes on, and a round that leaves ends in `Q`. -/
theorem iterate {body : σ → Prog E (σ ⊕ β)} {s : σ} (I : σ → Γ → Prop) {Q : β → Γ → Prop}
    (hI : I s g)
    (hbody : ∀ s g, I s g → Follows M g (body s) fun r g' => Sum.elim (I · g') (Q · g') r) :
    Follows M g (Prog.iterate body s) Q :=
  ⟨I, Q, hI, hbody, fun _ _ h => h⟩

/-- Entering a loop for one more round. -/
theorem unfold {body : σ → Prog E (σ ⊕ β)} {s : σ} {k : β → Prog E α} {Q : α → Γ → Prop}
    (h : Follows M g (.loop body s k) Q) : Follows M g (Prog.unfold body s k) Q := by
  obtain ⟨I, R, hI, hbody, hk⟩ := h
  refine (hbody s g hI).bind fun r g' hr => ?_
  cases r with
  | inl s' => exact ⟨I, R, hr, hbody, hk⟩
  | inr b => exact hk b g' hr

/-- Soundness: along any run the monitor does not get stuck, and what is left follows it. -/
theorem runs {p q : Prog E α} {Q : α → Γ → Prop} {t : List (Event E)} (h : Follows M g p Q)
    (hrun : Runs p t q) (ht : M.Admits g t) : ∃ g', M.after g t = some g' ∧ Follows M g' q Q := by
  induction hrun generalizing g with
  | refl p => exact ⟨g, rfl, h⟩
  | call r _ ih =>
      obtain ⟨g₁, hg₁, h₁⟩ := h r ht.1
      obtain ⟨g', hg', h'⟩ := ih h₁ (ht.2 g₁ hg₁)
      exact ⟨g', by rw [Monitor.after_cons, hg₁]; exact hg', h'⟩
  | loop _ ih => exact ih h.unfold ht

/-- What a watching monitor has computed when the program returns. -/
theorem watch_runs {expects : Event E → Prop} {f : Γ → Event E → Γ} {p : Prog E α} {a : α}
    {Q : α → Γ → Prop} {t : List (Event E)} (h : Follows (.watch expects f) g p Q)
    (hrun : Runs p t (.pure a)) (ht : ∀ e ∈ t, expects e) : Q a (t.foldl f g) := by
  obtain ⟨g', hg', hQ⟩ := h.runs hrun (Monitor.admits_of_mem (fun e he _ => ht e he) _)
  rw [Monitor.after_watch, Option.some.injEq] at hg'
  exact hg' ▸ hQ

end Follows

/-! ### Texts of harmless operations -/

/-- Every operation of the text satisfies `P`. -/
def Uses (P : E.Op → Prop) : {α : Type} → Prog E α → Prop
  | _, .pure _ => True
  | _, .call o k => P o ∧ ∀ r, Uses P (k r)
  | _, .loop body _ k => (∀ s, Uses P (body s)) ∧ ∀ b, Uses P (k b)

namespace Uses

variable {M : Monitor E Γ} {g : Γ} {P : E.Op → Prop}

theorem bind {p : Prog E α} {f : α → Prog E β} (h : Uses P p) (hf : ∀ a, Uses P (f a)) :
    Uses P (p.bind f) := by
  induction p with
  | pure a => exact hf a
  | call o k ih => exact ⟨h.1, fun r => ih r (h.2 r) hf⟩
  | loop body s k _ ih => exact ⟨h.1, fun b => ih b (h.2 b) hf⟩

/-- A branch whose condition does not matter. -/
theorem ite {c : Prop} {_ : Decidable c} {p q : Prog E α} (hp : Uses P p) (hq : Uses P q) :
    Uses P (if c then p else q) := by
  split
  · exact hp
  · exact hq

/-- What the operations of the text keep is kept by the text. -/
theorem keeps {I : Γ → Prop} {p : Prog E α} (h : Uses P p) (hg : I g)
    (hP : ∀ o r g, P o → I g → ∃ g', M.step g ⟨o, r⟩ = some g' ∧ I g') :
    Follows M g p fun _ g' => I g' := by
  induction p generalizing g with
  | pure a => exact hg
  | call o k ih =>
      intro r _
      obtain ⟨g', hg', hI⟩ := hP o r g h.1 hg
      exact ⟨g', hg', ih r (h.2 r) hI⟩
  | loop body s k ihbody ih =>
      refine ⟨fun _ => I, fun _ => I, hg, ?_, fun b g hg => ih b (h.2 b) hg⟩
      exact fun s g hg => (ihbody s (h.1 s) hg).mono fun r _ hI => by cases r <;> exact hI

/-- A monitor that no operation of the text moves stays where it is. -/
theorem follows {p : Prog E α} (h : Uses P p) (hP : ∀ o r, P o → M.step g ⟨o, r⟩ = some g) :
    Follows M g p fun _ g' => g' = g := by
  refine h.keeps rfl fun o r g' ho hg => ⟨g, ?_, rfl⟩
  rw [hg]
  exact hP o r ho

/-- Entering a loop for one more round. -/
theorem unfold {body : σ → Prog E (σ ⊕ β)} {s : σ} {k : β → Prog E α}
    (h : Uses P (.loop body s k)) : Uses P (Prog.unfold body s k) := by
  refine (h.1 s).bind fun r => ?_
  cases r with
  | inl s' => exact h
  | inr b => exact h.2 b

/-- Along any run only such operations are issued. -/
theorem runs {p q : Prog E α} {t : List (Event E)} (h : Uses P p) (hrun : Runs p t q) :
    ∀ e ∈ t, P e.op := by
  induction hrun with
  | refl p => simp
  | call r _ ih =>
      intro e he
      rcases List.mem_cons.mp he with rfl | he
      · exact h.1
      · exact ih (h.2 r) e he
  | loop _ ih => exact ih h.unfold

end Uses

/-! ### Texts that do not spin -/

/-- The text begins with an operation. -/
def Begins : {α : Type} → Prog E α → Prop
  | _, .pure _ => False
  | _, .call _ _ => True
  | _, .loop body s _ => Begins (body s)

/-- Every round of every loop begins with an operation. -/
def Productive : {α : Type} → Prog E α → Prop
  | _, .pure _ => True
  | _, .call _ k => ∀ r, Productive (k r)
  | _, .loop body _ k => (∀ s, Begins (body s) ∧ Productive (body s)) ∧ ∀ b, Productive (k b)

theorem Begins.bind {p : Prog E α} (h : Begins p) (f : α → Prog E β) : Begins (p.bind f) := by
  induction p with
  | pure a => exact h.elim
  | call o k _ => trivial
  | loop body s k _ _ => exact h

/-- The first operation, once the loops before it have been entered. -/
theorem Begins.exists_call {p : Prog E α} (h : Begins p) : ∃ o k, Runs p [] (.call o k) := by
  induction p with
  | pure a => exact h.elim
  | call o k _ => exact ⟨o, k, .refl _⟩
  | loop body s k ihbody _ =>
      obtain ⟨o, k', hrun⟩ := ihbody s h
      have hfirst := hrun.bind (Sum.elim (fun s' => .loop body s' k) k)
      rw [Prog.call_bind] at hfirst
      exact ⟨o, _, .loop hfirst⟩

namespace Productive

theorem bind {p : Prog E α} {f : α → Prog E β} (h : Productive p) (hf : ∀ a, Productive (f a)) :
    Productive (p.bind f) := by
  induction p with
  | pure a => exact hf a
  | call o k ih => exact fun r => ih r (h r) hf
  | loop body s k _ ih => exact ⟨h.1, fun b => ih b (h.2 b) hf⟩

/-- A branch whose condition does not matter. -/
theorem ite {c : Prop} {_ : Decidable c} {p q : Prog E α} (hp : Productive p) (hq : Productive q) :
    Productive (if c then p else q) := by
  split
  · exact hp
  · exact hq

theorem unfold {body : σ → Prog E (σ ⊕ β)} {s : σ} {k : β → Prog E α}
    (h : Productive (.loop body s k)) : Productive (Prog.unfold body s k) := by
  refine (h.1 s).2.bind fun r => ?_
  cases r with
  | inl s' => exact h
  | inr b => exact h.2 b

theorem runs {p q : Prog E α} {t : List (Event E)} (h : Productive p) (hrun : Runs p t q) :
    Productive q := by
  induction hrun with
  | refl p => exact h
  | call r _ ih => exact ih (h r)
  | loop _ ih => exact ih h.unfold

/-- A text that has not returned comes to an operation. -/
theorem exists_call {p : Prog E α} (h : Productive p) (hp : ∀ a, p ≠ .pure a) :
    ∃ o k, Runs p [] (.call o k) := by
  cases p with
  | pure a => exact absurd rfl (hp a)
  | call o k => exact ⟨o, k, .refl _⟩
  | loop body s k => exact Begins.exists_call (p := .loop body s k) (h.1 s).1

end Productive

/-! ### Runs that a program can have -/

/-- With suitable answers, all of them `ok`, the program can come to its end so that the value it
returns satisfies `Q` together with what `f` has computed over the events. -/
def CanEnd (ok : Event E → Prop) (f : Γ → Event E → Γ) (g : Γ) (p : Prog E α) (Q : α → Γ → Prop) :
    Prop := ∃ t a, Runs p t (.pure a) ∧ (∀ e ∈ t, ok e) ∧ Q a (t.foldl f g)

namespace CanEnd

variable {ok : Event E → Prop} {f : Γ → Event E → Γ} {g : Γ}

theorem pure {a : α} {Q : α → Γ → Prop} (h : Q a g) : CanEnd ok f g (.pure a) Q :=
  ⟨[], a, .refl _, by simp, h⟩

/-- Choosing an answer. -/
theorem call {o : E.Op} {k : E.Res o → Prog E α} {Q : α → Γ → Prop} (r : E.Res o) (hr : ok ⟨o, r⟩)
    (h : CanEnd ok f (f g ⟨o, r⟩) (k r) Q) : CanEnd ok f g (.call o k) Q := by
  obtain ⟨t, a, hrun, ht, hQ⟩ := h
  refine ⟨⟨o, r⟩ :: t, a, .call r hrun, ?_, hQ⟩
  intro e he
  rcases List.mem_cons.mp he with rfl | he
  · exact hr
  · exact ht e he

theorem bind {p : Prog E α} {q : α → Prog E β} {R : α → Γ → Prop} {Q : β → Γ → Prop}
    (h : CanEnd ok f g p R) (hq : ∀ a g', R a g' → CanEnd ok f g' (q a) Q) :
    CanEnd ok f g (p.bind q) Q := by
  obtain ⟨t, a, hrun, ht, hR⟩ := h
  obtain ⟨u, b, hrun', hu, hQ⟩ := hq a _ hR
  refine ⟨t ++ u, b, hrun.seq hrun', ?_, by rwa [List.foldl_append]⟩
  intro e he
  rcases List.mem_append.mp he with he | he
  · exact ht e he
  · exact hu e he

/-- One more round of a loop. -/
theorem loop {σ : Type} {body : σ → Prog E (σ ⊕ β)} {s : σ} {k : β → Prog E α} {Q : α → Γ → Prop}
    {R : σ ⊕ β → Γ → Prop} (h : CanEnd ok f g (body s) R)
    (hagain : ∀ s' g', R (.inl s') g' → CanEnd ok f g' (.loop body s' k) Q)
    (hleave : ∀ b g', R (.inr b) g' → CanEnd ok f g' (k b) Q) :
    CanEnd ok f g (.loop body s k) Q := by
  have hunfold : CanEnd ok f g (Prog.unfold body s k) Q := by
    refine h.bind fun r g' hr => ?_
    cases r with
    | inl s' => exact hagain s' g' hr
    | inr b => exact hleave b g' hr
  obtain ⟨t, a, hrun, ht, hQ⟩ := hunfold
  exact ⟨t, a, .loop hrun, ht, hQ⟩

end CanEnd

end Effects

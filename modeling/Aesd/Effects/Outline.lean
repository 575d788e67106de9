import Aesd.Effects.Link
import Aesd.Effects.Pool

/-! # Proof outlines of operations that others interfere with

Tasks run clients whose operations are implemented by texts over a shared state. A `Protocol` says
under which rules they share it: an invariant that holds between any two steps, what a step of each
task may do to the others (`Guar`), and which abstract state the shared state stands for, with the
help of a ghost state that only the proof has.

**`Outline t o p A Q`** is a proof outline of the text `p` of the operation `o`, run by the task
`t`: an assertion at each point of the text that no step of the others can break, where one step of
`p`, its commit, is the whole operation on the abstract state, and all its other steps leave the
abstract state alone. An assertion also sees the answer the operation has committed to, if it has.
As for `Follows`, the outline is computed over the text, and a loop is judged by an invariant.

A protocol also says what can be seen from outside of an event of the code (`visible`) and of an
operation that is done at once (`outcome`). What is seen of the commit must be what is seen of the
operation, and nothing may be seen of the other steps.

If every operation has an outline that ends committed to the answer it returns, then whatever the
interleaved clients do, the same clients do over the abstract state with each operation as one step,
and the same can be seen of them in the same order (`Coupled.refines`); and no task comes to an
operation that faults (`Coupled.not_faults`). -/

namespace Effects

open Prog

variable {E F : Interface} {S L G V : Type} {α β σ : Type}

/-- The rules under which the tasks share a state. -/
structure Protocol (E F : Interface) (S L G V : Type) where
  /-- In the state `s` the operation `e` of the task `t` may be answered by `r`, which leaves the
  state `s'`. -/
  sem : (t : ℕ) → (e : E.Op) → (s : S) → (r : E.Res e) → (s' : S) → Prop
  /-- The operation of the task does not make sense in this state. -/
  faults : ℕ → E.Op → S → Prop
  /-- What is assumed of the steps of a run: the task, its event, and the state before it. -/
  permits : ℕ → Event E → S → Prop
  /-- What can be seen of an event from outside. -/
  visible : Event E → Option V
  /-- What an operation does to the abstract state. -/
  spec : (t : ℕ) → (o : F.Op) → (l : L) → (r : F.Res o) → (l' : L) → Prop
  /-- What can be seen of an operation that is done at once. -/
  outcome : Event F → Option V
  /-- The abstract state, read from the ghost state. -/
  view : G → L
  /-- What holds between any two steps. -/
  Inv : S → G → Prop
  /-- What a step of the task may do. -/
  Guar : ℕ → S → G → S → G → Prop

namespace Protocol

variable (P : Protocol E F S L G V) (t : ℕ) (o : F.Op)

/-- A point of the text of `o`: the states, and the answer committed to. -/
abbrev Assertion (_P : Protocol E F S L G V) (o : F.Op) : Type := S → G → Option (F.Res o) → Prop

/-- No step of another task breaks the assertion. -/
def Stable {ρ : Type} (A : S → G → Option ρ → Prop) : Prop :=
  ∀ u, u ≠ t → ∀ s g s' g' c, P.Inv s g → P.Inv s' g' → P.Guar u s g s' g' → A s g c → A s' g' c

/-- A fact about no state is not broken either. -/
theorem Stable.and {P : Protocol E F S L G V} {t : ℕ} {ρ : Type} {A : S → G → Option ρ → Prop}
    (h : P.Stable t A) (φ : Prop) : P.Stable t fun s g c => φ ∧ A s g c :=
  fun u hu s g s' g' c hI hI' hg hA => ⟨hA.1, h u hu s g s' g' c hI hI' hg hA.2⟩

/-- A step leaves the abstract state alone and nothing is seen of it, or it is the whole operation on
the abstract state, and the same is seen of both. -/
def Commits (e : Event E) (g : G) (c : Option (F.Res o)) (g' : G) (c' : Option (F.Res o)) : Prop :=
  (c' = c ∧ P.view g' = P.view g ∧ P.visible e = none) ∨
    ∃ r, c = none ∧ c' = some r ∧ P.spec t o (P.view g) r (P.view g') ∧
      P.visible e = P.outcome ⟨o, r⟩

/-- One step from a point where `A` holds to a point where `B` holds. -/
def Goes (e : Event E) (A B : P.Assertion o) : Prop :=
  ∀ s g c s', P.Inv s g → A s g c → P.sem t e.op s e.res s' → P.permits t e s →
    ∃ g' c', P.Commits t o e g c g' c' ∧ P.Inv s' g' ∧ P.Guar t s g s' g' ∧ B s' g' c'

/-- A proof outline of a part of the text of `o`, from `A` to `Q`. -/
def Outline : {β : Type} → Prog E β → P.Assertion o → (β → P.Assertion o) → Prop
  | _, .pure a, A, Q => ∀ s g c, P.Inv s g → A s g c → Q a s g c
  | _, .call e k, A, Q =>
      (∀ s g c, P.Inv s g → A s g c → ¬P.faults t e s) ∧
        ∀ r, ∃ B, P.Stable t B ∧ P.Goes t o ⟨e, r⟩ A B ∧ Outline (k r) B Q
  | _, .loop (σ := σ) (β := β) body i k, A, Q =>
      -- `I` holds whenever a round starts, `R` whenever the loop has been left
      ∃ (I : σ → P.Assertion o) (R : β → P.Assertion o), (∀ s g c, P.Inv s g → A s g c → I i s g c) ∧
        (∀ i, P.Stable t (I i) ∧ Outline (body i) (I i) fun r => Sum.elim I R r) ∧
        ∀ b, P.Stable t (R b) ∧ Outline (k b) (R b) Q

/-- The clients over the code of their operations. -/
def linked (impl : (o : F.Op) → Prog E (F.Res o)) (clients : ℕ → Prog F α) : Machine E S α where
  text t := (clients t).link impl
  answers t _ e s r s' := P.sem t e s r s'

/-- The clients over the abstract state. -/
def atomic (clients : ℕ → Prog F α) : Machine F L α where
  text := clients
  answers t _ o l r l' := P.spec t o l r l'

end Protocol

/-! ### Rules for outlines -/

namespace Protocol.Outline

variable {P : Protocol E F S L G V} {t : ℕ} {o : F.Op} {A A' : P.Assertion o}

/-- A stronger assertion to start from. -/
theorem weaken {p : Prog E β} {Q : β → P.Assertion o} (h : P.Outline t o p A Q)
    (hA : ∀ s g c, P.Inv s g → A' s g c → A s g c) : P.Outline t o p A' Q := by
  cases p with
  | pure a => exact fun s g c hI hA' => h s g c hI (hA s g c hI hA')
  | call e k =>
      obtain ⟨hfaults, hk⟩ := h
      refine ⟨fun s g c hI hA' => hfaults s g c hI (hA s g c hI hA'), fun r => ?_⟩
      obtain ⟨B, hB, hgoes, hrest⟩ := hk r
      exact ⟨B, hB, fun s g c s' hI hA' => hgoes s g c s' hI (hA s g c hI hA'), hrest⟩
  | loop body i k =>
      obtain ⟨I, R, hstart, hbody, hk⟩ := h
      exact ⟨I, R, fun s g c hI hA' => hstart s g c hI (hA s g c hI hA'), hbody, hk⟩

/-- A weaker assertion to end in. -/
theorem mono {p : Prog E β} {Q Q' : β → P.Assertion o} (h : P.Outline t o p A Q)
    (hQ : ∀ a s g c, P.Inv s g → Q a s g c → Q' a s g c) : P.Outline t o p A Q' := by
  induction p generalizing A with
  | pure a => exact fun s g c hI hA => hQ a s g c hI (h s g c hI hA)
  | call e k ih =>
      refine ⟨h.1, fun r => ?_⟩
      obtain ⟨B, hB, hgoes, hrest⟩ := h.2 r
      exact ⟨B, hB, hgoes, ih r hrest hQ⟩
  | loop body i k _ ih =>
      obtain ⟨I, R, hstart, hbody, hk⟩ := h
      exact ⟨I, R, hstart, hbody, fun b => ⟨(hk b).1, ih b (hk b).2 hQ⟩⟩

/-- Sequential composition. -/
theorem bind {p : Prog E α} {f : α → Prog E β} {R : α → P.Assertion o} {Q : β → P.Assertion o}
    (h : P.Outline t o p A R) (hf : ∀ a, P.Outline t o (f a) (R a) Q) :
    P.Outline t o (p.bind f) A Q := by
  induction p generalizing A with
  | pure a => exact (hf a).weaken fun s g c hI hA => h s g c hI hA
  | call e k ih =>
      refine ⟨h.1, fun r => ?_⟩
      obtain ⟨B, hB, hgoes, hrest⟩ := h.2 r
      exact ⟨B, hB, hgoes, ih r hrest hf⟩
  | loop body i k _ ih =>
      obtain ⟨I, R', hstart, hbody, hk⟩ := h
      exact ⟨I, R', hstart, hbody, fun b => ⟨(hk b).1, ih b (hk b).2 hf⟩⟩

/-- A branch, with what its condition says. -/
theorem ite {c : Prop} {_ : Decidable c} {p q : Prog E β} {Q : β → P.Assertion o}
    (hp : c → P.Outline t o p A Q) (hq : ¬c → P.Outline t o q A Q) :
    P.Outline t o (if c then p else q) A Q := by
  split
  · exact hp ‹_›
  · exact hq ‹_›

/-- What the assertion says to exist can be fixed for the whole text. -/
theorem fix {ι : Sort*} {p : Prog E β} {B : ι → P.Assertion o} {Q : β → P.Assertion o}
    (hA : ∀ s g c, P.Inv s g → A s g c → ∃ x, B x s g c) (h : ∀ x, P.Outline t o p (B x) Q) :
    P.Outline t o p A Q := by
  refine Outline.weaken (A := fun s g c => ∃ x, B x s g c) ?_ hA
  clear hA
  have hstable : ∀ {B : ι → P.Assertion o}, (∀ x, P.Stable t (B x)) →
      P.Stable t fun s g c => ∃ x, B x s g c := by
    rintro B hB u hu s g s' g' c hI hI' hg ⟨x, hx⟩
    exact ⟨x, hB x u hu s g s' g' c hI hI' hg hx⟩
  induction p generalizing B with
  | pure a => exact fun s g c hI ⟨x, hx⟩ => h x s g c hI hx
  | call e k ih =>
      refine ⟨fun s g c hI ⟨x, hx⟩ => (h x).1 s g c hI hx, fun r => ?_⟩
      choose C hC hgoes hrest using fun x => (h x).2 r
      refine ⟨fun s g c => ∃ x, C x s g c, hstable hC, ?_, ih r hrest⟩
      rintro s g c s' hI ⟨x, hx⟩ hr hok
      obtain ⟨g', c', hcommits, hinv, hguar, hc⟩ := hgoes x s g c s' hI hx hr hok
      exact ⟨g', c', hcommits, hinv, hguar, x, hc⟩
  | loop body i k ihbody ih =>
      choose I R hstart hbody hk using h
      refine ⟨fun i s g c => ∃ x, I x i s g c, fun b s g c => ∃ x, R x b s g c, ?_, fun i => ?_,
        fun b => ?_⟩
      · rintro s g c hI ⟨x, hx⟩
        exact ⟨x, hstart x s g c hI hx⟩
      · refine ⟨hstable fun x => (hbody x i).1, ihbody i fun x => ?_⟩
        refine ((hbody x i).2).mono fun r s g c _ hr => ?_
        cases r with
        | inl i' => exact ⟨x, hr⟩
        | inr b => exact ⟨x, hr⟩
      · exact ⟨hstable fun x => (hk x b).1, ih b fun x => (hk x b).2⟩

/-- A fact that the assertion implies can be used for the whole text. -/
theorem knowing {φ : Prop} {p : Prog E β} {Q : β → P.Assertion o}
    (hA : ∀ s g c, P.Inv s g → A s g c → φ) (h : φ → P.Outline t o p A Q) :
    P.Outline t o p A Q :=
  fix (B := fun (_ : φ) => A) (fun s g c hI hAs => ⟨hA s g c hI hAs, hAs⟩) h

/-- A fact that is a part of the assertion can be used for the whole text. -/
theorem assuming {φ : Prop} {p : Prog E β} {Q : β → P.Assertion o} (h : φ → P.Outline t o p A Q) :
    P.Outline t o p (fun s g c => φ ∧ A s g c) Q :=
  knowing (fun _ _ _ _ hA => hA.1) fun hφ => (h hφ).weaken fun _ _ _ _ hA => hA.2

/-- Entering a loop for one more round. -/
theorem unfold {body : σ → Prog E (σ ⊕ β)} {i : σ} {k : β → Prog E α} {Q : α → P.Assertion o}
    (h : P.Outline t o (.loop body i k) A Q) : P.Outline t o (Prog.unfold body i k) A Q := by
  obtain ⟨I, R, hstart, hbody, hk⟩ := h
  refine ((hbody i).2.weaken hstart).bind fun r => ?_
  cases r with
  | inl i' => exact ⟨I, R, fun _ _ _ _ hi => hi, hbody, hk⟩
  | inr b => exact (hk b).2

end Protocol.Outline

/-! ### Soundness -/

namespace Protocol

variable (P : Protocol E F S L G V) (impl : (o : F.Op) → Prog E (F.Res o)) (Idle : ℕ → S → G → Prop)

/-- The text of every operation has an outline, from and to a point where the task is idle, that
ends committed to the answer it returns. -/
structure Implements : Prop where
  /-- Nobody else makes a task busy. -/
  stable : ∀ t u, u ≠ t → ∀ s g s' g', P.Inv s g → P.Inv s' g' → P.Guar u s g s' g' → Idle t s g →
    Idle t s' g'
  /-- The outlines. -/
  outline : ∀ t o, P.Outline t o (impl o) (fun s g c => c = none ∧ Idle t s g) fun r s g c =>
    c = some r ∧ Idle t s g

/-- What the task `t` has left to do, `p`, and what its client has left to do over the abstract
state, `q`: the task is between two operations, or inside one, which has been committed or not. -/
def Tracks (t : ℕ) (s : S) (g : G) (p : Prog E α) (q : Prog F α) : Prop :=
  Idle t s g ∧ p = q.link impl ∨
    ∃ (o : F.Op) (k : F.Res o → Prog F α) (p' : Prog E (F.Res o)) (A : P.Assertion o)
      (c : Option (F.Res o)), P.Stable t A ∧
        P.Outline t o p' A (fun r s g c => c = some r ∧ Idle t s g) ∧ A s g c ∧
        (∃ u, Runs (impl o) u p') ∧ p = p'.bind (fun r => (k r).link impl) ∧
        q = c.elim (.call o k) k

end Protocol

namespace Protocol.Tracks

variable {P : Protocol E F S L G V} {impl : (o : F.Op) → Prog E (F.Res o)} {Idle : ℕ → S → G → Prop}
  {t : ℕ} {s s' : S} {g g' : G} {p : Prog E α} {q : Prog F α}

/-- What another task does keeps a task where it is. -/
theorem other (himpl : P.Implements impl Idle) {u : ℕ} (hu : u ≠ t) (hI : P.Inv s g)
    (hI' : P.Inv s' g') (hg : P.Guar u s g s' g') (h : P.Tracks impl Idle t s g p q) :
    P.Tracks impl Idle t s' g' p q := by
  rcases h with ⟨hidle, hp⟩ | ⟨o, k, p', A, c, hA, hout, hAs, hruns, hp, hq⟩
  · exact .inl ⟨himpl.stable t u hu s g s' g' hI hI' hg hidle, hp⟩
  · exact .inr ⟨o, k, p', A, c, hA, hout, hA u hu s g s' g' c hI hI' hg hAs, hruns, hp, hq⟩

/-- An operation does not end before it has begun. -/
theorem not_pure (himpl : P.Implements impl Idle) (hI : P.Inv s g) (hidle : Idle t s g) {o : F.Op}
    {r : F.Res o} : impl o ≠ .pure r := by
  intro hpure
  have hout := himpl.outline t o
  rw [hpure] at hout
  obtain ⟨hno, -⟩ := hout s g none hI ⟨rfl, hidle⟩
  cases hno

/-- A task that has returned has tracked a client that has returned the same. -/
theorem returned (himpl : P.Implements impl Idle) (hI : P.Inv s g) {a : α}
    (h : P.Tracks impl Idle t s g (.pure a) q) : q = .pure a := by
  have hbetween : ∀ q : Prog F α, Idle t s g → .pure a = q.link impl → q = .pure a := by
    intro q hidle hp
    cases q with
    | pure b => cases hp; rfl
    | call o k =>
        obtain ⟨r, hr, -⟩ := bind_eq_pure hp.symm
        exact absurd hr (not_pure himpl hI hidle)
    | loop body i k => cases hp
  rcases h with ⟨hidle, hp⟩ | ⟨o, k, p', A, c, -, hout, hAs, -, hp, rfl⟩
  · exact hbetween q hidle hp
  · obtain ⟨r, rfl, hr⟩ := bind_eq_pure hp.symm
    obtain ⟨rfl, hidle⟩ := hout s g c hI hAs
    exact hbetween (k r) hidle hr.symm

/-- A task that has returned is idle. -/
theorem idle (hI : P.Inv s g) {a : α} (h : P.Tracks impl Idle t s g (.pure a) q) : Idle t s g := by
  rcases h with ⟨hidle, -⟩ | ⟨o, k, p', A, c, -, hout, hAs, -, hp, -⟩
  · exact hidle
  · obtain ⟨r, rfl, -⟩ := bind_eq_pure hp.symm
    exact (hout s g c hI hAs).2

/-- A task that is about to issue an operation is inside one of its client. -/
theorem issuing (himpl : P.Implements impl Idle) (hI : P.Inv s g) {e : E.Op}
    {k₀ : E.Res e → Prog E α} (h : P.Tracks impl Idle t s g (.call e k₀) q) :
    ∃ (o : F.Op) (k : F.Res o → Prog F α) (k' : E.Res e → Prog E (F.Res o)) (A : P.Assertion o)
      (c : Option (F.Res o)),
        P.Outline t o (.call e k') A (fun r s g c => c = some r ∧ Idle t s g) ∧ A s g c ∧
        (∃ u, Runs (impl o) u (.call e k')) ∧
        (k₀ = fun r => (k' r).bind fun r => (k r).link impl) ∧ q = c.elim (.call o k) k := by
  have hbetween : ∀ q : Prog F α, Idle t s g → .call e k₀ = q.link impl →
      ∃ (o : F.Op) (k : F.Res o → Prog F α) (k' : E.Res e → Prog E (F.Res o)) (A : P.Assertion o)
        (c : Option (F.Res o)),
          P.Outline t o (.call e k') A (fun r s g c => c = some r ∧ Idle t s g) ∧ A s g c ∧
          (∃ u, Runs (impl o) u (.call e k')) ∧
          (k₀ = fun r => (k' r).bind fun r => (k r).link impl) ∧ q = c.elim (.call o k) k := by
    intro q hidle hp
    cases q with
    | pure b => cases hp
    | call o k =>
        rcases bind_eq_call hp.symm with ⟨r, hr, -⟩ | ⟨k', hk', hk₀⟩
        · exact absurd hr (not_pure himpl hI hidle)
        · exact ⟨o, k, k', _, none, hk' ▸ himpl.outline t o, ⟨rfl, hidle⟩,
            ⟨[], hk' ▸ .refl _⟩, hk₀, rfl⟩
    | loop body i k => cases hp
  rcases h with ⟨hidle, hp⟩ | ⟨o, k, p', A, c, -, hout, hAs, hruns, hp, rfl⟩
  · exact hbetween q hidle hp
  · rcases bind_eq_call hp.symm with ⟨r, rfl, hr⟩ | ⟨k', rfl, hk₀⟩
    -- the operation has ended, and the client is about to issue its next one
    · obtain ⟨rfl, hidle⟩ := hout s g c hI hAs
      exact hbetween (k r) hidle hr.symm
    · exact ⟨o, k, k', A, c, hout, hAs, hruns, hk₀, rfl⟩

/-- A task that enters a loop enters one of its client, or one inside an operation. -/
theorem looping (himpl : P.Implements impl Idle) (hI : P.Inv s g) {body : σ → Prog E (σ ⊕ β)} {i : σ}
    {k₀ : β → Prog E α} (h : P.Tracks impl Idle t s g (.loop body i k₀) q) :
    P.Tracks impl Idle t s g (Prog.unfold body i k₀) q ∨
      ∃ (body' : σ → Prog F (σ ⊕ β)) (k : β → Prog F α), q = .loop body' i k ∧
        P.Tracks impl Idle t s g (Prog.unfold body i k₀) (Prog.unfold body' i k) := by
  have hbetween : ∀ q : Prog F α, Idle t s g → .loop body i k₀ = q.link impl →
      P.Tracks impl Idle t s g (Prog.unfold body i k₀) q ∨
        ∃ (body' : σ → Prog F (σ ⊕ β)) (k : β → Prog F α), q = .loop body' i k ∧
          P.Tracks impl Idle t s g (Prog.unfold body i k₀) (Prog.unfold body' i k) := by
    intro q hidle hp
    cases q with
    | pure b => cases hp
    | call o k =>
        rcases bind_eq_loop hp.symm with ⟨r, hr, -⟩ | ⟨k', hk', hk₀⟩
        · exact absurd hr (not_pure himpl hI hidle)
        · refine .inl (.inr ⟨o, k, Prog.unfold body i k', _, none, ?_,
            (hk' ▸ himpl.outline t o).unfold, ⟨rfl, hidle⟩, ⟨[], ?_⟩, ?_, rfl⟩)
          · rintro u hu s g s' g' c hI hI' hg ⟨hc, hidle⟩
            exact ⟨hc, himpl.stable t u hu s g s' g' hI hI' hg hidle⟩
          · rw [hk']
            exact .loop (.refl _)
          · rw [hk₀, unfold_bind]
    | loop body' i' k =>
        cases hp
        exact .inr ⟨body', k, rfl, .inl ⟨hidle, (link_unfold body' i k).symm⟩⟩
  rcases h with ⟨hidle, hp⟩ | ⟨o, k, p', A, c, hA, hout, hAs, ⟨u, hruns⟩, hp, rfl⟩
  · exact hbetween q hidle hp
  · rcases bind_eq_loop hp.symm with ⟨r, rfl, hr⟩ | ⟨k', rfl, hk₀⟩
    · obtain ⟨rfl, hidle⟩ := hout s g c hI hAs
      exact hbetween (k r) hidle hr.symm
    · have hentered := hruns.trans (.loop (.refl _))
      exact .inl (.inr ⟨o, k, _, A, c, hA, hout.unfold, hAs, ⟨_, hentered⟩,
        by rw [hk₀, unfold_bind], rfl⟩)

end Protocol.Tracks

/-- What can be seen of a run, act by act, and the task whose act it is. -/
def sight (f : Event E → Option V) (τ : List (Act E S)) : List (ℕ × V) :=
  τ.filterMap fun a => (f a.event).map fun v => (a.task, v)

theorem sight_append (f : Event E → Option V) (τ υ : List (Act E S)) :
    sight f (τ ++ υ) = sight f τ ++ sight f υ := List.filterMap_append

theorem sight_singleton (f : Event E → Option V) (a : Act E S) :
    sight f [a] = ((f a.event).map fun v => (a.task, v)).toList := by
  rw [sight, List.filterMap_cons]
  cases f a.event <;> rfl

/-- The pool `p` of clients over the code of their operations, and the pool `p'` of the same clients
over the abstract state. -/
structure Protocol.Coupled (P : Protocol E F S L G V) (impl : (o : F.Op) → Prog E (F.Res o))
    (Idle : ℕ → S → G → Prop) (p : Pool E S α) (p' : Pool F L α) (g : G) : Prop where
  /-- The invariant holds. -/
  inv : P.Inv p.shared g
  /-- The abstract states are the same. -/
  view : p'.shared = P.view g
  /-- Each task tracks its client. -/
  tracks : ∀ t, P.Tracks impl Idle t p.shared g (p.task t).prog (p'.task t).prog

namespace Protocol

variable {P : Protocol E F S L G V} {impl : (o : F.Op) → Prog E (F.Res o)} {Idle : ℕ → S → G → Prop}
  {clients : ℕ → Prog F α} {p q : Pool E S α} {p' : Pool F L α} {g : G} {τ : List (Act E S)}

/-- Pools in which no task has begun. -/
theorem coupled_init {s : S} (hI : P.Inv s g) (hidle : ∀ t, Idle t s g) :
    P.Coupled impl Idle ((P.linked impl clients).init s) ((P.atomic clients).init (P.view g)) g where
  inv := hI
  view := rfl
  tracks t := .inl ⟨hidle t, rfl⟩

/-- **The step lemma.** A step of a task is no step of its client, or the whole operation, and as
much is seen of it. -/
theorem Coupled.act (himpl : P.Implements impl Idle) (h : P.Coupled impl Idle p p' g) {t : ℕ}
    {e : E.Op} {k : E.Res e → Prog E α} {r : E.Res e} {s' : S} (ht : (p.task t).prog = .call e k)
    (hr : P.sem t e p.shared r s') (hok : P.permits t ⟨e, r⟩ p.shared) :
    ∃ τ' q' g', Steps (P.atomic clients) p' τ' q' ∧
      sight P.outcome τ' = ((P.visible ⟨e, r⟩).map fun v => (t, v)).toList ∧ P.Coupled impl Idle
        (Pool.setTask { p with shared := s' } t ⟨(p.task t).hist ++ [⟨e, r⟩], k r⟩) q' g' := by
  have htracks := h.tracks t
  rw [ht] at htracks
  obtain ⟨o, k₁, k', A, c, hout, hAs, ⟨u, hruns⟩, rfl, hq⟩ := htracks.issuing himpl h.inv
  obtain ⟨B, hB, hgoes, hrest⟩ := hout.2 r
  obtain ⟨g', c', hcommits, hinv, hguar, hBs⟩ := hgoes _ g c s' h.inv hAs hr hok
  -- the task itself goes on inside the operation, the others stay where they are
  have hself : P.Tracks impl Idle t s' g' ((k' r).bind fun r => (k₁ r).link impl)
      (c'.elim (.call o k₁) k₁) := .inr ⟨o, k₁, k' r, B, c', hB, hrest, hBs,
        ⟨_, hruns.trans (.call r (.refl _))⟩, rfl, rfl⟩
  have hothers : ∀ u, u ≠ t → P.Tracks impl Idle u s' g' (p.task u).prog (p'.task u).prog :=
    fun u hu => (h.tracks u).other himpl (Ne.symm hu) h.inv hinv hguar
  rcases hcommits with ⟨rfl, hview, hvisible⟩ | ⟨r', rfl, rfl, hspec, hvisible⟩
  · refine ⟨[], p', g', .refl p', by rw [hvisible]; rfl, hinv, h.view.trans hview.symm, fun u => ?_⟩
    by_cases hu : u = t
    · subst hu
      rw [Pool.setTask_task_self, hq]
      exact hself
    · rw [Pool.setTask_task_of_ne hu]
      exact hothers u hu
  -- the step commits the operation
  · rw [Option.elim_none] at hq
    have hans : (P.atomic clients).answers t (p'.task t).hist o p'.shared r' (P.view g') := by
      rw [h.view]
      exact hspec
    refine ⟨_, _, g', .act t (.refl p') hq hans, ?_, hinv, rfl, fun u => ?_⟩
    · rw [List.nil_append, sight_singleton, hvisible]
    by_cases hu : u = t
    · subst hu
      rw [Pool.setTask_task_self, Pool.setTask_task_self]
      exact hself
    · rw [Pool.setTask_task_of_ne hu, Pool.setTask_task_of_ne hu]
      exact hothers u hu

/-- **Refinement.** Whatever the clients do over the code of their operations, they also do over the
abstract state, each operation at once, and the same is seen of them in the same order. -/
theorem Coupled.refines (himpl : P.Implements impl Idle) (h : P.Coupled impl Idle p p' g)
    (hrun : Steps (P.linked impl clients) p τ q) (hτ : ∀ a ∈ τ, P.permits a.task a.event a.before) :
    ∃ τ' q' g', Steps (P.atomic clients) p' τ' q' ∧ sight P.outcome τ' = sight P.visible τ ∧
      P.Coupled impl Idle q q' g' := by
  induction hrun with
  | refl => exact ⟨[], p', g, .refl p', rfl, h⟩
  | @act q τ t e k r s' hrun ht hr ih =>
      obtain ⟨τ₁, q₁, g₁, hsteps, hsight, hcoupled⟩ := ih fun a ha =>
        hτ a (List.mem_append_left _ ha)
      obtain ⟨τ₂, q₂, g₂, hsteps', hsight', hcoupled'⟩ := hcoupled.act himpl ht hr
        (hτ _ List.mem_concat_self)
      refine ⟨τ₁ ++ τ₂, q₂, g₂, hsteps.trans hsteps', ?_, hcoupled'⟩
      rw [sight_append, sight_append, hsight, hsight', sight_singleton]
  | @loop q τ t σ β body s k hrun ht ih =>
      obtain ⟨τ₁, q₁, g₁, hsteps, hsight, hcoupled⟩ := ih hτ
      have htracks := hcoupled.tracks t
      rw [ht] at htracks
      rcases htracks.looping himpl hcoupled.inv with hstay | ⟨body', k', hq, hloop⟩
      -- a loop inside an operation
      · refine ⟨τ₁, q₁, g₁, hsteps, hsight, hcoupled.inv, hcoupled.view, fun u => ?_⟩
        by_cases hu : u = t
        · subst hu
          rw [Pool.setTask_task_self]
          exact hstay
        · rw [Pool.setTask_task_of_ne hu]
          exact hcoupled.tracks u
      -- a loop of the client
      · refine ⟨τ₁, _, g₁, .loop t hsteps hq, hsight, hcoupled.inv, hcoupled.view, fun u => ?_⟩
        by_cases hu : u = t
        · subst hu
          rw [Pool.setTask_task_self, Pool.setTask_task_self]
          exact hloop
        · rw [Pool.setTask_task_of_ne hu, Pool.setTask_task_of_ne hu]
          exact hcoupled.tracks u

/-- No task has come to an operation that faults. -/
theorem Coupled.not_faults (himpl : P.Implements impl Idle) (h : P.Coupled impl Idle p p' g) {t : ℕ}
    {e : E.Op} {k : E.Res e → Prog E α} (ht : (p.task t).prog = .call e k) :
    ¬P.faults t e p.shared := by
  have htracks := h.tracks t
  rw [ht] at htracks
  obtain ⟨o, k₁, k', A, c, hout, hAs, -, -, -⟩ := htracks.issuing himpl h.inv
  exact hout.1 _ g c h.inv hAs

/-- A task that has returned returns what its client returns over the abstract state. -/
theorem Coupled.returned (himpl : P.Implements impl Idle) (h : P.Coupled impl Idle p p' g) {t : ℕ}
    {a : α} (ht : (p.task t).prog = .pure a) : (p'.task t).prog = .pure a := by
  have htracks := h.tracks t
  rw [ht] at htracks
  exact htracks.returned himpl h.inv

/-- A task that has returned is idle. -/
theorem Coupled.idle (h : P.Coupled impl Idle p p' g) {t : ℕ} {a : α}
    (ht : (p.task t).prog = .pure a) : Idle t p.shared g := by
  have htracks := h.tracks t
  rw [ht] at htracks
  exact htracks.idle h.inv

end Protocol

end Effects

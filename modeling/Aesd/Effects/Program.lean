import Mathlib.Data.List.Basic

/-! # Effectful programs with unbounded loops

A `Prog E α` is a program text: it ends with a value, issues an operation of the interface `E` and
continues with the answer, or repeats a loop body until the body leaves the loop. The text carries
no meaning of the operations. Three readings are given here and in the modules above it:

* **`Runs p t q`** — the answers are arbitrary: `p` can issue the operations of the trace `t` with
  the answers recorded there and has `q` left to do. A complete run is `Runs p t (.pure a)`.
* **`run h stop fuel p s`** — the answers come from a deterministic handler `h` over a state, which
  may also stop the program with an error; `fuel` bounds the rounds of each loop.
* the interleaved reading of a pool of programs, in `Effects.Pool`. -/

namespace Effects

/-- An interface: the operations a program may issue and the type of each one's answer. -/
structure Interface where
  /-- The operations. -/
  Op : Type
  /-- The answer an operation returns. -/
  Res : Op → Type

/-- One issued operation together with the answer it got. -/
structure Event (E : Interface) where
  /-- The operation issued. -/
  op : E.Op
  /-- Its answer. -/
  res : E.Res op

/-- Program texts over the interface `E` returning a value of type `α`. -/
inductive Prog (E : Interface) : Type → Type 1 where
  /-- Return a value. -/
  | pure {α : Type} (a : α) : Prog E α
  /-- Issue an operation and continue with its answer. -/
  | call {α : Type} (o : E.Op) (k : E.Res o → Prog E α) : Prog E α
  /-- Run `body` from `s`; on `inl s'` repeat from `s'`, on `inr b` leave the loop with `b`. -/
  | loop {α σ β : Type} (body : σ → Prog E (σ ⊕ β)) (s : σ) (k : β → Prog E α) : Prog E α

namespace Prog

variable {E : Interface} {α β γ σ : Type}

/-- Sequential composition. -/
def bind : {α : Type} → Prog E α → (α → Prog E β) → Prog E β
  | _, .pure a, f => f a
  | _, .call o k, f => .call o fun r => bind (k r) f
  | _, .loop body s k, f => .loop body s fun b => bind (k b) f

instance : Monad (Prog E) where
  pure := .pure
  bind := bind

/-- Repeat `body` from `s` until it leaves the loop. -/
def iterate (body : σ → Prog E (σ ⊕ β)) (s : σ) : Prog E β := .loop body s .pure

@[simp] theorem pure_eq (a : α) : (Pure.pure a : Prog E α) = .pure a := rfl

@[simp] theorem bind_eq (p : Prog E α) (f : α → Prog E β) : (p >>= f) = p.bind f := rfl

@[simp] theorem pure_bind (a : α) (f : α → Prog E β) : (Prog.pure a).bind f = f a := by
  rw [bind]

@[simp] theorem call_bind (o : E.Op) (k : E.Res o → Prog E α) (f : α → Prog E β) :
    (Prog.call o k).bind f = .call o fun r => (k r).bind f := by
  rw [bind]

@[simp] theorem loop_bind {σ γ : Type} (body : σ → Prog E (σ ⊕ γ)) (s : σ) (k : γ → Prog E α)
    (f : α → Prog E β) : (Prog.loop body s k).bind f = .loop body s fun b => (k b).bind f := by
  rw [bind]

/-- Sequential composition is associative. -/
theorem bind_assoc (p : Prog E α) (f : α → Prog E β) (g : β → Prog E γ) :
    (p.bind f).bind g = p.bind fun a => (f a).bind g := by
  induction p with
  | pure a => rfl
  | call o k ih => exact congrArg _ (funext fun r => ih r f)
  | loop body s k _ ih => exact congrArg _ (funext fun b => ih b f)

/-- A loop written out for one round. -/
def unfold (body : σ → Prog E (σ ⊕ β)) (s : σ) (k : β → Prog E α) : Prog E α :=
  (body s).bind (Sum.elim (fun s' => .loop body s' k) k)

/-- Composing after a loop is composing after its unfolding. -/
theorem unfold_bind (body : σ → Prog E (σ ⊕ β)) (s : σ) (k : β → Prog E α) (f : α → Prog E γ) :
    (unfold body s k).bind f = unfold body s fun b => (k b).bind f := by
  rw [unfold, unfold, bind_assoc]
  congr 1
  funext r
  cases r <;> rfl

end Prog

open Prog

variable {E : Interface} {α β σ : Type}

/-! ## Runs under arbitrary answers -/

/-- `Runs p t q`: issuing the operations of `t` with the answers recorded there, `p` comes to the
point where `q` is left to do. -/
inductive Runs : {α : Type} → Prog E α → List (Event E) → Prog E α → Prop where
  /-- Nothing has been done yet. -/
  | refl {α : Type} (p : Prog E α) : Runs p [] p
  /-- An operation is issued and answered. -/
  | call {α : Type} {o : E.Op} {k : E.Res o → Prog E α} (r : E.Res o) {t : List (Event E)}
      {q : Prog E α} (h : Runs (k r) t q) : Runs (.call o k) (⟨o, r⟩ :: t) q
  /-- A loop is entered for one more round. -/
  | loop {α σ β : Type} {body : σ → Prog E (σ ⊕ β)} {s : σ} {k : β → Prog E α}
      {t : List (Event E)} {q : Prog E α} (h : Runs (unfold body s k) t q) :
      Runs (.loop body s k) t q

/-- Runs compose. -/
theorem Runs.trans {p q r : Prog E α} {t u : List (Event E)} (h : Runs p t q) (h' : Runs q u r) :
    Runs p (t ++ u) r := by
  induction h with
  | refl p => exact h'
  | call a _ ih => exact .call a (ih h')
  | loop _ ih => exact .loop (ih h')

/-- A run can be interrupted anywhere. -/
theorem Runs.split {p r : Prog E α} {t u : List (Event E)} (h : Runs p (t ++ u) r) :
    ∃ q, Runs p t q ∧ Runs q u r := by
  generalize hv : t ++ u = v at h
  induction h generalizing t with
  | refl p =>
      obtain ⟨rfl, rfl⟩ := List.append_eq_nil_iff.mp hv
      exact ⟨p, .refl p, .refl p⟩
  | @call o k a v r h ih =>
      cases t with
      | nil =>
          rw [List.nil_append] at hv
          exact ⟨_, .refl _, hv ▸ h.call a⟩
      | cons e t =>
          rw [List.cons_append, List.cons.injEq] at hv
          obtain ⟨rfl, hv⟩ := hv
          obtain ⟨q, hq, hr⟩ := ih hv
          exact ⟨q, .call a hq, hr⟩
  | loop _ ih =>
      obtain ⟨q, hq, hr⟩ := ih hv
      exact ⟨q, .loop hq, hr⟩

/-- A run can be interrupted right before an operation. -/
theorem Runs.before {p r : Prog E α} {t u : List (Event E)} {e : Event E}
    (h : Runs p (t ++ e :: u) r) : ∃ k, Runs p t (.call e.op k) ∧ Runs (k e.res) u r := by
  obtain ⟨q, ht, hu⟩ := h.split
  suffices hhead : ∃ k, Runs q [] (.call e.op k) ∧ Runs (k e.res) u r by
    obtain ⟨k, hk, hr⟩ := hhead
    exact ⟨k, by simpa using ht.trans hk, hr⟩
  -- the loops in front of the operation are entered first
  generalize hv : e :: u = v at hu
  clear ht h
  induction hu with
  | refl => cases hv
  | call a h =>
      cases hv
      exact ⟨_, .refl _, h⟩
  | loop _ ih =>
      obtain ⟨k, hk, hr⟩ := ih hv
      exact ⟨k, .loop hk, hr⟩

/-- A run of `p` is a run of `p` followed by anything. -/
theorem Runs.bind {p q : Prog E α} {t : List (Event E)} (h : Runs p t q) (f : α → Prog E β) :
    Runs (p.bind f) t (q.bind f) := by
  induction h with
  | refl p => exact .refl _
  | call a _ ih => exact .call a ih
  | loop _ ih => exact .loop (unfold_bind _ _ _ f ▸ ih)

/-- A complete run of `p` followed by a run of what comes next. -/
theorem Runs.seq {p : Prog E α} {f : α → Prog E β} {a : α} {t u : List (Event E)} {q : Prog E β}
    (h : Runs p t (.pure a)) (h' : Runs (f a) u q) : Runs (p.bind f) (t ++ u) q :=
  (h.bind f).trans h'

/-- One more round of a loop, then the rest of it. -/
theorem Runs.again {body : σ → Prog E (σ ⊕ β)} {s s' : σ} {k : β → Prog E α}
    {t u : List (Event E)} {q : Prog E α} (h : Runs (body s) t (.pure (.inl s')))
    (h' : Runs (.loop body s' k) u q) : Runs (.loop body s k) (t ++ u) q :=
  .loop (h.seq h')

/-- The last round of a loop, then what comes after it. -/
theorem Runs.leave {body : σ → Prog E (σ ⊕ β)} {s : σ} {b : β} {k : β → Prog E α}
    {t u : List (Event E)} {q : Prog E α} (h : Runs (body s) t (.pure (.inr b)))
    (h' : Runs (k b) u q) : Runs (.loop body s k) (t ++ u) q :=
  .loop (h.seq h')

/-! ## Running against a deterministic handler -/

/-- Repeat a state-transforming round until it leaves the loop, at most `fuel` times. -/
def rounds {S ε : Type} (stop : ε) (round : σ → S → Except ε ((σ ⊕ β) × S)) :
    ℕ → σ → S → Except ε (β × S)
  | 0, _, _ => .error stop
  | fuel + 1, s, w =>
      match round s w with
      | .error e => .error e
      | .ok (.inl s', w') => rounds stop round fuel s' w'
      | .ok (.inr b, w') => .ok (b, w')

/-- Run a program against the handler `h`. A loop that has not been left after `fuel` rounds ends
the run with `stop`. -/
def run {S ε : Type} (h : (o : E.Op) → S → Except ε (E.Res o × S)) (stop : ε) (fuel : ℕ) :
    {α : Type} → Prog E α → S → Except ε (α × S)
  | _, .pure a, w => .ok (a, w)
  | _, .call o k, w =>
      match h o w with
      | .error e => .error e
      | .ok (r, w') => run h stop fuel (k r) w'
  | _, .loop body s k, w =>
      match rounds stop (fun s' => run h stop fuel (body s')) fuel s w with
      | .error e => .error e
      | .ok (b, w') => run h stop fuel (k b) w'

section Run

variable {S ε : Type} {h : (o : E.Op) → S → Except ε (E.Res o × S)} {stop : ε} {fuel : ℕ} {w w' : S}

@[simp] theorem run_pure (a : α) : run h stop fuel (.pure a) w = .ok (a, w) := rfl

/-- An answered operation, then the rest. -/
theorem run_call {o : E.Op} {r : E.Res o} (k : E.Res o → Prog E α) (ho : h o w = .ok (r, w')) :
    run h stop fuel (.call o k) w = run h stop fuel (k r) w' := by
  rw [run, ho]

/-- A stopping operation stops the program. -/
theorem run_call_error {o : E.Op} {e : ε} (k : E.Res o → Prog E α) (ho : h o w = .error e) :
    run h stop fuel (.call o k) w = .error e := by
  rw [run, ho]

/-- A loop that has been left, then the rest. -/
theorem run_loop {body : σ → Prog E (σ ⊕ β)} {s : σ} {b : β} (k : β → Prog E α)
    (hb : rounds stop (fun s => run h stop fuel (body s)) fuel s w = .ok (b, w')) :
    run h stop fuel (.loop body s k) w = run h stop fuel (k b) w' := by
  rw [run, hb]

/-- A loop that stopped stops the program. -/
theorem run_loop_error {body : σ → Prog E (σ ⊕ β)} {s : σ} {e : ε} (k : β → Prog E α)
    (hb : rounds stop (fun s => run h stop fuel (body s)) fuel s w = .error e) :
    run h stop fuel (.loop body s k) w = .error e := by
  rw [run, hb]

/-- A program that returned, then the rest. -/
theorem run_bind {p : Prog E α} {a : α} (f : α → Prog E β)
    (hp : run h stop fuel p w = .ok (a, w')) :
    run h stop fuel (p.bind f) w = run h stop fuel (f a) w' := by
  induction p generalizing w with
  | pure b =>
      rw [run_pure, Except.ok.injEq, Prod.mk.injEq] at hp
      obtain ⟨rfl, rfl⟩ := hp
      rfl
  | call o k ih =>
      rw [call_bind]
      cases ho : h o w with
      | error e => rw [run_call_error k ho] at hp; cases hp
      | ok rw' =>
          rw [run_call k ho] at hp
          rw [run_call _ ho]
          exact ih _ f hp
  | loop body s k _ ih =>
      rw [loop_bind, run]
      rw [run] at hp
      split at hp
      · cases hp
      · exact ih _ f hp

/-- A program that stopped stops what comes next. -/
theorem run_bind_error {p : Prog E α} {e : ε} (f : α → Prog E β)
    (hp : run h stop fuel p w = .error e) : run h stop fuel (p.bind f) w = .error e := by
  induction p generalizing w with
  | pure b => rw [run_pure] at hp; cases hp
  | call o k ih =>
      rw [call_bind]
      cases ho : h o w with
      | error e' =>
          rw [run_call_error k ho, Except.error.injEq] at hp
          rw [run_call_error _ ho, hp]
      | ok rw' =>
          rw [run_call k ho] at hp
          rw [run_call _ ho]
          exact ih _ f hp
  | loop body s k _ ih =>
      rw [loop_bind, run]
      rw [run] at hp
      split at hp
      · rw [Except.error.injEq] at hp
        rw [hp]
      · exact ih _ f hp

/-! ### The run as one of the runs under arbitrary answers -/

/-- `Handles h w t w'`: from `w` the handler answers the operations of `t` as recorded, ending
in `w'`. -/
inductive Handles (h : (o : E.Op) → S → Except ε (E.Res o × S)) : S → List (Event E) → S → Prop where
  /-- Nothing is asked. -/
  | nil (w : S) : Handles h w [] w
  /-- One operation is answered. -/
  | cons {o : E.Op} {r : E.Res o} {t : List (Event E)} {w w₁ w' : S} (ho : h o w = .ok (r, w₁))
      (ht : Handles h w₁ t w') : Handles h w (⟨o, r⟩ :: t) w'

theorem Handles.append {w₁ : S} {t u : List (Event E)} (ht : Handles h w t w₁)
    (hu : Handles h w₁ u w') : Handles h w (t ++ u) w' := by
  induction ht with
  | nil => exact hu
  | cons ho _ ih => exact .cons ho (ih hu)

/-- What no operation of a trace changes is not changed by the trace. -/
theorem Handles.invariant {I : S → Prop} {t : List (Event E)} (ht : Handles h w t w')
    (hI : ∀ e ∈ t, ∀ w w₁, h e.op w = .ok (e.res, w₁) → I w → I w₁) (hw : I w) : I w' := by
  induction ht with
  | nil => exact hw
  | cons ho _ ih =>
      refine ih (fun e he => hI e (List.mem_cons_of_mem _ he)) ?_
      exact hI _ List.mem_cons_self _ _ ho hw

/-- The rounds of a loop that has been left are a run of the loop up to its exit. -/
theorem runs_of_rounds {body : σ → Prog E (σ ⊕ β)} {k : β → Prog E α}
    (hbody : ∀ s w r w', run h stop fuel (body s) w = .ok (r, w') →
      ∃ t, Runs (body s) t (.pure r) ∧ Handles h w t w')
    {n : ℕ} {s : σ} {b : β}
    (hr : rounds stop (fun s => run h stop fuel (body s)) n s w = .ok (b, w')) :
    ∃ t, (∀ {u q}, Runs (k b) u q → Runs (.loop body s k) (t ++ u) q) ∧ Handles h w t w' := by
  induction n generalizing s w with
  | zero => cases hr
  | succ n ih =>
      rw [rounds] at hr
      cases hround : run h stop fuel (body s) w with
      | error e =>
          rw [hround] at hr
          cases hr
      | ok q =>
          obtain ⟨r, w₁⟩ := q
          obtain ⟨t, hruns, hhandles⟩ := hbody s w r w₁ hround
          rw [hround] at hr
          cases r with
          | inl s' =>
              obtain ⟨u, hu, hhandles'⟩ := ih hr
              refine ⟨t ++ u, fun hk => ?_, hhandles.append hhandles'⟩
              rw [List.append_assoc]
              exact hruns.again (hu hk)
          | inr b' =>
              rw [Except.ok.injEq, Prod.mk.injEq] at hr
              obtain ⟨rfl, rfl⟩ := hr
              exact ⟨t, fun hk => hruns.leave hk, hhandles⟩

/-- A run against the handler that returned is a complete run with the handler's answers. -/
theorem runs_of_run {p : Prog E α} {a : α} {w w' : S} (hp : run h stop fuel p w = .ok (a, w')) :
    ∃ t, Runs p t (.pure a) ∧ Handles h w t w' := by
  induction p generalizing w w' with
  | pure b =>
      rw [run_pure, Except.ok.injEq, Prod.mk.injEq] at hp
      obtain ⟨rfl, rfl⟩ := hp
      exact ⟨[], .refl _, .nil w⟩
  | call o k ih =>
      cases ho : h o w with
      | error e =>
          rw [run_call_error k ho] at hp
          cases hp
      | ok q =>
          obtain ⟨r, w₁⟩ := q
          rw [run_call k ho] at hp
          obtain ⟨t, hruns, hhandles⟩ := ih r hp
          exact ⟨⟨o, r⟩ :: t, .call r hruns, .cons ho hhandles⟩
  | loop body s k ihbody ih =>
      rw [run] at hp
      split at hp
      · cases hp
      · rename_i hrounds
        obtain ⟨t, hleave, hhandles⟩ := runs_of_rounds (k := k) (fun s w r w' h => ihbody s h) hrounds
        obtain ⟨u, hruns, hhandles'⟩ := ih _ hp
        exact ⟨t ++ u, hleave hruns, hhandles.append hhandles'⟩

end Run

end Effects

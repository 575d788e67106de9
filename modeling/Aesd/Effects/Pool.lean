import Aesd.Effects.Typestate
import Mathlib.Data.List.Induction
import Mathlib.Logic.Function.Basic

/-! # Interleaved programs over a shared state

A machine gives each task, by number, a program text and says which answers an operation may get in
a shared state. A `Pool` holds the shared state and what each task has done and has left to do. In
one step a task issues one operation, which is an `Act`, or enters a loop for one more round.
**`Steps M p τ q`** is a run of such steps in any order, with its acts `τ`.

What a task has done is a run of its text, whatever the others do. So a monitor that every text
follows on its own can be carried along by every task, and a property that links the tasks is an
invariant of the monitor states and the shared state (`Steps.monitored`): its proof looks at one act
at a time and at no program text. -/

namespace Effects

variable {E : Interface} {S Γ : Type} {α : Type}

/-- Programs over a shared state. -/
structure Machine (E : Interface) (S α : Type) where
  /-- What each task runs. -/
  text : ℕ → Prog E α
  /-- In the shared state `s` the operation `o` of the task `t`, which has issued `hist` so far, may
  be answered by `r`, which leaves the shared state `s'`. -/
  answers : (t : ℕ) → (hist : List (Event E)) → (o : E.Op) → (s : S) → (r : E.Res o) → (s' : S) → Prop

/-- A task. -/
structure Task (E : Interface) (α : Type) where
  /-- What it has issued, with the answers. -/
  hist : List (Event E)
  /-- What it has left to do. -/
  prog : Prog E α

/-- The shared state and the tasks, by number. -/
structure Pool (E : Interface) (S α : Type) where
  /-- The shared state. -/
  shared : S
  /-- The tasks. -/
  task : ℕ → Task E α

/-- An operation issued during a run. -/
structure Act (E : Interface) (S : Type) where
  /-- Who issued it. -/
  task : ℕ
  /-- What this task had issued before. -/
  hist : List (Event E)
  /-- The operation and its answer. -/
  event : Event E
  /-- The shared state before it. -/
  before : S
  /-- The shared state after it. -/
  after : S

/-- No task has begun. -/
def Machine.init (M : Machine E S α) (s : S) : Pool E S α := ⟨s, fun t => ⟨[], M.text t⟩⟩

/-- The same pool with another state of the task `t`. -/
def Pool.setTask (p : Pool E S α) (t : ℕ) (c : Task E α) : Pool E S α :=
  { p with task := Function.update p.task t c }

/-- Runs of the pool. -/
inductive Steps (M : Machine E S α) : Pool E S α → List (Act E S) → Pool E S α → Prop where
  /-- Nothing has happened yet. -/
  | refl (p : Pool E S α) : Steps M p [] p
  /-- A task issues an operation. -/
  | act {p q : Pool E S α} {τ : List (Act E S)} (t : ℕ) {o : E.Op} {k : E.Res o → Prog E α}
      {r : E.Res o} {s' : S} (h : Steps M p τ q) (ht : (q.task t).prog = .call o k)
      (hr : M.answers t (q.task t).hist o q.shared r s') :
      Steps M p (τ ++ [⟨t, (q.task t).hist, ⟨o, r⟩, q.shared, s'⟩])
        (Pool.setTask { q with shared := s' } t ⟨(q.task t).hist ++ [⟨o, r⟩], k r⟩)
  /-- A task enters a loop for one more round. -/
  | loop {p q : Pool E S α} {τ : List (Act E S)} (t : ℕ) {σ β : Type} {body : σ → Prog E (σ ⊕ β)}
      {s : σ} {k : β → Prog E α} (h : Steps M p τ q) (ht : (q.task t).prog = .loop body s k) :
      Steps M p τ (q.setTask t ⟨(q.task t).hist, Prog.unfold body s k⟩)

namespace Pool

variable {p : Pool E S α} {t u : ℕ} {c : Task E α}

@[simp] theorem setTask_shared : (p.setTask t c).shared = p.shared := rfl

@[simp] theorem setTask_task_self : (p.setTask t c).task t = c := Function.update_self _ _ _

theorem setTask_task_of_ne (h : u ≠ t) : (p.setTask t c).task u = p.task u :=
  Function.update_of_ne h _ _

/-- Only the last state of a task counts. -/
theorem setTask_setTask {c' : Task E α} {s : S} :
    Pool.setTask { p.setTask t c with shared := s } t c' = Pool.setTask { p with shared := s } t c' := by
  unfold Pool.setTask
  dsimp only
  rw [Function.update_idem]

end Pool

@[simp] theorem Machine.init_shared (M : Machine E S α) (s : S) : (M.init s).shared = s := rfl

@[simp] theorem Machine.init_task (M : Machine E S α) (s : S) (t : ℕ) :
    (M.init s).task t = ⟨[], M.text t⟩ := rfl

namespace Steps

variable {M : Machine E S α} {p q m : Pool E S α} {τ υ : List (Act E S)} {a : Act E S}

theorem trans (h : Steps M p τ m) (h' : Steps M m υ q) : Steps M p (τ ++ υ) q := by
  induction h' with
  | refl => rwa [List.append_nil]
  | act t _ ht hr ih =>
      rw [← List.append_assoc]
      exact .act t ih ht hr
  | loop t _ ht ih => exact .loop t ih ht

/-- The last act of a run: the task was about to issue it. -/
theorem last (h : Steps M p (τ ++ [a]) q) : ∃ m k, Steps M p τ m ∧
    m.shared = a.before ∧ (m.task a.task).hist = a.hist ∧
    (m.task a.task).prog = .call a.event.op k ∧
    M.answers a.task a.hist a.event.op a.before a.event.res a.after ∧
    Steps M (Pool.setTask { m with shared := a.after } a.task
      ⟨a.hist ++ [a.event], k a.event.res⟩) [] q := by
  generalize hυ : τ ++ [a] = υ at h
  induction h with
  | refl => simp at hυ
  | act t h ht hr _ =>
      obtain ⟨rfl, ha⟩ := List.append_inj' hυ rfl
      rw [List.singleton_inj] at ha
      subst ha
      exact ⟨_, _, h, rfl, rfl, ht, hr, .refl _⟩
  | loop t _ ht ih =>
      obtain ⟨m, k, hm, hs, hh, hp, hr, hq⟩ := ih hυ
      exact ⟨m, k, hm, hs, hh, hp, hr, .loop t hq ht⟩

/-- The next act of a task that has come to an operation. -/
theorem act_self {t : ℕ} {hist : List (Event E)} {o : E.Op} {k : E.Res o → Prog E α} {r : E.Res o}
    {s' : S} (h : Steps M p τ (q.setTask t ⟨hist, .call o k⟩))
    (hr : M.answers t hist o q.shared r s') :
    Steps M p (τ ++ [⟨t, hist, ⟨o, r⟩, q.shared, s'⟩])
      (Pool.setTask { q with shared := s' } t ⟨hist ++ [⟨o, r⟩], k r⟩) := by
  have hprog : ((q.setTask t ⟨hist, .call o k⟩).task t).prog = .call o k := by
    rw [Pool.setTask_task_self]
  have hans : M.answers t ((q.setTask t ⟨hist, .call o k⟩).task t).hist o q.shared r s' := by
    rw [Pool.setTask_task_self]
    exact hr
  have hact := Steps.act t h hprog hans
  rwa [Pool.setTask_task_self, Pool.setTask_shared, Pool.setTask_setTask] at hact

/-- A run goes through a pool between any two of its acts. -/
theorem split (h : Steps M p (τ ++ υ) q) : ∃ m, Steps M p τ m ∧ Steps M m υ q := by
  induction υ using List.reverseRecOn generalizing q with
  | nil => exact ⟨q, by rwa [List.append_nil] at h, .refl q⟩
  -- the last act is taken off, and put back behind what is left
  | append_singleton υ a ih =>
      rw [← List.append_assoc] at h
      obtain ⟨n, k, hn, hs, hh, hp, hr, hq⟩ := h.last
      obtain ⟨m, hm, hυ⟩ := ih hn
      obtain ⟨t, hist, e, before, after⟩ := a
      dsimp only at hs hh hp hr hq
      subst hs hh
      refine ⟨m, hm, ?_⟩
      have hact := Steps.act t hυ hp hr
      have htrans := hact.trans hq
      rwa [List.append_nil] at htrans

/-- Before an act its task has come to the operation. -/
theorem before_act (h : Steps M p τ q) (ha : a ∈ τ) : ∃ υ m k, υ <+: τ ∧ Steps M p υ m ∧
    m.shared = a.before ∧ (m.task a.task).hist = a.hist ∧
    (m.task a.task).prog = .call a.event.op k := by
  obtain ⟨υ, τ', rfl⟩ := List.append_of_mem ha
  have hprefix : υ <+: υ ++ a :: τ' := List.prefix_append _ _
  rw [List.append_cons] at h
  obtain ⟨n, hn, -⟩ := h.split
  obtain ⟨m, k, hm, hshared, hhist, hprog, -, -⟩ := hn.last
  exact ⟨υ, m, k, hprefix, hm, hshared, hhist, hprog⟩

/-- Every act has been answered by the machine. -/
theorem answered (h : Steps M p τ q) : ∀ a ∈ τ,
    M.answers a.task a.hist a.event.op a.before a.event.res a.after := by
  induction h with
  | refl => simp
  | act t _ _ hr ih =>
      intro a ha
      rcases List.mem_append.mp ha with ha | ha
      · exact ih a ha
      · obtain rfl := List.mem_singleton.mp ha
        exact hr
  | loop t _ _ ih => exact ih

/-- What a task has issued is a run of its text. -/
theorem runs {t : ℕ} {s : S} (h : Steps M (M.init s) τ q) :
    Runs (M.text t) (q.task t).hist (q.task t).prog := by
  generalize hp : M.init s = p at h
  induction h with
  | refl =>
      subst hp
      exact .refl _
  | @act q τ u o k r s' _ hu _ ih =>
      by_cases htu : t = u
      · subst htu
        rw [Pool.setTask_task_self]
        exact ih.trans (hu ▸ .call r (.refl _))
      · rw [Pool.setTask_task_of_ne htu]
        exact ih
  | @loop q τ u σ β body s k _ hu ih =>
      by_cases htu : t = u
      · subst htu
        rw [Pool.setTask_task_self]
        rw [hu] at ih
        have hrun := ih.trans (Runs.loop (.refl _))
        rwa [List.append_nil] at hrun
      · rw [Pool.setTask_task_of_ne htu]
        exact ih

/-- What a task has issued are its acts, in their order. -/
theorem hist_eq {t : ℕ} (h : Steps M p τ q) :
    (q.task t).hist = (p.task t).hist ++ (τ.filter fun a => a.task = t).map Act.event := by
  induction h with
  | refl => rw [List.filter_nil, List.map_nil, List.append_nil]
  | @act q τ u o k r s' _ _ _ ih =>
      rw [List.filter_append, List.map_append, ← List.append_assoc, ← ih]
      by_cases htu : t = u
      · subst htu
        rw [Pool.setTask_task_self]
        simp
      · rw [Pool.setTask_task_of_ne htu]
        simp [Ne.symm htu]
  | @loop q τ u σ β body s k _ _ ih =>
      by_cases htu : t = u
      · subst htu
        rw [Pool.setTask_task_self]
        exact ih
      · rw [Pool.setTask_task_of_ne htu]
        exact ih

/-- A task that takes no step stays at the operation that it has come to. -/
theorem stays {t : ℕ} {o : E.Op} {k : E.Res o → Prog E α} (h : Steps M p τ q)
    (ht : (p.task t).prog = .call o k) (hno : ∀ a ∈ τ, a.task = t → a.event.op ≠ o) :
    q.task t = p.task t := by
  induction h with
  | refl => rfl
  | @act q τ u o' k' r s' _ hu _ ih =>
      have hq := ih fun a ha => hno a (List.mem_append_left _ ha)
      by_cases htu : t = u
      · -- the act would be the operation that the task has come to
        subst htu
        rw [hq, ht] at hu
        cases hu
        exact absurd rfl (hno _ List.mem_concat_self rfl)
      · rw [Pool.setTask_task_of_ne htu]
        exact hq
  | @loop q τ u σ β body s k' _ hu ih =>
      have hq := ih hno
      by_cases htu : t = u
      · subst htu
        rw [hq, ht] at hu
        cases hu
      · rw [Pool.setTask_task_of_ne htu]
        exact hq

end Steps

/-! ### Progress -/

/-- The task `t` can take a step. -/
def Machine.CanStep (M : Machine E S α) (p : Pool E S α) (t : ℕ) : Prop :=
  (∃ (σ β : Type) (body : σ → Prog E (σ ⊕ β)) (s : σ) (k : β → Prog E α),
    (p.task t).prog = .loop body s k) ∨
  ∃ (o : E.Op) (k : E.Res o → Prog E α) (r : E.Res o) (s' : S),
    (p.task t).prog = .call o k ∧ M.answers t (p.task t).hist o p.shared r s'

/-- A task has returned, or it can take a step, or it waits for an answer. -/
theorem Machine.canStep_or (M : Machine E S α) (p : Pool E S α) (t : ℕ) :
    (∃ a, (p.task t).prog = .pure a) ∨ M.CanStep p t ∨ ∃ o k, (p.task t).prog = .call o k ∧
      ∀ r s', ¬M.answers t (p.task t).hist o p.shared r s' := by
  cases h : (p.task t).prog with
  | pure a => exact .inl ⟨a, rfl⟩
  | loop body s k => exact .inr (.inl (.inl ⟨_, _, body, s, k, h⟩))
  | call o k =>
      refine .inr ?_
      by_cases hans : ∃ r s', M.answers t (p.task t).hist o p.shared r s'
      · obtain ⟨r, s', hr⟩ := hans
        exact .inl (.inr ⟨o, k, r, s', h, hr⟩)
      · exact .inr ⟨o, k, rfl, fun r s' hr => hans ⟨r, s', hr⟩⟩

/-! ### One task at a time -/

/-- The task `t` issues the operations of `τ` one after the other, alone. -/
inductive Alone (M : Machine E S α) (t : ℕ) : List (Event E) → S → List (Act E S) → S → Prop where
  /-- Nothing is issued. -/
  | nil (hist : List (Event E)) (s : S) : Alone M t hist s [] s
  /-- One operation, then the rest. -/
  | cons {hist : List (Event E)} {o : E.Op} {r : E.Res o} {s s₁ s' : S} {τ : List (Act E S)}
      (hr : M.answers t hist o s r s₁) (hτ : Alone M t (hist ++ [⟨o, r⟩]) s₁ τ s') :
      Alone M t hist s (⟨t, hist, ⟨o, r⟩, s, s₁⟩ :: τ) s'

theorem Alone.task {M : Machine E S α} {t : ℕ} {hist : List (Event E)} {s s' : S}
    {τ : List (Act E S)} (h : Alone M t hist s τ s') : ∀ a ∈ τ, a.task = t := by
  induction h with
  | nil => simp
  | cons _ _ ih => simpa using ih

/-- A task can go on alone along a run of what it has left to do. -/
theorem Alone.steps {M : Machine E S α} {p : Pool E S α} {t : ℕ} {b : Prog E α}
    {τ : List (Act E S)} {s' : S} (hτ : Alone M t (p.task t).hist p.shared τ s')
    (hrun : Runs (p.task t).prog (τ.map Act.event) b) :
    ∃ q, Steps M p τ q ∧ q.shared = s' ∧
      q.task t = ⟨(p.task t).hist ++ τ.map Act.event, b⟩ ∧ ∀ u, u ≠ t → q.task u = p.task u := by
  generalize hu : τ.map Act.event = u at hrun
  generalize hc : (p.task t).prog = c at hrun
  induction hrun generalizing p τ with
  | refl =>
      obtain rfl := List.map_eq_nil_iff.mp hu
      cases hτ
      refine ⟨p, .refl p, rfl, ?_, fun _ _ => rfl⟩
      rw [List.append_nil, ← hc]
  -- the acts are those of the calls on the run of the text, one for each
  | @call o k r u b _ ih =>
      obtain ⟨a, τ', rfl, ha, hu'⟩ := List.map_eq_cons_iff.mp hu
      cases hτ with
      | @cons _ o' r' _ s₁ _ _ hr hτ' =>
          cases ha
          have hact := Steps.act t (.refl p) hc hr
          obtain ⟨q, hq, hshared, htask, hothers⟩ :=
            ih (p := Pool.setTask { p with shared := s₁ } t ⟨(p.task t).hist ++ [⟨o, r⟩], k r⟩)
              (by rw [Pool.setTask_task_self]; exact hτ') hu' (by rw [Pool.setTask_task_self])
          refine ⟨q, hact.trans hq, hshared, ?_, fun v hv => ?_⟩
          · rw [htask, Pool.setTask_task_self, List.append_assoc]
            rfl
          · rw [hothers v hv, Pool.setTask_task_of_ne hv]
  -- entering a loop is a step without an act
  | @loop σ β body s k u b _ ih =>
      have hloop : Steps M p [] _ := Steps.loop t (.refl p) hc
      obtain ⟨q, hq, hshared, htask, hothers⟩ :=
        ih (p := p.setTask t ⟨(p.task t).hist, Prog.unfold body s k⟩)
          (by rw [Pool.setTask_task_self]; exact hτ) hu (by rw [Pool.setTask_task_self])
      refine ⟨q, hloop.trans hq, hshared, ?_, fun v hv => ?_⟩
      · rw [htask, Pool.setTask_task_self]
      · rw [hothers v hv, Pool.setTask_task_of_ne hv]

/-- **A turn.** A task goes on alone along a run of what it has left to do, if the machine gives its
operations these answers one after the other. -/
theorem Steps.turn {M : Machine E S α} {p : Pool E S α} {t : ℕ} {b : Prog E α}
    {f : S → Event E → Option S} {events : List (Event E)} {s' : S}
    (hf : ∀ hist e s s', f s e = some s' → M.answers t hist e.op s e.res s')
    (hplay : events.foldlM f p.shared = some s') (hrun : Runs (p.task t).prog events b) :
    ∃ τ q, Steps M p τ q ∧ τ.map (fun a => (a.task, a.event)) = events.map (fun e => (t, e)) ∧
      q.shared = s' ∧ (q.task t).prog = b ∧ ∀ u, u ≠ t → q.task u = p.task u := by
  have halone : ∀ hist s, events.foldlM f s = some s' →
      ∃ τ, Alone M t hist s τ s' ∧ τ.map Act.event = events := by
    clear hplay hrun
    induction events with
    | nil =>
        intro hist s hs
        obtain rfl := Option.some.inj hs
        exact ⟨[], .nil _ _, rfl⟩
    | cons e events ih =>
        intro hist s hs
        rw [List.foldlM_cons] at hs
        obtain ⟨s₁, hs₁, hs⟩ := Option.bind_eq_some_iff.mp hs
        obtain ⟨τ, hτ, hevents⟩ := ih (hist ++ [e]) s₁ hs
        exact ⟨_, .cons (hf hist e s s₁ hs₁) hτ, by rw [List.map_cons, hevents]⟩
  obtain ⟨τ, hτ, hevents⟩ := halone (p.task t).hist p.shared hplay
  obtain ⟨q, hq, hshared, htask, hothers⟩ := hτ.steps (hevents.symm ▸ hrun)
  refine ⟨τ, q, hq, ?_, hshared, by rw [htask], hothers⟩
  rw [← hevents, List.map_map]
  exact List.map_congr_left fun a ha => by rw [hτ.task a ha]; rfl

/-- A task goes into its loops without anybody noticing. -/
theorem Steps.settle {M : Machine E S α} {p : Pool E S α} {t : ℕ} {b : Prog E α}
    (h : Runs (p.task t).prog [] b) : ∃ q, Steps M p [] q ∧ q.shared = p.shared ∧
      (q.task t).prog = b ∧ ∀ u, u ≠ t → q.task u = p.task u := by
  obtain ⟨q, hq, hshared, htask, hothers⟩ := (Alone.nil (M := M) (p.task t).hist p.shared).steps h
  exact ⟨q, hq, hshared, by rw [htask], hothers⟩

/-- A task that does not spin and has not returned comes to an operation. -/
theorem Steps.exists_call {M : Machine E S α} {p : Pool E S α} {t : ℕ}
    (h : Productive (p.task t).prog) (hp : ∀ a, (p.task t).prog ≠ .pure a) :
    ∃ o k, Steps M p [] (p.setTask t ⟨(p.task t).hist, .call o k⟩) := by
  obtain ⟨o, k, hrun⟩ := h.exists_call hp
  obtain ⟨q, hq, hshared, htask, hothers⟩ := (Alone.nil (M := M) (p.task t).hist p.shared).steps hrun
  have heq : q = p.setTask t ⟨(p.task t).hist, .call o k⟩ := by
    obtain ⟨s, task⟩ := q
    dsimp only at hshared htask hothers
    rw [hshared, Pool.setTask]
    congr 1
    funext u
    by_cases hu : u = t
    · rw [hu, htask, Function.update_self, List.map_nil, List.append_nil]
    · rw [hothers u hu, Function.update_of_ne hu]
  exact ⟨o, k, heq ▸ hq⟩

/-- What a task has left to do does not spin if its text does not. -/
theorem Steps.productive {M : Machine E S α} {p q : Pool E S α} {τ : List (Act E S)} {t : ℕ}
    (h : Steps M p τ q) (hp : Productive (p.task t).prog) : Productive (q.task t).prog := by
  induction h with
  | refl => exact hp
  | @act q τ u o k r s' h hu hr ih =>
      -- only the task that takes the step changes
      by_cases htu : t = u
      · subst htu
        rw [hu] at ih
        rw [Pool.setTask_task_self]
        exact ih r
      · rw [Pool.setTask_task_of_ne htu]
        exact ih
  | @loop q τ u σ β body s k h hu ih =>
      by_cases htu : t = u
      · subst htu
        rw [hu] at ih
        rw [Pool.setTask_task_self]
        exact ih.unfold
      · rw [Pool.setTask_task_of_ne htu]
        exact ih

/-! ### The monitor of one task -/

/-- **Invariants of a run in which one task is monitored.** A relation between the acts so far, the
monitor state of the task `t` and the shared state holds at the end of a run if it holds at its
start and every act, of the task or of another one, keeps it. -/
theorem Steps.followed {M : Machine E S α} {N : Monitor E Γ} {t : ℕ} {Q : α → Γ → Prop} {γ : Γ}
    {p q : Pool E S α} {τ : List (Act E S)} {J : List (Act E S) → Γ → S → Prop} (h : Steps M p τ q)
    (hp : Follows N γ (p.task t).prog Q)
    (hτ : ∀ a ∈ τ, a.task = t → ∀ g, N.expects g a.event) (hJ : J [] γ p.shared)
    (hown : ∀ υ δ a g, υ ++ [a] <+: τ → a.task = t → J υ δ a.before →
      M.answers t a.hist a.event.op a.before a.event.res a.after → N.step δ a.event = some g →
      J (υ ++ [a]) g a.after)
    (hother : ∀ υ δ a, υ ++ [a] <+: τ → a.task ≠ t → J υ δ a.before →
      M.answers a.task a.hist a.event.op a.before a.event.res a.after → J (υ ++ [a]) δ a.after) :
    ∃ δ, Follows N δ (q.task t).prog Q ∧ J τ δ q.shared := by
  induction h with
  | refl => exact ⟨γ, hp, hJ⟩
  | @act q τ u o k r s' h hu hr ih =>
      have hpre : τ <+: τ ++ [⟨u, (q.task u).hist, ⟨o, r⟩, q.shared, s'⟩] := List.prefix_append _ _
      obtain ⟨δ, hδ, hJδ⟩ := ih (fun a ha => hτ a (hpre.subset ha))
        (fun υ δ a g hυ => hown υ δ a g (hυ.trans hpre))
        fun υ δ a hυ => hother υ δ a (hυ.trans hpre)
      -- either the task itself moves the monitor, or another one takes a step
      by_cases hut : u = t
      · subst hut
        rw [hu] at hδ
        obtain ⟨g, hg, hk⟩ := hδ r (hτ _ List.mem_concat_self rfl _)
        refine ⟨g, ?_, hown τ δ _ g List.prefix_rfl rfl hJδ hr hg⟩
        rw [Pool.setTask_task_self]
        exact hk
      · refine ⟨δ, ?_, hother τ δ _ List.prefix_rfl hut hJδ hr⟩
        rw [Pool.setTask_task_of_ne (Ne.symm hut)]
        exact hδ
  | @loop q τ u σ β body s k h hu ih =>
      obtain ⟨δ, hδ, hJδ⟩ := ih hτ hown hother
      refine ⟨δ, ?_, hJδ⟩
      by_cases hut : u = t
      · subst hut
        rw [hu] at hδ
        rw [Pool.setTask_task_self]
        exact hδ.unfold
      · rw [Pool.setTask_task_of_ne (Ne.symm hut)]
        exact hδ

/-! ### Monitors of the tasks -/

/-- Each task is in the monitor state `γ t` and what it has left to do follows the monitor. -/
def Watched (N : ℕ → Monitor E Γ) (g : ℕ → Γ) (Q : ℕ → α → Γ → Prop) (γ : ℕ → Γ)
    (p : Pool E S α) : Prop :=
  ∀ t, (N t).after (g t) (p.task t).hist = some (γ t) ∧ Follows (N t) (γ t) (p.task t).prog (Q t)

section Watched

variable {M : Machine E S α} {N : ℕ → Monitor E Γ} {g γ : ℕ → Γ} {Q : ℕ → α → Γ → Prop}
  {p q : Pool E S α} {τ : List (Act E S)} {t : ℕ} {c : Task E α}

/-- In the beginning each task is watched by a monitor its text follows. -/
theorem watched_init (h : ∀ t, Follows (N t) (g t) (M.text t) (Q t)) (s : S) :
    Watched N g Q g (M.init s) := fun t => ⟨rfl, h t⟩

theorem Watched.setTask {g' : Γ} {s' : S} (h : Watched N g Q γ p)
    (hafter : (N t).after (g t) c.hist = some g') (hc : Follows (N t) g' c.prog (Q t)) :
    Watched N g Q (Function.update γ t g') (Pool.setTask { p with shared := s' } t c) := by
  intro u
  by_cases hu : u = t
  · subst hu
    rw [Pool.setTask_task_self, Function.update_self]
    exact ⟨hafter, hc⟩
  · rw [Pool.setTask_task_of_ne hu, Function.update_of_ne hu]
    exact h u

/-- **Invariants of monitored runs.** A relation between the acts so far, the monitor states of the
tasks and the shared state holds at the end of a run if it holds at its start and every act keeps
it. -/
theorem Steps.monitored {J : List (Act E S) → (ℕ → Γ) → S → Prop} (h : Steps M p τ q)
    (hp : Watched N g Q γ p) (hτ : ∀ a ∈ τ, ∀ g', (N a.task).expects g' a.event)
    (hJ : J [] γ p.shared)
    (hstep : ∀ υ δ a g', υ ++ [a] <+: τ → J υ δ a.before →
      (N a.task).after (g a.task) a.hist = some (δ a.task) →
      M.answers a.task a.hist a.event.op a.before a.event.res a.after →
      (N a.task).step (δ a.task) a.event = some g' →
      J (υ ++ [a]) (Function.update δ a.task g') a.after) :
    ∃ δ, Watched N g Q δ q ∧ J τ δ q.shared := by
  induction h with
  | refl => exact ⟨γ, hp, hJ⟩
  | @act q τ t o k r s' h ht hr ih =>
      obtain ⟨δ, hδ, hJδ⟩ := ih (fun a ha => hτ a (List.mem_append_left _ ha))
        fun υ δ a g' hυ => hstep υ δ a g' (hυ.trans (List.prefix_append _ _))
      -- the task that issues the act follows its own monitor, and no other monitor moves
      obtain ⟨hafter, hfollows⟩ := hδ t
      rw [ht] at hfollows
      obtain ⟨g', hg', hk⟩ := hfollows r (hτ _ List.mem_concat_self _)
      refine ⟨Function.update δ t g', hδ.setTask ?_ hk, ?_⟩
      · rw [Monitor.after_concat hafter, hg']
      · exact hstep τ δ _ g' List.prefix_rfl hJδ hafter hr hg'
  | @loop q τ t σ β body s k h ht ih =>
      obtain ⟨δ, hδ, hJδ⟩ := ih hτ hstep
      refine ⟨δ, fun u => ?_, hJδ⟩
      by_cases hu : u = t
      · subst hu
        obtain ⟨hafter, hfollows⟩ := hδ u
        rw [ht] at hfollows
        rw [Pool.setTask_task_self]
        exact ⟨hafter, hfollows.unfold⟩
      · rw [Pool.setTask_task_of_ne hu]
        exact hδ u

/-- A single act between two pools moves the monitor of its task. -/
theorem Steps.monitored_act {a : Act E S} (h : Steps M p [a] q) (hp : Watched N g Q γ p)
    (ha : ∀ g', (N a.task).expects g' a.event) :
    ∃ g', a.before = p.shared ∧ a.after = q.shared ∧
      (N a.task).step (γ a.task) a.event = some g' ∧
      Watched N g Q (Function.update γ a.task g') q := by
  obtain ⟨δ, hδ, hJ⟩ := h.monitored (J := fun υ δ s =>
      υ = [] ∧ δ = γ ∧ s = p.shared ∨
        υ = [a] ∧ ∃ g', a.before = p.shared ∧ a.after = s ∧
          (N a.task).step (γ a.task) a.event = some g' ∧ δ = Function.update γ a.task g')
    hp (by simpa using ha) (.inl ⟨rfl, rfl, rfl⟩)
    (by
      intro υ δ b g' hυ hJ _ _ hstep
      have hlen := hυ.length_le
      rw [List.length_append, List.length_singleton, List.length_singleton] at hlen
      obtain rfl : υ = [] := List.eq_nil_of_length_eq_zero (by omega)
      obtain rfl : b = a := by simpa using hυ
      rcases hJ with ⟨-, rfl, hbefore⟩ | ⟨hno, -⟩
      · exact .inr ⟨rfl, g', hbefore, rfl, hstep, rfl⟩
      · cases hno)
  rcases hJ with ⟨hno, -⟩ | ⟨-, g', hbefore, hafter, hstep, rfl⟩
  · cases hno
  · exact ⟨g', hbefore, hafter, hstep, hδ⟩

end Watched

end Effects

import Aesd.Server.ThreadRuns

/-! # The mutexes of a thread that has ended

A handler that is cancelled runs `thread_cleanup`, which closes the socket and takes the node off
the list, and no other routine: `file_mutex` stays locked if the call that was cancelled stands
between its lock and its unlock. **`no_mutex_orphaned_iff`**: in every run no mutex belongs to a
thread that has ended exactly if no thread that has ended was cancelled there. -/

namespace Aesd.Server

open Effects

/-! ### Mutexes and who holds them -/

section Owners

variable {M : Type} {owner : M → Option ℕ} {holds : ℕ → M → Bool} {t : ℕ} {m : M} {own : M → Bool}

/-- Each mutex belongs to the one thread that holds it. -/
def Owned (owner : M → Option ℕ) (holds : ℕ → M → Bool) : Prop :=
  ∀ m t, owner m = some t ↔ holds t m = true

theorem Owned.keep (h : Owned owner holds) (hown : own = holds t) :
    Owned owner (Function.update holds t own) := by
  rwa [hown, Function.update_eq_self]

variable [DecidableEq M]

/-- A thread locks a free mutex. -/
theorem Owned.lock (h : Owned owner holds) (hfree : owner m = none)
    (hown : own = Function.update (holds t) m true) :
    Owned (Function.update owner m (some t)) (Function.update holds t own) := by
  intro m' u
  by_cases hm : m' = m
  · subst hm
    by_cases hu : u = t
    · subst hu
      rw [Function.update_self, Function.update_self, hown, Function.update_self]
      exact iff_of_true rfl rfl
    · rw [Function.update_self, Function.update_of_ne hu, ← h m' u, hfree, Option.some.injEq]
      exact iff_of_false (Ne.symm hu) (by simp)
  · rw [Function.update_of_ne hm, h m' u]
    by_cases hu : u = t
    · subst hu
      rw [Function.update_self, hown, Function.update_of_ne hm]
    · rw [Function.update_of_ne hu]

/-- A thread unlocks a mutex that it holds. -/
theorem Owned.unlock (h : Owned owner holds) (hheld : holds t m = true)
    (hown : own = Function.update (holds t) m false) :
    Owned (Function.update owner m none) (Function.update holds t own) := by
  intro m' u
  by_cases hm : m' = m
  · subst hm
    rw [Function.update_self]
    refine iff_of_false (by simp) ?_
    by_cases hu : u = t
    · subst hu
      rw [Function.update_self, hown, Function.update_self]
      simp
    · rw [Function.update_of_ne hu, ← h m' u, (h m' t).mpr hheld, Option.some.injEq]
      exact Ne.symm hu
  · rw [Function.update_of_ne hm, h m' u]
    by_cases hu : u = t
    · subst hu
      rw [Function.update_self, hown, Function.update_of_ne hm]
    · rw [Function.update_of_ne hu]

end Owners

/-! ### What the phases say -/

/-- The mutexes that a thread holds. -/
def ThreadPhase.holds : ThreadPhase → Mutex → Bool
  | .main _ l, .list => l
  | .main _ _, .file => false
  | .handler g, .list => g.list
  | .handler g, .file => g.file

/-- The thread has ended. -/
def ThreadPhase.hasEnded : ThreadPhase → Bool
  | .handler ⟨.abandoned _, _, _, _⟩ | .handler ⟨.gone, _, _, _⟩ => true
  | _ => false

/-- The thread has been cancelled while it held `file_mutex`. -/
def ThreadPhase.isHit : ThreadPhase → Bool
  | .main _ _ => false
  | .handler g => g.hit

/-- The thread is cancelled between the lock and the unlock of `file_mutex`. -/
def CancelledInside (a : Act threads Threads) : Prop :=
  a.event.op.cancelled a.event.res = true ∧ a.before.owner .file = some a.task

section Steps

variable {t : ℕ} {s s' : Threads} {g g' : ThreadPhase} {e : Event threads}

/-- What a step does to the mutexes. -/
theorem Does.mutexes (h : Does t s g e g' s') :
    s'.owner = s.owner ∧ g'.holds = g.holds ∨
      (∃ m, s.owner m = none ∧ s'.owner = Function.update s.owner m (some t) ∧
        g'.holds = Function.update g.holds m true) ∨
      ∃ m, g.holds m = true ∧ s'.owner = Function.update s.owner m none ∧
        g'.holds = Function.update g.holds m false := by
  -- a phase holds the same mutexes whatever its stage
  have hsame : ∀ {st st' : HandlerStage} {f l h h' : Bool},
      (ThreadPhase.handler ⟨st', f, l, h'⟩).holds = (ThreadPhase.handler ⟨st, f, l, h⟩).holds := by
    intros
    funext m
    cases m <;> rfl
  have hmain : ∀ {st st' : MainStage} {l : Bool},
      (ThreadPhase.main st' l).holds = (ThreadPhase.main st l).holds := by
    intros
    funext m
    cases m <;> rfl
  cases h with
  | lockFile _ hfree => exact .inr (.inl ⟨.file, hfree, rfl, by funext m; cases m <;> rfl⟩)
  | unlockFile _ => exact .inr (.inr ⟨.file, rfl, rfl, by funext m; cases m <;> rfl⟩)
  | lockList _ _ _ hfree => exact .inr (.inl ⟨.list, hfree, rfl, by funext m; cases m <;> rfl⟩)
  | unlockList _ _ _ => exact .inr (.inr ⟨.list, rfl, rfl, by funext m; cases m <;> rfl⟩)
  | mainLock _ hfree => exact .inr (.inl ⟨.list, hfree, rfl, by funext m; cases m <;> rfl⟩)
  | mainUnlock _ => exact .inr (.inr ⟨.list, rfl, rfl, by funext m; cases m <;> rfl⟩)
  | start | cancel | unlink | free | abandon | finish => exact .inl ⟨rfl, hsame⟩
  | quiet | mainQuiet => exact .inl ⟨rfl, rfl⟩
  | _ => exact .inl ⟨rfl, hmain⟩

/-- What a step does to the threads that have ended. -/
theorem Does.ends (h : Does t s g e g' s') :
    s'.ended = s.ended ∧ g'.hasEnded = g.hasEnded ∨
      g'.hasEnded = true ∧ s'.ended = Function.update s.ended t true ∧ g'.holds .list = false ∧
        g'.holds .file = g'.isHit := by
  cases h with
  | abandon | finish => exact .inr ⟨rfl, rfl, rfl, rfl⟩
  | _ => exact .inl ⟨rfl, rfl⟩

theorem Answered.not_cancelled {o : PosixOp} (h : Answered o e) : e.op.cancelled e.res = false := by
  rcases h with ⟨r, rfl⟩ | ⟨r, rfl⟩
  · rfl
  · rfl

/-- What a step does to the threads that have been cancelled. -/
theorem Does.hits (h : Does t s g e g' s') :
    e.op.cancelled e.res = false ∧ g'.isHit = g.isHit ∨
      e.op.cancelled e.res = true ∧ g'.isHit = g.holds .file ∧
        (g.isHit = true → g.holds .file = true) := by
  cases h with
  | cancel f h _ hhit => exact .inr ⟨rfl, rfl, hhit⟩
  | quiet _ he => exact .inl ⟨he.answered, rfl⟩
  | lockFile he _ => exact .inl ⟨he.answered, rfl⟩
  | unlockFile he => exact .inl ⟨he.answered, rfl⟩
  | lockList _ _ he _ => exact .inl ⟨he.answered, rfl⟩
  | unlockList _ _ he => exact .inl ⟨he.answered, rfl⟩
  | unlink _ _ he => exact .inl ⟨he.not_cancelled, rfl⟩
  | free _ _ he => exact .inl ⟨he.not_cancelled, rfl⟩
  | mainQuiet _ _ he => exact .inl ⟨he.answered, rfl⟩
  | _ => exact .inl ⟨rfl, rfl⟩

/-- A thread that has ended does nothing. -/
theorem Does.of_hasEnded (h : Does t s g e g' s') (hg : g.hasEnded = true) :
    g' = g ∧ e.op.cancelled e.res = false := by
  cases h with
  | quiet _ he => exact ⟨rfl, he.answered⟩
  | _ => cases hg

/-- A step that faults. -/
theorem flags_of_faults (hf : s.faults e.op = true) (hc : e.op.cancelled e.res = false)
    (hstep : g.step e = some g') :
    g'.holds = g.holds ∧ g'.hasEnded = g.hasEnded ∧ g'.isHit = g.isHit := by
  obtain ⟨o, r⟩ := e
  cases g with
  | main st l =>
      -- an operation that faults is no lock or unlock
      have hmain : ∀ st', (ThreadPhase.main st' l).holds = (ThreadPhase.main st l).holds := by
        intro st'
        funext m
        cases m <;> rfl
      cases l with
      | false =>
          have hlock : o.locksList = false := by
            cases o with
            | posix o => cases o <;> first | rfl | cases hf
            | _ => rfl
          simp only [ThreadPhase.step, hlock, Bool.false_eq_true, if_false, Option.map_eq_some_iff]
            at hstep
          obtain ⟨st', -, rfl⟩ := hstep
          exact ⟨hmain st', rfl, rfl⟩
      | true =>
          have hunlock : o.unlocksList = false := by
            cases o with
            | posix o => cases o <;> first | rfl | cases hf
            | _ => rfl
          simp only [ThreadPhase.step, hunlock, Bool.false_eq_true, if_false, Option.map_eq_some_iff]
            at hstep
          obtain ⟨st', -, rfl⟩ := hstep
          exact ⟨hmain st', rfl, rfl⟩
  | handler g =>
      have hcall : ∀ {o : PosixOp} {g' : HandlerPhase}, s.callFaults o = true → g.call o = some g' →
          (ThreadPhase.handler g').holds = (ThreadPhase.handler g).holds ∧
            (ThreadPhase.handler g').hasEnded = (ThreadPhase.handler g).hasEnded ∧
            (ThreadPhase.handler g').isHit = (ThreadPhase.handler g).isHit := by
        intro o g' hf hcall
        obtain ⟨stage, f, l, h⟩ := g
        have hholds : ∀ st', (ThreadPhase.handler ⟨st', f, l, h⟩).holds =
            (ThreadPhase.handler ⟨stage, f, l, h⟩).holds := by
          intro st'
          funext m
          cases m <;> rfl
        cases stage with
        | serving n =>
            dsimp only [HandlerPhase.call] at hcall
            cases o with
            | loadClientFd n' =>
                simp only [HandlerPhase.serve, Option.ite_none_right_eq_some] at hcall
                obtain ⟨-, hcall⟩ := hcall
                cases hcall
                exact ⟨rfl, rfl, rfl⟩
            | listRemove n' =>
                simp only [HandlerPhase.serve, Option.ite_none_right_eq_some] at hcall
                obtain ⟨-, hcall⟩ := hcall
                cases hcall
                exact ⟨hholds _, rfl, rfl⟩
            | free n' => cases hcall
            | _ => cases hf
        | unlinked n =>
            dsimp only [HandlerPhase.call] at hcall
            cases o with
            | free n' =>
                simp only [HandlerPhase.leave, Option.ite_none_right_eq_some] at hcall
                obtain ⟨-, hcall⟩ := hcall
                cases hcall
                exact ⟨hholds _, rfl, rfl⟩
            | loadClientFd n' => cases hcall
            | listRemove n' => cases hcall
            | _ => cases hf
        | _ => cases hcall
      cases o with
      | posix o =>
          simp only [ThreadPhase.step, Option.map_eq_some_iff] at hstep
          obtain ⟨g', hg', rfl⟩ := hstep
          exact hcall hf hg'
      | point o =>
          cases r with
          | none => cases hc
          | some r =>
              simp only [ThreadPhase.step, Option.map_eq_some_iff] at hstep
              obtain ⟨g', hg', rfl⟩ := hstep
              exact hcall hf hg'
      | start => cases hf
      | exit => cases hf
      | _ => cases hstep

end Steps

/-! ### Runs -/

/-- The mutexes, and who has been cancelled, in the course of a run. -/
structure Owners (υ : List (Act threads Threads)) (δ : ℕ → ThreadPhase) (s : Threads) : Prop where
  /-- Each mutex belongs to the thread that holds it. -/
  owned : Owned s.owner fun t => (δ t).holds
  /-- The threads that have ended. -/
  ended : ∀ t, s.ended t = (δ t).hasEnded
  /-- The threads that have been cancelled with `file_mutex`. -/
  hit : ∀ t, (δ t).isHit = true ↔ ∃ a ∈ υ, a.task = t ∧ CancelledInside a
  /-- A thread that has ended holds `file_mutex` if it has been cancelled with it. -/
  closed : ∀ t, (δ t).hasEnded = true → (δ t).holds .list = false ∧ (δ t).holds .file = (δ t).isHit

section Runs

variable {υ : List (Act threads Threads)} {δ : ℕ → ThreadPhase} {a : Act threads Threads}
  {g : ThreadPhase}

theorem holds_update {t : ℕ} : (fun u => (Function.update δ t g u).holds) =
    Function.update (fun u => (δ u).holds) t g.holds :=
  Function.comp_update ThreadPhase.holds δ t g

theorem owners_start : Owners [] startPhase Threads.init := by
  have hhandler : ∀ t, (startPhase t).holds = fun _ => false := by
    intro t
    funext m
    cases t <;> cases m <;> rfl
  have hended : ∀ t, (startPhase t).hasEnded = false := fun t => by cases t <;> rfl
  refine ⟨fun m t => ?_, fun t => (hended t).symm, fun t => ?_, fun t h => ?_⟩
  · beta_reduce
    rw [hhandler]
    exact iff_of_false (by simp [Threads.init]) (by simp)
  · exact iff_of_false (by cases t <;> simp [startPhase, ThreadPhase.isHit]) (by simp)
  · rw [hended] at h
    cases h

theorem exists_mem_concat_iff {t : ℕ} : (∃ b ∈ υ ++ [a], b.task = t ∧ CancelledInside b) ↔
    (∃ b ∈ υ, b.task = t ∧ CancelledInside b) ∨ a.task = t ∧ CancelledInside a := by
  simp only [List.mem_append, List.mem_singleton, or_and_right, exists_or, exists_eq_left]

/-- Nobody is cancelled with `file_mutex`. -/
theorem Owners.hit_of_answered (h : Owners υ δ a.before) (hit : g.isHit = (δ a.task).isHit)
    (hc : a.event.op.cancelled a.event.res = false) (t : ℕ) :
    (Function.update δ a.task g t).isHit = true ↔
      ∃ b ∈ υ ++ [a], b.task = t ∧ CancelledInside b := by
  have hsame : (Function.update δ a.task g t).isHit = (δ t).isHit := by
    by_cases ht : t = a.task
    · rw [ht, Function.update_self, hit]
    · rw [Function.update_of_ne ht]
  rw [hsame, h.hit, exists_mem_concat_iff, or_iff_left]
  rintro ⟨-, hno, -⟩
  rw [hc] at hno
  cases hno

/-- The step lemma. -/
theorem Owners.step (h : Owners υ δ a.before)
    (hdoes : Does a.task a.before (δ a.task) a.event g a.after) :
    Owners (υ ++ [a]) (Function.update δ a.task g) a.after := by
  refine ⟨?_, fun t => ?_, fun t => ?_, fun t ht => ?_⟩
  · rw [holds_update]
    rcases hdoes.mutexes with
      ⟨howner, hholds⟩ | ⟨m, hfree, howner, hholds⟩ | ⟨m, hheld, howner, hholds⟩
    · rw [howner]
      exact h.owned.keep hholds
    · rw [howner]
      exact h.owned.lock hfree hholds
    · rw [howner]
      exact h.owned.unlock hheld hholds
  · by_cases ht : t = a.task
    · subst ht
      rw [Function.update_self]
      rcases hdoes.ends with ⟨hended, hg⟩ | ⟨hg, hended, -⟩
      · rw [hended, hg, h.ended]
      · rw [hended, hg, Function.update_self]
    · rw [Function.update_of_ne ht, ← h.ended]
      rcases hdoes.ends with ⟨hended, -⟩ | ⟨-, hended, -⟩
      · rw [hended]
      · rw [hended, Function.update_of_ne ht]
  · rcases hdoes.hits with ⟨hc, hit⟩ | ⟨hc, hit, hheld⟩
    · exact h.hit_of_answered hit hc t
    -- the thread has been cancelled, with `file_mutex` or without it
    have hinside : CancelledInside a ↔ (δ a.task).holds .file = true := by
      rw [CancelledInside, h.owned, and_iff_right hc]
    rw [exists_mem_concat_iff]
    by_cases ht : t = a.task
    · subst ht
      rw [Function.update_self, hit, hinside, ← h.hit, and_iff_right rfl, or_iff_right_of_imp hheld]
    · rw [Function.update_of_ne ht, h.hit, or_iff_left]
      exact fun hno => ht hno.1.symm
  · by_cases htask : t = a.task
    · subst htask
      rw [Function.update_self] at ht ⊢
      rcases hdoes.ends with ⟨-, hg⟩ | ⟨-, -, hlist, hfile⟩
      · rw [ht] at hg
        rw [(hdoes.of_hasEnded hg.symm).1]
        exact h.closed _ hg.symm
      · exact ⟨hlist, hfile⟩
    · rw [Function.update_of_ne htask] at ht ⊢
      exact h.closed t ht

/-- A step that faults. -/
theorem Owners.fault (h : Owners υ δ a.before) (hf : a.before.faults a.event.op = true)
    (hc : a.event.op.cancelled a.event.res = false) (hstep : (δ a.task).step a.event = some g)
    (hafter : a.after = { a.before with undefined := true }) :
    Owners (υ ++ [a]) (Function.update δ a.task g) a.after := by
  obtain ⟨hholds, hended, hhit⟩ := flags_of_faults hf hc hstep
  have hphase : ∀ t, (Function.update δ a.task g t).hasEnded = (δ t).hasEnded ∧
      (Function.update δ a.task g t).isHit = (δ t).isHit ∧
      (Function.update δ a.task g t).holds = (δ t).holds := by
    intro t
    by_cases ht : t = a.task
    · rw [ht, Function.update_self]
      exact ⟨hended, hhit, hholds⟩
    · rw [Function.update_of_ne ht]
      exact ⟨rfl, rfl, rfl⟩
  refine ⟨?_, fun t => ?_, fun t => h.hit_of_answered hhit hc t, fun t ht => ?_⟩
  · rw [holds_update, hafter]
    exact h.owned.keep hholds
  · rw [(hphase t).1, ← h.ended, hafter]
  · rw [(hphase t).1] at ht
    rw [(hphase t).2.1, (hphase t).2.2]
    exact h.closed t ht

variable {buffers : ℕ → Buffer} {τ : List (Act threads Threads)} {q : Pool threads Threads Unit}

/-- The run lemma. -/
theorem owners_of_run (hrun : Steps (lifecycle buffers) ((lifecycle buffers).init Threads.init) τ q) :
    ∃ δ, Owners τ δ q.shared := by
  obtain ⟨δ, -, h⟩ := lifecycle_invariant (J := Owners) hrun owners_start
    (fun _ _ _ _ _ h _ _ hdoes => h.step hdoes)
    fun _ _ _ _ _ h _ hf hc hstep hafter => h.fault hf hc hstep hafter
  exact ⟨δ, h⟩

end Runs

/-- A mutex belongs to a thread that has ended. -/
def Threads.Orphaned (s : Threads) (m : Mutex) : Prop := ∃ t, s.owner m = some t ∧ s.ended t = true

/-- **A dying handler holds `file_mutex` if it is cancelled between its lock and its unlock.** In
every run, whatever handlers have been started, cancelled and joined, no mutex belongs to a thread
that has ended, its cleanup handler included, exactly if none of these threads was cancelled at a
call between the lock and the unlock of `file_mutex`. -/
theorem no_mutex_orphaned_iff {buffers : ℕ → Buffer} {τ : List (Act threads Threads)}
    {q : Pool threads Threads Unit}
    (hrun : Steps (lifecycle buffers) ((lifecycle buffers).init Threads.init) τ q) :
    (∀ m, ¬q.shared.Orphaned m) ↔
      ∀ a ∈ τ, CancelledInside a → q.shared.ended a.task = false := by
  obtain ⟨δ, h⟩ := owners_of_run hrun
  constructor
  · intro hnone a ha hinside
    by_contra hended
    rw [Bool.not_eq_false] at hended
    -- the thread has been hit, so it still holds `file_mutex`
    have hhit := (h.hit a.task).mpr ⟨a, ha, rfl, hinside⟩
    have hclosed := (h.closed a.task ((h.ended a.task).symm.trans hended)).2
    exact hnone .file ⟨a.task, (h.owned .file a.task).mpr (hclosed.trans hhit), hended⟩
  · rintro hsafe m ⟨t, howner, hended⟩
    obtain ⟨hlist, hfile⟩ := h.closed t ((h.ended t).symm.trans hended)
    have hheld := (h.owned m t).mp howner
    cases m with
    | list => exact absurd (hlist.symm.trans hheld) (by simp)
    | file =>
        obtain ⟨a, ha, rfl, hinside⟩ := (h.hit t).mp (hfile.symm.trans hheld)
        rw [hsafe a ha hinside] at hended
        cases hended

section OneConnection

/-- The handler waits for data, is cancelled there, and ends. -/
def cancelledRecv : List (ℕ × Event threads) :=
  turn 0 (connect 3 4 0) ++ turn 1 (upTo 0 (opened 0 4 deviceFd)) ++
    turn 0 (terminate ++ requestExit 0 none 1) ++ turn 1 (cancelledAt 0 4 (.recv 4 bufferSize))

/-- A handler that is cancelled while it waits for data leaves no mutex behind. -/
theorem no_mutex_orphaned_iff_cancelledRecv : ∃ τ q,
    Steps (lifecycle fun _ => Buffer.zero) ((lifecycle fun _ => Buffer.zero).init Threads.init) τ q ∧
      τ.map (fun a => (a.task, a.event)) = cancelledRecv ∧
      (∃ a ∈ τ, a.event.op.cancelled a.event.res = true ∧ q.shared.ended a.task = true) ∧
      ∀ m, ¬q.shared.Orphaned m := by
  have hplay : (Threads.init.play cancelledRecv).isSome = true := by decide
  obtain ⟨s', hs'⟩ := Option.isSome_iff_exists.mp hplay
  obtain ⟨b, hb⟩ := runs_requestExit 0 none 1
  obtain ⟨c, hc, -⟩ := Runs.split hb
  have hmain : Runs mainThread (eventsOf 0 cancelledRecv) c := by
    simpa [cancelledRecv] using (runs_connect (by decide)).trans hc
  obtain ⟨k, hk⟩ : ∃ k, Runs (handleConnection 0 Buffer.zero) (opened 0 4 deviceFd)
      (Prog.call (E := posix) (.recv 4 bufferSize) k) := runs_waiting 4 (by decide)
  have hhandler : Runs (handlerThread Buffer.zero) (eventsOf 1 cancelledRecv) (.pure ()) := by
    simpa [cancelledRecv] using runs_cancelledAt (by decide) hk
  obtain ⟨τ, q, hq, hτ, hs, -⟩ := exists_run_pair hs' hmain hhandler fun t => by simp [cancelledRecv]
  -- nobody ever holds `file_mutex`
  have hnobody : ∀ m ∈ cancelledRecv.inits,
      (Threads.init.play m).all (fun s => s.owner .file = none) = true := by decide
  have houtside : ∀ a ∈ τ, a.before.owner .file = none := by
    intro a ha
    obtain ⟨υ, m, -, ⟨post, rfl⟩, hm, hbefore, -⟩ := hq.before_act ha
    have hinits : υ.map (fun a => (a.task, a.event)) ∈ cancelledRecv.inits := by
      rw [List.mem_inits, ← hτ, List.map_append]
      exact List.prefix_append _ _
    have hall := hnobody _ hinits
    rw [show Threads.init.play _ = some m.shared from play_of_steps hm, hbefore] at hall
    simpa using hall
  have hended : (Threads.init.play cancelledRecv).map (fun s => s.ended 1) = some true := by decide
  rw [hs', ← hs, Option.map_some, Option.some.injEq] at hended
  have hcancelled : (1, (⟨.point (.recv 4 bufferSize), none⟩ : Event threads)) ∈
      τ.map fun a => (a.task, a.event) := by
    rw [hτ]
    simp [cancelledRecv, turn, cancelledAt]
  obtain ⟨a, ha, heq⟩ := List.mem_map.mp hcancelled
  refine ⟨τ, q, hq, hτ, ⟨a, ha, ?_, ?_⟩, (no_mutex_orphaned_iff hq).mpr fun a ha hinside => ?_⟩
  · rw [(Prod.mk.inj heq).2]
    rfl
  · rw [(Prod.mk.inj heq).1]
    exact hended
  · have hfile := hinside.2
    rw [houtside a ha] at hfile
    cases hfile

/-- A client sends a byte, and main is told to terminate while the handler writes it. -/
def writeOne : Transfer bufferSize := .full [97] (by decide)

/-- The handler locks `file_mutex`, is cancelled at `write`, and ends. -/
def cancelledWrite : List (ℕ × Event threads) :=
  turn 0 (connect 3 4 0) ++
    turn 1 (upTo 0 (opened 0 4 deviceFd ++ [⟨.recv 4 bufferSize, writeOne⟩, ⟨.mutexLock .file, ()⟩])) ++
    turn 0 (terminate ++ requestExit 0 none 1) ++ turn 1 (cancelledAt 0 4 (.write 5 writeOne.data))

/-- The witness of a mutex that nobody can unlock any more. -/
theorem exists_mutex_orphaned : ∃ τ q,
    Steps (lifecycle fun _ => Buffer.zero) ((lifecycle fun _ => Buffer.zero).init Threads.init) τ q ∧
      q.shared.Orphaned .file := by
  have hplay : (Threads.init.play cancelledWrite).isSome = true := by decide
  obtain ⟨s', hs'⟩ := Option.isSome_iff_exists.mp hplay
  -- main and the handler
  obtain ⟨b, hb⟩ := runs_requestExit 0 none 1
  obtain ⟨c, hc, -⟩ := Runs.split hb
  have hmain : Runs mainThread (eventsOf 0 cancelledWrite) c := by
    simpa [cancelledWrite] using (runs_connect (by decide)).trans hc
  obtain ⟨k, hk⟩ : ∃ k, Runs (handleConnection 0 Buffer.zero)
      (opened 0 4 deviceFd ++ [⟨.recv 4 bufferSize, writeOne⟩, ⟨.mutexLock .file, ()⟩])
      (Prog.call (E := posix) (.write 5 writeOne.data) k) :=
    runs_writing 4 deviceFd writeOne (by decide) (by decide) (by decide) (by decide)
  have hhandler : Runs (handlerThread Buffer.zero) (eventsOf 1 cancelledWrite) (.pure ()) := by
    simpa [cancelledWrite] using runs_cancelledAt (by decide) hk
  obtain ⟨τ, q, hq, -, hs, -⟩ := exists_run_pair hs' hmain hhandler fun t => by simp [cancelledWrite]
  -- the handler has ended with `file_mutex`
  have hfinal : (Threads.init.play cancelledWrite).map (fun s => (s.owner .file, s.ended 1)) =
      some (some 1, true) := by decide
  rw [hs', ← hs, Option.map_some, Option.some.injEq, Prod.mk.injEq] at hfinal
  exact ⟨τ, q, hq, 1, hfinal⟩

end OneConnection

end Aesd.Server

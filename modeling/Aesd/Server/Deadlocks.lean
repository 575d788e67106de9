import Aesd.Server.MutexOrder

/-! # Deadlocks

A thread that cannot go on waits for a mutex or for a thread, and the order of the mutexes keeps
everybody from waiting in a circle. **`threads_deadlock_free`**: as long as no mutex belongs to a
thread that has ended, some thread can go on until main has returned and every handler has ended.
If `file_mutex` does belong to one it does so for ever (`orphaned_for_ever`). -/

namespace Aesd.Server

open Effects

/-! ### What is waited for -/

section Answers

variable {t : ℕ} {s : Threads} {o : ThreadOp}

/-- What an operation waits for: a mutex, the end of a thread, or the start of its own. -/
inductive Awaits (t : ℕ) (s : Threads) : ThreadOp → Prop where
  /-- The mutex is held. -/
  | mutex {o : ThreadOp} {m : Mutex} (hm : o.locks? = some m) (hheld : s.owner m ≠ none) :
      Awaits t s o
  /-- The thread has not ended. -/
  | join {id : ℕ} (hknown : s.knows id = true) (hended : s.ended id = false) :
      Awaits t s (.pthreadJoin id)
  /-- The thread has not been started. -/
  | start (harg : s.arg t = none) : Awaits t s .start

/-- An operation that has no answer waits for something. -/
theorem awaits_of_blocked (hdefined : s.undefined = false)
    (hblocked : ∀ r s', s.answer t o r ≠ some s') : Awaits t s o := by
  -- an operation that faults is answered
  have heffect : s.faults o = false ∧ ∀ r s', o.cancelled r = false → s.effect t o r ≠ some s' := by
    by_cases hf : s.faults o = true
    · obtain ⟨r, hr⟩ := exists_uncancelled o
      refine absurd ?_ (hblocked r { s with undefined := true })
      rw [Threads.answer, hdefined, hf, hr]
      rfl
    · rw [Bool.not_eq_true] at hf
      refine ⟨hf, fun r s' hr heffect => hblocked r s' ?_⟩
      rw [Threads.answer, hdefined, hf]
      exact heffect
  obtain ⟨hok, heffect⟩ := heffect
  have hcall : ∀ {o : PosixOp}, s.callFaults o = false →
      (∀ r s', s.callEffect t o r ≠ some s') → ∃ m, o = .mutexLock m ∧ s.owner m ≠ none := by
    intro o hok hno
    cases o with
    | mutexLock m =>
        refine ⟨m, rfl, fun hfree => hno () _ (if_pos hfree)⟩
    | loadClientFd n =>
        obtain ⟨fd, hfd⟩ := Option.isSome_iff_exists.mp (Option.isNone_eq_false_iff.mp hok)
        exact absurd (if_pos hfd) (hno fd s)
    | openFile | recv | send | read | write | ioctl | close | syslog | overrun =>
        obtain ⟨r⟩ := nonempty_posixRes _
        exact absurd rfl (hno r s)
    | mutexUnlock | listRemove | free => exact absurd rfl (hno () _)
  cases o with
  | posix o =>
      obtain ⟨m, rfl, hheld⟩ := hcall hok fun r s' => heffect r s' rfl
      exact .mutex rfl hheld
  | point o =>
      obtain ⟨m, rfl, hheld⟩ := hcall hok fun r s' => heffect (some r) s' rfl
      exact .mutex rfl hheld
  | start =>
      refine .start ?_
      by_contra harg
      obtain ⟨n, hn⟩ := Option.ne_none_iff_exists'.mp harg
      exact heffect n s rfl (if_pos hn)
  | pthreadJoin id =>
      refine .join (by simpa [Threads.faults] using hok) ?_
      by_contra hended
      rw [Bool.not_eq_false] at hended
      exact heffect () _ rfl (if_pos hended)
  | storeClientFd n fd =>
      obtain ⟨node, -, hnode⟩ := node?_of_not_faults hok
      refine absurd ?_ (heffect () (s.setNode n (.live { node with clientFd := some fd })) rfl)
      rw [Threads.effect, hnode]
      rfl
  | pthreadCreate n =>
      have hno : ¬(1 : ℤ) = 0 := by decide
      refine absurd ?_ (heffect (1 : ℤ) s rfl)
      simp only [Threads.effect, if_neg hno]
  | malloc => exact absurd rfl (heffect none s rfl)
  | listFirst => exact absurd (if_pos rfl) (heffect _ s rfl)
  | listNext n => exact absurd (if_pos fun _ => rfl) (heffect _ s rfl)
  | loadThreadId n =>
      obtain ⟨id, hid⟩ := Option.isSome_iff_exists.mp (Option.isNone_eq_false_iff.mp hok)
      exact absurd (if_pos hid) (heffect id s rfl)
  | terminateProgram => exact absurd rfl (heffect false s rfl)
  | loadServerFd | accept => exact absurd rfl (heffect (0 : ℤ) s rfl)
  | _ => exact absurd rfl (heffect () _ rfl)

/-- A mutex that is locked was free. -/
theorem owner_of_lock {m : Mutex} {r : ThreadRes o} {s' : Threads} (ho : o.locks? = some m)
    (h : s.answer t o r = some s') : s.owner m = none := by
  cases o with
  | posix o =>
      cases o with
      | mutexLock m' =>
          cases ho
          obtain ⟨-, h⟩ := Option.ite_none_left_eq_some.mp h
          exact (Option.ite_none_right_eq_some.mp h).1
      | _ => cases ho
  | point o =>
      cases o with
      | mutexLock m' =>
          cases ho
          obtain ⟨-, h⟩ := Option.ite_none_left_eq_some.mp h
          cases r with
          | some r => exact (Option.ite_none_right_eq_some.mp h).1
          | none =>
              -- nobody is cancelled at a mutex
              obtain ⟨hno, -⟩ := Option.ite_none_right_eq_some.mp h
              have hpoint : PosixOp.isCancellationPoint (.mutexLock m) = false := rfl
              rw [hpoint, Bool.and_false] at hno
              cases hno
      | _ => cases ho
  | _ => cases ho

/-- A thread that is joined had ended, or cannot be named. -/
theorem ended_of_join {id : ℕ} {s' : Threads} (hid : s.knows id = true)
    (h : s.answer t (.pthreadJoin id) () = some s') : s.ended id = true := by
  obtain ⟨-, h⟩ := Option.ite_none_left_eq_some.mp h
  rw [Threads.faults, hid] at h
  exact (Option.ite_none_right_eq_some.mp h).1

end Answers

/-! ### Who has been started -/

/-- What holds in the course of a run: the mutexes, and the numbers of the threads. -/
structure Standing (υ : List (Act threads Threads)) (δ : ℕ → ThreadPhase) (s : Threads) : Prop
    extends Owners υ δ s where
  /-- Nobody has started main, and nobody will. -/
  main : s.arg 0 = none ∧ 0 < s.nextThread
  /-- A handler that has not been started has done nothing. -/
  unstarted : ∀ t, s.arg (t + 1) = none → δ (t + 1) = startPhase (t + 1)
  /-- A thread that has been joined has ended. -/
  joined : ∀ t, s.joined t = true → s.ended t = true

section Standing

variable {buffers : ℕ → Buffer} {τ υ : List (Act threads Threads)}
  {q : Pool threads Threads Unit} {t : ℕ} {δ : ℕ → ThreadPhase} {a : Act threads Threads} {g : ThreadPhase} {s s' : Threads}

/-- What a step does to the threads that have been started. -/
theorem Does.args {g' : ThreadPhase} {e : Event threads} (h : Does t s g e g' s') :
    s'.arg = s.arg ∧ s'.nextThread = s.nextThread ∨
      ∃ n, s'.arg = Function.update s.arg s.nextThread (some n) ∧
        s'.nextThread = s.nextThread + 1 := by
  cases h with
  | create hn => exact .inr ⟨_, rfl, rfl⟩
  | _ => exact .inl ⟨rfl, rfl⟩

/-- What a step does to the threads that have been joined. -/
theorem Does.joined_ended {g' : ThreadPhase} {e : Event threads} (h : Does t s g e g' s')
    (hs : ∀ u, s.joined u = true → s.ended u = true) (u : ℕ) (hu : s'.joined u = true) :
    s'.ended u = true := by
  cases h with
  | @join _ _ id hended =>
      by_cases hid : u = id
      · rw [hid]
        exact hended
      · refine hs u ?_
        rw [← hu]
        exact (Function.update_of_ne hid _ _).symm
  | abandon | finish =>
      show Function.update s.ended t true u = true
      rw [Function.update_apply, hs u hu, ite_self]
  | _ => exact hs u hu

/-- The step lemma. -/
theorem Standing.step (h : Standing υ δ a.before)
    (hdoes : Does a.task a.before (δ a.task) a.event g a.after) :
    Standing (υ ++ [a]) (Function.update δ a.task g) a.after := by
  refine ⟨h.toOwners.step hdoes, ?_, fun t harg => ?_, hdoes.joined_ended h.joined⟩
  · rcases hdoes.args with ⟨harg, hnext⟩ | ⟨n, harg, hnext⟩
    · rw [harg, hnext]
      exact h.main
    · rw [harg, hnext, Function.update_of_ne h.main.2.ne]
      exact ⟨h.main.1, Nat.succ_pos _⟩
  · have hbefore : a.before.arg (t + 1) = none := by
      rcases hdoes.args with ⟨hsame, -⟩ | ⟨n, hsame, -⟩
      · rw [← hsame, harg]
      · rw [hsame] at harg
        by_cases ht : t + 1 = a.before.nextThread
        · rw [ht, Function.update_self] at harg
          cases harg
        · rwa [Function.update_of_ne ht] at harg
    by_cases ht : t + 1 = a.task
    · -- a handler that has not been started cannot begin
      rw [ht, Function.update_self, ← ht]
      rw [← ht, h.unstarted t hbefore] at hdoes
      obtain ⟨u, hist, e, s, s'⟩ := a
      dsimp only at hdoes hbefore
      cases hdoes with
      | start _ _ _ hstarted =>
          rw [hbefore] at hstarted
          cases hstarted
      | quiet _ _ => rfl
    · rw [Function.update_of_ne ht]
      exact h.unstarted t hbefore

/-- A step that faults. -/
theorem Standing.fault (h : Standing υ δ a.before) (hf : a.before.faults a.event.op = true)
    (hc : a.event.op.cancelled a.event.res = false) (hstep : (δ a.task).step a.event = some g)
    (hafter : a.after = { a.before with undefined := true }) :
    Standing (υ ++ [a]) (Function.update δ a.task g) a.after := by
  refine ⟨h.toOwners.fault hf hc hstep hafter, by rw [hafter]; exact h.main, fun t harg => ?_,
    by rw [hafter]; exact h.joined⟩
  rw [hafter] at harg
  have hphase := h.unstarted t harg
  rw [Function.update_of_ne, hphase]
  -- before it is started a handler makes no call
  intro ht
  rw [← ht, hphase] at hstep
  obtain ⟨u, hist, ⟨o, r⟩, s, s'⟩ := a
  cases o with
  | start => cases hf
  | point o => cases r <;> cases hstep
  | _ => cases hstep

/-- What holds at the end of a run. -/
theorem standing_of_run
    (hrun : Steps (lifecycle buffers) ((lifecycle buffers).init Threads.init) τ q) :
    ∃ δ, InPhases δ q ∧ Standing τ δ q.shared :=
  lifecycle_invariant_from (J := Standing) inPhases_start hrun
    ⟨owners_start, ⟨rfl, one_pos⟩, fun _ _ => rfl, fun _ h => by cases h⟩ (fun _ _ _ _ _ h _ _ hdoes => h.step hdoes)
    fun _ _ _ _ _ h _ hf hc hstep hafter => h.fault hf hc hstep hafter

end Standing

section Waiting

variable {buffers : ℕ → Buffer} {τ υ : List (Act threads Threads)}
  {p q : Pool threads Threads Unit} {t : ℕ} {δ : ℕ → ThreadPhase} {m : Mutex}

/-- A thread that has returned has ended, unless it is main. -/
theorem Standing.ended_of_returned (h : Standing τ δ q.shared) (hδ : InPhases δ q)
    (ht : (q.task (t + 1)).prog = .pure ()) : q.shared.ended (t + 1) = true := by
  have hlast := (hδ (t + 1)).2
  rw [ht] at hlast
  exact (h.ended (t + 1)).trans hlast

/-- Only main waits for a thread. -/
theorem eq_zero_of_joins (hδ : InPhases δ q) {id : ℕ} {k : Unit → ThreadText Unit}
    (ht : (q.task t).prog = Prog.call (E := threads) (.pthreadJoin id) k) : t = 0 := by
  obtain ⟨r, g', -, hstep⟩ := hδ.step ht
  rw [← isMain_of_after (hδ t).1]
  cases hphase : δ t with
  | main st l => rfl
  | handler g =>
      rw [hphase] at hstep
      cases hstep

/-- Main does not begin as a handler does. -/
theorem ne_zero_of_start (hδ : InPhases δ q) {k : ThreadInfo → ThreadText Unit}
    (ht : (q.task t).prog = Prog.call (E := threads) .start k) : t ≠ 0 := by
  rintro rfl
  obtain ⟨r, g', -, hstep⟩ := hδ.step ht
  obtain ⟨st, l, hphase⟩ := hδ.main
  rw [hphase] at hstep
  cases l <;> cases st <;> cases hstep

/-- A thread that holds a mutex and cannot go on waits for `list_mutex` with `file_mutex`. -/
theorem Standing.holder (h : Standing τ δ q.shared)
    (hδ : InPhases δ q) (howned : ∀ m, ¬q.shared.Orphaned m) (ht : q.shared.owner m = some t)
    (hwaits : (q.task t).prog = .pure () ∨
      ∃ o k, (q.task t).prog = .call o k ∧ Awaits t q.shared o) :
    m = .file ∧ q.shared.owner .list ≠ none := by
  have hheld : (δ t).holds m = true := (h.owned m t).mp ht
  rcases hwaits with hpure | ⟨o, k, hprog, hawaits⟩
  · cases t with
    | zero =>
        have hlast := (hδ 0).2
        rw [hpure] at hlast
        replace hlast : δ 0 = .main .atEnd false := hlast
        rw [hlast] at hheld
        cases m <;> cases hheld
    | succ t => exact absurd ⟨t + 1, ht, h.ended_of_returned hδ hpure⟩ (howned m)
  · have horder := hδ.inOrder h.toOwners hprog
    cases hawaits with
    | @mutex _ m' hm' hheld' =>
        cases m' with
        | list =>
            cases m with
            | file => exact ⟨rfl, hheld'⟩
            | list => exact absurd ht (horder.fresh .list hm')
        | file =>
            cases m with
            | file => exact absurd ht (horder.fresh .file hm')
            | list => exact absurd ht (horder.order hm')
    | join hknown hended => exact absurd ht (horder.joins (by simp [ThreadOp.joins?]) m)
    | start harg =>
        cases t with
        | zero => exact absurd rfl (ne_zero_of_start hδ hprog)
        | succ t =>
            rw [h.unstarted t harg] at hheld
            cases m <;> cases hheld

/-- **The threads do not deadlock.** As long as no mutex belongs to a thread that has ended, some
thread can go on, or main has returned and every thread that it has started has ended. -/
theorem threads_deadlock_free
    (hrun : Steps (lifecycle buffers) ((lifecycle buffers).init Threads.init) τ q)
    (hdefined : q.shared.undefined = false) (howned : ∀ m, ¬q.shared.Orphaned m) :
    (∃ t, (lifecycle buffers).CanStep q t) ∨
      (q.task 0).prog = .pure () ∧ ∀ t, q.shared.arg t ≠ none → q.shared.ended t = true := by
  obtain ⟨δ, hδ, h⟩ := standing_of_run hrun
  by_cases hgo : ∃ t, (lifecycle buffers).CanStep q t
  · exact .inl hgo
  -- a thread that has not returned waits for something
  have hwaits : ∀ t, (q.task t).prog = .pure () ∨
      ∃ o k, (q.task t).prog = .call o k ∧ Awaits t q.shared o := by
    intro t
    rcases (lifecycle buffers).canStep_or q t with ⟨_, hpure⟩ | hcan | ⟨o, k, ht, hblocked⟩
    · exact .inl hpure
    · exact absurd ⟨t, hcan⟩ hgo
    · exact .inr ⟨o, k, ht, awaits_of_blocked hdefined hblocked⟩
  -- so `list_mutex` is free, and then `file_mutex` is
  have hlist : q.shared.owner .list = none := by
    by_contra hheld
    obtain ⟨t, ht⟩ := Option.ne_none_iff_exists'.mp hheld
    cases (h.holder hδ howned ht (hwaits t)).1
  have hfree : ∀ m, q.shared.owner m = none := by
    intro m
    by_contra hheld
    obtain ⟨t, ht⟩ := Option.ne_none_iff_exists'.mp hheld
    exact (h.holder hδ howned ht (hwaits t)).2 hlist
  have hended : ∀ t, q.shared.arg t ≠ none → q.shared.ended t = true := by
    intro t harg
    cases t with
    | zero => exact absurd h.main.1 harg
    | succ t =>
        rcases hwaits (t + 1) with hpure | ⟨o, k, hprog, hawaits⟩
        · exact h.ended_of_returned hδ hpure
        · cases hawaits with
          | mutex hm hheld => exact absurd (hfree _) hheld
          | join hknown hno => cases eq_zero_of_joins hδ hprog
          | start hno => exact absurd hno harg
  refine .inr ⟨?_, hended⟩
  rcases hwaits 0 with hpure | ⟨o, k, hprog, hawaits⟩
  · exact hpure
  · cases hawaits with
    | mutex hm hheld => exact absurd (hfree _) hheld
    | join hknown hno =>
        rw [Threads.knows, Bool.and_eq_true] at hknown
        rw [hended _ (Option.isSome_iff_ne_none.mp hknown.1)] at hno
        cases hno
    | start harg => exact absurd rfl (ne_zero_of_start hδ hprog)

/-- Main can accept a connection, and a handler can write. -/
theorem threads_deadlock_free_twoClients : ∃ τ q, Steps (lifecycle fun _ => Buffer.zero)
      ((lifecycle fun _ => Buffer.zero).init Threads.init) τ q ∧
    τ.map (fun a => (a.task, a.event)) = twoClients ∧
    ((∃ t, (lifecycle fun _ => Buffer.zero).CanStep q t) ∨ (q.task 0).prog = .pure () ∧
      ∀ t, q.shared.arg t ≠ none → q.shared.ended t = true) := by
  obtain ⟨τ, q, k, hq, hτ, hs, hprog⟩ := exists_twoClients
  have hfinal : (Threads.init.play twoClients).map
      (fun s => (s.owner .file, s.owner .list, s.ended 2, s.undefined)) =
        some (some 2, none, false, false) := by decide
  rw [hs, Option.map_some, Option.some.injEq, Prod.mk.injEq, Prod.mk.injEq, Prod.mk.injEq] at hfinal
  obtain ⟨hfile, hlist, hended, hdefined⟩ := hfinal
  refine ⟨τ, q, hq, hτ, threads_deadlock_free hq hdefined ?_⟩
  rintro m ⟨t, howner, hdead⟩
  cases m with
  | file =>
      rw [hfile, Option.some.injEq] at howner
      rw [← howner, hended] at hdead
      cases hdead
  | list =>
      rw [hlist] at howner
      cases howner

end Waiting

/-! ### A mutex that is never unlocked -/

section Orphan

variable {buffers : ℕ → Buffer} {τ υ : List (Act threads Threads)}
  {q q' : Pool threads Threads Unit} {t u : ℕ} {δ : ℕ → ThreadPhase}

/-- A thread that has ended does nothing. -/
theorem Standing.ended_eq_false (h : Standing τ δ q.shared) (hδ : InPhases δ q) {o : ThreadOp}
    {k : ThreadRes o → ThreadText Unit} (ht : (q.task t).prog = .call o k) :
    q.shared.ended t = false := by
  obtain ⟨r, g', -, hstep⟩ := hδ.step ht
  rw [h.ended t]
  -- there is no step from the phase of a thread that has ended
  cases hphase : δ t with
  | main st l => rfl
  | handler g =>
      rw [hphase] at hstep
      obtain ⟨stage, f, l, hit⟩ := g
      cases stage with
      | abandoned n | gone =>
          cases o with
          | point o => cases r <;> cases hstep
          | _ => cases hstep
      | _ => rfl

/-- A thread that has come to the lock of `file_mutex` is a handler that has been started. -/
theorem Standing.started (h : Standing τ δ q.shared) (hδ : InPhases δ q) {o : ThreadOp}
    {k : ThreadRes o → ThreadText Unit} (ht : (q.task t).prog = .call o k)
    (ho : o.locks? = some .file) : q.shared.arg t ≠ none := by
  intro harg
  cases t with
  | zero => exact absurd rfl (hδ.ne_zero ht (.inr ho))
  | succ t =>
      obtain ⟨r, g', -, hstep⟩ := hδ.step ht
      rw [h.unstarted t harg] at hstep
      cases o with
      | posix o => cases hstep
      | point o => cases r <;> cases hstep
      | _ => cases ho

/-- What is locked by a thread that has ended stays locked. -/
theorem orphaned_of_steps
    (h₁ : Steps (lifecycle buffers) ((lifecycle buffers).init Threads.init) τ q)
    (hq : q.shared.owner .file = some u ∧ q.shared.ended u = true)
    (h₂ : Steps (lifecycle buffers) q υ q') :
    q'.shared.owner .file = some u ∧ q'.shared.ended u = true := by
  obtain ⟨δ, hδ, h⟩ := standing_of_run h₁
  refine (lifecycle_invariant_from (J := fun υ δ s =>
    Standing (τ ++ υ) δ s ∧ s.owner .file = some u ∧ s.ended u = true) hδ h₂
    ⟨by rwa [List.append_nil], hq⟩ ?_ ?_).elim fun _ hJ => hJ.2.2
  · rintro υ δ a g - ⟨h, howner, hended⟩ - - hdoes
    refine ⟨by rw [← List.append_assoc]; exact h.step hdoes, ?_, ?_⟩
    · rcases hdoes.mutexes with ⟨hsame, -⟩ | ⟨m, hfree, hlock, -⟩ | ⟨m, hheld, hunlock, hholds⟩
      · rw [hsame, howner]
      · rw [hlock, Function.update_of_ne, howner]
        rintro rfl
        rw [howner] at hfree
        cases hfree
      · rw [hunlock, Function.update_of_ne, howner]
        -- a thread that has ended unlocks nothing
        rintro rfl
        have htask : a.task = u := by
          have hself := (h.owned .file a.task).mpr hheld
          rwa [howner, Option.some.injEq, eq_comm] at hself
        rw [h.ended, ← htask] at hended
        rw [(hdoes.of_hasEnded hended).1] at hholds
        rw [hholds, Function.update_self] at hheld
        cases hheld
    · rcases hdoes.ends with ⟨hsame, -⟩ | ⟨-, hends, -⟩
      · rw [hsame, hended]
      · rw [hends, Function.update_apply, hended, ite_self]
  · rintro υ δ a g - ⟨h, howner, hended⟩ - hf hc hstep hafter
    refine ⟨by rw [← List.append_assoc]; exact h.fault hf hc hstep hafter, ?_⟩
    rw [hafter]
    exact ⟨howner, hended⟩

/-- **What a handler takes with it is lost.** Once `file_mutex` belongs to a thread that has ended
it does so for ever: in every continuation nobody locks it and nothing is written to the device, and
a thread that waits for it stays where it is, so that main is never done with joining it. -/
theorem orphaned_for_ever
    (h₁ : Steps (lifecycle buffers) ((lifecycle buffers).init Threads.init) τ q)
    (horphaned : q.shared.Orphaned .file) (h₂ : Steps (lifecycle buffers) q υ q') :
    q'.shared.Orphaned .file ∧
      (∀ a ∈ υ, a.event.op.locks? ≠ some .file ∧ a.event.op.writes = false) ∧
      ∀ t o k, (q.task t).prog = .call o k → o.locks? = some .file →
        q'.task t = q.task t ∧ ∀ a ∈ υ, a.event.op ≠ .pthreadJoin t := by
  obtain ⟨u, hq⟩ := horphaned
  -- before an act `file_mutex` still belongs to the thread
  have hbefore : ∀ a ∈ υ, ∃ τ' m k, τ' <+: υ ∧ Steps (lifecycle buffers) q τ' m ∧
      Steps (lifecycle buffers) ((lifecycle buffers).init Threads.init) (τ ++ τ') m ∧
      m.shared = a.before ∧ (m.task a.task).prog = .call a.event.op k ∧
      m.shared.owner .file = some u ∧ m.shared.ended u = true := by
    intro a ha
    obtain ⟨τ', m, k, hbegins, hm, hshared, -, hprog⟩ := h₂.before_act ha
    exact ⟨τ', m, k, hbegins, hm, h₁.trans hm, hshared, hprog, orphaned_of_steps h₁ hq hm⟩
  have hanswered : ∀ a ∈ υ, a.before.answer a.task a.event.op a.event.res = some a.after :=
    h₂.answered
  have hacts : ∀ a ∈ υ, a.event.op.locks? ≠ some .file ∧ a.event.op.writes = false := by
    intro a ha
    obtain ⟨τ', m, k, -, -, hm, hshared, hprog, howner, hended⟩ := hbefore a ha
    constructor
    · intro hlock
      have hfree := owner_of_lock hlock (hanswered a ha)
      rw [← hshared, howner] at hfree
      cases hfree
    · by_contra hwrites
      rw [Bool.not_eq_false] at hwrites
      have hself := (mutex_discipline hm hprog).2 hwrites
      rw [howner, Option.some.injEq] at hself
      obtain ⟨δ, hδ, h⟩ := standing_of_run hm
      rw [hself, h.ended_eq_false hδ hprog] at hended
      cases hended
  have hstays : ∀ {t o k τ' m}, (q.task t).prog = .call o k → o.locks? = some .file → τ' <+: υ →
      Steps (lifecycle buffers) q τ' m → m.task t = q.task t := by
    intro t o k τ' m ht ho hbegins hm
    refine hm.stays ht fun a ha _ hop => (hacts a (hbegins.subset ha)).1 ?_
    rw [hop, ho]
  refine ⟨⟨u, orphaned_of_steps h₁ hq h₂⟩, hacts, fun t o k ht ho =>
    ⟨hstays ht ho List.prefix_rfl h₂, fun a ha hjoin => ?_⟩⟩
  obtain ⟨τ', m, k', hbegins, hm, hrun, hshared, hprog, -⟩ := hbefore a ha
  obtain ⟨δ, hδ, h⟩ := standing_of_run hrun
  have hwaits : (m.task t).prog = .call o k := by rw [hstays ht ho hbegins hm, ht]
  -- the thread that waits has been started and has not ended
  have hended := h.ended_eq_false hδ hwaits
  have hknown : m.shared.knows t = true := by
    rw [Threads.knows, Bool.and_eq_true, Option.isSome_iff_ne_none, Bool.not_eq_true']
    refine ⟨h.started hδ hwaits ho, ?_⟩
    by_contra hjoined
    rw [Bool.not_eq_false] at hjoined
    rw [h.joined t hjoined] at hended
    cases hended
  have hanswer := hanswered a ha
  obtain ⟨v, hist, e, s, s'⟩ := a
  dsimp only at hjoin hanswer hshared
  obtain ⟨op, r⟩ := e
  dsimp only at hjoin hanswer
  subst hjoin hshared
  rw [ended_of_join hknown hanswer] at hended
  cases hended

/-- The first client sends a byte as well, and its handler comes to `file_mutex`, which the second
handler holds. Main is told to terminate and cancels the second handler, which ends. -/
def waitingForGood : List (ℕ × Event threads) :=
  twoClients ++ turn 1 (upTo 0 (opened 0 4 deviceFd ++ [⟨.recv 4 bufferSize, writeOne⟩])) ++
    turn 0 (terminate ++ requestExit 1 (some 0) 2 ++ [⟨.loadThreadId 1, (2 : ℕ)⟩]) ++
    turn 2 (cancelledAt 1 6 (.write 7 writeOne.data))

/-- Main joins the second handler, and will not be done with the first one. -/
theorem orphaned_for_ever_waiting : ∃ τ q υ q', Steps (lifecycle fun _ => Buffer.zero)
      ((lifecycle fun _ => Buffer.zero).init Threads.init) τ q ∧
    τ.map (fun a => (a.task, a.event)) = waitingForGood ∧ q.shared.Orphaned .file ∧
    Steps (lifecycle fun _ => Buffer.zero) q υ q' ∧
    υ.map (fun a => (a.task, a.event)) = [(0, ⟨.pthreadJoin 2, ()⟩)] ∧
    q'.shared.Orphaned .file ∧ q'.task 1 = q.task 1 := by
  have hplay : (Threads.init.play (waitingForGood ++ [(0, ⟨.pthreadJoin 2, ()⟩)])).isSome = true := by
    decide
  obtain ⟨s₂, hs₂⟩ := Option.isSome_iff_exists.mp hplay
  rw [Threads.play_append, Option.bind_eq_some_iff] at hs₂
  obtain ⟨s₁, hs₁, hs₂⟩ := hs₂
  -- main, up to the join and after it
  obtain ⟨b, hb⟩ := runs_requestExit 1 (some 0) 2
  have hjoin : terminate ++ requestExit 1 (some 0) 2 ++ join 1 2 =
      (terminate ++ requestExit 1 (some 0) 2 ++ [⟨.loadThreadId 1, (2 : ℕ)⟩]) ++
        ⟨.pthreadJoin 2, ()⟩ :: (join 1 2).drop 2 := by
    simp [join]
  rw [hjoin] at hb
  obtain ⟨k₀, hk₀, -⟩ := hb.before
  have hconnect : Runs mainThread (connect 3 4 0 ++ connect 3 6 1) mainThread :=
    (runs_connect (by decide)).trans (runs_connect (by decide))
  have hmain : Runs mainThread (eventsOf 0 waitingForGood)
      (Prog.call (E := threads) (.pthreadJoin 2) k₀) := by
    simpa [waitingForGood, twoClients] using hconnect.trans hk₀
  -- the first handler, up to the lock
  obtain ⟨k₁, hk₁⟩ : ∃ k, Runs (handleConnection 0 Buffer.zero)
      (opened 0 4 deviceFd ++ [⟨.recv 4 bufferSize, writeOne⟩])
      (Prog.call (E := posix) (.mutexLock .file) k) := by
    obtain ⟨k, hk⟩ := runs_writing (n := 0) 4 deviceFd writeOne (by decide)
      (by decide) (by decide) (by decide)
    rw [List.append_cons (opened 0 4 deviceFd)] at hk
    obtain ⟨k', hk', -⟩ := hk.before
    exact ⟨k', hk'⟩
  obtain ⟨k₁', hk₁'⟩ := runs_upTo_call hk₁
  have hfirst : Runs (handlerThread Buffer.zero) (eventsOf 1 waitingForGood)
      (Prog.call (E := threads) (.point (.mutexLock .file)) k₁') := by
    simpa [waitingForGood, twoClients] using hk₁'
  -- the second handler
  obtain ⟨k₂, hk₂⟩ : ∃ k, Runs (handleConnection 1 Buffer.zero)
      (opened 1 6 otherFd ++ [⟨.recv 6 bufferSize, writeOne⟩, ⟨.mutexLock .file, ()⟩])
      (Prog.call (E := posix) (.write otherFd.val writeOne.data) k) :=
    runs_writing 6 otherFd writeOne (by decide) (by decide) (by decide) (by decide)
  have hsecond : Runs (handlerThread Buffer.zero) (eventsOf 2 waitingForGood) (.pure ()) := by
    have hcancelled := runs_cancelledAt (show (6 : ℤ) ≠ -1 by decide) hk₂
    simpa [waitingForGood, twoClients, otherFd] using hcancelled
  have hruns : ∀ u, ∃ b,
      Runs ((lifecycle fun _ => Buffer.zero).text u) (eventsOf u waitingForGood) b ∧
        (u = 0 → b = Prog.call (E := threads) (.pthreadJoin 2) k₀) ∧
        (u = 1 → b = Prog.call (E := threads) (.point (.mutexLock .file)) k₁') := by
    intro u
    rcases u with _ | _ | _ | u
    · exact ⟨_, hmain, fun _ => rfl, by simp⟩
    · exact ⟨_, hfirst, by simp, fun _ => rfl⟩
    · exact ⟨_, hsecond, by simp, by simp⟩
    · exact ⟨handlerThread Buffer.zero, by simpa [waitingForGood, twoClients] using .refl _,
        by simp, by simp⟩
  choose b hb hb₀ hb₁ using hruns
  obtain ⟨τ, q, hq, hτ, hs, hprog, hrest⟩ := exists_run_at 1 hs₁ hb
  rw [hb₁ 1 rfl] at hprog
  have hmain' := hrest 0 (by decide)
  rw [hb₀ 0 rfl] at hmain'
  have horphaned : q.shared.Orphaned .file := by
    have hfinal : (Threads.init.play waitingForGood).map (fun s => (s.owner .file, s.ended 2)) =
        some (some 2, true) := by decide
    rw [hs₁, ← hs, Option.map_some, Option.some.injEq, Prod.mk.injEq] at hfinal
    exact ⟨2, hfinal⟩
  -- main joins the second handler
  obtain ⟨υ, q', hq', hυ, -⟩ := exists_run (p := q)
    (b := Function.update (fun u => (q.task u).prog) 0 (k₀ ())) (hs.symm ▸ hs₂) fun u => by
      by_cases hu : u = 0
      · rw [hu, Function.update_self]
        exact hmain'.trans (Runs.call (E := threads) (o := .pthreadJoin 2) () (.refl _))
      · rw [Function.update_of_ne hu, eventsOf_cons, if_neg (Ne.symm hu)]
        exact .refl _
  obtain ⟨hstill, -, hwaits⟩ := orphaned_for_ever hq horphaned hq'
  exact ⟨τ, q, υ, q', hq, hτ, horphaned, hq', hυ, hstill, (hwaits 1 _ _ hprog rfl).1⟩

end Orphan

end Aesd.Server

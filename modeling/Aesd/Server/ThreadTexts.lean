import Aesd.Server.ThreadPhases

/-! # The texts follow the phases

Main and the handlers follow the monitor of the phases, whatever answers they get and wherever they
are cancelled. **`lifecycle_invariant`** is the rule for what holds in every run of the server: a
relation between the acts so far, the phases of the threads and what they share, kept by everything
that a thread does in its phase. -/

namespace Aesd.Server

open Effects CLib

/-! ### Main -/

section Main

variable {α : Type} {o : ThreadOp} {k : ThreadRes o → ThreadText α} {Q : α → ThreadPhase → Prop}
  {st : MainStage} {n : ThreadInfo}

/-- An operation of main while it does not hold `list_mutex`. -/
theorem follows_outside {f : ThreadRes o → MainStage} (ho : o.locksList = false)
    (hstep : ∀ r, st.outside ⟨o, r⟩ = some (f r))
    (hk : ∀ r, Follows phases (.main (f r) false) (k r) Q) :
    Follows phases (.main st false) (.call o k) Q := by
  intro r _
  refine ⟨.main (f r) false, ?_, hk r⟩
  show (if o.locksList = true then some (ThreadPhase.main st true) else
    (st.outside ⟨o, r⟩).map fun st => ThreadPhase.main st false) = _
  rw [ho, hstep]
  rfl

/-- An operation of main while it holds `list_mutex`. -/
theorem follows_inside {f : ThreadRes o → MainStage} (ho : o.unlocksList = false)
    (hstep : ∀ r, st.inside ⟨o, r⟩ = some (f r))
    (hk : ∀ r, Follows phases (.main (f r) true) (k r) Q) :
    Follows phases (.main st true) (.call o k) Q := by
  intro r _
  refine ⟨.main (f r) true, ?_, hk r⟩
  show (if o.unlocksList = true then some (ThreadPhase.main st false) else
    (st.inside ⟨o, r⟩).map fun st => ThreadPhase.main st true) = _
  rw [ho, hstep]
  rfl

/-- Main locks `list_mutex`. -/
theorem follows_lock {k : Unit → ThreadText α} (hk : Follows phases (.main st true) (k ()) Q) :
    Follows phases (.main st false) (Prog.call (E := threads) (.posix (.mutexLock .list)) k) Q :=
  fun _ _ => ⟨.main st true, rfl, hk⟩

/-- Main unlocks `list_mutex`. -/
theorem follows_unlock {k : Unit → ThreadText α} (hk : Follows phases (.main st false) (k ()) Q) :
    Follows phases (.main st true) (Prog.call (E := threads) (.posix (.mutexUnlock .list)) k) Q :=
  fun _ _ => ⟨.main st false, rfl, hk⟩

theorem follows_startHandler (clientFd : ℤ) :
    Follows phases (.main (.fresh n) false) (startHandler clientFd n)
      fun res g => res = .inl () ∧ g = .main .serving false := by
  simp only [startHandler, storeClientFd, perform, listInsertHead, pthreadCreate, Prog.bind_eq,
    Prog.call_bind, Prog.pure_bind, Prog.pure_eq]
  refine follows_outside rfl (fun _ => if_pos rfl) fun _ => follows_lock ?_
  refine follows_inside rfl (fun _ => if_pos rfl) fun _ => follows_unlock ?_
  refine follows_outside rfl (fun _ => if_pos rfl) fun r => ?_
  by_cases hr : r = 0
  · rw [if_pos hr, if_neg (not_not.mpr hr)]
    exact ⟨rfl, rfl⟩
  · rw [if_neg hr, if_pos hr]
    refine follows_outside rfl (fun _ => rfl) fun _ => follows_lock ?_
    refine follows_inside rfl (fun _ => if_pos rfl) fun _ => follows_unlock ?_
    refine follows_outside rfl (fun _ => rfl) fun _ => ?_
    exact follows_outside rfl (fun _ => if_pos rfl) fun _ => ⟨rfl, rfl⟩

theorem follows_acceptRound : Follows phases (.main .serving false) acceptRound fun res g =>
    Sum.elim (fun _ => g = .main .serving false) (fun _ => g = .main .closing false) res := by
  simp only [acceptRound, terminateProgram, accept, loadServerFd, accepted, syslogInfo, malloc,
    perform, Prog.bind_eq, Prog.call_bind, Prog.pure_bind, Prog.pure_eq]
  refine follows_outside rfl (fun _ => rfl) fun b => ?_
  cases b with
  | true => exact rfl
  | false =>
      refine follows_outside rfl (fun _ => rfl) fun _ => ?_
      refine follows_outside rfl (fun _ => rfl) fun clientFd => ?_
      by_cases hfd : clientFd = -1
      · rw [if_pos hfd]
        -- `terminate_program` is read once more after a failed `accept`
        refine follows_outside rfl (fun _ => rfl) fun b => ?_
        cases b with
        | true => exact rfl
        | false => exact follows_outside rfl (fun _ => rfl) fun _ => rfl
      · rw [if_neg hfd]
        refine follows_outside rfl (fun _ => rfl) fun _ => ?_
        refine follows_outside rfl (fun _ => rfl) fun r => ?_
        cases r with
        | none =>
            refine follows_outside rfl (fun _ => rfl) fun _ => ?_
            exact follows_outside rfl (fun _ => rfl) fun _ => rfl
        | some n =>
            refine (follows_startHandler clientFd).mono ?_
            rintro _ _ ⟨rfl, hg⟩
            exact hg

theorem follows_shutdownRound (entry : Option ThreadInfo) :
    Follows phases (.main (.head entry) true) (shutdownRound entry) fun res g =>
      Sum.elim (fun next => g = .main (.head next) true) (fun _ => g = .main .atEnd true) res := by
  cases entry with
  | none => exact rfl
  | some entry =>
      simp only [shutdownRound, listNext, pthreadCancel, loadThreadId, pthreadJoin, perform,
        Prog.bind_eq, Prog.call_bind, Prog.pure_bind, Prog.pure_eq]
      refine follows_inside rfl (fun _ => if_pos rfl) fun next => ?_
      refine follows_inside rfl (fun _ => if_pos rfl) fun id => ?_
      refine follows_inside rfl (fun _ => if_pos rfl) fun _ => follows_unlock ?_
      refine follows_outside rfl (fun _ => if_pos rfl) fun id => ?_
      refine follows_outside rfl (fun _ => if_pos rfl) fun _ => follows_lock ?_
      refine follows_inside rfl (fun _ => if_pos rfl) fun _ => ?_
      exact follows_inside rfl (fun _ => if_pos rfl) fun _ => rfl

/-- **Main follows the phases.** -/
theorem follows_mainThread :
    Follows phases (.main .serving false) mainThread fun _ g => g = .main .atEnd false := by
  -- what comes after the server socket has been closed, if it was open
  have hshutdown : Follows phases (.main .closing false)
      ((perform (.mutexLock .list)).bind fun _ => listFirst.bind fun entry =>
        (Prog.iterate shutdownRound entry).bind fun _ =>
          (perform (.mutexUnlock .list)).bind fun _ => closelog)
      fun _ g => g = .main .atEnd false := by
    simp only [perform, listFirst, closelog, Prog.call_bind, Prog.pure_bind]
    refine follows_lock ?_
    refine follows_inside rfl (fun _ => rfl) fun entry => ?_
    refine (Follows.iterate (fun entry g => g = .main (.head entry) true)
      (Q := fun _ g => g = .main .atEnd true) rfl ?_).bind ?_
    · rintro entry _ rfl
      exact (follows_shutdownRound entry).mono fun res _ hg => by cases res <;> exact hg
    · rintro _ _ rfl
      exact follows_unlock (follows_outside rfl (fun _ => rfl) fun _ => rfl)
  rw [mainThread, Prog.bind_eq]
  refine (Follows.iterate (fun _ g => g = .main .serving false)
    (Q := fun _ g => g = .main .closing false) rfl ?_).bind ?_
  · rintro _ _ rfl
    exact follows_acceptRound.mono fun res _ hg => by cases res <;> exact hg
  · rintro _ _ rfl
    simp only [shutdown, loadServerFd, Prog.bind_eq, Prog.call_bind, Prog.pure_bind]
    refine follows_outside rfl (fun _ => rfl) fun fd => ?_
    refine Follows.ite ?_ hshutdown
    refine follows_outside rfl (fun _ => rfl) fun fd => ?_
    exact follows_outside rfl (fun _ => rfl) fun _ => hshutdown

end Main

/-- The system calls of the handler of a node alone. -/
def calls (n : ThreadInfo) : Monitor posix HandlerPhase where
  expects _ _ := True
  step g e := if g.stage = .serving n ∨ g.stage = .unlinked n then g.call e.op else none

/-- A call that a handler with its node on the list can make with or without `file_mutex`. -/
def PosixOp.Idle (n : ThreadInfo) (o : PosixOp) : Prop :=
  o.isCancellationPoint = true ∨ (∃ i, o = .overrun i) ∨ o = .loadClientFd n

section Handler

variable {n : ThreadInfo} {f l h : Bool} {α : Type}

/-- A call of a handler whose node is on the list. -/
theorem follows_serving {o : PosixOp} {k : PosixRes o → Handler α} {g : HandlerPhase}
    {Q : α → HandlerPhase → Prop} (ho : HandlerPhase.serve ⟨.serving n, f, l, h⟩ n o = some g)
    (hk : ∀ r, Follows (calls n) g (k r) Q) :
    Follows (calls n) ⟨.serving n, f, l, h⟩ (Prog.call (E := posix) o k) Q :=
  fun r _ => ⟨g, (if_pos (.inl rfl)).trans ho, hk r⟩

/-- A call of a handler that has unlinked its node. -/
theorem follows_unlinked {o : PosixOp} {k : PosixRes o → Handler α} {g : HandlerPhase}
    {Q : α → HandlerPhase → Prop} (ho : HandlerPhase.leave ⟨.unlinked n, f, l, h⟩ n o = some g)
    (hk : ∀ r, Follows (calls n) g (k r) Q) :
    Follows (calls n) ⟨.unlinked n, f, l, h⟩ (Prog.call (E := posix) o k) Q :=
  fun r _ => ⟨g, (if_pos (.inr rfl)).trans ho, hk r⟩

theorem PosixOp.Idle.serve {o : PosixOp} (ho : o.Idle n) :
    HandlerPhase.serve ⟨.serving n, f, false, false⟩ n o = some ⟨.serving n, f, false, false⟩ := by
  rcases ho with ho | ⟨i, rfl⟩ | rfl
  · cases o <;> first | rfl | cases ho
  · rfl
  · exact if_pos rfl

theorem PosixOp.idle_of_isIo {o : PosixOp} (ho : o.isIo = true) : o.Idle n := by
  refine .inl ?_
  cases o <;> first | rfl | cases ho

theorem follows_of_idle {p : Handler α} (hp : Uses (E := posix) (PosixOp.Idle n) p) :
    Follows (calls n) ⟨.serving n, f, false, false⟩ p fun _ g => g = ⟨.serving n, f, false, false⟩ :=
  hp.follows fun _ _ ho => (if_pos (.inl rfl)).trans ho.serve

/-- The data branch locks `file_mutex` and unlocks it. -/
theorem follows_calls_storeData (clientFd fileFd : ℤ) (buffer : Buffer) (m : ℕ) :
    Follows (calls n) ⟨.serving n, false, false, false⟩ (storeData clientFd fileFd buffer m)
      fun _ g => g = ⟨.serving n, false, false, false⟩ := by
  simp only [storeData, mutexLock, mutexUnlock, write, syslog, close, Prog.bind_eq, Prog.call_bind,
    Prog.pure_bind, Prog.pure_eq]
  refine follows_serving rfl fun _ => Follows.ite ?_ ?_
  · refine follows_serving rfl fun _ => ?_
    exact follows_serving rfl fun _ => rfl
  · refine follows_serving rfl fun _ => Follows.ite ?_ ?_
    · refine follows_serving rfl fun _ => ?_
      refine follows_serving rfl fun _ => ?_
      exact follows_serving rfl fun _ => rfl
    · refine follows_serving rfl fun _ => ?_
      refine follows_serving rfl fun _ => follows_of_idle ?_
      exact uses_respond_of (.inl rfl) fun _ ho => PosixOp.idle_of_isIo ho

theorem uses_idle_seekCommand {fileFd : ℤ} {buffer : Buffer} :
    Uses (E := posix) (PosixOp.Idle n) (seekCommand n fileFd buffer) := by
  refine uses_seekCommand_of (.inr (.inl ⟨_, rfl⟩)) (.inl rfl) fun seekto => ?_
  exact uses_performSeek_of (fun _ _ _ => .inl rfl) (.inr (.inr rfl)) fun _ ho =>
    PosixOp.idle_of_isIo ho

theorem follows_calls_serve (clientFd fileFd : ℤ) (buffer : Buffer) :
    Follows (calls n) ⟨.serving n, false, false, false⟩ (serve n clientFd fileFd buffer)
      fun _ g => g = ⟨.serving n, false, false, false⟩ := by
  have hchunk : ∀ r, Follows (calls n) ⟨.serving n, false, false, false⟩
      (afterChunk n clientFd fileFd buffer r) fun _ g => g = ⟨.serving n, false, false, false⟩ :=
    fun r => Follows.ite ((follows_of_idle uses_idle_seekCommand).bind fun _ _ hg => hg)
      (follows_calls_storeData _ _ _ _)
  rw [serve_eq]
  refine follows_serving rfl fun r => Follows.ite rfl (Follows.ite ?_ (hchunk r))
  exact follows_serving rfl fun _ => hchunk r

/-- `handle_client` up to the end of its loop. -/
theorem follows_calls_handleConnection (stack : Buffer) :
    Follows (calls n) ⟨.serving n, false, false, false⟩ (handleConnection n stack)
      fun _ g => g = ⟨.serving n, false, false, false⟩ := by
  have hloop : ∀ clientFd fileFd, Follows (calls n) ⟨.serving n, false, false, false⟩
      (Prog.iterate (serve n clientFd fileFd) stack)
      fun _ g => g = ⟨.serving n, false, false, false⟩ := by
    intro clientFd fileFd
    refine Follows.iterate (fun _ g => g = ⟨.serving n, false, false, false⟩) rfl ?_
    rintro buffer _ rfl
    exact (follows_calls_serve clientFd fileFd buffer).mono fun res _ hg => by cases res <;> exact hg
  simp only [handleConnection, loadClientFd, openFile, syslog, Prog.bind_eq, Prog.call_bind,
    Prog.pure_bind]
  refine follows_serving (if_pos rfl) fun clientFd => ?_
  refine follows_serving rfl fun fileFd => Follows.ite ?_ (hloop _ _)
  exact follows_serving rfl fun _ => hloop _ _

/-- `thread_cleanup`, of a thread that has been cancelled with `file_mutex` or does not hold it. -/
theorem follows_calls_threadCleanup :
    Follows (calls n) ⟨.serving n, f, false, f⟩ (threadCleanup n)
      fun _ g => g = ⟨.freed, f, false, f⟩ := by
  have hrest : Follows (calls n) ⟨.serving n, f, false, f⟩ (do
      mutexLock .list
      listRemove n
      mutexUnlock .list
      free n) fun _ g => g = ⟨.freed, f, false, f⟩ := by
    refine follows_serving rfl fun _ => ?_
    refine follows_serving (if_pos ⟨rfl, rfl⟩) fun _ => ?_
    refine follows_unlinked rfl fun _ => ?_
    exact follows_unlinked (if_pos ⟨rfl, rfl⟩) fun _ => rfl
  have hclose : ∀ fd, HandlerPhase.serve ⟨.serving n, f, false, f⟩ n (.close fd) =
      some ⟨.serving n, f, false, f⟩ := by
    intro fd
    cases f <;> rfl
  simp only [threadCleanup, loadClientFd, close, Prog.bind_eq, Prog.call_bind, Prog.pure_bind]
  refine follows_serving (if_pos rfl) fun _ => Follows.ite ?_ hrest
  refine follows_serving (if_pos rfl) fun _ => ?_
  exact follows_serving (hclose _) fun _ => hrest

/-- A thread that makes a call can be cancelled at it. -/
theorem cancel_of_call {g g' : HandlerPhase} {o : PosixOp} (hpoint : o.isCancellationPoint = true)
    (hstage : g.stage = .serving n ∨ g.stage = .unlinked n) (hcall : g.call o = some g') :
    ∃ f, g.cancel = some ⟨.serving n, f, false, f⟩ := by
  obtain ⟨stage, f, l, h⟩ := g
  rcases hstage with rfl | rfl
  · have hserve : HandlerPhase.serve ⟨.serving n, f, l, h⟩ n o =
        if l || h && !f then none else some ⟨.serving n, f, l, h⟩ := by
      cases o <;> first | rfl | cases hpoint
    have hguard : ¬(l || h && !f) = true := by
      intro hguard
      rw [if_pos hguard] at hserve
      exact absurd (hserve.symm.trans hcall) (by simp)
    refine ⟨f, (if_neg hguard).trans ?_⟩
    rcases l with _ | _
    · rfl
    · exact absurd rfl hguard
  · cases o <;> first | cases hcall | cases hpoint

/-- With cancellation enabled the text is followed up to its end or to the call that is cancelled.
-/
theorem follows_cancellable {p : Handler α} {g : HandlerPhase} {Q : α → HandlerPhase → Prop}
    (hp : Follows (calls n) g p Q) :
    Follows phases (.handler g) (cancellable p) fun r c =>
      r.elim (∃ f, c = .handler ⟨.serving n, f, false, f⟩) fun a => ∃ g', c = .handler g' ∧ Q a g' := by
  refine Follows.attempt ThreadPhase.handler
    (fun c => ∃ f, c = ThreadPhase.handler ⟨.serving n, f, false, f⟩) ?_ ?_ hp
  · rintro g o r' r _ rfl
    refine ⟨trivial, fun g' hg' => ?_⟩
    obtain ⟨-, hcall⟩ := Option.ite_none_right_eq_some.mp hg'
    show (g.call o).map ThreadPhase.handler = _
    rw [hcall]
    rfl
  · rintro g o r' hexp rfl hstep
    have hpoint : o.isCancellationPoint = true := hexp o rfl
    -- a call that is cancelled could have been answered as well
    obtain ⟨r⟩ : Nonempty (PosixRes o) := by
      cases o with
      | openFile => exact ⟨⟨-1, le_rfl⟩⟩
      | recv fd n => exact ⟨.empty n⟩
      | read fd n => exact ⟨.empty n⟩
      | send | write | ioctl | close => exact ⟨(0 : ℤ)⟩
      | syslog => exact ⟨()⟩
      | _ => cases hpoint
    obtain ⟨g', hg'⟩ := hstep r trivial
    obtain ⟨hstage, hcall⟩ := Option.ite_none_right_eq_some.mp hg'
    obtain ⟨f, hcancel⟩ := cancel_of_call hpoint hstage hcall
    refine ⟨_, ?_, f, rfl⟩
    show g.cancel.map ThreadPhase.handler = _
    rw [hcancel]
    rfl

/-- With cancellation disabled the text is followed to its end. -/
theorem follows_masked {p : Handler α} {g : HandlerPhase} {Q : α → HandlerPhase → Prop}
    (hp : Follows (calls n) g p Q) :
    Follows phases (.handler g) (masked p) fun r c =>
      r.elim False fun a => ∃ g', c = .handler g' ∧ Q a g' := by
  refine Follows.attempt ThreadPhase.handler (fun _ => False) ?_ ?_ hp
  · rintro g o r' r _ hr
    refine ⟨trivial, fun g' hg' => ?_⟩
    obtain ⟨-, hcall⟩ := Option.ite_none_right_eq_some.mp hg'
    show (g.call o).map ThreadPhase.handler = _
    rw [hcall]
    rfl
  · rintro g o r' _ hr
    cases hr

/-- A handler has ended. -/
def Over (g : ThreadPhase) : Prop :=
  ∃ stage f, g = .handler ⟨stage, f, false, f⟩ ∧ (stage = .gone ∨ ∃ n, stage = .abandoned n)

/-- A handler ends with its node freed or still on the list. -/
theorem follows_exit {stage : HandlerStage} (hstage : stage = .freed ∨ stage = .serving n) :
    Follows phases (.handler ⟨stage, f, false, f⟩) exit fun _ g => Over g := by
  intro _ _
  rcases hstage with rfl | rfl
  · refine ⟨.handler ⟨.gone, f, false, f⟩, ?_, .gone, f, rfl, .inl rfl⟩
    show (if _ then _ else _ : Option HandlerPhase).map ThreadPhase.handler = _
    rw [if_pos ⟨rfl, rfl⟩]
    rfl
  · refine ⟨.handler ⟨.abandoned n, f, false, f⟩, ?_, .abandoned n, f, rfl, .inr ⟨n, rfl⟩⟩
    show (if _ then _ else _ : Option HandlerPhase).map ThreadPhase.handler = _
    rw [if_pos ⟨rfl, rfl⟩]
    rfl

/-- **A handler follows the phases.** -/
theorem follows_handlerThread (stack : Buffer) :
    Follows phases (.handler ⟨.waiting, false, false, false⟩) (handlerThread stack)
      fun _ g => Over g := by
  simp only [handlerThread, start, Prog.bind_eq, Prog.call_bind, Prog.pure_bind]
  intro n _
  refine ⟨.handler ⟨.serving n, false, false, false⟩, rfl, ?_⟩
  refine (follows_cancellable (follows_calls_handleConnection stack)).bind fun r c hr => ?_
  cases r with
  | some _ =>
      -- the end of the text has been reached: the routine can be cancelled in turn
      obtain ⟨_, rfl, rfl⟩ := hr
      refine (follows_cancellable follows_calls_threadCleanup).bind fun r c hr => ?_
      cases r with
      | some _ =>
          obtain ⟨_, rfl, rfl⟩ := hr
          exact follows_exit (n := n) (.inl rfl)
      | none =>
          obtain ⟨f, rfl⟩ := hr
          exact follows_exit (.inr rfl)
  | none =>
      obtain ⟨f, rfl⟩ := hr
      refine (follows_masked follows_calls_threadCleanup).bind fun r c hr => ?_
      cases r with
      | some _ =>
          obtain ⟨_, rfl, rfl⟩ := hr
          exact follows_exit (n := n) (.inl rfl)
      | none => exact hr.elim

end Handler

/-! ### Runs of the server -/

/-- The phase in which a thread begins. -/
def startPhase : ℕ → ThreadPhase
  | 0 => .main .serving false
  | _ + 1 => .handler ⟨.waiting, false, false, false⟩

/-- The phase in which main returns. -/
def EndPhase (t : ℕ) (_ : Unit) (g : ThreadPhase) : Prop := t = 0 → g = .main .atEnd false

variable {buffers : ℕ → Buffer} {τ : List (Act threads Threads)} {q : Pool threads Threads Unit}

theorem watched_start : Watched (fun _ => phases) startPhase EndPhase startPhase
    ((lifecycle buffers).init Threads.init) := by
  refine watched_init (fun t => ?_) _
  cases t with
  | zero => exact follows_mainThread.mono fun _ _ hg _ => hg
  | succ t => exact (follows_handlerThread (buffers t)).mono fun _ _ _ h => by cases h

theorem callFaults_of_isCancellationPoint {s : Threads} {o : PosixOp}
    (h : o.isCancellationPoint = true) : s.callFaults o = false := by
  cases o <;> first | rfl | cases h

/-- A call that is cancelled touches nothing. -/
theorem faults_of_effect {t : ℕ} {s s' : Threads} {o : ThreadOp} {r : ThreadRes o}
    (heffect : s.effect t o r = some s') (h : ¬(s.faults o && !o.cancelled r) = true) :
    s.faults o = false := by
  by_contra hno
  rw [Bool.not_eq_false] at hno
  rw [hno, Bool.true_and, Bool.not_eq_true', Bool.not_eq_false] at h
  cases o with
  | point o =>
      cases r with
      | none =>
          simp only [Threads.effect, Option.ite_none_right_eq_some, Bool.and_eq_true] at heffect
          obtain ⟨⟨-, hpoint⟩, -⟩ := heffect
          rw [Threads.faults, callFaults_of_isCancellationPoint hpoint] at hno
          cases hno
      | some r => cases h
  | _ => cases h

section Runs

variable {Q : ℕ → Unit → ThreadPhase → Prop} {γ : ℕ → ThreadPhase} {p : Pool threads Threads Unit}

/-- **Invariants of what happens from now on.** A relation holds at the end of a run if it holds at
its start, is kept by whatever a thread does in its phase, and by a step that faults. -/
theorem lifecycle_invariant_from
    {J : List (Act threads Threads) → (ℕ → ThreadPhase) → Threads → Prop}
    (hp : Watched (fun _ => phases) startPhase Q γ p) (hrun : Steps (lifecycle buffers) p τ q)
    (hstart : J [] γ p.shared)
    (hdoes : ∀ υ δ a g, υ ++ [a] <+: τ → J υ δ a.before → a.before.undefined = false →
      a.before.faults a.event.op = false → Does a.task a.before (δ a.task) a.event g a.after →
      J (υ ++ [a]) (Function.update δ a.task g) a.after)
    (hfault : ∀ υ δ a g, υ ++ [a] <+: τ → J υ δ a.before → a.before.undefined = false →
      a.before.faults a.event.op = true → a.event.op.cancelled a.event.res = false →
      (δ a.task).step a.event = some g →
      a.after = { a.before with undefined := true } →
      J (υ ++ [a]) (Function.update δ a.task g) a.after) :
    ∃ δ, Watched (fun _ => phases) startPhase Q δ q ∧ J τ δ q.shared := by
  have hanswer : ∀ a ∈ τ, a.before.answer a.task a.event.op a.event.res = some a.after :=
    hrun.answered
  refine hrun.monitored hp ?_ hstart ?_
  · -- only a cancellation point can be cancelled
    intro a ha _ o he
    have hans := hanswer a ha
    rw [he, Threads.answer, Option.ite_none_left_eq_some] at hans
    obtain ⟨-, hans⟩ := hans
    simp only [ThreadOp.cancelled, Bool.not_true, Bool.and_false, Bool.false_eq_true, if_false,
      Threads.effect, Option.ite_none_right_eq_some, Bool.and_eq_true] at hans
    exact hans.1.2
  · intro υ δ a g hυ hJ _ hans hstep
    replace hans : a.before.answer a.task a.event.op a.event.res = some a.after := hans
    rw [Threads.answer, Option.ite_none_left_eq_some] at hans
    obtain ⟨hundefined, hans⟩ := hans
    have hdefined : a.before.undefined = false := by simpa using hundefined
    by_cases hf : (a.before.faults a.event.op && !a.event.op.cancelled a.event.res) = true
    · rw [if_pos hf] at hans
      rw [Bool.and_eq_true, Bool.not_eq_true'] at hf
      exact hfault υ δ a g hυ hJ hdefined hf.1 hf.2 hstep (Option.some.inj hans).symm
    · rw [if_neg hf] at hans
      have hok := faults_of_effect hans hf
      exact hdoes υ δ a g hυ hJ hdefined hok (does_of_step hstep hok hans)

/-- **Invariants of the server.** A relation holds at the end of a run if it holds at its start, is
kept by whatever a thread does in its phase, and by a step that faults. -/
theorem lifecycle_invariant {J : List (Act threads Threads) → (ℕ → ThreadPhase) → Threads → Prop}
    (hrun : Steps (lifecycle buffers) ((lifecycle buffers).init Threads.init) τ q)
    (hstart : J [] startPhase Threads.init)
    (hdoes : ∀ υ δ a g, υ ++ [a] <+: τ → J υ δ a.before → a.before.undefined = false →
      a.before.faults a.event.op = false → Does a.task a.before (δ a.task) a.event g a.after →
      J (υ ++ [a]) (Function.update δ a.task g) a.after)
    (hfault : ∀ υ δ a g, υ ++ [a] <+: τ → J υ δ a.before → a.before.undefined = false →
      a.before.faults a.event.op = true → a.event.op.cancelled a.event.res = false →
      (δ a.task).step a.event = some g →
      a.after = { a.before with undefined := true } →
      J (υ ++ [a]) (Function.update δ a.task g) a.after) :
    ∃ δ, Watched (fun _ => phases) startPhase EndPhase δ q ∧ J τ δ q.shared :=
  lifecycle_invariant_from watched_start hrun hstart hdoes hfault

end Runs

end Aesd.Server

import Aesd.Server.DeadOwners

/-! # The discipline of the mutexes

**`mutex_discipline`**: in every run, whatever has been cancelled, a thread locks only what it does
not hold and `file_mutex` only without `list_mutex`, unlocks only what it holds, works on the thread
list only with `list_mutex`, waits for another thread only without a mutex, and writes to the device
only with `file_mutex`. The first of these are read off the phase of the thread. The phases do not
tell a `write` from other calls: a monitor of its own guards them (`writeGuard`), and says the same
about `file_mutex` as the phases do. -/

namespace Aesd.Server

open Effects

/-! ### What the operations need -/

/-- The mutex that an operation locks. -/
def ThreadOp.locks? : ThreadOp → Option Mutex
  | .posix (.mutexLock m) | .point (.mutexLock m) => some m
  | _ => none

/-- The mutex that an operation unlocks. -/
def ThreadOp.unlocks? : ThreadOp → Option Mutex
  | .posix (.mutexUnlock m) | .point (.mutexUnlock m) => some m
  | _ => none

/-- The operation reads or changes the thread list. -/
def ThreadOp.usesList : ThreadOp → Bool
  | .listInsertHead _ | .listFirst | .listNext _ | .posix (.listRemove _)
  | .point (.listRemove _) => true
  | _ => false

/-- The operation writes to the device. -/
def ThreadOp.writes : ThreadOp → Bool
  | .posix (.write _ _) | .point (.write _ _) => true
  | _ => false

/-- The operation `o` is in order for a thread that holds these mutexes. -/
structure InOrder (o : ThreadOp) (holds : Mutex → Prop) : Prop where
  /-- It does not lock a mutex twice. -/
  fresh : ∀ m, o.locks? = some m → ¬holds m
  /-- It does not wait for `file_mutex` with `list_mutex`. -/
  order : o.locks? = some .file → ¬holds .list
  /-- It unlocks what the thread holds. -/
  held : ∀ m, o.unlocks? = some m → holds m
  /-- It works on the list with `list_mutex`. -/
  list : o.usesList = true → holds .list
  /-- It does not wait for a thread with a mutex. -/
  joins : o.joins? ≠ none → ∀ m, ¬holds m

section Phases

variable {o : ThreadOp} {m : Mutex} {holds : Mutex → Prop}

theorem inOrder_of_plain (hl : o.locks? = none) (hu : o.unlocks? = none) (hlist : o.usesList = false)
    (hj : o.joins? = none) : InOrder o holds where
  fresh m h := by rw [hl] at h; cases h
  order h := by rw [hl] at h; cases h
  held m h := by rw [hu] at h; cases h
  list h := by rw [hlist] at h; cases h
  joins h := absurd hj h

theorem inOrder_of_locks (hl : o.locks? = some m) (hu : o.unlocks? = none)
    (hlist : o.usesList = false) (hj : o.joins? = none) (hfresh : ¬holds m)
    (horder : m = .file → ¬holds .list) : InOrder o holds where
  fresh m' h := by
    rw [hl, Option.some.injEq] at h
    exact h ▸ hfresh
  order h := horder (Option.some.inj (hl.symm.trans h))
  held m h := by rw [hu] at h; cases h
  list h := by rw [hlist] at h; cases h
  joins h := absurd hj h

theorem inOrder_of_unlocks (hl : o.locks? = none) (hu : o.unlocks? = some m)
    (hlist : o.usesList = false) (hj : o.joins? = none) (hheld : holds m) : InOrder o holds where
  fresh m h := by rw [hl] at h; cases h
  order h := by rw [hl] at h; cases h
  held m' h := by
    rw [hu, Option.some.injEq] at h
    exact h ▸ hheld
  list h := by rw [hlist] at h; cases h
  joins h := absurd hj h

theorem inOrder_of_usesList (hl : o.locks? = none) (hu : o.unlocks? = none) (hj : o.joins? = none)
    (hlist : holds .list) : InOrder o holds where
  fresh m h := by rw [hl] at h; cases h
  order h := by rw [hl] at h; cases h
  held m h := by rw [hu] at h; cases h
  list _ := hlist
  joins h := absurd hj h

theorem inOrder_of_joins (hl : o.locks? = none) (hu : o.unlocks? = none) (hlist : o.usesList = false)
    (hnone : ∀ m, ¬holds m) : InOrder o holds where
  fresh m h := by rw [hl] at h; cases h
  order h := by rw [hl] at h; cases h
  held m h := by rw [hu] at h; cases h
  list h := by rw [hlist] at h; cases h
  joins _ := hnone

/-- A call of a handler is in order. -/
theorem inOrder_of_call {g g' : HandlerPhase} {o : PosixOp} (h : g.call o = some g') :
    InOrder (.posix o) fun m => (ThreadPhase.handler g).holds m = true := by
  obtain ⟨stage, f, l, hit⟩ := g
  cases stage with
  | serving n =>
      dsimp only [HandlerPhase.call] at h
      cases o with
      | mutexLock m =>
          cases m with
          | file =>
              rcases f with _ | _ <;> rcases l with _ | _ <;> rcases hit with _ | _ <;> cases h
              exact inOrder_of_locks rfl rfl rfl rfl (by simp [ThreadPhase.holds])
                fun _ => by simp [ThreadPhase.holds]
          | list =>
              rcases l with _ | _ <;> cases h
              exact inOrder_of_locks rfl rfl rfl rfl (by simp [ThreadPhase.holds]) fun hm => by cases hm
      | mutexUnlock m =>
          cases m with
          | file =>
              rcases f with _ | _ <;> rcases l with _ | _ <;> rcases hit with _ | _ <;> cases h
              exact inOrder_of_unlocks rfl rfl rfl rfl rfl
          | list => cases h
      | listRemove n' =>
          obtain ⟨⟨-, hl⟩, -⟩ := Option.ite_none_right_eq_some.mp h
          exact inOrder_of_usesList rfl rfl rfl hl
      | _ => exact inOrder_of_plain rfl rfl rfl rfl
  | unlinked n =>
      dsimp only [HandlerPhase.call] at h
      cases o with
      | mutexUnlock m =>
          cases m with
          | file => cases h
          | list =>
              rcases l with _ | _ <;> cases h
              exact inOrder_of_unlocks rfl rfl rfl rfl rfl
      | free n' => exact inOrder_of_plain rfl rfl rfl rfl
      | _ => cases h
  | _ => cases h

/-- A step of main is in order. -/
theorem inOrder_of_main {st : MainStage} {l : Bool} {g' : ThreadPhase} {e : Event threads}
    (h : (ThreadPhase.main st l).step e = some g') :
    InOrder e.op fun m => (ThreadPhase.main st l).holds m = true := by
  obtain ⟨o, r⟩ := e
  cases l with
  | false =>
      by_cases hlock : o.locksList = true
      · obtain rfl : o = .posix (.mutexLock .list) := by
          unfold ThreadOp.locksList at hlock
          split at hlock
          · rfl
          · cases hlock
        exact inOrder_of_locks rfl rfl rfl rfl (by simp [ThreadPhase.holds]) fun hm => by cases hm
      · simp only [ThreadPhase.step, if_neg hlock, Option.map_eq_some_iff] at h
        obtain ⟨st', hst', -⟩ := h
        -- without the mutex main does nothing but what needs none
        cases o with
        | posix o => cases o <;> first | exact inOrder_of_plain rfl rfl rfl rfl | (cases st <;> cases hst')
        | listInsertHead n | listFirst | listNext n | point o => cases st <;> cases hst'
        | pthreadJoin id =>
            exact inOrder_of_joins rfl rfl rfl fun m => by cases m <;> simp [ThreadPhase.holds]
        | _ => exact inOrder_of_plain rfl rfl rfl rfl
  | true =>
      by_cases hunlock : o.unlocksList = true
      · obtain rfl : o = .posix (.mutexUnlock .list) := by
          unfold ThreadOp.unlocksList at hunlock
          split at hunlock
          · rfl
          · cases hunlock
        exact inOrder_of_unlocks rfl rfl rfl rfl rfl
      · simp only [ThreadPhase.step, if_neg hunlock, Option.map_eq_some_iff] at h
        obtain ⟨st', hst', -⟩ := h
        cases o with
        | posix o =>
            cases o with
            | mutexLock m | mutexUnlock m => cases st <;> cases hst'
            | listRemove n => exact inOrder_of_usesList rfl rfl rfl rfl
            | _ => exact inOrder_of_plain rfl rfl rfl rfl
        | listInsertHead n | listFirst | listNext n => exact inOrder_of_usesList rfl rfl rfl rfl
        | point o | pthreadJoin id => cases st <;> cases hst'
        | _ => exact inOrder_of_plain rfl rfl rfl rfl

/-- **A step of a phase is in order.** -/
theorem inOrder_of_step {g g' : ThreadPhase} {e : Event threads} (h : g.step e = some g')
    (hc : e.op.cancelled e.res = false) : InOrder e.op fun m => g.holds m = true := by
  cases g with
  | main st l => exact inOrder_of_main h
  | handler g =>
      obtain ⟨o, r⟩ := e
      cases o with
      | posix o =>
          obtain ⟨g', hg', -⟩ := Option.map_eq_some_iff.mp h
          exact inOrder_of_call hg'
      | point o =>
          cases r with
          | none => cases hc
          | some r =>
              obtain ⟨g', hg', -⟩ := Option.map_eq_some_iff.mp h
              obtain ⟨hfresh, horder, hheld, hlist, hjoins⟩ := inOrder_of_call hg'
              cases o <;> exact ⟨hfresh, horder, hheld, hlist, hjoins⟩
      | start | exit => exact inOrder_of_plain rfl rfl rfl rfl
      | _ => cases h

end Phases

/-! ### Writing to the device -/

/-- A thread writes to the device while it holds `file_mutex`; the state says whether it does. -/
def guardStep (g : Bool) : PosixOp → Option Bool
  | .mutexLock .file => if g then none else some true
  | .mutexUnlock .file => if g then some false else none
  | .write _ _ => if g then some g else none
  | _ => some g

/-- The system calls of a handler write only with `file_mutex`. -/
def fileGuard : Monitor posix Bool where
  expects _ _ := True
  step g e := guardStep g e.op

/-- A thread writes only with `file_mutex`. -/
def writeGuard : Monitor threads Bool where
  expects _ _ := True
  step
    | g, ⟨.posix o, _⟩ | g, ⟨.point o, some _⟩ => guardStep g o
    | g, _ => some g

section Guard

variable {n : ThreadInfo} {clientFd fileFd : ℤ} {buffer stack : Buffer} {k : ℕ} {g : Bool} {α : Type}

theorem fileGuard_ignores_of_isIo {o : PosixOp} (ho : o.isIo = true) : fileGuard.Ignores o := by
  intro g r
  cases o <;> first | rfl | cases ho

theorem follows_of_ignores {p : Handler α} (hp : Uses (E := posix) (fun o => fileGuard.Ignores o) p) :
    Follows fileGuard g p fun _ g' => g' = g :=
  hp.follows fun _ r ho => ho g r

theorem follows_fileGuard_storeData :
    Follows fileGuard false (storeData clientFd fileFd buffer k) fun _ g => g = false := by
  simp only [storeData, mutexLock, mutexUnlock, write, syslog, close, Prog.bind_eq, Prog.call_bind,
    Prog.pure_bind, Prog.pure_eq]
  refine fun _ _ => ⟨true, rfl, Follows.ite ?_ ?_⟩
  · exact fun _ _ => ⟨true, rfl, fun _ _ => ⟨false, rfl, rfl⟩⟩
  · refine fun _ _ => ⟨true, rfl, Follows.ite ?_ ?_⟩
    · exact fun _ _ => ⟨true, rfl, fun _ _ => ⟨true, rfl, fun _ _ => ⟨false, rfl, rfl⟩⟩⟩
    · refine fun _ _ => ⟨true, rfl, fun _ _ => ⟨false, rfl, follows_of_ignores ?_⟩⟩
      exact uses_respond_of (fun _ _ => rfl) fun _ ho => fileGuard_ignores_of_isIo ho

theorem follows_fileGuard_serve :
    Follows fileGuard false (serve n clientFd fileFd buffer) fun _ g => g = false := by
  refine follows_serve (fun _ _ _ => rfl) fun r _ => ⟨false, rfl, fun _ => rfl, ?_, ?_⟩
  · intro _ _
    refine follows_of_ignores (uses_seekCommand_of (fun _ _ => rfl) (fun _ _ => rfl) fun _ => ?_)
    exact uses_performSeek_of (fun _ _ _ _ _ => rfl) (fun _ _ => rfl)
      fun _ ho => fileGuard_ignores_of_isIo ho
  · exact fun _ _ => follows_fileGuard_storeData

theorem follows_fileGuard_handleConnection :
    Follows fileGuard false (handleConnection n stack) fun _ g => g = false := by
  have hloop : ∀ clientFd fileFd, Follows fileGuard false
      (Prog.iterate (serve n clientFd fileFd) stack) fun _ g => g = false := by
    intro clientFd fileFd
    refine Follows.iterate (fun _ g => g = false) rfl ?_
    rintro buffer _ rfl
    exact follows_fileGuard_serve.mono fun res _ hg => by cases res <;> exact hg
  simp only [handleConnection, loadClientFd, openFile, syslog, Prog.bind_eq, Prog.call_bind,
    Prog.pure_bind]
  refine fun _ _ => ⟨false, rfl, fun _ _ => ⟨false, rfl, Follows.ite ?_ (hloop _ _)⟩⟩
  exact fun _ _ => ⟨false, rfl, hloop _ _⟩

theorem follows_fileGuard_threadCleanup :
    Follows fileGuard g (threadCleanup n) fun _ _ => True := by
  have hrest : Follows fileGuard g (do
      mutexLock .list
      listRemove n
      mutexUnlock .list
      free n) fun _ _ => True :=
    fun _ _ => ⟨g, rfl, fun _ _ => ⟨g, rfl, fun _ _ => ⟨g, rfl, fun _ _ => ⟨g, rfl, trivial⟩⟩⟩⟩
  simp only [threadCleanup, loadClientFd, close, Prog.bind_eq, Prog.call_bind, Prog.pure_bind]
  refine fun _ _ => ⟨g, rfl, Follows.ite ?_ hrest⟩
  exact fun _ _ => ⟨g, rfl, fun _ _ => ⟨g, rfl, hrest⟩⟩

/-- A text is guarded when it can be cancelled. -/
theorem follows_writeGuard_cancellable {p : Handler α} (hp : Follows fileGuard g p fun _ _ => True) :
    Follows writeGuard g (cancellable p) fun _ _ => True := by
  refine (Follows.attempt id (fun _ => True) ?_ ?_ hp).mono fun _ _ _ => trivial
  · rintro g o r' r _ rfl
    exact ⟨trivial, fun g' hg' => hg'⟩
  · rintro g o r' _ rfl _
    exact ⟨g, rfl, trivial⟩

/-- A text is guarded when it cannot be cancelled. -/
theorem follows_writeGuard_masked {p : Handler α} (hp : Follows fileGuard g p fun _ _ => True) :
    Follows writeGuard g (masked p) fun _ _ => True := by
  refine (Follows.attempt id (fun _ => True) ?_ ?_ hp).mono fun _ _ _ => trivial
  · rintro g o r' r _ hr
    exact ⟨trivial, fun g' hg' => hg'⟩
  · rintro g o r' _ hr
    cases hr

/-- A handler writes only with `file_mutex`. -/
theorem follows_writeGuard_handlerThread :
    Follows writeGuard false (handlerThread stack) fun _ _ => True := by
  have hexit : ∀ g, Follows writeGuard g exit fun _ _ => True := fun g _ _ => ⟨g, rfl, trivial⟩
  simp only [handlerThread, start, Prog.bind_eq, Prog.call_bind, Prog.pure_bind]
  refine fun n _ => ⟨false, rfl, ?_⟩
  refine (follows_writeGuard_cancellable
    (follows_fileGuard_handleConnection.mono fun _ _ _ => trivial)).bind fun r c _ => ?_
  cases r with
  | some _ =>
      exact (follows_writeGuard_cancellable follows_fileGuard_threadCleanup).bind fun _ c _ => hexit c
  | none =>
      exact (follows_writeGuard_masked follows_fileGuard_threadCleanup).bind fun _ c _ => hexit c

end Guard

/-! ### The phases in a run -/

section Answers

variable {o : ThreadOp} {g : ThreadPhase} {α : Type} {k : ThreadRes o → ThreadText α}
  {Q : α → ThreadPhase → Prop}

/-- Every system call has some answer. -/
theorem nonempty_posixRes (o : PosixOp) : Nonempty (PosixRes o) := by
  cases o with
  | openFile => exact ⟨⟨-1, le_rfl⟩⟩
  | recv fd n | read fd n => exact ⟨.empty n⟩
  | loadClientFd | send | write | ioctl | close => exact ⟨(0 : ℤ)⟩
  | _ => exact ⟨()⟩

/-- Every operation has an answer that is no cancellation. -/
theorem exists_uncancelled (o : ThreadOp) : ∃ r : ThreadRes o, o.cancelled r = false := by
  cases o with
  | posix o =>
      obtain ⟨r⟩ := nonempty_posixRes o
      exact ⟨r, rfl⟩
  | point o =>
      obtain ⟨r⟩ := nonempty_posixRes o
      exact ⟨some r, rfl⟩
  | start | loadThreadId => exact ⟨(0 : ℕ), rfl⟩
  | terminateProgram => exact ⟨false, rfl⟩
  | loadServerFd | accept | pthreadCreate => exact ⟨(0 : ℤ), rfl⟩
  | malloc | listFirst | listNext => exact ⟨none, rfl⟩
  | _ => exact ⟨(), rfl⟩

/-- The next operation of a text that follows the phases. -/
theorem step_of_follows (h : Follows phases g (.call o k) Q) {r : ThreadRes o}
    (hr : o.cancelled r = false) : ∃ g', g.step ⟨o, r⟩ = some g' := by
  obtain ⟨g', hg', -⟩ := h r fun o' he => by
    rw [Event.mk.injEq] at he
    obtain ⟨rfl, he⟩ := he
    cases he
    cases hr
  exact ⟨g', hg'⟩

end Answers

/-- The phase in which a thread has nothing left to do. -/
def LastPhase : ℕ → Unit → ThreadPhase → Prop
  | 0, _, g => g = .main .atEnd false
  | _ + 1, _, g => g.hasEnded = true

/-- The threads are in these phases. -/
abbrev InPhases (δ : ℕ → ThreadPhase) (q : Pool threads Threads Unit) : Prop :=
  Watched (fun _ => phases) startPhase LastPhase δ q

/-- The thread is main. -/
def ThreadPhase.isMain : ThreadPhase → Bool
  | .main _ _ => true
  | .handler _ => false

/-- A step leaves main main. -/
theorem isMain_of_step {g g' : ThreadPhase} {e : Event threads} (h : g.step e = some g') :
    g'.isMain = g.isMain := by
  have hmap : ∀ {β : Type} {f : β → ThreadPhase} {x : Option β}, x.map f = some g' →
      (∀ b, (f b).isMain = g.isMain) → g'.isMain = g.isMain := by
    intro β f x hx hf
    obtain ⟨b, -, rfl⟩ := Option.map_eq_some_iff.mp hx
    exact hf b
  cases g with
  | main st l =>
      cases l with
      | false =>
          rw [ThreadPhase.step] at h
          split at h
          · cases h
            rfl
          · exact hmap h fun _ => rfl
      | true =>
          rw [ThreadPhase.step] at h
          split at h
          · cases h
            rfl
          · exact hmap h fun _ => rfl
  | handler g =>
      obtain ⟨o, r⟩ := e
      cases o with
      | start =>
          obtain ⟨-, h⟩ := Option.ite_none_right_eq_some.mp h
          cases h
          rfl
      | posix o | exit => exact hmap h fun _ => rfl
      | point o => cases r <;> exact hmap h fun _ => rfl
      | _ => cases h

/-- Main is the task 0. -/
theorem isMain_of_after {t : ℕ} {hist : List (Event threads)} {g : ThreadPhase}
    (h : phases.after (startPhase t) hist = some g) : g.isMain = true ↔ t = 0 := by
  refine Monitor.after_invariant (I := fun g => g.isMain = true ↔ t = 0) ?_ ?_ h
  · cases t with
    | zero => exact iff_of_true rfl rfl
    | succ t => exact iff_of_false (by simp [startPhase, ThreadPhase.isMain]) (by simp)
  · intro g e g' hg hstep
    rw [isMain_of_step hstep]
    exact hg

section Phases

variable {buffers : ℕ → Buffer} {q : Pool threads Threads Unit} {δ : ℕ → ThreadPhase} {t : ℕ}

theorem inPhases_start : InPhases startPhase ((lifecycle buffers).init Threads.init) := by
  refine watched_init (fun t => ?_) _
  cases t with
  | zero => exact follows_mainThread
  | succ t =>
      refine (follows_handlerThread (buffers t)).mono ?_
      rintro _ _ ⟨stage, f, rfl, rfl | ⟨n, rfl⟩⟩
      · rfl
      · rfl

theorem InPhases.main (h : InPhases δ q) : ∃ st l, δ 0 = .main st l := by
  have hmain := (isMain_of_after (h 0).1).mpr rfl
  cases hphase : δ 0 with
  | main st l => exact ⟨st, l, rfl⟩
  | handler g =>
      rw [hphase] at hmain
      cases hmain

/-- A thread that has come to an operation can take a step of its phase. -/
theorem InPhases.step (h : InPhases δ q) {o : ThreadOp} {k : ThreadRes o → ThreadText Unit}
    (ht : (q.task t).prog = .call o k) :
    ∃ r g', o.cancelled r = false ∧ (δ t).step ⟨o, r⟩ = some g' := by
  have hfollows := (h t).2
  rw [ht] at hfollows
  obtain ⟨r, hr⟩ := exists_uncancelled o
  obtain ⟨g', hstep⟩ := step_of_follows hfollows hr
  exact ⟨r, g', hr, hstep⟩

/-- Main neither writes nor locks `file_mutex`. -/
theorem InPhases.ne_zero (h : InPhases δ q) {o : ThreadOp} {k : ThreadRes o → ThreadText Unit}
    (ht : (q.task t).prog = .call o k) (ho : o.writes = true ∨ o.locks? = some .file) : t ≠ 0 := by
  rintro rfl
  obtain ⟨r, g', -, hstep⟩ := h.step ht
  obtain ⟨st, l, hphase⟩ := h.main
  rw [hphase] at hstep
  cases o with
  | posix o =>
      cases o with
      | write fd bytes => cases l <;> cases st <;> cases hstep
      | mutexLock m =>
          rcases ho with ho | ho <;> cases ho
          cases l <;> cases st <;> cases hstep
      | _ => rcases ho with ho | ho <;> cases ho
  | point o => cases l <;> cases st <;> cases hstep
  | _ => rcases ho with ho | ho <;> cases ho

/-- What a thread that has come to an operation holds. -/
theorem InPhases.inOrder {υ : List (Act threads Threads)} (h : InPhases δ q)
    (howners : Owners υ δ q.shared) {o : ThreadOp} {k : ThreadRes o → ThreadText Unit}
    (ht : (q.task t).prog = .call o k) : InOrder o fun m => q.shared.owner m = some t := by
  obtain ⟨r, g', hr, hstep⟩ := h.step ht
  simp only [howners.owned _ t]
  exact inOrder_of_step hstep hr

end Phases

/-! ### The guard and the phases -/

/-- What the guard says of a call. -/
theorem file_of_call {g g' : HandlerPhase} {o : PosixOp} {c : Bool} (h : g.call o = some g')
    (hc : guardStep g.file o = some c) : c = g'.file := by
  obtain ⟨stage, f, l, hit⟩ := g
  cases stage with
  | serving n =>
      dsimp only [HandlerPhase.call] at h
      cases o with
      | mutexLock m =>
          cases m with
          | file =>
              rcases f with _ | _ <;> rcases l with _ | _ <;> rcases hit with _ | _ <;> cases h
              cases hc
              rfl
          | list =>
              rcases l with _ | _ <;> cases h
              cases hc
              rfl
      | mutexUnlock m =>
          cases m with
          | file =>
              rcases f with _ | _ <;> rcases l with _ | _ <;> rcases hit with _ | _ <;> cases h
              cases hc
              rfl
          | list => cases h
      | loadClientFd n' | listRemove n' =>
          obtain ⟨-, h⟩ := Option.ite_none_right_eq_some.mp h
          cases h
          cases hc
          rfl
      | free n' => cases h
      | overrun i =>
          cases h
          cases hc
          rfl
      | write fd bytes =>
          obtain ⟨-, h⟩ := Option.ite_none_left_eq_some.mp h
          cases h
          obtain ⟨-, hc⟩ := Option.ite_none_right_eq_some.mp hc
          cases hc
          rfl
      | _ =>
          obtain ⟨-, h⟩ := Option.ite_none_left_eq_some.mp h
          cases h
          cases hc
          rfl
  | unlinked n =>
      dsimp only [HandlerPhase.call] at h
      cases o with
      | mutexUnlock m =>
          cases m with
          | file => cases h
          | list =>
              rcases l with _ | _ <;> cases h
              cases hc
              rfl
      | free n' =>
          obtain ⟨-, h⟩ := Option.ite_none_right_eq_some.mp h
          cases h
          cases hc
          rfl
      | _ => cases h
  | _ => cases h

/-- The guard says whether a handler holds `file_mutex`. -/
theorem file_of_step {g : HandlerPhase} {g' : ThreadPhase} {e : Event threads} {c : Bool}
    (h : (ThreadPhase.handler g).step e = some g') (hc : writeGuard.step g.file e = some c) :
    ∃ g₁, g' = .handler g₁ ∧ c = g₁.file := by
  obtain ⟨o, r⟩ := e
  cases o with
  | start =>
      obtain ⟨-, h⟩ := Option.ite_none_right_eq_some.mp h
      cases h
      cases hc
      exact ⟨_, rfl, rfl⟩
  | posix o =>
      obtain ⟨g₁, hg₁, rfl⟩ := Option.map_eq_some_iff.mp h
      exact ⟨g₁, rfl, file_of_call hg₁ hc⟩
  | point o =>
      cases r with
      | some r =>
          obtain ⟨g₁, hg₁, rfl⟩ := Option.map_eq_some_iff.mp h
          exact ⟨g₁, rfl, file_of_call hg₁ hc⟩
      | none =>
          obtain ⟨g₁, hg₁, rfl⟩ := Option.map_eq_some_iff.mp h
          cases hc
          obtain ⟨stage, f, l, hit⟩ := g
          cases stage with
          | serving n =>
              obtain ⟨-, hg₁⟩ := Option.ite_none_left_eq_some.mp hg₁
              cases hg₁
              exact ⟨_, rfl, rfl⟩
          | _ => cases hg₁
  | exit =>
      obtain ⟨g₁, hg₁, rfl⟩ := Option.map_eq_some_iff.mp h
      cases hc
      obtain ⟨stage, f, l, hit⟩ := g
      cases stage with
      | serving n | freed =>
          obtain ⟨-, hg₁⟩ := Option.ite_none_right_eq_some.mp hg₁
          cases hg₁
          exact ⟨_, rfl, rfl⟩
      | _ => cases hg₁
  | _ => cases h

/-- A handler that has come to a `write` holds `file_mutex`. -/
theorem file_of_writes {g : ThreadPhase} {stack : Buffer} {t : ℕ} {hist : List (Event threads)}
    {o : ThreadOp} {k : ThreadRes o → ThreadText Unit} (ho : o.writes = true)
    (hrun : Runs (handlerThread stack) hist (.call o k))
    (hg : phases.after (startPhase (t + 1)) hist = some g) : g.holds .file = true := by
  obtain ⟨c, hc, hfollows⟩ := follows_writeGuard_handlerThread.runs hrun
    (Monitor.admits_of_mem (fun _ _ _ => trivial) _)
  obtain ⟨g₁, rfl, rfl⟩ := Monitor.after_related (R := fun g c => ∃ g₁, g = .handler g₁ ∧ c = g₁.file)
    ⟨_, rfl, rfl⟩ (by
      rintro _ _ e g' d' ⟨g₁, rfl, rfl⟩ hstep hd
      exact file_of_step hstep hd) hg hc
  -- a guard that lets the write pass is closed
  obtain ⟨r, hr⟩ := exists_uncancelled o
  obtain ⟨g', hg', -⟩ := hfollows r trivial
  cases o with
  | posix o =>
      cases o with
      | write fd bytes => exact (Option.ite_none_right_eq_some.mp hg').1
      | _ => cases ho
  | point o =>
      cases o with
      | write fd bytes =>
          cases r with
          | none => cases hr
          | some n => exact (Option.ite_none_right_eq_some.mp hg').1
      | _ => cases ho
  | _ => cases ho

/-- **The discipline of the mutexes.** In every run, whatever has been cancelled and whatever has
faulted, a thread that has come to an operation holds what the operation needs and nothing that
stands against it: it locks no mutex twice, and `file_mutex` only without `list_mutex`; it unlocks
only what it holds; it works on the thread list only with `list_mutex`; it waits for another thread
only without a mutex; and it writes to the device only with `file_mutex`. -/
theorem mutex_discipline {buffers : ℕ → Buffer} {τ : List (Act threads Threads)}
    {q : Pool threads Threads Unit} {t : ℕ}
    (hrun : Steps (lifecycle buffers) ((lifecycle buffers).init Threads.init) τ q)
    {o : ThreadOp} {k : ThreadRes o → ThreadText Unit} (ht : (q.task t).prog = .call o k) :
    InOrder o (fun m => q.shared.owner m = some t) ∧
      (o.writes = true → q.shared.owner .file = some t) := by
  obtain ⟨δ, (hδ : InPhases δ q), h⟩ := lifecycle_invariant_from (J := Owners) inPhases_start hrun owners_start
    (fun _ _ _ _ _ h _ _ hdoes => h.step hdoes)
    fun _ _ _ _ _ h _ hf hc hstep hafter => h.fault hf hc hstep hafter
  refine ⟨hδ.inOrder h ht, fun ho => (h.owned .file t).mpr ?_⟩
  cases t with
  | zero => exact absurd rfl (hδ.ne_zero ht (.inl ho))
  | succ t =>
      have htext := hrun.runs (t := t + 1)
      rw [ht] at htext
      exact file_of_writes ho htext (hδ (t + 1)).1

section TwoConnections

variable {n : ThreadInfo} {stack : Buffer}

/-- A handler comes to a call at which it can be cancelled. -/
theorem runs_upTo_call {events : List (Event posix)} {o : PosixOp} {k : PosixRes o → Handler Unit}
    (hrun : Runs (handleConnection n stack) events (Prog.call (E := posix) o k)) :
    ∃ k', Runs (handlerThread stack) (upTo n events) (Prog.call (E := threads) (.point o) k') :=
  ⟨_, .call _ ((runs_cancellable hrun).bind _)⟩

/-- Runs of the texts make a run of the server that ends where the thread `t` makes a call. -/
theorem exists_run_at {buffers : ℕ → Buffer} {moves : List (ℕ × Event threads)} {s' : Threads}
    {b : ℕ → ThreadText Unit} (t : ℕ) (hplay : Threads.init.play moves = some s')
    (hruns : ∀ u, Runs ((lifecycle buffers).text u) (eventsOf u moves) (b u)) :
    ∃ τ q, Steps (lifecycle buffers) ((lifecycle buffers).init Threads.init) τ q ∧
      τ.map (fun a => (a.task, a.event)) = moves ∧ q.shared = s' ∧ (q.task t).prog = b t ∧
      ∀ u, u ≠ t → Runs (q.task u).prog [] (b u) := by
  obtain ⟨τ, q, hq, hτ, hs, hrest⟩ :=
    exists_run (p := (lifecycle buffers).init Threads.init) hplay hruns
  obtain ⟨q', hq', hshared, hprog, hothers⟩ := Steps.settle (M := lifecycle buffers) (hrest t)
  have hrun := hq.trans hq'
  rw [List.append_nil] at hrun
  refine ⟨τ, q', hrun, hτ, hshared.trans hs, hprog, fun u hu => ?_⟩
  rw [hothers u hu]
  exact hrest u

/-- Two clients are connected, and the second one has sent a byte. -/
def twoClients : List (ℕ × Event threads) :=
  turn 0 (connect 3 4 0 ++ connect 3 6 1) ++
    turn 2 (upTo 1 (opened 1 6 otherFd ++
      [⟨.recv 6 bufferSize, writeOne⟩, ⟨.mutexLock .file, ()⟩]))

/-- The handler of the second client is about to write. -/
theorem exists_twoClients : ∃ τ q k, Steps (lifecycle fun _ => Buffer.zero)
      ((lifecycle fun _ => Buffer.zero).init Threads.init) τ q ∧
    τ.map (fun a => (a.task, a.event)) = twoClients ∧
    Threads.init.play twoClients = some q.shared ∧
    (q.task 2).prog = .call (.point (.write 7 writeOne.data)) k := by
  have hplay : (Threads.init.play twoClients).isSome = true := by decide
  obtain ⟨s', hs'⟩ := Option.isSome_iff_exists.mp hplay
  have hmain : Runs mainThread (eventsOf 0 twoClients) mainThread := by
    have hconnect : Runs mainThread (connect 3 4 0 ++ connect 3 6 1) mainThread :=
      (runs_connect (by decide)).trans (runs_connect (by decide))
    simpa [twoClients] using hconnect
  obtain ⟨k, hk⟩ : ∃ k, Runs (handleConnection 1 Buffer.zero)
      (opened 1 6 otherFd ++ [⟨.recv 6 bufferSize, writeOne⟩, ⟨.mutexLock .file, ()⟩])
      (Prog.call (E := posix) (.write otherFd.val writeOne.data) k) :=
    runs_writing 6 otherFd writeOne (by decide) (by decide) (by decide) (by decide)
  obtain ⟨k', hk'⟩ := runs_upTo_call hk
  have hhandler : Runs (handlerThread Buffer.zero) (eventsOf 2 twoClients)
      (Prog.call (E := threads) (.point (.write otherFd.val writeOne.data)) k') := by
    simpa [twoClients] using hk'
  have hruns : ∀ u, ∃ b, Runs ((lifecycle fun _ => Buffer.zero).text u) (eventsOf u twoClients) b ∧
      (u = 2 → b = Prog.call (E := threads) (.point (.write otherFd.val writeOne.data)) k') := by
    intro u
    match u with
    | 0 => exact ⟨_, hmain, by simp⟩
    | 2 => exact ⟨_, hhandler, fun _ => rfl⟩
    | 1 => exact ⟨_, .refl _, by simp⟩
    | u + 3 => exact ⟨handlerThread Buffer.zero, by simpa [twoClients] using .refl _, by simp⟩
  choose b hb hb₂ using hruns
  obtain ⟨τ, q, hq, hτ, hs, hprog, -⟩ := exists_run_at 2 hs' hb
  rw [hb₂ 2 rfl] at hprog
  exact ⟨τ, q, k', hq, hτ, hs.symm ▸ hs', hprog⟩

theorem mutex_discipline_twoClients : ∃ τ q, Steps (lifecycle fun _ => Buffer.zero)
      ((lifecycle fun _ => Buffer.zero).init Threads.init) τ q ∧
    τ.map (fun a => (a.task, a.event)) = twoClients ∧
    InOrder (.point (.write 7 writeOne.data)) (fun m => q.shared.owner m = some 2) ∧
    q.shared.owner .file = some 2 := by
  obtain ⟨τ, q, k, hq, hτ, -, hprog⟩ := exists_twoClients
  obtain ⟨horder, hwrites⟩ := mutex_discipline hq hprog
  exact ⟨τ, q, hq, hτ, horder, hwrites rfl⟩

end TwoConnections

end Aesd.Server

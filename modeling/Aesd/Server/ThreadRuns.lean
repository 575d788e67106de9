import Aesd.Server.ThreadTexts

/-! # What the threads can do

Runs of the server are put together from runs of its texts: if the threads can take their steps in
some order, one state after the other, this is a run (`exists_run`). Main can accept a connection
and start a thread for it, it can shut down, and a handler can come to the end of its text, or be
cancelled at any of its calls (`runs_finished`, `runs_cancelledAt`). -/

namespace Aesd.Server

open Effects

/-! ### Turns -/

/-- The state after steps of the threads in this order. -/
def Threads.play : List (ℕ × Event threads) → Threads → Option Threads
  | [], s => some s
  | (t, e) :: moves, s => (s.answer t e.op e.res).bind (play moves)

/-- The steps of a thread. -/
def eventsOf (t : ℕ) (moves : List (ℕ × Event threads)) : List (Event threads) :=
  (moves.filter fun m => m.1 = t).map Prod.snd

/-- A thread takes some steps in a row. -/
def turn (t : ℕ) (events : List (Event threads)) : List (ℕ × Event threads) :=
  events.map fun e => (t, e)

section Turns

variable {t : ℕ} {m m' : List (ℕ × Event threads)}

@[simp] theorem eventsOf_append : eventsOf t (m ++ m') = eventsOf t m ++ eventsOf t m' := by
  rw [eventsOf, List.filter_append, List.map_append, eventsOf, eventsOf]

@[simp] theorem eventsOf_turn {u : ℕ} {events : List (Event threads)} :
    eventsOf t (turn u events) = if u = t then events else [] := by
  induction events with
  | nil => exact (ite_self _).symm
  | cons e events ih =>
      rw [turn, List.map_cons, ← turn, eventsOf, List.filter_cons]
      by_cases h : u = t
      · rw [if_pos h] at ih
        rw [if_pos h, if_pos (by simpa using h), List.map_cons, ← eventsOf, ih]
      · rw [if_neg h] at ih
        rw [if_neg h, if_neg (by simpa using h), ← eventsOf, ih]

theorem eventsOf_cons {e : ℕ × Event threads} :
    eventsOf t (e :: m) = if e.1 = t then e.2 :: eventsOf t m else eventsOf t m := by
  have h : eventsOf t (turn e.1 [e.2] ++ m) = _ := eventsOf_append
  rw [eventsOf_turn] at h
  refine Eq.trans h ?_
  by_cases ht : e.1 = t
  · rw [if_pos ht, if_pos ht, List.singleton_append]
  · rw [if_neg ht, if_neg ht, List.nil_append]

/-- **Runs of the texts make a run of the server**, if the threads can take their steps in this
order. -/
theorem exists_run {buffers : ℕ → Buffer} {p : Pool threads Threads Unit} {s' : Threads}
    {b : ℕ → ThreadText Unit} (hplay : p.shared.play m = some s')
    (hruns : ∀ t, Runs (p.task t).prog (eventsOf t m) (b t)) :
    ∃ τ q, Steps (lifecycle buffers) p τ q ∧ τ.map (fun a => (a.task, a.event)) = m ∧
      q.shared = s' ∧ ∀ t, Runs (q.task t).prog [] (b t) := by
  induction m generalizing p with
  | nil =>
      rw [Threads.play, Option.some.injEq] at hplay
      exact ⟨[], p, .refl p, rfl, hplay, hruns⟩
  | cons e m ih =>
      obtain ⟨t, e⟩ := e
      rw [Threads.play, Option.bind_eq_some_iff] at hplay
      obtain ⟨s₁, hs₁, hplay⟩ := hplay
      -- the first step of the thread `t`, which then has the rest of its run before it
      have ht := hruns t
      rw [eventsOf_cons, if_pos rfl] at ht
      obtain ⟨c, hc, hrest⟩ := Runs.split (t := [e]) ht
      have hact : Alone (lifecycle buffers) t (p.task t).hist p.shared _ s₁ :=
        .cons (M := lifecycle buffers) hs₁ (.nil _ _)
      obtain ⟨p₁, hp₁, hshared, htask, hothers⟩ := hact.steps hc
      have hruns₁ : ∀ u, Runs (p₁.task u).prog (eventsOf u m) (b u) := by
        intro u
        by_cases hu : u = t
        · rw [hu, htask]
          exact hrest
        · have h := hruns u
          rw [eventsOf_cons, if_neg (Ne.symm hu)] at h
          rw [hothers u hu]
          exact h
      obtain ⟨τ, q, hq, hmoves, hs', hb⟩ := ih (hshared.symm ▸ hplay) hruns₁
      exact ⟨_, q, hp₁.trans hq, by rw [List.map_append, hmoves]; rfl, hs', hb⟩

theorem Threads.play_append {m m' : List (ℕ × Event threads)} {s : Threads} :
    Threads.play (m ++ m') s = (Threads.play m s).bind (Threads.play m') := by
  induction m generalizing s with
  | nil => rfl
  | cons e m ih =>
      rw [List.cons_append, Threads.play, Threads.play, Option.bind_assoc]
      exact congrArg _ (funext fun _ => ih)

/-- A run goes through the states that its steps lead to. -/
theorem play_of_steps {buffers : ℕ → Buffer} {p q : Pool threads Threads Unit}
    {τ : List (Act threads Threads)} (h : Steps (lifecycle buffers) p τ q) :
    p.shared.play (τ.map fun a => (a.task, a.event)) = some q.shared := by
  induction h with
  | refl => rfl
  | act t _ _ hr ih =>
      rw [List.map_append, Threads.play_append, ih]
      exact congrArg (·.bind some) hr
  | loop t _ _ ih => exact ih

end Turns

/-! ### What main can do -/

section Main

variable {serverFd fd : ℤ} {n : ThreadInfo}

/-- Main accepts the connection `fd` and starts a thread for it, with the node `n`. -/
def connect (serverFd fd : ℤ) (n : ThreadInfo) : List (Event threads) :=
  [⟨.terminateProgram, false⟩, ⟨.loadServerFd, serverFd⟩, ⟨.accept serverFd, fd⟩,
    ⟨.syslogInfo "Accepted connection from %s", ()⟩, ⟨.malloc, some n⟩, ⟨.storeClientFd n fd, ()⟩,
    ⟨.posix (.mutexLock .list), ()⟩, ⟨.listInsertHead n, ()⟩, ⟨.posix (.mutexUnlock .list), ()⟩,
    ⟨.pthreadCreate n, (0 : ℤ)⟩]

theorem runs_connect (h : fd ≠ -1) : Runs mainThread (connect serverFd fd n) mainThread := by
  have hround : Runs acceptRound (connect serverFd fd n) (.pure (.inl ())) := by
    refine .call _ (.call _ (.call _ ?_))
    rw [Prog.pure_bind, if_neg h]
    exact .call _ (.call _ (.call _ (.call _ (.call _ (.call _ (.call _ (.refl _)))))))
  exact .loop (hround.bind _)

/-- Main is told to terminate and locks the list. -/
def terminate : List (Event threads) :=
  [⟨.terminateProgram, true⟩, ⟨.loadServerFd, (-1 : ℤ)⟩, ⟨.posix (.mutexLock .list), ()⟩]

/-- The list is empty, and main returns. -/
def leave : List (Event threads) :=
  terminate ++ [⟨.listFirst, none⟩, ⟨.posix (.mutexUnlock .list), ()⟩, ⟨.closelog, ()⟩]

theorem runs_leave : Runs mainThread leave (.pure ()) :=
  .loop (.call _ (.call _ (.call _ (.call _ (.loop (.call _ (.call _ (.refl _))))))))

/-- Main finds the node `n` of the thread `id` and cancels the thread. -/
def requestExit (n : ThreadInfo) (next : Option ThreadInfo) (id : ℕ) : List (Event threads) :=
  [⟨.listFirst, some n⟩, ⟨.listNext n, next⟩, ⟨.loadThreadId n, id⟩, ⟨.pthreadCancel id, ()⟩,
    ⟨.posix (.mutexUnlock .list), ()⟩]

/-- Main joins the thread `id` and takes its node off the list. -/
def join (n : ThreadInfo) (id : ℕ) : List (Event threads) :=
  [⟨.loadThreadId n, id⟩, ⟨.pthreadJoin id, ()⟩, ⟨.posix (.mutexLock .list), ()⟩,
    ⟨.posix (.listRemove n), ()⟩]

theorem runs_requestExit (n : ThreadInfo) (next : Option ThreadInfo) (id : ℕ) : ∃ b,
    Runs mainThread (terminate ++ requestExit n next id ++ join n id) b :=
  ⟨_, .loop (.call _ (.call _ (.call _ (.call _ (.loop (.call _ (.call _ (.call _ (.call _ (.call _
    (.call _ (.call _ (.call _ (.refl _))))))))))))))⟩

end Main

/-! ### What a handler can do -/

section Handler

variable {n : ThreadInfo} {fd : ℤ} {f : Descriptor} {stack : Buffer}

/-- A call that could be cancelled returns. -/
def Event.enabled (e : Event posix) : Event threads := ⟨.point e.op, some e.res⟩

/-- A call that cannot be cancelled returns. -/
def Event.disabled (e : Event posix) : Event threads := ⟨.posix e.op, e.res⟩

theorem runs_cancellable {α : Type} {p q : Handler α} {events : List (Event posix)}
    (h : Runs p events q) : Runs (cancellable p) (events.map Event.enabled) (cancellable q) := by
  show Runs (p.attempt (F := threads) ThreadOp.point fun _ r => r)
    (events.map (Event.lift (F := threads) ThreadOp.point fun _ r => some r))
    (q.attempt (F := threads) ThreadOp.point fun _ r => r)
  refine Runs.attempt ?_ h
  intro _ _
  rfl

theorem runs_masked {α : Type} {p q : Handler α} {events : List (Event posix)}
    (h : Runs p events q) : Runs (masked p) (events.map Event.disabled) (masked q) := by
  show Runs (p.attempt (F := threads) ThreadOp.posix fun _ r => some r)
    (events.map (Event.lift (F := threads) ThreadOp.posix fun _ r => r))
    (q.attempt (F := threads) ThreadOp.posix fun _ r => some r)
  refine Runs.attempt ?_ h
  intro _ _
  rfl

/-- The steps of `thread_cleanup`. -/
def cleanUp (n : ThreadInfo) (fd : ℤ) : List (Event posix) :=
  [⟨.loadClientFd n, fd⟩, ⟨.loadClientFd n, fd⟩, ⟨.close fd, (0 : ℤ)⟩, ⟨.mutexLock .list, ()⟩,
    ⟨.listRemove n, ()⟩, ⟨.mutexUnlock .list, ()⟩, ⟨.free n, ()⟩]

theorem runs_cleanUp (h : fd ≠ -1) : Runs (threadCleanup n) (cleanUp n fd) (.pure ()) := by
  refine .call _ ?_
  rw [Prog.pure_bind, if_pos h]
  exact .call _ (.call _ (.call _ (.call _ (.call _ (.call _ (.refl _))))))

/-- The steps of a handler that comes to the end of its text. -/
def finished (n : ThreadInfo) (fd : ℤ) (events : List (Event posix)) : List (Event threads) :=
  ⟨.start, n⟩ :: (events.map Event.enabled ++ ((cleanUp n fd).map Event.enabled ++ [⟨.exit, ()⟩]))

theorem runs_finished {events : List (Event posix)} (h : fd ≠ -1)
    (hrun : Runs (handleConnection n stack) events (.pure ())) :
    Runs (handlerThread stack) (finished n fd events) (.pure ()) := by
  refine .call _ ((runs_cancellable hrun).seq ?_)
  exact (runs_cancellable (runs_cleanUp h)).seq (.call _ (.refl _))

/-- The steps of a handler up to a call. -/
def upTo (n : ThreadInfo) (events : List (Event posix)) : List (Event threads) :=
  ⟨.start, n⟩ :: events.map Event.enabled

theorem runs_upTo {events : List (Event posix)} {p : Handler Unit}
    (hrun : Runs (handleConnection n stack) events p) :
    ∃ b, Runs (handlerThread stack) (upTo n events) b :=
  ⟨_, .call _ ((runs_cancellable hrun).bind _)⟩

/-- The steps of a handler that is cancelled at the call `o`. -/
def cancelledAt (n : ThreadInfo) (fd : ℤ) (o : PosixOp) : List (Event threads) :=
  ⟨.point o, none⟩ :: ((cleanUp n fd).map Event.disabled ++ [⟨.exit, ()⟩])

/-- A handler can be cancelled at any call. -/
theorem runs_cancelledAt {events : List (Event posix)} {o : PosixOp} {k : PosixRes o → Handler Unit}
    (h : fd ≠ -1) (hrun : Runs (handleConnection n stack) events (Prog.call (E := posix) o k)) :
    Runs (handlerThread stack) (upTo n events ++ cancelledAt n fd o) (.pure ()) := by
  have hcall : Runs (cancellable (handleConnection n stack))
      (events.map Event.enabled ++ [⟨.point o, none⟩]) (.pure none) :=
    (runs_cancellable hrun).trans (.call _ (.refl _))
  have hevents : upTo n events ++ cancelledAt n fd o = ⟨.start, n⟩ ::
      ((events.map Event.enabled ++ [⟨.point o, none⟩]) ++
        ((cleanUp n fd).map Event.disabled ++ [⟨.exit, ()⟩])) := by
    simp [upTo, cancelledAt]
  rw [hevents]
  refine .call _ (hcall.seq ?_)
  exact (runs_masked (runs_cleanUp h)).seq (.call _ (.refl _))

/-- The client hangs up. -/
theorem runs_hangUp (fd : ℤ) (hf : f.val ≠ -1) : Runs (handleConnection n stack)
    (opened n fd f ++ [⟨.recv fd bufferSize, Transfer.empty bufferSize⟩]) (.pure ()) := by
  have hround : Runs (serve n fd f stack) [⟨.recv fd bufferSize, Transfer.empty bufferSize⟩]
      (.pure (.inr ())) := by
    rw [serve_eq]
    exact .call _ (.refl _)
  exact (runs_opened hf).trans (.loop (hround.bind _))

/-- The handler waits for data. -/
theorem runs_waiting (fd : ℤ) (hf : f.val ≠ -1) : ∃ k, Runs (handleConnection n stack) (opened n fd f)
    (Prog.call (E := posix) (.recv fd bufferSize) k) := by
  obtain ⟨k, hk⟩ : ∃ k, serve n fd f stack = Prog.call (E := posix) (.recv fd bufferSize) k :=
    ⟨_, serve_eq⟩
  have hround : Runs (serve n fd f stack) [] (Prog.call (E := posix) (.recv fd bufferSize) k) := by
    rw [hk]
    exact .refl _
  exact ⟨_, (runs_opened hf).trans (.loop (hround.bind _))⟩

/-- The handler is about to write the data that it has received. -/
theorem runs_writing (fd : ℤ) (f : Descriptor) (r : Transfer bufferSize) (hf : f.val ≠ -1)
    (hr : 0 < r.retval) (hlen : r.data.length < bufferSize) (hdata : ¬seekPrefix <+: r.data) :
    ∃ k, Runs (handleConnection n stack)
      (opened n fd f ++ [⟨.recv fd bufferSize, r⟩, ⟨.mutexLock .file, ()⟩])
      (Prog.call (E := posix) (.write f.val r.data) k) := by
  obtain ⟨k, hk⟩ : ∃ k, storeData fd f (stack.chunk r) r.data.length =
      Prog.call (E := posix) (.mutexLock .file) fun _ => .call (.write f.val r.data) k := by
    rw [storeData, if_neg hf, Buffer.take_chunk]
    exact ⟨_, rfl⟩
  have hround : Runs (serve n fd f stack) [⟨.recv fd bufferSize, r⟩, ⟨.mutexLock .file, ()⟩]
      (Prog.call (E := posix) (.write f.val r.data) k) := by
    rw [serve_eq]
    refine .call _ ?_
    rw [if_neg (not_le.mpr hr), if_neg (not_le.mpr hlen), afterChunk, if_neg hdata, hk]
    exact .call _ (.refl _)
  exact ⟨_, (runs_opened hf).trans (.loop (hround.bind _))⟩

end Handler

/-- Main and one handler take turns. -/
theorem exists_run_pair {stack : Buffer} {m : List (ℕ × Event threads)} {s' : Threads}
    {b c : ThreadText Unit} (hplay : Threads.init.play m = some s')
    (hmain : Runs mainThread (eventsOf 0 m) b)
    (hhandler : Runs (handlerThread stack) (eventsOf 1 m) c) (hothers : ∀ t, eventsOf (t + 2) m = []) :
    ∃ τ q, Steps (lifecycle fun _ => stack) ((lifecycle fun _ => stack).init Threads.init) τ q ∧
      τ.map (fun a => (a.task, a.event)) = m ∧ q.shared = s' ∧ Runs (q.task 0).prog [] b := by
  have hruns : ∀ t, ∃ d,
      Runs ((lifecycle fun _ => stack).text t) (eventsOf t m) d ∧ (t = 0 → d = b) := by
    intro t
    rcases t with _ | _ | t
    · exact ⟨b, hmain, fun _ => rfl⟩
    · exact ⟨c, hhandler, by simp⟩
    · rw [hothers]
      exact ⟨_, .refl _, by simp⟩
  choose d hd hd₀ using hruns
  obtain ⟨τ, q, hq, hτ, hs, hrest⟩ :=
    exists_run (p := (lifecycle fun _ => stack).init Threads.init) hplay hd
  exact ⟨τ, q, hq, hτ, hs, hd₀ 0 rfl ▸ hrest 0⟩

/-- The descriptor of the second handler. -/
def otherFd : Descriptor := ⟨7, by decide⟩

/-- A client connects and hangs up before main is told to terminate. -/
def oneClient : List (ℕ × Event threads) :=
  turn 0 (connect 3 4 0) ++
    turn 1 (finished 0 4 (opened 0 4 deviceFd ++
      [⟨.recv 4 bufferSize, Transfer.empty bufferSize⟩])) ++
    turn 0 leave

theorem exists_oneClient : ∃ τ q,
    Steps (lifecycle fun _ => Buffer.zero) ((lifecycle fun _ => Buffer.zero).init Threads.init) τ q ∧
      τ.map (fun a => (a.task, a.event)) = oneClient ∧
      Threads.init.play oneClient = some q.shared ∧ (q.task 0).prog = .pure () := by
  have hplay : (Threads.init.play oneClient).isSome = true := by decide
  obtain ⟨s', hs'⟩ := Option.isSome_iff_exists.mp hplay
  have hmain : Runs mainThread (eventsOf 0 oneClient) (.pure ()) := by
    simpa [oneClient] using (runs_connect (by decide)).trans runs_leave
  have hhandler : Runs (handlerThread Buffer.zero) (eventsOf 1 oneClient) (.pure ()) := by
    simpa [oneClient] using runs_finished (by decide) (runs_hangUp 4 (by decide))
  obtain ⟨τ, q, hq, hτ, hs, hrest⟩ :=
    exists_run_pair hs' hmain hhandler fun t => by simp [oneClient]
  -- main has nothing left to do but to return
  obtain ⟨q', hq', hshared, htask, -⟩ :=
    (Alone.nil (M := lifecycle fun _ => Buffer.zero) (q.task 0).hist q.shared).steps hrest
  have hrun := hq.trans hq'
  rw [List.append_nil] at hrun
  exact ⟨τ, q', hrun, hτ, by rw [hshared, hs, hs'], by rw [htask]⟩

end Aesd.Server

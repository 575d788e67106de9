import Aesd.Server.Process
import Aesd.Server.ThreadRuns

/-! # What the process can do

A run of the program is put together from turns of its tasks. As a daemon it can come to its loop,
start a thread for a connection, and be told to terminate between the test of `terminate_program` and
`accept`. -/

namespace Aesd.Server

open Effects

variable {argv : List String} {buffers : ℕ → Buffer}

/-- The state after an operation with its answer. -/
def Process.play (t : ℕ) (s : Process) (e : Event process) : Option Process := s.answer t e.op e.res

/-- A step of the threads as a step of the process. -/
def Event.ofThread (e : Event threads) : Event process := ⟨.thread e.op, e.res⟩

theorem runs_thread {α : Type} {p q : ThreadText α} {events : List (Event threads)}
    (h : Runs p events q) : Runs (thread p) (events.map Event.ofThread) (thread q) := by
  rw [List.map_eq_flatMap]
  exact Runs.link (fun _ => .call _ (.refl _)) h

/-- The start-up as a daemon, with the socket `fd`. -/
def startDaemon (fd : ℤ) : List (Event process) :=
  [⟨.sigaction .int, ()⟩, ⟨.sigaction .term, ()⟩, ⟨.openlog, ()⟩, ⟨.getaddrinfo, (0 : ℤ)⟩,
    ⟨.socket, fd⟩, ⟨.storeServerFd fd, ()⟩, ⟨.thread .loadServerFd, fd⟩, ⟨.thread .loadServerFd, fd⟩,
    ⟨.setsockopt fd, (0 : ℤ)⟩, ⟨.thread .loadServerFd, fd⟩, ⟨.bind fd, (0 : ℤ)⟩, ⟨.freeaddrinfo, ()⟩,
    ⟨.fork, (0 : ℤ)⟩, ⟨.setsid, (1 : ℤ)⟩, ⟨.chdir, (0 : ℤ)⟩, ⟨.thread (.posix (.close 0)), (0 : ℤ)⟩,
    ⟨.thread (.posix (.close 1)), (0 : ℤ)⟩, ⟨.thread (.posix (.close 2)), (0 : ℤ)⟩,
    ⟨.openNull .rdonly, (0 : ℤ)⟩, ⟨.openNull .wronly, (1 : ℤ)⟩, ⟨.openNull .wronly, (2 : ℤ)⟩,
    ⟨.thread .loadServerFd, fd⟩, ⟨.listen fd, (0 : ℤ)⟩, ⟨.listInit, ()⟩]

theorem runs_startDaemon {fd : ℤ} (h : fd ≠ -1) :
    Runs (startUp ["aesdsocket", "-d"]) (startDaemon fd) (.pure none) := by
  simp only [startUp, sigaction, openlog, getaddrinfo, socket, storeServerFd, prepareSocket,
    readServerFd_eq, setsockopt, bindSocket, freeaddrinfo, daemonize, fork, setsid, chdir, closeFd_eq,
    openNull, startListening, listen, listInit, Prog.bind_eq, Prog.call_bind, Prog.pure_bind,
    Prog.pure_eq]
  refine .call _ (.call _ (.call _ (.call _ (.call _ (.call _ (.call _ ?_))))))
  rw [if_neg h]
  refine .call _ (.call _ (.call _ (.call _ (.call _ ?_))))
  refine .call _ (.call _ (.call _ (.call _ (.call _ (.call _ (.call _ (.call _ (.call _ ?_))))))))
  exact .call _ (.call _ (.call _ (.refl _)))

/-- Main comes to its loop, starts a thread for a connection, and finds `terminate_program` clear. -/
def comeUp : List (Event process) :=
  startDaemon 3 ++ (connect 3 4 0 ++ [(⟨.terminateProgram, false⟩ : Event threads)]).map Event.ofThread

/-- The client hangs up. -/
def hangUp : List (Event process) :=
  (finished 0 4 (opened 0 4 deviceFd ++
    [⟨.recv 4 bufferSize, Transfer.empty bufferSize⟩])).map Event.ofThread

/-- The server is told to terminate, and the socket is closed. -/
def catchSignal : List (Event process) :=
  [⟨.caught, Signal.term⟩, ⟨.thread (.syslogInfo "Caught signal, exiting"), ()⟩, ⟨.setTerminate, ()⟩,
    ⟨.thread .loadServerFd, (3 : ℤ)⟩, ⟨.thread .loadServerFd, (3 : ℤ)⟩,
    ⟨.thread (.posix (.close 3)), (0 : ℤ)⟩, ⟨.storeServerFd (-1), ()⟩]

/-- Main calls `accept` without a socket, leaves its loop and returns. -/
def goDown : List (Event process) :=
  ([(⟨.loadServerFd, (-1 : ℤ)⟩ : Event threads), ⟨.accept (-1), (-1 : ℤ)⟩] ++ leave).map Event.ofThread

theorem runs_catchSignal : Runs signalHandler catchSignal (.pure ()) := by
  simp only [signalHandler, caught, thread_syslogInfo, setTerminate, readServerFd_eq, closeFd_eq,
    storeServerFd, Prog.bind_eq, Prog.call_bind, Prog.pure_bind]
  refine .call _ (.call _ (.call _ (.call _ ?_)))
  exact .call _ (.call _ (.call _ (.refl _)))

theorem runs_comeUp_goDown : Runs (main ["aesdsocket", "-d"]) (comeUp ++ goDown) (.pure 0) := by
  -- the second round finds the flag clear before `accept` and set after it
  have hround : Runs acceptRound [⟨.terminateProgram, false⟩, ⟨.loadServerFd, (-1 : ℤ)⟩,
      ⟨.accept (-1), (-1 : ℤ)⟩, ⟨.terminateProgram, true⟩] (.pure (.inr ())) :=
    .call _ (.call _ (.call _ (.call _ (.refl _))))
  have hshutdown : Runs shutdown [⟨.loadServerFd, (-1 : ℤ)⟩, ⟨.posix (.mutexLock .list), ()⟩,
      ⟨.listFirst, none⟩, ⟨.posix (.mutexUnlock .list), ()⟩, ⟨.closelog, ()⟩] (.pure ()) :=
    .call _ (.call _ (.call _ (.loop (.call _ (.call _ (.refl _))))))
  have hconnect : Runs mainThread (connect 3 4 0) mainThread := runs_connect (by decide)
  have hlast := hconnect.trans (.loop ((hround.bind _).trans hshutdown))
  rw [comeUp, goDown, List.append_assoc, ← List.map_append, main, Prog.bind_eq]
  exact ((runs_startDaemon (by decide)).bind _).trans ((runs_thread hlast).bind _)

/-- The descriptors 0, 1 and 2 are open. -/
def standardFiles (n : ℕ) : Bool := n < 3

/-- A daemon serves a client and is told to terminate. -/
def daemonRun : List (ℕ × Event process) :=
  comeUp.map (fun e => (0, e)) ++ (hangUp.map (fun e => (2, e)) ++
    (catchSignal.map (fun e => (1, e)) ++ goDown.map (fun e => (0, e))))

theorem exists_daemonRun : ∃ τ q,
    Steps (aesdsocket ["aesdsocket", "-d"] fun _ => Buffer.zero)
      (aesdsocketInit ["aesdsocket", "-d"] (fun _ => Buffer.zero) standardFiles) τ q ∧
      τ.map (fun a => (a.task, a.event)) = daemonRun ∧ (q.task 0).prog = .pure (some 0) := by
  have hplay : ((comeUp.foldlM (Process.play 0) (Process.init standardFiles)).bind fun s =>
      (hangUp.foldlM (Process.play 2) s).bind fun s => (catchSignal.foldlM (Process.play 1) s).bind
        fun s => goDown.foldlM (Process.play 0) s).isSome = true := by decide
  obtain ⟨s₄, hplay⟩ := Option.isSome_iff_exists.mp hplay
  obtain ⟨s₁, hs₁, hplay⟩ := Option.bind_eq_some_iff.mp hplay
  obtain ⟨s₂, hs₂, hplay⟩ := Option.bind_eq_some_iff.mp hplay
  obtain ⟨s₃, hs₃, hs₄⟩ := Option.bind_eq_some_iff.mp hplay
  have hans : ∀ t hist (e : Event process) (s s' : Process), Process.play t s e = some s' →
      (aesdsocket ["aesdsocket", "-d"] fun _ => Buffer.zero).answers t hist e.op s e.res s' :=
    fun _ _ _ _ _ h => h
  obtain ⟨c, hup, hdown⟩ := (runs_comeUp_goDown.bind fun status => .pure (some status)).split
  have hclient : Runs (thread (handlerThread Buffer.zero)) hangUp (thread (.pure ())) :=
    runs_thread (runs_finished (by decide) (runs_hangUp 4 (by decide)))
  have hsignal := runs_catchSignal.bind fun _ => .pure (none : Option ℤ)
  -- the tasks take their turns
  obtain ⟨τ₁, q₁, h₁, hτ₁, hq₁, htask₁, hothers₁⟩ := Steps.turn
    (p := aesdsocketInit ["aesdsocket", "-d"] (fun _ => Buffer.zero) standardFiles)
    (t := 0) (hans 0) hs₁ hup
  subst hq₁
  obtain ⟨τ₂, q₂, h₂, hτ₂, hq₂, htask₂, hothers₂⟩ := Steps.turn (t := 2) (hans 2) hs₂
    (by rw [hothers₁ 2 (by decide)]; exact hclient.bind fun _ => .pure none)
  subst hq₂
  obtain ⟨τ₃, q₃, h₃, hτ₃, hq₃, htask₃, hothers₃⟩ := Steps.turn (t := 1) (hans 1) hs₃
    (by rw [hothers₂ 1 (by decide), hothers₁ 1 (by decide)]; exact hsignal)
  subst hq₃
  obtain ⟨τ₄, q₄, h₄, hτ₄, -, htask₄, -⟩ := Steps.turn (t := 0) (hans 0) hs₄
    (by rw [hothers₃ 0 (by decide), hothers₂ 0 (by decide), htask₁]; exact hdown)
  refine ⟨_, q₄, ((h₁.trans h₂).trans h₃).trans h₄, ?_, htask₄⟩
  rw [List.map_append, List.map_append, List.map_append, hτ₁, hτ₂, hτ₃, hτ₄, daemonRun,
    List.append_assoc, List.append_assoc]

end Aesd.Server

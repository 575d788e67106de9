import Aesd.Server.Process

/-! # What the tasks of the process know

A task reads `server_fd` and uses the number later, when another task may have closed it. A `View` is
what a task knows at each of its operations: how far main has got, what the task has read of
`server_fd`, whether it knows `terminate_program` to be set, and the descriptors it may close. The
texts of the process keep to their views, whatever answers they get. -/

namespace Aesd.Server

open Effects CLib

/-- How far main has got. -/
inductive Stage where
  /-- There is no socket yet. -/
  | boot
  /-- The socket has been created. -/
  | created
  /-- `server_fd` has been set to it. -/
  | stored
  /-- So many of the six descriptors have been closed and opened by `daemonize`. -/
  | detaching (k : ℕ)
  /-- `listen` has succeeded. -/
  | serving
  deriving DecidableEq

/-- `server_fd` has been set. -/
def Stage.isStored : Stage → Bool
  | .boot | .created => false
  | _ => true

/-- What a task knows. -/
structure View where
  /-- How far main has got. -/
  stage : Stage
  /-- What `socket` has returned. -/
  socket : ℤ
  /-- The address list. -/
  servinfo : Servinfo
  /-- What `daemonize` has got of `/dev/null`. -/
  nulls : List ℤ
  /-- `terminate_program` was clear, and `accept` has not been called since. -/
  fresh : Bool
  /-- `server_fd` as read last. -/
  arg : ℤ
  /-- It had been set when it was read. -/
  known : Bool
  /-- The task has closed it. -/
  gone : Bool
  /-- `terminate_program` is set. -/
  flagged : Bool
  /-- The task has begun. -/
  awake : Bool
  /-- The descriptors that the task has opened or been given. -/
  numbers : List ℤ

/-- In the beginning. -/
def View.start : View where
  stage := .boot
  socket := -1
  servinfo := .unset
  nulls := []
  fresh := false
  arg := -1
  known := false
  gone := false
  flagged := false
  awake := false
  numbers := []

namespace View

variable (v : View)

/-- `server_fd` is read. -/
def load (fd : ℤ) : View := { v with arg := fd, known := v.known || v.stage.isStored || fd ≠ -1 }

/-- `terminate_program` is read. -/
def readFlag (b : Bool) : View := { v with flagged := v.flagged || b, fresh := !b }

/-- The number read of `server_fd` is closed. -/
def closeArg (fd : ℤ) : Option View :=
  if fd = v.arg ∧ v.known = true then some { v with gone := true } else none

/-- A descriptor comes to the task. -/
def number (fd : ℤ) : View := { v with numbers := fd :: v.numbers }

/-- `accept` has returned. -/
def accepted (fd : ℤ) : View :=
  if fd = -1 then { v with fresh := false } else { v with fresh := false }.number fd

/-- A close of main. -/
def mainClose (fd : ℤ) : Option View :=
  match v.stage with
  | .stored => v.closeArg fd
  | .detaching k =>
      if k < 3 then if fd = k then some { v with stage := .detaching (k + 1) } else none
      else v.closeArg fd
  | .serving =>
      -- after its loop main closes the socket, and before that only connections
      if v.flagged then v.closeArg fd else if fd ∈ v.numbers then some v else none
  | _ => none

/-- Main as a thread. -/
def mainThread : (o : ThreadOp) → ThreadRes o → Option View
  | .posix (.syslog _), _ => some v
  | .loadServerFd, fd => some (v.load fd)
  | .posix (.close fd), _ => v.mainClose fd
  | .terminateProgram, b => some (v.readFlag b)
  | .accept fd, r =>
      if v.stage = .serving ∧ v.fresh = true ∧ v.known = true ∧ fd = v.arg then some (v.accepted r)
      else none
  | .storeClientFd _ fd, _ => if v.stage = .serving ∧ fd ∈ v.numbers then some v else none
  | .posix (.openFile _), _ | .posix (.loadClientFd _), _ | .point _, _ | .start, _ | .exit, _ => none
  | _, _ => if v.stage = .serving then some v else none

/-- Main. -/
def main (daemon : Bool) : (o : ProcessOp) → ProcessRes o → Option View
  | .thread o, r => v.mainThread o r
  | .sigaction _, _ | .openlog, _ | .setsockopt _, _ | .setsid, _ | .chdir, _ => some v
  | .listInit, _ => if v.stage = .serving then some v else none
  | .getaddrinfo, status =>
      if v.stage = .boot ∧ v.servinfo = .unset then
        some (if status = 0 then { v with servinfo := .live } else v)
      else none
  | .socket, fd =>
      if v.stage = .boot ∧ v.servinfo = .live then some { v with stage := .created, socket := fd }
      else none
  | .storeServerFd fd, _ =>
      if v.stage = .created ∧ fd = v.socket then some { v with stage := .stored } else none
  | .bind _, _ => if v.servinfo = .live then some v else none
  | .freeaddrinfo, _ =>
      if v.servinfo = .live then some { v with servinfo := .freed } else none
  | .fork, _ =>
      if v.stage = .stored ∧ daemon = true then some { v with stage := .detaching 0 } else none
  | .openNull flags, fd =>
      match v.stage with
      | .detaching k =>
          if 3 ≤ k ∧ flags = (if k = 3 then .rdonly else .wronly) then
            some { v with stage := .detaching (k + 1), nulls := v.nulls ++ [fd] }
          else none
      | _ => none
  | .listen fd, r =>
      if v.stage = (if daemon then .detaching 6 else .stored) ∧ fd = v.arg then
        some (if r = -1 then v else { v with stage := .serving })
      else none
  | _, _ => none

/-- A run of `signal_handler`. -/
def signal : (o : ProcessOp) → ProcessRes o → Option View
  | .caught, _ | .thread (.syslogInfo _), _ => some v
  | .setTerminate, _ => some { v with flagged := true }
  | .thread .loadServerFd, fd => some (v.load fd)
  | .thread (.posix (.close fd)), _ => if v.flagged then v.closeArg fd else none
  | .storeServerFd fd, _ => if fd = -1 ∧ v.gone = true ∧ v.flagged = true then some v else none
  | _, _ => none

/-- A system call of a handler of a connection. -/
def call : (o : PosixOp) → PosixRes o → Option View
  | .loadClientFd _, fd => some (v.number fd)
  | .openFile _, fd => some (v.number fd.val)
  | .close fd, _ => if fd ∈ v.numbers then some v else none
  | _, _ => some v

/-- A handler of a connection. -/
def client : (o : ThreadOp) → ThreadRes o → Option View
  | .start, _ => if v.awake then none else some { v with awake := true }
  | .posix o, r | .point o, some r => if v.awake then v.call o r else none
  | .point _, none | .exit, _ => if v.awake then some v else none
  | _, _ => none

end View

/-- The tasks. -/
inductive Role where
  /-- Main. -/
  | main
  /-- A run of `signal_handler`. -/
  | signal
  /-- A handler of a connection. -/
  | client
  deriving DecidableEq

/-- The role of each task. -/
def roleOf (t : ℕ) : Role := if t = 0 then .main else if t % 2 = 1 then .signal else .client

/-- What a task in its role makes of an event. -/
def Role.step (daemon : Bool) : Role → View → Event process → Option View
  | .main, v, ⟨o, r⟩ => v.main daemon o r
  | .signal, v, ⟨o, r⟩ => v.signal o r
  | .client, v, ⟨.thread o, r⟩ => v.client o r
  | .client, _, _ => none

/-- The monitor of a role. -/
def Role.views (daemon : Bool) (role : Role) : Monitor process View where
  expects _ _ := True
  step := role.step daemon

/-! ### Texts of the threads -/

/-- The monitor of main as a thread. -/
def mainViews : Monitor threads View where
  expects _ _ := True
  step v e := v.mainThread e.op e.res

/-- The monitor of a handler of a connection. -/
def clientViews : Monitor threads View where
  expects _ _ := True
  step v e := v.client e.op e.res

/-- The monitor of the system calls of a handler of a connection. -/
def callViews : Monitor posix View where
  expects _ _ := True
  step v e := v.call e.op e.res

section Threads

variable {α : Type} {daemon : Bool} {v : View} {Q : α → View → Prop}

/-- A text of the threads as a text of main. -/
theorem follows_thread_main {p : ThreadText α} (h : Follows mainViews v p Q) :
    Follows (Role.main.views daemon) v (thread p) Q := by
  refine Follows.link (M := mainViews) (fun o v hstep => ?_) h
  intro r _
  obtain ⟨v', hv'⟩ := hstep r trivial
  exact ⟨v', hv', trivial, hv'⟩

/-- A text of the threads as a text of a handler. -/
theorem follows_thread_client {p : ThreadText α} (h : Follows clientViews v p Q) :
    Follows (Role.client.views daemon) v (thread p) Q := by
  refine Follows.link (M := clientViews) (fun o v hstep => ?_) h
  intro r _
  obtain ⟨v', hv'⟩ := hstep r trivial
  exact ⟨v', hv', trivial, hv'⟩

end Threads

/-! ### A run of the signal handler -/

section Signals

variable {daemon : Bool} {v : View}

/-- What has been read is closed. -/
theorem View.closeArg_arg (h : v.known = true) : v.closeArg v.arg = some { v with gone := true } :=
  if_pos ⟨rfl, h⟩

/-- The handler closes what it has read. -/
theorem View.signal_close {r : ℤ} (hflagged : v.flagged = true) (h : v.known = true) :
    v.signal (.thread (.posix (.close v.arg))) r = some { v with gone := true } :=
  (if_pos hflagged).trans (View.closeArg_arg h)

/-- An operation of the handler. -/
theorem follows_signal {α : Type} {o : ProcessOp} {k : ProcessRes o → ProcessText α}
    {f : ProcessRes o → View} {Q : α → View → Prop} (hstep : ∀ r, v.signal o r = some (f r))
    (hk : ∀ r, Follows (Role.signal.views daemon) (f r) (k r) Q) :
    Follows (Role.signal.views daemon) v (Prog.call (E := process) o k) Q :=
  fun r _ => ⟨f r, hstep r, hk r⟩

/-- The handler sets the flag, then closes what it has read, and only then forgets it. -/
theorem follows_signalHandler :
    Follows (Role.signal.views daemon) .start signalHandler fun _ _ => True := by
  simp only [signalHandler, caught, thread_syslogInfo, setTerminate, readServerFd_eq, closeFd_eq,
    storeServerFd, Prog.bind_eq, Prog.call_bind, Prog.pure_bind]
  refine follows_signal (fun _ => rfl) fun _ => follows_signal (fun _ => rfl) fun _ => ?_
  refine follows_signal (fun _ => rfl) fun _ => follows_signal (fun _ => rfl) fun fd => ?_
  by_cases hfd : fd = -1
  · rw [if_neg (not_not.mpr hfd)]
    trivial
  · rw [if_pos hfd]
    -- it is known then that the socket has been stored
    refine follows_signal (fun _ => rfl) fun fd' => ?_
    refine follows_signal (fun _ => View.signal_close rfl ?_) fun _ => ?_
    · simp [View.load, hfd]
    · exact follows_signal (fun _ => rfl) fun _ => trivial

end Signals

/-! ### A handler of a connection -/

section Clients

variable {daemon : Bool} {v : View} {α : Type} {tinfo : ThreadInfo} {clientFd fileFd : ℤ}
  {buffer : Buffer}

/-- The calls that close nothing but `fd`. -/
def ClosesOnly (fd : ℤ) (o : PosixOp) : Prop := ∀ fd', o = .close fd' → fd' = fd

/-- A call that closes nothing else keeps the descriptor. -/
theorem ClosesOnly.call {o : PosixOp} (h : ClosesOnly fileFd o) (hv : fileFd ∈ v.numbers)
    (r : PosixRes o) : ∃ v', v.call o r = some v' ∧ fileFd ∈ v'.numbers := by
  cases o with
  | close fd =>
      obtain rfl := h fd rfl
      exact ⟨v, if_pos hv, hv⟩
  | loadClientFd | openFile => exact ⟨_, rfl, List.mem_cons_of_mem _ hv⟩
  | _ => exact ⟨v, rfl, hv⟩

/-- A text that closes nothing else keeps the descriptor. -/
theorem follows_closesOnly {p : Handler α} (hp : Uses (E := posix) (ClosesOnly fileFd) p)
    (hv : fileFd ∈ v.numbers) : Follows callViews v p fun _ v' => fileFd ∈ v'.numbers :=
  hp.keeps hv fun _ r _ ho hv => ho.call hv r

theorem closesOnly_of_ne {o : PosixOp} (h : ∀ fd, o ≠ .close fd) : ClosesOnly fileFd o :=
  fun fd ho => absurd ho (h fd)

theorem closesOnly_close : ClosesOnly fileFd (.close fileFd) := fun _ h => by
  cases h
  rfl

/-- The seek branch closes `file_fd`. -/
theorem closesOnly_seekCommand :
    Uses (E := posix) (ClosesOnly fileFd) (seekCommand tinfo fileFd buffer) := by
  refine uses_seekCommand_of (closesOnly_of_ne (by simp)) (closesOnly_of_ne (by simp)) fun seekto => ?_
  have hloop : Uses (E := posix) (ClosesOnly fileFd)
      ((Prog.iterate (fun () => sendRest tinfo fileFd) ()).bind fun _ => close fileFd) := by
    refine ⟨fun _ => ?_, fun _ => ⟨closesOnly_close, fun _ => trivial⟩⟩
    simp only [sendRest, read, loadClientFd, send, Prog.bind_eq, Prog.call_bind, Prog.pure_bind,
      Prog.pure_eq]
    refine ⟨closesOnly_of_ne (by simp), fun r => Uses.ite ?_ trivial⟩
    refine ⟨closesOnly_of_ne (by simp), fun _ => ?_⟩
    exact ⟨closesOnly_of_ne (by simp), fun _ => trivial⟩
  simp only [performSeek, ioctl, syslog, Prog.bind_eq, Prog.call_bind, Prog.pure_bind]
  refine Uses.ite ⟨closesOnly_of_ne (by simp), fun _ => trivial⟩ ?_
  refine ⟨closesOnly_of_ne (by simp), fun n => ?_⟩
  exact Uses.ite ⟨closesOnly_of_ne (by simp), fun _ => hloop⟩ hloop

/-- A call of a handler. -/
theorem follows_call {o : PosixOp} {k : PosixRes o → Handler α} {f : PosixRes o → View}
    {Q : α → View → Prop} (hstep : ∀ r, v.call o r = some (f r))
    (hk : ∀ r, Follows callViews (f r) (k r) Q) :
    Follows callViews v (Prog.call (E := posix) o k) Q :=
  fun r _ => ⟨f r, hstep r, hk r⟩

/-- The answer to data closes the descriptor that it has opened. -/
theorem follows_call_respond {m : ℕ} (hv : fileFd ∈ v.numbers) :
    Follows callViews v (respond clientFd buffer m) fun _ v' => fileFd ∈ v'.numbers := by
  simp only [respond, openFile, syslog, close, Prog.bind_eq, Prog.call_bind, Prog.pure_bind,
    Prog.pure_eq]
  refine Follows.ite (follows_call (fun _ => rfl) fun fd => Follows.ite ?_ ?_) hv
  · exact follows_call (fun _ => rfl) fun _ => List.mem_cons_of_mem _ hv
  · refine (Follows.iterate (fun _ v' => fd.val ∈ v'.numbers ∧ fileFd ∈ v'.numbers)
      (Q := fun _ v' => fd.val ∈ v'.numbers ∧ fileFd ∈ v'.numbers)
      ⟨List.mem_cons_self, List.mem_cons_of_mem _ hv⟩ ?_).bind ?_
    · rintro buffer v' h
      simp only [echo, read, send, syslog, Prog.bind_eq, Prog.call_bind, Prog.pure_bind,
        Prog.pure_eq]
      refine follows_call (fun _ => rfl) fun r => Follows.ite ?_ h
      refine follows_call (fun _ => rfl) fun n => Follows.ite ?_ h
      exact follows_call (fun _ => rfl) fun _ => h
    · rintro buffer v' ⟨hfd, h⟩
      exact follows_call (fun _ => if_pos hfd) fun _ => h

/-- The data branch closes `file_fd`. -/
theorem follows_call_storeData {m : ℕ} (hv : fileFd ∈ v.numbers) :
    Follows callViews v (storeData clientFd fileFd buffer m) fun _ v' => fileFd ∈ v'.numbers := by
  simp only [storeData, mutexLock, mutexUnlock, write, syslog, close, Prog.bind_eq, Prog.call_bind,
    Prog.pure_bind, Prog.pure_eq]
  refine follows_call (fun _ => rfl) fun _ => Follows.ite ?_ ?_
  · refine follows_call (fun _ => rfl) fun _ => ?_
    exact follows_call (fun _ => rfl) fun _ => hv
  · refine follows_call (fun _ => rfl) fun _ => Follows.ite ?_ ?_
    · refine follows_call (fun _ => rfl) fun _ => follows_call (fun _ => if_pos hv) fun _ => ?_
      exact follows_call (fun _ => rfl) fun _ => hv
    · refine follows_call (fun _ => if_pos hv) fun _ => ?_
      exact follows_call (fun _ => rfl) fun _ => follows_call_respond hv

theorem follows_call_serve (hv : fileFd ∈ v.numbers) :
    Follows callViews v (serve tinfo clientFd fileFd buffer) fun _ v' => fileFd ∈ v'.numbers := by
  have hchunk : ∀ r, Follows callViews v (afterChunk tinfo clientFd fileFd buffer r)
      fun _ v' => fileFd ∈ v'.numbers := fun r =>
    Follows.ite ((follows_closesOnly closesOnly_seekCommand hv).bind fun _ _ hv => hv)
      (follows_call_storeData hv)
  rw [serve_eq]
  refine follows_call (fun _ => rfl) fun r => Follows.ite hv (Follows.ite ?_ (hchunk r))
  exact follows_call (fun _ => rfl) fun _ => hchunk r

/-- `handle_client` up to the end of its loop. -/
theorem follows_call_handleConnection (stack : Buffer) :
    Follows callViews v (handleConnection tinfo stack) fun _ _ => True := by
  have hloop : ∀ clientFd fileFd, ∀ v : View, fileFd ∈ v.numbers →
      Follows callViews v (Prog.iterate (serve tinfo clientFd fileFd) stack) fun _ _ => True := by
    intro clientFd fileFd v hv
    refine Follows.iterate (fun _ v' => fileFd ∈ v'.numbers) hv fun buffer v' h => ?_
    refine (follows_call_serve h).mono fun r _ h => ?_
    cases r with
    | inl _ => exact h
    | inr _ => trivial
  simp only [handleConnection, loadClientFd, openFile, syslog, Prog.bind_eq, Prog.call_bind,
    Prog.pure_bind]
  refine follows_call (fun _ => rfl) fun clientFd => follows_call (fun _ => rfl) fun fileFd => ?_
  refine Follows.ite ?_ (hloop _ _ _ List.mem_cons_self)
  exact follows_call (fun _ => rfl) fun _ => hloop _ _ _ List.mem_cons_self

/-- `thread_cleanup` closes the descriptor that it has read. -/
theorem follows_call_threadCleanup :
    Follows callViews v (threadCleanup tinfo) fun _ _ => True := by
  have hrest : ∀ v : View, Follows callViews v (do
      mutexLock .list
      listRemove tinfo
      mutexUnlock .list
      free tinfo) fun _ _ => True := fun v =>
    follows_call (fun _ => rfl) fun _ => follows_call (fun _ => rfl) fun _ =>
      follows_call (fun _ => rfl) fun _ => follows_call (fun _ => rfl) fun _ => trivial
  simp only [threadCleanup, loadClientFd, close, Prog.bind_eq, Prog.call_bind, Prog.pure_bind]
  refine follows_call (fun _ => rfl) fun _ => Follows.ite ?_ (hrest _)
  refine follows_call (fun _ => rfl) fun fd => ?_
  exact follows_call (fun _ => if_pos List.mem_cons_self) fun _ => hrest _

/-- The view of a handler that has begun. -/
def View.begun (v : View) : View := { v with awake := true }

/-- Whether a handler has begun does not matter to its calls. -/
theorem View.begun_call {v' : View} {o : PosixOp} {r : PosixRes o} (h : v.call o r = some v') :
    v.begun.call o r = some v'.begun := by
  cases o with
  | close fd =>
      obtain ⟨hfd, hv⟩ := Option.ite_none_right_eq_some.mp h
      cases hv
      exact if_pos hfd
  | _ =>
      cases h
      rfl

/-- With cancellation enabled or disabled the text keeps to its view, up to its end or to the call
that is cancelled. -/
theorem follows_attempt {p : Handler α} {op : PosixOp → ThreadOp}
    {res : (o : PosixOp) → ThreadRes (op o) → Option (PosixRes o)}
    (hanswer : ∀ (v : View) o r' r, res o r' = some r → v.begun.client (op o) r' = v.begun.call o r)
    (hnone : ∀ (v : View) o r', res o r' = none → v.begun.client (op o) r' = some v.begun)
    (h : Follows callViews v p fun _ _ => True) :
    Follows clientViews v.begun (p.attempt (F := threads) op res) fun _ v' => v'.begun = v' := by
  refine (Follows.attempt View.begun (fun v' => v'.begun = v') ?_ ?_ h).mono ?_
  · intro v o r' r _ hr
    exact ⟨trivial, fun v' hv' => (hanswer v o r' r hr).trans (View.begun_call hv')⟩
  · intro v o r' _ hr _
    exact ⟨v.begun, hnone v o r' hr, rfl⟩
  · intro r v' hr
    cases r with
    | none => exact hr
    | some _ =>
        obtain ⟨v, rfl, -⟩ := hr
        rfl

theorem follows_client_cancellable {p : Handler α} (hv : v.begun = v)
    (h : Follows callViews v p fun _ _ => True) :
    Follows clientViews v (cancellable p) fun _ v' => v'.begun = v' := by
  have hp : Follows clientViews v.begun (cancellable p) _ := follows_attempt
    (fun v o r' r hr => by cases hr; rfl) (fun v o r' hr => by cases hr; rfl) h
  rwa [hv] at hp

theorem follows_client_masked {p : Handler α} (hv : v.begun = v)
    (h : Follows callViews v p fun _ _ => True) :
    Follows clientViews v (masked p) fun _ v' => v'.begun = v' := by
  have hp : Follows clientViews v.begun (masked p) _ := follows_attempt
    (fun v o r' r hr => by cases hr; rfl) (fun v o r' hr => by cases hr) h
  rwa [hv] at hp

/-- A handler keeps to its view. -/
theorem follows_client_handlerThread (stack : Buffer) :
    Follows clientViews .start (handlerThread stack) fun _ _ => True := by
  have hexit : ∀ v : View, v.begun = v → Follows clientViews v exit fun _ _ => True := by
    intro v hv _ _
    exact ⟨v, hv ▸ rfl, trivial⟩
  simp only [handlerThread, start, Prog.bind_eq, Prog.call_bind, Prog.pure_bind]
  refine fun n _ => ⟨View.start.begun, rfl, ?_⟩
  refine (follows_client_cancellable rfl (follows_call_handleConnection stack)).bind fun r v hv => ?_
  cases r with
  | some _ =>
      exact (follows_client_cancellable hv follows_call_threadCleanup).bind fun _ v hv => hexit v hv
  | none =>
      exact (follows_client_masked hv follows_call_threadCleanup).bind fun _ v hv => hexit v hv

end Clients

/-! ### Main -/

section Main

variable {daemon : Bool} {v : View} {α : Type}

/-- The socket has been closed, or has never been there, and the address list is not there. -/
structure View.Settled (v : View) : Prop where
  /-- The list. -/
  servinfo : v.servinfo ≠ .live
  /-- The socket. -/
  socket : v.stage = .boot ∨ v.gone = true ∨ v.arg = -1 ∧ v.known = true

/-- An operation of main as a thread. -/
theorem follows_mainThread_call {o : ThreadOp} {k : ThreadRes o → ThreadText α}
    {f : ThreadRes o → View} {Q : α → View → Prop} (hstep : ∀ r, v.mainThread o r = some (f r))
    (hk : ∀ r, Follows mainViews (f r) (k r) Q) :
    Follows mainViews v (Prog.call (E := threads) o k) Q :=
  fun r _ => ⟨f r, hstep r, hk r⟩

/-- An operation of main. -/
theorem follows_main_call {o : ProcessOp} {k : ProcessRes o → ProcessText α}
    {f : ProcessRes o → View} {Q : α → View → Prop} (hstep : ∀ r, v.main daemon o r = some (f r))
    (hk : ∀ r, Follows (Role.main.views daemon) (f r) (k r) Q) :
    Follows (Role.main.views daemon) v (Prog.call (E := process) o k) Q :=
  fun r _ => ⟨f r, hstep r, hk r⟩

/-- Main is in its loop. -/
structure View.Looping (v : View) : Prop where
  /-- It serves. -/
  stage : v.stage = .serving
  /-- The list has been freed. -/
  servinfo : v.servinfo ≠ .live
  /-- The flag has not been seen set. -/
  flagged : v.flagged = false

/-- Main leaves its loop. -/
structure View.Leaving (v : View) : Prop where
  /-- It serves. -/
  stage : v.stage = .serving
  /-- The list has been freed. -/
  servinfo : v.servinfo ≠ .live
  /-- The flag has been seen set. -/
  flagged : v.flagged = true

/-- What main reads and accepts does not end the loop, unless the flag has been set. -/
theorem View.Looping.of_eq {w : View} (hv : v.Looping) (hstage : w.stage = v.stage)
    (hservinfo : w.servinfo = v.servinfo) (hflagged : w.flagged = v.flagged) : w.Looping :=
  ⟨hstage.trans hv.stage, hservinfo ▸ hv.servinfo, hflagged.trans hv.flagged⟩

theorem View.Looping.readFlag_false (hv : v.Looping) : (v.readFlag false).Looping :=
  hv.of_eq rfl rfl (Bool.or_false _)

theorem View.Looping.readFlag_true (hv : v.Looping) : (v.readFlag true).Leaving :=
  ⟨hv.stage, hv.servinfo, Bool.or_true _⟩

theorem View.Looping.load (hv : v.Looping) (fd : ℤ) : (v.load fd).Looping := hv.of_eq rfl rfl rfl

theorem View.Looping.accepted (hv : v.Looping) (fd : ℤ) : (v.accepted fd).Looping := by
  rw [View.accepted]
  split
  · exact hv.of_eq rfl rfl rfl
  · exact hv.of_eq rfl rfl rfl

theorem View.mem_accepted {fd : ℤ} (hfd : fd ≠ -1) : fd ∈ (v.accepted fd).numbers := by
  rw [View.accepted, if_neg hfd]
  exact List.mem_cons_self

/-- After the store main knows what it reads. -/
theorem View.known_load {fd : ℤ}
    (hstage : v.stage = .stored ∨ v.stage = .detaching 6 ∨ v.stage = .serving) :
    (v.load fd).known = true := by
  rcases hstage with hstage | hstage | hstage <;> simp [View.load, hstage, Stage.isStored]

/-- In its loop main closes connections. -/
theorem View.Looping.close {fd r : ℤ} (hv : v.Looping) (hfd : fd ∈ v.numbers) :
    v.mainThread (.posix (.close fd)) r = some v := by
  rw [View.mainThread, View.mainClose, hv.stage, hv.flagged]
  exact if_pos hfd

/-- After its loop main closes what it has read. -/
theorem View.Leaving.close {r : ℤ} (hv : v.Leaving) (hknown : v.known = true) :
    v.mainThread (.posix (.close v.arg)) r = some { v with gone := true } := by
  have hclose : v.mainThread (.posix (.close v.arg)) r = v.closeArg v.arg := by
    rw [View.mainThread, View.mainClose, hv.stage]
    exact if_pos hv.flagged
  exact hclose.trans (View.closeArg_arg hknown)

theorem follows_view_startHandler {fd : ℤ} {tinfo : ThreadInfo} (hv : v.Looping)
    (hfd : fd ∈ v.numbers) : Follows mainViews v (startHandler fd tinfo) fun r v' =>
      Sum.elim (fun _ => v'.Looping) (fun _ => v'.Leaving) r := by
  have hserving : ∀ {o : ThreadOp} {k : ThreadRes o → ThreadText (Unit ⊕ Unit)}
      {Q : Unit ⊕ Unit → View → Prop},
      (∀ r, v.mainThread o r = if v.stage = .serving then some v else none) →
      (∀ r, Follows mainViews v (k r) Q) → Follows mainViews v (Prog.call (E := threads) o k) Q :=
    fun hstep hk => follows_mainThread_call (fun r => (hstep r).trans (if_pos hv.stage)) hk
  simp only [startHandler, storeClientFd, perform, listInsertHead, pthreadCreate, Prog.bind_eq,
    Prog.call_bind, Prog.pure_bind, Prog.pure_eq]
  refine follows_mainThread_call (fun _ => if_pos ⟨hv.stage, hfd⟩) fun _ => ?_
  refine hserving (fun _ => rfl) fun _ => hserving (fun _ => rfl) fun _ => ?_
  refine hserving (fun _ => rfl) fun _ => hserving (fun _ => rfl) fun r => Follows.ite ?_ hv
  refine follows_mainThread_call (fun _ => rfl) fun _ => hserving (fun _ => rfl) fun _ => ?_
  refine hserving (fun _ => rfl) fun _ => hserving (fun _ => rfl) fun _ => ?_
  refine follows_mainThread_call (fun _ => hv.close hfd) fun _ => ?_
  exact hserving (fun _ => rfl) fun _ => hv

/-- A round calls `accept` at most once, after it has found the flag clear. -/
theorem follows_view_acceptRound (hv : v.Looping) : Follows mainViews v acceptRound fun r v' =>
    Sum.elim (fun _ => v'.Looping) (fun _ => v'.Leaving) r := by
  simp only [acceptRound, terminateProgram, accept, loadServerFd, accepted, syslogInfo, malloc,
    perform, Prog.bind_eq, Prog.call_bind, Prog.pure_bind, Prog.pure_eq]
  refine follows_mainThread_call (fun _ => rfl) fun b => ?_
  cases b with
  | true => exact hv.readFlag_true
  | false =>
      refine follows_mainThread_call (fun _ => rfl) fun fd => ?_
      have hknown : ((v.readFlag false).load fd).known = true := View.known_load (.inr (.inr hv.stage))
      refine follows_mainThread_call (fun _ => if_pos ⟨hv.stage, rfl, hknown, rfl⟩) fun clientFd => ?_
      have hloop := (hv.readFlag_false.load fd).accepted clientFd
      by_cases hfd : clientFd = -1
      · rw [if_pos hfd]
        -- `terminate_program` is read once more after a failed `accept`
        refine follows_mainThread_call (fun _ => rfl) fun b => ?_
        cases b with
        | true => exact hloop.readFlag_true
        | false => exact follows_mainThread_call (fun _ => rfl) fun _ => hloop.readFlag_false
      · rw [if_neg hfd]
        refine follows_mainThread_call (fun _ => if_pos hloop.stage) fun _ => ?_
        refine follows_mainThread_call (fun _ => if_pos hloop.stage) fun tinfo => ?_
        cases tinfo with
        | none =>
            refine follows_mainThread_call (fun _ => rfl) fun _ => ?_
            exact follows_mainThread_call (fun _ => hloop.close (View.mem_accepted hfd)) fun _ => hloop
        | some tinfo => exact follows_view_startHandler hloop (View.mem_accepted hfd)

/-- Main learns nothing from the operation. -/
def View.Stays (v : View) (o : ThreadOp) : Prop := ∀ r, v.mainThread o r = some v

/-- The end of main leaves its view as it is. -/
theorem follows_view_join (hv : v.stage = .serving) : Follows mainViews v
    ((perform (.mutexLock .list)).bind fun _ => listFirst.bind fun entry =>
      (Prog.iterate shutdownRound entry).bind fun _ =>
        (perform (.mutexUnlock .list)).bind fun _ => closelog) fun _ v' => v' = v := by
  have hstays : ∀ o : ThreadOp, (∀ r, v.mainThread o r =
      if v.stage = .serving then some v else none) → v.Stays o :=
    fun o ho r => (ho r).trans (if_pos hv)
  have hround : ∀ entry, Uses (E := threads) v.Stays (shutdownRound entry) := by
    intro entry
    cases entry with
    | none => trivial
    | some entry =>
        refine ⟨hstays _ fun _ => rfl, fun _ => ⟨hstays _ fun _ => rfl, fun _ => ?_⟩⟩
        refine ⟨hstays _ fun _ => rfl, fun _ => ⟨hstays _ fun _ => rfl, fun _ => ?_⟩⟩
        refine ⟨hstays _ fun _ => rfl, fun _ => ⟨hstays _ fun _ => rfl, fun _ => ?_⟩⟩
        refine ⟨hstays _ fun _ => rfl, fun _ => ⟨hstays _ fun _ => rfl, fun _ => ?_⟩⟩
        exact ⟨hstays _ fun _ => rfl, fun _ => trivial⟩
  refine Uses.follows (P := v.Stays) ?_ fun _ r ho => ho r
  refine ⟨hstays _ fun _ => rfl, fun _ => ⟨hstays _ fun _ => rfl, fun entry => ⟨hround, ?_⟩⟩⟩
  exact fun _ => ⟨hstays _ fun _ => rfl, fun _ => ⟨hstays _ fun _ => rfl, fun _ => trivial⟩⟩

/-- After its loop main closes the socket, unless it has been closed before. -/
theorem follows_view_shutdown (hv : v.Leaving) :
    Follows mainViews v shutdown fun _ v' => v'.Settled := by
  have hknown : ∀ fd, (v.load fd).known = true := fun fd => View.known_load (.inr (.inr hv.stage))
  simp only [shutdown, loadServerFd, Prog.bind_eq, Prog.call_bind, Prog.pure_bind]
  refine follows_mainThread_call (fun _ => rfl) fun fd => ?_
  by_cases hfd : fd = -1
  · rw [if_neg (not_not.mpr hfd)]
    refine (follows_view_join (v := v.load fd) hv.stage).mono fun _ v' hv' => ?_
    rw [hv']
    exact ⟨hv.servinfo, .inr (.inr ⟨hfd, hknown fd⟩)⟩
  · rw [if_pos hfd]
    refine follows_mainThread_call (fun _ => rfl) fun fd' => ?_
    have hload : ((v.load fd).load fd').Leaving := ⟨hv.stage, hv.servinfo, hv.flagged⟩
    refine follows_mainThread_call (fun _ => hload.close ?_) fun _ => ?_
    · rw [View.load, hknown fd]
      rfl
    · refine (follows_view_join (v := { (v.load fd).load fd' with gone := true }) hv.stage).mono ?_
      intro _ v' hv'
      rw [hv']
      exact ⟨hv.servinfo, .inr (.inl rfl)⟩

theorem follows_view_mainThread (hv : v.Looping) :
    Follows mainViews v mainThread fun _ v' => v'.Settled := by
  rw [mainThread, Prog.bind_eq]
  refine (Follows.iterate (fun _ v => v.Looping) (Q := fun _ v => v.Leaving) hv ?_).bind ?_
  · exact fun _ v hv => (follows_view_acceptRound hv).mono fun r _ h => by cases r <;> exact h
  · exact fun _ v hv => follows_view_shutdown hv

/-- Between the store and `listen` main closes what it has read, except in `daemonize`. -/
theorem View.main_close {r : ℤ} (hstage : v.stage = .stored ∨ v.stage = .detaching 6)
    (hknown : v.known = true) :
    v.main daemon (.thread (.posix (.close v.arg))) r = some { v with gone := true } := by
  have hclose : v.mainClose v.arg = v.closeArg v.arg := by
    rw [View.mainClose]
    rcases hstage with hstage | hstage <;> rw [hstage]
    exact if_neg (by omega)
  exact hclose.trans (View.closeArg_arg hknown)

/-- `listen`, after `daemonize` if it was asked for. -/
theorem follows_startListening (hstage : v.stage = if daemon then .detaching 6 else .stored)
    (hservinfo : v.servinfo = .freed) (hflagged : v.flagged = false) :
    Follows (Role.main.views daemon) v startListening fun r v' =>
      r.elim v'.Looping fun _ => v'.Settled := by
  have hready : v.stage = .stored ∨ v.stage = .detaching 6 := by
    cases daemon
    · exact .inl hstage
    · exact .inr hstage
  simp only [startListening, readServerFd_eq, listen, report_eq, closeFd_eq, listInit,
    Prog.bind_eq, Prog.call_bind, Prog.pure_bind, Prog.pure_eq]
  refine follows_main_call (fun _ => rfl) fun fd => ?_
  refine follows_main_call (fun _ => if_pos ⟨hstage, rfl⟩) fun r => ?_
  by_cases hr : r = -1
  · rw [if_pos hr, if_pos hr]
    refine follows_main_call (fun _ => rfl) fun _ => follows_main_call (fun _ => rfl) fun fd' => ?_
    refine follows_main_call (fun _ => View.main_close hready (View.known_load (hready.imp_right .inl))) fun _ => ?_
    exact ⟨hservinfo ▸ nofun, .inr (.inl rfl)⟩
  · rw [if_neg hr, if_neg hr]
    refine follows_main_call (fun _ => rfl) fun _ => ?_
    exact ⟨rfl, hservinfo ▸ nofun, hflagged⟩

/-- `daemonize` closes three descriptors and opens `/dev/null` three times, or does not return. -/
theorem follows_daemonize (hstage : v.stage = .stored) :
    Follows (Role.main.views true) v daemonize fun _ v' =>
      ∃ nulls, v' = { v with stage := .detaching 6, nulls := nulls } := by
  have hexit : ∀ (v : View) message status (Q : Unit → View → Prop),
      Follows (Role.main.views true) v ((report message).bind fun _ => exitProcess status) Q :=
    fun v message status Q => follows_main_call (fun _ => rfl) fun _ => nofun
  simp only [daemonize, fork, setsid, chdir, closeFd_eq, openNull, Prog.bind_eq, Prog.call_bind,
    Prog.pure_bind, Prog.pure_eq]
  refine follows_main_call (fun _ => if_pos ⟨hstage, rfl⟩) fun pid => ?_
  refine Follows.ite (hexit _ _ _ _) (Follows.ite nofun ?_)
  refine follows_main_call (fun _ => rfl) fun _ => Follows.ite (hexit _ _ _ _) ?_
  refine follows_main_call (fun _ => rfl) fun _ => Follows.ite (hexit _ _ _ _) ?_
  refine follows_main_call (fun _ => rfl) fun _ => follows_main_call (fun _ => rfl) fun _ => ?_
  refine follows_main_call (fun _ => rfl) fun _ => follows_main_call (fun _ => rfl) fun _ => ?_
  refine follows_main_call (fun _ => rfl) fun _ => follows_main_call (fun _ => rfl) fun _ => ?_
  exact ⟨_, rfl⟩

/-- An exit between `socket` and the end of `bind`. -/
theorem follows_giveUp {message : String} (hstage : v.stage = .stored) (hservinfo : v.servinfo = .live) :
    Follows (Role.main.views daemon) v (giveUp message) fun r v' =>
      r.elim v'.Looping fun _ => v'.Settled := by
  simp only [giveUp, report_eq, readServerFd_eq, closeFd_eq, freeaddrinfo, Prog.bind_eq,
    Prog.call_bind, Prog.pure_bind, Prog.pure_eq]
  refine follows_main_call (fun _ => rfl) fun _ => follows_main_call (fun _ => rfl) fun fd => ?_
  have hready : v.stage = .stored ∨ v.stage = .detaching 6 := .inl hstage
  refine follows_main_call (fun _ => View.main_close hready (View.known_load (hready.imp_right .inl))) fun _ => ?_
  refine follows_main_call (fun _ => if_pos hservinfo) fun _ => ?_
  exact ⟨nofun, .inr (.inl rfl)⟩

/-- `main` from the store of the socket to `listen`. -/
theorem follows_prepareSocket (hstage : v.stage = .stored) (hservinfo : v.servinfo = .live)
    (hflagged : v.flagged = false) :
    Follows (Role.main.views daemon) v (prepareSocket daemon) fun r v' =>
      r.elim v'.Looping fun _ => v'.Settled := by
  simp only [prepareSocket, report_eq, readServerFd_eq, setsockopt, bindSocket, freeaddrinfo,
    Prog.bind_eq, Prog.call_bind, Prog.pure_bind, Prog.pure_eq]
  refine follows_main_call (fun _ => rfl) fun fd => ?_
  by_cases hfd : fd = -1
  · rw [if_pos hfd]
    refine follows_main_call (fun _ => rfl) fun _ => ?_
    refine follows_main_call (fun _ => if_pos hservinfo) fun _ => ?_
    exact ⟨nofun, .inr (.inr ⟨hfd, View.known_load (.inl hstage)⟩)⟩
  · rw [if_neg hfd]
    refine follows_main_call (fun _ => rfl) fun _ => follows_main_call (fun _ => rfl) fun _ => ?_
    refine Follows.ite (follows_giveUp hstage hservinfo) ?_
    refine follows_main_call (fun _ => rfl) fun _ => ?_
    refine follows_main_call (fun _ => if_pos hservinfo) fun _ => ?_
    refine Follows.ite (follows_giveUp hstage hservinfo) ?_
    refine follows_main_call (fun _ => if_pos hservinfo) fun _ => ?_
    cases daemon with
    | false => exact follows_startListening hstage rfl hflagged
    | true =>
        rw [if_pos rfl]
        refine Follows.bind (follows_daemonize ?_) ?_
        · exact hstage
        · rintro _ _ ⟨nulls, rfl⟩
          exact follows_startListening rfl rfl hflagged

/-- **Main keeps to its view.** When it returns, the socket has been closed. -/
theorem follows_main (argv : List String) :
    Follows (Role.main.views (daemonMode argv)) .start (main argv) fun _ v' => v'.Settled := by
  have hstart : Follows (Role.main.views (daemonMode argv)) .start (startUp argv) fun r v' =>
      r.elim v'.Looping fun _ => v'.Settled := by
    simp only [startUp, sigaction, openlog, getaddrinfo, report_eq, socket, storeServerFd,
      Prog.bind_eq, Prog.call_bind, Prog.pure_bind, Prog.pure_eq]
    refine follows_main_call (fun _ => rfl) fun _ => follows_main_call (fun _ => rfl) fun _ => ?_
    refine follows_main_call (fun _ => rfl) fun _ => follows_main_call (fun _ => rfl) fun status => ?_
    by_cases hstatus : status = 0
    · rw [if_neg (not_not.mpr hstatus), if_pos hstatus]
      refine follows_main_call (fun _ => rfl) fun fd => follows_main_call (fun _ => if_pos ⟨rfl, rfl⟩) ?_
      exact fun _ => follows_prepareSocket rfl rfl rfl
    · rw [if_pos hstatus, if_neg hstatus]
      exact follows_main_call (fun _ => rfl) fun _ => ⟨nofun, .inl rfl⟩
  rw [main, Prog.bind_eq]
  refine hstart.bind fun r v hv => ?_
  cases r with
  | some status => exact hv
  | none => exact (follows_thread_main (follows_view_mainThread hv)).bind fun _ _ h => h

end Main

end Aesd.Server

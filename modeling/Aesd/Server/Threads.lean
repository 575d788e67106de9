import Aesd.Effects.Cancel
import Aesd.Effects.Pool
import Aesd.Server.HandleClient

/-! # The threads of the server

`main` from the initialisation of the thread list on, and the handler threads that it starts, over
the thread list, the `thread_info` nodes and the mutexes. A handler that is cancelled at one of its
calls runs `thread_cleanup` with cancellation disabled; one that comes to the end of `handle_client`
runs it after it has been taken off the stack of cleanup handlers, with cancellation still enabled.
Main is the task 0, and the number of any other task is its `pthread_t`. A step that touches a node
that is not there is the last one of a run. -/

namespace Aesd.Server

open Effects

/-- A `struct thread_info`, apart from its links; a field may not have been set yet. -/
structure ThreadNode where
  /-- `thread_id`. -/
  threadId : Option ℕ
  /-- `client_fd`. -/
  clientFd : Option ℤ
  deriving DecidableEq

/-- The memory at a `struct thread_info *`. -/
inductive Cell where
  /-- It has not been allocated. -/
  | unused
  /-- It holds a node. -/
  | live (node : ThreadNode)
  /-- It has been freed. -/
  | freed
  deriving DecidableEq

/-- The operations of the threads. -/
inductive ThreadOp where
  /-- A thread starts with its argument. -/
  | start
  /-- A system call that nobody can cancel. -/
  | posix (o : PosixOp)
  /-- A system call while cancellation is enabled. -/
  | point (o : PosixOp)
  /-- A thread ends. -/
  | exit
  /-- Read `terminate_program`. -/
  | terminateProgram
  /-- Read `server_fd`. -/
  | loadServerFd
  /-- `accept(fd, ..)`. -/
  | accept (fd : ℤ)
  /-- `syslog(LOG_INFO, message, ..)`. -/
  | syslogInfo (message : String)
  /-- `malloc(sizeof(struct thread_info))`. -/
  | malloc
  /-- `tinfo->client_fd = fd`. -/
  | storeClientFd (tinfo : ThreadInfo) (fd : ℤ)
  /-- `LIST_INSERT_HEAD(&thread_list, tinfo, entries)`. -/
  | listInsertHead (tinfo : ThreadInfo)
  /-- `pthread_create(&tinfo->thread_id, NULL, handle_client, tinfo)`. -/
  | pthreadCreate (tinfo : ThreadInfo)
  /-- `LIST_FIRST(&thread_list)`. -/
  | listFirst
  /-- `LIST_NEXT(entry, entries)`. -/
  | listNext (entry : ThreadInfo)
  /-- Read `entry->thread_id`. -/
  | loadThreadId (entry : ThreadInfo)
  /-- `pthread_cancel(id)`. -/
  | pthreadCancel (id : ℕ)
  /-- `pthread_join(id, NULL)`. -/
  | pthreadJoin (id : ℕ)
  /-- `closelog()`. -/
  | closelog

/-- What each operation returns; a system call that is cancelled returns nothing. -/
@[reducible] def ThreadRes : ThreadOp → Type
  | .start => ThreadInfo
  | .posix o => PosixRes o
  | .point o => Option (PosixRes o)
  | .terminateProgram => Bool
  | .loadServerFd | .accept _ | .pthreadCreate _ => ℤ
  | .malloc | .listFirst | .listNext _ => Option ThreadInfo
  | .loadThreadId _ => ℕ
  | .exit | .syslogInfo _ | .storeClientFd _ _ | .listInsertHead _ | .pthreadCancel _
  | .pthreadJoin _ | .closelog => Unit

/-- The operations of the threads as an interface. -/
abbrev threads : Interface := ⟨ThreadOp, ThreadRes⟩

/-- The system call has been cancelled. -/
def ThreadOp.cancelled : (o : ThreadOp) → ThreadRes o → Bool
  | .point _, none => true
  | _, _ => false

/-- The text of a thread. -/
abbrev ThreadText (α : Type) := Prog threads α

section Calls

/-! ### The operations as statements -/

def start : ThreadText ThreadInfo := .call .start fun tinfo => .pure tinfo

def perform (o : PosixOp) : ThreadText (PosixRes o) := .call (.posix o) fun r => .pure r

def exit : ThreadText Unit := .call .exit fun _ => .pure ()

def terminateProgram : ThreadText Bool := .call .terminateProgram fun b => .pure b

def loadServerFd : ThreadText ℤ := .call .loadServerFd fun fd => .pure fd

def accept (fd : ℤ) : ThreadText ℤ := .call (.accept fd) fun r => .pure r

def syslogInfo (message : String) : ThreadText Unit := .call (.syslogInfo message) fun _ => .pure ()

def malloc : ThreadText (Option ThreadInfo) := .call .malloc fun r => .pure r

def storeClientFd (tinfo : ThreadInfo) (fd : ℤ) : ThreadText Unit :=
  .call (.storeClientFd tinfo fd) fun _ => .pure ()

def listInsertHead (tinfo : ThreadInfo) : ThreadText Unit :=
  .call (.listInsertHead tinfo) fun _ => .pure ()

def pthreadCreate (tinfo : ThreadInfo) : ThreadText ℤ := .call (.pthreadCreate tinfo) fun r => .pure r

def listFirst : ThreadText (Option ThreadInfo) := .call .listFirst fun r => .pure r

def listNext (entry : ThreadInfo) : ThreadText (Option ThreadInfo) :=
  .call (.listNext entry) fun r => .pure r

def loadThreadId (entry : ThreadInfo) : ThreadText ℕ := .call (.loadThreadId entry) fun id => .pure id

def pthreadCancel (id : ℕ) : ThreadText Unit := .call (.pthreadCancel id) fun _ => .pure ()

def pthreadJoin (id : ℕ) : ThreadText Unit := .call (.pthreadJoin id) fun _ => .pure ()

def closelog : ThreadText Unit := .call .closelog fun _ => .pure ()

end Calls

/-! ### The texts -/

/-- What follows a connection that has been accepted, on a node of its own. -/
def startHandler (clientFd : ℤ) (tinfo : ThreadInfo) : ThreadText (Unit ⊕ Unit) := do
  storeClientFd tinfo clientFd
  perform (.mutexLock .list)
  listInsertHead tinfo
  perform (.mutexUnlock .list)
  if (← pthreadCreate tinfo) ≠ 0 then
    perform (.syslog "Failed to create thread")
    perform (.mutexLock .list)
    perform (.listRemove tinfo)
    perform (.mutexUnlock .list)
    let _ ← perform (.close clientFd)
    perform (.free tinfo)
    return .inl ()
  else
    return .inl ()

/-- What follows a connection that has been accepted. -/
def accepted (clientFd : ℤ) : ThreadText (Unit ⊕ Unit) := do
  syslogInfo "Accepted connection from %s"
  match ← malloc with
  | none =>
    perform (.syslog "Failed to allocate memory for thread info")
    let _ ← perform (.close clientFd)
    return .inl ()
  | some tinfo => startHandler clientFd tinfo

/-- One round of `while (!terminate_program)`. -/
def acceptRound : ThreadText (Unit ⊕ Unit) := do
  if ← terminateProgram then
    return .inr ()
  else
  let clientFd ← accept (← loadServerFd)
  if clientFd = -1 then
    if ← terminateProgram then
      return .inr ()
    else
    perform (.syslog "Accept failed")
    return .inl ()
  else
  accepted clientFd

/-- One round of the loop that cancels and joins the threads. -/
def shutdownRound : Option ThreadInfo → ThreadText (Option ThreadInfo ⊕ Unit)
  | none => return .inr ()
  | some entry => do
    let nextEntry ← listNext entry
    pthreadCancel (← loadThreadId entry)
    perform (.mutexUnlock .list)
    pthreadJoin (← loadThreadId entry)
    perform (.mutexLock .list)
    perform (.listRemove entry)
    perform (.free entry)
    return .inl nextEntry

/-- `main` after its loop. -/
def shutdown : ThreadText Unit := do
  if (← loadServerFd) ≠ -1 then
    let _ ← perform (.close (← loadServerFd))
  perform (.mutexLock .list)
  Prog.iterate shutdownRound (← listFirst)
  perform (.mutexUnlock .list)
  closelog

/-- `main` from `LIST_INIT` on. -/
def mainThread : ThreadText Unit := do
  Prog.iterate (fun () => acceptRound) ()
  shutdown

/-- A text with cancellation enabled. -/
def cancellable {α : Type} (p : Handler α) : ThreadText (Option α) :=
  p.attempt (F := threads) ThreadOp.point fun _ r => r

/-- A text with cancellation disabled. -/
def masked {α : Type} (p : Handler α) : ThreadText (Option α) :=
  p.attempt (F := threads) ThreadOp.posix fun _ r => some r

/-- A thread that runs `handle_client`; `stack` is what its buffer holds in the beginning. -/
def handlerThread (stack : Buffer) : ThreadText Unit := do
  let tinfo ← start
  match ← cancellable (handleConnection tinfo stack) with
  | some () =>
    -- `pthread_cleanup_pop(1)` takes the handler off the stack and runs it
    let _ ← cancellable (threadCleanup tinfo)
    exit
  | none =>
    let _ ← masked (threadCleanup tinfo)
    exit

/-! ### What they share -/

/-- What the threads share. -/
structure Threads where
  /-- `thread_list`, from its head. -/
  list : List ThreadInfo
  /-- The memory of the nodes. -/
  nodes : ThreadInfo → Cell
  /-- Who holds each mutex. -/
  owner : Mutex → Option ℕ
  /-- The argument of each thread that has been started. -/
  arg : ℕ → Option ThreadInfo
  /-- The next thread. -/
  nextThread : ℕ
  /-- The threads whose cancellation has been requested. -/
  pending : ℕ → Bool
  /-- The threads that have ended. -/
  ended : ℕ → Bool
  /-- The threads that have been joined. -/
  joined : ℕ → Bool
  /-- A step has touched a node that is not there. -/
  undefined : Bool

/-- Before the first connection. -/
def Threads.init : Threads where
  list := []
  nodes := fun _ => .unused
  owner := fun _ => none
  arg := fun _ => none
  nextThread := 1
  pending := fun _ => false
  ended := fun _ => false
  joined := fun _ => false
  undefined := false

/-- The calls at which a thread can be cancelled. -/
def PosixOp.isCancellationPoint : PosixOp → Bool
  | .openFile _ | .recv _ _ | .send _ _ | .read _ _ | .write _ _ | .ioctl _ _ _ | .close _
  | .syslog _ => true
  | _ => false

namespace Threads

variable (t : ℕ) (s : Threads)

/-- The node at `n`. -/
def node? (n : ThreadInfo) : Option ThreadNode :=
  match s.nodes n with
  | .live node => some node
  | _ => none

/-- The thread `id` can be named: it has been started and not been joined. -/
def knows (id : ℕ) : Bool := (s.arg id).isSome && !s.joined id

/-- The call touches a node that is not there: a field of a node that has been freed or not been
set, or the links of a node that is not on the list. -/
def callFaults : PosixOp → Bool
  | .loadClientFd n => ((s.node? n).bind ThreadNode.clientFd).isNone
  | .listRemove n => (s.node? n).isNone || !s.list.contains n
  | .free n => (s.node? n).isNone
  | _ => false

/-- The operation touches a node that is not there, or names a thread that cannot be named. -/
def faults : ThreadOp → Bool
  | .posix o | .point o => s.callFaults o
  | .storeClientFd n _ | .listInsertHead n | .pthreadCreate n | .listNext n => (s.node? n).isNone
  | .loadThreadId n => ((s.node? n).bind ThreadNode.threadId).isNone
  | .pthreadCancel id | .pthreadJoin id => !s.knows id
  | _ => false

/-- The state with another node at `n`. -/
def setNode (n : ThreadInfo) (c : Cell) : Threads := { s with nodes := Function.update s.nodes n c }

/-- What a call does that touches no missing node; `none` if it does not return, or not so. -/
def callEffect : (o : PosixOp) → PosixRes o → Option Threads
  | .loadClientFd n, fd => if (s.node? n).bind ThreadNode.clientFd = some fd then some s else none
  | .mutexLock m, _ =>
      if s.owner m = none then some { s with owner := Function.update s.owner m (some t) } else none
  | .mutexUnlock m, _ => some { s with owner := Function.update s.owner m none }
  | .listRemove n, _ => some { s with list := s.list.erase n }
  | .free n, _ => some (s.setNode n .freed)
  | _, _ => some s

/-- What an operation does that touches no missing node. -/
def effect : (o : ThreadOp) → ThreadRes o → Option Threads
  | .start, n => if s.arg t = some n then some s else none
  | .posix o, r => s.callEffect t o r
  | .point o, some r => s.callEffect t o r
  | .point o, none => if s.pending t && o.isCancellationPoint then some s else none
  | .exit, _ => some { s with ended := Function.update s.ended t true }
  | .malloc, some n => if s.nodes n = .unused then some (s.setNode n (.live ⟨none, none⟩)) else none
  | .storeClientFd n fd, _ =>
      (s.node? n).map fun node => s.setNode n (.live { node with clientFd := some fd })
  | .listInsertHead n, _ => some { s with list := n :: s.list }
  | .pthreadCreate n, r =>
      if r = 0 then
        (s.node? n).map fun node =>
          { s.setNode n (.live { node with threadId := some s.nextThread }) with
            arg := Function.update s.arg s.nextThread (some n)
            nextThread := s.nextThread + 1 }
      else some s
  | .listFirst, e => if e = s.list.head? then some s else none
  -- the link of a node that has been taken off the list may point anywhere
  | .listNext n, e =>
      if n ∈ s.list → e = (s.list.dropWhile (· ≠ n)).tail.head? then some s else none
  | .loadThreadId n, id => if (s.node? n).bind ThreadNode.threadId = some id then some s else none
  | .pthreadCancel id, _ => some { s with pending := Function.update s.pending id true }
  | .pthreadJoin id, _ =>
      if s.ended id then some { s with joined := Function.update s.joined id true } else none
  | _, _ => some s

/-- The state after an operation with its answer. -/
def answer (o : ThreadOp) (r : ThreadRes o) : Option Threads :=
  if s.undefined then none
  else if s.faults o && !o.cancelled r then some { s with undefined := true }
  else s.effect t o r

end Threads

/-- The server. -/
def lifecycle (buffers : ℕ → Buffer) : Machine threads Threads Unit where
  text
    | 0 => mainThread
    | t + 1 => handlerThread (buffers t)
  answers t _ o s r s' := s.answer t o r = some s'

end Aesd.Server

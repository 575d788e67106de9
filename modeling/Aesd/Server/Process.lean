import Aesd.Effects.Link
import Aesd.Server.Threads

/-! # The process of the server

`main` from its first statement on, with the start-up and all of its exits, `daemonize`, and
`signal_handler`, which may be run any number of times and at any moment, also while it is running.
The threads are the ones of `Aesd.Server.Threads`; what is said here in addition are the descriptors
of the process, `server_fd`, `terminate_program` and the address list that `getaddrinfo` allocates.

Main is the task 0, the odd tasks are runs of `signal_handler`, and the thread `t` is the task
`2 * t`. -/

namespace Aesd.Server

open Effects

/-- The signals that the server catches. -/
inductive Signal where
  /-- `SIGINT`. -/
  | int
  /-- `SIGTERM`. -/
  | term
  deriving DecidableEq

/-- The flags `/dev/null` is opened with. -/
inductive NullFlags where
  /-- `O_RDONLY`. -/
  | rdonly
  /-- `O_WRONLY`. -/
  | wronly
  deriving DecidableEq

/-- The operations of the process. -/
inductive ProcessOp where
  /-- An operation of the threads. -/
  | thread (o : ThreadOp)
  /-- A signal is caught. -/
  | caught
  /-- `sigaction(signo, &sa, NULL)`. -/
  | sigaction (signo : Signal)
  /-- `openlog("aesdsocket", LOG_PID | LOG_PERROR, LOG_USER)`. -/
  | openlog
  /-- `getaddrinfo(NULL, PORT, &hints, &servinfo)`. -/
  | getaddrinfo
  /-- `socket(servinfo->ai_family, servinfo->ai_socktype, servinfo->ai_protocol)`. -/
  | socket
  /-- `server_fd = fd`. -/
  | storeServerFd (fd : ℤ)
  /-- `setsockopt(fd, SOL_SOCKET, SO_REUSEADDR, &optval, sizeof(optval))`. -/
  | setsockopt (fd : ℤ)
  /-- `bind(fd, servinfo->ai_addr, servinfo->ai_addrlen)`. -/
  | bind (fd : ℤ)
  /-- `freeaddrinfo(servinfo)`. -/
  | freeaddrinfo
  /-- `listen(fd, 10)`. -/
  | listen (fd : ℤ)
  /-- `LIST_INIT(&thread_list)`. -/
  | listInit
  /-- `fork()`. -/
  | fork
  /-- `setsid()`. -/
  | setsid
  /-- `chdir("/")`. -/
  | chdir
  /-- `open("/dev/null", flags)`. -/
  | openNull (flags : NullFlags)
  /-- `exit(status)`. -/
  | exit (status : ℤ)
  /-- `terminate_program = 1`. -/
  | setTerminate

/-- What each operation returns; `exit` does not return. -/
@[reducible] def ProcessRes : ProcessOp → Type
  | .thread o => ThreadRes o
  | .caught => Signal
  | .getaddrinfo | .socket | .setsockopt _ | .bind _ | .listen _ | .fork | .setsid | .chdir
  | .openNull _ => ℤ
  | .exit _ => Empty
  | .sigaction _ | .openlog | .storeServerFd _ | .freeaddrinfo | .listInit | .setTerminate => Unit

/-- The operations of the process as an interface. -/
abbrev process : Interface := ⟨ProcessOp, ProcessRes⟩

/-- A text of the process. -/
abbrev ProcessText (α : Type) := Prog process α

section Calls

/-! ### The operations as statements -/

/-- A text of the threads. -/
def thread {α : Type} (p : ThreadText α) : ProcessText α :=
  p.link fun o => .call (E := process) (.thread o) .pure

/-- `syslog(LOG_ERR, message)`. -/
def report (message : String) : ProcessText Unit := thread (perform (.syslog message))

/-- `close(fd)`. -/
def closeFd (fd : ℤ) : ProcessText Unit := do
  let _ ← thread (perform (.close fd))

/-- Read `server_fd`. -/
def readServerFd : ProcessText ℤ := thread loadServerFd

def caught : ProcessText Signal := .call .caught fun signo => .pure signo

def sigaction (signo : Signal) : ProcessText Unit := .call (.sigaction signo) fun _ => .pure ()

def openlog : ProcessText Unit := .call .openlog fun _ => .pure ()

def getaddrinfo : ProcessText ℤ := .call .getaddrinfo fun status => .pure status

def socket : ProcessText ℤ := .call .socket fun fd => .pure fd

def storeServerFd (fd : ℤ) : ProcessText Unit := .call (.storeServerFd fd) fun _ => .pure ()

def setsockopt (fd : ℤ) : ProcessText ℤ := .call (.setsockopt fd) fun r => .pure r

def bindSocket (fd : ℤ) : ProcessText ℤ := .call (.bind fd) fun r => .pure r

def freeaddrinfo : ProcessText Unit := .call .freeaddrinfo fun _ => .pure ()

def listen (fd : ℤ) : ProcessText ℤ := .call (.listen fd) fun r => .pure r

def listInit : ProcessText Unit := .call .listInit fun _ => .pure ()

def fork : ProcessText ℤ := .call .fork fun pid => .pure pid

def setsid : ProcessText ℤ := .call .setsid fun r => .pure r

def chdir : ProcessText ℤ := .call .chdir fun r => .pure r

def openNull (flags : NullFlags) : ProcessText ℤ := .call (.openNull flags) fun fd => .pure fd

def exitProcess (status : ℤ) : ProcessText Unit := .call (.exit status) fun r => r.elim

def setTerminate : ProcessText Unit := .call .setTerminate fun _ => .pure ()

theorem report_eq (message : String) :
    report message = .call (E := process) (.thread (.posix (.syslog message))) fun _ => .pure () := rfl

theorem closeFd_eq (fd : ℤ) :
    closeFd fd = .call (E := process) (.thread (.posix (.close fd))) fun _ => .pure () := rfl

theorem readServerFd_eq :
    readServerFd = .call (E := process) (.thread .loadServerFd) fun fd => .pure fd := rfl

theorem thread_syslogInfo (message : String) : thread (syslogInfo message) =
    .call (E := process) (.thread (.syslogInfo message)) fun _ => .pure () := rfl

end Calls

/-! ### The texts -/

/-- `signal_handler`. -/
def signalHandler : ProcessText Unit := do
  let _ ← caught
  thread (syslogInfo "Caught signal, exiting")
  setTerminate
  if (← readServerFd) ≠ -1 then
    closeFd (← readServerFd)
    storeServerFd (-1)

/-- `daemonize`. -/
def daemonize : ProcessText Unit := do
  let pid ← fork
  if pid < 0 then
    report "Fork failed"
    exitProcess 1
  else
  if pid > 0 then
    exitProcess 0
  else
  if (← setsid) < 0 then
    report "Failed to create a new session"
    exitProcess 1
  else
  if (← chdir) < 0 then
    report "Failed to change working directory to /"
    exitProcess 1
  else
  closeFd 0
  closeFd 1
  closeFd 2
  let _ ← openNull .rdonly
  let _ ← openNull .wronly
  let _ ← openNull .wronly

/-- The option `-d` is among the arguments. -/
def daemonMode (argv : List String) : Bool :=
  (argv.drop 1).foldl (fun mode arg => if arg = "-d" then true else mode) false

/-- An exit of `main` between `socket` and the end of `bind`. -/
def giveUp (message : String) : ProcessText (Option ℤ) := do
  report message
  closeFd (← readServerFd)
  freeaddrinfo
  return some (-1)

/-- `main` from `listen` to the initialisation of the thread list. -/
def startListening : ProcessText (Option ℤ) := do
  if (← listen (← readServerFd)) = -1 then
    report "Listen failed"
    closeFd (← readServerFd)
    return some (-1)
  else
  listInit
  return none

/-- `main` from the store of the socket to the initialisation of the thread list. -/
def prepareSocket (daemon : Bool) : ProcessText (Option ℤ) := do
  if (← readServerFd) = -1 then
    report "Failed to create socket"
    freeaddrinfo
    return some (-1)
  else
  if (← setsockopt (← readServerFd)) = -1 then
    giveUp "setsockopt failed"
  else
  if (← bindSocket (← readServerFd)) = -1 then
    giveUp "Bind failed"
  else
  freeaddrinfo
  if daemon then
    daemonize
  startListening

/-- `main` up to the initialisation of the thread list, and what it returns if it does not go on. -/
def startUp (argv : List String) : ProcessText (Option ℤ) := do
  sigaction .int
  sigaction .term
  openlog
  if (← getaddrinfo) ≠ 0 then
    report "getaddrinfo failed"
    return some (-1)
  else
  storeServerFd (← socket)
  prepareSocket (daemonMode argv)

/-- `main`. -/
def main (argv : List String) : ProcessText ℤ := do
  match ← startUp argv with
  | some status => return status
  | none =>
    thread mainThread
    return 0

/-! ### What they share -/

/-- What a descriptor refers to. -/
inductive FileKind where
  /-- A file that was open when the program was started. -/
  | inherited
  /-- The socket that main has created. -/
  | listener
  /-- `/dev/null`. -/
  | null (flags : NullFlags)
  /-- A connection, or the device file opened for a client. -/
  | client
  deriving DecidableEq

/-- The memory at `servinfo`. -/
inductive Servinfo where
  /-- It has not been allocated. -/
  | unset
  /-- It holds the list. -/
  | live
  /-- It has been freed. -/
  | freed
  deriving DecidableEq

/-- The process. -/
structure Process where
  /-- What the threads share. -/
  threads : Threads
  /-- The descriptors. -/
  files : ℤ → Option FileKind
  /-- `server_fd`. -/
  serverFd : ℤ
  /-- `terminate_program`. -/
  terminate : Bool
  /-- The address list. -/
  servinfo : Servinfo
  /-- The signals for which the handler has been installed. -/
  handled : Signal → Bool
  /-- A step has touched an address list that is not there. -/
  undefined : Bool

namespace Process

/-- When the program is started with the descriptors of `inherited`. -/
def init (inherited : ℕ → Bool) : Process where
  threads := Threads.init
  files := fun fd => if 0 ≤ fd ∧ inherited fd.toNat then some .inherited else none
  serverFd := -1
  terminate := false
  servinfo := .unset
  handled := fun _ => false
  undefined := false

variable (s : Process)

/-- The lowest descriptor that is free. -/
def IsLowest (fd : ℤ) : Prop := 0 ≤ fd ∧ s.files fd = none ∧ ∀ n < fd.toNat, s.files n ≠ none

instance (fd : ℤ) : Decidable (s.IsLowest fd) :=
  inferInstanceAs (Decidable (0 ≤ fd ∧ s.files fd = none ∧ ∀ n < fd.toNat, s.files n ≠ none))

/-- A file is opened, or it fails. -/
def opens (kind : FileKind) (fd : ℤ) : Option Process :=
  if fd = -1 then some s
  else if s.IsLowest fd then some { s with files := Function.update s.files fd (some kind) }
  else none

/-- A descriptor is closed. -/
def closes (fd : ℤ) : Process := { s with files := Function.update s.files fd none }

/-- What a system call of a thread does to the descriptors. -/
def callEffect : (o : PosixOp) → PosixRes o → Option Process
  | .openFile _, fd => s.opens .client fd.val
  | .close fd, _ => some (s.closes fd)
  | _, _ => some s

/-- What an operation of a thread does to the descriptors. -/
def threadEffect : (o : ThreadOp) → ThreadRes o → Option Process
  | .posix o, r => s.callEffect o r
  | .point o, some r => s.callEffect o r
  | .terminateProgram, b => if b = s.terminate then some s else none
  | .loadServerFd, fd => if fd = s.serverFd then some s else none
  | .accept fd, r =>
      if r = -1 then some s
      else if s.files fd = some .listener then s.opens .client r
      else none
  | _, _ => some s

/-- The operation touches an address list that is not there. -/
def faults : ProcessOp → Bool
  | .socket | .bind _ | .freeaddrinfo => s.servinfo ≠ .live
  | _ => false

/-- What an operation of the task `t` does that touches no missing list; `none` if it does not
return, or not so. -/
def effect (t : ℕ) : (o : ProcessOp) → ProcessRes o → Option Process
  | .thread o, r =>
      (s.threadEffect o r).bind fun s' =>
        (s.threads.answer (t / 2) o r).map fun threads => { s' with threads := threads }
  | .caught, signo => if s.handled signo then some s else none
  | .sigaction signo, _ => some { s with handled := Function.update s.handled signo true }
  | .getaddrinfo, status => some (if status = 0 then { s with servinfo := .live } else s)
  | .socket, fd => s.opens .listener fd
  | .storeServerFd fd, _ => some { s with serverFd := fd }
  -- these succeed on a socket only, and the only one that can be meant is that of main
  | .setsockopt fd, r | .bind fd, r | .listen fd, r =>
      if r = -1 ∨ s.files fd = some .listener then some s else none
  | .freeaddrinfo, _ => some { s with servinfo := .freed }
  | .listInit, _ => some { s with threads := { s.threads with list := [] } }
  | .openNull flags, fd => s.opens (.null flags) fd
  | .setTerminate, _ => some { s with terminate := true }
  | _, _ => some s

/-- The state after an operation with its answer. -/
def answer (t : ℕ) (o : ProcessOp) (r : ProcessRes o) : Option Process :=
  if s.undefined then none
  else if s.faults o then some { s with undefined := true }
  else s.effect t o r

end Process

/-- The whole program; `argv` are its arguments. -/
def aesdsocket (argv : List String) (buffers : ℕ → Buffer) : Machine process Process (Option ℤ) where
  text
    | 0 => (main argv).bind fun status => .pure (some status)
    | t + 1 =>
        if t % 2 = 0 then signalHandler.bind fun _ => .pure none
        else (thread (handlerThread (buffers (t / 2)))).bind fun _ => .pure none
  answers t _ o s r s' := s.answer t o r = some s'

/-- The program is started with the descriptors of `inherited`. -/
abbrev aesdsocketInit (argv : List String) (buffers : ℕ → Buffer) (inherited : ℕ → Bool) :
    Pool process Process (Option ℤ) :=
  (aesdsocket argv buffers).init (Process.init inherited)

end Aesd.Server

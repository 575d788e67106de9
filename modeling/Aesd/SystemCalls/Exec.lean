import Aesd.Effects.Pool
import Mathlib.Data.Int.Notation
import Mathlib.Data.Nat.Notation
import Mathlib.Logic.Function.Basic

/-! # Commands in a child

`do_exec` and `do_exec_redirect`: the caller forks, the child becomes the command, and the caller
waits for its end. Both run side by side, and a signal may end the child at any moment.

The caller is the task 0, the child the task 1, and each of the others sends one signal. -/

namespace Aesd.SystemCalls

open Effects

/-- How a process has ended. -/
inductive Status where
  /-- By `exit`, with the low byte of its argument. -/
  | exited (code : ℕ)
  /-- By a signal. -/
  | signaled (signo : ℕ)
  deriving DecidableEq

/-- `WIFEXITED(status) && WEXITSTATUS(status) == 0`. -/
def Status.isSuccess : Status → Bool
  | .exited code => code = 0
  | .signaled _ => false

theorem Status.isSuccess_iff {status : Status} : status.isSuccess = true ↔ status = .exited 0 := by
  cases status <;> simp [Status.isSuccess]

/-- What a descriptor of the child refers to. -/
inductive File where
  /-- What the caller had open as descriptor `n`. -/
  | inherited (n : ℕ)
  /-- The file at `path`, opened with `O_WRONLY | O_CREAT | O_TRUNC` and the mode 0644. -/
  | output (path : String)
  deriving DecidableEq

/-- Whether `execv` returns. -/
inductive Exec where
  /-- It has failed. -/
  | failed
  /-- The process is another program from there on. -/
  | replaced

/-- The operations of the caller, of the child, and of who sends signals. -/
inductive SysOp where
  /-- `fork()`. -/
  | fork
  /-- The child returns from `fork`. -/
  | born
  /-- `open(path, O_WRONLY | O_CREAT | O_TRUNC, 0644)`. -/
  | openFile (path : String)
  /-- `dup2(fd, STDOUT_FILENO)`. -/
  | dup2 (fd : ℤ)
  /-- `close(fd)`. -/
  | close (fd : ℤ)
  /-- `execv(path, argv)`. -/
  | execv (path : String) (argv : List String)
  /-- The program that `execv` has started runs to its end. -/
  | program
  /-- `perror(message)`. -/
  | perror (message : String)
  /-- `exit(status)`. -/
  | exit (status : ℕ)
  /-- What a process does that has ended. -/
  | gone
  /-- `waitpid(pid, &status, 0)`. -/
  | waitpid (pid : ℤ)
  /-- A signal that ends the child. -/
  | kill (signo : ℕ)

/-- What each operation returns. -/
@[reducible] def SysRes : SysOp → Type
  | .fork | .openFile _ | .dup2 _ | .close _ => ℤ
  | .execv _ _ => Exec
  | .program => Status
  | .gone => Empty
  -- the status, or nothing if it fails
  | .waitpid _ => Option Status
  | .born | .perror _ | .exit _ | .kill _ => Unit

/-- The system calls as an interface. -/
abbrev sys : Interface := ⟨SysOp, SysRes⟩

/-- A text of the caller or of the child. -/
abbrev SysText := Prog sys Bool

/-! ### The texts -/

/-- `exit(status)`, which does not return. -/
def exitProcess (status : ℕ) : SysText :=
  .call (E := sys) (.exit status) fun _ => .call (E := sys) .gone fun r => r.elim

def perror (message : String) : Prog sys Unit := .call (E := sys) (.perror message) .pure

/-- `execv(command[0], command)` and what comes after it; it returns only if it fails. -/
def execute (command : List String) : SysText :=
  .call (E := sys) (.execv (command.headD "") command) fun
    | .replaced => .call (E := sys) .program fun _ => .call (E := sys) .gone fun r => r.elim
    | .failed => do
        perror "execv"
        exitProcess 1

/-- The child of `do_exec_redirect` up to the command. -/
def redirect (outputfile : String) (command : List String) : SysText := do
  let fd ← .call (E := sys) (.openFile outputfile) .pure
  if fd = -1 then
    perror "open"
    exitProcess 1
  else
  if (← .call (E := sys) (.dup2 fd) .pure) = -1 then
    perror "dup2"
    let _ ← .call (E := sys) (.close fd) .pure
    exitProcess 1
  else
  let _ ← .call (E := sys) (.close fd) .pure
  execute command

/-- What the caller does with its child. -/
def awaitChild (pid : ℤ) : SysText := do
  match ← .call (E := sys) (.waitpid pid) .pure with
  | none => return false
  | some status => return status.isSuccess

/-- The text from where `fork` has returned; the child goes on with `pid = 0`. -/
def afterFork (child : SysText) (pid : ℤ) : SysText :=
  if pid = -1 then return false
  else if pid = 0 then child
  else awaitChild pid

/-- The array `command`, without the `NULL` at its end. -/
def commandOf (count : ℤ) (args : ℕ → String) : List String := (List.range count.toNat).map args

/-- `do_exec`. -/
def doExec (count : ℤ) (args : ℕ → String) : SysText := do
  if count < 1 then return false
  else
  afterFork (execute (commandOf count args)) (← .call (E := sys) .fork .pure)

/-- `do_exec_redirect`; a file of `none` is `NULL`. -/
def doExecRedirect (outputfile : Option String) (count : ℤ) (args : ℕ → String) : SysText :=
  match outputfile with
  | none => return false
  | some path => do
      if count < 1 then return false
      else
      afterFork (redirect path (commandOf count args)) (← .call (E := sys) .fork .pure)

/-! ### Caller and child -/

/-- The child. -/
inductive Child where
  /-- There is none yet. -/
  | unborn
  /-- It runs. -/
  | running
  /-- It has ended. -/
  | ended (status : Status)
  /-- The caller has waited for it. -/
  | reaped (status : Status)
  deriving DecidableEq

/-- The program that `execv` has started. -/
structure Image where
  /-- Its path. -/
  path : String
  /-- Its arguments. -/
  argv : List String
  /-- What its standard output is, if it is open. -/
  stdout : Option File

/-- What the calls work on. -/
structure System where
  /-- The child. -/
  child : Child
  /-- Its number. -/
  pid : ℤ
  /-- Its descriptors. -/
  files : ℤ → Option File
  /-- What it has become. -/
  image : Option Image

/-- The descriptors that the caller had open. -/
def inheritedFiles (inherited : ℕ → Bool) (fd : ℤ) : Option File :=
  if 0 ≤ fd ∧ inherited fd.toNat then some (.inherited fd.toNat) else none

/-- The lowest descriptor that is free. -/
def IsLowest (files : ℤ → Option File) (fd : ℤ) : Prop :=
  0 ≤ fd ∧ files fd = none ∧ ∀ n < fd.toNat, files n ≠ none

instance (files : ℤ → Option File) (fd : ℤ) : Decidable (IsLowest files fd) :=
  inferInstanceAs (Decidable (0 ≤ fd ∧ files fd = none ∧ ∀ n < fd.toNat, files n ≠ none))

namespace System

/-- When the caller is called with the descriptors of `inherited`. -/
def init (inherited : ℕ → Bool) : System := ⟨.unborn, 0, inheritedFiles inherited, none⟩

variable (s : System)

/-- A step of the child while it runs. -/
def childAnswer : (o : SysOp) → SysRes o → Option System
  | .openFile path, fd =>
      if fd = -1 then some s
      else if IsLowest s.files fd then
        some { s with files := Function.update s.files fd (some (.output path)) }
      else none
  | .dup2 fd, r =>
      if r = -1 then some s
      else if s.files fd ≠ none then
        some { s with files := Function.update s.files 1 (s.files fd) }
      else none
  | .close fd, _ => some { s with files := Function.update s.files fd none }
  | .execv _ _, .failed => some s
  | .execv path argv, .replaced => some { s with image := some ⟨path, argv, s.files 1⟩ }
  | .program, status => some { s with child := .ended status }
  | .exit status, _ => some { s with child := .ended (.exited (status % 256)) }
  | _, _ => some s

/-- The state after an operation with its answer. -/
def answer : (o : SysOp) → SysRes o → Option System
  | .fork, pid =>
      if pid = -1 then some s
      else if 0 < pid ∧ s.child = .unborn then some { s with child := .running, pid := pid }
      else none
  | .waitpid _, none => some s
  | .waitpid pid, some status =>
      if pid = s.pid ∧ s.child = .ended status then some { s with child := .reaped status }
      else none
  | .kill signo, _ =>
      if s.child = .running then some { s with child := .ended (.signaled signo) } else none
  | o, r => if s.child = .running then s.childAnswer o r else none

end System

/-- A call of one of the two. -/
inductive Request where
  /-- `do_exec(count, args)`. -/
  | exec (count : ℤ) (args : ℕ → String)
  /-- `do_exec_redirect(outputfile, count, args)`. -/
  | execRedirect (outputfile : Option String) (count : ℤ) (args : ℕ → String)

namespace Request

/-- What the caller runs. -/
def text : Request → SysText
  | .exec count args => doExec count args
  | .execRedirect outputfile count args => doExecRedirect outputfile count args

/-- The command. -/
def command : Request → List String
  | .exec count args | .execRedirect _ count args => commandOf count args

/-- The file that the output is redirected to. -/
def output : Request → Option String
  | .exec _ _ => none
  | .execRedirect outputfile _ _ => outputfile

/-- What the child runs. -/
def childText (request : Request) : SysText :=
  match request.output with
  | none => execute request.command
  | some path => redirect path request.command

end Request

/-- A caller with its child; the task `t + 2` sends the signal `signals t`. -/
def launch (request : Request) (signals : ℕ → ℕ) : Machine sys System Bool where
  text
    | 0 => request.text
    | 1 => .call (E := sys) .born fun _ => afterFork request.childText 0
    | t + 2 => .call (E := sys) (.kill (signals t)) fun _ => .pure true
  answers _ _ o s r s' := s.answer o r = some s'

/-! ### What caller and child do -/

/-- How far a process has got. -/
inductive Stage where
  /-- It has done nothing yet. -/
  | start
  /-- There is no child. -/
  | childless
  /-- It waits for its child. -/
  | forked (pid : ℤ)
  /-- It has waited for its child. -/
  | waited (status : Option Status)
  /-- It is to open the output file. -/
  | born
  /-- It has opened the output file. -/
  | opened (fd : ℤ)
  /-- Its output goes to the file. -/
  | redirected (fd : ℤ)
  /-- It is to become the command. -/
  | ready
  /-- It is the command. -/
  | replaced
  /-- Something has gone wrong. -/
  | failing
  /-- It has ended. -/
  | gone

/-- What the caller does. -/
def callerStep : Stage → Event sys → Option Stage
  | .start, ⟨.fork, pid⟩ => some (if pid = -1 then .childless else .forked pid)
  | .forked pid, ⟨.waitpid pid', status⟩ => if pid' = pid then some (.waited status) else none
  | _, _ => none

/-- What the child does. -/
def childStep (request : Request) : Stage → Event sys → Option Stage
  | .start, ⟨.born, _⟩ => some (if request.output = none then .ready else .born)
  | .born, ⟨.openFile path, fd⟩ =>
      if request.output = some path then some (if fd = -1 then .failing else .opened fd) else none
  | .opened fd, ⟨.dup2 fd', r⟩ =>
      if fd' = fd then some (if r = -1 then .failing else .redirected fd) else none
  | .redirected fd, ⟨.close fd', _⟩ => if fd' = fd then some .ready else none
  | .ready, ⟨.execv path argv, .replaced⟩ =>
      if path = request.command.headD "" ∧ argv = request.command then some .replaced else none
  | .ready, ⟨.execv _ _, .failed⟩ => some .failing
  | .replaced, ⟨.program, _⟩ => some .gone
  | .failing, ⟨.perror _, _⟩ | .failing, ⟨.close _, _⟩ => some .failing
  | .failing, ⟨.exit status, _⟩ => if status = 1 then some .gone else none
  | _, _ => none

/-- What the task `t` does. -/
def launched (request : Request) (t : ℕ) : Monitor sys Stage where
  -- it is the child for which `fork` returns 0
  expects _ e := e ≠ ⟨.fork, (0 : ℤ)⟩
  step g e := match t with
    | 0 => callerStep g e
    | 1 => childStep request g e
    | _ + 2 => match e.op with
      | .kill _ => some g
      | _ => none

section Texts

variable {request : Request} {Q : Bool → Stage → Prop}

/-- `exit(EXIT_FAILURE)`. -/
theorem follows_exit : Follows (launched request 1) .failing (exitProcess 1) Q :=
  fun _ _ => ⟨.gone, rfl, fun r => r.elim⟩

theorem follows_execute :
    Follows (launched request 1) .ready (execute request.command) Q := by
  intro r _
  cases r with
  | failed => exact ⟨.failing, rfl, fun _ _ => ⟨.failing, rfl, follows_exit⟩⟩
  | replaced => exact ⟨.replaced, if_pos ⟨rfl, rfl⟩, fun _ _ => ⟨.gone, rfl, fun r => r.elim⟩⟩

theorem follows_redirect {path : String} (hpath : request.output = some path) :
    Follows (launched request 1) .born (redirect path request.command) Q := by
  simp only [redirect, perror, Prog.bind_eq, Prog.call_bind, Prog.pure_bind]
  intro fd _
  refine ⟨_, if_pos hpath, ?_⟩
  dsimp only
  by_cases hfd : fd = -1
  · rw [if_pos hfd, if_pos hfd]
    exact fun _ _ => ⟨.failing, rfl, follows_exit⟩
  rw [if_neg hfd, if_neg hfd]
  intro r _
  refine ⟨_, if_pos rfl, ?_⟩
  dsimp only
  by_cases hr : r = -1
  · rw [if_pos hr, if_pos hr]
    exact fun _ _ => ⟨.failing, rfl, fun _ _ => ⟨.failing, rfl, follows_exit⟩⟩
  rw [if_neg hr, if_neg hr]
  exact fun _ _ => ⟨.ready, if_pos rfl, follows_execute⟩

/-- The child. -/
theorem follows_child :
    Follows (launched request 1) .start
      (.call (E := sys) .born fun _ => afterFork request.childText 0) Q := by
  intro _ _
  refine ⟨_, rfl, ?_⟩
  show Follows _ _ request.childText Q
  rw [Request.childText]
  cases houtput : request.output with
  | none => exact follows_execute
  | some path => exact follows_redirect houtput

/-- What the caller returns. -/
def Stage.Returns (b : Bool) (g : Stage) : Prop :=
  (g = .start ∨ g = .childless ∨ ∃ status, g = .waited status) ∧
    (b = true ↔ g = .waited (some (.exited 0)))

theorem follows_awaitChild {pid : ℤ} :
    Follows (launched request 0) (.forked pid) (awaitChild pid) Stage.Returns := by
  intro status _
  refine ⟨.waited status, if_pos rfl, ?_⟩
  cases status with
  | none => exact ⟨.inr (.inr ⟨_, rfl⟩), by simp⟩
  | some status => exact ⟨.inr (.inr ⟨_, rfl⟩), by simp [Status.isSuccess_iff]⟩

theorem follows_afterFork {child : SysText} :
    Follows (launched request 0) .start
      (.call (E := sys) .fork fun pid => afterFork child pid) Stage.Returns := by
  intro pid hpid
  refine ⟨_, rfl, ?_⟩
  dsimp only [afterFork]
  by_cases hfailed : pid = -1
  · rw [if_pos hfailed, if_pos hfailed]
    exact ⟨.inr (.inl rfl), by simp⟩
  rw [if_neg hfailed, if_neg hfailed, if_neg fun hzero => hpid (by rw [hzero])]
  exact follows_awaitChild

/-- The caller. -/
theorem follows_request :
    Follows (launched request 0) .start request.text Stage.Returns := by
  have hfalse : Follows (launched request 0) .start (.pure false) Stage.Returns :=
    ⟨.inl rfl, by simp⟩
  cases request with
  | exec count args => exact Follows.ite hfalse follows_afterFork
  | execRedirect outputfile count args =>
      cases outputfile with
      | none => exact hfalse
      | some path => exact Follows.ite hfalse follows_afterFork

end Texts

/-! ### The invariant -/

/-- What the standard output is when the command is started: the lowest free descriptor is closed
again, also if it is the standard output itself. -/
def Request.Stdout (request : Request) (inherited : ℕ → Bool) (stdout : Option File) : Prop :=
  match request.output with
  | none => stdout = inheritedFiles inherited 1
  | some path => ∃ fd, IsLowest (inheritedFiles inherited) fd ∧
      stdout = if fd = 1 then none else some (.output path)

/-- The command has been started, as it was asked for. -/
def Request.Started (request : Request) (inherited : ℕ → Bool) (s : System) : Prop :=
  ∃ stdout, s.image = some ⟨request.command.headD "", request.command, stdout⟩ ∧
    request.Stdout inherited stdout

/-- What the caller knows of the child. -/
def CallerFits (s : System) : Stage → Prop
  | .start | .childless => s.child = .unborn
  | .forked pid => s.pid = pid ∧ s.child ≠ .unborn ∧ ∀ status, s.child ≠ .reaped status
  | .waited none => ∀ status, s.child ≠ .reaped status
  | .waited (some status) => s.child = .reaped status
  | _ => False

/-- What the child knows of itself. -/
def ChildFits (request : Request) (inherited : ℕ → Bool) (s : System) : Stage → Prop
  | .start => s.files = inheritedFiles inherited
  | .born => s.files = inheritedFiles inherited
  | .opened fd => IsLowest (inheritedFiles inherited) fd ∧ ∃ path, request.output = some path ∧
      s.files fd = some (.output path)
  | .redirected fd => IsLowest (inheritedFiles inherited) fd ∧ ∃ path, request.output = some path ∧
      s.files 1 = some (.output path)
  | .ready => request.Stdout inherited (s.files 1)
  | .replaced => request.Started inherited s
  | .failing | .gone => True
  | _ => False

/-- The invariant of caller and child. -/
structure Fits (request : Request) (inherited : ℕ → Bool) (δ : ℕ → Stage) (s : System) : Prop where
  /-- The caller. -/
  caller : CallerFits s (δ 0)
  /-- The child. -/
  child : ChildFits request inherited s (δ 1)
  /-- Only the command ends with 0. -/
  success : s.child = .ended (.exited 0) ∨ s.child = .reaped (.exited 0) →
    request.Started inherited s

section Steps

variable {request : Request} {inherited : ℕ → Bool} {δ : ℕ → Stage} {s s' : System} {g : Stage}

/-- A step of the caller. -/
theorem Fits.caller_step (h : Fits request inherited δ s) {e : Event sys}
    (hstep : callerStep (δ 0) e = some g) (hans : s.answer e.op e.res = some s') :
    Fits request inherited (Function.update δ 0 g) s' := by
  have hcaller := h.caller
  have hchild : ChildFits request inherited s (Function.update δ 0 g 1) := h.child
  obtain ⟨o, r⟩ := e
  rw [callerStep.eq_def] at hstep
  split at hstep
  · -- `fork`
    rename_i pid hstage heq
    cases heq
    cases hstep
    rw [hstage] at hcaller
    rw [System.answer] at hans
    by_cases hpid : pid = -1
    · rw [if_pos hpid] at hans ⊢
      cases hans
      exact ⟨by rw [Function.update_self]; exact hcaller, hchild, h.success⟩
    · rw [if_neg hpid] at hans ⊢
      obtain ⟨-, hs⟩ := Option.ite_none_right_eq_some.mp hans
      cases hs
      exact ⟨by rw [Function.update_self]; exact ⟨rfl, nofun, nofun⟩, hchild, nofun⟩
  · -- `waitpid`
    rename_i pid pid' status hstage heq
    cases heq
    obtain ⟨hpid, hg⟩ := Option.ite_none_right_eq_some.mp hstep
    cases hg
    rw [hstage] at hcaller
    cases status with
    | none =>
        cases hans
        exact ⟨by rw [Function.update_self]; exact hcaller.2.2, hchild, h.success⟩
    | some status =>
        obtain ⟨⟨-, hended⟩, hs⟩ := Option.ite_none_right_eq_some.mp hans
        cases hs
        refine ⟨by rw [Function.update_self]; rfl, hchild, fun hsuccess => h.success (.inl ?_)⟩
        rw [hended]
        rcases hsuccess with hno | hreaped
        · cases hno
        · rw [Child.reaped.inj hreaped]
  · cases hstep

theorem CallerFits.running (h : CallerFits s g) (hrun : s.child = .running) (hpid : s'.pid = s.pid)
    (hchild : s'.child = .running ∨ ∃ status, s'.child = .ended status) : CallerFits s' g := by
  have hborn : s'.child ≠ .unborn := by
    rcases hchild with hchild | ⟨status, hchild⟩ <;> simp [hchild]
  have hreaped : ∀ status, s'.child ≠ .reaped status := by
    rcases hchild with hchild | ⟨status, hchild⟩ <;> simp [hchild]
  cases g with
  | start | childless => cases hrun.symm.trans h
  | forked pid => exact ⟨hpid.trans h.1, hborn, hreaped⟩
  | waited status =>
      cases status with
      | none => exact hreaped
      | some status => cases hrun.symm.trans h
  | _ => exact h.elim

section Child

variable {o : SysOp} {r : SysRes o} {g' : Stage}

/-- The child takes a step only while it runs. -/
theorem running_of_childStep (hstep : childStep request g ⟨o, r⟩ = some g')
    (hans : s.answer o r = some s') : s.child = .running ∧ s.childAnswer o r = some s' := by
  cases o with
  | fork | waitpid | kill => cases g <;> cases hstep
  | _ => exact Option.ite_none_right_eq_some.mp hans

/-- The child after one of its steps. -/
def System.childAfter (s : System) : (o : SysOp) → SysRes o → Child
  | .program, status => .ended status
  | .exit status, _ => .ended (.exited (status % 256))
  | _, _ => s.child

theorem childAnswer_frame (hs : s.childAnswer o r = some s') :
    s'.pid = s.pid ∧ s'.child = s.childAfter o r := by
  cases o with
  | openFile | dup2 =>
      rw [System.childAnswer] at hs
      split at hs
      · cases hs
        exact ⟨rfl, rfl⟩
      · obtain ⟨-, hs⟩ := Option.ite_none_right_eq_some.mp hs
        cases hs
        exact ⟨rfl, rfl⟩
  | execv path argv =>
      cases r <;> cases hs <;> exact ⟨rfl, rfl⟩
  | _ =>
      cases hs
      exact ⟨rfl, rfl⟩

theorem running_or_ended (hrun : s.child = .running) :
    s.childAfter o r = .running ∨ ∃ status, s.childAfter o r = .ended status := by
  rw [System.childAfter.eq_def]
  split
  · exact .inr ⟨_, rfl⟩
  · exact .inr ⟨_, rfl⟩
  · exact .inl hrun

/-- What the child knows after it has begun. -/
theorem ChildFits.born (h : s.files = inheritedFiles inherited) :
    ChildFits request inherited s (if request.output = none then .ready else .born) := by
  by_cases houtput : request.output = none
  · rw [if_pos houtput]
    show request.Stdout inherited (s.files 1)
    rw [Request.Stdout, houtput, h]
  · rw [if_neg houtput]
    exact h

/-- After `open`. -/
theorem ChildFits.opened (h : s.files = inheritedFiles inherited) {path : String} {fd : ℤ}
    (hpath : request.output = some path) (hs : s.childAnswer (.openFile path) fd = some s') :
    ChildFits request inherited s' (if fd = -1 then .failing else .opened fd) := by
  rw [System.childAnswer] at hs
  by_cases hfd : fd = -1
  · rw [if_pos hfd]
    trivial
  · rw [if_neg hfd] at hs ⊢
    obtain ⟨hlowest, hs⟩ := Option.ite_none_right_eq_some.mp hs
    cases hs
    exact ⟨h ▸ hlowest, path, hpath, Function.update_self _ _ _⟩

/-- After `dup2`. -/
theorem ChildFits.redirected {fd r : ℤ} (h : ChildFits request inherited s (.opened fd))
    (hs : s.childAnswer (.dup2 fd) r = some s') :
    ChildFits request inherited s' (if r = -1 then .failing else .redirected fd) := by
  rw [System.childAnswer] at hs
  by_cases hr : r = -1
  · rw [if_pos hr]
    trivial
  · rw [if_neg hr] at hs ⊢
    obtain ⟨-, hs⟩ := Option.ite_none_right_eq_some.mp hs
    cases hs
    obtain ⟨hlowest, path, hpath, hfile⟩ := h
    refine ⟨hlowest, path, hpath, ?_⟩
    show Function.update s.files 1 (s.files fd) 1 = _
    rw [Function.update_self, hfile]

/-- The file is closed under the number it has been opened with. -/
theorem ChildFits.closed {fd : ℤ} (h : ChildFits request inherited s (.redirected fd)) :
    request.Stdout inherited (Function.update s.files fd none 1) := by
  obtain ⟨hlowest, path, hpath, hfile⟩ := h
  rw [Request.Stdout, hpath]
  refine ⟨fd, hlowest, ?_⟩
  by_cases hone : fd = 1
  · rw [if_pos hone, hone, Function.update_self]
  · rw [if_neg hone, Function.update_of_ne (Ne.symm hone), hfile]

/-- What the child knows of itself after a step. -/
theorem ChildFits.step (h : ChildFits request inherited s g)
    (hstep : childStep request g ⟨o, r⟩ = some g') (hs : s.childAnswer o r = some s') :
    ChildFits request inherited s' g' := by
  rw [childStep.eq_def] at hstep
  split at hstep
  · -- the child begins
    rename_i heq
    cases heq
    cases hstep
    cases hs
    exact .born h
  · -- `open`
    rename_i heq
    cases heq
    obtain ⟨hpath, hg⟩ := Option.ite_none_right_eq_some.mp hstep
    cases hg
    exact .opened h hpath hs
  · -- `dup2`
    rename_i heq
    cases heq
    obtain ⟨hfd, hg⟩ := Option.ite_none_right_eq_some.mp hstep
    cases hg
    subst hfd
    exact .redirected h hs
  · -- `close`
    rename_i heq
    cases heq
    obtain ⟨hfd, hg⟩ := Option.ite_none_right_eq_some.mp hstep
    cases hg
    cases hs
    subst hfd
    exact h.closed
  · -- the child becomes the command
    rename_i heq
    cases heq
    obtain ⟨⟨hpath, hargv⟩, hg⟩ := Option.ite_none_right_eq_some.mp hstep
    cases hg
    cases hs
    refine ⟨s.files 1, ?_, h⟩
    rw [hpath, hargv]
  · -- `execv` fails
    cases hstep
    trivial
  · -- the command ends
    cases hstep
    trivial
  · -- `perror`
    cases hstep
    trivial
  · -- the file is closed when `dup2` has failed
    cases hstep
    trivial
  · -- `exit`
    obtain ⟨-, hg⟩ := Option.ite_none_right_eq_some.mp hstep
    cases hg
    trivial
  · cases hstep

/-- Only the command ends with 0. -/
theorem ChildFits.success (h : ChildFits request inherited s g) (hrun : s.child = .running)
    (hstep : childStep request g ⟨o, r⟩ = some g') (hs : s.childAnswer o r = some s')
    (hended : s'.child = .ended (.exited 0)) : request.Started inherited s' := by
  have hafter := (childAnswer_frame hs).2.symm.trans hended
  cases o with
  | program =>
      cases g <;> cases hstep
      cases hs
      exact h
  | exit status =>
      cases g <;> try cases hstep
      obtain ⟨hstatus, -⟩ := Option.ite_none_right_eq_some.mp hstep
      rw [hstatus] at hafter
      cases hafter
  | _ => cases hrun.symm.trans hafter

end Child
/-- A step of the child. -/
theorem Fits.child_step (h : Fits request inherited δ s) {e : Event sys}
    (hstep : childStep request (δ 1) e = some g) (hans : s.answer e.op e.res = some s') :
    Fits request inherited (Function.update δ 1 g) s' := by
  obtain ⟨hrun, hs⟩ := running_of_childStep hstep hans
  obtain ⟨hpid, hafter⟩ := childAnswer_frame hs
  have hchild : s'.child = .running ∨ ∃ status, s'.child = .ended status := by
    rw [hafter]
    exact running_or_ended hrun
  refine ⟨h.caller.running hrun hpid hchild, ?_, fun hsuccess => ?_⟩
  · rw [Function.update_self]
    exact h.child.step hstep hs
  · rcases hsuccess with hended | hreaped
    · exact h.child.success hrun hstep hs hended
    · rcases hchild with hchild | ⟨status, hchild⟩ <;> cases hchild.symm.trans hreaped

/-- A signal ends the child. -/
theorem Fits.killed (h : Fits request inherited δ s) {t signo : ℕ}
    (hans : s.answer (.kill signo) () = some s') :
    Fits request inherited (Function.update δ (t + 2) g) s' := by
  obtain ⟨hrun, hs⟩ := Option.ite_none_right_eq_some.mp hans
  cases hs
  exact ⟨h.caller.running hrun rfl (.inr ⟨_, rfl⟩), h.child, fun hno => by simp at hno⟩

/-- **The step lemma.** -/
theorem Fits.step (h : Fits request inherited δ s) {t : ℕ} {e : Event sys}
    (hstep : (launched request t).step (δ t) e = some g) (hans : s.answer e.op e.res = some s') :
    Fits request inherited (Function.update δ t g) s' := by
  match t with
  | 0 => exact h.caller_step hstep hans
  | 1 => exact h.child_step hstep hans
  | t + 2 =>
      obtain ⟨o, r⟩ := e
      cases o with
      | kill signo => exact h.killed hans
      | _ => cases hstep

end Steps

/-! ### What the caller learns -/

section Results

variable {request : Request} {signals : ℕ → ℕ} {inherited : ℕ → Bool}
  {q : Pool sys System Bool} {τ : List (Act sys System)}

theorem follows_launch (t : ℕ) : Follows (launched request t) .start
    ((launch request signals).text t) fun b g => t = 0 → g.Returns b := by
  match t with
  | 0 => exact follows_request.mono fun _ _ hreturns _ => hreturns
  | 1 => exact follows_child
  | t + 2 => exact fun _ _ => ⟨.start, rfl, fun hno => by omega⟩

/-- **The run lemma.** -/
theorem fits_of_steps
    (hrun : Steps (launch request signals) ((launch request signals).init (.init inherited)) τ q) :
    ∃ δ, Watched (launched request) (fun _ => .start) (fun t b g => t = 0 → g.Returns b) δ q ∧
      Fits request inherited δ q.shared := by
  refine hrun.monitored (J := fun _ δ s => Fits request inherited δ s)
    (watched_init follows_launch _) (fun a ha g hno => ?_) ⟨rfl, rfl, nofun⟩ ?_
  · -- `fork` returns 0 in the child only
    have hans := hrun.answered a ha
    obtain ⟨t, hist, e, before, after⟩ := a
    cases hno
    cases hans
  · rintro υ δ a g - h - hans hstep
    exact h.step hstep hans

/-- What the caller has returned tells how the child has ended. -/
theorem reaped_of_returned
    (hrun : Steps (launch request signals) ((launch request signals).init (.init inherited)) τ q)
    {b : Bool} (hb : (q.task 0).prog = .pure b) :
    b = true ↔ q.shared.child = .reaped (.exited 0) := by
  obtain ⟨δ, hδ, h⟩ := fits_of_steps hrun
  have hcaller := h.caller
  obtain ⟨-, hfollows⟩ := hδ 0
  rw [hb] at hfollows
  obtain ⟨hstage, hb'⟩ := hfollows rfl
  rw [hb']
  constructor
  · intro hwaited
    rw [hwaited] at hcaller
    exact hcaller
  · intro hreaped
    rcases hstage with hstart | hchildless | ⟨status, hwaited⟩
    · rw [hstart] at hcaller
      cases hcaller.symm.trans hreaped
    · rw [hchildless] at hcaller
      cases hcaller.symm.trans hreaped
    · rw [hwaited] at hcaller
      cases status with
      | none => exact absurd hreaped (hcaller _)
      | some status => rw [hwaited, Child.reaped.inj (hcaller.symm.trans hreaped)]

/-- A child that has ended with 0 has executed the command. -/
theorem started_of_reaped
    (hrun : Steps (launch request signals) ((launch request signals).init (.init inherited)) τ q)
    (hreaped : q.shared.child = .reaped (.exited 0)) : request.Started inherited q.shared := by
  obtain ⟨δ, -, h⟩ := fits_of_steps hrun
  exact h.success (.inr hreaped)

/-! ### A run -/

/-- The child with the output file as `fd`. -/
def childRun (path : String) (command : List String) (fd : ℤ) : List (Event sys) :=
  [⟨.born, ()⟩, ⟨.openFile path, fd⟩, ⟨.dup2 fd, (1 : ℤ)⟩, ⟨.close fd, (0 : ℤ)⟩,
    ⟨.execv (command.headD "") command, Exec.replaced⟩, ⟨.program, Status.exited 0⟩]

theorem runs_childRun {path : String} {command : List String} {fd : ℤ} (hfd : fd ≠ -1) :
    Runs (.call (E := sys) .born fun _ => redirect path command) (childRun path command fd)
      (.call (E := sys) .gone fun r => r.elim) := by
  simp only [redirect, perror, Prog.bind_eq, Prog.call_bind, Prog.pure_bind]
  refine .call _ (.call _ ?_)
  rw [if_neg hfd]
  exact .call _ (.call _ (.call _ (.call _ (.refl _))))

/-- The state after an operation with its answer. -/
def System.play (s : System) (e : Event sys) : Option System := s.answer e.op e.res

theorem play_childRun (path : String) (command : List String) {fd : ℤ} {s : System}
    (hrun : s.child = .running) (hfd : IsLowest s.files fd) : ∃ files,
      (childRun path command fd).foldlM System.play s = some ⟨.ended (.exited 0), s.pid, files,
        some ⟨command.headD "", command, if fd = 1 then none else some (.output path)⟩⟩ := by
  have hne : fd ≠ -1 := by
    obtain ⟨hfd, -⟩ := hfd
    omega
  have hstdout : ∀ files : ℤ → Option File,
      Function.update (Function.update files 1 (some (.output path))) fd none 1 =
        if fd = 1 then none else some (.output path) := by
    intro files
    by_cases hone : fd = 1
    · rw [if_pos hone, hone, Function.update_self]
    · rw [if_neg hone, Function.update_of_ne (Ne.symm hone), Function.update_self]
  simp [childRun, System.play, System.answer, System.childAnswer, hrun, hne, hfd, hstdout]

/-- Everything succeeds, with the lowest free descriptor for the output file. -/
theorem exists_run (signals : ℕ → ℕ) (path : String) (args : ℕ → String) {count : ℤ}
    (hcount : 0 < count) {fd : ℤ} (hfd : IsLowest (inheritedFiles inherited) fd) : ∃ τ q,
    Steps (launch (.execRedirect (some path) count args) signals)
      ((launch (.execRedirect (some path) count args) signals).init (.init inherited)) τ q ∧
      (q.task 0).prog = .pure true ∧ q.shared.image =
        some ⟨(commandOf count args).headD "", commandOf count args,
          if fd = 1 then none else some (.output path)⟩ := by
  have hne : fd ≠ -1 := by
    obtain ⟨hfd, -⟩ := hfd
    omega
  have hans : ∀ t hist (e : Event sys) (s s' : System), s.play e = some s' →
      (launch (.execRedirect (some path) count args) signals).answers t hist e.op s e.res s' :=
    fun _ _ _ _ _ h => h
  have hfork : Runs (Request.execRedirect (some path) count args).text [⟨.fork, (7 : ℤ)⟩]
      (awaitChild 7) := by
    show Runs (if count < 1 then _ else _) _ _
    rw [if_neg (by omega)]
    exact .call _ (.refl _)
  have hwait : Runs (awaitChild 7) [⟨.waitpid 7, some (Status.exited 0)⟩] (.pure true) :=
    .call _ (.refl _)
  obtain ⟨s₁, hs₁⟩ : ∃ s₁, s₁ = (⟨.running, 7, inheritedFiles inherited, none⟩ : System) :=
    ⟨_, rfl⟩
  have hplay₁ : [(⟨.fork, (7 : ℤ)⟩ : Event sys)].foldlM System.play (.init inherited) =
      some s₁ := by
    rw [hs₁]
    rfl
  obtain ⟨τ₁, q₁, h₁, -, hq₁, htask₁, hothers₁⟩ := Steps.turn
    (p := (launch (.execRedirect (some path) count args) signals).init (.init inherited)) (t := 0)
    (hans 0) hplay₁ hfork
  obtain ⟨files, hplay₂⟩ := play_childRun path (commandOf count args) (s := s₁) (by rw [hs₁])
    (by rw [hs₁]; exact hfd)
  obtain ⟨τ₂, q₂, h₂, -, hq₂, -, hothers₂⟩ := Steps.turn (t := 1) (p := q₁) (hans 1)
    (by rw [hq₁]; exact hplay₂) (by rw [hothers₁ 1 (by decide)]; exact runs_childRun hne)
  have hplay₃ : [(⟨.waitpid 7, some (Status.exited 0)⟩ : Event sys)].foldlM System.play q₂.shared =
      some ⟨.reaped (.exited 0), 7, files, q₂.shared.image⟩ := by
    rw [hq₂, hs₁]
    rfl
  obtain ⟨τ₃, q₃, h₃, -, hq₃, htask₃, -⟩ := Steps.turn (t := 0) (p := q₂) (hans 0) hplay₃
    (by rw [hothers₂ 0 (by decide), htask₁]; exact hwait)
  refine ⟨_, q₃, (h₁.trans h₂).trans h₃, htask₃, ?_⟩
  rw [hq₃, hq₂]

/-- **The command has been executed if and only if the call returns true.** In every order of the
steps of the caller and its child, and whenever signals are sent, a call returns true exactly if it
has waited for a child that has ended with 0, and this child has executed the command. -/
theorem true_iff_executed
    (hrun : Steps (launch request signals) ((launch request signals).init (.init inherited)) τ q)
    {b : Bool} (hb : (q.task 0).prog = .pure b) :
    (b = true ↔ q.shared.child = .reaped (.exited 0)) ∧
      (b = true → request.Started inherited q.shared) := by
  have hiff := reaped_of_returned hrun hb
  exact ⟨hiff, fun htrue => started_of_reaped hrun (hiff.mp htrue)⟩

theorem true_iff_executed_three : ∃ τ q,
    Steps (launch (.execRedirect (some "out") 1 fun _ => "/bin/true") fun _ => 15)
      ((launch (.execRedirect (some "out") 1 fun _ => "/bin/true") fun _ => 15).init
        (.init fun n => n < 3)) τ q ∧ q.shared.child = .reaped (.exited 0) ∧
      (Request.execRedirect (some "out") 1 fun _ => "/bin/true").Started (fun n => n < 3)
        q.shared := by
  have hlowest : IsLowest (inheritedFiles fun n => n < 3) 3 := by decide
  obtain ⟨τ, q, hq, hb, -⟩ := exists_run (fun _ => 15) "out" (fun _ => "/bin/true")
    (by decide : (0 : ℤ) < 1) hlowest
  obtain ⟨hiff, hstarted⟩ := true_iff_executed hq hb
  exact ⟨τ, q, hq, hiff.mp rfl, hstarted rfl⟩

theorem IsLowest.unique {files : ℤ → Option File} {fd fd' : ℤ} (h : IsLowest files fd)
    (h' : IsLowest files fd') : fd = fd' := by
  obtain ⟨h₀, hfree, hbelow⟩ := h
  obtain ⟨h₀', hfree', hbelow'⟩ := h'
  by_contra hne
  rcases Int.lt_or_gt_of_ne hne with hlt | hlt
  · exact hbelow' fd.toNat (by omega) (by rwa [Int.toNat_of_nonneg h₀])
  · exact hbelow fd'.toNat (by omega) (by rwa [Int.toNat_of_nonneg h₀'])

theorem isLowest_one :
    IsLowest (inheritedFiles inherited) 1 ↔ inherited 0 = true ∧ inherited 1 = false := by
  simp [IsLowest, inheritedFiles, and_comm]

/-- **The output goes to the file unless the caller has closed its standard output.** The command of
every call that returns true writes to the file if and only if the descriptor 1 is not the lowest
that is free in the caller. Otherwise `open` returns it, and it is closed again after `dup2`: there
are calls that return true, and the command of every one of them has no standard output. -/
theorem redirected_iff {path : String} {count : ℤ} {args : ℕ → String} (hcount : 0 < count) :
    ((∀ τ q, Steps (launch (.execRedirect (some path) count args) signals)
      ((launch (.execRedirect (some path) count args) signals).init (.init inherited)) τ q →
        (q.task 0).prog = .pure true →
          ∃ image, q.shared.image = some image ∧ image.stdout = some (.output path)) ↔
      (inherited 0 = true → inherited 1 = true)) ∧
    (inherited 0 = true → inherited 1 = false →
      (∃ τ q, Steps (launch (.execRedirect (some path) count args) signals)
        ((launch (.execRedirect (some path) count args) signals).init (.init inherited)) τ q ∧
          (q.task 0).prog = .pure true) ∧
      ∀ τ q, Steps (launch (.execRedirect (some path) count args) signals)
        ((launch (.execRedirect (some path) count args) signals).init (.init inherited)) τ q →
          (q.task 0).prog = .pure true →
            ∃ image, q.shared.image = some image ∧ image.stdout = none) := by
  refine ⟨⟨fun hall hzero => ?_, fun hopen τ q hrun hb => ?_⟩, fun hzero hone =>
    ⟨?_, fun τ q hrun hb => ?_⟩⟩
  · by_contra hone
    have hlowest : IsLowest (inheritedFiles inherited) 1 :=
      isLowest_one.mpr ⟨hzero, Bool.eq_false_iff.mpr hone⟩
    obtain ⟨τ, q, hq, hb, himage⟩ := exists_run signals path args hcount hlowest
    obtain ⟨image, himage', hstdout⟩ := hall τ q hq hb
    rw [Option.some.inj (himage'.symm.trans himage), if_pos rfl] at hstdout
    cases hstdout
  · obtain ⟨stdout, himage, fd, hfd, hstdout⟩ :=
      started_of_reaped hrun ((reaped_of_returned hrun hb).mp rfl)
    refine ⟨_, himage, ?_⟩
    rw [hstdout, if_neg]
    rintro rfl
    obtain ⟨hzero, hone⟩ := isLowest_one.mp hfd
    cases (hopen hzero).symm.trans hone
  · obtain ⟨τ, q, hq, hb, -⟩ :=
      exists_run signals path args hcount (isLowest_one.mpr ⟨hzero, hone⟩)
    exact ⟨τ, q, hq, hb⟩
  · obtain ⟨stdout, himage, fd, hfd, hstdout⟩ :=
      started_of_reaped hrun ((reaped_of_returned hrun hb).mp rfl)
    refine ⟨_, himage, ?_⟩
    rw [hstdout, if_pos (hfd.unique (isLowest_one.mpr ⟨hzero, hone⟩))]

theorem redirected_iff_closed :
    (¬∀ τ q, Steps (launch (.execRedirect (some "out") 1 fun _ => "/bin/true") fun _ => 15)
      ((launch (.execRedirect (some "out") 1 fun _ => "/bin/true") fun _ => 15).init
        (.init fun n => n = 0)) τ q → (q.task 0).prog = .pure true →
          ∃ image, q.shared.image = some image ∧ image.stdout = some (.output "out")) ∧
    ∃ τ q, Steps (launch (.execRedirect (some "out") 1 fun _ => "/bin/true") fun _ => 15)
      ((launch (.execRedirect (some "out") 1 fun _ => "/bin/true") fun _ => 15).init
        (.init fun n => n = 0)) τ q ∧ (q.task 0).prog = .pure true ∧
          ∃ image, q.shared.image = some image ∧ image.stdout = none := by
  obtain ⟨hiff, hclosed⟩ := @redirected_iff (fun _ => 15) (fun n => n = 0) "out" 1
    (fun _ => "/bin/true") (by decide)
  obtain ⟨⟨τ, q, hq, hb⟩, hnone⟩ := hclosed rfl rfl
  exact ⟨fun hall => (by cases hiff.mp hall rfl), τ, q, hq, hb, hnone τ q hq hb⟩

end Results

end Aesd.SystemCalls

import Aesd.Server.Threads

/-! # The phases of the threads

How far a thread has come with its node and which mutexes it holds, as a monitor: main goes from
node to node, and a handler unlinks its node and frees it in the end, or ends before it does. What a
thread does in a state where nothing faults is then read off its phase (`does_of_step`). -/

namespace Aesd.Server

open Effects

/-- How far a handler has come with its node. -/
inductive HandlerStage where
  /-- It has not started. -/
  | waiting
  /-- Its node is on the list. -/
  | serving (n : ThreadInfo)
  /-- It has unlinked its node. -/
  | unlinked (n : ThreadInfo)
  /-- It has freed its node. -/
  | freed
  /-- It has ended before it could unlink its node. -/
  | abandoned (n : ThreadInfo)
  /-- It has ended. -/
  | gone
  deriving DecidableEq

/-- The phase of a handler. -/
structure HandlerPhase where
  /-- How far it has come with its node. -/
  stage : HandlerStage
  /-- It holds `file_mutex`. -/
  file : Bool
  /-- It holds `list_mutex`. -/
  list : Bool
  /-- It has been cancelled while it held `file_mutex`. -/
  hit : Bool

/-- A call of a handler whose node is on the list. -/
def HandlerPhase.serve (g : HandlerPhase) (n : ThreadInfo) : PosixOp → Option HandlerPhase
  | .loadClientFd n' => if n' = n then some g else none
  | .mutexLock .file => if g.file || g.list || g.hit then none else some { g with file := true }
  | .mutexUnlock .file => if g.file && !g.list && !g.hit then some { g with file := false } else none
  | .mutexLock .list => if g.list then none else some { g with list := true }
  | .mutexUnlock .list => none
  | .listRemove n' => if n' = n ∧ g.list = true then some { g with stage := .unlinked n } else none
  | .free _ => none
  | .overrun _ => some g
  | _ => if g.list || g.hit && !g.file then none else some g

/-- A call of a handler that has unlinked its node. -/
def HandlerPhase.leave (g : HandlerPhase) (n : ThreadInfo) : PosixOp → Option HandlerPhase
  | .mutexUnlock .list => if g.list then some { g with list := false } else none
  | .free n' => if n' = n ∧ g.list = false then some { g with stage := .freed } else none
  | _ => none

/-- A call of a handler. -/
def HandlerPhase.call (g : HandlerPhase) (o : PosixOp) : Option HandlerPhase :=
  match g.stage with
  | .serving n => g.serve n o
  | .unlinked n => g.leave n o
  | _ => none

/-- A cancellation that is acted on. -/
def HandlerPhase.cancel (g : HandlerPhase) : Option HandlerPhase :=
  match g.stage with
  | .serving _ => if g.list || g.hit && !g.file then none else some { g with hit := g.file }
  | _ => none

/-- The end of a handler. -/
def HandlerPhase.finish (g : HandlerPhase) : Option HandlerPhase :=
  match g.stage with
  | .serving n =>
      if g.list = false ∧ g.file = g.hit then some { g with stage := .abandoned n } else none
  | .freed => if g.list = false ∧ g.file = g.hit then some { g with stage := .gone } else none
  | _ => none

/-- How far main has come. -/
inductive MainStage where
  /-- It is in the loop that accepts connections and has no node in hand. -/
  | serving
  /-- It has allocated a node. -/
  | fresh (n : ThreadInfo)
  /-- It has set the descriptor in the node. -/
  | filled (n : ThreadInfo)
  /-- It has put the node on the list. -/
  | linked (n : ThreadInfo)
  /-- It has taken the node off the list, as no thread has been created. -/
  | unlinked (n : ThreadInfo)
  /-- It has left the loop that accepts connections. -/
  | closing
  /-- It is at an entry of the list. -/
  | atEntry (entry : ThreadInfo)
  /-- It is at the end of the list. -/
  | atEnd
  /-- It knows the next entry. -/
  | following (entry : ThreadInfo) (next : Option ThreadInfo)
  /-- It has read the thread of the entry. -/
  | naming (entry : ThreadInfo) (next : Option ThreadInfo) (id : ℕ)
  /-- It has joined the thread of the entry. -/
  | joined (entry : ThreadInfo) (next : Option ThreadInfo)
  /-- It has unlinked the entry. -/
  | removed (entry : ThreadInfo) (next : Option ThreadInfo)
  deriving DecidableEq

/-- The head of the loop that joins the threads. -/
def MainStage.head : Option ThreadInfo → MainStage
  | none => .atEnd
  | some entry => .atEntry entry

/-- A step of main while it does not hold `list_mutex`. -/
def MainStage.outside : MainStage → Event threads → Option MainStage
  | .serving, ⟨.terminateProgram, b⟩ => some (if b then .closing else .serving)
  | .serving, ⟨.malloc, r⟩ => some (r.elim .serving .fresh)
  | .serving, ⟨.loadServerFd, _⟩ | .serving, ⟨.accept _, _⟩ | .serving, ⟨.syslogInfo _, _⟩
  | .serving, ⟨.posix (.syslog _), _⟩ | .serving, ⟨.posix (.close _), _⟩ => some .serving
  | .fresh n, ⟨.storeClientFd n' _, _⟩ => if n' = n then some (.filled n) else none
  | .linked n, ⟨.pthreadCreate n', r⟩ =>
      if n' = n then some (if r = 0 then .serving else .linked n) else none
  | .linked n, ⟨.posix (.syslog _), _⟩ => some (.linked n)
  | .unlinked n, ⟨.posix (.close _), _⟩ => some (.unlinked n)
  | .unlinked n, ⟨.posix (.free n'), _⟩ => if n' = n then some .serving else none
  | .closing, ⟨.loadServerFd, _⟩ | .closing, ⟨.posix (.close _), _⟩ => some .closing
  | .atEnd, ⟨.closelog, _⟩ => some .atEnd
  | .following e next, ⟨.loadThreadId e', id⟩ => if e' = e then some (.naming e next id) else none
  | .naming e next id, ⟨.pthreadJoin id', _⟩ =>
      if id' = id then some (.joined e next) else none
  | _, _ => none

/-- A step of main while it holds `list_mutex`. -/
def MainStage.inside : MainStage → Event threads → Option MainStage
  | .filled n, ⟨.listInsertHead n', _⟩ => if n' = n then some (.linked n) else none
  | .linked n, ⟨.posix (.listRemove n'), _⟩ => if n' = n then some (.unlinked n) else none
  | .closing, ⟨.listFirst, e⟩ => some (.head e)
  | .atEntry e, ⟨.listNext e', next⟩ => if e' = e then some (.following e next) else none
  | .following e next, ⟨.loadThreadId e', id⟩ => if e' = e then some (.naming e next id) else none
  | .naming e next id, ⟨.pthreadCancel id', _⟩ =>
      if id' = id then some (.following e next) else none
  | .joined e next, ⟨.posix (.listRemove e'), _⟩ => if e' = e then some (.removed e next) else none
  | .removed e next, ⟨.posix (.free e'), _⟩ => if e' = e then some (.head next) else none
  | _, _ => none

/-- The phase of a thread. -/
inductive ThreadPhase where
  /-- Main, which holds `list_mutex` or not. -/
  | main (stage : MainStage) (locked : Bool)
  /-- A handler. -/
  | handler (g : HandlerPhase)

/-- The operation locks `list_mutex`. -/
def ThreadOp.locksList : ThreadOp → Bool
  | .posix (.mutexLock .list) => true
  | _ => false

/-- The operation unlocks `list_mutex`. -/
def ThreadOp.unlocksList : ThreadOp → Bool
  | .posix (.mutexUnlock .list) => true
  | _ => false

/-- The step of a phase. -/
def ThreadPhase.step : ThreadPhase → Event threads → Option ThreadPhase
  | .main st false, e =>
      if e.op.locksList then some (.main st true) else (st.outside e).map fun st => .main st false
  | .main st true, e =>
      if e.op.unlocksList then some (.main st false) else (st.inside e).map fun st => .main st true
  | .handler g, ⟨.start, n⟩ =>
      if g.stage = .waiting then some (.handler { g with stage := .serving n }) else none
  | .handler g, ⟨.posix o, _⟩ => (g.call o).map .handler
  | .handler g, ⟨.point o, some _⟩ => (g.call o).map .handler
  | .handler g, ⟨.point _, none⟩ => g.cancel.map .handler
  | .handler g, ⟨.exit, _⟩ => g.finish.map .handler
  | .handler _, _ => none

/-- The monitor of the phases; a call is only cancelled where a thread can be. -/
def phases : Monitor threads ThreadPhase where
  expects _ e := ∀ o, e = ⟨.point o, none⟩ → o.isCancellationPoint = true
  step := ThreadPhase.step

/-! ### What a thread does -/

/-- The node that an operation unlinks. -/
def ThreadOp.unlinks? : ThreadOp → Option ThreadInfo
  | .posix (.listRemove n) | .point (.listRemove n) => some n
  | _ => none

/-- The node that an operation frees. -/
def ThreadOp.frees? : ThreadOp → Option ThreadInfo
  | .posix (.free n) | .point (.free n) => some n
  | _ => none

/-- The thread that an operation joins. -/
def ThreadOp.joins? : ThreadOp → Option ℕ
  | .pthreadJoin id => some id
  | _ => none

/-- The node that an event finds on the list. -/
def Finds (e : Event threads) (n : ThreadInfo) : Prop :=
  e = ⟨.listFirst, some n⟩ ∨ ∃ entry, e = ⟨.listNext entry, some n⟩

/-- The system call `o` has been answered. -/
def Answered (o : PosixOp) (e : Event threads) : Prop :=
  (∃ r, e = ⟨.posix o, r⟩) ∨ ∃ r, e = ⟨.point o, some r⟩

/-- An event that the list, the nodes and the threads do not notice. -/
structure Unnoticed (e : Event threads) : Prop where
  /-- It unlinks nothing. -/
  unlinks : e.op.unlinks? = none
  /-- It frees nothing. -/
  frees : e.op.frees? = none
  /-- It joins nobody. -/
  joins : e.op.joins? = none
  /-- It finds nothing. -/
  finds : ∀ n, ¬Finds e n
  /-- It is not a cancellation. -/
  answered : e.op.cancelled e.res = false

/-- What the thread `t` does in the state `s` where nothing faults. -/
inductive Does (t : ℕ) (s : Threads) : ThreadPhase → Event threads → ThreadPhase → Threads → Prop where
  /-- A handler starts. -/
  | start {n : ThreadInfo} (f l h : Bool) (harg : s.arg t = some n) :
      Does t s (.handler ⟨.waiting, f, l, h⟩) ⟨.start, n⟩ (.handler ⟨.serving n, f, l, h⟩) s
  /-- A handler makes a call that nobody notices. -/
  | quiet (g : HandlerPhase) {e : Event threads} (he : Unnoticed e) :
      Does t s (.handler g) e (.handler g) s
  /-- A handler is cancelled. -/
  | cancel {n : ThreadInfo} (f h : Bool) {o : PosixOp} (hpoint : o.isCancellationPoint = true)
      (hhit : h = true → f = true) : Does t s (.handler ⟨.serving n, f, false, h⟩) ⟨.point o, none⟩
        (.handler ⟨.serving n, f, false, f⟩) s
  /-- A handler locks `file_mutex`. -/
  | lockFile {n : ThreadInfo} {e : Event threads} (he : Unnoticed e) (hfree : s.owner .file = none) :
      Does t s (.handler ⟨.serving n, false, false, false⟩) e
        (.handler ⟨.serving n, true, false, false⟩)
        { s with owner := Function.update s.owner .file (some t) }
  /-- A handler unlocks `file_mutex`. -/
  | unlockFile {n : ThreadInfo} {e : Event threads} (he : Unnoticed e) :
      Does t s (.handler ⟨.serving n, true, false, false⟩) e
        (.handler ⟨.serving n, false, false, false⟩)
        { s with owner := Function.update s.owner .file none }
  /-- A handler locks `list_mutex`. -/
  | lockList {n : ThreadInfo} (f h : Bool) {e : Event threads} (he : Unnoticed e)
      (hfree : s.owner .list = none) :
      Does t s (.handler ⟨.serving n, f, false, h⟩) e (.handler ⟨.serving n, f, true, h⟩)
        { s with owner := Function.update s.owner .list (some t) }
  /-- A handler unlocks `list_mutex`. -/
  | unlockList {n : ThreadInfo} (f h : Bool) {e : Event threads} (he : Unnoticed e) :
      Does t s (.handler ⟨.unlinked n, f, true, h⟩) e (.handler ⟨.unlinked n, f, false, h⟩)
        { s with owner := Function.update s.owner .list none }
  /-- A handler unlinks its node. -/
  | unlink {n : ThreadInfo} (f h : Bool) {e : Event threads} (he : Answered (.listRemove n) e) :
      Does t s (.handler ⟨.serving n, f, true, h⟩) e (.handler ⟨.unlinked n, f, true, h⟩)
        { s with list := s.list.erase n }
  /-- A handler frees its node. -/
  | free {n : ThreadInfo} (f h : Bool) {e : Event threads} (he : Answered (.free n) e) :
      Does t s (.handler ⟨.unlinked n, f, false, h⟩) e (.handler ⟨.freed, f, false, h⟩)
        (s.setNode n .freed)
  /-- A handler ends with its node on the list. -/
  | abandon {n : ThreadInfo} (f : Bool) : Does t s (.handler ⟨.serving n, f, false, f⟩) ⟨.exit, ()⟩
      (.handler ⟨.abandoned n, f, false, f⟩) { s with ended := Function.update s.ended t true }
  /-- A handler ends. -/
  | finish (f : Bool) : Does t s (.handler ⟨.freed, f, false, f⟩) ⟨.exit, ()⟩
      (.handler ⟨.gone, f, false, f⟩) { s with ended := Function.update s.ended t true }
  /-- Main locks `list_mutex`. -/
  | mainLock (st : MainStage) (hfree : s.owner .list = none) :
      Does t s (.main st false) ⟨.posix (.mutexLock .list), ()⟩ (.main st true)
        { s with owner := Function.update s.owner .list (some t) }
  /-- Main unlocks `list_mutex`. -/
  | mainUnlock (st : MainStage) : Does t s (.main st true) ⟨.posix (.mutexUnlock .list), ()⟩
      (.main st false) { s with owner := Function.update s.owner .list none }
  /-- Main does something that nobody notices. -/
  | mainQuiet (st : MainStage) (l : Bool) {e : Event threads} (he : Unnoticed e) :
      Does t s (.main st l) e (.main st l) s
  /-- Main leaves the loop that accepts connections. -/
  | terminate : Does t s (.main .serving false) ⟨.terminateProgram, true⟩ (.main .closing false) s
  /-- Main allocates a node. -/
  | malloc {n : ThreadInfo} (hn : s.nodes n = .unused) : Does t s (.main .serving false)
      ⟨.malloc, some n⟩ (.main (.fresh n) false) (s.setNode n (.live ⟨none, none⟩))
  /-- Main sets the descriptor in a node. -/
  | store {n : ThreadInfo} (fd : ℤ) {node : ThreadNode} (hn : s.nodes n = .live node) :
      Does t s (.main (.fresh n) false) ⟨.storeClientFd n fd, ()⟩ (.main (.filled n) false)
        (s.setNode n (.live { node with clientFd := some fd }))
  /-- Main puts a node on the list. -/
  | insert {n : ThreadInfo} : Does t s (.main (.filled n) true) ⟨.listInsertHead n, ()⟩
      (.main (.linked n) true) { s with list := n :: s.list }
  /-- Main starts a handler. -/
  | create {n : ThreadInfo} {node : ThreadNode} (hn : s.nodes n = .live node) :
      Does t s (.main (.linked n) false) ⟨.pthreadCreate n, (0 : ℤ)⟩ (.main .serving false)
        { s.setNode n (.live { node with threadId := some s.nextThread }) with
          arg := Function.update s.arg s.nextThread (some n)
          nextThread := s.nextThread + 1 }
  /-- Main takes the node off the list of a thread that could not be created. -/
  | retract {n : ThreadInfo} : Does t s (.main (.linked n) true) ⟨.posix (.listRemove n), ()⟩
      (.main (.unlinked n) true) { s with list := s.list.erase n }
  /-- Main frees the node of a thread that could not be created. -/
  | discard {n : ThreadInfo} : Does t s (.main (.unlinked n) false) ⟨.posix (.free n), ()⟩
      (.main .serving false) (s.setNode n .freed)
  /-- Main looks up the first entry. -/
  | first : Does t s (.main .closing true) ⟨.listFirst, s.list.head?⟩
      (.main (.head s.list.head?) true) s
  /-- Main looks up the entry after this one. -/
  | next {e : ThreadInfo} {next : Option ThreadInfo}
      (hnext : e ∈ s.list → next = (s.list.dropWhile (· ≠ e)).tail.head?) :
      Does t s (.main (.atEntry e) true) ⟨.listNext e, next⟩ (.main (.following e next) true) s
  /-- Main reads the thread of the entry. -/
  | load {e : ThreadInfo} {next : Option ThreadInfo} {id : ℕ} (l : Bool) {node : ThreadNode}
      (hn : s.nodes e = .live node) (hid : node.threadId = some id) :
      Does t s (.main (.following e next) l) ⟨.loadThreadId e, id⟩
        (.main (.naming e next id) l) s
  /-- Main cancels the thread of the entry. -/
  | request {e : ThreadInfo} {next : Option ThreadInfo} {id : ℕ} :
      Does t s (.main (.naming e next id) true) ⟨.pthreadCancel id, ()⟩
        (.main (.following e next) true) { s with pending := Function.update s.pending id true }
  /-- Main joins the thread of the entry. -/
  | join {e : ThreadInfo} {next : Option ThreadInfo} {id : ℕ} (hended : s.ended id = true) :
      Does t s (.main (.naming e next id) false) ⟨.pthreadJoin id, ()⟩
        (.main (.joined e next) false) { s with joined := Function.update s.joined id true }
  /-- Main unlinks the entry. -/
  | remove {e : ThreadInfo} {next : Option ThreadInfo} :
      Does t s (.main (.joined e next) true) ⟨.posix (.listRemove e), ()⟩
        (.main (.removed e next) true) { s with list := s.list.erase e }
  /-- Main frees the entry. -/
  | release {e : ThreadInfo} {next : Option ThreadInfo} :
      Does t s (.main (.removed e next) true) ⟨.posix (.free e), ()⟩ (.main (.head next) true)
        (s.setNode e .freed)

section Inversion

variable {t : ℕ} {s s' : Threads}

/-- A system call that neither unlinks nor frees. -/
theorem unnoticed_of_answered {o : PosixOp} {e : Event threads} (he : Answered o e)
    (hunlinks : ∀ n, o ≠ .listRemove n) (hfrees : ∀ n, o ≠ .free n) : Unnoticed e := by
  have hops : ThreadOp.unlinks? (.posix o) = none ∧ ThreadOp.unlinks? (.point o) = none ∧
      ThreadOp.frees? (.posix o) = none ∧ ThreadOp.frees? (.point o) = none := by
    cases o with
    | listRemove n => exact absurd rfl (hunlinks n)
    | free n => exact absurd rfl (hfrees n)
    | _ => exact ⟨rfl, rfl, rfl, rfl⟩
  obtain ⟨hu, hu', hf, hf'⟩ := hops
  rcases he with ⟨r, rfl⟩ | ⟨r, rfl⟩
  · exact ⟨hu, hf, rfl, by simp [Finds], rfl⟩
  · exact ⟨hu', hf', rfl, by simp [Finds], rfl⟩

/-- A system call of a handler. -/
theorem does_of_call {g g' : HandlerPhase} {o : PosixOp} {r : PosixRes o} {e : Event threads}
    (he : Answered o e) (hstep : g.call o = some g') (heffect : s.callEffect t o r = some s') :
    Does t s (.handler g) e (.handler g') s' := by
  obtain ⟨stage, f, l, h⟩ := g
  cases stage with
  | serving n =>
      -- while the node is on the list: locks, unlocks, the unlinking, and what nobody notices
      dsimp only [HandlerPhase.call] at hstep
      cases o with
      | loadClientFd n' =>
          simp only [HandlerPhase.serve, Option.ite_none_right_eq_some] at hstep
          obtain ⟨rfl, hstep⟩ := hstep
          cases hstep
          rw [Threads.callEffect, Option.ite_none_right_eq_some] at heffect
          obtain ⟨-, heffect⟩ := heffect
          cases heffect
          exact .quiet _ (unnoticed_of_answered he (by simp) (by simp))
      | mutexLock m =>
          have hquiet : Unnoticed e := unnoticed_of_answered he (by simp) (by simp)
          rw [Threads.callEffect, Option.ite_none_right_eq_some] at heffect
          obtain ⟨hfree, heffect⟩ := heffect
          cases heffect
          cases m with
          | file =>
              rcases f with _ | _ <;> rcases l with _ | _ <;> rcases h with _ | _ <;> cases hstep
              exact .lockFile hquiet hfree
          | list =>
              rcases l with _ | _ <;> cases hstep
              exact .lockList f h hquiet hfree
      | mutexUnlock m =>
          have hquiet : Unnoticed e := unnoticed_of_answered he (by simp) (by simp)
          cases heffect
          cases m with
          | file =>
              rcases f with _ | _ <;> rcases l with _ | _ <;> rcases h with _ | _ <;> cases hstep
              exact .unlockFile hquiet
          | list => cases hstep
      | listRemove n' =>
          simp only [HandlerPhase.serve, Option.ite_none_right_eq_some] at hstep
          obtain ⟨⟨rfl, rfl⟩, hstep⟩ := hstep
          cases hstep
          cases heffect
          exact .unlink f h he
      | free n' => cases hstep
      | overrun i =>
          cases hstep
          cases heffect
          exact .quiet _ (unnoticed_of_answered he (by simp) (by simp))
      | _ =>
          simp only [HandlerPhase.serve, Option.ite_none_left_eq_some] at hstep
          obtain ⟨-, hstep⟩ := hstep
          cases hstep
          cases heffect
          exact .quiet _ (unnoticed_of_answered he (by simp) (by simp))
  | unlinked n =>
      dsimp only [HandlerPhase.call] at hstep
      cases o with
      | mutexUnlock m =>
          cases heffect
          cases m with
          | file => cases hstep
          | list =>
              rcases l with _ | _ <;> cases hstep
              exact .unlockList f h (unnoticed_of_answered he (by simp) (by simp))
      | free n' =>
          simp only [HandlerPhase.leave, Option.ite_none_right_eq_some] at hstep
          obtain ⟨⟨rfl, rfl⟩, hstep⟩ := hstep
          cases hstep
          cases heffect
          exact .free f h he
      | _ => cases hstep
  | _ => cases hstep

theorem Threads.node?_eq_some {n : ThreadInfo} {node : ThreadNode} (h : s.node? n = some node) :
    s.nodes n = .live node := by
  rw [Threads.node?] at h
  split at h
  · rename_i node' hcell
    rw [hcell, Option.some.inj h]
  · cases h

/-- What a node that is there holds. -/
theorem node?_of_not_faults {n : ThreadInfo} (h : (s.node? n).isNone = false) :
    ∃ node, s.nodes n = .live node ∧ s.node? n = some node := by
  rw [Option.isNone_eq_false_iff, Option.isSome_iff_exists] at h
  obtain ⟨node, hnode⟩ := h
  exact ⟨node, Threads.node?_eq_some hnode, hnode⟩

/-- The thread of an entry. -/
theorem load_of_effect {e : ThreadInfo} {id : ℕ}
    (h : s.effect t (.loadThreadId e) id = some s') :
    ∃ node, s.nodes e = .live node ∧ node.threadId = some id ∧ s' = s := by
  simp only [Threads.effect, Option.ite_none_right_eq_some, Option.bind_eq_some_iff] at h
  obtain ⟨⟨node, hnode, hid⟩, h⟩ := h
  exact ⟨node, Threads.node?_eq_some hnode, hid, (Option.some.inj h).symm⟩

/-- A step of main while it does not hold `list_mutex`. -/
theorem does_of_outside {st st' : MainStage} {e : Event threads} (hstep : st.outside e = some st')
    (hok : s.faults e.op = false) (heffect : s.effect t e.op e.res = some s') :
    Does t s (.main st false) e (.main st' false) s' := by
  obtain ⟨o, r⟩ := e
  have hquiet : ∀ {o : ThreadOp} {r : ThreadRes o}, ThreadOp.unlinks? o = none →
      ThreadOp.frees? o = none → ThreadOp.joins? o = none → (∀ n, ¬Finds ⟨o, r⟩ n) →
      o.cancelled r = false → Does t s (.main st false) ⟨o, r⟩ (.main st false) s :=
    fun hu hf hj hfind hc => .mainQuiet st false ⟨hu, hf, hj, hfind, hc⟩
  -- each operation goes with one stage, and names the node or the thread of the stage
  cases o with
  | terminateProgram =>
      cases st with
      | serving =>
          cases hstep
          cases heffect
          cases r with
          | true => exact .terminate
          | false => exact hquiet rfl rfl rfl (by simp [Finds]) rfl
      | _ => cases hstep
  | malloc =>
      cases st with
      | serving =>
          cases r with
          | none =>
              cases hstep
              cases heffect
              exact hquiet rfl rfl rfl (by simp [Finds]) rfl
          | some n =>
              cases hstep
              simp only [Threads.effect, Option.ite_none_right_eq_some] at heffect
              obtain ⟨hn, heffect⟩ := heffect
              cases heffect
              exact .malloc hn
      | _ => cases hstep
  | storeClientFd n fd =>
      cases st with
      | fresh n' =>
          simp only [MainStage.outside, Option.ite_none_right_eq_some] at hstep
          obtain ⟨rfl, hstep⟩ := hstep
          cases hstep
          obtain ⟨node, hcell, hnode⟩ := node?_of_not_faults hok
          simp only [Threads.effect, hnode, Option.map_some] at heffect
          cases heffect
          exact .store fd hcell
      | _ => cases hstep
  | pthreadCreate n =>
      cases st with
      | linked n' =>
          simp only [MainStage.outside, Option.ite_none_right_eq_some] at hstep
          obtain ⟨rfl, hstep⟩ := hstep
          cases hstep
          obtain ⟨node, hcell, hnode⟩ := node?_of_not_faults hok
          by_cases hr : r = 0
          · subst hr
            simp only [Threads.effect, hnode, Option.map_some, if_true] at heffect
            cases heffect
            exact .create hcell
          · simp only [Threads.effect, if_neg hr] at heffect
            cases heffect
            rw [if_neg hr]
            exact hquiet rfl rfl rfl (by simp [Finds]) rfl
      | _ => cases hstep
  | loadThreadId e =>
      cases st with
      | following e' next =>
          simp only [MainStage.outside, Option.ite_none_right_eq_some] at hstep
          obtain ⟨rfl, hstep⟩ := hstep
          cases hstep
          obtain ⟨node, hcell, hid, rfl⟩ := load_of_effect heffect
          exact .load false hcell hid
      | _ => cases hstep
  | pthreadJoin id =>
      cases st with
      | naming e next id' =>
          simp only [MainStage.outside, Option.ite_none_right_eq_some] at hstep
          obtain ⟨rfl, hstep⟩ := hstep
          cases hstep
          simp only [Threads.effect, Option.ite_none_right_eq_some] at heffect
          obtain ⟨hended, heffect⟩ := heffect
          cases heffect
          exact .join hended
      | _ => cases hstep
  | posix o =>
      cases o with
      | free n =>
          cases st with
          | unlinked n' =>
              simp only [MainStage.outside, Option.ite_none_right_eq_some] at hstep
              obtain ⟨rfl, hstep⟩ := hstep
              cases hstep
              cases heffect
              exact .discard
          | _ => cases hstep
      | _ =>
          cases st <;> cases hstep <;> cases heffect <;>
            exact hquiet rfl rfl rfl (by simp [Finds]) rfl
  | loadServerFd =>
      cases st <;> cases hstep <;> cases heffect <;>
        exact hquiet rfl rfl rfl (by simp [Finds]) rfl
  | accept fd =>
      cases st with
      | serving =>
          cases hstep
          cases heffect
          exact hquiet rfl rfl rfl (by simp [Finds]) rfl
      | _ => cases hstep
  | syslogInfo message =>
      cases st with
      | serving =>
          cases hstep
          cases heffect
          exact hquiet rfl rfl rfl (by simp [Finds]) rfl
      | _ => cases hstep
  | closelog =>
      cases st with
      | atEnd =>
          cases hstep
          cases heffect
          exact hquiet rfl rfl rfl (by simp [Finds]) rfl
      | _ => cases hstep
  | _ => cases st <;> cases hstep

/-- A step of main while it holds `list_mutex`. -/
theorem does_of_inside {st st' : MainStage} {e : Event threads} (hstep : st.inside e = some st')
    (heffect : s.effect t e.op e.res = some s') : Does t s (.main st true) e (.main st' true) s' := by
  obtain ⟨o, r⟩ := e
  -- with the lock held main only works on the list and on its entry
  cases o with
  | listInsertHead n =>
      cases st with
      | filled n' =>
          simp only [MainStage.inside, Option.ite_none_right_eq_some] at hstep
          obtain ⟨rfl, hstep⟩ := hstep
          cases hstep
          cases heffect
          exact .insert
      | _ => cases hstep
  | listFirst =>
      cases st with
      | closing =>
          cases hstep
          simp only [Threads.effect, Option.ite_none_right_eq_some] at heffect
          obtain ⟨rfl, heffect⟩ := heffect
          cases heffect
          exact .first
      | _ => cases hstep
  | listNext entry =>
      cases st with
      | atEntry e =>
          simp only [MainStage.inside, Option.ite_none_right_eq_some] at hstep
          obtain ⟨rfl, hstep⟩ := hstep
          cases hstep
          simp only [Threads.effect, Option.ite_none_right_eq_some] at heffect
          obtain ⟨hnext, heffect⟩ := heffect
          cases heffect
          exact .next hnext
      | _ => cases hstep
  | loadThreadId entry =>
      cases st with
      | following e next =>
          simp only [MainStage.inside, Option.ite_none_right_eq_some] at hstep
          obtain ⟨rfl, hstep⟩ := hstep
          cases hstep
          obtain ⟨node, hcell, hid, rfl⟩ := load_of_effect heffect
          exact .load true hcell hid
      | _ => cases hstep
  | pthreadCancel id =>
      cases st with
      | naming e next id' =>
          simp only [MainStage.inside, Option.ite_none_right_eq_some] at hstep
          obtain ⟨rfl, hstep⟩ := hstep
          cases hstep
          cases heffect
          exact .request
      | _ => cases hstep
  | posix o =>
      cases o with
      | listRemove n =>
          cases st with
          | linked n' =>
              simp only [MainStage.inside, Option.ite_none_right_eq_some] at hstep
              obtain ⟨rfl, hstep⟩ := hstep
              cases hstep
              cases heffect
              exact .retract
          | joined e next =>
              simp only [MainStage.inside, Option.ite_none_right_eq_some] at hstep
              obtain ⟨rfl, hstep⟩ := hstep
              cases hstep
              cases heffect
              exact .remove
          | _ => cases hstep
      | free n =>
          cases st with
          | removed e next =>
              simp only [MainStage.inside, Option.ite_none_right_eq_some] at hstep
              obtain ⟨rfl, hstep⟩ := hstep
              cases hstep
              cases heffect
              exact .release
          | _ => cases hstep
      | _ => cases st <;> cases hstep
  | _ => cases st <;> cases hstep

/-- A step of main. -/
theorem does_of_main {st : MainStage} {l : Bool} {g' : ThreadPhase} {e : Event threads}
    (hstep : (ThreadPhase.main st l).step e = some g') (hok : s.faults e.op = false)
    (heffect : s.effect t e.op e.res = some s') : Does t s (.main st l) e g' s' := by
  obtain ⟨o, r⟩ := e
  cases l with
  | false =>
      -- the lock itself, or an operation of the stage
      by_cases hlock : o.locksList = true
      · obtain rfl : o = .posix (.mutexLock .list) := by
          unfold ThreadOp.locksList at hlock
          split at hlock
          · rfl
          · cases hlock
        cases hstep
        simp only [Threads.effect, Threads.callEffect, Option.ite_none_right_eq_some] at heffect
        obtain ⟨hfree, heffect⟩ := heffect
        cases heffect
        exact .mainLock st hfree
      · simp only [ThreadPhase.step, if_neg hlock, Option.map_eq_some_iff] at hstep
        obtain ⟨st', hst', rfl⟩ := hstep
        exact does_of_outside hst' hok heffect
  | true =>
      by_cases hunlock : o.unlocksList = true
      · obtain rfl : o = .posix (.mutexUnlock .list) := by
          unfold ThreadOp.unlocksList at hunlock
          split at hunlock
          · rfl
          · cases hunlock
        cases hstep
        cases heffect
        exact .mainUnlock st
      · simp only [ThreadPhase.step, if_neg hunlock, Option.map_eq_some_iff] at hstep
        obtain ⟨st', hst', rfl⟩ := hstep
        exact does_of_inside hst' heffect

/-- A step of a handler. -/
theorem does_of_handler {g : HandlerPhase} {g' : ThreadPhase} {e : Event threads}
    (hstep : (ThreadPhase.handler g).step e = some g') (heffect : s.effect t e.op e.res = some s') :
    Does t s (.handler g) e g' s' := by
  obtain ⟨o, r⟩ := e
  cases o with
  | start =>
      obtain ⟨stage, f, l, h⟩ := g
      simp only [ThreadPhase.step, Option.ite_none_right_eq_some] at hstep
      obtain ⟨rfl, hstep⟩ := hstep
      cases hstep
      simp only [Threads.effect, Option.ite_none_right_eq_some] at heffect
      obtain ⟨harg, heffect⟩ := heffect
      cases heffect
      exact .start f l h harg
  | posix o =>
      simp only [ThreadPhase.step, Option.map_eq_some_iff] at hstep
      obtain ⟨g', hg', rfl⟩ := hstep
      exact does_of_call (.inl ⟨r, rfl⟩) hg' heffect
  | point o =>
      -- a call that returns, or one that is cancelled
      cases r with
      | some r =>
          simp only [ThreadPhase.step, Option.map_eq_some_iff] at hstep
          obtain ⟨g', hg', rfl⟩ := hstep
          exact does_of_call (.inr ⟨r, rfl⟩) hg' heffect
      | none =>
          simp only [Threads.effect, Option.ite_none_right_eq_some, Bool.and_eq_true] at heffect
          obtain ⟨⟨-, hpoint⟩, heffect⟩ := heffect
          cases heffect
          obtain ⟨stage, f, l, h⟩ := g
          cases stage with
          | serving n =>
              rcases f with _ | _ <;> rcases l with _ | _ <;> rcases h with _ | _ <;> cases hstep
              · exact .cancel false false hpoint (by simp)
              · exact .cancel true false hpoint (by simp)
              · exact .cancel true true hpoint (by simp)
          | _ => cases hstep
  | exit =>
      cases heffect
      simp only [ThreadPhase.step, Option.map_eq_some_iff] at hstep
      obtain ⟨g', hg', rfl⟩ := hstep
      obtain ⟨stage, f, l, h⟩ := g
      cases stage with
      | serving n =>
          simp only [HandlerPhase.finish, Option.ite_none_right_eq_some] at hg'
          obtain ⟨⟨rfl, rfl⟩, hg'⟩ := hg'
          cases hg'
          exact .abandon f
      | freed =>
          simp only [HandlerPhase.finish, Option.ite_none_right_eq_some] at hg'
          obtain ⟨⟨rfl, rfl⟩, hg'⟩ := hg'
          cases hg'
          exact .finish f
      | _ => cases hg'
  | _ => cases hstep

/-- **What a thread in a phase does**, where nothing faults. -/
theorem does_of_step {g g' : ThreadPhase} {e : Event threads} (hstep : g.step e = some g')
    (hok : s.faults e.op = false) (heffect : s.effect t e.op e.res = some s') :
    Does t s g e g' s' := by
  cases g with
  | main st l => exact does_of_main hstep hok heffect
  | handler g => exact does_of_handler hstep heffect

end Inversion

end Aesd.Server

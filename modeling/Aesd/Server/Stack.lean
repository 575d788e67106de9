import Aesd.CharDriver.Atomic
import Aesd.Effects.Beside
import Aesd.Server.Solo

/-! # The server over the code of the driver

The connections again, with every layer below them written out: a system call on the device looks up
its descriptor and then runs the code of the driver, and every kernel service of that code is a step
of its own, between which the other threads go on. A file stays open until the call that has looked
it up is over, even if its descriptor has been closed in between. `aesd_open` stores the position 0,
which is where a new open file is.

As the calls of the driver are atomic, so is the device for the server: **`stack_refines`** turns
each run into one over the log of lines, in which a read and a write of the device are one step each
and a seek request is done section by section. The threads make the same other system calls in it,
with the same answers and in the same order, and a call of the driver fails where it did. -/

namespace Aesd.Server

open Effects Memory Streams CharDriver

deriving instance DecidableEq for OpenFile

/-- What the system keeps for the connections, apart from the device. -/
structure Table where
  /-- The descriptors of the device file. -/
  files : ℤ → Option OpenFile
  /-- The next open file. -/
  nextFile : File
  /-- Who holds each mutex of the server. -/
  owner : Mutex → Option ℕ
  /-- The chunks each thread has received. -/
  arrived : ℕ → List (List UInt8)

/-- Before any connection. -/
def Table.init : Table where
  files _ := none
  nextFile := 0
  owner _ := none
  arrived _ := []

/-- What happens in the system outside of the driver. -/
inductive SysOp where
  /-- Look up a descriptor. -/
  | fget (fd : ℤ)
  /-- A system call, or a call of the C library, that does not get to the driver. -/
  | other (o : PosixOp)

/-- What it returns. -/
@[reducible] def SysRes : SysOp → Type
  | .fget _ => Option OpenFile
  | .other o => PosixRes o

/-- The system without the driver. -/
abbrev sys : Interface := ⟨SysOp, SysRes⟩

/-- The calls of the driver and the rest of the system. -/
abbrev driverCalls : Interface := lockedCalls.sum sys

/-- The sections of the calls and the rest of the system. -/
abbrev driverSections : Interface := sections.sum sys

/-- The services of the kernel and the rest of the system. -/
abbrev services : Interface := kernel.sum sys

/-! ### System calls -/

/-- What a system call returns when the driver returns `n`. -/
def systemRetval (n : ℤ) : ℤ := if n < 0 then -1 else n

/-- What `read` returns. -/
def Transfer.ofReply (n : ℕ) (r : Reply) : Transfer n :=
  if h : r.retval = r.bytes.length ∧ r.bytes.length ≤ n then
    ⟨r.retval, r.bytes, h.2, .inl h.1⟩
  else
    ⟨-1, [], Nat.zero_le _, .inr ⟨rfl, rfl⟩⟩

/-- A call that does not get to the driver. -/
def other (o : PosixOp) : Prog driverCalls (PosixRes o) :=
  .call (E := driverCalls) (.inr (.other o)) .pure

/-- A call of the driver. -/
def drive (c : lockedCalls.Op) : Prog driverCalls Reply := .call (E := driverCalls) (.inl c) .pure

/-- The text of a system call. -/
def systemText : (o : PosixOp) → Prog driverCalls (PosixRes o)
  | .read fd n =>
      .call (E := driverCalls) (.inr (.fget fd)) fun
        | some f => (drive ⟨.read f.file n, rfl⟩).bind fun r => .pure (.ofReply n r)
        | none => other (.read fd n)
  | .write fd bytes =>
      .call (E := driverCalls) (.inr (.fget fd)) fun
        | some ⟨file, .creatAppendRdwr⟩ =>
            (drive ⟨.write file bytes, rfl⟩).bind fun r => .pure (systemRetval r.retval)
        -- not open for writing, or not the device
        | _ => other (.write fd bytes)
  | .ioctl fd request arg =>
      .call (E := driverCalls) (.inr (.fget fd)) fun
        | some f =>
            (drive ⟨.ioctl f.file request arg, rfl⟩).bind fun r => .pure (systemRetval r.retval)
        | none => other (.ioctl fd request arg)
  | o => other o

/-- What the answer `r` of the system outside of the driver to the thread `t` makes of the table, if
it can be the answer. A number that is not the descriptor of the device file may belong to anything
else. -/
def Table.answer (s : Table) (clients : ℕ → Client) (t : ℕ) : (h : SysOp) → SysRes h → Option Table
  | .fget fd, f => if f = s.files fd then some s else none
  | .other (.loadClientFd _), fd => if fd = (clients t).fd then some s else none
  | .other (.openFile flags), fd =>
      if fd.val = -1 then some s
      else if s.files fd.val = none then
        some { s with
          files := Function.update s.files fd.val (some ⟨s.nextFile, flags⟩)
          nextFile := s.nextFile + 1 }
      else none
  | .other (.recv fd n), r =>
      if (s.arrived t).flatten ++ r.data <+: (clients t).stream then
        some { s with
          arrived := Function.update s.arrived t (s.arrived t ++ (received ⟨.recv fd n, r⟩).toList) }
      else none
  | .other (.close fd), _ => some { s with files := Function.update s.files fd none }
  | .other (.mutexLock m), _ =>
      if s.owner m = none then some { s with owner := Function.update s.owner m (some t) } else none
  | .other (.mutexUnlock m), _ => some { s with owner := Function.update s.owner m none }
  | .other _, _ => some s

/-! ### The two machines -/

/-- The connections over the code of the driver. -/
def stackMachine (clients : ℕ → Client) : Machine services (World × Table) Unit where
  text t := ((handleClient (clients t).tinfo (clients t).stack).link systemText).link
    (implBeside sys callText)
  answers t _
    | .inl o, s, r, s' =>
        (∃ env : Env, env.task = t ∧ kernelStep env o s.1 = .ok (r, s'.1)) ∧ s'.2 = s.2
    | .inr h, s, r, s' => s.2.answer clients t h r = some s'.2 ∧ s'.1 = s.1

/-- The connections over the log, a section of a call of the driver being one step. -/
def callMachine (clients : ℕ → Client) : Machine driverSections (Log × Table) Unit where
  text t := ((handleClient (clients t).tinfo (clients t).stack).link systemText).link
    (implBeside sys callSections)
  answers t _
    | .inl o, s, r, s' => Log.Answers o s.1 r s'.1 ∧ s'.2 = s.2
    | .inr h, s, r, s' => s.2.answer clients t h r = some s'.2 ∧ s'.1 = s.1

/-- The module freshly loaded, and no connection. -/
def stackInit (clients : ℕ → Client) : Pool services (World × Table) Unit :=
  (stackMachine clients).init (aesdInitModule, Table.init)

/-- The empty log, and no connection. -/
def callInit (clients : ℕ → Client) : Pool driverSections (Log × Table) Unit :=
  (callMachine clients).init (Log.init, Table.init)

/-- What is assumed of a step, as for the calls of the driver alone. -/
def StackPermitted (t : ℕ) : Event services → World × Table → Prop
  | ⟨.inl o, r⟩, s => Permitted t ⟨o, r⟩ s.1
  | ⟨.inr _, _⟩, _ => True

/-- What can be seen of a step over the code: a service of the kernel that fails, and whatever does not
get to the driver, with its answer. -/
def stackEvent : Event services → Option (ℤ ⊕ Event sys)
  | ⟨.inl o, r⟩ => (serviceError ⟨o, r⟩).map .inl
  | ⟨.inr h, r⟩ => some (.inr ⟨h, r⟩)

/-- What can be seen of a step over the log: a section that fails for want of a service, and the rest
likewise. -/
def callEvent : Event driverSections → Option (ℤ ⊕ Event sys)
  | ⟨.inl o, r⟩ => (sectionError ⟨o, r⟩).map .inl
  | ⟨.inr h, r⟩ => some (.inr ⟨h, r⟩)

/-- The rules under which the connections share the device. -/
abbrev stackSharing (clients : ℕ → Client) : Protocol services driverSections (World × Table)
    (Log × Table) (Ghost × Table) (ℤ ⊕ Event sys) :=
  sharing.beside fun t h s r s' => s.answer clients t h r = some s'

/-- A thread outside of the driver. -/
abbrev StackOutside (t : ℕ) (s : World × Table) (g : Ghost × Table) : Prop := Outside t s.1 g.1

/-! ### Schedules -/

section Schedules

variable {clients : ℕ → Client}

instance (t : ℕ) (s : World × Table) : (e : Event services) → Decidable (StackPermitted t e s)
  | ⟨.inl o, r⟩ => inferInstanceAs (Decidable (Permitted t ⟨o, r⟩ s.1))
  | ⟨.inr _, _⟩ => .isTrue trivial

/-- The answer of a system in which everything succeeds and a client's lines arrive one by one. -/
def Table.calm (s : Table) (clients : ℕ → Client) (t : ℕ) : (h : SysOp) → SysRes h
  | .fget fd => s.files fd
  | .other (.loadClientFd _) => (clients t).fd
  | .other (.openFile _) => ⟨s.nextFile + 3, by omega⟩
  | .other (.recv _ n) =>
      .ofReply n (((fun line => ⟨line.length, line⟩) <|
        firstLine isNewline ((clients t).stream.drop (s.arrived t).flatten.length)) : Reply)
  | .other (.read _ n) => .empty n
  | .other (.send _ bytes) | .other (.write _ bytes) => bytes.length
  | .other (.ioctl _ _ _) | .other (.close _) => (0 : ℤ)
  | .other (.mutexLock _) | .other (.mutexUnlock _) | .other (.syslog _) => ()
  | .other (.listRemove _) | .other (.free _) | .other (.overrun _) => ()

/-- Let the thread take one step, everything succeeding, if it is permitted, and note what can be seen
of it. -/
def playStackStep (clients : ℕ → Client) (t : ℕ) (p : Pool services (World × Table) Unit) :
    Option (List (ℕ × (ℤ ⊕ Event sys)) × Pool services (World × Table) Unit) :=
  match (p.task t).prog with
  | .pure _ => none
  | .loop body s k => some ([], p.setTask t ⟨(p.task t).hist, Prog.unfold body s k⟩)
  | .call (.inl o) k =>
      match kernelStep (.calm t) o p.shared.1 with
      | .error _ => none
      | .ok (r, w) =>
          if Permitted t ⟨o, r⟩ p.shared.1 then
            some (((stackEvent ⟨.inl o, r⟩).map fun v => (t, v)).toList,
              Pool.setTask { p with shared := (w, p.shared.2) } t
                ⟨(p.task t).hist ++ [⟨.inl o, r⟩], k r⟩)
          else none
  | .call (.inr h) k =>
      (p.shared.2.answer clients t h (p.shared.2.calm clients t h)).map fun s =>
        ([(t, .inr ⟨h, p.shared.2.calm clients t h⟩)], Pool.setTask { p with shared := (p.shared.1, s) } t
          ⟨(p.task t).hist ++ [⟨.inr h, p.shared.2.calm clients t h⟩], k (p.shared.2.calm clients t h)⟩)

/-- Let the threads go on one after the other, everything succeeding, as long as what they do is
permitted. -/
def playStack (clients : ℕ → Client) :
    List ℕ → Pool services (World × Table) Unit → Option (Pool services (World × Table) Unit)
  | [], p => some p
  | t :: ts, p => (playStackStep clients t p).bind fun q => playStack clients ts q.2

/-- What can be seen on the way. -/
def playStackEvents (clients : ℕ → Client) :
    List ℕ → Pool services (World × Table) Unit → List (ℕ × (ℤ ⊕ Event sys))
  | [], _ => []
  | t :: ts, p =>
      (playStackStep clients t p).elim [] fun q => q.1 ++ playStackEvents clients ts q.2

/-- A step of a schedule is a step of the machine. -/
theorem steps_of_playStackStep {t : ℕ} {p q : Pool services (World × Table) Unit}
    {events : List (ℕ × (ℤ ⊕ Event sys))} (h : playStackStep clients t p = some (events, q)) :
    ∃ τ, Steps (stackMachine clients) p τ q ∧
      (∀ a ∈ τ, StackPermitted a.task a.event a.before) ∧ sight stackEvent τ = events := by
  have hact : ∀ {o : services.Op} {k : services.Res o → Prog services Unit} {r : services.Res o}
      {s : World × Table}, (p.task t).prog = .call o k →
      (stackMachine clients).answers t (p.task t).hist o p.shared r s →
      StackPermitted t ⟨o, r⟩ p.shared →
      ∃ τ, Steps (stackMachine clients) p τ (Pool.setTask { p with shared := s } t
          ⟨(p.task t).hist ++ [⟨o, r⟩], k r⟩) ∧
        (∀ a ∈ τ, StackPermitted a.task a.event a.before) ∧
        sight stackEvent τ = ((stackEvent ⟨o, r⟩).map fun v => (t, v)).toList := by
    intro o k r s hp hr hok
    refine ⟨_, .act t (.refl p) hp hr, fun a ha => ?_, ?_⟩
    · obtain rfl := List.mem_singleton.mp ha
      exact hok
    · rw [List.nil_append, sight_singleton]
  rw [playStackStep] at h
  split at h
  · cases h
  · next hp =>
    cases h
    exact ⟨[], .loop t (.refl p) hp, by simp, rfl⟩
  · next o k hp =>
    split at h
    · cases h
    · next r w hok =>
      split at h
      · next hpermitted =>
        cases h
        exact hact (s := (w, p.shared.2)) hp ⟨⟨.calm t, rfl, hok⟩, rfl⟩ hpermitted
      · cases h
  · next o k hp =>
    obtain ⟨s, hs, hrest⟩ := Option.map_eq_some_iff.mp h
    cases hrest
    exact hact (s := (p.shared.1, s)) hp ⟨hs, rfl⟩ trivial

/-- What a schedule leads to is the end of a run whose steps are permitted. -/
theorem steps_of_playStack {ts : List ℕ} {p q : Pool services (World × Table) Unit}
    (h : playStack clients ts p = some q) : ∃ τ, Steps (stackMachine clients) p τ q ∧
      (∀ a ∈ τ, StackPermitted a.task a.event a.before) ∧
      sight stackEvent τ = playStackEvents clients ts p := by
  induction ts generalizing p with
  | nil =>
      cases h
      exact ⟨[], .refl _, by simp, rfl⟩
  | cons t ts ih =>
      obtain ⟨⟨events, p'⟩, hp', hrest⟩ := Option.bind_eq_some_iff.mp h
      obtain ⟨τ, hτ, hperm, hsight⟩ := steps_of_playStackStep hp'
      obtain ⟨υ, hυ, hperm', hsight'⟩ := ih hrest
      refine ⟨τ ++ υ, hτ.trans hυ, fun a ha => ?_, ?_⟩
      · exact (List.mem_append.mp ha).elim (hperm a) (hperm' a)
      · rw [sight_append, hsight, hsight', playStackEvents, hp']
        rfl

/-- Two clients that send a packet each. -/
def twoSenders : ℕ → Client :=
  sending fun t => if t = 0 then [97, newline] else if t = 1 then [98, newline] else []

/-- The first thread stores its packet. While it reads the device for its answer, the second one
gets its bounce buffer, and then stores its own packet. -/
def twoSendersSchedule : List ℕ :=
  List.replicate 26 0 ++ List.replicate 9 1 ++ List.replicate 6 0 ++ List.replicate 11 1

/-- What the schedule leads to. -/
theorem exists_twoSenders : ∃ q,
    playStack twoSenders twoSendersSchedule (stackInit twoSenders) = some q ∧
      q.shared.1.dev.lock = none ∧ q.shared.1.retained = [some [97, newline], some [98, newline]] ∧
      q.shared.2.arrived = Function.update (Function.update (fun _ => []) (0 : ℕ) [[97, newline]]) 1
        [[98, newline]] := by
  have hplay : (playStack twoSenders twoSendersSchedule (stackInit twoSenders)).map (fun q =>
      (q.shared.1.dev.lock, q.shared.1.retained, q.shared.2.arrived)) =
        some (none, [some [97, newline], some [98, newline]],
          Function.update (Function.update (fun _ => []) (0 : ℕ) [[97, newline]]) 1
            [[98, newline]]) := rfl
  obtain ⟨q, hq, hshared⟩ := Option.map_eq_some_iff.mp hplay
  rw [Prod.mk.injEq, Prod.mk.injEq] at hshared
  exact ⟨q, hq, hshared.1, hshared.2.1, hshared.2.2⟩

end Schedules

section Refinement

variable {clients : ℕ → Client} {q : Pool services (World × Table) Unit}
  {τ : List (Act services (World × Table))}

theorem stackMachine_eq (clients : ℕ → Client) : stackMachine clients =
    (stackSharing clients).linked (implBeside sys sectionText) (callMachine clients).text := by
  rw [stackMachine, Protocol.linked]
  congr 1
  · funext t
    have htexts : (fun o => (implBeside sys callSections o).link (implBeside sys sectionText)) =
        implBeside sys callText := by
      rw [show callText = fun c => (callSections c).link sectionText from funext callText_eq]
      exact funext implBeside_link
    exact (congrArg (fun impl => ((handleClient (clients t).tinfo (clients t).stack).link
      systemText).link impl) htexts.symm).trans (link_link _).symm
  · funext t hist o
    cases o <;> rfl

theorem callMachine_eq (clients : ℕ → Client) :
    callMachine clients = (stackSharing clients).atomic (callMachine clients).text := by
  rw [callMachine, Protocol.atomic]
  congr 1
  funext t hist o
  cases o <;> rfl

theorem implements_stack :
    (stackSharing clients).Implements (implBeside sys sectionText) StackOutside :=
  implements_sectionText.beside Yields.refl

/-- What the code has done and has left to do, beside what the clients have. -/
theorem stack_coupled (hrun : Steps (stackMachine clients) (stackInit clients) τ q)
    (hpermitted : ∀ a ∈ τ, StackPermitted a.task a.event a.before) :
    ∃ τ' q' g, Steps (callMachine clients) (callInit clients) τ' q' ∧
      sight callEvent τ' = sight stackEvent τ ∧
      (stackSharing clients).Coupled (implBeside sys sectionText) StackOutside q q' g := by
  have hidle : ∀ t, StackOutside t (aesdInitModule, Table.init)
      (⟨Log.init, fun _ => none⟩, Table.init) := by
    intro t
    rw [StackOutside, Outside, stands_init.represents.unlocked]
    simp
  have hinit : (stackSharing clients).Coupled (implBeside sys sectionText) StackOutside
      (((stackSharing clients).linked (implBeside sys sectionText) (callMachine clients).text).init
        (aesdInitModule, Table.init))
      (((stackSharing clients).atomic (callMachine clients).text).init (Log.init, Table.init))
      (⟨Log.init, fun _ => none⟩, Table.init) :=
    { inv := ⟨stands_init.shared, rfl⟩
      view := rfl
      tracks := fun t => .inl ⟨hidle t, rfl⟩ }
  rw [stackInit, stackMachine_eq] at hrun
  obtain ⟨τ', q', g, hsteps, hsight, hq⟩ := hinit.refines implements_stack hrun fun a ha => by
    have := hpermitted a ha
    obtain ⟨t, hist, ⟨o, r⟩, before, after⟩ := a
    cases o <;> exact this
  have houtcome : (stackSharing clients).outcome = callEvent := by
    funext e
    obtain ⟨o, r⟩ := e
    cases o <;> rfl
  have hvisible : (stackSharing clients).visible = stackEvent := by
    funext e
    obtain ⟨o, r⟩ := e
    cases o <;> rfl
  rw [houtcome, hvisible] at hsight
  rw [callInit, callMachine_eq]
  exact ⟨τ', q', g, hsteps, hsight, hq⟩

/-- **The device is atomic for the server.** Whatever the connections do over the code of the driver,
one kernel service at a time, they also do over the log of lines, one read or write of the device at
a time and a seek request section by section. The threads get and send the same, and make all other
system calls with the same answers in the same order; and the calls of the driver that fail for want
of a service are those in which one has failed. While nobody holds the mutex of the device it is what
the log says. -/
theorem stack_refines (hrun : Steps (stackMachine clients) (stackInit clients) τ q)
    (hpermitted : ∀ a ∈ τ, StackPermitted a.task a.event a.before) :
    ∃ τ' q', Steps (callMachine clients) (callInit clients) τ' q' ∧
      sight callEvent τ' = sight stackEvent τ ∧ q'.shared.2 = q.shared.2 ∧
      (q.shared.1.dev.lock = none → Stands q.shared.1 q'.shared.1) ∧
      ∀ t a, (q.task t).prog = .pure a → (q'.task t).prog = .pure a := by
  obtain ⟨τ', q', g, hsteps, hsight, hq⟩ := stack_coupled hrun hpermitted
  have hview : q'.shared = (g.1.log, g.2) := hq.view
  refine ⟨τ', q', hsteps, hsight, ?_, fun hfree => ?_, fun t a ht => hq.returned implements_stack ht⟩
  · rw [hview]
    exact hq.inv.2.symm
  · rw [hview]
    exact hq.inv.1.stands hfree

/-- What a thread sends. -/
def sent : ℕ × (ℤ ⊕ Event sys) → Option (ℕ × List UInt8)
  | (t, .inr ⟨.other (.send _ bytes), _⟩) => some (t, bytes)
  | _ => none

/-- The two threads over the log. The first one gets the lines of both and sends them on. -/
theorem stack_refines_twoSenders : ∃ q,
    playStack twoSenders (twoSendersSchedule ++ List.replicate 20 0) (stackInit twoSenders) = some q ∧
      ∃ τ' q', Steps (callMachine twoSenders) (callInit twoSenders) τ' q' ∧
        (sight callEvent τ').filterMap sent = [(0, [97, newline]), (0, [98, newline])] ∧
        q'.shared.2 = q.shared.2 ∧ Stands q.shared.1 q'.shared.1 := by
  have hplay : (playStack twoSenders (twoSendersSchedule ++ List.replicate 20 0)
      (stackInit twoSenders)).map (fun q => q.shared.1.dev.lock) = some none := by decide +kernel
  have hsent : (playStackEvents twoSenders (twoSendersSchedule ++ List.replicate 20 0)
      (stackInit twoSenders)).filterMap sent = [(0, [97, newline]), (0, [98, newline])] := by
    decide +kernel
  obtain ⟨q, hq, hfree⟩ := Option.map_eq_some_iff.mp hplay
  obtain ⟨τ, hrun, hpermitted, hevents⟩ := steps_of_playStack hq
  obtain ⟨τ', q', hcalls, hsight, htable, hstands, -⟩ := stack_refines hrun hpermitted
  exact ⟨q, hq, τ', q', hcalls, by rw [hsight, hevents, hsent], htable, hstands hfree⟩

end Refinement

end Aesd.Server

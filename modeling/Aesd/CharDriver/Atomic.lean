import Aesd.CharDriver.WriteOutline

/-! # Concurrent calls are atomic

Any number of clients, each a program of driver calls of its own, run over the code of the calls:
one kernel service at a time, in any order, whatever the kernel decides at each. As long as no call
releases a mutex that another one holds and no `krealloc` is refused to a working entry that holds
bytes, the same clients could have run over the log, with each `read`, `write` and `llseek` done at
once, a seek request section by section, and the same replies. A call over the log fails where a
service of the driver has failed, with the error number that belongs to it, or where it asks for a
position that there cannot be. -/

namespace Aesd.CharDriver

open Memory Effects Streams

variable {α : Type}

/-- The clients over the code of the driver. -/
def driverMachine (clients : ℕ → Prog lockedCalls α) : Machine kernel World α where
  text t := (clients t).link callText
  answers t _ o w r w' := ∃ env : Env, env.task = t ∧ kernelStep env o w = .ok (r, w')

/-- The clients over the log, section by section. -/
def logMachine (clients : ℕ → Prog lockedCalls α) : Machine sections Log α where
  text t := (clients t).link callSections
  answers _ _ := Log.Answers

/-- The code `p` is between two sections of the client `q`, or inside a section that has not happened
yet or has happened. -/
def Along (p : Driver α) (q : Prog sections α) : Prop :=
  p = q.link sectionText ∨ ∃ (o : sections.Op) (k : sections.Res o → Prog sections α)
    (p' : Driver (sections.Res o)), (∃ u, Runs (sectionText o) u p') ∧
      p = p'.bind (fun r => (k r).link sectionText) ∧ (q = .call o k ∨ ∃ r, q = k r)

/-- The pool over the driver is where the pool over the log is. -/
structure Matches (p : Pool kernel World α) (p' : Pool sections Log α) : Prop where
  /-- While nobody holds the mutex the state stands for the log. -/
  stands : p.shared.dev.lock = none → Stands p.shared p'.shared
  /-- So are the tasks. -/
  along : ∀ t, Along (p.task t).prog (p'.task t).prog
  /-- A client that has returned has returned the same. -/
  returned : ∀ t a, (p.task t).prog = .pure a → (p'.task t).prog = .pure a

/-! ### Schedules -/

section Schedules

instance (t : ℕ) (w : World) : (e : Event kernel) → Decidable (Permitted t e w)
  | ⟨.mutexUnlock, _⟩ => inferInstanceAs (Decidable (_ ∨ _))
  | ⟨.krealloc _ _, q⟩ =>
      inferInstanceAs (Decidable ((show Ptr from q) = .null → w.dev.workingEntry.size = 0))
  | ⟨.kmalloc _, _⟩ | ⟨.kfree _, _⟩ | ⟨.copyFromUser _ _, _⟩ | ⟨.copySeektoFromUser _, _⟩
  | ⟨.copyToUser _ _ _, _⟩ | ⟨.memchr _ _ _, _⟩ | ⟨.memcpy _ _ _ _, _⟩
  | ⟨.mutexLockInterruptible, _⟩ | ⟨.loadDev, _⟩ | ⟨.modifyDev _, _⟩ | ⟨.loadFPos _, _⟩
  | ⟨.storeFPos _ _, _⟩ | ⟨.strayLoad _, _⟩ => .isTrue trivial

/-- Let the task of the `Env` take one step, if it is permitted, and note the service that fails. -/
def playStep (env : Env) (p : Pool kernel World α) :
    Option (List (ℕ × ℤ) × Pool kernel World α) :=
  match (p.task env.task).prog with
  | .pure _ => none
  | .loop body s k => some ([], p.setTask env.task ⟨(p.task env.task).hist, Prog.unfold body s k⟩)
  | .call o k =>
      match kernelStep env o p.shared with
      | .error _ => none
      | .ok (r, w) =>
          if Permitted env.task ⟨o, r⟩ p.shared then
            some (((serviceError ⟨o, r⟩).map fun n => (env.task, n)).toList,
              Pool.setTask { p with shared := w } env.task
                ⟨(p.task env.task).hist ++ [⟨o, r⟩], k r⟩)
          else none

/-- Let the tasks of the `Env`s go on one after the other, as long as what they do is permitted. -/
def play : List Env → Pool kernel World α → Option (Pool kernel World α)
  | [], p => some p
  | env :: envs, p => (playStep env p).bind fun q => play envs q.2

/-- The services that fail on the way. -/
def playErrors : List Env → Pool kernel World α → List (ℕ × ℤ)
  | [], _ => []
  | env :: envs, p => (playStep env p).elim [] fun q => q.1 ++ playErrors envs q.2

/-- A step of a schedule is a step of the machine. -/
theorem steps_of_playStep {clients : ℕ → Prog lockedCalls α} {env : Env} {p q : Pool kernel World α}
    {errors : List (ℕ × ℤ)} (h : playStep env p = some (errors, q)) :
    ∃ τ, Steps (driverMachine clients) p τ q ∧
      (∀ a ∈ τ, Permitted a.task a.event a.before) ∧ sight serviceError τ = errors := by
  rw [playStep] at h
  split at h
  · cases h
  · next hp =>
    cases h
    exact ⟨[], .loop env.task (.refl p) hp, by simp, rfl⟩
  · next o k hp =>
    split at h
    · cases h
    · next r w hok =>
      split at h
      · next hpermitted =>
        cases h
        refine ⟨_, .act env.task (.refl p) hp ⟨env, rfl, hok⟩, fun a ha => ?_, ?_⟩
        · obtain rfl := List.mem_singleton.mp ha
          exact hpermitted
        · rw [List.nil_append, sight_singleton]
      · cases h

/-- What a schedule leads to is the end of a run whose steps are permitted. -/
theorem steps_of_play {clients : ℕ → Prog lockedCalls α} {envs : List Env}
    {p q : Pool kernel World α} (h : play envs p = some q) :
    ∃ τ, Steps (driverMachine clients) p τ q ∧
      (∀ a ∈ τ, Permitted a.task a.event a.before) ∧ sight serviceError τ = playErrors envs p := by
  induction envs generalizing p with
  | nil =>
      cases h
      exact ⟨[], .refl _, by simp, rfl⟩
  | cons env envs ih =>
      obtain ⟨⟨errors, p'⟩, hp', hrest⟩ := Option.bind_eq_some_iff.mp h
      obtain ⟨τ, hτ, hperm, hsight⟩ := @steps_of_playStep α clients env _ _ _ hp'
      obtain ⟨υ, hυ, hperm', hsight'⟩ := ih hrest
      refine ⟨τ ++ υ, hτ.trans hυ, fun a ha => ?_, ?_⟩
      · exact (List.mem_append.mp ha).elim (hperm a) (hperm' a)
      · rw [sight_append, hsight, hsight', playErrors, hp']
        rfl

/-- A task that writes an empty line, and others that seek, one of them with a request. -/
def writerAndSeekers (t : ℕ) : Prog lockedCalls Reply :=
  if t = 0 then .call ⟨.write 0 [newline], rfl⟩ .pure
  else if t = 2 then .call ⟨.ioctl t aesdcharIocseekto ⟨0, 0⟩, rfl⟩ .pure
  else .call ⟨.llseek t 5 seekSet, rfl⟩ .pure

/-- Before any of them has begun. -/
def writerAndSeekersInit : Pool kernel World Reply :=
  (driverMachine writerAndSeekers).init aesdInitModule

end Schedules

section Implements

variable {t : ℕ} {w : World} {l : Log} {clients : ℕ → Prog lockedCalls α}
  {m p q : Pool kernel World α} {p' : Pool sections Log α} {g : Ghost} {τ υ : List (Act kernel World)}

/-- The code of the calls is the code of their sections. -/
theorem driverMachine_eq (clients : ℕ → Prog lockedCalls α) : driverMachine clients =
    sharing.linked sectionText fun t => (clients t).link callSections := by
  rw [driverMachine, Protocol.linked]
  congr 1
  funext t
  rw [link_link, show callText = fun c => (callSections c).link sectionText from funext callText_eq]

/-- Every section has an outline. -/
theorem implements_sectionText : sharing.Implements sectionText Outside where
  stable _ _ hu _ _ _ _ _ _ hg h := outside_other h hu hg
  outline t o := by
    have hstart : ∀ w g (a : Option (sections.Res o)), sharing.Inv w g →
        a = none ∧ Outside t w g → Waits t .null [] none w g a :=
      fun w g a _ h => ⟨h.1, h.2, trivial⟩
    refine Protocol.Outline.weaken (A := Waits t .null [] none) ?_ hstart
    cases o with
    | call c =>
        obtain ⟨call, hlocks⟩ := c
        cases call with
        | read filp count => exact outline_aesdRead.bind fun q => fun _ _ _ _ h => h
        | write filp buf => exact outline_aesdWrite.bind fun r => fun _ _ _ _ h => h
        | llseek filp offset whence => exact outline_aesdLlseek.bind fun r => fun _ _ _ _ h => h
        | «open» filp => cases hlocks
        | release filp => cases hlocks
        | ioctl filp cmd arg => cases hlocks
    | outOffs => exact outline_outOffs
    | slotSize i => exact outline_slotSize
    | strayLoad index => exact outline_strayLoad
    | copySeekto arg => exact outline_copySeekto
    | seek filp trav index offset => exact outline_seek

/-- A state that stands for a log, before any call. -/
theorem Stands.shared (h : Stands w l) : Shared w ⟨l, fun _ => none⟩ where
  stands _ := h
  tells := h.tells
  spares _ _ _ := rfl
  live _ hb := absurd rfl hb

/-- Coupled pools match. -/
theorem matches_of_coupled (h : sharing.Coupled sectionText Outside p p' g) : Matches p p' where
  stands hfree := h.view ▸ h.inv.stands hfree
  along t := by
    rcases h.tracks t with ⟨-, hp⟩ | ⟨o, k, q, A, a, -, -, -, hruns, hp, hq⟩
    · exact .inl hp
    · refine .inr ⟨o, k, q, hruns, hp, ?_⟩
      cases a with
      | none => exact .inl hq
      | some r => exact .inr ⟨r, hq⟩
  returned t a ht := h.returned implements_sectionText ht

/-- What has been run from a state that stands for a log is coupled to a run over the log. -/
theorem Stands.coupled (h : Stands w l) (hrun : Steps (driverMachine clients)
      ((driverMachine clients).init w) τ q) (hτ : ∀ a ∈ τ, Permitted a.task a.event a.before) :
    ∃ τ' q' g, Steps (logMachine clients) ((logMachine clients).init l) τ' q' ∧
      sight sectionError τ' = sight serviceError τ ∧ sharing.Coupled sectionText Outside q q' g := by
  have hidle : ∀ t, Outside t w ⟨l, fun _ => none⟩ := fun t => by
    rw [Outside, h.represents.unlocked]
    simp
  rw [driverMachine_eq] at hrun
  exact (Protocol.coupled_init h.shared hidle).refines implements_sectionText hrun hτ

/-- **Concurrent calls are atomic.** Whatever any clients do over the code of the driver, one kernel
service at a time, the same clients do over the log, with each `read`, `write` and `llseek` at once
and a seek request section by section, and with the same replies; and what has happened before a
moment of the run has happened before its counterpart. The sections that fail for want of a service
are those in which one has failed, one for one, in the same order and with its error number. While
nobody holds the mutex the device is what the log says. -/
theorem calls_linearizable (h : Stands w l)
    (h₁ : Steps (driverMachine clients) ((driverMachine clients).init w) τ m)
    (h₂ : Steps (driverMachine clients) m υ q)
    (hpermitted : ∀ a ∈ τ ++ υ, Permitted a.task a.event a.before) :
    ∃ τ' m' υ' q', Steps (logMachine clients) ((logMachine clients).init l) τ' m' ∧
      sight sectionError τ' = sight serviceError τ ∧ Matches m m' ∧
      Steps (logMachine clients) m' υ' q' ∧
      sight sectionError υ' = sight serviceError υ ∧ Matches q q' := by
  obtain ⟨τ', m', g, hlog₁, hsight₁, hm⟩ := h.coupled h₁ fun a ha =>
    hpermitted a (List.mem_append_left _ ha)
  rw [driverMachine_eq] at h₂
  obtain ⟨υ', q', g', hlog₂, hsight₂, hq⟩ := hm.refines implements_sectionText h₂ fun a ha =>
    hpermitted a (List.mem_append_right _ ha)
  exact ⟨τ', m', υ', q', hlog₁, hsight₁, matches_of_coupled hm, hlog₂, hsight₂,
    matches_of_coupled hq⟩

/-- The first seeker takes the mutex while the writer fills its bounce buffer, and the second one has
read `out_offs` before the line is there. The third one is interrupted. -/
theorem calls_linearizable_writer_and_seekers :
    ∃ m q, play ([0, 1, 2, 0, 2, 1, 1, 0, 2, 1, 2].map Env.calm) writerAndSeekersInit = some m ∧
      play (([0, 0, 0, 0, 0, 0, 0, 0, 0, 0, 0, 2, 2, 2, 2].map Env.calm) ++
        [{ Env.calm 3 with lockOk := false }]) m = some q ∧
        ∃ τ' m' υ' q', Steps (logMachine writerAndSeekers)
            ((logMachine writerAndSeekers).init Log.init) τ' m' ∧
          sight sectionError τ' = [] ∧ Matches m m' ∧
          Steps (logMachine writerAndSeekers) m' υ' q' ∧
          sight sectionError υ' = [(3, -erestartsys)] ∧ Matches q q' := by
  set first := [0, 1, 2, 0, 2, 1, 1, 0, 2, 1, 2].map Env.calm with hfirst
  set second := ([0, 0, 0, 0, 0, 0, 0, 0, 0, 0, 0, 2, 2, 2, 2].map Env.calm) ++
    [{ Env.calm 3 with lockOk := false }] with hsecond
  have hplay : ((play first writerAndSeekersInit).bind fun m => (play second m).map fun _ =>
      (playErrors first writerAndSeekersInit, playErrors second m)) =
        some ([], [(3, -erestartsys)]) := by
    decide +kernel
  obtain ⟨m, hm, hq⟩ := Option.bind_eq_some_iff.mp hplay
  obtain ⟨q, hq, herrors⟩ := Option.map_eq_some_iff.mp hq
  obtain ⟨hnone, hthird⟩ := Prod.mk.inj herrors
  obtain ⟨τ, h₁, hτ, herrors₁⟩ := steps_of_play hm
  obtain ⟨υ, h₂, hυ, herrors₂⟩ := steps_of_play hq
  obtain ⟨τ', m', υ', q', hτ', hsight₁, hm', hυ', hsight₂, hq'⟩ :=
    calls_linearizable stands_init h₁ h₂ fun a ha => (List.mem_append.mp ha).elim (hτ a) (hυ a)
  exact ⟨m, q, hm, hq, τ', m', υ', q', hτ', hsight₁.trans (herrors₁.trans hnone), hm', hυ',
    hsight₂.trans (herrors₂.trans hthird), hq'⟩

/-- **No call faults**, however the others interfere: no service is asked to access memory that is
not live, and no call waits for the mutex it holds itself. -/
theorem calls_never_fault (h : Stands w l)
    (hrun : Steps (driverMachine clients) ((driverMachine clients).init w) τ q)
    (hpermitted : ∀ a ∈ τ, Permitted a.task a.event a.before) {t : ℕ} {o : KernelOp}
    {k : KernelRes o → Driver α} (ht : (q.task t).prog = .call o k) : ¬Faults t o q.shared := by
  obtain ⟨τ', q', g, -, -, hq⟩ := h.coupled hrun hpermitted
  exact hq.not_faults implements_sectionText ht

/-- The writer is about to copy the line out of its bounce buffer. -/
theorem calls_never_fault_memcpy :
    ∃ q k, play (([0, 1, 0, 1, 1, 0, 1] ++ List.replicate 5 0).map Env.calm) writerAndSeekersInit =
        some q ∧ (q.task 0).prog = .call (.memcpy (.block 1) 0 (.block 0) 1) k ∧
      ¬Faults 0 (.memcpy (.block 1) 0 (.block 0) 1) q.shared := by
  obtain ⟨q, hq, hop⟩ := Option.map_eq_some_iff.mp (show ((play (([0, 1, 0, 1, 1, 0, 1] ++
      List.replicate 5 0).map Env.calm) writerAndSeekersInit).map fun q =>
        match (q.task 0).prog with
        | .call o _ => some o
        | _ => none) = some (some (.memcpy (.block 1) 0 (.block 0) 1)) from rfl)
  obtain ⟨τ, hrun, hτ, -⟩ := steps_of_play hq
  split at hop
  · next o k hprog =>
    obtain rfl := Option.some.inj hop
    exact ⟨q, k, hq, hprog, calls_never_fault stands_init hrun hτ hprog⟩
  · cases hop

end Implements

/-! ### Nothing is lost -/

section Stream

/-- What a section has fed to the stream. -/
def fed : Event sections → List UInt8
  | ⟨.call c, r⟩ => if r.Failed then [] else firstLine isNewline c.val.data
  | _ => []

variable {l l' : Log} {clients : ℕ → Prog lockedCalls α} {q : Pool sections Log α}
  {τ : List (Act sections Log)} {c : {c : Call // c.locksFirst = true}} {o : sections.Op} {r : Reply}

theorem Reply.Refused.failed (h : r.Refused) : r.Failed := by
  rcases h with h | h | h <;> rw [Reply.Failed, h] <;> decide

theorem fed_of_failed (hr : r.Failed) : fed ⟨.call c, r⟩ = [] := if_pos hr

/-- Only writes feed anything. -/
theorem fed_of_not_write {r : sections.Res o} (ho : ∀ filp buf, o ≠ writeSection filp buf) :
    fed ⟨o, r⟩ = [] := by
  cases o with
  | call c =>
      obtain ⟨call, hlocks⟩ := c
      have hdata : call.data = [] := by
        refine Call.data_eq_nil ?_
        rintro filp buf rfl
        exact ho filp buf rfl
      rw [fed]
      split
      · rfl
      · exact congrArg (firstLine isNewline) hdata
  | _ => rfl

/-- A call that is not served leaves the log alone. -/
theorem Log.Answers.call_cases (h : Log.Answers (.call c) l r l') :
    l.apply ⟨c.val, .calm 0⟩ = .ok (some (r, l')) ∨ r.Failed ∧ l' = l := by
  rcases h with h | ⟨⟨hr, -⟩ | ⟨-, rfl⟩, hl⟩
  · exact .inl h
  · exact .inr ⟨hr.failed, hl⟩
  · exact .inr ⟨by decide, hl⟩

/-- The step lemma: a call feeds the first line of what it writes, unless it fails. -/
theorem Log.Answers.stream {r : sections.Res o} (h : Log.Answers o l r l') :
    l'.stream = l.stream ++ fed ⟨o, r⟩ := by
  cases o with
  | call c =>
      rcases h.call_cases with hserve | ⟨hr, rfl⟩
      · rw [(Log.apply_effect hserve).1]
        by_cases hr : Reply.Failed r
        · -- a call that succeeds and returns an error number is no write
          have hne : ∀ filp buf, c.val ≠ .write filp buf := by
            intro filp buf hc
            rw [hc] at hserve
            have hwrite : l.write (.calm 0) buf = some (r, l') := Except.ok.inj hserve
            rw [Log.write] at hwrite
            split at hwrite
            · cases hwrite
            · cases hwrite
              exact absurd hr (not_lt.mpr (Int.natCast_nonneg _))
          rw [fed_of_failed hr, Call.data_eq_nil hne]
          rfl
        · rw [fed, if_neg hr]
      · rw [fed_of_failed hr, List.append_nil]
  | seek filp trav index offset =>
      rw [fed_of_not_write (by simp), List.append_nil]
      rcases h with ⟨slot, -, -, rfl⟩ | ⟨-, rfl⟩ <;> rfl
  | strayLoad index =>
      obtain rfl := h
      exact (List.append_nil _).symm
  | _ =>
      obtain ⟨-, rfl⟩ := h
      exact (List.append_nil _).symm

/-- The run lemma: the stream is what has been fed to it, in the order of the calls. -/
theorem stream_of_steps (h : Steps (logMachine clients) ((logMachine clients).init l) τ q) :
    q.shared.stream = l.stream ++ (τ.map fun a => fed a.event).flatten := by
  generalize hp : (logMachine clients).init l = p at h
  induction h with
  | refl =>
      subst hp
      simp
  | @act q τ u c k r l' _ _ hr ih =>
      rw [List.map_append, List.flatten_append, ← List.append_assoc, ← ih, List.map_singleton,
        List.flatten_singleton]
      exact Log.Answers.stream hr
  | loop _ _ _ ih => exact ih

end Stream

section Outcome

variable {w : World} {l : Log} {clients : ℕ → Prog lockedCalls α} {q : Pool kernel World α}
  {q' : Pool sections Log α} {τ : List (Act kernel World)} {τ' : List (Act sections Log)}

/-- In this order of sections each client has made those of its own calls, as far as it has come. -/
def IsOrder (clients : ℕ → Prog lockedCalls α) (q : Pool kernel World α)
    (order : List (ℕ × Event sections)) : Prop :=
  ∀ t, ∃ rest, Runs ((clients t).link callSections)
    ((order.filter fun a => a.1 = t).map Prod.snd) rest ∧
    Along (q.task t).prog rest ∧ ∀ a, (q.task t).prog = .pure a → rest = .pure a

/-- The order of the sections over the log. -/
theorem Matches.isOrder (h : Matches q q')
    (hlog : Steps (logMachine clients) ((logMachine clients).init l) τ' q') :
    IsOrder clients q (τ'.map fun a => (a.task, a.event)) := by
  intro t
  have hhist := hlog.hist_eq (t := t)
  have hruns := hlog.runs (t := t)
  rw [hhist] at hruns
  refine ⟨(q'.task t).prog, ?_, h.along t, h.returned t⟩
  rw [List.filter_map, List.map_map]
  exact hruns

/-- **No write is lost, doubled or torn.** When nobody holds the mutex there is an order of calls, and
of the sections of seek requests, in which each client has made its own, and the device holds the
lines of the stream that the writes which did not fail have fed in this order. -/
theorem concurrent_writes_accounted (h : Stands w l)
    (hrun : Steps (driverMachine clients) ((driverMachine clients).init w) τ q)
    (hpermitted : ∀ a ∈ τ, Permitted a.task a.event a.before) (hfree : q.shared.dev.lock = none) :
    ∃ order, IsOrder clients q order ∧
      Represents q.shared (l.stream ++ (order.map fun a => fed a.2).flatten) := by
  obtain ⟨τ', q', g, hlog, -, hq⟩ := h.coupled hrun hpermitted
  have hmatch := matches_of_coupled hq
  refine ⟨_, hmatch.isOrder hlog, ?_⟩
  rw [List.map_map]
  exact stream_of_steps hlog ▸ (hmatch.stands hfree).represents

/-- The writer and the first seeker have returned, and the others have not begun. -/
theorem concurrent_writes_accounted_writer : ∃ q order,
    play (([0, 1, 0, 1, 1, 0, 1] ++ List.replicate 11 0).map Env.calm) writerAndSeekersInit =
        some q ∧ IsOrder writerAndSeekers q order ∧
      Represents q.shared ([] ++ (order.map fun a => fed a.2).flatten) := by
  obtain ⟨q, hq, hfree⟩ := Option.map_eq_some_iff.mp (show ((play (([0, 1, 0, 1, 1, 0, 1] ++
    List.replicate 11 0).map Env.calm) writerAndSeekersInit).map fun q => q.shared.dev.lock) =
      some none from rfl)
  obtain ⟨τ, hrun, hτ, -⟩ := steps_of_play hq
  obtain ⟨order, horder⟩ := concurrent_writes_accounted stands_init hrun hτ hfree
  exact ⟨q, order, hq, horder⟩

end Outcome

end Aesd.CharDriver

import Aesd.Server.ProcessSteps
import Aesd.Server.ProcessRuns

/-! # The threads of the process

What has been shown of main and its threads starts at the initialisation of the list, and lets the
tests of `terminate_program` and the reads of `server_fd` return anything. The whole program refines
this: the steps of its threads, without the start-up and the signal handlers, are a run of the
server. -/

namespace Aesd.Server

open Effects CLib

/-- The threads know nothing of the operation. -/
def ProcessOp.isOutside : ProcessOp → Bool
  | .thread o => o.isOutside
  | .listInit => false
  | _ => true

/-- The step of the threads that an act is, unless they know nothing of it. -/
def threadMove (a : Act process Process) : Option (ℕ × Event threads × Threads × Threads) :=
  match a.event with
  | ⟨.thread o, r⟩ =>
      if o.isOutside then none else some (a.task / 2, ⟨o, r⟩, a.before.threads, a.after.threads)
  | _ => none

/-- A step of the server, unless the threads know nothing of it. -/
def serverMove (a : Act threads Threads) : Option (ℕ × Event threads × Threads × Threads) :=
  if a.event.op.isOutside then none else some (a.task, a.event, a.before, a.after)

/-! ### What a step does to the threads -/

section Steps

variable {s s' : Process} {t : ℕ}

theorem Process.threads_of_answer {o : ThreadOp} {r : ThreadRes o}
    (h : s.answer t (.thread o) r = some s') : s.threads.answer (t / 2) o r = some s'.threads := by
  obtain ⟨-, h⟩ := Option.ite_none_left_eq_some.mp h
  obtain ⟨s₁, threads, -, hthreads, rfl⟩ := Process.effect_thread h
  exact hthreads

/-- An operation of which the threads know nothing leaves them as they are. -/
theorem Process.threads_of_isOutside {o : ProcessOp} {r : ProcessRes o} (ho : o.isOutside = true)
    (h : s.answer t o r = some s') : s'.threads = s.threads := by
  rw [Process.answer, Option.ite_none_left_eq_some] at h
  obtain ⟨-, h⟩ := h
  split at h
  · cases h
    rfl
  cases o with
  | thread o =>
      obtain ⟨s₁, threads, hs₁, hthreads, rfl⟩ := Process.effect_thread h
      exact Threads.answer_of_isOutside ho hthreads
  | listInit => cases ho
  | socket | openNull => rw [Process.opens_rest h]
  | caught | setsockopt | bind | listen =>
      obtain ⟨-, h⟩ := Option.ite_none_right_eq_some.mp h
      cases h
      rfl
  | getaddrinfo =>
      cases h
      split <;> rfl
  | _ =>
      cases h
      rfl

theorem threadMove_of_isOutside {a : Act process Process} (h : a.event.op.isOutside = true) :
    threadMove a = none := by
  obtain ⟨t, hist, ⟨o, r⟩, before, after⟩ := a
  cases o with
  | thread o => exact if_pos h
  | _ => rfl

end Steps

/-! ### Texts of which the threads know nothing -/

section Texts

/-- A text of the threads as a text of the process begins with the same operation. -/
theorem thread_eq_call {α β : Type} {p : ThreadText α} {f : α → ProcessText β} {o : ProcessOp}
    {k : ProcessRes o → ProcessText β} (h : (thread p).bind f = Prog.call (E := process) o k)
    (hf : ∀ a, f a ≠ Prog.call (E := process) o k) : ∃ o' k', p = Prog.call (E := threads) o' k' ∧
      Prog.call (E := process) (.thread o') (fun r => (thread (k' r)).bind f) =
        Prog.call (E := process) o k := by
  cases p with
  | pure a => exact absurd h (hf a)
  | call o' k' => exact ⟨o', k', rfl, h⟩
  | loop body s k' => cases h

/-- A text of the threads as a text of the process enters the same loop. -/
theorem thread_eq_loop {α β σ γ : Type} {p : ThreadText α} {f : α → ProcessText β}
    {body : σ → ProcessText (σ ⊕ γ)} {i : σ} {k : γ → ProcessText β}
    (h : (thread p).bind f = Prog.loop (E := process) body i k)
    (hf : ∀ a, f a ≠ Prog.loop (E := process) body i k) :
    ∃ (σ' γ' : Type) (body' : σ' → ThreadText (σ' ⊕ γ')) (i' : σ') (k' : γ' → ThreadText α),
      p = .loop body' i' k' ∧ (thread (Prog.unfold body' i' k')).bind f = Prog.unfold body i k := by
  cases p with
  | pure a => exact absurd h (hf a)
  | call o' k' => cases h
  | loop body' i' k' =>
      cases h
      refine ⟨_, _, body', i, k', rfl, ?_⟩
      rw [thread, link_unfold, Prog.unfold_bind]

theorem uses_signalHandler : Uses (E := process) (fun o => o.isOutside = true) signalHandler := by
  simp only [signalHandler, caught, thread_syslogInfo, setTerminate, readServerFd_eq, closeFd_eq,
    storeServerFd, Prog.bind_eq, Prog.call_bind, Prog.pure_bind]
  refine ⟨rfl, fun _ => ⟨rfl, fun _ => ⟨rfl, fun _ => ⟨rfl, fun _ => Uses.ite ?_ trivial⟩⟩⟩⟩
  exact ⟨rfl, fun _ => ⟨rfl, fun _ => ⟨rfl, fun _ => trivial⟩⟩⟩

/-- An operation of the start-up. -/
def ProcessOp.isEarly (o : ProcessOp) : Prop := o.isOutside = true ∨ o = .listInit

theorem uses_startListening : Uses (E := process) ProcessOp.isEarly startListening := by
  simp only [startListening, readServerFd_eq, listen, report_eq, closeFd_eq, listInit, Prog.bind_eq,
    Prog.call_bind, Prog.pure_bind, Prog.pure_eq]
  refine ⟨.inl rfl, fun _ => ⟨.inl rfl, fun _ => Uses.ite ?_ ⟨.inr rfl, fun _ => trivial⟩⟩⟩
  exact ⟨.inl rfl, fun _ => ⟨.inl rfl, fun _ => ⟨.inl rfl, fun _ => trivial⟩⟩⟩

theorem uses_daemonize : Uses (E := process) ProcessOp.isEarly daemonize := by
  have hexit : ∀ message status, Uses (E := process) ProcessOp.isEarly
      ((report message).bind fun _ => exitProcess status) :=
    fun _ _ => ⟨.inl rfl, fun _ => ⟨.inl rfl, fun r => r.elim⟩⟩
  simp only [daemonize, fork, setsid, chdir, closeFd_eq, openNull, Prog.bind_eq, Prog.call_bind,
    Prog.pure_bind, Prog.pure_eq]
  refine ⟨.inl rfl, fun _ => Uses.ite (hexit _ _) (Uses.ite ⟨.inl rfl, fun r => r.elim⟩ ?_)⟩
  refine ⟨.inl rfl, fun _ => Uses.ite (hexit _ _) ⟨.inl rfl, fun _ => Uses.ite (hexit _ _) ?_⟩⟩
  refine ⟨.inl rfl, fun _ => ⟨.inl rfl, fun _ => ⟨.inl rfl, fun _ => ⟨.inl rfl, fun _ => ?_⟩⟩⟩⟩
  exact ⟨.inl rfl, fun _ => ⟨.inl rfl, fun _ => trivial⟩⟩

theorem uses_giveUp (message : String) :
    Uses (E := process) ProcessOp.isEarly (giveUp message) := by
  simp only [giveUp, report_eq, readServerFd_eq, closeFd_eq, freeaddrinfo, Prog.bind_eq,
    Prog.call_bind, Prog.pure_bind, Prog.pure_eq]
  refine ⟨.inl rfl, fun _ => ⟨.inl rfl, fun _ => ⟨.inl rfl, fun _ => ?_⟩⟩⟩
  exact ⟨.inl rfl, fun _ => trivial⟩

theorem uses_prepareSocket (daemon : Bool) :
    Uses (E := process) ProcessOp.isEarly (prepareSocket daemon) := by
  simp only [prepareSocket, report_eq, readServerFd_eq, setsockopt, bindSocket, freeaddrinfo,
    Prog.bind_eq, Prog.call_bind, Prog.pure_bind, Prog.pure_eq]
  refine ⟨.inl rfl, fun _ => Uses.ite ⟨.inl rfl, fun _ => ⟨.inl rfl, fun _ => trivial⟩⟩ ?_⟩
  refine ⟨.inl rfl, fun _ => ⟨.inl rfl, fun _ => Uses.ite (uses_giveUp _) ?_⟩⟩
  refine ⟨.inl rfl, fun _ => ⟨.inl rfl, fun _ => Uses.ite (uses_giveUp _) ?_⟩⟩
  refine ⟨.inl rfl, fun _ => ?_⟩
  cases daemon with
  | false => exact uses_startListening
  | true => exact uses_daemonize.bind fun _ => uses_startListening

/-- The threads know nothing of the operations of the start-up, but the initialisation of the
list. -/
theorem uses_startUp (argv : List String) :
    Uses (E := process) ProcessOp.isEarly (startUp argv) := by
  simp only [startUp, sigaction, openlog, getaddrinfo, report_eq, socket, storeServerFd,
    Prog.bind_eq, Prog.call_bind, Prog.pure_bind, Prog.pure_eq]
  refine ⟨.inl rfl, fun _ => ⟨.inl rfl, fun _ => ⟨.inl rfl, fun _ => ⟨.inl rfl, fun _ => ?_⟩⟩⟩⟩
  refine Uses.ite ⟨.inl rfl, fun _ => trivial⟩ ?_
  exact ⟨.inl rfl, fun _ => ⟨.inl rfl, fun _ => uses_prepareSocket _⟩⟩

end Texts

/-! ### The refinement -/

section Refinement

variable {argv : List String} {buffers : ℕ → Buffer} {inherited : ℕ → Bool}
  {q : Pool process Process (Option ℤ)} {q' : Pool threads Threads Unit}
  {τ : List (Act process Process)} {t u : ℕ}

/-- The server before its first step. -/
abbrev lifecycleInit (buffers : ℕ → Buffer) : Pool threads Threads Unit :=
  (lifecycle buffers).init Threads.init

/-- What main has to do after its start-up. -/
def afterStartUp : Option ℤ → ProcessText (Option ℤ)
  | some status => .pure (some status)
  | none => (thread mainThread).bind fun _ => .pure (some 0)

/-- Main has not come to its loop, or it goes on as a thread. -/
def MainEmbeds (buffers : ℕ → Buffer) (q : Pool process Process (Option ℤ))
    (q' : Pool threads Threads Unit) : Prop :=
  (q' = lifecycleInit buffers ∧ ∃ p : ProcessText (Option ℤ),
    Uses (E := process) ProcessOp.isEarly p ∧ (q.task 0).prog = p.bind afterStartUp) ∨
    (q.task 0).prog = (thread (q'.task 0).prog).bind fun _ => .pure (some 0)

/-- The threads of the program stand where those of the server stand. -/
structure Embeds (buffers : ℕ → Buffer) (q : Pool process Process (Option ℤ))
    (q' : Pool threads Threads Unit) : Prop where
  /-- What they share. -/
  shared : q'.shared = q.shared.threads
  /-- Main. -/
  main : MainEmbeds buffers q q'
  /-- The handlers of the connections. -/
  clients : ∀ t, (q.task (2 * (t + 1))).prog =
    (thread (q'.task (t + 1)).prog).bind fun _ => .pure none
  /-- The signal handlers. -/
  signals : ∀ t, Uses (E := process) (fun o => o.isOutside = true) (q.task (2 * t + 1)).prog

/-- Before the first step. -/
theorem embeds_init : Embeds buffers (aesdsocketInit argv buffers inherited)
    (lifecycleInit buffers) where
  shared := rfl
  main := by
    refine .inl ⟨rfl, startUp argv, uses_startUp argv, ?_⟩
    show (main argv).bind _ = _
    rw [main, Prog.bind_eq, Prog.bind_assoc]
    congr 1
    funext r
    cases r with
    | some status => rfl
    | none => exact Prog.bind_assoc (thread mainThread) (fun _ => .pure (0 : ℤ)) _
  clients t := by
    have ht : (2 * t + 1) / 2 = t := by omega
    show (if (2 * t + 1) % 2 = 0 then _
      else (thread (handlerThread (buffers ((2 * t + 1) / 2)))).bind fun _ => .pure none) = _
    rw [if_neg (by omega), ht]
    rfl
  signals t := by
    show Uses _ (if (2 * t) % 2 = 0 then _ else _)
    rw [if_pos (by omega)]
    exact uses_signalHandler.bind fun _ => trivial

/-- A step of a signal handler. -/
theorem Embeds.signal (h : Embeds buffers q q') {p : ProcessText (Option ℤ)}
    (hp : Uses (E := process) (fun o => o.isOutside = true) p) {s' : Process}
    {hist : List (Event process)} (hs' : s'.threads = q.shared.threads) :
    Embeds buffers (Pool.setTask { q with shared := s' } (2 * t + 1) ⟨hist, p⟩) q' where
  shared := h.shared.trans hs'.symm
  main := by
    rw [MainEmbeds, Pool.setTask_task_of_ne (by omega)]
    exact h.main
  clients v := by
    rw [Pool.setTask_task_of_ne (by omega)]
    exact h.clients v
  signals v := by
    by_cases hv : v = t
    · rw [hv, Pool.setTask_task_self]
      exact hp
    · rw [Pool.setTask_task_of_ne (by omega)]
      exact h.signals v

/-- A step of the start-up. -/
theorem Embeds.early (h : Embeds buffers q (lifecycleInit buffers)) {p : ProcessText (Option ℤ)}
    (hp : Uses (E := process) ProcessOp.isEarly p) {s' : Process} {hist : List (Event process)}
    (hs' : s'.threads = Threads.init) :
    Embeds buffers (Pool.setTask { q with shared := s' } 0 ⟨hist, p.bind afterStartUp⟩)
      (lifecycleInit buffers) where
  shared := hs'.symm
  main := .inl ⟨rfl, p, hp, by rw [Pool.setTask_task_self]⟩
  clients v := by
    rw [Pool.setTask_task_of_ne (by omega)]
    exact h.clients v
  signals v := by
    rw [Pool.setTask_task_of_ne (by omega)]
    exact h.signals v

/-- A step of main as a thread. -/
theorem Embeds.main_thread (h : Embeds buffers q q') {p : ThreadText Unit} {s' : Process}
    {hist : List (Event process)} {hist' : List (Event threads)} :
    Embeds buffers
      (Pool.setTask { q with shared := s' } 0 ⟨hist, (thread p).bind fun _ => .pure (some 0)⟩)
      (Pool.setTask { q' with shared := s'.threads } 0 ⟨hist', p⟩) where
  shared := rfl
  main := .inr (by rw [Pool.setTask_task_self, Pool.setTask_task_self])
  clients v := by
    rw [Pool.setTask_task_of_ne (by omega), Pool.setTask_task_of_ne (by omega)]
    exact h.clients v
  signals v := by
    rw [Pool.setTask_task_of_ne (by omega)]
    exact h.signals v

/-- A step of a handler of a connection. -/
theorem Embeds.client (h : Embeds buffers q q') (hmain : (q.task 0).prog =
      (thread (q'.task 0).prog).bind fun _ => .pure (some 0)) {p : ThreadText Unit} {s' : Process}
    {hist : List (Event process)} {hist' : List (Event threads)} :
    Embeds buffers
      (Pool.setTask { q with shared := s' } (2 * (t + 1))
        ⟨hist, (thread p).bind fun _ => .pure none⟩)
      (Pool.setTask { q' with shared := s'.threads } (t + 1) ⟨hist', p⟩) where
  shared := rfl
  main := .inr (by
    rw [Pool.setTask_task_of_ne (by omega), Pool.setTask_task_of_ne (by omega)]
    exact hmain)
  clients v := by
    by_cases hv : v = t
    · rw [hv, Pool.setTask_task_self, Pool.setTask_task_self]
    · rw [Pool.setTask_task_of_ne (by omega), Pool.setTask_task_of_ne (by omega)]
      exact h.clients v
  signals v := by
    rw [Pool.setTask_task_of_ne (by omega)]
    exact h.signals v

/-- The server takes the steps that an act of the program is, none if its threads know nothing of
it. -/
def Matches (buffers : ℕ → Buffer) (q' : Pool threads Threads Unit)
    (α : List (Act process Process)) (q₁ : Pool process Process (Option ℤ)) : Prop :=
  ∃ υ q₁', Steps (lifecycle buffers) q' υ q₁' ∧ υ.filterMap serverMove = α.filterMap threadMove ∧
    Embeds buffers q₁ q₁'

theorem matches_nil {q₁ : Pool process Process (Option ℤ)} {α : List (Act process Process)}
    (hα : α.filterMap threadMove = []) (h : Embeds buffers q₁ q') : Matches buffers q' α q₁ :=
  ⟨[], q', .refl q', hα.symm, h⟩

theorem filterMap_threadMove {a : Act process Process} (h : a.event.op.isOutside = true) :
    [a].filterMap threadMove = [] :=
  List.filterMap_cons_none (threadMove_of_isOutside h)

/-- A thread of the program takes a step. -/
theorem Embeds.thread_act (h : Embeds buffers q q') {p : ThreadText Unit}
    {f : Unit → ProcessText (Option ℤ)} {o : ProcessOp} {k : ProcessRes o → ProcessText (Option ℤ)}
    {r : ProcessRes o} {s' : Process} {hist : List (Event process)}
    (hp : (q'.task (u / 2)).prog = p) (hprog : (thread p).bind f = Prog.call (E := process) o k)
    (hf : ∀ a, f a ≠ Prog.call (E := process) o k) (hans : q.shared.answer u o r = some s') :
    ∃ υ p' hist', Steps (lifecycle buffers) q' υ
        (Pool.setTask { q' with shared := s'.threads } (u / 2) ⟨hist', p'⟩) ∧
      υ.filterMap serverMove = [⟨u, hist, ⟨o, r⟩, q.shared, s'⟩].filterMap threadMove ∧
      k r = (thread p').bind f := by
  obtain ⟨o', k', rfl, hcall⟩ := thread_eq_call hprog hf
  cases hcall
  have hans' : (lifecycle buffers).answers (u / 2) (q'.task (u / 2)).hist o' q'.shared r
      s'.threads := by
    rw [h.shared]
    exact Process.threads_of_answer hans
  refine ⟨_, k' r, _, Steps.act (u / 2) (.refl q') hp hans', ?_, rfl⟩
  rw [h.shared]
  rfl

section Act

variable {o : ProcessOp} {k : ProcessRes o → ProcessText (Option ℤ)} {r : ProcessRes o}
  {s' : Process} {hist hist' : List (Event process)}

/-- A step of main. -/
theorem Embeds.act_main (h : Embeds buffers q q')
    (hprog : (q.task 0).prog = Prog.call (E := process) o k)
    (hans : q.shared.answer 0 o r = some s') :
    Matches buffers q' [⟨0, hist', ⟨o, r⟩, q.shared, s'⟩]
      (Pool.setTask { q with shared := s' } 0 ⟨hist, k r⟩) := by
  rcases h.main with ⟨rfl, p, hp, hmain⟩ | hmain
  · -- main has not come to its loop
    rcases bind_eq_call (hmain.symm.trans hprog) with ⟨a, rfl, ha⟩ | ⟨k', rfl, rfl⟩
    · cases a <;> cases ha
    have hinit : q.shared.threads = Threads.init := h.shared.symm
    rcases hp.1 with ho | rfl
    · exact matches_nil (filterMap_threadMove ho)
        (h.early (hp.2 r) ((Process.threads_of_isOutside ho hans).trans hinit))
    · obtain ⟨-, heffect⟩ := Option.ite_none_left_eq_some.mp hans
      cases heffect
      exact matches_nil rfl (h.early (hp.2 r) (by rw [hinit]; rfl))
  · obtain ⟨υ, p', hist₁, hυ, hmoves, hk⟩ := h.thread_act (u := 0) rfl (hmain.symm.trans hprog)
      (fun _ hno => by cases hno) hans
    refine ⟨υ, _, hυ, hmoves, ?_⟩
    rw [hk]
    exact h.main_thread

/-- A step of a handler of a connection. -/
theorem Embeds.act_client (h : Embeds buffers q q')
    (hprog : (q.task (2 * (t + 1))).prog = Prog.call (E := process) o k)
    (hans : q.shared.answer (2 * (t + 1)) o r = some s') :
    Matches buffers q' [⟨2 * (t + 1), hist', ⟨o, r⟩, q.shared, s'⟩]
      (Pool.setTask { q with shared := s' } (2 * (t + 1)) ⟨hist, k r⟩) := by
  have ht : 2 * (t + 1) / 2 = t + 1 := by omega
  rcases h.main with ⟨rfl, -⟩ | hmain
  · -- no handler begins before main has come to its loop
    obtain ⟨o', k', hp, hcall⟩ := thread_eq_call ((h.clients t).symm.trans hprog)
      fun _ hno => by cases hno
    replace hp : handlerThread (buffers t) = Prog.call (E := threads) o' k' := hp
    rw [handlerThread, Prog.bind_eq, start, Prog.call_bind] at hp
    cases hp
    cases hcall
    have hans' := Process.threads_of_answer hans
    rw [← h.shared] at hans'
    cases hans'
  · obtain ⟨υ, p', hist₁, hυ, hmoves, hk⟩ := h.thread_act (u := 2 * (t + 1)) rfl
      (by rw [ht]; exact (h.clients t).symm.trans hprog) (fun _ hno => by cases hno) hans
    refine ⟨υ, _, hυ, hmoves, ?_⟩
    rw [hk, ht]
    exact h.client hmain

/-- **The step lemma.** -/
theorem Embeds.act (h : Embeds buffers q q')
    (hprog : (q.task u).prog = Prog.call (E := process) o k)
    (hans : q.shared.answer u o r = some s') :
    Matches buffers q' [⟨u, hist', ⟨o, r⟩, q.shared, s'⟩]
      (Pool.setTask { q with shared := s' } u ⟨hist, k r⟩) := by
  by_cases hodd : u % 2 = 1
  · obtain ⟨t, rfl⟩ : ∃ t, u = 2 * t + 1 := ⟨u / 2, by omega⟩
    have huses := h.signals t
    rw [hprog] at huses
    exact matches_nil (filterMap_threadMove huses.1)
      (h.signal (huses.2 r) (Process.threads_of_isOutside huses.1 hans))
  by_cases hu : u = 0
  · subst hu
    exact h.act_main hprog hans
  · obtain ⟨t, rfl⟩ : ∃ t, u = 2 * (t + 1) := ⟨u / 2 - 1, by omega⟩
    exact h.act_client hprog hans

end Act

section Loop

variable {σ γ : Type} {body : σ → ProcessText (σ ⊕ γ)} {i : σ} {k : γ → ProcessText (Option ℤ)}
  {hist : List (Event process)}

/-- A thread of the program enters a loop. -/
theorem steps_thread_loop {p : ThreadText Unit} {f : Unit → ProcessText (Option ℤ)}
    (buffers : ℕ → Buffer) (q' : Pool threads Threads Unit) (hp : (q'.task t).prog = p)
    (hprog : (thread p).bind f = Prog.loop (E := process) body i k)
    (hf : ∀ a, f a ≠ Prog.loop (E := process) body i k) :
    ∃ p' hist', Steps (lifecycle buffers) q' [] (q'.setTask t ⟨hist', p'⟩) ∧
      Prog.unfold body i k = (thread p').bind f := by
  obtain ⟨_, _, body', i', k', rfl, hloop⟩ := thread_eq_loop hprog hf
  exact ⟨_, _, Steps.loop t (.refl q') hp, hloop.symm⟩

/-- Main enters a loop. -/
theorem Embeds.loop_main (h : Embeds buffers q q')
    (hprog : (q.task 0).prog = Prog.loop (E := process) body i k) :
    Matches buffers q' [] (q.setTask 0 ⟨hist, Prog.unfold body i k⟩) := by
  have hthread : ∀ {p : ThreadText Unit} {hist' : List (Event threads)},
      Embeds buffers (q.setTask 0 ⟨hist, (thread p).bind fun _ => .pure (some 0)⟩)
        (q'.setTask 0 ⟨hist', p⟩) := fun {p hist'} => by
    have hq : Pool.mk q.shared.threads q'.task = q' := by rw [← h.shared]
    rw [← hq]
    exact h.main_thread
  rcases h.main with ⟨rfl, p, hp, hmain⟩ | hmain
  · rcases bind_eq_loop (hmain.symm.trans hprog) with ⟨a, rfl, ha⟩ | ⟨k', rfl, rfl⟩
    · -- main comes to its loop
      cases a with
      | some status => cases ha
      | none =>
          obtain ⟨p', hist', hsteps, hk⟩ := steps_thread_loop (t := 0) buffers
            (lifecycleInit buffers) rfl ha fun _ hno => by cases hno
          rw [hk]
          exact ⟨[], _, hsteps, rfl, hthread⟩
    · rw [← Prog.unfold_bind]
      exact matches_nil rfl (h.early (Uses.unfold hp) h.shared.symm)
  · obtain ⟨p', hist', hsteps, hk⟩ := steps_thread_loop buffers q' rfl (hmain.symm.trans hprog)
      fun _ hno => by cases hno
    rw [hk]
    exact ⟨[], _, hsteps, rfl, hthread⟩

/-- A handler of a connection enters a loop. -/
theorem Embeds.loop_client (h : Embeds buffers q q')
    (hprog : (q.task (2 * (t + 1))).prog = Prog.loop (E := process) body i k) :
    Matches buffers q' [] (q.setTask (2 * (t + 1)) ⟨hist, Prog.unfold body i k⟩) := by
  rcases h.main with ⟨rfl, -⟩ | hmain
  · -- no handler begins before main has come to its loop
    obtain ⟨_, _, _, _, _, hp, -⟩ := thread_eq_loop ((h.clients t).symm.trans hprog)
      fun _ hno => by cases hno
    replace hp : handlerThread (buffers t) = _ := hp
    rw [handlerThread, Prog.bind_eq, start, Prog.call_bind] at hp
    cases hp
  · obtain ⟨p', hist', hsteps, hk⟩ := steps_thread_loop buffers q' rfl
      ((h.clients t).symm.trans hprog) fun _ hno => by cases hno
    refine ⟨[], _, hsteps, rfl, ?_⟩
    have hq : Pool.mk q.shared.threads q'.task = q' := by rw [← h.shared]
    rw [hk, ← hq]
    exact h.client hmain

/-- Entering a loop is no step of either. -/
theorem Embeds.loop (h : Embeds buffers q q')
    (hprog : (q.task u).prog = Prog.loop (E := process) body i k) :
    Matches buffers q' [] (q.setTask u ⟨hist, Prog.unfold body i k⟩) := by
  by_cases hodd : u % 2 = 1
  · obtain ⟨t, rfl⟩ : ∃ t, u = 2 * t + 1 := ⟨u / 2, by omega⟩
    have huses := h.signals t
    rw [hprog] at huses
    exact matches_nil rfl (h.signal huses.unfold rfl)
  by_cases hu : u = 0
  · subst hu
    exact h.loop_main hprog
  · obtain ⟨t, rfl⟩ : ∃ t, u = 2 * (t + 1) := ⟨u / 2 - 1, by omega⟩
    exact h.loop_client hprog

end Loop

/-- **The whole program refines the server.** However the signal handlers interleave with main and
its threads, the steps of the threads are those of a run of the server, in their order, with the
same states before and after them, and each thread stands where it stands there. -/
theorem program_refines_server
    (hrun : Steps (aesdsocket argv buffers) (aesdsocketInit argv buffers inherited) τ q) :
    ∃ τ' q', Steps (lifecycle buffers) (lifecycleInit buffers) τ' q' ∧
      τ'.filterMap serverMove = τ.filterMap threadMove ∧ Embeds buffers q q' := by
  induction hrun with
  | refl => exact ⟨[], _, .refl _, rfl, embeds_init⟩
  | act u _ hprog hans ih =>
      obtain ⟨τ', q', hτ', hmoves, h⟩ := ih
      obtain ⟨υ, q₁, hυ, hmove, h₁⟩ := h.act hprog hans
      refine ⟨τ' ++ υ, q₁, hτ'.trans hυ, ?_, h₁⟩
      rw [List.filterMap_append, List.filterMap_append, hmoves, hmove]
  | loop u _ hprog ih =>
      obtain ⟨τ', q', hτ', hmoves, h⟩ := ih
      obtain ⟨υ, q₁, hυ, hmove, h₁⟩ := h.loop hprog
      refine ⟨τ' ++ υ, q₁, hτ'.trans hυ, ?_, h₁⟩
      rw [List.filterMap_append, hmoves, hmove]
      exact List.append_nil _

theorem program_refines_server_daemon : ∃ τ q τ' q',
    Steps (aesdsocket ["aesdsocket", "-d"] fun _ => Buffer.zero)
      (aesdsocketInit ["aesdsocket", "-d"] (fun _ => Buffer.zero) standardFiles) τ q ∧
      (2, ⟨.thread .start, (0 : ℕ)⟩) ∈ τ.map (fun a => (a.task, a.event)) ∧
      Steps (lifecycle fun _ => Buffer.zero) (lifecycleInit fun _ => Buffer.zero) τ' q' ∧
      τ'.filterMap serverMove = τ.filterMap threadMove ∧ Embeds (fun _ => Buffer.zero) q q' := by
  obtain ⟨τ, q, hq, hτ, -⟩ := exists_daemonRun
  obtain ⟨τ', q', hτ', hmoves, h⟩ := program_refines_server hq
  refine ⟨τ, q, τ', q', hq, ?_, hτ', hmoves, h⟩
  rw [hτ]
  simp [daemonRun, hangUp, finished, Event.ofThread]

end Refinement

end Aesd.Server

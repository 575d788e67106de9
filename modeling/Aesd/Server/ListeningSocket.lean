import Aesd.Server.ProcessSteps
import Aesd.Server.ProcessRuns

/-! # The listening socket

`main` creates the socket, a signal handler may close it at any later moment, and `main` closes it in
the end or at one of its exits. -/

namespace Aesd.Server

open Effects CLib

/-! ### Runs -/

section Runs

variable {inherited : ℕ → Bool} {argv : List String} {buffers : ℕ → Buffer}
  {q : Pool process Process (Option ℤ)} {τ : List (Act process Process)} {δ : ℕ → View}
  {s s' : Process} {t : ℕ} {v' : View} {e : Event process}

/-- A task keeps to the role that it has. -/
theorem follows_text (argv : List String) (buffers : ℕ → Buffer) (t : ℕ) :
    Follows ((roleOf t).views (daemonMode argv)) .start ((aesdsocket argv buffers).text t)
      fun _ v' => t = 0 → v'.Settled := by
  cases t with
  | zero => exact (follows_main argv).bind fun _ v hv _ => hv
  | succ t =>
      show Follows _ _ (if t % 2 = 0 then _ else _) _
      by_cases ht : t % 2 = 0
      · rw [if_pos ht, roleOf, if_neg (by omega), if_pos (by omega)]
        exact follows_signalHandler.bind fun _ _ _ hno => absurd hno t.succ_ne_zero
      · rw [if_neg ht, roleOf, if_neg (by omega), if_neg (by omega)]
        exact (follows_thread_client (follows_client_handlerThread _)).bind
          fun _ _ _ hno => absurd hno t.succ_ne_zero

theorem upheld_init : Upheld inherited (fun _ => .start) (Process.init inherited) where
  views _ := ⟨id, nofun, fun hno => absurd rfl hno, nofun, nofun, nofun, fun _ => nofun,
    fun _ => ⟨rfl, rfl⟩⟩
  listener n hn := by
    replace hn : (if 0 ≤ n ∧ inherited n.toNat then some FileKind.inherited else none) = _ := hn
    split at hn
    · cases hn
    · cases hn
  unset _ := rfl
  serverFd := nofun
  forgotten := nofun
  servinfo := rfl
  defined := rfl
  early _ := rfl
  negative n hn := if_neg fun hno => absurd hno.1 (not_le.mpr hn)
  boot _ := rfl
  nodes := nofun
  listening := nofun

/-- **The run lemma.** What the steps keep beside the invariant holds with it after every run. -/
theorem upheld_of_steps {J : List (Act process Process) → (ℕ → View) → Process → Prop}
    (hrun : Steps (aesdsocket argv buffers) (aesdsocketInit argv buffers inherited) τ q)
    (hJ : J [] (fun _ => .start) (Process.init inherited))
    (hstep : ∀ υ δ a v', Upheld inherited δ a.before → J υ δ a.before →
      a.before.effect a.task a.event.op a.event.res = some a.after →
      (roleOf a.task).step (daemonMode argv) (δ a.task) a.event = some v' →
      J (υ ++ [a]) (Function.update δ a.task v') a.after) :
    ∃ δ, Watched (fun t => (roleOf t).views (daemonMode argv)) (fun _ => .start)
      (fun t _ v' => t = 0 → v'.Settled) δ q ∧ Upheld inherited δ q.shared ∧ J τ δ q.shared := by
  refine hrun.monitored (J := fun υ δ s => Upheld inherited δ s ∧ J υ δ s)
    (watched_init (follows_text argv buffers) _) (fun _ _ _ => trivial) ⟨upheld_init, hJ⟩ ?_
  rintro υ δ a v' - ⟨h, hJ⟩ - hans hview
  have heffect := h.effect hans hview
  exact ⟨h.step heffect hview, hstep υ δ a v' h hJ heffect hview⟩

/-- **What main has opened it closes.** Whatever goes wrong and whenever a signal is caught, when
main has returned the listening socket is not open and the address list is not there, and no step
has touched the list before it was there or after it was freed. -/
theorem listening_socket_released
    (hrun : Steps (aesdsocket argv buffers) (aesdsocketInit argv buffers inherited) τ q) :
    q.shared.undefined = false ∧ ∀ status, (q.task 0).prog = .pure status →
      q.shared.Gone ∧ q.shared.servinfo ≠ .live := by
  obtain ⟨δ, hδ, h, -⟩ := upheld_of_steps (J := fun _ _ _ => True) hrun trivial fun _ _ _ _ _ _ _ _ => trivial
  refine ⟨h.defined, fun status hstatus => ?_⟩
  obtain ⟨-, hfollows⟩ := hδ 0
  rw [hstatus] at hfollows
  have hsettled : (δ 0).Settled := hfollows rfl
  refine ⟨?_, by rw [h.servinfo]; exact hsettled.servinfo⟩
  rcases hsettled.socket with hboot | hgone | ⟨harg, hknown⟩
  · exact fun n hn => (h.listener n hn).1 hboot
  · exact ((h.views 0).gone hgone).2
  · exact (h.views 0).missed hknown harg

theorem listening_socket_released_daemon : ∃ τ q,
    Steps (aesdsocket ["aesdsocket", "-d"] fun _ => Buffer.zero)
      (aesdsocketInit ["aesdsocket", "-d"] (fun _ => Buffer.zero) standardFiles) τ q ∧
      q.shared.undefined = false ∧ q.shared.Gone ∧ q.shared.servinfo ≠ .live := by
  obtain ⟨τ, q, hq, -, hstatus⟩ := exists_daemonRun
  obtain ⟨hdefined, hreturned⟩ := listening_socket_released hq
  exact ⟨τ, q, hq, hdefined, hreturned _ hstatus⟩

end Runs

/-! ### What main accepts on -/

section Accepts

variable {v v' : View} {daemon : Bool} {role : Role}

/-- Only main calls `accept`, with what it has read of `server_fd`, after it has found the flag clear. -/
theorem Role.accept_of_step {fd : ℤ} {r : ProcessRes (.thread (.accept fd))}
    (h : role.step daemon v ⟨.thread (.accept fd), r⟩ = some v') :
    role = .main ∧ v.stage = .serving ∧ v.fresh = true ∧ v.known = true ∧ fd = v.arg ∧
      v' = v.accepted r := by
  cases role with
  | main =>
      obtain ⟨⟨hstage, hfresh, hknown, hfd⟩, h⟩ := Option.ite_none_right_eq_some.mp h
      exact ⟨rfl, hstage, hfresh, hknown, hfd, (Option.some.inj h).symm⟩
  | signal | client => cases h

theorem View.fresh_of_mainClose {fd : ℤ} (h : v.mainClose fd = some v') : v'.fresh = v.fresh := by
  have harg : v.closeArg fd = some v' → v'.fresh = v.fresh := fun h => by
    obtain ⟨-, h⟩ := Option.ite_none_right_eq_some.mp h
    cases h
    rfl
  rw [View.mainClose] at h
  split at h
  · exact harg h
  · split at h
    · obtain ⟨-, h⟩ := Option.ite_none_right_eq_some.mp h
      cases h
      rfl
    · exact harg h
  · split at h
    · exact harg h
    · obtain ⟨-, h⟩ := Option.ite_none_right_eq_some.mp h
      cases h
      rfl
  · cases h

/-- Only a test of the flag and a call of `accept` change what is known of the flag. -/
theorem View.fresh_of_main {o : ProcessOp} {r : ProcessRes o} (h : v.main daemon o r = some v')
    (haccept : ∀ fd, o ≠ .thread (.accept fd)) (hread : o ≠ .thread .terminateProgram) :
    v'.fresh = v.fresh := by
  have hite : ∀ {c : Prop} [Decidable c] {w : View}, (if c then some w else none) = some v' →
      w.fresh = v.fresh → v'.fresh = v.fresh := fun h hw => by
    obtain ⟨-, h⟩ := Option.ite_none_right_eq_some.mp h
    cases h
    exact hw
  cases o with
  | thread o =>
      cases o with
      | posix o =>
          cases o with
          | close fd => exact View.fresh_of_mainClose h
          | openFile | loadClientFd => cases h
          | syslog =>
              cases h
              rfl
          | _ => exact hite h rfl
      | accept fd => exact absurd rfl (haccept fd)
      | terminateProgram => exact absurd rfl hread
      | loadServerFd =>
          cases h
          rfl
      | point | start | exit => cases h
      | _ => exact hite h rfl
  | sigaction | openlog | setsockopt | setsid | chdir =>
      cases h
      rfl
  | getaddrinfo => exact hite h (by split <;> rfl)
  | listen => exact hite h (by split <;> rfl)
  | openNull =>
      rw [View.main] at h
      split at h
      · exact hite h rfl
      · cases h
  | caught | exit | setTerminate => cases h
  | _ => exact hite h rfl

end Accepts

section Flag

variable {s s' s₁ : Process} {t : ℕ}

/-- An operation of the threads changes nothing but the descriptors. -/
theorem Process.threadEffect_rest {o : ThreadOp} {r : ThreadRes o}
    (h : s.threadEffect o r = some s₁) : s₁ = { s with files := s₁.files } := by
  have hcall : ∀ {o : PosixOp} {r : PosixRes o}, s.callEffect o r = some s₁ →
      s₁ = { s with files := s₁.files } := fun {o} _ h => by
    cases o with
    | openFile => exact Process.opens_rest h
    | _ =>
        cases h
        rfl
  cases o with
  | posix o => exact hcall h
  | point o =>
      cases r with
      | some r => exact hcall h
      | none =>
          cases h
          rfl
  | accept fd =>
      rw [Process.threadEffect] at h
      split at h
      · cases h
        rfl
      · exact Process.opens_rest (Option.ite_none_right_eq_some.mp h).2
  | terminateProgram | loadServerFd =>
      obtain ⟨-, h⟩ := Option.ite_none_right_eq_some.mp h
      cases h
      rfl
  | _ =>
      cases h
      rfl

/-- The flag is not cleared. -/
theorem Process.terminate_of_effect {o : ProcessOp} {r : ProcessRes o} (h : s.effect t o r = some s')
    (hs : s'.terminate = false) : s.terminate = false := by
  cases o with
  | thread o =>
      obtain ⟨s₁, threads, hs₁, -, rfl⟩ := Process.effect_thread h
      have hrest := Process.threadEffect_rest hs₁
      replace hs : s₁.terminate = false := hs
      rw [hrest] at hs
      exact hs
  | setTerminate =>
      cases h
      cases hs
  | socket | openNull =>
      rw [Process.opens_rest h] at hs
      exact hs
  | caught | setsockopt | bind | listen =>
      obtain ⟨-, h⟩ := Option.ite_none_right_eq_some.mp h
      cases h
      exact hs
  | getaddrinfo =>
      cases h
      split at hs <;> exact hs
  | _ =>
      cases h
      exact hs

end Flag

/-- `accept` is called although the flag has been set. -/
def isLateAccept (a : Act process Process) : Bool :=
  match a.event.op with
  | .thread (.accept _) => a.before.terminate
  | _ => false

/-- What holds of the calls of `accept` in a run. -/
structure Accepting (υ : List (Act process Process)) (δ : ℕ → View) (s : Process) : Prop where
  /-- They are made on the open socket, unless the flag has been set. -/
  listener : ∀ a ∈ υ, ∀ fd r, a.event = ⟨.thread (.accept fd), r⟩ → a.before.terminate = false →
    a.before.serverFd = fd ∧ a.before.files fd = some .listener
  /-- Main may make one more after it has found the flag clear. -/
  late : (υ.filter isLateAccept).length + (if (δ 0).fresh then 1 else 0) ≤ 1
  /-- None is made late as long as the flag is clear. -/
  clear : s.terminate = false → υ.filter isLateAccept = []

theorem eq_zero_of_roleOf {t : ℕ} (h : roleOf t = .main) : t = 0 := by
  rw [roleOf] at h
  split at h
  · assumption
  · split at h <;> cases h

section Accepting

variable {inherited : ℕ → Bool} {υ : List (Act process Process)} {δ : ℕ → View}
  {a : Act process Process} {v' : View} {daemon : Bool}

/-- While main serves and the flag is clear it has read the open socket. -/
theorem Upheld.accepts (h : Upheld inherited δ a.before) (hserving : (δ 0).stage = .serving)
    (hknown : (δ 0).known = true) (hclear : a.before.terminate = false) :
    a.before.serverFd = (δ 0).arg ∧ a.before.files (δ 0).arg = some .listener := by
  obtain ⟨hserverFd, hfile⟩ := h.listening hserving hclear
  have harg : (δ 0).arg = (δ 0).socket := by
    by_cases hno : (δ 0).arg = -1
    · exact absurd hfile ((h.views 0).missed hknown hno _)
    · exact ((h.views 0).arg hno).2
  rw [harg]
  exact ⟨hserverFd, hfile⟩

/-- A step that calls `accept`. -/
theorem Accepting.accept (hJ : Accepting υ δ a.before) (h : Upheld inherited δ a.before) {fd : ℤ}
    {r : ProcessRes (.thread (.accept fd))} (ha : a.event = ⟨.thread (.accept fd), r⟩)
    (heffect : a.before.effect a.task (.thread (.accept fd)) r = some a.after)
    (hstep : (roleOf a.task).step daemon (δ a.task) ⟨.thread (.accept fd), r⟩ = some v') :
    Accepting (υ ++ [a]) (Function.update δ a.task v') a.after := by
  obtain ⟨hrole, hserving, hfresh, hknown, hfd, rfl⟩ := Role.accept_of_step hstep
  have ht := eq_zero_of_roleOf hrole
  rw [ht] at hserving hfresh hknown hfd ⊢
  have hnone : υ.filter isLateAccept = [] := by
    have hlate := hJ.late
    rw [if_pos hfresh] at hlate
    exact List.length_eq_zero_iff.mp (by omega)
  have hfresh' : ((δ 0).accepted r).fresh = false := by
    rw [View.accepted]
    split <;> rfl
  refine ⟨fun b hb fd' r' hb' hclear => ?_, ?_, fun hclear => ?_⟩
  · rcases List.mem_append.mp hb with hb | hb
    · exact hJ.listener b hb fd' r' hb' hclear
    · obtain rfl := List.mem_singleton.mp hb
      rw [ha] at hb'
      cases hb'
      exact hfd ▸ h.accepts hserving hknown hclear
  · rw [Function.update_self, hfresh', List.filter_append, hnone]
    exact List.length_filter_le _ [a]
  · have hbefore := Process.terminate_of_effect heffect hclear
    rw [List.filter_append, hnone, List.nil_append, List.filter_singleton]
    simp [isLateAccept, ha, hbefore]

/-- A step that does not. -/
theorem Accepting.other (hJ : Accepting υ δ a.before) (ha : ∀ fd, a.event.op ≠ .thread (.accept fd))
    (heffect : a.before.effect a.task a.event.op a.event.res = some a.after)
    (hstep : (roleOf a.task).step daemon (δ a.task) a.event = some v') :
    Accepting (υ ++ [a]) (Function.update δ a.task v') a.after := by
  have hlate : isLateAccept a = false := by
    rw [isLateAccept]
    split
    · exact absurd ‹_› (ha _)
    · rfl
  have hfilter : (υ ++ [a]).filter isLateAccept = υ.filter isLateAccept := by
    rw [List.filter_append, List.filter_singleton, hlate]
    exact List.append_nil _
  refine ⟨fun b hb fd r hb' hclear => ?_, ?_, fun hclear => ?_⟩
  · rcases List.mem_append.mp hb with hb | hb
    · exact hJ.listener b hb fd r hb' hclear
    · obtain rfl := List.mem_singleton.mp hb
      exact absurd (congrArg Event.op hb') (ha fd)
  · rw [hfilter]
    by_cases ht : a.task = 0
    · rw [ht, Function.update_self]
      rw [ht] at hstep heffect
      by_cases hread : a.event.op = .thread .terminateProgram
      · obtain ⟨b, hb⟩ : ∃ b : Bool, a.event = ⟨.thread .terminateProgram, b⟩ := by
          obtain ⟨t, hist, ⟨o, r⟩, before, after⟩ := a
          cases hread
          exact ⟨r, rfl⟩
        rw [hb] at hstep heffect
        cases hstep
        obtain ⟨s₁, threads, hs₁, -, -⟩ := Process.effect_thread heffect
        obtain ⟨hb, -⟩ := Option.ite_none_right_eq_some.mp hs₁
        -- if it finds the flag clear, no call has been made late
        have hbound := hJ.late
        cases b with
        | true =>
            show _ + 0 ≤ 1
            omega
        | false => rw [hJ.clear hb.symm]; exact le_rfl
      · rw [View.fresh_of_main hstep ha hread]
        exact hJ.late
    · rw [Function.update_of_ne (Ne.symm ht)]
      exact hJ.late
  · rw [hfilter]
    exact hJ.clear (Process.terminate_of_effect heffect hclear)

/-- **Main accepts on the socket that it has created.** As long as no signal has set the flag each
call of `accept` is made on the open socket, and after it has been set at most one more call is made,
however the signals and the threads interleave with main. -/
theorem accepts_on_listener {argv : List String} {buffers : ℕ → Buffer}
    {q : Pool process Process (Option ℤ)} {τ : List (Act process Process)}
    (hrun : Steps (aesdsocket argv buffers) (aesdsocketInit argv buffers inherited) τ q) :
    (∀ a ∈ τ, ∀ fd r, a.event = ⟨.thread (.accept fd), r⟩ → a.before.terminate = false →
      a.before.serverFd = fd ∧ a.before.files fd = some .listener) ∧
      (τ.filter isLateAccept).length ≤ 1 := by
  obtain ⟨δ, -, -, hJ⟩ := upheld_of_steps hrun (J := Accepting)
    ⟨fun _ hno => absurd hno List.not_mem_nil, Nat.zero_le 1, fun _ => rfl⟩
    fun υ δ a v' h hJ heffect hstep => by
      by_cases ha : ∃ fd, a.event.op = .thread (.accept fd)
      · obtain ⟨fd, ha⟩ := ha
        obtain ⟨r, hr⟩ : ∃ r : ℤ, a.event = ⟨.thread (.accept fd), r⟩ := by
          obtain ⟨t, hist, ⟨o, r⟩, before, after⟩ := a
          cases ha
          exact ⟨r, rfl⟩
        have heffect' := heffect
        rw [hr] at heffect' hstep
        exact hJ.accept h hr heffect' hstep
      · exact hJ.other (fun fd hno => ha ⟨fd, hno⟩) heffect hstep
  exact ⟨hJ.listener, by have hlate := hJ.late; omega⟩

/-- A call on the socket, and one that finds it closed. -/
theorem accepts_on_listener_daemon : ∃ τ q,
    Steps (aesdsocket ["aesdsocket", "-d"] fun _ => Buffer.zero)
      (aesdsocketInit ["aesdsocket", "-d"] (fun _ => Buffer.zero) standardFiles) τ q ∧
      (0, ⟨.thread (.accept 3), (4 : ℤ)⟩) ∈ τ.map (fun a => (a.task, a.event)) ∧
      (0, ⟨.thread (.accept (-1)), (-1 : ℤ)⟩) ∈ τ.map (fun a => (a.task, a.event)) ∧
      (∀ a ∈ τ, ∀ fd r, a.event = ⟨.thread (.accept fd), r⟩ → a.before.terminate = false →
        a.before.serverFd = fd ∧ a.before.files fd = some .listener) ∧
      (τ.filter isLateAccept).length ≤ 1 := by
  obtain ⟨τ, q, hq, hτ, -⟩ := exists_daemonRun
  refine ⟨τ, q, hq, ?_, ?_, accepts_on_listener hq⟩
  · rw [hτ]
    simp [daemonRun, comeUp, connect, Event.ofThread]
  · rw [hτ]
    simp [daemonRun, goDown, Event.ofThread]

end Accepting

end Aesd.Server

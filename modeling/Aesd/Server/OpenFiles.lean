import Aesd.Server.ListeningSocket

/-! # The descriptors of the process

What each task closes, and what `daemonize` makes of the first three descriptors. Numbers are used
again after they have been closed, so a close may hit a descriptor that its task does not know. -/

namespace Aesd.Server

open Effects CLib

/-! ### What a step does to the descriptors -/

section Files

variable {s s' s₁ : Process} {t : ℕ} {n : ℤ} {kind : FileKind}

/-- What an operation opens, unless it fails. -/
def openedBy : Event process → Option FileKind
  | ⟨.thread (.posix (.openFile _)), _⟩ | ⟨.thread (.point (.openFile _)), some _⟩
  | ⟨.thread (.accept _), _⟩ => some .client
  | ⟨.socket, _⟩ => some .listener
  | ⟨.openNull flags, _⟩ => some (.null flags)
  | _ => none

/-- What an operation closes. -/
def closedBy : Event process → Option ℤ
  | ⟨.thread (.posix (.close fd)), _⟩ | ⟨.thread (.point (.close fd)), some _⟩ => some fd
  | _ => none

/-- What a step does to the descriptors. -/
def Process.Touches (s : Process) (e : Event process) (s' : Process) : Prop :=
  s'.files = s.files ∨ (∃ fd, closedBy e = some fd ∧ s'.files = (s.closes fd).files) ∨
    ∃ kind fd s₁, openedBy e = some kind ∧ s.opens kind fd = some s₁ ∧ s'.files = s₁.files

theorem Process.touches_of_threadEffect {o : ThreadOp} {r : ThreadRes o}
    (h : s.threadEffect o r = some s₁) : s.Touches ⟨.thread o, r⟩ s₁ := by
  cases o with
  | posix o =>
      cases o with
      | openFile => exact .inr (.inr ⟨_, _, s₁, rfl, h, rfl⟩)
      | close fd =>
          cases h
          exact .inr (.inl ⟨fd, rfl, rfl⟩)
      | _ =>
          cases h
          exact .inl rfl
  | point o =>
      cases r with
      | none =>
          cases h
          exact .inl rfl
      | some r =>
          cases o with
          | openFile => exact .inr (.inr ⟨_, _, s₁, rfl, h, rfl⟩)
          | close fd =>
              cases h
              exact .inr (.inl ⟨fd, rfl, rfl⟩)
          | _ =>
              cases h
              exact .inl rfl
  | accept fd =>
      rw [Process.threadEffect] at h
      split at h
      · cases h
        exact .inl rfl
      · obtain ⟨-, h⟩ := Option.ite_none_right_eq_some.mp h
        exact .inr (.inr ⟨_, _, s₁, rfl, h, rfl⟩)
  | terminateProgram | loadServerFd =>
      obtain ⟨-, h⟩ := Option.ite_none_right_eq_some.mp h
      cases h
      exact .inl rfl
  | _ =>
      cases h
      exact .inl rfl

theorem Process.touches_of_effect {o : ProcessOp} {r : ProcessRes o}
    (h : s.effect t o r = some s') : s.Touches ⟨o, r⟩ s' := by
  cases o with
  | thread o =>
      obtain ⟨s₁, threads, hs₁, -, rfl⟩ := Process.effect_thread h
      exact (Process.touches_of_threadEffect hs₁ : s.Touches ⟨.thread o, r⟩ s₁)
  | socket | openNull => exact .inr (.inr ⟨_, _, s', rfl, h, rfl⟩)
  | caught | setsockopt | bind | listen =>
      obtain ⟨-, h⟩ := Option.ite_none_right_eq_some.mp h
      cases h
      exact .inl rfl
  | getaddrinfo =>
      cases h
      split <;> exact .inl rfl
  | _ =>
      cases h
      exact .inl rfl

/-- A descriptor that is open after a step was open before it, or has been opened by it. -/
theorem Process.Touches.opened {e : Event process} (h : s.Touches e s')
    (hn : s'.files n = some kind) : s.files n = some kind ∨ openedBy e = some kind := by
  rcases h with h | ⟨fd, -, h⟩ | ⟨k, fd, s₁, ho, hs₁, h⟩
  · exact .inl (h ▸ hn)
  · rw [h] at hn
    exact .inl (Process.closes_files hn).2
  · rw [h] at hn
    refine (Process.opens_files hs₁ hn).imp_right ?_
    rintro ⟨rfl, -, -⟩
    exact ho

/-- A descriptor that is open before a step is open after it, or the step closes it. -/
theorem Process.Touches.kept {e : Event process} (h : s.Touches e s') (hn : s.files n = some kind) :
    s'.files n = some kind ∨ closedBy e = some n := by
  rcases h with h | ⟨fd, ho, h⟩ | ⟨k, fd, s₁, -, hs₁, h⟩
  · exact .inl (h ▸ hn)
  · by_cases hfd : n = fd
    · exact .inr (hfd ▸ ho)
    · exact .inl (h ▸ (Process.closes_keeps hfd).trans hn)
  · exact .inl (h ▸ Process.opens_keeps hs₁ hn)

end Files

/-! ### What main does -/

section Main

variable {v v' : View} {daemon : Bool}

/-- The flags `daemonize` opens `/dev/null` with. -/
def nullFlags (j : ℕ) : NullFlags := if j = 0 then .rdonly else .wronly

/-- How main gets on with an operation. -/
inductive View.Moves (daemon : Bool) (v : View) : Event process → View → Prop where
  /-- It opens connections only, and closes what it has read of `server_fd` or a connection. -/
  | stay {e : Event process} {v' : View} (hstage : v'.stage = v.stage)
      (hsocket : v'.socket = v.socket) (hnulls : v'.nulls = v.nulls)
      (hopens : ∀ kind, openedBy e = some kind → kind = .client ∧ v.stage = .serving)
      (hcloses : ∀ fd, closedBy e = some fd → fd = v.arg ∧ v.known = true ∨ fd ∈ v.numbers) :
      Moves daemon v e v'
  /-- `socket`. -/
  | create {fd : ℤ} (hstage : v.stage = .boot) :
      Moves daemon v ⟨.socket, fd⟩ { v with stage := .created, socket := fd }
  /-- `server_fd` is set. -/
  | store {fd : ℤ} (hstage : v.stage = .created) :
      Moves daemon v ⟨.storeServerFd fd, ()⟩ { v with stage := .stored }
  /-- `fork`. -/
  | fork {pid : ℤ} (hstage : v.stage = .stored) (hdaemon : daemon = true) :
      Moves daemon v ⟨.fork, pid⟩ { v with stage := .detaching 0 }
  /-- `daemonize` closes the descriptor `k`. -/
  | close {k : ℕ} {r : ℤ} (hstage : v.stage = .detaching k) (hk : k < 3) :
      Moves daemon v ⟨.thread (.posix (.close k)), r⟩ { v with stage := .detaching (k + 1) }
  /-- `daemonize` opens `/dev/null`. -/
  | openNull {k : ℕ} {fd : ℤ} (hstage : v.stage = .detaching k) (hk : 3 ≤ k) :
      Moves daemon v ⟨.openNull (nullFlags (k - 3)), fd⟩
        { v with stage := .detaching (k + 1), nulls := v.nulls ++ [fd] }
  /-- `listen`. -/
  | listen {r : ℤ} (hstage : v.stage = if daemon then .detaching 6 else .stored) (hr : r ≠ -1) :
      Moves daemon v ⟨.listen v.arg, r⟩ { v with stage := .serving }

theorem View.moves_of_mainClose {fd r : ℤ} (h : v.mainClose fd = some v') :
    v.Moves daemon ⟨.thread (.posix (.close fd)), r⟩ v' := by
  have harg : v.closeArg fd = some v' → v.Moves daemon ⟨.thread (.posix (.close fd)), r⟩ v' := by
    intro h
    obtain ⟨harg, h⟩ := Option.ite_none_right_eq_some.mp h
    cases h
    refine .stay rfl rfl rfl (fun _ hno => by cases hno) fun fd' hfd' => ?_
    cases hfd'
    exact .inl harg
  rw [View.mainClose] at h
  split at h
  · exact harg h
  · rename_i k hstage
    split at h
    · obtain ⟨hfd, hview⟩ := Option.ite_none_right_eq_some.mp h
      cases hview
      subst hfd
      exact .close hstage ‹_›
    · exact harg h
  · split at h
    · exact harg h
    · obtain ⟨hfd, h⟩ := Option.ite_none_right_eq_some.mp h
      cases h
      refine .stay rfl rfl rfl (fun _ hno => by cases hno) fun fd' hfd' => ?_
      cases hfd'
      exact .inr hfd
  · cases h

theorem View.moves_of_main {o : ProcessOp} {r : ProcessRes o} (h : v.main daemon o r = some v') :
    v.Moves daemon ⟨o, r⟩ v' := by
  -- most operations neither open nor close anything
  have hstay : ∀ {w : View}, w = v' → w.stage = v.stage → w.socket = v.socket → w.nulls = v.nulls →
      openedBy ⟨o, r⟩ = none → closedBy ⟨o, r⟩ = none → v.Moves daemon ⟨o, r⟩ v' := by
    rintro w rfl hstage hsocket hnulls hopens hcloses
    refine .stay hstage hsocket hnulls (fun kind hkind => ?_) fun fd hfd => ?_
    · cases hopens.symm.trans hkind
    · cases hcloses.symm.trans hfd
  have hite : ∀ {c : Prop} [Decidable c] {w : View}, (if c then some w else none) = some v' →
      c ∧ w = v' := fun h => by
    obtain ⟨hc, h⟩ := Option.ite_none_right_eq_some.mp h
    exact ⟨hc, Option.some.inj h⟩
  cases o with
  | thread o =>
      cases o with
      | posix o =>
          cases o with
          | close fd => exact View.moves_of_mainClose h
          | openFile | loadClientFd => cases h
          | syslog => exact hstay (Option.some.inj h) rfl rfl rfl rfl rfl
          | _ => exact hstay (hite h).2 rfl rfl rfl rfl rfl
      | accept fd =>
          obtain ⟨⟨hserving, -⟩, h⟩ := Option.ite_none_right_eq_some.mp h
          cases h
          have hsame : (v.accepted r).stage = v.stage ∧ (v.accepted r).socket = v.socket ∧
              (v.accepted r).nulls = v.nulls := by
            rw [View.accepted]
            split <;> exact ⟨rfl, rfl, rfl⟩
          refine .stay hsame.1 hsame.2.1 hsame.2.2 (fun kind hkind => ?_) fun _ hno => by cases hno
          exact ⟨(Option.some.inj hkind).symm, hserving⟩
      | loadServerFd | terminateProgram => exact hstay (Option.some.inj h) rfl rfl rfl rfl rfl
      | point | start | exit => cases h
      | _ => exact hstay (hite h).2 rfl rfl rfl rfl rfl
  | sigaction | openlog | setsockopt | setsid | chdir =>
      exact hstay (Option.some.inj h) rfl rfl rfl rfl rfl
  | getaddrinfo =>
      refine hstay (hite h).2 ?_ ?_ ?_ rfl rfl <;> split <;> rfl
  | socket =>
      obtain ⟨⟨hboot, -⟩, rfl⟩ := hite h
      exact .create hboot
  | storeServerFd fd =>
      obtain ⟨⟨hcreated, -⟩, rfl⟩ := hite h
      exact .store hcreated
  | fork =>
      obtain ⟨⟨hstored, hdaemon⟩, rfl⟩ := hite h
      exact .fork hstored hdaemon
  | openNull flags =>
      rw [View.main] at h
      split at h
      · rename_i k hstage
        obtain ⟨⟨hk, hflags⟩, rfl⟩ := hite h
        have hnull : flags = nullFlags (k - 3) := by
          rw [hflags, nullFlags]
          congr 1
          exact propext ⟨fun hk' => by omega, fun hk' => by omega⟩
        rw [hnull]
        exact .openNull hstage hk
      · cases h
  | listen fd =>
      obtain ⟨⟨hstage, hfd⟩, hview⟩ := hite h
      by_cases hr : r = -1
      · rw [if_pos hr] at hview
        exact hstay hview rfl rfl rfl rfl rfl
      · rw [if_neg hr] at hview
        subst hfd hview
        exact .listen hstage hr
  | caught | exit | setTerminate => cases h
  | _ => exact hstay (hite h).2 rfl rfl rfl rfl rfl

end Main

/-! ### What the tasks close -/

section Closing

variable {inherited : ℕ → Bool} {δ : ℕ → View} {s s' : Process} {t : ℕ} {v v' : View}
  {daemon : Bool} {n : ℤ} {kind : FileKind}

/-- A signal handler closes what it has read of `server_fd`, and opens nothing. -/
theorem View.signal_touches {o : ProcessOp} {r : ProcessRes o} (h : v.signal o r = some v') :
    openedBy ⟨o, r⟩ = none ∧ ∀ fd, closedBy ⟨o, r⟩ = some fd → fd = v.arg ∧ v.known = true := by
  have hnone : ∀ {β : Type} {x : β} {P : Prop}, none = some x → P := fun hno => by cases hno
  cases o with
  | thread o =>
      cases o with
      | posix o =>
          cases o with
          | close fd =>
              obtain ⟨-, h⟩ := Option.ite_none_right_eq_some.mp h
              obtain ⟨harg, -⟩ := Option.ite_none_right_eq_some.mp h
              refine ⟨rfl, fun fd' hfd' => ?_⟩
              cases hfd'
              exact harg
          | _ => cases h
      | loadServerFd | syslogInfo => exact ⟨rfl, fun _ hno => hnone hno⟩
      | _ => cases h
  | caught | setTerminate | storeServerFd => exact ⟨rfl, fun _ hno => hnone hno⟩
  | _ => cases h

/-- A handler of a connection opens and closes connections and the device, once it has begun. -/
theorem View.client_touches {o : ThreadOp} {r : ThreadRes o} (h : v.client o r = some v') :
    (∀ kind, openedBy ⟨.thread o, r⟩ = some kind → kind = .client ∧ v.awake = true) ∧
      ∀ fd, closedBy ⟨.thread o, r⟩ = some fd → fd ∈ v.numbers := by
  have hnone : ∀ {β : Type} {x : β} {P : Prop}, none = some x → P := fun hno => by cases hno
  have hopen : v.awake = true → ∀ kind, some FileKind.client = some kind →
      kind = .client ∧ v.awake = true :=
    fun hawake kind hkind => ⟨(Option.some.inj hkind).symm, hawake⟩
  have hclose : ∀ {fd : ℤ} {r : PosixRes (.close fd)}, v.call (.close fd) r = some v' →
      ∀ fd', some fd = some fd' → fd' ∈ v.numbers := fun h fd' hfd' => by
    cases hfd'
    exact (Option.ite_none_right_eq_some.mp h).1
  cases o with
  | posix o =>
      obtain ⟨hawake, hcall⟩ := Option.ite_none_right_eq_some.mp h
      cases o with
      | close => exact ⟨fun _ hno => hnone hno, hclose hcall⟩
      | openFile => exact ⟨hopen hawake, fun _ hno => hnone hno⟩
      | _ => exact ⟨fun _ hno => hnone hno, fun _ hno => hnone hno⟩
  | point o =>
      cases r with
      | some r =>
          obtain ⟨hawake, hcall⟩ := Option.ite_none_right_eq_some.mp h
          cases o with
          | close => exact ⟨fun _ hno => hnone hno, hclose hcall⟩
          | openFile => exact ⟨hopen hawake, fun _ hno => hnone hno⟩
          | _ => exact ⟨fun _ hno => hnone hno, fun _ hno => hnone hno⟩
      | none => cases o <;> exact ⟨fun _ hno => hnone hno, fun _ hno => hnone hno⟩
  | start | exit => exact ⟨fun _ hno => hnone hno, fun _ hno => hnone hno⟩
  | _ => cases h

/-- The threads have not touched a missing node before a step that closes something. -/
theorem Process.defined_of_closedBy {e : Event process} {fd : ℤ}
    (h : s.effect t e.op e.res = some s') (he : closedBy e = some fd) :
    s.threads.undefined = false := by
  obtain ⟨o, r⟩ := e
  cases o with
  | thread o =>
      obtain ⟨s₁, threads, -, hthreads, -⟩ := Process.effect_thread h
      exact Threads.defined_of_answer hthreads
  | _ => cases he

/-- What a task closes is that of a connection or of the device, or it is the socket, or it is one
of the descriptors that `daemonize` closes. -/
theorem Upheld.closes (h : Upheld inherited δ s) {e : Event process}
    (heffect : s.effect t e.op e.res = some s')
    (hstep : (roleOf t).step daemon (δ t) e = some v') (he : closedBy e = some n)
    (hn : s.files n = some kind) : kind = .client ∨
      (roleOf t ≠ .client ∧ (δ 0).stage ≠ .boot ∧ n = (δ 0).socket) ∨
        t = 0 ∧ ∃ k : ℕ, k < 3 ∧ (δ 0).stage = .detaching k ∧ v'.stage = .detaching (k + 1) ∧
          n = k := by
  have hv := h.views t
  have hnumbers : n ∈ (δ t).numbers → kind = .client := fun hmem =>
    hv.numbers (Process.defined_of_closedBy heffect he) n hmem kind hn
  -- a descriptor that is open is not -1
  have hsocket : n = (δ t).arg ∧ (δ t).known = true → (δ 0).stage ≠ .boot ∧ n = (δ 0).socket := by
    rintro ⟨harg, hknown⟩
    have hstored := hv.known hknown
    have hboot : (δ 0).stage ≠ .boot := by
      intro hno
      rw [hno] at hstored
      cases hstored
    have hne : (δ t).arg ≠ -1 := by
      intro hno
      rw [harg, hno, h.negative (-1) (by decide)] at hn
      cases hn
    exact ⟨hboot, harg.trans (hv.arg hne).2⟩
  obtain ⟨o, r⟩ := e
  rw [roleOf] at hstep ⊢
  by_cases ht : t = 0
  · subst ht
    rw [if_pos rfl] at hstep ⊢
    cases View.moves_of_main hstep with
    | stay _ _ _ _ hcloses =>
        rcases hcloses n he with harg | hmem
        · exact .inr (.inl ⟨by simp, hsocket harg⟩)
        · exact .inl (hnumbers hmem)
    | close hstage hk =>
        cases he
        exact .inr (.inr ⟨rfl, _, hk, hstage, rfl, rfl⟩)
    | _ => cases he
  · rw [if_neg ht] at hstep ⊢
    by_cases hodd : t % 2 = 1
    · rw [if_pos hodd] at hstep ⊢
      exact .inr (.inl ⟨by simp, hsocket ((View.signal_touches hstep).2 n he)⟩)
    · rw [if_neg hodd] at hstep
      cases o with
      | thread o => exact .inl (hnumbers ((View.client_touches hstep).2 n he))
      | _ => cases hstep

/-- What holds of the descriptors that are closed in a run. -/
structure Closing (daemon : Bool) (υ : List (Act process Process)) (g : View) : Prop where
  /-- The socket comes from `socket`. -/
  socket : g.stage ≠ .boot → ∃ b ∈ υ, b.event = ⟨.socket, g.socket⟩
  /-- `daemonize` is run as a daemon only. -/
  detaching : ∀ k, g.stage = .detaching k → daemon = true
  /-- What is not a connection or the device is closed in two cases. -/
  kept : ∀ a ∈ υ, ∀ n kind, kind ≠ .client → a.before.files n = some kind →
    a.after.files n = some kind ∨ (roleOf a.task ≠ .client ∧ ∃ b ∈ υ, b.event = ⟨.socket, n⟩) ∨
      a.task = 0 ∧ daemon = true ∧ 0 ≤ n ∧ n < 3

/-- **The step lemma.** -/
theorem Closing.step {υ : List (Act process Process)} {a : Act process Process}
    (hJ : Closing daemon υ (δ 0)) (h : Upheld inherited δ a.before)
    (heffect : a.before.effect a.task a.event.op a.event.res = some a.after)
    (hstep : (roleOf a.task).step daemon (δ a.task) a.event = some v') :
    Closing daemon (υ ++ [a]) (Function.update δ a.task v' 0) := by
  have hsocket : (δ 0).stage ≠ .boot → ∃ b ∈ υ ++ [a], b.event = ⟨.socket, (δ 0).socket⟩ :=
    fun hboot => (hJ.socket hboot).imp fun _ hb => ⟨List.mem_append_left _ hb.1, hb.2⟩
  have hkept : ∀ b ∈ υ ++ [a], ∀ n kind, kind ≠ .client → b.before.files n = some kind →
      b.after.files n = some kind ∨
        (roleOf b.task ≠ .client ∧ ∃ c ∈ υ ++ [a], c.event = ⟨.socket, n⟩) ∨
          b.task = 0 ∧ daemon = true ∧ 0 ≤ n ∧ n < 3 := by
    intro b hb n kind hkind hn
    rcases List.mem_append.mp hb with hb | hb
    · refine (hJ.kept b hb n kind hkind hn).imp_right (Or.imp_left (And.imp_right ?_))
      exact fun ⟨c, hc, hevent⟩ => ⟨c, List.mem_append_left _ hc, hevent⟩
    · obtain rfl := List.mem_singleton.mp hb
      rcases (Process.touches_of_effect heffect).kept hn with hafter | he
      · exact .inl hafter
      rcases h.closes heffect hstep he hn with hclient | ⟨hrole, hboot, rfl⟩ | ⟨ht, k, hdetaching⟩
      · exact absurd hclient hkind
      · exact .inr (.inl ⟨hrole, hsocket hboot⟩)
      · obtain ⟨hk, hstage, -, rfl⟩ := hdetaching
        exact .inr (.inr ⟨ht, hJ.detaching k hstage, by omega, by omega⟩)
  by_cases ht : a.task = 0
  · obtain ⟨t, hist, ⟨o, r⟩, before, after⟩ := a
    dsimp only at ht hstep hsocket hkept ⊢
    subst ht
    rw [Function.update_self]
    have hstored : (δ 0).stage ≠ .boot → ∀ {w : View}, w.socket = (δ 0).socket →
        (∀ k, w.stage = .detaching k → daemon = true) →
          Closing daemon (υ ++ [⟨0, hist, ⟨o, r⟩, before, after⟩]) w :=
      fun hboot _ hw hdetaching => ⟨fun _ => hw ▸ hsocket hboot, hdetaching, hkept⟩
    cases View.moves_of_main hstep with
    | stay hstage hsame _ _ _ =>
        refine ⟨fun hboot => ?_, fun k hk => hJ.detaching k (hstage.symm.trans hk), hkept⟩
        rw [hstage] at hboot
        rw [hsame]
        exact hsocket hboot
    | create hstage =>
        exact ⟨fun _ => ⟨_, List.mem_concat_self, rfl⟩, fun _ hno => (by cases hno), hkept⟩
    | store hstage => exact hstored (by simp [hstage]) rfl fun _ hno => by cases hno
    | fork hstage hdaemon => exact hstored (by simp [hstage]) rfl fun _ _ => hdaemon
    | close hstage _ | openNull hstage _ =>
        exact hstored (by simp [hstage]) rfl fun _ _ => hJ.detaching _ hstage
    | listen hstage _ =>
        refine hstored ?_ rfl fun _ hno => by cases hno
        rw [hstage]
        split <;> simp
  · rw [Function.update_of_ne (Ne.symm ht)]
    exact ⟨hsocket, hJ.detaching, hkept⟩

/-- **Who closes what.** In every run the handlers of the connections close connections and the
device only; with a number that they close twice this may be the connection or the device of another
one. What is neither is closed by main or by a signal handler, and then it has the number of the
socket, or by `daemonize`, and then it is one of the first three. The descriptors that `syslog` and
`getaddrinfo` hold for themselves are not in the table. -/
theorem descriptors_kept {argv : List String} {buffers : ℕ → Buffer}
    {q : Pool process Process (Option ℤ)} {τ : List (Act process Process)}
    (hrun : Steps (aesdsocket argv buffers) (aesdsocketInit argv buffers inherited) τ q) :
    ∀ a ∈ τ, ∀ n kind, kind ≠ .client → a.before.files n = some kind →
      a.after.files n = some kind ∨ (roleOf a.task ≠ .client ∧ ∃ b ∈ τ, b.event = ⟨.socket, n⟩) ∨
        a.task = 0 ∧ daemonMode argv = true ∧ 0 ≤ n ∧ n < 3 := by
  obtain ⟨δ, -, -, hJ⟩ := upheld_of_steps hrun (J := fun υ δ _ => Closing (daemonMode argv) υ (δ 0))
    ⟨fun hno => absurd rfl hno, fun _ hno => (by cases hno),
      fun _ hno => absurd hno List.not_mem_nil⟩
    fun υ δ a v' h hJ heffect hstep => hJ.step h heffect hstep
  exact hJ.kept

theorem descriptors_kept_daemon : ∃ τ q,
    Steps (aesdsocket ["aesdsocket", "-d"] fun _ => Buffer.zero)
      (aesdsocketInit ["aesdsocket", "-d"] (fun _ => Buffer.zero) standardFiles) τ q ∧
      (2, ⟨.thread (.point (.close 4)), some (0 : ℤ)⟩) ∈ τ.map (fun a => (a.task, a.event)) ∧
      (1, ⟨.thread (.posix (.close 3)), (0 : ℤ)⟩) ∈ τ.map (fun a => (a.task, a.event)) ∧
      ∀ a ∈ τ, ∀ n kind, kind ≠ .client → a.before.files n = some kind →
        a.after.files n = some kind ∨ (roleOf a.task ≠ .client ∧ ∃ b ∈ τ, b.event = ⟨.socket, n⟩) ∨
          a.task = 0 ∧ daemonMode ["aesdsocket", "-d"] = true ∧ 0 ≤ n ∧ n < 3 := by
  obtain ⟨τ, q, hq, hτ, -⟩ := exists_daemonRun
  refine ⟨τ, q, hq, ?_, ?_, descriptors_kept hq⟩
  · rw [hτ]
    simp [daemonRun, hangUp, finished, cleanUp, Event.ofThread, Event.enabled]
  · rw [hτ]
    simp [daemonRun, catchSignal]

end Closing

/-! ### What `daemonize` makes of the first three descriptors -/

section Detached

variable {inherited : ℕ → Bool} {δ : ℕ → View} {s s' : Process} {t : ℕ} {v' : View}
  {daemon : Bool} {υ : List (Act process Process)} {a : Act process Process}

/-- Main accepts with the first three descriptors redirected. -/
def AcceptsDetached (inherited : ℕ → Bool) (υ : List (Act process Process)) : Prop :=
  ∀ b ∈ υ, ∀ fd r, b.event = ⟨.thread (.accept fd), r⟩ →
    (∀ m : ℕ, m < 3 → inherited m = true) ∧
      ((∀ c ∈ υ, ∀ flags, c.event ≠ ⟨.openNull flags, (-1 : ℤ)⟩) →
        ∀ j : ℕ, j < 3 → b.before.files j = some (.null (nullFlags j)))

/-- What holds in a run of the first three descriptors. -/
structure Detached (inherited : ℕ → Bool) (daemon : Bool) (υ : List (Act process Process))
    (g : View) (s : Process) : Prop where
  /-- The socket is the lowest descriptor that was free. -/
  lowest : g.stage ≠ .boot → ∀ m : ℕ, (m : ℤ) < g.socket → inherited m = true
  /-- What `daemonize` has got of `/dev/null`. -/
  noted : ∀ fd ∈ g.nulls, ∃ b ∈ υ, ∃ flags, b.event = ⟨.openNull flags, fd⟩
  /-- The socket is not among the descriptors that have been closed. -/
  closed : ∀ k, g.stage = .detaching k → ∀ j : ℕ, j < k → j < 3 → s.files j ≠ some .listener
  /-- The descriptors are opened again in their order. -/
  nulls : ∀ k, g.stage = .detaching k → 3 ≤ g.socket → -1 ∉ g.nulls →
    ∀ j : ℕ, j < 3 → j < k → s.files j = if j + 3 < k then some (.null (nullFlags j)) else none
  /-- They stay so while main serves. -/
  serving : g.stage = .serving → daemon = true → 3 ≤ g.socket ∧
    (-1 ∉ g.nulls → ∀ j : ℕ, j < 3 → s.files j = some (.null (nullFlags j)))
  /-- So main accepts with the first three descriptors redirected. -/
  accepts : daemon = true → ∀ b ∈ υ, ∀ fd r, b.event = ⟨.thread (.accept fd), r⟩ →
    (∀ m : ℕ, m < 3 → inherited m = true) ∧
      ((∀ c ∈ υ, ∀ flags, c.event ≠ ⟨.openNull flags, (-1 : ℤ)⟩) →
        ∀ j : ℕ, j < 3 → b.before.files j = some (.null (nullFlags j)))

/-- A descriptor that only main, or nobody, has to do with. -/
theorem Upheld.kept (h : Upheld inherited δ s) {e : Event process}
    (heffect : s.effect t e.op e.res = some s')
    (hstep : (roleOf t).step daemon (δ t) e = some v') {n : ℤ} {kind : FileKind}
    (hkind : kind ≠ .client) (hn : s.files n = some kind) (hsocket : n ≠ (δ 0).socket)
    (hstage : t = 0 → ∀ k, (δ 0).stage = .detaching k → v'.stage ≠ .detaching (k + 1)) :
    s'.files n = some kind := by
  rcases (Process.touches_of_effect heffect).kept hn with hafter | he
  · exact hafter
  rcases h.closes heffect hstep he hn with hclient | ⟨-, -, hno⟩ | ⟨ht, k, -, hk, hk', -⟩
  · exact absurd hclient hkind
  · exact absurd hno hsocket
  · exact absurd hk' (hstage ht k hk)

/-- Before main serves the others open nothing. -/
theorem Upheld.opened (h : Upheld inherited δ s) {e : Event process}
    (heffect : s.effect t e.op e.res = some s')
    (hstep : (roleOf t).step daemon (δ t) e = some v') {n : ℤ} {kind : FileKind}
    (hn : s'.files n = some kind)
    (hmain : t = 0 → v'.stage = (δ 0).stage) (hserving : (δ 0).stage ≠ .serving) :
    s.files n = some kind := by
  refine ((Process.touches_of_effect heffect).opened hn).resolve_right fun ho => ?_
  obtain ⟨o, r⟩ := e
  rw [roleOf] at hstep
  by_cases ht : t = 0
  · have hsame := hmain ht
    subst ht
    rw [if_pos rfl] at hstep
    cases View.moves_of_main hstep with
    | stay _ _ _ hopens _ => exact hserving (hopens kind ho).2
    | create hstage =>
        rw [hstage] at hsame
        cases hsame
    | @openNull k _ hstage _ =>
        rw [hstage] at hsame
        have hk : k + 1 = k := Stage.detaching.inj hsame
        omega
    | _ => cases ho
  · rw [if_neg ht] at hstep
    by_cases hodd : t % 2 = 1
    · rw [if_pos hodd] at hstep
      cases (View.signal_touches hstep).1.symm.trans ho
    · rw [if_neg hodd] at hstep
      cases o with
      | thread o =>
          obtain ⟨-, hawake⟩ := (View.client_touches hstep).1 kind ho
          rw [((h.views t).early hserving).2] at hawake
          cases hawake
      | _ => cases hstep

/-- The rest of the invariant when main stays where it is. -/
theorem Detached.quiet (hJ : Detached inherited daemon υ (δ 0) a.before)
    (h : Upheld inherited δ a.before)
    (heffect : a.before.effect a.task a.event.op a.event.res = some a.after)
    (hstep : (roleOf a.task).step daemon (δ a.task) a.event = some v') {w : View}
    (hw : Function.update δ a.task v' 0 = w) (hstage : w.stage = (δ 0).stage)
    (hsocket : w.socket = (δ 0).socket) (hnulls : w.nulls = (δ 0).nulls)
    (haccepts : daemon = true → AcceptsDetached inherited (υ ++ [a])) :
    Detached inherited daemon (υ ++ [a]) w a.after := by
  have hmain : a.task = 0 → v'.stage = (δ 0).stage := by
    intro ht
    rw [ht, Function.update_self] at hw
    rw [hw, hstage]
  have hkept : ∀ {n : ℤ} {kind : FileKind}, kind ≠ .client → a.before.files n = some kind →
      n ≠ (δ 0).socket → a.after.files n = some kind := by
    intro n kind hkind hn hne
    refine h.kept heffect hstep hkind hn hne fun ht k hk hno => ?_
    rw [hmain ht, hk] at hno
    have hk' : k = k + 1 := Stage.detaching.inj hno
    omega
  have hopened : (δ 0).stage ≠ .serving → ∀ {n : ℤ} {kind : FileKind},
      a.after.files n = some kind → a.before.files n = some kind :=
    fun hserving _ _ hn => h.opened heffect hstep hn hmain hserving
  refine ⟨?_, ?_, ?_, ?_, ?_, haccepts⟩
  · rw [hstage, hsocket]
    exact hJ.lowest
  · rw [hnulls]
    intro fd hfd
    obtain ⟨b, hb, hevent⟩ := hJ.noted fd hfd
    exact ⟨b, List.mem_append_left _ hb, hevent⟩
  · rw [hstage]
    intro k hk j hjk hj hno
    exact hJ.closed k hk j hjk hj (hopened (by simp [hk]) hno)
  · rw [hstage, hsocket, hnulls]
    intro k hk hthree hnone j hj hjk
    have hbefore := hJ.nulls k hk hthree hnone j hj hjk
    by_cases hnull : j + 3 < k
    · rw [if_pos hnull] at hbefore ⊢
      exact hkept (by simp) hbefore (by omega)
    · rw [if_neg hnull] at hbefore ⊢
      by_contra hno
      obtain ⟨kind, hkind⟩ := Option.ne_none_iff_exists'.mp hno
      rw [hopened (by simp [hk]) hkind] at hbefore
      cases hbefore
  · rw [hstage, hsocket, hnulls]
    intro hserving hdaemon
    obtain ⟨hthree, hfiles⟩ := hJ.serving hserving hdaemon
    exact ⟨hthree, fun hnone j hj => hkept (by simp) (hfiles hnone j hj) (by omega)⟩

/-- Main calls `accept` only while it serves. -/
theorem Detached.accepted (hJ : Detached inherited daemon υ (δ 0) a.before)
    (hstep : (roleOf a.task).step daemon (δ a.task) a.event = some v') (hdaemon : daemon = true) :
    AcceptsDetached inherited (υ ++ [a]) := by
  intro b hb fd r hevent
  rcases List.mem_append.mp hb with hb | hb
  · obtain ⟨hinherited, hfiles⟩ := hJ.accepts hdaemon b hb fd r hevent
    exact ⟨hinherited, fun hno => hfiles fun c hc => hno c (List.mem_append_left _ hc)⟩
  · obtain rfl := List.mem_singleton.mp hb
    rw [hevent] at hstep
    obtain ⟨hrole, hserving, -⟩ := Role.accept_of_step hstep
    rw [eq_zero_of_roleOf hrole] at hserving
    obtain ⟨hthree, hfiles⟩ := hJ.serving hserving hdaemon
    refine ⟨fun m hm => hJ.lowest (by simp [hserving]) m (by omega), fun hno => hfiles ?_⟩
    intro hmem
    obtain ⟨c, hc, flags, hcevent⟩ := hJ.noted _ hmem
    exact hno c (List.mem_append_left _ hc) flags hcevent

/-- `socket` gives the lowest descriptor that is free. -/
theorem Upheld.lowest (h : Upheld inherited δ s) (hboot : (δ 0).stage = .boot) {fd : ℤ}
    (hs : s.opens .listener fd = some s') (m : ℕ) (hm : (m : ℤ) < fd) : inherited m = true := by
  rcases Process.opens_eq hs with ⟨hfd, -⟩ | ⟨-, ⟨-, -, hlowest⟩, -⟩
  · omega
  · have hopen := hlowest m (by omega)
    rw [h.boot hboot] at hopen
    by_contra hno
    refine hopen (if_neg fun hinherited => hno ?_)
    simpa using hinherited.2

/-- `/dev/null` comes to the lowest of the three descriptors that has not been opened again. -/
theorem Detached.reopened (hJ : Detached inherited daemon υ (δ 0) s) {k : ℕ}
    (hstage : (δ 0).stage = .detaching k) (hk : 3 ≤ k) {fd : ℤ} (hfd : fd ≠ -1)
    (hs : s.opens (.null (nullFlags (k - 3))) fd = some s') (hthree : 3 ≤ (δ 0).socket)
    (hnone : -1 ∉ (δ 0).nulls) (j : ℕ) (hj : j < 3) :
    s'.files j = if j + 3 < k + 1 then some (.null (nullFlags j)) else none := by
  have hfiles := hJ.nulls k hstage hthree hnone
  obtain ⟨hno, -⟩ | ⟨-, ⟨hnonneg, hfree, hlowest⟩, rfl⟩ := Process.opens_eq hs
  · exact absurd hno hfd
  show Function.update s.files fd _ (j : ℤ) = _
  have hj' := hfiles j hj (by omega)
  obtain ⟨m, rfl⟩ := Int.eq_ofNat_of_zero_le hnonneg
  rw [Int.toNat_natCast] at hlowest
  -- what is free and lower than `k - 3` is none of the three
  have hm : k < 6 → m + 3 = k := by
    intro hk6
    rcases Nat.lt_trichotomy (m + 3) k with hlt | heq | hgt
    · have hbusy := hfiles m (by omega) (by omega)
      rw [if_pos hlt] at hbusy
      exact absurd (hfree.symm.trans hbusy) (by simp)
    · exact heq
    · have hbusy := hfiles (k - 3) (by omega) (by omega)
      rw [if_neg (by omega)] at hbusy
      exact absurd hbusy (hlowest (k - 3) (by omega))
  by_cases hjm : (j : ℤ) = m
  · obtain rfl : j = m := by omega
    have hnot : ¬j + 3 < k := by
      intro hlt
      rw [if_pos hlt] at hj'
      exact absurd (hfree.symm.trans hj') (by simp)
    have hjk : j = k - 3 := by omega
    rw [Function.update_self, if_pos (by omega), hjk]
  · rw [Function.update_of_ne hjm, hj']
    have hiff : j + 3 < k ↔ j + 3 < k + 1 := ⟨fun hlt => by omega, fun hlt => by omega⟩
    exact if_congr hiff rfl rfl

theorem Detached.noted_concat (hJ : Detached inherited daemon υ (δ 0) s) :
    ∀ fd ∈ (δ 0).nulls, ∃ b ∈ υ ++ [a], ∃ flags, b.event = ⟨.openNull flags, fd⟩ := fun fd hfd =>
  (hJ.noted fd hfd).imp fun _ hb => ⟨List.mem_append_left _ hb.1, hb.2⟩

/-- `daemonize` closes one of the three descriptors. -/
theorem Detached.close (hJ : Detached inherited daemon υ (δ 0) s) {k : ℕ}
    (hstage : (δ 0).stage = .detaching k) (hk : k < 3)
    (haccepts : daemon = true → AcceptsDetached inherited (υ ++ [a])) :
    Detached inherited daemon (υ ++ [a]) { δ 0 with stage := .detaching (k + 1) } (s.closes k) where
  lowest _ := hJ.lowest (by simp [hstage])
  noted := hJ.noted_concat
  closed k' hk' j hjk hj hno := by
    cases hk'
    obtain ⟨hne, hn⟩ := Process.closes_files hno
    exact hJ.closed k hstage j (by omega) hj hn
  nulls k' hk' hthree hnone j hj hjk := by
    cases hk'
    rw [if_neg (by omega)]
    by_cases hjk' : j = k
    · rw [hjk']
      exact Function.update_self _ _ _
    · have hbefore := hJ.nulls k hstage hthree hnone j hj (by omega)
      rw [if_neg (by omega)] at hbefore
      exact Process.closes_none hbefore
  serving hno := by cases hno
  accepts := haccepts

/-- `daemonize` opens `/dev/null`. -/
theorem Detached.openNull (hJ : Detached inherited daemon υ (δ 0) s) {k : ℕ} {fd : ℤ}
    (hstage : (δ 0).stage = .detaching k) (hk : 3 ≤ k)
    (hs : s.opens (.null (nullFlags (k - 3))) fd = some s')
    (hevent : a.event = ⟨.openNull (nullFlags (k - 3)), fd⟩)
    (haccepts : daemon = true → AcceptsDetached inherited (υ ++ [a])) :
    Detached inherited daemon (υ ++ [a])
      { δ 0 with stage := .detaching (k + 1), nulls := (δ 0).nulls ++ [fd] } s' where
  lowest _ := hJ.lowest (by simp [hstage])
  noted fd' hfd' := by
    rcases List.mem_append.mp hfd' with hmem | hmem
    · exact hJ.noted_concat fd' hmem
    · obtain rfl := List.mem_singleton.mp hmem
      exact ⟨a, List.mem_concat_self, _, hevent⟩
  closed k' hk' j hjk hj hno := by
    cases hk'
    have hbefore := (Process.opens_files hs hno).resolve_right fun hno => by cases hno.1
    exact hJ.closed k hstage j (by omega) hj hbefore
  nulls k' hk' hthree hnone j hj hjk := by
    cases hk'
    rw [List.mem_append, not_or, List.mem_singleton] at hnone
    exact hJ.reopened hstage hk (Ne.symm hnone.2) hs hthree hnone.1 j hj
  serving hno := by cases hno
  accepts := haccepts

/-- The three descriptors have been redirected when main listens, and the socket is none of them. -/
theorem Detached.listen (hJ : Detached inherited daemon υ (δ 0) s) (h : Upheld inherited δ s)
    (hstage : (δ 0).stage = if daemon then .detaching 6 else .stored) {fd : ℤ}
    (hlistener : s.files fd = some .listener)
    (haccepts : daemon = true → AcceptsDetached inherited (υ ++ [a])) :
    Detached inherited daemon (υ ++ [a]) { δ 0 with stage := .serving } s where
  lowest _ := hJ.lowest (by rw [hstage]; split <;> simp)
  noted := hJ.noted_concat
  closed _ hno := by cases hno
  nulls _ hno := by cases hno
  serving _ hdaemon := by
    rw [if_pos hdaemon] at hstage
    obtain ⟨-, hsocket, -⟩ := h.listener _ hlistener
    have hnonneg : 0 ≤ (δ 0).socket := by
      by_contra hno
      rw [hsocket, h.negative _ (by omega)] at hlistener
      cases hlistener
    have hthree : 3 ≤ (δ 0).socket := by
      by_contra hno
      refine hJ.closed 6 hstage (δ 0).socket.toNat (by omega) (by omega) ?_
      rw [Int.toNat_of_nonneg hnonneg, ← hsocket]
      exact hlistener
    refine ⟨hthree, fun hnone j hj => ?_⟩
    have hfiles := hJ.nulls 6 hstage hthree hnone j hj (by omega)
    rwa [if_pos (by omega)] at hfiles
  accepts := haccepts

/-- **The step lemma.** -/
theorem Detached.step (hJ : Detached inherited daemon υ (δ 0) a.before)
    (h : Upheld inherited δ a.before)
    (heffect : a.before.effect a.task a.event.op a.event.res = some a.after)
    (hstep : (roleOf a.task).step daemon (δ a.task) a.event = some v') :
    Detached inherited daemon (υ ++ [a]) (Function.update δ a.task v' 0) a.after := by
  have haccepts := hJ.accepted hstep
  by_cases ht : a.task = 0
  · obtain ⟨t, hist, ⟨o, r⟩, before, after⟩ := a
    dsimp only at ht hJ h heffect hstep haccepts ⊢
    subst ht
    rw [Function.update_self]
    cases View.moves_of_main hstep with
    | stay hstage hsocket hnulls _ _ =>
        exact hJ.quiet (a := ⟨0, hist, ⟨o, r⟩, before, after⟩) h heffect hstep
          (Function.update_self _ _ _) hstage hsocket hnulls haccepts
    | create hstage =>
        exact ⟨fun _ => h.lowest hstage heffect, hJ.noted_concat, fun _ hno => (by cases hno),
          fun _ hno => (by cases hno), fun hno => (by cases hno), haccepts⟩
    | store hstage =>
        exact ⟨fun _ => hJ.lowest (by simp [hstage]), hJ.noted_concat, fun _ hno => (by cases hno),
          fun _ hno => (by cases hno), fun hno => (by cases hno), haccepts⟩
    | fork hstage hdaemon =>
        refine ⟨fun _ => hJ.lowest (by simp [hstage]), hJ.noted_concat, fun k hk j hjk => ?_,
          fun k hk _ _ j _ hjk => ?_, fun hno => (by cases hno), haccepts⟩
        · cases hk
          omega
        · cases hk
          omega
    | close hstage hk =>
        obtain ⟨s₁, hs₁, rfl⟩ := Process.effect_of_isOutside rfl heffect
        cases hs₁
        exact hJ.close hstage hk haccepts
    | openNull hstage hk => exact hJ.openNull hstage hk heffect rfl haccepts
    | listen hstage hr =>
        obtain ⟨hfile, hsame⟩ := Option.ite_none_right_eq_some.mp heffect
        cases hsame
        exact hJ.listen h hstage (hfile.resolve_left hr) haccepts
  · rw [Function.update_of_ne (Ne.symm ht)]
    exact hJ.quiet (w := δ 0) h heffect hstep (Function.update_of_ne (Ne.symm ht) _ _) rfl rfl rfl
      haccepts

/-- **A daemon serves detached.** In every run as a daemon main accepts only if the descriptors 0, 1
and 2 were open when the program was started, and then, unless an `open` of `/dev/null` has failed,
they are `/dev/null` for reading, writing and writing, whatever signals and threads close. -/
theorem daemon_detached {argv : List String} {buffers : ℕ → Buffer}
    {q : Pool process Process (Option ℤ)} {τ : List (Act process Process)}
    (hrun : Steps (aesdsocket argv buffers) (aesdsocketInit argv buffers inherited) τ q)
    (hdaemon : daemonMode argv = true) :
    ∀ b ∈ τ, ∀ fd r, b.event = ⟨.thread (.accept fd), r⟩ →
      (∀ m : ℕ, m < 3 → inherited m = true) ∧
        ((∀ c ∈ τ, ∀ flags, c.event ≠ ⟨.openNull flags, (-1 : ℤ)⟩) →
          ∀ j : ℕ, j < 3 → b.before.files j = some (.null (nullFlags j))) := by
  obtain ⟨δ, -, -, hJ⟩ := upheld_of_steps hrun
    (J := fun υ δ s => Detached inherited (daemonMode argv) υ (δ 0) s)
    ⟨fun hno => absurd rfl hno, fun _ hno => absurd hno List.not_mem_nil,
      fun _ hno => (by cases hno), fun _ hno => (by cases hno), fun hno => (by cases hno),
      fun _ _ hno => absurd hno List.not_mem_nil⟩
    fun υ δ a v' h hJ heffect hstep => hJ.step h heffect hstep
  exact hJ.accepts hdaemon

theorem daemon_detached_daemon : ∃ τ q,
    Steps (aesdsocket ["aesdsocket", "-d"] fun _ => Buffer.zero)
      (aesdsocketInit ["aesdsocket", "-d"] (fun _ => Buffer.zero) standardFiles) τ q ∧
      ∃ b ∈ τ, b.event = ⟨.thread (.accept 3), (4 : ℤ)⟩ ∧
        ∀ j : ℕ, j < 3 → b.before.files j = some (.null (nullFlags j)) := by
  obtain ⟨τ, q, hq, hτ, -⟩ := exists_daemonRun
  have hmem : (0, ⟨.thread (.accept 3), (4 : ℤ)⟩) ∈ τ.map (fun a => (a.task, a.event)) := by
    rw [hτ]
    simp [daemonRun, comeUp, connect, Event.ofThread]
  obtain ⟨b, hb, hevent⟩ := List.mem_map.mp hmem
  have hb' : b.event = ⟨.thread (.accept 3), (4 : ℤ)⟩ := congrArg Prod.snd hevent
  refine ⟨τ, q, hq, b, hb, hb', (daemon_detached hq rfl b hb 3 4 hb').2 fun c hc flags hno => ?_⟩
  -- no `open` of `/dev/null` fails in this run
  have hc' : (c.task, ⟨.openNull flags, (-1 : ℤ)⟩) ∈ daemonRun := by
    rw [← hτ, ← hno]
    exact List.mem_map_of_mem hc
  cases flags <;> simp [daemonRun, comeUp, startDaemon, connect, hangUp, finished, opened, cleanUp,
    catchSignal, goDown, leave, terminate, Event.ofThread, Event.enabled] at hc'

end Detached

end Aesd.Server

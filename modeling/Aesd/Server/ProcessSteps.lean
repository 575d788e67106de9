import Aesd.Server.ProcessInvariant

/-! # The steps of the process

Main, the signal handler and the handlers of the connections keep the invariant, one operation after
the other. -/

namespace Aesd.Server

open Effects CLib

/-! ### The signal handler -/

section Signals

variable {inherited : ℕ → Bool} {δ : ℕ → View} {s s' : Process} {t : ℕ} {v' : View}

/-- The threads know nothing of the operation. -/
def ThreadOp.isOutside : ThreadOp → Bool
  | .posix (.syslog _) | .posix (.close _) | .syslogInfo _ | .loadServerFd | .terminateProgram => true
  | _ => false

theorem Threads.answer_of_isOutside {t : ℕ} {s s' : Threads} {o : ThreadOp} {r : ThreadRes o}
    (ho : o.isOutside = true) (h : s.answer t o r = some s') : s' = s := by
  rw [Threads.answer, Option.ite_none_left_eq_some] at h
  obtain ⟨-, h⟩ := h
  cases o with
  | posix o =>
      cases o with
      | syslog | close =>
          cases h
          rfl
      | _ => cases ho
  | syslogInfo | loadServerFd | terminateProgram =>
      cases h
      rfl
  | _ => cases ho

/-- What an operation does that the threads know nothing of. -/
theorem Process.effect_of_isOutside {o : ThreadOp} {r : ThreadRes o} (ho : o.isOutside = true)
    (h : s.effect t (.thread o) r = some s') :
    ∃ s₁, s.threadEffect o r = some s₁ ∧ s' = { s₁ with threads := s.threads } := by
  obtain ⟨s₁, threads, hs₁, hthreads, rfl⟩ := Process.effect_thread h
  rw [Threads.answer_of_isOutside ho hthreads]
  exact ⟨s₁, hs₁, rfl⟩

/-- What has been read of `server_fd`. -/
theorem Upheld.load (h : Upheld inherited δ s) {v : View} (hv : v.Valid (δ 0) s) :
    (v.load s.serverFd).Valid (δ 0) s :=
  hv.load h.unset h.serverFd h.forgotten

/-- The invariant is kept by the signal handler. -/
theorem Upheld.signal (h : Upheld inherited δ s) (ht : t ≠ 0) {o : ProcessOp} {r : ProcessRes o}
    (hstep : (δ t).signal o r = some v') (heffect : s.effect t o r = some s') :
    Upheld inherited (Function.update δ t v') s' := by
  have hg : Function.update δ t v' 0 = δ 0 := Function.update_of_ne ht.symm _ _
  have hv := h.views t
  have hquiet : v'.Valid (δ 0) s → s' = s → Upheld inherited (Function.update δ t v') s' := by
    rintro hview rfl
    exact h.quiet hg (.refl _) id hview rfl rfl rfl h.servinfo h.defined id h.early h.nodes
  cases o with
  | caught =>
      cases hstep
      obtain ⟨-, heffect⟩ := Option.ite_none_right_eq_some.mp heffect
      exact hquiet hv (Option.some.inj heffect).symm
  | setTerminate =>
      cases hstep
      cases heffect
      have hs : s.Leaves { s with terminate := true } (δ 0) :=
        ⟨fun _ => id, fun _ => rfl, fun _ _ => id, id, fun _ _ => id⟩
      refine h.move hg (.refl _) hs ?_ (fun _ => id) (.inl rfl) h.servinfo h.defined h.early
        (fun _ => rfl) h.nodes fun _ hno => by cases hno
      exact (hv.later hs (fun hst => ⟨hst, rfl⟩) id).flag rfl
  | storeServerFd fd =>
      obtain ⟨⟨hfd, hgone, hflagged⟩, hview⟩ := Option.ite_none_right_eq_some.mp hstep
      cases hview
      cases heffect
      obtain ⟨hknown, hgone⟩ := hv.gone hgone
      have hs : s.Leaves { s with serverFd := fd } (δ 0) := Process.leaves_of_eq rfl rfl id
      refine h.move hg (.refl _) hs (hv.later hs (fun hst => ⟨hst, rfl⟩) id) (fun _ => id)
        (.inr ⟨hfd, hgone⟩) h.servinfo h.defined h.early (fun _ => rfl) h.nodes fun _ hno => ?_
      -- the flag is set before the socket is closed
      rw [hv.flagged hflagged] at hno
      cases hno
  | thread o =>
      cases o with
      | syslogInfo =>
          cases hstep
          obtain ⟨s₁, hs₁, rfl⟩ := Process.effect_of_isOutside rfl heffect
          cases hs₁
          exact hquiet hv rfl
      | loadServerFd =>
          cases hstep
          obtain ⟨s₁, hs₁, rfl⟩ := Process.effect_of_isOutside rfl heffect
          obtain ⟨hfd, hs⟩ := Option.ite_none_right_eq_some.mp hs₁
          cases hs
          subst hfd
          exact hquiet (h.load hv) rfl
      | posix o =>
          cases o with
          | close fd =>
              obtain ⟨hflagged, hstep⟩ := Option.ite_none_right_eq_some.mp hstep
              obtain ⟨⟨hfd, hknown⟩, hview⟩ := Option.ite_none_right_eq_some.mp hstep
              cases hview
              obtain ⟨s₁, hs₁, rfl⟩ := Process.effect_of_isOutside rfl heffect
              cases hs₁
              subst hfd
              refine h.close hg (.refl _) id ?_ h.servinfo (hv.ne_boot hknown) fun _ hno => ?_
              · exact (hv.later Process.leaves_closes (fun hst => ⟨hst, rfl⟩) id).closeArg hknown
                  (h.gone_of_close hv hknown)
              · rw [hv.flagged hflagged] at hno
                cases hno
          | _ => cases hstep
      | _ => cases hstep
  | _ => cases hstep

end Signals

/-! ### The handlers of the connections -/

/-- A step that opens or closes at most a connection or the device. -/
structure Process.Serves (s s₁ : Process) : Prop where
  /-- Only the descriptors change. -/
  rest : s₁ = { s with files := s₁.files }
  /-- What is neither a connection nor the device stays. -/
  others : ∀ n kind, kind ≠ .client → (s₁.files n = some kind ↔ s.files n = some kind)
  /-- No descriptor is negative. -/
  negative : ∀ n < 0, s.files n = none → s₁.files n = none

section Serves

variable {s s₁ s' : Process} {fd : ℤ}

theorem Process.Serves.refl (s : Process) : s.Serves s :=
  ⟨rfl, fun _ _ _ => Iff.rfl, fun _ _ => id⟩

theorem Process.serves_opens (h : s.opens .client fd = some s₁) : s.Serves s₁ := by
  refine ⟨Process.opens_rest h, fun n kind hkind => ⟨fun hn => ?_, Process.opens_keeps h⟩,
    fun n hn => Process.opens_negative h hn⟩
  exact (Process.opens_files h hn).resolve_right fun hno => hkind hno.1

theorem Process.serves_closes (hfd : s.Disposable fd) : s.Serves (s.closes fd) := by
  refine ⟨rfl, fun n kind hkind => ⟨fun hn => (Process.closes_files hn).2, fun hn => ?_⟩,
    fun _ _ => Process.closes_none⟩
  refine (Process.closes_keeps ?_).trans hn
  rintro rfl
  exact hkind (hfd kind hn)

theorem Process.Serves.disposable (h : s.Serves s₁) {n : ℤ} (hn : s.Disposable n) :
    s₁.Disposable n := by
  intro kind hkind
  by_contra hno
  exact hno (hn kind ((h.others n kind hno).mp hkind))

theorem Process.Serves.leaves (h : s.Serves s₁) {threads : Threads} {g : View}
    (hundefined : s.threads.undefined = false) : s.Leaves { s₁ with threads := threads } g where
  gone _ hgone n hn := hgone n ((h.others n _ (by simp)).mp hn)
  terminate hs := by
    rw [h.rest]
    exact hs
  disposable _ n hn := h.disposable hn
  undefined _ := hundefined
  negative n hn hnone := h.negative n hn hnone

/-- What has been opened for a client is of no use to the others. -/
theorem Process.disposable_of_opens (h : s.opens .client fd = some s₁)
    (hnegative : ∀ n < 0, s.files n = none) : s₁.Disposable fd := by
  intro kind hkind
  rcases Process.opens_eq h with ⟨rfl, rfl⟩ | ⟨-, -, rfl⟩
  · rw [hnegative _ (by omega)] at hkind
    cases hkind
  · replace hkind : Function.update s.files fd (some .client) fd = some kind := hkind
    rw [Function.update_self] at hkind
    exact (Option.some.inj hkind).symm

/-- What a system call of a handler does to the descriptors. -/
theorem Process.serves_callEffect {o : PosixOp} {r : PosixRes o} (h : s.callEffect o r = some s₁)
    (hclose : ∀ fd, o = .close fd → s.Disposable fd) : s.Serves s₁ := by
  cases o with
  | openFile => exact Process.serves_opens h
  | close fd =>
      cases h
      exact Process.serves_closes (hclose fd rfl)
  | _ =>
      cases h
      exact .refl s

end Serves

section Clients

variable {inherited : ℕ → Bool} {δ : ℕ → View} {s s₁ s' : Process} {t : ℕ} {v' g' : View}
  {threads : Threads}

/-- The invariant is kept by a step that serves a connection. -/
theorem Upheld.serve (h : Upheld inherited δ s) (hg : Function.update δ t v' 0 = g')
    (hmain : (δ 0).Continues g') (hservinfo : g'.servinfo = (δ 0).servinfo)
    (hserving : (δ 0).stage = .serving) (hs : s.Serves s₁)
    (hundefined : s.threads.undefined = false) (hnodes : threads.ClientFds s.Disposable)
    (hview : v'.Valid g' { s₁ with threads := threads }) :
    Upheld inherited (Function.update δ t v') { s₁ with threads := threads } := by
  have hrest := hs.rest
  have hstage : g'.stage = .serving := hmain.serving hserving
  refine h.move hg hmain (hs.leaves hundefined) hview (fun n hn => (hs.others n _ (by simp)).mp hn)
    ?_ ?_ ?_ (fun hno => absurd hstage hno) (fun hno => ?_)
    (fun n node fd hn hfd => hs.disposable (hnodes n node fd hn hfd)) fun _ hno => ?_
  · rw [hrest]
    exact .inl rfl
  · rw [hrest]
    exact h.servinfo.trans hservinfo.symm
  · rw [hrest]
    exact h.defined
  · rw [hstage] at hno
    cases hno
  · have hterminate : s.terminate = false := by
      rw [hrest] at hno
      exact hno
    obtain ⟨hserverFd, hfile⟩ := h.listening hserving hterminate
    rw [hmain.socket]
    refine ⟨?_, (hs.others _ _ (by simp)).mpr hfile⟩
    rw [hrest]
    exact hserverFd

/-- The invariant is kept by a system call of a handler. -/
theorem Upheld.call (h : Upheld inherited δ s) (ht : t ≠ 0) (hawake : (δ t).awake = true)
    {o : PosixOp} {r : PosixRes o} (hstep : (δ t).call o r = some v')
    (hs₁ : s.callEffect o r = some s₁)
    (hthreads : s.threads.answer (t / 2) (.posix o) r = some threads ∨
      s.threads.answer (t / 2) (.point o) (some r) = some threads) :
    Upheld inherited (Function.update δ t v') { s₁ with threads := threads } := by
  have hg : Function.update δ t v' 0 = δ 0 := Function.update_of_ne ht.symm _ _
  have hv := h.views t
  have hserving : (δ 0).stage = .serving := by
    by_contra hno
    rw [(hv.early hno).2] at hawake
    cases hawake
  have hundefined : s.threads.undefined = false :=
    hthreads.elim Threads.defined_of_answer Threads.defined_of_answer
  have hnodes : threads.ClientFds s.Disposable := by
    rcases hthreads with hthreads | hthreads
    · exact h.nodes.answer hthreads nofun
    · exact h.nodes.answer hthreads nofun
  have hs : s.Serves s₁ := by
    refine Process.serves_callEffect hs₁ ?_
    rintro fd rfl
    exact hv.numbers hundefined fd (Option.ite_none_right_eq_some.mp hstep).1
  have hlater : (δ t).Valid (δ 0) { s₁ with threads := threads } :=
    hv.later (hs.leaves hundefined) (fun hst => ⟨hst, rfl⟩) id
  refine h.serve hg (.refl _) rfl hserving hs hundefined hnodes ?_
  cases o with
  | loadClientFd n =>
      cases hstep
      exact hlater.number hserving fun hdefined =>
        hs.disposable (h.nodes.load hthreads hdefined)
  | openFile flags =>
      cases hstep
      have hfd : s₁.Disposable r.val := Process.disposable_of_opens hs₁ h.negative
      exact hlater.number hserving fun _ => hfd
  | close fd =>
      obtain ⟨-, hview⟩ := Option.ite_none_right_eq_some.mp hstep
      cases hview
      exact hlater
  | _ =>
      cases hstep
      exact hlater

/-- The invariant is kept by a handler. -/
theorem Upheld.client (h : Upheld inherited δ s) (ht : t ≠ 0) {o : ThreadOp} {r : ThreadRes o}
    (hstep : (δ t).client o r = some v') (heffect : s.effect t (.thread o) r = some s') :
    Upheld inherited (Function.update δ t v') s' := by
  have hg : Function.update δ t v' 0 = δ 0 := Function.update_of_ne ht.symm _ _
  obtain ⟨s₁, threads, hs₁, hthreads, rfl⟩ := Process.effect_thread heffect
  have hundefined := Threads.defined_of_answer hthreads
  have hquiet : s₁ = s → v'.Valid (δ 0) s → (∀ n fd, o ≠ .storeClientFd n fd) →
      (δ 0).stage = .serving → Upheld inherited (Function.update δ t v') { s₁ with threads := threads } := by
    rintro rfl hview ho hserving
    have hs := Process.Serves.refl s₁
    refine h.serve hg (.refl _) rfl hserving hs hundefined
      (h.nodes.answer hthreads fun n fd hno => absurd hno (ho n fd)) ?_
    exact hview.later (hs.leaves hundefined) (fun hst => ⟨hst, rfl⟩) id
  have hserving : (δ t).awake = true → (δ 0).stage = .serving := by
    intro hawake
    by_contra hno
    rw [((h.views t).early hno).2] at hawake
    cases hawake
  cases o with
  | start =>
      obtain ⟨-, hview⟩ := Option.ite_none_left_eq_some.mp hstep
      cases hview
      cases hs₁
      -- the thread has been started by main
      have hstarted : (δ 0).stage = .serving := by
        by_contra hno
        rw [h.early hno] at hthreads
        cases hthreads
      exact hquiet rfl { h.views t with early := fun hno => absurd hstarted hno } nofun hstarted
  | posix o =>
      obtain ⟨hawake, hcall⟩ := Option.ite_none_right_eq_some.mp hstep
      exact h.call ht hawake hcall hs₁ (.inl hthreads)
  | point o =>
      cases r with
      | some r =>
          obtain ⟨hawake, hcall⟩ := Option.ite_none_right_eq_some.mp hstep
          exact h.call ht hawake hcall hs₁ (.inr hthreads)
      | none =>
          obtain ⟨hawake, hview⟩ := Option.ite_none_right_eq_some.mp hstep
          cases hview
          cases hs₁
          exact hquiet rfl (h.views t) nofun (hserving hawake)
  | exit =>
      obtain ⟨hawake, hview⟩ := Option.ite_none_right_eq_some.mp hstep
      cases hview
      cases hs₁
      exact hquiet rfl (h.views t) nofun (hserving hawake)
  | _ => cases hstep

end Clients

/-! ### Main -/

section Main

variable {inherited : ℕ → Bool} {δ : ℕ → View} {s s₁ s' : Process} {v g w : View}
  {threads : Threads} {daemon : Bool}

/-- Main has got further and knows what it knew. -/
theorem View.Valid.same (h : v.Valid g s) (harg : w.arg = v.arg) (hknown : w.known = v.known)
    (hgone : w.gone = v.gone) (hflagged : w.flagged = v.flagged) (hawake : w.awake = v.awake)
    (hnumbers : w.numbers = v.numbers)
    (hstored : g.stage.isStored = true → w.stage.isStored = true ∧ w.socket = g.socket)
    (hserving : g.stage = .serving → w.stage = .serving) : w.Valid w s where
  stage := id
  known hv := (hstored (h.known (hknown ▸ hv))).1
  arg hv := by
    rw [harg, hknown]
    rw [harg] at hv
    obtain ⟨hv, hsocket⟩ := h.arg hv
    exact ⟨hv, hsocket.trans (hstored (h.known hv)).2.symm⟩
  missed hv hno := h.missed (hknown ▸ hv) (harg ▸ hno)
  gone hv := by
    rw [hknown]
    exact h.gone (hgone ▸ hv)
  flagged hv := h.flagged (hflagged ▸ hv)
  numbers hdefined := hnumbers ▸ h.numbers hdefined
  early hno := by
    rw [hnumbers, hawake]
    exact h.early fun hg => hno (hserving hg)

/-- A step of main that changes nothing that others see. -/
theorem Upheld.main_quiet (h : Upheld inherited δ s) (hmain : (δ 0).Continues w)
    (hserving : w.stage = .serving → (δ 0).stage = .serving) (hview : w.Valid w s)
    (hservinfo : s.servinfo = w.servinfo) : Upheld inherited (Function.update δ 0 w) s :=
  h.quiet (Function.update_self _ _ _) hmain hserving hview rfl rfl rfl hservinfo h.defined id
    (fun hno => h.early fun hg => hno (hmain.serving hg)) h.nodes

/-- Before main serves the threads have done nothing, and what main opens is of no concern to
them. -/
theorem Upheld.early_opens (h : Upheld inherited δ s) (hserving : (δ 0).stage ≠ .serving)
    {kind : FileKind} {fd : ℤ} (hs : s.opens kind fd = some s') : s'.threads = Threads.init := by
  rw [Process.opens_rest hs]
  exact h.early hserving

theorem Process.leaves_opens {g : View} (hserving : g.stage ≠ .serving) {kind : FileKind} {fd : ℤ}
    (hkind : g.stage.isStored = true → kind ≠ .listener) (hs : s.opens kind fd = some s') :
    s.Leaves s' g where
  gone hstored hgone n hn := by
    refine hgone n ((Process.opens_files hs hn).resolve_right fun hno => hkind hstored hno.1.symm)
  terminate := by rw [Process.opens_rest hs]; exact id
  disposable hno := absurd hno hserving
  undefined := by rw [Process.opens_rest hs]; exact id
  negative n hn := Process.opens_negative hs hn

/-- The socket is created. -/
theorem Upheld.create (h : Upheld inherited δ s) (hstage : (δ 0).stage = .boot) {fd : ℤ}
    (hs : s.opens .listener fd = some s') :
    Upheld inherited (Function.update δ 0 { δ 0 with stage := .created, socket := fd }) s' := by
  have hrest := Process.opens_rest hs
  have hunstored : ∀ {P : Prop}, (δ 0).stage.isStored = true → P := by
    intro P hno
    rw [hstage] at hno
    cases hno
  have hleaves : s.Leaves s' (δ 0) :=
    Process.leaves_opens (by simp [hstage]) (fun hno => hunstored hno) hs
  have hthreads : s'.threads = Threads.init := h.early_opens (by simp [hstage]) hs
  have hviews : ∀ u, (δ u).Valid { δ 0 with stage := .created, socket := fd } s' := fun u =>
    (h.views u).later hleaves (fun hno => hunstored hno) fun hno => by rw [hstage] at hno; cases hno
  refine
    { views := fun u => ?_
      listener := fun n hn => ?_
      unset := fun _ => ?_
      serverFd := fun hno => ?_
      forgotten := fun hno => ?_
      servinfo := ?_
      defined := ?_
      early := fun _ => hthreads
      negative := fun n hn => Process.opens_negative hs hn (h.negative n hn)
      boot := fun hno => ?_
      nodes := ?_
      listening := fun hno => ?_ }
  · rw [Function.update_self]
    by_cases hu : u = 0
    · rw [hu, Function.update_self]
      exact (hviews 0).same rfl rfl rfl rfl rfl rfl (fun hst => ⟨hst, rfl⟩) id
    · rw [Function.update_of_ne hu]
      exact hviews u
  · rw [Function.update_self]
    rcases Process.opens_files hs hn with hn | ⟨-, rfl, hne⟩
    · exact absurd hstage (h.listener n hn).1
    · exact ⟨by simp, rfl, hne⟩
  · rw [hrest]
    exact h.unset (by rw [hstage]; rfl)
  · rw [Function.update_self] at hno
    cases hno
  · rw [Function.update_self] at hno
    cases hno
  · rw [Function.update_self, hrest]
    exact h.servinfo
  · rw [hrest]
    exact h.defined
  · rw [Function.update_self] at hno
    cases hno
  · rw [hthreads]
    nofun
  · rw [Function.update_self] at hno
    cases hno

/-- `server_fd` is set to the socket. -/
theorem Upheld.store (h : Upheld inherited δ s) (hstage : (δ 0).stage = .created) :
    Upheld inherited (Function.update δ 0 { δ 0 with stage := .stored })
      { s with serverFd := (δ 0).socket } := by
  have hleaves : s.Leaves { s with serverFd := (δ 0).socket } (δ 0) :=
    Process.leaves_of_eq rfl rfl id
  have hviews : ∀ u, (δ u).Valid { δ 0 with stage := .stored } { s with serverFd := (δ 0).socket } :=
    fun u => (h.views u).later hleaves (fun _ => ⟨rfl, rfl⟩) fun hno => by rw [hstage] at hno; cases hno
  refine
    { views := fun u => ?_
      listener := fun n hn => ?_
      unset := fun hno => ?_
      serverFd := fun _ => ?_
      forgotten := fun _ hfd n hn => ?_
      servinfo := ?_
      defined := h.defined
      early := fun _ => h.early (by simp [hstage])
      negative := h.negative
      boot := fun hno => ?_
      nodes := h.nodes
      listening := fun hno => ?_ }
  · rw [Function.update_self]
    by_cases hu : u = 0
    · rw [hu, Function.update_self]
      exact (hviews 0).same rfl rfl rfl rfl rfl rfl (fun hst => ⟨hst, rfl⟩) id
    · rw [Function.update_of_ne hu]
      exact hviews u
  · rw [Function.update_self]
    obtain ⟨-, hsocket, hne⟩ := h.listener n hn
    exact ⟨by simp, hsocket, hne⟩
  · rw [Function.update_self] at hno
    cases hno
  · rw [Function.update_self]
    exact .inl rfl
  · obtain ⟨-, hsocket, hne⟩ := h.listener n hn
    exact hne (hsocket.trans hfd)
  · rw [Function.update_self]
    exact h.servinfo
  · rw [Function.update_self] at hno
    cases hno
  · rw [Function.update_self] at hno
    cases hno

/-- `/dev/null` is opened by `daemonize`. -/
theorem Upheld.detach (h : Upheld inherited δ s) {k : ℕ} (hstage : (δ 0).stage = .detaching k)
    {flags : NullFlags} {fd : ℤ} (hs : s.opens (.null flags) fd = some s') {nulls : List ℤ} :
    Upheld inherited
      (Function.update δ 0 { δ 0 with stage := .detaching (k + 1), nulls := nulls }) s' := by
  have hrest := Process.opens_rest hs
  have hlistener : ∀ n, s'.files n = some .listener → s.files n = some .listener := fun n hn =>
    (Process.opens_files hs hn).resolve_right nofun
  have hthreads : s'.threads = Threads.init := h.early_opens (by simp [hstage]) hs
  have hleaves : s.Leaves s' (δ 0) :=
    Process.leaves_opens (by simp [hstage]) (fun _ hno => by cases hno) hs
  have hstored : (δ 0).stage.isStored = true := by
    rw [hstage]
    rfl
  refine h.move (Function.update_self _ _ _) ⟨hstored.symm, rfl, by simp [hstage], by simp [hstage]⟩
    hleaves ?_ hlistener ?_ ?_ ?_ (fun _ => hthreads) nofun ?_ nofun
  · exact ((h.views 0).later hleaves (fun hst => ⟨hst, rfl⟩) id).same rfl rfl rfl rfl rfl rfl
      (fun _ => ⟨rfl, rfl⟩) (by simp [hstage])
  · rw [hrest]
    exact .inl rfl
  · rw [hrest]
    exact h.servinfo
  · rw [hrest]
    exact h.defined
  · rw [hthreads]
    nofun

/-- `listen` has succeeded. -/
theorem Upheld.listen (h : Upheld inherited δ s) (hstored : (δ 0).stage.isStored = true)
    (hfile : s.files (δ 0).arg = some .listener) :
    Upheld inherited (Function.update δ 0 { δ 0 with stage := .serving }) s := by
  have hs : s.Leaves s (δ 0) := Process.leaves_of_eq rfl rfl id
  have hboot : (δ 0).stage ≠ .boot := by
    intro hno
    rw [hno] at hstored
    cases hstored
  obtain ⟨-, hsocket, hne⟩ := h.listener _ hfile
  refine h.move (Function.update_self _ _ _) ⟨hstored.symm, rfl, by simp [hboot], fun _ => rfl⟩ hs ?_
    (fun _ => id) (.inl rfl) h.servinfo h.defined (fun hno => absurd rfl hno) nofun h.nodes ?_
  · exact (h.views 0).same rfl rfl rfl rfl rfl rfl (fun _ => ⟨rfl, rfl⟩) fun _ => rfl
  · intro _ _
    -- a socket that is open has not been forgotten
    refine ⟨(h.serverFd hstored).resolve_right fun hno => ?_, hsocket ▸ hfile⟩
    exact h.forgotten hstored hno _ hfile

/-- A close of main. -/
theorem Upheld.main_close (h : Upheld inherited δ s) {fd : ℤ}
    (hdefined : s.threads.undefined = false) (hstep : (δ 0).mainClose fd = some w) :
    Upheld inherited (Function.update δ 0 w) (s.closes fd) := by
  have hg : Function.update δ 0 w 0 = w := Function.update_self _ _ _
  have hv := h.views 0
  have hlater : (δ 0).Valid (δ 0) (s.closes fd) :=
    hv.later Process.leaves_closes (fun hst => ⟨hst, rfl⟩) id
  -- what has been read of `server_fd` is closed at an exit or after the loop
  have harg : (δ 0).closeArg fd = some w →
      ((δ 0).stage = .serving → (δ 0).flagged = true) → Upheld inherited (Function.update δ 0 w)
        (s.closes fd) := by
    intro hclose hflagged
    obtain ⟨⟨hfd, hknown⟩, hview⟩ := Option.ite_none_right_eq_some.mp hclose
    cases hview
    subst hfd
    refine h.close hg ⟨rfl, rfl, Iff.rfl, id⟩ id ?_ h.servinfo (hv.ne_boot hknown) fun hst hno => ?_
    · exact (hlater.closeArg hknown (h.gone_of_close hv hknown)).later
        (Process.leaves_of_eq rfl rfl id) (fun hst => ⟨hst, rfl⟩) id
    · rw [hv.flagged (hflagged hst)] at hno
      cases hno
  rw [View.mainClose] at hstep
  cases hstage : (δ 0).stage with
  | boot | created =>
      rw [hstage] at hstep
      cases hstep
  | stored =>
      rw [hstage] at hstep
      exact harg hstep fun hno => by rw [hstage] at hno; cases hno
  | detaching k =>
      rw [hstage] at hstep
      dsimp only at hstep
      split at hstep
      · obtain ⟨-, hview⟩ := Option.ite_none_right_eq_some.mp hstep
        cases hview
        refine h.close hg ⟨by rw [hstage]; rfl, rfl, by simp [hstage], by simp [hstage]⟩
          (fun hno => by cases hno) ?_ h.servinfo (by simp) (fun hno => by cases hno)
        exact hlater.same rfl rfl rfl rfl rfl rfl (fun _ => ⟨rfl, rfl⟩) (by simp [hstage])
      · exact harg hstep fun hno => by rw [hstage] at hno; cases hno
  | serving =>
      rw [hstage] at hstep
      dsimp only at hstep
      split at hstep
      · rename_i hflagged
        exact harg hstep fun _ => hflagged
      · obtain ⟨hfd, hview⟩ := Option.ite_none_right_eq_some.mp hstep
        cases hview
        refine h.close hg (.refl _) id hlater h.servinfo (by simp [hstage]) fun _ _ hno => ?_
        cases hv.numbers hdefined fd hfd _ hno

/-- `accept` has returned. -/
theorem Upheld.accept (h : Upheld inherited δ s) (hserving : (δ 0).stage = .serving) {fd r : ℤ}
    (hs₁ : s.threadEffect (.accept fd) r = some s₁)
    (hthreads : s.threads.answer 0 (.accept fd) r = some threads) :
    Upheld inherited (Function.update δ 0 ((δ 0).accepted r)) { s₁ with threads := threads } := by
  have hundefined := Threads.defined_of_answer hthreads
  have hg : Function.update δ 0 ((δ 0).accepted r) 0 = (δ 0).accepted r := Function.update_self _ _ _
  have hnodes : threads.ClientFds s.Disposable := h.nodes.answer hthreads nofun
  by_cases hr : r = -1
  · rw [Process.threadEffect, if_pos hr] at hs₁
    cases hs₁
    have hs := Process.Serves.refl s
    have hview : (δ 0).accepted r = { δ 0 with fresh := false } := if_pos hr
    rw [hview] at hg ⊢
    refine h.serve hg ⟨rfl, rfl, Iff.rfl, id⟩ rfl hserving hs hundefined hnodes ?_
    exact ((h.views 0).later (hs.leaves hundefined) (fun hst => ⟨hst, rfl⟩) id).same rfl rfl rfl rfl
      rfl rfl (fun hst => ⟨hst, rfl⟩) id
  · rw [Process.threadEffect, if_neg hr] at hs₁
    obtain ⟨-, hopen⟩ := Option.ite_none_right_eq_some.mp hs₁
    have hs := Process.serves_opens hopen
    have hview : (δ 0).accepted r = { δ 0 with fresh := false, numbers := r :: (δ 0).numbers } :=
      if_neg hr
    rw [hview] at hg ⊢
    refine h.serve hg ⟨rfl, rfl, Iff.rfl, id⟩ rfl hserving hs hundefined hnodes ?_
    have hlater : (δ 0).Valid (δ 0) { s₁ with threads := threads } :=
      (h.views 0).later (hs.leaves hundefined) (fun hst => ⟨hst, rfl⟩) id
    have hfd : s₁.Disposable r := Process.disposable_of_opens hopen h.negative
    exact (hlater.number hserving fun _ => hfd).same rfl rfl rfl rfl rfl rfl
      (fun hst => ⟨hst, rfl⟩) id

/-- The invariant is kept by main as a thread. -/
theorem Upheld.main_thread (h : Upheld inherited δ s) {o : ThreadOp} {r : ThreadRes o}
    (hstep : (δ 0).mainThread o r = some w) (heffect : s.effect 0 (.thread o) r = some s') :
    Upheld inherited (Function.update δ 0 w) s' := by
  have hg : Function.update δ 0 w 0 = w := Function.update_self _ _ _
  have hv := h.views 0
  obtain ⟨s₁, threads, hs₁, hthreads, rfl⟩ := Process.effect_thread heffect
  have hundefined := Threads.defined_of_answer hthreads
  have hquiet : (δ 0).stage = .serving → s₁ = s → w = δ 0 → (∀ n fd, o = .storeClientFd n fd →
      s.Disposable fd) → Upheld inherited (Function.update δ 0 w) { s₁ with threads := threads } := by
    rintro hserving rfl rfl hstore
    have hs := Process.Serves.refl s₁
    exact h.serve hg (.refl _) rfl hserving hs hundefined (h.nodes.answer hthreads hstore)
      (hv.later (hs.leaves hundefined) (fun hst => ⟨hst, rfl⟩) id)
  have hserves : (δ 0).mainThread o r = (if (δ 0).stage = .serving then some (δ 0) else none) →
      s.threadEffect o r = some s → (∀ n fd, o ≠ .storeClientFd n fd) →
        Upheld inherited (Function.update δ 0 w) { s₁ with threads := threads } := by
    intro hmain hsame ho
    obtain ⟨hserving, hview⟩ := Option.ite_none_right_eq_some.mp (hmain.symm.trans hstep)
    exact hquiet hserving (Option.some.inj (hs₁.symm.trans hsame)) (Option.some.inj hview).symm
      fun n fd hno => absurd hno (ho n fd)
  have houtside : o.isOutside = true → threads = s.threads := fun ho =>
    Threads.answer_of_isOutside ho hthreads
  cases o with
  | posix o =>
      cases o with
      | syslog =>
          cases hstep
          cases hs₁
          rw [houtside rfl]
          exact h.main_quiet (.refl _) id hv h.servinfo
      | close fd =>
          cases hs₁
          rw [houtside rfl]
          exact h.main_close hundefined hstep
      | openFile | loadClientFd => cases hstep
      | _ => exact hserves rfl rfl nofun
  | loadServerFd =>
      cases hstep
      rw [houtside rfl]
      obtain ⟨hfd, hs⟩ := Option.ite_none_right_eq_some.mp hs₁
      cases hs
      subst hfd
      exact h.main_quiet ⟨rfl, rfl, Iff.rfl, id⟩ id
        ((h.load hv).same rfl rfl rfl rfl rfl rfl (fun hst => ⟨hst, rfl⟩) id) h.servinfo
  | terminateProgram =>
      cases hstep
      rw [houtside rfl]
      obtain ⟨hb, hs⟩ := Option.ite_none_right_eq_some.mp hs₁
      cases hs
      subst hb
      exact h.main_quiet ⟨rfl, rfl, Iff.rfl, id⟩ id
        (hv.readFlag.same rfl rfl rfl rfl rfl rfl (fun hst => ⟨hst, rfl⟩) id) h.servinfo
  | accept fd =>
      obtain ⟨⟨hserving, -⟩, hview⟩ := Option.ite_none_right_eq_some.mp hstep
      cases hview
      exact h.accept hserving hs₁ hthreads
  | storeClientFd n fd =>
      obtain ⟨⟨hserving, hfd⟩, hview⟩ := Option.ite_none_right_eq_some.mp hstep
      cases hview
      cases hs₁
      refine hquiet hserving rfl rfl fun n' fd' ho => ?_
      cases ho
      exact hv.numbers hundefined fd hfd
  | start | exit => cases hstep
  | point => cases hstep
  | _ => exact hserves rfl rfl nofun

/-- The invariant is kept by main. -/
theorem Upheld.main (h : Upheld inherited δ s) {o : ProcessOp} {r : ProcessRes o}
    (hstep : (δ 0).main daemon o r = some w) (heffect : s.effect 0 o r = some s') :
    Upheld inherited (Function.update δ 0 w) s' := by
  have hv := h.views 0
  have hsame : w = δ 0 → s' = s → Upheld inherited (Function.update δ 0 w) s' := by
    rintro rfl rfl
    exact h.main_quiet (.refl _) id hv h.servinfo
  cases o with
  | thread o => exact h.main_thread hstep heffect
  | sigaction signo =>
      cases hstep
      cases heffect
      exact h.quiet (Function.update_self _ _ _) (.refl _) id hv rfl rfl rfl h.servinfo h.defined id
        h.early h.nodes
  | openlog | setsid | chdir =>
      cases hstep
      cases heffect
      exact hsame rfl rfl
  | setsockopt fd =>
      cases hstep
      obtain ⟨-, hs⟩ := Option.ite_none_right_eq_some.mp heffect
      cases hs
      exact hsame rfl rfl
  | bind fd =>
      obtain ⟨-, hview⟩ := Option.ite_none_right_eq_some.mp hstep
      cases hview
      obtain ⟨-, hs⟩ := Option.ite_none_right_eq_some.mp heffect
      cases hs
      exact hsame rfl rfl
  | listInit =>
      obtain ⟨hserving, hview⟩ := Option.ite_none_right_eq_some.mp hstep
      cases hview
      cases heffect
      exact h.quiet (Function.update_self _ _ _) (.refl _) id hv rfl rfl rfl h.servinfo h.defined id
        (fun hno => absurd hserving hno) h.nodes
  | getaddrinfo =>
      obtain ⟨⟨hboot, hservinfo⟩, hview⟩ := Option.ite_none_right_eq_some.mp hstep
      by_cases hr : r = 0
      · rw [if_pos hr] at hview
        cases hview
        rw [Process.effect, if_pos hr] at heffect
        cases heffect
        refine h.quiet (Function.update_self _ _ _) ⟨rfl, rfl, Iff.rfl, id⟩ id ?_ rfl rfl rfl rfl
          h.defined id h.early h.nodes
        exact hv.same rfl rfl rfl rfl rfl rfl (fun hst => ⟨hst, rfl⟩) id
      · rw [if_neg hr] at hview
        rw [Process.effect, if_neg hr] at heffect
        exact hsame (Option.some.inj hview).symm (Option.some.inj heffect).symm
  | socket =>
      obtain ⟨⟨hboot, -⟩, hview⟩ := Option.ite_none_right_eq_some.mp hstep
      cases hview
      exact h.create hboot heffect
  | storeServerFd fd =>
      obtain ⟨⟨hcreated, hfd⟩, hview⟩ := Option.ite_none_right_eq_some.mp hstep
      cases hview
      cases heffect
      subst hfd
      exact h.store hcreated
  | freeaddrinfo =>
      obtain ⟨-, hview⟩ := Option.ite_none_right_eq_some.mp hstep
      cases hview
      cases heffect
      refine h.quiet (Function.update_self _ _ _) ⟨rfl, rfl, Iff.rfl, id⟩ id ?_ rfl rfl rfl rfl
        h.defined id h.early h.nodes
      exact hv.same rfl rfl rfl rfl rfl rfl (fun hst => ⟨hst, rfl⟩) id
  | fork =>
      obtain ⟨⟨hstored, -⟩, hview⟩ := Option.ite_none_right_eq_some.mp hstep
      cases hview
      cases heffect
      refine h.main_quiet ⟨by rw [hstored]; rfl, rfl, by simp [hstored], by simp [hstored]⟩ nofun ?_
        h.servinfo
      exact hv.same rfl rfl rfl rfl rfl rfl (fun _ => ⟨rfl, rfl⟩) (by simp [hstored])
  | openNull flags =>
      rw [View.main] at hstep
      split at hstep
      · rename_i k hstage
        obtain ⟨-, hview⟩ := Option.ite_none_right_eq_some.mp hstep
        cases hview
        exact h.detach hstage heffect
      · cases hstep
  | listen fd =>
      obtain ⟨⟨hstage, hfd⟩, hview⟩ := Option.ite_none_right_eq_some.mp hstep
      obtain ⟨hfile, hs⟩ := Option.ite_none_right_eq_some.mp heffect
      cases hs
      by_cases hr : r = -1
      · rw [if_pos hr] at hview
        exact hsame (Option.some.inj hview).symm rfl
      · rw [if_neg hr] at hview
        cases hview
        subst hfd
        refine h.listen ?_ (hfile.resolve_left hr)
        rw [hstage]
        cases daemon <;> rfl
  | _ => cases hstep

end Main

section Step

variable {inherited : ℕ → Bool} {δ : ℕ → View} {s s' : Process} {t : ℕ} {v' : View}
  {e : Event process}

/-- The address list is there when it is used, and no step touches a missing one. -/
theorem Upheld.effect (h : Upheld inherited δ s) {daemon : Bool}
    (hans : s.answer t e.op e.res = some s') (hstep : (roleOf t).step daemon (δ t) e = some v') :
    s.effect t e.op e.res = some s' := by
  obtain ⟨o, r⟩ := e
  suffices hfaults : s.faults o = false by
    rwa [Process.answer, h.defined, if_neg Bool.false_ne_true, hfaults,
      if_neg Bool.false_ne_true] at hans
  by_cases ht : t = 0
  · rw [roleOf, if_pos ht, ht] at hstep
    cases o with
    | socket =>
        obtain ⟨⟨-, hlive⟩, -⟩ := Option.ite_none_right_eq_some.mp hstep
        simp [Process.faults, h.servinfo, hlive]
    | bind | freeaddrinfo =>
        obtain ⟨hlive, -⟩ := Option.ite_none_right_eq_some.mp hstep
        simp [Process.faults, h.servinfo, hlive]
    | _ => rfl
  · -- only main uses it
    rw [roleOf, if_neg ht] at hstep
    cases o with
    | socket | bind | freeaddrinfo => split at hstep <;> cases hstep
    | _ => rfl

/-- **The step lemma.** -/
theorem Upheld.step (h : Upheld inherited δ s) {daemon : Bool}
    (heffect : s.effect t e.op e.res = some s')
    (hstep : (roleOf t).step daemon (δ t) e = some v') :
    Upheld inherited (Function.update δ t v') s' := by
  obtain ⟨o, r⟩ := e
  rw [roleOf] at hstep
  by_cases ht : t = 0
  · subst ht
    rw [if_pos rfl] at hstep
    exact h.main hstep heffect
  · rw [if_neg ht] at hstep
    by_cases hodd : t % 2 = 1
    · rw [if_pos hodd] at hstep
      exact h.signal ht hstep heffect
    · rw [if_neg hodd] at hstep
      cases o with
      | thread o => exact h.client ht hstep heffect
      | _ => cases hstep

end Step

end Aesd.Server

import Aesd.Server.ProcessViews

/-! # The invariant of the process

What holds in every run of the program: where the listening socket is, what `server_fd` may be, which
descriptors belong to the connections, and that each task knows only what is so. -/

namespace Aesd.Server

open Effects CLib

namespace Process

/-- The socket that main has created is not open. -/
def Gone (s : Process) : Prop := ∀ n, s.files n ≠ some .listener

/-- The descriptor is not open, or it is that of a connection or of the device. -/
def Disposable (s : Process) (n : ℤ) : Prop := ∀ kind, s.files n = some kind → kind = .client

section Files

variable {s s' : Process} {fd n : ℤ} {kind : FileKind}

theorem opens_eq (h : s.opens kind fd = some s') :
    fd = -1 ∧ s' = s ∨ fd ≠ -1 ∧ s.IsLowest fd ∧
      s' = { s with files := Function.update s.files fd (some kind) } := by
  by_cases hfd : fd = -1
  · rw [opens, if_pos hfd] at h
    exact .inl ⟨hfd, (Option.some.inj h).symm⟩
  · rw [opens, if_neg hfd] at h
    obtain ⟨hlowest, h⟩ := Option.ite_none_right_eq_some.mp h
    exact .inr ⟨hfd, hlowest, (Option.some.inj h).symm⟩

/-- What is open after something has been opened. -/
theorem opens_files (h : s.opens kind fd = some s') {k : FileKind} (hn : s'.files n = some k) :
    s.files n = some k ∨ k = kind ∧ n = fd ∧ fd ≠ -1 := by
  rcases opens_eq h with ⟨-, rfl⟩ | ⟨hfd, -, rfl⟩
  · exact .inl hn
  · replace hn : Function.update s.files fd (some kind) n = some k := hn
    by_cases hnfd : n = fd
    · rw [hnfd, Function.update_self] at hn
      exact .inr ⟨(Option.some.inj hn).symm, hnfd, hfd⟩
    · rw [Function.update_of_ne hnfd] at hn
      exact .inl hn

/-- What was open stays open. -/
theorem opens_keeps (h : s.opens kind fd = some s') {k : FileKind} (hn : s.files n = some k) :
    s'.files n = some k := by
  rcases opens_eq h with ⟨-, rfl⟩ | ⟨-, hlowest, rfl⟩
  · exact hn
  · have hnfd : n ≠ fd := by
      rintro rfl
      rw [hlowest.2.1] at hn
      cases hn
    exact (Function.update_of_ne hnfd _ _).trans hn

/-- No negative descriptor is opened. -/
theorem opens_negative (h : s.opens kind fd = some s') (hn : n < 0) (hnone : s.files n = none) :
    s'.files n = none := by
  rcases opens_eq h with ⟨-, rfl⟩ | ⟨-, hlowest, rfl⟩
  · exact hnone
  · have hnfd : n ≠ fd := by
      have hpos := hlowest.1
      omega
    exact (Function.update_of_ne hnfd _ _).trans hnone

/-- Only the descriptors change. -/
theorem opens_rest (h : s.opens kind fd = some s') : s' = { s with files := s'.files } := by
  rcases opens_eq h with ⟨-, rfl⟩ | ⟨-, -, rfl⟩ <;> rfl

/-- What is open after a descriptor has been closed. -/
theorem closes_files {k : FileKind} (hn : (s.closes fd).files n = some k) :
    n ≠ fd ∧ s.files n = some k := by
  replace hn : Function.update s.files fd none n = some k := hn
  by_cases hnfd : n = fd
  · rw [hnfd, Function.update_self] at hn
    cases hn
  · rw [Function.update_of_ne hnfd] at hn
    exact ⟨hnfd, hn⟩

/-- Nothing is opened by a close. -/
theorem closes_none (hn : s.files n = none) : (s.closes fd).files n = none := by
  cases hn' : (s.closes fd).files n with
  | none => rfl
  | some k =>
      rw [(closes_files hn').2] at hn
      cases hn

/-- The other descriptors stay open. -/
theorem closes_keeps (hnfd : n ≠ fd) : (s.closes fd).files n = s.files n :=
  Function.update_of_ne hnfd _ _

end Files

/-! ### What an operation of the threads does to the descriptors -/

section Effect

variable {s s' : Process} {t : ℕ}

/-- What an operation of the threads does, in two parts. -/
theorem effect_thread {o : ThreadOp} {r : ThreadRes o} (h : s.effect t (.thread o) r = some s') :
    ∃ s₁ threads, s.threadEffect o r = some s₁ ∧ s.threads.answer (t / 2) o r = some threads ∧
      s' = { s₁ with threads := threads } := by
  obtain ⟨s₁, hs₁, h⟩ := Option.bind_eq_some_iff.mp h
  obtain ⟨threads, hthreads, h⟩ := Option.map_eq_some_iff.mp h
  exact ⟨s₁, threads, hs₁, hthreads, h.symm⟩

end Effect

end Process

/-! ### What the threads make of the nodes -/

section Nodes

variable {t : ℕ} {s s' : Threads} {o : ThreadOp} {r : ThreadRes o}

/-- Nothing happens after a step that has touched a missing node. -/
theorem Threads.defined_of_answer (h : s.answer t o r = some s') : s.undefined = false := by
  rw [Threads.answer, Option.ite_none_left_eq_some] at h
  exact Bool.eq_false_of_not_eq_true h.1

/-- The `client_fd` of each node satisfies `P`. -/
def Threads.ClientFds (P : ℤ → Prop) (s : Threads) : Prop :=
  ∀ n node fd, s.nodes n = .live node → node.clientFd = some fd → P fd

theorem Threads.ClientFds.setNode {P : ℤ → Prop} (h : s.ClientFds P) {n : ThreadInfo} {c : Cell}
    (hc : ∀ node fd, c = .live node → node.clientFd = some fd → P fd) :
    (s.setNode n c).ClientFds P := by
  intro m node fd hm hfd
  replace hm : Function.update s.nodes n c m = .live node := hm
  by_cases hmn : m = n
  · rw [hmn, Function.update_self] at hm
    exact hc node fd hm hfd
  · rw [Function.update_of_ne hmn] at hm
    exact h m node fd hm hfd

/-- A node that is there. -/
theorem Threads.nodes_of_node? {n : ThreadInfo} {node : ThreadNode} (h : s.node? n = some node) :
    s.nodes n = .live node := by
  rw [Threads.node?] at h
  split at h
  · rename_i node' hlive
    rw [hlive, Option.some.inj h]
  · cases h

/-- Only a store of a `client_fd` changes them. -/
theorem Threads.ClientFds.answer {P : ℤ → Prop} (hP : s.ClientFds P)
    (h : s.answer t o r = some s') (hstore : ∀ n fd, o = .storeClientFd n fd → P fd) :
    s'.ClientFds P := by
  have hcall : ∀ {o : PosixOp} {r : PosixRes o} {s' : Threads}, s.callEffect t o r = some s' →
      s'.ClientFds P := by
    intro o r s' h
    cases o with
    | loadClientFd | mutexLock =>
        obtain ⟨-, h⟩ := Option.ite_none_right_eq_some.mp h
        cases h
        exact hP
    | free n =>
        cases h
        exact hP.setNode nofun
    | _ =>
        cases h
        exact hP
  rw [Threads.answer, Option.ite_none_left_eq_some] at h
  obtain ⟨-, h⟩ := h
  split at h
  · cases h
    exact hP
  cases o with
  | posix o => exact hcall h
  | point o =>
      cases r with
      | some r => exact hcall h
      | none =>
          obtain ⟨-, h⟩ := Option.ite_none_right_eq_some.mp h
          cases h
          exact hP
  | malloc =>
      cases r with
      | none =>
          cases h
          exact hP
      | some n =>
          obtain ⟨-, h⟩ := Option.ite_none_right_eq_some.mp h
          cases h
          exact hP.setNode fun node fd hnode hfd => by cases hnode; cases hfd
  | storeClientFd n fd =>
      obtain ⟨node, -, h⟩ := Option.map_eq_some_iff.mp h
      cases h
      refine hP.setNode fun node' fd' hnode' hfd => ?_
      cases hnode'
      cases hfd
      exact hstore n fd rfl
  | pthreadCreate n =>
      rw [Threads.effect] at h
      split at h
      · obtain ⟨node, hn, h⟩ := Option.map_eq_some_iff.mp h
        cases h
        refine Threads.ClientFds.setNode hP fun node' fd hnode' hfd => ?_
        cases hnode'
        exact hP n node fd (Threads.nodes_of_node? hn) hfd
      · cases h
        exact hP
  | start | listFirst | loadThreadId | pthreadJoin =>
      obtain ⟨-, h⟩ := Option.ite_none_right_eq_some.mp h
      cases h
      exact hP
  | listNext n =>
      obtain ⟨-, h⟩ := Option.ite_none_right_eq_some.mp h
      cases h
      exact hP
  | _ =>
      cases h
      exact hP

/-- A `client_fd` that has been read is that of a node, or nothing happens any more. -/
theorem Threads.ClientFds.load {P : ℤ → Prop} (hP : s.ClientFds P) {n : ThreadInfo} {fd : ℤ}
    (h : s.answer t (.posix (.loadClientFd n)) fd = some s' ∨
      s.answer t (.point (.loadClientFd n)) (some fd) = some s') (hdefined : s'.undefined = false) :
    P fd := by
  -- the number is the one in the node, unless the step has touched a missing one
  have hread : ∀ {b : Bool}, (if s.undefined then none else if b then some { s with undefined := true }
      else if (s.node? n).bind ThreadNode.clientFd = some fd then some s else none) = some s' →
      P fd := by
    intro b h
    obtain ⟨-, h⟩ := Option.ite_none_left_eq_some.mp h
    cases b with
    | true =>
        cases h
        cases hdefined
    | false =>
        obtain ⟨hfd, -⟩ := Option.ite_none_right_eq_some.mp h
        obtain ⟨node, hnode, hfd⟩ := Option.bind_eq_some_iff.mp hfd
        exact hP n node fd (Threads.nodes_of_node? hnode) hfd
  rcases h with h | h
  · exact hread h
  · exact hread h

end Nodes

/-! ### What the views say -/

/-- What a task knows is so, main having come as far as `g`. -/
structure View.Valid (v g : View) (s : Process) : Prop where
  /-- Nobody is ahead of main. -/
  stage : v.stage.isStored = true → g.stage.isStored = true
  /-- `server_fd` had been set. -/
  known : v.known = true → g.stage.isStored = true
  /-- What has been read of `server_fd` is the socket. -/
  arg : v.arg ≠ -1 → v.known = true ∧ v.arg = g.socket
  /-- Or the socket has been closed. -/
  missed : v.known = true → v.arg = -1 → s.Gone
  /-- The task has closed it. -/
  gone : v.gone = true → v.known = true ∧ s.Gone
  /-- The flag is set. -/
  flagged : v.flagged = true → s.terminate = true
  /-- The descriptors that the task may close are of no use to the others. -/
  numbers : s.threads.undefined = false → ∀ n ∈ v.numbers, s.Disposable n
  /-- There is no connection before main serves. -/
  early : g.stage ≠ .serving → v.numbers = [] ∧ v.awake = false

/-- What holds in every run; `inherited` are the descriptors at the start. -/
structure Upheld (inherited : ℕ → Bool) (δ : ℕ → View) (s : Process) : Prop where
  /-- The tasks know what is so. -/
  views : ∀ t, (δ t).Valid (δ 0) s
  /-- The socket is where main has found it. -/
  listener : ∀ n, s.files n = some .listener →
    (δ 0).stage ≠ .boot ∧ n = (δ 0).socket ∧ n ≠ -1
  /-- `server_fd` before it is set. -/
  unset : (δ 0).stage.isStored = false → s.serverFd = -1
  /-- `server_fd` after it has been set. -/
  serverFd : (δ 0).stage.isStored = true → s.serverFd = (δ 0).socket ∨ s.serverFd = -1
  /-- It is forgotten after the socket has been closed. -/
  forgotten : (δ 0).stage.isStored = true → s.serverFd = -1 → s.Gone
  /-- The address list. -/
  servinfo : s.servinfo = (δ 0).servinfo
  /-- No missing list has been touched. -/
  defined : s.undefined = false
  /-- There is no thread before main serves. -/
  early : (δ 0).stage ≠ .serving → s.threads = Threads.init
  /-- No descriptor is negative. -/
  negative : ∀ n < 0, s.files n = none
  /-- Nothing has been opened before the socket. -/
  boot : (δ 0).stage = .boot → s.files = (Process.init inherited).files
  /-- The nodes hold connections. -/
  nodes : s.threads.ClientFds s.Disposable
  /-- The socket is open while main serves and no signal has been caught. -/
  listening : (δ 0).stage = .serving → s.terminate = false →
    s.serverFd = (δ 0).socket ∧ s.files (δ 0).socket = some .listener

/-- Main stays where it is, or goes from one point after the store to another. -/
structure View.Continues (g g' : View) : Prop where
  /-- The store. -/
  stored : g'.stage.isStored = g.stage.isStored
  /-- The socket. -/
  socket : g'.socket = g.socket
  /-- The start. -/
  boot : g'.stage = .boot ↔ g.stage = .boot
  /-- The loop. -/
  serving : g.stage = .serving → g'.stage = .serving

theorem View.Continues.refl (g : View) : g.Continues g := ⟨rfl, rfl, Iff.rfl, id⟩

/-- What a step leaves of the process. -/
structure Process.Leaves (s s' : Process) (g : View) : Prop where
  /-- The socket does not come back. -/
  gone : g.stage.isStored = true → s.Gone → s'.Gone
  /-- The flag is not cleared. -/
  terminate : s.terminate = true → s'.terminate = true
  /-- What is of no use stays so. -/
  disposable : g.stage = .serving → ∀ n, s.Disposable n → s'.Disposable n
  /-- What has been touched stays so. -/
  undefined : s'.threads.undefined = false → s.threads.undefined = false
  /-- No descriptor is negative. -/
  negative : ∀ n < 0, s.files n = none → s'.files n = none

section Valid

variable {g g' v : View} {s s' : Process}

/-- A step that changes no descriptor and not the flag. -/
theorem Process.leaves_of_eq (hfiles : s'.files = s.files) (hterminate : s'.terminate = s.terminate)
    (hundefined : s'.threads.undefined = false → s.threads.undefined = false) : s.Leaves s' g where
  gone _ hgone n := by
    rw [hfiles]
    exact hgone n
  terminate hflag := hterminate.trans hflag
  disposable _ n hn kind hkind := hn kind (hfiles ▸ hkind)
  undefined := hundefined
  negative n _ hn := by rwa [hfiles]

/-- `server_fd` has been read after it had been set. -/
theorem View.Valid.ne_boot (h : v.Valid g s) (hknown : v.known = true) : g.stage ≠ .boot := by
  intro hno
  have hstored := h.known hknown
  rw [hno] at hstored
  cases hstored

/-- What a task knows stays so. -/
theorem View.Valid.later (h : v.Valid g s) (hs : s.Leaves s' g)
    (hstored : g.stage.isStored = true → g'.stage.isStored = true ∧ g'.socket = g.socket)
    (hserving : g.stage = .serving → g'.stage = .serving) : v.Valid g' s' where
  stage hv := (hstored (h.stage hv)).1
  known hv := (hstored (h.known hv)).1
  arg hv := by
    obtain ⟨hknown, harg⟩ := h.arg hv
    exact ⟨hknown, harg.trans (hstored (h.known hknown)).2.symm⟩
  missed hknown harg := hs.gone (h.known hknown) (h.missed hknown harg)
  gone hv := by
    obtain ⟨hknown, hgone⟩ := h.gone hv
    exact ⟨hknown, hs.gone (h.known hknown) hgone⟩
  flagged hv := hs.terminate (h.flagged hv)
  numbers hdefined n hn := by
    by_cases hg : g.stage = .serving
    · exact hs.disposable hg n (h.numbers (hs.undefined hdefined) n hn)
    · rw [(h.early hg).1] at hn
      cases hn
  early hg := h.early fun hno => hg (hserving hno)

/-- `server_fd` is read. -/
theorem View.Valid.load (h : v.Valid g s) {fd : ℤ}
    (hunset : g.stage.isStored = false → fd = -1)
    (hset : g.stage.isStored = true → fd = g.socket ∨ fd = -1)
    (hgone : g.stage.isStored = true → fd = -1 → s.Gone) : (v.load fd).Valid g s := by
  have hknown : (v.load fd).known = true → g.stage.isStored = true := by
    intro hv
    by_contra hno
    have hfd := hunset (Bool.eq_false_of_not_eq_true hno)
    simp only [View.load, hfd, ne_eq, not_true_eq_false, decide_false, Bool.or_false,
      Bool.or_eq_true] at hv
    exact hno (hv.elim h.known h.stage)
  exact
    { stage := h.stage
      known := hknown
      arg := by
        intro hfd
        have hload : (v.load fd).known = true := by
          replace hfd : fd ≠ -1 := hfd
          simp [View.load, hfd]
        exact ⟨hload, (hset (hknown hload)).resolve_right hfd⟩
      missed := fun hv hfd => hgone (hknown hv) hfd
      gone := fun hv => by
        obtain ⟨hv, hgone⟩ := h.gone hv
        exact ⟨by simp [View.load, hv], hgone⟩
      flagged := h.flagged
      numbers := h.numbers
      early := h.early }

/-- The number read of `server_fd` is closed. -/
theorem View.Valid.closeArg (h : v.Valid g s) (hknown : v.known = true) (hgone : s.Gone) :
    View.Valid { v with gone := true } g s :=
  { h with gone := fun _ => ⟨hknown, hgone⟩ }

/-- A descriptor comes to the task. -/
theorem View.Valid.number (h : v.Valid g s) {fd : ℤ} (hserving : g.stage = .serving)
    (hfd : s.threads.undefined = false → s.Disposable fd) : (v.number fd).Valid g s :=
  { h with
    numbers := fun hdefined n hn => by
      rcases List.mem_cons.mp hn with rfl | hn
      · exact hfd hdefined
      · exact h.numbers hdefined n hn
    early := fun hno => absurd hserving hno }

/-- `terminate_program` is read. -/
theorem View.Valid.readFlag (h : v.Valid g s) : (v.readFlag s.terminate).Valid g s :=
  { h with flagged := fun hv => (Bool.or_eq_true_iff.mp hv).elim h.flagged id }

/-- The flag is known to be set. -/
theorem View.Valid.flag (h : v.Valid g s) (hs : s.terminate = true) :
    View.Valid { v with flagged := true } g s :=
  { h with flagged := fun _ => hs }

end Valid

section Moves

variable {inherited : ℕ → Bool} {δ : ℕ → View} {s s' : Process} {t : ℕ} {v' g' : View}

/-- **The invariant is kept** by a step that creates no socket and does not set `server_fd`. -/
theorem Upheld.move (h : Upheld inherited δ s) (hg : Function.update δ t v' 0 = g')
    (hmain : (δ 0).Continues g') (hs : s.Leaves s' (δ 0)) (hview : v'.Valid g' s')
    (hlistener : ∀ n, s'.files n = some .listener → s.files n = some .listener)
    (hserverFd : s'.serverFd = s.serverFd ∨ s'.serverFd = -1 ∧ s'.Gone)
    (hservinfo : s'.servinfo = g'.servinfo) (hdefined : s'.undefined = false)
    (hearly : g'.stage ≠ .serving → s'.threads = Threads.init)
    (hboot : g'.stage = .boot → s'.files = s.files) (hnodes : s'.threads.ClientFds s'.Disposable)
    (hlistening : g'.stage = .serving → s'.terminate = false →
      s'.serverFd = g'.socket ∧ s'.files g'.socket = some .listener) :
    Upheld inherited (Function.update δ t v') s' where
  views u := by
    rw [hg]
    by_cases hu : u = t
    · rw [hu, Function.update_self]
      exact hview
    · rw [Function.update_of_ne hu]
      exact (h.views u).later hs (fun hst => ⟨hmain.stored.trans hst, hmain.socket⟩) hmain.serving
  listener n hn := by
    rw [hg]
    obtain ⟨hboot, hsocket, hn⟩ := h.listener n (hlistener n hn)
    exact ⟨fun hno => hboot (hmain.boot.mp hno), hsocket.trans hmain.socket.symm, hn⟩
  unset hst := by
    rw [hg, hmain.stored] at hst
    rcases hserverFd with hfd | ⟨hfd, -⟩
    · exact hfd.trans (h.unset hst)
    · exact hfd
  serverFd hst := by
    rw [hg, hmain.stored] at hst
    rw [hg, hmain.socket]
    rcases hserverFd with hfd | ⟨hfd, -⟩
    · rw [hfd]
      exact h.serverFd hst
    · exact .inr hfd
  forgotten hst hno := by
    rw [hg, hmain.stored] at hst
    rcases hserverFd with hfd | ⟨-, hgone⟩
    · exact hs.gone hst (h.forgotten hst (hfd.symm.trans hno))
    · exact hgone
  servinfo := by
    rw [hg]
    exact hservinfo
  defined := hdefined
  early hst := by
    rw [hg] at hst
    exact hearly hst
  negative n hn := hs.negative n hn (h.negative n hn)
  boot hst := by
    rw [hg] at hst
    exact (hboot hst).trans (h.boot (hmain.boot.mp hst))
  nodes := hnodes
  listening hst hterminate := by
    rw [hg] at hst ⊢
    exact hlistening hst hterminate

/-- The invariant is kept by a step that changes no descriptor and no variable of the process. -/
theorem Upheld.quiet (h : Upheld inherited δ s) (hg : Function.update δ t v' 0 = g')
    (hmain : (δ 0).Continues g') (hserving : g'.stage = .serving → (δ 0).stage = .serving)
    (hview : v'.Valid g' s) (hfiles : s'.files = s.files) (hserverFd : s'.serverFd = s.serverFd)
    (hterminate : s'.terminate = s.terminate) (hservinfo : s'.servinfo = g'.servinfo)
    (hdefined : s'.undefined = false)
    (hundefined : s'.threads.undefined = false → s.threads.undefined = false)
    (hearly : g'.stage ≠ .serving → s'.threads = Threads.init)
    (hnodes : s'.threads.ClientFds s.Disposable) :
    Upheld inherited (Function.update δ t v') s' := by
  have hs : ∀ g : View, s.Leaves s' g := fun g =>
    Process.leaves_of_eq hfiles hterminate hundefined
  have hdisposable : ∀ n, s.Disposable n → s'.Disposable n := fun n hn kind hkind =>
    hn kind (hfiles ▸ hkind)
  refine h.move hg hmain (hs _) (hview.later (hs _) (fun hst => ⟨hst, rfl⟩) id) (fun n hn => ?_)
    (.inl hserverFd) hservinfo hdefined hearly (fun _ => hfiles)
    (fun n node fd hn hfd => hdisposable fd (hnodes n node fd hn hfd)) fun hst hno => ?_
  · rwa [hfiles] at hn
  · rw [hserverFd, hfiles, hmain.socket]
    exact h.listening (hserving hst) (hterminate.symm.trans hno)

/-- The socket is gone when a task closes what it has read of `server_fd`. -/
theorem Upheld.gone_of_close (h : Upheld inherited δ s) {v : View} (hv : v.Valid (δ 0) s)
    (hknown : v.known = true) : (s.closes v.arg).Gone := by
  intro n hn
  obtain ⟨hne, hn⟩ := Process.closes_files hn
  by_cases harg : v.arg = -1
  · exact hv.missed hknown harg n hn
  · exact hne ((h.listener n hn).2.1.trans (hv.arg harg).2.symm)

/-- What a close leaves. -/
theorem Process.leaves_closes {g : View} {fd : ℤ} : s.Leaves (s.closes fd) g :=
  ⟨fun _ hgone n hn => hgone n (closes_files hn).2, id,
    fun _ _ hn kind hkind => hn kind (closes_files hkind).2, id, fun _ _ => closes_none⟩

/-- The invariant is kept by a close, if it is not the socket that is closed while main serves and
no signal has been caught. -/
theorem Upheld.close (h : Upheld inherited δ s) {fd : ℤ} (hg : Function.update δ t v' 0 = g')
    (hmain : (δ 0).Continues g') (hserving : g'.stage = .serving → (δ 0).stage = .serving)
    (hview : v'.Valid g' (s.closes fd)) (hservinfo : s.servinfo = g'.servinfo)
    (hboot : g'.stage ≠ .boot)
    (hkeeps : g'.stage = .serving → s.terminate = false → s.files fd ≠ some .listener) :
    Upheld inherited (Function.update δ t v') (s.closes fd) := by
  refine h.move hg hmain Process.leaves_closes hview (fun n hn => (Process.closes_files hn).2)
    (.inl rfl) hservinfo h.defined (fun hst => h.early ?_) (fun hno => absurd hno hboot)
    (fun n node fd hn hfd kind hkind => h.nodes n node fd hn hfd kind (Process.closes_files hkind).2)
    fun hst hno => ?_
  · exact fun hno => hst (hmain.serving hno)
  · obtain ⟨hserverFd, hfile⟩ := h.listening (hserving hst) hno
    rw [hmain.socket]
    have hne : (δ 0).socket ≠ fd := by
      rintro rfl
      exact hkeeps hst hno hfile
    exact ⟨hserverFd, (Process.closes_keeps hne).trans hfile⟩

end Moves

end Aesd.Server

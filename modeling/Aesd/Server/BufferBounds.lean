import Aesd.Server.BufferAccess
import Aesd.Server.Sessions

/-! # The receive buffer within its bounds

`recv` may fill the buffer, and then the terminator is stored behind its end. **`inBounds_iff`**: in
every run of `handle_client` every access to `buffer` is inside the array, and what is done with a
chunk follows from its own bytes, exactly if no chunk fills the array. The monitor of the proof
holds the chunk that has been received until the thread shows what it has decided about it. -/

namespace Aesd.Server

open Effects CLib CharDriver

/-- An access outside the array. -/
def PosixOp.overruns : PosixOp → Bool
  | .overrun _ => true
  | _ => false

/-- The operation shows what has been decided about a chunk. -/
def PosixOp.decides : PosixOp → Bool
  | .mutexLock .file | .ioctl _ _ _ => true
  | .syslog message => message = "Failed to open file for ioctl: %s" ∨
      message = "Invalid ioctl command format from client"
  | _ => false

/-- The operation is the one that the bytes of the chunk ask for. -/
def decided (chunk : List UInt8) : PosixOp → Bool
  | .mutexLock .file => request chunk = some (.data chunk)
  | .ioctl _ _ arg => request chunk = some (.seek arg.writeCmd arg.writeCmdOffset)
  | .syslog message =>
      if message = "Failed to open file for ioctl: %s" then
        request chunk ≠ none ∧ request chunk ≠ some (.data chunk)
      else message = "Invalid ioctl command format from client" ∧ request chunk = none
  | _ => false

/-- What a connection has shown of its decisions. -/
def decisions (t : List (Event posix)) : List PosixOp := (t.map Event.op).filter PosixOp.decides

/-- Every access so far has been inside the array, and so is the next. -/
def InBounds (t : List (Event posix)) (q : Handler Unit) : Prop :=
  (∀ e ∈ t, e.op.overruns = false) ∧ ∀ i k, ¬Runs q [] (Prog.call (E := posix) (.overrun i) k)

/-- Every chunk, but for one that has just arrived, has been decided by its own bytes. -/
def DecidedByChunks (t : List (Event posix)) : Prop :=
  ∃ cs pending, chunks t = cs ++ pending ∧ pending.length ≤ 1 ∧
    List.Forall₂ (fun c o => decided c o = true) cs (decisions t)

/-! ### The monitor -/

/-- What has become of the last chunk. -/
inductive Reception where
  /-- It has been decided. -/
  | idle
  /-- It has arrived, and fits into the array with its terminator. -/
  | holds (chunk : List UInt8)
  /-- It has arrived, and fills the array. -/
  | brimming
  /-- There has been an access outside the array. -/
  | spilled

/-- A chunk arrives. -/
def Reception.arrives (chunk : List UInt8) : Reception :=
  if chunk.length < bufferSize then .holds chunk else .brimming

/-- The step of the monitor. -/
def Reception.step : Reception → Event posix → Option Reception
  | .idle, e =>
      if e.op.overruns || e.op.decides then none else some ((received e).elim .idle .arrives)
  | .holds chunk, e => if decided chunk e.op then some .idle else none
  | .brimming, e => if e.op.overruns then some .spilled else none
  | .spilled, _ => some .spilled

/-- The monitor of the last chunk. -/
def reception : Monitor posix Reception := ⟨fun _ _ => True, Reception.step⟩

/-- The chunks fit and nothing has been accessed outside the array. -/
def Fits (t : List (Event posix)) : Prop :=
  (∀ c ∈ chunks t, c.length < bufferSize) ∧ ∀ e ∈ t, e.op.overruns = false

/-- What the state of the monitor says about the events so far. -/
def Reception.Says (t : List (Event posix)) : Reception → Prop
  | .idle => Fits t ∧ List.Forall₂ (fun c o => decided c o = true) (chunks t) (decisions t)
  | .holds chunk => Fits t ∧ ∃ cs, chunks t = cs ++ [chunk] ∧
      List.Forall₂ (fun c o => decided c o = true) cs (decisions t)
  | .brimming => ∃ c ∈ chunks t, bufferSize ≤ c.length
  | .spilled => (∃ c ∈ chunks t, bufferSize ≤ c.length) ∧ ∃ e ∈ t, e.op.overruns = true

section Trace

variable {t : List (Event posix)} {e : Event posix} {g g' : Reception}

theorem chunks_concat : chunks (t ++ [e]) = chunks t ++ (received e).toList := by
  have hone := chunks_cons e []
  rw [show chunks [] = [] from rfl, List.append_nil] at hone
  rw [← hone, chunks, chunks, chunks, List.filterMap_append]

theorem decisions_concat :
    decisions (t ++ [e]) = decisions t ++ if e.op.decides then [e.op] else [] := by
  rw [decisions, List.map_append, List.filter_append, ← decisions, List.map_singleton,
    List.filter_singleton, Bool.cond_eq_ite]

/-- An event that decides a chunk receives nothing. -/
theorem of_decided {chunk : List UInt8} (h : decided chunk e.op = true) :
    received e = none ∧ e.op.decides = true ∧ e.op.overruns = false := by
  obtain ⟨o, r⟩ := e
  cases o with
  | syslog message =>
      refine ⟨rfl, ?_, rfl⟩
      rw [decided] at h
      rw [PosixOp.decides, decide_eq_true_eq]
      split_ifs at h with hfirst
      · exact .inl hfirst
      · exact .inr (of_decide_eq_true h).1
  | mutexLock m =>
      cases m with
      | file => exact ⟨rfl, rfl, rfl⟩
      | list => cases h
  | ioctl fd request arg => exact ⟨rfl, rfl, rfl⟩
  | _ => cases h

/-- The step lemma. -/
theorem Reception.Says.step (h : g.Says t) (hstep : g.step e = some g') : g'.Says (t ++ [e]) := by
  have hfits : Fits t → e.op.overruns = false → (∀ c, received e = some c → c.length < bufferSize) →
      Fits (t ++ [e]) := by
    rintro ⟨hshort, hin⟩ he hc
    refine ⟨fun c hmem => ?_, fun e' he' => ?_⟩
    · rw [chunks_concat, List.mem_append, Option.mem_toList] at hmem
      exact hmem.elim (hshort c) (hc c)
    · rcases List.mem_append.mp he' with he' | he'
      · exact hin e' he'
      · rw [List.mem_singleton.mp he', he]
  have hlong : (∃ c ∈ chunks t, bufferSize ≤ c.length) →
      ∃ c ∈ chunks (t ++ [e]), bufferSize ≤ c.length := by
    rintro ⟨c, hc, hlen⟩
    exact ⟨c, by rw [chunks_concat]; exact List.mem_append_left _ hc, hlen⟩
  cases g with
  | idle =>
      rw [Reception.step, Option.ite_none_left_eq_some, Bool.or_eq_true, not_or,
        Bool.not_eq_true, Bool.not_eq_true, Option.some.injEq] at hstep
      obtain ⟨⟨hin, hno⟩, rfl⟩ := hstep
      obtain ⟨hfit, hall⟩ := h
      have hdecisions : decisions (t ++ [e]) = decisions t := by
        rw [decisions_concat, hno, if_neg Bool.false_ne_true, List.append_nil]
      -- nothing is pending: the event receives a chunk, or none
      cases hr : received e with
      | none =>
          refine ⟨hfits hfit hin (by simp [hr]), ?_⟩
          rw [hdecisions, chunks_concat, hr, Option.toList_none, List.append_nil]
          exact hall
      | some c =>
          rw [Option.elim_some, Reception.arrives]
          by_cases hc : c.length < bufferSize
          · rw [if_pos hc]
            refine ⟨hfits hfit hin fun c' hc' => ?_, chunks t, ?_, hdecisions ▸ hall⟩
            · rw [hr, Option.some.injEq] at hc'
              exact hc' ▸ hc
            · rw [chunks_concat, hr, Option.toList_some]
          · rw [if_neg hc]
            refine ⟨c, ?_, not_lt.mp hc⟩
            rw [chunks_concat, hr]
            simp
  | holds chunk =>
      rw [Reception.step, Option.ite_none_right_eq_some, Option.some.injEq] at hstep
      obtain ⟨hdecided, rfl⟩ := hstep
      obtain ⟨hfit, cs, hcs, hall⟩ := h
      -- the event decides the pending chunk
      obtain ⟨hr, hdecides, hin⟩ := of_decided hdecided
      refine ⟨hfits hfit hin (by simp [hr]), ?_⟩
      rw [chunks_concat, hr, Option.toList_none, List.append_nil, hcs, decisions_concat,
        if_pos hdecides]
      exact List.rel_append hall (.cons hdecided .nil)
  | brimming =>
      rw [Reception.step, Option.ite_none_right_eq_some, Option.some.injEq] at hstep
      obtain ⟨hover, rfl⟩ := hstep
      exact ⟨hlong h, e, by simp, hover⟩
  | spilled =>
      rw [Reception.step, Option.some.injEq] at hstep
      subst hstep
      obtain ⟨h, e', he', hover⟩ := h
      exact ⟨hlong h, e', List.mem_append_left _ he', hover⟩

/-- The run lemma. -/
theorem says_of_after (h : reception.after .idle t = some g) : g.Says t := by
  induction t using List.reverseRecOn generalizing g with
  | nil =>
      rw [Monitor.after_nil, Option.some.injEq] at h
      subst h
      exact ⟨⟨by simp [chunks], by simp⟩, .nil⟩
  | append_singleton t e ih =>
      rw [Monitor.after_append, Option.bind_eq_some_iff] at h
      obtain ⟨g₁, hg₁, h⟩ := h
      rw [Monitor.after_cons, Option.bind_eq_some_iff] at h
      obtain ⟨g₂, hg₂, h⟩ := h
      rw [Monitor.after_nil, Option.some.injEq] at h
      exact h ▸ (ih hg₁).step hg₂

end Trace

/-! ### The text -/

/-- The operation receives. -/
def PosixOp.receives : PosixOp → Bool
  | .recv _ _ => true
  | _ => false

/-- Operations that neither receive nor decide. -/
def PosixOp.isAside (o : PosixOp) : Bool := !(o.overruns || o.decides || o.receives)

theorem step_aside {o : PosixOp} (ho : o.isAside = true) (r : PosixRes o) :
    reception.step .idle ⟨o, r⟩ = some .idle := by
  rw [PosixOp.isAside, Bool.not_eq_true', Bool.or_eq_false_iff] at ho
  have hnone : received ⟨o, r⟩ = none := by
    cases o with
    | recv fd n => cases ho.2
    | _ => rfl
  show (if (o.overruns || o.decides) = true then none else _) = _
  rw [ho.1, if_neg Bool.false_ne_true, hnone]
  rfl

section Text

variable {tinfo : ThreadInfo} {clientFd fileFd : ℤ} {buffer : Buffer} {r : Transfer bufferSize} {k : ℕ}

/-- What only reads, sends, closes and logs leaves the monitor as it is. -/
theorem follows_aside {α : Type} {p : Handler α}
    (h : Uses (E := posix) (fun o => o.isAside = true) p) :
    Follows reception .idle p fun _ g => g = .idle :=
  h.follows fun _ r ho => step_aside ho r

/-- Once an access has been outside the array everything is allowed. -/
theorem follows_spilled {α : Type} (p : Handler α) :
    Follows reception .spilled p fun _ g => g = .spilled := by
  have huses : Uses (E := posix) (fun _ => True) p := by
    induction p with
    | pure a => trivial
    | call o k ih => exact ⟨trivial, ih⟩
    | loop body s k ihbody ih => exact ⟨ihbody, ih⟩
  exact huses.follows fun _ _ _ => rfl

theorem aside_respond : Uses (E := posix) (fun o => o.isAside = true) (respond clientFd buffer k) := by
  simp only [respond, openFile, syslog, close, Prog.bind_eq, Prog.call_bind, Prog.pure_bind,
    Prog.pure_eq]
  refine Uses.ite ⟨rfl, fun fd => Uses.ite ⟨rfl, fun _ => trivial⟩ ?_⟩ trivial
  refine ⟨fun buffer => ?_, fun buffer => ⟨rfl, fun _ => trivial⟩⟩
  simp only [echo, read, send, syslog, Prog.bind_eq, Prog.call_bind, Prog.pure_bind, Prog.pure_eq]
  refine ⟨rfl, fun r => Uses.ite ⟨rfl, fun n => ?_⟩ trivial⟩
  exact Uses.ite ⟨rfl, fun _ => trivial⟩ trivial

theorem aside_threadCleanup : Uses (E := posix) (fun o => o.isAside = true) (threadCleanup tinfo) := by
  have hrest : Uses (E := posix) (fun o => o.isAside = true) (do
      mutexLock .list
      listRemove tinfo
      mutexUnlock .list
      free tinfo) :=
    ⟨rfl, fun _ => ⟨rfl, fun _ => ⟨rfl, fun _ => ⟨rfl, fun _ => trivial⟩⟩⟩⟩
  simp only [threadCleanup, loadClientFd, close, Prog.bind_eq, Prog.call_bind, Prog.pure_bind]
  exact ⟨rfl, fun _ => Uses.ite ⟨rfl, fun _ => ⟨rfl, fun _ => hrest⟩⟩ hrest⟩

/-- The operation that the chunk asks for. -/
theorem follows_decided {α : Type} {c : List UInt8} {o : PosixOp} {f : PosixRes o → Handler α}
    {Q : α → Reception → Prop} (ho : decided c o = true)
    (hf : ∀ res, Follows reception .idle (f res) Q) :
    Follows reception (.holds c) (Prog.call (E := posix) o f) Q := by
  intro res _
  refine ⟨.idle, ?_, hf res⟩
  show (if decided c o then _ else _) = _
  rw [if_pos ho]

/-- A seek is asked for by the chunk. -/
theorem follows_holds_performSeek {c : List UInt8} {x y : UInt32}
    (hc : request c = some (.seek x y)) :
    Follows reception (.holds c) (performSeek tinfo fileFd ⟨x, y⟩) fun _ g => g = .idle := by
  have hloop : Uses (E := posix) (fun o => o.isAside = true)
      ((Prog.iterate (fun () => sendRest tinfo fileFd) ()).bind fun _ => close fileFd) := by
    refine ⟨fun _ => ?_, fun _ => ⟨rfl, fun _ => trivial⟩⟩
    simp only [sendRest, read, loadClientFd, send, Prog.bind_eq, Prog.call_bind, Prog.pure_bind,
      Prog.pure_eq]
    exact ⟨rfl, fun r => Uses.ite ⟨rfl, fun _ => ⟨rfl, fun _ => trivial⟩⟩ trivial⟩
  simp only [performSeek, ioctl, syslog, Prog.bind_eq, Prog.call_bind, Prog.pure_bind]
  refine Follows.ite (follows_decided ?_ fun _ => rfl) (follows_decided ?_ fun n => ?_)
  · rw [decided, if_pos rfl, hc]
    rfl
  · rw [decided, hc]
    exact decide_eq_true rfl
  · exact follows_aside (Uses.ite ⟨rfl, fun _ => hloop⟩ hloop)

/-- What a chunk that fits makes the thread do is decided by its bytes. -/
theorem follows_holds_afterChunk (hlen : r.data.length < bufferSize) :
    Follows reception (.holds r.data) (afterChunk tinfo clientFd fileFd buffer r)
      fun _ g => g = .idle := by
  rw [afterChunk]
  by_cases hstart : seekPrefix <+: r.data
  · rw [if_pos hstart]
    refine Follows.bind (R := fun _ g => g = .idle) ?_ fun _ g hg => ?_
    swap
    · exact hg
    -- the terminator bounds the scan of the numbers
    have hnul : 0 ∈ (buffer.chunk r).bytes.drop 19 := Buffer.nul_mem_chunk hstart.length_le hlen
    have hrequest : request r.data = (scanPair (cString (r.data.drop 19))).map _ := if_pos hstart
    simp only [seekCommand, Buffer.loadString, Prog.bind_eq, Prog.pure_eq]
    rw [if_neg (not_not.mpr hnul), cString_drop_chunk hstart, Prog.pure_bind]
    cases hpair : scanPair (cString (r.data.drop 19)) with
    | none =>
        rw [hpair, Option.map_none] at hrequest
        refine follows_decided ?_ fun _ => rfl
        rw [decided, if_neg (by decide), hrequest]
        rfl
    | some q =>
        rw [hpair, Option.map_some] at hrequest
        exact follows_holds_performSeek hrequest
  · rw [if_neg hstart]
    simp only [storeData, mutexLock, mutexUnlock, write, syslog, close, Prog.bind_eq, Prog.call_bind,
      Prog.pure_bind, Prog.pure_eq]
    -- the lock of `file_mutex` shows that the chunk is taken as data
    refine follows_decided (decide_eq_true (request_eq_data_iff.mpr hstart)) fun _ => follows_aside ?_
    refine Uses.ite ⟨rfl, fun _ => ⟨rfl, fun _ => trivial⟩⟩ ⟨rfl, fun n => ?_⟩
    refine Uses.ite ⟨rfl, fun _ => ⟨rfl, fun _ => ⟨rfl, fun _ => trivial⟩⟩⟩ ⟨rfl, fun _ => ?_⟩
    exact ⟨rfl, fun _ => aside_respond⟩

/-- No chunk is pending between the rounds, unless an access has been outside the array. -/
def Settled (g : Reception) : Prop := g = .idle ∨ g = .spilled

theorem follows_reception_serve :
    Follows reception .idle (serve tinfo clientFd fileFd buffer) fun _ g => Settled g := by
  rw [serve_eq]
  intro r _
  refine ⟨(received ⟨.recv clientFd bufferSize, r⟩).elim .idle .arrives, rfl, ?_⟩
  beta_reduce
  by_cases hr : r.retval ≤ 0
  · rw [if_pos hr, received, if_neg (not_lt.mpr hr)]
    exact .inl rfl
  rw [if_neg hr, received, if_pos (not_le.mp hr), Option.elim_some, Reception.arrives]
  by_cases hfull : bufferSize ≤ r.data.length
  · rw [if_pos hfull, if_neg (not_lt.mpr hfull)]
    exact fun _ _ => ⟨.spilled, rfl, (follows_spilled _).mono fun _ _ h => .inr h⟩
  · rw [if_neg hfull, if_pos (not_le.mp hfull)]
    exact (follows_holds_afterChunk (not_le.mp hfull)).mono fun _ _ h => .inl h

theorem follows_reception_handleClient {stack : Buffer} :
    Follows reception .idle (handleClient tinfo stack) fun _ g => Settled g := by
  have hrest : ∀ clientFd fileFd, Follows reception .idle
      ((Prog.iterate (serve tinfo clientFd fileFd) stack).bind fun _ => threadCleanup tinfo)
      fun _ g => Settled g := by
    intro clientFd fileFd
    refine (Follows.iterate (fun _ g => Settled g) (Q := fun _ g => Settled g) (.inl rfl) ?_).bind ?_
    · rintro buffer _ (rfl | rfl)
      · exact follows_reception_serve.mono fun res _ h => by cases res <;> exact h
      · refine (follows_spilled _).mono fun res _ h => ?_
        cases res <;> exact .inr h
    · rintro _ _ (rfl | rfl)
      · exact (follows_aside aside_threadCleanup).mono fun _ _ h => .inl h
      · exact (follows_spilled _).mono fun _ _ h => .inr h
  simp only [handleClient, handleConnection, loadClientFd, openFile, syslog, Prog.bind_eq,
    Prog.call_bind, Prog.pure_bind]
  intro clientFd _
  refine ⟨.idle, rfl, fun fileFd _ => ⟨.idle, rfl, ?_⟩⟩
  by_cases hfd : fileFd.val = -1
  · beta_reduce
    rw [if_pos hfd]
    exact fun _ _ => ⟨.idle, rfl, hrest _ _⟩
  · beta_reduce
    rw [if_neg hfd]
    exact hrest _ _

end Text

/-! ### Runs -/

theorem productive_handleClient {tinfo : ThreadInfo} {stack : Buffer} :
    Productive (E := posix) (handleClient tinfo stack) := by
  have hrest : ∀ clientFd fileFd, Productive (E := posix)
      ((Prog.iterate (serve tinfo clientFd fileFd) stack).bind fun _ => threadCleanup tinfo) := by
    refine fun clientFd fileFd => ⟨fun buffer => ⟨?_, productive_serve⟩, fun _ => ?_⟩
    · rw [serve_eq]
      trivial
    · exact productive_threadCleanup
  simp only [handleClient, handleConnection, loadClientFd, openFile, syslog, Prog.bind_eq,
    Prog.call_bind, Prog.pure_bind]
  refine fun clientFd fileFd => ?_
  beta_reduce
  by_cases hfd : fileFd.val = -1
  · rw [if_pos hfd]
    exact fun _ => hrest _ _
  · rw [if_neg hfd]
    exact hrest _ _

/-- Every operation can be answered. -/
theorem nonempty_res (o : PosixOp) : Nonempty (PosixRes o) := by
  cases o with
  | openFile flags => exact ⟨⟨-1, le_rfl⟩⟩
  | recv fd n => exact ⟨Transfer.empty n⟩
  | read fd n => exact ⟨Transfer.empty n⟩
  | loadClientFd | send | write | ioctl | close => exact ⟨(0 : ℤ)⟩
  | _ => exact ⟨()⟩

section Runs

variable {tinfo : ThreadInfo} {stack : Buffer} {t : List (Event posix)} {q : Handler Unit}
  {g : Reception}

/-- A thread that has received a chunk that fills the array goes on outside of it. -/
theorem spills_of_brimming (hq : Follows reception .brimming q fun _ g => Settled g)
    (hproductive : Productive q) : ∃ i k, Runs q [] (Prog.call (E := posix) (.overrun i) k) := by
  have hpure : ∀ a, q ≠ .pure a := by
    rintro a rfl
    rcases hq with h | h <;> cases h
  obtain ⟨o, k, hrun⟩ := hproductive.exists_call hpure
  obtain ⟨g', hg', hcall⟩ := hq.runs hrun trivial
  rw [Monitor.after_nil, Option.some.injEq] at hg'
  subst hg'
  obtain ⟨r⟩ := nonempty_res o
  obtain ⟨g', hstep, -⟩ := hcall r trivial
  cases o with
  | overrun i => exact ⟨i, k, hrun⟩
  | _ => cases hstep

/-- Chunks that fit leave the monitor idle, or with the last of them. -/
theorem of_says (hsaid : g.Says t) (hshort : ∀ c ∈ chunks t, c.length < bufferSize) :
    (g = .idle ∨ ∃ chunk, g = .holds chunk) ∧ Fits t ∧ DecidedByChunks t := by
  have hno : ¬∃ c ∈ chunks t, bufferSize ≤ c.length := by
    rintro ⟨c, hc, hlong⟩
    exact absurd (hshort c hc) (not_lt.mpr hlong)
  cases g with
  | idle =>
      obtain ⟨hfits, hall⟩ := hsaid
      exact ⟨.inl rfl, hfits, chunks t, [], (List.append_nil _).symm, Nat.zero_le 1, hall⟩
  | holds chunk =>
      obtain ⟨hfits, cs, hcs, hall⟩ := hsaid
      exact ⟨.inr ⟨chunk, rfl⟩, hfits, cs, [chunk], hcs, le_rfl, hall⟩
  | brimming => exact absurd hsaid hno
  | spilled => exact absurd hsaid.1 hno

/-- A thread whose last chunk fits does not go on outside the array. -/
theorem not_spills (hg : g = .idle ∨ ∃ chunk, g = .holds chunk)
    (hq : Follows reception g q fun _ g => Settled g) (i : ℕ) (k : Unit → Handler Unit) :
    ¬Runs q [] (Prog.call (E := posix) (.overrun i) k) := by
  intro hrun
  obtain ⟨g', hg', hcall⟩ := hq.runs hrun trivial
  rw [Monitor.after_nil, Option.some.injEq] at hg'
  subst hg'
  obtain ⟨g', hstep, -⟩ := hcall () trivial
  rcases hg with rfl | ⟨chunk, rfl⟩
  · cases hstep
  · cases hstep

/-- **When the receive buffer is used within its bounds.** In every run of `handle_client`, whatever
is received, read and answered, every access to `buffer` is inside the array and every decision
about a chunk is the one that its own bytes ask for, exactly if no chunk fills the array. -/
theorem inBounds_iff (hrun : Runs (Checked.handleClient tinfo stack) t q) :
    InBounds t q ∧ DecidedByChunks t ↔ ∀ c ∈ chunks t, c.length < bufferSize := by
  rw [Checked.handleClient_eq] at hrun
  obtain ⟨g, hg, hq⟩ := follows_reception_handleClient.runs hrun
    (Monitor.admits_of_mem (fun _ _ _ => trivial) _)
  have hsaid := says_of_after hg
  constructor
  · rintro ⟨⟨hin, hnext⟩, -⟩ c hc
    cases g with
    | idle => exact hsaid.1.1 c hc
    | holds chunk => exact hsaid.1.1 c hc
    | brimming =>
        -- the terminator is stored behind the end
        obtain ⟨i, k, hspills⟩ := spills_of_brimming hq (productive_handleClient.runs hrun)
        exact absurd hspills (hnext i k)
    | spilled =>
        obtain ⟨-, e, he, hover⟩ := hsaid
        rw [hin e he] at hover
        cases hover
  · intro hshort
    obtain ⟨hstate, hfits, hdecided⟩ := of_says hsaid hshort
    exact ⟨⟨hfits.2, not_spills hstate hq⟩, hdecided⟩

/-- A chunk that fills the array. -/
def fullChunk : Transfer bufferSize :=
  .full (List.replicate bufferSize 97) (by rw [List.length_replicate])

/-- The terminator of a full chunk is stored behind the end of the array. -/
theorem not_inBounds_fullChunk : ∃ q, Runs (Checked.handleClient 0 Buffer.zero)
    (opened 0 4 deviceFd ++
      [⟨.recv 4 bufferSize, fullChunk⟩, ⟨.overrun fullChunk.data.length, ()⟩]) q ∧
    ¬(InBounds (opened 0 4 deviceFd ++
        [⟨.recv 4 bufferSize, fullChunk⟩, ⟨.overrun fullChunk.data.length, ()⟩]) q ∧
      DecidedByChunks (opened 0 4 deviceFd ++
        [⟨.recv 4 bufferSize, fullChunk⟩, ⟨.overrun fullChunk.data.length, ()⟩])) := by
  have hlength : fullChunk.data.length = bufferSize := List.length_replicate
  have hpos : ¬fullChunk.retval ≤ 0 := by
    show ¬((fullChunk.data.length : ℕ) : ℤ) ≤ 0
    rw [hlength]
    decide
  have hround : Runs (serve 0 4 deviceFd Buffer.zero)
      [⟨.recv 4 bufferSize, fullChunk⟩, ⟨.overrun fullChunk.data.length, ()⟩]
      (afterChunk 0 4 deviceFd Buffer.zero fullChunk) := by
    rw [serve_eq]
    refine .call _ ?_
    rw [if_neg hpos, if_pos hlength.ge]
    exact .call _ (.refl _)
  obtain ⟨q, hq⟩ := runs_handleClient_of_serve (by decide) hround
  refine ⟨q, Checked.handleClient_eq.symm ▸ hq, fun h => ?_⟩
  have hno := h.1.1 ⟨.overrun fullChunk.data.length, ()⟩ (by simp)
  cases hno

/-- A seek command, and a chunk that leaves room for the terminator only. -/
def tightChunks : List (List UInt8) := [seekPrefix ++ [48, 44, 49], List.replicate 1023 97]

/-- A connection on which both arrive stays inside. -/
theorem inBounds_iff_two_chunks : ∃ t q, Runs (Checked.handleClient 0 Buffer.zero) t q ∧
    chunks t = tightChunks ∧ InBounds t q ∧ DecidedByChunks t := by
  have hsizes : ∀ c ∈ tightChunks, c ≠ [] ∧ c.length ≤ bufferSize := by decide +kernel
  have hshort : ∀ c ∈ tightChunks, c.length < bufferSize := by decide +kernel
  obtain ⟨t, h, hchunks⟩ := exists_session 0 Buffer.zero hsizes
  have hrun : Runs (Checked.handleClient 0 Buffer.zero) t (threadCleanup 0) := by
    rw [Checked.handleClient_eq]
    exact h.runs.bind fun _ => threadCleanup 0
  exact ⟨t, _, hrun, hchunks, (inBounds_iff hrun).mpr (by rwa [hchunks])⟩

end Runs

end Aesd.Server

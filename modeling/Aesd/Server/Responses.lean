import Aesd.Server.Solo

/-! # What a client gets back

The answer to a chunk that ends with a newline is put together from many reads on a descriptor of
its own, without `file_mutex`, while the other threads go on. A write that evicts the oldest command
between two of the reads moves every later command towards the start, under the position of the
reader. **`response_snapshot`**: if no write evicts a command after the first read, then the answer
is what the device holds at the moment of the last read. `not_always_snapshot` shows an answer that
is cut short by an eviction. -/

namespace Aesd.Server

open Effects Streams CharDriver

/-- The bytes a thread sends on a descriptor. -/
def sentOn (t : ℕ) (fd : ℤ) (a : Act posix Host) : List UInt8 :=
  match a.event.op with
  | .send fd' bytes => if a.task = t ∧ fd' = fd then bytes else []
  | _ => []

/-- The bytes a client receives from its thread in the course of a run. -/
def response (t : ℕ) (fd : ℤ) (τ : List (Act posix Host)) : List UInt8 := τ.flatMap (sentOn t fd)

/-! ### The phases of an answer -/

/-- Where a thread is in its answer. -/
inductive Phase where
  /-- It is not answering. -/
  | idle
  /-- It is about to read from `fd`. -/
  | reading (fd : ℤ)
  /-- It has read `data` from `fd` and is about to send it. -/
  | sending (fd : ℤ) (data : List UInt8)
  /-- It has left the loop and is about to close `fd`. -/
  | closing (fd : ℤ)

/-- The steps of an answer to the client on `clientFd`. -/
def respondStep (clientFd : ℤ) : Phase → Event posix → Option Phase
  | phase, ⟨.overrun _, _⟩ => some phase
  | .idle, ⟨.openFile .rdonly, fd⟩ => some (if fd.val = -1 then .idle else .reading fd.val)
  | .idle, _ => some .idle
  | .reading fd, ⟨.read fd' n, r⟩ =>
      if fd' = fd ∧ n = bufferSize then
        some (if 0 < r.retval then .sending fd r.data else .closing fd)
      else none
  | .sending fd data, ⟨.send fd' bytes, n⟩ =>
      if fd' = clientFd ∧ bytes = data then some (if n = -1 then .closing fd else .reading fd)
      else none
  | .closing fd, ⟨.close fd', _⟩ => if fd' = fd then some .idle else none
  | .closing fd, ⟨.syslog _, _⟩ => some (.closing fd)
  | _, _ => none

/-- What a step of an answer can be. -/
inductive Responds (clientFd : ℤ) : Phase → Event posix → Phase → Prop where
  /-- An access outside the buffer is no step of an answer. -/
  | overrun (phase : Phase) (i : ℕ) : Responds clientFd phase ⟨.overrun i, ()⟩ phase
  /-- No answer is going on. -/
  | idle (e : Event posix) (phase : Phase) : Responds clientFd .idle e phase
  /-- Something has been read, or nothing. -/
  | read (fd : ℤ) (r : Transfer bufferSize) : Responds clientFd (.reading fd) ⟨.read fd bufferSize, r⟩
      (if 0 < r.retval then .sending fd r.data else .closing fd)
  /-- What has been read is sent. -/
  | send (fd : ℤ) (data : List UInt8) (n : ℤ) : Responds clientFd (.sending fd data)
      ⟨.send clientFd data, n⟩ (if n = -1 then .closing fd else .reading fd)
  /-- A failed `send` is reported. -/
  | syslog (fd : ℤ) (message : String) :
      Responds clientFd (.closing fd) ⟨.syslog message, ()⟩ (.closing fd)
  /-- The descriptor is closed. -/
  | close (fd : ℤ) (n : ℤ) : Responds clientFd (.closing fd) ⟨.close fd, n⟩ .idle

theorem responds_of_step {clientFd : ℤ} {phase g : Phase} {e : Event posix}
    (h : respondStep clientFd phase e = some g) : Responds clientFd phase e g := by
  -- one goal for each branch of the monitor
  unfold respondStep at h
  split at h
  · obtain rfl := Option.some.inj h
    exact .overrun _ _
  · exact .idle _ _
  · exact .idle _ _
  · split at h
    · rename_i hread
      obtain ⟨rfl, rfl⟩ := hread
      obtain rfl := Option.some.inj h
      exact .read _ _
    · cases h
  · split at h
    · rename_i hsend
      obtain ⟨rfl, rfl⟩ := hsend
      obtain rfl := Option.some.inj h
      exact .send _ _ _
    · cases h
  · split at h
    · rename_i hclose
      subst hclose
      obtain rfl := Option.some.inj h
      exact .close _ _
    · cases h
  · obtain rfl := Option.some.inj h
    exact .syslog _ _
  · cases h

/-- The monitor of the answers; the thread finds its client's descriptor in `tinfo`. -/
def responding (clientFd : ℤ) : Monitor posix Phase where
  expects _ e := ∀ tinfo fd, e = ⟨.loadClientFd tinfo, fd⟩ → fd = clientFd
  step := respondStep clientFd

section Text

variable {tinfo : ThreadInfo} {clientFd fileFd : ℤ} {buffer : Buffer} {k : ℕ}

theorem respondStep_plain {o : PosixOp} (r : PosixRes o) (ho : o ≠ .openFile .rdonly) :
    respondStep clientFd .idle ⟨o, r⟩ = some .idle := by
  cases o with
  | openFile flags =>
      cases flags with
      | creatAppendRdwr => rfl
      | rdonly => exact absurd rfl ho
  | _ => rfl

theorem idle_skip {α : Type} {o : PosixOp} {f : PosixRes o → Handler α} {Q : α → Phase → Prop}
    (ho : o ≠ .openFile .rdonly)
    (hf : ∀ r, (responding clientFd).expects .idle ⟨o, r⟩ →
      Follows (responding clientFd) .idle (f r) Q) :
    Follows (responding clientFd) .idle (Prog.call (E := posix) o f) Q := by
  intro r hr
  exact ⟨.idle, respondStep_plain r ho, hf r hr⟩

/-- A round of the answer. -/
theorem follows_responding_echo {fd : ℤ} :
    Follows (responding clientFd) (.reading fd) (echo clientFd fd buffer) fun r g =>
      Sum.elim (fun _ => g = .reading fd) (fun _ => g = .closing fd) r := by
  have hread : ∀ r : Transfer bufferSize, respondStep clientFd (.reading fd) ⟨.read fd bufferSize, r⟩ =
      some (if 0 < r.retval then .sending fd r.data else .closing fd) := fun r =>
    if_pos ⟨rfl, rfl⟩
  simp only [echo, read, send, syslog, Prog.bind_eq, Prog.call_bind, Prog.pure_bind, Prog.pure_eq]
  intro r _
  refine ⟨_, hread r, ?_⟩
  beta_reduce
  by_cases hr : 0 < r.retval
  · rw [if_pos hr, if_pos hr]
    intro n _
    -- what is sent is what has been read
    have hsend : respondStep clientFd (.sending fd r.data)
        ⟨.send clientFd ((buffer.fill r).bytes.take r.retval.toNat), n⟩ =
          some (if n = -1 then .closing fd else .reading fd) := if_pos ⟨rfl, Buffer.take_fill hr⟩
    refine ⟨_, hsend, ?_⟩
    beta_reduce
    by_cases hn : n = -1
    · rw [if_pos hn, if_pos hn]
      intro _ _
      exact ⟨.closing fd, rfl, rfl⟩
    · rw [if_neg hn, if_neg hn]
      exact rfl
  · rw [if_neg hr, if_neg hr]
    exact rfl

/-- The answer ends where it began. -/
theorem follows_responding_respond :
    Follows (responding clientFd) .idle (respond clientFd buffer k) fun _ g => g = .idle := by
  simp only [respond, openFile, syslog, close, Prog.bind_eq, Prog.call_bind, Prog.pure_bind,
    Prog.pure_eq]
  refine Follows.ite ?_ rfl
  intro fd _
  refine ⟨_, rfl, ?_⟩
  beta_reduce
  by_cases hfd : fd.val = -1
  · rw [if_pos hfd, if_pos hfd]
    exact idle_skip (by simp) fun _ _ => rfl
  · rw [if_neg hfd, if_neg hfd]
    refine (Follows.iterate (fun _ g => g = .reading fd.val) (Q := fun _ g => g = .closing fd.val) rfl
      ?_).bind ?_
    · rintro buffer _ rfl
      exact follows_responding_echo.mono fun r _ h => by cases r <;> exact h
    · rintro buffer _ rfl
      intro n _
      exact ⟨.idle, if_pos rfl, rfl⟩

/-- The data branch answers at its end. -/
theorem follows_responding_storeData :
    Follows (responding clientFd) .idle (storeData clientFd fileFd buffer k)
      fun _ g => g = .idle := by
  simp only [storeData, mutexLock, mutexUnlock, write, syslog, close, Prog.bind_eq, Prog.call_bind,
    Prog.pure_bind, Prog.pure_eq]
  refine idle_skip (by simp) fun _ _ => Follows.ite ?_ ?_
  · exact idle_skip (by simp) fun _ _ => idle_skip (by simp) fun _ _ => rfl
  · refine idle_skip (by simp) fun _ _ => Follows.ite ?_ ?_
    · refine idle_skip (by simp) fun _ _ => idle_skip (by simp) fun _ _ => ?_
      exact idle_skip (by simp) fun _ _ => rfl
    · refine idle_skip (by simp) fun _ _ => idle_skip (by simp) fun _ _ => ?_
      exact follows_responding_respond

/-- The thread answers on the descriptor of its client. -/
theorem follows_responding (tinfo : ThreadInfo) (stack : Buffer) :
    Follows (responding clientFd) .idle (handleClient tinfo stack) fun _ g => g = .idle := by
  have hover : ∀ i, (responding clientFd).Ignores (.overrun i) := fun _ _ _ => rfl
  have hserve : ∀ (buffer : Buffer) (fileFd : ℤ), Follows (responding clientFd) .idle
      (serve tinfo clientFd fileFd buffer) fun _ g => g = .idle := by
    intro buffer fileFd
    refine follows_serve hover fun r _ => ⟨.idle, rfl, fun _ => rfl, fun _ hstart => ?_, ?_⟩
    · refine follows_seekCommand hover hstart (fun x y _ => uses_performSeek.follows ?_) fun _ => ?_
      · rintro o r (ho | ho) <;> refine respondStep_plain r ?_ <;> rintro rfl <;> cases ho
      · exact idle_skip (by simp) fun _ _ => rfl
    · exact fun _ _ => follows_responding_storeData
  have hloop : ∀ (buffer : Buffer) (fileFd : ℤ), Follows (responding clientFd) .idle
      (Prog.iterate (serve tinfo clientFd fileFd) buffer) fun _ g => g = .idle := by
    intro buffer fileFd
    refine Follows.iterate (fun _ g => g = .idle) rfl ?_
    rintro buffer _ rfl
    exact (hserve buffer fileFd).mono fun r _ h => by cases r <;> exact h
  have hcleanup : Follows (responding clientFd) .idle (threadCleanup tinfo) fun _ g => g = .idle := by
    refine uses_threadCleanup.follows fun o r ho => respondStep_plain r ?_
    rintro rfl
    cases ho
  simp only [handleClient, handleConnection, loadClientFd, openFile, syslog, Prog.bind_eq,
    Prog.call_bind, Prog.pure_bind]
  refine idle_skip (by simp) fun fd hfd => idle_skip (by simp) fun _ _ => ?_
  obtain rfl : fd = clientFd := hfd tinfo fd rfl
  refine Follows.bind (R := fun _ g => g = .idle) (Follows.ite ?_ (hloop _ _)) ?_
  · exact idle_skip (by simp) fun _ _ => hloop _ _
  · rintro _ _ rfl
    exact hcleanup

end Text

/-! ### Answers in a run -/

/-- The act reads from `fd` for the thread `t`. -/
def Reads (t : ℕ) (fd : ℤ) (a : Act posix Host) : Prop := a.task = t ∧ ∃ n, a.event.op = .read fd n

/-- The acts from `o` to `a` are an answer of the thread `t`, which sends all that it reads. -/
structure IsAnswer (t : ℕ) (fd : Descriptor) (o : Act posix Host) (τ : List (Act posix Host))
    (a : Act posix Host) : Prop where
  /-- It opens `fd`. -/
  opens : o.task = t ∧ o.event = ⟨.openFile .rdonly, fd⟩ ∧ fd.val ≠ -1
  /-- It does not close `fd`. -/
  stays : ∀ b ∈ τ, b.task = t → b.event.op ≠ .close fd.val
  /-- `send` delivers all its bytes. -/
  delivers : ∀ b ∈ τ, b.task = t → ∀ fd' bytes n, b.event = ⟨.send fd' bytes, n⟩ → n = bytes.length
  /-- It reads nothing at `a`. -/
  ends : a.task = t ∧ ∃ r : Transfer bufferSize, a.event = ⟨.read fd.val bufferSize, r⟩ ∧ r.retval ≤ 0

/-- Nobody disturbs an answer of the thread `t` on `fd`. -/
structure Undisturbed (t : ℕ) (fd : ℤ) (τ : List (Act posix Host)) : Prop where
  /-- No other thread works on the descriptor. -/
  alone : ∀ b ∈ τ, b.task ≠ t → b.event.op.fd? ≠ some fd
  /-- From the first read on no command is evicted. -/
  kept : ∀ pre b post, τ = pre ++ b :: post → (∃ c ∈ pre, Reads t fd c) →
    b.before.world.retained <+: b.after.world.retained

/-- What has been read and not been sent. -/
def Phase.unsent : Phase → List UInt8
  | .sending _ data => data
  | _ => []

@[simp] theorem Phase.unsent_reading (fd : ℤ) : (Phase.reading fd).unsent = [] := rfl

@[simp] theorem Phase.unsent_sending (fd : ℤ) (data : List UInt8) :
    (Phase.sending fd data).unsent = data := rfl

/-- The thread is in the read loop on `fd`. -/
def Phase.IsLooping (fd : ℤ) : Phase → Prop
  | .reading fd' | .sending fd' _ => fd' = fd
  | _ => False

/-- What holds in the course of an answer on `fd`, through the open file `f`, of which `sent` has
been sent. -/
structure Answering (fd : ℤ) (f : OpenFile) (sent : List UInt8) (phase : Phase) (s : Host) (l : Log) :
    Prop where
  /-- The device stands for the log. -/
  sound : s.Sound l
  /-- The descriptor is open. -/
  file : s.files fd = some f
  /-- The loop has been left, or what has been read is a beginning of the contents and the position
  is behind it. -/
  loop : phase = .closing fd ∨ phase.IsLooping fd ∧
    l.fPos f.file = (sent ++ phase.unsent).length ∧ sent ++ phase.unsent <+: l.contents

section Answers

variable {clients : ℕ → Client} {t : ℕ} {fd : ℤ} {f : OpenFile} {sent : List UInt8} {phase g : Phase}
  {a : Act posix Host} {l : Log}

theorem World.contents_prefix {w w' : World} (h : w.retained <+: w'.retained) :
    w.contents <+: w'.contents := (h.map _).flatten

/-- An act of another thread. -/
theorem Answering.other (h : Answering fd f sent phase a.before l)
    (hans : hostAnswers clients a.task a.hist a.event.op a.before a.event.res a.after)
    (halone : a.event.op.fd? ≠ some fd)
    (hkept : phase = .reading fd ∧ sent = [] ∨ a.before.world.retained <+: a.after.world.retained) :
    ∃ l', Answering fd f sent phase a.after l' := by
  obtain ⟨l', hl⟩ := h.sound.step hans
  obtain ⟨hfile, hpos⟩ := hl.others fd f h.file halone
  refine ⟨l', hl.sound, hfile, ?_⟩
  rcases h.loop with hclosing | ⟨hloop, hfPos, hpre⟩
  · exact .inl hclosing
  · refine .inr ⟨hloop, by rw [hpos, hfPos], ?_⟩
    rcases hkept with ⟨rfl, rfl⟩ | hkept
    · exact List.nil_prefix
    · have hcontents := World.contents_prefix hkept
      rw [h.sound.stands.contents, hl.sound.stands.contents] at hcontents
      exact hpre.trans hcontents

/-- A read of the thread itself. -/
theorem Answering.read (h : Answering fd f sent (.reading fd) a.before l) {r : Transfer bufferSize}
    (hans : hostAnswers clients t a.hist (.read fd bufferSize) a.before r a.after) :
    (0 < r.retval → ∃ l', Answering fd f sent (.sending fd r.data) a.after l') ∧
      (r.retval ≤ 0 → sent = l.contents ∧ ∃ l', Answering fd f sent (.closing fd) a.after l') := by
  rcases h.loop with hclosing | ⟨-, hpos, hpre⟩
  · cases hclosing
  rw [Phase.unsent_reading, List.append_nil] at hpos hpre
  obtain ⟨l', hl, hfiles, hcontents, hpos', hdata, hend⟩ :=
    h.sound.reads h.file hpos hpre.length_le (by decide) hans
  constructor
  · intro _
    refine ⟨l', hl, hfiles ▸ h.file, .inr ⟨rfl, ?_, ?_⟩⟩
    · rw [hpos', Phase.unsent_sending, List.length_append]
    · obtain ⟨w, hw⟩ := hpre
      rw [← hw, List.drop_left] at hdata
      rw [hcontents, ← hw]
      exact (List.prefix_append_right_inj _).mpr hdata
  · intro hr
    exact ⟨hpre.eq_of_length_le (hend hr), l', hl, hfiles ▸ h.file, .inl rfl⟩

/-- An act of the thread itself. -/
theorem Answering.own (h : Answering fd f sent phase a.before l)
    (hans : hostAnswers clients t a.hist a.event.op a.before a.event.res a.after)
    (hstep : respondStep (clients t).fd phase a.event = some g) (ht : a.task = t)
    (hstays : a.event.op ≠ .close fd)
    (hdelivers : ∀ fd' bytes n, a.event = ⟨.send fd' bytes, n⟩ → n = bytes.length) :
    ∃ l', Answering fd f (sent ++ sentOn t (clients t).fd a) g a.after l' := by
  obtain ⟨u, hist, e, before, after⟩ := a
  have hresponds := responds_of_step hstep
  -- what is sent follows what has been read, up to the end of the contents
  cases hresponds with
  | overrun i =>
      obtain rfl : after = before := hans
      exact ⟨l, by rw [sentOn, List.append_nil]; exact h⟩
  | idle => rcases h.loop with hno | ⟨hno, -⟩ <;> cases hno
  | read fd' r =>
      rcases h.loop with hno | ⟨rfl, -⟩
      · cases hno
      obtain ⟨hdata, hend⟩ := h.read hans
      rw [sentOn, List.append_nil]
      by_cases hr : 0 < r.retval
      · rw [if_pos hr]
        exact hdata hr
      · rw [if_neg hr]
        exact (hend (not_lt.mp hr)).2
  | send fd' data n =>
      obtain rfl : after = before := hans
      rcases h.loop with hno | ⟨rfl, hpos, hpre⟩
      · cases hno
      -- the whole piece is delivered
      have hlen : n = data.length := hdelivers _ _ n rfl
      have hn : n ≠ -1 := by omega
      have hsent : sentOn t (clients t).fd ⟨u, hist, ⟨.send (clients t).fd data, n⟩, after, after⟩ =
          data := if_pos ⟨ht, rfl⟩
      rw [if_neg hn, hsent]
      refine ⟨l, h.sound, h.file, .inr ⟨rfl, ?_, ?_⟩⟩
      · rw [hpos, Phase.unsent_sending, Phase.unsent_reading, List.append_nil]
      · rwa [Phase.unsent_reading, List.append_nil]
  | syslog fd' message =>
      obtain rfl : after = before := hans
      exact ⟨l, by rw [sentOn, List.append_nil]; exact h⟩
  | close fd' n =>
      rcases h.loop with hclosing | ⟨hno, -⟩
      · rw [Phase.closing.injEq] at hclosing
        exact absurd (by rw [hclosing]) hstays
      · cases hno

/-- The opening. -/
theorem Answering.start {fd : Descriptor} {o : Act posix Host} (h : o.before.Sound l)
    (hans : hostAnswers clients o.task o.hist o.event.op o.before o.event.res o.after)
    (hevent : o.event = ⟨.openFile .rdonly, fd⟩) (hfd : fd.val ≠ -1)
    (hstep : respondStep (clients t).fd phase o.event = some g) :
    g = .reading fd.val ∧ ∃ f l', Answering fd.val f [] g o.after l' := by
  obtain ⟨u, hist, e, before, after⟩ := o
  dsimp only at hevent
  subst hevent
  obtain rfl : .reading fd.val = g := by
    cases phase with
    | idle =>
        have hg : (if fd.val = -1 then .idle else .reading fd.val) = g := Option.some.inj hstep
        rwa [if_neg hfd] at hg
    | _ => cases hstep
  obtain ⟨l', f, hsound, hfile, hpos⟩ := h.opened hans hfd
  exact ⟨rfl, f, l', hsound, hfile, .inr ⟨rfl, hpos, List.nil_prefix⟩⟩

/-- The last read. -/
theorem Answering.finish (h : Answering fd f sent phase a.before l) {r : Transfer bufferSize}
    (hans : hostAnswers clients a.task a.hist a.event.op a.before a.event.res a.after)
    (hevent : a.event = ⟨.read fd bufferSize, r⟩) (hr : r.retval ≤ 0)
    (hstep : respondStep (clients t).fd phase a.event = some g) :
    sent = a.before.world.contents := by
  obtain ⟨u, hist, e, before, after⟩ := a
  dsimp only at hevent
  subst hevent
  have hresponds := responds_of_step hstep
  cases hresponds with
  | idle => rcases h.loop with hno | ⟨hno, -⟩ <;> cases hno
  | read =>
      rw [h.sound.stands.contents]
      exact ((h.read hans).2 hr).1

theorem sentOn_of_ne {cfd : ℤ} (h : a.task ≠ t) : sentOn t cfd a = [] := by
  rw [sentOn]
  split
  · rw [if_neg fun hno => h hno.1]
  · rfl

theorem response_append {cfd : ℤ} {τ υ : List (Act posix Host)} :
    response t cfd (τ ++ υ) = response t cfd τ ++ response t cfd υ := List.flatMap_append

theorem response_of_others {cfd : ℤ} {τ : List (Act posix Host)} (h : ∀ b ∈ τ, b.task ≠ t) :
    response t cfd τ = [] := List.flatMap_eq_nil_iff.mpr fun b hb => sentOn_of_ne (h b hb)

theorem response_concat {cfd : ℤ} {τ : List (Act posix Host)} :
    response t cfd (τ ++ [a]) = response t cfd τ ++ sentOn t cfd a := by
  rw [response_append]
  exact congrArg _ (List.append_nil _)

/-- Before the first read nothing has been sent. -/
def NotBegun (t : ℕ) (fd : ℤ) (τ : List (Act posix Host)) (phase : Phase) (sent : List UInt8) : Prop :=
  (∀ c ∈ τ, ¬Reads t fd c) → phase = .reading fd ∧ sent = []

/-- An act of the thread that is not its first read. -/
theorem NotBegun.own {τ : List (Act posix Host)} (h : NotBegun t fd τ phase sent) (ht : a.task = t)
    (hstep : respondStep (clients t).fd phase a.event = some g) :
    NotBegun t fd (τ ++ [a]) g (sent ++ sentOn t (clients t).fd a) := by
  intro hnone
  obtain ⟨rfl, rfl⟩ := h fun c hc => hnone c (List.mem_append_left _ hc)
  have hnoread := hnone a (by simp)
  obtain ⟨u, hist, e, before, after⟩ := a
  have hresponds := responds_of_step hstep
  cases hresponds with
  | overrun i => exact ⟨rfl, rfl⟩
  | read _ r => exact absurd ⟨ht, bufferSize, rfl⟩ hnoread

/-- The step lemma of an answer. -/
theorem Answering.step {τ : List (Act posix Host)} {δ : ℕ → Phase}
    (h : Answering fd f (response t (clients t).fd τ) (δ t) a.before l)
    (hbegun : NotBegun t fd τ (δ t) (response t (clients t).fd τ))
    (hans : hostAnswers clients a.task a.hist a.event.op a.before a.event.res a.after)
    (hstep : respondStep (clients a.task).fd (δ a.task) a.event = some g)
    (hstays : a.task = t → a.event.op ≠ .close fd)
    (hdelivers : a.task = t → ∀ fd' bytes n, a.event = ⟨.send fd' bytes, n⟩ → n = bytes.length)
    (halone : a.task ≠ t → a.event.op.fd? ≠ some fd)
    (hkept : (∃ c ∈ τ, Reads t fd c) → a.before.world.retained <+: a.after.world.retained) :
    (∃ l', Answering fd f (response t (clients t).fd (τ ++ [a]))
      (Function.update δ a.task g t) a.after l') ∧
      NotBegun t fd (τ ++ [a]) (Function.update δ a.task g t)
        (response t (clients t).fd (τ ++ [a])) := by
  rw [response_concat]
  by_cases ht : a.task = t
  · rw [ht] at hstep hans
    rw [ht, Function.update_self]
    exact ⟨h.own hans hstep ht (hstays ht) (hdelivers ht), hbegun.own ht hstep⟩
  · rw [Function.update_of_ne (Ne.symm ht), sentOn_of_ne ht, List.append_nil]
    refine ⟨h.other hans (halone ht) ?_, fun hnone => ?_⟩
    · by_cases hread : ∃ c ∈ τ, Reads t fd c
      · exact .inr (hkept hread)
      · push Not at hread
        exact .inl (hbegun hread)
    · exact hbegun fun c hc => hnone c (List.mem_append_left _ hc)

end Answers

/-- **The answer is a snapshot.** Let a thread open the file, read and send until it reads nothing,
while the threads of any clients take their steps in any order. If no other thread works on its
descriptor and no write evicts a command after its first read, then what its client receives is the
concatenation of the commands that the device retains at the last read. -/
theorem response_snapshot (clients : ℕ → Client) (s₀ : Host) (l₀ : Log) (h₀ : s₀.Sound l₀) (t : ℕ)
    (fd : Descriptor) (τ₁ τ : List (Act posix Host)) (o a : Act posix Host)
    (q : Pool posix Host Unit)
    (hrun : Steps (server clients) ((server clients).init s₀) (τ₁ ++ [o] ++ τ ++ [a]) q)
    (hanswer : IsAnswer t fd o τ a) (hundisturbed : Undisturbed t fd.val τ) :
    response t (clients t).fd τ = a.before.world.contents := by
  have hexpects : ∀ b ∈ τ₁ ++ [o] ++ τ ++ [a],
      ∀ g, (responding (clients b.task).fd).expects g b.event := by
    intro b hb g tinfo fd' he
    have hans := hrun.answered b hb
    rw [he] at hans
    exact hans.1
  have hinit : Watched (fun u => responding (clients u).fd) (fun _ => .idle) (fun _ _ _ => True)
      (fun _ => .idle) ((server clients).init s₀) :=
    watched_init (fun u => (follows_responding _ _).mono fun _ _ _ => trivial) _
  obtain ⟨m₂, hrun₂, hlast⟩ := hrun.split
  obtain ⟨m₁, hrun₁, hloop⟩ := hrun₂.split
  obtain ⟨m₀, hrun₀, hopen⟩ := hrun₁.split
  -- up to the opening the device stands for some log
  obtain ⟨δ₀, hδ₀, l, hl⟩ := hrun₀.monitored (J := fun _ _ s => ∃ l, s.Sound l) hinit
    (fun b hb => hexpects b (by simp [hb])) ⟨l₀, h₀⟩
    (fun _ _ _ _ _ ⟨l, hl⟩ _ hans _ => (hl.step hans).imp fun _ h => h.sound)
  obtain ⟨g₁, hbefore₁, hafter₁, hstep₁, hδ₁⟩ := hopen.monitored_act hδ₀ (hexpects o (by simp))
  obtain ⟨ht, hevent, hfd⟩ := hanswer.opens
  obtain ⟨hphase₁, f, l₁, hl₁⟩ := Answering.start (hbefore₁ ▸ hl) (hrun.answered o (by simp)) hevent
    hfd hstep₁
  rw [ht] at hδ₁
  -- the read loop
  obtain ⟨δ₂, hδ₂, ⟨l₂, hl₂⟩, -⟩ := hloop.monitored (J := fun υ δ s =>
      (∃ l, Answering fd.val f (response t (clients t).fd υ) (δ t) s l) ∧
        NotBegun t fd.val υ (δ t) (response t (clients t).fd υ)) hδ₁
    (fun b hb => hexpects b (by simp [hb]))
    (by
      rw [Function.update_self, ← hafter₁]
      exact ⟨⟨l₁, hl₁⟩, fun _ => ⟨hphase₁, rfl⟩⟩)
    (by
      rintro υ δ b g ⟨post, hυ⟩ ⟨⟨l, hl⟩, hbegun⟩ - hans hstep
      have hb : b ∈ τ := by simp [← hυ]
      refine hl.step hbegun hans hstep (hanswer.stays b hb) (hanswer.delivers b hb)
        (hundisturbed.alone b hb) (hundisturbed.kept υ b post ?_)
      rw [← hυ, List.append_assoc]
      rfl)
  -- the last read
  obtain ⟨g₂, hbefore₂, -, hstep₂, -⟩ := hlast.monitored_act hδ₂ (hexpects a (by simp))
  obtain ⟨ht, r, hevent, hr⟩ := hanswer.ends
  rw [ht] at hstep₂
  exact Answering.finish (hbefore₂ ▸ hl₂) (hrun.answered a (by simp)) hevent hr hstep₂

/-! ### Two answers -/

/-- Reads on the descriptor, and `send` that delivers all its bytes. -/
theorem isAnswer_of_reads {t : ℕ} {fd : Descriptor} {o a : Act posix Host}
    {τ : List (Act posix Host)} (hfd : fd.val ≠ -1)
    (ho : o.task = t ∧ o.event = ⟨.openFile .rdonly, fd⟩)
    (hτ : ∀ b ∈ τ, b.task = t → (∃ r, b.event = ⟨.read fd.val bufferSize, r⟩) ∨
      ∃ cfd c, b.event = ⟨.send cfd c, (c.length : ℤ)⟩)
    (ha : a.task = t ∧ a.event = ⟨.read fd.val bufferSize, .empty bufferSize⟩) :
    IsAnswer t fd o τ a where
  opens := ⟨ho.1, ho.2, hfd⟩
  stays b hb ht hclose := by
    obtain ⟨r, he⟩ | ⟨cfd, c, he⟩ := hτ b hb ht
    · rw [he] at hclose
      cases hclose
    · rw [he] at hclose
      cases hclose
  delivers b hb ht fd' bytes n hsend := by
    obtain ⟨r, he⟩ | ⟨cfd, c, he⟩ := hτ b hb ht
    · rw [he] at hsend
      cases hsend
    · rw [he] at hsend
      cases hsend
      rfl
  ends := ⟨ha.1, .empty bufferSize, ha.2, le_rfl⟩

/-- The first client has sent a line and is sent the oldest command, and then the second client, on
a descriptor of its own, stores a line. -/
theorem exists_answer_beside_store (streams : ℕ → List UInt8) {s₀ : Host} {l₀ : Log}
    (h₀ : s₀.Sound l₀) (hfile₆ : s₀.files 6 = none) (hfile₇ : s₀.files 7 = none)
    (howner : s₀.owner .file = none) (hpending : l₀.pending = []) {u v c : List UInt8}
    (hu : IsLine isNewline u) (hv : IsLine isNewline v)
    (hshort : u.length < bufferSize ∧ v.length < bufferSize)
    (hdata : ¬seekPrefix <+: u ∧ ¬seekPrefix <+: v) (hsends : u <+: streams 0 ∧ v <+: streams 1)
    (holdest : ((lines isNewline (l₀.stream ++ u)).rtake 10).head? = some c)
    (hroom : c.length ≤ bufferSize) :
    ∃ τ₁ τ₃ hist₀ hist₁ hist₂ p₁ s₁ s₂ q l f buffer,
      Steps (server (sending streams)) ((server (sending streams)).init s₀)
        (τ₁ ++ ([⟨0, hist₀, ⟨.openFile .rdonly, ⟨6, by decide⟩⟩, p₁, s₁⟩] ++
          [⟨0, hist₁, ⟨.read 6 bufferSize, .full c hroom⟩, s₁, s₂⟩,
            ⟨0, hist₂, ⟨.send 4 c, (c.length : ℤ)⟩, s₂, s₂⟩]) ++ τ₃) q ∧
      pieces τ₁ = [⟨0, 0, u⟩] ∧ pieces τ₃ = [⟨1, 0, v⟩] ∧
      (∀ a ∈ τ₃, a.task ≠ 0 ∧ a.event.op.fd? ≠ some 6) ∧ q.shared.Sound l ∧
      l.stream = l₀.stream ++ u ++ v ∧ q.shared.files 6 = some f ∧
      l.fPos f.file = (c.length : ℤ) ∧
      (q.task 0).prog = (answerOn 4 6 buffer).bind (afterRound 0 4 6) := by
  obtain ⟨cs, hcommands⟩ := List.head?_eq_some_iff.mp holdest
  obtain ⟨w, x, rfl, hx, hw⟩ := hu
  obtain rfl : x = newline := by simpa [isNewline] using hx
  have hu : IsLine isNewline (w ++ [newline]) := ⟨w, newline, rfl, hx, hw⟩
  obtain ⟨τ₁, q₁, l₁, hrun₁, hpieces₁, -, -, hl₁, hstream₁, hfiles₁, howner₁, hq₁, hothers₁⟩ :=
    exists_store (sending streams) 0 ⟨6, by decide⟩ (.full (w ++ [newline]) hshort.1.le)
      (p := (server (sending streams)).init s₀) h₀ rfl (by decide) hfile₆ howner
      (Int.natCast_pos.mpr hu.length_pos) hshort.1 hdata.1 hsends.1 (by rw [hpending]; decide)
  replace hstream₁ : l₁.stream = l₀.stream ++ (w ++ [newline]) :=
    hstream₁.trans (congrArg _ hu.firstLine)
  obtain ⟨hist₁, hist₂, s₁, s₂, q₂, l₂, f, hrun₂, hl₂, hstream₂, hpos₂, hfiles₂, howner₂,
    ⟨buffer₂, hq₂⟩, hothers₂⟩ := exists_answer (sending streams) 0 ⟨6, by decide⟩ hl₁ hq₁
      (Buffer.getD_chunk rfl) (by decide) (by rw [hfiles₁]; exact hfile₆)
      (by rw [Log.commands, hstream₁, hcommands]) hroom
  have hfile₂ : q₂.shared.files 6 = some f := by
    rw [hfiles₂]
    exact Function.update_self _ _ _
  -- the other client uses another descriptor
  obtain ⟨τ₃, q₃, -, hrun₃, hpieces₃, htask₃, hevents₃, -, -, -, -, -, hothers₃⟩ :=
    exists_store (sending streams) 1 ⟨7, by decide⟩ (.full v hshort.2.le) hl₂
      (by rw [hothers₂ 1 (by decide), hothers₁ 1 (by decide)]; rfl) (by decide)
      (by rw [hfiles₂, Function.update_of_ne (by decide), hfiles₁]; exact hfile₇)
      (by rw [howner₂, howner₁]; exact howner) (Int.natCast_pos.mpr hv.length_pos) hshort.2 hdata.2
      hsends.2 (by rw [Log.pending, hstream₂, hstream₁, rest_append_line hu]; decide)
  have hfds : ∀ a ∈ τ₃, a.event.op.fd? ≠ some 6 := by
    intro a ha
    have hevent := List.mem_map_of_mem (f := Act.event) ha
    rw [hevents₃] at hevent
    have hfds : ∀ e ∈ storing 1 5 ⟨7, by decide⟩ (.full v hshort.2.le)
        (firstLine isNewline v).length 0, e.op.fd? ≠ some 6 := by simp [storing, PosixOp.fd?]
    exact hfds a.event hevent
  obtain ⟨l₃, hl₃, hstream₃, hframe₃⟩ := hl₂.steps hrun₃
  obtain ⟨hfile₃, hpos₃⟩ := hframe₃ 6 f hfile₂ hfds
  refine ⟨τ₁, τ₃, _, hist₁, hist₂, _, s₁, s₂, q₃, l₃, f, buffer₂, (hrun₁.trans hrun₂).trans hrun₃,
    hpieces₁, hpieces₃, fun a ha => ⟨?_, hfds a ha⟩, hl₃, ?_, hfile₃, hpos₃.trans hpos₂, ?_⟩
  · rw [htask₃ a ha]
    decide
  · rw [hstream₃, hpieces₃, hstream₂, hstream₁]
    exact congrArg _ ((List.append_nil _).trans hv.firstLine)
  · rw [hothers₃ 0 (by decide)]
    exact hq₂

/-- One client sends `"a\n"`, the other one `"b\n"`. -/
def twoLines : ℕ → List UInt8
  | 0 => [97, newline]
  | _ => [98, newline]

/-- The first client has been sent its command when the second one stores another. -/
theorem response_snapshot_two_clients : ∃ τ₁ o τ a q,
    Steps (server (sending twoLines)) ((server (sending twoLines)).init Host.init)
        (τ₁ ++ [o] ++ τ ++ [a]) q ∧
      pieces τ = [⟨1, 0, [98, newline]⟩] ∧
      response 0 4 τ = [97, newline, 98, newline] ∧
      response 0 4 τ = a.before.world.contents := by
  obtain ⟨τ₁, τ₃, hist₀, hist₁, hist₂, p₁, s₁, s₂, q₃, l₃, f, buffer, hrun₃, hpieces₁, hpieces₃, hτ₃,
    hl₃, hstream₃, hfile₃, hpos₃, hq₃⟩ := exists_answer_beside_store twoLines Host.sound_init rfl rfl
      rfl rfl (u := [97, newline]) (v := [98, newline]) (c := [97, newline])
      ⟨[97], newline, rfl, rfl, List.forall_mem_singleton.mpr rfl⟩
      ⟨[98], newline, rfl, rfl, List.forall_mem_singleton.mpr rfl⟩ (by decide) (by decide) (by decide)
      (by decide) (by decide)
  have hcommands₃ : l₃.commands = [[97, newline], [98, newline]] := by
    rw [Log.commands, hstream₃]
    decide
  -- the first client is sent the new command
  have hread : l₃.read (.calm 0) f.file bufferSize =
      some (⟨([98, newline] : List UInt8).length, [98, newline]⟩, l₃.seekTo f.file 4) := by
    rw [Log.read, hcommands₃, hpos₃]
    rfl
  obtain ⟨hist₄, s₄, q₄, hrun₄, hl₄, hfiles₄, buffer₄, hq₄⟩ := exists_echo (sending twoLines) 0
    ⟨6, by decide⟩ hl₃ hq₃ hfile₃ (by decide) (by decide) hread
  have hcommands₄ : (l₃.seekTo f.file 4).commands = [[97, newline], [98, newline]] := hcommands₃
  obtain ⟨s₅, q₅, hrun₅⟩ := exists_last_read (sending twoLines) 0 ⟨6, by decide⟩ hl₄ hq₄
    (by rw [hfiles₄]; exact hfile₃) (Function.update_self _ _ _) (by decide)
    (by rw [Log.contents, hcommands₄]; decide)
  have hrun := (hrun₃.trans hrun₄).trans hrun₅
  rw [← List.append_assoc τ₁, List.append_assoc (τ₁ ++ [_]), List.append_assoc (τ₁ ++ [_])] at hrun
  have hothers : ∀ b ∈ τ₃, b.task ≠ 0 := fun b hb => (hτ₃ b hb).1
  refine ⟨_, _, _, _, q₅, hrun, ?_, ?_, ?_⟩
  · rw [pieces_append, pieces_append, hpieces₃]
    rfl
  · rw [response_append, response_append, response_of_others hothers, List.append_nil]
    rfl
  · refine response_snapshot (sending twoLines) Host.init Log.init Host.sound_init 0 ⟨6, by decide⟩
      _ _ _ _ q₅ hrun (isAnswer_of_reads (by decide) ⟨rfl, rfl⟩ ?_ ⟨rfl, rfl⟩) ⟨?_, ?_⟩
    · intro b hb ht
      rcases List.mem_append.mp hb with hb | hb
      · rcases List.mem_append.mp hb with hb | hb
        · rcases List.mem_pair.mp hb with rfl | rfl
          · exact .inl ⟨_, rfl⟩
          · exact .inr ⟨_, _, rfl⟩
        · exact absurd ht (hothers b hb)
      · rcases List.mem_pair.mp hb with rfl | rfl
        · exact .inl ⟨_, rfl⟩
        · exact .inr ⟨_, _, rfl⟩
    · intro b hb ht
      rcases List.mem_append.mp hb with hb | hb
      · rcases List.mem_append.mp hb with hb | hb
        · rcases List.mem_pair.mp hb with rfl | rfl <;> exact absurd rfl ht
        · exact (hτ₃ b hb).2
      · rcases List.mem_pair.mp hb with rfl | rfl <;> exact absurd rfl ht
    · intro pre b post hτ _
      have hb := hτ ▸ List.mem_append_right pre (List.mem_cons_self (a := b) (l := post))
      refine Host.sound_init.kept hrun ?_ b (List.mem_append_left _ (List.mem_append_right _ hb))
      rw [pieces_append, pieces_append, pieces_append, pieces_append, pieces_append, hpieces₁,
        hpieces₃]
      exact (by decide : (lines isNewline [97, newline, 98, newline]).length ≤ 10)

/-- The command that is evicted while it is sent. -/
def longCommand : List UInt8 := List.replicate 9 97 ++ [newline]

/-- The calls that leave one free slot in the ring: the long command and eight empty lines. -/
def fillRing : List Invocation :=
  (longCommand :: List.replicate 8 [newline]).map fun c => ⟨.write 0 c, .calm 0⟩

/-- A server can start on that ring. -/
theorem exists_full_ring : ∃ (s : Host) (l : Log), s.Sound l ∧ s.files = Host.init.files ∧
    s.owner = Host.init.owner ∧ l.stream = longCommand ++ List.replicate 8 newline := by
  have hserved : Throughout WriteServed fillRing aesdInitModule := by decide
  obtain ⟨rs, w, l, -, hret, h, hstream⟩ := stands_init.allServed hserved
  rw [consumed_eq hret] at hstream
  exact ⟨{ Host.init with world := w }, l, ⟨h, Host.sound_init.distinct⟩, rfl, rfl, hstream⟩

/-- A client that has sent an empty line reads the long command, then another client sends an empty
line, and the first client reads nothing more. -/
theorem exists_evicting_run : ∃ (s : Host) (l : Log), s.Sound l ∧
    l.stream = longCommand ++ List.replicate 8 newline ∧
    ∃ τ₁ o τ a q, Steps (server (sending fun _ => [newline]))
        ((server (sending fun _ => [newline])).init s) (τ₁ ++ [o] ++ τ ++ [a]) q ∧
      IsAnswer 0 ⟨6, by decide⟩ o τ a ∧ response 0 4 τ = longCommand ∧
      pieces (τ₁ ++ [o] ++ τ ++ [a]) = [⟨0, 0, [newline]⟩, ⟨1, 0, [newline]⟩] := by
  obtain ⟨s₀, l₀, hs₀, hfiles₀, howner₀, hstream₀⟩ := exists_full_ring
  have hline : IsLine isNewline [newline] := ⟨[], newline, rfl, rfl, by simp⟩
  obtain ⟨τ₁, τ₃, hist₀, hist₁, hist₂, p₁, s₁, s₂, q₃, l₃, f, buffer, hrun₃, hpieces₁, hpieces₃, hτ₃,
    hl₃, hstream₃, hfile₃, hpos₃, hq₃⟩ := exists_answer_beside_store (fun _ => [newline]) hs₀
      (congrFun hfiles₀ 6) (congrFun hfiles₀ 7) (congrFun howner₀ .file)
      (by rw [Log.pending, hstream₀]; decide) hline hline (by decide) (by decide) (by decide)
      (c := longCommand) (by rw [hstream₀]; decide) (by decide)
  obtain ⟨s', q₄, hrun₄⟩ := exists_last_read (sending fun _ => [newline]) 0 ⟨6, by decide⟩ hl₃ hq₃
    hfile₃ hpos₃ (by decide) (by rw [Log.contents, Log.commands, hstream₃, hstream₀]; decide)
  have hrun := hrun₃.trans hrun₄
  rw [← List.append_assoc, List.append_assoc (τ₁ ++ _)] at hrun
  have hothers : ∀ b ∈ τ₃, b.task ≠ 0 := fun b hb => (hτ₃ b hb).1
  refine ⟨s₀, l₀, hs₀, hstream₀, _, _, _, _, q₄, hrun,
    isAnswer_of_reads (by decide) ⟨rfl, rfl⟩ ?_ ⟨rfl, rfl⟩, ?_, ?_⟩
  · intro b hb ht
    rcases List.mem_append.mp hb with hb | hb
    · rcases List.mem_pair.mp hb with rfl | rfl
      · exact .inl ⟨_, rfl⟩
      · exact .inr ⟨_, _, rfl⟩
    · exact absurd ht (hothers b hb)
  · rw [response_append, response_of_others hothers, List.append_nil]
    rfl
  · rw [pieces_append, pieces_append, pieces_append, pieces_append, hpieces₁, hpieces₃]
    rfl

/-- The answer is the long command alone, which the device never held: before each act it has been
fed none, one or both of the empty lines. -/
theorem not_always_snapshot :
    ¬∀ (clients : ℕ → Client) (s₀ : Host) (l₀ : Log), s₀.Sound l₀ → ∀ (t : ℕ) (fd : Descriptor)
      (τ₁ τ : List (Act posix Host)) (o a : Act posix Host) (q : Pool posix Host Unit),
        Steps (server clients) ((server clients).init s₀) (τ₁ ++ [o] ++ τ ++ [a]) q →
          IsAnswer t fd o τ a → ∃ b ∈ τ₁ ++ [o] ++ τ ++ [a],
            response t (clients t).fd τ = b.before.world.contents := by
  intro hall
  obtain ⟨s₀, l₀, hs₀, hstream₀, τ₁, o, τ, a, q, hrun, hanswer, hresponse, hpieces⟩ :=
    exists_evicting_run
  obtain ⟨b, hb, hsnapshot⟩ := hall _ s₀ l₀ hs₀ 0 ⟨6, by decide⟩ τ₁ τ o a q hrun hanswer
  obtain ⟨pre, l, hpre, hl, hstream⟩ := hs₀.before hrun hb
  have hcut : pieces pre <+: [⟨0, 0, [newline]⟩, ⟨1, 0, [newline]⟩] := hpieces ▸ hpre.filterMap piece
  have hfed : fed (pieces pre) ∈ [[], [newline], [newline, newline]] :=
    List.mem_map_of_mem (f := fed) ((List.mem_inits _ _).mpr hcut)
  have hmissing : ∀ u ∈ [[], [newline], [newline, newline]],
      longCommand ≠ ((lines isNewline (longCommand ++ List.replicate 8 newline ++ u)).rtake 10).flatten := by
    decide
  apply hmissing _ hfed
  rw [← hstream₀, ← hstream, ← hresponse]
  exact hsnapshot.trans hl.stands.contents

end Aesd.Server

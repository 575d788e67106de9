import Aesd.Server.Rounds

/-! # The answer to a seek command

A chunk that is a seek command with numbers in decimal is turned into one seek and a loop of reads
and sends on `file_fd`. **`seek_command_answered`**: for a place inside a retained command, and
while nobody writes, what is sent is the rest of the contents from that place on; nothing is
written, the thread takes a bounded number of steps, and it can always come to the end of the loop.
-/

namespace Aesd.Server

open Effects CLib Streams CharDriver

/-! ### The text of the command -/

/-- `AESDCHAR_IOCSEEKTO:X,Y` and a newline. -/
def seekCommandText (writeCmd writeCmdOffset : ℕ) : List UInt8 :=
  seekPrefix ++ (printUnsigned writeCmd ++ 44 :: (printUnsigned writeCmdOffset ++ [newline]))

section Command

variable {x y : ℕ} {tinfo : ThreadInfo} {fileFd : ℤ} {buffer : Buffer} {r : Transfer bufferSize}

theorem notMem_printUnsigned {c : UInt8} {n : ℕ} (hc : isdigit c = false) : c ∉ printUnsigned n := by
  intro hmem
  rw [isdigit_of_mem_printUnsigned hmem] at hc
  cases hc

theorem seekPrefix_prefix : seekPrefix <+: seekCommandText x y := List.prefix_append _ _

theorem drop_seekCommandText : (seekCommandText x y).drop 19 =
    printUnsigned x ++ 44 :: (printUnsigned y ++ [newline]) :=
  List.drop_left' length_seekPrefix

theorem length_seekCommandText_lt (hx : x < 10 ^ 10) (hy : y < 10 ^ 10) :
    (seekCommandText x y).length < bufferSize := by
  have hlen := length_printUnsigned_le hx
  have hlen' := length_printUnsigned_le hy
  simp only [seekCommandText, List.length_append, List.length_cons, List.length_nil,
    length_seekPrefix, bufferSize]
  omega

/-- The numbers are read back. -/
theorem scan_seekCommandText (hx : x < 10 ^ 10) (hy : y < 10 ^ 10) :
    scanPair (cString ((seekCommandText x y).drop 19)) = some (UInt32.ofNat x, UInt32.ofNat y) := by
  have hnul : 0 ∉ printUnsigned x ++ 44 :: (printUnsigned y ++ [newline]) := by
    simp [notMem_printUnsigned (c := 0) rfl, newline]
  rw [drop_seekCommandText, cString_of_notMem hnul]
  exact scanPair_print (by omega) (by omega) rfl

/-- With the command in the buffer the seek branch seeks. -/
theorem seekCommand_eq (hr : r.data = seekCommandText x y) (hx : x < 10 ^ 10) (hy : y < 10 ^ 10) :
    seekCommand tinfo fileFd (buffer.chunk r) =
      performSeek tinfo fileFd ⟨UInt32.ofNat x, UInt32.ofNat y⟩ := by
  have hstart : seekPrefix <+: r.data := hr ▸ seekPrefix_prefix
  have hlt : r.data.length < bufferSize := hr ▸ length_seekCommandText_lt hx hy
  have hnul : 0 ∈ (buffer.chunk r).bytes.drop 19 := Buffer.nul_mem_chunk hstart.length_le hlt
  simp only [seekCommand, Buffer.loadString, Prog.bind_eq, Prog.pure_eq]
  rw [if_neg (not_not.mpr hnul), Prog.pure_bind, cString_drop_chunk hstart, hr,
    scan_seekCommandText hx hy]

end Command

/-! ### The phases of the round -/

/-- Where the thread is in the round. -/
inductive SeekPhase where
  /-- It is about to receive the command. -/
  | waiting
  /-- It is about to seek. -/
  | seeking
  /-- The seek has failed, which is about to be reported. -/
  | refused
  /-- It is about to read. -/
  | reading
  /-- It has read `data` and is about to load the client's descriptor. -/
  | loading (data : List UInt8)
  /-- It is about to send `data`. -/
  | sending (data : List UInt8)
  /-- It has left the loop and is about to close `file_fd`. -/
  | closing
  /-- The round is over. -/
  | finished
  /-- It has received again. -/
  | later

/-- The steps of the round. -/
def seekStep (clientFd fd : ℤ) (seekto : AesdSeekto) : SeekPhase → Event posix → Option SeekPhase
  | .waiting, ⟨.recv _ _, _⟩ => some .seeking
  | .seeking, ⟨.ioctl fd' request arg, n⟩ =>
      if fd' = fd ∧ request = aesdcharIocseekto ∧ arg = seekto then
        some (if n < 0 then .refused else .reading)
      else none
  | .refused, ⟨.syslog _, _⟩ => some .reading
  | .reading, ⟨.read fd' n, r⟩ =>
      if fd' = fd ∧ n = bufferSize then
        some (if 0 < r.retval then .loading r.data else .closing)
      else none
  | .loading data, ⟨.loadClientFd _, _⟩ => some (.sending data)
  | .sending data, ⟨.send fd' bytes, _⟩ =>
      if fd' = clientFd ∧ bytes = data then some .reading else none
  | .closing, ⟨.close fd', _⟩ => if fd' = fd then some .finished else none
  | .finished, ⟨.recv fd' n, _⟩ => if fd' = clientFd ∧ n = bufferSize then some .later else none
  | .later, _ => some .later
  | _, _ => none

/-- What a step of the round can be. -/
inductive Seeks (clientFd fd : ℤ) (seekto : AesdSeekto) :
    SeekPhase → (o : PosixOp) → PosixRes o → SeekPhase → Prop where
  /-- The command is received. -/
  | recv (fd' : ℤ) (n : ℕ) (r : Transfer n) : Seeks clientFd fd seekto .waiting (.recv fd' n) r .seeking
  /-- The seek. -/
  | ioctl (n : ℤ) : Seeks clientFd fd seekto .seeking (.ioctl fd aesdcharIocseekto seekto) n
      (if n < 0 then .refused else .reading)
  /-- A failed seek is reported. -/
  | syslog (message : String) : Seeks clientFd fd seekto .refused (.syslog message) () .reading
  /-- Something is read, or nothing. -/
  | read (r : Transfer bufferSize) : Seeks clientFd fd seekto .reading (.read fd bufferSize) r
      (if 0 < r.retval then .loading r.data else .closing)
  /-- The client's descriptor is loaded. -/
  | load (data : List UInt8) (tinfo : ThreadInfo) (fd' : ℤ) :
      Seeks clientFd fd seekto (.loading data) (.loadClientFd tinfo) fd' (.sending data)
  /-- What has been read is sent. -/
  | send (data : List UInt8) (n : ℤ) :
      Seeks clientFd fd seekto (.sending data) (.send clientFd data) n .reading
  /-- The descriptor is closed. -/
  | close (n : ℤ) : Seeks clientFd fd seekto .closing (.close fd) n .finished
  /-- The next chunk is received. -/
  | again (r : Transfer bufferSize) :
      Seeks clientFd fd seekto .finished (.recv clientFd bufferSize) r .later
  /-- The rounds after this one. -/
  | later (o : PosixOp) (r : PosixRes o) : Seeks clientFd fd seekto .later o r .later

theorem seeks_of_step {clientFd fd : ℤ} {seekto : AesdSeekto} {phase g : SeekPhase} {o : PosixOp}
    {r : PosixRes o} (h : seekStep clientFd fd seekto phase ⟨o, r⟩ = some g) :
    Seeks clientFd fd seekto phase o r g := by
  -- each phase has one call, whose arguments are those of the round
  cases phase with
  | waiting =>
      cases o with
      | recv fd' n =>
          cases h
          exact .recv fd' n r
      | _ => cases h
  | seeking =>
      cases o with
      | ioctl fd' request arg =>
          rw [seekStep, Option.ite_none_right_eq_some] at h
          obtain ⟨⟨rfl, rfl, rfl⟩, h⟩ := h
          cases h
          exact .ioctl r
      | _ => cases h
  | refused =>
      cases o with
      | syslog message =>
          cases h
          exact .syslog message
      | _ => cases h
  | reading =>
      cases o with
      | read fd' n =>
          rw [seekStep, Option.ite_none_right_eq_some] at h
          obtain ⟨⟨rfl, rfl⟩, h⟩ := h
          cases h
          exact .read r
      | _ => cases h
  | loading data =>
      cases o with
      | loadClientFd tinfo =>
          cases h
          exact .load data tinfo r
      | _ => cases h
  | sending data =>
      cases o with
      | send fd' bytes =>
          rw [seekStep, Option.ite_none_right_eq_some] at h
          obtain ⟨⟨rfl, rfl⟩, h⟩ := h
          cases h
          exact .send bytes r
      | _ => cases h
  | closing =>
      cases o with
      | close fd' =>
          rw [seekStep, Option.ite_none_right_eq_some] at h
          obtain ⟨rfl, h⟩ := h
          cases h
          exact .close r
      | _ => cases h
  | finished =>
      cases o with
      | recv fd' n =>
          rw [seekStep, Option.ite_none_right_eq_some] at h
          obtain ⟨⟨rfl, rfl⟩, h⟩ := h
          cases h
          exact .again r
      | _ => cases h
  | later =>
      cases h
      exact .later o r

/-- The monitor of the round in which the chunk of `r` is received; the thread finds its client's
descriptor in `tinfo`. -/
def seekMonitor (clientFd fd : ℤ) (seekto : AesdSeekto) (r : Transfer bufferSize) :
    Monitor posix SeekPhase where
  expects _ e := (∀ r' : Transfer bufferSize, e = ⟨.recv clientFd bufferSize, r'⟩ → r' = r) ∧
    ∀ tinfo fd', e = ⟨.loadClientFd tinfo, fd'⟩ → fd' = clientFd
  step := seekStep clientFd fd seekto

section Text

variable {tinfo : ThreadInfo} {clientFd fd : ℤ} {seekto : AesdSeekto} {r : Transfer bufferSize}
  {buffer : Buffer} {α : Type}

/-- Later rounds do not matter. -/
theorem follows_seekMonitor_later (p : Handler α) :
    Follows (seekMonitor clientFd fd seekto r) .later p fun _ g => g = .later := by
  induction p with
  | pure a => rfl
  | call o k ih =>
      intro r' _
      exact ⟨.later, rfl, ih r'⟩
  | loop body s k ihbody ih =>
      refine ⟨fun _ g => g = .later, fun _ g => g = .later, rfl, ?_, ?_⟩
      · rintro s _ rfl
        exact (ihbody s).mono fun res _ hg => by cases res <;> exact hg
      · rintro b _ rfl
        exact ih b

/-- One round of the read loop. -/
theorem follows_seekMonitor_sendRest :
    Follows (seekMonitor clientFd fd seekto r) .reading (sendRest tinfo fd) fun res g =>
      Sum.elim (fun _ => g = .reading) (fun _ => g = .closing) res := by
  simp only [sendRest, read, loadClientFd, send, Prog.bind_eq, Prog.call_bind, Prog.pure_bind,
    Prog.pure_eq]
  intro n _
  have hread : seekStep clientFd fd seekto .reading ⟨.read fd bufferSize, n⟩ =
      some (if 0 < n.retval then .loading n.data else .closing) := if_pos ⟨rfl, rfl⟩
  refine ⟨_, hread, ?_⟩
  beta_reduce
  by_cases hn : 0 < n.retval
  · rw [if_pos hn, if_pos hn]
    intro fd' hfd'
    obtain rfl : fd' = clientFd := hfd'.2 tinfo fd' rfl
    refine ⟨.sending n.data, rfl, ?_⟩
    intro m _
    exact ⟨.reading, if_pos ⟨rfl, rfl⟩, rfl⟩
  · rw [if_neg hn, if_neg hn]
    exact rfl

/-- The answer to the command. -/
theorem follows_seekMonitor_performSeek (hfd : 0 ≤ fd) :
    Follows (seekMonitor clientFd fd seekto r) .seeking (performSeek tinfo fd seekto)
      fun _ g => g = .finished := by
  have hloop : Follows (seekMonitor clientFd fd seekto r) .reading
      ((Prog.iterate (fun () => sendRest tinfo fd) ()).bind fun _ => close fd)
      fun _ g => g = .finished := by
    refine (Follows.iterate (fun _ g => g = .reading) (Q := fun _ g => g = .closing) rfl ?_).bind ?_
    · rintro _ _ rfl
      exact follows_seekMonitor_sendRest.mono fun res _ h => by cases res <;> exact h
    · rintro _ _ rfl
      intro n _
      exact ⟨.finished, if_pos rfl, rfl⟩
  simp only [performSeek, ioctl, syslog, Prog.bind_eq, Prog.call_bind, Prog.pure_bind]
  rw [if_neg (not_lt.mpr hfd)]
  intro n _
  have hseek : seekStep clientFd fd seekto .seeking ⟨.ioctl fd aesdcharIocseekto seekto, n⟩ =
      some (if n < 0 then .refused else .reading) := if_pos ⟨rfl, rfl, rfl⟩
  refine ⟨_, hseek, ?_⟩
  beta_reduce
  by_cases hn : n < 0
  · rw [if_pos hn, if_pos hn]
    intro _ _
    exact ⟨.reading, rfl, hloop⟩
  · rw [if_neg hn, if_neg hn]
    exact hloop

/-- **A thread at the head of its loop goes through the phases.** -/
theorem follows_seekMonitor {x y : ℕ} (hr : r.data = seekCommandText x y) (hx : x < 10 ^ 10)
    (hy : y < 10 ^ 10) (hpos : 0 < r.retval) (hfd : 0 ≤ fd) :
    Follows (seekMonitor clientFd fd ⟨UInt32.ofNat x, UInt32.ofNat y⟩ r) .waiting
      (afterRound tinfo clientFd fd (.inl buffer)) fun _ g => g = .later := by
  have hlt : r.data.length < bufferSize := hr ▸ length_seekCommandText_lt hx hy
  have hstart : seekPrefix <+: r.data := hr ▸ seekPrefix_prefix
  have hfirst : ∀ buffer, Follows (seekMonitor clientFd fd ⟨UInt32.ofNat x, UInt32.ofNat y⟩ r) .waiting
      (serve tinfo clientFd fd buffer)
      fun res g => Sum.elim (fun _ => g = .finished) (fun _ => False) res := by
    intro buffer
    rw [serve_eq]
    intro r' hr'
    obtain rfl : r' = r := hr'.1 r' rfl
    refine ⟨.seeking, rfl, ?_⟩
    beta_reduce
    rw [if_neg (not_le.mpr hpos), if_neg (not_le.mpr hlt), afterChunk, if_pos hstart,
      seekCommand_eq hr hx hy]
    exact (follows_seekMonitor_performSeek hfd).bind fun _ _ hg => hg
  have hnext : ∀ buffer, Follows (seekMonitor clientFd fd ⟨UInt32.ofNat x, UInt32.ofNat y⟩ r) .finished
      (serve tinfo clientFd fd buffer) fun _ g => g = .later := by
    intro buffer
    rw [serve_eq]
    intro r' _
    exact ⟨.later, if_pos ⟨rfl, rfl⟩, follows_seekMonitor_later _⟩
  -- the first receive begins the round, the next one ends it
  rw [afterRound]
  refine (Follows.iterate (fun _ g => g = .waiting ∨ g = .finished ∨ g = .later)
    (Q := fun _ g => g = .later) (.inl rfl) ?_).bind ?_
  · rintro buffer _ (rfl | rfl | rfl)
    · refine (hfirst buffer).mono fun res g hg => ?_
      cases res with
      | inl buffer => exact .inr (.inl hg)
      | inr _ => exact hg.elim
    · refine (hnext buffer).mono fun res g hg => ?_
      cases res with
      | inl buffer => exact .inr (.inr hg)
      | inr _ => exact hg
    · refine (follows_seekMonitor_later _).mono fun res g hg => ?_
      cases res with
      | inl buffer => exact .inr (.inr hg)
      | inr _ => exact hg
  · rintro _ _ rfl
    exact follows_seekMonitor_later _

end Text

/-! ### The state during the round -/

/-- The services that a seek asks the kernel for succeed. -/
def SeekServed (a : Act posix Host) : Prop :=
  ∀ fd request arg n f, a.event = ⟨.ioctl fd request arg, n⟩ → a.before.files fd = some f →
    ∃ env r w', env.notCopied = 0 ∧ env.lockOk = true ∧
      invoke ⟨.ioctl f.file request arg, env⟩ a.before.world = .ok (r, w') ∧
      a.after = { a.before with world := w' } ∧ n = if r.retval < 0 then -1 else r.retval

/-- What a phase says of what has been sent, and of the position of the file. -/
def SeekPhase.Fits (answer sent : List UInt8) (start : ℕ) (fPos : ℤ) : SeekPhase → Prop
  | .waiting | .seeking => sent = []
  | .reading => fPos = (start + sent.length : ℕ) ∧ sent <+: answer
  | .loading data | .sending data =>
      data ≠ [] ∧ fPos = (start + (sent ++ data).length : ℕ) ∧ sent ++ data <+: answer
  | .closing | .finished => sent = answer
  | .refused | .later => False

/-- How many steps the thread can still take in the round, when `left` bytes have not been sent. -/
def SeekPhase.budget (left : ℕ) : SeekPhase → ℕ
  | .waiting => 3 * left + 4
  | .seeking | .refused => 3 * left + 3
  | .reading => 3 * left + 2
  | .loading data => 3 * (left - data.length) + 4
  | .sending data => 3 * (left - data.length) + 3
  | .closing => 1
  | .finished | .later => 0

/-- The host during the round, after the acts `υ`. -/
structure Seeking (clients : ℕ → Client) (t : ℕ) (fd : ℤ) (f : OpenFile) (l₀ : Log) (start : ℕ)
    (υ : List (Act posix Host)) (phase : SeekPhase) (s : Host) (l : Log) : Prop where
  /-- The device shows the log. -/
  shown : s.Shown l
  /-- Nothing has been written. -/
  stream : l.stream = l₀.stream
  /-- Up to the end of the round the descriptor is open. -/
  file : phase ≠ .finished → s.files fd = some f
  /-- What has been sent, and where the file is. -/
  fits : phase.Fits (l₀.contents.drop start) (response t (clients t).fd υ) start (l.fPos f.file)

/-- The acts of the thread during the round. -/
structure Counted (clients : ℕ → Client) (t : ℕ) (fd : ℤ) (answer : List UInt8)
    (υ : List (Act posix Host)) (phase : SeekPhase) : Prop where
  /-- There are not too many. -/
  bound : steps t υ + phase.budget (answer.length - (response t (clients t).fd υ).length) ≤
    3 * answer.length + 4
  /-- No one is a write. -/
  unwritten : ∀ b ∈ υ, b.task = t → ∀ fd' bytes, b.event.op ≠ .write fd' bytes
  /-- The descriptor is closed at the end. -/
  closed : (∃ b ∈ υ, b.task = t ∧ b.event.op = .close fd) ↔ phase = .finished

section Counting

variable {clients : ℕ → Client} {t : ℕ} {fd : ℤ} {seekto : AesdSeekto} {answer : List UInt8}
  {υ : List (Act posix Host)} {phase g : SeekPhase} {a : Act posix Host}

theorem steps_concat (ht : a.task = t) : steps t (υ ++ [a]) = steps t υ + 1 := by
  rw [steps, List.countP_append, List.countP_singleton, if_pos (by simpa using ht)]
  rfl

theorem steps_concat_of_ne (ht : a.task ≠ t) : steps t (υ ++ [a]) = steps t υ := by
  rw [steps, List.countP_append, List.countP_singleton, if_neg (by simpa using ht), Nat.add_zero]
  rfl

/-- An act of another thread is not counted. -/
theorem Counted.other (h : Counted clients t fd answer υ phase) (ht : a.task ≠ t) :
    Counted clients t fd answer (υ ++ [a]) phase := by
  refine ⟨?_, ?_, ?_⟩
  · rw [steps_concat_of_ne ht, response_concat, sentOn_of_ne ht, List.append_nil]
    exact h.bound
  · intro b hb hbt
    rcases List.mem_append.mp hb with hb | hb
    · exact h.unwritten b hb hbt
    · exact absurd (List.mem_singleton.mp hb ▸ hbt) ht
  · rw [← h.closed]
    refine ⟨?_, fun ⟨b, hb, hclose⟩ => ⟨b, List.mem_append_left _ hb, hclose⟩⟩
    rintro ⟨b, hb, hbt, hclose⟩
    rcases List.mem_append.mp hb with hb | hb
    · exact ⟨b, hb, hbt, hclose⟩
    · exact absurd (List.mem_singleton.mp hb ▸ hbt) ht

/-- An act of the thread uses up a step. -/
theorem Counted.own (h : Counted clients t fd answer υ phase) (ht : a.task = t)
    (hseeks : Seeks (clients t).fd fd seekto phase a.event.op a.event.res g)
    {start start' : ℕ} {fPos fPos' : ℤ}
    (hfits : phase.Fits answer (response t (clients t).fd υ) start fPos) (hover : phase ≠ .finished)
    (hfits' : g.Fits answer (response t (clients t).fd (υ ++ [a])) start' fPos') :
    Counted clients t fd answer (υ ++ [a]) g := by
  have hbound := h.bound
  have hopen : ¬∃ b ∈ υ, b.task = t ∧ b.event.op = .close fd := fun hno => hover (h.closed.mp hno)
  refine ⟨?_, ?_, ?_⟩
  · -- what is sent shortens what is left
    rw [steps_concat ht]
    obtain ⟨u, hist, ⟨o, r⟩, before, after⟩ := a
    obtain rfl : u = t := ht
    rw [response_concat] at hfits' ⊢
    cases hseeks with
    | recv fd' n r =>
        simp only [sentOn, List.append_nil, SeekPhase.budget] at hbound ⊢
        omega
    | ioctl =>
        by_cases hn : r < 0
        · rw [if_pos hn] at hfits'
          exact hfits'.elim
        · simp only [sentOn, List.append_nil, SeekPhase.budget, if_neg hn] at hbound ⊢
          omega
    | syslog => exact hfits.elim
    | read r =>
        by_cases hr : 0 < r.retval
        · simp only [sentOn, List.append_nil, SeekPhase.budget, SeekPhase.Fits, if_pos hr]
            at hbound hfits' ⊢
          have hlen := hfits'.2.2.length_le
          have hpos := List.length_pos_iff.mpr hfits'.1
          rw [List.length_append] at hlen
          omega
        · simp only [SeekPhase.budget, if_neg hr] at hbound ⊢
          omega
    | load data =>
        simp only [sentOn, List.append_nil, SeekPhase.budget] at hbound ⊢
        omega
    | send data n =>
        simp only [sentOn, SeekPhase.budget, true_and, if_true, List.length_append] at hbound ⊢
        omega
    | close n =>
        simp only [SeekPhase.budget] at hbound ⊢
        omega
    | again => exact absurd rfl hover
    | later => exact hfits.elim
  · intro b hb hbt fd' bytes hop
    rcases List.mem_append.mp hb with hb | hb
    · exact h.unwritten b hb hbt fd' bytes hop
    · obtain rfl := List.mem_singleton.mp hb
      obtain ⟨u, hist, ⟨o, r⟩, before, after⟩ := b
      obtain rfl : o = .write fd' bytes := hop
      cases hseeks
      exact hfits.elim
  · have hlast : a.event.op = .close fd ↔ g = .finished := by
      obtain ⟨u, hist, ⟨o, r⟩, before, after⟩ := a
      dsimp only at hseeks ⊢
      cases hseeks with
      | close => exact ⟨fun _ => rfl, fun _ => rfl⟩
      | later => exact hfits.elim
      | ioctl n => split <;> simp
      | read r => split <;> simp
      | _ => simp
    rw [← hlast]
    refine ⟨?_, fun hop => ⟨a, List.mem_concat_self, ht, hop⟩⟩
    rintro ⟨b, hb, hbt, hclose⟩
    rcases List.mem_append.mp hb with hb | hb
    · exact absurd ⟨b, hb, hbt, hclose⟩ hopen
    · exact List.mem_singleton.mp hb ▸ hclose

end Counting

section Seeking

variable {clients : ℕ → Client} {t : ℕ} {fd : ℤ} {f : OpenFile} {l₀ l : Log} {arg : AesdSeekto}
  {start : ℕ} {υ : List (Act posix Host)} {phase g : SeekPhase} {a : Act posix Host} {s : Host}
  {n : ℤ}

theorem Seeking.commands (h : Seeking clients t fd f l₀ start υ phase s l) :
    l.commands = l₀.commands := by
  rw [Log.commands, Log.commands, h.stream]

theorem Seeking.contents (h : Seeking clients t fd f l₀ start υ phase s l) :
    l.contents = l₀.contents := by
  rw [Log.contents, Log.contents, h.commands]

/-- An act of another thread. -/
theorem Seeking.other (h : Seeking clients t fd f l₀ start υ phase a.before l) (ht : a.task ≠ t)
    (hans : hostAnswers clients a.task a.hist a.event.op a.before a.event.res a.after)
    (hquiet : a.before.deviceWrite a.event.op = none ∧ a.event.op.fd? ≠ some fd) :
    ∃ l', Seeking clients t fd f l₀ start (υ ++ [a]) phase a.after l' := by
  obtain ⟨l', h', hstream, hothers⟩ := h.shown.step hans
  rw [hquiet.1, Option.elim_none, List.append_nil] at hstream
  refine ⟨l', h', hstream.trans h.stream, fun hover => (hothers fd f (h.file hover) hquiet.2).1, ?_⟩
  rw [response_concat, sentOn_of_ne ht, List.append_nil]
  by_cases hover : phase = .finished
  · have hfits := h.fits
    rw [hover] at hfits ⊢
    exact hfits
  · rw [(hothers fd f (h.file hover) hquiet.2).2]
    exact h.fits

/-- The seek leads to the place that the command names. -/
theorem Seeking.ioctl (h : Seeking clients t fd f l₀ start υ .seeking a.before l)
    (hevent : a.event = ⟨.ioctl fd aesdcharIocseekto arg, n⟩)
    (hserved : SeekServed a) (hvalid : place arg ∈ places (l₀.commands.map List.length))
    (hlt : l₀.contents.length < 2 ^ 32)
    (hstart : start = position (l₀.commands.map List.length) (place arg)) :
    ¬n < 0 ∧ a.after.files = a.before.files ∧
      ∃ l', a.after.Shown l' ∧ l'.stream = l.stream ∧ l'.fPos f.file = start := by
  obtain ⟨env, r, w', hcopied, hlock, hi, hafter, hn⟩ :=
    hserved fd aesdcharIocseekto arg n f hevent (h.file (by simp))
  -- the command names a byte that is there
  have htarget : ValidTarget a.before.world arg := by
    rw [h.shown.reached.shows.validTarget_iff, h.commands]
    exact hvalid
  have hseek := h.shown.reached.shows.invoke_seek_of_validTarget hcopied hlock htarget f.file
  rw [hi, Except.ok.injEq, Prod.mk.injEq] at hseek
  obtain ⟨rfl, hw'⟩ := hseek
  rcases h.shown.reached.returns hi with ⟨hfail, -⟩ | ⟨-, l', happ, h'⟩
  · exact absurd hfail (by decide)
  have hpos : l'.fPos f.file = l.seekPos arg := by
    rw [← h'.shows.fPos, hw']
    exact Function.update_self _ _ _
  rw [h.shown.reached.shows.seekPos_of_validTarget htarget (h.contents ▸ hlt), h.commands,
    ← hstart] at hpos
  obtain ⟨hstream, -⟩ := Log.apply_effect happ
  refine ⟨?_, by rw [hafter], l', ⟨by rw [hafter]; exact h', by rw [hafter]; exact h.shown.distinct⟩,
    hstream.trans (List.append_nil _), hpos⟩
  rw [hn, if_neg (by decide)]
  decide

/-- An act of the thread itself. -/
theorem Seeking.own (h : Seeking clients t fd f l₀ start υ phase a.before l) (ht : a.task = t)
    (hans : hostAnswers clients t a.hist a.event.op a.before a.event.res a.after)
    (hseeks : Seeks (clients t).fd fd arg phase a.event.op a.event.res g) (hover : phase ≠ .finished)
    (hserved : SeekServed a) (hvalid : place arg ∈ places (l₀.commands.map List.length))
    (hlt : l₀.contents.length < 2 ^ 32)
    (hstart : start = position (l₀.commands.map List.length) (place arg)) :
    ∃ l', Seeking clients t fd f l₀ start (υ ++ [a]) g a.after l' := by
  have hfile := h.file hover
  have hfits := h.fits
  have hle : start < l₀.contents.length := by
    rw [hstart, Log.contents, List.length_flatten]
    exact position_lt_sum hvalid
  obtain ⟨u, hist, ⟨o, r⟩, before, after⟩ := a
  obtain rfl : u = t := ht
  dsimp only at *
  -- what has been sent and what is in hand is the contents from the start up to the position
  cases hseeks with
  | recv fd' n r =>
      obtain ⟨-, rfl⟩ := hans
      refine ⟨l, h.shown, h.stream, fun _ => hfile, ?_⟩
      rw [response_concat]
      exact (List.append_nil _).trans hfits
  | ioctl =>
      obtain ⟨hn, hfiles, l', h', hstream, hpos⟩ := h.ioctl rfl hserved hvalid hlt hstart
      refine ⟨l', h', hstream.trans h.stream, fun _ => hfiles ▸ hfile, ?_⟩
      have hsent : response u (clients u).fd υ = [] := hfits
      rw [response_concat, if_neg hn, hsent]
      exact ⟨hpos, List.nil_prefix⟩
  | syslog => exact hfits.elim
  | read r =>
      obtain ⟨hpos, hpre⟩ := hfits
      have hsent := hpre.length_le
      rw [List.length_drop] at hsent
      obtain ⟨l', h', hfiles, hstream, hpos', hdata, hend⟩ :=
        h.shown.reads hfile hpos (by rw [h.contents]; omega) (by decide) hans
      refine ⟨l', h', hstream.trans h.stream, fun _ => hfiles ▸ hfile, ?_⟩
      rw [h.contents, ← List.drop_drop] at hdata
      rw [h.contents] at hend
      rw [response_concat]
      obtain ⟨tail, htail⟩ := hpre
      rw [← htail, List.drop_left] at hdata
      show (if 0 < r.retval then SeekPhase.loading r.data else .closing).Fits _ (_ ++ []) _ _
      rw [List.append_nil]
      by_cases hr : 0 < r.retval
      · rw [if_pos hr]
        refine ⟨Transfer.data_ne_nil hr, ?_, ?_⟩
        · rw [hpos', List.length_append, Nat.add_assoc]
        · rw [← htail]
          exact (List.prefix_append_right_inj _).mpr hdata
      · rw [if_neg hr]
        have hlen := congrArg List.length htail
        rw [List.length_append, List.length_drop] at hlen
        -- a read that returns nothing has come to the end
        have hnil : tail = [] := List.eq_nil_of_length_eq_zero (by
          have hdone := hend (not_lt.mp hr)
          omega)
        rw [hnil, List.append_nil] at htail
        exact htail
  | load data =>
      obtain ⟨-, rfl⟩ := hans
      refine ⟨l, h.shown, h.stream, fun _ => hfile, ?_⟩
      rw [response_concat]
      show SeekPhase.Fits _ (_ ++ []) _ _ (.sending data)
      rw [List.append_nil]
      exact hfits
  | send data n =>
      obtain rfl : after = before := hans
      refine ⟨l, h.shown, h.stream, fun _ => hfile, ?_⟩
      have hone : sentOn u (clients u).fd ⟨u, hist, ⟨.send (clients u).fd data, n⟩, after, after⟩ =
          data := if_pos ⟨rfl, rfl⟩
      rw [response_concat, hone]
      exact hfits.2
  | close n =>
      obtain rfl := hans
      refine ⟨l, ⟨h.shown.reached, h.shown.distinct.erase⟩, h.stream, fun hno => absurd rfl hno, ?_⟩
      rw [response_concat]
      exact (List.append_nil _).trans hfits
  | again => exact absurd rfl hover
  | later => exact hfits.elim

end Seeking

/-! ### The whole round -/

/-- The round of a seek command, with the kernel granting what the seek asks for. -/
structure SeekRound (clients : ℕ → Client) (t : ℕ) (fd : ℤ) (r : Transfer bufferSize)
    (p : Pool posix Host Unit) (a : Act posix Host) (τ : List (Act posix Host))
    (q : Pool posix Host Unit) : Prop extends Round clients t fd r p a τ q where
  /-- The seek is served. -/
  served : ∀ b ∈ τ, b.task = t → SeekServed b

/-- The thread has left the read loop and closed the descriptor. -/
def Closed (t : ℕ) (fd : ℤ) (τ : List (Act posix Host)) : Prop :=
  ∃ b ∈ τ, b.task = t ∧ b.event.op = .close fd

/-- Where a seek command is received, on a host that shows the log. -/
structure SeekStart (clients : ℕ → Client) (t : ℕ) (fd : ℤ) (f : OpenFile) (l : Log)
    (arg : AesdSeekto) (r : Transfer bufferSize) (p : Pool posix Host Unit) : Prop where
  /-- The host shows the log. -/
  shown : p.shared.Shown l
  /-- The command names a place. -/
  valid : place arg ∈ places (l.commands.map List.length)
  /-- The retained commands are not too long. -/
  short : l.contents.length < 2 ^ 31
  /-- The descriptor is open. -/
  file : p.shared.files fd = some f
  /-- The thread follows the round. -/
  follows : Follows (seekMonitor (clients t).fd fd arg r) .waiting (p.task t).prog fun _ g => g = .later
  /-- It does not spin. -/
  productive : Productive (p.task t).prog

/-- The position the command leads to. -/
def startOf (l : Log) (arg : AesdSeekto) : ℕ := position (l.commands.map List.length) (place arg)

section Whole

variable {clients : ℕ → Client} {t : ℕ} {fd : ℤ} {f : OpenFile} {l : Log} {arg : AesdSeekto}
  {r : Transfer bufferSize} {p q : Pool posix Host Unit} {a : Act posix Host}
  {τ : List (Act posix Host)}

/-- **The invariant of the round.** -/
theorem SeekStart.state (h : SeekStart clients t fd f l arg r p)
    (hround : SeekRound clients t fd r p a τ q) :
    ∃ phase, Follows (seekMonitor (clients t).fd fd arg r) phase (q.task t).prog (fun _ g => g = .later) ∧
      (∃ l', Seeking clients t fd f l (startOf l arg) (a :: τ) phase q.shared l') ∧
      Counted clients t fd (l.contents.drop (startOf l arg)) (a :: τ) phase := by
  obtain ⟨ht, hevent⟩ := hround.receives
  have hanswered := hround.runs.answered
  refine hround.runs.followed (J := fun υ phase s =>
    (∃ l', Seeking clients t fd f l (startOf l arg) υ phase s l') ∧
      Counted clients t fd (l.contents.drop (startOf l arg)) υ phase) h.follows ?_ ?_ ?_ ?_
  · -- only the first act receives
    intro b hb hbt g
    refine ⟨fun r' hr' => ?_, fun tinfo fd' hload => ?_⟩
    · rcases List.mem_cons.mp hb with rfl | hb
      · rw [hevent] at hr'
        cases hr'
        rfl
      · exact absurd hr' (hround.within b hb hbt r')
    · have hans := hanswered b hb
      rw [hload, hbt] at hans
      exact hans.1
  · refine ⟨⟨l, h.shown, rfl, fun _ => h.file, rfl⟩, ?_, ?_, ?_⟩
    · exact (Nat.zero_add _).le
    · simp
    · simp
  · rintro υ phase b g ⟨post, hυ⟩ hbt ⟨⟨l', hl'⟩, hcount⟩ hans hstep
    have hseeks := seeks_of_step hstep
    -- after its end the round does not go on
    have hlater : υ = [] ∨ b ∈ τ := by
      cases υ with
      | nil => exact .inl rfl
      | cons a' υ =>
          rw [List.cons_append, List.cons_append, List.cons.injEq] at hυ
          exact .inr (hυ.2 ▸ by simp)
    have hover : phase ≠ .finished := by
      rintro rfl
      obtain ⟨c, hc, -⟩ := hcount.closed.mpr rfl
      rcases hlater with rfl | hb
      · cases hc
      · obtain ⟨u, hist, ⟨o, res⟩, before, after⟩ := b
        cases hseeks with
        | again => exact hround.within _ hb hbt _ rfl
    have hserved : SeekServed b := by
      rcases hlater with rfl | hb
      · have hb : b = a := by
          rw [List.nil_append, List.singleton_append, List.cons.injEq] at hυ
          exact hυ.1
        intro fd' request arg' n f' hno
        rw [hb, hevent] at hno
        cases hno
      · exact hround.served b hb hbt
    have hshort := h.short
    obtain ⟨l'', hl''⟩ := hl'.own hbt hans hseeks hover hserved h.valid (by omega) rfl
    exact ⟨⟨l'', hl''⟩, hcount.own hbt hseeks hl'.fits hover hl''.fits⟩
  · rintro υ phase b ⟨post, hυ⟩ hbt ⟨⟨l', hl'⟩, hcount⟩ hans
    have hb : b ∈ a :: τ := by simp [← hυ]
    rcases List.mem_cons.mp hb with rfl | hb
    · exact absurd ht hbt
    · exact ⟨hl'.other hbt hans (hround.quiet b hb hbt), hcount.other hbt⟩

/-- What comes next is a step of the round. -/
theorem exists_seeks {clientFd : ℤ} {phase : SeekPhase} {α : Type} {o : PosixOp}
    {k : PosixRes o → Handler α} {Q : α → SeekPhase → Prop}
    (h : Follows (seekMonitor clientFd fd arg r) phase (Prog.call (E := posix) o k) Q) :
    ∃ res g, Seeks clientFd fd arg phase o res g := by
  obtain ⟨res, hres⟩ : ∃ res, (seekMonitor clientFd fd arg r).expects phase ⟨o, res⟩ := by
    cases o with
    | recv fd' n =>
        by_cases hn : n = bufferSize
        · subst hn
          exact ⟨r, fun r' hr' => by cases hr'; rfl, by simp⟩
        · refine ⟨.empty n, fun r' hr' => ?_, by simp⟩
          cases hr'
          exact absurd rfl hn
    | loadClientFd tinfo => exact ⟨clientFd, by simp, fun _ _ hload => by cases hload; rfl⟩
    | read fd' n => exact ⟨.empty n, by simp, by simp⟩
    | openFile flags => exact ⟨⟨-1, le_rfl⟩, by simp, by simp⟩
    | send | write | ioctl | close => exact ⟨(0 : ℤ), by simp, by simp⟩
    | _ => exact ⟨(), by simp, by simp⟩
  obtain ⟨g, hg, -⟩ := h res hres
  exact ⟨res, g, seeks_of_step hg⟩

/-- While the round goes on, the host can answer what the thread asks for. -/
theorem Seeking.exists_answer {l₀ l' : Log} {υ : List (Act posix Host)} {phase g : SeekPhase}
    {s : Host} {o : PosixOp} {res : PosixRes o}
    (h : Seeking clients t fd f l₀ (startOf l₀ arg) υ phase s l')
    (hseeks : Seeks (clients t).fd fd arg phase o res g)
    (hvalid : place arg ∈ places (l₀.commands.map List.length))
    (hbegun : phase ≠ .waiting) (hover : phase ≠ .finished) (hist : List (Event posix)) :
    ∃ res s', hostAnswers clients t hist o s res s' ∧ SeekServed ⟨t, hist, ⟨o, res⟩, s, s'⟩ ∧
      ∀ r' : Transfer bufferSize,
        (⟨o, res⟩ : Event posix) ≠ ⟨.recv (clients t).fd bufferSize, r'⟩ := by
  have hfile := h.file hover
  have hfits := h.fits
  have hshows := h.shown.reached.shows
  -- each call of the round can be answered, and a calm kernel refuses nothing
  cases hseeks with
  | recv => exact absurd rfl hbegun
  | ioctl =>
      have htarget : ValidTarget s.world arg := by
        rw [hshows.validTarget_iff, h.commands]
        exact hvalid
      obtain ⟨w', hi⟩ : ∃ w', invoke ⟨.ioctl f.file aesdcharIocseekto arg, .calm t⟩ s.world =
          .ok (.ofRetval 0, w') :=
        ⟨_, hshows.invoke_seek_of_validTarget rfl rfl htarget f.file⟩
      refine ⟨(0 : ℤ), { s with world := w' }, ?_, ?_, by simp⟩
      · rw [hostAnswers, hfile]
        exact ⟨.ofRetval 0, ⟨.calm t, _, hi, rfl⟩, rfl⟩
      · intro fd' request arg' n f' hevent hf'
        cases hevent
        rw [show f' = f from Option.some.inj (hf'.symm.trans hfile)]
        exact ⟨.calm t, _, _, rfl, rfl, hi, rfl, rfl⟩
  | syslog => exact hfits.elim
  | read =>
      obtain ⟨hpos, hpre⟩ := hfits
      have hcontents := hshows.length_contents_lt
      have hstart : startOf l₀ arg < l₀.contents.length := by
        rw [Log.contents, List.length_flatten]
        exact position_lt_sum hvalid
      have hsent := hpre.length_le
      rw [List.length_drop] at hsent
      rw [h.contents] at hcontents
      obtain ⟨bytes, w', hi, -, -, hlen, -⟩ := hshows.read_served (q := (bufferSize, .calm t))
        ⟨show 0 < bufferSize by decide, rfl, rfl⟩ hpos (by omega)
      refine ⟨.full bytes hlen, { s with world := w' }, ?_, by simp [SeekServed], by simp⟩
      rw [hostAnswers, hfile]
      exact ⟨⟨.calm t, w', hi, rfl⟩, Int.natCast_nonneg _⟩
  | load => exact ⟨(clients t).fd, s, ⟨rfl, rfl⟩, by simp [SeekServed], by simp⟩
  | send => exact ⟨(0 : ℤ), s, rfl, by simp [SeekServed], by simp⟩
  | close => exact ⟨(0 : ℤ), _, rfl, by simp [SeekServed], by simp⟩
  | again => exact absurd rfl hover
  | later => exact hfits.elim

/-- Before it has closed the descriptor the thread can take another step. -/
theorem SeekStart.next (h : SeekStart clients t fd f l arg r p)
    (hround : SeekRound clients t fd r p a τ q) (hopen : ¬Closed t fd (a :: τ)) :
    ∃ b q', b.task = t ∧ SeekRound clients t fd r p a (τ ++ [b]) q' := by
  have hnopure : ∀ u, (q.task t).prog ≠ .pure u := by
    intro u hu
    obtain ⟨phase, hfollows, ⟨l', hl'⟩, -⟩ := h.state hround
    rw [hu] at hfollows
    obtain rfl : phase = .later := hfollows
    exact hl'.fits
  -- the loops that are entered before it
  obtain ⟨o, k, hcall⟩ := Steps.exists_call (M := server clients)
    (hround.runs.productive h.productive) hnopure
  have hround₁ : SeekRound clients t fd r p a τ (q.setTask t ⟨(q.task t).hist, .call o k⟩) := by
    have hruns := hround.runs.trans hcall
    rw [List.append_nil] at hruns
    exact { hround with runs := hruns }
  obtain ⟨phase, hfollows, ⟨l', hl'⟩, hcount⟩ := h.state hround₁
  rw [Pool.setTask_task_self] at hfollows
  have hover : phase ≠ .finished := fun hno => hopen (hcount.closed.mpr hno)
  have hbegun : phase ≠ .waiting := by
    rintro rfl
    have hbound := hcount.bound
    have hsent : response t (clients t).fd (a :: τ) = [] := hl'.fits
    have hfirst : 0 < steps t (a :: τ) :=
      List.countP_pos_iff.mpr ⟨a, List.mem_cons_self, by simpa using hround.receives.1⟩
    rw [hsent, SeekPhase.budget, List.length_nil] at hbound
    omega
  obtain ⟨res, g, hseeks⟩ := exists_seeks hfollows
  obtain ⟨res', s', hans, hserved, hnorecv⟩ :=
    hl'.exists_answer hseeks h.valid hbegun hover (q.task t).hist
  have hans' : (server clients).answers t (q.task t).hist o q.shared res' s' := hans
  refine ⟨_, _, rfl, ⟨⟨hround₁.runs.act_self hans', hround.receives, ?_, ?_⟩, ?_⟩⟩
  · intro b hb hbt
    rcases List.mem_append.mp hb with hb | hb
    · exact hround.within b hb hbt
    · exact List.mem_singleton.mp hb ▸ hnorecv
  · intro b hb hbt
    rcases List.mem_append.mp hb with hb | hb
    · exact hround.quiet b hb hbt
    · exact absurd (List.mem_singleton.mp hb ▸ rfl) hbt
  · intro b hb hbt
    rcases List.mem_append.mp hb with hb | hb
    · exact hround.served b hb hbt
    · exact List.mem_singleton.mp hb ▸ hserved

/-- The thread can come to the end of the round without anybody else. The induction is on the steps
that it can still take. -/
theorem SeekStart.exists_end (h : SeekStart clients t fd f l arg r p)
    (hround : SeekRound clients t fd r p a τ q) :
    ∃ τ' q', (∀ b ∈ τ', b.task = t) ∧ SeekRound clients t fd r p a (τ ++ τ') q' ∧
      Closed t fd (a :: (τ ++ τ')) := by
  generalize hm : 3 * (l.contents.drop (startOf l arg)).length + 4 - steps t (a :: τ) = m
  induction m using Nat.strong_induction_on generalizing τ q with
  | _ m ih =>
      by_cases hclosed : Closed t fd (a :: τ)
      · exact ⟨[], q, by simp, by rwa [List.append_nil], by rwa [List.append_nil]⟩
      obtain ⟨b, q₁, hb, hround₁⟩ := h.next hround hclosed
      have hsteps := steps_concat (υ := a :: τ) hb
      obtain ⟨phase, -, -, hcount⟩ := h.state hround₁
      have hbound := hcount.bound
      rw [← List.cons_append, hsteps] at hbound
      obtain ⟨τ', q', hown, hround', hclosed'⟩ := ih _ (by rw [← List.cons_append, hsteps]; omega)
        hround₁ rfl
      refine ⟨b :: τ', q', ?_, ?_, ?_⟩
      · intro c hc
        rcases List.mem_cons.mp hc with rfl | hc
        · exact hb
        · exact hown c hc
      · rwa [List.append_assoc] at hround'
      · rwa [List.append_assoc] at hclosed'

end Whole

/-- **A seek command is answered with the right suffix.** A thread whose `file_fd` is open, at any
position, receives a seek command that names a byte of a retained command, whatever calls have led
to the state of the device. While nobody writes, the thread sends, up to the end of its read loop,
the rest of this command and all newer commands; the retained commands stay as they are, and the
thread writes nothing; it takes a bounded number of steps; and wherever it is, it can go on to the
end of the loop. -/
theorem seek_command_answered (clients : ℕ → Client) (t : ℕ) {fd : ℤ} {f : OpenFile}
    {is : List Invocation} {rs : List Reply} {p q : Pool posix Host Unit}
    (hdevice : invokeAll is aesdInitModule = .ok (rs, p.shared.world))
    (hdistinct : Distinct p.shared.files p.shared.nextFile)
    (hshort : p.shared.world.contents.length < 2 ^ 31) {x y : ℕ} {c : List UInt8}
    (hx : p.shared.world.retained[x]? = some (some c)) (hy : y < c.length)
    (hwaits : Waits clients t fd p) (hfd : 0 ≤ fd) (hfile : p.shared.files fd = some f)
    {r : Transfer bufferSize} (hr : r.data = seekCommandText x y) {a : Act posix Host}
    {τ : List (Act posix Host)} (hround : SeekRound clients t fd r p a τ q) :
    let answer := c.drop y ++ ((p.shared.world.retained.drop (x + 1)).map (·.getD [])).flatten
    (Closed t fd (a :: τ) → response t (clients t).fd (a :: τ) = answer) ∧
      q.shared.world.retained = p.shared.world.retained ∧
      (∀ b ∈ a :: τ, b.task = t → ∀ fd' bytes, b.event.op ≠ .write fd' bytes) ∧
      steps t (a :: τ) ≤ 3 * answer.length + 4 ∧
      ∃ τ' q', (∀ b ∈ τ', b.task = t) ∧ SeekRound clients t fd r p a (τ ++ τ') q' ∧
        Closed t fd (a :: (τ ++ τ')) := by
  intro answer
  obtain ⟨l, h⟩ := stands_init.reached.exists_of_invokeAll hdevice
  rw [h.shows.contents] at hshort
  have hretained := h.shows.retained
  rw [hretained, List.getElem?_map, Option.map_eq_some_iff] at hx
  obtain ⟨c', hc, hcc⟩ := hx
  obtain rfl := Option.some.inj hcc
  -- the numbers of the command
  have hyle : c'.length ≤ l.contents.length := by
    rw [Log.contents, List.length_flatten]
    exact List.single_le_sum (by simp) _ (List.mem_map_of_mem (List.mem_of_getElem? hc))
  have hxlt : x < 10 := by
    obtain ⟨hlt, -⟩ := List.getElem?_eq_some_iff.mp hc
    have hten := l.length_commands
    omega
  have hplace : place ⟨UInt32.ofNat x, UInt32.ofNat y⟩ = (x, y) := by
    rw [place, UInt32.toNat_ofNat_of_lt' (by omega : x < 2 ^ 32),
      UInt32.toNat_ofNat_of_lt' (by omega : y < 2 ^ 32)]
  have hvalid : (x, y) ∈ places (l.commands.map List.length) :=
    ⟨c'.length, by rw [List.getElem?_map, hc]; rfl, hy⟩
  -- what is to be sent
  have hanswer : l.contents.drop (startOf l ⟨UInt32.ofNat x, UInt32.ofNat y⟩) = answer := by
    obtain ⟨c'', hc'', -, hdrop⟩ := drop_flatten_of_locate (locate_position hvalid)
    rw [hc, Option.some.injEq] at hc''
    rw [startOf, hplace, Log.contents, hdrop, ← hc'']
    show _ = c'.drop y ++ ((p.shared.world.retained.drop (x + 1)).map (·.getD [])).flatten
    rw [hretained, ← List.map_drop, List.map_map]
    simp [Function.comp_def]
  have hpos : 0 < r.retval := by
    have hne : r.data ≠ [] := by
      rw [hr, seekCommandText]
      simp [seekPrefix]
    exact Transfer.retval_pos hne
  have hstart : SeekStart clients t fd f l ⟨UInt32.ofNat x, UInt32.ofNat y⟩ r p := by
    obtain ⟨buffer, hbuffer⟩ := hwaits
    refine ⟨⟨h, hdistinct⟩, hplace ▸ hvalid, hshort, hfile, ?_, ?_⟩
    · rw [hbuffer]
      exact follows_seekMonitor hr (by omega) (by omega) hpos hfd
    · rw [hbuffer]
      exact productive_afterRound _
  obtain ⟨phase, -, ⟨l', hl'⟩, hcount⟩ := hstart.state hround
  rw [hanswer] at hcount
  refine ⟨fun hclosed => ?_, ?_, hcount.unwritten, ?_, hstart.exists_end hround⟩
  · have hfits := hl'.fits
    rw [hcount.closed.mp hclosed, hanswer] at hfits
    exact hfits
  · rw [hl'.shown.reached.shows.retained, hl'.commands, hretained]
  · have hbound := hcount.bound
    omega

/-- A client asks for the second byte of the only command. -/
theorem seek_command_answered_second_byte : ∃ p a τ q,
    SeekRound (sending fun _ => seekCommandText 0 1) 0 5
        (.full (seekCommandText 0 1) (by decide)) p a τ q ∧
      response 0 4 (a :: τ) = [newline] := by
  have hserved : Throughout WriteServed [⟨.write 0 [97, newline], .calm 0⟩] aesdInitModule := by decide
  obtain ⟨rs, w, l, hrun, hret, h, hstream⟩ := stands_init.allServed hserved
  rw [consumed_eq hret] at hstream
  have hretained : w.retained = [some [97, newline]] := by
    rw [h.retained, Log.commands, hstream]
    decide
  -- a thread that has opened the device, on which one command has been written
  let p : Pool posix Host Unit :=
    { shared := {
        world := w
        files := Function.update (fun _ => none) 5 (some ⟨0, .creatAppendRdwr⟩)
        nextFile := 1
        owner := fun _ => none }
      task := fun _ => ⟨[], afterRound 0 4 5 (.inl Buffer.zero)⟩ }
  have hwaits : Waits (sending fun _ => seekCommandText 0 1) 0 5 p := ⟨Buffer.zero, rfl⟩
  have hdistinct : Distinct p.shared.files p.shared.nextFile :=
    Host.sound_init.distinct.insert
  have hfile : p.shared.files 5 = some ⟨0, .creatAppendRdwr⟩ := rfl
  have hshort : p.shared.world.contents.length < 2 ^ 31 := by
    rw [World.contents, hretained]
    decide
  have hx : p.shared.world.retained[0]? = some (some [97, newline]) := by
    rw [hretained]
    rfl
  obtain ⟨a, q, hreceive⟩ := hwaits.exists_round (r := .full (seekCommandText 0 1) (by decide))
    List.prefix_rfl
  have hround : SeekRound (sending fun _ => seekCommandText 0 1) 0 5
      (.full (seekCommandText 0 1) (by decide)) p a [] q := ⟨hreceive, by simp⟩
  have hanswered := fun {τ q} => seek_command_answered (sending fun _ => seekCommandText 0 1) 0 (q := q)
    hrun hdistinct hshort hx (y := 1) (by decide) hwaits (by decide) hfile
    (r := .full (seekCommandText 0 1) (by decide)) rfl (a := a) (τ := τ)
  obtain ⟨-, -, -, -, τ', q', -, hround', hclosed⟩ := hanswered hround
  refine ⟨p, a, _, q', hround', ?_⟩
  obtain ⟨hresponse, -⟩ := hanswered hround'
  rw [hretained] at hresponse
  exact hresponse hclosed

end Aesd.Server

import Aesd.Server.Rounds

/-! # What the device is fed of a chunk

A round with a data chunk makes one write of the whole chunk. The driver takes the first line of it
and returns its length, and the thread does not look at this number: it closes the file and answers.
**`chunk_fed_iff`**: the device ends as if it had been fed every byte of the chunk exactly if
nothing follows the first line, or what follows happens to leave the device as it is. -/

namespace Aesd.Server

open Effects CLib Streams CharDriver

/-! ### A device that is fed byte by byte -/

/-- The retained commands and the bytes of the working entry. -/
def Contains (w : World) (d : List (List UInt8) × List UInt8) : Prop :=
  w.retained = d.1.map some ∧ w.pending = some d.2

/-- The device of `after` is that of `before` after every byte of the chunk. -/
def FedWhole (before after : World) (chunk : List UInt8) : Prop :=
  ∃ d, Contains before d ∧ Contains after (chunk.foldl (feedKeeping 10 isNewline) d)

/-- Nothing follows the first line of the chunk, or what follows is whole lines, and the ten
commands that are retained after the first line come again at the end of these. -/
def FirstLineSuffices (before : World) (chunk : List UInt8) : Prop :=
  afterFirstLine isNewline chunk = [] ∨
    ∃ d kept, Contains before d ∧ kept = (d.1 ++ [d.2 ++ firstLine isNewline chunk]).rtake 10 ∧
      kept.length = 10 ∧ rest isNewline (afterFirstLine isNewline chunk) = [] ∧
      kept <:+ kept ++ lines isNewline (afterFirstLine isNewline chunk)

section Contents

variable {w w' : World} {l l' : Log} {chunk : List UInt8}

theorem Contains.unique {d d' : List (List UInt8) × List UInt8} (h : Contains w d)
    (h' : Contains w d') : d = d' := by
  obtain ⟨c, u⟩ := d
  obtain ⟨c', u'⟩ := d'
  have hc : c.map some = c'.map some := h.1.symm.trans h'.1
  have hu : some u = some u' := h.2.symm.trans h'.2
  rw [Option.some.inj hu, List.map_injective_iff.mpr (Option.some_injective _) hc]

theorem contains_of_stands (h : Stands w l) :
    Contains w ((lines isNewline l.stream).rtake 10, rest isNewline l.stream) :=
  ⟨h.retained, h.pending⟩

/-- For a device that is fed the first line. -/
theorem fedWhole_iff_of_stands (h : Stands w l) (h' : Stands w' l')
    (hstream : l'.stream = l.stream ++ firstLine isNewline chunk) :
    FedWhole w w' chunk ↔ FirstLineSuffices w chunk := by
  have hfirst := contains_of_stands h'
  rw [hstream] at hfirst
  have hfed : FedWhole w w' chunk ↔
      chunk.foldl (feedKeeping 10 isNewline)
          ((lines isNewline l.stream).rtake 10, rest isNewline l.stream) =
        ((lines isNewline (l.stream ++ firstLine isNewline chunk)).rtake 10,
          rest isNewline (l.stream ++ firstLine isNewline chunk)) := by
    constructor
    · rintro ⟨d, hd, hall⟩
      rw [(contains_of_stands h).unique hd]
      exact hall.unique hfirst
    · intro hall
      refine ⟨_, contains_of_stands h, ?_⟩
      rw [hall]
      exact hfirst
  -- feeding the whole chunk and feeding its first line keep the same commands
  rw [hfed, foldl_feedKeeping_eq_firstLine_iff, FirstLineSuffices]
  by_cases hlater : afterFirstLine isNewline chunk = []
  · exact iff_of_true (.inl hlater) (.inl hlater)
  have hkept : (lines isNewline (l.stream ++ firstLine isNewline chunk)).rtake 10 =
      ((lines isNewline l.stream).rtake 10 ++
        [rest isNewline l.stream ++ firstLine isNewline chunk]).rtake 10 := by
    rw [lines_append_line (isLine_firstLine hlater), rtake_rtake_append]
  refine or_congr_right ⟨fun hsuf => ⟨_, _, contains_of_stands h, hkept, hsuf⟩, ?_⟩
  rintro ⟨d, kept, hd, rfl, hsuf⟩
  rw [hkept]
  rw [← (contains_of_stands h).unique hd] at hsuf
  exact hsuf

end Contents

/-! ### The phases of the round -/

/-- Where the thread is in the round. -/
inductive StorePhase where
  /-- It is about to receive the chunk. -/
  | waiting
  /-- It has received the chunk. -/
  | received
  /-- It has written. -/
  | stored
  /-- It has received again. -/
  | later

/-- The steps of the round. -/
def storeStep (clientFd fd : ℤ) (chunk : List UInt8) : StorePhase → Event posix → Option StorePhase
  | .waiting, ⟨.recv _ _, _⟩ => some .received
  | .received, ⟨.write fd' bytes, _⟩ => if fd' = fd ∧ bytes = chunk then some .stored else none
  | .received, ⟨.mutexLock _, _⟩ => some .received
  | .stored, ⟨.recv fd' n, _⟩ => if fd' = clientFd ∧ n = bufferSize then some .later else none
  | .stored, ⟨.openFile _, _⟩ => some .stored
  | .stored, ⟨o, _⟩ => if o.isPlain = true then some .stored else none
  | .later, _ => some .later
  | _, _ => none

/-- What a step of the round can be. -/
inductive Stores (clientFd fd : ℤ) (chunk : List UInt8) :
    StorePhase → (o : PosixOp) → PosixRes o → StorePhase → Prop where
  /-- The chunk is received. -/
  | recv (fd' : ℤ) (n : ℕ) (r : Transfer n) :
      Stores clientFd fd chunk .waiting (.recv fd' n) r .received
  /-- A mutex is locked. -/
  | lock (m : Mutex) : Stores clientFd fd chunk .received (.mutexLock m) () .received
  /-- The chunk is written. -/
  | write (n : ℤ) : Stores clientFd fd chunk .received (.write fd chunk) n .stored
  /-- Nothing is written after that. -/
  | quiet {o : PosixOp} (r : PosixRes o) (ho : ∀ fd' bytes, o ≠ .write fd' bytes) :
      Stores clientFd fd chunk .stored o r .stored
  /-- The next chunk is received. -/
  | again (r : Transfer bufferSize) :
      Stores clientFd fd chunk .stored (.recv clientFd bufferSize) r .later
  /-- The rounds after this one. -/
  | later (o : PosixOp) (r : PosixRes o) : Stores clientFd fd chunk .later o r .later

theorem stores_of_step {clientFd fd : ℤ} {chunk : List UInt8} {phase g : StorePhase} {o : PosixOp}
    {r : PosixRes o} (h : storeStep clientFd fd chunk phase ⟨o, r⟩ = some g) :
    Stores clientFd fd chunk phase o r g := by
  -- each phase has its own calls, and their arguments are those of the round
  cases phase with
  | waiting =>
      cases o with
      | recv fd' n =>
          cases h
          exact .recv fd' n r
      | _ => cases h
  | received =>
      cases o with
      | mutexLock m =>
          cases h
          exact .lock m
      | write fd' bytes =>
          rw [storeStep, Option.ite_none_right_eq_some] at h
          obtain ⟨⟨rfl, rfl⟩, h⟩ := h
          cases h
          exact .write r
      | _ => cases h
  | stored =>
      cases o with
      | recv fd' n =>
          rw [storeStep, Option.ite_none_right_eq_some] at h
          obtain ⟨⟨rfl, rfl⟩, h⟩ := h
          cases h
          exact .again r
      | write fd' bytes => cases h
      | ioctl fd' request arg => cases h
      | _ =>
          cases h
          exact .quiet _ (by simp)
  | later =>
      cases h
      exact .later o r

/-- The monitor of the round in which the chunk of `r` is received. -/
def storeMonitor (clientFd fd : ℤ) (r : Transfer bufferSize) : Monitor posix StorePhase where
  expects _ e := ∀ r' : Transfer bufferSize, e = ⟨.recv clientFd bufferSize, r'⟩ → r' = r
  step := storeStep clientFd fd r.data

section Text

variable {tinfo : ThreadInfo} {clientFd fd : ℤ} {r : Transfer bufferSize} {buffer : Buffer} {α : Type}

/-- After its write the thread writes no more before it receives. -/
theorem storeStep_stored {chunk : List UInt8} {o : PosixOp} (res : PosixRes o)
    (ho : o.isPlain = true ∨ o = .openFile .rdonly) :
    storeStep clientFd fd chunk .stored ⟨o, res⟩ = some .stored := by
  rcases ho with ho | rfl
  · cases o with
    | recv => cases ho
    | openFile => cases ho
    | _ => exact if_pos (e := none) ho
  · rfl

theorem follows_storeMonitor_later (p : Handler α) :
    Follows (storeMonitor clientFd fd r) .later p fun _ g => g = .later := by
  induction p with
  | pure a => rfl
  | call o k ih =>
      intro r' _
      exact ⟨.later, rfl, ih r'⟩
  | loop body s k ihbody ih =>
      refine ⟨fun _ g => g = .later, fun _ g => g = .later, rfl, ?_, ?_⟩
      · rintro s _ rfl
        exact (ihbody s).mono fun res _ hg => by cases res <;> exact hg
      · rintro b _ rfl
        exact ih b

/-- The data branch writes the chunk once. -/
theorem follows_storeMonitor_storeData (hfd : fd ≠ -1) :
    Follows (storeMonitor clientFd fd r) .received
      (storeData clientFd fd (buffer.chunk r) r.data.length) fun _ g => g = .stored := by
  have hplain : ∀ {β : Type} (p : Handler β), Uses (E := posix)
      (fun o => o.isPlain = true ∨ o = .openFile .rdonly) p →
        Follows (storeMonitor clientFd fd r) .stored p fun _ g => g = .stored := fun p hp =>
    hp.follows fun o res ho => storeStep_stored res ho
  simp only [storeData, mutexLock, mutexUnlock, write, syslog, close, Prog.bind_eq, Prog.call_bind,
    Prog.pure_bind, Prog.pure_eq]
  intro _ _
  refine ⟨.received, rfl, ?_⟩
  beta_reduce
  rw [if_neg hfd]
  intro n _
  refine ⟨.stored, if_pos ⟨rfl, Buffer.take_chunk⟩, hplain _ ?_⟩
  refine Uses.ite ⟨.inl rfl, fun _ => ⟨.inl rfl, fun _ => ⟨.inl rfl, fun _ => trivial⟩⟩⟩ ?_
  exact ⟨.inl rfl, fun _ => ⟨.inl rfl, fun _ => uses_respond⟩⟩

/-- **A thread at the head of its loop goes through the phases.** -/
theorem follows_storeMonitor (hpos : 0 < r.retval) (hlen : r.data.length < bufferSize)
    (hdata : ¬seekPrefix <+: r.data) (hfd : fd ≠ -1) :
    Follows (storeMonitor clientFd fd r) .waiting (afterRound tinfo clientFd fd (.inl buffer))
      fun _ g => g = .stored ∨ g = .later := by
  have hfirst : ∀ buffer, Follows (storeMonitor clientFd fd r) .waiting
      (serve tinfo clientFd fd buffer) fun _ g => g = .stored := by
    intro buffer
    rw [serve_eq]
    intro r' hr'
    obtain rfl : r' = r := hr' r' rfl
    refine ⟨.received, rfl, ?_⟩
    beta_reduce
    rw [if_neg (not_le.mpr hpos), if_neg (not_le.mpr hlen), afterChunk, if_neg hdata]
    exact follows_storeMonitor_storeData hfd
  have hnext : ∀ buffer, Follows (storeMonitor clientFd fd r) .stored
      (serve tinfo clientFd fd buffer) fun _ g => g = .later := by
    intro buffer
    rw [serve_eq]
    intro r' _
    exact ⟨.later, if_pos ⟨rfl, rfl⟩, follows_storeMonitor_later _⟩
  -- one round stores the chunk, the next one receives again, and then anything may happen
  rw [afterRound]
  refine (Follows.iterate (fun _ g => g = .waiting ∨ g = .stored ∨ g = .later)
    (Q := fun _ g => g = .stored ∨ g = .later) (.inl rfl) ?_).bind ?_
  · rintro buffer _ (rfl | rfl | rfl)
    · refine (hfirst buffer).mono fun res g hg => ?_
      cases res with
      | inl buffer => exact .inr (.inl hg)
      | inr _ => exact .inl hg
    · refine (hnext buffer).mono fun res g hg => ?_
      cases res with
      | inl buffer => exact .inr (.inr hg)
      | inr _ => exact .inr hg
    · refine (follows_storeMonitor_later _).mono fun res g hg => ?_
      cases res with
      | inl buffer => exact .inr (.inr hg)
      | inr _ => exact .inr hg
  · rintro _ _ (rfl | rfl)
    · refine (uses_threadCleanup.follows fun o res ho => storeStep_stored res (.inl ho)).mono ?_
      exact fun _ _ hg => .inl hg
    · exact (follows_storeMonitor_later _).mono fun _ _ hg => .inr hg

end Text

/-! ### The state during the round -/

/-- What a phase says of what the device has been fed, and of the descriptor. -/
def StorePhase.Fits (chunk : List UInt8) (f : OpenFile) (fedBytes : List UInt8)
    (atFd : Option OpenFile) : StorePhase → Prop
  | .waiting | .received => fedBytes = [] ∧ atFd = some f
  | .stored => fedBytes = firstLine isNewline chunk
  | .later => False

/-- The host during the round, after the acts `υ`. -/
structure Storing (t : ℕ) (fd : ℤ) (file : File) (chunk : List UInt8) (υ : List (Act posix Host))
    (phase : StorePhase) (s : Host) : Prop where
  /-- What the device has been fed. -/
  fits : phase.Fits chunk ⟨file, .creatAppendRdwr⟩ (fed (pieces υ)) (s.files fd)
  /-- The thread has written. -/
  written : (∃ b ∈ υ, b.task = t ∧ b.event.op = .write fd chunk) ↔ phase = .stored

section Storing

variable {clients : ℕ → Client} {t : ℕ} {fd : ℤ} {file : File} {chunk : List UInt8}
  {υ : List (Act posix Host)} {phase g : StorePhase} {a : Act posix Host}

theorem fed_concat : fed (pieces (υ ++ [a])) =
    fed (pieces υ) ++ (a.before.deviceWrite a.event.op).elim [] (firstLine isNewline) := by
  rw [pieces_concat, fed, fed, List.flatMap_append, piece]
  cases a.before.deviceWrite a.event.op <;> simp

/-- An act of another thread. -/
theorem Storing.other (h : Storing t fd file chunk υ phase a.before) (ht : a.task ≠ t)
    (hans : hostAnswers clients a.task a.hist a.event.op a.before a.event.res a.after)
    (hquiet : a.before.deviceWrite a.event.op = none ∧ a.event.op.fd? ≠ some fd) :
    Storing t fd file chunk (υ ++ [a]) phase a.after := by
  have hfits := h.fits
  refine ⟨?_, ?_⟩
  · rw [fed_concat, hquiet.1, Option.elim_none, List.append_nil]
    cases phase with
    | stored => exact hfits
    | later => exact hfits
    | _ => exact ⟨hfits.1, (effect_of_answers hans).files hfits.2 hquiet.2⟩
  · rw [← h.written]
    refine ⟨?_, fun ⟨b, hb, hwrite⟩ => ⟨b, List.mem_append_left _ hb, hwrite⟩⟩
    rintro ⟨b, hb, hbt, hop⟩
    rcases List.mem_append.mp hb with hb | hb
    · exact ⟨b, hb, hbt, hop⟩
    · exact absurd (List.mem_singleton.mp hb ▸ hbt) ht

/-- An act of the thread itself, which does not receive again. -/
theorem Storing.own (h : Storing t fd file chunk υ phase a.before) (ht : a.task = t)
    (hans : hostAnswers clients t a.hist a.event.op a.before a.event.res a.after)
    (hstores : Stores (clients t).fd fd chunk phase a.event.op a.event.res g)
    (hwithin : phase = .stored → ∀ r : Transfer bufferSize,
      a.event ≠ ⟨.recv (clients t).fd bufferSize, r⟩) :
    Storing t fd file chunk (υ ++ [a]) g a.after := by
  have hfits := h.fits
  refine ⟨?_, ?_⟩
  · rw [fed_concat]
    obtain ⟨u, hist, ⟨o, r⟩, before, after⟩ := a
    dsimp only at *
    cases hstores with
    | recv fd' n r =>
        obtain ⟨-, rfl⟩ := hans
        exact ⟨(List.append_nil _).trans hfits.1, hfits.2⟩
    | lock m =>
        obtain ⟨-, rfl⟩ := hans
        exact ⟨(List.append_nil _).trans hfits.1, hfits.2⟩
    | write n =>
        rw [hfits.1, Host.deviceWrite, hfits.2]
        rfl
    | quiet r ho =>
        -- only a `write` reaches the device
        have hnone : before.deviceWrite o = none := by
          by_contra hsome
          obtain ⟨bytes, hbytes⟩ := Option.ne_none_iff_exists'.mp hsome
          obtain ⟨fd', hfd'⟩ := Host.exists_write_of_deviceWrite hbytes
          exact ho fd' bytes hfd'
        rw [hnone, Option.elim_none, List.append_nil]
        exact hfits
    | again r => exact absurd rfl (hwithin rfl r)
    | later => exact hfits.elim
  · have hwritten : (∃ b ∈ υ ++ [a], b.task = t ∧ b.event.op = .write fd chunk) ↔
        phase = .stored ∨ a.event.op = .write fd chunk := by
      rw [← h.written]
      constructor
      · rintro ⟨b, hb, hbt, hop⟩
        rcases List.mem_append.mp hb with hb | hb
        · exact .inl ⟨b, hb, hbt, hop⟩
        · exact .inr (List.mem_singleton.mp hb ▸ hop)
      · rintro (⟨b, hb, hwrite⟩ | hop)
        · exact ⟨b, List.mem_append_left _ hb, hwrite⟩
        · exact ⟨a, List.mem_concat_self, ht, hop⟩
    rw [hwritten]
    obtain ⟨u, hist, ⟨o, r⟩, before, after⟩ := a
    dsimp only at *
    cases hstores with
    | again r => exact absurd rfl (hwithin rfl r)
    | later => exact hfits.elim
    | _ => simp

/-- **The state lemma of the round.** -/
theorem Round.storing {r : Transfer bufferSize} {p q : Pool posix Host Unit}
    {τ : List (Act posix Host)} (hround : Round clients t fd r p a τ q) (hwaits : Waits clients t fd p)
    (hfd : fd ≠ -1) (hfile : p.shared.files fd = some ⟨file, .creatAppendRdwr⟩) (hpos : 0 < r.retval)
    (hlen : r.data.length < bufferSize) (hdata : ¬seekPrefix <+: r.data) :
    ∃ phase, Storing t fd file r.data (a :: τ) phase q.shared := by
  obtain ⟨buffer, hbuffer⟩ := hwaits
  obtain ⟨ht, hevent⟩ := hround.receives
  have hfollows : Follows (storeMonitor (clients t).fd fd r) .waiting (p.task t).prog
      fun _ g => g = .stored ∨ g = .later := by
    rw [hbuffer]
    exact follows_storeMonitor hpos hlen hdata hfd
  suffices hrun : ∃ phase, Follows (storeMonitor (clients t).fd fd r) phase (q.task t).prog
      (fun _ g => g = .stored ∨ g = .later) ∧ Storing t fd file r.data (a :: τ) phase q.shared by
    obtain ⟨phase, -, hphase⟩ := hrun
    exact ⟨phase, hphase⟩
  refine hround.runs.followed (J := Storing t fd file r.data) hfollows ?_ ?_ ?_ ?_
  · -- only the first act receives
    intro b hb hbt _ r' hr'
    rcases List.mem_cons.mp hb with rfl | hb
    · rw [hevent] at hr'
      cases hr'
      rfl
    · exact absurd hr' (hround.within b hb hbt r')
  · exact ⟨⟨rfl, hfile⟩, by simp⟩
  · rintro υ phase b g ⟨post, hυ⟩ hbt hstoring hans hstep
    refine hstoring.own hbt hans (stores_of_step hstep) fun hphase r' => ?_
    -- the first act of the run is not one after the write
    obtain ⟨c, hc, -⟩ := hstoring.written.mpr hphase
    cases υ with
    | nil => cases hc
    | cons a' υ =>
        rw [List.cons_append, List.cons_append, List.cons.injEq] at hυ
        exact hround.within b (hυ.2 ▸ by simp) hbt r'
  · rintro υ phase b ⟨post, hυ⟩ hbt hstoring hans
    have hb : b ∈ a :: τ := by simp [← hυ]
    rcases List.mem_cons.mp hb with rfl | hb
    · exact absurd ht hbt
    · exact hstoring.other hbt hans (hround.quiet b hb hbt)

/-- In a round that has come to its write the device has been fed the first line of the chunk. -/
theorem Round.fed_eq {r : Transfer bufferSize} {p q : Pool posix Host Unit}
    {τ : List (Act posix Host)} (hround : Round clients t fd r p a τ q) (hwaits : Waits clients t fd p)
    (hfd : fd ≠ -1) (hfile : p.shared.files fd = some ⟨file, .creatAppendRdwr⟩) (hpos : 0 < r.retval)
    (hlen : r.data.length < bufferSize) (hdata : ¬seekPrefix <+: r.data)
    (hstored : ∃ b ∈ τ, b.task = t ∧ b.event.op = .write fd r.data) :
    fed (pieces (a :: τ)) = firstLine isNewline r.data := by
  obtain ⟨phase, hphase⟩ := hround.storing hwaits hfd hfile hpos hlen hdata
  obtain ⟨b, hb, hwrite⟩ := hstored
  have hfits := hphase.fits
  rw [hphase.written.mp ⟨b, List.mem_cons_of_mem _ hb, hwrite⟩] at hfits
  exact hfits

end Storing

section Fresh

/-- The device is fresh, 5 is a descriptor of it, and every thread is about to receive. -/
def freshPool : Pool posix Host Unit where
  shared :=
    { world := aesdInitModule
      files := Function.update (fun _ => none) 5 (some ⟨0, .creatAppendRdwr⟩)
      nextFile := 1
      owner := fun _ => none }
  task := fun _ => ⟨[], afterRound 0 4 5 (.inl Buffer.zero)⟩

variable {r : Transfer bufferSize}

/-- On a fresh device a thread can store any chunk. -/
theorem exists_storing_round (hpos : 0 < r.retval) (hlen : r.data.length < bufferSize)
    (hdata : ¬seekPrefix <+: r.data) :
    ∃ a τ q, Round (sending fun _ => r.data) 0 5 r freshPool a τ q ∧
      (∃ b ∈ τ, b.task = 0 ∧ b.event.op = .write 5 r.data) ∧
      ∃ l, Stands q.shared.world l ∧ l.stream = Log.init.stream ++ firstLine isNewline r.data := by
  obtain ⟨τ, s', l', halone, -, hevents, h', hstream, -⟩ :=
    exists_alone_storingChunk (sending fun _ => r.data) 0 (s := freshPool.shared) ⟨5, by decide⟩ r
      stands_init [] rfl rfl hpos List.prefix_rfl (by decide)
  have hrun : Runs (afterRound 0 4 5 (.inl Buffer.zero))
      (storingChunk 4 5 r (firstLine isNewline r.data).length 0)
      ((respond 4 (Buffer.zero.chunk r) r.data.length).bind (afterRound 0 4 5)) :=
    runs_storingChunk (by decide) hpos hlen hdata (by omega)
  rw [show storingChunk 4 5 r _ 0 = τ.map Act.event from hevents.symm] at hrun
  obtain ⟨q, hq, hshared, -⟩ := Alone.steps (p := freshPool) halone hrun
  -- the run begins with the `recv` of the chunk
  have htask := halone.task
  cases halone with
  | nil => cases hevents
  | @cons _ o r' _ s₁ _ τ hans hτ =>
      rw [List.map_cons, storingChunk, List.cons.injEq] at hevents
      obtain ⟨hfirst, hevents⟩ := hevents
      have hlater : ∀ b ∈ τ, b.event ∈ τ.map Act.event := fun b hb => List.mem_map_of_mem hb
      rw [hevents] at hlater
      refine ⟨_, τ, q, ⟨hq, ⟨rfl, hfirst⟩, ?_, ?_⟩, ?_, l', hshared ▸ h', hstream⟩
      · intro b hb _ r'' hr''
        have hmem := hlater b hb
        rw [hr''] at hmem
        simp at hmem
      · exact fun b hb hb0 => absurd (htask b (List.mem_cons_of_mem _ hb)) hb0
      · have hwrite : (⟨.write 5 r.data, ((firstLine isNewline r.data).length : ℤ)⟩ : Event posix) ∈
            τ.map Act.event := by
          rw [hevents]
          simp
        obtain ⟨b, hb, hbe⟩ := List.mem_map.mp hwrite
        exact ⟨b, hb, htask b (List.mem_cons_of_mem _ hb), by rw [hbe]⟩

end Fresh

/-- **The bytes after the first line of a chunk are lost.** A thread whose `file_fd` is open
receives a chunk that is no seek command, whatever calls have led to the state of the device, and
writes it, while no other thread writes. From then until it receives again, the device is as if it
had been fed every byte of the chunk exactly if its first line suffices. -/
theorem chunk_fed_iff (clients : ℕ → Client) (t : ℕ) {fd : ℤ} {file : File} {is : List Invocation}
    {rs : List Reply} {p q : Pool posix Host Unit}
    (hdevice : invokeAll is aesdInitModule = .ok (rs, p.shared.world))
    (hdistinct : Distinct p.shared.files p.shared.nextFile) (hwaits : Waits clients t fd p)
    (hfd : fd ≠ -1) (hfile : p.shared.files fd = some ⟨file, .creatAppendRdwr⟩)
    {r : Transfer bufferSize} (hpos : 0 < r.retval) (hlen : r.data.length < bufferSize)
    (hdata : ¬seekPrefix <+: r.data) {a : Act posix Host} {τ : List (Act posix Host)}
    (hround : Round clients t fd r p a τ q)
    (hstored : ∃ b ∈ τ, b.task = t ∧ b.event.op = .write fd r.data) :
    FedWhole p.shared.world q.shared.world r.data ↔ FirstLineSuffices p.shared.world r.data := by
  have hfed := hround.fed_eq hwaits hfd hfile hpos hlen hdata hstored
  obtain ⟨l, h⟩ := stands_init.reached.exists_of_invokeAll hdevice
  rcases h.working with hstands | hdangles
  · have hsound : p.shared.Sound l := ⟨hstands, hdistinct⟩
    obtain ⟨l', h', hstream, -⟩ := hsound.steps hround.runs
    rw [hfed] at hstream
    exact fedWhole_iff_of_stands hstands h'.stands hstream
  · -- a device whose working entry dangles takes no chunk
    have hshown : p.shared.Shown l := ⟨h, hdistinct⟩
    obtain ⟨-, -, hnone⟩ := hshown.pieces_of_dangles hdangles hround.runs
    rw [hnone] at hfed
    exact absurd hfed.symm (firstLine_ne_nil (Transfer.data_ne_nil hpos))

/-- A chunk of one line. -/
theorem chunk_fed_iff_one_line : ∃ a τ q,
    Round (sending fun _ => [97, newline]) 0 5 (.full [97, newline] (by decide)) freshPool a τ q ∧
      FedWhole aesdInitModule q.shared.world [97, newline] := by
  obtain ⟨a, τ, q, hround, hstored, -⟩ :=
    exists_storing_round (r := .full [97, newline] (by decide)) (by decide) (by decide) (by decide)
  have hdevice : invokeAll [] aesdInitModule = .ok ([], freshPool.shared.world) := rfl
  have hiff := chunk_fed_iff (sending fun _ => [97, newline]) 0 hdevice
    Host.sound_init.distinct.insert ⟨Buffer.zero, rfl⟩ (by decide) rfl (by decide) (by decide)
    (by decide) hround hstored
  exact ⟨a, τ, q, hround, hiff.mpr (.inl (by decide))⟩

/-- Of a chunk of two lines a fresh device takes the first. -/
theorem exists_chunk_not_fed_whole : ∃ a τ q,
    Round (sending fun _ => [97, newline, 98, newline]) 0 5
        (.full [97, newline, 98, newline] (by decide)) freshPool a τ q ∧
      (∃ b ∈ τ, b.task = 0 ∧ b.event.op = .write 5 [97, newline, 98, newline]) ∧
      ¬FedWhole aesdInitModule q.shared.world [97, newline, 98, newline] := by
  obtain ⟨a, τ, q, hround, hstored, l, hl, hstream⟩ :=
    exists_storing_round (r := .full [97, newline, 98, newline] (by decide)) (by decide) (by decide)
      (by decide)
  have hiff : FedWhole aesdInitModule q.shared.world [97, newline, 98, newline] ↔
      FirstLineSuffices aesdInitModule [97, newline, 98, newline] :=
    fedWhole_iff_of_stands stands_init hl hstream
  refine ⟨a, τ, q, hround, hstored, ?_⟩
  rw [hiff]
  rintro (hnone | ⟨d, kept, hd, rfl, hten, -⟩)
  · exact absurd hnone (by decide)
  · -- fewer than ten commands are retained
    rw [← (contains_of_stands stands_init).unique hd] at hten
    exact absurd hten (by decide)

end Aesd.Server

import Aesd.Server.Host

/-! # A thread alone

While the other threads stand still, a thread can open the device, receive a chunk and store it, and
can begin the answer. -/

namespace Aesd.Server

open Effects CLib Streams CharDriver

/-! ### Runs of the text -/

section Text

variable {tinfo : ThreadInfo} {clientFd fileFd : ℤ} {buffer : Buffer} {r : Transfer bufferSize}

/-- What is left of a thread after a round. -/
def afterRound (tinfo : ThreadInfo) (clientFd fileFd : ℤ) : Buffer ⊕ Unit → Handler Unit
  | .inl buffer => (Prog.iterate (serve tinfo clientFd fileFd) buffer).bind fun _ =>
      threadCleanup tinfo
  | .inr _ => threadCleanup tinfo

theorem unfold_serve : Prog.unfold (serve tinfo clientFd fileFd) buffer
    (fun b => (Prog.pure b).bind fun _ => threadCleanup tinfo) =
      (serve tinfo clientFd fileFd buffer).bind (afterRound tinfo clientFd fileFd) := by
  rw [Prog.unfold]
  congr 1
  funext res
  cases res <;> rfl

/-- What a thread issues in a round up to the end of its write. -/
def storingChunk (cfd ffd : ℤ) (r : Transfer bufferSize) (n m : ℤ) : List (Event posix) :=
  [⟨.recv cfd bufferSize, r⟩, ⟨.mutexLock .file, ()⟩, ⟨.write ffd r.data, n⟩, ⟨.close ffd, m⟩,
    ⟨.mutexUnlock .file, ()⟩]

/-- A thread can store a chunk, and is then left with the response. -/
theorem runs_storingChunk {cfd ffd n m : ℤ} (hffd : ffd ≠ -1) (hr : 0 < r.retval)
    (hlen : r.data.length < bufferSize) (hdata : ¬seekPrefix <+: r.data) (hn : n ≠ -1) :
    Runs (afterRound tinfo cfd ffd (.inl buffer)) (storingChunk cfd ffd r n m)
      ((respond cfd (buffer.chunk r) r.data.length).bind (afterRound tinfo cfd ffd)) := by
  rw [afterRound, Prog.iterate, Prog.loop_bind]
  apply Runs.loop
  rw [unfold_serve, serve_eq, Prog.call_bind]
  apply Runs.call
  rw [if_neg (not_le.mpr hr), if_neg (not_le.mpr hlen), afterChunk, if_neg hdata, storeData,
    Buffer.take_chunk]
  simp only [mutexLock, mutexUnlock, write, syslog, close, Prog.bind_eq, Prog.call_bind,
    Prog.pure_bind]
  apply Runs.call
  rw [if_neg hffd]
  apply Runs.call
  beta_reduce
  rw [if_neg hn]
  apply Runs.call
  apply Runs.call
  exact .refl _

/-- What a thread issues up to the end of its first write. -/
def storing (tinfo : ThreadInfo) (cfd : ℤ) (ffd : Descriptor) (r : Transfer bufferSize) (n m : ℤ) :
    List (Event posix) :=
  [⟨.loadClientFd tinfo, cfd⟩, ⟨.openFile .creatAppendRdwr, ffd⟩, ⟨.recv cfd bufferSize, r⟩,
    ⟨.mutexLock .file, ()⟩, ⟨.write ffd.val r.data, n⟩, ⟨.close ffd.val, m⟩,
    ⟨.mutexUnlock .file, ()⟩]

/-- A thread opens the device, and is then left with its rounds. -/
theorem runs_opening {stack : Buffer} {cfd : ℤ} {ffd : Descriptor} (hffd : ffd.val ≠ -1) :
    Runs (handleClient tinfo stack) [⟨.loadClientFd tinfo, cfd⟩, ⟨.openFile .creatAppendRdwr, ffd⟩]
      (afterRound tinfo cfd ffd.val (.inl stack)) := by
  simp only [handleClient, handleConnection, loadClientFd, openFile, syslog, Prog.bind_eq,
    Prog.call_bind, Prog.pure_bind]
  apply Runs.call
  apply Runs.call
  rw [if_neg hffd]
  exact .refl _

/-- A thread can store its first chunk, and is then left with the response. -/
theorem runs_storing {stack : Buffer} {cfd : ℤ} {ffd : Descriptor} {n m : ℤ}
    (hffd : ffd.val ≠ -1) (hr : 0 < r.retval) (hlen : r.data.length < bufferSize)
    (hdata : ¬seekPrefix <+: r.data) (hn : n ≠ -1) :
    Runs (handleClient tinfo stack) (storing tinfo cfd ffd r n m)
      ((respond cfd (stack.chunk r) r.data.length).bind (afterRound tinfo cfd ffd.val)) :=
  (runs_opening hffd).trans (runs_storingChunk hffd hr hlen hdata hn)

/-- What is left of an answer while its read loop goes on. -/
def answerOn (clientFd fd : ℤ) (buffer : Buffer) : Handler (Buffer ⊕ Unit) :=
  (Prog.iterate (echo clientFd fd) buffer).bind fun buffer =>
    (close fd).bind fun _ => .pure (.inl buffer)

/-- A read of an answer that is not the last one, sent. -/
theorem runs_echo (clientFd fd : ℤ) (buffer : Buffer) {n : ℤ} (hr : 0 < r.retval) (hn : n ≠ -1) :
    Runs (answerOn clientFd fd buffer) [⟨.read fd bufferSize, r⟩, ⟨.send clientFd r.data, n⟩]
      (answerOn clientFd fd (buffer.fill r)) := by
  have hround : Runs (echo clientFd fd buffer)
      [⟨.read fd bufferSize, r⟩, ⟨.send clientFd r.data, n⟩] (.pure (.inl (buffer.fill r))) := by
    rw [echo]
    simp only [read, Prog.bind_eq, Prog.call_bind, Prog.pure_bind]
    apply Runs.call
    rw [if_pos hr, Buffer.take_fill hr]
    simp only [send, Prog.call_bind, Prog.pure_bind, Prog.pure_eq]
    apply Runs.call
    rw [if_neg hn]
    exact .refl _
  exact hround.again (.refl _)

/-- The first read of an answer, sent. -/
theorem runs_respond (clientFd : ℤ) {fd : Descriptor} {k : ℕ} {n : ℤ}
    (hk : buffer.bytes.getD (k - 1) 0 = newline) (hfd : fd.val ≠ -1) (hr : 0 < r.retval) (hn : n ≠ -1) :
    Runs (respond clientFd buffer k)
      [⟨.openFile .rdonly, fd⟩, ⟨.read fd.val bufferSize, r⟩, ⟨.send clientFd r.data, n⟩]
      (answerOn clientFd fd.val (buffer.fill r)) := by
  rw [respond, if_pos hk]
  simp only [openFile, syslog, close, Prog.bind_eq, Prog.call_bind, Prog.pure_bind, Prog.pure_eq]
  apply Runs.call
  rw [if_neg hfd]
  exact runs_echo clientFd fd.val buffer hr hn

/-- The last read of an answer. -/
theorem runs_answerOn (clientFd fd : ℤ) (buffer : Buffer) (hr : r.retval ≤ 0) :
    Runs (answerOn clientFd fd buffer) [⟨.read fd bufferSize, r⟩]
      ((close fd).bind fun _ => .pure (.inl (buffer.fill r))) := by
  have hround : Runs (echo clientFd fd buffer) [⟨.read fd bufferSize, r⟩]
      (.pure (.inr (buffer.fill r))) := by
    simp only [echo, read, Prog.bind_eq, Prog.call_bind, Prog.pure_bind]
    apply Runs.call
    rw [if_neg (not_lt.mpr hr)]
    exact .refl _
  exact hround.leave (.refl _)

end Text

/-- Clients that send the streams, on the descriptors after the one of the listening socket. -/
def sending (streams : ℕ → List UInt8) (t : ℕ) : Client where
  tinfo := t
  fd := t + 4
  stack := Buffer.zero
  stream := streams t

/-! ### Calls that can be made -/

section Possible

variable (clients : ℕ → Client) (t : ℕ) {s : Host} {l : Log} {fd : Descriptor}

/-- The device can be opened with any free descriptor. -/
theorem exists_open (h : Stands s.world l) (hfd : fd.val ≠ -1) (hfree : s.files fd.val = none)
    (flags : OpenFlags) :
    ∃ w', Stands w' (l.seekTo s.nextFile 0) ∧
      ∀ hist, (server clients).answers t hist (.openFile flags) s fd
        { s with
          world := w'
          files := Function.update s.files fd.val (some ⟨s.nextFile, flags⟩)
          nextFile := s.nextFile + 1 } := by
  obtain ⟨w', hi, -, h'⟩ := h.simulates (i := ⟨.open s.nextFile, .calm t⟩) fun hs => hs
  exact ⟨w', h', fun hist => .inr ⟨hfd, hfree, _, ⟨.calm t, w', hi, rfl⟩, rfl⟩⟩

/-- A chunk can be written while the working entry is not too long. -/
theorem exists_write (h : Stands s.world l) {file : File} {bytes : List UInt8}
    (hfile : s.files fd.val = some ⟨file, .creatAppendRdwr⟩)
    (hfits : l.pending.length + bytes.length ≤ allocationLimit) :
    ∃ w' l', Stands w' l' ∧ l'.stream = l.stream ++ firstLine isNewline bytes ∧
      ∀ hist, (server clients).answers t hist (.write fd.val bytes) s
        ((firstLine isNewline bytes).length : ℤ) { s with world := w' } := by
  have hserved : WriteServed ⟨.write file bytes, .calm t⟩ s.world := by
    have hsize : s.world.dev.workingEntry.size = l.pending.length := h.represents.working.size
    have hle : (firstLine isNewline bytes).length ≤ bytes.length :=
      (firstLine_isPrefix bytes).length_le
    refine ⟨?_, rfl, ?_⟩
    · rintro (hno | hno | hno | hno)
      · cases hno
      · omega
      · exact hno (Nat.zero_min _)
      · cases hno
    · rw [hsize]
      omega
  obtain ⟨w', l', hi, h', hstream⟩ := h.served hserved
  have hanswer : ∀ hist, hostAnswers clients t hist (.write fd.val bytes) s
      ((firstLine isNewline bytes).length : ℤ) { s with world := w' } := by
    intro hist
    rw [hostAnswers, hfile]
    exact ⟨⟨.calm t, w', hi, rfl⟩, Int.natCast_nonneg _⟩
  exact ⟨w', l', h', hstream, hanswer⟩

/-- A read that the log allows can be made. -/
theorem exists_read (h : Stands s.world l) {fd : ℤ} {f : OpenFile} {n : ℕ} {r : Transfer n} {l' : Log}
    (hfile : s.files fd = some f) (hr : 0 ≤ r.retval)
    (hread : l.read (.calm t) f.file n = some (⟨r.retval, r.data⟩, l')) :
    ∃ w', Stands w' l' ∧ ∀ hist, (server clients).answers t hist (.read fd n) s r
      { s with world := w' } := by
  have hsim := h.simulates (i := ⟨.read f.file n, .calm t⟩) fun hs => hs
  rw [show l.apply ⟨.read f.file n, .calm t⟩ = .ok (l.read (.calm t) f.file n) from rfl, hread] at hsim
  obtain ⟨w', hi, -, h'⟩ := hsim
  have hanswer : ∀ hist, hostAnswers clients t hist (.read fd n) s r { s with world := w' } := by
    intro hist
    rw [hostAnswers, hfile]
    exact ⟨⟨.calm t, w', hi, rfl⟩, hr⟩
  exact ⟨w', h', hanswer⟩

end Possible

/-! ### A thread that stores a chunk alone -/

section Store

variable (clients : ℕ → Client) (t : ℕ) {s : Host} {l : Log} (fd : Descriptor)
  (r : Transfer bufferSize)

/-- The host can answer all that a thread asks for in a round up to the end of its write. -/
theorem exists_alone_storingChunk (h : Stands s.world l) {file : File} (hist : List (Event posix))
    (hfile : s.files fd.val = some ⟨file, .creatAppendRdwr⟩) (howner : s.owner .file = none)
    (hr : 0 < r.retval) (harrives : (chunks hist).flatten ++ r.data <+: (clients t).stream)
    (hfits : l.pending.length + bufferSize ≤ allocationLimit) :
    ∃ τ s' l', Alone (server clients) t hist s τ s' ∧
      pieces τ = [⟨t, (chunks hist).flatten.length, r.data⟩] ∧
      τ.map Act.event =
        storingChunk (clients t).fd fd.val r (firstLine isNewline r.data).length 0 ∧
      Stands s'.world l' ∧ l'.stream = l.stream ++ firstLine isNewline r.data ∧
      s'.files = Function.update s.files fd.val none ∧ s'.nextFile = s.nextFile ∧
      s'.owner = s.owner := by
  let s₁ : Host := { s with owner := Function.update s.owner .file (some t) }
  have hlen : l.pending.length + r.data.length ≤ allocationLimit := by
    have hle := r.length_le
    omega
  obtain ⟨w, l', h', hstream, hwrites⟩ := exists_write clients t (s := s₁) h hfile hlen
  let s₂ : Host := { s₁ with world := w }
  let s₃ : Host := { s₂ with files := Function.update s₂.files fd.val none }
  let s₄ : Host := { s₃ with owner := Function.update s₃.owner .file none }
  have hrecv : (server clients).answers t hist (.recv (clients t).fd bufferSize) s r s :=
    ⟨harrives, rfl⟩
  have hlock : ∀ hist, (server clients).answers t hist (.mutexLock .file) s () s₁ :=
    fun _ => ⟨howner, rfl⟩
  have hclose : ∀ hist, (server clients).answers t hist (.close fd.val) s₂ (0 : ℤ) s₃ := fun _ => rfl
  have hunlock : ∀ hist, (server clients).answers t hist (.mutexUnlock .file) s₃ () s₄ :=
    fun _ => rfl
  -- what has been received when the write is issued
  have hchunks : chunks (hist ++ [⟨.recv (clients t).fd bufferSize, r⟩, ⟨.mutexLock .file, ()⟩]) =
      chunks hist ++ [r.data] := by
    have hreceived : received ⟨.recv (clients t).fd bufferSize, r⟩ = some r.data := if_pos hr
    rw [chunks, List.filterMap_append, List.filterMap_cons_some hreceived,
      List.filterMap_cons_none rfl, List.filterMap_nil]
    rfl
  have howners : s₄.owner = s.owner := by
    show Function.update (Function.update s.owner .file _) .file none = _
    rw [Function.update_idem, ← howner, Function.update_eq_self]
  refine ⟨_, s₄, l', .cons hrecv <| .cons (hlock _) <| .cons (hwrites _) <| .cons (hclose _) <|
    .cons (hunlock _) <| .nil _ _, ?_, rfl, h', hstream, rfl, rfl, howners⟩
  have hfile₁ : s₁.files fd.val = some ⟨file, .creatAppendRdwr⟩ := hfile
  simp [pieces, piece, Host.deviceWrite, hfile₁, hchunks]

/-- The host can answer all that a thread asks for up to the end of its first write. -/
theorem exists_alone_storing (h : s.Sound l) (hfd : fd.val ≠ -1) (hfree : s.files fd.val = none)
    (howner : s.owner .file = none) (hr : 0 < r.retval) (harrives : r.data <+: (clients t).stream)
    (hfits : l.pending.length + bufferSize ≤ allocationLimit) :
    ∃ τ s' l', Alone (server clients) t [] s τ s' ∧ pieces τ = [⟨t, 0, r.data⟩] ∧
      τ.map Act.event =
        storing (clients t).tinfo (clients t).fd fd r (firstLine isNewline r.data).length 0 ∧
      s'.Sound l' ∧ l'.stream = l.stream ++ firstLine isNewline r.data ∧ s'.files = s.files ∧
      s'.owner = s.owner := by
  obtain ⟨w₁, h₁, hopens⟩ := exists_open clients t h.stands hfd hfree .creatAppendRdwr
  -- `open` is granted
  let s₁ : Host := { s with
    world := w₁
    files := Function.update s.files fd.val (some ⟨s.nextFile, .creatAppendRdwr⟩)
    nextFile := s.nextFile + 1 }
  have hfile : s₁.files fd.val = some ⟨s.nextFile, .creatAppendRdwr⟩ := Function.update_self _ _ _
  have hload : (server clients).answers t [] (.loadClientFd (clients t).tinfo) s (clients t).fd s :=
    ⟨rfl, rfl⟩
  obtain ⟨τ, s', l', halone, hpieces, hevents, h', hstream, hfiles, hnext, howner'⟩ :=
    exists_alone_storingChunk clients t (s := s₁) (l := l.seekTo s.nextFile 0) fd r h₁
      [⟨.loadClientFd (clients t).tinfo, (clients t).fd⟩, ⟨.openFile .creatAppendRdwr, fd⟩]
      hfile howner hr harrives hfits
  -- the descriptor is closed again
  have hclosed : s'.files = s.files := by
    rw [hfiles]
    show Function.update (Function.update s.files fd.val _) fd.val none = _
    rw [Function.update_idem, ← hfree, Function.update_eq_self]
  refine ⟨_, s', l', .cons hload (.cons (hopens _) halone), ?_, ?_, ⟨h', ?_⟩, hstream, hclosed,
    howner'⟩
  · exact hpieces
  · rw [List.map_cons, List.map_cons, hevents]
    rfl
  · rw [hfiles, hnext]
    exact h.distinct.insert.erase

variable {p : Pool posix Host Unit}

/-- While nobody else moves, a thread can open the device, receive and store its first chunk. -/
theorem exists_store (h : p.shared.Sound l)
    (htask : p.task t = ⟨[], handleClient (clients t).tinfo (clients t).stack⟩) (hfd : fd.val ≠ -1)
    (hfree : p.shared.files fd.val = none) (howner : p.shared.owner .file = none)
    (hr : 0 < r.retval) (hlen : r.data.length < bufferSize) (hdata : ¬seekPrefix <+: r.data)
    (harrives : r.data <+: (clients t).stream)
    (hfits : l.pending.length + bufferSize ≤ allocationLimit) :
    ∃ τ q l', Steps (server clients) p τ q ∧ pieces τ = [⟨t, 0, r.data⟩] ∧ (∀ a ∈ τ, a.task = t) ∧
      τ.map Act.event =
        storing (clients t).tinfo (clients t).fd fd r (firstLine isNewline r.data).length 0 ∧
      q.shared.Sound l' ∧
      l'.stream = l.stream ++ firstLine isNewline r.data ∧ q.shared.files = p.shared.files ∧
      q.shared.owner = p.shared.owner ∧
      (q.task t).prog = (respond (clients t).fd ((clients t).stack.chunk r) r.data.length).bind
        (afterRound (clients t).tinfo (clients t).fd fd.val) ∧
      ∀ u, u ≠ t → q.task u = p.task u := by
  obtain ⟨τ, s', l', halone, hpieces, hevents, hsound, hstream, hfiles, howners⟩ :=
    exists_alone_storing clients t fd r h hfd hfree howner hr harrives hfits
  have hrun : Runs (handleClient (clients t).tinfo (clients t).stack) (storing (clients t).tinfo
      (clients t).fd fd r (firstLine isNewline r.data).length 0) _ :=
    runs_storing hfd hr hlen hdata (by omega)
  have hhist : (p.task t).hist = [] := by rw [htask]
  have hprog : (p.task t).prog = handleClient (clients t).tinfo (clients t).stack := by rw [htask]
  -- the answers of the host are those of a run of the text
  rw [← hhist] at halone
  rw [← hprog, ← hevents] at hrun
  obtain ⟨q, hq, hshared, hqt, hothers⟩ := halone.steps hrun
  refine ⟨τ, q, l', hq, hpieces, halone.task, hevents, ?_, hstream, by rw [hshared, hfiles],
    by rw [hshared, howners], by rw [hqt], hothers⟩
  rw [hshared]
  exact hsound

/-- A thread can open the device and wait for its first chunk. -/
theorem exists_opening (h : p.shared.Sound l)
    (htask : p.task t = ⟨[], handleClient (clients t).tinfo (clients t).stack⟩) (hfd : fd.val ≠ -1)
    (hfree : p.shared.files fd.val = none) :
    ∃ τ q l', Steps (server clients) p τ q ∧ pieces τ = [] ∧ q.shared.Sound l' ∧
      l'.stream = l.stream ∧ q.shared.files =
        Function.update p.shared.files fd.val (some ⟨p.shared.nextFile, .creatAppendRdwr⟩) ∧
      q.shared.owner = p.shared.owner ∧ ∀ u, u ≠ t → q.task u = p.task u := by
  obtain ⟨w, h', hopens⟩ := exists_open clients t h.stands hfd hfree .creatAppendRdwr
  have hload : (server clients).answers t (p.task t).hist (.loadClientFd (clients t).tinfo) p.shared
      (clients t).fd p.shared := by
    rw [htask]
    exact ⟨rfl, rfl⟩
  have halone := Alone.cons hload (.cons (hopens _) (.nil _ _))
  have hprog : (p.task t).prog = handleClient (clients t).tinfo (clients t).stack := by rw [htask]
  obtain ⟨q, hq, hshared, -, hothers⟩ := halone.steps (hprog ▸ runs_opening hfd)
  refine ⟨_, q, l.seekTo p.shared.nextFile 0, hq, rfl, ?_, rfl, by rw [hshared], by rw [hshared],
    hothers⟩
  rw [hshared]
  exact ⟨h', h.distinct.insert⟩

/-- A thread can store one more chunk if its descriptor is open, whoever has opened it. -/
theorem exists_next_store (h : p.shared.Sound l) {buffer : Buffer} {file : File}
    (htask : (p.task t).prog =
      afterRound (clients t).tinfo (clients t).fd fd.val (.inl buffer)) (hfd : fd.val ≠ -1)
    (hfile : p.shared.files fd.val = some ⟨file, .creatAppendRdwr⟩)
    (howner : p.shared.owner .file = none) (hr : 0 < r.retval) (hlen : r.data.length < bufferSize)
    (hdata : ¬seekPrefix <+: r.data)
    (harrives : (chunks (p.task t).hist).flatten ++ r.data <+: (clients t).stream)
    (hfits : l.pending.length + bufferSize ≤ allocationLimit) :
    ∃ τ q, Steps (server clients) p τ q ∧
      pieces τ = [⟨t, (chunks (p.task t).hist).flatten.length, r.data⟩] := by
  obtain ⟨τ, s', l', halone, hpieces, hevents, -⟩ := exists_alone_storingChunk clients t fd r
    h.stands (p.task t).hist hfile howner hr harrives hfits
  have hrun : Runs (afterRound (clients t).tinfo (clients t).fd fd.val (.inl buffer))
      (storingChunk (clients t).fd fd.val r (firstLine isNewline r.data).length 0)
      ((respond (clients t).fd (buffer.chunk r) r.data.length).bind
        (afterRound (clients t).tinfo (clients t).fd fd.val)) :=
    runs_storingChunk hfd hr hlen hdata (by omega)
  rw [← htask, ← hevents] at hrun
  obtain ⟨q, hq, -⟩ := halone.steps hrun
  exact ⟨τ, q, hq, hpieces⟩

/-- A thread can begin an answer: it opens the file, reads the oldest command and sends it. -/
theorem exists_answer (h : p.shared.Sound l) {buffer : Buffer} {k : ℕ}
    {rest : Buffer ⊕ Unit → Handler Unit}
    (htask : (p.task t).prog = (respond (clients t).fd buffer k).bind rest)
    (hk : buffer.bytes.getD (k - 1) 0 = newline) (hfd : fd.val ≠ -1)
    (hfree : p.shared.files fd.val = none) {c : List UInt8} {cs : List (List UInt8)}
    (hcommands : l.commands = c :: cs) (hroom : c.length ≤ bufferSize) :
    ∃ hist₁ hist₂ s₁ s₂ q l' f, Steps (server clients) p
        ([⟨t, (p.task t).hist, ⟨.openFile .rdonly, fd⟩, p.shared, s₁⟩] ++
          [⟨t, hist₁, ⟨.read fd.val bufferSize, .full c hroom⟩, s₁, s₂⟩,
            ⟨t, hist₂, ⟨.send (clients t).fd c, (c.length : ℤ)⟩, s₂, s₂⟩]) q ∧
      q.shared.Sound l' ∧ l'.stream = l.stream ∧ l'.fPos f.file = (c.length : ℤ) ∧
      q.shared.files = Function.update p.shared.files fd.val (some f) ∧
      q.shared.owner = p.shared.owner ∧
      (∃ buffer', (q.task t).prog = (answerOn (clients t).fd fd.val buffer').bind rest) ∧
      ∀ u, u ≠ t → q.task u = p.task u := by
  have hne : c ≠ [] := h.stands.represents.nonempty c
    (show c ∈ l.commands from hcommands ▸ List.mem_cons_self)
  have hpos : 0 < c.length := List.length_pos_iff.mpr hne
  obtain ⟨w₁, h₁, hopens⟩ := exists_open clients t h.stands hfd hfree .rdonly
  -- `open`, `read` and `send` are answered one after the other
  let s₁ : Host := { p.shared with
    world := w₁
    files := Function.update p.shared.files fd.val (some ⟨p.shared.nextFile, .rdonly⟩)
    nextFile := p.shared.nextFile + 1 }
  have hfile : s₁.files fd.val = some ⟨p.shared.nextFile, .rdonly⟩ := Function.update_self _ _ _
  have hread := Log.read_first (l := l.seekTo p.shared.nextFile 0) (q := (bufferSize, .calm t))
    ⟨show 0 < bufferSize by decide, rfl, rfl⟩ hcommands hne hroom (hroom.trans_lt (by decide))
    (Function.update_self _ _ _)
  obtain ⟨w₂, h₂, hreads⟩ := exists_read clients t (s := s₁) (r := .full c hroom) h₁ hfile
    (Int.natCast_nonneg _) hread
  let s₂ : Host := { s₁ with world := w₂ }
  have hsends : ∀ hist,
      (server clients).answers t hist (.send (clients t).fd c) s₂ (c.length : ℤ) s₂ :=
    fun _ => rfl
  have halone := Alone.cons (hopens (p.task t).hist) (.cons (hreads _) (.cons (hsends _) (.nil _ _)))
  have hrun := (runs_respond (clients t).fd (r := Transfer.full c hroom)
    (n := (c.length : ℤ)) hk hfd (show 0 < (c.length : ℤ) by omega) (by omega)).bind rest
  rw [← htask] at hrun
  obtain ⟨q, hq, hshared, hqt, hothers⟩ := halone.steps hrun
  refine ⟨_, _, s₁, s₂, q, (l.seekTo p.shared.nextFile 0).seekTo p.shared.nextFile c.length,
    ⟨p.shared.nextFile, .rdonly⟩, hq, ?_, rfl, Function.update_self _ _ _, by rw [hshared],
    by rw [hshared], ⟨_, by rw [hqt]⟩, hothers⟩
  rw [hshared]
  exact ⟨h₂, h.distinct.insert⟩

/-- A thread in the middle of an answer can read a command and send it. -/
theorem exists_echo (h : p.shared.Sound l) {buffer : Buffer} {f : OpenFile} {l' : Log}
    {rest : Buffer ⊕ Unit → Handler Unit}
    (htask : (p.task t).prog = (answerOn (clients t).fd fd.val buffer).bind rest)
    (hfile : p.shared.files fd.val = some f) {c : List UInt8} (hne : c ≠ [])
    (hroom : c.length ≤ bufferSize)
    (hread : l.read (.calm t) f.file bufferSize = some (⟨c.length, c⟩, l')) :
    ∃ hist s₁ q, Steps (server clients) p
        [⟨t, (p.task t).hist, ⟨.read fd.val bufferSize, .full c hroom⟩, p.shared, s₁⟩,
          ⟨t, hist, ⟨.send (clients t).fd c, (c.length : ℤ)⟩, s₁, s₁⟩] q ∧
      q.shared.Sound l' ∧ q.shared.files = p.shared.files ∧
      ∃ buffer', (q.task t).prog = (answerOn (clients t).fd fd.val buffer').bind rest := by
  have hpos : 0 < c.length := List.length_pos_iff.mpr hne
  obtain ⟨w, h', hreads⟩ := exists_read clients t (r := .full c hroom) h.stands hfile
    (Int.natCast_nonneg _) hread
  let s₁ : Host := { p.shared with world := w }
  have hsends : ∀ hist,
      (server clients).answers t hist (.send (clients t).fd c) s₁ (c.length : ℤ) s₁ :=
    fun _ => rfl
  have halone := Alone.cons (hreads (p.task t).hist) (.cons (hsends _) (.nil _ _))
  have hrun := (runs_echo (clients t).fd fd.val buffer (r := Transfer.full c hroom)
    (n := (c.length : ℤ)) (show 0 < (c.length : ℤ) by omega) (by omega)).bind rest
  rw [← htask] at hrun
  obtain ⟨q, hq, hshared, hqt, -⟩ := halone.steps hrun
  refine ⟨_, s₁, q, hq, ?_, by rw [hshared], _, by rw [hqt]⟩
  rw [hshared]
  exact ⟨h', h.distinct⟩

/-- A thread at the end of the contents can make its last read. -/
theorem exists_last_read (h : p.shared.Sound l) {buffer : Buffer} {f : OpenFile} {pos : ℕ}
    {rest : Buffer ⊕ Unit → Handler Unit}
    (htask : (p.task t).prog = (answerOn (clients t).fd fd.val buffer).bind rest)
    (hfile : p.shared.files fd.val = some f) (hpos : l.fPos f.file = pos) (hlt : pos < 2 ^ 63)
    (hend : l.contents.length ≤ pos) :
    ∃ s' q, Steps (server clients) p
      [⟨t, (p.task t).hist, ⟨.read fd.val bufferSize, .empty bufferSize⟩, p.shared, s'⟩] q := by
  have hcontents := h.stands.length_contents_lt
  obtain ⟨bytes, hread, -, -, hnil⟩ := Log.read_served (l := l) (q := (bufferSize, .calm t))
    ⟨show 0 < bufferSize by decide, rfl, rfl⟩ hpos hlt (by omega)
  obtain rfl := hnil.mpr hend
  obtain ⟨w', -, hreads⟩ := exists_read clients t (r := .empty bufferSize) h.stands hfile le_rfl hread
  have halone := Alone.cons (hreads (p.task t).hist) (.nil _ _)
  have hrun := (runs_answerOn (clients t).fd fd.val buffer (r := .empty bufferSize) le_rfl).bind rest
  rw [← htask] at hrun
  obtain ⟨q, hq, -⟩ := halone.steps hrun
  exact ⟨_, q, hq⟩

end Store

end Aesd.Server

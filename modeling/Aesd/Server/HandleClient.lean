import Aesd.Effects.Typestate
import Aesd.Server.Posix

/-! # The thread of a connection (`handle_client`)

The thread function of the server as the text of the source over the system calls: the same calls
in the same order, with the same tests, messages and exits. The loops of the source are loops of the
text, and what a round carries to the next one is the receive buffer; `file_fd` is never assigned
after it has been set. -/

namespace Aesd.Server

open Effects CLib CharDriver

/-- `"AESDCHAR_IOCSEEKTO:"`. -/
def seekPrefix : List UInt8 :=
  ['A', 'E', 'S', 'D', 'C', 'H', 'A', 'R', '_', 'I', 'O', 'C', 'S', 'E', 'E', 'K', 'T', 'O', ':'].map
    fun c => UInt8.ofNat c.toNat

/-- `thread_cleanup`. -/
def threadCleanup (tinfo : ThreadInfo) : Handler Unit := do
  if (← loadClientFd tinfo) ≠ -1 then
    close (← loadClientFd tinfo)
  mutexLock .list
  listRemove tinfo
  mutexUnlock .list
  free tinfo

/-- One round of the loop that answers a seek: read from the device and send what was read. -/
def sendRest (tinfo : ThreadInfo) (fileFd : ℤ) : Handler (Unit ⊕ Unit) := do
  let n ← read fileFd bufferSize
  if n.retval > 0 then
    -- the answer of `send` is not looked at
    let _ ← send (← loadClientFd tinfo) n.data
    return .inl ()
  else
    return .inr ()

/-- What follows a well-formed seek command. -/
def performSeek (tinfo : ThreadInfo) (fileFd : ℤ) (seekto : AesdSeekto) : Handler Unit := do
  if fileFd < 0 then
    syslog "Failed to open file for ioctl: %s"
  else
    -- the file is read and closed also after a seek that fails
    if (← ioctl fileFd aesdcharIocseekto seekto) < 0 then
      syslog "Failed to perform ioctl: %s"
    Prog.iterate (fun () => sendRest tinfo fileFd) ()
    close fileFd

/-- What follows a successful prefix test. -/
def seekCommand (tinfo : ThreadInfo) (fileFd : ℤ) (buffer : Buffer) : Handler Unit := do
  match scanPair (← buffer.loadString 19) with
  | some (writeCmd, writeCmdOffset) => performSeek tinfo fileFd ⟨writeCmd, writeCmdOffset⟩
  | none => syslog "Invalid ioctl command format from client"

/-- One round of the loop that answers data: read the file into the buffer and send it. -/
def echo (clientFd fileFdRead : ℤ) (buffer : Buffer) : Handler (Buffer ⊕ Buffer) := do
  let readBytes ← read fileFdRead bufferSize
  let buffer := buffer.fill readBytes
  if readBytes.retval > 0 then
    -- the file goes through the buffer that held the received data
    if (← send clientFd (buffer.bytes.take readBytes.retval.toNat)) = -1 then
      syslog "Failed to send data to client"
      return .inr buffer
    else
      return .inl buffer
  else
    return .inr buffer

/-- If the received data ends with a newline, send the file content to the client. -/
def respond (clientFd : ℤ) (buffer : Buffer) (bytesReceived : ℕ) : Handler (Buffer ⊕ Unit) := do
  if buffer.bytes.getD (bytesReceived - 1) 0 = newline then
    let fileFdRead ← openFile .rdonly
    if fileFdRead = -1 then
      syslog "Failed to open file for reading"
      return .inr ()
    else
    let buffer ← Prog.iterate (echo clientFd fileFdRead) buffer
    close fileFdRead
    return .inl buffer
  else
    return .inl buffer

/-- What follows a failed prefix test: write the data to the file. -/
def storeData (clientFd fileFd : ℤ) (buffer : Buffer) (bytesReceived : ℕ) :
    Handler (Buffer ⊕ Unit) := do
  mutexLock .file
  if fileFd = -1 then
    syslog "Failed to open file"
    mutexUnlock .file
    return .inr ()
  else
  if (← write fileFd (buffer.bytes.take bytesReceived)) = -1 then
    syslog "Failed to write to file"
    close fileFd
    mutexUnlock .file
    return .inr ()
  else
  -- `file_fd` is not opened again, so the next round works on a closed descriptor
  close fileFd
  mutexUnlock .file
  respond clientFd buffer bytesReceived

/-- One round of `while (1)`. -/
def serve (tinfo : ThreadInfo) (clientFd fileFd : ℤ) (buffer : Buffer) :
    Handler (Buffer ⊕ Unit) := do
  let received ← recv clientFd bufferSize
  if received.retval ≤ 0 then
    return .inr ()
  else
  -- `BUFFER_SIZE` bytes leave no room for the terminator
  let buffer ← (buffer.fill received).storeNul received.retval.toNat
  if strncmp buffer.bytes (seekPrefix ++ [0]) 19 = 0 then
    -- `continue`: a chunk that begins like a seek command is never written, well formed or not
    seekCommand tinfo fileFd buffer
    return .inl buffer
  else
  storeData clientFd fileFd buffer received.retval.toNat

/-- `handle_client` up to the end of its loop; `stack` is what the buffer holds before it is set. -/
def handleConnection (tinfo : ThreadInfo) (stack : Buffer) : Handler Unit := do
  let clientFd ← loadClientFd tinfo
  let fileFd ← openFile .creatAppendRdwr
  if fileFd = -1 then
    syslog "Failed to open device file %s: %s"
  Prog.iterate (serve tinfo clientFd fileFd) stack

/-- `handle_client`. -/
def handleClient (tinfo : ThreadInfo) (stack : Buffer) : Handler Unit := do
  handleConnection tinfo stack
  threadCleanup tinfo

/-! ### The operations of the parts -/

/-- Operations that receive nothing, write nothing, and neither open the file nor seek. -/
def PosixOp.isPlain : PosixOp → Bool
  | .recv _ _ | .write _ _ | .openFile _ | .ioctl _ _ _ => false
  | _ => true

/-- Reading, sending, closing and logging. -/
def PosixOp.isIo : PosixOp → Bool
  | .read _ _ | .send _ _ | .close _ | .syslog _ => true
  | _ => false

/-- A seek. -/
def PosixOp.isIoctl : PosixOp → Bool
  | .ioctl _ _ _ => true
  | _ => false

section Parts

variable {tinfo : ThreadInfo} {clientFd fileFd : ℤ} {buffer : Buffer} {k : ℕ}

/-- The answer to data. -/
theorem uses_respond_of {P : PosixOp → Prop} (hopen : P (.openFile .rdonly))
    (hio : ∀ o : PosixOp, o.isIo = true → P o) : Uses (E := posix) P (respond clientFd buffer k) := by
  simp only [respond, openFile, syslog, close, Prog.bind_eq, Prog.call_bind, Prog.pure_bind,
    Prog.pure_eq]
  refine Uses.ite ⟨hopen, fun fd => Uses.ite ⟨hio _ rfl, fun _ => trivial⟩ ?_⟩ trivial
  refine ⟨fun buffer => ?_, fun buffer => ⟨hio _ rfl, fun _ => trivial⟩⟩
  simp only [echo, read, send, syslog, Prog.bind_eq, Prog.call_bind, Prog.pure_bind, Prog.pure_eq]
  refine ⟨hio _ rfl, fun r => Uses.ite ⟨hio _ rfl, fun n => ?_⟩ trivial⟩
  exact Uses.ite ⟨hio _ rfl, fun _ => trivial⟩ trivial

/-- The answer to a seek command. -/
theorem uses_performSeek_of {P : PosixOp → Prop} {seekto : AesdSeekto}
    (hioctl : ∀ fd request arg, P (.ioctl fd request arg)) (hload : P (.loadClientFd tinfo))
    (hio : ∀ o : PosixOp, o.isIo = true → P o) :
    Uses (E := posix) P (performSeek tinfo fileFd seekto) := by
  have hloop : Uses (E := posix) P
      ((Prog.iterate (fun () => sendRest tinfo fileFd) ()).bind fun _ => close fileFd) := by
    refine ⟨fun _ => ?_, fun _ => ⟨hio _ rfl, fun _ => trivial⟩⟩
    simp only [sendRest, read, loadClientFd, send, Prog.bind_eq, Prog.call_bind, Prog.pure_bind,
      Prog.pure_eq]
    refine ⟨hio _ rfl, fun r => Uses.ite ⟨hload, fun _ => ?_⟩ trivial⟩
    exact ⟨hio _ rfl, fun _ => trivial⟩
  simp only [performSeek, ioctl, syslog, Prog.bind_eq, Prog.call_bind, Prog.pure_bind]
  refine Uses.ite ⟨hio _ rfl, fun _ => trivial⟩ ⟨hioctl _ _ _, fun n => ?_⟩
  exact Uses.ite ⟨hio _ rfl, fun _ => hloop⟩ hloop

theorem PosixOp.isPlain_of_isIo {o : PosixOp} (h : o.isIo = true) : o.isPlain = true := by
  cases o <;> first | rfl | cases h

/-- A seek command. -/
theorem uses_seekCommand_of {P : PosixOp → Prop} (hover : P (.overrun bufferSize))
    (hlog : P (.syslog "Invalid ioctl command format from client"))
    (hseek : ∀ seekto, Uses (E := posix) P (performSeek tinfo fileFd seekto)) :
    Uses (E := posix) P (seekCommand tinfo fileFd buffer) := by
  have hscan : ∀ s, Uses (E := posix) P (match scanPair s with
      | some (writeCmd, writeCmdOffset) => performSeek tinfo fileFd ⟨writeCmd, writeCmdOffset⟩
      | none => syslog "Invalid ioctl command format from client") := by
    intro s
    cases scanPair s with
    | none => exact ⟨hlog, fun _ => trivial⟩
    | some q => exact hseek _
  simp only [seekCommand, Buffer.loadString, overrun, Prog.bind_eq, Prog.pure_eq]
  by_cases hnul : 0 ∉ buffer.bytes.drop 19
  · rw [if_pos hnul]
    exact ⟨hover, fun _ => hscan _⟩
  · rw [if_neg hnul]
    exact hscan _

/-- The answer to data opens the file for reading. -/
theorem uses_respond :
    Uses (E := posix) (fun o => o.isPlain = true ∨ o = .openFile .rdonly)
      (respond clientFd buffer k) :=
  uses_respond_of (.inr rfl) fun _ ho => .inl (PosixOp.isPlain_of_isIo ho)

/-- The answer to a seek command asks for the seek. -/
theorem uses_performSeek {seekto : AesdSeekto} :
    Uses (E := posix) (fun o => o.isPlain = true ∨ o.isIoctl = true)
      (performSeek tinfo fileFd seekto) :=
  uses_performSeek_of (fun _ _ _ => .inr rfl) (.inl rfl) fun _ ho => .inl (PosixOp.isPlain_of_isIo ho)

/-- The end of the thread. -/
theorem uses_threadCleanup : Uses (E := posix) (fun o => o.isPlain = true) (threadCleanup tinfo) := by
  have hrest : Uses (E := posix) (fun o => o.isPlain = true) (do
      mutexLock .list
      listRemove tinfo
      mutexUnlock .list
      free tinfo) :=
    ⟨rfl, fun _ => ⟨rfl, fun _ => ⟨rfl, fun _ => ⟨rfl, fun _ => trivial⟩⟩⟩⟩
  simp only [threadCleanup, loadClientFd, close, Prog.bind_eq, Prog.call_bind, Prog.pure_bind]
  exact ⟨rfl, fun _ => Uses.ite ⟨rfl, fun _ => ⟨rfl, fun _ => hrest⟩⟩ hrest⟩

end Parts

/-! ### What a round makes of a chunk -/

/-- What the server asks of the device for a chunk. -/
inductive Request where
  /-- Write the bytes. -/
  | data (bytes : List UInt8)
  /-- Seek to an offset in a command. -/
  | seek (writeCmd writeCmdOffset : UInt32)
  deriving DecidableEq, Repr

/-- The request of a chunk; `none` for a malformed seek. -/
def request (chunk : List UInt8) : Option Request :=
  if seekPrefix <+: chunk then
    (scanPair (cString (chunk.drop 19))).map fun q => .seek q.1 q.2
  else some (.data chunk)

/-- The chunk that an event receives. -/
def received : Event posix → Option (List UInt8)
  | ⟨.recv _ _, r⟩ => if 0 < r.retval then some r.data else none
  | _ => none

/-- The chunks received in the course of a trace. -/
def chunks (t : List (Event posix)) : List (List UInt8) := t.filterMap received

theorem chunks_cons (e : Event posix) (t : List (Event posix)) :
    chunks (e :: t) = (received e).toList ++ chunks t := by
  rw [chunks, chunks, List.filterMap_cons]
  cases received e <;> rfl

/-- No chunk is empty. -/
theorem ne_nil_of_mem_chunks {t : List (Event posix)} {c : List UInt8} (hc : c ∈ chunks t) :
    c ≠ [] := by
  obtain ⟨⟨o, r⟩, -, he⟩ := List.mem_filterMap.mp hc
  cases o with
  | recv fd n =>
      by_cases hr : 0 < r.retval
      · rw [received, if_pos hr, Option.some.injEq] at he
        exact he ▸ Transfer.data_ne_nil hr
      · rw [received, if_neg hr] at he
        cases he
  | _ => cases he

section Round

variable {Γ : Type} {M : Monitor posix Γ} {g : Γ} {tinfo : ThreadInfo} {clientFd fileFd : ℤ}
  {buffer : Buffer} {r : Transfer bufferSize}

theorem zero_notMem_seekPrefix : 0 ∉ seekPrefix := by decide

theorem length_seekPrefix : seekPrefix.length = 19 := rfl

/-- The prefix test sees the chunk only. -/
theorem strncmp_chunk : strncmp (buffer.chunk r).bytes (seekPrefix ++ [0]) 19 = 0 ↔
    seekPrefix <+: r.data := by
  rw [← Buffer.prefix_chunk_iff (b := buffer) zero_notMem_seekPrefix]
  refine strncmp_eq_zero_iff zero_notMem_seekPrefix ?_
  rw [length_seekPrefix, (buffer.chunk r).length_eq, bufferSize]
  omega

/-- The numbers scanned are those of the chunk. -/
theorem cString_drop_chunk (h : seekPrefix <+: r.data) :
    cString ((buffer.chunk r).bytes.drop 19) = cString (r.data.drop 19) :=
  Buffer.cString_chunk h.length_le

theorem request_eq_data_iff {chunk : List UInt8} :
    request chunk = some (.data chunk) ↔ ¬seekPrefix <+: chunk := by
  by_cases h : seekPrefix <+: chunk
  · rw [request, if_pos h]
    cases scanPair (cString (chunk.drop 19)) <;> simp [h]
  · rw [request, if_neg h]
    simp [h]

/-- The seek branch with a chunk in the buffer. -/
theorem follows_seekCommand {Q : Unit → Γ → Prop} (hover : ∀ i, M.Ignores (.overrun i))
    (hstart : seekPrefix <+: r.data)
    (hseek : ∀ x y, request r.data = some (.seek x y) →
      Follows M g (performSeek tinfo fileFd ⟨x, y⟩) Q)
    (hbad : request r.data = none →
      Follows M g (syslog "Invalid ioctl command format from client") Q) :
    Follows M g (seekCommand tinfo fileFd (buffer.chunk r)) Q := by
  have hscan : Follows M g (match scanPair (cString ((buffer.chunk r).bytes.drop 19)) with
      | some (writeCmd, writeCmdOffset) => performSeek tinfo fileFd ⟨writeCmd, writeCmdOffset⟩
      | none => syslog "Invalid ioctl command format from client") Q := by
    rw [request, if_pos hstart] at hseek hbad
    rw [cString_drop_chunk hstart]
    cases hpair : scanPair (cString (r.data.drop 19)) with
    | none => exact hbad (by rw [hpair]; rfl)
    | some q => exact hseek q.1 q.2 (by rw [hpair]; rfl)
  simp only [seekCommand, Buffer.loadString, overrun, Prog.bind_eq, Prog.pure_eq]
  by_cases hnul : 0 ∉ (buffer.chunk r).bytes.drop 19
  · rw [if_pos hnul]
    exact Follows.skip (hover _) fun _ _ => hscan
  · rw [if_neg hnul]
    exact hscan

/-- The two branches of a round with a chunk in the buffer. -/
def afterChunk (tinfo : ThreadInfo) (clientFd fileFd : ℤ) (buffer : Buffer)
    (r : Transfer bufferSize) : Handler (Buffer ⊕ Unit) :=
  if seekPrefix <+: r.data then
    (seekCommand tinfo fileFd (buffer.chunk r)).bind fun _ => .pure (.inl (buffer.chunk r))
  else storeData clientFd fileFd (buffer.chunk r) r.data.length

/-- A round receives; it leaves on a result that is not positive, else it goes into one of the two
branches. The terminator of a chunk that fills the buffer is stored behind it. -/
theorem serve_eq : serve tinfo clientFd fileFd buffer =
    .call (.recv clientFd bufferSize) fun r =>
      if r.retval ≤ 0 then .pure (.inr ())
      else if bufferSize ≤ r.data.length then
        .call (.overrun r.data.length) fun _ => afterChunk tinfo clientFd fileFd buffer r
      else afterChunk tinfo clientFd fileFd buffer r := by
  simp only [serve, recv, Buffer.storeNul, overrun, Prog.bind_eq, Prog.call_bind, Prog.pure_bind,
    Prog.pure_eq]
  congr 1
  funext r
  by_cases hr : r.retval ≤ 0
  · rw [if_pos hr, if_pos hr]
  have hlen : r.retval.toNat = r.data.length := by
    rw [Transfer.retval_of_pos (by omega : 0 < r.retval)]
    rfl
  have hbranch : (if strncmp (buffer.chunk r).bytes (seekPrefix ++ [0]) 19 = 0 then
      (seekCommand tinfo fileFd (buffer.chunk r)).bind fun _ => .pure (.inl (buffer.chunk r))
    else storeData clientFd fileFd (buffer.chunk r) r.data.length) =
      afterChunk tinfo clientFd fileFd buffer r := if_congr strncmp_chunk rfl rfl
  rw [if_neg hr, if_neg hr, hlen]
  by_cases hfull : bufferSize ≤ r.data.length
  · rw [if_pos hfull, if_pos hfull, Prog.call_bind, ← hbranch]
    rfl
  · rw [if_neg hfull, if_neg hfull, Prog.pure_bind, ← hbranch]
    rfl

/-- **The round rule**, for a monitor that ignores accesses outside the buffer. -/
theorem follows_serve {Q : Buffer ⊕ Unit → Γ → Prop} (hover : ∀ i, M.Ignores (.overrun i))
    (hrecv : ∀ r : Transfer bufferSize, M.expects g ⟨.recv clientFd bufferSize, r⟩ →
      ∃ g', M.step g ⟨.recv clientFd bufferSize, r⟩ = some g' ∧
        (r.retval ≤ 0 → Q (.inr ()) g') ∧
        (0 < r.retval → seekPrefix <+: r.data →
          Follows M g' (seekCommand tinfo fileFd (buffer.chunk r))
            fun _ => Q (.inl (buffer.chunk r))) ∧
        (0 < r.retval → ¬seekPrefix <+: r.data →
          Follows M g' (storeData clientFd fileFd (buffer.chunk r) r.data.length) Q)) :
    Follows M g (serve tinfo clientFd fileFd buffer) Q := by
  rw [serve_eq]
  intro r hexp
  obtain ⟨g', hg', hstop, hseek, hdata⟩ := hrecv r hexp
  refine ⟨g', hg', ?_⟩
  beta_reduce
  by_cases hr : r.retval ≤ 0
  · rw [if_pos hr]
    exact hstop hr
  have hpos : 0 < r.retval := by omega
  -- after the terminator has been stored, inside the array or outside
  have hchunk : Follows M g' (afterChunk tinfo clientFd fileFd buffer r) Q := by
    rw [afterChunk]
    by_cases hstart : seekPrefix <+: r.data
    · rw [if_pos hstart]
      exact (hseek hpos hstart).bind fun _ _ h => h
    · rw [if_neg hstart]
      exact hdata hpos hstart
  rw [if_neg hr]
  by_cases hfull : bufferSize ≤ r.data.length
  · rw [if_pos hfull]
    exact Follows.skip (hover _) fun _ _ => hchunk
  · rw [if_neg hfull]
    exact hchunk

end Round

/-! ### No loop spins -/

section Productive

variable {tinfo : ThreadInfo} {clientFd fileFd : ℤ} {buffer : Buffer} {k : ℕ}

theorem productive_respond : Productive (E := posix) (respond clientFd buffer k) := by
  simp only [respond, openFile, syslog, close, Prog.bind_eq, Prog.call_bind, Prog.pure_bind,
    Prog.pure_eq]
  refine Productive.ite (fun fd => Productive.ite (fun _ => trivial) ?_) trivial
  refine ⟨fun buffer => ⟨trivial, ?_⟩, fun buffer _ => trivial⟩
  simp only [echo, read, send, syslog, Prog.bind_eq, Prog.call_bind, Prog.pure_bind, Prog.pure_eq]
  exact fun r => Productive.ite (fun n => Productive.ite (fun _ => trivial) trivial) trivial

theorem productive_performSeek {seekto : AesdSeekto} :
    Productive (E := posix) (performSeek tinfo fileFd seekto) := by
  have hloop : Productive (E := posix)
      ((Prog.iterate (fun () => sendRest tinfo fileFd) ()).bind fun _ => close fileFd) := by
    refine ⟨fun _ => ⟨trivial, ?_⟩, fun _ _ => trivial⟩
    simp only [sendRest, read, loadClientFd, send, Prog.bind_eq, Prog.call_bind, Prog.pure_bind,
      Prog.pure_eq]
    exact fun r => Productive.ite (fun _ _ => trivial) trivial
  simp only [performSeek, ioctl, syslog, Prog.bind_eq, Prog.call_bind, Prog.pure_bind]
  exact Productive.ite (fun _ => trivial) fun n => Productive.ite (fun _ => hloop) hloop

theorem productive_seekCommand : Productive (E := posix) (seekCommand tinfo fileFd buffer) := by
  have hscan : ∀ s, Productive (E := posix) (match scanPair s with
      | some (writeCmd, writeCmdOffset) => performSeek tinfo fileFd ⟨writeCmd, writeCmdOffset⟩
      | none => syslog "Invalid ioctl command format from client") := by
    intro s
    cases scanPair s with
    | none => exact fun _ => trivial
    | some q => exact productive_performSeek
  simp only [seekCommand, Buffer.loadString, overrun, Prog.bind_eq, Prog.pure_eq]
  by_cases hnul : 0 ∉ buffer.bytes.drop 19
  · rw [if_pos hnul]
    exact fun _ => hscan _
  · rw [if_neg hnul]
    exact hscan _

theorem productive_storeData : Productive (E := posix) (storeData clientFd fileFd buffer k) := by
  simp only [storeData, mutexLock, mutexUnlock, write, syslog, close, Prog.bind_eq, Prog.call_bind,
    Prog.pure_bind, Prog.pure_eq]
  refine fun _ => Productive.ite (fun _ _ => trivial) fun n => ?_
  exact Productive.ite (fun _ _ _ => trivial) fun _ _ => productive_respond

theorem productive_serve : Productive (E := posix) (serve tinfo clientFd fileFd buffer) := by
  have hchunk : ∀ r, Productive (E := posix) (afterChunk tinfo clientFd fileFd buffer r) := fun r =>
    Productive.ite (productive_seekCommand.bind fun _ => trivial) productive_storeData
  rw [serve_eq]
  exact fun r => Productive.ite trivial (Productive.ite (fun _ => hchunk r) (hchunk r))

theorem productive_threadCleanup : Productive (E := posix) (threadCleanup tinfo) := by
  simp only [threadCleanup, loadClientFd, close, Prog.bind_eq, Prog.call_bind, Prog.pure_bind]
  exact fun _ => Productive.ite (fun _ _ _ _ _ _ => trivial) fun _ _ _ _ => trivial

end Productive

/-! ### How a connection begins -/

section Opened

variable {n : ThreadInfo} {fd : ℤ} {f : Descriptor} {stack : Buffer}

/-- A descriptor of the device. -/
def deviceFd : Descriptor := ⟨5, by decide⟩

/-- What is issued before the first chunk is received. -/
def opened (n : ThreadInfo) (fd : ℤ) (f : Descriptor) : List (Event posix) :=
  [⟨.loadClientFd n, fd⟩, ⟨.openFile .creatAppendRdwr, f⟩]

theorem runs_opened (hf : f.val ≠ -1) : Runs (handleConnection n stack) (opened n fd f)
    (.loop (serve n fd f) stack .pure) := by
  refine .call _ (.call _ ?_)
  rw [Prog.pure_bind, if_neg hf]
  exact .refl _

/-- A connection can begin with any run of a round. -/
theorem runs_handleClient_of_serve {events : List (Event posix)} {c : Handler (Buffer ⊕ Unit)}
    (hf : f.val ≠ -1) (h : Runs (serve n fd f stack) events c) :
    ∃ b, Runs (handleClient n stack) (opened n fd f ++ events) b :=
  ⟨_, ((runs_opened hf).trans (.loop (h.bind _))).bind _⟩

end Opened

end Aesd.Server

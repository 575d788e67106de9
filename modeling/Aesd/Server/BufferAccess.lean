import Aesd.Server.HandleClient
import Mathlib.Data.List.GetD

/-! # Every access to the buffer

`handle_client` once more, now with each byte of `buffer` read on its own by an access that is
recorded if its index lies outside the array: in the prefix comparison, in the scan of the numbers,
in the bytes passed to `write` and `send`, and in the test of the last byte. All these accesses but
the terminator store and the scan turn out to lie inside the array, so the text is the one without
them (`Checked.handleClient_eq`). -/

namespace Aesd.Server

open Effects CLib CharDriver

/-! ### Accesses -/

namespace Buffer

variable (b : Buffer)

/-- `buffer[i]`. -/
def load (i : ℕ) : Handler UInt8 := do
  if bufferSize ≤ i then
    overrun i
  return b.bytes.getD i 0

/-- `strncmp(buffer + i, s, n)`, byte by byte. -/
def compare : (i : ℕ) → (s : List UInt8) → (n : ℕ) → Handler ℤ
  | i, c :: s, n + 1 => do
      let a ← b.load i
      if a ≠ c then
        return a.toNat - c.toNat
      else if a = 0 then
        return 0
      else
        compare (i + 1) s n
  | _, _, _ => return 0

/-- The string at `buffer + i`, byte by byte, where `n` bytes are left in the array. -/
def scanString : (n i : ℕ) → Handler (List UInt8)
  | 0, i => do
      let _ ← b.load i
      return []
  | n + 1, i => do
      let a ← b.load i
      if a = 0 then
        return []
      else
        let s ← scanString n (i + 1)
        return a :: s

/-- The first `n` bytes, which a call is passed. -/
def loadBytes : (n : ℕ) → Handler (List UInt8)
  | 0 => return []
  | n + 1 => do
      let bytes ← loadBytes n
      let a ← b.load n
      return bytes ++ [a]

end Buffer

section Accesses

variable {b : Buffer} {i n : ℕ}

/-- An access inside the array. -/
theorem load_of_lt (h : i < bufferSize) : b.load i = .pure (b.bytes.getD i 0) := by
  rw [Buffer.load, if_neg (not_le.mpr h)]
  rfl

theorem loadBytes_of_le (h : n ≤ bufferSize) : b.loadBytes n = .pure (b.bytes.take n) := by
  induction n with
  | zero => rfl
  | succ n ih =>
      have hlt : n < b.bytes.length := by
        rw [b.length_eq]
        exact h
      rw [Buffer.loadBytes, Prog.bind_eq, ih (Nat.le_of_succ_le h), Prog.pure_bind, Prog.bind_eq,
        load_of_lt h, Prog.pure_bind, List.take_succ_eq_append_getElem hlt,
        List.getD_eq_getElem _ _ hlt]
      rfl

/-- The bytes that a transfer has stored. -/
theorem loadBytes_transfer (r : Transfer bufferSize) :
    b.loadBytes r.retval.toNat = .pure (b.bytes.take r.retval.toNat) := by
  apply loadBytes_of_le
  have hle := r.length_le
  rcases r.retval_eq with h | ⟨h, -⟩
  · omega
  · rw [h]
    exact Nat.zero_le _

/-- The comparison stays inside the array if its length does. -/
theorem compare_of_le {s : List UInt8} (h : i + n ≤ bufferSize) :
    b.compare i s n = .pure (strncmp (b.bytes.drop i) s n) := by
  induction n generalizing i s with
  | zero =>
      rw [Buffer.compare.eq_2 _ _ _ _ (by simp), strncmp.eq_2 _ _ _ (by simp)]
      rfl
  | succ n ih =>
      cases s with
      | nil =>
          rw [Buffer.compare.eq_2 _ _ _ _ (by simp), strncmp.eq_2 _ _ _ (by simp)]
          rfl
      | cons c s =>
          have hlt : i < b.bytes.length := by
            rw [b.length_eq]
            omega
          rw [Buffer.compare, Prog.bind_eq, load_of_lt (by omega), Prog.pure_bind,
            List.getD_eq_getElem _ _ hlt, List.drop_eq_getElem_cons hlt, strncmp,
            ih (by omega : i + 1 + n ≤ bufferSize)]
          split_ifs <;> rfl

/-- The scan leaves the array if there is no terminator in the rest of it. -/
theorem scanString_eq (h : i + n = bufferSize) : b.scanString n i = b.loadString i := by
  induction n generalizing i with
  | zero =>
      obtain rfl : i = bufferSize := h
      have hnil : b.bytes.drop bufferSize = [] := List.drop_eq_nil_of_le b.length_eq.le
      rw [Buffer.scanString, Buffer.load, Buffer.loadString, hnil, if_pos le_rfl,
        if_pos List.not_mem_nil]
      rfl
  | succ n ih =>
      have hlt : i < b.bytes.length := by
        rw [b.length_eq]
        omega
      have hdrop := List.drop_eq_getElem_cons hlt
      rw [Buffer.scanString, Prog.bind_eq, load_of_lt (by omega), Prog.pure_bind,
        List.getD_eq_getElem _ _ hlt, ih (by omega), Buffer.loadString, Buffer.loadString, hdrop]
      by_cases ha : b.bytes[i] = 0
      · rw [if_pos ha, if_neg (by simp [ha]), ha]
        rfl
      · -- the byte belongs to the string, and the terminator is searched for behind it
        have hmem : 0 ∉ b.bytes[i] :: b.bytes.drop (i + 1) ↔ 0 ∉ b.bytes.drop (i + 1) := by
          rw [List.mem_cons, not_or, and_iff_right (Ne.symm ha)]
        have hstring : cString (b.bytes[i] :: b.bytes.drop (i + 1)) =
            b.bytes[i] :: cString (b.bytes.drop (i + 1)) :=
          List.takeWhile_cons_of_pos (by simpa using ha)
        rw [if_neg ha, if_congr hmem rfl rfl, hstring]
        split_ifs <;> rfl

end Accesses

/-! ### The text -/

/-- One round of the loop that answers data. -/
def Checked.echo (clientFd fileFdRead : ℤ) (buffer : Buffer) : Handler (Buffer ⊕ Buffer) := do
  let readBytes ← read fileFdRead bufferSize
  let buffer := buffer.fill readBytes
  if readBytes.retval > 0 then
    let bytes ← buffer.loadBytes readBytes.retval.toNat
    if (← send clientFd bytes) = -1 then
      syslog "Failed to send data to client"
      return .inr buffer
    else
      return .inl buffer
  else
    return .inr buffer

/-- If the received data ends with a newline, send the file content to the client. -/
def Checked.respond (clientFd : ℤ) (buffer : Buffer) (bytesReceived : ℕ) :
    Handler (Buffer ⊕ Unit) := do
  let last ← buffer.load (bytesReceived - 1)
  if last = newline then
    let fileFdRead ← openFile .rdonly
    if fileFdRead = -1 then
      syslog "Failed to open file for reading"
      return .inr ()
    else
    let buffer ← Prog.iterate (Checked.echo clientFd fileFdRead) buffer
    close fileFdRead
    return .inl buffer
  else
    return .inl buffer

/-- What follows a failed prefix test. -/
def Checked.storeData (clientFd fileFd : ℤ) (buffer : Buffer) (bytesReceived : ℕ) :
    Handler (Buffer ⊕ Unit) := do
  mutexLock .file
  if fileFd = -1 then
    syslog "Failed to open file"
    mutexUnlock .file
    return .inr ()
  else
  let bytes ← buffer.loadBytes bytesReceived
  if (← write fileFd bytes) = -1 then
    syslog "Failed to write to file"
    close fileFd
    mutexUnlock .file
    return .inr ()
  else
  close fileFd
  mutexUnlock .file
  Checked.respond clientFd buffer bytesReceived

/-- What follows a successful prefix test. -/
def Checked.seekCommand (tinfo : ThreadInfo) (fileFd : ℤ) (buffer : Buffer) : Handler Unit := do
  match scanPair (← buffer.scanString (bufferSize - 19) 19) with
  | some (writeCmd, writeCmdOffset) => performSeek tinfo fileFd ⟨writeCmd, writeCmdOffset⟩
  | none => syslog "Invalid ioctl command format from client"

/-- One round of `while (1)`. -/
def Checked.serve (tinfo : ThreadInfo) (clientFd fileFd : ℤ) (buffer : Buffer) :
    Handler (Buffer ⊕ Unit) := do
  let received ← recv clientFd bufferSize
  if received.retval ≤ 0 then
    return .inr ()
  else
  let buffer ← (buffer.fill received).storeNul received.retval.toNat
  if (← buffer.compare 0 (seekPrefix ++ [0]) 19) = 0 then
    Checked.seekCommand tinfo fileFd buffer
    return .inl buffer
  else
  Checked.storeData clientFd fileFd buffer received.retval.toNat

/-- `handle_client`. -/
def Checked.handleClient (tinfo : ThreadInfo) (stack : Buffer) : Handler Unit := do
  let clientFd ← loadClientFd tinfo
  let fileFd ← openFile .creatAppendRdwr
  if fileFd = -1 then
    syslog "Failed to open device file %s: %s"
  Prog.iterate (Checked.serve tinfo clientFd fileFd) stack
  threadCleanup tinfo

section Texts

variable {tinfo : ThreadInfo} {clientFd fileFd : ℤ} {buffer : Buffer} {k : ℕ}

namespace Checked

theorem echo_eq : Checked.echo clientFd fileFd = Server.echo clientFd fileFd := by
  funext buffer
  simp only [Checked.echo, Server.echo, loadBytes_transfer, Prog.bind_eq, Prog.pure_bind]

theorem respond_eq (hk : k ≤ bufferSize) :
    Checked.respond clientFd buffer k = Server.respond clientFd buffer k := by
  have hlast : k - 1 < bufferSize := by
    rw [bufferSize] at hk ⊢
    omega
  simp only [Checked.respond, Server.respond, load_of_lt hlast, echo_eq, Prog.bind_eq,
    Prog.pure_bind]

theorem storeData_eq (hk : k ≤ bufferSize) :
    Checked.storeData clientFd fileFd buffer k = Server.storeData clientFd fileFd buffer k := by
  simp only [Checked.storeData, Server.storeData, loadBytes_of_le hk, respond_eq hk, Prog.bind_eq,
    Prog.pure_bind]

theorem seekCommand_eq :
    Checked.seekCommand tinfo fileFd buffer = Server.seekCommand tinfo fileFd buffer := by
  have hscan : buffer.scanString (bufferSize - 19) 19 = buffer.loadString 19 :=
    scanString_eq (by decide)
  unfold Checked.seekCommand Server.seekCommand
  exact congrArg (fun p : Handler (List UInt8) => p.bind _) hscan

theorem serve_eq : Checked.serve tinfo clientFd fileFd = Server.serve tinfo clientFd fileFd := by
  funext buffer
  have hlen : ∀ r : Transfer bufferSize, r.retval.toNat ≤ bufferSize := by
    intro r
    have hle := r.length_le
    rcases r.retval_eq with h | ⟨h, -⟩
    · omega
    · rw [h]
      exact Nat.zero_le _
  have hcompare : ∀ b : Buffer, b.compare 0 (seekPrefix ++ [0]) 19 =
      .pure (strncmp b.bytes (seekPrefix ++ [0]) 19) := fun b =>
    compare_of_le (i := 0) (n := 19) (by decide)
  simp only [Checked.serve, Server.serve, hcompare, seekCommand_eq, storeData_eq (hlen _),
    Prog.bind_eq, Prog.pure_bind]

/-- **Only the terminator store and the scan can leave the array.** -/
theorem handleClient_eq {stack : Buffer} :
    Checked.handleClient tinfo stack = Server.handleClient tinfo stack := by
  simp only [Checked.handleClient, Server.handleClient, handleConnection, serve_eq, Prog.bind_eq,
    Prog.bind_assoc]
  congr 1
  funext clientFd
  congr 1
  funext fileFd
  split_ifs <;> rfl

end Checked

end Texts

end Aesd.Server

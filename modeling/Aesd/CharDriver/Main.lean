import Aesd.CharDriver.Kernel

/-! # The driver functions (`main.c`)

The file operations of the device and its set-up and tear-down, each as the text of the source
function over the kernel services: the same services in the same order, with the same tests and
exits. `goto out` becomes the use of the local function `out`, so the shared exit label stays one
piece of text. C's integer conversions are written out: `int32` and `uint32` reduce to 32 bits,
`int64` to a `loff_t`, and `Int.tmod` is C's `%`. -/

namespace Aesd.CharDriver

open Memory Effects

/-- The value of `x` as a C `int`. -/
def int32 (x : ℤ) : ℤ := Int.bmod x (2 ^ 32)

/-- The value of `x` as an `unsigned int`. -/
def uint32 (x : ℤ) : ℤ := x % 2 ^ 32

/-- The value of `x` as a `loff_t` or a `long`. -/
def int64 (x : ℤ) : ℤ := Int.bmod x (2 ^ 64)

/-- The value of `x` as a `size_t`. -/
def toSizeT (x : ℤ) : ℕ := (x % 2 ^ 64).toNat

/-! ### Error numbers and other constants -/

def enomem : ℤ := 12

def efault : ℤ := 14

def einval : ℤ := 22

def erestartsys : ℤ := 512

def seekSet : ℤ := 0

def seekCur : ℤ := 1

def seekEnd : ℤ := 2

/-- `'\n'`. -/
def newline : UInt8 := 10

/-- `_IOWR(type, nr, size)`: direction bits, argument size, type and number. -/
def iowr (type nr size : ℕ) : ℕ := 3 * 2 ^ 30 + size * 2 ^ 16 + type * 2 ^ 8 + nr

/-- `AESD_IOC_MAGIC`. -/
def aesdIocMagic : ℕ := 0x16

/-- `AESDCHAR_IOCSEEKTO`. -/
def aesdcharIocseekto : ℕ := iowr aesdIocMagic 1 sizeofSeekto

/-! ### File operations -/

/-- `aesd_open`. -/
def aesdOpen (filp : File) : Driver ℤ := do
  storeFPos filp 0
  return 0

/-- `aesd_release`. -/
def aesdRelease (_filp : File) : Driver ℤ := return 0

/-- `aesd_read`: the return value and the bytes stored in the user buffer. -/
def aesdRead (filp : File) (count : ℕ) : Driver (ℤ × List UInt8) := do
  if (← mutexLockInterruptible) ≠ 0 then
    return (-erestartsys, [])
  let dev ← loadDev
  let fPos ← loadFPos filp
  match aesdCircularBufferFindEntryOffsetForFpos dev.circBuf (toSizeT fPos) with
  -- `!entry`: the position is at or behind the end of the data
  | none => mutexUnlockAndReturn (0, [])
  | some (index, entryOffset) =>
      let entry := dev.circBuf.slot index
      if entry.buffptr = .null then
        mutexUnlockAndReturn (0, [])
      else
        -- `entryOffset < entry.size`, so the `size_t` subtraction does not wrap
        let available := entry.size - entryOffset
        let available := if available > count then count else available
        let (notCopied, bytes) ← copyToUser entry.buffptr entryOffset available
        if notCopied ≠ 0 then
          mutexUnlockAndReturn (-efault, bytes)
        else
          -- `*f_pos += available` reads the position again
          let fPos ← loadFPos filp
          storeFPos filp (int64 (fPos + available))
          mutexUnlockAndReturn (available, bytes)
where
  /-- The label `mutex_unlock`. -/
  mutexUnlockAndReturn (retval : ℤ × List UInt8) : Driver (ℤ × List UInt8) := do
    mutexUnlock
    return retval

/-- `aesd_write` of `count = buf.length` bytes. -/
def aesdWrite (buf : List UInt8) : Driver ℤ := do
  let count := buf.length
  let kernBuf ← kmalloc count
  if kernBuf = .null then
    -- the label unlocks a mutex that has not been locked
    out (-enomem)
  else
  let bytesNotCopied ← copyFromUser kernBuf buf
  -- `copy_from_user` may have stored a part of the data
  if bytesNotCopied ≠ 0 then
    kfree kernBuf
    out (-efault)
  else
  let newLinePos ← memchr kernBuf newline count
  let numCopy := match newLinePos with
    | some pos => pos + 1
    | none => count
  if (← mutexLockInterruptible) ≠ 0 then
    kfree kernBuf
    out (-erestartsys)
  else
  -- from here on `kern_buf` is never freed
  append kernBuf newLinePos numCopy
where
  /-- What runs with the mutex held: append the new data to the working entry. -/
  append (kernBuf : Ptr) (newLinePos : Option ℕ) (numCopy : ℕ) : Driver ℤ := do
    let dev ← loadDev
    let tmp ← krealloc dev.workingEntry.buffptr (sizeAdd dev.workingEntry.size numCopy)
    if tmp = .null then
      -- the working entry keeps the pointer to what is freed here
      kfree (← loadDev).workingEntry.buffptr
      out (-enomem)
    else
    modifyDev fun dev => { dev with workingEntry.buffptr := tmp }
    let dev ← loadDev
    memcpy dev.workingEntry.buffptr dev.workingEntry.size kernBuf numCopy
    modifyDev fun dev => { dev with workingEntry.size := sizeAdd dev.workingEntry.size numCopy }
    if newLinePos.isSome then
      commit
    out numCopy
  /-- Process a newline: move the working entry into the circular buffer. -/
  commit : Driver Unit := do
    let dev ← loadDev
    let (tempPtr, circBuf) := aesdCircularBufferAddEntry dev.circBuf dev.workingEntry
    modifyDev fun dev => { dev with circBuf }
    -- the buffer of the command that the ring has dropped
    if tempPtr ≠ .null then
      kfree tempPtr
    modifyDev fun dev => { dev with workingEntry := ⟨.null, 0⟩ }
  /-- The label `out`. -/
  out (retval : ℤ) : Driver ℤ := do
    mutexUnlock
    return retval

/-- The body of the `AESD_CIRCULAR_BUFFER_FOREACH` loop in `aesd_llseek`, over all slots. -/
def totalSize (circBuf : AesdCircularBuffer) : ℤ :=
  circBuf.entry.toList.foldl
    (fun total entry => if entry.buffptr ≠ .null then int64 (total + entry.size) else total) 0

/-- `aesd_llseek`. -/
def aesdLlseek (filp : File) (offset : ℤ) (whence : ℤ) : Driver ℤ := do
  if (← mutexLockInterruptible) ≠ 0 then
    return -erestartsys
  let total := totalSize (← loadDev).circBuf
  if whence = seekSet then
    finish offset
  else if whence = seekCur then
    finish (int64 ((← loadFPos filp) + offset))
  else if whence = seekEnd then
    finish (int64 (total + offset))
  else
    mutexUnlock
    return -einval
where
  /-- What follows the `switch`. -/
  finish (newpos : ℤ) : Driver ℤ := do
    if newpos < 0 then
      mutexUnlock
      return -einval
    else
      storeFPos filp newpos
      mutexUnlock
      return newpos

/-- `dev->circ_buf.entry[index].size`, also for an index outside the array. -/
def entrySize (index : ℤ) : Driver ℕ := do
  if 0 ≤ index ∧ index < aesdcharMaxWriteOperationsSupported then
    return ((← loadDev).circBuf.slot index.toNat).size
  else
    strayLoad index

/-- `aesd_unlocked_ioctl` with the `struct aesd_seekto` that `arg` points to. -/
def aesdUnlockedIoctl (filp : File) (cmd : ℕ) (arg : AesdSeekto) : Driver ℤ := do
  -- `out_offs` is read before the mutex is locked, here and below
  let trav : ℤ := (← loadDev).circBuf.outOffs
  if cmd = aesdcharIocseekto then
    let (notCopied, seekto) ← copySeektoFromUser arg
    if notCopied ≠ 0 then
      return -efault
    else
    let commandIndex := int32 seekto.writeCmd.toNat
    let commandIndex := (int32 (commandIndex + (← loadDev).circBuf.outOffs)).tmod
      aesdcharMaxWriteOperationsSupported
    -- a remainder can be negative, and is never the bound itself
    if commandIndex > aesdcharMaxWriteOperationsSupported then
      return -einval
    else
    -- the offset one behind the last byte passes
    if seekto.writeCmdOffset.toNat > (← entrySize commandIndex) then
      return -einval
    else
    seek filp trav commandIndex seekto.writeCmdOffset
  else
    return 0
where
  /-- What follows the checks: the walk under the mutex and the new position. -/
  seek (filp : File) (trav commandIndex : ℤ) (writeCmdOffset : UInt32) : Driver ℤ := do
    if (← mutexLockInterruptible) ≠ 0 then
      return -erestartsys
    else
    let byteCount ← Prog.iterate (walk commandIndex) (trav, 0)
    storeFPos filp (uint32 (byteCount + writeCmdOffset.toNat))
    mutexUnlock
    return 0
  /-- One round of `while (trav != command_index)` on `(trav, byte_count)`. -/
  walk (commandIndex : ℤ) : ℤ × ℤ → Driver ((ℤ × ℤ) ⊕ ℤ)
    | (trav, byteCount) => do
        if trav = commandIndex then
          return .inr byteCount
        else
          let size ← entrySize trav
          return .inl ((trav + 1).tmod aesdcharMaxWriteOperationsSupported,
            int32 (byteCount + size))

/-! ### Loading and unloading the module -/

/-- The device and heap after `aesd_init_module` has zeroed the device and set up its mutex, its
circular buffer and its working entry; no file is open yet. -/
def aesdInitModule : World where
  heap := .empty
  dev := { lock := none, circBuf := aesdCircularBufferInit, workingEntry := ⟨.null, 0⟩ }
  fPos := fun _ => 0

/-- The `AESD_CIRCULAR_BUFFER_FOREACH` loop of `aesd_cleanup_module`. -/
def freeEntries : List AesdBufferEntry → Driver Unit
  | [] => return ()
  | entry :: entries => do
      if entry.buffptr ≠ .null then
        kfree entry.buffptr
      freeEntries entries

/-- `aesd_cleanup_module`, after the device has been deleted. -/
def aesdCleanupModule : Driver Unit := do
  freeEntries (← loadDev).circBuf.entry.toList
  let dev ← loadDev
  if dev.workingEntry.buffptr ≠ .null then
    kfree dev.workingEntry.buffptr

end Aesd.CharDriver

import Aesd.CharDriver.Main
import Aesd.CLib.Strings

/-! # The system calls of the server

What `aesdsocket.c` asks of the system and the C library, as an interface of operations, and the
array a connection receives into. Nothing is said here about the answers except what their types
say: `open` returns a descriptor or -1, and a call that fills a buffer returns the number of bytes
it stored or -1. -/

namespace Aesd.Server

open Effects CLib CharDriver

/-- `BUFFER_SIZE`. -/
def bufferSize : ℕ := 1024

/-- A `struct thread_info *`. -/
abbrev ThreadInfo := ℕ

/-- The flags `FILE_PATH` is opened with. -/
inductive OpenFlags where
  /-- `O_CREAT | O_APPEND | O_RDWR`. -/
  | creatAppendRdwr
  /-- `O_RDONLY`. -/
  | rdonly
  deriving DecidableEq, Repr

/-- The mutexes of the server. -/
inductive Mutex where
  /-- `file_mutex`. -/
  | file
  /-- `list_mutex`. -/
  | list
  deriving DecidableEq, Repr

/-- What a call returns that fills a buffer of `n` bytes. -/
structure Transfer (n : ℕ) where
  /-- The return value. -/
  retval : ℤ
  /-- The bytes stored. -/
  data : List UInt8
  /-- They fit. -/
  length_le : data.length ≤ n
  /-- Their number is returned, or -1 and nothing is stored. -/
  retval_eq : retval = data.length ∨ retval = -1 ∧ data = []
  deriving DecidableEq

/-- A call that stores nothing. -/
def Transfer.empty (n : ℕ) : Transfer n := ⟨0, [], Nat.zero_le _, .inl rfl⟩

/-- A call that stores the given bytes. -/
def Transfer.full {n : ℕ} (data : List UInt8) (h : data.length ≤ n) : Transfer n :=
  ⟨data.length, data, h, .inl rfl⟩

/-- What `open` returns. -/
abbrev Descriptor := {fd : ℤ // -1 ≤ fd}

/-- The operations of the server. -/
inductive PosixOp where
  /-- Read `tinfo->client_fd`. -/
  | loadClientFd (tinfo : ThreadInfo)
  /-- `open(FILE_PATH, flags)`. -/
  | openFile (flags : OpenFlags)
  /-- `recv(fd, buffer, n, 0)`. -/
  | recv (fd : ℤ) (n : ℕ)
  /-- `send(fd, bytes, length, 0)`. -/
  | send (fd : ℤ) (bytes : List UInt8)
  /-- `read(fd, buffer, n)`. -/
  | read (fd : ℤ) (n : ℕ)
  /-- `write(fd, bytes, length)`. -/
  | write (fd : ℤ) (bytes : List UInt8)
  /-- `ioctl(fd, request, arg)`. -/
  | ioctl (fd : ℤ) (request : ℕ) (arg : AesdSeekto)
  /-- `close(fd)`. -/
  | close (fd : ℤ)
  /-- `pthread_mutex_lock`. -/
  | mutexLock (m : Mutex)
  /-- `pthread_mutex_unlock`. -/
  | mutexUnlock (m : Mutex)
  /-- `syslog(LOG_ERR, message, ..)`. -/
  | syslog (message : String)
  /-- `LIST_REMOVE(tinfo, entries)`. -/
  | listRemove (tinfo : ThreadInfo)
  /-- `free(tinfo)`. -/
  | free (tinfo : ThreadInfo)
  /-- An access of `buffer[index]` with an index outside the array. -/
  | overrun (index : ℕ)

/-- What each operation returns. -/
@[reducible] def PosixRes : PosixOp → Type
  | .openFile _ => Descriptor
  | .recv _ n | .read _ n => Transfer n
  | .loadClientFd _ | .send _ _ | .write _ _ | .ioctl _ _ _ | .close _ => ℤ
  | .mutexLock _ | .mutexUnlock _ | .syslog _ | .listRemove _ | .free _ | .overrun _ => Unit

/-- The system as an interface of operations. -/
abbrev posix : Interface := ⟨PosixOp, PosixRes⟩

/-- A server function's text. -/
abbrev Handler (α : Type) := Prog posix α

section Calls

/-! ### The operations as statements -/

def loadClientFd (tinfo : ThreadInfo) : Handler ℤ := .call (.loadClientFd tinfo) fun fd => .pure fd

def openFile (flags : OpenFlags) : Handler ℤ := .call (.openFile flags) fun fd => .pure fd.val

def recv (fd : ℤ) (n : ℕ) : Handler (Transfer n) := .call (.recv fd n) fun r => .pure r

def send (fd : ℤ) (bytes : List UInt8) : Handler ℤ := .call (.send fd bytes) fun r => .pure r

def read (fd : ℤ) (n : ℕ) : Handler (Transfer n) := .call (.read fd n) fun r => .pure r

def write (fd : ℤ) (bytes : List UInt8) : Handler ℤ := .call (.write fd bytes) fun r => .pure r

def ioctl (fd : ℤ) (request : ℕ) (arg : AesdSeekto) : Handler ℤ :=
  .call (.ioctl fd request arg) fun r => .pure r

def close (fd : ℤ) : Handler Unit := .call (.close fd) fun _ => .pure ()

def mutexLock (m : Mutex) : Handler Unit := .call (.mutexLock m) fun _ => .pure ()

def mutexUnlock (m : Mutex) : Handler Unit := .call (.mutexUnlock m) fun _ => .pure ()

def syslog (message : String) : Handler Unit := .call (.syslog message) fun _ => .pure ()

def listRemove (tinfo : ThreadInfo) : Handler Unit := .call (.listRemove tinfo) fun _ => .pure ()

def free (tinfo : ThreadInfo) : Handler Unit := .call (.free tinfo) fun _ => .pure ()

def overrun (index : ℕ) : Handler Unit := .call (.overrun index) fun _ => .pure ()

end Calls

/-! ### The array a connection receives into -/

/-- `char buffer[BUFFER_SIZE]`. -/
structure Buffer where
  /-- Its bytes. -/
  bytes : List UInt8
  /-- There are `BUFFER_SIZE` of them. -/
  length_eq : bytes.length = bufferSize

namespace Buffer

/-- An array of NULs. -/
def zero : Buffer := ⟨List.replicate bufferSize 0, List.length_replicate⟩

variable (b : Buffer)

/-- The array after a call has stored bytes at its start. -/
def fill (r : Transfer bufferSize) : Buffer where
  bytes := r.data ++ b.bytes.drop r.data.length
  length_eq := by
    have hle := r.length_le
    rw [List.length_append, List.length_drop, b.length_eq]
    omega

/-- The array after `buffer[i] = x`, if `i` is an index of it. -/
def set (i : ℕ) (x : UInt8) : Buffer where
  bytes := b.bytes.set i x
  length_eq := by rw [List.length_set, b.length_eq]

/-- `buffer[i] = '\0'`. -/
def storeNul (i : ℕ) : Handler Buffer := do
  if bufferSize ≤ i then
    overrun i
  return b.set i 0

/-- The string at `buffer + i`. Without a NUL in the rest of the array, the reader goes on to the
byte behind it, where the terminator of a chunk that fills the array has been stored. -/
def loadString (i : ℕ) : Handler (List UInt8) := do
  if 0 ∉ b.bytes.drop i then
    overrun bufferSize
  return cString (b.bytes.drop i)

end Buffer

/-! ### Chunks in the array -/

section Chunk

variable {b : Buffer} {r : Transfer bufferSize}

theorem Transfer.retval_of_pos {n : ℕ} {r : Transfer n} (h : 0 < r.retval) :
    r.retval = r.data.length := by
  rcases r.retval_eq with h' | ⟨h', -⟩
  · exact h'
  · omega

theorem Transfer.data_ne_nil {n : ℕ} {r : Transfer n} (h : 0 < r.retval) : r.data ≠ [] := by
  intro hnil
  rw [Transfer.retval_of_pos h, hnil] at h
  simp at h

theorem Transfer.retval_pos {n : ℕ} {r : Transfer n} (h : r.data ≠ []) : 0 < r.retval := by
  rcases r.retval_eq with h' | ⟨-, h'⟩
  · have hpos := List.length_pos_iff.mpr h
    omega
  · exact absurd h' h

theorem Buffer.take_fill (h : 0 < r.retval) : (b.fill r).bytes.take r.retval.toNat = r.data := by
  rw [Transfer.retval_of_pos h, Int.toNat_natCast]
  exact List.take_left

/-- The array with a chunk and its terminator. -/
def Buffer.chunk (b : Buffer) (r : Transfer bufferSize) : Buffer := (b.fill r).set r.data.length 0

/-- Behind the chunk the array ends, or its terminator follows. -/
theorem Buffer.chunk_bytes (b : Buffer) (r : Transfer bufferSize) :
    ∃ tail, (b.chunk r).bytes = r.data ++ tail ∧ (tail = [] ∨ ∃ u, tail = 0 :: u) := by
  refine ⟨(b.bytes.drop r.data.length).set 0 0, ?_, ?_⟩
  · show (r.data ++ b.bytes.drop r.data.length).set r.data.length 0 = _
    rw [List.set_append_right _ _ le_rfl, Nat.sub_self]
  · cases b.bytes.drop r.data.length with
    | nil => exact .inl rfl
    | cons x u => exact .inr ⟨u, rfl⟩

theorem Buffer.take_chunk : (b.chunk r).bytes.take r.data.length = r.data := by
  obtain ⟨tail, htail, -⟩ := b.chunk_bytes r
  rw [htail, List.take_left]

/-- The last byte of the chunk. -/
theorem Buffer.getD_chunk {w : List UInt8} {x : UInt8} (h : r.data = w ++ [x]) :
    (b.chunk r).bytes.getD (r.data.length - 1) 0 = x := by
  obtain ⟨tail, htail, -⟩ := b.chunk_bytes r
  rw [htail, h, List.length_append, List.length_singleton, Nat.add_sub_cancel, List.append_assoc]
  simp

/-- A prefix test without NUL sees the chunk only. -/
theorem Buffer.prefix_chunk_iff {p : List UInt8} (hp : 0 ∉ p) :
    p <+: (b.chunk r).bytes ↔ p <+: r.data := by
  obtain ⟨tail, htail, hnul⟩ := b.chunk_bytes r
  rw [htail]
  constructor
  · intro h
    rcases List.prefix_or_prefix_of_prefix h (List.prefix_append r.data tail) with h' | ⟨q, rfl⟩
    · exact h'
    · have hq := (List.prefix_append_right_inj r.data).mp h
      rcases hnul with rfl | ⟨u, rfl⟩
      · rw [List.prefix_nil.mp hq, List.append_nil]
      · cases q with
        | nil => rw [List.append_nil]
        | cons x q =>
            rw [List.cons_prefix_cons] at hq
            exact absurd (hq.1 ▸ by simp) hp
  · exact fun h => h.trans (List.prefix_append _ _)

/-- The terminator of a chunk that does not fill the array. -/
theorem Buffer.nul_mem_chunk {i : ℕ} (hi : i ≤ r.data.length) (hlt : r.data.length < bufferSize) :
    0 ∈ (b.chunk r).bytes.drop i := by
  obtain ⟨tail, htail, hnul⟩ := b.chunk_bytes r
  have hlen := congrArg List.length htail
  rw [(b.chunk r).length_eq, List.length_append] at hlen
  rw [htail, List.drop_append_of_le_length hi]
  rcases hnul with rfl | ⟨u, rfl⟩
  · rw [List.length_nil] at hlen
    omega
  · simp

/-- A string inside the chunk ends with the chunk. -/
theorem Buffer.cString_chunk {i : ℕ} (hi : i ≤ r.data.length) :
    cString ((b.chunk r).bytes.drop i) = cString (r.data.drop i) := by
  obtain ⟨tail, htail, hnul⟩ := b.chunk_bytes r
  rw [htail, List.drop_append_of_le_length hi]
  rcases hnul with rfl | ⟨u, rfl⟩
  · rw [List.append_nil]
  · exact cString_append_nul _ _

end Chunk

end Aesd.Server

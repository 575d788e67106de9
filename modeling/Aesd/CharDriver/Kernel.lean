import Aesd.CharDriver.CircularBuffer
import Aesd.Effects.Program
import Mathlib.Data.Int.Notation

/-! # The kernel services the driver calls

The state a driver call works on (`World`) and the services it asks the kernel for, as an interface
of operations with their documented meaning. What the kernel decides by itself is collected in an
`Env` for each call: whether an allocation succeeds, whether `krealloc` grows in place, how many
bytes a user copy leaves out, whether a signal interrupts the wait for the mutex. Each driver
function uses each service at most once, so one `Env` fixes a whole call. An access outside a live
block ends the call with `Stop.badAccess`; waiting for ever is `Stop.hang`. -/

namespace Aesd.CharDriver

open Memory Effects

/-- An open file (`struct file *`). -/
abbrev File := ℕ

/-- `struct aesd_dev`, its character device left out. -/
structure AesdDev where
  /-- The task that holds the mutex. -/
  lock : Option ℕ
  /-- The retained commands. -/
  circBuf : AesdCircularBuffer
  /-- The command being accumulated. -/
  workingEntry : AesdBufferEntry

/-- `struct aesd_seekto`. -/
structure AesdSeekto where
  /-- The zero referenced write command to seek into. -/
  writeCmd : UInt32
  /-- The zero referenced offset within the write. -/
  writeCmdOffset : UInt32
  deriving DecidableEq, Repr

/-- `sizeof(struct aesd_seekto)`. -/
def sizeofSeekto : ℕ := 8

/-- Everything a driver call can read or change. -/
structure World where
  /-- The kernel heap. -/
  heap : Heap
  /-- The device. -/
  dev : AesdDev
  /-- `filp->f_pos` of each open file, a `loff_t`. -/
  fPos : File → ℤ

/-- The kernel services. -/
inductive KernelOp where
  /-- `kmalloc(n, GFP_KERNEL)`. -/
  | kmalloc (n : ℕ)
  /-- `krealloc(p, n, GFP_KERNEL)`. -/
  | krealloc (p : Ptr) (n : ℕ)
  /-- `kfree(p)`. -/
  | kfree (p : Ptr)
  /-- `copy_from_user(dst, buf, count)` of the bytes in the user buffer. -/
  | copyFromUser (dst : Ptr) (buf : List UInt8)
  /-- `copy_from_user` of a `struct aesd_seekto` into a local variable. -/
  | copySeektoFromUser (arg : AesdSeekto)
  /-- `copy_to_user(buf, src + offset, n)`. -/
  | copyToUser (src : Ptr) (offset n : ℕ)
  /-- `memchr(p, c, n)`. -/
  | memchr (p : Ptr) (c : UInt8) (n : ℕ)
  /-- `memcpy(dst + offset, src, n)`. -/
  | memcpy (dst : Ptr) (offset : ℕ) (src : Ptr) (n : ℕ)
  /-- `mutex_lock_interruptible(&dev->lock)`. -/
  | mutexLockInterruptible
  /-- `mutex_unlock(&dev->lock)`. -/
  | mutexUnlock
  /-- Read `*dev`. -/
  | loadDev
  /-- Assign to fields of `*dev`. -/
  | modifyDev (f : AesdDev → AesdDev)
  /-- Read `filp->f_pos`. -/
  | loadFPos (filp : File)
  /-- Assign to `filp->f_pos`. -/
  | storeFPos (filp : File) (pos : ℤ)
  /-- Read the `size` of `circ_buf.entry[index]` for an index outside the array. -/
  | strayLoad (index : ℤ)

/-- What each service returns. -/
@[reducible] def KernelRes : KernelOp → Type
  | .kmalloc _ | .krealloc _ _ => Ptr
  | .copyFromUser _ _ => ℕ
  | .copySeektoFromUser _ => ℕ × AesdSeekto
  | .copyToUser _ _ _ => ℕ × List UInt8
  | .memchr _ _ _ => Option ℕ
  | .mutexLockInterruptible | .loadFPos _ => ℤ
  | .loadDev => AesdDev
  | .strayLoad _ => ℕ
  | .kfree _ | .memcpy _ _ _ _ | .mutexUnlock | .modifyDev _ | .storeFPos _ _ => Unit

/-- The kernel as an interface of operations. -/
abbrev kernel : Interface := ⟨KernelOp, KernelRes⟩

/-- A driver function's text. -/
abbrev Driver (α : Type) := Prog kernel α

section Services

/-! ### The services as driver statements -/

def kmalloc (n : ℕ) : Driver Ptr := .call (.kmalloc n) fun p => .pure p

def krealloc (p : Ptr) (n : ℕ) : Driver Ptr := .call (.krealloc p n) fun q => .pure q

def kfree (p : Ptr) : Driver Unit := .call (.kfree p) fun _ => .pure ()

def copyFromUser (dst : Ptr) (buf : List UInt8) : Driver ℕ :=
  .call (.copyFromUser dst buf) fun left => .pure left

def copySeektoFromUser (arg : AesdSeekto) : Driver (ℕ × AesdSeekto) :=
  .call (.copySeektoFromUser arg) fun res => .pure res

def copyToUser (src : Ptr) (offset n : ℕ) : Driver (ℕ × List UInt8) :=
  .call (.copyToUser src offset n) fun res => .pure res

def memchr (p : Ptr) (c : UInt8) (n : ℕ) : Driver (Option ℕ) :=
  .call (.memchr p c n) fun pos => .pure pos

def memcpy (dst : Ptr) (offset : ℕ) (src : Ptr) (n : ℕ) : Driver Unit :=
  .call (.memcpy dst offset src n) fun _ => .pure ()

def mutexLockInterruptible : Driver ℤ := .call .mutexLockInterruptible fun err => .pure err

def mutexUnlock : Driver Unit := .call .mutexUnlock fun _ => .pure ()

def loadDev : Driver AesdDev := .call .loadDev fun dev => .pure dev

def modifyDev (f : AesdDev → AesdDev) : Driver Unit := .call (.modifyDev f) fun _ => .pure ()

def loadFPos (filp : File) : Driver ℤ := .call (.loadFPos filp) fun pos => .pure pos

def storeFPos (filp : File) (pos : ℤ) : Driver Unit :=
  .call (.storeFPos filp pos) fun _ => .pure ()

def strayLoad (index : ℤ) : Driver ℕ := .call (.strayLoad index) fun size => .pure size

end Services

/-- What the kernel decides during one call. -/
structure Env where
  /-- The task that makes the call. -/
  task : ℕ
  /-- `kmalloc` succeeds. -/
  kmallocOk : Bool
  /-- `krealloc` succeeds. -/
  kreallocOk : Bool
  /-- `krealloc` grows the block where it is. -/
  inPlace : Bool
  /-- How many bytes a user copy leaves out, at most all of them. -/
  notCopied : ℕ
  /-- No signal interrupts `mutex_lock_interruptible`. -/
  lockOk : Bool
  /-- The contents of memory never written. -/
  junk : ℕ → UInt8
  /-- What lies outside `circ_buf.entry`. -/
  stray : ℤ → ℕ

/-- Why a call does not return. -/
inductive Stop where
  /-- An access outside every live block. -/
  | badAccess
  /-- The call waits or loops for ever. -/
  | hang
  deriving DecidableEq, Repr

/-- No block is larger than the address space: larger requests always fail. -/
def allocationLimit : ℕ := 2 ^ 57

/-- `-EINTR`, the answer of an interrupted `mutex_lock_interruptible`. -/
def eintr : ℤ := -4

/-- A block of `n` bytes that starts with `old` and is otherwise uninitialised. -/
def grow (junk : ℕ → UInt8) (old : List UInt8) (n : ℕ) : List UInt8 :=
  (old ++ (List.range n).map junk).take n

/-- Allocate `n` bytes, if `ok` and the size allows it. -/
def allocate (ok : Bool) (junk : ℕ → UInt8) (n : ℕ) (h : Heap) : Ptr × Heap :=
  if ok = false ∨ allocationLimit < n then (.null, h)
  else if n = 0 then (.zeroSize, h)
  else (.block h.next, h.alloc (grow junk [] n))

/-- `krealloc`: a failure leaves the old block as it is, a success moves or grows it. -/
def reallocate (env : Env) (p : Ptr) (n : ℕ) (h : Heap) : Except Stop (Ptr × Heap) :=
  match p with
  | .null | .zeroSize => .ok (allocate env.kreallocOk env.junk n h)
  | .block b =>
      match h.cells b with
      | none => .error .badAccess
      | some old =>
          if env.kreallocOk = false ∨ allocationLimit < n then .ok (.null, h)
          else if n = 0 then .ok (.zeroSize, h.free b)
          else if env.inPlace then .ok (.block b, h.write b (grow env.junk old n))
          else .ok (.block h.next, (h.alloc (grow env.junk old n)).free b)

/-- `kfree`: nothing happens for the two pointers that own no memory. -/
def release (p : Ptr) (h : Heap) : Except Stop Heap :=
  match p with
  | .null | .zeroSize => .ok h
  | .block b => if (h.cells b).isSome then .ok (h.free b) else .error .badAccess

/-- The contents behind `p`, when its first `n` bytes may be accessed. -/
def access (p : Ptr) (n : ℕ) (h : Heap) : Except Stop (List UInt8) :=
  match h.read p with
  | some bytes => if n ≤ bytes.length then .ok bytes else .error .badAccess
  | none => .error .badAccess

/-- Replace the contents behind `p`. -/
def put (p : Ptr) (bytes : List UInt8) (h : Heap) : Heap :=
  match p with
  | .block b => h.write b bytes
  | _ => h

/-- The meaning of the services. -/
def kernelStep (env : Env) : (o : KernelOp) → World → Except Stop (KernelRes o × World)
  | .kmalloc n, w =>
      let (p, heap) := allocate env.kmallocOk env.junk n w.heap
      .ok (p, { w with heap })
  | .krealloc p n, w => do
      let (q, heap) ← reallocate env p n w.heap
      .ok (q, { w with heap })
  | .kfree p, w => do
      let heap ← release p w.heap
      .ok ((), { w with heap })
  | .copyFromUser dst buf, w => do
      let old ← access dst buf.length w.heap
      let left := min env.notCopied buf.length
      -- the bytes left out read as zero
      let copied := buf.take (buf.length - left) ++ List.replicate left 0
      .ok (left, { w with heap := put dst (copied ++ old.drop buf.length) w.heap })
  | .copySeektoFromUser arg, w => .ok ((min env.notCopied sizeofSeekto, arg), w)
  | .copyToUser src offset n, w => do
      let bytes ← access src (offset + n) w.heap
      let left := min env.notCopied n
      .ok ((left, (bytes.drop offset).take (n - left)), w)
  | .memchr p c n, w => do
      let bytes ← access p n w.heap
      .ok ((bytes.take n).findIdx? (· == c), w)
  | .memcpy dst offset src n, w => do
      let old ← access dst (offset + n) w.heap
      let bytes ← access src n w.heap
      let new := old.take offset ++ bytes.take n ++ old.drop (offset + n)
      .ok ((), { w with heap := put dst new w.heap })
  | .mutexLockInterruptible, w =>
      if env.lockOk = false then .ok (eintr, w)
      else if w.dev.lock.isSome then .error .hang
      else .ok ((0 : ℤ), { w with dev := { w.dev with lock := some env.task } })
  | .mutexUnlock, w => .ok ((), { w with dev := { w.dev with lock := none } })
  | .loadDev, w => .ok (w.dev, w)
  | .modifyDev f, w => .ok ((), { w with dev := f w.dev })
  | .loadFPos filp, w => .ok (w.fPos filp, w)
  | .storeFPos filp pos, w => .ok ((), { w with fPos := Function.update w.fPos filp pos })
  | .strayLoad index, w => .ok (env.stray index, w)

/-! ### What each service does when it is used as it should be -/

section Services

variable {env : Env} {w : World} {h : Heap} {p : Ptr} {n m : ℕ} {old bytes : List UInt8}
  {junk : ℕ → UInt8}

@[simp] theorem length_grow : (grow junk old n).length = n := by
  simp [grow]

/-- The bytes a block held stay at its start. -/
theorem take_grow (hn : old.length ≤ n) : (grow junk old n).take old.length = old := by
  rw [grow, List.take_take, Nat.min_eq_left hn, List.take_append_of_le_length le_rfl,
    List.take_length]

theorem allocate_fail {ok : Bool} (hfail : ok = false ∨ allocationLimit < n) :
    allocate ok junk n h = (.null, h) := if_pos hfail

/-- A granted allocation: no block for zero bytes, else the next one. -/
theorem allocate_ok {ok : Bool} (hok : ok = true) (hn : n ≤ allocationLimit) :
    allocate ok junk n h =
      if n = 0 then (.zeroSize, h) else (.block h.next, h.alloc (grow junk [] n)) :=
  if_neg (by simp [hok]; omega)

theorem access_eq (hp : h.read p = some bytes) (hn : n ≤ bytes.length) :
    access p n h = .ok bytes := by
  rw [access, hp]; exact if_pos hn

theorem release_block {b : ℕ} (hb : (h.cells b).isSome) : release (.block b) h = .ok (h.free b) :=
  if_pos hb

/-- What backs some bytes can be freed, and nothing else is touched. -/
theorem release_of_backs (hp : h.Backs p bytes) :
    ∃ h', release p h = .ok h' ∧ h.Keeps h' p ∧ h.Adds h' .null ∧
      ∀ b, p = .block b → h'.cells b = none := by
  cases p with
  | null => exact ⟨h, rfl, h.keeps_refl _, h.adds_refl _, by simp⟩
  | zeroSize => exact ⟨h, rfl, h.keeps_refl _, h.adds_refl _, by simp⟩
  | block b =>
      exact ⟨h.free b, release_block (by simp [hp.1]), h.keeps_free b, h.adds_free b _, by simp⟩

/-- A refused `krealloc` leaves the heap as it is. -/
theorem reallocate_fail (hp : h.Backs p bytes)
    (hfail : env.kreallocOk = false ∨ allocationLimit < n) :
    reallocate env p n h = .ok (.null, h) := by
  cases p with
  | null => rw [reallocate, allocate_fail hfail]
  | zeroSize => rw [reallocate, allocate_fail hfail]
  | block b => simp only [reallocate, hp.1]; rw [if_pos hfail]

/-- A granted `krealloc` to at least the old size: the result starts with the old bytes, and is the
old block, a new block, or no block at all for size zero. -/
theorem reallocate_ok (hp : h.Backs p bytes) (hok : env.kreallocOk = true)
    (hlen : bytes.length ≤ n) (hn : n ≤ allocationLimit) :
    ∃ q h' new, reallocate env p n h = .ok (q, h') ∧ q ≠ .null ∧ h'.read q = some new ∧
      new.length = n ∧ new.take bytes.length = bytes ∧ h.Keeps h' p ∧ h.Adds h' q ∧
      (n = 0 ∧ q = .zeroSize ∨ 0 < n ∧ (q = p ∨ q = .block h.next)) := by
  have hgrant : ¬(env.kreallocOk = false ∨ allocationLimit < n) := by simp [hok]; omega
  -- without an old block this is an ordinary allocation
  have hnone : bytes = [] → ∃ q h' new, allocate env.kreallocOk env.junk n h = (q, h') ∧
      q ≠ .null ∧ h'.read q = some new ∧ new.length = n ∧ new.take bytes.length = bytes ∧
      h.Keeps h' p ∧ h.Adds h' q ∧
      (n = 0 ∧ q = .zeroSize ∨ 0 < n ∧ (q = p ∨ q = .block h.next)) := by
    rintro rfl
    rw [allocate_ok hok hn]
    by_cases h0 : n = 0
    · exact ⟨_, _, [], if_pos h0, by simp, rfl, h0.symm, rfl, h.keeps_refl p, h.adds_refl _,
        .inl ⟨h0, rfl⟩⟩
    · exact ⟨_, _, grow env.junk [] n, if_neg h0, by simp, by simp, length_grow, rfl,
        h.keeps_alloc _ p, h.adds_alloc _, .inr ⟨by omega, .inr rfl⟩⟩
  cases p with
  | null =>
      obtain ⟨q, h', new, hq, hrest⟩ := hnone hp
      exact ⟨q, h', new, by rw [reallocate, hq], hrest⟩
  | zeroSize =>
      obtain ⟨q, h', new, hq, hrest⟩ := hnone hp
      exact ⟨q, h', new, by rw [reallocate, hq], hrest⟩
  | block b =>
      obtain ⟨hb, hne⟩ := hp
      have hpos : 0 < n := (List.length_pos_iff.mpr hne).trans_le hlen
      have hlive : (h.cells b).isSome := by simp [hb]
      simp only [reallocate, hb]
      rw [if_neg hgrant, if_neg (by omega : n ≠ 0)]
      by_cases hin : env.inPlace
      · refine ⟨_, _, _, if_pos hin, by simp, Heap.cells_write_self _ hlive, length_grow,
          take_grow hlen, h.keeps_write b _, h.adds_write b _ _, .inr ⟨hpos, .inl rfl⟩⟩
      · have hbn : b < h.next := Heap.lt_next_of_isSome hlive
        refine ⟨_, _, grow env.junk bytes n, if_neg hin, by simp, ?_, length_grow, take_grow hlen,
          (h.keeps_alloc _ _).trans (Heap.keeps_free _ b) (fun c hc _ => hc ▸ rfl),
          (h.adds_alloc _).trans (Heap.adds_free _ b _), .inr ⟨hpos, .inr rfl⟩⟩
        rw [Heap.read_block, Heap.cells_free_of_ne _ hbn.ne', Heap.cells_alloc_self]

end Services

end Aesd.CharDriver

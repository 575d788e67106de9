import Aesd.CharDriver.Simulation
import Aesd.Effects.Link

/-! # The calls in sections

`aesd_read`, `aesd_write` and `aesd_llseek` look at the device with the mutex held, from where they
take it to where they give it back. `aesd_unlocked_ioctl` does not: it reads `out_offs` twice and the
size of one slot before it takes the mutex, and others may write in between. **`callSections`** says
of which sections a call consists, `Log.Answers` what each of them does to the log if it is done at
once, and **`callText_eq`** that the code of a call is its sections with their code in their place.

A section fails for want of a service, with an error number that tells which, or because of what it
is asked for. `serviceError` and `sectionError` are the error numbers of the first kind: the one that
the driver returns when this service has failed, and the one that the section has failed with. -/

namespace Aesd.CharDriver

open Memory Effects Streams

/-- The calls that take the mutex. -/
def Call.takesLock : Call → Bool
  | .open _ | .release _ => false
  | _ => true

/-- These calls as an interface of operations. -/
abbrev lockedCalls : Interface := ⟨{c : Call // c.takesLock = true}, fun _ => Reply⟩

/-- The code of the calls. -/
def callText (c : lockedCalls.Op) : Driver Reply := c.val.text

/-- The calls that look at the device with the mutex held only. -/
def Call.locksFirst : Call → Bool
  | .read _ _ | .write _ _ | .llseek _ _ _ => true
  | _ => false

theorem Call.locksFirst_write (filp : File) (buf : List UInt8) :
    (Call.write filp buf).locksFirst = true := rfl

/-- A part of a call that can be done at once. -/
inductive Section where
  /-- A whole `read`, `write` or `llseek`. -/
  | call (c : {c : Call // c.locksFirst = true})
  /-- A look at `out_offs` without the mutex. -/
  | outOffs
  /-- A look at the size of a slot without the mutex. -/
  | slotSize (i : Fin 10)
  /-- A look at what lies outside the array. -/
  | strayLoad (index : ℤ)
  /-- `copy_from_user` of the seek request. -/
  | copySeekto (arg : AesdSeekto)
  /-- What a seek request does with the mutex held: the walk and the new position. -/
  | seek (filp : File) (trav : Fin 10) (commandIndex : ℤ) (writeCmdOffset : UInt32)

/-- What it returns. -/
@[reducible] def SectionRes : Section → Type
  | .call _ => Reply
  | .outOffs => Fin 10
  | .slotSize _ | .strayLoad _ => ℕ
  | .copySeekto _ => ℕ × AesdSeekto
  | .seek _ _ _ _ => ℤ

/-- The sections as an interface of operations. -/
abbrev sections : Interface := ⟨Section, SectionRes⟩

/-- The code of a section. -/
def sectionText : (o : sections.Op) → Driver (sections.Res o)
  | .call c => c.val.text
  | .outOffs => do
      let dev ← loadDev
      return ⟨dev.circBuf.outOffs, dev.circBuf.outOffs_lt⟩
  | .slotSize i => do return ((← loadDev).circBuf.slot i).size
  | .strayLoad index => strayLoad index
  | .copySeekto arg => copySeektoFromUser arg
  | .seek filp trav commandIndex writeCmdOffset =>
      aesdUnlockedIoctl.seek filp (trav : ℕ) commandIndex writeCmdOffset

/-- A section on its own. -/
def atOnce (o : sections.Op) : Prog sections (sections.Res o) := .call o .pure

/-- The size that the offset of a seek request is compared with. -/
def checkedSection (index : ℤ) : Prog sections ℕ :=
  if h : 0 ≤ index ∧ index < aesdcharMaxWriteOperationsSupported then
    atOnce (.slotSize ⟨index.toNat, (Int.toNat_lt h.1).mpr h.2⟩)
  else
    atOnce (.strayLoad index)

/-- The checks of a seek request, and what follows them. -/
def seekSections (filp : File) (trav : Fin 10) (commandIndex : ℤ) (writeCmdOffset : UInt32) :
    Prog sections ℤ := do
  if commandIndex > aesdcharMaxWriteOperationsSupported then
    return -einval
  else
  let size ← checkedSection commandIndex
  if writeCmdOffset.toNat > size then
    return -einval
  else
  atOnce (.seek filp trav commandIndex writeCmdOffset)

/-- The sections of `aesd_unlocked_ioctl`. -/
def ioctlSections (filp : File) (cmd : ℕ) (arg : AesdSeekto) : Prog sections ℤ := do
  let trav ← atOnce .outOffs
  if cmd = aesdcharIocseekto then
    let (notCopied, seekto) ← atOnce (.copySeekto arg)
    if notCopied ≠ 0 then
      return -efault
    else
    let outOffs ← atOnce .outOffs
    seekSections filp trav (seekIndex seekto.writeCmd outOffs) seekto.writeCmdOffset
  else
    return 0

/-- The sections of a call. -/
def callSections : (c : lockedCalls.Op) → Prog sections Reply
  | ⟨.read filp count, _⟩ => atOnce (.call ⟨.read filp count, rfl⟩)
  | ⟨.write filp buf, _⟩ => atOnce (.call ⟨.write filp buf, Call.locksFirst_write filp buf⟩)
  | ⟨.llseek filp offset whence, _⟩ => atOnce (.call ⟨.llseek filp offset whence, rfl⟩)
  | ⟨.ioctl filp cmd arg, _⟩ => do return .ofRetval (← ioctlSections filp cmd arg)

/-! ### What a section does to the log -/

/-- The sizes of `k` slots in a row, the first one `first`. -/
def Log.span (l : Log) (first k : ℕ) : ℕ :=
  ((List.range k).map fun j => l.slotSize ((first + j) % 10)).sum

/-- The call has failed for want of a service. -/
def Reply.Refused (r : Reply) : Prop :=
  r.retval = -enomem ∨ r.retval = -efault ∨ r.retval = -erestartsys

instance (r : Reply) : Decidable r.Refused := inferInstanceAs (Decidable (_ ∨ _ ∨ _))

/-- The call fails for want of a service, after it has delivered a part of what it would have. -/
def Log.Refuses (l : Log) (call : Call) (r : Reply) : Prop :=
  r.Refused ∧ (r.bytes = [] ∨
    ∃ r₀ l₀, l.apply ⟨call, .calm 0⟩ = .ok (some (r₀, l₀)) ∧ r.bytes <+: r₀.bytes)

/-- An `llseek` asks for no position that there can be. -/
def Log.Invalid (l : Log) : Call → Prop
  | .llseek filp offset whence => ∀ pos, l.llseekTarget filp offset whence = some pos → pos < 0
  | _ => False

/-- What a section does to the log, if it is done at once. A call is answered as it is when no
service fails, or fails for want of a service, or because there is no such position. The walk of a
seek ends at a slot of the ring, or never. -/
def Log.Answers : (o : Section) → Log → SectionRes o → Log → Prop
  | .call c, l, r, l' => l.apply ⟨c.val, .calm 0⟩ = .ok (some (r, l')) ∨
      (l.Refuses c.val r ∨ l.Invalid c.val ∧ r = .ofRetval (-einval)) ∧ l' = l
  | .outOffs, l, i, l' => i.val = l.outOffs ∧ l' = l
  | .slotSize i, l, size, l' => size = l.slotSize i ∧ l' = l
  | .strayLoad _, l, _, l' => l' = l
  | .copySeekto arg, l, q, l' => q.2 = arg ∧ l' = l
  | .seek filp trav index offset, l, r, l' =>
      (∃ slot : Fin 10, index = (slot : ℕ) ∧ r = 0 ∧ l' = l.seekTo filp
        (uint32 (l.span trav ((slot.val + 10 - trav) % 10) + offset.toNat))) ∨
      r = -erestartsys ∧ l' = l

/-- The error number that the driver returns when this service has failed. -/
def serviceError : Event kernel → Option ℤ
  | ⟨.kmalloc _, p⟩ | ⟨.krealloc _ _, p⟩ => if p = Ptr.null then some (-enomem) else none
  | ⟨.copyFromUser _ _, left⟩ => if left = (0 : ℕ) then none else some (-efault)
  | ⟨.copySeektoFromUser _, q⟩ | ⟨.copyToUser _ _ _, q⟩ =>
      if q.1 = 0 then none else some (-efault)
  | ⟨.mutexLockInterruptible, err⟩ => if err = (0 : ℤ) then none else some (-erestartsys)
  | _ => none

/-- The error number of a section that has failed for want of a service. -/
def sectionError : Event sections → Option ℤ
  | ⟨.call _, r⟩ => if r.Refused then some r.retval else none
  | ⟨.copySeekto _, q⟩ => if q.1 = 0 then none else some (-efault)
  | ⟨.seek _ _ _ _, r⟩ => if r = (0 : ℤ) then none else some r
  | _ => none

/-- The code of a section on its own. -/
theorem link_atOnce (o : sections.Op) : (atOnce o).link sectionText = sectionText o := by
  rw [atOnce, Prog.link]
  exact bind_pure _

/-- The size read without the mutex is one section. -/
theorem link_checkedSection (index : ℤ) :
    (checkedSection index).link sectionText = entrySize index := by
  rw [checkedSection, entrySize]
  split
  · rw [link_atOnce]
    rfl
  · rw [link_atOnce]
    rfl

theorem link_ioctlSections (filp : File) (cmd : ℕ) (arg : AesdSeekto) :
    (ioctlSections filp cmd arg).link sectionText = aesdUnlockedIoctl filp cmd arg := by
  have hite : ∀ {φ : Prop} [Decidable φ] (p q : Prog sections ℤ),
      (if φ then p else q).link sectionText =
        if φ then p.link sectionText else q.link sectionText := fun p q => apply_ite _ _ _ _
  have houtOffs : Prog.link (α := Fin 10) sectionText (atOnce .outOffs) =
      .call .loadDev fun dev => .pure ⟨dev.circBuf.outOffs, dev.circBuf.outOffs_lt⟩ :=
    link_atOnce .outOffs
  have hcopy : Prog.link (α := ℕ × AesdSeekto) sectionText (atOnce (.copySeekto arg)) =
      .call (.copySeektoFromUser arg) .pure := link_atOnce (.copySeekto arg)
  have hseek : ∀ trav index offset, Prog.link (α := ℤ) sectionText
      (atOnce (.seek filp trav index offset)) =
        aesdUnlockedIoctl.seek filp (trav : ℕ) index offset := fun trav index offset =>
    link_atOnce (.seek filp trav index offset)
  simp only [ioctlSections, seekSections, aesdUnlockedIoctl, Prog.bind_eq, Prog.pure_eq, link_bind,
    hite, link_checkedSection, houtOffs, hcopy, hseek, loadDev, copySeektoFromUser, Prog.call_bind,
    Prog.pure_bind, Prog.link, seekIndex]

/-- **The code of a call is the code of its sections.** -/
theorem callText_eq (c : lockedCalls.Op) : callText c = (callSections c).link sectionText := by
  obtain ⟨call, htakes⟩ := c
  cases call with
  | «open» filp => cases htakes
  | release filp => cases htakes
  | read filp count => exact (link_atOnce (.call ⟨.read filp count, rfl⟩)).symm
  | write filp buf =>
      exact (link_atOnce (.call ⟨.write filp buf, Call.locksFirst_write filp buf⟩)).symm
  | llseek filp offset whence =>
      exact (link_atOnce (.call ⟨.llseek filp offset whence, rfl⟩)).symm
  | ioctl filp cmd arg =>
      rw [callSections, Prog.bind_eq, link_bind, link_ioctlSections]
      rfl

end Aesd.CharDriver

import Aesd.CharDriver.LineLog

/-! # What each call does to the log

The device seen from outside is a machine over the stream it has been fed and the positions of the
open files. `Log.apply` is its transition function: a call either fails, and then leaves the log as
it is, or gives a reply and the next log; a seek may also never return. It uses neither pointers nor
slots, apart from the number of the oldest slot, which decides where a seek request that is out of
range ends up. -/

namespace Aesd.CharDriver

open Memory Effects Streams

instance (env : Env) (buf : List UInt8) : Decidable (WriteTurnedAway env buf) :=
  inferInstanceAs (Decidable (_ ∨ _ ∨ _ ∨ _))

/-- The value of `command_index` after the reduction in `aesd_unlocked_ioctl`. -/
def seekIndex (writeCmd : UInt32) (outOffs : ℕ) : ℤ :=
  (int32 (int32 writeCmd.toNat + outOffs)).tmod aesdcharMaxWriteOperationsSupported

/-- The stream fed to the device, and the position of each open file. -/
structure Log where
  /-- The concatenation of what the writes consumed. -/
  stream : List UInt8
  /-- `f_pos` of each file. -/
  fPos : File → ℤ

namespace Log

variable (l : Log)

/-- The commands that can be read, oldest first. -/
def commands : List (List UInt8) := (lines isNewline l.stream).rtake 10

/-- What reading from the start to the end delivers. -/
def contents : List UInt8 := l.commands.flatten

/-- The bytes after the last newline. -/
def pending : List UInt8 := rest isNewline l.stream

/-- The slot of the oldest command. -/
def outOffs : ℕ := ((lines isNewline l.stream).length - 10) % 10

/-- How many commands lie between the oldest one and slot `i`. -/
def age (i : ℕ) : ℕ := (i + 10 - l.outOffs) % 10

/-- The size of the command in slot `i`, zero for an unused slot. -/
def slotSize (i : ℕ) : ℕ := l.commands[l.age i]?.elim 0 List.length

/-- The same log with another position of one file. -/
def seekTo (filp : File) (pos : ℤ) : Log := { l with fPos := Function.update l.fPos filp pos }

/-- The working entry cannot be extended by the first line of the buffer. -/
def WriteRefused (env : Env) (buf : List UInt8) : Prop :=
  env.kreallocOk = false ∨
    allocationLimit < l.pending.length + (firstLine isNewline buf).length

instance (env : Env) (buf : List UInt8) : Decidable (l.WriteRefused env buf) :=
  inferInstanceAs (Decidable (_ ∨ _))

/-- `write`: the stream grows by the first line of the buffer. -/
def write (env : Env) (buf : List UInt8) : Option (Reply × Log) :=
  if WriteTurnedAway env buf ∨ l.WriteRefused env buf then none
  else some (.ofRetval (firstLine isNewline buf).length,
    { l with stream := l.stream ++ firstLine isNewline buf })

/-- `read`: at most `count` bytes, from one command only. -/
def read (env : Env) (filp : File) (count : ℕ) : Option (Reply × Log) :=
  if env.lockOk = false then none
  else match locate (l.commands.map List.length) (toSizeT (l.fPos filp)) with
    | none => some (⟨0, []⟩, l)
    | some (i, o) =>
        let bytes := ((l.commands.getD i []).drop o).take count
        if min env.notCopied bytes.length ≠ 0 then none
        else some (⟨bytes.length, bytes⟩, l.seekTo filp (int64 (l.fPos filp + bytes.length)))

/-- The position an `llseek` asks for. -/
def llseekTarget (filp : File) (offset whence : ℤ) : Option ℤ :=
  if whence = seekSet then some offset
  else if whence = seekCur then some (int64 (l.fPos filp + offset))
  else if whence = seekEnd then some (int64 (l.contents.length + offset))
  else none

/-- `llseek`. -/
def llseek (env : Env) (filp : File) (offset whence : ℤ) : Option (Reply × Log) :=
  if env.lockOk = false then none
  else (l.llseekTarget filp offset whence).bind fun newpos =>
    if newpos < 0 then none else some (.ofRetval newpos, l.seekTo filp newpos)

/-- `unlocked_ioctl`: a seek to an offset in a slot. Towards a negative slot the walk never ends. -/
def ioctl (env : Env) (filp : File) (cmd : ℕ) (arg : AesdSeekto) :
    Except Stop (Option (Reply × Log)) :=
  if cmd ≠ aesdcharIocseekto then .ok (some (.ofRetval 0, l))
  else if min env.notCopied sizeofSeekto ≠ 0 then .ok none
  else
    let index := seekIndex arg.writeCmd l.outOffs
    let size := if 0 ≤ index then l.slotSize index.toNat else env.stray index
    if arg.writeCmdOffset.toNat > size ∨ env.lockOk = false then .ok none
    else if index < 0 then .error .hang
    else
      let before := ((l.commands.take (l.age index.toNat)).map List.length).sum
      .ok (some (.ofRetval 0, l.seekTo filp (uint32 (before + arg.writeCmdOffset.toNat))))

/-- One call: `none` for a call that fails. -/
def apply (i : Invocation) : Except Stop (Option (Reply × Log)) :=
  match i.call with
  | .open filp => .ok (some (.ofRetval 0, l.seekTo filp 0))
  | .release _ => .ok (some (.ofRetval 0, l))
  | .read filp count => .ok (l.read i.env filp count)
  | .write _ buf => .ok (l.write i.env buf)
  | .llseek filp offset whence => .ok (l.llseek i.env filp offset whence)
  | .ioctl filp cmd arg => l.ioctl i.env filp cmd arg

end Log

/-- The state between two calls stands for the log. -/
structure Stands (w : World) (l : Log) : Prop where
  /-- The device stands for the stream. -/
  represents : Represents w l.stream
  /-- The positions are the same. -/
  fPos : w.fPos = l.fPos

/-- What the driver does is what the machine over the log says. -/
def Simulates (l : Log) (result : Except Stop (Reply × World)) :
    Except Stop (Option (Reply × Log)) → Prop
  | .error s => result = .error s
  | .ok none => ∃ r w', result = .ok (r, w') ∧ r.Failed ∧ Stands w' l
  | .ok (some (r, l')) => ∃ w', result = .ok (r, w') ∧ ¬r.Failed ∧ Stands w' l'

/-- **The harmful write.** `krealloc` is refused while the working entry holds bytes. -/
def Spoils (i : Invocation) (w : World) : Prop :=
  match i.call with
  | .write _ buf => ¬WriteTurnedAway i.env buf ∧ w.dev.workingEntry.size ≠ 0 ∧
      (i.env.kreallocOk = false ∨
        allocationLimit < w.dev.workingEntry.size + (firstLine isNewline buf).length)
  | _ => False

instance (w : World) : (i : Invocation) → Decidable (Spoils i w)
  | ⟨.write _ _, _⟩ => inferInstanceAs (Decidable (¬(_ ∨ _ ∨ _ ∨ _) ∧ _ ∧ _))
  | ⟨.open _, _⟩ | ⟨.release _, _⟩ | ⟨.read _ _, _⟩ => inferInstanceAs (Decidable False)
  | ⟨.llseek _ _ _, _⟩ | ⟨.ioctl _ _ _, _⟩ => inferInstanceAs (Decidable False)

end Aesd.CharDriver

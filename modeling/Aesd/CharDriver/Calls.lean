import Aesd.CharDriver.Main

/-! # Sequences of driver calls

One call of a file operation at a time, each with the decisions the kernel takes during it, and what
can be observed of the device between calls: the retained commands, the bytes accumulated in the
working entry, and the entries that own memory. -/

namespace Aesd.CharDriver

open Memory Effects

/-- A call of one of the file operations. -/
inductive Call where
  /-- `open`. -/
  | open (filp : File)
  /-- `release`. -/
  | release (filp : File)
  /-- `read` into a buffer of `count` bytes. -/
  | read (filp : File) (count : ℕ)
  /-- `write` of the bytes of a buffer. -/
  | write (filp : File) (buf : List UInt8)
  /-- `llseek`. -/
  | llseek (filp : File) (offset whence : ℤ)
  /-- `unlocked_ioctl`. -/
  | ioctl (filp : File) (cmd : ℕ) (arg : AesdSeekto)

/-- The file a call is made on. -/
def Call.file : Call → File
  | .open filp | .release filp | .read filp _ | .write filp _ | .llseek filp _ _
  | .ioctl filp _ _ => filp

/-- The bytes handed to a write. -/
def Call.data : Call → List UInt8
  | .write _ buf => buf
  | _ => []

/-- Only writes carry data. -/
theorem Call.data_eq_nil {call : Call} (h : ∀ filp buf, call ≠ .write filp buf) :
    call.data = [] := by
  cases call with
  | write filp buf => exact absurd rfl (h filp buf)
  | _ => rfl

/-- What a call gives back: its return value and the bytes stored in the caller's buffer. -/
structure Reply where
  /-- The return value. -/
  retval : ℤ
  /-- The bytes stored in the caller's buffer. -/
  bytes : List UInt8
  deriving DecidableEq, Repr

/-- A reply without bytes. -/
def Reply.ofRetval (retval : ℤ) : Reply := ⟨retval, []⟩

/-- The text of a call (`aesd_fops`). -/
def Call.text : Call → Driver Reply
  | .open filp => do return .ofRetval (← aesdOpen filp)
  | .release filp => do return .ofRetval (← aesdRelease filp)
  | .read filp count => do
      let (retval, bytes) ← aesdRead filp count
      return ⟨retval, bytes⟩
  | .write _ buf => do return .ofRetval (← aesdWrite buf)
  | .llseek filp offset whence => do return .ofRetval (← aesdLlseek filp offset whence)
  | .ioctl filp cmd arg => do return .ofRetval (← aesdUnlockedIoctl filp cmd arg)

/-- A call together with what the kernel decides during it. -/
structure Invocation where
  /-- The call. -/
  call : Call
  /-- The kernel's decisions. -/
  env : Env

/-- A call during which every service succeeds. -/
def Env.calm (task : ℕ) : Env where
  task := task
  kmallocOk := true
  kreallocOk := true
  inPlace := false
  notCopied := 0
  lockOk := true
  junk := fun _ => 0
  stray := fun _ => 0

/-- Run a driver text to its end. Its only loop, the walk of the seek, visits ten slots before it
is back at the first, so a walk of more than ten rounds never ends. -/
def execute {α : Type} (env : Env) (text : Driver α) (w : World) : Except Stop (α × World) :=
  run (kernelStep env) .hang aesdcharMaxWriteOperationsSupported text w

/-- Make one call. -/
def invoke (i : Invocation) (w : World) : Except Stop (Reply × World) :=
  execute i.env i.call.text w

/-- Make calls one after the other. -/
def invokeAll : List Invocation → World → Except Stop (List Reply × World)
  | [], w => .ok ([], w)
  | i :: is, w => do
      let (r, w) ← invoke i w
      let (rs, w) ← invokeAll is w
      return (r :: rs, w)

/-- `P` holds of each call in the state it is made in. -/
def Throughout (P : Invocation → World → Prop) : List Invocation → World → Prop
  | [], _ => True
  | i :: is, w => P i w ∧
      match invoke i w with
      | .ok (_, w') => Throughout P is w'
      | .error _ => True

instance Throughout.decidable {P : Invocation → World → Prop} [∀ i w, Decidable (P i w)] :
    (is : List Invocation) → (w : World) → Decidable (Throughout P is w)
  | [], _ => .isTrue trivial
  | i :: is, w =>
      have : Decidable (match invoke i w with
          | .ok (_, w') => Throughout P is w'
          | .error _ => True) :=
        match invoke i w with
        | .ok (_, w') => Throughout.decidable is w'
        | .error _ => .isTrue trivial
      inferInstanceAs (Decidable (_ ∧ _))

/-- The call failed. -/
def Reply.Failed (r : Reply) : Prop := r.retval < 0

instance (r : Reply) : Decidable r.Failed := inferInstanceAs (Decidable (r.retval < 0))

namespace World

variable (w : World)

/-- The bytes that can be read through an entry, if all of them can. -/
def entryBytes (e : AesdBufferEntry) : Option (List UInt8) :=
  if e.size = 0 then some []
  else (w.heap.read e.buffptr).bind fun bytes =>
    if e.size ≤ bytes.length then some (bytes.take e.size) else none

/-- The retained commands, oldest first. -/
def retained : List (Option (List UInt8)) := w.dev.circBuf.retained.map w.entryBytes

/-- The concatenation of the retained commands, oldest first. -/
def contents : List UInt8 := (w.retained.map (·.getD [])).flatten

/-- The bytes accumulated in the working entry. -/
def pending : Option (List UInt8) := w.entryBytes w.dev.workingEntry

/-- The entries that own memory: the working entry and all slots of the ring. -/
def owners : List AesdBufferEntry := w.dev.workingEntry :: w.dev.circBuf.entry.toList

end World

section Invoke

variable {i : Invocation} {is js : List Invocation} {r : Reply} {rs : List Reply} {w w' : World}
  {e : Stop} {P : Invocation → World → Prop}

@[simp] theorem invokeAll_nil : invokeAll [] w = .ok ([], w) := rfl

theorem invokeAll_cons (h : invoke i w = .ok (r, w')) :
    invokeAll (i :: is) w = (invokeAll is w').map fun q => (r :: q.1, q.2) := by
  simp only [invokeAll, h, bind, Except.bind]
  cases invokeAll is w' <;> rfl

theorem invokeAll_cons_ok (h : invokeAll (i :: is) w = .ok (rs, w')) :
    ∃ r w₁ rs', invoke i w = .ok (r, w₁) ∧ invokeAll is w₁ = .ok (rs', w') ∧ rs = r :: rs' := by
  cases hi : invoke i w with
  | error e => simp [invokeAll, hi, bind, Except.bind] at h
  | ok q =>
      obtain ⟨r, w₁⟩ := q
      rw [invokeAll_cons hi] at h
      cases his : invokeAll is w₁ with
      | error e => simp [his, Except.map] at h
      | ok q =>
          obtain ⟨rs', w₂⟩ := q
          simp only [his, Except.map, Except.ok.injEq, Prod.mk.injEq] at h
          exact ⟨r, w₁, rs', rfl, by rw [his, h.2], h.1.symm⟩

theorem invokeAll_error (h : invoke i w = .error e) : invokeAll (i :: is) w = .error e := by
  rw [invokeAll, h]
  rfl

/-- Calls of a longer sequence come after those of its beginning. -/
theorem invokeAll_append (h : invokeAll is w = .ok (rs, w')) :
    invokeAll (is ++ js) w = (invokeAll js w').map fun q => (rs ++ q.1, q.2) := by
  induction is generalizing w rs with
  | nil =>
      rw [invokeAll_nil, Except.ok.injEq, Prod.mk.injEq] at h
      obtain ⟨rfl, rfl⟩ := h
      rw [List.nil_append]
      cases invokeAll js w <;> rfl
  | cons i is ih =>
      obtain ⟨r, w₁, rs', hi, his, rfl⟩ := invokeAll_cons_ok h
      rw [List.cons_append, invokeAll_cons hi, ih his]
      cases invokeAll js w' <;> rfl

/-- One more call at the end. -/
theorem invokeAll_concat (h : invokeAll is w = .ok (rs, w')) {w₁ : World}
    (hi : invoke i w' = .ok (r, w₁)) : invokeAll (is ++ [i]) w = .ok (rs ++ [r], w₁) := by
  rw [invokeAll_append h, invokeAll_cons hi]
  rfl

/-- Every call that was made has a reply. -/
theorem length_invokeAll (h : invokeAll is w = .ok (rs, w')) : is.length = rs.length := by
  induction is generalizing w rs with
  | nil =>
      rw [invokeAll_nil, Except.ok.injEq, Prod.mk.injEq] at h
      exact congrArg List.length h.1
  | cons i is ih =>
      obtain ⟨r, w₁, rs', -, his, rfl⟩ := invokeAll_cons_ok h
      rw [List.length_cons, List.length_cons, ih his]

theorem throughout_cons (h : invoke i w = .ok (r, w')) :
    Throughout P (i :: is) w ↔ P i w ∧ Throughout P is w' := by
  rw [Throughout, h]

/-- What holds throughout a sequence of calls holds throughout its beginning. -/
theorem Throughout.of_append (h : Throughout P (is ++ js) w) : Throughout P is w := by
  induction is generalizing w with
  | nil => trivial
  | cons i is ih =>
      rw [List.cons_append, Throughout] at h
      refine ⟨h.1, ?_⟩
      cases hi : invoke i w with
      | error e => trivial
      | ok q =>
          obtain ⟨r, w₁⟩ := q
          have hrest := h.2
          rw [hi] at hrest
          exact ih hrest

/-- A condition that fails somewhere fails at some call for the first time. -/
theorem exists_first_of_not_throughout (h : ¬Throughout P is w) :
    ∃ pre i post rs w', is = pre ++ i :: post ∧ Throughout P pre w ∧
      invokeAll pre w = .ok (rs, w') ∧ ¬P i w' := by
  induction is generalizing w with
  | nil => exact absurd trivial h
  | cons i is ih =>
      by_cases hp : P i w
      · cases hi : invoke i w with
        | error e =>
            refine absurd (show Throughout P (i :: is) w from ?_) h
            rw [Throughout, hi]
            exact ⟨hp, trivial⟩
        | ok q =>
            obtain ⟨r, w₁⟩ := q
            rw [throughout_cons hi, not_and] at h
            obtain ⟨pre, j, post, rs, w', rfl, hpre, hrun, hj⟩ := ih (h hp)
            exact ⟨i :: pre, j, post, r :: rs, w', rfl, (throughout_cons hi).mpr ⟨hp, hpre⟩,
              by rw [invokeAll_cons hi, hrun]; rfl, hj⟩
      · exact ⟨[], i, is, [], w, rfl, trivial, rfl, hp⟩

end Invoke

end Aesd.CharDriver

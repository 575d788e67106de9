import Aesd.CharDriver.Simulation

/-! # The write side refines a line log

Writes whose allocations, copies and locks all succeed, made through any files: what they leave
behind depends only on the concatenation of the bytes they consumed. -/

namespace Aesd.CharDriver

open Memory Effects Streams

/-- A write whose `kmalloc`, `copy_from_user`, `mutex_lock_interruptible` and `krealloc` succeed, or
the opening or closing of a file. -/
def WriteServed (i : Invocation) (w : World) : Prop :=
  match i.call with
  | .write _ buf => ¬WriteTurnedAway i.env buf ∧ i.env.kreallocOk = true ∧
      w.dev.workingEntry.size + (firstLine isNewline buf).length ≤ allocationLimit
  | .open _ | .release _ => True
  | _ => False

instance (w : World) : (i : Invocation) → Decidable (WriteServed i w)
  | ⟨.write _ _, _⟩ => inferInstanceAs (Decidable (¬(_ ∨ _ ∨ _ ∨ _) ∧ _ ∧ _))
  | ⟨.open _, _⟩ | ⟨.release _, _⟩ => inferInstanceAs (Decidable True)
  | ⟨.read _ _, _⟩ | ⟨.llseek _ _ _, _⟩ | ⟨.ioctl _ _ _, _⟩ => inferInstanceAs (Decidable False)

/-- What the calls consumed: of each buffer as many bytes as the call returned. -/
def consumed (is : List Invocation) (rs : List Reply) : List UInt8 :=
  (List.zipWith (fun i r => i.call.data.take r.retval.toNat) is rs).flatten

theorem consumed_cons (i : Invocation) (is : List Invocation) (r : Reply) (rs : List Reply) :
    consumed (i :: is) (r :: rs) = i.call.data.take r.retval.toNat ++ consumed is rs := rfl

/-- Calls that return the lengths of the first lines have consumed these. -/
theorem consumed_eq {is : List Invocation} {rs : List Reply}
    (h : rs.map Reply.retval = is.map fun i => ((firstLine isNewline i.call.data).length : ℤ)) :
    consumed is rs = (is.map fun i => firstLine isNewline i.call.data).flatten := by
  induction is generalizing rs with
  | nil => rfl
  | cons i is ih =>
      cases rs with
      | nil => cases h
      | cons r rs =>
          rw [List.map_cons, List.map_cons, List.cons.injEq] at h
          rw [consumed_cons, ih h.2, h.1, Int.toNat_natCast, take_firstLine]
          rfl

section Writes

variable {w : World} {l : Log} {i : Invocation} {is : List Invocation}

/-- A served write is not a harmful one. -/
theorem WriteServed.not_spoils (hs : WriteServed i w) : ¬Spoils i w := by
  obtain ⟨call, env⟩ := i
  cases call with
  | write filp buf =>
      obtain ⟨-, hok, hfit⟩ := hs
      rintro ⟨-, -, hno | hno⟩
      · exact absurd (hok.symm.trans hno) (by decide)
      · exact absurd hfit (not_le.mpr hno)
  | _ => exact fun h => h

/-- The step lemma: a served write returns the length of the first line of its buffer and feeds this
line to the log. -/
theorem Stands.served (h : Stands w l) (hs : WriteServed i w) :
    ∃ w' l', invoke i w = .ok (.ofRetval (firstLine isNewline i.call.data).length, w') ∧
      Stands w' l' ∧ l'.stream = l.stream ++ firstLine isNewline i.call.data := by
  have hsim := h.simulates hs.not_spoils
  obtain ⟨call, env⟩ := i
  cases call with
  | «open» filp =>
      obtain ⟨w', hi, -, h'⟩ := hsim
      exact ⟨w', _, hi, h', (List.append_nil _).symm⟩
  | release filp =>
      obtain ⟨w', hi, -, h'⟩ := hsim
      exact ⟨w', _, hi, h', (List.append_nil _).symm⟩
  | write filp buf =>
      obtain ⟨haway, hok, hfit⟩ := hs
      -- there is room for the line
      have hrefused : ¬l.WriteRefused env buf := by
        rw [h.represents.working.size] at hfit
        rintro (hno | hno)
        · exact absurd (hok.symm.trans hno) (by decide)
        · exact absurd hfit (not_le.mpr hno)
      have happ : l.apply ⟨.write filp buf, env⟩ = .ok (some (.ofRetval (firstLine isNewline buf).length,
          { l with stream := l.stream ++ firstLine isNewline buf })) := by
        show Except.ok (l.write env buf) = _
        rw [Log.write, if_neg (not_or.mpr ⟨haway, hrefused⟩)]
      rw [happ] at hsim
      obtain ⟨w', hi, -, h'⟩ := hsim
      exact ⟨w', _, hi, h', rfl⟩
  | read filp count => exact hs.elim
  | llseek filp offset whence => exact hs.elim
  | ioctl filp cmd arg => exact hs.elim

/-- The run lemma: the log grows by what is consumed. -/
theorem Stands.allServed (h : Stands w l) (hs : Throughout WriteServed is w) :
    ∃ rs w' l', invokeAll is w = .ok (rs, w') ∧
      rs.map Reply.retval = is.map (fun i => ((firstLine isNewline i.call.data).length : ℤ)) ∧
      Stands w' l' ∧ l'.stream = l.stream ++ consumed is rs := by
  induction is generalizing w l with
  | nil => exact ⟨[], w, l, rfl, rfl, h, by simp [consumed]⟩
  | cons i is ih =>
      obtain ⟨w₁, l₁, hi, h₁, hstream⟩ := h.served hs.1
      rw [throughout_cons hi] at hs
      obtain ⟨rs, w', l', hrun, hret, h', hstream'⟩ := ih h₁ hs.2
      refine ⟨_ :: rs, w', l', by rw [invokeAll_cons hi, hrun]; rfl, ?_, h', ?_⟩
      · rw [List.map_cons, List.map_cons, hret]
        rfl
      · rw [hstream', hstream, consumed_cons, Reply.ofRetval, Int.toNat_natCast, take_firstLine,
          List.append_assoc]

/-- A state that served writes lead to stands for a log. -/
theorem exists_stands_of_served {rs : List Reply} (hs : Throughout WriteServed is aesdInitModule)
    (hrun : invokeAll is aesdInitModule = .ok (rs, w)) : ∃ l, Stands w l := by
  obtain ⟨rs', w', l, hrun', -, h, -⟩ := stands_init.allServed hs
  rw [hrun, Except.ok.injEq, Prod.mk.injEq] at hrun'
  exact ⟨l, hrun'.2 ▸ h⟩

end Writes

/-- **The write side refines a line log.** Every served write consumes its buffer up to and
including the first newline; afterwards the ring holds the last ten lines of the concatenation `S`
of what was consumed, and the working entry the bytes after its last newline. -/
theorem aesdWrite_refines_lines (is : List Invocation)
    (hs : Throughout WriteServed is aesdInitModule) :
    ∃ rs w, invokeAll is aesdInitModule = .ok (rs, w) ∧
      rs.map Reply.retval = is.map (fun i => ((firstLine isNewline i.call.data).length : ℤ)) ∧
      w.retained = ((lines isNewline (consumed is rs)).rtake 10).map some ∧
      w.pending = some (rest isNewline (consumed is rs)) := by
  obtain ⟨rs, w, l, hrun, hret, h, hstream⟩ := stands_init.allServed hs
  rw [show Log.init.stream = [] from rfl, List.nil_append] at hstream
  refine ⟨rs, w, hrun, hret, ?_, ?_⟩
  · rw [h.retained, Log.commands, hstream]
  · rw [h.pending, Log.pending, hstream]

/-- A command and the beginning of the next one, from two files. -/
theorem aesdWrite_refines_lines_two_files :
    ∃ w, invokeAll [⟨.write 0 [97, newline, 98], .calm 0⟩, ⟨.write 1 [99], .calm 1⟩]
        aesdInitModule = .ok ([⟨2, []⟩, ⟨1, []⟩], w) ∧
      w.retained = [some [97, newline]] ∧ w.pending = some [99] := by
  obtain ⟨rs, w, hrun, -, hret, hpend⟩ := aesdWrite_refines_lines
    [⟨.write 0 [97, newline, 98], .calm 0⟩, ⟨.write 1 [99], .calm 1⟩] (by decide)
  have hrs : (invokeAll [⟨.write 0 [97, newline, 98], .calm 0⟩, ⟨.write 1 [99], .calm 1⟩]
      aesdInitModule).toOption.map Prod.fst = some [⟨2, []⟩, ⟨1, []⟩] := by decide
  rw [hrun] at hrs
  obtain rfl : rs = [⟨2, []⟩, ⟨1, []⟩] := Option.some.inj hrs
  exact ⟨w, hrun, hret, hpend⟩

end Aesd.CharDriver

import Aesd.CharDriver.Views

/-! # The driver simulates the log

On a state that stands for a log, every call that is not a harmful write does what the machine over
the log says, and leaves a state that stands for the next log. -/

namespace Aesd.CharDriver

open Memory Effects Streams

section Calls

variable {env : Env} {w : World} {l : Log} {filp : File}

theorem Stands.length_contents_lt (h : Stands w l) : l.contents.length < 2 ^ 62 :=
  h.shows.length_contents_lt

theorem Stands.outOffs (h : Stands w l) : w.dev.circBuf.outOffs = l.outOffs := h.shows.outOffs

/-- The slots from the oldest one on hold the commands. -/
theorem Stands.holds_slot (h : Stands w l) {i : ℕ} (hi : i < l.commands.length) :
    Holds w.heap (w.dev.circBuf.slot (w.dev.circBuf.outOffs + i)) l.commands[i] :=
  h.shows.holds_slot hi

/-- Positions of files play no part in what a state stands for. -/
theorem Represents.setFPos {S : List UInt8} (hr : Represents w S) {fPos : File → ℤ} :
    Represents { w with fPos } S :=
  ⟨⟨hr.ring, hr.commands, hr.nonempty, hr.working, hr.apart⟩, hr.unlocked⟩

/-- A call that changes nothing but positions leaves a state that stands for the next log. -/
theorem Stands.simulates_of_observes {result : Except Stop (Reply × World)}
    {answer : Except Stop (Option (Reply × Log))} (h : Stands w l)
    (hobs : Observes w l result answer) : Simulates l result answer := by
  cases answer with
  | error e => exact hobs
  | ok o =>
      cases o with
      | none =>
          obtain ⟨r, hok, hfail⟩ := hobs
          exact ⟨r, w, hok, hfail, h⟩
      | some q =>
          obtain ⟨hok, hfail, hstream⟩ := hobs
          exact ⟨_, hok, hfail, hstream ▸ h.represents.setFPos, rfl⟩

theorem Represents.frame {S : List UInt8} (hr : Represents w S) {h' : Heap}
    (hk : w.heap.Keeps h' .null) : Represents { w with heap := h' } S where
  toCarries := hr.toCarries.frame _ hk
  unlocked := hr.unlocked

theorem Stands.simulates_write (h : Stands w l) {buf : List UInt8}
    (hs : ¬Spoils ⟨.write filp buf, env⟩ w) :
    Simulates l (invoke ⟨.write filp buf, env⟩ w) (.ok (l.write env buf)) := by
  have hsize : w.dev.workingEntry.size = l.pending.length := h.represents.working.size
  rw [invoke, Log.write]
  by_cases haway : WriteTurnedAway env buf
  · rw [if_pos (.inl haway)]
    obtain ⟨retval, h', hneg, hcells, hexec⟩ :=
      execute_aesdWrite_of_turnedAway haway h.represents.unlocked
    exact ⟨.ofRetval retval, _, execute_bind _ hexec, hneg,
      h.represents.frame fun b _ _ => congrFun hcells b, h.fPos⟩
  · by_cases hrefused : l.WriteRefused env buf
    · -- a refusal does no harm while the working entry is empty
      rw [if_pos (.inr hrefused)]
      obtain ⟨h', hexec, hkeep, -⟩ := h.represents.write_refused haway hrefused
      refine ⟨.ofRetval (-enomem), _, execute_bind _ hexec, by decide, h.represents.frame ?_, h.fPos⟩
      have hempty : l.pending = [] := by
        by_contra hne
        refine hs ⟨haway, ?_, hsize ▸ hrefused⟩
        rw [hsize]
        simpa using hne
      have hbacks := h.represents.working.backs
      rw [show rest isNewline l.stream = [] from hempty] at hbacks
      intro b hb _
      refine hkeep b hb fun e => ?_
      rw [← e] at hbacks
      exact hbacks.2 rfl
    · rw [if_neg (not_or.mpr ⟨haway, hrefused⟩)]
      simp only [Log.WriteRefused, not_or, Bool.not_eq_false, not_lt] at hrefused
      obtain ⟨w', hexec, hr, hfPos, -⟩ := h.represents.write_granted haway hrefused.1 hrefused.2
      exact ⟨w', execute_bind _ hexec, by simp [Reply.Failed, Reply.ofRetval], hr, hfPos.trans h.fPos⟩

/-- **The simulation.** A call that is not a harmful write does what the log says. -/
theorem Stands.simulates {i : Invocation} (h : Stands w l) (hs : ¬Spoils i w) :
    Simulates l (invoke i w) (l.apply i) := by
  obtain ⟨call, env⟩ := i
  cases call with
  | «open» filp =>
      refine ⟨_, rfl, by simp [Reply.Failed, Reply.ofRetval], h.represents.setFPos, ?_⟩
      rw [h.fPos]
      rfl
  | release filp => exact ⟨w, rfl, by simp [Reply.Failed, Reply.ofRetval], h⟩
  | read filp count => exact h.simulates_of_observes (h.shows.observes_read count)
  | write filp buf => exact h.simulates_write hs
  | llseek filp offset whence =>
      exact h.simulates_of_observes (h.shows.observes_llseek offset whence)
  | ioctl filp cmd arg => exact h.simulates_of_observes (h.shows.observes_ioctl cmd arg)

end Calls

section Spoiled

variable {w v : World} {l : Log} {i : Invocation}

/-- Whether a write is harmful depends only on the log. -/
theorem Stands.spoils_congr (h : Stands w l) (h' : Stands v l) : Spoils i w ↔ Spoils i v := by
  have hsize : w.dev.workingEntry.size = v.dev.workingEntry.size :=
    h.represents.working.size.trans h'.represents.working.size.symm
  obtain ⟨call, env⟩ := i
  cases call with
  | write filp buf => rw [Spoils, Spoils, hsize]
  | _ => exact Iff.rfl

/-- **A harmful write** frees the block of the working entry, which keeps pointing to it. -/
theorem Stands.spoiled (h : Stands w l) (hs : Spoils i w) :
    ∃ b h', w.dev.workingEntry.buffptr = .block b ∧ h'.cells b = none ∧
      w.heap.Keeps h' (.block b) ∧ w.dev.workingEntry.size ≠ 0 ∧
      invoke i w = .ok (.ofRetval (-enomem), { w with heap := h' }) := by
  obtain ⟨call, env⟩ := i
  cases call with
  | write filp buf =>
      obtain ⟨haway, hsize, hrefused⟩ := hs
      have hne : rest isNewline l.stream ≠ [] := by
        rw [h.represents.working.size] at hsize
        exact List.ne_nil_of_length_pos (Nat.pos_of_ne_zero hsize)
      rw [h.represents.working.size] at hrefused
      obtain ⟨b, hb, -⟩ := h.represents.working.backs.eq_block hne
      obtain ⟨h', hexec, hkeep, hfreed, -⟩ := h.represents.write_refused haway hrefused
      exact ⟨b, h', hb, hfreed b hb, hb ▸ hkeep, hsize, execute_bind _ hexec⟩
  | «open» filp => exact hs.elim
  | release filp => exact hs.elim
  | read filp count => exact hs.elim
  | llseek filp offset whence => exact hs.elim
  | ioctl filp cmd arg => exact hs.elim

end Spoiled

section Runs

variable {w w' : World} {l l' : Log} {is : List Invocation}

/-- The log of the device just set up. -/
def Log.init : Log := ⟨[], fun _ => 0⟩

theorem stands_init : Stands aesdInitModule Log.init where
  represents :=
    { ring := ⟨[], AesdCircularBuffer.holdsLast_init, rfl⟩
      commands := .nil
      nonempty := fun _ hc => by simp [Log.init, List.rtake.eq_def] at hc
      working := ⟨rfl, Nat.zero_le _, rfl⟩
      apart := by simp [AesdCircularBuffer.retained, AesdCircularBuffer.count, aesdInitModule,
        aesdCircularBufferInit]
      unlocked := rfl }
  fPos := rfl

/-- The retained commands are the ones of the log. -/
theorem Stands.retained (h : Stands w l) : w.retained = l.commands.map some :=
  forall₂_holds_entryBytes h.represents.commands

theorem Stands.contents (h : Stands w l) : w.contents = l.contents := by
  rw [World.contents, h.retained, List.map_map, Log.contents]
  simp [Function.comp_def]

/-- The working entry holds the unfinished line. -/
theorem Stands.pending (h : Stands w l) : w.pending = some l.pending :=
  h.represents.working.entryBytes

/-- A call that returns leaves a state that stands for some log. -/
theorem Stands.returns {i : Invocation} {r : Reply} (h : Stands w l) (hs : ¬Spoils i w)
    (hi : invoke i w = .ok (r, w')) :
    r.Failed ∧ l.apply i = .ok none ∧ Stands w' l ∨
      ¬r.Failed ∧ ∃ l', l.apply i = .ok (some (r, l')) ∧ Stands w' l' := by
  have hsim := h.simulates hs
  cases happ : l.apply i with
  | error e =>
      rw [happ, hi] at hsim
      cases hsim
  | ok o =>
      cases o with
      | none =>
          rw [happ] at hsim
          obtain ⟨r₁, w₁, hok, hfail, hstand⟩ := hsim
          rw [hi, Except.ok.injEq, Prod.mk.injEq] at hok
          obtain ⟨rfl, rfl⟩ := hok
          exact .inl ⟨hfail, rfl, hstand⟩
      | some q =>
          obtain ⟨r₁, l₁⟩ := q
          rw [happ] at hsim
          obtain ⟨w₁, hok, hfail, hstand⟩ := hsim
          rw [hi, Except.ok.injEq, Prod.mk.injEq] at hok
          obtain ⟨rfl, rfl⟩ := hok
          exact .inr ⟨hfail, l₁, rfl, hstand⟩

/-- A call that succeeds is a step of the log, harmful or not. -/
theorem Stands.granted {i : Invocation} {r : Reply} (h : Stands w l) (hi : invoke i w = .ok (r, w'))
    (hr : ¬r.Failed) : ∃ l', l.apply i = .ok (some (r, l')) ∧ Stands w' l' := by
  have hs : ¬Spoils i w := by
    intro hs
    obtain ⟨b, h', -, -, -, -, hok⟩ := h.spoiled hs
    rw [hi, Except.ok.injEq, Prod.mk.injEq] at hok
    exact hr (by rw [hok.1]; decide)
  rcases h.returns hs hi with ⟨hfail, -⟩ | ⟨-, hgranted⟩
  · exact absurd hfail hr
  · exact hgranted

/-- A call that succeeds feeds the first line of what it writes, and moves the position of its own
file only. -/
theorem Log.apply_effect {i : Invocation} {r : Reply} {l' : Log}
    (h : l.apply i = .ok (some (r, l'))) :
    l'.stream = l.stream ++ firstLine isNewline i.call.data ∧
      ∀ filp, filp ≠ i.call.file → l'.fPos filp = l.fPos filp := by
  have hseek : ∀ filp pos, (l.seekTo filp pos).stream = l.stream ++ firstLine isNewline [] ∧
      ∀ f, f ≠ filp → (l.seekTo filp pos).fPos f = l.fPos f := fun filp pos =>
    ⟨(List.append_nil _).symm, fun f hf => Function.update_of_ne hf _ _⟩
  have hsame : ∀ filp : File, l.stream = l.stream ++ firstLine isNewline [] ∧
      ∀ f, f ≠ filp → l.fPos f = l.fPos f := fun _ => ⟨(List.append_nil _).symm, fun _ _ => rfl⟩
  -- only a write feeds the log; the others move one position or none
  obtain ⟨call, env⟩ := i
  cases call with
  | «open» filp =>
      cases h
      exact hseek filp 0
  | release filp =>
      cases h
      exact hsame filp
  | read filp count =>
      have hread : l.read env filp count = some (r, l') := Except.ok.inj h
      rw [Log.read] at hread
      split at hread
      · cases hread
      split at hread
      · cases hread
        exact hsame filp
      · simp only at hread
        split at hread
        · cases hread
        · cases hread
          exact hseek filp _
  | write filp buf =>
      have hwrite : l.write env buf = some (r, l') := Except.ok.inj h
      rw [Log.write] at hwrite
      split at hwrite
      · cases hwrite
      · cases hwrite
        exact ⟨rfl, fun _ _ => rfl⟩
  | llseek filp offset whence =>
      have hllseek : l.llseek env filp offset whence = some (r, l') := Except.ok.inj h
      rw [Log.llseek] at hllseek
      split at hllseek
      · cases hllseek
      obtain ⟨newpos, -, hpos⟩ := Option.bind_eq_some_iff.mp hllseek
      split at hpos
      · cases hpos
      · cases hpos
        exact hseek filp _
  | ioctl filp cmd arg =>
      have hioctl : l.ioctl env filp cmd arg = .ok (some (r, l')) := h
      rw [Log.ioctl] at hioctl
      simp only at hioctl
      split_ifs at hioctl
      all_goals first
        | cases hioctl; exact hsame filp
        | cases hioctl; exact hseek filp _
        | cases hioctl

/-- The only way not to return is to wait for ever. -/
theorem Log.apply_error {i : Invocation} {e : Stop} (h : l.apply i = .error e) : e = .hang := by
  obtain ⟨call, env⟩ := i
  cases call with
  | ioctl filp cmd arg =>
      have hioctl : l.ioctl env filp cmd arg = .error e := h
      rw [Log.ioctl] at hioctl
      simp only at hioctl
      split_ifs at hioctl
      all_goals exact (Except.error.inj hioctl).symm
  | _ => cases h

/-- Without harmful writes a sequence of calls returns, or ends in a call that never does. -/
theorem Stands.invokeAll_cases (h : Stands w l) (hs : Throughout (fun i w => ¬Spoils i w) is w) :
    invokeAll is w = .error .hang ∨ ∃ rs w', invokeAll is w = .ok (rs, w') := by
  induction is generalizing w l with
  | nil => exact .inr ⟨[], w, rfl⟩
  | cons i is ih =>
      cases hi : invoke i w with
      | error e =>
          -- a call that stops is one that never returns
          have hsim := h.simulates hs.1
          cases happ : l.apply i with
          | error e' =>
              rw [happ] at hsim
              rw [Log.apply_error happ] at hsim
              exact .inl (invokeAll_error hsim)
          | ok o =>
              rw [happ, hi] at hsim
              cases o with
              | none => obtain ⟨r, w', hok, -⟩ := hsim; cases hok
              | some q => obtain ⟨w', hok, -⟩ := hsim; cases hok
      | ok q =>
          obtain ⟨r, w₁⟩ := q
          rw [throughout_cons hi] at hs
          -- a call that returns leaves a state that stands for a log again
          have hrest : invokeAll is w₁ = .error .hang ∨ ∃ rs w', invokeAll is w₁ = .ok (rs, w') := by
            rcases h.returns hs.1 hi with ⟨-, -, h₁⟩ | ⟨-, l₁, -, h₁⟩
            · exact ih h₁ hs.2
            · exact ih h₁ hs.2
          rw [invokeAll_cons hi]
          rcases hrest with hhang | ⟨rs, w', hrun⟩
          · rw [hhang]
            exact .inl rfl
          · rw [hrun]
            exact .inr ⟨_, w', rfl⟩

/-- The run lemma: without harmful writes the state after any sequence of calls stands for a log. -/
theorem Stands.exists_of_invokeAll {rs : List Reply} (h : Stands w l)
    (hs : Throughout (fun i w => ¬Spoils i w) is w)
    (hrun : invokeAll is w = .ok (rs, w')) : ∃ l', Stands w' l' := by
  induction is generalizing w l rs with
  | nil =>
      rw [invokeAll_nil, Except.ok.injEq, Prod.mk.injEq] at hrun
      exact ⟨l, hrun.2 ▸ h⟩
  | cons i is ih =>
      obtain ⟨r, w₁, rs', hi, his, rfl⟩ := invokeAll_cons_ok hrun
      rw [throughout_cons hi] at hs
      rcases h.returns hs.1 hi with ⟨-, -, h₁⟩ | ⟨-, l₁, -, h₁⟩
      · exact ih h₁ hs.2 his
      · exact ih h₁ hs.2 his

end Runs

end Aesd.CharDriver

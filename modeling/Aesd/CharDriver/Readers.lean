import Aesd.CharDriver.Atomic
import Aesd.CharDriver.ReadLog

/-! # Concurrent readers

A reader walks through the device with many calls, and between two of them others may write, so that
the oldest command goes and all that is left moves towards the start. **`concurrent_reads_in_order`**
says what is left of a snapshot then: as long as nobody seeks on its file, a reader gets each byte at
most once and in the order in which the bytes were written, it gets nothing that had gone before it
began, and its position is the number of bytes it has got. -/

namespace Aesd.CharDriver

open Memory Effects Streams

namespace Log

variable (l : Log)

/-- All commands that there have been. -/
def committed : List UInt8 := (lines isNewline l.stream).flatten

/-- How many bytes of them are gone. -/
def evicted : ℕ :=
  ((lines isNewline l.stream).take ((lines isNewline l.stream).length - 10)).flatten.length

/-- The rest of them can be read. -/
theorem drop_evicted : l.committed.drop l.evicted = l.contents := by
  have hsplit : l.committed =
      ((lines isNewline l.stream).take ((lines isNewline l.stream).length - 10)).flatten ++
        l.contents := by
    rw [contents, commands, List.rtake, ← List.flatten_append, List.take_append_drop, committed]
  rw [hsplit, evicted, List.drop_left]

/-- What can be read fits into the memory of the device. -/
structure Fits : Prop where
  /-- The commands do. -/
  commands : ∀ c ∈ l.commands, c.length ≤ allocationLimit
  /-- What is pending does. -/
  pending : l.pending.length ≤ allocationLimit

variable {l}

theorem Fits.length_contents_lt (h : l.Fits) : l.contents.length < 2 ^ 62 := by
  have hsum : (l.commands.map List.length).sum ≤ l.commands.length * allocationLimit := by
    have hle := List.sum_le_card_nsmul (l.commands.map List.length) allocationLimit
      (by simpa using h.commands)
    simpa using hle
  have hten : l.commands.length ≤ 10 := length_rtake_le _ _
  have hlimit : 10 * allocationLimit < 2 ^ 62 := by decide
  rw [contents, List.length_flatten]
  calc _ ≤ l.commands.length * allocationLimit := hsum
    _ ≤ 10 * allocationLimit := Nat.mul_le_mul_right _ hten
    _ < 2 ^ 62 := hlimit

/-- More is fed. -/
theorem committed_isPrefix {l' : Log} (h : l.stream <+: l'.stream) : l.committed <+: l'.committed := by
  obtain ⟨v, hv⟩ := h
  obtain ⟨ls, hls⟩ := lines_isPrefix l.stream v
  rw [committed, committed, ← hv, ← hls, List.flatten_append]
  exact List.prefix_append _ _

/-- What is gone does not come back. -/
theorem evicted_le {l' : Log} (h : l.stream <+: l'.stream) : l.evicted ≤ l'.evicted := by
  obtain ⟨v, hv⟩ := h
  obtain ⟨ls, hls⟩ := lines_isPrefix l.stream v
  have htake : (lines isNewline l.stream).take ((lines isNewline l.stream).length - 10) <+:
      (lines isNewline l'.stream).take ((lines isNewline l'.stream).length - 10) := by
    rw [← hv, ← hls, List.take_append]
    refine (List.take_prefix_take_left ?_).trans (List.prefix_append _ _)
    rw [List.length_append]
    omega
  obtain ⟨u, hu⟩ := htake
  rw [evicted, evicted, ← hu, List.flatten_append, List.length_append]
  exact Nat.le_add_right _ _

/-- One more line, or a part of it. -/
theorem Fits.feed (h : l.Fits) {buf : List UInt8}
    (hfit : l.pending.length + (firstLine isNewline buf).length ≤ allocationLimit) :
    Fits { l with stream := l.stream ++ firstLine isNewline buf } := by
  cases hpos : buf.findIdx? isNewline with
  | none =>
      have hforall := forall_of_findIdx?_none hpos
      rw [← firstLine_of_findIdx?_none hpos] at hforall
      refine ⟨fun c hc => h.commands c ?_, ?_⟩
      · rw [Log.commands, lines_append_of_forall hforall] at hc
        exact hc
      · rw [Log.pending, rest_append_of_forall hforall, List.length_append]
        exact hfit
  | some i =>
      have hline : IsLine isNewline (firstLine isNewline buf) :=
        firstLine_of_findIdx?_some hpos ▸ isLine_take_of_findIdx?_some hpos
      refine ⟨fun c hc => ?_, ?_⟩
      · rw [Log.commands, lines_append_line hline, ← rtake_rtake_append] at hc
        rcases List.mem_append.mp (List.mem_of_mem_drop hc) with hc | hc
        · exact h.commands c hc
        · rw [List.mem_singleton.mp hc, List.length_append]
          exact hfit
      · rw [Log.pending, rest_append_line hline]
        exact Nat.zero_le _

end Log

section Calls

variable {o : sections.Op} {c : {c : Call // c.locksFirst = true}} {l l' : Log} {r : Reply}
  {filp : File}

/-- The device never holds more than it can. -/
theorem Log.Answers.fits {r : sections.Res o} (h : Log.Answers o l r l') (hl : l.Fits) : l'.Fits := by
  have hsame : ∀ {m : Log}, m.stream = l.stream → m.Fits := fun {m} hm =>
    ⟨by rw [Log.commands, hm]; exact hl.commands, by rw [Log.pending, hm]; exact hl.pending⟩
  by_cases ho : ∃ f buf, o = writeSection f buf
  · obtain ⟨f, buf, rfl⟩ := ho
    rcases h.call_cases with hserve | ⟨-, rfl⟩
    · have hwrite : l.write (.calm 0) buf = some (r, l') := Except.ok.inj hserve
      rw [Log.write] at hwrite
      split at hwrite
      · cases hwrite
      · next hno =>
        cases hwrite
        exact hl.feed (not_lt.mp fun hlt => hno (.inr (.inr hlt)))
    · exact hl
  · push Not at ho
    exact hsame (h.stream.trans (by rw [fed_of_not_write ho, List.append_nil]))

/-- The section moves the position of the file on request. -/
def Section.Seeks (filp : File) : Section → Prop
  | .call ⟨.llseek f _ _, _⟩ | .seek f _ _ _ => f = filp
  | _ => False

/-- What the file's reader gets from a section. -/
def got (filp : File) : Event sections → List UInt8
  | ⟨.call ⟨.read f _, _⟩, r⟩ => if f = filp ∧ ¬r.Failed then r.bytes else []
  | _ => []

/-- A read returns the bytes from its position on, and moves it behind them. -/
theorem Log.read_piece {env : Env} {count pos : ℕ} (h : l.read env filp count = some (r, l'))
    (hpos : l.fPos filp = pos) (hlt : pos < 2 ^ 63) (hl : l.Fits) :
    ¬r.Failed ∧ l'.stream = l.stream ∧ l'.fPos filp = (pos + r.bytes.length : ℕ) ∧
      r.bytes <+: l.contents.drop pos ∧ pos + r.bytes.length < 2 ^ 63 := by
  have hcontents := hl.length_contents_lt
  rcases Nat.eq_zero_or_pos count with rfl | hcount
  · -- nothing is asked for
    have hnone : r.bytes = [] ∧ r.retval = 0 ∧ l'.stream = l.stream ∧ l'.fPos filp = pos := by
      rw [Log.read] at h
      split at h
      · cases h
      · split at h
        · cases h
          exact ⟨rfl, rfl, rfl, hpos⟩
        · rw [List.take_zero, if_neg (by simp)] at h
          cases h
          refine ⟨rfl, rfl, rfl, (Function.update_self _ _ _).trans ?_⟩
          rw [hpos, List.length_nil, int64_eq (by omega) (by omega)]
          simp
    obtain ⟨hbytes, hretval, hstream, hpos'⟩ := hnone
    rw [hbytes]
    exact ⟨by rw [Reply.Failed, hretval]; decide, hstream, hpos', List.nil_prefix, hlt⟩
  · obtain ⟨hretval, rfl, hpre, -⟩ := Log.read_reply hcount h hpos hlt (by omega)
    refine ⟨?_, rfl, Function.update_self _ _ _, hpre, pos_add_lt hlt (by omega) hpre⟩
    rw [Reply.Failed, hretval]
    omega

/-- What the reader of the file has got since it was at the position `first` of the stream. -/
structure Reading (filp : File) (pos₀ first : ℕ) (l : Log) (bytes : List UInt8) : Prop where
  /-- Its position is the number of bytes it has got. -/
  pos : l.fPos filp = (pos₀ + bytes.length : ℕ)
  /-- It is a `loff_t`. -/
  lt : pos₀ + bytes.length < 2 ^ 63
  /-- It has not gone back. -/
  le : first ≤ l.evicted + (pos₀ + bytes.length)
  /-- It has got bytes that lie between. -/
  caught : Caught l.committed first (l.evicted + (pos₀ + bytes.length)) bytes

variable {pos₀ first : ℕ} {bytes : List UInt8}

/-- A call that leaves the position alone. -/
theorem Reading.still (h : Reading filp pos₀ first l bytes) (hstream : l.stream <+: l'.stream)
    (hpos : l'.fPos filp = l.fPos filp) : Reading filp pos₀ first l' bytes where
  pos := hpos.trans h.pos
  lt := h.lt
  le := h.le.trans (Nat.add_le_add_right (Log.evicted_le hstream) _)
  caught := h.caught.mono (Log.committed_isPrefix hstream)
    (Nat.add_le_add_right (Log.evicted_le hstream) _)

/-- A section that is no read of the file and does not seek on it leaves its position alone. -/
theorem Log.Answers.fPos_eq {r : sections.Res o} (h : Log.Answers o l r l') (hseeks : ¬o.Seeks filp)
    (hread : ∀ count, o ≠ .call ⟨.read filp count, rfl⟩) : l'.fPos filp = l.fPos filp := by
  cases o with
  | call c =>
      obtain ⟨call, hlocks⟩ := c
      rcases h.call_cases with hserve | ⟨-, rfl⟩
      · cases call with
        | «open» f => cases hlocks
        | release f => cases hlocks
        | ioctl f cmd arg => cases hlocks
        | read f count => exact (Log.apply_effect hserve).2 filp fun heq => hread count (heq ▸ rfl)
        | write f buf =>
            have hwrite : l.write (.calm 0) buf = some (r, l') := Except.ok.inj hserve
            rw [Log.write] at hwrite
            split at hwrite
            · cases hwrite
            · cases hwrite
              rfl
        | llseek f offset whence => exact (Log.apply_effect hserve).2 filp (Ne.symm hseeks)
      · rfl
  | seek f trav index offset =>
      rcases h with ⟨slot, -, -, rfl⟩ | ⟨-, rfl⟩
      · exact Function.update_of_ne (Ne.symm hseeks) _ _
      · rfl
  | strayLoad index =>
      obtain rfl := h
      rfl
  | _ =>
      obtain ⟨-, rfl⟩ := h
      rfl

/-- The step lemma. -/
theorem Reading.step {r : sections.Res o} (h : Reading filp pos₀ first l bytes) (hl : l.Fits)
    (hans : Log.Answers o l r l') (hseeks : ¬o.Seeks filp) :
    Reading filp pos₀ first l' (bytes ++ got filp ⟨o, r⟩) := by
  have hstream : l.stream <+: l'.stream := ⟨_, hans.stream.symm⟩
  by_cases hread : ∃ count, o = .call ⟨.read filp count, rfl⟩
  · obtain ⟨count, rfl⟩ := hread
    have hgot : got filp ⟨.call ⟨.read filp count, rfl⟩, r⟩ =
        if ¬Reply.Failed r then Reply.bytes r else [] := by
      simp only [got, true_and]
    rcases hans.call_cases with hserve | ⟨hfail, rfl⟩
    · obtain ⟨hok, hsame, hpos, hpre, hlt⟩ :=
        Log.read_piece (Except.ok.inj hserve) h.pos h.lt hl
      rw [hgot, if_pos hok]
      rw [← l.drop_evicted, List.drop_drop] at hpre
      have hcaught := (h.caught.read h.le hpre)
      have hev : l'.evicted = l.evicted := by rw [Log.evicted, Log.evicted, hsame]
      have hcom : l'.committed = l.committed := by rw [Log.committed, Log.committed, hsame]
      refine ⟨?_, ?_, ?_, ?_⟩
      · rw [hpos, List.length_append, Nat.add_assoc]
      · rw [List.length_append, ← Nat.add_assoc]
        exact hlt
      · rw [hev, List.length_append]
        have hle := h.le
        omega
      · rw [hev, hcom, List.length_append, ← Nat.add_assoc, ← Nat.add_assoc]
        rw [← Nat.add_assoc] at hcaught
        exact hcaught
    · rw [hgot, if_neg (not_not.mpr hfail), List.append_nil]
      exact h
  · push Not at hread
    have hgot : got filp ⟨o, r⟩ = [] := by
      cases o with
      | call c =>
          obtain ⟨call, hlocks⟩ := c
          cases call with
          | read f count => exact if_neg fun hf : f = filp ∧ _ => hread count (hf.1 ▸ rfl)
          | _ => rfl
      | _ => rfl
    rw [hgot, List.append_nil]
    exact h.still hstream (hans.fPos_eq hseeks hread)

end Calls

section Outcome

variable {α : Type} {w : World} {l : Log} {clients : ℕ → Prog lockedCalls α}
  {q : Pool kernel World α} {τ : List (Act kernel World)} {filp : File} {pos : ℕ}

/-- A device stands for what fits. -/
theorem Stands.fits (h : Stands w l) : l.Fits where
  commands c hc := by
    obtain ⟨i, hi, rfl⟩ := List.getElem_of_mem hc
    exact (h.shows.holds_slot hi).bounded
  pending := h.represents.working.bounded

/-- The run lemma. -/
theorem reading_of_steps {q : Pool sections Log α} {τ : List (Act sections Log)}
    (h : Steps (logMachine clients) ((logMachine clients).init l) τ q) (hl : l.Fits)
    (hpos : l.fPos filp = pos) (hlt : pos < 2 ^ 63)
    (hseeks : ∀ a ∈ τ, ¬a.event.op.Seeks filp) :
    q.shared.Fits ∧ Reading filp pos (l.evicted + pos) q.shared
      (τ.map fun a => got filp a.event).flatten := by
  generalize hp : (logMachine clients).init l = p at h
  induction h with
  | refl =>
      subst hp
      exact ⟨hl, hpos, hlt, le_rfl, caught_nil _ _⟩
  | @act q τ u c k r l' _ _ hr ih =>
      obtain ⟨hfits, hreading⟩ := ih fun a ha => hseeks a (List.mem_append_left _ ha)
      have hstep := hreading.step hfits hr (hseeks _ List.mem_concat_self)
      refine ⟨Log.Answers.fits hr hfits, ?_⟩
      rw [List.map_append, List.flatten_append, List.map_singleton, List.flatten_singleton]
      exact hstep
  | loop _ _ _ ih => exact ih hseeks

/-- **Concurrent reads are in order.** When nobody holds the mutex there is an order of calls, and of
the sections of seek requests, in which each client has made its own, and the device holds the lines
of what the writes have fed. A reader on whose file nobody seeks has got, in this order, a
subsequence of the commands written from its first position on, whatever has been evicted between
its calls, and its position tells how many bytes. -/
theorem concurrent_reads_in_order (h : Stands w l)
    (hrun : Steps (driverMachine clients) ((driverMachine clients).init w) τ q)
    (hpermitted : ∀ a ∈ τ, Permitted a.task a.event a.before) (hfree : q.shared.dev.lock = none) :
    ∃ order, IsOrder clients q order ∧
      ∀ filp (pos : ℕ), l.fPos filp = pos → pos < 2 ^ 63 →
        (∀ a ∈ order, ¬a.2.op.Seeks filp) →
          q.shared.fPos filp = (pos + (order.map fun a => got filp a.2).flatten.length : ℕ) ∧
            (order.map fun a => got filp a.2).flatten.Sublist
              ((lines isNewline (l.stream ++ (order.map fun a => fed a.2).flatten)).flatten.drop
                (l.evicted + pos)) := by
  obtain ⟨τ', q', g, hlog, -, hq⟩ := h.coupled hrun hpermitted
  have hmatch := matches_of_coupled hq
  refine ⟨_, hmatch.isOrder hlog, fun filp pos hpos hlt hseeks => ?_⟩
  obtain ⟨-, hreading⟩ := reading_of_steps hlog h.fits hpos hlt
    (fun a ha => hseeks _ (List.mem_map_of_mem ha))
  rw [List.map_map, List.map_map]
  have hstream := stream_of_steps hlog
  constructor
  · rw [(hmatch.stands hfree).fPos]
    exact hreading.pos
  · have hcaught := hreading.caught
    rw [Log.committed, hstream] at hcaught
    exact hcaught.trans ((List.take_sublist _ _).drop _)

/-- A task that writes a line, and others that read a byte twice. -/
def writerAndReaders (t : ℕ) : Prog lockedCalls Reply :=
  if t = 0 then .call ⟨.write 0 [97, newline], rfl⟩ .pure
  else .call ⟨.read t 1, rfl⟩ fun _ => .call ⟨.read t 1, rfl⟩ .pure

/-- Before any of them has begun. -/
def writerAndReadersInit : Pool kernel World Reply :=
  (driverMachine writerAndReaders).init aesdInitModule

/-- The first reader has got the line. -/
theorem concurrent_reads_in_order_reader : ∃ q order,
    play ((List.replicate 14 0 ++ List.replicate 14 1).map Env.calm) writerAndReadersInit = some q ∧
      IsOrder writerAndReaders q order ∧ (order.map fun a => got 1 a.2).flatten.length = 2 ∧
      (order.map fun a => got 1 a.2).flatten.Sublist
        (lines isNewline ([] ++ (order.map fun a => fed a.2).flatten)).flatten := by
  obtain ⟨q, hq, hshared⟩ := Option.map_eq_some_iff.mp (show ((play ((List.replicate 14 0 ++
    List.replicate 14 1).map Env.calm) writerAndReadersInit).map fun q =>
      (q.shared.dev.lock, q.shared.fPos 1)) = some (none, 2) from rfl)
  obtain ⟨τ, hrun, hτ, -⟩ := steps_of_play hq
  obtain ⟨hfree, hpos⟩ := Prod.mk.inj hshared
  obtain ⟨order, horder, hreads⟩ := concurrent_reads_in_order stands_init hrun hτ hfree
  have hseeks : ∀ a ∈ order, ¬a.2.op.Seeks 1 := by
    rintro ⟨t, e⟩ ha
    obtain ⟨rest, hruns, -⟩ := horder t
    have huses : Uses (fun o : sections.Op => ¬o.Seeks 1)
        ((writerAndReaders t).link callSections) := by
      rw [writerAndReaders, apply_ite (Prog.link callSections)]
      exact Uses.ite ⟨id, fun _ => trivial⟩ ⟨id, fun _ => ⟨id, fun _ => trivial⟩⟩
    exact huses.runs hruns e (List.mem_map.mpr ⟨(t, e), List.mem_filter.mpr ⟨ha, by simp⟩, rfl⟩)
  obtain ⟨hlen, hsub⟩ := hreads 1 0 rfl (by decide) hseeks
  rw [hpos] at hlen
  refine ⟨q, order, hq, horder, by omega, ?_⟩
  exact hsub

end Outcome

end Aesd.CharDriver

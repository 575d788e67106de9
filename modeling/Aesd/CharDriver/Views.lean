import Aesd.CharDriver.LogMachine
import Mathlib.Algebra.Order.BigOperators.Group.List
import Mathlib.Algebra.Order.Ring.Nat

/-! # What a reader of the device sees

Reads, `llseek` and seeks look at the ring and at the position of their file, not at the working
entry, and change nothing but that position. So they do what the machine over the log says on every
state whose ring holds the commands of the log (`Shows`), whatever the working entry points to. -/

namespace Aesd.CharDriver

open Memory Effects Streams

/-- The ring holds the commands of the log, and the files have its positions. -/
structure Shows (w : World) (l : Log) : Prop where
  /-- One entry has been added to the ring for each line. -/
  ring : ∃ es, w.dev.circBuf.HoldsLast es ∧ es.length = (lines isNewline l.stream).length
  /-- The retained entries hold the commands. -/
  commands : List.Forall₂ (Holds w.heap) w.dev.circBuf.retained l.commands
  /-- No command is empty. -/
  nonempty : ∀ c ∈ l.commands, c ≠ []
  /-- No call is in progress. -/
  unlocked : w.dev.lock = none
  /-- The positions are the same. -/
  fPos : w.fPos = l.fPos

/-- A state that stands for a log shows it. -/
theorem Stands.shows {w : World} {l : Log} (h : Stands w l) : Shows w l :=
  ⟨h.represents.ring, h.represents.commands, h.represents.nonempty, h.represents.unlocked, h.fPos⟩

theorem Shows.retained {w : World} {l : Log} (h : Shows w l) : w.retained = l.commands.map some :=
  forall₂_holds_entryBytes h.commands

/-- The call does what the log says and changes nothing but the positions. -/
def Observes (w : World) (l : Log) (result : Except Stop (Reply × World)) :
    Except Stop (Option (Reply × Log)) → Prop
  | .error s => result = .error s
  | .ok none => ∃ r, result = .ok (r, w) ∧ r.Failed
  | .ok (some (r, l')) =>
      result = .ok (r, { w with fPos := l'.fPos }) ∧ ¬r.Failed ∧ l'.stream = l.stream

section Shape

variable {w : World} {l : Log}

/-- The log retains at most ten commands. -/
theorem Log.length_commands (l : Log) :
    l.commands.length = min (lines isNewline l.stream).length 10 := by
  rw [Log.commands, List.rtake.eq_def, List.length_drop]
  omega

/-- No sum of retained sizes comes near the limits of the machine integers. -/
theorem Shows.sum_sizes_lt (h : Shows w l) : (l.commands.map List.length).sum < 2 ^ 62 := by
  have hbound : ∀ n ∈ l.commands.map List.length, n ≤ allocationLimit := by
    intro n hn
    obtain ⟨c, hc, rfl⟩ := List.mem_map.mp hn
    obtain ⟨i, hi, rfl⟩ := List.getElem_of_mem hc
    obtain ⟨hlen, hall⟩ := List.forall₂_iff_get.mp h.commands
    exact (hall i (hlen ▸ hi) hi).bounded
  have hsum := List.sum_le_card_nsmul _ _ hbound
  rw [List.length_map, l.length_commands, Nat.nsmul_eq_mul] at hsum
  calc _ ≤ min (lines isNewline l.stream).length 10 * allocationLimit := hsum
    _ ≤ 10 * allocationLimit := Nat.mul_le_mul_right _ (Nat.min_le_right _ _)
    _ < 2 ^ 62 := by decide

theorem Shows.length_contents_lt (h : Shows w l) : l.contents.length < 2 ^ 62 := by
  rw [Log.contents, List.length_flatten]
  exact h.sum_sizes_lt

theorem Shows.outOffs (h : Shows w l) : w.dev.circBuf.outOffs = l.outOffs := by
  obtain ⟨es, hes, hlen⟩ := h.ring
  rw [hes.outOffs, hlen, Log.outOffs]

/-- The slots from the oldest one on hold the commands. -/
theorem Shows.holds_slot (h : Shows w l) {i : ℕ} (hi : i < l.commands.length) :
    Holds w.heap (w.dev.circBuf.slot (w.dev.circBuf.outOffs + i)) l.commands[i] := by
  obtain ⟨hlen, hall⟩ := List.forall₂_iff_get.mp h.commands
  have hi' : i < w.dev.circBuf.retained.length := hlen ▸ hi
  have hslot : w.dev.circBuf.retained[i] =
      w.dev.circBuf.slot (w.dev.circBuf.outOffs + i) := by
    simp [AesdCircularBuffer.retained]
  exact hslot ▸ hall i hi' hi

/-- A slot's size field is the size of the command in it. -/
theorem Shows.size_slot (h : Shows w l) {i : ℕ} (hi : i < 10) :
    (w.dev.circBuf.slot i).size = l.slotSize i := by
  have hlt := w.dev.circBuf.outOffs_lt
  simp only [aesdcharMaxWriteOperationsSupported] at hlt
  rw [Log.slotSize]
  by_cases hage : l.age i < l.commands.length
  · rw [List.getElem?_eq_getElem hage, ← AesdCircularBuffer.slot_congr
      (i := w.dev.circBuf.outOffs + l.age i)]
    · exact (h.holds_slot hage).size
    · rw [h.outOffs] at hlt ⊢
      rw [Log.age]
      omega
  · -- such a slot has not been used yet
    rw [List.getElem?_eq_none (Nat.le_of_not_lt hage)]
    obtain ⟨es, hes, hlen⟩ := h.ring
    have hcmds : l.commands.length = min es.length 10 := hlen ▸ l.length_commands
    have hout : l.outOffs = (es.length - 10) % 10 := by rw [← h.outOffs, hes.outOffs]
    rw [hcmds, Log.age, hout] at hage
    rw [hes.unused i (by omega) hi]
    rfl

end Shape

section TotalSize

variable {entry : List AesdBufferEntry}

theorem int64_eq {x : ℤ} (h₀ : 0 ≤ x) (h : x < 2 ^ 63) : int64 x = x := by
  rw [int64, Int.bmod_eq_of_le] <;> omega

/-- The loop of `aesd_llseek` adds up the sizes, when unused slots are empty and nothing
overflows. -/
theorem foldl_sizes (hnull : ∀ e ∈ entry, e.buffptr = .null → e.size = 0) (total : ℕ)
    (hsum : total + (entry.map AesdBufferEntry.size).sum < 2 ^ 63) :
    entry.foldl
        (fun total e => if e.buffptr ≠ .null then int64 (total + e.size) else total) (total : ℤ) =
      (total + (entry.map AesdBufferEntry.size).sum : ℕ) := by
  induction entry generalizing total with
  | nil => simp
  | cons e es ih =>
      rw [List.map_cons, List.sum_cons] at hsum
      have hstep : (if e.buffptr ≠ .null then int64 (total + e.size) else (total : ℤ)) =
          (total + e.size : ℕ) := by
        by_cases hp : e.buffptr = .null
        · rw [if_neg (not_not.mpr hp), hnull e List.mem_cons_self hp, Nat.add_zero]
        · rw [if_pos hp, int64_eq (by omega) (by omega)]
          push_cast
          rfl
      rw [List.foldl_cons, hstep, ih (fun e' he' => hnull e' (List.mem_cons_of_mem _ he'))
        _ (by omega), List.map_cons, List.sum_cons, Nat.add_assoc]

/-- A retained entry points to a block. -/
theorem Shows.buffptr_ne_null {w : World} {l : Log} (h : Shows w l) {e : AesdBufferEntry}
    (he : e ∈ w.dev.circBuf.retained) : e.buffptr ≠ .null := by
  obtain ⟨i, hi, rfl⟩ := List.getElem_of_mem he
  obtain ⟨hlen, hall⟩ := List.forall₂_iff_get.mp h.commands
  have hi' : i < l.commands.length := hlen ▸ hi
  obtain ⟨b, hb, -⟩ := (hall i hi hi').backs.eq_block (h.nonempty _ (List.get_mem _ _))
  rw [List.get_eq_getElem] at hb
  simp [hb]

/-- The slots in any order have the total size of the commands. -/
theorem Shows.totalSize {w : World} {l : Log} (h : Shows w l) :
    totalSize w.dev.circBuf = l.contents.length := by
  obtain ⟨es, hes, -⟩ := h.ring
  have hsizes : (w.dev.circBuf.entry.toList.map AesdBufferEntry.size).sum = l.contents.length := by
    rw [(hes.toList_entry_perm.map _).sum_eq, List.map_append, List.sum_append,
      forall₂_holds_sizes h.commands, List.map_replicate, List.sum_replicate, Log.contents,
      List.length_flatten]
    simp [AesdBufferEntry.zero, Log.commands]
  have hlt := h.length_contents_lt
  have hnull : ∀ e ∈ w.dev.circBuf.entry.toList, e.buffptr = .null → e.size = 0 := by
    intro e he hp
    rcases List.mem_append.mp (hes.toList_entry_perm.subset he) with hmem | hmem
    · exact absurd hp (h.buffptr_ne_null hmem)
    · rw [List.eq_of_mem_replicate hmem]
      rfl
  have hfold := foldl_sizes hnull 0 (by omega)
  rw [Nat.zero_add, hsizes] at hfold
  exact hfold

end TotalSize

section Calls

variable {env : Env} {w : World} {l : Log} {filp : File}

/-- Between two calls there is nothing to unlock. -/
theorem Shows.unlock (h : Shows w l) : { w with dev := { w.dev with lock := none } } = w := by
  have hlock := h.unlocked
  rw [← hlock]

theorem Shows.lock_refused (hlock : env.lockOk = false) :
    kernelStep env .mutexLockInterruptible w = .ok (eintr, w) := by
  simp only [kernelStep, hlock, if_true]

theorem Shows.lock_granted (h : Shows w l) (hlock : env.lockOk = true) :
    kernelStep env .mutexLockInterruptible w =
      .ok (0, { w with dev := { w.dev with lock := some env.task } }) := by
  simp only [kernelStep, hlock, h.unlocked, Option.isSome_none, Bool.false_eq_true,
    reduceCtorEq, if_false]

/-- The positions are those of the log. -/
theorem Shows.same (h : Shows w l) : { w with fPos := l.fPos } = w := by rw [← h.fPos]

/-- Moving a file in the log moves it in the state. -/
theorem Shows.moved (h : Shows w l) (filp : File) (pos : ℤ) :
    { w with fPos := (l.seekTo filp pos).fPos } =
      { w with fPos := Function.update w.fPos filp pos } := by
  rw [h.fPos]
  rfl

/-- A call that changes nothing but positions leaves a state that shows the next log. -/
theorem Shows.setFPos {l' : Log} (h : Shows w l) (hstream : l'.stream = l.stream) :
    Shows { w with fPos := l'.fPos } l' := by
  have hcommands : l'.commands = l.commands := by rw [Log.commands, Log.commands, hstream]
  refine ⟨?_, ?_, ?_, h.unlocked, rfl⟩
  · rw [hstream]
    exact h.ring
  · rw [hcommands]
    exact h.commands
  · rw [hcommands]
    exact h.nonempty

/-- The lookup finds the slot and offset of the position in the log. -/
theorem Shows.find (h : Shows w l) (pos : ℕ) :
    aesdCircularBufferFindEntryOffsetForFpos w.dev.circBuf pos =
      (locate (l.commands.map List.length) pos).map fun q =>
        ((w.dev.circBuf.outOffs + q.1) % 10, q.2) := by
  have hsizes := forall₂_holds_sizes h.commands
  have hlt := h.sum_sizes_lt
  rw [AesdCircularBuffer.find_eq_locate pos (by rw [hsizes]; omega), hsizes]

/-- What a read copies: the rest of the command from the offset on, cut to the count, up to where
the copy faults. -/
theorem Shows.copy_slot (h : Shows w l) (env : Env) {count i o : ℕ} (hi : i < l.commands.length)
    (ho : o < l.commands[i].length) {bytes : List UInt8}
    (hbytes : bytes = (l.commands[i].drop o).take count) :
    (w.dev.circBuf.slot ((w.dev.circBuf.outOffs + i) % 10)).buffptr ≠ .null ∧
      (if (w.dev.circBuf.slot ((w.dev.circBuf.outOffs + i) % 10)).size - o > count then count
        else (w.dev.circBuf.slot ((w.dev.circBuf.outOffs + i) % 10)).size - o) = bytes.length ∧
      kernelStep env (.copyToUser
          (w.dev.circBuf.slot ((w.dev.circBuf.outOffs + i) % 10)).buffptr o
          (if (w.dev.circBuf.slot ((w.dev.circBuf.outOffs + i) % 10)).size - o > count then count
            else (w.dev.circBuf.slot ((w.dev.circBuf.outOffs + i) % 10)).size - o))
        { w with dev := { w.dev with lock := some env.task } } =
          .ok ((min env.notCopied bytes.length,
            bytes.take (bytes.length - min env.notCopied bytes.length)),
            { w with dev := { w.dev with lock := some env.task } }) := by
  have hhold := h.holds_slot hi
  rw [← AesdCircularBuffer.slot_mod] at hhold
  obtain ⟨entry, hentry⟩ : ∃ e, w.dev.circBuf.slot ((w.dev.circBuf.outOffs + i) % 10) = e :=
    ⟨_, rfl⟩
  rw [hentry] at hhold ⊢
  -- the slot has a block of its own, as the command is not empty
  obtain ⟨b, hb, hcell⟩ := hhold.backs.eq_block (List.ne_nil_of_length_pos (by omega))
  have hlen : (if entry.size - o > count then count else entry.size - o) = bytes.length := by
    rw [hbytes, List.length_take, List.length_drop, hhold.size]
    split <;> omega
  have htake : ∀ m ≤ count, (l.commands[i].drop o).take m = bytes.take m := by
    intro m hm
    rw [hbytes, List.take_take, Nat.min_eq_left hm]
  have haccess : access entry.buffptr (o + bytes.length) w.heap = .ok l.commands[i] := by
    refine access_eq (by rw [hb]; exact hcell) ?_
    rw [hbytes, List.length_take, List.length_drop]
    omega
  refine ⟨by simp [hb], hlen, ?_⟩
  simp only [kernelStep, hlen, haccess, bind, Except.bind]
  rw [htake _ (by rw [hbytes, List.length_take]; omega)]

theorem Shows.observes_read (h : Shows w l) (count : ℕ) :
    Observes w l (invoke ⟨.read filp count, env⟩ w) (.ok (l.read env filp count)) := by
  rw [invoke, Log.read]
  by_cases hlock : env.lockOk = false
  · rw [if_pos hlock]
    refine ⟨⟨-erestartsys, []⟩, ?_, by decide⟩
    simp only [Call.text, aesdRead, mutexLockInterruptible, Prog.bind_eq, Prog.call_bind,
      Prog.pure_bind, execute_call _ (Shows.lock_refused hlock), show eintr ≠ 0 by decide, ne_eq,
      not_false_eq_true, if_true, Prog.pure_eq, execute_pure]
  · rw [if_neg hlock]
    have hmutex := h.lock_granted (by simpa using hlock)
    have hdev : { w.dev with lock := none } = w.dev := congrArg World.dev h.unlock
    -- the lookup in the ring is the lookup in the lengths of the commands
    have hfind : aesdCircularBufferFindEntryOffsetForFpos w.dev.circBuf (toSizeT (w.fPos filp)) =
        (locate (l.commands.map List.length) (toSizeT (l.fPos filp))).map fun q =>
          ((w.dev.circBuf.outOffs + q.1) % 10, q.2) := by rw [h.find, h.fPos]
    cases hloc : locate (l.commands.map List.length) (toSizeT (l.fPos filp)) with
    | none =>
        rw [hloc, Option.map_none] at hfind
        refine ⟨?_, by decide, rfl⟩
        rw [h.same]
        simp only [Call.text, aesdRead, mutexLockInterruptible, loadDev, loadFPos, mutexUnlock,
          Prog.bind_eq, Prog.call_bind, Prog.pure_bind, execute_call _ hmutex, ne_eq,
          not_true, if_false, execute_loadDev, execute_loadFPos, hfind,
          aesdRead.mutexUnlockAndReturn, execute_mutexUnlock, Prog.pure_eq, execute_pure, h.unlock]
    | some q =>
        obtain ⟨i, o⟩ := q
        rw [hloc, Option.map_some] at hfind
        obtain ⟨c, hc, ho, -⟩ := drop_flatten_of_locate hloc
        obtain ⟨hi, rfl⟩ := List.getElem?_eq_some_iff.mp hc
        set bytes := (l.commands[i].drop o).take count with hbytes
        obtain ⟨hnull, hlen, hcopy⟩ := h.copy_slot env hi ho hbytes
        have hgetD : l.commands.getD i [] = l.commands[i] := by
          rw [List.getD_eq_getElem?_getD, hc, Option.getD_some]
        simp only [hgetD, ← hbytes]
        by_cases hleft : min env.notCopied bytes.length = 0
        · rw [if_neg (not_not.mpr hleft)]
          refine ⟨?_, by simp [Reply.Failed], rfl⟩
          rw [h.moved, ← h.fPos]
          simp only [Call.text, aesdRead, mutexLockInterruptible, loadDev, loadFPos, storeFPos,
              copyToUser, mutexUnlock, aesdRead.mutexUnlockAndReturn, Prog.bind_eq,
              Prog.call_bind, Prog.pure_bind, Prog.pure_eq, execute_call _ hmutex, ne_eq, not_true,
              if_false, execute_loadDev, execute_loadFPos, hfind, if_neg hnull,
              execute_call _ hcopy, hleft, hlen, execute_storeFPos, execute_mutexUnlock,
              execute_pure, Nat.sub_zero, List.take_length, hdev]
        · rw [if_pos hleft]
          refine ⟨⟨-efault, bytes.take (bytes.length - min env.notCopied bytes.length)⟩, ?_,
            by simp [Reply.Failed, efault]⟩
          simp only [Call.text, aesdRead, mutexLockInterruptible, loadDev, loadFPos,
            copyToUser, mutexUnlock, aesdRead.mutexUnlockAndReturn, Prog.bind_eq,
            Prog.call_bind, Prog.pure_bind, Prog.pure_eq, execute_call _ hmutex, ne_eq, not_true,
            if_false, execute_loadDev, execute_loadFPos, hfind, if_neg hnull,
            execute_call _ hcopy, hleft, not_false_eq_true, if_true, execute_mutexUnlock,
            execute_pure, h.unlock]

/-- The part of `aesd_llseek` behind the `switch`. -/
theorem execute_finish (newpos : ℤ) : execute env (aesdLlseek.finish filp newpos) w =
    if newpos < 0 then .ok (-einval, { w with dev := { w.dev with lock := none } })
    else .ok (newpos, { w with
      dev := { w.dev with lock := none }, fPos := Function.update w.fPos filp newpos }) := by
  rw [aesdLlseek.finish]
  split <;> rfl

/-- **`aesd_llseek` with the mutex granted**: the target of the log, refused when it is negative. -/
theorem Shows.execute_llseek (h : Shows w l) (filp : File) (hlock : env.lockOk = true)
    (offset whence : ℤ) :
    execute env (aesdLlseek filp offset whence) w =
      (l.llseekTarget filp offset whence).elim (.ok (-einval, w)) fun newpos =>
        if newpos < 0 then .ok (-einval, w)
        else .ok (newpos, { w with fPos := Function.update w.fPos filp newpos }) := by
  have hmutex := h.lock_granted hlock
  have hdev : { w.dev with lock := none } = w.dev := congrArg World.dev h.unlock
  have hfinish : ∀ newpos, execute env (aesdLlseek.finish filp newpos)
      { w with dev := { w.dev with lock := some env.task } } =
        if newpos < 0 then .ok (-einval, w)
        else .ok (newpos, { w with fPos := Function.update w.fPos filp newpos }) := by
    intro newpos
    simp only [execute_finish, hdev]
  simp only [aesdLlseek, mutexLockInterruptible, loadDev, loadFPos, mutexUnlock, Prog.bind_eq,
    Prog.call_bind, Prog.pure_bind, execute_call _ hmutex, ne_eq, not_true, if_false,
    execute_loadDev, h.totalSize, Log.llseekTarget, ← h.fPos]
  -- the three cases of the `switch`, and its default
  by_cases hset : whence = seekSet
  · rw [if_pos hset, if_pos hset, Option.elim_some, hfinish]
  · rw [if_neg hset, if_neg hset]
    by_cases hcur : whence = seekCur
    · rw [if_pos hcur, if_pos hcur, execute_loadFPos, Option.elim_some, hfinish]
    · rw [if_neg hcur, if_neg hcur]
      by_cases hend : whence = seekEnd
      · rw [if_pos hend, if_pos hend, Option.elim_some, hfinish]
      · rw [if_neg hend, if_neg hend, execute_mutexUnlock, Prog.pure_eq, execute_pure, h.unlock,
          Option.elim_none]

theorem Shows.observes_llseek (h : Shows w l) (offset whence : ℤ) :
    Observes w l (invoke ⟨.llseek filp offset whence, env⟩ w)
      (.ok (l.llseek env filp offset whence)) := by
  rw [invoke, Log.llseek]
  by_cases hlock : env.lockOk = false
  · rw [if_pos hlock]
    refine ⟨⟨-erestartsys, []⟩, ?_, by decide⟩
    simp only [Call.text, aesdLlseek, mutexLockInterruptible, Prog.bind_eq, Prog.call_bind,
      Prog.pure_bind, execute_call _ (Shows.lock_refused hlock), show eintr ≠ 0 by decide, ne_eq,
      not_false_eq_true, if_true, Prog.pure_eq, execute_pure]
    rfl
  · rw [if_neg hlock]
    have hexec := h.execute_llseek filp (by simpa using hlock) offset whence
    cases htarget : l.llseekTarget filp offset whence with
    | none =>
        rw [htarget, Option.elim_none] at hexec
        exact ⟨.ofRetval (-einval), execute_bind _ hexec, by decide⟩
    | some newpos =>
        rw [htarget, Option.elim_some] at hexec
        by_cases hneg : newpos < 0
        · rw [if_pos hneg] at hexec
          rw [Option.bind_some, if_pos hneg]
          exact ⟨.ofRetval (-einval), execute_bind _ hexec, by decide⟩
        · rw [if_neg hneg] at hexec
          rw [Option.bind_some, if_neg hneg]
          refine ⟨?_, hneg, rfl⟩
          rw [h.moved]
          exact execute_bind _ hexec

/-! ### The seek -/

theorem int32_eq {x : ℤ} (h₀ : 0 ≤ x) (h : x < 2 ^ 31) : int32 x = x := by
  rw [int32, Int.bmod_eq_of_le] <;> omega

theorem int32_emod (x : ℤ) : int32 x % 2 ^ 32 = x % 2 ^ 32 := by
  have h := Int.bmod_emod (x := x) (m := 2 ^ 32)
  simpa [int32] using h

/-- A slot's size is read from the device. -/
theorem entrySize_eq {index : ℤ} (h₀ : 0 ≤ index) (h₁ : index < 10) :
    entrySize index = .call .loadDev fun dev => .pure (dev.circBuf.slot index.toNat).size := by
  rw [entrySize, if_pos ⟨h₀, h₁⟩]
  rfl

theorem execute_entrySize (h : Shows w l) {index : ℤ} (h₀ : 0 ≤ index) (h₁ : index < 10)
    {lock : Option ℕ} :
    execute env (entrySize index) { w with dev := { w.dev with lock } } =
      .ok (l.slotSize index.toNat, { w with dev := { w.dev with lock } }) := by
  rw [entrySize_eq h₀ h₁, execute_loadDev, execute_pure]
  simp only [h.size_slot (show index.toNat < 10 by omega)]

theorem execute_entrySize_stray {index : ℤ} (h : index < 0) :
    execute env (entrySize index) w = .ok (env.stray index, w) := by
  rw [entrySize, if_neg (by omega)]
  rfl

theorem sum_take_succ (ls : List (List UInt8)) (a : ℕ) :
    ((ls.take (a + 1)).map List.length).sum =
      ((ls.take a).map List.length).sum + ls[a]?.elim 0 List.length := by
  rw [List.take_add_one, List.map_append, List.sum_append]
  cases ls[a]? <;> rfl

/-- The text of a round of the walk that does not leave: one size is read. -/
theorem walk_eq {target byteCount : ℤ} {trav : ℕ} (htrav : trav < 10) (hne : (trav : ℤ) ≠ target) :
    aesdUnlockedIoctl.walk target (trav, byteCount) =
      .call .loadDev fun dev => .pure (.inl (((trav + 1) % 10 : ℕ),
        int32 (byteCount + (dev.circBuf.slot trav).size))) := by
  have hnext : ((trav : ℤ) + 1).tmod (10 : ℕ) = ((trav + 1) % 10 : ℕ) := by
    rw [Int.tmod_eq_emod_of_nonneg (by omega)]
    omega
  rw [aesdUnlockedIoctl.walk, if_neg hne, entrySize_eq (by omega) (by omega), hnext,
    Int.toNat_natCast]
  rfl

/-- A round of the walk that does not leave adds the size of a slot and goes to the next one. -/
theorem Shows.walk_round (h : Shows w l) {target byteCount : ℤ} {trav : ℕ} (htrav : trav < 10)
    (hne : (trav : ℤ) ≠ target) {lock : Option ℕ} :
    execute env (aesdUnlockedIoctl.walk target (trav, byteCount))
        { w with dev := { w.dev with lock } } =
      .ok (.inl (((trav + 1) % 10 : ℕ), int32 (byteCount + l.slotSize trav)),
        { w with dev := { w.dev with lock } }) := by
  rw [walk_eq htrav hne, execute_loadDev, execute_pure]
  simp only [h.size_slot htrav]

/-- What a round adds up: the size of one more of the older commands. -/
theorem Log.byteCount_step (l : Log) {a : ℕ} (ha : a < 10) {byteCount : ℤ}
    (hcount : byteCount % 2 ^ 32 = (((l.commands.take a).map List.length).sum : ℤ) % 2 ^ 32) :
    int32 (byteCount + l.slotSize ((l.outOffs + a) % 10)) % 2 ^ 32 =
      (((l.commands.take (a + 1)).map List.length).sum : ℤ) % 2 ^ 32 := by
  have hout : l.outOffs < 10 := Nat.mod_lt _ (by omega)
  have hslot : l.slotSize ((l.outOffs + a) % 10) = l.commands[a]?.elim 0 List.length := by
    rw [Log.slotSize, Log.age, show ((l.outOffs + a) % 10 + 10 - l.outOffs) % 10 = a by omega]
  rw [sum_take_succ, int32_emod, hslot, Int.natCast_add]
  omega

/-- **The walk towards a slot.** It ends, and has added up the sizes of the older commands. -/
theorem Shows.walk (env : Env) (lock : Option ℕ) (h : Shows w l) {target : ℕ} (ht : target < 10)
    (fuel : ℕ) {a : ℕ} (ha : a ≤ l.age target) (hfuel : l.age target - a < fuel) (byteCount : ℤ)
    (hcount : byteCount % 2 ^ 32 = (((l.commands.take a).map List.length).sum : ℤ) % 2 ^ 32) :
    ∃ total, rounds .hang (fun s w => execute env (aesdUnlockedIoctl.walk target s) w) fuel
        (((l.outOffs + a) % 10 : ℕ), byteCount) { w with dev := { w.dev with lock } } =
        .ok (total, { w with dev := { w.dev with lock } }) ∧
      total % 2 ^ 32 =
        (((l.commands.take (l.age target)).map List.length).sum : ℤ) % 2 ^ 32 := by
  have hout : l.outOffs < 10 := Nat.mod_lt _ (by omega)
  have hage : l.age target = (target + 10 - l.outOffs) % 10 := rfl
  induction fuel generalizing a byteCount with
  | zero => omega
  | succ fuel ih =>
      by_cases hend : a = l.age target
      · -- the target is reached
        have htrav : (((l.outOffs + a) % 10 : ℕ) : ℤ) = target := by omega
        refine ⟨byteCount, ?_, hend ▸ hcount⟩
        rw [rounds, aesdUnlockedIoctl.walk, if_pos htrav]
        rfl
      · have hne : (((l.outOffs + a) % 10 : ℕ) : ℤ) ≠ target := by omega
        obtain ⟨total, htotal, hsum⟩ := ih (a := a + 1) (by omega) (by omega) _
          (l.byteCount_step (by omega) hcount)
        refine ⟨total, ?_, hsum⟩
        rw [rounds, h.walk_round (by omega) hne,
          show ((l.outOffs + a) % 10 + 1) % 10 = (l.outOffs + (a + 1)) % 10 by omega]
        exact htotal

/-- Towards a negative slot the walk never ends. -/
theorem Shows.walk_hangs (env : Env) (lock : Option ℕ) (h : Shows w l) {target : ℤ}
    (ht : target < 0) (fuel : ℕ) {trav : ℕ} (htrav : trav < 10) (byteCount : ℤ) :
    rounds .hang (fun s w => execute env (aesdUnlockedIoctl.walk target s) w) fuel
      (trav, byteCount) { w with dev := { w.dev with lock } } = .error .hang := by
  induction fuel generalizing trav byteCount with
  | zero => rfl
  | succ fuel ih =>
      rw [rounds, h.walk_round htrav (by omega)]
      exact ih (Nat.mod_lt _ (by omega)) _

/-- The size that a seek request is checked against: that of the slot its command number is reduced
to, or whatever lies before the array. -/
def Log.checkedSize (l : Log) (env : Env) (arg : AesdSeekto) : ℕ :=
  if 0 ≤ seekIndex arg.writeCmd l.outOffs then
    l.slotSize (seekIndex arg.writeCmd l.outOffs).toNat
  else env.stray (seekIndex arg.writeCmd l.outOffs)

/-- The position that a seek request leads to. -/
def Log.seekPos (l : Log) (arg : AesdSeekto) : ℤ :=
  uint32 (((l.commands.take (l.age (seekIndex arg.writeCmd l.outOffs).toNat)).map
    List.length).sum + arg.writeCmdOffset.toNat)

theorem seekIndex_lt (writeCmd : UInt32) (outOffs : ℕ) : seekIndex writeCmd outOffs < 10 :=
  Int.tmod_lt_of_pos _ (by decide)

/-- The size that is checked is read from the ring or from beside it. -/
theorem Shows.execute_checkedSize (h : Shows w l) (arg : AesdSeekto) :
    execute env (entrySize (seekIndex arg.writeCmd l.outOffs)) w =
      .ok (l.checkedSize env arg, w) := by
  rw [Log.checkedSize]
  by_cases h₀ : 0 ≤ seekIndex arg.writeCmd l.outOffs
  · rw [if_pos h₀]
    exact execute_entrySize h h₀ (seekIndex_lt _ _)
  · rw [if_neg h₀]
    exact execute_entrySize_stray (not_le.mp h₀)

/-- What follows the checks, when the mutex is granted and the index is a slot. -/
theorem Shows.execute_seek (h : Shows w l) (hlock : env.lockOk = true) (arg : AesdSeekto)
    (h₀ : 0 ≤ seekIndex arg.writeCmd l.outOffs) :
    execute env (aesdUnlockedIoctl.seek filp w.dev.circBuf.outOffs
        (seekIndex arg.writeCmd l.outOffs) arg.writeCmdOffset) w =
      .ok (0, { w with fPos := Function.update w.fPos filp (l.seekPos arg) }) := by
  have hmutex := h.lock_granted hlock
  have hdev : { w.dev with lock := none } = w.dev := congrArg World.dev h.unlock
  have hout : l.outOffs < 10 := Nat.mod_lt _ (by omega)
  have hlt := seekIndex_lt arg.writeCmd l.outOffs
  rw [Log.seekPos]
  obtain ⟨target, htarget⟩ := Int.eq_ofNat_of_zero_le h₀
  rw [htarget] at hlt ⊢
  obtain ⟨total, hwalk, htotal⟩ := h.walk env (some env.task) (by omega : target < 10) 10
    (Nat.zero_le _) (by rw [Log.age]; omega) 0 rfl
  rw [Nat.add_zero, Nat.mod_eq_of_lt hout] at hwalk
  have hpos : uint32 (total + arg.writeCmdOffset.toNat) = uint32
      (((l.commands.take (l.age target)).map List.length).sum + arg.writeCmdOffset.toNat) := by
    rw [uint32, uint32, Int.add_emod, htotal, ← Int.add_emod]
  simp only [aesdUnlockedIoctl.seek, mutexLockInterruptible, storeFPos, mutexUnlock,
    Prog.bind_eq, Prog.call_bind, Prog.pure_bind, execute_call _ hmutex, ne_eq, not_true,
    if_false, Prog.iterate, Prog.loop_bind, h.outOffs]
  rw [execute_loop _ hwalk]
  simp only [execute_storeFPos, execute_mutexUnlock, hdev, hpos, Prog.pure_eq, execute_pure,
    Int.toNat_natCast]

/-- Towards a negative index the mutex is never given back. -/
theorem Shows.execute_seek_hangs (h : Shows w l) (hlock : env.lockOk = true) {index : ℤ}
    (hneg : index < 0) (writeCmdOffset : UInt32) :
    execute env (aesdUnlockedIoctl.seek filp w.dev.circBuf.outOffs index writeCmdOffset) w =
      .error .hang := by
  have hmutex := h.lock_granted hlock
  have hhang := h.walk_hangs env (some env.task) hneg 10 w.dev.circBuf.outOffs_lt 0
  simp only [aesdUnlockedIoctl.seek, mutexLockInterruptible, Prog.bind_eq, Prog.call_bind,
    Prog.pure_bind, execute_call _ hmutex, ne_eq, not_true, if_false, Prog.iterate,
    Prog.loop_bind]
  exact execute_loop_error _ hhang

/-- **`aesd_unlocked_ioctl` on a request that has been copied**: the offset is checked against the
size of the slot that the command number is reduced to; only then comes the walk. -/
theorem Shows.execute_ioctl (h : Shows w l) (filp : File) (arg : AesdSeekto)
    (hcopied : min env.notCopied sizeofSeekto = 0) :
    execute env (aesdUnlockedIoctl filp aesdcharIocseekto arg) w =
      if arg.writeCmdOffset.toNat > l.checkedSize env arg then .ok (-einval, w)
      else if env.lockOk = false then .ok (-erestartsys, w)
      else if seekIndex arg.writeCmd l.outOffs < 0 then .error .hang
      else .ok (0, { w with fPos := Function.update w.fPos filp (l.seekPos arg) }) := by
  have hcopy : kernelStep env (.copySeektoFromUser arg) w =
      .ok ((min env.notCopied sizeofSeekto, arg), w) := rfl
  have hindex : (int32 (int32 arg.writeCmd.toNat + w.dev.circBuf.outOffs)).tmod
      aesdcharMaxWriteOperationsSupported = seekIndex arg.writeCmd l.outOffs := by
    rw [h.outOffs, seekIndex]
  -- a remainder modulo ten never exceeds ten, so the first check passes
  have hle : ¬seekIndex arg.writeCmd l.outOffs > (aesdcharMaxWriteOperationsSupported : ℕ) :=
    not_lt.mpr (seekIndex_lt _ _).le
  simp only [aesdUnlockedIoctl, loadDev, copySeektoFromUser, Prog.bind_eq, Prog.call_bind,
    Prog.pure_bind, execute_loadDev, if_true, execute_call _ hcopy, ne_eq, hcopied, not_true,
    if_false, Prog.pure_eq, hindex]
  rw [if_neg hle, execute_bind _ (h.execute_checkedSize arg)]
  by_cases hoff : arg.writeCmdOffset.toNat > l.checkedSize env arg
  · rw [if_pos hoff, if_pos hoff, execute_pure]
  rw [if_neg hoff, if_neg hoff]
  by_cases hlock : env.lockOk = false
  · rw [if_pos hlock]
    simp only [aesdUnlockedIoctl.seek, mutexLockInterruptible, Prog.bind_eq, Prog.call_bind,
      Prog.pure_bind, execute_call _ (Shows.lock_refused hlock), show eintr ≠ 0 by decide, ne_eq,
      not_false_eq_true, if_true, Prog.pure_eq, execute_pure]
  rw [if_neg hlock]
  have hlock' : env.lockOk = true := by simpa using hlock
  -- with a negative index the walk never meets its end
  by_cases hneg : seekIndex arg.writeCmd l.outOffs < 0
  · rw [if_pos hneg, h.execute_seek_hangs hlock' hneg]
  · rw [if_neg hneg, h.execute_seek hlock' arg (not_lt.mp hneg)]

/-- A request that cannot be copied changes nothing. -/
theorem execute_ioctl_uncopied (filp : File) {cmd : ℕ} (hcmd : cmd = aesdcharIocseekto)
    (arg : AesdSeekto) (hcopied : min env.notCopied sizeofSeekto ≠ 0) :
    execute env (aesdUnlockedIoctl filp cmd arg) w = .ok (-efault, w) := by
  have hcopy : kernelStep env (.copySeektoFromUser arg) w =
      .ok ((min env.notCopied sizeofSeekto, arg), w) := rfl
  simp only [aesdUnlockedIoctl, loadDev, copySeektoFromUser, Prog.bind_eq, Prog.call_bind,
    Prog.pure_bind, execute_loadDev, if_pos hcmd, execute_call _ hcopy, ne_eq, hcopied,
    not_false_eq_true, if_true, Prog.pure_eq, execute_pure]

/-- The machine over the log on a seek request. -/
theorem Log.ioctl_seek (l : Log) (env : Env) (filp : File) {cmd : ℕ}
    (hcmd : cmd = aesdcharIocseekto) (arg : AesdSeekto) :
    l.ioctl env filp cmd arg =
      if min env.notCopied sizeofSeekto ≠ 0 then .ok none
      else if arg.writeCmdOffset.toNat > l.checkedSize env arg ∨ env.lockOk = false then .ok none
      else if seekIndex arg.writeCmd l.outOffs < 0 then .error .hang
      else .ok (some (.ofRetval 0, l.seekTo filp (l.seekPos arg))) := by
  rw [Log.ioctl, if_neg (not_not.mpr hcmd)]
  rfl

theorem Shows.observes_ioctl (h : Shows w l) (cmd : ℕ) (arg : AesdSeekto) :
    Observes w l (invoke ⟨.ioctl filp cmd arg, env⟩ w) (l.ioctl env filp cmd arg) := by
  rw [invoke]
  by_cases hcmd : cmd = aesdcharIocseekto
  · have hanswer := l.ioctl_seek env filp hcmd arg
    by_cases hcopied : min env.notCopied sizeofSeekto = 0
    · rw [if_neg (not_not.mpr hcopied)] at hanswer
      have hexec := h.execute_ioctl filp arg hcopied
      rw [← hcmd] at hexec
      -- the exits of the call, in their order
      by_cases hoff : arg.writeCmdOffset.toNat > l.checkedSize env arg
      · rw [if_pos hoff] at hexec
        rw [hanswer, if_pos (.inl hoff)]
        exact ⟨.ofRetval (-einval), execute_bind _ hexec, by decide⟩
      rw [if_neg hoff] at hexec
      by_cases hlock : env.lockOk = false
      · rw [if_pos hlock] at hexec
        rw [hanswer, if_pos (.inr hlock)]
        exact ⟨.ofRetval (-erestartsys), execute_bind _ hexec, by decide⟩
      rw [if_neg hlock] at hexec
      rw [if_neg (not_or.mpr ⟨hoff, hlock⟩)] at hanswer
      by_cases hneg : seekIndex arg.writeCmd l.outOffs < 0
      · rw [if_pos hneg] at hexec hanswer
        rw [hanswer]
        exact execute_bind_error _ hexec
      · rw [if_neg hneg] at hexec hanswer
        rw [hanswer]
        refine ⟨?_, by decide, rfl⟩
        rw [h.moved]
        exact execute_bind _ hexec
    · rw [hanswer, if_pos hcopied]
      exact ⟨.ofRetval (-efault), execute_bind _ (execute_ioctl_uncopied filp hcmd arg hcopied),
        by decide⟩
  · rw [Log.ioctl, if_pos hcmd]
    refine ⟨?_, by decide, rfl⟩
    rw [h.same]
    simp only [Call.text, aesdUnlockedIoctl, loadDev, Prog.bind_eq, Prog.call_bind, Prog.pure_bind,
      execute_loadDev, if_neg hcmd, Prog.pure_eq, execute_pure]

end Calls

end Aesd.CharDriver

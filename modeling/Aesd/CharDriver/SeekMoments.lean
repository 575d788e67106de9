import Aesd.CharDriver.Seek
import Aesd.CharDriver.SeekWalk
import Aesd.Effects.Interference

/-! # What a seek sees beside writers

`aesd_unlocked_ioctl` takes five steps before it holds the mutex: it reads `out_offs`, copies the
request, reads `out_offs` again, reads the size that it checks, and asks for the mutex. What others
do before each of these steps leads through the states `v 1`, …, `v 5`, and these decide how the
call ends (`momentsOutcome`): the walk goes from the oldest slot of `v 1` to the slot that the
command number names in `v 3`, the size is the one it has in `v 4`, and the sizes added up are those
of `v 5`. This is so in every run beside others (`moments_of_runsBeside`), and any moments are those
of a run (`exists_runsBeside`). -/

namespace Aesd.CharDriver

open Memory Effects Streams

section Outcome

variable {v : World} {l : Log} {env : Env} {arg : AesdSeekto} {trav target size n : ℕ}

/-- The size field of a slot. -/
def World.slotSize (w : World) (i : ℕ) : ℕ := (w.dev.circBuf.slot i).size

/-- The sizes of `n` slots from slot `trav` on. -/
def World.slotSum (w : World) (trav n : ℕ) : ℕ :=
  ((List.range n).map fun j => w.slotSize (trav + j)).sum

/-- The slot of the oldest command. -/
def World.outOffs (w : World) : ℕ := w.dev.circBuf.outOffs

theorem World.outOffs_lt (w : World) : w.outOffs < 10 := w.dev.circBuf.outOffs_lt

theorem World.slotSize_mod (w : World) (i : ℕ) : w.slotSize (i % 10) = w.slotSize i :=
  congrArg AesdBufferEntry.size (AesdCircularBuffer.slot_mod i)

theorem World.slotSum_succ (w : World) (trav n : ℕ) :
    w.slotSum trav (n + 1) = w.slotSum trav n + w.slotSize (trav + n) := by
  simp [World.slotSum, List.range_succ]

theorem Shows.world_slotSize (h : Shows v l) (i : ℕ) : v.slotSize i = l.slotSize (i % 10) := by
  rw [← v.slotSize_mod]
  exact h.size_slot (Nat.mod_lt _ (by omega))

theorem Shows.world_outOffs (h : Shows v l) : v.outOffs = l.outOffs := h.outOffs

/-- From the oldest slot on these are the sizes of the oldest commands. -/
theorem Shows.slotSum_outOffs (h : Shows v l) (hn : n ≤ 10) :
    v.slotSum v.outOffs n = ((l.commands.take n).map List.length).sum := by
  have hout := l.outOffs_lt
  induction n with
  | zero => rfl
  | succ n ih =>
      rw [v.slotSum_succ, ih (by omega), sum_take_succ, h.world_slotSize, h.world_outOffs,
        Log.slotSize, Log.age, show ((l.outOffs + n) % 10 + 10 - l.outOffs) % 10 = n by omega]

/-- How a seek ends that walks from slot `trav` to slot `target` and adds up the sizes that `v` has,
once the offset has been checked against `size`: the returned value, and the position if one is
stored. -/
def walkOutcome (env : Env) (arg : AesdSeekto) (v : World) (trav target size : ℕ) : ℤ × Option ℤ :=
  if arg.writeCmdOffset.toNat > size then (-einval, none)
  else if env.lockOk = false then (-erestartsys, none)
  else (0, some (uint32 (v.slotSum trav ((target + 10 - trav) % 10) + arg.writeCmdOffset.toNat)))

/-- The slot that a command number below ten names. -/
def seekTarget (arg : AesdSeekto) (v : World) : ℕ := (arg.writeCmd.toNat + v.outOffs) % 10

/-- How a seek ends that is done at once. -/
def seekOutcome (env : Env) (arg : AesdSeekto) (v : World) : ℤ × Option ℤ :=
  walkOutcome env arg v v.outOffs (seekTarget arg v) (v.slotSize (seekTarget arg v))

theorem seekIndex_eq_target (hcmd : arg.writeCmd.toNat < 10) (v : World) :
    seekIndex arg.writeCmd v.outOffs = (seekTarget arg v : ℤ) := by
  have hout := v.outOffs_lt
  exact seekIndex_of_lt (by omega)

/-- **The whole seek at once**, for a command number below ten. -/
theorem Shows.invoke_seekOutcome (h : Shows v l) (hcmd : arg.writeCmd.toNat < 10)
    (hcopied : min env.notCopied sizeofSeekto = 0) (filp : File) :
    ∃ v', invoke ⟨.ioctl filp aesdcharIocseekto arg, env⟩ v =
        .ok (.ofRetval (seekOutcome env arg v).1, v') ∧
      v'.fPos filp = (seekOutcome env arg v).2.getD (v.fPos filp) := by
  have hindex := seekIndex_eq_target hcmd v
  have htarget : seekTarget arg v < 10 := Nat.mod_lt _ (by omega)
  have hexec := h.execute_ioctl filp arg hcopied
  have hsize : l.slotSize (seekTarget arg v) = v.slotSize (seekTarget arg v) := by
    rw [h.world_slotSize, Nat.mod_eq_of_lt htarget]
  have hneg : ¬(seekTarget arg v : ℤ) < 0 := by omega
  rw [Log.checkedSize, ← h.world_outOffs, hindex, if_pos (Int.natCast_nonneg _), Int.toNat_natCast,
    hsize, if_neg hneg] at hexec
  rw [seekOutcome, walkOutcome]
  by_cases hoff : arg.writeCmdOffset.toNat > v.slotSize (seekTarget arg v)
  · rw [if_pos hoff] at hexec ⊢
    exact ⟨v, execute_bind _ hexec, rfl⟩
  rw [if_neg hoff] at hexec ⊢
  by_cases hlock : env.lockOk = false
  · rw [if_pos hlock] at hexec ⊢
    exact ⟨v, execute_bind _ hexec, rfl⟩
  · rw [if_neg hlock] at hexec ⊢
    refine ⟨_, execute_bind _ hexec, ?_⟩
    rw [h.slotSum_outOffs (by omega), Log.seekPos, ← h.world_outOffs, hindex, Int.toNat_natCast,
      Log.age, ← h.world_outOffs]
    exact Function.update_self _ _ _

end Outcome

section Locked

/-! ### Under the mutex -/

variable {env : Env} {R : List (Event kernel) → World → World → Prop} {w w' : World}
  {hist : List (Event kernel)} {ws : List World} {a : ℤ} {trav target passed left : ℕ}
  {k : ℤ → Driver ℤ} {byteCount : ℤ}

/-- What a round of the walk adds up. -/
theorem slotSum_step (hcount : byteCount % 2 ^ 32 = (w.slotSum trav passed : ℤ) % 2 ^ 32) :
    int32 (byteCount + (w.dev.circBuf.slot ((trav + passed) % 10)).size) % 2 ^ 32 =
      (w.slotSum trav (passed + 1) : ℤ) % 2 ^ 32 := by
  have hsize : (w.dev.circBuf.slot ((trav + passed) % 10)).size = w.slotSize (trav + passed) :=
    w.slotSize_mod _
  rw [hsize, w.slotSum_succ, int32_emod, Int.natCast_add]
  omega

/-- The walk in a state in which no writer can move adds up the sizes of the slots it passes. The
induction is on the number of slots that are still to be passed. -/
theorem walk_of_runsBeside (hstuck : ∀ hist v, ¬R hist w v) (htrav : trav < 10)
    (ht : target < 10) (hleft : passed + left = (target + 10 - trav) % 10)
    (hcount : byteCount % 2 ^ 32 = (w.slotSum trav passed : ℤ) % 2 ^ 32)
    (hrun : RunsBeside (kernelStep env) R
      (.loop (aesdUnlockedIoctl.walk target) (((trav + passed) % 10 : ℕ), byteCount) k) hist w ws a
      w') :
    ∃ total hist' us, total % 2 ^ 32 =
        (w.slotSum trav ((target + 10 - trav) % 10) : ℤ) % 2 ^ 32 ∧ us ⊆ ws ∧
      RunsBeside (kernelStep env) R (k total) hist' w us a w' := by
  induction left generalizing passed byteCount hist ws with
  | zero =>
      -- the slot of the request has been reached
      have hround := hrun.of_loop
      have hend : (((trav + passed) % 10 : ℕ) : ℤ) = target := by omega
      rw [Prog.unfold, aesdUnlockedIoctl.walk, if_pos hend] at hround
      rw [Nat.add_zero] at hleft
      exact ⟨byteCount, hist, ws, hleft ▸ hcount, List.Subset.refl _, hround⟩
  | succ left ih =>
      have hne : (((trav + passed) % 10 : ℕ) : ℤ) ≠ target := by omega
      have hround := hrun.of_loop
      rw [Prog.unfold, walk_eq (by omega) hne, Prog.call_bind] at hround
      -- one more slot is passed, and nobody moves meanwhile
      obtain ⟨us, hsub, hrest⟩ := hround.of_call_stuck (hstuck _) rfl
      rw [Prog.pure_bind, Sum.elim_inl,
        show ((trav + passed) % 10 + 1) % 10 = (trav + (passed + 1)) % 10 by omega] at hrest
      obtain ⟨total, hist', us', htotal, hsub', hk⟩ := ih (by omega) (slotSum_step hcount) hrest
      exact ⟨total, hist', us', htotal, List.Subset.trans hsub' hsub, hk⟩

/-- The walk when nobody moves. -/
theorem exists_walk {G : World → Prop} (hist : List (Event kernel)) (hG : G w) (htrav : trav < 10)
    (ht : target < 10)
    (hk : ∀ total hist', total % 2 ^ 32 =
        (w.slotSum trav ((target + 10 - trav) % 10) : ℤ) % 2 ^ 32 →
      ∃ ws, RunsBeside (kernelStep env) R (k total) hist' w ws a w' ∧ ∀ u ∈ ws, G u)
    (hleft : passed + left = (target + 10 - trav) % 10)
    (hcount : byteCount % 2 ^ 32 = (w.slotSum trav passed : ℤ) % 2 ^ 32) :
    ∃ ws, RunsBeside (kernelStep env) R
      (.loop (aesdUnlockedIoctl.walk target) (((trav + passed) % 10 : ℕ), byteCount) k) hist w ws a
      w' ∧ ∀ u ∈ ws, G u := by
  induction left generalizing passed byteCount hist with
  | zero =>
      have hend : (((trav + passed) % 10 : ℕ) : ℤ) = target := by omega
      rw [Nat.add_zero] at hleft
      obtain ⟨ws, hrun, hws⟩ := hk byteCount hist (hleft ▸ hcount)
      refine ⟨ws, .loop ?_, hws⟩
      rw [Prog.unfold, aesdUnlockedIoctl.walk, if_pos hend]
      exact hrun
  | succ left ih =>
      have hne : (((trav + passed) % 10 : ℕ) : ℤ) ≠ target := by omega
      obtain ⟨ws, hrun, hws⟩ := ih (hist ++ [⟨.loadDev, w.dev⟩]) (by omega) (slotSum_step hcount)
      refine ⟨w :: ws, .loop ?_, List.forall_mem_cons.mpr ⟨hG, hws⟩⟩
      rw [Prog.unfold, walk_eq (by omega) hne, Prog.call_bind]
      refine .own rfl ?_
      rw [Prog.pure_bind, Sum.elim_inl,
        show ((trav + passed) % 10 + 1) % 10 = (trav + (passed + 1)) % 10 by omega]
      exact hrun

/-- A position is reduced to 32 bits when it is stored. -/
theorem uint32_congr {total : ℤ} {sum offset : ℕ} (htotal : total % 2 ^ 32 = (sum : ℤ) % 2 ^ 32) :
    uint32 (total + offset) = uint32 (sum + offset) := by
  rw [uint32, uint32, Int.add_emod, htotal, ← Int.add_emod]

end Locked

section Moments

/-! ### Before the mutex -/

variable {env : Env} {Q : ℕ → World → World → Prop} {w w' : World} {filp : File} {arg : AesdSeekto}
  {ws : List World} {a : ℤ}

/-- The states in which a seek beside others takes its steps. -/
structure Moments (Q : ℕ → World → World → Prop) (w : World) (ws : List World) (v : ℕ → World) :
    Prop where
  /-- The call begins in `w`. -/
  start : v 0 = w
  /-- The others lead from one of the states to the next. -/
  passes : ∀ k < 5, ∃ us ⊆ ws, Passes (Q k) (v k) us (v (k + 1))

/-- How a seek ends whose steps are taken in these states. -/
def momentsOutcome (env : Env) (arg : AesdSeekto) (v : ℕ → World) : ℤ × Option ℤ :=
  walkOutcome env arg (v 5) (v 1).outOffs (seekTarget arg (v 3))
    ((v 4).slotSize (seekTarget arg (v 3)))

theorem lock_of_free (hlock : env.lockOk ≠ false) {v : World} (hfree : v.dev.lock = none) :
    kernelStep env .mutexLockInterruptible v =
      .ok (0, { v with dev := { v.dev with lock := some env.task } }) := by
  simp only [kernelStep, if_neg hlock, hfree]
  rfl

/-- The mutex is granted when it is free. -/
theorem lock_granted (hlock : env.lockOk ≠ false) {v v' : World} {err : ℤ}
    (hstep : kernelStep env .mutexLockInterruptible v = .ok (err, v')) :
    v.dev.lock = none ∧ err = 0 ∧ v' = { v with dev := { v.dev with lock := some env.task } } := by
  simp only [kernelStep, if_neg hlock] at hstep
  by_cases hfree : v.dev.lock = none
  · rw [hfree] at hstep
    cases hstep
    exact ⟨hfree, rfl, rfl⟩
  · rw [if_pos (Option.isSome_iff_ne_none.mpr hfree)] at hstep
    cases hstep

/-- What follows the checks: with the mutex held nobody else moves. -/
theorem locked_of_runsBeside (hfree : ∀ k v v', Q k v v' → v.dev.lock = none) {trav target : ℕ}
    (htrav : trav < 10) (ht : target < 10) {hist : List (Event kernel)} {v : World}
    (hrun : RunsBeside (kernelStep env) (fun hist => Q hist.length)
      (Prog.loop (aesdUnlockedIoctl.walk target) ((trav : ℤ), (0 : ℤ)) fun byteCount =>
          Prog.call (E := kernel) (.storeFPos filp (uint32 (byteCount + arg.writeCmdOffset.toNat)))
            fun _ => Prog.call (E := kernel) .mutexUnlock fun _ => .pure 0)
      hist v ws a w') (hlock : v.dev.lock ≠ none) :
    a = 0 ∧ w'.fPos filp =
      uint32 (v.slotSum trav ((target + 10 - trav) % 10) + arg.writeCmdOffset.toNat) := by
  have hstuck : ∀ k v', ¬Q k v v' := fun k v' hQ => hlock (hfree k v v' hQ)
  have hstart : (trav + 0) % 10 = trav := Nat.mod_eq_of_lt htrav
  rw [← hstart] at hrun
  obtain ⟨total, hist₁, us, htotal, -, hstore⟩ := walk_of_runsBeside (fun _ => hstuck _) htrav ht
    (Nat.zero_add _) rfl hrun
  obtain ⟨us', -, hunlock⟩ := hstore.of_call_stuck (hstuck _) rfl
  obtain ⟨us'', -, hend⟩ := hunlock.of_call_stuck (fun _ hQ => absurd (hfree _ _ _ hQ) hlock) rfl
  obtain ⟨rfl, rfl, -⟩ := hend.of_pure
  refine ⟨rfl, ?_⟩
  rw [← uint32_congr htotal]
  exact Function.update_self _ _ _

/-- **A seek beside others ends as its moments say.** -/
theorem moments_of_runsBeside (hfree : ∀ k v v', Q k v v' → v.dev.lock = none)
    (hcmd : arg.writeCmd.toNat < 10) (hcopied : min env.notCopied sizeofSeekto = 0)
    (hrun : RunsBeside (kernelStep env) (fun hist => Q hist.length) (seekText filp arg) [] w ws a
      w') :
    ∃ v, Moments Q w ws v ∧ a = (momentsOutcome env arg v).1 ∧
      w'.fPos filp = (momentsOutcome env arg v).2.getD ((v 5).fPos filp) := by
  unfold seekText aesdUnlockedIoctl at hrun
  simp only [loadDev, copySeektoFromUser, Prog.bind_eq, Prog.call_bind, Prog.pure_bind, if_true,
    Prog.pure_eq] at hrun
  obtain ⟨us₀, v₁, dev₁, _, ws₁, hus₀, hpass₀, hstep₁, hws₁, hrun₁⟩ := hrun.of_call
  cases hstep₁
  obtain ⟨us₁, v₂, ⟨left, seekto⟩, _, ws₂, hus₁, hpass₁, hstep₂, hws₂, hrun₂⟩ := hrun₁.of_call
  cases hstep₂
  simp only [ne_eq, hcopied, not_true, if_false] at hrun₂
  obtain ⟨us₂, v₃, dev₃, _, ws₃, hus₂, hpass₂, hstep₃, hws₃, hrun₃⟩ := hrun₂.of_call
  cases hstep₃
  have htarget : seekTarget arg v₃ < 10 := Nat.mod_lt _ (by omega)
  have hindex := seekIndex_eq_target hcmd v₃
  rw [World.outOffs] at hindex
  rw [← seekIndex, hindex, if_neg (by simp only [aesdcharMaxWriteOperationsSupported]; omega),
    entrySize_eq (by omega) (by omega), Prog.call_bind, Int.toNat_natCast] at hrun₃
  simp only [Prog.pure_bind] at hrun₃
  obtain ⟨us₃, v₄, dev₄, _, ws₄, hus₃, hpass₃, hstep₄, hws₄, hrun₄⟩ := hrun₃.of_call
  cases hstep₄
  -- whatever follows, these are its moments
  have hmoments : ∀ {us₄ v₅}, us₄ ⊆ ws₄ → Passes (Q 4) v₄ us₄ v₅ →
      Moments Q w ws fun k => [w, v₁, v₂, v₃, v₄].getD k v₅ := by
    intro us₄ v₅ hus₄ hpass₄
    refine ⟨rfl, fun k hk => ?_⟩
    obtain rfl | rfl | rfl | rfl | rfl : k = 0 ∨ k = 1 ∨ k = 2 ∨ k = 3 ∨ k = 4 := by omega
    · exact ⟨us₀, hus₀, hpass₀⟩
    · exact ⟨us₁, fun _ h => hws₁ (hus₁ h), hpass₁⟩
    · exact ⟨us₂, fun _ h => hws₁ (hws₂ (hus₂ h)), hpass₂⟩
    · exact ⟨us₃, fun _ h => hws₁ (hws₂ (hws₃ (hus₃ h))), hpass₃⟩
    · exact ⟨us₄, fun _ h => hws₁ (hws₂ (hws₃ (hws₄ (hus₄ h)))), hpass₄⟩
  have houtcome : ∀ v₅, momentsOutcome env arg (fun k => [w, v₁, v₂, v₃, v₄].getD k v₅) =
      walkOutcome env arg v₅ v₁.outOffs (seekTarget arg v₃) (v₄.slotSize (seekTarget arg v₃)) :=
    fun _ => rfl
  rw [show (v₄.dev.circBuf.slot (seekTarget arg v₃)).size = v₄.slotSize (seekTarget arg v₃) from
    rfl] at hrun₄
  by_cases hoff : arg.writeCmdOffset.toNat > v₄.slotSize (seekTarget arg v₃)
  · rw [if_pos hoff] at hrun₄
    obtain ⟨rfl, rfl, hmem⟩ := hrun₄.of_pure
    refine ⟨_, hmoments (fun u hu => List.mem_singleton.mp hu ▸ hmem) (.refl _), ?_⟩
    rw [houtcome, walkOutcome, if_pos hoff]
    exact ⟨rfl, rfl⟩
  rw [if_neg hoff] at hrun₄
  simp only [aesdUnlockedIoctl.seek, mutexLockInterruptible, storeFPos, mutexUnlock, Prog.bind_eq,
    Prog.call_bind, Prog.pure_bind, Prog.pure_eq, Prog.iterate, Prog.loop_bind] at hrun₄
  obtain ⟨us₄, v₅, err, v₅', ws₅, hus₄, hpass₄, hstep₅, -, hrun₅⟩ := hrun₄.of_call
  refine ⟨_, hmoments hus₄ hpass₄, ?_⟩
  rw [houtcome, walkOutcome, if_neg hoff]
  by_cases hlock : env.lockOk = false
  · rw [Shows.lock_refused hlock] at hstep₅
    cases hstep₅
    rw [if_pos (by decide)] at hrun₅
    obtain ⟨rfl, rfl, -⟩ := hrun₅.of_pure
    rw [if_pos hlock]
    exact ⟨rfl, rfl⟩
  · obtain ⟨-, rfl, rfl⟩ := lock_granted hlock hstep₅
    rw [if_neg hlock]
    rw [if_neg (not_not.mpr rfl)] at hrun₅
    have hend := locked_of_runsBeside hfree v₁.outOffs_lt htarget hrun₅
      (Option.some_ne_none env.task)
    exact hend

/-- The locked section when nobody moves. -/
theorem exists_locked {G : World → Prop} {trav target : ℕ} (htrav : trav < 10) (ht : target < 10)
    {hist : List (Event kernel)} {v : World}
    (hG : ∀ fPos, G { v with fPos } ∧ G { v with dev := { v.dev with lock := none }, fPos }) :
    ∃ ws w', RunsBeside (kernelStep env) (fun hist => Q hist.length)
      (Prog.loop (aesdUnlockedIoctl.walk target) ((trav : ℤ), (0 : ℤ)) fun byteCount =>
          Prog.call (E := kernel) (.storeFPos filp (uint32 (byteCount + arg.writeCmdOffset.toNat)))
            fun _ => Prog.call (E := kernel) .mutexUnlock fun _ => .pure 0)
      hist v ws (0 : ℤ) w' ∧ w'.fPos filp =
        uint32 (v.slotSum trav ((target + 10 - trav) % 10) + arg.writeCmdOffset.toNat) ∧
      ∀ u ∈ ws, G u := by
  obtain ⟨pos, hpos⟩ : ∃ pos, uint32 (v.slotSum trav ((target + 10 - trav) % 10) +
    arg.writeCmdOffset.toNat) = pos := ⟨_, rfl⟩
  have hstart : (trav + 0) % 10 = trav := Nat.mod_eq_of_lt htrav
  have hrest : ∀ (total : ℤ) (hist : List (Event kernel)), total % 2 ^ 32 =
      (v.slotSum trav ((target + 10 - trav) % 10) : ℤ) % 2 ^ 32 →
      ∃ ws, RunsBeside (kernelStep env) (fun hist => Q hist.length)
        (Prog.call (E := kernel) (.storeFPos filp (uint32 (total + arg.writeCmdOffset.toNat)))
          fun _ => Prog.call (E := kernel) .mutexUnlock fun _ => .pure (0 : ℤ)) hist v ws 0
        { v with dev := { v.dev with lock := none }, fPos := Function.update v.fPos filp pos } ∧
        ∀ u ∈ ws, G u := by
    intro total hist htotal
    rw [uint32_congr htotal, hpos]
    refine ⟨_, .own rfl (.own rfl (.pure 0 _ _)), ?_⟩
    simp only [List.mem_cons, List.not_mem_nil, or_false]
    rintro u (hu | hu | hu)
    · exact hu ▸ (hG v.fPos).1
    · exact hu ▸ (hG _).1
    · exact hu ▸ (hG _).2
  obtain ⟨ws, hrun, hws⟩ := exists_walk hist (hG v.fPos).1 htrav ht hrest (Nat.zero_add _) rfl
  rw [hstart] at hrun
  refine ⟨ws, _, hrun, ?_, hws⟩
  rw [hpos]
  exact Function.update_self _ _ _

/-- **Any moments are those of a run.** -/
theorem exists_runsBeside (hcmd : arg.writeCmd.toNat < 10)
    (hcopied : min env.notCopied sizeofSeekto = 0) (filp : File) {v : ℕ → World}
    {us : ℕ → List World} (hpass : ∀ k < 5, Passes (Q k) (v k) (us k) (v (k + 1)))
    (hfree : (v 5).dev.lock = none)
    (hchecked : arg.writeCmdOffset.toNat ≤ (v 4).slotSize (seekTarget arg (v 3)))
    {G : World → Prop} (hG : ∀ k < 5, ∀ u ∈ us k, G u)
    (hlocked : ∀ u, env.lockOk ≠ false → u.dev.lock ≠ none → G u)
    (hend : ∀ fPos, G { v 5 with fPos }) :
    ∃ ws w', RunsBeside (kernelStep env) (fun hist => Q hist.length) (seekText filp arg) [] (v 0) ws
      (momentsOutcome env arg v).1 w' ∧
      w'.fPos filp = (momentsOutcome env arg v).2.getD ((v 5).fPos filp) ∧ (∀ u ∈ ws, G u) ∧
      ∀ k < 5, us k ⊆ ws := by
  have hindex := seekIndex_eq_target hcmd (v 3)
  rw [World.outOffs] at hindex
  have htarget : seekTarget arg (v 3) < 10 := Nat.mod_lt _ (by omega)
  rw [momentsOutcome, walkOutcome, if_neg (not_lt.mpr hchecked)]
  obtain ⟨⟨a, pos⟩, houtcome⟩ : ∃ o : ℤ × Option ℤ, (if env.lockOk = false then (-erestartsys, none)
    else (0, some (uint32 ((v 5).slotSum (v 1).outOffs
      ((seekTarget arg (v 3) + 10 - (v 1).outOffs) % 10) + arg.writeCmdOffset.toNat)))) = o :=
    ⟨_, rfl⟩
  rw [houtcome]
  -- what follows the five steps
  suffices hrest : ∀ hist : List (Event kernel), hist.length = 4 →
      ∃ ws w', RunsBeside (kernelStep env) (fun hist => Q hist.length)
        (aesdUnlockedIoctl.seek filp (v 1).outOffs (seekTarget arg (v 3)) arg.writeCmdOffset) hist
        (v 4) ws a w' ∧ w'.fPos filp = pos.getD ((v 5).fPos filp) ∧ (∀ u ∈ ws, G u) ∧ us 4 ⊆ ws by
    obtain ⟨ws, w', hrun, hpos, hws, hus₄⟩ := hrest [⟨.loadDev, (v 1).dev⟩,
      ⟨.copySeektoFromUser arg, (min env.notCopied sizeofSeekto, arg)⟩, ⟨.loadDev, (v 3).dev⟩,
      ⟨.loadDev, (v 4).dev⟩] rfl
    refine ⟨us 0 ++ (us 1 ++ (us 2 ++ (us 3 ++ ws))), w', ?_, hpos, ?_, fun k hk u hu => ?_⟩
    · unfold seekText aesdUnlockedIoctl
      simp only [loadDev, copySeektoFromUser, Prog.bind_eq, Prog.call_bind, Prog.pure_bind, if_true,
        Prog.pure_eq]
      refine .call (hpass 0 (by omega)) rfl (.call (hpass 1 (by omega)) rfl ?_)
      rw [if_neg (not_not.mpr hcopied)]
      refine .call (hpass 2 (by omega)) rfl ?_
      rw [← seekIndex, hindex, if_neg (by simp only [aesdcharMaxWriteOperationsSupported]; omega),
        entrySize_eq (by omega) (by omega), Prog.call_bind, Int.toNat_natCast]
      refine .call (hpass 3 (by omega)) rfl ?_
      rw [Prog.pure_bind]
      exact (if_neg (not_lt.mpr hchecked)).symm ▸ hrun
    · intro u hu
      simp only [List.mem_append] at hu
      rcases hu with hu | hu | hu | hu | hu
      · exact hG 0 (by omega) u hu
      · exact hG 1 (by omega) u hu
      · exact hG 2 (by omega) u hu
      · exact hG 3 (by omega) u hu
      · exact hws u hu
    · simp only [List.mem_append]
      obtain rfl | rfl | rfl | rfl | rfl : k = 0 ∨ k = 1 ∨ k = 2 ∨ k = 3 ∨ k = 4 := by omega
      · exact .inl hu
      · exact .inr (.inl hu)
      · exact .inr (.inr (.inl hu))
      · exact .inr (.inr (.inr (.inl hu)))
      · exact .inr (.inr (.inr (.inr (hus₄ hu))))
  intro hist hlen
  have hpass₄ : Passes (Q hist.length) (v 4) (us 4) (v 5) := by
    rw [hlen]
    exact hpass 4 (by omega)
  simp only [aesdUnlockedIoctl.seek, mutexLockInterruptible, storeFPos, mutexUnlock, Prog.bind_eq,
    Prog.call_bind, Prog.pure_bind, Prog.pure_eq, Prog.iterate, Prog.loop_bind]
  by_cases hlock : env.lockOk = false
  · rw [if_pos hlock] at houtcome
    cases houtcome
    refine ⟨us 4 ++ [v 5], v 5, .call hpass₄ (Shows.lock_refused hlock) ?_, rfl, ?_,
      List.subset_append_left _ _⟩
    · rw [if_pos (by decide)]
      exact .pure _ _ _
    · intro u hu
      rcases List.mem_append.mp hu with hu | hu
      · exact hG 4 (by omega) u hu
      · exact List.mem_singleton.mp hu ▸ hend (v 5).fPos
  · rw [if_neg hlock] at houtcome
    cases houtcome
    have hlast : ∀ fPos, G { v 5 with dev := { (v 5).dev with lock := some env.task }, fPos } ∧
        G { v 5 with dev := { (v 5).dev with lock := none }, fPos } :=
      fun fPos => ⟨hlocked _ hlock (Option.some_ne_none _), by simpa only [← hfree] using hend fPos⟩
    obtain ⟨ws, w', hrun, hpos, hws⟩ := exists_locked (Q := Q)
      (v := { v 5 with dev := { (v 5).dev with lock := some env.task } }) (v 1).outOffs_lt htarget
      hlast
    refine ⟨us 4 ++ ws, w', .call hpass₄ (lock_of_free hlock hfree) ?_, hpos, ?_,
      List.subset_append_left _ _⟩
    · rw [if_neg (not_not.mpr rfl)]
      exact hrun
    · intro u hu
      rcases List.mem_append.mp hu with hu | hu
      · exact hG 4 (by omega) u hu
      · exact hws u hu

end Moments

end Aesd.CharDriver

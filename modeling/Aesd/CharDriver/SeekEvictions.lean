import Aesd.CharDriver.SeekRace
import Aesd.Streams.Provenance

/-! # Seeks that evictions tear

For each step of the call before which an eviction can do harm there is a run in which it does: ten
lines of one length have been written, and before this step some more are, the last of which may
have another length. It lies in the slot in which the oldest command was when the seek read
`out_offs`. So the evictions after which a seek is still atomic are known exactly
(`seek_atomic_iff`). -/

namespace Aesd.CharDriver

open Memory Effects Streams

section Lines

/-! ### Writing lines of given lengths -/

variable {v w : World} {l : Log} {n m z : ℕ} {P : ℕ → Prop}

/-- A line of `m + 1` bytes. -/
def lineOf (m : ℕ) : List UInt8 := List.replicate m 97 ++ [newline]

theorem isLine_lineOf (m : ℕ) : IsLine isNewline (lineOf m) := by
  refine ⟨List.replicate m 97, newline, rfl, rfl, fun y hy => ?_⟩
  rw [List.eq_of_mem_replicate hy]
  rfl

theorem length_lineOf (m : ℕ) : (lineOf m).length = m + 1 := by simp [lineOf]

/-- The state stands for a log of these lines, and no line has been begun. -/
def HasLines (v : World) (ls : List (List UInt8)) : Prop :=
  ∃ l, Stands v l ∧ lines isNewline l.stream = ls ∧ l.pending = []

/-- One more line is written. -/
theorem HasLines.write {ls : List (List UInt8)} (h : HasLines v ls) (hm : m < allocationLimit)
    (filp : File) (t : ℕ) :
    ∃ v', invoke ⟨.write filp (lineOf m), .calm t⟩ v = .ok (.ofRetval (m + 1 : ℕ), v') ∧
      WriteStep v v' ∧ HasLines v' (ls ++ [lineOf m]) := by
  obtain ⟨l, hl, rfl, hpending⟩ := h
  have hline := isLine_lineOf m
  have hfirst : firstLine isNewline (lineOf m) = lineOf m := hline.firstLine
  have hserved : WriteServed ⟨.write filp (lineOf m), .calm t⟩ v := by
    have hsize := hl.represents.working.size
    rw [show rest isNewline l.stream = [] from hpending] at hsize
    refine ⟨?_, rfl, ?_⟩
    · rw [WriteTurnedAway, length_lineOf]
      simp [Env.calm]
      omega
    · rw [hsize, hfirst, length_lineOf]
      exact (Nat.zero_add _).trans_le hm
  obtain ⟨v', l', hi, h', hstream⟩ := hl.served hserved
  replace hstream : l'.stream = l.stream ++ lineOf m := hstream.trans (congrArg _ hfirst)
  have hlen : (firstLine isNewline (lineOf m)).length = m + 1 := by rw [hfirst, length_lineOf]
  refine ⟨v', hlen ▸ hi, ⟨_, _, _, _, hl.represents.unlocked, hi⟩, l', h', ?_, ?_⟩
  · rw [hstream, lines_append_line hline, show rest isNewline l.stream = [] from hpending,
      List.nil_append]
  · rw [Log.pending, hstream, rest_append_line hline]

/-- Any number of lines of one length can be written to the device just set up. -/
theorem exists_hasLines (hm : m < allocationLimit) (filp : File) (t n : ℕ) : ∃ rs w,
    invokeAll (List.replicate n ⟨.write filp (lineOf m), .calm t⟩) aesdInitModule = .ok (rs, w) ∧
      HasLines w (List.replicate n (lineOf m)) := by
  induction n with
  | zero => exact ⟨[], aesdInitModule, invokeAll_nil, Log.init, stands_init, rfl, rfl⟩
  | succ n ih =>
      obtain ⟨rs, w, hinit, hw⟩ := ih
      obtain ⟨w', hi, -, hw'⟩ := hw.write hm filp t
      rw [List.replicate_succ', List.replicate_succ']
      exact ⟨_, w', invokeAll_concat hinit hi, hw'⟩

theorem HasLines.shows {ls : List (List UInt8)} (h : HasLines v ls) :
    ∃ l, Shows v l ∧ lines isNewline l.stream = ls := by
  obtain ⟨l, hl, hlines, -⟩ := h
  exact ⟨l, hl.shows, hlines⟩

theorem HasLines.outOffs {ls : List (List UInt8)} (h : HasLines v ls) :
    v.outOffs = (ls.length - 10) % 10 := by
  obtain ⟨l, hl, rfl⟩ := h.shows
  rw [hl.world_outOffs, Log.outOffs]

/-- All slots hold lines of one length. -/
theorem HasLines.slotSize_replicate (h : HasLines v (List.replicate n (lineOf m))) {i : ℕ}
    (hi : i % 10 < n) : v.slotSize i = m + 1 := by
  obtain ⟨l, hl, hlines⟩ := h.shows
  rw [hl.world_slotSize, l.slotSize_eq, hlines, List.length_replicate,
    List.getElem?_replicate_of_lt (by omega)]
  exact length_lineOf m

/-- One more line takes the place of the oldest one. -/
theorem HasLines.slotSize_concat {v' : World} {ls : List (List UInt8)} (h : HasLines v ls)
    {c : List UInt8} (h' : HasLines v' (ls ++ [c])) (i : ℕ) :
    v'.slotSize i = if i % 10 = ls.length % 10 then c.length else v.slotSize i := by
  obtain ⟨l, hl, rfl⟩ := h.shows
  obtain ⟨l', hl', hlines⟩ := h'.shows
  rw [hl.world_slotSize, hl'.world_slotSize, Log.slotSize_concat hlines (Nat.mod_lt _ (by omega))]

/-- `c` more lines of one length and then one of another, written before the `k`-th step. -/
theorem HasLines.exists_passes {k c : ℕ} (h : HasLines v (List.replicate n (lineOf m)))
    (hn : 10 ≤ n) (hm : m < allocationLimit) (hz : z < allocationLimit) (hP : P k) :
    ∃ us v', Passes (EvictsOnly P k) v us v' ∧
      (∀ u ∈ us, (∃ n ≥ 10, HasLines u (List.replicate n (lineOf m))) ∨ u = v') ∧
      ∃ x, HasLines x (List.replicate (n + c) (lineOf m)) ∧
        HasLines v' (List.replicate (n + c) (lineOf m) ++ [lineOf z]) := by
  induction c generalizing v n with
  | zero =>
      obtain ⟨v', -, hstep, h'⟩ := h.write hz 1 1
      refine ⟨_, v', .step ⟨hstep, fun _ => hP⟩ (.refl v'), ?_, v, h, h'⟩
      simp only [List.mem_cons, List.not_mem_nil, or_false]
      rintro u (rfl | rfl)
      · exact .inl ⟨n, hn, h⟩
      · exact .inr rfl
  | succ c ih =>
      obtain ⟨v₁, -, hstep, h₁⟩ := h.write hm 1 1
      rw [← List.replicate_succ'] at h₁
      obtain ⟨us, v', hpass, hus, x, hx, hv'⟩ := ih h₁ (by omega)
      rw [Nat.succ_add_eq_add_succ] at hx hv'
      refine ⟨_, v', .step ⟨hstep, fun _ => hP⟩ hpass, ?_, x, hx, hv'⟩
      exact List.forall_mem_cons.mpr ⟨.inl ⟨n, hn, h⟩, hus⟩

end Lines

section Torn

/-! ### What the seek makes of it -/

variable {env : Env} {arg : AesdSeekto} {v w : World} {P : ℕ → Prop} {m z : ℕ}

theorem walkOutcome_cases (env : Env) (arg : AesdSeekto) (v : World) (trav target size : ℕ) :
    walkOutcome env arg v trav target size = (-einval, none) ∨
      walkOutcome env arg v trav target size = (-erestartsys, none) ∨
      ∃ pos, walkOutcome env arg v trav target size = (0, some pos) := by
  unfold walkOutcome
  split_ifs
  · exact .inl rfl
  · exact .inr (.inl rfl)
  · exact .inr (.inr ⟨_, rfl⟩)

/-- Outcomes that cannot be told apart are the same. -/
theorem walkOutcome_eq_of_seen {v v' : World} {trav trav' target target' size size' : ℕ} {x y : ℤ}
    (hretval : (walkOutcome env arg v trav target size).1 =
      (walkOutcome env arg v' trav' target' size').1)
    (hpos : (walkOutcome env arg v trav target size).2.getD x =
      (walkOutcome env arg v' trav' target' size').2.getD y) :
    walkOutcome env arg v trav target size = walkOutcome env arg v' trav' target' size' := by
  have hne : -einval ≠ 0 ∧ -erestartsys ≠ 0 ∧ -einval ≠ -erestartsys := by decide
  rcases walkOutcome_cases env arg v trav target size with h | h | ⟨pos, h⟩ <;>
    rcases walkOutcome_cases env arg v' trav' target' size' with h' | h' | ⟨pos', h'⟩ <;>
    rw [h, h'] at hretval hpos ⊢
  all_goals first
    | rfl
    | exact absurd hretval hne.1
    | exact absurd hretval hne.2.1
    | exact absurd hretval hne.2.2
    | exact absurd hretval.symm hne.1
    | exact absurd hretval.symm hne.2.1
    | exact absurd hretval.symm hne.2.2
    | exact congrArg (fun pos => ((0 : ℤ), some pos)) hpos

/-- While another task has the mutex a seek does not get to its end. -/
theorem invoke_seek_locked (hcmd : arg.writeCmd.toNat < 10)
    (hcopied : min env.notCopied sizeofSeekto = 0) (hlock : env.lockOk = true)
    (hheld : v.dev.lock ≠ none) (filp : File) (v' : World) :
    invoke ⟨.ioctl filp aesdcharIocseekto arg, env⟩ v ≠ .ok (.ofRetval 0, v') := by
  have hindex := seekIndex_eq_target hcmd v
  rw [World.outOffs] at hindex
  have htarget : seekTarget arg v < 10 := Nat.mod_lt _ (by omega)
  have hcopy : kernelStep env (.copySeektoFromUser arg) v =
      .ok ((min env.notCopied sizeofSeekto, arg), v) := rfl
  have hmutex : kernelStep env .mutexLockInterruptible v = .error .hang := by
    simp only [kernelStep, hlock, Option.isSome_iff_ne_none.mpr hheld]
    rfl
  have hexec : execute env (aesdUnlockedIoctl filp aesdcharIocseekto arg) v =
      if arg.writeCmdOffset.toNat > v.slotSize (seekTarget arg v) then .ok (-einval, v)
      else .error .hang := by
    simp only [aesdUnlockedIoctl, loadDev, copySeektoFromUser, Prog.bind_eq, Prog.call_bind,
      Prog.pure_bind, execute_loadDev, if_true, execute_call _ hcopy, ne_eq, hcopied, not_true,
      if_false, Prog.pure_eq]
    rw [← seekIndex, hindex, if_neg (by simp only [aesdcharMaxWriteOperationsSupported]; omega),
      entrySize_eq (by omega) (by omega)]
    simp only [Prog.call_bind, Prog.pure_bind, execute_loadDev, Int.toNat_natCast]
    rw [show (v.dev.circBuf.slot (seekTarget arg v)).size = v.slotSize (seekTarget arg v) from rfl]
    by_cases hoff : arg.writeCmdOffset.toNat > v.slotSize (seekTarget arg v)
    · rw [if_pos hoff, if_pos hoff, execute_pure]
    · rw [if_neg hoff, if_neg hoff]
      simp only [aesdUnlockedIoctl.seek, mutexLockInterruptible, Prog.bind_eq, Prog.call_bind]
      exact run_call_error _ hmutex
  intro hok
  by_cases hoff : arg.writeCmdOffset.toNat > v.slotSize (seekTarget arg v)
  · rw [if_pos hoff] at hexec
    have heinval : invoke ⟨.ioctl filp aesdcharIocseekto arg, env⟩ v =
        .ok (.ofRetval (-einval), v) := execute_bind _ hexec
    rw [hok] at heinval
    cases heinval
  · rw [if_neg hoff] at hexec
    have hhang : invoke ⟨.ioctl filp aesdcharIocseekto arg, env⟩ v = .error .hang :=
      execute_bind_error _ hexec
    rw [hok] at hhang
    cases hhang

/-- The moments of a seek when all writes come after its first `k` steps. -/
def allAt (k : ℕ) (w v : World) (j : ℕ) : World := if j ≤ k then w else v

theorem allAt_of_le {k j : ℕ} (h : j ≤ k) : allAt k w v j = w := if_pos h

theorem allAt_of_lt {k j : ℕ} (h : k < j) : allAt k w v j = v := if_neg (not_le.mpr h)

theorem allAt_passes {Q : ℕ → World → World → Prop} {k : ℕ} {us : List World}
    (hpass : Passes (Q k) w us v) (j : ℕ) :
    Passes (Q j) (allAt k w v j) (if j = k then us else [allAt k w v j])
      (allAt k w v (j + 1)) := by
  rcases lt_trichotomy j k with hlt | rfl | hgt
  · rw [allAt_of_le hlt.le, allAt_of_le (show j + 1 ≤ k from hlt), if_neg hlt.ne]
    exact .refl w
  · rw [allAt_of_le (le_refl j), allAt_of_lt (Nat.lt_succ_self j), if_pos rfl]
    exact hpass
  · rw [allAt_of_lt hgt, allAt_of_lt (hgt.trans (Nat.lt_succ_self j)), if_neg hgt.ne']
    exact .refl v

/-- The seek would not end as `o` says if it were done at once in this state. -/
def Differs (env : Env) (arg : AesdSeekto) (o : ℤ × Option ℤ) (u : World) : Prop :=
  (∃ l, Shows u l) ∧ seekOutcome env arg u ≠ o

/-- A seek that ends as it would not end in any of the states that the writes after its first `k`
steps lead through. -/
theorem exists_not_atomic {Q : ℕ → World → World → Prop} (hcmd : arg.writeCmd.toNat < 10)
    (hcopied : min env.notCopied sizeofSeekto = 0) (filp : File) {k : ℕ} (hk : k < 5)
    {us : List World} (hpass : Passes (Q k) w us v)
    (hchecked : arg.writeCmdOffset.toNat ≤
      (allAt k w v 4).slotSize (seekTarget arg (allAt k w v 3)))
    (hus : ∀ u ∈ us, Differs env arg (momentsOutcome env arg (allAt k w v)) u) :
    ∃ ws a w', RunsBeside (kernelStep env) (fun hist => Q hist.length) (seekText filp arg) [] w ws a
      w' ∧ ¬AtomicAtSome env filp arg ws a w' := by
  have hlast : allAt k w v 5 = v := allAt_of_lt hk
  have hv := hus v hpass.mem_last
  have hvisited : ∀ j < 5, ∀ u ∈ (if j = k then us else [allAt k w v j]),
      Differs env arg (momentsOutcome env arg (allAt k w v)) u := by
    intro j _ u hu
    by_cases hjk : j = k
    · rw [if_pos hjk] at hu
      exact hus u hu
    rw [if_neg hjk, List.mem_singleton] at hu
    rcases Nat.lt_or_ge k j with hlt | hle
    · rw [hu, allAt_of_lt hlt]
      exact hv
    · rw [hu, allAt_of_le hle]
      exact hus w hpass.mem_first
  have hend : ∀ fPos, Differs env arg (momentsOutcome env arg (allAt k w v))
      { allAt k w v 5 with fPos } := by
    intro fPos
    rw [hlast]
    obtain ⟨⟨l, hl⟩, hne⟩ := hv
    exact ⟨⟨{ l with fPos }, hl.ring, hl.commands, hl.nonempty, hl.unlocked, rfl⟩, hne⟩
  have hfree : (allAt k w v 5).dev.lock = none := by
    obtain ⟨l, hl⟩ := hv.1
    rw [hlast]
    exact hl.unlocked
  obtain ⟨ws, w', hrun, hpos, hws, -⟩ := exists_runsBeside hcmd hcopied filp
    (fun j _ => allAt_passes hpass j) hfree hchecked
    (G := fun u => env.lockOk ≠ false ∧ u.dev.lock ≠ none ∨
      Differs env arg (momentsOutcome env arg (allAt k w v)) u)
    (fun j hj u hu => .inr (hvisited j hj u hu)) (fun u hlock hheld => .inl ⟨hlock, hheld⟩)
    (fun fPos => .inr (hend fPos))
  rw [allAt_of_le (Nat.zero_le k)] at hrun
  refine ⟨ws, _, w', hrun, ?_⟩
  rintro ⟨u, hu, u', hi, hu'⟩
  rcases hws u hu with ⟨hlock, hheld⟩ | ⟨⟨m, hm⟩, hne⟩
  · -- the seek cannot be done here
    rw [momentsOutcome, walkOutcome, if_neg (not_lt.mpr hchecked), if_neg hlock] at hi
    exact invoke_seek_locked hcmd hcopied (by simpa using hlock) hheld filp u' hi
  · obtain ⟨x, hx, hx'⟩ : ∃ x, invoke ⟨.ioctl filp aesdcharIocseekto arg, env⟩ u =
        .ok (.ofRetval (seekOutcome env arg u).1, x) ∧
        x.fPos filp = (seekOutcome env arg u).2.getD (u.fPos filp) :=
      hm.invoke_seekOutcome hcmd hcopied filp
    rw [hi, Except.ok.injEq, Prod.mk.injEq] at hx
    obtain ⟨hretval, rfl⟩ := hx
    exact hne (walkOutcome_eq_of_seen (congrArg Reply.retval hretval).symm
      (hx'.symm.trans (hu'.trans hpos)))

end Torn

section Kinds

/-! ### The three kinds of evictions that do harm -/

variable {env : Env} {arg : AesdSeekto} {u v w : World} {P : ℕ → Prop} {k m n z : ℕ}

/-- Slots of one size. -/
theorem slotSum_of_forall {t n : ℕ} (h : ∀ j < n, u.slotSize (t + j) = m) :
    u.slotSum t n = n * m := by
  induction n with
  | zero => simp [World.slotSum]
  | succ n ih =>
      rw [u.slotSum_succ, ih fun j hj => h j (by omega), h n (Nat.lt_succ_self n), Nat.succ_mul]

theorem uint32_add_inj {x y o : ℕ} :
    uint32 (x + o) = uint32 (y + o) ↔ ((x : ℤ) - y) % 2 ^ 32 = 0 := by
  rw [uint32, uint32, Int.emod_eq_emod_iff_emod_sub_eq_zero, add_sub_add_right_eq_sub]

theorem slotSum_succ_left (u : World) (t n : ℕ) :
    u.slotSum t (n + 1) = u.slotSize t + u.slotSum (t + 1) n := by
  induction n with
  | zero => simp [World.slotSum]
  | succ n ih =>
      rw [u.slotSum_succ, ih, u.slotSum_succ, Nat.add_assoc, Nat.add_right_comm t 1 n]
      rfl

/-- One slot more or nine slots less make another position. -/
theorem uint32_ne_of_slot {n d o : ℕ} (hn : n < 10) (hd : 0 < d) (hd' : d < 2 ^ 32) :
    uint32 ((n * d : ℕ) + o) ≠ uint32 (((n + 1) % 10 * d : ℕ) + o) := by
  rw [ne_eq, uint32_add_inj]
  rcases Nat.lt_or_ge n 9 with hlt | hge
  · rw [Nat.mod_eq_of_lt (by omega), Nat.succ_mul]
    omega
  · rw [show n = 9 by omega, show (9 + 1) % 10 = 0 by decide, Nat.zero_mul, Int.natCast_zero,
      sub_zero]
    intro hzero
    -- nine is prime to the modulus
    have hprime : Nat.Coprime (2 ^ 32) 9 := by decide
    have hdvd : 2 ^ 32 ∣ d := hprime.dvd_of_dvd_mul_left
      (Int.natCast_dvd_natCast.mp (Int.dvd_of_emod_eq_zero hzero))
    exact absurd (Nat.le_of_dvd hd hdvd) (not_le.mpr hd')

/-- The seek at once where the slots from the oldest one on have one size. -/
theorem seekOutcome_of_forall (hcmd : arg.writeCmd.toNat < 10)
    (hu : ∀ j < arg.writeCmd.toNat, u.slotSize (u.outOffs + j) = m) :
    seekOutcome env arg u =
      if arg.writeCmdOffset.toNat > u.slotSize (seekTarget arg u) then (-einval, none)
      else if env.lockOk = false then (-erestartsys, none)
      else (0, some (uint32 ((arg.writeCmd.toNat * m : ℕ) + arg.writeCmdOffset.toNat))) := by
  have hout := u.outOffs_lt
  have hage : (seekTarget arg u + 10 - u.outOffs) % 10 = arg.writeCmd.toNat := by
    rw [seekTarget]
    omega
  rw [seekOutcome, walkOutcome, hage, slotSum_of_forall hu]

/-- A state in which the seek is answered as the outcome `o` does not say. -/
theorem HasLines.differs {ls : List (List UInt8)} {o : ℤ × Option ℤ} (h : HasLines u ls)
    (hne : seekOutcome env arg u ≠ o) : Differs env arg o u := by
  obtain ⟨l, hl, -⟩ := h.shows
  exact ⟨⟨l, hl⟩, hne⟩

/-- There is a run from the device that writes have led to in which the seek is not atomic. -/
def Torn (env : Env) (arg : AesdSeekto) (P : ℕ → Prop) : Prop :=
  ∃ is rs w ws a w', invokeAll is aesdInitModule = .ok (rs, w) ∧
    RunsBeside (kernelStep env) (fun hist => EvictsOnly P hist.length) (seekText 0 arg) [] w ws a
      w' ∧ ¬AtomicAtSome env 0 arg ws a w'

/-- Ten lines of `m + 1` bytes, and after the first `k` steps of the seek `c` more and then one of
`z + 1` bytes. -/
theorem torn_of_outcome (hcmd : arg.writeCmd.toNat < 10)
    (hcopied : min env.notCopied sizeofSeekto = 0) (hk : k < 5) (hP : P k) (c : ℕ)
    (hm : m < allocationLimit) (hz : z < allocationLimit)
    (houtcome : ∀ w v, w.outOffs = 0 → (∀ i, w.slotSize i = m + 1) → v.outOffs = (c + 1) % 10 →
      (∀ i, v.slotSize i = if i % 10 = c % 10 then z + 1 else m + 1) →
      arg.writeCmdOffset.toNat ≤ (allAt k w v 4).slotSize (seekTarget arg (allAt k w v 3)) ∧
        (∀ u, (∀ i, u.slotSize i = m + 1) →
          seekOutcome env arg u ≠ momentsOutcome env arg (allAt k w v)) ∧
        seekOutcome env arg v ≠ momentsOutcome env arg (allAt k w v)) :
    Torn env arg P := by
  obtain ⟨rs, w, hinit, hw⟩ := exists_hasLines hm 0 0 10
  obtain ⟨us, v, hpass, hus, x, hx, hv⟩ := hw.exists_passes (c := c) le_rfl hm hz hP
  have hlen : (List.replicate (10 + c) (lineOf m)).length = 10 + c := List.length_replicate
  have hvout := hv.outOffs
  have hvsize := hx.slotSize_concat hv
  rw [List.length_append, hlen, List.length_singleton] at hvout
  rw [hlen] at hvsize
  obtain ⟨hchecked, hflat, hlast⟩ := houtcome w v
    (by rw [hw.outOffs, List.length_replicate]) (fun i => hw.slotSize_replicate (by omega))
    (by omega) fun i => by
      rw [hvsize, hx.slotSize_replicate (by omega), length_lineOf]
      simp
  have hdiffers : ∀ u ∈ us, Differs env arg (momentsOutcome env arg (allAt k w v)) u := by
    intro u hu
    rcases hus u hu with ⟨n, hn, hlines⟩ | rfl
    · exact hlines.differs (hflat u fun i => hlines.slotSize_replicate (by omega))
    · exact hv.differs hlast
  obtain ⟨ws, a, w', hrun, hnot⟩ := exists_not_atomic hcmd hcopied 0 hk hpass hchecked hdiffers
  exact ⟨_, rs, w, ws, a, w', hinit, hrun, hnot⟩

/-- An eviction between the two reads of `out_offs`: the walk goes one slot too far, or none at
all. -/
theorem torn_between_reads (hcmd : arg.writeCmd.toNat < 10)
    (hcopied : min env.notCopied sizeofSeekto = 0) (hlock : env.lockOk ≠ false) (hk : 1 ≤ k)
    (hk' : k < 3) (hP : P k) : Torn env arg P := by
  have hoff := arg.writeCmdOffset.toNat_lt
  have hlimit : 2 ^ 32 < allocationLimit := by decide
  obtain ⟨m, hm⟩ : ∃ m, arg.writeCmdOffset.toNat - 1 = m := ⟨_, rfl⟩
  refine torn_of_outcome (m := m) (z := m) hcmd hcopied (by omega) hP 0 (by omega) (by omega) ?_
  intro w v hwout _ hvout hvsize
  replace hvsize : ∀ i, v.slotSize i = m + 1 := fun i => (hvsize i).trans (ite_self _)
  have htarget : seekTarget arg v = (arg.writeCmd.toNat + 1) % 10 := by rw [seekTarget, hvout]
  have houtcome : momentsOutcome env arg (allAt k w v) =
      (0, some (uint32 (((arg.writeCmd.toNat + 1) % 10 * (m + 1) : ℕ) +
        arg.writeCmdOffset.toNat))) := by
    rw [momentsOutcome, allAt_of_lt (by omega : k < 5), allAt_of_lt (by omega : k < 4),
      allAt_of_lt hk', allAt_of_le hk, walkOutcome, hvsize, if_neg (by omega), if_neg hlock, hwout,
      htarget, slotSum_of_forall fun j _ => hvsize _, Nat.sub_zero, Nat.add_mod_right, Nat.mod_mod]
  have hne : ∀ u : World, (∀ i, u.slotSize i = m + 1) →
      seekOutcome env arg u ≠ momentsOutcome env arg (allAt k w v) := by
    intro u hu
    rw [seekOutcome_of_forall hcmd fun j _ => hu _, hu, if_neg (by omega), if_neg hlock, houtcome]
    intro heq
    exact uint32_ne_of_slot hcmd (Nat.succ_pos m) (by omega)
      (Option.some.inj (Prod.mk.inj heq).2)
  refine ⟨?_, hne, hne v hvsize⟩
  rw [allAt_of_lt (by omega), hvsize]
  omega

/-- An eviction after the second read of `out_offs`, when the walk passes a slot: it adds up the
size of the newest command in the place of that of the oldest one. -/
theorem torn_before_walk (hcmd : arg.writeCmd.toNat < 10)
    (hcopied : min env.notCopied sizeofSeekto = 0) (hlock : env.lockOk ≠ false) (hk : 3 ≤ k)
    (hk' : k < 5) (hP : P k) (hpos : 0 < arg.writeCmd.toNat) : Torn env arg P := by
  have hoff := arg.writeCmdOffset.toNat_lt
  have hlimit : 2 ^ 32 < allocationLimit := by decide
  obtain ⟨m, hm⟩ : ∃ m, arg.writeCmdOffset.toNat - 1 = m := ⟨_, rfl⟩
  -- the new line has another length
  obtain ⟨z, hzm, hz⟩ : ∃ z, z ≠ m ∧ z ≤ 1 := by
    by_cases hzero : m = 0
    · exact ⟨1, by omega, le_rfl⟩
    · exact ⟨0, by omega, by omega⟩
  obtain ⟨n, hn⟩ : ∃ n, arg.writeCmd.toNat = n + 1 := ⟨_, (Nat.succ_pred_eq_of_pos hpos).symm⟩
  refine torn_of_outcome (m := m) (z := z) hcmd hcopied hk' hP 0 (by omega) (by omega) ?_
  intro w v hwout hwsize hvout hvsize
  have htarget : seekTarget arg w = n + 1 := by
    rw [seekTarget, hwout, hn]
    omega
  have hother : ∀ i, i % 10 ≠ 0 → v.slotSize i = m + 1 := fun i hi => by rw [hvsize, if_neg hi]
  -- the size that is checked is that of a slot that has not changed
  have hsize : (allAt k w v 4).slotSize (n + 1) = m + 1 := by
    rcases Nat.lt_or_ge k 4 with hlt | hge
    · rw [allAt_of_lt hlt, hother _ (by omega)]
    · rw [allAt_of_le hge, hwsize]
  have hsum : v.slotSum 0 (n + 1) = z + 1 + n * (m + 1) := by
    rw [slotSum_succ_left, hvsize, if_pos rfl, slotSum_of_forall fun j hj => hother _ (by omega)]
  have houtcome : momentsOutcome env arg (allAt k w v) =
      (0, some (uint32 ((z + 1 + n * (m + 1) : ℕ) + arg.writeCmdOffset.toNat))) := by
    rw [momentsOutcome, allAt_of_lt (by omega : k < 5), allAt_of_le hk,
      allAt_of_le (by omega : 1 ≤ k), walkOutcome, htarget, hsize, if_neg (by omega),
      if_neg hlock, hwout, show (n + 1 + 10 - 0) % 10 = n + 1 by omega, hsum]
  have hne : ∀ u : World, (∀ j < arg.writeCmd.toNat, u.slotSize (u.outOffs + j) = m + 1) →
      seekOutcome env arg u ≠ momentsOutcome env arg (allAt k w v) := by
    intro u hu heq
    rw [seekOutcome_of_forall hcmd hu, houtcome, hn] at heq
    split_ifs at heq
    · cases (Prod.mk.inj heq).1
    · have heq := uint32_add_inj.mp (Option.some.inj (Prod.mk.inj heq).2)
      rw [Nat.succ_mul] at heq
      omega
  refine ⟨?_, fun u hu => hne u fun j _ => hu _, hne v fun j hj => ?_⟩
  · rw [allAt_of_le hk, htarget, hsize]
    omega
  · rw [hvout, hother _ (by omega)]

/-- An eviction between the second read of `out_offs` and the check: an offset beyond every command
that the number ever names passes, since it is compared with the newest one. -/
theorem torn_before_check (hcmd : arg.writeCmd.toNat < 9)
    (hcopied : min env.notCopied sizeofSeekto = 0) (hP : P 3)
    (hoff : 1 < arg.writeCmdOffset.toNat) : Torn env arg P := by
  have hlt := arg.writeCmdOffset.toNat_lt
  have hlimit : 2 ^ 32 < allocationLimit := by decide
  refine torn_of_outcome (m := 0) (z := arg.writeCmdOffset.toNat - 1) (by omega) hcopied
    (by omega) hP arg.writeCmd.toNat (by omega) (by omega) ?_
  intro w v hwout _ hvout hvsize
  have htarget : seekTarget arg w = arg.writeCmd.toNat := by
    rw [seekTarget, hwout]
    omega
  have hsize : v.slotSize arg.writeCmd.toNat = arg.writeCmdOffset.toNat := by
    rw [hvsize, if_pos rfl]
    omega
  have houtcome : (momentsOutcome env arg (allAt 3 w v)).1 ≠ -einval := by
    rw [momentsOutcome, allAt_of_lt (by omega : 3 < 5), allAt_of_lt (by omega : 3 < 4),
      allAt_of_le le_rfl, htarget, hsize, walkOutcome, if_neg (lt_irrefl _)]
    split_ifs
    · decide
    · exact (by decide : (0 : ℤ) ≠ -einval)
  have hne : ∀ u : World, u.slotSize (seekTarget arg u) = 1 →
      seekOutcome env arg u ≠ momentsOutcome env arg (allAt 3 w v) := by
    intro u hu heq
    rw [seekOutcome, walkOutcome, hu, if_pos hoff] at heq
    exact houtcome (congrArg Prod.fst heq).symm
  refine ⟨?_, fun u hu => hne u (hu _), hne v ?_⟩
  · rw [allAt_of_lt (by omega : 3 < 4), allAt_of_le le_rfl, htarget, hsize]
  · rw [hvsize, if_neg]
    rw [seekTarget, hvout]
    omega

end Kinds

/-- **When a seek is atomic with respect to writers.** For every request with a command number below
ten: in every run from a state that calls lead to, with any number of writes between the steps of
the call, of which those that evict a command come only after numbers of steps that `P` names, there
is a moment within the call at which the whole of it would return the same value and lead to the
same position, if and only if `P` names only numbers of steps after which evictions do no harm. -/
theorem seek_atomic_iff {env : Env} {arg : AesdSeekto} (hcmd : arg.writeCmd.toNat < 10)
    {P : ℕ → Prop} :
    (∀ is rs w, invokeAll is aesdInitModule = .ok (rs, w) → ∀ filp ws a w',
      RunsBeside (kernelStep env) (fun hist => EvictsOnly P hist.length) (seekText filp arg) [] w ws
        a w' → AtomicAtSome env filp arg ws a w') ↔
      ∀ k, P k → MayEvict env arg k := by
  constructor
  · intro hall k hP
    by_contra hharm
    have htorn : ¬Torn env arg P := by
      rintro ⟨is, rs, w, ws, a, w', hinit, hrun, hnot⟩
      exact hnot (hall is rs w hinit 0 ws a w' hrun)
    apply htorn
    match k with
    | 0 | _ + 5 => exact absurd trivial hharm
    | 1 | 2 =>
        rw [MayEvict, not_or, not_not] at hharm
        exact torn_between_reads hcmd hharm.1 hharm.2 (by omega) (by omega) hP
    | 3 =>
        rw [MayEvict, not_or, not_or, not_not] at hharm
        obtain ⟨hcopied, hsmall, hnewest⟩ := hharm
        by_cases hzero : env.lockOk ≠ false ∧ 0 < arg.writeCmd.toNat
        · exact torn_before_walk hcmd hcopied hzero.1 le_rfl (by omega) hP hzero.2
        · rw [not_and_or, not_not, not_lt, Nat.le_zero] at hzero
          refine torn_before_check ?_ hcopied hP ?_
          · by_contra hnine
            exact hnewest ⟨by omega, hzero.resolve_right (by omega)⟩
          · by_contra hoff
            exact hsmall ⟨by omega, hzero⟩
    | 4 =>
        rw [MayEvict, not_or, not_or, not_not] at hharm
        exact torn_before_walk hcmd hharm.1 hharm.2.1 (by omega) (by omega) hP
          (Nat.pos_of_ne_zero hharm.2.2)
  · intro hP is rs w hinit filp ws a w' hrun
    obtain ⟨l, h⟩ := stands_init.reached.exists_of_invokeAll hinit
    exact h.seek_atomic hcmd hP hrun

section Runs

/-! ### Two runs -/

/-- Ten empty lines. -/
def tenLines : List Invocation := List.replicate 10 ⟨.write 0 [newline], .calm 0⟩

/-- **A seek that is not atomic.** Ten empty lines have been written. While a seek to the first byte
of the oldest command is between its two reads of `out_offs`, a command of three bytes is written.
The seek returns 0 and leaves the file at position 3, but at every moment within the call it would
have led to position 0. -/
theorem seek_not_atomic_under_eviction :
    ∃ rs w, invokeAll tenLines aesdInitModule = .ok (rs, w) ∧
      ∃ ws a w', RunsBeside (kernelStep (.calm 0)) (fun _ => WriteStep) (seekText 0 ⟨0, 0⟩) [] w ws
        a w' ∧ ¬AtomicAtSome (.calm 0) 0 ⟨0, 0⟩ ws a w' := by
  obtain ⟨rs, w, hinit, hw⟩ : ∃ rs w, invokeAll tenLines aesdInitModule = .ok (rs, w) ∧
    HasLines w (List.replicate 10 (lineOf 0)) :=
    exists_hasLines (m := 0) (by decide) 0 0 10
  obtain ⟨v, -, hstep, hv⟩ := hw.write (by decide : 2 < allocationLimit) 1 1
  have hsum : v.slotSum 0 1 = 3 := by
    rw [slotSum_of_forall (m := 3) fun j hj => ?_]
    rw [Nat.lt_one_iff.mp hj]
    exact hw.slotSize_concat hv 0
  have hchecked : ∀ n, ¬(0 : UInt32).toNat > n := Nat.not_lt_zero
  have hwout : w.outOffs = 0 := hw.outOffs
  have hvout : v.outOffs = 1 := hv.outOffs
  have houtcome : momentsOutcome (.calm 0) ⟨0, 0⟩ (allAt 1 w v) = (0, some 3) := by
    rw [momentsOutcome, allAt_of_lt (by omega : 1 < 5), allAt_of_lt (by omega : 1 < 3),
      allAt_of_le le_rfl, walkOutcome, if_neg (hchecked _), if_neg (by decide), hwout, seekTarget,
      hvout]
    exact congrArg (fun n : ℕ => ((0 : ℤ), some (uint32 (n + 0)))) hsum
  -- at every moment the walk of a seek done at once passes no slot
  have hzero : ∀ {u : World} {ls : List (List UInt8)}, HasLines u ls →
      Differs (.calm 0) ⟨0, 0⟩ (momentsOutcome (.calm 0) ⟨0, 0⟩ (allAt 1 w v)) u := by
    intro u ls hu
    have hnone : ∀ j < (0 : UInt32).toNat, u.slotSize (u.outOffs + j) = 0 :=
      fun j hj => absurd hj (Nat.not_lt_zero j)
    have hseek : seekOutcome (.calm 0) ⟨0, 0⟩ u = (0, some 0) := by
      rw [seekOutcome_of_forall (by decide) hnone, if_neg (hchecked _), if_neg (by decide)]
      rfl
    refine hu.differs ?_
    rw [hseek, houtcome]
    decide
  obtain ⟨ws, a, w', hrun⟩ : ∃ ws a w', RunsBeside (kernelStep (.calm 0)) (fun _ => WriteStep)
      (seekText 0 ⟨0, 0⟩) [] w ws a w' ∧ ¬AtomicAtSome (.calm 0) 0 ⟨0, 0⟩ ws a w' := by
    refine exists_not_atomic (Q := fun _ => WriteStep) (by decide) rfl 0 (by omega : 1 < 5)
      (.step hstep (.refl v)) (Nat.zero_le _) ?_
    simp only [List.mem_cons, List.not_mem_nil, or_false]
    rintro u (rfl | rfl)
    · exact hzero hw
    · exact hzero hv
  exact ⟨rs, w, hinit, ws, a, w', hrun⟩

/-- A seek to the last byte of the tenth command, which another task writes between the two reads of
`out_offs`. Before this write the seek would have been turned down. -/
theorem seek_atomic_iff_beside_write : ∃ rs w v,
    invokeAll (List.replicate 9 ⟨.write 0 [newline], .calm 0⟩) aesdInitModule = .ok (rs, w) ∧
    invoke ⟨.write 1 [97, 97, newline], .calm 1⟩ w = .ok (.ofRetval 3, v) ∧
    ∃ ws w', v ∈ ws ∧ RunsBeside (kernelStep (.calm 0))
      (fun hist => EvictsOnly (fun _ => False) hist.length) (seekText 0 ⟨9, 2⟩) [] w ws 0 w' ∧
      w'.fPos 0 = 11 ∧ AtomicAtSome (.calm 0) 0 ⟨9, 2⟩ ws 0 w' := by
  obtain ⟨rs, w, hinit, hw⟩ := exists_hasLines (m := 0) (by decide) 0 0 9
  obtain ⟨v, hi, hstep, hv⟩ := hw.write (by decide : 2 < allocationLimit) 1 1
  have hwout : w.outOffs = 0 := hw.outOffs
  have hvout : v.outOffs = 0 := hv.outOffs
  have hsize : v.slotSize 9 = 3 := hw.slotSize_concat hv 9
  have hsum : v.slotSum 0 9 = 9 := slotSum_of_forall (m := 1) fun j hj => by
    rw [hw.slotSize_concat hv, List.length_replicate, if_neg (by omega),
      hw.slotSize_replicate (by omega)]
  have hpass : Passes (EvictsOnly (fun _ => False) 1) w [w, v] v :=
    .step ⟨hstep, fun hev => hev (hvout.trans hwout.symm)⟩ (.refl v)
  have htarget : seekTarget ⟨9, 2⟩ v = 9 := by
    rw [seekTarget, hvout]
    rfl
  have hchecked : ¬(2 : UInt32).toNat > 3 := by decide
  have houtcome : momentsOutcome (.calm 0) ⟨9, 2⟩ (allAt 1 w v) = (0, some 11) := by
    rw [momentsOutcome, allAt_of_lt (by omega : 1 < 5), allAt_of_lt (by omega : 1 < 4),
      allAt_of_lt (by omega : 1 < 3), allAt_of_le le_rfl, htarget, hsize, walkOutcome,
      if_neg hchecked, if_neg (by decide), hwout]
    exact congrArg (fun n : ℕ => ((0 : ℤ), some (uint32 (n + 2)))) hsum
  have hpassed : (2 : UInt32).toNat ≤
      (allAt 1 w v 4).slotSize (seekTarget ⟨9, 2⟩ (allAt 1 w v 3)) := by
    rw [allAt_of_lt (by omega : 1 < 4), allAt_of_lt (by omega : 1 < 3), htarget, hsize]
    decide
  obtain ⟨l, hl, -⟩ := hv.shows
  obtain ⟨ws, w', hrun, hpos, -, hsub⟩ : ∃ ws w', RunsBeside (kernelStep (.calm 0))
      (fun hist => EvictsOnly (fun _ => False) hist.length) (seekText 0 ⟨9, 2⟩) [] (allAt 1 w v 0)
      ws (momentsOutcome (.calm 0) ⟨9, 2⟩ (allAt 1 w v)).1 w' ∧ _ ∧ _ ∧ _ :=
    exists_runsBeside (by decide) rfl 0 (fun j _ => allAt_passes hpass j) hl.unlocked hpassed
      (G := fun _ => True) (fun _ _ _ _ => trivial) (fun _ _ _ => trivial) fun _ => trivial
  rw [houtcome] at hrun hpos
  refine ⟨rs, w, v, hinit, hi, ws, w', hsub 1 (by omega) ?_, hrun, hpos, ?_⟩
  · simp
  · exact (seek_atomic_iff (by decide)).mpr (fun _ hno => hno.elim) _ _ _ hinit 0 ws 0 w' hrun

end Runs

end Aesd.CharDriver

import Aesd.CharDriver.Reachable
import Aesd.CharDriver.WriteLog

/-! # Where a seek request leads

`AESDCHAR_IOCSEEKTO` names a command by its age and an offset in it. `aesd_unlocked_ioctl` first
reduces the command number to a slot, in `int` arithmetic, and then compares the offset with the
size field of that slot. Two things follow. Requests for a byte that exists lead to the position at
which the lookup of `aesd_read` finds this byte, and to no other (`seek_lookup_inverse`). Requests
for a byte that does not exist are turned down only if the offset is beyond the size that stands in
the slot the number was reduced to (`aesdUnlockedIoctl_accepts_iff`). -/

namespace Aesd.CharDriver

open Memory Effects Streams

section Index

/-! ### The reduction of the command number -/

variable {writeCmd : UInt32} {outOffs : ℕ}

/-- The two conversions to `int` amount to one. -/
theorem seekIndex_eq (writeCmd : UInt32) (outOffs : ℕ) :
    seekIndex writeCmd outOffs = (int32 (writeCmd.toNat + outOffs)).tmod 10 := by
  unfold seekIndex int32
  rw [Int.bmod_add_bmod]
  rfl

theorem seekIndex_of_lt (h : writeCmd.toNat + outOffs < 2 ^ 31) :
    seekIndex writeCmd outOffs = ((writeCmd.toNat + outOffs) % 10 : ℕ) := by
  rw [seekIndex_eq, int32_eq (by omega) (by omega), Int.tmod_eq_emod_of_nonneg (by omega)]
  omega

/-- A sum beyond `INT_MAX` counts as negative, or starts again from zero. -/
theorem int32_wraps {x : ℤ} (h : 2 ^ 31 ≤ x) (h' : x < 2 ^ 32 + 2 ^ 31) : int32 x = x - 2 ^ 32 := by
  have hshift : int32 x = int32 (x - 2 ^ 32) := by
    unfold int32
    exact (Int.sub_bmod_right x (2 ^ 32)).symm
  rw [hshift, int32, Int.bmod_eq_of_le] <;> omega

theorem seekIndex_of_le (h : 2 ^ 32 ≤ writeCmd.toNat + outOffs) (hout : outOffs < 10) :
    seekIndex writeCmd outOffs = ((writeCmd.toNat + outOffs - 2 ^ 32) % 10 : ℕ) := by
  have hlt := writeCmd.toNat_lt
  rw [seekIndex_eq, int32_wraps (by omega) (by omega), Int.tmod_eq_emod_of_nonneg (by omega)]
  omega

theorem seekIndex_of_negative (h : 2 ^ 31 ≤ writeCmd.toNat + outOffs)
    (h' : writeCmd.toNat + outOffs < 2 ^ 32) :
    seekIndex writeCmd outOffs = -((2 ^ 32 - (writeCmd.toNat + outOffs)) % 10 : ℕ) := by
  have hneg : (writeCmd.toNat + outOffs : ℤ) - 2 ^ 32 =
      -((2 ^ 32 - (writeCmd.toNat + outOffs) : ℕ) : ℤ) := by omega
  rw [seekIndex_eq, int32_wraps (by omega) (by omega), hneg, Int.neg_tmod,
    Int.tmod_eq_emod_of_nonneg (by omega)]
  omega

/-- **When the index is a slot number**: unless the sum is negative as an `int` and not a multiple
of ten. -/
theorem seekIndex_nonneg_iff (hout : outOffs < 10) :
    0 ≤ seekIndex writeCmd outOffs ↔
      writeCmd.toNat + outOffs < 2 ^ 31 ∨ 2 ^ 32 ≤ writeCmd.toNat + outOffs ∨
        (2 ^ 32 - (writeCmd.toNat + outOffs)) % 10 = 0 := by
  by_cases hlt : writeCmd.toNat + outOffs < 2 ^ 31
  · rw [seekIndex_of_lt hlt]
    omega
  by_cases hle : 2 ^ 32 ≤ writeCmd.toNat + outOffs
  · rw [seekIndex_of_le hle hout]
    omega
  · rw [seekIndex_of_negative (by omega) (by omega)]
    omega

end Index

/-- The request names a byte of a retained command. -/
def ValidTarget (w : World) (arg : AesdSeekto) : Prop :=
  ∃ e, w.dev.circBuf.retained[arg.writeCmd.toNat]? = some e ∧ arg.writeCmdOffset.toNat < e.size

/-- The size field that the offset is compared with: that of the slot which lies the given number of
slots behind the oldest one, or, where this sum of two numbers is negative as an `int` and not a
multiple of ten, what lies before the array. -/
def comparedSize (env : Env) (w : World) (arg : AesdSeekto) : ℕ :=
  let sum := arg.writeCmd.toNat + w.dev.circBuf.outOffs
  if sum < 2 ^ 31 then (w.dev.circBuf.slot sum).size
  else if 2 ^ 32 ≤ sum then (w.dev.circBuf.slot (sum - 2 ^ 32)).size
  else if (2 ^ 32 - sum) % 10 = 0 then (w.dev.circBuf.slot 0).size
  else env.stray (-((2 ^ 32 - sum) % 10 : ℕ))

/-- The seek accepts the request if it names a byte of a retained command, and otherwise returns
`-EINVAL` and moves no file. -/
def AcceptsExactly (env : Env) (filp : File) (arg : AesdSeekto) (w : World) : Prop :=
  (ValidTarget w arg → ∃ w', invoke ⟨.ioctl filp aesdcharIocseekto arg, env⟩ w =
    .ok (.ofRetval 0, w')) ∧
  (¬ValidTarget w arg → ∃ w', invoke ⟨.ioctl filp aesdcharIocseekto arg, env⟩ w =
    .ok (.ofRetval (-einval), w') ∧ w'.fPos = w.fPos)

section Targets

variable {env : Env} {w : World} {l : Log} {arg : AesdSeekto} {filp : File}

theorem Shows.sizes (h : Shows w l) :
    w.dev.circBuf.retained.map AesdBufferEntry.size = l.commands.map List.length :=
  forall₂_holds_sizes h.commands

theorem Shows.contents (h : Shows w l) : w.contents = l.contents := by
  rw [World.contents, h.retained, List.map_map, Log.contents]
  simp [Function.comp_def]

/-- The place that a request names. -/
def place (arg : AesdSeekto) : ℕ × ℕ := (arg.writeCmd.toNat, arg.writeCmdOffset.toNat)

/-- A valid request names a place inside the commands. -/
theorem Shows.validTarget_iff (h : Shows w l) :
    ValidTarget w arg ↔ place arg ∈ places (l.commands.map List.length) := by
  have hplaces : ValidTarget w arg ↔
      place arg ∈ places (w.dev.circBuf.retained.map AesdBufferEntry.size) := by
    simp [ValidTarget, places, place]
  rw [hplaces, h.sizes]

/-- A command number that names a command is below ten. -/
theorem Shows.writeCmd_lt (h : Shows w l) (hvalid : ValidTarget w arg) :
    arg.writeCmd.toNat < l.commands.length ∧ arg.writeCmd.toNat < 10 := by
  obtain ⟨n, hn, -⟩ := h.validTarget_iff.mp hvalid
  obtain ⟨hlt, -⟩ := List.getElem?_eq_some_iff.mp hn
  rw [List.length_map] at hlt
  have hlen := l.length_commands
  exact ⟨hlt, by simp only [place] at hlt; omega⟩

theorem Log.outOffs_lt (l : Log) : l.outOffs < 10 := Nat.mod_lt _ (by omega)

/-- For a valid request the number is reduced to the slot of the command it names. -/
theorem Shows.seekIndex_of_validTarget (h : Shows w l) (hvalid : ValidTarget w arg) :
    seekIndex arg.writeCmd l.outOffs = ((arg.writeCmd.toNat + l.outOffs) % 10 : ℕ) ∧
      l.age ((arg.writeCmd.toNat + l.outOffs) % 10) = arg.writeCmd.toNat := by
  obtain ⟨-, hlt⟩ := h.writeCmd_lt hvalid
  have hout := l.outOffs_lt
  refine ⟨seekIndex_of_lt (by omega), ?_⟩
  rw [Log.age]
  omega

/-- A valid request passes the check. -/
theorem Shows.checkedSize_of_validTarget (h : Shows w l) (env : Env) (hvalid : ValidTarget w arg) :
    arg.writeCmdOffset.toNat < l.checkedSize env arg := by
  obtain ⟨hindex, hage⟩ := h.seekIndex_of_validTarget hvalid
  obtain ⟨n, hn, hlt⟩ := h.validTarget_iff.mp hvalid
  rw [List.getElem?_map, Option.map_eq_some_iff] at hn
  obtain ⟨c, hc, rfl⟩ := hn
  rw [Log.checkedSize, if_pos (by rw [hindex]; omega), hindex, Int.toNat_natCast, Log.slotSize,
    hage, show l.commands[arg.writeCmd.toNat]? = some c from hc]
  exact hlt

/-- A valid request leads to the position of the place it names. -/
theorem Shows.seekPos_of_validTarget (h : Shows w l) (hvalid : ValidTarget w arg)
    (hlt : l.contents.length < 2 ^ 32) :
    l.seekPos arg = position (l.commands.map List.length) (place arg) := by
  obtain ⟨hindex, hage⟩ := h.seekIndex_of_validTarget hvalid
  have hpos := position_lt_sum (h.validTarget_iff.mp hvalid)
  rw [← List.length_flatten, ← Log.contents] at hpos
  have hsum : ((l.commands.take arg.writeCmd.toNat).map List.length).sum +
      arg.writeCmdOffset.toNat = position (l.commands.map List.length) (place arg) := by
    rw [position, List.map_take]
    rfl
  rw [Log.seekPos, hindex, Int.toNat_natCast, hage, uint32, ← Int.natCast_add, hsum]
  omega

/-- The size that is compared, seen in the log. -/
theorem Shows.comparedSize_eq (h : Shows w l) (env : Env) (arg : AesdSeekto) :
    comparedSize env w arg = l.checkedSize env arg := by
  have hout := l.outOffs_lt
  have hslot : ∀ i, (w.dev.circBuf.slot i).size = l.slotSize (i % 10) := fun i => by
    rw [← AesdCircularBuffer.slot_mod, h.size_slot (Nat.mod_lt _ (by omega))]
  simp only [comparedSize, h.outOffs, hslot, Log.checkedSize]
  by_cases hlt : arg.writeCmd.toNat + l.outOffs < 2 ^ 31
  · rw [if_pos hlt, seekIndex_of_lt hlt, if_pos (by omega), Int.toNat_natCast]
  rw [if_neg hlt]
  by_cases hle : 2 ^ 32 ≤ arg.writeCmd.toNat + l.outOffs
  · rw [if_pos hle, seekIndex_of_le hle hout, if_pos (by omega), Int.toNat_natCast]
  rw [if_neg hle, seekIndex_of_negative (not_lt.mp hlt) (not_le.mp hle)]
  by_cases hten : (2 ^ 32 - (arg.writeCmd.toNat + l.outOffs)) % 10 = 0
  · rw [if_pos hten, hten]
    rfl
  · rw [if_neg hten, if_neg (by omega)]

end Targets

section Accepts

variable {env : Env} {w : World} {l : Log} {arg : AesdSeekto} {filp : File}

/-- What the seek returns when the user copy and the lock succeed. -/
theorem Shows.invoke_seek (h : Shows w l) (hcopied : env.notCopied = 0) (hlock : env.lockOk = true)
    (filp : File) (arg : AesdSeekto) :
    invoke ⟨.ioctl filp aesdcharIocseekto arg, env⟩ w =
      if arg.writeCmdOffset.toNat > comparedSize env w arg then .ok (.ofRetval (-einval), w)
      else if seekIndex arg.writeCmd l.outOffs < 0 then .error .hang
      else .ok (.ofRetval 0, { w with fPos := Function.update w.fPos filp (l.seekPos arg) }) := by
  have hmin : min env.notCopied sizeofSeekto = 0 := by
    rw [hcopied]
    rfl
  have hexec := h.execute_ioctl filp arg hmin
  rw [if_neg (show ¬env.lockOk = false by simp [hlock]), ← h.comparedSize_eq] at hexec
  unfold invoke
  by_cases hoff : arg.writeCmdOffset.toNat > comparedSize env w arg
  · rw [if_pos hoff] at hexec ⊢
    exact execute_bind _ hexec
  rw [if_neg hoff] at hexec ⊢
  by_cases hneg : seekIndex arg.writeCmd l.outOffs < 0
  · rw [if_pos hneg] at hexec ⊢
    exact execute_bind_error _ hexec
  · rw [if_neg hneg] at hexec ⊢
    exact execute_bind _ hexec

/-- A valid request is accepted, whatever lies before the array. -/
theorem Shows.invoke_seek_of_validTarget (h : Shows w l) (hcopied : env.notCopied = 0)
    (hlock : env.lockOk = true) (hvalid : ValidTarget w arg) (filp : File) :
    invoke ⟨.ioctl filp aesdcharIocseekto arg, env⟩ w =
      .ok (.ofRetval 0, { w with fPos := Function.update w.fPos filp (l.seekPos arg) }) := by
  have hlt := h.checkedSize_of_validTarget env hvalid
  rw [h.invoke_seek hcopied hlock, h.comparedSize_eq, if_neg (by omega), if_neg]
  rw [(h.seekIndex_of_validTarget hvalid).1]
  omega

theorem Shows.acceptsExactly_iff (h : Shows w l) (hcopied : env.notCopied = 0)
    (hlock : env.lockOk = true) :
    AcceptsExactly env filp arg w ↔
      ValidTarget w arg ∨ comparedSize env w arg < arg.writeCmdOffset.toNat := by
  constructor
  · rintro ⟨-, hinvalid⟩
    by_contra hnone
    rw [not_or] at hnone
    obtain ⟨w', hi, -⟩ := hinvalid hnone.1
    rw [h.invoke_seek hcopied hlock, if_neg hnone.2] at hi
    by_cases hneg : seekIndex arg.writeCmd l.outOffs < 0
    · rw [if_pos hneg] at hi
      cases hi
    · rw [if_neg hneg, Except.ok.injEq, Prod.mk.injEq] at hi
      exact absurd (congrArg Reply.retval hi.1) (by decide)
  · intro hcond
    refine ⟨fun hvalid => ⟨_, h.invoke_seek_of_validTarget hcopied hlock hvalid filp⟩,
      fun hvalid => ?_⟩
    have hbeyond := hcond.resolve_left hvalid
    exact ⟨w, by rw [h.invoke_seek hcopied hlock, if_pos hbeyond], rfl⟩

end Accepts

section Runs

variable {is : List Invocation} {rs : List Reply} {w : World}

/-- **Which requests the seek treats as it should.** In every state that calls lead to, with the
user copy and the lock succeeding: the valid ones, and of the others those whose offset is beyond
the size field that it is compared with. -/
theorem aesdUnlockedIoctl_accepts_iff (hrun : invokeAll is aesdInitModule = .ok (rs, w)) (env : Env)
    (hcopied : env.notCopied = 0) (hlock : env.lockOk = true) (filp : File) (arg : AesdSeekto) :
    AcceptsExactly env filp arg w ↔
      ValidTarget w arg ∨ comparedSize env w arg < arg.writeCmdOffset.toNat := by
  obtain ⟨l, h⟩ := exists_shows_of_invokeAll hrun
  exact h.acceptsExactly_iff hcopied hlock

/-- A single command of two bytes: its second byte is a valid target. -/
theorem aesdUnlockedIoctl_accepts_second_byte :
    ∃ w, invokeAll [⟨.write 0 [97, newline], .calm 0⟩] aesdInitModule = .ok ([⟨2, []⟩], w) ∧
      AcceptsExactly (.calm 0) 0 ⟨0, 1⟩ w := by
  have hrun : invokeAll [⟨.write 0 [97, newline], .calm 0⟩] aesdInitModule =
      .ok ([⟨2, []⟩], _) := rfl
  refine ⟨_, hrun, ?_⟩
  refine (aesdUnlockedIoctl_accepts_iff hrun _ rfl rfl _ _).mpr (.inl ⟨_, rfl, ?_⟩)
  decide

/-- With a single command of two bytes the seek also accepts the offset behind its last byte, a slot
that holds nothing, and a command number of ten. -/
theorem not_acceptsExactly_single_command :
    ∃ w, invokeAll [⟨.write 0 [97, newline], .calm 0⟩] aesdInitModule = .ok ([⟨2, []⟩], w) ∧
      ¬AcceptsExactly (.calm 0) 0 ⟨0, 2⟩ w ∧ ¬AcceptsExactly (.calm 0) 0 ⟨5, 0⟩ w ∧
      ¬AcceptsExactly (.calm 0) 0 ⟨10, 0⟩ w := by
  have hrun : invokeAll [⟨.write 0 [97, newline], .calm 0⟩] aesdInitModule =
      .ok ([⟨2, []⟩], _) := rfl
  obtain ⟨l, h⟩ := exists_shows_of_invokeAll hrun
  refine ⟨_, hrun, ?_, ?_, ?_⟩
  · rw [h.acceptsExactly_iff rfl rfl]
    rintro (⟨e, he, hlt⟩ | hlt)
    · cases he
      exact absurd hlt (by decide)
    · exact absurd hlt (by decide)
  · rw [h.acceptsExactly_iff rfl rfl]
    rintro (⟨e, he, -⟩ | hlt)
    · cases he
    · exact absurd hlt (by decide)
  · rw [h.acceptsExactly_iff rfl rfl]
    rintro (⟨e, he, -⟩ | hlt)
    · cases he
    · exact absurd hlt (by decide)

/-- **Seek and lookup are inverse to each other.** The valid requests and the positions before the
end correspond to each other: the seek stores for each request the position at which the lookup
finds the slot of the command and the offset in it. Later requests have later positions. -/
theorem seek_lookup_inverse (hrun : invokeAll is aesdInitModule = .ok (rs, w))
    (hlt : w.contents.length < 2 ^ 31) (filp : File) :
    ∃ pos : AesdSeekto → ℕ,
      (∀ env : Env, env.notCopied = 0 → env.lockOk = true → ∀ arg, ValidTarget w arg →
        invoke ⟨.ioctl filp aesdcharIocseekto arg, env⟩ w =
          .ok (.ofRetval 0, { w with fPos := Function.update w.fPos filp (pos arg) })) ∧
      Set.BijOn pos {arg | ValidTarget w arg} (Set.Iio w.contents.length) ∧
      (∀ arg arg', ValidTarget w arg → ValidTarget w arg' →
        arg.writeCmd < arg'.writeCmd ∨
          arg.writeCmd = arg'.writeCmd ∧ arg.writeCmdOffset < arg'.writeCmdOffset →
        pos arg < pos arg') ∧
      ∀ arg, ValidTarget w arg →
        aesdCircularBufferFindEntryOffsetForFpos w.dev.circBuf (pos arg) =
          some ((w.dev.circBuf.outOffs + arg.writeCmd.toNat) % 10, arg.writeCmdOffset.toNat) := by
  obtain ⟨l, h⟩ := exists_shows_of_invokeAll hrun
  rw [h.contents] at hlt ⊢
  have hsum : (l.commands.map List.length).sum = l.contents.length := by
    rw [Log.contents, List.length_flatten]
  refine ⟨fun arg => position (l.commands.map List.length) (place arg), ?_, ?_, ?_, ?_⟩
  · intro env hcopied hlock arg hvalid
    rw [h.invoke_seek_of_validTarget hcopied hlock hvalid,
      h.seekPos_of_validTarget hvalid (by omega)]
  · -- requests are places, and places are positions
    have hplace : Set.BijOn place {arg | ValidTarget w arg} (places (l.commands.map List.length)) := by
      refine ⟨fun arg hvalid => h.validTarget_iff.mp hvalid, fun arg _ arg' _ heq => ?_,
        fun q hq => ?_⟩
      · obtain ⟨c, o⟩ := arg
        obtain ⟨c', o'⟩ := arg'
        rw [place, place, Prod.mk.injEq, UInt32.toNat_inj, UInt32.toNat_inj] at heq
        obtain ⟨rfl, rfl⟩ : c = c' ∧ o = o' := heq
        rfl
      · have hpos := position_lt_sum hq
        obtain ⟨n, hn, ho⟩ := hq
        obtain ⟨hlen, -⟩ := List.getElem?_eq_some_iff.mp hn
        rw [List.length_map, l.length_commands] at hlen
        rw [hsum, position] at hpos
        refine ⟨⟨.ofNat q.1, .ofNat q.2⟩, ?_, ?_⟩
        · refine h.validTarget_iff.mpr ⟨n, ?_, ?_⟩
          · rw [place, UInt32.toNat_ofNat_of_lt' (by omega : q.1 < 2 ^ 32)]
            exact hn
          · rw [place, UInt32.toNat_ofNat_of_lt' (by omega : q.2 < 2 ^ 32)]
            exact ho
        · rw [place, UInt32.toNat_ofNat_of_lt' (by omega : q.1 < 2 ^ 32),
            UInt32.toNat_ofNat_of_lt' (by omega : q.2 < 2 ^ 32)]
    exact hsum ▸ (bijOn_position _).comp hplace
  · intro arg arg' hvalid _ hlex
    refine position_lt_position (h.validTarget_iff.mp hvalid) ?_
    rcases hlex with hlt | ⟨heq, hlt⟩
    · exact .inl hlt
    · exact .inr ⟨congrArg UInt32.toNat heq, hlt⟩
  · intro arg hvalid
    rw [h.find, locate_position (h.validTarget_iff.mp hvalid)]
    rfl

/-- Two commands of two bytes each have four positions. -/
theorem seek_lookup_inverse_two_commands :
    ∃ rs w, invokeAll [⟨.write 0 [97, newline], .calm 0⟩, ⟨.write 0 [98, newline], .calm 0⟩]
        aesdInitModule = .ok (rs, w) ∧
      ∃ pos : AesdSeekto → ℕ, Set.BijOn pos {arg | ValidTarget w arg} (Set.Iio 4) := by
  have hserved : Throughout WriteServed [⟨.write 0 [97, newline], .calm 0⟩,
      ⟨.write 0 [98, newline], .calm 0⟩] aesdInitModule := by
    decide
  obtain ⟨rs, w, l, hrun, hret, h, hstream⟩ := stands_init.allServed hserved
  have hlen : w.contents.length = 4 := by
    rw [h.contents, Log.contents, Log.commands, hstream, consumed_eq hret]
    rfl
  obtain ⟨pos, -, hbij, -⟩ := seek_lookup_inverse hrun (by rw [hlen]; decide) 0
  rw [hlen] at hbij
  exact ⟨rs, w, hrun, pos, hbij⟩

end Runs

end Aesd.CharDriver

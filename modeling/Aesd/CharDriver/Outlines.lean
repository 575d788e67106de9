import Aesd.CharDriver.Sharing

/-! # Outlines of the sections that do not write

`aesd_read` and `aesd_llseek` look at the device and move one position, all with the mutex held, and
happen when they give it back, unless a service has failed before. So does the last section of
`aesd_unlocked_ioctl`. The sections before it are one service each. -/

namespace Aesd.CharDriver

open Memory Effects Streams

section Observers

variable {t : ℕ} {c : sections.Op} {filp : File} {w : World} {g : Ghost} {l : Log} {d : AesdDev}
  {kern : Ptr} {data : List UInt8} {ρ : Type} {a : Option ρ}

/-- A call that fails for want of a service before it has delivered anything. -/
theorem Log.answers_refused {call : {call : Call // call.locksFirst = true}} {n : ℤ}
    (hn : (Reply.ofRetval n).Refused) (l : Log) :
    Log.Answers (.call call) l (.ofRetval n) l := .inr ⟨.inl ⟨hn, .inl rfl⟩, rfl⟩

/-- Then its reply is an error number. -/
theorem sectionError_of_refused {call : {call : Call // call.locksFirst = true}} {r : Reply}
    (hr : r.Refused) : sectionError ⟨.call call, r⟩ = some r.retval := if_pos hr

/-- The reply of a call that is served is none. -/
theorem sectionError_of_nonneg {call : {call : Call // call.locksFirst = true}} {r : Reply}
    (hr : 0 ≤ r.retval) : sectionError ⟨.call call, r⟩ = none := by
  refine if_neg ?_
  rintro (h | h | h) <;> rw [h] at hr <;> exact absurd hr (by decide)

/-- With the mutex just taken the device shows the log. -/
theorem Grasp.shows (h : Grasp t (.start l d kern data) a w g a) :
    Shows { w with dev := { d with lock := none } } l where
  ring := h.carries.ring
  commands := h.carries.commands
  nonempty := h.carries.nonempty
  unlocked := rfl
  fPos := h.fPos

/-- Behind the data a read delivers nothing. -/
theorem Log.read_none {env : Env} {count : ℕ} (hlock : env.lockOk = true)
    (hloc : locate (l.commands.map List.length) (toSizeT (l.fPos filp)) = none) :
    l.read env filp count = some (⟨0, []⟩, l) := by
  rw [Log.read, if_neg (by simp [hlock]), hloc]

/-- Inside a command it delivers a part of it, unless a part of that could not be copied. -/
theorem Log.read_some {env : Env} {count i o : ℕ} {line bytes : List UInt8}
    (hlock : env.lockOk = true)
    (hloc : locate (l.commands.map List.length) (toSizeT (l.fPos filp)) = some (i, o))
    (hline : l.commands[i]? = some line) (hbytes : bytes = (line.drop o).take count) :
    l.read env filp count = if min env.notCopied bytes.length ≠ 0 then none
      else some (⟨bytes.length, bytes⟩, l.seekTo filp (int64 (l.fPos filp + bytes.length))) := by
  rw [Log.read, if_neg (by simp [hlock]), hloc]
  simp only [List.getD_eq_getElem?_getD, hline, Option.getD_some, ← hbytes]

/-- The device with the mutex held. -/
theorem Grasp.held (h : Grasp t (.start l d kern data) a w g a) :
    { w with dev := { d with lock := some t } } = w := by
  have hlock : d.lock = some t := h.lock
  have hdev : w.dev = d := h.dev
  rw [← hlock, ← hdev]

/-- What a read copies. -/
theorem Grasp.copy {env : Env} (h : Grasp t (.start l d kern data) a w g a)
    (henv : env.task = t) {count i o : ℕ} (hi : i < l.commands.length)
    (ho : o < l.commands[i].length) {bytes : List UInt8}
    (hbytes : bytes = (l.commands[i].drop o).take count) :
    kernelStep env (.copyToUser (d.circBuf.slot ((d.circBuf.outOffs + i) % 10)).buffptr o
      bytes.length) w = .ok ((min env.notCopied bytes.length,
        bytes.take (bytes.length - min env.notCopied bytes.length)), w) := by
  obtain ⟨-, hlen, hcopy⟩ := h.shows.copy_slot env hi ho hbytes
  rw [hlen, henv] at hcopy
  rwa [← h.held]

theorem outline_aesdRead {count : ℕ} : sharing.Outline t (.call ⟨.read filp count, rfl⟩)
    (aesdRead filp count) (Waits t .null [] none) fun q => Committed t (⟨q.1, q.2⟩ : Reply) := by
  simp only [aesdRead, mutexLockInterruptible, loadDev, loadFPos, storeFPos, copyToUser, mutexUnlock,
    aesdRead.mutexUnlockAndReturn, Prog.bind_eq, Prog.call_bind, Prog.pure_bind, Prog.pure_eq]
  refine outline_lock (.ofRetval (-erestartsys)) (Log.answers_refused (by decide)) rfl
    (fun l d hd => ?_) fun err herr => ?_
  · rw [if_neg (not_not.mpr rfl)]
    refine outline_loadDev (d := d) rfl (outline_loadFPos (show _ = l.fPos filp from rfl) ?_)
    -- the lookup in the ring is the lookup in the lengths of the commands
    refine Protocol.Outline.knowing (φ := ∃ v : World, Shows v l ∧ v.dev.circBuf = d.circBuf)
      (fun w g a _ h => ⟨_, Grasp.shows (h.answer ▸ h), rfl⟩) ?_
    rintro ⟨v, hv, hring⟩
    have hfind := hv.find (toSizeT (l.fPos filp))
    rw [hring] at hfind
    cases hloc : locate (l.commands.map List.length) (toSizeT (l.fPos filp)) with
    | none =>
        rw [hloc, Option.map_none] at hfind
        simp only [hfind]
        exact outline_unlock _ rfl rfl rfl rfl rfl
          (.inl (congrArg Except.ok (Log.read_none rfl hloc))) (sectionError_of_nonneg le_rfl)
          fun _ _ _ _ h => h
    | some q =>
        obtain ⟨i, o⟩ := q
        rw [hloc, Option.map_some] at hfind
        obtain ⟨b, hb, ho, -⟩ := drop_flatten_of_locate hloc
        obtain ⟨hi, rfl⟩ := List.getElem?_eq_some_iff.mp hb
        set bytes := (l.commands[i].drop o).take count with hbytes
        obtain ⟨hnull, hlen, -⟩ := hv.copy_slot (.calm t) hi ho hbytes
        rw [hring] at hnull hlen
        have hserve : l.apply ⟨.read filp count, .calm 0⟩ = .ok (some (⟨bytes.length, bytes⟩,
            l.seekTo filp (int64 (l.fPos filp + bytes.length)))) := by
          have hread := Log.read_some (show (Env.calm 0).lockOk = true from rfl) hloc hb hbytes
          rw [if_neg (by simp [Env.calm])] at hread
          exact congrArg Except.ok hread
        have hrefused : ∀ copied, Reply.Refused ⟨-efault, copied⟩ := fun _ => Or.inr (Or.inl rfl)
        simp only [hfind]
        refine Protocol.Outline.ite (fun h => absurd h hnull) fun _ => ?_
        refine outline_hold (fun res st' a' => st' = Stage.start l d .null [] ∧
          (res.1 = 0 ∧ res.2 = bytes ∧ a' = none ∨
            res.1 ≠ 0 ∧ res.2 <+: bytes ∧ a' = some ⟨-efault, res.2⟩)) ?_ ?_ ?_
        · intro w g env s henv _ h hbad
          rw [hlen, h.copy henv hi ho hbytes] at hbad
          cases hbad
        · rintro w g env r w' henv - h hok -
          rw [hlen, h.copy henv hi ho hbytes] at hok
          cases hok
          refine ⟨fun _ _ => rfl, rfl, .start l d .null [], ?_⟩
          by_cases hleft : min env.notCopied bytes.length = 0
          · refine ⟨none, ⟨rfl, .inl ⟨hleft, ?_, rfl⟩⟩, .inl ⟨rfl, if_pos hleft⟩, h⟩
            rw [hleft, Nat.sub_zero, List.take_length]
          -- a part has not been copied
          · refine ⟨some ⟨-efault, _⟩, ⟨rfl, .inr ⟨hleft, List.take_prefix _ _, rfl⟩⟩,
              .inr ⟨_, rfl, rfl, .inr ⟨.inl ⟨hrefused _, .inr ⟨_, _, hserve,
                List.take_prefix _ _⟩⟩, rfl⟩, ?_⟩, rfl, h.lock, h.dev, h.log, h.fPos, h.carries,
              h.spares, h.bounce⟩
            exact (if_neg hleft).trans (sectionError_of_refused (hrefused _)).symm
        · rintro ⟨left, copied⟩ st' a' ⟨rfl, ⟨hleft, rfl, rfl⟩ | ⟨hleft, -, rfl⟩⟩
          · dsimp only at hleft ⊢
            rw [if_neg (not_not.mpr hleft)]
            refine outline_loadFPos (show _ = l.fPos filp from rfl) (outline_storeFPos (outline_unlock
              (l.seekTo filp (int64 (l.fPos filp + bytes.length))) rfl rfl rfl rfl ?_ (.inl hserve)
              (sectionError_of_nonneg (Int.natCast_nonneg _)) fun _ _ _ _ h => ?_))
            · rw [hlen]
              rfl
            · rw [hlen]
              exact h
          · dsimp only at hleft ⊢
            rw [if_pos hleft]
            exact outline_release rfl rfl rfl rfl rfl fun _ _ _ _ h => h
  · rw [if_pos herr]
    exact fun _ _ _ _ h => h.committed

/-- With the mutex granted `llseek` depends on its target only. -/
theorem Log.llseek_granted {env : Env} {offset whence : ℤ} (hlock : env.lockOk = true) :
    l.llseek env filp offset whence = (l.llseekTarget filp offset whence).bind fun newpos =>
      if newpos < 0 then none else some (.ofRetval newpos, l.seekTo filp newpos) :=
  if_neg (by simp [hlock])

/-- What follows the `switch` of `aesd_llseek`. -/
theorem outline_finish {offset whence newpos : ℤ}
    (htarget : l.llseekTarget filp offset whence = some newpos) :
    sharing.Outline t (.call ⟨.llseek filp offset whence, rfl⟩) (aesdLlseek.finish filp newpos)
      (Grasp t (.start l d .null []) none) fun r => Committed t (Reply.ofRetval r) := by
  have hllseek : l.llseek (.calm 0) filp offset whence = _ := l.llseek_granted rfl
  rw [htarget, Option.bind_some] at hllseek
  simp only [aesdLlseek.finish, storeFPos, mutexUnlock, Prog.bind_eq, Prog.call_bind, Prog.pure_bind,
    Prog.pure_eq]
  refine Protocol.Outline.ite (fun hneg => ?_) fun hneg => ?_
  · refine outline_unlock _ rfl rfl rfl rfl rfl (.inr ⟨.inr ⟨fun pos hpos => ?_, rfl⟩, rfl⟩) rfl
      fun _ _ _ _ h => h
    have hsome : some newpos = some pos := htarget.symm.trans hpos
    exact Option.some.inj hsome ▸ hneg
  · refine outline_storeFPos (outline_unlock (l.seekTo filp newpos) rfl rfl rfl rfl rfl (.inl ?_)
      (sectionError_of_nonneg (not_lt.mp hneg)) fun _ _ _ _ h => h)
    exact congrArg Except.ok (hllseek.trans (if_neg hneg))

theorem outline_aesdLlseek {offset whence : ℤ} :
    sharing.Outline t (.call ⟨.llseek filp offset whence, rfl⟩) (aesdLlseek filp offset whence)
      (Waits t .null [] none) fun r => Committed t (Reply.ofRetval r) := by
  simp only [aesdLlseek, mutexLockInterruptible, loadDev, loadFPos, mutexUnlock, Prog.bind_eq,
    Prog.call_bind, Prog.pure_bind, Prog.pure_eq]
  refine outline_lock (.ofRetval (-erestartsys)) (Log.answers_refused (by decide)) rfl
    (fun l d hd => ?_) fun err herr => ?_
  · rw [if_neg (not_not.mpr rfl)]
    refine outline_loadDev (d := d) rfl ?_
    refine Protocol.Outline.knowing (φ := totalSize d.circBuf = l.contents.length)
      (fun w g a _ h => (Grasp.shows (h.answer ▸ h)).totalSize) fun htotal => ?_
    -- the three cases of the `switch`, and its default
    refine Protocol.Outline.ite (fun hset => outline_finish ?_) fun hset =>
      Protocol.Outline.ite (fun hcur => outline_loadFPos rfl (outline_finish ?_)) fun hcur =>
        Protocol.Outline.ite (fun hend => outline_finish ?_) fun hend => ?_
    · rw [Log.llseekTarget, if_pos hset]
    · rw [Log.llseekTarget, if_neg hset, if_pos hcur]
      rfl
    · rw [Log.llseekTarget, if_neg hset, if_neg hcur, if_pos hend, htotal]
    · refine outline_unlock _ rfl rfl rfl rfl rfl (.inr ⟨.inr ⟨fun pos hpos => ?_, rfl⟩, rfl⟩) rfl
        fun _ _ _ _ h => h
      rw [Stage.start, Log.llseekTarget, if_neg hset, if_neg hcur, if_neg hend] at hpos
      cases hpos
  · rw [if_pos herr]
    exact fun _ _ _ _ h => h.committed

/-! ### The seek request -/

theorem Log.span_succ (first k : ℕ) :
    l.span first (k + 1) = l.span first k + l.slotSize ((first + k) % 10) := by
  rw [Log.span, Log.span, List.range_succ, List.map_append, List.sum_append, List.map_singleton,
    List.sum_singleton]

/-- The walk has gone on for `k` rounds and has not met its end before. -/
structure Walking (l : Log) (first k : ℕ) (target : ℤ) (s : ℤ × ℤ) : Prop where
  /-- Where it is. -/
  trav : s.1 = ((first + k) % 10 : ℕ)
  /-- What it has added up. -/
  byteCount : s.2 % 2 ^ 32 = (l.span first k : ℤ) % 2 ^ 32
  /-- It has not met its end. -/
  before : ∀ j < k, (((first + j) % 10 : ℕ) : ℤ) ≠ target

/-- **The walk with the mutex held.** When it ends it is at its target, and has added up the sizes
on its way there. -/
theorem outline_walk {a : Option (sections.Res c)} {first : ℕ} (hfirst : first < 10) {target : ℤ}
    {α : Type} {k : ℤ → Driver α} {Q : α → sharing.Assertion c}
    (hk : ∀ (n : ℕ) (byteCount : ℤ), n < 10 → (((first + n) % 10 : ℕ) : ℤ) = target →
      byteCount % 2 ^ 32 = (l.span first n : ℤ) % 2 ^ 32 →
      sharing.Outline t c (k byteCount) (Grasp t (.start l d .null []) a) Q) :
    sharing.Outline t c (Prog.loop (E := kernel) (aesdUnlockedIoctl.walk target) (first, 0) k)
      (Grasp t (.start l d .null []) a) Q := by
  refine ⟨fun s w g c => (∃ n, Walking l first n target s) ∧ Grasp t (.start l d .null []) a w g c,
    fun byteCount w g c => (∃ n < 10, (((first + n) % 10 : ℕ) : ℤ) = target ∧
      byteCount % 2 ^ 32 = (l.span first n : ℤ) % 2 ^ 32) ∧ Grasp t (.start l d .null []) a w g c,
    fun w g c _ h => ⟨⟨0, ?_, rfl, by simp⟩, h⟩, fun s => ⟨stable_grasp.and _, ?_⟩,
    fun byteCount => ⟨stable_grasp.and _, ?_⟩⟩
  · rw [Nat.add_zero, Nat.mod_eq_of_lt hfirst]
  · refine Protocol.Outline.assuming ?_
    rintro ⟨n, hn⟩
    obtain ⟨trav, byteCount⟩ := s
    obtain rfl : trav = ((first + n) % 10 : ℕ) := hn.trav
    by_cases hend : (((first + n) % 10 : ℕ) : ℤ) = target
    -- the target is met before the walk has come round
    · rw [aesdUnlockedIoctl.walk, if_pos hend]
      refine fun w g c _ h => ⟨⟨n, ?_, hend, hn.byteCount⟩, h⟩
      by_contra hlt
      exact hn.before (n - 10) (by omega) (hend ▸ by omega)
    · have hlt : (first + n) % 10 < 10 := Nat.mod_lt _ (by omega)
      rw [walk_eq hlt hend]
      refine outline_loadDev (d := d) rfl ?_
      refine fun w g c _ h => ⟨⟨n + 1, ?_, ?_, fun j hj => ?_⟩, h⟩
      · simp only
        omega
      · have hsize : (d.circBuf.slot ((first + n) % 10)).size = l.slotSize ((first + n) % 10) :=
          (Grasp.shows (h.answer ▸ h)).size_slot hlt
        have hcount : byteCount % 2 ^ 32 = (l.span first n : ℤ) % 2 ^ 32 := hn.byteCount
        simp only [hsize, int32_emod, l.span_succ, Int.natCast_add]
        rw [Int.add_emod, hcount, ← Int.add_emod]
      · rcases Nat.lt_succ_iff_lt_or_eq.mp hj with hj | rfl
        · exact hn.before j hj
        · exact hend
  · refine Protocol.Outline.assuming ?_
    rintro ⟨n, hn, htarget, hcount⟩
    exact hk n byteCount hn htarget hcount

/-- What a seek request does with the mutex held. -/
theorem outline_seek {trav : Fin 10} {index : ℤ} {offset : UInt32} :
    sharing.Outline t (.seek filp trav index offset)
      (aesdUnlockedIoctl.seek filp (trav : ℕ) index offset) (Waits t .null [] none)
      (Committed t) := by
  simp only [aesdUnlockedIoctl.seek, mutexLockInterruptible, storeFPos, mutexUnlock, Prog.bind_eq,
    Prog.call_bind, Prog.pure_bind, Prog.iterate, Prog.loop_bind, Prog.pure_eq]
  refine outline_lock (-erestartsys) (fun l => .inr ⟨rfl, rfl⟩) rfl (fun l d hd => ?_)
    fun err herr => ?_
  · rw [if_neg (not_not.mpr rfl)]
    refine outline_walk trav.isLt fun n byteCount hn htarget hcount => ?_
    refine outline_storeFPos (outline_unlock
      (l.seekTo filp (uint32 (byteCount + offset.toNat))) rfl rfl rfl rfl rfl ?_ rfl
      fun _ _ _ _ h => h)
    -- the walk has gone from one slot to the other
    have hrounds : ((trav.val + n) % 10 + 10 - trav.val) % 10 = n := by
      have htrav := trav.isLt
      omega
    refine .inl ⟨⟨(trav.val + n) % 10, Nat.mod_lt _ (by omega)⟩, htarget.symm, rfl, ?_⟩
    rw [hrounds]
    refine congrArg (l.seekTo filp) ?_
    show _ % 2 ^ 32 = ((l.span trav n : ℤ) + offset.toNat) % 2 ^ 32
    rw [Int.add_emod, hcount, ← Int.add_emod]
  · rw [if_pos herr]
    exact fun _ _ _ _ h => h.committed

/-- The sections before it are one service each. -/
theorem outline_glance {o : KernelOp} {f : KernelRes o → sections.Res c}
    (hsafe : ∀ w env s, kernelStep env o w ≠ .error s)
    (hsame : ∀ w g env r w', Shared w g → kernelStep env o w = .ok (r, w') →
      w' = w ∧ Log.Answers c g.log (f r) g.log ∧ serviceError ⟨o, r⟩ = sectionError ⟨c, f r⟩) :
    sharing.Outline t c (Prog.call (E := kernel) o fun r => .pure (f r)) (Waits t .null [] none)
      (Committed t) := by
  refine outline_peek (fun r a' => a' = some (f r)) (fun w _ env s _ => hsafe w env s) ?_ ?_
  · intro w g env r w' hI _ hok
    obtain ⟨hw, hspec, herror⟩ := hsame w g env r w' hI hok
    exact ⟨hw, _, rfl, .inr ⟨_, rfl, rfl, hspec, herror⟩⟩
  · rintro r _ rfl
    exact fun _ _ _ _ h => h.committed

theorem outline_outOffs : sharing.Outline t .outOffs (sectionText .outOffs) (Waits t .null [] none)
    (Committed t) := by
  refine outline_glance (c := .outOffs) (o := .loadDev)
    (f := fun d => ⟨d.circBuf.outOffs, d.circBuf.outOffs_lt⟩)
    (fun w env s hbad => by cases hbad) ?_
  rintro w g env d w' hI ⟨⟩
  exact ⟨rfl, ⟨hI.tells.outOffs, rfl⟩, rfl⟩

theorem outline_slotSize {i : Fin 10} : sharing.Outline t (.slotSize i) (sectionText (.slotSize i))
    (Waits t .null [] none) (Committed t) := by
  refine outline_glance (c := .slotSize i) (o := .loadDev) (f := fun d => (d.circBuf.slot i).size)
    (fun w env s hbad => by cases hbad) ?_
  rintro w g env d w' hI ⟨⟩
  exact ⟨rfl, ⟨hI.tells.size i i.isLt, rfl⟩, rfl⟩

theorem outline_strayLoad {index : ℤ} : sharing.Outline t (.strayLoad index)
    (sectionText (.strayLoad index)) (Waits t .null [] none) (Committed t) := by
  refine outline_glance (c := .strayLoad index) (o := .strayLoad index) (f := id)
    (fun w env s hbad => by cases hbad) ?_
  rintro w g env size w' hI ⟨⟩
  exact ⟨rfl, rfl, rfl⟩

theorem outline_copySeekto {arg : AesdSeekto} : sharing.Outline t (.copySeekto arg)
    (sectionText (.copySeekto arg)) (Waits t .null [] none) (Committed t) := by
  refine outline_glance (c := .copySeekto arg) (o := .copySeektoFromUser arg) (f := id)
    (fun w env s hbad => by cases hbad) ?_
  rintro w g env q w' hI ⟨⟩
  exact ⟨rfl, ⟨rfl, rfl⟩, rfl⟩

end Observers

end Aesd.CharDriver

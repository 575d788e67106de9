import Aesd.CharDriver.Ownership
import Aesd.Effects.Typestate

/-! # Which blocks are lost

The bounce buffer of `aesd_write` is freed when the user copy or the lock fails, and never
afterwards. So the driver loses a block with every write of at least one byte that comes to hold the
mutex, and accounts for all blocks in the runs without such a write. -/

namespace Aesd.CharDriver

open Memory Effects Streams

/-- Every live block has an owner. -/
def Accounted (w : World) : Prop :=
  ∀ b, (w.heap.cells b).isSome → .block b ∈ w.owners.map AesdBufferEntry.buffptr

/-- If the calls return, then every live block has an owner, at most eleven blocks are live, and
unloading the module leaves none. -/
def NoLeak (is : List Invocation) : Prop :=
  ∀ rs w, invokeAll is aesdInitModule = .ok (rs, w) →
    Accounted w ∧ (∃ bs : List ℕ, bs.length ≤ 11 ∧ ∀ b, (w.heap.cells b).isSome → b ∈ bs) ∧
      ∀ env w', execute env aesdCleanupModule w = .ok ((), w') → ∀ b, w'.heap.cells b = none

/-- A write of at least one byte whose `kmalloc`, user copy and lock succeed. -/
def LosesBuffer (i : Invocation) : Prop :=
  match i.call with
  | .write _ buf => buf ≠ [] ∧ ¬WriteTurnedAway i.env buf
  | _ => False

section QuietCalls

/-- The services that change the heap. -/
def KernelOp.changesHeap : KernelOp → Bool
  | .kmalloc _ | .krealloc _ _ | .kfree _ | .copyFromUser _ _ | .memcpy _ _ _ _ => true
  | _ => false

/-- The monitor that forbids these services. -/
def quiet : Monitor kernel Unit where
  expects _ _ := True
  step _ e := if e.op.changesHeap then none else some ()

/-- No other service does. -/
theorem heap_eq_of_not_changesHeap {env : Env} {o : KernelOp} {r : KernelRes o} {w w' : World}
    (ho : o.changesHeap = false) (h : kernelStep env o w = .ok (r, w')) : w'.heap = w.heap := by
  cases o with
  | copyToUser src offset n =>
      simp only [kernelStep, bind, Except.bind] at h
      split at h
      · cases h
      · cases h; rfl
  | memchr p c n =>
      simp only [kernelStep, bind, Except.bind] at h
      split at h
      · cases h
      · cases h; rfl
  | mutexLockInterruptible =>
      simp only [kernelStep] at h
      split_ifs at h
      · cases h; rfl
      · cases h; rfl
  -- the others do not even read the heap
  | copySeektoFromUser arg => cases h; rfl
  | mutexUnlock => cases h; rfl
  | loadDev => cases h; rfl
  | modifyDev f => cases h; rfl
  | loadFPos filp => cases h; rfl
  | storeFPos filp pos => cases h; rfl
  | strayLoad index => cases h; rfl
  | _ => cases ho

variable {α : Type} {Q : α → Unit → Prop}

theorem quiet_call {o : KernelOp} {k : KernelRes o → Driver α} (ho : o.changesHeap = false)
    (hk : ∀ r, Follows quiet () (k r) Q) : Follows quiet () (Prog.call (E := kernel) o k) Q :=
  fun r _ => ⟨(), by simp [quiet, ho], hk r⟩

theorem follows_quiet_aesdRead (filp : File) (count : ℕ) :
    Follows quiet () (aesdRead filp count) fun _ _ => True := by
  have hunlock : ∀ q, Follows quiet () (aesdRead.mutexUnlockAndReturn q) fun _ _ => True :=
    fun q => quiet_call rfl fun _ => trivial
  refine quiet_call rfl fun err => Follows.ite trivial ?_
  refine quiet_call rfl fun dev => quiet_call rfl fun pos => ?_
  simp only [Prog.pure_bind]
  split
  · exact hunlock _
  refine Follows.ite (hunlock _) (quiet_call rfl fun res => Follows.ite (hunlock _) ?_)
  exact quiet_call rfl fun _ => quiet_call rfl fun _ => hunlock _

theorem follows_quiet_aesdLlseek (filp : File) (offset whence : ℤ) :
    Follows quiet () (aesdLlseek filp offset whence) fun _ _ => True := by
  have hfinish : ∀ pos, Follows quiet () (aesdLlseek.finish filp pos) fun _ _ => True := by
    intro pos
    refine Follows.ite (quiet_call rfl fun _ => trivial) ?_
    exact quiet_call rfl fun _ => quiet_call rfl fun _ => trivial
  refine quiet_call rfl fun err => Follows.ite trivial ?_
  refine quiet_call rfl fun dev =>
    Follows.ite (hfinish _) (Follows.ite ?_ (Follows.ite (hfinish _) ?_))
  · exact quiet_call rfl fun pos => hfinish _
  · exact quiet_call rfl fun _ => trivial

theorem follows_quiet_entrySize (index : ℤ) :
    Follows quiet () (entrySize index) fun _ _ => True :=
  Follows.ite (quiet_call rfl fun _ => trivial) (quiet_call rfl fun _ => trivial)

theorem follows_quiet_aesdUnlockedIoctl (filp : File) (cmd : ℕ) (arg : AesdSeekto) :
    Follows quiet () (aesdUnlockedIoctl filp cmd arg) fun _ _ => True := by
  have hwalk : ∀ index s, Follows quiet () (aesdUnlockedIoctl.walk index s)
      fun _ _ => True := by
    rintro index ⟨trav, byteCount⟩
    refine Follows.ite trivial ?_
    exact (follows_quiet_entrySize trav).bind fun _ _ _ => trivial
  have hseek : ∀ trav index offset,
      Follows quiet () (aesdUnlockedIoctl.seek filp trav index offset) fun _ _ => True := by
    intro trav index offset
    refine quiet_call rfl fun err => Follows.ite trivial ?_
    refine (Follows.iterate (fun _ _ => True) (Q := fun _ _ => True) trivial fun s g _ => ?_).bind
      fun byteCount _ _ => quiet_call rfl fun _ => quiet_call rfl fun _ => trivial
    exact (hwalk index s).mono fun r _ _ => by cases r <;> trivial
  simp only [aesdUnlockedIoctl, loadDev, copySeektoFromUser, Prog.bind_eq, Prog.call_bind,
    Prog.pure_bind, Prog.pure_eq]
  refine quiet_call rfl fun dev => Follows.ite ?_ True.intro
  refine quiet_call rfl fun res => Follows.ite True.intro ?_
  refine quiet_call rfl fun dev' => ?_
  -- whatever the index is
  generalize (int32 (int32 res.2.writeCmd.toNat + dev'.circBuf.outOffs)).tmod _ = index
  refine Follows.ite True.intro ?_
  exact (follows_quiet_entrySize _).bind fun size _ _ => Follows.ite True.intro (hseek _ _ _)

/-- The calls other than `write` use none of them. -/
theorem follows_quiet (c : Call) (hc : ∀ filp buf, c ≠ .write filp buf) :
    Follows quiet () c.text fun _ _ => True := by
  cases c with
  | «open» filp => exact quiet_call rfl fun _ => trivial
  | release filp => trivial
  | read filp count => exact (follows_quiet_aesdRead filp count).bind fun _ _ _ => trivial
  | write filp buf => exact absurd rfl (hc filp buf)
  | llseek filp offset whence =>
      exact (follows_quiet_aesdLlseek filp offset whence).bind fun _ _ _ => trivial
  | ioctl filp cmd arg =>
      exact (follows_quiet_aesdUnlockedIoctl filp cmd arg).bind fun _ _ _ => trivial

/-- The calls other than `write` leave the heap as it is. -/
theorem heap_eq_of_invoke {i : Invocation} {r : Reply} {w w' : World}
    (hc : ∀ filp buf, i.call ≠ .write filp buf) (h : invoke i w = .ok (r, w')) :
    w'.heap = w.heap := by
  obtain ⟨t, hruns, hhandles⟩ := runs_of_run h
  obtain ⟨g, hafter, -⟩ := (follows_quiet i.call hc).runs hruns
    (Monitor.admits_of_mem (fun _ _ _ => trivial) _)
  have hquiet : ∀ e ∈ t, e.op.changesHeap = false := by
    clear hruns hhandles
    induction t generalizing g with
    | nil => simp
    | cons e t ih =>
        rw [Monitor.after_cons] at hafter
        cases he : e.op.changesHeap with
        | true => simp [quiet, he] at hafter
        | false =>
            have hstep : quiet.step () e = some () := by simp [quiet, he]
            rw [hstep, Option.bind_some] at hafter
            intro e' he'
            rcases List.mem_cons.mp he' with rfl | he'
            · exact he
            · exact ih _ hafter e' he'
  exact hhandles.invariant (I := fun w₁ => w₁.heap = w.heap)
    (fun e he w₁ w₂ hstep hw => (heap_eq_of_not_changesHeap (hquiet e he) hstep).trans hw) rfl

end QuietCalls

section Untouched

variable {w w' : World} {l : Log} {is : List Invocation} {rs : List Reply} {i : Invocation}
  {r : Reply}

/-- Where no block is live, nothing has been fed to the device. -/
theorem Stands.stream_eq_nil (h : Stands w l) (hnone : ∀ b, w.heap.cells b = none) :
    l.stream = [] := by
  have hrest : rest isNewline l.stream = [] := by
    by_contra hne
    obtain ⟨b, -, hcell⟩ := h.represents.working.backs.eq_block hne
    rw [hnone] at hcell
    cases hcell
  have hlines : lines isNewline l.stream = [] := by
    by_contra hne
    have hlen := h.represents.length_cmds
    have hpos : 0 < (lines isNewline l.stream).length := List.length_pos_iff.mpr hne
    have hcmd : 0 < l.commands.length := by
      rw [Log.commands, hlen]
      omega
    obtain ⟨b, -, hcell⟩ := (h.holds_slot hcmd).backs.eq_block
      (h.represents.nonempty _ (List.getElem_mem hcmd))
    rw [hnone] at hcell
    cases hcell
  have hsplit : (lines isNewline l.stream).flatten ++ rest isNewline l.stream = l.stream :=
    flatten_lines_append_rest l.stream
  rw [← hsplit, hlines, hrest]
  rfl

/-- There is nothing to spoil where nothing has been fed to the device. -/
theorem Stands.not_spoils (h : Stands w l) (hnone : ∀ b, w.heap.cells b = none) : ¬Spoils i w := by
  have hsize : w.dev.workingEntry.size = 0 := by
    rw [h.represents.working.size, h.stream_eq_nil hnone]
    rfl
  obtain ⟨call, env⟩ := i
  cases call with
  | write filp buf => exact fun hs => hs.2.1 hsize
  | _ => exact fun hs => hs

/-- The step lemma: without a lost buffer no block stays live. -/
theorem Stands.none_live_step (h : Stands w l) (hnone : ∀ b, w.heap.cells b = none)
    (hi : ¬LosesBuffer i) (hrun : invoke i w = .ok (r, w')) :
    (∃ l', Stands w' l') ∧ ∀ b, w'.heap.cells b = none := by
  have hstand : ∃ l', Stands w' l' := by
    rcases h.returns (h.not_spoils hnone) hrun with ⟨-, -, h'⟩ | ⟨-, l', -, h'⟩
    · exact ⟨l, h'⟩
    · exact ⟨l', h'⟩
  refine ⟨hstand, ?_⟩
  have hnil := h.stream_eq_nil hnone
  by_cases hwrite : ∀ filp buf, i.call ≠ .write filp buf
  · rw [heap_eq_of_invoke hwrite hrun]
    exact hnone
  · obtain ⟨call, env⟩ := i
    simp only [ne_eq, not_forall, not_not] at hwrite
    obtain ⟨filp, buf, rfl⟩ := hwrite
    have hadds : ∀ {h' : Heap}, w.heap.Adds h' .null → ∀ b, h'.cells b = none := by
      intro h' hadds b
      by_contra hb
      rcases hadds b (Option.isSome_iff_ne_none.mpr hb) with hold | hptr
      · rw [hnone] at hold
        cases hold
      · cases hptr
    by_cases haway : WriteTurnedAway env buf
    · obtain ⟨retval, h', -, hcells, hexec⟩ :=
        execute_aesdWrite_of_turnedAway haway h.represents.unlocked
      have hinv : invoke ⟨.write filp buf, env⟩ w = _ := execute_bind _ hexec
      rw [hrun] at hinv
      cases hinv
      exact fun b => (congrFun hcells b).trans (hnone b)
    · -- the buffer is empty, so nothing has been allocated for it
      have hbuf : buf = [] := by
        by_contra hne
        exact hi ⟨hne, haway⟩
      subst hbuf
      by_cases hrefused : l.WriteRefused env []
      · obtain ⟨h', hexec, -, -, hadd, -⟩ := h.represents.write_refused haway hrefused
        have hinv : invoke ⟨.write filp [], env⟩ w = _ := execute_bind _ hexec
        rw [hrun] at hinv
        cases hinv
        exact hadds (hadd rfl)
      · simp only [Log.WriteRefused, not_or, Bool.not_eq_false, not_lt] at hrefused
        obtain ⟨w₁, hexec, hr, -, hadd, -⟩ :=
          h.represents.write_granted haway hrefused.1 hrefused.2
        have hinv : invoke ⟨.write filp [], env⟩ w = _ := execute_bind _ hexec
        rw [hrun] at hinv
        cases hinv
        intro b
        by_contra hb
        rcases hadd rfl b (Option.isSome_iff_ne_none.mpr hb) with hold | hptr
        · rw [hnone] at hold
          cases hold
        · have hbacks := hr.working.backs
          rw [hptr, hnil] at hbacks
          exact hbacks.2 rfl

/-- The run lemma. -/
theorem Stands.none_live_run (h : Stands w l) (hnone : ∀ b, w.heap.cells b = none)
    (hs : Throughout (fun i _ => ¬LosesBuffer i) is w) (hrun : invokeAll is w = .ok (rs, w')) :
    (∃ l', Stands w' l') ∧ ∀ b, w'.heap.cells b = none := by
  induction is generalizing w l rs with
  | nil =>
      rw [invokeAll_nil, Except.ok.injEq, Prod.mk.injEq] at hrun
      obtain ⟨-, rfl⟩ := hrun
      exact ⟨⟨l, h⟩, hnone⟩
  | cons i is ih =>
      obtain ⟨r, w₁, rs', hi, his, rfl⟩ := invokeAll_cons_ok hrun
      rw [throughout_cons hi] at hs
      obtain ⟨⟨l₁, h₁⟩, hnone₁⟩ := h.none_live_step hnone hs.1 hi
      exact ih h₁ hnone₁ hs.2 his

theorem noLeak_of_no_lost_buffer
    (hs : Throughout (fun i _ => ¬LosesBuffer i) is aesdInitModule) : NoLeak is := by
  intro rs w hrun
  obtain ⟨⟨l, h⟩, hnone⟩ := stands_init.none_live_run (fun _ => rfl) hs hrun
  have hdead : ∀ b, ¬(w.heap.cells b).isSome := fun b => by simp [hnone b]
  refine ⟨fun b hb => absurd hb (hdead b), ⟨[], Nat.zero_le _, fun b hb => absurd hb (hdead b)⟩, ?_⟩
  intro env w' hclean b
  obtain ⟨h', hexec, hcells⟩ := h.represents.owned.cleanup env
  rw [hclean, Except.ok.injEq, Prod.mk.injEq] at hexec
  rw [hexec.2]
  show h'.cells b = none
  rw [hcells, hnone]
  split <;> rfl

/-- A write of at least one byte that comes to hold the mutex leaves its bounce buffer behind. -/
theorem not_noLeak_of_losesBuffer (hs : Throughout (fun i _ => ¬LosesBuffer i) is aesdInitModule)
    (hrun : invokeAll is aesdInitModule = .ok (rs, w)) (hi : LosesBuffer i) :
    ¬NoLeak (is ++ [i]) := by
  intro hno
  obtain ⟨⟨l, h⟩, -⟩ := stands_init.none_live_run (fun _ => rfl) hs hrun
  obtain ⟨call, env⟩ := i
  cases call with
  | write filp buf =>
      obtain ⟨hbuf, haway⟩ := hi
      by_cases hrefused : l.WriteRefused env buf
      · obtain ⟨h', hexec, -, -, -, hleft⟩ := h.represents.write_refused haway hrefused
        have hinv : invoke ⟨.write filp buf, env⟩ w = _ := execute_bind _ hexec
        obtain ⟨haccount, -⟩ := hno _ _ (invokeAll_concat hrun hinv)
        -- the owners are the same as before the call
        have hmem : Ptr.block w.heap.next ∈ w.owners.map AesdBufferEntry.buffptr :=
          haccount _ (hleft hbuf)
        obtain ⟨hwork, hret⟩ := h.represents.next_not_owned
        rcases h.represents.mem_owners hmem with h₁ | h₁ | h₁
        · cases h₁
        · exact hwork h₁.symm
        · exact hret h₁
      · simp only [Log.WriteRefused, not_or, Bool.not_eq_false, not_lt] at hrefused
        obtain ⟨w₁, hexec, hr, -, -, hleft⟩ :=
          h.represents.write_granted haway hrefused.1 hrefused.2
        have hinv : invoke ⟨.write filp buf, env⟩ w = _ := execute_bind _ hexec
        obtain ⟨haccount, -⟩ := hno _ _ (invokeAll_concat hrun hinv)
        obtain ⟨hlive, hwork, hret⟩ := hleft hbuf
        rcases hr.mem_owners (haccount _ hlive) with h₁ | h₁ | h₁
        · cases h₁
        · exact hwork h₁.symm
        · exact hret h₁
  | «open» filp => exact hi.elim
  | release filp => exact hi.elim
  | read filp count => exact hi.elim
  | llseek filp offset whence => exact hi.elim
  | ioctl filp cmd arg => exact hi.elim

/-- A write of one byte. -/
theorem not_noLeak_after_write : ¬NoLeak [⟨.write 0 [97], .calm 0⟩] := by
  have hfirst : Throughout (fun i _ => ¬LosesBuffer i) [] aesdInitModule := trivial
  exact not_noLeak_of_losesBuffer hfirst rfl ⟨by simp, by decide⟩

end Untouched

/-- **When no block is lost.** All beginnings of a run are free of leaks exactly if no call of it is
a write of at least one byte whose `kmalloc`, user copy and lock succeed. -/
theorem noLeak_iff (is : List Invocation) :
    (∀ pre, pre <+: is → NoLeak pre) ↔
      Throughout (fun i _ => ¬LosesBuffer i) is aesdInitModule := by
  constructor
  · intro hall
    by_contra hs
    obtain ⟨pre, i, post, rs, w, rfl, hpre, hrun, hi⟩ := exists_first_of_not_throughout hs
    exact not_noLeak_of_losesBuffer hpre hrun (not_not.mp hi)
      (hall _ ⟨post, by rw [List.append_assoc]; rfl⟩)
  · rintro hs pre ⟨post, rfl⟩
    exact noLeak_of_no_lost_buffer hs.of_append

end Aesd.CharDriver

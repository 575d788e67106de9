import Aesd.CharDriver.Simulation

/-! # Every state that calls can lead to

A harmful write leaves the working entry pointing to a freed block. The ring is not touched by it,
and a later write either is turned away or never returns, since its `krealloc` is handed the freed
block. So whatever calls have returned, with whatever decisions of the kernel, the ring still shows
a log (`Reached`), and as long as the offsets handed to `llseek` are 64-bit numbers every position
is a non-negative `loff_t`. -/

namespace Aesd.CharDriver

open Memory Effects Streams

section Numbers

/-! ### Block numbers are never taken back -/

variable {env : Env} {w w' : World} {h h' : Heap} {p q : Ptr} {n : ℕ}

theorem allocate_next_le (ok : Bool) (junk : ℕ → UInt8) (n : ℕ) (h : Heap) :
    h.next ≤ (allocate ok junk n h).2.next := by
  unfold allocate
  split
  · exact le_rfl
  · split
    · exact le_rfl
    · exact Nat.le_succ _

theorem reallocate_next_le (hre : reallocate env p n h = .ok (q, h')) : h.next ≤ h'.next := by
  have hnone : ∀ {q h'}, Except.ok (allocate env.kreallocOk env.junk n h) =
      (.ok (q, h') : Except Stop (Ptr × Heap)) → h.next ≤ h'.next := by
    intro q h' hq
    have hle := allocate_next_le env.kreallocOk env.junk n h
    rw [Except.ok.inj hq] at hle
    exact hle
  cases p with
  | null => exact hnone hre
  | zeroSize => exact hnone hre
  | block b =>
      simp only [reallocate] at hre
      split at hre
      · cases hre
      split_ifs at hre <;> cases hre
      · exact le_rfl
      · exact le_rfl
      · exact le_rfl
      · exact Nat.le_succ _

theorem release_next (hrel : release p h = .ok h') : h'.next = h.next := by
  cases p with
  | null => exact congrArg Heap.next (Except.ok.inj hrel).symm
  | zeroSize => exact congrArg Heap.next (Except.ok.inj hrel).symm
  | block b =>
      simp only [release] at hrel
      split_ifs at hrel
      cases hrel
      rfl

theorem put_next (p : Ptr) (bytes : List UInt8) (h : Heap) : (put p bytes h).next = h.next := by
  cases p <;> rfl

/-- No service takes a block number back. -/
theorem kernelStep_next_le {o : KernelOp} {r : KernelRes o}
    (ho : kernelStep env o w = .ok (r, w')) : w.heap.next ≤ w'.heap.next := by
  cases o with
  | kmalloc n =>
      cases ho
      exact allocate_next_le _ _ _ _
  | krealloc p n =>
      simp only [kernelStep, bind, Except.bind] at ho
      split at ho
      · cases ho
      · rename_i hre
        cases ho
        exact reallocate_next_le hre
  | kfree p =>
      simp only [kernelStep, bind, Except.bind] at ho
      split at ho
      · cases ho
      · rename_i hrel
        cases ho
        exact (release_next hrel).ge
  -- writing and reading allocate nothing
  | copyFromUser dst buf =>
      simp only [kernelStep, bind, Except.bind] at ho
      split at ho
      · cases ho
      · cases ho
        exact (put_next _ _ _).ge
  | memcpy dst offset src n =>
      simp only [kernelStep, bind, Except.bind] at ho
      split at ho
      · cases ho
      split at ho
      · cases ho
      · cases ho
        exact (put_next _ _ _).ge
  | copyToUser src offset n =>
      simp only [kernelStep, bind, Except.bind] at ho
      split at ho
      · cases ho
      · cases ho
        exact le_rfl
  | memchr p c n =>
      simp only [kernelStep, bind, Except.bind] at ho
      split at ho
      · cases ho
      · cases ho
        exact le_rfl
  | mutexLockInterruptible =>
      simp only [kernelStep] at ho
      split_ifs at ho <;> cases ho <;> exact le_rfl
  | _ => cases ho; exact le_rfl

theorem execute_next_le {α : Type} {text : Driver α} {a : α}
    (hexec : execute env text w = .ok (a, w')) : w.heap.next ≤ w'.heap.next := by
  obtain ⟨t, -, hhandles⟩ := runs_of_run hexec
  exact hhandles.invariant (I := fun w' => w.heap.next ≤ w'.heap.next)
    (fun _ _ _ _ ho hle => hle.trans (kernelStep_next_le ho)) le_rfl

end Numbers

/-- The working entry points to a block that has been freed. -/
def Dangles (w : World) : Prop :=
  ∃ b, w.dev.workingEntry.buffptr = .block b ∧ b < w.heap.next ∧ w.heap.cells b = none

/-- The ring shows the log, and the working entry holds its unfinished line or dangles. -/
structure Reached (w : World) (l : Log) : Prop where
  /-- The ring shows the log. -/
  shows : Shows w l
  /-- What the working entry is. -/
  working : Stands w l ∨ Dangles w

section Steps

variable {env : Env} {w w' : World} {l l' : Log} {i : Invocation} {r : Reply} {filp : File}

theorem Stands.reached (h : Stands w l) : Reached w l := ⟨h.shows, .inl h⟩

/-- Only the blocks of the ring matter. -/
theorem Shows.frame (h : Shows w l) {h' : Heap} {p : Ptr} (hk : w.heap.Keeps h' p)
    (hp : p ∉ w.dev.circBuf.retained.map AesdBufferEntry.buffptr) :
    Shows { w with heap := h' } l :=
  ⟨h.ring, forall₂_holds_keeps h.commands hk hp, h.nonempty, h.unlocked, h.fPos⟩

/-- A harmful write leaves a working entry that dangles. -/
theorem Stands.dangles_of_spoils (h : Stands w l) (hs : Spoils i w) (hi : invoke i w = .ok (r, w')) :
    r.Failed ∧ Shows w' l ∧ Dangles w' := by
  obtain ⟨b, h', hptr, hfreed, hkeep, -, hok⟩ := h.spoiled hs
  rw [hi, Except.ok.injEq, Prod.mk.injEq] at hok
  obtain ⟨rfl, rfl⟩ := hok
  refine ⟨by decide, h.shows.frame hkeep ?_, b, hptr, ?_, hfreed⟩
  · rw [← hptr]
    exact (List.nodup_cons.mp h.represents.apart).1
  · obtain ⟨call, env⟩ := i
    cases call with
    | write filp buf =>
        have hsize := hs.2.1
        rw [h.represents.working.size] at hsize
        obtain ⟨c, hc, hcell⟩ := h.represents.working.backs.eq_block
          (List.ne_nil_of_length_pos (Nat.pos_of_ne_zero hsize))
        rw [hptr] at hc
        cases hc
        exact (Heap.lt_next_of_isSome (by simp [hcell])).trans_le (execute_next_le hi)
    | _ => exact hs.elim

/-- A write that would append to a freed block never returns. -/
theorem Dangles.write_error (hd : Dangles w) (hlock : w.dev.lock = none) {buf : List UInt8}
    (haway : ¬WriteTurnedAway env buf) :
    execute env (aesdWrite buf) w = .error .badAccess := by
  obtain ⟨b, hptr, hlt, hfreed⟩ := hd
  obtain ⟨kern, h', -, hadds, -, hkern, hexec⟩ :=
    execute_aesdWrite_of_not_turnedAway (w := w) haway hlock
  -- the bounce buffer is another block
  have hfreed' : h'.cells b = none := by
    by_contra hne
    rcases hadds b (Option.isSome_iff_ne_none.mpr hne) with hb | hb
    · simp [hfreed] at hb
    · rcases hkern with ⟨-, hk⟩ | ⟨-, hk⟩
      · rw [hk] at hb
        cases hb
      · rw [hk, Ptr.block.injEq] at hb
        omega
  have hstep : ∀ n, kernelStep env (.krealloc w.dev.workingEntry.buffptr n)
      { w with heap := h', dev := { w.dev with lock := some env.task } } = .error .badAccess := by
    intro n
    simp only [kernelStep, hptr, reallocate, hfreed', bind, Except.bind]
  rw [hexec]
  simp only [aesdWrite.append, loadDev, krealloc, Prog.bind_eq, Prog.call_bind, Prog.pure_bind,
    execute_loadDev]
  exact run_call_error _ (hstep _)

/-- A write that returns has been turned away. -/
theorem Shows.write_of_dangles (h : Shows w l) (hd : Dangles w) {buf : List UInt8}
    (hi : invoke ⟨.write filp buf, env⟩ w = .ok (r, w')) : r.Failed ∧ Shows w' l ∧ Dangles w' := by
  by_cases haway : WriteTurnedAway env buf
  · obtain ⟨retval, h', hneg, hcells, hexec⟩ := execute_aesdWrite_of_turnedAway haway h.unlocked
    have hok : invoke ⟨.write filp buf, env⟩ w = .ok (.ofRetval retval, { w with heap := h' }) :=
      execute_bind _ hexec
    rw [hi, Except.ok.injEq, Prod.mk.injEq] at hok
    obtain ⟨rfl, rfl⟩ := hok
    obtain ⟨b, hptr, hlt, hfreed⟩ := hd
    have hkeep : w.heap.Keeps h' .null := fun b _ _ => congrFun hcells b
    refine ⟨hneg, h.frame hkeep fun hmem => ?_, b, hptr, hlt.trans_le (execute_next_le hexec),
      (congrFun hcells b).trans hfreed⟩
    obtain ⟨e, he, hnull⟩ := List.mem_map.mp hmem
    exact h.buffptr_ne_null he hnull
  · have herror : invoke ⟨.write filp buf, env⟩ w = .error .badAccess :=
      execute_bind_error _ (hd.write_error h.unlocked haway)
    rw [hi] at herror
    cases herror

/-- Later calls leave a dangling working entry as it is. -/
theorem Shows.returns_of_dangles (h : Shows w l) (hd : Dangles w)
    (hi : invoke i w = .ok (r, w')) :
    r.Failed ∧ Shows w' l ∧ Dangles w' ∨
      ¬r.Failed ∧ ∃ l', l.apply i = .ok (some (r, l')) ∧ Shows w' l' ∧ Dangles w' := by
  have hobserved : ∀ answer, Observes w l (invoke i w) answer →
      r.Failed ∧ Shows w' l ∧ Dangles w' ∨
        ¬r.Failed ∧ ∃ l', answer = .ok (some (r, l')) ∧ Shows w' l' ∧ Dangles w' := by
    intro answer hobs
    rw [hi] at hobs
    cases answer with
    | error e => cases hobs
    | ok o =>
        cases o with
        | none =>
            obtain ⟨r₁, hok, hfail⟩ := hobs
            cases hok
            exact .inl ⟨hfail, h, hd⟩
        | some q =>
            obtain ⟨r₁, l'⟩ := q
            obtain ⟨hok, hfail, hstream⟩ := hobs
            cases hok
            exact .inr ⟨hfail, l', rfl, h.setFPos hstream, hd⟩
  -- only a write looks at the working entry, and it fails
  obtain ⟨call, env⟩ := i
  cases call with
  | «open» filp =>
      refine hobserved (.ok (some (.ofRetval 0, l.seekTo filp 0))) ⟨?_, by decide, rfl⟩
      rw [h.moved]
      rfl
  | release filp =>
      refine hobserved (.ok (some (.ofRetval 0, l))) ⟨?_, by decide, rfl⟩
      rw [h.same]
      rfl
  | read filp count => exact hobserved _ (h.observes_read count)
  | llseek filp offset whence => exact hobserved _ (h.observes_llseek offset whence)
  | ioctl filp cmd arg => exact hobserved _ (h.observes_ioctl cmd arg)
  | write filp buf => exact .inl (h.write_of_dangles hd hi)

/-- The step lemma: a call that fails keeps the log, one that succeeds is a step of it. -/
theorem Reached.returns (h : Reached w l) (hi : invoke i w = .ok (r, w')) :
    r.Failed ∧ Reached w' l ∨
      ¬r.Failed ∧ ∃ l', l.apply i = .ok (some (r, l')) ∧ Reached w' l' := by
  rcases h.working with hstand | hd
  · by_cases hs : Spoils i w
    · obtain ⟨hfail, hshow, hd⟩ := hstand.dangles_of_spoils hs hi
      exact .inl ⟨hfail, hshow, .inr hd⟩
    · rcases hstand.returns hs hi with ⟨hfail, -, h'⟩ | ⟨hok, l', happ, h'⟩
      · exact .inl ⟨hfail, h'.reached⟩
      · exact .inr ⟨hok, l', happ, h'.reached⟩
  · rcases h.shows.returns_of_dangles hd hi with ⟨hfail, hshow, hd'⟩ | ⟨hok, l', happ, hshow, hd'⟩
    · exact .inl ⟨hfail, hshow, .inr hd'⟩
    · exact .inr ⟨hok, l', happ, hshow, .inr hd'⟩

end Steps

section Runs

variable {w w' : World} {l : Log} {is : List Invocation} {rs : List Reply}

/-- The run lemma. -/
theorem Reached.exists_of_invokeAll (h : Reached w l) (hrun : invokeAll is w = .ok (rs, w')) :
    ∃ l', Reached w' l' := by
  induction is generalizing w l rs with
  | nil =>
      rw [invokeAll_nil, Except.ok.injEq, Prod.mk.injEq] at hrun
      exact ⟨l, hrun.2 ▸ h⟩
  | cons i is ih =>
      obtain ⟨r, w₁, rs', hi, his, rfl⟩ := invokeAll_cons_ok hrun
      rcases h.returns hi with ⟨-, h₁⟩ | ⟨-, l₁, -, h₁⟩
      · exact ih h₁ his
      · exact ih h₁ his

/-- **Every state that calls lead to shows a log.** -/
theorem exists_shows_of_invokeAll (hrun : invokeAll is aesdInitModule = .ok (rs, w)) :
    ∃ l, Shows w l := by
  obtain ⟨l, h⟩ := stands_init.reached.exists_of_invokeAll hrun
  exact ⟨l, h.shows⟩

/-! ### The positions of the files -/

/-- The argument `offset` of an `llseek` is a `loff_t`. -/
def OffsetFits (i : Invocation) : Prop :=
  match i.call with
  | .llseek _ offset _ => -2 ^ 63 ≤ offset ∧ offset < 2 ^ 63
  | _ => True

instance : (i : Invocation) → Decidable (OffsetFits i)
  | ⟨.llseek _ _ _, _⟩ => inferInstanceAs (Decidable (_ ∧ _))
  | ⟨.open _, _⟩ | ⟨.release _, _⟩ | ⟨.read _ _, _⟩ => inferInstanceAs (Decidable True)
  | ⟨.write _ _, _⟩ | ⟨.ioctl _ _ _, _⟩ => inferInstanceAs (Decidable True)

/-- Every position is a non-negative `loff_t`. -/
def InRange (fPos : File → ℤ) : Prop := ∀ filp, 0 ≤ fPos filp ∧ fPos filp < 2 ^ 63

theorem InRange.update {fPos : File → ℤ} (h : InRange fPos) (filp : File) {pos : ℤ} (h₀ : 0 ≤ pos)
    (hlt : pos < 2 ^ 63) : InRange (Function.update fPos filp pos) := by
  intro f
  by_cases hf : f = filp
  · rw [hf, Function.update_self]
    exact ⟨h₀, hlt⟩
  · rw [Function.update_of_ne hf]
    exact h f

theorem int64_lt (x : ℤ) : int64 x < 2 ^ 63 := by
  have h : int64 x < ((2 ^ 64 : ℕ) + 1) / 2 := Int.bmod_lt (by decide)
  omega

/-- A call that succeeds keeps the positions in range. -/
theorem Log.apply_inRange {i : Invocation} {r : Reply} {l' : Log} (h : InRange l.fPos)
    (hcontents : l.contents.length < 2 ^ 62) (hfits : OffsetFits i)
    (happ : l.apply i = .ok (some (r, l'))) : InRange l'.fPos := by
  obtain ⟨call, env⟩ := i
  cases call with
  | «open» filp =>
      cases happ
      exact h.update filp le_rfl (by decide)
  | release filp =>
      cases happ
      exact h
  | read filp count =>
      have hread : l.read env filp count = some (r, l') := Except.ok.inj happ
      rw [Log.read] at hread
      split at hread
      · cases hread
      split at hread
      · cases hread
        exact h
      · rename_i i o hloc
        simp only at hread
        split at hread
        · cases hread
        · cases hread
          -- what is read lies within the contents
          obtain ⟨c, hc, ho, hdrop⟩ := drop_flatten_of_locate hloc
          have hlen := congrArg List.length hdrop
          rw [List.length_drop, List.length_append, List.length_drop, ← Log.contents] at hlen
          obtain ⟨h₀, hlt⟩ := h filp
          have hpos : (toSizeT (l.fPos filp) : ℤ) = l.fPos filp := by
            unfold toSizeT
            omega
          have hbytes : (((l.commands.getD i []).drop o).take count).length ≤ c.length - o := by
            rw [List.getD_eq_getElem?_getD, hc, Option.getD_some, List.length_take,
              List.length_drop]
            exact Nat.min_le_right _ _
          rw [Log.seekTo, int64_eq (by omega) (by omega)]
          exact h.update filp (by omega) (by omega)
  | write filp buf =>
      have hwrite : l.write env buf = some (r, l') := Except.ok.inj happ
      rw [Log.write] at hwrite
      split at hwrite
      · cases hwrite
      · cases hwrite
        exact h
  | llseek filp offset whence =>
      have hllseek : l.llseek env filp offset whence = some (r, l') := Except.ok.inj happ
      rw [Log.llseek] at hllseek
      split at hllseek
      · cases hllseek
      obtain ⟨newpos, htarget, hpos⟩ := Option.bind_eq_some_iff.mp hllseek
      split at hpos
      · cases hpos
      · rename_i hneg
        cases hpos
        refine h.update filp (not_lt.mp hneg) ?_
        rw [Log.llseekTarget] at htarget
        split_ifs at htarget <;> cases htarget
        · exact hfits.2
        · exact int64_lt _
        · exact int64_lt _
  | ioctl filp cmd arg =>
      have hioctl : l.ioctl env filp cmd arg = .ok (some (r, l')) := happ
      have huint32 : ∀ x : ℤ, 0 ≤ uint32 x ∧ uint32 x < 2 ^ 63 := by
        intro x
        unfold uint32
        omega
      rw [Log.ioctl] at hioctl
      simp only at hioctl
      split_ifs at hioctl
      all_goals first
        | cases hioctl; exact h
        | cases hioctl; exact h.update filp (huint32 _).1 (huint32 _).2
        | cases hioctl

/-- The run lemma for the positions. -/
theorem Reached.inRange_of_invokeAll (h : Reached w l) (hrange : InRange w.fPos)
    (hfits : ∀ i ∈ is, OffsetFits i) (hrun : invokeAll is w = .ok (rs, w')) : InRange w'.fPos := by
  induction is generalizing w l rs with
  | nil =>
      rw [invokeAll_nil, Except.ok.injEq, Prod.mk.injEq] at hrun
      exact hrun.2 ▸ hrange
  | cons i is ih =>
      obtain ⟨r, w₁, rs', hi, his, rfl⟩ := invokeAll_cons_ok hrun
      have hfits' : ∀ j ∈ is, OffsetFits j := fun j hj => hfits j (List.mem_cons_of_mem _ hj)
      rcases h.returns hi with ⟨-, h₁⟩ | ⟨-, l₁, happ, h₁⟩
      · refine ih h₁ ?_ hfits' his
        rw [h₁.shows.fPos, ← h.shows.fPos]
        exact hrange
      · refine ih h₁ ?_ hfits' his
        rw [h₁.shows.fPos]
        exact Log.apply_inRange (h.shows.fPos ▸ hrange) h.shows.length_contents_lt
          (hfits i List.mem_cons_self) happ

/-- **Every position that calls lead to is a non-negative `loff_t`.** -/
theorem inRange_of_invokeAll (hfits : ∀ i ∈ is, OffsetFits i)
    (hrun : invokeAll is aesdInitModule = .ok (rs, w)) : InRange w.fPos := by
  refine stands_init.reached.inRange_of_invokeAll (fun _ => ?_) hfits hrun
  exact ⟨le_rfl, (by decide : (0 : ℤ) < 2 ^ 63)⟩

end Runs

end Aesd.CharDriver

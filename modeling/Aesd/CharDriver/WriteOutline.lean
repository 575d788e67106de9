import Aesd.CharDriver.Outlines

/-! # The outline of a write

`aesd_write` fills a bounce buffer of its own before it takes the mutex. What the allocator hands
out is new to everybody, so the task may write to it while others hold the mutex; up to here the
call can only fail, and leaves the device alone if it does. With the mutex held the working entry
grows and, at a newline, moves into the ring: then the write has happened, since others may read
`out_offs` and the sizes of the ring without the mutex. Without a newline it happens when the mutex is
given back. A write that is refused a service has failed from there on. -/

namespace Aesd.CharDriver

open Memory Effects Streams

section Bounce

variable {t : ℕ} {c : sections.Op} {w : World} {g : Ghost} {kern : Ptr}
  {data : List UInt8} {a : Option (sections.Res c)} {α : Type} {Q : α → sharing.Assertion c}

/-- What a task does to its own bounce buffers does not disturb the others. -/
theorem waiter_step (g' : Ghost) (h' : Heap) (hI : Shared w g) (hlog : g'.log = g.log)
    (hcells : ∀ b, (w.heap.cells b).isSome → g.bounce b ≠ some t →
      h'.cells b = w.heap.cells b ∧ g'.bounce b = g.bounce b)
    (hlive : ∀ b, g'.bounce b ≠ none → (h'.cells b).isSome) :
    Shared { w with heap := h' } g' ∧ Yields t w g { w with heap := h' } g' := by
  have hspared : ∀ b, w.dev.lock = none → .block b ∈ w.dev.pointers →
      h'.cells b = w.heap.cells b ∧ g'.bounce b = g.bounce b := by
    intro b hfree hb
    have hnone := hI.spares hfree b hb
    exact hcells b ((hI.stands hfree).represents.toCarries.live hb) (by simp [hnone])
  refine ⟨⟨fun hfree => ?_, hlog ▸ hI.tells, fun hfree b hb => ?_, hlive⟩, ⟨fun _ _ => Iff.rfl,
    fun _ _ _ => ⟨rfl, rfl, hlog⟩, fun b hb hne _ => hcells b hb hne⟩⟩
  · have hstands := hI.stands hfree
    rw [hlog]
    exact ⟨⟨hstands.represents.toCarries.congr fun b hb => (hspared b hfree hb).1, hfree⟩,
      hstands.fPos⟩
  · exact (hspared b hfree hb).2.trans (hI.spares hfree b hb)

/-- **Allocating the bounce buffer.** -/
theorem outline_kmalloc {n : ℕ} {k : Ptr → Driver α} (r : sections.Res c)
    (hspec : ∀ l, Log.Answers c l r l) (herror : sectionError ⟨c, r⟩ = some (-enomem))
    (hnull : sharing.Outline t c (k .null) (Waits t .null [] (some r)) Q)
    (hk : ∀ kern data, kern ≠ .null → data.length = n → n ≤ allocationLimit →
      sharing.Outline t c (k kern) (Waits t kern data none) Q) :
    sharing.Outline t c (Prog.call (E := kernel) (.kmalloc n) k) (Waits t .null [] none) Q := by
  refine ⟨fun w g a _ _ ⟨env, _, s, hbad, _⟩ => (by cases hbad), fun kern => ?_⟩
  by_cases hkern : kern = Ptr.null
  · subst hkern
    refine ⟨_, stable_waits, ?_, hnull⟩
    rintro w g a w' hI h ⟨env, -, hok⟩ -
    obtain rfl := h.answer
    simp only [kernelStep, allocate] at hok
    split_ifs at hok <;> cases hok
    exact ⟨g, some r, .inr ⟨r, rfl, rfl, hspec g.log, herror.symm⟩, hI, Yields.refl t _ g, rfl, h.lock,
      h.bounce⟩
  refine ⟨fun w g a => ∃ d : {d : List UInt8 // d.length = n ∧ n ≤ allocationLimit},
    Waits t kern d none w g a, ?_, ?_,
    Protocol.Outline.fix (fun _ _ _ _ h => h) fun d => hk kern d hkern d.property.1 d.property.2⟩
  · rintro u hu w g w' g' a hI hI' hg ⟨d, h⟩
    exact ⟨d, stable_waits u hu w g w' g' a hI hI' hg h⟩
  rintro w g a w' hI h ⟨env, -, hok⟩ -
  obtain rfl := h.answer
  have hsilent : serviceError ⟨.kmalloc n, kern⟩ = none := if_neg hkern
  simp only [kernelStep, allocate] at hok
  split_ifs at hok with hfail hzero
  · cases hok
    exact absurd rfl hkern
  · cases hok
    exact ⟨g, none, .inl ⟨rfl, rfl, hsilent⟩, hI, Yields.refl t _ g,
      ⟨[], by simp [hzero], by omega⟩, rfl, h.lock, rfl⟩
  · cases hok
    -- the block is new, so nobody else has it
    have hfresh : w.heap.cells w.heap.next = none := w.heap.fresh _ le_rfl
    have hne : ∀ b, (w.heap.cells b).isSome → b ≠ w.heap.next := by
      rintro b hb rfl
      simp [hfresh] at hb
    obtain ⟨hI', hg⟩ := waiter_step (t := t) (g.assign w.heap.next (some t))
      (w.heap.alloc (grow env.junk [] n)) hI rfl
      (fun b hb _ => ⟨Heap.cells_alloc_of_ne _ (hne b hb), g.assign_of_ne _ (hne b hb)⟩)
      fun b hb => by
        by_cases heq : b = w.heap.next
        · simp [heq]
        · rw [g.assign_of_ne _ heq] at hb
          rw [Heap.cells_alloc_of_ne _ heq]
          exact hI.live b hb
    exact ⟨g.assign w.heap.next (some t), none, .inl ⟨rfl, rfl, hsilent⟩, hI', hg,
      ⟨grow env.junk [] n, length_grow, by omega⟩, rfl, h.lock, by simp, by simp⟩

/-- **Filling it.** -/
theorem outline_copyFromUser {buf : List UInt8} {k : ℕ → Driver α} (r : sections.Res c)
    (hspec : ∀ l, Log.Answers c l r l) (herror : sectionError ⟨c, r⟩ = some (-efault))
    (hnull : kern ≠ .null) (hlen : data.length = buf.length)
    (hk : sharing.Outline t c (k 0) (Waits t kern buf none) Q)
    (hfail : ∀ left data', left ≠ 0 → sharing.Outline t c (k left) (Waits t kern data' (some r)) Q) :
    sharing.Outline t c (Prog.call (E := kernel) (.copyFromUser kern buf) k)
      (Waits t kern data none) Q := by
  have hcopy : ∀ w g env, Waits t kern data (none : Option (sections.Res c)) w g none →
      kernelStep env (.copyFromUser kern buf) w = .ok (min env.notCopied buf.length,
        { w with heap := put kern (buf.take (buf.length - min env.notCopied buf.length) ++
          List.replicate (min env.notCopied buf.length) 0) w.heap }) := by
    intro w g env h
    have haccess : access kern buf.length w.heap = .ok data :=
      access_eq (h.bounce.read hnull) hlen.ge
    simp only [kernelStep, haccess, bind, Except.bind, List.drop_eq_nil_of_le hlen.le,
      List.append_nil]
  -- the bounce buffer holds what has been copied, and belongs to the task
  have hstep : ∀ (copied : List UInt8) w g, copied.length = buf.length → Shared w g →
      Waits t kern data (none : Option (sections.Res c)) w g none →
      Shared { w with heap := put kern copied w.heap } g ∧
        Yields t w g { w with heap := put kern copied w.heap } g ∧
        Bounce t kern copied { w with heap := put kern copied w.heap } g := by
    intro copied w g hcopied hI h
    have hbounce := h.bounce
    cases kern with
    | null => exact absurd rfl hnull
    | zeroSize =>
        rw [show data = [] from hbounce, List.length_nil] at hlen
        exact ⟨hI, Yields.refl t _ g, List.eq_nil_of_length_eq_zero (hcopied.trans hlen.symm)⟩
    | block b =>
        obtain ⟨hcell, hown⟩ := hbounce
        have hlive : (w.heap.cells b).isSome := by simp [hcell]
        obtain ⟨hI', hg⟩ := waiter_step (t := t) g (w.heap.write b copied) hI rfl
          (fun b' _ hne => ⟨Heap.cells_write_of_ne _ fun heq => hne (heq ▸ hown), rfl⟩)
          fun b' hb' => by
            by_cases heq : b' = b
            · rw [heq, Heap.cells_write_self _ hlive]
              rfl
            · rw [Heap.cells_write_of_ne _ heq]
              exact hI.live b' hb'
        exact ⟨hI', hg, Heap.cells_write_self _ hlive, hown⟩
  constructor
  · rintro w g a - h ⟨env, -, s, hbad, -⟩
    obtain rfl := h.answer
    rw [hcopy w g env h] at hbad
    cases hbad
  intro left
  by_cases hleft : left = (0 : ℕ)
  · subst hleft
    refine ⟨_, stable_waits, ?_, hk⟩
    rintro w g a w' hI h ⟨env, -, hok⟩ -
    obtain rfl := h.answer
    rw [hcopy w g env h] at hok
    obtain ⟨hnone, rfl⟩ := Prod.mk.inj (Except.ok.inj hok)
    rw [hnone, Nat.sub_zero, List.take_length, List.replicate_zero, List.append_nil]
    obtain ⟨hI', hg, hbounce⟩ := hstep buf w g rfl hI h
    exact ⟨g, none, .inl ⟨rfl, rfl, rfl⟩, hI', hg, rfl, h.lock, hbounce⟩
  · refine ⟨fun w g a => ∃ data', Waits t kern data' (some r) w g a, ?_, ?_,
      Protocol.Outline.fix (fun _ _ _ _ h => h) fun data' => hfail left data' hleft⟩
    · rintro u hu w g w' g' a hI hI' hg ⟨data', h⟩
      exact ⟨data', stable_waits u hu w g w' g' a hI hI' hg h⟩
    rintro w g a w' hI h ⟨env, -, hok⟩ -
    obtain rfl := h.answer
    rw [hcopy w g env h] at hok
    obtain ⟨hleft', rfl⟩ := Prod.mk.inj (Except.ok.inj hok)
    obtain ⟨hI', hg, hbounce⟩ := hstep (buf.take (buf.length - min env.notCopied buf.length) ++
      List.replicate (min env.notCopied buf.length) 0) w g (by simp) hI h
    exact ⟨g, some r, .inr ⟨r, rfl, rfl, hspec g.log, (if_neg hleft).trans herror.symm⟩, hI', hg, _,
      rfl, h.lock, hbounce⟩

/-- **Freeing it**, when the call fails. -/
theorem outline_kfree {k : Unit → Driver α}
    (hk : sharing.Outline t c (k ()) (Waits t .null [] a) Q) :
    sharing.Outline t c (Prog.call (E := kernel) (.kfree kern) k) (Waits t kern data a) Q := by
  have hfree : ∀ w g env, Waits t kern data a w g a → ∃ h', release kern w.heap = .ok h' ∧
      kernelStep env (.kfree kern) w = .ok ((), { w with heap := h' }) := by
    intro w g env h
    have hbounce := h.bounce
    cases kern with
    | null => exact ⟨w.heap, rfl, rfl⟩
    | zeroSize => exact ⟨w.heap, rfl, rfl⟩
    | block b =>
        have hrel := release_block (h := w.heap) (b := b) (by simp [hbounce.1])
        exact ⟨_, hrel, by simp only [kernelStep, hrel, bind, Except.bind]⟩
  constructor
  · rintro w g c - h ⟨env, -, s, hbad, -⟩
    obtain rfl := h.answer
    obtain ⟨h', -, hok⟩ := hfree w g env h
    rw [hok] at hbad
    cases hbad
  refine fun _ => ⟨_, stable_waits, ?_, hk⟩
  rintro w g c w' hI h ⟨env, -, hok⟩ -
  obtain rfl := h.answer
  obtain ⟨h', hrel, hok'⟩ := hfree w g env h
  rw [hok'] at hok
  cases hok
  have hbounce := h.bounce
  cases kern with
  | null =>
      cases hrel
      exact ⟨g, _, .inl ⟨rfl, rfl, rfl⟩, hI, Yields.refl t _ g, rfl, h.lock, trivial⟩
  | zeroSize =>
      cases hrel
      exact ⟨g, _, .inl ⟨rfl, rfl, rfl⟩, hI, Yields.refl t _ g, rfl, h.lock, trivial⟩
  | block b =>
      obtain ⟨hcell, hown⟩ := hbounce
      rw [release_block (by simp [hcell]), Except.ok.injEq] at hrel
      subst hrel
      have hne : ∀ b', g.bounce b' ≠ some t → b' ≠ b := fun b' hb' heq => hb' (heq ▸ hown)
      obtain ⟨hI', hg⟩ := waiter_step (t := t) (g.assign b none) (w.heap.free b) hI rfl
        (fun b' _ hb' => ⟨Heap.cells_free_of_ne _ (hne b' hb'), g.assign_of_ne _ (hne b' hb')⟩)
        fun b' hb' => by
          by_cases heq : b' = b
          · rw [heq, g.assign_self] at hb'
            exact absurd rfl hb'
          · rw [g.assign_of_ne _ heq] at hb'
            rw [Heap.cells_free_of_ne _ heq]
            exact hI.live b' hb'
      exact ⟨g.assign b none, _, .inl ⟨rfl, rfl, rfl⟩, hI', hg, rfl, h.lock, trivial⟩

end Bounce

section Append

variable {t : ℕ} {c : sections.Op} {w : World} {g : Ghost} {kern tmp : Ptr} {data : List UInt8}
  {a : Option (sections.Res c)} {l : Log} {d : AesdDev} {α : Type} {Q : α → sharing.Assertion c}

/-- The stage after `krealloc`: the working entry is going to have the block `tmp`, which holds
`bytes`. -/
def Stage.grown (l : Log) (d : AesdDev) (kern : Ptr) (data : List UInt8) (tmp : Ptr)
    (bytes : List UInt8) : Stage :=
  { Stage.start l d kern data with
    kept := { d with workingEntry := ⟨tmp, bytes.length⟩ }
    rest := bytes }

/-- Giving the working entry of the kept device other contents. -/
theorem Grasp.setWorking {st : Stage} {h' : Heap} {bytes : List UInt8}
    (h : Grasp t st a w g a) (hI : Shared w g)
    (hhold : Holds h' ⟨tmp, bytes.length⟩ bytes)
    (hkeep : w.heap.Keeps h' st.kept.workingEntry.buffptr)
    (hfresh : ∀ b, tmp = .block b → (w.heap.cells b).isSome → tmp = st.kept.workingEntry.buffptr) :
    (∀ b, g.bounce b ≠ none → h'.cells b = w.heap.cells b) ∧
      Grasp t { st with kept := { st.kept with workingEntry := ⟨tmp, bytes.length⟩ }, rest := bytes }
        a { w with heap := h' } g a := by
  have hcells : ∀ b, g.bounce b ≠ none → h'.cells b = w.heap.cells b := by
    intro b hb
    refine hkeep b (hI.live b hb) fun heq => hb (h.spares b ?_)
    rw [heq]
    exact List.mem_cons_self
  refine ⟨hcells, rfl, h.lock, h.dev, h.log, h.fPos, ?_, fun b hb => ?_,
    h.bounce.congr hcells⟩
  · exact h.carries.setWorking (w := { w with dev := st.kept }) hhold hkeep hfresh
  · rcases List.mem_cons.mp hb with hb | hb
    · by_contra hown
      have hlive := hI.live b hown
      have hold := hfresh b hb.symm hlive
      exact hown (h.spares b (List.mem_cons.mpr (.inl (hb.trans hold))))
    · exact h.spares b (List.mem_cons_of_mem _ hb)

/-- **Growing the working entry**, or being refused it. -/
theorem outline_krealloc {n : ℕ} {k : Ptr → Driver α} {p : Ptr} {size : ℕ} (r : sections.Res c)
    (hspec : Log.Answers c l r l) (herror : sectionError ⟨c, r⟩ = some (-enomem))
    (hp : p = d.workingEntry.buffptr) (hsize : size = l.pending.length + n)
    (hrefused : d.workingEntry.size = 0 →
      sharing.Outline t c (k .null) (Grasp t (.start l d kern data) (some r)) Q)
    (hk : ∀ tmp bytes, tmp ≠ .null → bytes.length = size → bytes.take l.pending.length = l.pending →
      size ≤ allocationLimit →
      sharing.Outline t c (k tmp) (Grasp t (.grown l d kern data tmp bytes) none) Q) :
    sharing.Outline t c (Prog.call (E := kernel) (.krealloc p size) k)
      (Grasp t (.start l d kern data) none) Q := by
  subst hp
  have hcases : ∀ w g env, Shared w g →
      Grasp t (.start l d kern data) (none : Option (sections.Res c)) w g none →
      reallocate env d.workingEntry.buffptr size w.heap = .ok (.null, w.heap) ∨
        ∃ tmp h' new, reallocate env d.workingEntry.buffptr size w.heap = .ok (tmp, h') ∧
          tmp ≠ .null ∧ new.length = size ∧ new.take l.pending.length = l.pending ∧
          size ≤ allocationLimit ∧
          (∀ b, g.bounce b ≠ none → h'.cells b = w.heap.cells b) ∧
          Grasp t (.grown l d kern data tmp new) (none : Option (sections.Res c))
            { w with heap := h' } g none := by
    intro w g env hI h
    have hwork : Holds w.heap d.workingEntry l.pending := h.carries.working
    by_cases hfail : env.kreallocOk = false ∨ allocationLimit < size
    · exact .inl (reallocate_fail hwork.backs hfail)
    · obtain ⟨tmp, h', new, hre, hnull, hread, hlen, htake, hkeep, -, htmp⟩ :=
        reallocate_ok hwork.backs (n := size) (show env.kreallocOk = true by simp_all) (by omega) (by omega)
      have hfresh : ∀ b, tmp = .block b → (w.heap.cells b).isSome → tmp = d.workingEntry.buffptr := by
        rintro b rfl hb
        rcases htmp with ⟨-, h⟩ | ⟨-, h | h⟩
        · cases h
        · exact h
        · cases h
          simp [w.heap.fresh _ le_rfl] at hb
      have hhold : Holds h' ⟨tmp, new.length⟩ new := by
        refine ⟨rfl, by omega, ?_⟩
        cases tmp with
        | null => exact absurd rfl hnull
        | zeroSize => exact (Option.some.inj hread).symm
        | block b =>
            refine ⟨hread, List.ne_nil_of_length_pos ?_⟩
            rcases htmp with ⟨-, h⟩ | ⟨hpos, -⟩
            · cases h
            · omega
      exact .inr ⟨tmp, h', new, hre, hnull, hlen, htake, by omega,
        h.setWorking hI hhold hkeep hfresh⟩
  refine outline_hold (fun tmp st' a' => tmp = .null ∧ d.workingEntry.size = 0 ∧
      st' = Stage.start l d kern data ∧ a' = some r ∨ ∃ bytes, tmp ≠ .null ∧ bytes.length = size ∧
        bytes.take l.pending.length = l.pending ∧ size ≤ allocationLimit ∧
        st' = Stage.grown l d kern data tmp bytes ∧ a' = none) ?_ ?_ ?_
  · intro w g env s henv hI h hbad
    rcases hcases w g env hI h with hre | ⟨tmp, h', new, hre, -⟩
    · simp only [kernelStep, hre, bind, Except.bind] at hbad
      cases hbad
    · simp only [kernelStep, hre, bind, Except.bind] at hbad
      cases hbad
  · rintro w g env q w' henv hI h hok hperm
    have hdev : w.dev = d := h.dev
    rcases hcases w g env hI h with hre | ⟨tmp, h', new, hre, hnull, hlen, htake, hle, hcells, h'⟩
    · simp only [kernelStep, hre, bind, Except.bind] at hok
      cases hok
      exact ⟨fun _ _ => rfl, rfl, _, some r, .inl ⟨rfl, hdev ▸ hperm rfl, rfl, rfl⟩,
        .inr ⟨r, rfl, rfl, hspec, herror.symm⟩, rfl, h.lock, h.dev, h.log, h.fPos, h.carries, h.spares,
        h.bounce⟩
    · simp only [kernelStep, hre, bind, Except.bind] at hok
      cases hok
      exact ⟨hcells, rfl, _, none, .inr ⟨new, hnull, hlen, htake, hle, rfl, rfl⟩,
        .inl ⟨rfl, if_neg hnull⟩, h'⟩
  · rintro tmp st' a' (⟨rfl, hzero, rfl, rfl⟩ | ⟨bytes, hnull, hlen, htake, hle, rfl, rfl⟩)
    · exact hrefused hzero
    · exact hk tmp bytes hnull hlen htake hle

/-- **Copying the new data behind the old.** -/
theorem outline_memcpy {st : Stage} {n offset : ℕ} {k : Unit → Driver α} (hnull : tmp ≠ .null)
    (hst : st.kern = kern) (hkern : kern ≠ .null) (hn : n ≤ st.data.length)
    (htmp : st.kept.workingEntry = ⟨tmp, offset + n⟩) (hlen : st.rest.length = offset + n)
    (hk : sharing.Outline t c (k ())
      (Grasp t { st with rest := st.rest.take offset ++ st.data.take n } a) Q) :
    sharing.Outline t c (Prog.call (E := kernel) (.memcpy tmp offset kern n) k) (Grasp t st a) Q := by
  subst hst
  set bytes := st.rest.take offset ++ st.data.take n with hbytes
  have hlen' : bytes.length = offset + n := by
    rw [hbytes, List.length_append, List.length_take, List.length_take]
    omega
  have hsame : ({ st.kept with workingEntry := ⟨tmp, bytes.length⟩ } : AesdDev) = st.kept := by
    rw [hlen', ← htmp]
  have hstep : ∀ w g env, Shared w g → Grasp t st a w g a →
      kernelStep env (.memcpy tmp offset st.kern n) w = .ok ((), { w with heap := put tmp bytes w.heap })
        ∧ (∀ b, g.bounce b ≠ none → (put tmp bytes w.heap).cells b = w.heap.cells b) ∧
        Grasp t { st with rest := bytes } a { w with heap := put tmp bytes w.heap } g a := by
    intro w g env hI h
    have hwork : Holds w.heap ⟨tmp, offset + n⟩ st.rest := htmp ▸ h.carries.working
    have haccess : access tmp (offset + n) w.heap = .ok st.rest :=
      access_eq (hwork.backs.read hnull) hlen.ge
    have haccess' : access st.kern n w.heap = .ok st.data := access_eq (h.bounce.read hkern) hn
    have hhold : Holds (put tmp bytes w.heap) ⟨tmp, bytes.length⟩ bytes := by
      refine ⟨rfl, hlen' ▸ hlen ▸ hwork.bounded, ?_⟩
      have hbacks : w.heap.Backs tmp st.rest := hwork.backs
      cases tmp with
      | null => exact absurd rfl hnull
      | zeroSize =>
          rw [show st.rest = [] from hbacks, List.length_nil] at hlen
          exact List.eq_nil_of_length_eq_zero (hlen'.trans hlen.symm)
      | block b =>
          refine ⟨Heap.cells_write_self _ (by simp [hbacks.1]), List.ne_nil_of_length_pos ?_⟩
          rw [hlen', ← hlen]
          exact List.length_pos_iff.mpr hbacks.2
    have hkeep : w.heap.Keeps (put tmp bytes w.heap) st.kept.workingEntry.buffptr := by
      rw [htmp]
      cases tmp with
      | null => exact absurd rfl hnull
      | zeroSize => exact Heap.keeps_refl _ _
      | block b => exact Heap.keeps_write _ b _
    obtain ⟨hcells, hgrasp⟩ := h.setWorking hI hhold hkeep fun _ _ _ => by rw [htmp]
    rw [hsame] at hgrasp
    refine ⟨?_, hcells, hgrasp⟩
    simp only [kernelStep, haccess, haccess', bind, Except.bind, List.drop_eq_nil_of_le hlen.le,
      List.append_nil, hbytes]
  refine outline_hold (fun _ st' a' => st' = { st with rest := bytes } ∧ a' = a) ?_ ?_ ?_
  · intro w g env s henv hI h hbad
    rw [(hstep w g env hI h).1] at hbad
    cases hbad
  · rintro w g env r w' henv hI h hok -
    obtain ⟨hok', hcells, hgrasp⟩ := hstep w g env hI h
    rw [hok'] at hok
    cases hok
    exact ⟨hcells, rfl, _, a, ⟨rfl, rfl⟩, .inl ⟨rfl, rfl⟩, hgrasp⟩
  · rintro r st' a' ⟨rfl, rfl⟩
    exact hk

/-- What a commit frees is the block of the command that drops out, and nothing else the device
leads to. -/
theorem Carries.commit_release {n : ℕ} {cmds : List (List UInt8)} {r : List UInt8}
    (hc : Carries w n cmds r) (hr : r ≠ []) {dev : AesdDev}
    (hdev : dev = { w.dev with
      circBuf := (aesdCircularBufferAddEntry w.dev.circBuf w.dev.workingEntry).2
      workingEntry := ⟨.null, 0⟩ }) :
    ∃ h', release (aesdCircularBufferAddEntry w.dev.circBuf w.dev.workingEntry).1 w.heap = .ok h' ∧
      Carries { w with heap := h', dev } (n + 1) ((cmds ++ [r]).rtake 10) [] ∧
      (∀ b, (w.heap.cells b).isSome → .block b ∉ w.dev.pointers → h'.cells b = w.heap.cells b) ∧
      ∀ b, .block b ∈ dev.pointers → .block b ∈ w.dev.pointers := by
  obtain ⟨h', circBuf, hkeep, howner, hc', hexec⟩ := hc.commit (.calm 0) hr
  cases hrel : release (aesdCircularBufferAddEntry w.dev.circBuf w.dev.workingEntry).1 w.heap with
  | error e =>
      have hnull : (aesdCircularBufferAddEntry w.dev.circBuf w.dev.workingEntry).1 ≠ .null := by
        intro h
        rw [h] at hrel
        cases hrel
      have hbad : kernelStep (.calm 0)
          (.kfree (aesdCircularBufferAddEntry w.dev.circBuf w.dev.workingEntry).1)
          { w with dev := { w.dev with
            circBuf := (aesdCircularBufferAddEntry w.dev.circBuf w.dev.workingEntry).2 } } =
            .error e := by
        simp only [kernelStep, hrel, bind, Except.bind]
      simp only [aesdWrite.commit, loadDev, modifyDev, kfree, Prog.bind_eq, Prog.call_bind,
        Prog.pure_bind, execute_loadDev, execute_modifyDev, hnull, ne_eq, not_false_eq_true,
        if_true] at hexec
      rw [execute, run_call_error (E := kernel) _ hbad] at hexec
      cases hexec
  | ok h₁ =>
      rw [execute_commit hrel] at hexec
      simp only [Except.ok.injEq, Prod.mk.injEq, World.mk.injEq, AesdDev.mk.injEq, true_and,
        and_true] at hexec
      obtain ⟨rfl, rfl⟩ := hexec
      subst hdev
      refine ⟨h₁, rfl, hc', fun b hb hnot => hkeep b hb fun hmem => hnot ?_, fun b hb => ?_⟩
      · exact List.mem_cons_of_mem _ hmem
      · rcases List.mem_cons.mp hb with hb | hb
        · cases hb
        · rcases howner _ hb with h | h
          · exact List.mem_cons.mpr (.inl h)
          · exact List.mem_cons_of_mem _ h

/-- The stage after a commit of the working entry into the ring, which makes `l'` of the log. -/
def Stage.committed (st : Stage) (l' : Log) : Stage :=
  let dev := { st.dev with
    circBuf := (aesdCircularBufferAddEntry st.dev.circBuf st.dev.workingEntry).2
    workingEntry := ⟨.null, 0⟩ }
  { st with
    log := l', dev, kept := dev, count := st.count + 1, cmds := (st.cmds ++ [st.rest]).rtake 10, rest := [] }

/-- The stage at which the ring has the new entry, and the overwritten block is still there. -/
def Stage.pushed (st : Stage) (l' : Log) : Stage :=
  { st with
    log := l'
    dev := { st.dev with
      circBuf := (aesdCircularBufferAddEntry st.dev.circBuf st.dev.workingEntry).2 } }

/-- A ring that carries the commands of a log tells about it. -/
theorem Carries.tells {n : ℕ} {cmds : List (List UInt8)} {r : List UInt8} (hc : Carries w n cmds r)
    (hcount : n = (lines isNewline l.stream).length) (hcmds : cmds = l.commands)
    (hrest : r = l.pending) : Tells w.dev l := by
  subst hcount hcmds hrest
  have hstands : Stands { w with dev := { w.dev with lock := none }, fPos := l.fPos } l :=
    ⟨⟨⟨hc.ring, hc.commands, hc.nonempty, hc.working, hc.apart⟩, rfl⟩, rfl⟩
  exact hstands.tells.congr rfl

/-- **The new entry is in the ring**: the write has happened. -/
theorem outline_push {st : Stage} {l' : Log} {r : sections.Res c} {f : AesdDev → AesdDev}
    {k : Unit → Driver α} (hf : f st.dev = (st.pushed l').dev) (hkept : st.kept = st.dev)
    (hrest : st.rest ≠ []) (hcount : st.count + 1 = (lines isNewline l'.stream).length)
    (hcmds : (st.cmds ++ [st.rest]).rtake 10 = l'.commands) (hpending : [] = l'.pending)
    (hspec : Log.Answers c st.log r l') (herror : sectionError ⟨c, r⟩ = none)
    (hk : sharing.Outline t c (k ()) (Grasp t (st.pushed l') (some r)) Q) :
    sharing.Outline t c (Prog.call (E := kernel) (.modifyDev f) k) (Grasp t st none) Q := by
  refine ⟨?_, fun _ => ⟨_, stable_grasp, ?_, hk⟩⟩
  · rintro w g c - - ⟨env, -, s, hbad, -⟩
    cases hbad
  rintro w g c w' hI h ⟨env, -, hok⟩ -
  cases hok
  obtain rfl := h.answer
  have hdev : f w.dev = (st.pushed l').dev := (congrArg f h.dev).trans hf
  have hlock : w.dev.lock = some t := h.dev ▸ h.lock
  have hlock' : (f w.dev).lock = some t := hdev ▸ h.lock
  -- the ring tells about the log as it is when the commit is done
  have hcarries := h.carries
  rw [hkept] at hcarries
  obtain ⟨h', -, hc', -⟩ := hcarries.commit_release hrest rfl
  have htells : Tells (f w.dev) l' := by
    rw [hdev]
    exact (hc'.tells hcount hcmds hpending).congr rfl
  refine ⟨⟨l', g.bounce⟩, some r, .inr ⟨r, rfl, rfl, ?_, herror.symm⟩,
    ⟨by simp [hlock'], htells, by simp [hlock'], hI.live⟩,
    ⟨fun u _ => by simp [hlock, hlock'], fun u hu hu' => ?_, fun b _ _ _ => ⟨rfl, rfl⟩⟩,
    rfl, h.lock, hdev, rfl, h.fPos, h.carries, h.spares, h.bounce⟩
  · show Log.Answers c g.log r l'
    rw [h.log]
    exact hspec
  · exact absurd (Option.some.inj (hu'.symm.trans hlock)) hu

/-- **Moving the working entry into the ring.** -/
theorem outline_commit {st : Stage} (l' : Log) {r : sections.Res c} {k : Unit → Driver α}
    (hkept : st.kept = st.dev) (hrest : st.rest ≠ [])
    (hcount : st.count + 1 = (lines isNewline l'.stream).length)
    (hcmds : (st.cmds ++ [st.rest]).rtake 10 = l'.commands) (hpending : [] = l'.pending)
    (hspec : Log.Answers c st.log r l') (herror : sectionError ⟨c, r⟩ = none)
    (hk : sharing.Outline t c (k ()) (Grasp t (st.committed l') (some r)) Q) :
    sharing.Outline t c (aesdWrite.commit.bind k) (Grasp t st none) Q := by
  set overwritten := (aesdCircularBufferAddEntry st.dev.circBuf st.dev.workingEntry).1 with hover
  have hrelease : ∀ w g, Shared w g → Grasp t (st.pushed l') (some r) w g (some r) → ∃ h',
      release overwritten w.heap = .ok h' ∧
        (∀ b, g.bounce b ≠ none → h'.cells b = w.heap.cells b) ∧
        Grasp t { st.committed l' with dev := (st.pushed l').dev } (some r) { w with heap := h' } g
          (some r) := by
    intro w g hI h
    have hcarries := h.carries
    rw [show (st.pushed l').kept = st.dev from hkept] at hcarries
    have hspares := h.spares
    rw [show (st.pushed l').kept = st.dev from hkept] at hspares
    obtain ⟨h', hrel, hc', hcells, hptrs⟩ := hcarries.commit_release hrest rfl
    have hbounce : ∀ b, g.bounce b ≠ none → h'.cells b = w.heap.cells b := fun b hb =>
      hcells b (hI.live b hb) fun hmem => hb (hspares b hmem)
    exact ⟨h', hrel, hbounce, rfl, h.lock, h.dev, h.log, h.fPos, hc',
      fun b hb => hspares b (hptrs b hb), h.bounce.congr hbounce⟩
  have hlast : sharing.Outline t c (Prog.call (E := kernel)
      (.modifyDev fun dev => { dev with workingEntry := ⟨.null, 0⟩ }) k)
      (Grasp t { st.committed l' with dev := (st.pushed l').dev } (some r)) Q :=
    outline_modifyDev rfl rfl rfl hk
  simp only [aesdWrite.commit, loadDev, modifyDev, kfree, Prog.bind_eq, Prog.call_bind,
    Prog.pure_bind]
  refine outline_loadDev (d := st.dev) rfl
    (outline_push rfl hkept hrest hcount hcmds hpending hspec herror ?_)
  by_cases hnull : overwritten = .null
  · rw [if_neg (not_not.mpr hnull)]
    simp only [Prog.call_bind, Prog.pure_bind]
    refine hlast.weaken fun w g a hI h => ?_
    obtain rfl := h.answer
    obtain ⟨h', hrel, -, hgrasp⟩ := hrelease w g hI h
    rw [hnull, release, Except.ok.injEq] at hrel
    subst hrel
    exact hgrasp
  · rw [if_pos hnull]
    simp only [Prog.call_bind, Prog.pure_bind]
    refine outline_hold (fun _ st' a' =>
      st' = { st.committed l' with dev := (st.pushed l').dev } ∧ a' = some r) ?_ ?_ ?_
    · intro w g env s henv hI h hbad
      obtain ⟨h', hrel, -⟩ := hrelease w g hI h
      simp only [kernelStep, ← hover, hrel, bind, Except.bind] at hbad
      cases hbad
    · rintro w g env u w' henv hI h hok -
      obtain ⟨h', hrel, hcells, hgrasp⟩ := hrelease w g hI h
      simp only [kernelStep, ← hover, hrel, bind, Except.bind] at hok
      cases hok
      exact ⟨hcells, rfl, _, _, ⟨rfl, rfl⟩, .inl ⟨rfl, rfl⟩, hgrasp⟩
    · rintro u st' a' ⟨rfl, rfl⟩
      exact hlast

end Append

section Write

variable {t : ℕ} {filp : File} {kern : Ptr} {data buf : List UInt8} {l : Log} {d : AesdDev}

/-- A write as a section. -/
abbrev writeSection (filp : File) (buf : List UInt8) : sections.Op :=
  .call ⟨.write filp buf, Call.locksFirst_write filp buf⟩

/-- A write that goes through. -/
theorem Log.answers_write (hbuf : buf.length ≤ allocationLimit)
    (hfit : l.pending.length + (firstLine isNewline buf).length ≤ allocationLimit) :
    Log.Answers (writeSection filp buf) l (.ofRetval (firstLine isNewline buf).length)
      { l with stream := l.stream ++ firstLine isNewline buf } := by
  refine .inl (congrArg Except.ok (if_neg ?_))
  rintro ((h | h | h | h) | h | h)
  · cases h
  · omega
  · exact h (Nat.zero_min _)
  · cases h
  · cases h
  · omega

/-- Without the mutex `out` unlocks one that nobody holds. -/
theorem outline_out {retval : ℤ} :
    sharing.Outline t (writeSection filp buf) (aesdWrite.out retval)
      (Waits t kern data (some (.ofRetval retval))) fun r => Committed t (Reply.ofRetval r) := by
  simp only [aesdWrite.out, mutexUnlock, Prog.bind_eq, Prog.call_bind, Prog.pure_bind, Prog.pure_eq]
  exact outline_stray fun _ _ _ _ h => h.committed

/-- With the mutex held `out` gives it back. -/
theorem outline_out_held {st : Stage} {retval : ℤ} (hkept : st.kept = st.dev)
    (hcount : st.count = (lines isNewline st.log.stream).length) (hcmds : st.cmds = st.log.commands)
    (hrest : st.rest = st.log.pending) (hfPos : st.fPos = st.log.fPos) :
    sharing.Outline t (writeSection filp buf) (aesdWrite.out retval)
      (Grasp t st (some (.ofRetval retval))) fun r => Committed t (Reply.ofRetval r) := by
  simp only [aesdWrite.out, mutexUnlock, Prog.bind_eq, Prog.call_bind, Prog.pure_bind, Prog.pure_eq]
  exact outline_release hkept hcount hcmds hrest hfPos fun _ _ _ _ h => h

/-- A refused `krealloc`: nothing is freed, as the working entry holds no bytes. -/
theorem outline_refused (hzero : l.pending = []) :
    sharing.Outline t (writeSection filp buf) (Prog.call (E := kernel)
      (.kfree d.workingEntry.buffptr) fun _ => aesdWrite.out (-enomem))
      (Grasp t (.start l d kern data) (some (.ofRetval (-enomem)))) fun r =>
        Committed t (Reply.ofRetval r) := by
  have hfree : ∀ w g env a c, Grasp (ρ := Reply) t (.start l d kern data) a w g c →
      kernelStep env (.kfree d.workingEntry.buffptr) w = .ok ((), w) := by
    intro w g env a c h
    have hwork : Holds w.heap d.workingEntry l.pending := h.carries.working
    have hbacks := hwork.backs
    rw [hzero] at hbacks
    cases hp : d.workingEntry.buffptr with
    | null => rfl
    | zeroSize => rfl
    | block b =>
        rw [hp] at hbacks
        exact absurd rfl hbacks.2
  refine outline_hold (fun _ st' a' => st' = Stage.start l d kern data ∧
    a' = some (.ofRetval (-enomem))) ?_ ?_ ?_
  · intro w g env s _ _ h hbad
    rw [hfree w g env _ _ h] at hbad
    cases hbad
  · rintro w g env r w' _ _ h hok -
    rw [hfree w g env _ _ h] at hok
    cases hok
    exact ⟨fun _ _ => rfl, rfl, _, _, ⟨rfl, rfl⟩, .inl ⟨rfl, rfl⟩, h⟩
  · rintro r st' a' ⟨rfl, rfl⟩
    exact outline_out_held rfl rfl rfl rfl rfl

/-- The stage at which the working entry has been extended by the line. -/
def Stage.appended (l : Log) (d : AesdDev) (kern : Ptr) (data : List UInt8) (tmp : Ptr)
    (line : List UInt8) : Stage :=
  let dev := { d with workingEntry := ⟨tmp, (l.pending ++ line).length⟩ }
  { Stage.start l d kern data with dev, kept := dev, rest := l.pending ++ line }

/-- What is left to do then: a commit, if the line is complete. -/
theorem outline_appended (kern tmp : Ptr) (hbuf : buf.length ≤ allocationLimit)
    (hfit : l.pending.length + (firstLine isNewline buf).length ≤ allocationLimit) :
    sharing.Outline t (writeSection filp buf)
      (if (buf.findIdx? isNewline).isSome then
        aesdWrite.commit.bind fun _ => aesdWrite.out (firstLine isNewline buf).length
      else aesdWrite.out (firstLine isNewline buf).length)
      (Grasp t (.appended l d kern buf tmp (firstLine isNewline buf)) none) fun r =>
        Committed t (Reply.ofRetval r) := by
  have hspec := @Log.answers_write filp buf l hbuf hfit
  have herror : sectionError ⟨writeSection filp buf, .ofRetval (firstLine isNewline buf).length⟩ =
      none := sectionError_of_nonneg (Int.natCast_nonneg _)
  cases hpos : buf.findIdx? isNewline with
  | none =>
      -- no newline: the working entry has grown, and the write happens when the mutex is given back
      have hforall := forall_of_findIdx?_none hpos
      rw [← firstLine_of_findIdx?_none hpos] at hforall
      have hlines := lines_append_of_forall (s := l.stream) hforall
      simp only [Option.isSome_none, Bool.false_eq_true, if_false, aesdWrite.out, mutexUnlock,
        Prog.bind_eq, Prog.call_bind, Prog.pure_bind, Prog.pure_eq]
      refine outline_unlock { l with stream := l.stream ++ firstLine isNewline buf }
        rfl ?_ ?_ ?_ rfl hspec herror fun _ _ _ _ h => h
      · exact congrArg List.length hlines.symm
      · exact congrArg (fun ls => List.rtake ls 10) hlines.symm
      · exact (rest_append_of_forall (s := l.stream) hforall).symm
  | some pos =>
      -- a newline: the working entry becomes a command
      have hline : IsLine isNewline (firstLine isNewline buf) :=
        firstLine_of_findIdx?_some hpos ▸ isLine_take_of_findIdx?_some hpos
      have hlines := lines_append_line (s := l.stream) hline
      have hcount : (lines isNewline l.stream).length + 1 =
          (lines isNewline (l.stream ++ firstLine isNewline buf)).length := by
        rw [hlines, List.length_append, List.length_singleton]
      have hcmds : (l.commands ++ [l.pending ++ firstLine isNewline buf]).rtake 10 =
          Log.commands { l with stream := l.stream ++ firstLine isNewline buf } := by
        rw [Log.commands, Log.commands, hlines, rtake_rtake_append]
        rfl
      have hpending := (rest_append_line (s := l.stream) hline).symm
      refine outline_commit { l with stream := l.stream ++ firstLine isNewline buf } rfl ?_
        hcount hcmds hpending hspec herror (outline_out_held rfl hcount hcmds hpending rfl)
      exact List.append_ne_nil_of_right_ne_nil _ (List.ne_nil_of_length_pos hline.length_pos)

/-- **What runs with the mutex held.** -/
theorem outline_append (hkern : kern ≠ .null) (hbuf : buf.length ≤ allocationLimit) :
    sharing.Outline t (writeSection filp buf)
      (aesdWrite.append kern (buf.findIdx? isNewline) (firstLine isNewline buf).length)
      (Grasp t (.start l d kern buf) none) fun r => Committed t (Reply.ofRetval r) := by
  set line := firstLine isNewline buf with hline
  have hlim : allocationLimit < 2 ^ 63 := by decide
  have hle : line.length ≤ buf.length := (firstLine_isPrefix buf).length_le
  have htakeLine : buf.take line.length = line := take_firstLine buf
  refine Protocol.Outline.knowing (φ := d.workingEntry.size = l.pending.length ∧
    l.pending.length ≤ allocationLimit)
    (fun w g a _ h => ⟨h.carries.working.size, h.carries.working.bounded⟩) ?_
  rintro ⟨hsize, hbound⟩
  simp only [aesdWrite.append, loadDev, krealloc, modifyDev, memcpy, kfree, Prog.bind_eq,
    Prog.call_bind, Prog.pure_bind]
  refine outline_loadDev (d := d) rfl ?_
  rw [hsize, sizeAdd_eq (by omega)]
  refine outline_krealloc (.ofRetval (-enomem)) (Log.answers_refused (by decide) l) rfl rfl rfl
    (fun hzero => ?_) fun tmp bytes hnull hlen htake hfit => ?_
  · rw [if_pos rfl]
    refine outline_loadDev (d := d) rfl (outline_refused ?_)
    exact List.eq_nil_of_length_eq_zero (hsize.symm.trans hzero)
  rw [if_neg hnull]
  -- the kept device is ahead of the device until the new size has been stored
  refine outline_modifyDev (d := { d with workingEntry := ⟨tmp, l.pending.length⟩ }) (by rw [← hsize]; rfl)
    rfl rfl (outline_loadDev (d := { d with workingEntry := ⟨tmp, l.pending.length⟩ }) rfl ?_)
  refine outline_memcpy (n := line.length) hnull rfl hkern ?_ ?_ ?_ ?_
  · exact hle
  · exact congrArg (AesdBufferEntry.mk tmp) hlen
  · exact hlen
  refine outline_modifyDev (d := { d with workingEntry := ⟨tmp, bytes.length⟩ }) ?_ rfl rfl ?_
  · simp only [sizeAdd_eq (show l.pending.length + line.length < 2 ^ 64 by omega), hlen]
  refine (outline_appended (d := d) kern tmp hbuf hfit).weaken fun w g a _ h => ?_
  have hrest : bytes.take l.pending.length ++ buf.take line.length = l.pending ++ line := by
    rw [htake, htakeLine]
  have hlen' : bytes.length = (l.pending ++ line).length := by rw [hlen, List.length_append]
  simpa only [Stage.appended, Stage.grown, Stage.start, hrest, hlen'] using h

/-- **`aesd_write`.** -/
theorem outline_aesdWrite : sharing.Outline t (writeSection filp buf) (aesdWrite buf)
    (Waits t .null [] none) fun r => Committed t (Reply.ofRetval r) := by
  simp only [aesdWrite, kmalloc, copyFromUser, memchr, mutexLockInterruptible, kfree, Prog.bind_eq,
    Prog.call_bind, Prog.pure_bind]
  refine outline_kmalloc (.ofRetval (-enomem)) (Log.answers_refused (by decide)) rfl ?_
    fun kern junk hnull hlen hle => ?_
  · rw [if_pos rfl]
    exact outline_out
  rw [if_neg hnull]
  refine outline_copyFromUser (.ofRetval (-efault)) (Log.answers_refused (by decide)) rfl hnull hlen ?_
    fun left data' hleft => ?_
  swap
  · rw [if_pos hleft]
    exact outline_kfree outline_out
  rw [if_neg (not_not.mpr rfl)]
  have hmemchr : ∀ w g env, Waits t kern buf (none : Option Reply) w g none →
      kernelStep env (.memchr kern newline buf.length) w = .ok (buf.findIdx? isNewline, w) := by
    intro w g env h
    simp only [kernelStep, access_eq (h.bounce.read hnull) le_rfl, bind, Except.bind,
      List.take_length]
    rfl
  refine outline_peek (fun pos a' => pos = buf.findIdx? isNewline ∧ a' = none) ?_ ?_ ?_
  · intro w g env s h hbad
    rw [hmemchr w g env h] at hbad
    cases hbad
  · intro w g env pos w' _ h hok
    rw [hmemchr w g env h] at hok
    cases hok
    exact ⟨rfl, none, ⟨rfl, rfl⟩, .inl ⟨rfl, rfl⟩⟩
  rintro _ _ ⟨rfl, rfl⟩
  refine outline_lock (.ofRetval (-erestartsys)) (Log.answers_refused (by decide)) rfl
    (fun l d hd => ?_) fun err herr => ?_
  · have happend := @outline_append t filp kern buf l d hnull hle
    rw [if_neg (not_not.mpr rfl)]
    -- the bytes up to the newline are the first line
    cases hpos : buf.findIdx? isNewline with
    | none =>
        rw [hpos, firstLine_of_findIdx?_none hpos] at happend
        exact happend
    | some pos =>
        rw [hpos, firstLine_of_findIdx?_some hpos, List.length_take,
          Nat.min_eq_left (findIdx?_lt_length hpos)] at happend
        exact happend
  · rw [if_pos herr]
    exact outline_kfree outline_out

end Write

end Aesd.CharDriver

import Aesd.CharDriver.Simulation

/-! # Who owns which block

The invariant that links the eleven pointers of the device with the heap: what they point to is
live and large enough, and no block has two owners. It holds after every call as long as no
`krealloc` is refused while the working entry holds bytes; such a refusal leaves the working entry
pointing to a freed block. -/

namespace Aesd.CharDriver

open Memory Effects Streams

/-- **The ownership invariant.** `ZERO_SIZE_PTR` counts as an allocation of no bytes. -/
structure Owned (w : World) : Prop where
  /-- Every pointer leads to a live allocation of at least `size` bytes. -/
  live : ∀ e ∈ w.owners, e.buffptr ≠ .null →
    ∃ bytes, w.heap.read e.buffptr = some bytes ∧ e.size ≤ bytes.length
  /-- The pointers are pairwise distinct. -/
  distinct : ((w.owners.map AesdBufferEntry.buffptr).filter (· ≠ .null)).Nodup

/-- The calls touch live blocks only and free each block at most once, and if they return, then the
ownership invariant holds and the module can be unloaded. -/
def MemorySafe (is : List Invocation) : Prop :=
  invokeAll is aesdInitModule ≠ .error .badAccess ∧
    ∀ rs w, invokeAll is aesdInitModule = .ok (rs, w) →
      Owned w ∧ ∀ env, ∃ w', execute env aesdCleanupModule w = .ok ((), w')

section Owners

variable {w : World} {l : Log} {S : List UInt8} {env : Env}

/-- The owners are the working entry, the retained entries and unused slots. -/
theorem Represents.owners_perm (hr : Represents w S) :
    ∃ n, w.owners.Perm
      (w.dev.workingEntry :: (w.dev.circBuf.retained ++ List.replicate n AesdBufferEntry.zero)) := by
  obtain ⟨es, hes, -⟩ := hr.ring
  exact ⟨_, hes.toList_entry_perm.cons _⟩

/-- The pointers of the owners are those of the working and the retained entries, and null. -/
theorem Represents.mem_owners {p : Ptr} (hr : Represents w S)
    (hp : p ∈ w.owners.map AesdBufferEntry.buffptr) :
    p = .null ∨ p = w.dev.workingEntry.buffptr ∨
      p ∈ w.dev.circBuf.retained.map AesdBufferEntry.buffptr := by
  obtain ⟨n, hperm⟩ := hr.owners_perm
  have hmem := (hperm.map AesdBufferEntry.buffptr).subset hp
  rw [List.map_cons, List.map_append, List.map_replicate, List.mem_cons, List.mem_append] at hmem
  rcases hmem with h | h | h
  · exact .inr (.inl h)
  · exact .inr (.inr h)
  · exact .inl (List.eq_of_mem_replicate h)

/-- A state that stands for a stream meets the ownership invariant. -/
theorem Represents.owned (hr : Represents w S) : Owned w := by
  obtain ⟨n, hperm⟩ := hr.owners_perm
  constructor
  · intro e he hnull
    rcases List.mem_cons.mp (hperm.subset he) with rfl | hmem
    · exact ⟨_, hr.working.backs.read hnull, hr.working.size.le⟩
    · rcases List.mem_append.mp hmem with hmem | hmem
      · obtain ⟨i, hi, rfl⟩ := List.getElem_of_mem hmem
        obtain ⟨hlen, hall⟩ := List.forall₂_iff_get.mp hr.commands
        have hhold := hall i hi (hlen ▸ hi)
        exact ⟨_, hhold.backs.read hnull, hhold.size.le⟩
      · rw [List.eq_of_mem_replicate hmem] at hnull
        exact absurd rfl hnull
  · have hperm' := (hperm.map AesdBufferEntry.buffptr).filter (· ≠ .null)
    rw [hperm'.nodup_iff]
    have happart : (w.dev.workingEntry :: (w.dev.circBuf.retained ++
        List.replicate n AesdBufferEntry.zero)).map AesdBufferEntry.buffptr =
          (w.dev.workingEntry.buffptr :: w.dev.circBuf.retained.map AesdBufferEntry.buffptr) ++
            List.replicate n .null := by
      simp [AesdBufferEntry.zero]
    have hnulls : (List.replicate n Ptr.null).filter (· ≠ .null) = [] := by
      rw [List.filter_replicate_of_neg (by simp)]
    rw [happart, List.filter_append, hnulls, List.append_nil]
    exact hr.apart.filter _

end Owners

section Cleanup

variable {w : World} {es : List AesdBufferEntry}

/-- Freeing what a live pointer leads to. -/
theorem release_of_read {h : Heap} {p : Ptr} {bytes : List UInt8} (hp : h.read p = some bytes) :
    ∃ h', release p h = .ok h' ∧ ∀ b, h'.cells b = if p = .block b then none else h.cells b := by
  cases p with
  | null => cases hp
  | zeroSize => exact ⟨h, rfl, fun b => by simp⟩
  | block c =>
      refine ⟨h.free c, release_block (by rw [← Heap.read_block, hp]; rfl), fun b => ?_⟩
      by_cases hb : c = b
      · rw [if_pos (congrArg _ hb), hb, Heap.cells_free_self]
      · rw [if_neg fun e => hb (Ptr.block.inj e), Heap.cells_free_of_ne _ (Ne.symm hb)]

/-- The loop of the clean-up frees every entry once. The induction is on the slots still to visit;
what is left stays live because the pointers are distinct. -/
theorem execute_freeEntries (env : Env)
    (hlive : ∀ e ∈ es, e.buffptr ≠ .null → ∃ bytes, w.heap.read e.buffptr = some bytes)
    (hdistinct : ((es.map AesdBufferEntry.buffptr).filter (· ≠ .null)).Nodup) :
    ∃ h', execute env (freeEntries es) w = .ok ((), { w with heap := h' }) ∧
      ∀ b, h'.cells b =
        if .block b ∈ es.map AesdBufferEntry.buffptr then none else w.heap.cells b := by
  induction es generalizing w with
  | nil => exact ⟨w.heap, rfl, fun b => by simp⟩
  | cons e es ih =>
      have hrest := fun e' he' => hlive e' (List.mem_cons_of_mem e he')
      by_cases hnull : e.buffptr = .null
      -- an empty slot is passed over
      · rw [List.map_cons, List.filter_cons_of_neg (by simpa using hnull)] at hdistinct
        obtain ⟨h', hexec, hcells⟩ := ih hrest hdistinct
        refine ⟨h', ?_, fun b => ?_⟩
        · simp only [freeEntries, hnull, ne_eq, not_true, if_false, Prog.bind_eq]
          exact hexec
        · rw [hcells, List.map_cons, hnull]
          simp
      · rw [List.map_cons, List.filter_cons_of_pos (by simpa using hnull),
          List.nodup_cons] at hdistinct
        obtain ⟨hnot, hdistinct⟩ := hdistinct
        obtain ⟨bytes, hread⟩ := hlive e List.mem_cons_self hnull
        -- its block is released, and no later slot has the same one
        obtain ⟨h₁, hrel, hcells₁⟩ := release_of_read hread
        have hlive₁ : ∀ e' ∈ es, e'.buffptr ≠ .null →
            ∃ bytes, h₁.read e'.buffptr = some bytes := by
          intro e' he' hnull'
          have hne : e.buffptr ≠ e'.buffptr := fun heq => hnot (by
            rw [List.mem_filter, heq]
            exact ⟨List.mem_map_of_mem he', by simpa using hnull'⟩)
          obtain ⟨bytes', hread'⟩ := hrest e' he' hnull'
          refine ⟨bytes', ?_⟩
          cases hp : e'.buffptr with
          | null => exact absurd hp hnull'
          | zeroSize => rw [← hread', hp]; rfl
          | block b =>
              rw [Heap.read_block, hcells₁, if_neg (hp ▸ hne), ← Heap.read_block, ← hp, hread']
        obtain ⟨h', hexec, hcells⟩ := ih (w := { w with heap := h₁ }) hlive₁ hdistinct
        have hstep : kernelStep env (.kfree e.buffptr) w = .ok ((), { w with heap := h₁ }) := by
          simp only [kernelStep, hrel, bind, Except.bind]
        refine ⟨h', ?_, fun b => ?_⟩
        · simp only [freeEntries, kfree, hnull, ne_eq, not_false_eq_true, if_true, Prog.bind_eq,
            Prog.call_bind, Prog.pure_bind, execute_call _ hstep]
          exact hexec
        · rw [hcells, List.map_cons]
          simp only [hcells₁, List.mem_cons]
          by_cases hb : .block b ∈ es.map AesdBufferEntry.buffptr
          · rw [if_pos hb, if_pos (.inr hb)]
          · rw [if_neg hb]
            by_cases hb' : e.buffptr = .block b
            · rw [if_pos hb', if_pos (.inl hb'.symm)]
            · rw [if_neg hb', if_neg (not_or.mpr ⟨Ne.symm hb', hb⟩)]

/-- Unloading the module frees what the device owns, each block once, and nothing else. -/
theorem Owned.cleanup (env : Env) (ho : Owned w) :
    ∃ h', execute env aesdCleanupModule w = .ok ((), { w with heap := h' }) ∧
      ∀ b, h'.cells b =
        if .block b ∈ w.owners.map AesdBufferEntry.buffptr then none else w.heap.cells b := by
  have hlive : ∀ e ∈ w.dev.circBuf.entry.toList, e.buffptr ≠ .null →
      ∃ bytes, w.heap.read e.buffptr = some bytes := by
    intro e he hnull
    obtain ⟨bytes, hread, -⟩ := ho.live e (List.mem_cons_of_mem _ he) hnull
    exact ⟨bytes, hread⟩
  have hdistinct := ho.distinct
  rw [World.owners, List.map_cons] at hdistinct
  have hslots : ((w.dev.circBuf.entry.toList.map AesdBufferEntry.buffptr).filter (· ≠ .null)).Nodup :=
    hdistinct.sublist ((List.sublist_cons_self _ _).filter _)
  -- first the slots, then the working entry
  obtain ⟨h₁, hexec, hcells⟩ := execute_freeEntries env hlive hslots
  by_cases hnull : w.dev.workingEntry.buffptr = .null
  · refine ⟨h₁, ?_, fun b => ?_⟩
    · simp only [aesdCleanupModule, loadDev, Prog.bind_eq, Prog.call_bind, Prog.pure_bind,
        execute_loadDev, execute_bind _ hexec, hnull, ne_eq, not_true, if_false, Prog.pure_eq,
        execute_pure]
    · rw [hcells, World.owners, List.map_cons, hnull]
      simp
  · obtain ⟨bytes, hread, -⟩ := ho.live _ List.mem_cons_self hnull
    rw [List.filter_cons_of_pos (by simpa using hnull), List.nodup_cons, List.mem_filter,
      not_and'] at hdistinct
    have hnot := hdistinct.1 (by simpa using hnull)
    -- the loop has not freed it
    have hread₁ : h₁.read w.dev.workingEntry.buffptr = some bytes := by
      cases hp : w.dev.workingEntry.buffptr with
      | null => exact absurd hp hnull
      | zeroSize => rw [← hread, hp]; rfl
      | block b =>
          rw [Heap.read_block, hcells, if_neg (hp ▸ hnot), ← Heap.read_block, ← hp, hread]
    obtain ⟨h₂, hrel, hcells₂⟩ := release_of_read hread₁
    have hstep : kernelStep env (.kfree w.dev.workingEntry.buffptr) { w with heap := h₁ } =
        .ok ((), { w with heap := h₂ }) := by
      simp only [kernelStep, hrel, bind, Except.bind]
    refine ⟨h₂, ?_, fun b => ?_⟩
    · simp only [aesdCleanupModule, loadDev, kfree, Prog.bind_eq, Prog.call_bind, Prog.pure_bind,
        execute_loadDev, execute_bind _ hexec, hnull, ne_eq, not_false_eq_true, if_true,
        execute_call _ hstep, execute_pure]
    · rw [hcells₂, hcells, World.owners, List.map_cons]
      simp only [List.mem_cons]
      by_cases hb : w.dev.workingEntry.buffptr = .block b
      · rw [if_pos hb, if_pos (.inl hb.symm)]
      · rw [if_neg hb]
        by_cases hb' : .block b ∈ w.dev.circBuf.entry.toList.map AesdBufferEntry.buffptr
        · rw [if_pos hb', if_pos (.inr hb')]
        · rw [if_neg hb', if_neg (not_or.mpr ⟨Ne.symm hb, hb'⟩)]

end Cleanup

section Safety

variable {w : World} {is : List Invocation} {rs : List Reply} {i : Invocation}

theorem memorySafe_of_harmless (hs : Throughout (fun i w => ¬Spoils i w) is aesdInitModule) :
    MemorySafe is := by
  constructor
  · rcases stands_init.invokeAll_cases hs with hhang | ⟨rs, w, hrun⟩
    · rw [hhang]
      simp
    · rw [hrun]
      simp
  · intro rs w hrun
    obtain ⟨l, h⟩ := stands_init.exists_of_invokeAll hs hrun
    refine ⟨h.represents.owned, fun env => ?_⟩
    obtain ⟨h', hexec, -⟩ := h.represents.owned.cleanup env
    exact ⟨_, hexec⟩

/-- A harmful write breaks the invariant. -/
theorem not_memorySafe_of_spoils (hs : Throughout (fun i w => ¬Spoils i w) is aesdInitModule)
    (hrun : invokeAll is aesdInitModule = .ok (rs, w)) (hi : Spoils i w) :
    ¬MemorySafe (is ++ [i]) := by
  intro hsafe
  obtain ⟨l, h⟩ := stands_init.exists_of_invokeAll hs hrun
  obtain ⟨b, h', hptr, hfreed, -, hsize, hinvoke⟩ := h.spoiled hi
  obtain ⟨howned, -⟩ := hsafe.2 _ _ (invokeAll_concat hrun hinvoke)
  obtain ⟨bytes, hread, -⟩ := howned.live w.dev.workingEntry List.mem_cons_self (by simp [hptr])
  rw [hptr, Heap.read_block, hfreed] at hread
  cases hread

/-- A refused `krealloc` after an unfinished command. -/
theorem not_memorySafe_after_refusal : ¬MemorySafe
    [⟨.write 0 [97], .calm 0⟩, ⟨.write 0 [98], { Env.calm 0 with kreallocOk := false }⟩] := by
  have hfirst : Throughout (fun i w => ¬Spoils i w) [⟨.write 0 [97], .calm 0⟩] aesdInitModule := by
    decide
  exact not_memorySafe_of_spoils hfirst rfl (by decide)

end Safety

/-- **When ownership is kept.** All beginnings of a run are memory safe exactly if in no step a
`krealloc` is refused while the working entry holds bytes. -/
theorem memorySafe_iff (is : List Invocation) :
    (∀ pre, pre <+: is → MemorySafe pre) ↔
      Throughout (fun i w => ¬Spoils i w) is aesdInitModule := by
  constructor
  · intro hall
    by_contra hs
    obtain ⟨pre, i, post, rs, w, rfl, hpre, hrun, hi⟩ := exists_first_of_not_throughout hs
    exact not_memorySafe_of_spoils hpre hrun (not_not.mp hi)
      (hall _ ⟨post, by rw [List.append_assoc]; rfl⟩)
  · rintro hs pre ⟨post, rfl⟩
    exact memorySafe_of_harmless hs.of_append

end Aesd.CharDriver

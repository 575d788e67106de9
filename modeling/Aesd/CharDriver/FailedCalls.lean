import Aesd.CharDriver.Simulation

/-! # Failed calls and the traces they leave

A run is compared with the run of its surviving calls, those that did not return a negative value.
As long as no `krealloc` fails while the working entry holds bytes, the two runs agree on everything
that can be observed. Such a failure frees the unfinished command, which the run of the surviving
calls still has. -/

namespace Aesd.CharDriver

open Memory Effects Streams

/-- The calls that did not fail, with their replies. -/
def survivors (is : List Invocation) (rs : List Reply) : List (Invocation × Reply) :=
  (is.zip rs).filter fun q => ¬q.2.Failed

/-- If the calls return, then the surviving calls alone return the same replies, and lead to the
same retained commands, the same readable bytes of the working entry and the same positions. -/
def LeavesNoTrace (is : List Invocation) : Prop :=
  ∀ rs w, invokeAll is aesdInitModule = .ok (rs, w) →
    ∃ w', invokeAll ((survivors is rs).map Prod.fst) aesdInitModule =
        .ok ((survivors is rs).map Prod.snd, w') ∧
      w'.retained = w.retained ∧ w'.pending = w.pending ∧ w'.fPos = w.fPos

section TwoRuns

variable {w v w' : World} {l : Log} {is : List Invocation} {rs : List Reply} {i : Invocation}
  {r : Reply}

theorem survivors_cons_of_failed (hr : r.Failed) :
    survivors (i :: is) (r :: rs) = survivors is rs := by
  rw [survivors, List.zip_cons_cons, List.filter_cons_of_neg (by simpa using hr), survivors]

theorem survivors_cons_of_not_failed (hr : ¬r.Failed) :
    survivors (i :: is) (r :: rs) = (i, r) :: survivors is rs := by
  rw [survivors, List.zip_cons_cons, List.filter_cons_of_pos (by simpa using hr), survivors]

/-- From two states that stand for one log, a run and the run of its survivors end in two states
that stand for one log. -/
theorem Stands.two_runs (h : Stands w l) (h' : Stands v l)
    (hs : Throughout (fun i w => ¬Spoils i w) is w) (hrun : invokeAll is w = .ok (rs, w')) :
    ∃ v' l', invokeAll ((survivors is rs).map Prod.fst) v =
        .ok ((survivors is rs).map Prod.snd, v') ∧ Stands w' l' ∧ Stands v' l' := by
  induction is generalizing w v l rs with
  | nil =>
      rw [invokeAll_nil, Except.ok.injEq, Prod.mk.injEq] at hrun
      obtain ⟨rfl, rfl⟩ := hrun
      exact ⟨v, l, rfl, h, h'⟩
  | cons i is ih =>
      obtain ⟨r, w₁, rs', hi, his, rfl⟩ := invokeAll_cons_ok hrun
      rw [throughout_cons hi] at hs
      rcases h.returns hs.1 hi with ⟨hfail, -, h₁⟩ | ⟨hfail, l₁, happ, h₁⟩
      · -- the deleted call changed nothing that the log sees
        rw [survivors_cons_of_failed hfail]
        exact ih h₁ h' hs.2 his
      · -- the surviving call does the same in the other run
        have hsim := h'.simulates fun hv => hs.1 ((h.spoils_congr h').mpr hv)
        rw [happ] at hsim
        obtain ⟨v₁, hv, -, h₁'⟩ := hsim
        obtain ⟨v', l', hrun', hw', hv'⟩ := ih h₁ h₁' hs.2 his
        rw [survivors_cons_of_not_failed hfail]
        refine ⟨v', l', ?_, hw', hv'⟩
        rw [List.map_cons, List.map_cons, invokeAll_cons hv, hrun']
        rfl

theorem leavesNoTrace_of_harmless (hs : Throughout (fun i w => ¬Spoils i w) is aesdInitModule) :
    LeavesNoTrace is := by
  intro rs w hrun
  obtain ⟨v, l, hrun', h, h'⟩ := stands_init.two_runs stands_init hs hrun
  exact ⟨v, hrun', h'.retained.trans h.retained.symm, h'.pending.trans h.pending.symm,
    h'.fPos.trans h.fPos.symm⟩

theorem survivors_concat_failed (hlen : is.length = rs.length) (hr : r.Failed) :
    survivors (is ++ [i]) (rs ++ [r]) = survivors is rs := by
  rw [survivors, List.zip_append hlen, List.filter_append, survivors]
  simpa using hr

/-- A harmful write takes away bytes that its deletion keeps. -/
theorem not_leavesNoTrace_of_spoils (hs : Throughout (fun i w => ¬Spoils i w) is aesdInitModule)
    (hrun : invokeAll is aesdInitModule = .ok (rs, w)) (hi : Spoils i w) :
    ¬LeavesNoTrace (is ++ [i]) := by
  intro htrace
  obtain ⟨l, h⟩ := stands_init.exists_of_invokeAll hs hrun
  obtain ⟨b, h', hptr, hfreed, -, hsize, hinvoke⟩ := h.spoiled hi
  obtain ⟨v, hrun', -, hpend, -⟩ := leavesNoTrace_of_harmless hs rs w hrun
  obtain ⟨v', hrun'', -, hpend', -⟩ := htrace _ _ (invokeAll_concat hrun hinvoke)
  have hfail : (Reply.ofRetval (-enomem)).Failed := by decide
  -- the survivors are the same, but the bytes are gone
  rw [survivors_concat_failed (length_invokeAll hrun) hfail, hrun', Except.ok.injEq,
    Prod.mk.injEq] at hrun''
  rw [← hrun''.2, hpend, h.pending, World.pending, World.entryBytes, if_neg hsize, hptr,
    Heap.read_block, hfreed] at hpend'
  cases hpend'

/-- A refused `krealloc` after an unfinished command. -/
theorem not_leavesNoTrace_after_refusal : ¬LeavesNoTrace
    [⟨.write 0 [97], .calm 0⟩, ⟨.write 0 [98], { Env.calm 0 with kreallocOk := false }⟩] := by
  have hfirst : Throughout (fun i w => ¬Spoils i w) [⟨.write 0 [97], .calm 0⟩] aesdInitModule := by
    decide
  exact not_leavesNoTrace_of_spoils hfirst rfl (by decide)

end TwoRuns

/-- **When failed calls leave no trace.** All beginnings of a run are free of traces exactly if in
no step a `krealloc` is refused while the working entry holds bytes. -/
theorem leavesNoTrace_iff (is : List Invocation) :
    (∀ pre, pre <+: is → LeavesNoTrace pre) ↔
      Throughout (fun i w => ¬Spoils i w) is aesdInitModule := by
  constructor
  · intro hall
    by_contra hs
    obtain ⟨pre, i, post, rs, w, rfl, hpre, hrun, hi⟩ := exists_first_of_not_throughout hs
    exact not_leavesNoTrace_of_spoils hpre hrun (not_not.mp hi)
      (hall _ ⟨post, by rw [List.append_assoc]; rfl⟩)
  · rintro hs pre ⟨post, rfl⟩
    exact leavesNoTrace_of_harmless hs.of_append

end Aesd.CharDriver

import Aesd.CharDriver.ReadLog
import Aesd.CharDriver.Reachable

/-! # `aesd_llseek` is exact

The position that `aesd_llseek` computes in 64-bit arithmetic is the exact one, whenever the exact
one is a file position, and its sum over the ten slots is the number of bytes that reading the
device from the start delivers. Positions and totals are far from the limits of a `loff_t` or
non-negative, so a sum of two numbers that leaves the range wraps to a negative number and is
refused. -/

namespace Aesd.CharDriver

open Memory Effects Streams

/-- The target of an `llseek` over the integers, `none` for an unknown `whence`. -/
def exactTarget (total pos offset whence : ℤ) : Option ℤ :=
  if whence = seekSet then some offset
  else if whence = seekCur then some (pos + offset)
  else if whence = seekEnd then some (total + offset)
  else none

/-- Reads of the file from position 0 on deliver `total` bytes until one returns 0. -/
def Delivers (w : World) (filp : File) (reads : ℕ → ℕ × Env) (total : ℕ) : Prop :=
  ∃ n rs w', invokeAll ((List.range (n + 1)).map fun k => readCall filp (reads k))
      { w with fPos := Function.update w.fPos filp 0 } = .ok (rs ++ [⟨0, []⟩], w') ∧
    (∀ r ∈ rs, r.retval ≠ 0) ∧ (rs.flatMap Reply.bytes).length = total

section Wrapping

variable {x : ℤ}

theorem int64_eq_self (h₀ : -2 ^ 63 ≤ x) (h : x < 2 ^ 63) : int64 x = x := by
  unfold int64
  rw [Int.bmod_eq_of_le] <;> omega

/-- A sum beyond the largest `loff_t` wraps to a negative number. -/
theorem int64_neg_of_le (h₀ : 2 ^ 63 ≤ x) (h : x < 2 ^ 64) : int64 x < 0 := by
  have hshift : int64 x = int64 (x - 2 ^ 64) := by
    unfold int64
    exact (Int.sub_bmod_right x (2 ^ 64)).symm
  rw [hshift, int64_eq_self (by omega) (by omega)]
  omega

/-- A wrapped sum is a file position only if the exact sum is, and is the exact sum then. -/
theorem int64_cases (h₀ : -2 ^ 63 ≤ x) (h : x < 2 ^ 64) :
    (0 ≤ x ∧ x < 2 ^ 63) ∧ int64 x = x ∨ ¬(0 ≤ x ∧ x < 2 ^ 63) ∧ int64 x < 0 := by
  by_cases hlt : x < 2 ^ 63
  · rw [int64_eq_self h₀ hlt]
    omega
  · have hneg := int64_neg_of_le (not_lt.mp hlt) h
    omega

end Wrapping

section Target

variable {w : World} {l : Log} {offset : ℤ}

/-- The target of the log is the exact one, as far as the test for a negative position can tell. -/
theorem Log.llseekTarget_eq (filp : File) (whence : ℤ) (hrange : InRange l.fPos)
    (htotal : l.contents.length < 2 ^ 62)
    (h₀ : -2 ^ 63 ≤ offset) (hlt : offset < 2 ^ 63) :
    exactTarget l.contents.length (l.fPos filp) offset whence = none ∧
        l.llseekTarget filp offset whence = none ∨
      ∃ t newpos, exactTarget l.contents.length (l.fPos filp) offset whence = some t ∧
        l.llseekTarget filp offset whence = some newpos ∧
        ((0 ≤ t ∧ t < 2 ^ 63) ∧ newpos = t ∨ ¬(0 ≤ t ∧ t < 2 ^ 63) ∧ newpos < 0) := by
  obtain ⟨hpos, hpos'⟩ := hrange filp
  unfold exactTarget Log.llseekTarget
  by_cases hset : whence = seekSet
  · rw [if_pos hset, if_pos hset]
    exact .inr ⟨offset, offset, rfl, rfl, by omega⟩
  rw [if_neg hset, if_neg hset]
  by_cases hcur : whence = seekCur
  · rw [if_pos hcur, if_pos hcur]
    exact .inr ⟨_, _, rfl, rfl, int64_cases (by omega) (by omega)⟩
  rw [if_neg hcur, if_neg hcur]
  by_cases hend : whence = seekEnd
  · rw [if_pos hend, if_pos hend]
    exact .inr ⟨_, _, rfl, rfl, int64_cases (by omega) (by omega)⟩
  · rw [if_neg hend, if_neg hend]
    exact .inl ⟨rfl, rfl⟩

/-- Reading from the start delivers the contents of the log. -/
theorem Shows.delivers (h : Shows w l) (filp : File) (reads : ℕ → ℕ × Env)
    (hreads : ∀ k, ReadServed (reads k)) : Delivers w filp reads l.contents.length := by
  have h₀ : Shows { w with fPos := Function.update w.fPos filp 0 } (l.seekTo filp 0) := by
    rw [← h.moved]
    exact h.setFPos rfl
  have hpos : (l.seekTo filp 0).fPos filp = (0 : ℕ) := Function.update_self _ _ _
  obtain ⟨n, rs, w', hrun, hne, hall⟩ := h₀.drain reads hreads hpos (by decide) le_rfl
  refine ⟨n, rs, w', hrun, hne, ?_⟩
  rw [hall, List.drop_zero]
  rfl

end Target

/-- **`aesd_llseek` is exact.** In every state that calls lead to there is a number `total` that is
what reading any file from position 0 to the end delivers, and what `aesd_llseek` sums up over the
slots. With the lock granted, an `llseek` returns and stores its exact target if there is one and it
is a file position; otherwise it returns `-EINVAL` and changes nothing. -/
theorem aesdLlseek_exact {is : List Invocation} {rs : List Reply} {w : World}
    (hfits : ∀ i ∈ is, OffsetFits i) (hrun : invokeAll is aesdInitModule = .ok (rs, w)) :
    ∃ total : ℕ,
      (∀ filp reads, (∀ k, ReadServed (reads k)) → Delivers w filp reads total) ∧
      totalSize w.dev.circBuf = total ∧
      ∀ (env : Env) (filp : File) (offset whence : ℤ), env.lockOk = true → -2 ^ 63 ≤ offset →
        offset < 2 ^ 63 →
        (∀ t, exactTarget total (w.fPos filp) offset whence = some t → 0 ≤ t → t < 2 ^ 63 →
          invoke ⟨.llseek filp offset whence, env⟩ w =
            .ok (.ofRetval t, { w with fPos := Function.update w.fPos filp t })) ∧
        ((∀ t, exactTarget total (w.fPos filp) offset whence = some t → ¬(0 ≤ t ∧ t < 2 ^ 63)) →
          invoke ⟨.llseek filp offset whence, env⟩ w = .ok (.ofRetval (-einval), w)) := by
  obtain ⟨l, h⟩ := exists_shows_of_invokeAll hrun
  have hrange : InRange l.fPos := h.fPos ▸ inRange_of_invokeAll hfits hrun
  refine ⟨l.contents.length, h.delivers, h.totalSize, ?_⟩
  intro env filp offset whence hlock h₀ hlt
  have hexec := h.execute_llseek filp hlock offset whence
  rw [h.fPos]
  rcases Log.llseekTarget_eq filp whence hrange h.length_contents_lt h₀ hlt with
    ⟨hexact, htarget⟩ | ⟨t, newpos, hexact, htarget, hcases⟩
  · -- an unknown `whence`
    rw [htarget, Option.elim_none] at hexec
    rw [hexact]
    exact ⟨fun t ht => (by cases ht), fun _ => execute_bind _ hexec⟩
  · rw [htarget, Option.elim_some] at hexec
    rw [hexact]
    rcases hcases with ⟨hvalid, rfl⟩ | ⟨hinvalid, hneg⟩
    · rw [if_neg (by omega), h.fPos] at hexec
      refine ⟨?_, fun hnone => absurd hvalid (hnone _ rfl)⟩
      rintro t ⟨⟩ - -
      exact execute_bind _ hexec
    · rw [if_pos hneg] at hexec
      refine ⟨?_, fun _ => execute_bind _ hexec⟩
      rintro t ⟨⟩ h₀ hlt
      exact absurd ⟨h₀, hlt⟩ hinvalid

/-- From the end of a single command of two bytes one byte back. -/
theorem aesdLlseek_exact_from_end :
    ∃ rs w, invokeAll [⟨.write 0 [97, newline], .calm 0⟩] aesdInitModule = .ok (rs, w) ∧
      invoke ⟨.llseek 0 (-1) seekEnd, .calm 0⟩ w =
        .ok (.ofRetval 1, { w with fPos := Function.update w.fPos 0 1 }) := by
  have hserved : Throughout WriteServed [⟨.write 0 [97, newline], .calm 0⟩] aesdInitModule := by
    decide
  obtain ⟨rs, w, l, hrun, hret, h, hstream⟩ := stands_init.allServed hserved
  have hlen : l.contents.length = 2 := by
    rw [Log.contents, Log.commands, hstream, consumed_eq hret]
    rfl
  obtain ⟨total, -, htotal, hexact⟩ := aesdLlseek_exact (by decide) hrun
  rw [h.shows.totalSize, hlen] at htotal
  obtain rfl : 2 = total := Int.ofNat.inj htotal
  refine ⟨rs, w, hrun, ?_⟩
  exact (hexact (.calm 0) 0 (-1) seekEnd rfl (by decide) (by decide)).1 1 rfl (by decide) (by decide)

end Aesd.CharDriver

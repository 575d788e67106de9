import Mathlib.Algebra.BigOperators.Group.List.Basic
import Mathlib.Algebra.Order.Ring.Nat
import Mathlib.Data.List.Basic
import Mathlib.Data.Set.Function

/-! # Positions in a concatenation

Pieces of the given sizes are laid end to end. `locate sizes p` is the piece that holds position `p`
of the whole and the offset inside it, or `none` past the end. Empty pieces hold no position. The
way back is `position`: together they are a bijection between the places inside the pieces and the
positions before the end, increasing in the lexicographic order of the places. -/

namespace Streams

/-- The piece that holds position `p`, and the offset of `p` inside it. -/
def locate : List ℕ → ℕ → Option (ℕ × ℕ)
  | [], _ => none
  | n :: ns, p => if p < n then some (0, p) else (locate ns (p - n)).map fun q => (q.1 + 1, q.2)

/-- Exactly the positions past the end are in no piece. -/
theorem locate_eq_none_iff {sizes : List ℕ} {p : ℕ} : locate sizes p = none ↔ sizes.sum ≤ p := by
  induction sizes generalizing p with
  | nil => simp [locate]
  | cons n ns ih =>
      rw [locate, List.sum_cons]
      by_cases h : p < n
      · simp [h]; omega
      · rw [if_neg h, Option.map_eq_none_iff, ih]; omega

/-- The piece found exists, the offset lies inside it, and the older pieces and the offset add up to
the position. -/
theorem locate_eq_some {sizes : List ℕ} {p i o : ℕ} (h : locate sizes p = some (i, o)) :
    ∃ n, sizes[i]? = some n ∧ o < n ∧ (sizes.take i).sum + o = p := by
  induction sizes generalizing p i with
  | nil => simp [locate] at h
  | cons n ns ih =>
      rw [locate] at h
      by_cases hp : p < n
      · rw [if_pos hp, Option.some.injEq, Prod.mk.injEq] at h
        obtain ⟨rfl, rfl⟩ := h
        exact ⟨n, rfl, hp, by simp⟩
      · rw [if_neg hp, Option.map_eq_some_iff] at h
        obtain ⟨⟨j, o'⟩, hj, h⟩ := h
        rw [Prod.mk.injEq] at h
        obtain ⟨rfl, rfl⟩ := h
        obtain ⟨m, hm, ho, hsum⟩ := ih hj
        refine ⟨m, by simpa using hm, ho, ?_⟩
        rw [List.take_succ_cons, List.sum_cons, add_assoc, hsum]
        omega

/-! ### Places inside the pieces -/

/-- The places inside the pieces: the number of a piece and an offset below its size. -/
def places (sizes : List ℕ) : Set (ℕ × ℕ) := {q | ∃ n, sizes[q.1]? = some n ∧ q.2 < n}

/-- The position of a place: what the older pieces hold, and the offset. -/
def position (sizes : List ℕ) (q : ℕ × ℕ) : ℕ := (sizes.take q.1).sum + q.2

variable {sizes : List ℕ} {q q' : ℕ × ℕ}

theorem position_zero (n : ℕ) (ns : List ℕ) (o : ℕ) : position (n :: ns) (0, o) = o := by
  simp [position]

theorem position_succ (n : ℕ) (ns : List ℕ) (i o : ℕ) :
    position (n :: ns) (i + 1, o) = n + position ns (i, o) := by
  simp [position, Nat.add_assoc]

/-- **The lookup finds every place again.** The induction is on the number of the piece. -/
theorem locate_position (hq : q ∈ places sizes) : locate sizes (position sizes q) = some q := by
  obtain ⟨i, o⟩ := q
  induction i generalizing sizes with
  | zero =>
      obtain ⟨m, hm, ho⟩ := hq
      cases sizes with
      | nil => cases hm
      | cons n ns =>
          cases hm
          rw [position_zero, locate, if_pos ho]
  | succ i ih =>
      obtain ⟨m, hm, ho⟩ := hq
      cases sizes with
      | nil => cases hm
      | cons n ns =>
          have hmem : (i, o) ∈ places ns := ⟨m, hm, ho⟩
          rw [position_succ, locate, if_neg (by omega), Nat.add_sub_cancel_left, ih hmem]
          rfl

/-- A place that is found is inside the pieces, and at the position it was looked up for. -/
theorem mem_places_of_locate {p : ℕ} (h : locate sizes p = some q) :
    q ∈ places sizes ∧ position sizes q = p := by
  obtain ⟨n, hn, ho, hsum⟩ := locate_eq_some h
  exact ⟨⟨n, hn, ho⟩, hsum⟩

/-- A place is before the end. -/
theorem position_lt_sum (hq : q ∈ places sizes) : position sizes q < sizes.sum := by
  by_contra hle
  have hnone := locate_eq_none_iff.mpr (not_lt.mp hle)
  rw [locate_position hq] at hnone
  cases hnone

/-- A place in a later piece, or further on in the same piece, is at a later position. -/
theorem position_lt_position (hq : q ∈ places sizes)
    (h : q.1 < q'.1 ∨ q.1 = q'.1 ∧ q.2 < q'.2) : position sizes q < position sizes q' := by
  obtain ⟨n, hn, ho⟩ := hq
  unfold position
  rcases h with hlt | ⟨heq, hlt⟩
  · -- the whole piece of `q` comes before `q'`
    have hle : (sizes.take (q.1 + 1)).sum ≤ (sizes.take q'.1).sum := by
      have hpre : sizes.take (q.1 + 1) <+: sizes.take q'.1 := List.take_prefix_take_left hlt
      obtain ⟨t, ht⟩ := hpre
      rw [← ht, List.sum_append]
      exact Nat.le_add_right _ _
    rw [List.take_add_one, List.sum_append, hn, Option.toList_some, List.sum_singleton] at hle
    omega
  · rw [heq]
    omega

/-- **Places and positions correspond to each other.** -/
theorem bijOn_position (sizes : List ℕ) :
    Set.BijOn (position sizes) (places sizes) (Set.Iio sizes.sum) := by
  refine ⟨fun q hq => position_lt_sum hq, fun q hq q' hq' h => ?_, fun p hp => ?_⟩
  · have hfound := locate_position hq
    rw [h, locate_position hq', Option.some.injEq] at hfound
    exact hfound.symm
  · cases hloc : locate sizes p with
    | none => exact absurd (locate_eq_none_iff.mp hloc) (not_le.mpr hp)
    | some q => exact ⟨q, mem_places_of_locate hloc⟩

variable {α : Type*}

/-- From the position found on, the concatenation is the tail of the piece found and all later
pieces. -/
theorem drop_flatten_of_locate {ls : List (List α)} {p i o : ℕ}
    (h : locate (ls.map List.length) p = some (i, o)) :
    ∃ l, ls[i]? = some l ∧ o < l.length ∧
      ls.flatten.drop p = l.drop o ++ (ls.drop (i + 1)).flatten := by
  induction ls generalizing p i with
  | nil => simp [locate] at h
  | cons l ls ih =>
      rw [List.map_cons, locate] at h
      by_cases hp : p < l.length
      · rw [if_pos hp, Option.some.injEq, Prod.mk.injEq] at h
        obtain ⟨rfl, rfl⟩ := h
        exact ⟨l, rfl, hp, by rw [List.flatten_cons, List.drop_append_of_le_length (by omega)]; rfl⟩
      · rw [if_neg hp, Option.map_eq_some_iff] at h
        obtain ⟨⟨j, o'⟩, hj, h⟩ := h
        rw [Prod.mk.injEq] at h
        obtain ⟨rfl, rfl⟩ := h
        obtain ⟨m, hm, ho, hdrop⟩ := ih hj
        refine ⟨m, by simpa using hm, ho, ?_⟩
        rw [List.flatten_cons, List.drop_append, List.drop_eq_nil_of_le (by omega), List.nil_append,
          hdrop, List.drop_succ_cons]

end Streams

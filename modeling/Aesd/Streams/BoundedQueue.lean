import Aesd.Streams.Lines
import Mathlib.Data.List.ReduceOption

/-! # Bounded queues

A queue of at most `k` elements: pushing onto a full one hands its oldest element back. Whatever is
pushed, nothing is lost and nothing handed back twice: what has been handed back and what is left
make up the sequence that was pushed (`pushAll_conserves`), and what is left are its last `k`
elements. -/

namespace Streams

/-- A queue of at most `k` elements, oldest first. -/
structure BoundedQueue (α : Type*) (k : ℕ) where
  /-- The elements. -/
  toList : List α
  /-- They are not too many. -/
  length_le : toList.length ≤ k

namespace BoundedQueue

variable {α : Type*} {k : ℕ} (q : BoundedQueue α k) (a : α)

/-- The empty queue. -/
def empty : BoundedQueue α k := ⟨[], Nat.zero_le k⟩

/-- Push an element; a full queue hands back its oldest one. -/
def push : Option α × BoundedQueue α k :=
  if h : q.toList.length < k then
    (none, ⟨q.toList ++ [a], by rw [List.length_append]; exact h⟩)
  else
    ((q.toList ++ [a]).head?, ⟨(q.toList ++ [a]).tail, by simpa using q.length_le⟩)

/-- Push elements one after the other: what each push has handed back, and the queue. -/
def pushAll : BoundedQueue α k → List α → List (Option α) × BoundedQueue α k
  | q, [] => ([], q)
  | q, a :: as => ((q.push a).1 :: (pushAll (q.push a).2 as).1, (pushAll (q.push a).2 as).2)

theorem push_of_lt (h : q.toList.length < k) :
    (q.push a).1 = none ∧ (q.push a).2.toList = q.toList ++ [a] := by
  rw [push, dif_pos h]
  exact ⟨rfl, rfl⟩

theorem push_of_le (h : k ≤ q.toList.length) :
    (q.push a).1 = (q.toList ++ [a]).head? ∧ (q.push a).2.toList = (q.toList ++ [a]).tail := by
  rw [push, dif_neg (not_lt.mpr h)]
  exact ⟨rfl, rfl⟩

/-- One push loses nothing. -/
theorem push_conserves : (q.push a).1.toList ++ (q.push a).2.toList = q.toList ++ [a] := by
  rcases lt_or_ge q.toList.length k with h | h
  · obtain ⟨hnone, hlist⟩ := q.push_of_lt a h
    rw [hnone, hlist]
    rfl
  · obtain ⟨hhead, htail⟩ := q.push_of_le a h
    rw [hhead, htail]
    cases q.toList with
    | nil => rfl
    | cons b bs => rfl

theorem length_push : (q.push a).2.toList.length = min (q.toList.length + 1) k := by
  have hle := q.length_le
  rcases lt_or_ge q.toList.length k with h | h
  · rw [(q.push_of_lt a h).2, List.length_append, List.length_singleton]
    omega
  · rw [(q.push_of_le a h).2, List.length_tail, List.length_append, List.length_singleton]
    omega

variable {q} {as : List α}

/-- **Pushing loses nothing**, and hands nothing back twice. -/
theorem pushAll_conserves :
    (q.pushAll as).1.reduceOption ++ (q.pushAll as).2.toList = q.toList ++ as := by
  induction as generalizing q with
  | nil => exact (List.append_nil _).symm
  | cons a as ih =>
      have hpush := q.push_conserves a
      calc (q.pushAll (a :: as)).1.reduceOption ++ (q.pushAll (a :: as)).2.toList
        _ = (q.push a).1.toList ++ (((q.push a).2.pushAll as).1.reduceOption ++
              ((q.push a).2.pushAll as).2.toList) := by
            rw [pushAll, ← List.append_assoc]
            cases (q.push a).1 with
            | none => rfl
            | some b => rfl
        _ = q.toList ++ [a] ++ as := by rw [ih, ← List.append_assoc, hpush]
        _ = q.toList ++ a :: as := (List.append_cons _ _ _).symm

theorem length_pushAll_fst : (q.pushAll as).1.length = as.length := by
  induction as generalizing q with
  | nil => rfl
  | cons a as ih => rw [pushAll, List.length_cons, ih, List.length_cons]

theorem length_pushAll :
    (q.pushAll as).2.toList.length = min (q.toList.length + as.length) k := by
  induction as generalizing q with
  | nil => exact (Nat.min_eq_left q.length_le).symm
  | cons a as ih =>
      rw [pushAll, ih, length_push, List.length_cons]
      omega

/-- **The last `k` elements are left.** -/
theorem toList_pushAll : (q.pushAll as).2.toList = (q.toList ++ as).rtake k := by
  have hsuffix : (q.pushAll as).2.toList <:+ q.toList ++ as := ⟨_, pushAll_conserves⟩
  rw [List.suffix_iff_eq_drop.mp hsuffix, length_pushAll, List.rtake.eq_def, List.length_append]
  congr 1
  omega

/-- **What each push hands back**: the element pushed `k` pushes before. -/
theorem getElem?_pushAll_fst {i : ℕ} (hi : i < as.length) :
    (q.pushAll as).1[i]? =
      some (if q.toList.length + i < k then none else (q.toList ++ as)[q.toList.length + i - k]?) := by
  have hle := q.length_le
  induction as generalizing q i with
  | nil => exact absurd hi (Nat.not_lt_zero i)
  | cons a as ih =>
      have hlen := q.length_push a
      -- what the first push hands back is the head of a full queue
      cases i with
      | zero =>
          rw [pushAll, List.getElem?_cons_zero, Nat.add_zero]
          by_cases h : q.toList.length < k
          · rw [if_pos h, (q.push_of_lt a h).1]
          · have hzero : q.toList.length - k = 0 := by omega
            rw [if_neg h, (q.push_of_le a (not_lt.mp h)).1, hzero, List.append_cons q.toList a as,
              ← List.head?_eq_getElem?]
            cases q.toList with
            | nil => rfl
            | cons b bs => rfl
      | succ i =>
          rw [List.length_cons, Nat.add_lt_add_iff_right] at hi
          rw [pushAll, List.getElem?_cons_succ, ih hi (q.push a).2.length_le, hlen]
          rcases lt_or_ge q.toList.length k with h | h
          · have hindex : q.toList.length.succ + i = q.toList.length + (i + 1) := by omega
            rw [(q.push_of_lt a h).2, Nat.min_eq_left h, hindex, ← List.append_cons]
          · have hmin : min (q.toList.length + 1) k = k := by omega
            have hindex : q.toList.length + (i + 1) - k = i + 1 := by omega
            rw [(q.push_of_le a h).2, hmin, if_neg (by omega), if_neg (by omega), hindex,
              Nat.add_sub_cancel_left, List.append_cons q.toList a as]
            cases q.toList with
            | nil => rfl
            | cons b bs => rfl

end BoundedQueue

end Streams

import Mathlib.Data.List.Basic
import Mathlib.Data.List.DropRight

/-! # Streams cut into terminated lines

A stream over any alphabet, with a predicate that says which symbols end a line. `lines stop s` are
the terminated lines of `s`, terminator included, and `rest stop s` is what follows the last
terminator. Both come from one left-to-right reader, so that what a longer stream adds can be read
off the state reached: a piece without a terminator only prolongs the rest, a piece that ends with
its only terminator completes one line. `firstLine stop s` is the shortest prefix that ends a line,
or all of `s`. -/

namespace Streams

variable {α : Type*}

/-- One reader step: the lines so far and the unfinished one, after one more symbol. -/
def feed (stop : α → Bool) (acc : List (List α) × List α) (x : α) : List (List α) × List α :=
  if stop x then (acc.1 ++ [acc.2 ++ [x]], []) else (acc.1, acc.2 ++ [x])

/-- The terminated lines of a stream. -/
def lines (stop : α → Bool) (s : List α) : List (List α) := (s.foldl (feed stop) ([], [])).1

/-- What follows the last terminator. -/
def rest (stop : α → Bool) (s : List α) : List α := (s.foldl (feed stop) ([], [])).2

/-- The prefix up to and including the first terminator, or everything if there is none. -/
def firstLine (stop : α → Bool) (s : List α) : List α :=
  match s.findIdx? stop with
  | some i => s.take (i + 1)
  | none => s

/-- A terminated line: its last symbol is its only terminator. -/
def IsLine (stop : α → Bool) (l : List α) : Prop :=
  ∃ v x, l = v ++ [x] ∧ stop x = true ∧ ∀ y ∈ v, stop y = false

variable {stop : α → Bool} {s u v l : List α} {x : α}

@[simp] theorem lines_nil : lines stop ([] : List α) = [] := rfl

@[simp] theorem rest_nil : rest stop ([] : List α) = [] := rfl

theorem foldl_feed_eq : s.foldl (feed stop) ([], []) = (lines stop s, rest stop s) := rfl

/-- A terminator alone is a line. -/
theorem isLine_singleton (hx : stop x = true) : IsLine stop [x] := ⟨[], x, rfl, hx, by simp⟩

/-- Reading a piece without a terminator prolongs the unfinished line. -/
theorem foldl_feed_of_forall (hu : ∀ y ∈ u, stop y = false) (acc : List (List α) × List α) :
    u.foldl (feed stop) acc = (acc.1, acc.2 ++ u) := by
  induction u generalizing acc with
  | nil => simp
  | cons y u ih =>
      have hy : stop y = false := hu y List.mem_cons_self
      rw [List.foldl_cons, ih fun z hz => hu z (List.mem_cons_of_mem _ hz)]
      simp [feed, hy]

theorem lines_append_of_forall (hu : ∀ y ∈ u, stop y = false) :
    lines stop (s ++ u) = lines stop s := by
  rw [lines, List.foldl_append, foldl_feed_of_forall hu]; rfl

theorem rest_append_of_forall (hu : ∀ y ∈ u, stop y = false) :
    rest stop (s ++ u) = rest stop s ++ u := by
  rw [rest, List.foldl_append, foldl_feed_of_forall hu]; rfl

/-- Reading up to a terminator completes the unfinished line. -/
theorem foldl_feed_line (hl : IsLine stop l) :
    (s ++ l).foldl (feed stop) ([], []) = (lines stop s ++ [rest stop s ++ l], []) := by
  obtain ⟨v, x, rfl, hx, hv⟩ := hl
  rw [List.foldl_append, List.foldl_append, foldl_feed_eq, foldl_feed_of_forall hv]
  simp [feed, hx]

theorem lines_append_line (hl : IsLine stop l) :
    lines stop (s ++ l) = lines stop s ++ [rest stop s ++ l] :=
  congrArg Prod.fst (foldl_feed_line hl)

theorem rest_append_line (hl : IsLine stop l) : rest stop (s ++ l) = [] :=
  congrArg Prod.snd (foldl_feed_line hl)

/-- The lines that have been completed do not matter to the reader. -/
theorem foldl_feed_append (ls : List (List α)) (u v : List α) :
    v.foldl (feed stop) (ls, u) =
      (ls ++ (v.foldl (feed stop) ([], u)).1, (v.foldl (feed stop) ([], u)).2) := by
  induction v using List.reverseRecOn with
  | nil => simp
  | append_singleton v x ih =>
      rw [List.foldl_append, List.foldl_append, ih]
      cases hx : stop x <;> simp [feed, hx]

/-- After a completed line the reader starts anew. -/
theorem lines_append_of_rest_nil (hs : rest stop s = []) :
    lines stop (s ++ v) = lines stop s ++ lines stop v := by
  rw [lines, List.foldl_append, foldl_feed_eq, hs, foldl_feed_append]
  rfl

theorem rest_append_of_rest_nil (hs : rest stop s = []) : rest stop (s ++ v) = rest stop v := by
  rw [rest, List.foldl_append, foldl_feed_eq, hs, foldl_feed_append]
  rfl

theorem IsLine.length_pos (hl : IsLine stop l) : 0 < l.length := by
  obtain ⟨v, x, rfl, -, -⟩ := hl
  simp

/-- Nothing is lost: the lines and the rest make up the stream. -/
theorem flatten_lines_append_rest (s : List α) :
    (lines stop s).flatten ++ rest stop s = s := by
  induction s using List.reverseRecOn with
  | nil => rfl
  | append_singleton s x ih =>
      cases hx : stop x with
      | false =>
          rw [lines_append_of_forall (by simpa using hx), rest_append_of_forall (by simpa using hx),
            ← List.append_assoc, ih]
      | true =>
          rw [lines_append_line (isLine_singleton hx), rest_append_line (isLine_singleton hx)]
          simp [← List.append_assoc, ih]

/-- Lines one after the other are read one after the other. -/
theorem lines_flatten {ls : List (List α)} (h : ∀ l ∈ ls, IsLine stop l) :
    lines stop ls.flatten = ls ∧ rest stop ls.flatten = [] := by
  induction ls using List.reverseRecOn with
  | nil => exact ⟨rfl, rfl⟩
  | append_singleton ls l ih =>
      obtain ⟨hlines, hrest⟩ := ih fun l' hl' => h l' (List.mem_append_left _ hl')
      have hl : IsLine stop l := h l List.mem_concat_self
      rw [List.flatten_append, List.flatten_singleton, lines_append_line hl, rest_append_line hl,
        hlines, hrest]
      exact ⟨rfl, rfl⟩

/-- A longer stream has the same lines first. -/
theorem lines_isPrefix (s v : List α) : lines stop s <+: lines stop (s ++ v) := by
  induction v using List.reverseRecOn with
  | nil => simp
  | append_singleton v x ih =>
      rw [← List.append_assoc]
      cases hx : stop x with
      | false => rwa [lines_append_of_forall (by simpa using hx)]
      | true =>
          rw [lines_append_line (isLine_singleton hx)]
          exact ih.trans (List.prefix_append _ _)

/-! ## The first line -/

theorem firstLine_of_findIdx?_none (h : s.findIdx? stop = none) : firstLine stop s = s := by
  rw [firstLine, h]

theorem firstLine_of_findIdx?_some {i : ℕ} (h : s.findIdx? stop = some i) :
    firstLine stop s = s.take (i + 1) := by
  rw [firstLine, h]

theorem forall_of_findIdx?_none (h : s.findIdx? stop = none) : ∀ y ∈ s, stop y = false := by
  simpa using List.findIdx?_eq_none_iff.mp h

/-- Where a terminator is found, the prefix up to it is a line. -/
theorem isLine_take_of_findIdx?_some {i : ℕ} (h : s.findIdx? stop = some i) :
    IsLine stop (s.take (i + 1)) := by
  rw [List.findIdx?_eq_some_iff_getElem] at h
  obtain ⟨hi, hx, hv⟩ := h
  refine ⟨s.take i, s[i], List.take_append_getElem hi |>.symm, by simpa using hx, ?_⟩
  intro y hy
  obtain ⟨j, hj, rfl⟩ := List.mem_take_iff_getElem.mp hy
  simpa using hv j (by omega)

theorem findIdx?_lt_length {i : ℕ} (h : s.findIdx? stop = some i) : i < s.length :=
  (List.findIdx?_eq_some_iff_getElem.mp h).1

/-- The first line of a stream is a prefix of it. -/
theorem firstLine_isPrefix (s : List α) : firstLine stop s <+: s := by
  rw [firstLine]
  split
  · exact List.take_prefix _ _
  · exact List.prefix_rfl

/-- The first line of a stream begins as the stream does. -/
theorem firstLine_cons (x : α) (s : List α) : ∃ t, firstLine stop (x :: s) = x :: t := by
  rw [firstLine]
  split
  · exact ⟨_, List.take_succ_cons⟩
  · exact ⟨s, rfl⟩

theorem firstLine_ne_nil {s : List α} (h : s ≠ []) : firstLine stop s ≠ [] := by
  cases s with
  | nil => exact absurd rfl h
  | cons x s =>
      obtain ⟨t, ht⟩ : ∃ t, firstLine stop (x :: s) = x :: t := firstLine_cons x s
      rw [ht]
      exact List.cons_ne_nil x t

theorem take_firstLine (s : List α) : s.take (firstLine stop s).length = firstLine stop s :=
  (List.prefix_iff_eq_take.mp (firstLine_isPrefix s)).symm

/-- The next line that a longer stream completes. -/
theorem next_line_mem (h : (lines stop s).length < (lines stop (s ++ v)).length) :
    rest stop s ++ firstLine stop v ∈ lines stop (s ++ v) := by
  cases hidx : v.findIdx? stop with
  | none =>
      rw [lines_append_of_forall (forall_of_findIdx?_none hidx)] at h
      exact absurd h (lt_irrefl _)
  | some i =>
      have hline := isLine_take_of_findIdx?_some hidx
      have hpre : lines stop (s ++ v.take (i + 1)) <+:
          lines stop (s ++ v.take (i + 1) ++ v.drop (i + 1)) := lines_isPrefix _ _
      rw [List.append_assoc, List.take_append_drop, lines_append_line hline] at hpre
      rw [firstLine_of_findIdx?_some hidx]
      exact hpre.subset (by simp)

/-! ## The last elements of a list -/

theorem rtake_of_length_le {n : ℕ} (h : s.length ≤ n) : s.rtake n = s := by
  rw [List.rtake.eq_def, Nat.sub_eq_zero_of_le h, List.drop_zero]

/-- Taking one more element from the end. -/
theorem rtake_succ_of_lt {n : ℕ} (h : n < s.length) :
    s.rtake (n + 1) = s[s.length - (n + 1)] :: s.rtake n := by
  rw [List.rtake.eq_def, List.rtake.eq_def, List.drop_eq_getElem_cons (by omega)]
  congr 2
  omega

/-- A short list keeps all its last elements when one is appended. -/
theorem rtake_concat_of_lt {n : ℕ} (h : s.length < n) :
    (s ++ [x]).rtake n = s.rtake n ++ [x] := by
  rw [rtake_of_length_le (by simpa using Nat.succ_le_of_lt h), rtake_of_length_le h.le]

/-- From a long enough list the oldest of the last elements drops out. -/
theorem rtake_concat_of_le {n : ℕ} (h : n < s.length) :
    s.rtake (n + 1) = s[s.length - (n + 1)] :: s.rtake n ∧
      (s ++ [x]).rtake (n + 1) = s.rtake n ++ [x] :=
  ⟨rtake_succ_of_lt h, List.rtake_concat_succ ..⟩

theorem length_rtake_le (s : List α) (n : ℕ) : (s.rtake n).length ≤ n := by
  rw [List.rtake.eq_def, List.length_drop]
  omega

/-- The last elements of a longer list need only the last elements of its beginning. -/
theorem rtake_rtake_append (s t : List α) (n : ℕ) : (s.rtake n ++ t).rtake n = (s ++ t).rtake n := by
  rw [List.rtake.eq_def, List.rtake.eq_def, List.rtake.eq_def]
  by_cases h : s.length ≤ n
  · rw [Nat.sub_eq_zero_of_le h, List.drop_zero]
  · rw [← List.drop_append_of_le_length (by omega), List.drop_drop, List.length_drop,
      List.length_append]
    congr 1
    omega

/-- The last elements of a longer list are those of its beginning exactly if, there being enough of
them, they come again at its end. -/
theorem rtake_append_eq_iff {n : ℕ} {t : List α} (hs : s.length ≤ n) (ht : t ≠ []) :
    (s ++ t).rtake n = s ↔ s.length = n ∧ s <:+ s ++ t := by
  have hpos := List.length_pos_iff.mpr ht
  rw [List.rtake.eq_def, List.suffix_iff_eq_drop, List.length_append]
  constructor
  · intro h
    have hlen := congrArg List.length h
    rw [List.length_drop, List.length_append] at hlen
    have hn : s.length = n := by omega
    rw [hn] at h ⊢
    exact ⟨rfl, h.symm⟩
  · rintro ⟨rfl, h⟩
    exact h.symm

/-! ## The reader with a bounded store of lines -/

/-- One reader step, of which the last `n` lines are kept. -/
def feedKeeping (n : ℕ) (stop : α → Bool) (acc : List (List α) × List α) (x : α) :
    List (List α) × List α := ((feed stop acc x).1.rtake n, (feed stop acc x).2)

/-- What is kept of a stream. -/
theorem foldl_feedKeeping (n : ℕ) (s v : List α) :
    v.foldl (feedKeeping n stop) ((lines stop s).rtake n, rest stop s) =
      ((lines stop (s ++ v)).rtake n, rest stop (s ++ v)) := by
  induction v using List.reverseRecOn with
  | nil => simp
  | append_singleton v x ih =>
      rw [List.foldl_append, ih, List.foldl_cons, List.foldl_nil, ← List.append_assoc, feedKeeping,
        feed]
      cases hx : stop x with
      | false =>
          have hforall : ∀ y ∈ [x], stop y = false := by simpa using hx
          have hagain := rtake_rtake_append (lines stop (s ++ v)) [] n
          rw [List.append_nil, List.append_nil] at hagain
          rw [lines_append_of_forall hforall, rest_append_of_forall hforall, if_neg (by simp), hagain]
      | true =>
          rw [lines_append_line (isLine_singleton hx), rest_append_line (isLine_singleton hx),
            ← rtake_rtake_append]
          rfl

/-- What follows the first line. -/
def afterFirstLine (stop : α → Bool) (v : List α) : List α := v.drop (firstLine stop v).length

theorem firstLine_append_afterFirstLine (v : List α) :
    firstLine stop v ++ afterFirstLine stop v = v :=
  List.prefix_iff_eq_append.mp (firstLine_isPrefix v)

/-- Something follows the first line only if it is terminated. -/
theorem isLine_firstLine (h : afterFirstLine stop v ≠ []) : IsLine stop (firstLine stop v) := by
  cases hidx : v.findIdx? stop with
  | none =>
      rw [afterFirstLine, firstLine_of_findIdx?_none hidx, List.drop_length] at h
      exact absurd rfl h
  | some i =>
      rw [firstLine_of_findIdx?_some hidx]
      exact isLine_take_of_findIdx?_some hidx

/-- **When the first line is as good as the whole piece**: nothing follows it, or what follows is
whole lines behind which the lines kept are again the last ones. -/
theorem foldl_feedKeeping_eq_firstLine_iff (n : ℕ) (s v : List α) :
    v.foldl (feedKeeping n stop) ((lines stop s).rtake n, rest stop s) =
        ((lines stop (s ++ firstLine stop v)).rtake n, rest stop (s ++ firstLine stop v)) ↔
      afterFirstLine stop v = [] ∨
        ((lines stop (s ++ firstLine stop v)).rtake n).length = n ∧
          rest stop (afterFirstLine stop v) = [] ∧
          (lines stop (s ++ firstLine stop v)).rtake n <:+
            (lines stop (s ++ firstLine stop v)).rtake n ++ lines stop (afterFirstLine stop v) := by
  have hcut : firstLine stop v ++ afterFirstLine stop v = v := firstLine_append_afterFirstLine v
  rw [foldl_feedKeeping]
  by_cases hlater : afterFirstLine stop v = []
  · rw [hlater, List.append_nil] at hcut
    rw [hcut]
    exact iff_of_true rfl (.inl hlater)
  have hrest : rest stop (s ++ firstLine stop v) = [] := rest_append_line (isLine_firstLine hlater)
  have hwhole : s ++ v = s ++ firstLine stop v ++ afterFirstLine stop v := by
    rw [List.append_assoc, hcut]
  rw [hwhole, lines_append_of_rest_nil hrest, rest_append_of_rest_nil hrest, hrest, Prod.mk.injEq,
    ← rtake_rtake_append, or_iff_right hlater]
  by_cases hend : rest stop (afterFirstLine stop v) = []
  · -- then it is made of lines, and there is one
    have hlines : lines stop (afterFirstLine stop v) ≠ [] := by
      intro hnone
      apply hlater
      have hall : (lines stop (afterFirstLine stop v)).flatten ++ rest stop (afterFirstLine stop v) =
          afterFirstLine stop v := flatten_lines_append_rest _
      rw [← hall, hnone, hend]
      rfl
    rw [and_iff_left hend, rtake_append_eq_iff (length_rtake_le _ _) hlines,
      and_iff_right (a := rest stop (afterFirstLine stop v) = []) hend]
  · exact iff_of_false (fun h => hend h.2) fun h => hend h.2.1

/-! ## What a reader has caught of a stream -/

/-- Between the positions `start` and `pos` of the stream the reader has got these symbols, in their
order, and may have missed others. -/
def Caught (s : List α) (start pos : ℕ) (got : List α) : Prop := got.Sublist ((s.take pos).drop start)

/-- Before it has read anything. -/
theorem caught_nil (s : List α) (start : ℕ) : Caught s start start [] := List.nil_sublist _

/-- The stream has grown, and the reader may have been carried on. -/
theorem Caught.mono {s s' got : List α} {start pos pos' : ℕ} (h : Caught s start pos got)
    (hs : s <+: s') (hpos : pos ≤ pos') : Caught s' start pos' got := by
  obtain ⟨v, rfl⟩ := hs
  have hprefix : s.take pos <+: (s ++ v).take pos' := by
    rw [List.take_append]
    exact (List.take_prefix_take_left hpos).trans (List.prefix_append _ _)
  obtain ⟨u, hu⟩ := hprefix
  rw [Caught, ← hu, List.drop_append]
  exact h.trans (List.sublist_append_left _ _)

/-- The reader reads a piece. -/
theorem Caught.read {s got piece : List α} {start pos : ℕ} (h : Caught s start pos got)
    (hle : start ≤ pos) (hpiece : piece <+: s.drop pos) :
    Caught s start (pos + piece.length) (got ++ piece) := by
  obtain ⟨v, hv⟩ := hpiece
  have htake : s.take (pos + piece.length) = s.take pos ++ piece := by
    rw [List.take_add, ← hv, List.take_left]
  by_cases hlen : pos ≤ s.length
  · rw [Caught, htake, List.drop_append_of_le_length (by rw [List.length_take]; omega)]
    exact h.append (List.Sublist.refl _)
  -- nothing is read behind the end
  · rw [List.drop_eq_nil_of_le (by omega)] at hv
    obtain rfl := (List.append_eq_nil_iff.mp hv).1
    rw [List.append_nil, List.length_nil, Nat.add_zero]
    exact h

end Streams

import Aesd.Memory.Heap
import Aesd.Streams.Lines
import Aesd.Streams.Locate
import Mathlib.Data.List.Rotate
import Mathlib.Tactic.Common

/-! # The circular buffer (`aesd-circular-buffer.c`)

The ten-slot ring of buffer entries with its two `uint8_t` offsets and the `full` flag, its three
operations, and what it stands for: **`HoldsLast buffer es`** says that the buffer is what adding
the entries `es` in order to an initialised buffer leaves behind, that is, it holds the last ten of
them. Everything else about the ring is read off this relation: `retained`, the walk from `out_offs`
that the lookup makes, is `es.rtake 10`, and the lookup is `Streams.locate` on the retained sizes.
-/

namespace Aesd.CharDriver

open Memory Streams

/-- `AESDCHAR_MAX_WRITE_OPERATIONS_SUPPORTED`. -/
abbrev aesdcharMaxWriteOperationsSupported : ℕ := 10

/-- `struct aesd_buffer_entry`. -/
structure AesdBufferEntry where
  /-- Where the contents are stored. -/
  buffptr : Ptr
  /-- Number of bytes stored in `buffptr`, a `size_t`. -/
  size : ℕ
  deriving DecidableEq, Repr

/-- An entry of zero bytes, as `memset` leaves it. -/
def AesdBufferEntry.zero : AesdBufferEntry := ⟨.null, 0⟩

/-- `struct aesd_circular_buffer`. -/
structure AesdCircularBuffer where
  /-- The slots. -/
  entry : Vector AesdBufferEntry aesdcharMaxWriteOperationsSupported
  /-- Where the next entry is stored. -/
  inOffs : ℕ
  /-- The first slot to read from. -/
  outOffs : ℕ
  /-- Set when every slot is in use. -/
  full : Bool
  /-- `in_offs` is a slot number. -/
  inOffs_lt : inOffs < aesdcharMaxWriteOperationsSupported
  /-- `out_offs` is a slot number. -/
  outOffs_lt : outOffs < aesdcharMaxWriteOperationsSupported

/-- The entry in slot `i % AESDCHAR_MAX_WRITE_OPERATIONS_SUPPORTED`. -/
def AesdCircularBuffer.slot (buffer : AesdCircularBuffer) (i : ℕ) : AesdBufferEntry :=
  have : i % aesdcharMaxWriteOperationsSupported < aesdcharMaxWriteOperationsSupported :=
    Nat.mod_lt _ (by decide)
  buffer.entry[i % aesdcharMaxWriteOperationsSupported]

/-- `size_t` addition. -/
def sizeAdd (a b : ℕ) : ℕ := (a + b) % 2 ^ 64

/-- `aesd_circular_buffer_init`: every byte of the structure is zero. -/
def aesdCircularBufferInit : AesdCircularBuffer where
  entry := Vector.replicate _ AesdBufferEntry.zero
  inOffs := 0
  outOffs := 0
  full := false
  inOffs_lt := by decide
  outOffs_lt := by decide

/-- `aesd_circular_buffer_add_entry`: the overwritten `buffptr` and the buffer afterwards. -/
def aesdCircularBufferAddEntry (buffer : AesdCircularBuffer) (addEntry : AesdBufferEntry) :
    Ptr × AesdCircularBuffer :=
  let overwritten := if buffer.full then (buffer.slot buffer.outOffs).buffptr else .null
  let entry := buffer.entry.set buffer.inOffs addEntry buffer.inOffs_lt
  let inOffs := (buffer.inOffs + 1) % aesdcharMaxWriteOperationsSupported
  let outOffs :=
    if buffer.full then (buffer.outOffs + 1) % aesdcharMaxWriteOperationsSupported
    else buffer.outOffs
  (overwritten,
    { entry, inOffs, outOffs
      full := inOffs == outOffs
      inOffs_lt := Nat.mod_lt _ (by decide)
      outOffs_lt := by
        show (if buffer.full then _ else _) < _
        split
        · exact Nat.mod_lt _ (by decide)
        · exact buffer.outOffs_lt })

/-- How many entries the lookup visits. -/
def AesdCircularBuffer.count (buffer : AesdCircularBuffer) : ℕ :=
  if buffer.full then aesdcharMaxWriteOperationsSupported else buffer.inOffs

/-- The loop of the lookup from round `i` on, with `remaining` rounds to go: the slot that holds
`charOffset` and the offset inside its entry. -/
def findEntryFrom (buffer : AesdCircularBuffer) (charOffset : ℕ) :
    (remaining i bytesSoFar : ℕ) → Option (ℕ × ℕ)
  | 0, _, _ => none
  | remaining + 1, i, bytesSoFar =>
      let index := (buffer.outOffs + i) % aesdcharMaxWriteOperationsSupported
      let next := sizeAdd bytesSoFar (buffer.slot index).size
      -- `bytesSoFar ≤ charOffset` here, so the `size_t` subtraction does not wrap
      if charOffset < next then some (index, charOffset - bytesSoFar)
      else findEntryFrom buffer charOffset remaining (i + 1) next

/-- `aesd_circular_buffer_find_entry_offset_for_fpos`: the slot of the returned entry together with
the value stored through `entry_offset_byte_rtn`, or `none` for `NULL`. -/
def aesdCircularBufferFindEntryOffsetForFpos (buffer : AesdCircularBuffer) (charOffset : ℕ) :
    Option (ℕ × ℕ) :=
  findEntryFrom buffer charOffset buffer.count 0 0

namespace AesdCircularBuffer

variable {buffer : AesdCircularBuffer} {es : List AesdBufferEntry}

@[simp] theorem slot_mod (i : ℕ) : buffer.slot (i % 10) = buffer.slot i := by
  simp only [slot, Nat.mod_mod]

/-- Slots are read by their number modulo ten. -/
theorem slot_congr {i j : ℕ} (h : i % 10 = j % 10) : buffer.slot i = buffer.slot j := by
  rw [← slot_mod i, h, slot_mod]

theorem slot_init (i : ℕ) : aesdCircularBufferInit.slot i = AesdBufferEntry.zero := by
  simp [slot, aesdCircularBufferInit]

/-- The entries visited from `out_offs`, oldest first. -/
def retained (buffer : AesdCircularBuffer) : List AesdBufferEntry :=
  (List.range buffer.count).map fun i => buffer.slot (buffer.outOffs + i)

/-- The buffer is what adding `es` one after the other to an initialised buffer leaves behind. -/
structure HoldsLast (buffer : AesdCircularBuffer) (es : List AesdBufferEntry) : Prop where
  /-- The next entry goes behind the last one. -/
  inOffs : buffer.inOffs = es.length % 10
  /-- The oldest retained entry is the first, or the one ten before the next. -/
  outOffs : buffer.outOffs = (es.length - 10) % 10
  /-- The flag tells whether there have been ten entries. -/
  full : buffer.full = decide (10 ≤ es.length)
  /-- The `j`-th entry, when among the last ten, is in slot `j % 10`. -/
  slot : ∀ (j : ℕ) (hj : j < es.length), es.length ≤ j + 10 → buffer.slot j = es[j]
  /-- A slot not used yet is zero. -/
  unused : ∀ i, es.length ≤ i → i < 10 → buffer.slot i = AesdBufferEntry.zero

theorem holdsLast_init : HoldsLast aesdCircularBufferInit [] where
  inOffs := rfl
  outOffs := rfl
  full := rfl
  slot j hj := absurd hj (by simp)
  unused i _ _ := slot_init i

/-- Storing into one slot changes this slot only. -/
theorem slot_addEntry (e : AesdBufferEntry) (i : ℕ) :
    (aesdCircularBufferAddEntry buffer e).2.slot i =
      if i % 10 = buffer.inOffs then e else buffer.slot i := by
  simp only [slot, aesdCircularBufferAddEntry, Vector.getElem_set, eq_comm]

/-- Adding an entry appends it to what the buffer has seen. -/
theorem HoldsLast.addEntry (h : HoldsLast buffer es) (e : AesdBufferEntry) :
    HoldsLast (aesdCircularBufferAddEntry buffer e).2 (es ++ [e]) := by
  have hin : (aesdCircularBufferAddEntry buffer e).2.inOffs = (es.length + 1) % 10 := by
    simp only [aesdCircularBufferAddEntry, aesdcharMaxWriteOperationsSupported, h.inOffs]; omega
  have hout : (aesdCircularBufferAddEntry buffer e).2.outOffs = (es.length + 1 - 10) % 10 := by
    simp only [aesdCircularBufferAddEntry, aesdcharMaxWriteOperationsSupported, h.outOffs, h.full,
      decide_eq_true_eq]
    split <;> omega
  refine ⟨by simpa using hin, by simpa using hout, ?_, fun j hj hj' => ?_, fun i hi hi' => ?_⟩
  · have hfull : (aesdCircularBufferAddEntry buffer e).2.full =
        ((aesdCircularBufferAddEntry buffer e).2.inOffs
          == (aesdCircularBufferAddEntry buffer e).2.outOffs) := rfl
    rw [hfull, hin, hout, Bool.eq_iff_iff, beq_iff_eq, decide_eq_true_eq, List.length_append,
      List.length_singleton]
    omega
  · rw [List.length_append, List.length_singleton] at hj hj'
    rw [slot_addEntry, h.inOffs]
    by_cases hlast : j = es.length
    · rw [if_pos (by rw [hlast])]; simp [hlast]
    · rw [if_neg (by omega), List.getElem_append_left (by omega)]
      exact h.slot j (by omega) (by omega)
  · rw [List.length_append, List.length_singleton] at hi
    rw [slot_addEntry, h.inOffs, if_neg (by omega)]
    exact h.unused i (by omega) hi'

/-- Before ten entries have been added nothing is overwritten. -/
theorem HoldsLast.overwritten_of_lt (h : HoldsLast buffer es) (e : AesdBufferEntry)
    (hes : es.length < 10) : (aesdCircularBufferAddEntry buffer e).1 = .null := by
  simp only [aesdCircularBufferAddEntry, h.full, decide_eq_true_eq]
  rw [if_neg (by omega)]

/-- From then on each add hands back the pointer of the entry added ten adds before. -/
theorem HoldsLast.overwritten_of_le (h : HoldsLast buffer es) (e : AesdBufferEntry)
    (hes : 10 ≤ es.length) :
    (aesdCircularBufferAddEntry buffer e).1 = es[es.length - 10].buffptr := by
  simp only [aesdCircularBufferAddEntry, h.full, decide_eq_true_eq]
  rw [if_pos hes, ← h.slot (es.length - 10) (by omega) (by omega), h.outOffs, slot_mod]

theorem HoldsLast.count_eq (h : HoldsLast buffer es) : buffer.count = min es.length 10 := by
  simp only [count, aesdcharMaxWriteOperationsSupported, h.full, decide_eq_true_eq, h.inOffs]
  split <;> omega

/-- The retained entries are the last ten added. -/
theorem HoldsLast.retained_eq (h : HoldsLast buffer es) : buffer.retained = es.rtake 10 := by
  rw [List.rtake.eq_def]
  refine List.ext_getElem (by simp [retained, h.count_eq]; omega) fun i hi hi' => ?_
  simp only [retained, List.length_map, List.length_range, h.count_eq] at hi
  simp only [retained, List.getElem_map, List.getElem_range, List.getElem_drop]
  rw [← h.slot (es.length - 10 + i) (by omega) (by omega)]
  exact slot_congr (by rw [h.outOffs]; omega)

/-- The slots, read in the order of their numbers. -/
theorem toList_entry : buffer.entry.toList = (List.range 10).map buffer.slot := by
  refine List.ext_getElem (by simp) fun i hi hi' => ?_
  have h : i < 10 := by simpa using hi'
  simp only [Vector.getElem_toList, List.getElem_map, List.getElem_range, slot,
    aesdcharMaxWriteOperationsSupported, Nat.mod_eq_of_lt h]

/-- **The slots are the retained entries and zero slots.** -/
theorem HoldsLast.toList_entry_perm (h : HoldsLast buffer es) :
    buffer.entry.toList.Perm
      (buffer.retained ++ List.replicate (10 - buffer.count) AesdBufferEntry.zero) := by
  have hrotate : (List.range 10).map (fun i => buffer.slot (buffer.outOffs + i)) =
      buffer.entry.toList.rotate buffer.outOffs := by
    rw [toList_entry]
    refine List.ext_getElem (by simp) fun i hi hi' => ?_
    rw [List.getElem_rotate]
    simp only [List.getElem_map, List.getElem_range, List.length_map, List.length_range, slot_mod]
    rw [Nat.add_comm]
  have hcount : buffer.count ≤ 10 := by rw [h.count_eq]; exact Nat.min_le_right _ _
  have hsplit : List.range 10 = List.range buffer.count ++
      (List.range (10 - buffer.count)).map (buffer.count + ·) := by
    rw [← List.range_add, Nat.add_sub_cancel' hcount]
  -- the slots behind the retained ones have never been used
  have hunused : ((List.range (10 - buffer.count)).map (buffer.count + ·)).map
      (fun i => buffer.slot (buffer.outOffs + i)) =
        List.replicate (10 - buffer.count) AesdBufferEntry.zero := by
    refine List.ext_getElem (by simp) fun i hi hi' => ?_
    simp only [List.length_map, List.length_range, h.count_eq] at hi
    simp only [List.getElem_map, List.getElem_range, List.getElem_replicate, h.count_eq]
    rw [h.outOffs, Nat.sub_eq_zero_of_le (by omega : es.length ≤ 10), Nat.zero_mod, Nat.zero_add]
    exact h.unused _ (by omega) (by omega)
  refine (List.rotate_perm buffer.entry.toList buffer.outOffs).symm.trans (.of_eq ?_)
  rw [← hrotate, hsplit, List.map_append, hunused, retained]

/-- What one add does to the retained entries: the ring grows, or its oldest entry gives way and its
pointer is handed back. -/
theorem HoldsLast.retained_addEntry (h : HoldsLast buffer es) (e : AesdBufferEntry) :
    (es.length < 10 ∧ (aesdCircularBufferAddEntry buffer e).1 = .null ∧
      (aesdCircularBufferAddEntry buffer e).2.retained = buffer.retained ++ [e]) ∨
    (10 ≤ es.length ∧ ∃ old kept, buffer.retained = old :: kept ∧
      (aesdCircularBufferAddEntry buffer e).1 = old.buffptr ∧
      (aesdCircularBufferAddEntry buffer e).2.retained = kept ++ [e]) := by
  rw [(h.addEntry e).retained_eq, h.retained_eq]
  by_cases hes : es.length < 10
  · exact .inl ⟨hes, h.overwritten_of_lt e hes, rtake_concat_of_lt hes⟩
  · obtain ⟨hold, hnew⟩ := rtake_concat_of_le (s := es) (x := e) (n := 9) (by omega)
    exact .inr ⟨by omega, _, _, hold, h.overwritten_of_le e (by omega), hnew⟩

/-- The lookup's loop is `locate` on the sizes of the entries it still has to visit, as long as
their sum does not wrap. -/
theorem findEntryFrom_eq (charOffset : ℕ) (remaining i bytesSoFar : ℕ)
    (hle : bytesSoFar ≤ charOffset)
    (hsum : bytesSoFar +
      ((List.range' i remaining).map fun j => (buffer.slot (buffer.outOffs + j)).size).sum
        < 2 ^ 64) :
    findEntryFrom buffer charOffset remaining i bytesSoFar =
      (locate ((List.range' i remaining).map fun j => (buffer.slot (buffer.outOffs + j)).size)
        (charOffset - bytesSoFar)).map
        fun q => ((buffer.outOffs + (i + q.1)) % 10, q.2) := by
  induction remaining generalizing i bytesSoFar with
  | zero => rfl
  | succ remaining ih =>
      rw [List.range'_succ, List.map_cons, List.sum_cons] at hsum
      rw [findEntryFrom, List.range'_succ, List.map_cons, locate]
      simp only [slot_mod]
      -- the sum of all sizes fits, so that of the first ones does not wrap
      have hnext : sizeAdd bytesSoFar (buffer.slot (buffer.outOffs + i)).size =
          bytesSoFar + (buffer.slot (buffer.outOffs + i)).size := Nat.mod_eq_of_lt (by omega)
      rw [hnext]
      by_cases h : charOffset < bytesSoFar + (buffer.slot (buffer.outOffs + i)).size
      · rw [if_pos h, if_pos (by omega)]; rfl
      -- the offset is counted from the next entry on
      · rw [if_neg h, if_neg (by omega), ih _ _ (by omega) (by omega), Option.map_map,
          Nat.sub_add_eq]
        refine congrArg (Option.map · _) (funext fun q => ?_)
        simp only [Function.comp_apply, Prod.mk.injEq, and_true]
        congr 1
        omega

/-- The lookup finds the position among the retained entries, oldest first. -/
theorem find_eq_locate (charOffset : ℕ)
    (hsum : (buffer.retained.map AesdBufferEntry.size).sum < 2 ^ 64) :
    aesdCircularBufferFindEntryOffsetForFpos buffer charOffset =
      (locate (buffer.retained.map AesdBufferEntry.size) charOffset).map
        fun q => ((buffer.outOffs + q.1) % 10, q.2) := by
  have hsizes : buffer.retained.map AesdBufferEntry.size =
      (List.range' 0 buffer.count).map fun j => (buffer.slot (buffer.outOffs + j)).size := by
    rw [retained, List.map_map, List.range_eq_range']; rfl
  rw [hsizes] at hsum ⊢
  rw [aesdCircularBufferFindEntryOffsetForFpos, findEntryFrom_eq _ _ _ _ (by omega) (by omega)]
  simp

end AesdCircularBuffer

end Aesd.CharDriver

import Aesd.CharDriver.CircularBuffer
import Aesd.Streams.BoundedQueue

/-! # The ring over whole runs

The ring is a bounded queue: it **shows** one (`Shows`), and adding an entry is pushing it
(`Shows.addEntry`), where the pointer handed back is the one of the entry that the queue hands back.
So after any sequence of adds it holds the last ten entries, and every pointer that was added is
still there or has been handed back once (`addEntries_lastTen`). The lookup is exact on what is left
(`findInto_exact`). -/

namespace Aesd.CharDriver

open Memory Streams

namespace AesdCircularBuffer

variable {buffer : AesdCircularBuffer} {es : List AesdBufferEntry} {e : AesdBufferEntry}
  {q : BoundedQueue AesdBufferEntry 10}

/-- The ring shows the queue of the entries visited from `out_offs`. -/
structure Shows (buffer : AesdCircularBuffer) (q : BoundedQueue AesdBufferEntry 10) : Prop where
  /-- It has been filled by adding entries. -/
  filled : ∃ es, buffer.HoldsLast es
  /-- It retains what is in the queue. -/
  retained : buffer.retained = q.toList

theorem shows_init : Shows aesdCircularBufferInit .empty := ⟨⟨[], holdsLast_init⟩, rfl⟩

theorem HoldsLast.length_retained (h : HoldsLast buffer es) :
    buffer.retained.length = min es.length 10 := by
  rw [AesdCircularBuffer.retained, List.length_map, List.length_range, h.count_eq]

/-- **Adding is pushing.** -/
theorem Shows.addEntry (h : Shows buffer q) (e : AesdBufferEntry) :
    (aesdCircularBufferAddEntry buffer e).1 = (q.push e).1.elim .null AesdBufferEntry.buffptr ∧
      Shows (aesdCircularBufferAddEntry buffer e).2 (q.push e).2 := by
  obtain ⟨es, hes⟩ := h.filled
  have hlen := hes.length_retained
  rw [h.retained] at hlen
  have hfilled : ∃ es', (aesdCircularBufferAddEntry buffer e).2.HoldsLast es' := ⟨_, hes.addEntry e⟩
  rcases hes.retained_addEntry e with ⟨hlt, hptr, hkept⟩ | ⟨hle, old, kept, hold, hptr, hkept⟩
  · obtain ⟨hnone, hlist⟩ := q.push_of_lt e (by omega)
    rw [hnone, hptr]
    exact ⟨rfl, hfilled, by rw [hkept, h.retained, hlist]⟩
  · obtain ⟨hhead, htail⟩ := q.push_of_le e (by omega)
    rw [← h.retained, hold] at hhead htail
    rw [hhead, hptr]
    exact ⟨rfl, hfilled, hkept.trans htail.symm⟩

/-- Add entries one after the other: what each add has returned, and the buffer. -/
def addEntries : AesdCircularBuffer → List AesdBufferEntry → List Ptr × AesdCircularBuffer
  | buffer, [] => ([], buffer)
  | buffer, e :: es =>
      let (overwritten, buffer) := aesdCircularBufferAddEntry buffer e
      let (later, buffer) := addEntries buffer es
      (overwritten :: later, buffer)

/-- The run lemma. -/
theorem Shows.addEntries (h : Shows buffer q) (es : List AesdBufferEntry) :
    (buffer.addEntries es).1 =
        (q.pushAll es).1.map (fun r => r.elim .null AesdBufferEntry.buffptr) ∧
      Shows (buffer.addEntries es).2 (q.pushAll es).2 := by
  induction es generalizing buffer q with
  | nil => exact ⟨rfl, h⟩
  | cons e es ih =>
      obtain ⟨hptr, hnext⟩ := h.addEntry e
      obtain ⟨hptrs, hlast⟩ := ih hnext
      refine ⟨?_, hlast⟩
      rw [BoundedQueue.pushAll, List.map_cons, ← hptr, ← hptrs]
      rfl

theorem HoldsLast.addEntries (h : HoldsLast buffer es) (es' : List AesdBufferEntry) :
    HoldsLast (buffer.addEntries es').2 (es ++ es') := by
  induction es' generalizing buffer es with
  | nil => rwa [List.append_nil]
  | cons e es' ih =>
      rw [List.append_cons]
      exact ih (h.addEntry e)

/-- The slots that are not visited from `out_offs` have never been used. -/
theorem HoldsLast.slot_of_not_visited (h : HoldsLast buffer es) {i : ℕ} (hi : i < 10)
    (hno : ∀ j < buffer.count, (buffer.outOffs + j) % 10 ≠ i) : buffer.slot i = .zero := by
  rw [h.count_eq, h.outOffs] at hno
  refine h.unused i ?_ hi
  by_contra hlt
  by_cases hten : 10 ≤ es.length
  · -- all the slots are visited
    have hno := hno ((i + 10 - (es.length - 10) % 10) % 10) (by omega)
    omega
  · exact hno i (by omega) (by omega)

/-- **The circular buffer is a bounded queue of the last ten entries.** After adding any entries to
an initialised buffer: the slots visited from `out_offs` hold the last ten of them, oldest first,
and the others are zero; `full` is set from the tenth on; each add has returned the pointer of the
entry added ten adds before, or null if there is none; so the pointers returned from the eleventh
add on, followed by those still in the buffer, are the pointers that have been added, in order. -/
theorem addEntries_lastTen (es : List AesdBufferEntry) :
    let run := aesdCircularBufferInit.addEntries es
    run.2.retained = es.drop (es.length - 10) ∧
      (∀ i < 10, (∀ j < run.2.count, (run.2.outOffs + j) % 10 ≠ i) → run.2.slot i = .zero) ∧
      (run.2.full = true ↔ 10 ≤ es.length) ∧
      run.1.length = es.length ∧
      (∀ n, (hn : n < es.length) →
        run.1[n]? = some (if n < 10 then .null else es[n - 10].buffptr)) ∧
      run.1.drop 10 ++ run.2.retained.map AesdBufferEntry.buffptr =
        es.map AesdBufferEntry.buffptr := by
  intro run
  have hholds : run.2.HoldsLast es := holdsLast_init.addEntries es
  obtain ⟨hptrs, hshows⟩ := shows_init.addEntries es
  have hretained : run.2.retained = es.drop (es.length - 10) :=
    hshows.retained.trans (BoundedQueue.toList_pushAll.trans (List.rtake.eq_def ..))
  have hlength : run.1.length = es.length := by
    rw [hptrs, List.length_map, BoundedQueue.length_pushAll_fst]
  have hreturned : ∀ n, (hn : n < es.length) →
      run.1[n]? = some (if n < 10 then .null else es[n - 10].buffptr) := by
    intro n hn
    rw [hptrs, List.getElem?_map, BoundedQueue.getElem?_pushAll_fst hn, Option.map_some]
    simp only [BoundedQueue.empty, List.length_nil, Nat.zero_add, List.nil_append]
    by_cases h : n < 10
    · rw [if_pos h, if_pos h]
      rfl
    · rw [if_neg h, if_neg h, List.getElem?_eq_getElem (by omega)]
      rfl
  refine ⟨hretained, fun i hi hno => hholds.slot_of_not_visited hi hno, ?_, hlength, hreturned, ?_⟩
  · rw [hholds.full, decide_eq_true_eq]
  · -- the pointer at a place is handed back ten adds later, or is still in the buffer
    have hdrop : run.1.drop 10 = (es.take (es.length - 10)).map AesdBufferEntry.buffptr := by
      refine List.ext_getElem? fun i => ?_
      rw [List.getElem?_drop, List.getElem?_map, List.getElem?_take]
      by_cases hi : i < es.length - 10
      · rw [hreturned (10 + i) (by omega), if_pos hi, if_neg (by omega),
          List.getElem?_eq_getElem (by omega), Option.map_some]
        simp only [Nat.add_sub_cancel_left]
      · rw [if_neg hi, List.getElem?_eq_none (by omega)]
        rfl
    rw [hdrop, hretained, ← List.map_append, List.take_append_drop]

/-! ### The lookup -/

/-- The loop of the lookup over the memory `rtn` at `entry_offset_byte_rtn`: the slot of the
returned entry, and the memory afterwards. -/
def findEntryInto (buffer : AesdCircularBuffer) (charOffset : ℕ) :
    (remaining i bytesSoFar rtn : ℕ) → Option ℕ × ℕ
  | 0, _, _, rtn => (none, rtn)
  | remaining + 1, i, bytesSoFar, rtn =>
      let index := (buffer.outOffs + i) % aesdcharMaxWriteOperationsSupported
      let next := sizeAdd bytesSoFar (buffer.slot index).size
      if charOffset < next then (some index, charOffset - bytesSoFar)
      else findEntryInto buffer charOffset remaining (i + 1) next rtn

/-- The lookup stores an offset when it returns an entry, and only then. -/
theorem findEntryInto_eq (charOffset : ℕ) (remaining i bytesSoFar rtn : ℕ) :
    buffer.findEntryInto charOffset remaining i bytesSoFar rtn =
      ((findEntryFrom buffer charOffset remaining i bytesSoFar).map Prod.fst,
        (findEntryFrom buffer charOffset remaining i bytesSoFar).elim rtn Prod.snd) := by
  induction remaining generalizing i bytesSoFar with
  | zero => rfl
  | succ remaining ih =>
      rw [findEntryInto, findEntryFrom]
      split_ifs with h
      · rfl
      · exact ih _ _

/-- `aesd_circular_buffer_find_entry_offset_for_fpos` over the memory at `entry_offset_byte_rtn`. -/
def findInto (buffer : AesdCircularBuffer) (charOffset rtn : ℕ) : Option ℕ × ℕ :=
  buffer.findEntryInto charOffset buffer.count 0 0 rtn

theorem findInto_eq (charOffset rtn : ℕ) : buffer.findInto charOffset rtn =
    ((aesdCircularBufferFindEntryOffsetForFpos buffer charOffset).map Prod.fst,
      (aesdCircularBufferFindEntryOffsetForFpos buffer charOffset).elim rtn Prod.snd) :=
  findEntryInto_eq _ _ _ _ _

/-- The entry visited in round `i`. -/
theorem slot_of_retained {i : ℕ} (h : buffer.retained[i]? = some e) :
    buffer.slot (buffer.outOffs + i) = e := by
  obtain ⟨hi, rfl⟩ := List.getElem?_eq_some_iff.mp h
  simp only [AesdCircularBuffer.retained, List.getElem_map, List.getElem_range]

/-- The older entries hold `p` characters less the offset `o`, which is inside the entry `i`. -/
def HoldsAt (entries : List AesdBufferEntry) (p i o : ℕ) (e : AesdBufferEntry) : Prop :=
  entries[i]? = some e ∧ o < e.size ∧ ((entries.take i).map AesdBufferEntry.size).sum + o = p

/-- A place inside the entries. -/
theorem holdsAt_iff {entries : List AesdBufferEntry} {p i o : ℕ} :
    (∃ e, HoldsAt entries p i o e) ↔ (i, o) ∈ places (entries.map AesdBufferEntry.size) ∧
      position (entries.map AesdBufferEntry.size) (i, o) = p := by
  unfold HoldsAt places position
  simp only [List.getElem?_map, Option.map_eq_some_iff, Set.mem_ofPred_eq, List.map_take]
  constructor
  · rintro ⟨e, he, ho, hp⟩
    exact ⟨⟨_, ⟨e, he, rfl⟩, ho⟩, hp⟩
  · rintro ⟨⟨_, ⟨e, he, rfl⟩, ho⟩, hp⟩
    exact ⟨e, he, ho, hp⟩

/-- **Position lookup is exact.** After adding any entries to an initialised buffer, as long as the
retained sizes add up to a `size_t`: past the end of the retained entries, laid end to end from the
oldest on, the lookup returns null and stores nothing; before the end it returns the slot of the one
retained entry that holds the character, and stores the offset inside it. -/
theorem findInto_exact (es : List AesdBufferEntry) (charOffset rtn : ℕ)
    (hsum : ((es.drop (es.length - 10)).map AesdBufferEntry.size).sum < 2 ^ 64) :
    let buffer := (aesdCircularBufferInit.addEntries es).2
    let entries := es.drop (es.length - 10)
    ((entries.map AesdBufferEntry.size).sum ≤ charOffset →
        buffer.findInto charOffset rtn = (none, rtn)) ∧
      (charOffset < (entries.map AesdBufferEntry.size).sum → ∃ i o e,
        HoldsAt entries charOffset i o e ∧ buffer.slot (buffer.outOffs + i) = e ∧
          buffer.findInto charOffset rtn = (some ((buffer.outOffs + i) % 10), o) ∧
          ∀ i' o' e', HoldsAt entries charOffset i' o' e' → i' = i ∧ o' = o ∧ e' = e) := by
  intro buffer entries
  have hretained : buffer.retained = entries := (addEntries_lastTen es).1
  have hfind : aesdCircularBufferFindEntryOffsetForFpos buffer charOffset = _ :=
    find_eq_locate charOffset (hretained ▸ hsum)
  rw [hretained] at hfind
  constructor
  · intro hpast
    rw [findInto_eq, hfind, locate_eq_none_iff.mpr hpast]
    rfl
  · intro hbefore
    cases hloc : locate (entries.map AesdBufferEntry.size) charOffset with
    | none => exact absurd (locate_eq_none_iff.mp hloc) (not_le.mpr hbefore)
    | some place =>
        obtain ⟨i, o⟩ := place
        obtain ⟨e, he⟩ := holdsAt_iff.mpr (mem_places_of_locate hloc)
        refine ⟨i, o, e, he, slot_of_retained (hretained ▸ he.1), ?_, fun i' o' e' he' => ?_⟩
        · rw [findInto_eq, hfind, hloc]
          rfl
        · -- a place that holds the character is found by the same lookup
          obtain ⟨hmem, hpos⟩ := holdsAt_iff.mp ⟨e', he'⟩
          have hplace := locate_position hmem
          rw [hpos, hloc, Option.some.injEq, Prod.mk.injEq] at hplace
          obtain ⟨rfl, rfl⟩ := hplace
          exact ⟨rfl, rfl, Option.some.inj (he'.1.symm.trans he.1)⟩

/-- The last of four characters, behind an empty entry. -/
theorem findInto_exact_three : ∃ i o e,
    HoldsAt [⟨.null, 3⟩, ⟨.null, 0⟩, ⟨.null, 1⟩] 3 i o e ∧
      (aesdCircularBufferInit.addEntries [⟨.null, 3⟩, ⟨.null, 0⟩, ⟨.null, 1⟩]).2.findInto 3 7 =
        (some ((0 + i) % 10), o) := by
  obtain ⟨i, o, e, he, -, hfind, -⟩ :=
    (findInto_exact [⟨.null, 3⟩, ⟨.null, 0⟩, ⟨.null, 1⟩] 3 7 (by decide)).2 (by decide)
  exact ⟨i, o, e, he, hfind⟩

end AesdCircularBuffer

end Aesd.CharDriver

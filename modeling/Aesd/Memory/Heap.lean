import Mathlib.Logic.Function.Basic
import Mathlib.Data.Set.Basic

/-! # A heap of blocks

A heap holds allocated blocks of bytes under block numbers. A number is never handed out twice, so a
pointer to a freed block stays recognisable as dangling. Besides the pointers to blocks there are
the null pointer and the pointer an allocator returns for an empty request, which owns no memory. -/

namespace Memory

/-- A pointer to the start of a block, or one of the two pointers that own no memory. -/
inductive Ptr where
  /-- The null pointer. -/
  | null
  /-- What an allocation of zero bytes returns. -/
  | zeroSize
  /-- The start of a block. -/
  | block (b : ℕ)
  deriving DecidableEq, Repr

/-- A heap: the contents of the allocated blocks, and the next block number to hand out. -/
structure Heap where
  /-- The contents of an allocated block, `none` for a number not allocated now. -/
  cells : ℕ → Option (List UInt8)
  /-- The next number to hand out. -/
  next : ℕ
  /-- Numbers not handed out yet are not allocated. -/
  fresh : ∀ b, next ≤ b → cells b = none

namespace Heap

/-- The heap without blocks. -/
def empty : Heap := ⟨fun _ => none, 0, fun _ _ => rfl⟩

/-- Allocate a block with the given contents under the next number. -/
def alloc (h : Heap) (bytes : List UInt8) : Heap where
  cells := Function.update h.cells h.next (some bytes)
  next := h.next + 1
  fresh b hb := by
    rw [Function.update_of_ne (by omega)]
    exact h.fresh b (by omega)

/-- Free a block. -/
def free (h : Heap) (b : ℕ) : Heap where
  cells := Function.update h.cells b none
  next := h.next
  fresh c hc := by
    by_cases hcb : c = b
    · rw [hcb, Function.update_self]
    · rw [Function.update_of_ne hcb]; exact h.fresh c hc

/-- Replace the contents of an allocated block; a block that is not allocated stays so. -/
def write (h : Heap) (b : ℕ) (bytes : List UInt8) : Heap where
  cells := Function.update h.cells b ((h.cells b).map fun _ => bytes)
  next := h.next
  fresh c hc := by
    by_cases hcb : c = b
    · rw [hcb, Function.update_self, h.fresh b (hcb ▸ hc)]; rfl
    · rw [Function.update_of_ne hcb]; exact h.fresh c hc

/-- The bytes a pointer gives access to: none through the null pointer or a dangling one. -/
def read (h : Heap) : Ptr → Option (List UInt8)
  | .null => none
  | .zeroSize => some []
  | .block b => h.cells b

variable (h : Heap) (b c : ℕ) (bytes : List UInt8)

@[simp] theorem read_zeroSize : h.read .zeroSize = some [] := rfl

@[simp] theorem read_block : h.read (.block b) = h.cells b := rfl

@[simp] theorem cells_alloc_self : (h.alloc bytes).cells h.next = some bytes :=
  Function.update_self _ _ _

theorem cells_alloc_of_ne {h : Heap} {c : ℕ} (hc : c ≠ h.next) :
    (h.alloc bytes).cells c = h.cells c := Function.update_of_ne hc _ _

@[simp] theorem cells_free_self : (h.free b).cells b = none := Function.update_self _ _ _

theorem cells_free_of_ne {b c : ℕ} (hc : c ≠ b) : (h.free b).cells c = h.cells c :=
  Function.update_of_ne hc _ _

theorem cells_write_self {h : Heap} {b : ℕ} (hb : (h.cells b).isSome) :
    (h.write b bytes).cells b = some bytes := by
  obtain ⟨old, hold⟩ := Option.isSome_iff_exists.mp hb
  simp [write, hold]

theorem cells_write_of_ne {h : Heap} {b c : ℕ} (hc : c ≠ b) : (h.write b bytes).cells c = h.cells c :=
  Function.update_of_ne hc _ _

/-- An allocated block has been handed out before. -/
theorem lt_next_of_isSome {h : Heap} {b : ℕ} (hb : (h.cells b).isSome) : b < h.next := by
  by_contra hlt
  rw [h.fresh b (by omega)] at hb
  simp at hb

/-- Freeing the block just allocated gives back the old contents everywhere. -/
@[simp] theorem cells_free_alloc : ((h.alloc bytes).free h.next).cells = h.cells := by
  funext c
  by_cases hc : c = h.next
  · rw [hc, cells_free_self, h.fresh _ le_rfl]
  · rw [cells_free_of_ne _ hc, cells_alloc_of_ne _ hc]

/-- Heaps with the same contents and the same next number are equal. -/
theorem ext' {h h' : Heap} (hc : h.cells = h'.cells) (hn : h.next = h'.next) : h = h' := by
  cases h; cases h'; cases hc; cases hn; rfl

/-- Writing the block just allocated is allocating it with the new contents. -/
@[simp] theorem write_alloc (old : List UInt8) :
    (h.alloc old).write h.next bytes = h.alloc bytes := by
  refine ext' (funext fun c => ?_) rfl
  by_cases hc : c = h.next
  · rw [hc, cells_write_self _ (by simp), cells_alloc_self]
  · rw [cells_write_of_ne _ hc, cells_alloc_of_ne _ hc, cells_alloc_of_ne _ hc]

/-! ### What a step leaves alone -/

/-- Every block of `h` other than the one behind `p` is in `h'` with the same contents. -/
def Keeps (h h' : Heap) (p : Ptr) : Prop :=
  ∀ b, (h.cells b).isSome → Ptr.block b ≠ p → h'.cells b = h.cells b

/-- `p` gives access to exactly `bytes`: nothing, or a block with these contents. -/
def Backs (h : Heap) : Ptr → List UInt8 → Prop
  | .null, bytes | .zeroSize, bytes => bytes = []
  | .block b, bytes => h.cells b = some bytes ∧ bytes ≠ []

variable {h h' h'' : Heap} {p q : Ptr} {bytes : List UInt8}

theorem keeps_refl (h : Heap) (p : Ptr) : Keeps h h p := fun _ _ _ => rfl

theorem keeps_alloc (h : Heap) (bytes : List UInt8) (p : Ptr) : Keeps h (h.alloc bytes) p :=
  fun _ hb _ => cells_alloc_of_ne _ (lt_next_of_isSome hb).ne

theorem keeps_free (h : Heap) (b : ℕ) : Keeps h (h.free b) (.block b) :=
  fun _ _ hc => cells_free_of_ne _ fun e => hc (congrArg _ e)

theorem keeps_write (h : Heap) (b : ℕ) (bytes : List UInt8) : Keeps h (h.write b bytes) (.block b) :=
  fun _ _ hc => cells_write_of_ne _ fun e => hc (congrArg _ e)

/-- What keeps every block keeps all but one. -/
theorem Keeps.of_null (hk : Keeps h h' .null) : Keeps h h' p := fun b hb _ => hk b hb (by simp)

/-- Two steps in a row, the second of which may touch a block that is new. -/
theorem Keeps.trans (h₁ : Keeps h h' p) (h₂ : Keeps h' h'' q)
    (hq : ∀ b, q = .block b → (h.cells b).isSome → q = p) : Keeps h h'' p := by
  intro b hb hp
  have hb' : h'.cells b = h.cells b := h₁ b hb hp
  rw [← hb']
  refine h₂ b (hb' ▸ hb) fun e => hp ?_
  exact e ▸ hq b e.symm hb

/-- The only block of `h'` that `h` does not have is the one behind `p`. -/
def Adds (h h' : Heap) (p : Ptr) : Prop :=
  ∀ b, (h'.cells b).isSome → (h.cells b).isSome ∨ p = .block b

theorem adds_refl (h : Heap) (p : Ptr) : Adds h h p := fun _ hb => .inl hb

theorem adds_alloc (h : Heap) (bytes : List UInt8) : Adds h (h.alloc bytes) (.block h.next) := by
  intro b hb
  by_cases hne : b = h.next
  · exact .inr (hne ▸ rfl)
  · rw [cells_alloc_of_ne _ hne] at hb
    exact .inl hb

theorem adds_free (h : Heap) (b : ℕ) (p : Ptr) : Adds h (h.free b) p := by
  intro c hc
  by_cases hne : c = b
  · rw [hne, cells_free_self] at hc
    cases hc
  · rw [cells_free_of_ne _ hne] at hc
    exact .inl hc

theorem adds_write (h : Heap) (b : ℕ) (bytes : List UInt8) (p : Ptr) : Adds h (h.write b bytes) p := by
  intro c hc
  by_cases hne : c = b
  · subst hne
    cases hcell : h.cells c with
    | none => simp [write, hcell] at hc
    | some old => exact .inl rfl
  · rw [cells_write_of_ne _ hne] at hc
    exact .inl hc

/-- A step that adds nothing after one that adds a block. -/
theorem Adds.trans (h₁ : Adds h h' p) (h₂ : Adds h' h'' .null) : Adds h h'' p := by
  intro b hb
  rcases h₂ b hb with hb' | hb'
  · exact h₁ b hb'
  · cases hb'

theorem Backs.keeps (hb : Backs h q bytes) (hk : Keeps h h' p) (hne : q ≠ p) :
    Backs h' q bytes := by
  cases q with
  | null => exact hb
  | zeroSize => exact hb
  | block b => exact ⟨by rw [hk b (by simp [hb.1]) hne, hb.1], hb.2⟩

/-- A pointer that backs something is one to a live block. -/
theorem Backs.eq_block (hb : Backs h p bytes) (hne : bytes ≠ []) :
    ∃ b, p = .block b ∧ h.cells b = some bytes := by
  cases p with
  | null => exact absurd hb hne
  | zeroSize => exact absurd hb hne
  | block b => exact ⟨b, rfl, hb.1⟩

theorem Backs.read (hb : Backs h p bytes) (hp : p ≠ .null) : h.read p = some bytes := by
  cases p with
  | null => exact absurd rfl hp
  | zeroSize => rw [read_zeroSize]; exact congrArg some (Eq.symm hb)
  | block b => exact hb.1

end Heap

end Memory

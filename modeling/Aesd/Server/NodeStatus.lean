import Aesd.Server.ThreadRuns

/-! # What has become of the nodes

Each `thread_info` is unused, in main's hand, on the list for its thread, unlinked, or freed
(`NodeStatus`), and its status says what its memory holds and how often it has been unlinked and
freed. The status of every node, the stages of the threads and what they share fit together (`Kept`)
as long as no handler unlinks a node that the shutdown loop has already met: main finds the nodes it
works on still there, and a handler its own. -/

namespace Aesd.Server

open Effects

/-! ### The status of a node -/

/-- What has become of a node. -/
inductive NodeStatus where
  /-- It has not been allocated. -/
  | unused
  /-- Main has allocated it. -/
  | fresh
  /-- Main has set its descriptor. -/
  | filled
  /-- Main has put it on the list, and has not started a thread for it. -/
  | linked
  /-- Main has taken it off the list. -/
  | retracted
  /-- It is on the list for the thread `t`. -/
  | kept (t : ℕ)
  /-- The thread `t` has taken it off the list. -/
  | unlinked (t : ℕ)
  /-- It has been freed. -/
  | freed

namespace NodeStatus

/-- What the memory holds. -/
def Holds : NodeStatus → Cell → Prop
  | unused, c => c = .unused
  | fresh, c => c = .live ⟨none, none⟩
  | filled, c | linked, c => ∃ fd, c = .live ⟨none, some fd⟩
  | kept t, c => ∃ fd, c = .live ⟨some t, some fd⟩
  | retracted, c | unlinked _, c => ∃ node, c = .live node
  | freed, c => c = .freed

/-- The node is on the list. -/
def listed : NodeStatus → Bool
  | linked | kept _ => true
  | _ => false

/-- How often it has been unlinked. -/
def unlinks : NodeStatus → ℕ
  | retracted | unlinked _ | freed => 1
  | _ => 0

/-- How often it has been freed. -/
def frees : NodeStatus → ℕ
  | freed => 1
  | _ => 0

/-- Main works on it alone. -/
def inHand : NodeStatus → Bool
  | fresh | filled | linked | retracted => true
  | _ => false

end NodeStatus

/-- How often a node has been unlinked. -/
def unlinks (υ : List (Act threads Threads)) (n : ThreadInfo) : ℕ :=
  υ.countP fun a => a.event.op.unlinks? = some n

/-- How often a node has been freed. -/
def frees (υ : List (Act threads Threads)) (n : ThreadInfo) : ℕ :=
  υ.countP fun a => a.event.op.frees? = some n

/-- How often a thread has been joined. -/
def joins (υ : List (Act threads Threads)) (t : ℕ) : ℕ :=
  υ.countP fun a => a.event.op.joins? = some t

/-- The shutdown loop has met the node, as an entry or as the one after it. -/
def Met (υ : List (Act threads Threads)) (n : ThreadInfo) : Prop := ∃ b ∈ υ, Finds b.event n

/-- The thread has unlinked a node. -/
def HasUnlinked (υ : List (Act threads Threads)) (t : ℕ) : Prop :=
  ∃ b ∈ υ, b.task = t ∧ b.event.op.unlinks? ≠ none

/-- The status of a node fits to its memory, to the list and to what has been done. -/
structure NodeFits (υ : List (Act threads Threads)) (s : Threads) (n : ThreadInfo)
    (status : NodeStatus) : Prop where
  /-- What its memory holds. -/
  cell : status.Holds (s.nodes n)
  /-- Whether it is on the list. -/
  listed : n ∈ s.list ↔ status.listed = true
  /-- How often it has been unlinked. -/
  unlinks : unlinks υ n = status.unlinks
  /-- How often it has been freed. -/
  frees : frees υ n = status.frees

section Counts

variable {υ : List (Act threads Threads)} {a : Act threads Threads} {s s' : Threads} {n : ThreadInfo}
  {t : ℕ} {st : NodeStatus} {ν : ThreadInfo → NodeStatus}

theorem unlinks_concat_of_ne (h : a.event.op.unlinks? ≠ some n) :
    unlinks (υ ++ [a]) n = unlinks υ n := by
  rw [unlinks, List.countP_append, List.countP_singleton, if_neg (by simpa using h), unlinks,
    Nat.add_zero]

theorem unlinks_concat_of_eq (h : a.event.op.unlinks? = some n) :
    unlinks (υ ++ [a]) n = unlinks υ n + 1 := by
  rw [unlinks, List.countP_append, List.countP_singleton, if_pos (by simpa using h), unlinks]

theorem frees_concat_of_ne (h : a.event.op.frees? ≠ some n) : frees (υ ++ [a]) n = frees υ n := by
  rw [frees, List.countP_append, List.countP_singleton, if_neg (by simpa using h), frees,
    Nat.add_zero]

theorem frees_concat_of_eq (h : a.event.op.frees? = some n) :
    frees (υ ++ [a]) n = frees υ n + 1 := by
  rw [frees, List.countP_append, List.countP_singleton, if_pos (by simpa using h), frees]

theorem joins_concat_of_ne (h : a.event.op.joins? ≠ some t) : joins (υ ++ [a]) t = joins υ t := by
  rw [joins, List.countP_append, List.countP_singleton, if_neg (by simpa using h), joins,
    Nat.add_zero]

theorem joins_concat_of_eq (h : a.event.op.joins? = some t) :
    joins (υ ++ [a]) t = joins υ t + 1 := by
  rw [joins, List.countP_append, List.countP_singleton, if_pos (by simpa using h), joins]

theorem Met.concat (h : Met υ n) : Met (υ ++ [a]) n := by
  obtain ⟨b, hb, hn⟩ := h
  exact ⟨b, List.mem_append_left _ hb, hn⟩

theorem HasUnlinked.concat (h : HasUnlinked υ t) : HasUnlinked (υ ++ [a]) t := by
  obtain ⟨b, hb, hn⟩ := h
  exact ⟨b, List.mem_append_left _ hb, hn⟩

/-- A step that does not touch the node. -/
theorem NodeFits.frame (h : NodeFits υ s n st) (hcell : s'.nodes n = s.nodes n)
    (hlist : n ∈ s'.list ↔ n ∈ s.list) (hu : a.event.op.unlinks? ≠ some n)
    (hf : a.event.op.frees? ≠ some n) : NodeFits (υ ++ [a]) s' n st where
  cell := hcell ▸ h.cell
  listed := hlist.trans h.listed
  unlinks := (unlinks_concat_of_ne hu).trans h.unlinks
  frees := (frees_concat_of_ne hf).trans h.frees

/-- A step that changes the node, and neither unlinks nor frees it. -/
theorem NodeFits.retype {st' : NodeStatus} (h : NodeFits υ s n st) (hu : a.event.op.unlinks? = none)
    (hf : a.event.op.frees? = none) (hcell : st'.Holds (s'.nodes n))
    (hlisted : n ∈ s'.list ↔ st'.listed = true) (hunlinks : st'.unlinks = st.unlinks)
    (hfrees : st'.frees = st.frees) : NodeFits (υ ++ [a]) s' n st' where
  cell := hcell
  listed := hlisted
  unlinks := by rw [unlinks_concat_of_ne (by rw [hu]; simp), h.unlinks, hunlinks]
  frees := by rw [frees_concat_of_ne (by rw [hf]; simp), h.frees, hfrees]

/-- A step that takes the node off the list. -/
theorem NodeFits.unlink {st' : NodeStatus} (h : NodeFits υ s n st) (hnodup : s.list.Nodup)
    (hu : a.event.op.unlinks? = some n) (hf : a.event.op.frees? = none)
    (hcell : st'.Holds (s.nodes n)) (hlisted : st'.listed = false)
    (hunlinks : st'.unlinks = st.unlinks + 1) (hfrees : st'.frees = st.frees) :
    NodeFits (υ ++ [a]) { s with list := s.list.erase n } n st' where
  cell := hcell
  listed := iff_of_false hnodup.not_mem_erase (by rw [hlisted]; simp)
  unlinks := by rw [unlinks_concat_of_eq hu, h.unlinks, hunlinks]
  frees := by rw [frees_concat_of_ne (by rw [hf]; simp), h.frees, hfrees]

/-- A step that frees a node that has been taken off the list. -/
theorem NodeFits.free (h : NodeFits υ s n st) (hu : a.event.op.unlinks? = none)
    (hf : a.event.op.frees? = some n) (hlisted : st.listed = false) (hunlinks : st.unlinks = 1)
    (hfrees : st.frees = 0) : NodeFits (υ ++ [a]) (s.setNode n .freed) n .freed where
  cell := Function.update_self ..
  listed := h.listed.trans (by rw [hlisted]; simp [NodeStatus.listed])
  unlinks := by rw [unlinks_concat_of_ne (by rw [hu]; simp), h.unlinks, hunlinks]; rfl
  frees := by rw [frees_concat_of_eq hf, h.frees, hfrees]; rfl

/-- A node that has been allocated and not freed is there. -/
theorem NodeFits.live (h : NodeFits υ s n st) (hunused : st ≠ .unused) (hfreed : st ≠ .freed) :
    ∃ node, s.nodes n = .live node := by
  have hcell := h.cell
  cases st with
  | unused => exact absurd rfl hunused
  | freed => exact absurd rfl hfreed
  | fresh => exact ⟨_, hcell⟩
  | filled | linked | kept t =>
      obtain ⟨fd, hfd⟩ := hcell
      exact ⟨_, hfd⟩
  | retracted | unlinked t => exact hcell

/-- A step that touches one node, or none. -/
theorem fits_update {n₀ : ThreadInfo} (h : ∀ n, NodeFits υ s n (ν n))
    (hother : ∀ n, n ≠ n₀ → s'.nodes n = s.nodes n ∧ (n ∈ s'.list ↔ n ∈ s.list) ∧
      a.event.op.unlinks? ≠ some n ∧ a.event.op.frees? ≠ some n)
    (hself : NodeFits (υ ++ [a]) s' n₀ st) :
    ∀ n, NodeFits (υ ++ [a]) s' n (Function.update ν n₀ st n) := by
  intro n
  by_cases hn : n = n₀
  · rw [hn, Function.update_self]
    exact hself
  · obtain ⟨hcell, hlist, hu, hf⟩ := hother n hn
    rw [Function.update_of_ne hn]
    exact (h n).frame hcell hlist hu hf

end Counts

/-! ### The stages of the threads -/

/-- The stage of a handler fits to the status of its node. -/
def HandlerFits (υ : List (Act threads Threads)) (s : Threads) (ν : ThreadInfo → NodeStatus) (t : ℕ) :
    HandlerStage → Prop
  | .waiting => s.ended t = false ∧ s.joined t = false ∧ ∀ n, s.arg t = some n → ν n = .kept t
  | .serving n => s.ended t = false ∧ s.joined t = false ∧ s.arg t = some n ∧ ν n = .kept t
  | .unlinked n => s.ended t = false ∧ s.joined t = false ∧ s.arg t = some n ∧ ν n = .unlinked t ∧
      HasUnlinked υ t
  | .freed => s.ended t = false ∧ s.joined t = false ∧ ∃ n, s.arg t = some n ∧ ν n = .freed ∧
      HasUnlinked υ t
  | .gone => s.ended t = true ∧ s.joined t = false ∧ ∃ n, s.arg t = some n ∧ ν n = .freed ∧
      HasUnlinked υ t
  | .abandoned n => s.ended t = true ∧ s.arg t = some n ∧
      (s.joined t = false ∧ ν n = .kept t ∨
        s.joined t = true ∧ (ν n = .kept t ∨ ν n = .retracted ∨ ν n = .freed))

/-- Main is at the first entry of the list and knows the next one. -/
structure AtEntry (υ : List (Act threads Threads)) (s : Threads) (e : ThreadInfo)
    (next : Option ThreadInfo) : Prop where
  /-- The entry is the first one. -/
  head : s.list.head? = some e
  /-- The next one follows it. -/
  tail : s.list.tail.head? = next
  /-- Main has met the entry. -/
  met : Met υ e
  /-- Main has met the next one. -/
  metNext : ∀ m, next = some m → Met υ m

/-- The stage of main fits to the list and to the status of the node that it works on. -/
def MainFits (υ : List (Act threads Threads)) (s : Threads) (ν : ThreadInfo → NodeStatus) :
    MainStage → Prop
  | .serving | .closing => True
  | .fresh n => ν n = .fresh
  | .filled n => ν n = .filled
  | .linked n => ν n = .linked
  | .unlinked n => ν n = .retracted
  | .atEntry e => s.list.head? = some e ∧ Met υ e
  | .atEnd => s.list = []
  | .following e next => AtEntry υ s e next
  | .naming e next id => AtEntry υ s e next ∧ ν e = .kept id
  | .joined e next => AtEntry υ s e next ∧ ∃ id, ν e = .kept id ∧ s.joined id = true
  | .removed e next => ν e = .retracted ∧ s.list.head? = next ∧ ∀ m, next = some m → Met υ m

/-- The node that main works on alone. -/
def MainStage.hand : MainStage → Option ThreadInfo
  | .fresh n | .filled n | .linked n | .unlinked n | .removed n _ => some n
  | _ => none

/-- Everything fits together. -/
structure Kept (υ : List (Act threads Threads)) (δ : ℕ → ThreadPhase) (s : Threads)
    (ν : ThreadInfo → NodeStatus) : Prop where
  /-- Nothing has been touched that is not there. -/
  undefined : s.undefined = false
  /-- No node is on the list twice. -/
  nodup : s.list.Nodup
  /-- The nodes. -/
  fits : ∀ n, NodeFits υ s n (ν n)
  /-- A node that a thread has, or has unlinked, is its argument. -/
  owned : ∀ n t, ν n = .kept t ∨ ν n = .unlinked t → s.arg t = some n
  /-- The threads that have been started. -/
  range : ∀ t, s.arg t ≠ none → 0 < t ∧ t < s.nextThread
  /-- Main is no handler. -/
  pos : 0 < s.nextThread
  /-- The handlers. -/
  handler : ∀ t, 0 < t → ∃ g, δ t = .handler g ∧ HandlerFits υ s ν t g.stage
  /-- Main, the node in its hand, and the node of the thread that it has joined. -/
  main : ∃ st l, δ 0 = .main st l ∧ MainFits υ s ν st ∧
    (∀ n, (ν n).inHand = true → st.hand = some n) ∧
    ∀ n t, ν n = .kept t → s.joined t = true → ∃ next, st = .joined n next
  /-- Who has been joined. -/
  joins : ∀ t, joins υ t = if s.joined t then 1 else 0

/-! ### Steps of the others -/

section Frames

variable {υ : List (Act threads Threads)} {a : Act threads Threads} {δ : ℕ → ThreadPhase}
  {s s' : Threads} {ν ν' : ThreadInfo → NodeStatus} {n₀ : ThreadInfo} {t : ℕ}

/-- What another thread may do with the node of a handler: main only lets go of it. -/
def Lets (s : Threads) (ν ν' : ThreadInfo → NodeStatus) (t : ℕ) : Prop :=
  ∀ n, s.arg t = some n → ν' n = ν n ∨ ν n = .retracted ∧ ν' n = .freed ∨
    s.joined t = true ∧ ν n = .kept t ∧ ν' n = .retracted

/-- A handler while another thread takes a step. -/
theorem HandlerFits.frame {st : HandlerStage} (h : HandlerFits υ s ν t st) (harg : s'.arg t = s.arg t)
    (hended : s'.ended t = s.ended t) (hjoined : s'.joined t = s.joined t) (hlets : Lets s ν ν' t) :
    HandlerFits (υ ++ [a]) s' ν' t st := by
  -- nobody else changes the status of the node of a handler that has not been joined
  have hsame : ∀ n, s.arg t = some n → s.joined t = false → ν n ≠ .retracted → ν' n = ν n := by
    intro n hn hj hr
    rcases hlets n hn with h | ⟨h, -⟩ | ⟨h, -⟩
    · exact h
    · exact absurd h hr
    · rw [hj] at h
      cases h
  cases st with
  | waiting =>
      obtain ⟨he, hj, hkept⟩ := h
      refine ⟨hended ▸ he, hjoined ▸ hj, fun n hn => ?_⟩
      rw [harg] at hn
      rw [hsame n hn hj (by rw [hkept n hn]; simp), hkept n hn]
  | serving n =>
      obtain ⟨he, hj, hn, hkept⟩ := h
      exact ⟨hended ▸ he, hjoined ▸ hj, harg ▸ hn, by
        rw [hsame n hn hj (by rw [hkept]; simp), hkept]⟩
  | unlinked n =>
      obtain ⟨he, hj, hn, hkept, hu⟩ := h
      exact ⟨hended ▸ he, hjoined ▸ hj, harg ▸ hn, by
        rw [hsame n hn hj (by rw [hkept]; simp), hkept], hu.concat⟩
  | freed =>
      obtain ⟨he, hj, n, hn, hkept, hu⟩ := h
      exact ⟨hended ▸ he, hjoined ▸ hj, n, harg ▸ hn, by
        rw [hsame n hn hj (by rw [hkept]; simp), hkept], hu.concat⟩
  | gone =>
      obtain ⟨he, hj, n, hn, hkept, hu⟩ := h
      exact ⟨hended ▸ he, hjoined ▸ hj, n, harg ▸ hn, by
        rw [hsame n hn hj (by rw [hkept]; simp), hkept], hu.concat⟩
  | abandoned n =>
      obtain ⟨he, hn, ⟨hj, hkept⟩ | ⟨hj, hstatus⟩⟩ := h
      · exact ⟨hended ▸ he, harg ▸ hn, .inl ⟨hjoined ▸ hj, by
          rw [hsame n hn hj (by rw [hkept]; simp), hkept]⟩⟩
      · refine ⟨hended ▸ he, harg ▸ hn, .inr ⟨hjoined ▸ hj, ?_⟩⟩
        rcases hlets n hn with h | ⟨-, h⟩ | ⟨-, -, h⟩
        · exact h ▸ hstatus
        · exact .inr (.inr h)
        · exact .inr (.inl h)

theorem AtEntry.concat {e : ThreadInfo} {next : Option ThreadInfo} (h : AtEntry υ s e next)
    (hlist : s'.list = s.list) : AtEntry (υ ++ [a]) s' e next where
  head := hlist ▸ h.head
  tail := hlist ▸ h.tail
  met := h.met.concat
  metNext m hm := (h.metNext m hm).concat

theorem head?_erase_of_ne {l : List ThreadInfo} {e n₀ : ThreadInfo} (hne : e ≠ n₀)
    (h : l.head? = some e) : (l.erase n₀).head? = some e ∧ (l.erase n₀).tail = l.tail.erase n₀ := by
  cases l with
  | nil => cases h
  | cons e' l =>
      rw [List.head?_cons, Option.some.injEq] at h
      subst h
      rw [List.erase_cons_tail (by simpa using hne)]
      exact ⟨rfl, rfl⟩

/-- A node that main has not met is neither the first one nor follows it. -/
theorem head?_erase_of_not_met {l : List ThreadInfo} {next : Option ThreadInfo} (h : l.head? = next)
    (hmet : ∀ m, next = some m → Met υ m) (hno : ¬Met υ n₀) : (l.erase n₀).head? = next := by
  cases next with
  | none =>
      rw [List.head?_eq_none_iff] at h
      rw [h]
      rfl
  | some m =>
      have hne : m ≠ n₀ := fun heq => hno (heq ▸ hmet m rfl)
      exact (head?_erase_of_ne hne h).1

/-- Main while a handler takes a step: the handler unlinks no node that main has met. -/
theorem MainFits.frame {st : MainStage} (h : MainFits υ s ν st)
    (hlist : s'.list = s.list ∨ ∃ n₀, ¬Met υ n₀ ∧ s'.list = s.list.erase n₀)
    (hjoined : s'.joined = s.joined)
    (hν : ∀ n, (ν n).inHand = true ∨ Met υ n ∧ (∃ id, ν n = .kept id) → ν' n = ν n) :
    MainFits (υ ++ [a]) s' ν' st := by
  -- the first node is one that main has met, so it is not the one unlinked
  have hhead : ∀ {next : Option ThreadInfo}, s.list.head? = next → (∀ m, next = some m → Met υ m) →
      s'.list.head? = next := by
    intro next h hmet
    rcases hlist with hl | ⟨n₀, hno, hl⟩
    · rw [hl, h]
    · rw [hl, head?_erase_of_not_met h hmet hno]
  have hentry : ∀ {e : ThreadInfo} {next : Option ThreadInfo}, AtEntry υ s e next →
      AtEntry (υ ++ [a]) s' e next := by
    intro e next h
    refine ⟨hhead h.head fun m hm => ?_, ?_, h.met.concat, fun m hm => (h.metNext m hm).concat⟩
    · rw [Option.some.injEq] at hm
      exact hm ▸ h.met
    · rcases hlist with hl | ⟨n₀, hno, hl⟩
      · rw [hl, h.tail]
      · have hne : e ≠ n₀ := fun heq => hno (heq ▸ h.met)
        rw [hl, (head?_erase_of_ne hne h.head).2]
        exact head?_erase_of_not_met h.tail h.metNext hno
  have hkept : ∀ {e : ThreadInfo} {id : ℕ}, Met υ e → ν e = .kept id → ν' e = .kept id :=
    fun hmet h => (hν _ (.inr ⟨hmet, _, h⟩)).trans h
  cases st with
  | serving | closing => trivial
  | fresh n | filled n | linked n | unlinked n =>
      have h : ν n = _ := h
      exact (hν n (.inl (by rw [h]; rfl))).trans h
  | atEntry e =>
      refine ⟨hhead h.1 fun m hm => ?_, h.2.concat⟩
      rw [Option.some.injEq] at hm
      exact hm ▸ h.2
  | atEnd =>
      have h : s.list = [] := h
      show s'.list = []
      rcases hlist with hl | ⟨n₀, -, hl⟩
      · rw [hl, h]
      · rw [hl, h]
        rfl
  | following e next => exact hentry h
  | naming e next id => exact ⟨hentry h.1, hkept h.1.met h.2⟩
  | joined e next =>
      obtain ⟨hat, id, hid, hj⟩ := h
      exact ⟨hentry hat, id, hkept hat.met hid, hjoined ▸ hj⟩
  | removed e next =>
      obtain ⟨he, hnext, hmet⟩ := h
      exact ⟨(hν e (.inl (by rw [he]; rfl))).trans he, hhead hnext hmet,
        fun m hm => (hmet m hm).concat⟩

/-- The node of a handler. -/
theorem HandlerFits.status {st : HandlerStage} {n : ThreadInfo} (h : HandlerFits υ s ν t st)
    (hn : s.arg t = some n) :
    ν n = .kept t ∨ ν n = .unlinked t ∨ ν n = .retracted ∨ ν n = .freed := by
  have heq : ∀ {n' : ThreadInfo}, s.arg t = some n' → n' = n := by
    intro n' hn'
    rw [hn, Option.some.injEq] at hn'
    exact hn'.symm
  cases st with
  | waiting => exact .inl (h.2.2 n hn)
  | serving n' =>
      obtain ⟨-, -, hn', hkept⟩ := h
      exact .inl (heq hn' ▸ hkept)
  | unlinked n' =>
      obtain ⟨-, -, hn', hkept, -⟩ := h
      exact .inr (.inl (heq hn' ▸ hkept))
  | freed | gone =>
      obtain ⟨-, -, n', hn', hkept, -⟩ := h
      exact .inr (.inr (.inr (heq hn' ▸ hkept)))
  | abandoned n' =>
      obtain ⟨-, hn', ⟨-, hkept⟩ | ⟨-, hkept | hkept⟩⟩ := h
      · exact .inl (heq hn' ▸ hkept)
      · exact .inl (heq hn' ▸ hkept)
      · exact .inr (.inr (heq hn' ▸ hkept))

/-- A thread that has not been started has not been joined. -/
theorem HandlerFits.not_joined {st : HandlerStage} (h : HandlerFits υ s ν t st)
    (harg : s.arg t = none) : s.joined t = false := by
  cases st with
  | waiting | serving n | unlinked n | freed | gone => exact h.2.1
  | abandoned n =>
      have hn : s.arg t = some n := h.2.1
      rw [harg] at hn
      cases hn

/-- A handler that has unlinked its node and not freed it has not ended. -/
theorem HandlerFits.not_ended {st : HandlerStage} {n : ThreadInfo} (h : HandlerFits υ s ν t st)
    (harg : s.arg t = some n) (hunlinked : ν n = .unlinked t) : s.ended t = false := by
  cases st with
  | waiting | serving n' | unlinked n' | freed => exact h.1
  | gone =>
      obtain ⟨-, -, n', hn', hfreed, -⟩ := h
      rw [harg, Option.some.injEq] at hn'
      rw [← hn', hunlinked] at hfreed
      cases hfreed
  | abandoned n' =>
      obtain ⟨-, hn', hstatus⟩ := h
      rw [harg, Option.some.injEq] at hn'
      rw [← hn', hunlinked] at hstatus
      rcases hstatus with ⟨-, hs⟩ | ⟨-, hs | hs | hs⟩ <;> cases hs

/-- A handler that has ended with its node on the list is joined. -/
theorem HandlerFits.join {st : HandlerStage} {n : ThreadInfo} (h : HandlerFits υ s ν t st)
    (harg : s.arg t = some n) (hkept : ν n = .kept t) (hended : s.ended t = true) :
    HandlerFits (υ ++ [a]) { s with joined := Function.update s.joined t true } ν t st := by
  cases st with
  | waiting | serving n' | unlinked n' | freed =>
      rw [h.1] at hended
      cases hended
  | gone =>
      obtain ⟨-, -, n', hn', hfreed, -⟩ := h
      rw [harg, Option.some.injEq] at hn'
      rw [← hn', hkept] at hfreed
      cases hfreed
  | abandoned n' =>
      obtain ⟨-, hn', -⟩ := h
      have heq := hn'
      rw [harg, Option.some.injEq] at heq
      exact ⟨hended, hn', .inr ⟨Function.update_self .., .inl (heq ▸ hkept)⟩⟩

/-- The nodes, the list and the threads started and joined are the same. -/
structure Threads.SameNodes (s s' : Threads) : Prop where
  /-- The list. -/
  list : s'.list = s.list
  /-- The nodes. -/
  nodes : s'.nodes = s.nodes
  /-- The arguments. -/
  arg : s'.arg = s.arg
  /-- The next thread. -/
  nextThread : s'.nextThread = s.nextThread
  /-- The threads that have been joined. -/
  joined : s'.joined = s.joined
  /-- Nothing has been touched that is not there. -/
  undefined : s'.undefined = s.undefined

/-- An event that unlinks, frees and joins nothing. -/
structure Idles (e : Event threads) : Prop where
  /-- It unlinks nothing. -/
  unlinks : e.op.unlinks? = none
  /-- It frees nothing. -/
  frees : e.op.frees? = none
  /-- It joins nobody. -/
  joins : e.op.joins? = none

theorem Unnoticed.idles {e : Event threads} (h : Unnoticed e) : Idles e :=
  ⟨h.unlinks, h.frees, h.joins⟩

theorem fits_same (h : ∀ n, NodeFits υ s n (ν n)) (hsame : s.SameNodes s') (hidle : Idles a.event) :
    ∀ n, NodeFits (υ ++ [a]) s' n (ν n) := by
  intro n
  refine (h n).frame (by rw [hsame.nodes]) (by rw [hsame.list]) ?_ ?_
  · rw [hidle.unlinks]
    simp
  · rw [hidle.frees]
    simp

/-- A handler unlinks its node, which main has not met, or frees it, or does neither. -/
theorem Kept.of_handler {g : HandlerPhase} (h : Kept υ δ s ν) (ht : 0 < t)
    (harg : s'.arg = s.arg) (hnext : s'.nextThread = s.nextThread) (hjoined : s'.joined = s.joined)
    (hundefined : s'.undefined = s.undefined) (hended : ∀ u, u ≠ t → s'.ended u = s.ended u)
    (hlist : s'.list = s.list ∨ ∃ n₀, ¬Met υ n₀ ∧ s'.list = s.list.erase n₀)
    (hfits : ∀ n, NodeFits (υ ++ [a]) s' n (ν' n))
    (hν : ∀ n, ν' n = ν n ∨ ν n = .kept t ∧ ¬Met υ n ∧ ν' n = .unlinked t ∨
      ν n = .unlinked t ∧ ν' n = .freed)
    (hjoins : a.event.op.joins? = none) (hself : HandlerFits (υ ++ [a]) s' ν' t g.stage) :
    Kept (υ ++ [a]) (Function.update δ t (.handler g)) s' ν' := by
  obtain ⟨st, l, hmain, hfit, hhand, hheld⟩ := h.main
  -- a node that is still in hand or on the list has the status it had
  have hback : ∀ n, (∀ u, ν' n ≠ .unlinked u) → ν' n ≠ .freed → ν' n = ν n := by
    intro n hu hf
    rcases hν n with h | ⟨-, -, h⟩ | ⟨-, h⟩
    · exact h
    · exact absurd h (hu t)
    · exact absurd h hf
  refine ⟨hundefined.trans h.undefined, ?_, hfits, fun n u hn => ?_, fun u hu => ?_, hnext ▸ h.pos,
    fun u hu => ?_, ⟨st, l, ?_, hfit.frame hlist hjoined fun n hn => ?_, fun n hn => ?_,
    fun n u hn hj => ?_⟩, fun u => ?_⟩
  · rcases hlist with hl | ⟨n₀, -, hl⟩
    · exact hl ▸ h.nodup
    · exact hl ▸ h.nodup.erase n₀
  · rw [harg]
    rcases hν n with heq | ⟨hk, -, heq⟩ | ⟨-, heq⟩
    · exact h.owned n u (heq ▸ hn)
    · rw [heq] at hn
      rcases hn with hn | hn <;> cases hn
      exact h.owned n t (.inl hk)
    · rw [heq] at hn
      rcases hn with hn | hn <;> cases hn
  · rw [harg] at hu
    rw [hnext]
    exact h.range u hu
  · by_cases hut : u = t
    · subst hut
      exact ⟨g, Function.update_self .., hself⟩
    · obtain ⟨g', hg', hfit'⟩ := h.handler u hu
      refine ⟨g', by rw [Function.update_of_ne hut, hg'], hfit'.frame (by rw [harg]) (hended u hut)
        (by rw [hjoined]) fun n hn => ?_⟩
      -- the node of another handler is not the one of this
      have hstatus := hfit'.status hn
      rcases hν n with heq | ⟨hk, -⟩ | ⟨hk, -⟩
      · exact .inl heq
      · rw [hk] at hstatus
        rcases hstatus with hs | hs | hs | hs <;> cases hs
        exact absurd rfl hut
      · rw [hk] at hstatus
        rcases hstatus with hs | hs | hs | hs <;> cases hs
        exact absurd rfl hut
  · rw [Function.update_of_ne ht.ne, hmain]
  · rcases hν n with heq | ⟨hk, hno, -⟩ | ⟨hk, -⟩
    · exact heq
    · rw [hk] at hn
      rcases hn with hn | ⟨hmet, -⟩
      · cases hn
      · exact absurd hmet hno
    · rw [hk] at hn
      rcases hn with hn | ⟨-, id, hid⟩
      · cases hn
      · cases hid
  · refine hhand n ?_
    rw [← hback n (fun u hu => by rw [hu] at hn; cases hn) fun hf => by rw [hf] at hn; cases hn]
    exact hn
  · rw [hjoined] at hj
    refine hheld n u ?_ hj
    rw [← hback n (fun u hu => by rw [hu] at hn; cases hn) fun hf => by rw [hf] at hn; cases hn]
    exact hn
  · rw [joins_concat_of_ne (by rw [hjoins]; simp), hjoined]
    exact h.joins u

/-- A handler does nothing to the nodes. -/
theorem Kept.of_handler_same {g : HandlerPhase} (h : Kept υ δ s ν) (ht : 0 < t)
    (hsame : s.SameNodes s') (hended : ∀ u, u ≠ t → s'.ended u = s.ended u) (hidle : Idles a.event)
    (hself : HandlerFits (υ ++ [a]) s' ν t g.stage) :
    Kept (υ ++ [a]) (Function.update δ t (.handler g)) s' ν :=
  h.of_handler ht hsame.arg hsame.nextThread hsame.joined hsame.undefined hended
    (.inl hsame.list) (fits_same h.fits hsame hidle) (fun _ => .inl rfl) hidle.joins hself

/-- A handler makes a call that the nodes do not notice. -/
theorem Kept.of_handler_quiet {g g' : HandlerPhase} (h : Kept υ δ s ν) (ht : 0 < t)
    (hg : δ t = .handler g) (hstage : g'.stage = g.stage) (hsame : s.SameNodes s')
    (hended : s'.ended = s.ended) (hidle : Idles a.event) :
    Kept (υ ++ [a]) (Function.update δ t (.handler g')) s' ν := by
  obtain ⟨g₁, hg₁, hfit⟩ := h.handler t ht
  rw [hg, ThreadPhase.handler.injEq] at hg₁
  subst hg₁
  refine h.of_handler_same ht hsame (fun u _ => by rw [hended]) hidle (hstage ▸ ?_)
  exact hfit.frame (by rw [hsame.arg]) (by rw [hended]) (by rw [hsame.joined]) fun _ _ => .inl rfl

theorem Answered.ops {o : PosixOp} {e : Event threads} (h : Answered o e) :
    e.op = .posix o ∨ e.op = .point o := by
  rcases h with ⟨r, rfl⟩ | ⟨r, rfl⟩
  · exact .inl rfl
  · exact .inr rfl

theorem idles_of_isCancellationPoint {o : PosixOp} {r : Option (PosixRes o)}
    (h : o.isCancellationPoint = true) : Idles ⟨.point o, r⟩ := by
  cases o with
  | listRemove n => cases h
  | free n => cases h
  | _ => exact ⟨rfl, rfl, rfl⟩

/-- A handler unlinks its node. -/
theorem Kept.of_unlink {g : HandlerPhase} {n : ThreadInfo} (h : Kept υ δ s ν) (ht : 0 < t)
    (htask : a.task = t) (hg : δ t = .handler g) (hstage : g.stage = .serving n) (hno : ¬Met υ n)
    (he : Answered (.listRemove n) a.event) {g' : HandlerPhase} (hstage' : g'.stage = .unlinked n) :
    Kept (υ ++ [a]) (Function.update δ t (.handler g')) { s with list := s.list.erase n }
      (Function.update ν n (.unlinked t)) := by
  obtain ⟨g₁, hg₁, hfit⟩ := h.handler t ht
  rw [hg, ThreadPhase.handler.injEq] at hg₁
  subst hg₁
  rw [hstage] at hfit
  obtain ⟨hended, hjoined, harg, hkept⟩ := hfit
  have hfits := h.fits n
  rw [hkept] at hfits
  have hops : a.event.op.unlinks? = some n ∧ a.event.op.frees? = none ∧ a.event.op.joins? = none := by
    rcases he.ops with h | h <;> rw [h] <;> exact ⟨rfl, rfl, rfl⟩
  -- the node leaves the list, and its memory stays
  have hself : NodeFits (υ ++ [a]) { s with list := s.list.erase n } n (.unlinked t) := by
    refine hfits.unlink h.nodup hops.1 hops.2.1 ?_ rfl rfl rfl
    obtain ⟨fd, hfd⟩ := hfits.cell
    exact ⟨_, hfd⟩
  refine h.of_handler ht rfl rfl rfl rfl (fun _ _ => rfl) (.inr ⟨n, hno, rfl⟩) ?_ (fun m => ?_)
    hops.2.2 ?_
  · refine fits_update h.fits (fun m hm => ⟨rfl, List.mem_erase_of_ne hm, ?_, ?_⟩) hself
    · rw [hops.1]
      simpa using Ne.symm hm
    · rw [hops.2.1]
      simp
  · by_cases hm : m = n
    · rw [hm, Function.update_self]
      exact .inr (.inl ⟨hkept, hno, rfl⟩)
    · exact .inl (Function.update_of_ne hm ..)
  · rw [hstage']
    refine ⟨hended, hjoined, harg, Function.update_self .., a, by simp, htask, ?_⟩
    rw [hops.1]
    simp

/-- A handler frees its node. -/
theorem Kept.of_free {g : HandlerPhase} {n : ThreadInfo} (h : Kept υ δ s ν) (ht : 0 < t)
    (hg : δ t = .handler g) (hstage : g.stage = .unlinked n) (he : Answered (.free n) a.event)
    {g' : HandlerPhase} (hstage' : g'.stage = .freed) :
    Kept (υ ++ [a]) (Function.update δ t (.handler g')) (s.setNode n .freed)
      (Function.update ν n .freed) := by
  obtain ⟨g₁, hg₁, hfit⟩ := h.handler t ht
  rw [hg, ThreadPhase.handler.injEq] at hg₁
  subst hg₁
  rw [hstage] at hfit
  obtain ⟨hended, hjoined, harg, hkept, hu⟩ := hfit
  have hfits := h.fits n
  rw [hkept] at hfits
  have hops : a.event.op.unlinks? = none ∧ a.event.op.frees? = some n ∧ a.event.op.joins? = none := by
    rcases he.ops with h | h <;> rw [h] <;> exact ⟨rfl, rfl, rfl⟩
  refine h.of_handler ht rfl rfl rfl rfl (fun _ _ => rfl) (.inl rfl) ?_ (fun m => ?_) hops.2.2 ?_
  · refine fits_update h.fits (fun m hm => ⟨Function.update_of_ne hm .., Iff.rfl, ?_, ?_⟩)
      (hfits.free hops.1 hops.2.1 rfl rfl rfl)
    · rw [hops.1]
      simp
    · rw [hops.2.1]
      simpa using Ne.symm hm
  · by_cases hm : m = n
    · rw [hm, Function.update_self]
      exact .inr (.inr ⟨hkept, rfl⟩)
    · exact .inl (Function.update_of_ne hm ..)
  · rw [hstage']
    exact ⟨hended, hjoined, n, harg, Function.update_self .., hu.concat⟩

/-- A handler ends. -/
theorem Kept.of_exit {g g' : HandlerPhase} (h : Kept υ δ s ν) (ht : 0 < t) (hg : δ t = .handler g)
    (hidle : Idles a.event)
    (hstage : (∃ n, g.stage = .serving n ∧ g'.stage = .abandoned n) ∨
      g.stage = .freed ∧ g'.stage = .gone) :
    Kept (υ ++ [a]) (Function.update δ t (.handler g'))
      { s with ended := Function.update s.ended t true } ν := by
  obtain ⟨g₁, hg₁, hfit⟩ := h.handler t ht
  rw [hg, ThreadPhase.handler.injEq] at hg₁
  subst hg₁
  refine h.of_handler_same ht ⟨rfl, rfl, rfl, rfl, rfl, rfl⟩
    (fun u hu => Function.update_of_ne hu ..) hidle ?_
  rcases hstage with ⟨n, hserving, habandoned⟩ | ⟨hfreed, hgone⟩
  · rw [hserving] at hfit
    rw [habandoned]
    exact ⟨Function.update_self .., hfit.2.2.1, .inl ⟨hfit.2.1, hfit.2.2.2⟩⟩
  · rw [hfreed] at hfit
    rw [hgone]
    obtain ⟨-, hj, n, hn, hkept, hu⟩ := hfit
    exact ⟨Function.update_self .., hj, n, hn, hkept, hu.concat⟩

/-- **A step of a handler**, which unlinks no node that main has met. -/
theorem Kept.step_handler {a : Act threads Threads} {g : ThreadPhase} (h : Kept υ δ a.before ν)
    (ht : 0 < a.task) (hsafe : ∀ n, a.event.op.unlinks? = some n → ¬Met υ n)
    (hdoes : Does a.task a.before (δ a.task) a.event g a.after) :
    ∃ ν', Kept (υ ++ [a]) (Function.update δ a.task g) a.after ν' := by
  obtain ⟨g₀, hg₀, hfit⟩ := h.handler a.task ht
  obtain ⟨t, hist, e, s, s'⟩ := a
  dsimp only at *
  rw [hg₀] at hdoes
  -- only unlinking, freeing and ending change what a handler has to do with its node
  cases hdoes with
  | @start n f l hit harg =>
      obtain ⟨he, hj, hkept⟩ := hfit
      exact ⟨ν, h.of_handler_same ht ⟨rfl, rfl, rfl, rfl, rfl, rfl⟩ (fun _ _ => rfl) ⟨rfl, rfl, rfl⟩
        ⟨he, hj, harg, hkept n harg⟩⟩
  | quiet _ he =>
      exact ⟨ν, h.of_handler_quiet ht hg₀ rfl ⟨rfl, rfl, rfl, rfl, rfl, rfl⟩ rfl he.idles⟩
  | cancel _ _ hpoint _ =>
      exact ⟨ν, h.of_handler_quiet ht hg₀ rfl ⟨rfl, rfl, rfl, rfl, rfl, rfl⟩ rfl
        (idles_of_isCancellationPoint hpoint)⟩
  | lockFile he _ =>
      exact ⟨ν, h.of_handler_quiet ht hg₀ rfl ⟨rfl, rfl, rfl, rfl, rfl, rfl⟩ rfl he.idles⟩
  | unlockFile he =>
      exact ⟨ν, h.of_handler_quiet ht hg₀ rfl ⟨rfl, rfl, rfl, rfl, rfl, rfl⟩ rfl he.idles⟩
  | lockList _ _ he _ =>
      exact ⟨ν, h.of_handler_quiet ht hg₀ rfl ⟨rfl, rfl, rfl, rfl, rfl, rfl⟩ rfl he.idles⟩
  | unlockList _ _ he =>
      exact ⟨ν, h.of_handler_quiet ht hg₀ rfl ⟨rfl, rfl, rfl, rfl, rfl, rfl⟩ rfl he.idles⟩
  | @unlink n _ _ _ he =>
      have hunlinks : e.op.unlinks? = some n := by
        rcases he.ops with h | h <;> rw [h] <;> rfl
      exact ⟨_, h.of_unlink ht rfl hg₀ rfl (hsafe n hunlinks) he rfl⟩
  | free _ _ he => exact ⟨_, h.of_free ht hg₀ rfl he rfl⟩
  | abandon _ => exact ⟨ν, h.of_exit ht hg₀ ⟨rfl, rfl, rfl⟩ (.inl ⟨_, rfl, rfl⟩)⟩
  | finish _ => exact ⟨ν, h.of_exit ht hg₀ ⟨rfl, rfl, rfl⟩ (.inr ⟨rfl, rfl⟩)⟩

end Frames

end Aesd.Server

import Aesd.Server.NodeStatus

/-! # What main does with the nodes

Main makes a node and puts it on the list for the thread that it starts, or takes it back; in the
end it goes along the list, and joins the thread of each node before it unlinks and frees the node.
Every step keeps the status of the nodes (`Kept.step_main`), no thread touches a node that is not
there (`Kept.not_faults`), and so everything fits together in every run in which no handler unlinks
a node that the loop has met (`kept_of_run`). -/

namespace Aesd.Server

open Effects

section Main

variable {υ : List (Act threads Threads)} {a : Act threads Threads} {δ : ℕ → ThreadPhase}
  {s s' : Threads} {ν ν' : ThreadInfo → NodeStatus} {n e : ThreadInfo} {next : Option ThreadInfo}
  {t : ℕ}

/-- No thread has the node, or has had it. -/
def NodeStatus.isNew : NodeStatus → Bool
  | .unused | .fresh | .filled | .linked => true
  | _ => false

/-- What main may do with a node, apart from starting a thread for it. -/
def Handles (s : Threads) (old new : NodeStatus) : Prop :=
  new = old ∨ old.isNew = true ∧ new.inHand = true ∨ old = .retracted ∧ new = .freed ∨
    ∃ t, old = .kept t ∧ s.joined t = true ∧ new = .retracted

theorem Handles.of_kept {old new : NodeStatus} (h : Handles s old new)
    (hnew : (∃ t, new = .kept t) ∨ ∃ t, new = .unlinked t) : new = old := by
  rcases h with h | ⟨-, h⟩ | ⟨-, h⟩ | ⟨t, -, -, h⟩
  · exact h
  · rcases hnew with ⟨t, rfl⟩ | ⟨t, rfl⟩ <;> cases h
  · rcases hnew with ⟨t, rfl⟩ | ⟨t, rfl⟩ <;> cases h
  · rcases hnew with ⟨t, rfl⟩ | ⟨t, rfl⟩ <;> cases h

theorem lets_of_handles {st : HandlerStage} (hfit : HandlerFits υ s ν t st)
    (h : ∀ n, Handles s (ν n) (ν' n)) : Lets s ν ν' t := by
  intro n hn
  have hstatus := hfit.status hn
  rcases h n with h | ⟨hnew, -⟩ | h | ⟨u, hu, hj, hr⟩
  · exact .inl h
  · rcases hstatus with hs | hs | hs | hs <;> rw [hs] at hnew <;> cases hnew
  · exact .inr (.inl h)
  · rw [hu] at hstatus
    rcases hstatus with hs | hs | hs | hs <;> cases hs
    exact .inr (.inr ⟨hj, hu, hr⟩)

/-- Main works on its node. -/
theorem Kept.of_main {st : MainStage} {l : Bool} (h : Kept υ δ s ν) (harg : s'.arg = s.arg)
    (hnext : s'.nextThread = s.nextThread) (hended : s'.ended = s.ended)
    (hjoined : s'.joined = s.joined) (hundefined : s'.undefined = s.undefined)
    (hnodup : s'.list.Nodup) (hfits : ∀ n, NodeFits (υ ++ [a]) s' n (ν' n))
    (hν : ∀ n, Handles s (ν n) (ν' n)) (hjoins : a.event.op.joins? = none)
    (hmain : MainFits (υ ++ [a]) s' ν' st) (hhand : ∀ n, (ν' n).inHand = true → st.hand = some n)
    (hheld : ∀ n t, ν' n = .kept t → s.joined t = true → ∃ next, st = .joined n next) :
    Kept (υ ++ [a]) (Function.update δ 0 (.main st l)) s' ν' := by
  refine ⟨hundefined.trans h.undefined, hnodup, hfits, fun n t hn => ?_, fun t ht => ?_, hnext ▸ h.pos,
    fun t ht => ?_, ⟨st, l, Function.update_self .., hmain, hhand, fun n t hn hj => ?_⟩, fun t => ?_⟩
  · rw [harg]
    refine h.owned n t ?_
    rw [← (hν n).of_kept (hn.imp (fun hn => ⟨t, hn⟩) fun hn => ⟨t, hn⟩)]
    exact hn
  · rw [harg] at ht
    rw [hnext]
    exact h.range t ht
  · obtain ⟨g, hg, hfit⟩ := h.handler t ht
    refine ⟨g, by rw [Function.update_of_ne ht.ne', hg], ?_⟩
    exact hfit.frame (by rw [harg]) (by rw [hended]) (by rw [hjoined]) (lets_of_handles hfit hν)
  · exact hheld n t hn (hjoined ▸ hj)
  · rw [joins_concat_of_ne (by rw [hjoins]; simp), hjoined]
    exact h.joins t

/-- The stage of main and its node. -/
theorem Kept.of_stage {st : MainStage} {l : Bool} (h : Kept υ δ s ν) (hδ : δ 0 = .main st l) :
    MainFits υ s ν st ∧ (∀ n, (ν n).inHand = true → st.hand = some n) ∧
      ∀ n t, ν n = .kept t → s.joined t = true → ∃ next, st = .joined n next := by
  obtain ⟨st', l', hmain, hrest⟩ := h.main
  rw [hδ, ThreadPhase.main.injEq] at hmain
  obtain ⟨rfl, rfl⟩ := hmain
  exact hrest

/-- Main does nothing to the nodes. -/
theorem Kept.of_main_same {st st' : MainStage} {l l' : Bool} (h : Kept υ δ s ν)
    (hδ : δ 0 = .main st l) (hsame : s.SameNodes s') (hended : s'.ended = s.ended)
    (hidle : Idles a.event) (hmain : MainFits (υ ++ [a]) s' ν st')
    (hhand : ∀ n, st.hand = some n → st'.hand = some n)
    (hheld : ∀ n next, st = .joined n next → ∃ next, st' = .joined n next) :
    Kept (υ ++ [a]) (Function.update δ 0 (.main st' l')) s' ν := by
  obtain ⟨-, hinHand, hjoined⟩ := h.of_stage hδ
  refine h.of_main hsame.arg hsame.nextThread hended hsame.joined hsame.undefined
    (hsame.list ▸ h.nodup)
    (fits_same h.fits hsame hidle) (fun n => .inl rfl) hidle.joins hmain
    (fun n hn => hhand n (hinHand n hn)) fun n t hn hj => ?_
  obtain ⟨next, hnext⟩ := hjoined n t hn hj
  exact hheld n next hnext

/-- Main stays where it is. -/
theorem Kept.of_main_quiet {st : MainStage} {l l' : Bool} (h : Kept υ δ s ν) (hδ : δ 0 = .main st l)
    (hsame : s.SameNodes s') (hended : s'.ended = s.ended) (hidle : Idles a.event) :
    Kept (υ ++ [a]) (Function.update δ 0 (.main st l')) s' ν :=
  h.of_main_same hδ hsame hended hidle
    ((h.of_stage hδ).1.frame (.inl hsame.list) hsame.joined fun _ _ => rfl) (fun _ hn => hn)
    fun _ next hn => ⟨next, hn⟩

/-- An event that unlinks and frees no other node, and joins nobody. -/
structure Touches (e : Event threads) (n : ThreadInfo) : Prop where
  /-- It unlinks no other node. -/
  unlinks : e.op.unlinks? = none ∨ e.op.unlinks? = some n
  /-- It frees no other node. -/
  frees : e.op.frees? = none ∨ e.op.frees? = some n
  /-- It joins nobody. -/
  joins : e.op.joins? = none

theorem Touches.of_ne {e : Event threads} {m : ThreadInfo} (h : Touches e n) (hm : m ≠ n) :
    e.op.unlinks? ≠ some m ∧ e.op.frees? ≠ some m := by
  constructor
  · rcases h.unlinks with hu | hu <;> rw [hu]
    · simp
    · simpa using Ne.symm hm
  · rcases h.frees with hf | hf <;> rw [hf]
    · simp
    · simpa using Ne.symm hm

/-- Main works on the node `n`, which no other thread has. -/
theorem Kept.of_main_node {st st' : MainStage} {l l' : Bool} {n : ThreadInfo} {status : NodeStatus}
    (h : Kept υ δ s ν) (hδ : δ 0 = .main st l) (harg : s'.arg = s.arg)
    (hnext : s'.nextThread = s.nextThread) (hended : s'.ended = s.ended)
    (hjoined : s'.joined = s.joined) (hundefined : s'.undefined = s.undefined)
    (hnodup : s'.list.Nodup)
    (hnodes : ∀ m, m ≠ n → s'.nodes m = s.nodes m) (hlist : ∀ m, m ≠ n → (m ∈ s'.list ↔ m ∈ s.list))
    (hops : Touches a.event n)
    (hself : NodeFits (υ ++ [a]) s' n status) (hν : Handles s (ν n) status)
    (hmain : MainFits (υ ++ [a]) s' (Function.update ν n status) st')
    (hold : ∀ m, st.hand = some m → m = n) (hnew : status.inHand = true → st'.hand = some n)
    (hheld : ∀ m next, st = .joined m next → m = n) (hkept : ∀ t, status ≠ .kept t) :
    Kept (υ ++ [a]) (Function.update δ 0 (.main st' l')) s' (Function.update ν n status) := by
  obtain ⟨-, hinHand, hheld'⟩ := h.of_stage hδ
  have hfits : ∀ m, NodeFits (υ ++ [a]) s' m (Function.update ν n status m) :=
    fits_update h.fits (fun m hm => ⟨hnodes m hm, hlist m hm, hops.of_ne hm⟩) hself
  refine h.of_main harg hnext hended hjoined hundefined hnodup hfits
    (fun m => ?_) hops.joins hmain (fun m hm => ?_) fun m t hm hj => ?_
  · by_cases hmn : m = n
    · rw [hmn, Function.update_self]
      exact hν
    · exact .inl (Function.update_of_ne hmn ..)
  · by_cases hmn : m = n
    · rw [hmn, Function.update_self] at hm
      exact hmn ▸ hnew hm
    · rw [Function.update_of_ne hmn] at hm
      exact absurd (hold m (hinHand m hm)) hmn
  · by_cases hmn : m = n
    · rw [hmn, Function.update_self] at hm
      exact absurd hm (hkept t)
    · rw [Function.update_of_ne hmn] at hm
      obtain ⟨next, hst⟩ := hheld' m t hm hj
      exact absurd (hheld m next hst) hmn

/-! ### The steps of main -/

/-- Memory that has not been allocated is that of no node. -/
theorem NodeFits.unused {st : NodeStatus} (h : NodeFits υ s n st) (hn : s.nodes n = .unused) :
    st = .unused := by
  by_contra hno
  by_cases hfreed : st = .freed
  · have hcell := h.cell
    rw [hfreed] at hcell
    have hcell : s.nodes n = .freed := hcell
    rw [hn] at hcell
    cases hcell
  · obtain ⟨node, hnode⟩ := h.live hno hfreed
    rw [hn] at hnode
    cases hnode

/-- Main allocates a node. -/
theorem Kept.of_malloc {l l' : Bool} (h : Kept υ δ s ν) (hδ : δ 0 = .main .serving l)
    (he : a.event = ⟨.malloc, some n⟩) (hn : s.nodes n = .unused) :
    Kept (υ ++ [a]) (Function.update δ 0 (.main (.fresh n) l')) (s.setNode n (.live ⟨none, none⟩))
      (Function.update ν n .fresh) := by
  have hν := (h.fits n).unused hn
  have hfits := h.fits n
  rw [hν] at hfits
  refine h.of_main_node hδ rfl rfl rfl rfl rfl h.nodup (fun m hm => Function.update_of_ne hm ..)
    (fun _ _ => Iff.rfl) (he ▸ ⟨.inl rfl, .inl rfl, rfl⟩) ?_ (.inr (.inl ?_)) ?_ (fun _ hm => ?_)
    (fun _ => rfl) (fun _ _ hm => ?_) (fun _ => by simp)
  · exact hfits.retype (by rw [he]; rfl) (by rw [he]; rfl) (Function.update_self ..) hfits.listed
      rfl rfl
  · rw [hν]
    exact ⟨rfl, rfl⟩
  · exact Function.update_self ..
  · cases hm
  · cases hm

/-- Main sets the descriptor in its node. -/
theorem Kept.of_store {l l' : Bool} {fd : ℤ} {node : ThreadNode} (h : Kept υ δ s ν)
    (hδ : δ 0 = .main (.fresh n) l) (he : a.event = ⟨.storeClientFd n fd, ()⟩)
    (hn : s.nodes n = .live node) :
    Kept (υ ++ [a]) (Function.update δ 0 (.main (.filled n) l'))
      (s.setNode n (.live { node with clientFd := some fd })) (Function.update ν n .filled) := by
  have hν : ν n = .fresh := (h.of_stage hδ).1
  have hfits := h.fits n
  rw [hν] at hfits
  have hcell : s.nodes n = .live ⟨none, none⟩ := hfits.cell
  rw [hn, Cell.live.injEq] at hcell
  subst hcell
  refine h.of_main_node hδ rfl rfl rfl rfl rfl h.nodup (fun m hm => Function.update_of_ne hm ..)
    (fun _ _ => Iff.rfl) (he ▸ ⟨.inl rfl, .inl rfl, rfl⟩) ?_ (.inr (.inl ?_)) ?_ (fun m hm => ?_)
    (fun _ => rfl) (fun _ _ hm => ?_) (fun _ => by simp)
  · exact hfits.retype (by rw [he]; rfl) (by rw [he]; rfl) ⟨fd, Function.update_self ..⟩ hfits.listed
      rfl rfl
  · rw [hν]
    exact ⟨rfl, rfl⟩
  · exact Function.update_self ..
  · exact (Option.some.inj hm).symm
  · cases hm

/-- Main puts its node on the list. -/
theorem Kept.of_insert {l l' : Bool} (h : Kept υ δ s ν) (hδ : δ 0 = .main (.filled n) l)
    (he : a.event = ⟨.listInsertHead n, ()⟩) :
    Kept (υ ++ [a]) (Function.update δ 0 (.main (.linked n) l')) { s with list := n :: s.list }
      (Function.update ν n .linked) := by
  have hν : ν n = .filled := (h.of_stage hδ).1
  have hfits := h.fits n
  rw [hν] at hfits
  have hnot : n ∉ s.list := fun hn => absurd (hfits.listed.mp hn) (by simp [NodeStatus.listed])
  refine h.of_main_node hδ rfl rfl rfl rfl rfl (List.nodup_cons.mpr ⟨hnot, h.nodup⟩) (fun _ _ => rfl)
    (fun m hm => ?_) (he ▸ ⟨.inl rfl, .inl rfl, rfl⟩) ?_ (.inr (.inl ?_)) ?_ (fun m hm => ?_)
    (fun _ => rfl) (fun _ _ hm => ?_) (fun _ => by simp)
  · rw [List.mem_cons, or_iff_right hm]
  · exact hfits.retype (by rw [he]; rfl) (by rw [he]; rfl) hfits.cell
      (iff_of_true List.mem_cons_self rfl) rfl rfl
  · rw [hν]
    exact ⟨rfl, rfl⟩
  · exact Function.update_self ..
  · exact (Option.some.inj hm).symm
  · cases hm

/-- Main takes the node off the list of a thread that could not be created. -/
theorem Kept.of_retract {l l' : Bool} (h : Kept υ δ s ν) (hδ : δ 0 = .main (.linked n) l)
    (he : a.event = ⟨.posix (.listRemove n), ()⟩) :
    Kept (υ ++ [a]) (Function.update δ 0 (.main (.unlinked n) l')) { s with list := s.list.erase n }
      (Function.update ν n .retracted) := by
  have hν : ν n = .linked := (h.of_stage hδ).1
  have hfits := h.fits n
  rw [hν] at hfits
  refine h.of_main_node hδ rfl rfl rfl rfl rfl (h.nodup.erase n) (fun _ _ => rfl)
    (fun m hm => List.mem_erase_of_ne hm) (he ▸ ⟨.inr rfl, .inl rfl, rfl⟩) ?_ (.inr (.inl ?_)) ?_
    (fun m hm => ?_) (fun _ => rfl) (fun _ _ hm => ?_) (fun _ => by simp)
  · exact hfits.unlink h.nodup (by rw [he]; rfl) (by rw [he]; rfl)
      (hfits.live (by simp) (by simp)) rfl rfl rfl
  · rw [hν]
    exact ⟨rfl, rfl⟩
  · exact Function.update_self ..
  · exact (Option.some.inj hm).symm
  · cases hm

/-- Main frees the node of a thread that could not be created. -/
theorem Kept.of_discard {l l' : Bool} (h : Kept υ δ s ν) (hδ : δ 0 = .main (.unlinked n) l)
    (he : a.event = ⟨.posix (.free n), ()⟩) :
    Kept (υ ++ [a]) (Function.update δ 0 (.main .serving l')) (s.setNode n .freed)
      (Function.update ν n .freed) := by
  have hν : ν n = .retracted := (h.of_stage hδ).1
  have hfits := h.fits n
  rw [hν] at hfits
  refine h.of_main_node hδ rfl rfl rfl rfl rfl h.nodup (fun m hm => Function.update_of_ne hm ..)
    (fun _ _ => Iff.rfl) (he ▸ ⟨.inl rfl, .inr rfl, rfl⟩)
    (hfits.free (by rw [he]; rfl) (by rw [he]; rfl) rfl rfl rfl) (.inr (.inr (.inl ⟨hν, rfl⟩)))
    trivial (fun m hm => (Option.some.inj hm).symm) (fun hm => ?_) (fun _ _ hm => ?_) (fun _ => by simp)
  · cases hm
  · cases hm

/-- Main starts a thread for its node. -/
theorem Kept.of_create {l l' : Bool} {node : ThreadNode} (h : Kept υ δ s ν)
    (hδ : δ 0 = .main (.linked n) l) (he : a.event = ⟨.pthreadCreate n, (0 : ℤ)⟩)
    (hn : s.nodes n = .live node) :
    Kept (υ ++ [a]) (Function.update δ 0 (.main .serving l'))
      { s.setNode n (.live { node with threadId := some s.nextThread }) with
        arg := Function.update s.arg s.nextThread (some n)
        nextThread := s.nextThread + 1 } (Function.update ν n (.kept s.nextThread)) := by
  obtain ⟨hfit, hhand, hheld⟩ := h.of_stage hδ
  have hν : ν n = .linked := hfit
  have hfits := h.fits n
  rw [hν] at hfits
  obtain ⟨fd, hfd⟩ := hfits.cell
  rw [hn, Cell.live.injEq] at hfd
  subst hfd
  have hops : Touches a.event n := he ▸ ⟨.inl rfl, .inl rfl, rfl⟩
  -- the number of the thread is new
  have hnew : s.arg s.nextThread = none := by
    by_contra harg
    exact absurd (h.range _ harg).2 (lt_irrefl _)
  have hother : ∀ t, s.arg t ≠ none → t ≠ s.nextThread := fun t ht heq => ht (heq ▸ hnew)
  refine ⟨h.undefined, h.nodup, ?_, fun m t hm => ?_, fun t ht => ?_, Nat.succ_pos _, fun t ht => ?_,
    ⟨.serving, l', Function.update_self .., trivial, fun m hm => ?_, fun m t hm hj => ?_⟩,
    fun t => ?_⟩
  · refine fits_update h.fits
      (fun m hm => ⟨Function.update_of_ne hm .., Iff.rfl, hops.of_ne hm⟩) ?_
    exact hfits.retype (by rw [he]; rfl) (by rw [he]; rfl) ⟨fd, Function.update_self ..⟩
      (hfits.listed.trans (iff_of_true rfl rfl)) rfl rfl
  · by_cases hmn : m = n
    · rw [hmn, Function.update_self] at hm
      rcases hm with hm | hm <;> cases hm
      rw [hmn]
      exact Function.update_self ..
    · rw [Function.update_of_ne hmn] at hm
      have harg := h.owned m t hm
      exact (Function.update_of_ne (hother t (by rw [harg]; simp)) ..).trans harg
  · by_cases htn : t = s.nextThread
    · rw [htn]
      exact ⟨h.pos, Nat.lt_succ_self _⟩
    · have harg : s.arg t ≠ none := by rwa [← Function.update_of_ne htn (some n) s.arg]
      exact ⟨(h.range t harg).1, Nat.lt_succ_of_lt (h.range t harg).2⟩
  · obtain ⟨g, hg, hfit⟩ := h.handler t ht
    refine ⟨g, by rw [Function.update_of_ne ht.ne', hg], ?_⟩
    by_cases htn : t = s.nextThread
    · -- a thread without an argument has not started
      subst htn
      have hwaiting : ∀ {m : ThreadInfo}, s.arg s.nextThread ≠ some m := by simp [hnew]
      cases hst : g.stage with
      | waiting =>
          rw [hst] at hfit
          refine ⟨hfit.1, hfit.2.1, fun m hm => ?_⟩
          have hm : Function.update s.arg s.nextThread (some n) s.nextThread = some m := hm
          rw [Function.update_self, Option.some.injEq] at hm
          rw [← hm, Function.update_self]
      | serving m | unlinked m =>
          rw [hst] at hfit
          exact absurd hfit.2.2.1 hwaiting
      | freed | gone =>
          rw [hst] at hfit
          obtain ⟨-, -, m, hm, -⟩ := hfit
          exact absurd hm hwaiting
      | abandoned m =>
          rw [hst] at hfit
          exact absurd hfit.2.1 hwaiting
    · refine hfit.frame (Function.update_of_ne htn ..) rfl rfl fun m hm => .inl ?_
      refine Function.update_of_ne (fun hmn => ?_) ..
      have hstatus := hfit.status hm
      rw [hmn, hν] at hstatus
      rcases hstatus with hs | hs | hs | hs <;> cases hs
  · by_cases hmn : m = n
    · rw [hmn, Function.update_self] at hm
      cases hm
    · rw [Function.update_of_ne hmn] at hm
      exact absurd (Option.some.inj (hhand m hm)).symm hmn
  · by_cases hmn : m = n
    · rw [hmn, Function.update_self, NodeStatus.kept.injEq] at hm
      obtain ⟨g, -, hfit⟩ := h.handler s.nextThread h.pos
      have hj : s.joined t = true := hj
      rw [← hm, hfit.not_joined hnew] at hj
      cases hj
    · rw [Function.update_of_ne hmn] at hm
      obtain ⟨next, hno⟩ := hheld m t hm hj
      cases hno
  · rw [joins_concat_of_ne (by rw [hops.joins]; simp)]
    exact h.joins t

theorem mainFits_head (h : s.list.head? = next) (hmet : ∀ m, next = some m → Met υ m) :
    MainFits υ s ν (.head next) := by
  cases next with
  | none => exact List.head?_eq_none_iff.mp h
  | some m => exact ⟨h, hmet m rfl⟩

/-- Main looks up the first entry. -/
theorem Kept.of_first {l l' : Bool} (h : Kept υ δ s ν) (hδ : δ 0 = .main .closing l)
    (he : a.event = ⟨.listFirst, s.list.head?⟩) :
    Kept (υ ++ [a]) (Function.update δ 0 (.main (.head s.list.head?) l')) s ν := by
  refine h.of_main_same hδ ⟨rfl, rfl, rfl, rfl, rfl, rfl⟩ rfl (he ▸ ⟨rfl, rfl, rfl⟩)
    (mainFits_head rfl fun m hm => ?_) (fun _ hm => ?_) fun _ _ hm => ?_
  · exact ⟨a, List.mem_concat_self, .inl (by rw [he, hm])⟩
  · cases hm
  · cases hm

/-- Main looks up the next entry. -/
theorem Kept.of_next {l l' : Bool} (h : Kept υ δ s ν) (hδ : δ 0 = .main (.atEntry e) l)
    (he : a.event = ⟨.listNext e, next⟩)
    (hnext : e ∈ s.list → next = (s.list.dropWhile (· ≠ e)).tail.head?) :
    Kept (υ ++ [a]) (Function.update δ 0 (.main (.following e next) l')) s ν := by
  obtain ⟨hhead, hmet⟩ := (h.of_stage hδ).1
  have htail : s.list.tail.head? = next := by
    rw [hnext (List.mem_of_head? hhead)]
    obtain ⟨rest, hlist⟩ := List.head?_eq_some_iff.mp hhead
    rw [hlist, List.dropWhile_cons_of_neg (by simp)]
  refine h.of_main_same hδ ⟨rfl, rfl, rfl, rfl, rfl, rfl⟩ rfl (he ▸ ⟨rfl, rfl, rfl⟩)
    ⟨hhead, htail, hmet.concat, fun m hm => ?_⟩ (fun _ hm => ?_) fun _ _ hm => ?_
  · exact ⟨a, List.mem_concat_self, .inr ⟨e, by rw [he, hm]⟩⟩
  · cases hm
  · cases hm

/-- The entry that main is at belongs to a thread that has not been joined. -/
theorem Kept.entry {st : MainStage} {l : Bool} (h : Kept υ δ s ν) (hδ : δ 0 = .main st l)
    (hhead : s.list.head? = some e) (hhand : st.hand = none) : ∃ t, ν e = .kept t := by
  have hlisted := (h.fits e).listed.mp (List.mem_of_head? hhead)
  have hnot : (ν e).inHand ≠ true := by
    intro hin
    have hno := (h.of_stage hδ).2.1 e hin
    rw [hhand] at hno
    cases hno
  cases hst : ν e with
  | kept t => exact ⟨t, rfl⟩
  | linked => exact absurd (by rw [hst]; rfl) hnot
  | _ =>
      rw [hst] at hlisted
      cases hlisted

/-- Main reads the thread of the entry. -/
theorem Kept.of_load {l l' : Bool} {id : ℕ} {node : ThreadNode} (h : Kept υ δ s ν)
    (hδ : δ 0 = .main (.following e next) l) (he : a.event = ⟨.loadThreadId e, id⟩)
    (hn : s.nodes e = .live node) (hid : node.threadId = some id) :
    Kept (υ ++ [a]) (Function.update δ 0 (.main (.naming e next id) l')) s ν := by
  have hat : AtEntry υ s e next := (h.of_stage hδ).1
  obtain ⟨t, ht⟩ := h.entry hδ hat.head rfl
  have hcell := (h.fits e).cell
  rw [ht] at hcell
  obtain ⟨fd, hfd⟩ := hcell
  rw [hn, Cell.live.injEq] at hfd
  subst hfd
  obtain rfl : t = id := Option.some.inj hid
  refine h.of_main_same hδ ⟨rfl, rfl, rfl, rfl, rfl, rfl⟩ rfl (he ▸ ⟨rfl, rfl, rfl⟩)
    ⟨hat.concat rfl, ht⟩ (fun _ hm => ?_) fun _ _ hm => ?_
  · cases hm
  · cases hm

/-- Main cancels the thread of the entry. -/
theorem Kept.of_request {l l' : Bool} {id : ℕ} (h : Kept υ δ s ν)
    (hδ : δ 0 = .main (.naming e next id) l) (he : a.event = ⟨.pthreadCancel id, ()⟩) :
    Kept (υ ++ [a]) (Function.update δ 0 (.main (.following e next) l'))
      { s with pending := Function.update s.pending id true } ν := by
  have hat : AtEntry υ s e next := (h.of_stage hδ).1.1
  refine h.of_main_same hδ ⟨rfl, rfl, rfl, rfl, rfl, rfl⟩ rfl (he ▸ ⟨rfl, rfl, rfl⟩)
    (hat.concat rfl) (fun _ hm => ?_) fun _ _ hm => ?_
  · cases hm
  · cases hm

/-- Main joins the thread of the entry. -/
theorem Kept.of_join {l l' : Bool} {id : ℕ} (h : Kept υ δ s ν)
    (hδ : δ 0 = .main (.naming e next id) l) (he : a.event = ⟨.pthreadJoin id, ()⟩)
    (hended : s.ended id = true) :
    Kept (υ ++ [a]) (Function.update δ 0 (.main (.joined e next) l'))
      { s with joined := Function.update s.joined id true } ν := by
  obtain ⟨⟨hat, hid⟩, hhand, hheld⟩ := h.of_stage hδ
  have harg := h.owned e id (.inl hid)
  -- a thread that has been joined has its node in the hand of main
  have hjoined : s.joined id = false := by
    by_contra hno
    rw [Bool.not_eq_false] at hno
    obtain ⟨next', hst⟩ := hheld e id hid hno
    cases hst
  have hops : a.event.op.unlinks? = none ∧ a.event.op.frees? = none ∧
      a.event.op.joins? = some id := by
    rw [he]
    exact ⟨rfl, rfl, rfl⟩
  refine ⟨h.undefined, h.nodup, fun m => ?_, h.owned, h.range, h.pos, fun t ht => ?_,
    ⟨.joined e next, l', Function.update_self .., ⟨hat.concat rfl, id, hid, Function.update_self ..⟩,
      fun m hm => ?_, fun m t hm hj => ?_⟩, fun t => ?_⟩
  · exact (h.fits m).frame rfl Iff.rfl (by rw [hops.1]; simp) (by rw [hops.2.1]; simp)
  · obtain ⟨g, hg, hfit⟩ := h.handler t ht
    refine ⟨g, by rw [Function.update_of_ne ht.ne', hg], ?_⟩
    by_cases hti : t = id
    · subst hti
      exact hfit.join harg hid hended
    · exact hfit.frame rfl rfl (Function.update_of_ne hti ..) fun _ _ => .inl rfl
  · have hno := hhand m hm
    cases hno
  · by_cases hti : t = id
    · have harg' := h.owned m t (.inl hm)
      rw [hti, harg, Option.some.injEq] at harg'
      exact ⟨next, by rw [harg']⟩
    · dsimp only at hj
      rw [Function.update_of_ne hti] at hj
      obtain ⟨next', hst⟩ := hheld m t hm hj
      cases hst
  · by_cases hti : t = id
    · rw [hti, joins_concat_of_eq hops.2.2, h.joins, hjoined]
      exact (if_pos (Function.update_self ..)).symm
    · rw [joins_concat_of_ne (by rw [hops.2.2]; simpa using Ne.symm hti), h.joins]
      simp only [Function.update_of_ne hti]

/-- Main unlinks the entry. -/
theorem Kept.of_remove {l l' : Bool} (h : Kept υ δ s ν) (hδ : δ 0 = .main (.joined e next) l)
    (he : a.event = ⟨.posix (.listRemove e), ()⟩) :
    Kept (υ ++ [a]) (Function.update δ 0 (.main (.removed e next) l'))
      { s with list := s.list.erase e } (Function.update ν e .retracted) := by
  obtain ⟨hat, id, hid, hj⟩ := (h.of_stage hδ).1
  have hfits := h.fits e
  rw [hid] at hfits
  refine h.of_main_node hδ rfl rfl rfl rfl rfl (h.nodup.erase e) (fun _ _ => rfl)
    (fun m hm => List.mem_erase_of_ne hm) (he ▸ ⟨.inr rfl, .inl rfl, rfl⟩) ?_
    (.inr (.inr (.inr ⟨id, hid, hj, rfl⟩))) ⟨Function.update_self .., ?_, fun m hm => ?_⟩
    (fun m hm => ?_) (fun _ => rfl) (fun m next' hm => ?_) (fun _ => by simp)
  · exact hfits.unlink h.nodup (by rw [he]; rfl) (by rw [he]; rfl)
      (hfits.live (by simp) (by simp)) rfl rfl rfl
  · obtain ⟨rest, hlist⟩ := List.head?_eq_some_iff.mp hat.head
    have htail := hat.tail
    rw [hlist, List.tail_cons] at htail
    dsimp only
    rw [hlist, List.erase_cons_head, htail]
  · exact (hat.metNext m hm).concat
  · cases hm
  · exact (MainStage.joined.inj hm).1.symm

/-- Main frees the entry. -/
theorem Kept.of_release {l l' : Bool} (h : Kept υ δ s ν) (hδ : δ 0 = .main (.removed e next) l)
    (he : a.event = ⟨.posix (.free e), ()⟩) :
    Kept (υ ++ [a]) (Function.update δ 0 (.main (.head next) l')) (s.setNode e .freed)
      (Function.update ν e .freed) := by
  obtain ⟨hν, hhead, hmet⟩ := (h.of_stage hδ).1
  have hfits := h.fits e
  rw [hν] at hfits
  refine h.of_main_node hδ rfl rfl rfl rfl rfl h.nodup (fun m hm => Function.update_of_ne hm ..)
    (fun _ _ => Iff.rfl) (he ▸ ⟨.inl rfl, .inr rfl, rfl⟩)
    (hfits.free (by rw [he]; rfl) (by rw [he]; rfl) rfl rfl rfl) (.inr (.inr (.inl ⟨hν, rfl⟩)))
    (mainFits_head hhead fun m hm => (hmet m hm).concat)
    (fun m hm => (Option.some.inj hm).symm) (fun hm => ?_) (fun _ _ hm => ?_) (fun _ => by simp)
  · cases hm
  · cases hm

/-- **A step of main.** -/
theorem Kept.step_main {a : Act threads Threads} {g : ThreadPhase} (h : Kept υ δ a.before ν)
    (ht : a.task = 0) (hdoes : Does a.task a.before (δ a.task) a.event g a.after) :
    ∃ ν', Kept (υ ++ [a]) (Function.update δ a.task g) a.after ν' := by
  obtain ⟨st, l, hδ, -⟩ := h.main
  obtain ⟨t, hist, e, s, s'⟩ := a
  dsimp only at *
  subst ht
  rw [hδ] at hdoes
  -- the loop that accepts, and then the loop that joins
  cases hdoes with
  | mainLock _ _ =>
      exact ⟨ν, h.of_main_quiet hδ ⟨rfl, rfl, rfl, rfl, rfl, rfl⟩ rfl ⟨rfl, rfl, rfl⟩⟩
  | mainUnlock _ =>
      exact ⟨ν, h.of_main_quiet hδ ⟨rfl, rfl, rfl, rfl, rfl, rfl⟩ rfl ⟨rfl, rfl, rfl⟩⟩
  | mainQuiet _ _ he => exact ⟨ν, h.of_main_quiet hδ ⟨rfl, rfl, rfl, rfl, rfl, rfl⟩ rfl he.idles⟩
  | terminate =>
      exact ⟨ν, h.of_main_same hδ ⟨rfl, rfl, rfl, rfl, rfl, rfl⟩ rfl ⟨rfl, rfl, rfl⟩ trivial
        (fun _ hn => by cases hn) fun _ _ hn => by cases hn⟩
  | malloc hn => exact ⟨_, h.of_malloc hδ rfl hn⟩
  | store fd hn => exact ⟨_, h.of_store hδ rfl hn⟩
  | insert => exact ⟨_, h.of_insert hδ rfl⟩
  | create hn => exact ⟨_, h.of_create hδ rfl hn⟩
  | retract => exact ⟨_, h.of_retract hδ rfl⟩
  | discard => exact ⟨_, h.of_discard hδ rfl⟩
  | first => exact ⟨_, h.of_first hδ rfl⟩
  | next hnext => exact ⟨_, h.of_next hδ rfl hnext⟩
  | load _ hn hid => exact ⟨_, h.of_load hδ rfl hn hid⟩
  | request => exact ⟨_, h.of_request hδ rfl⟩
  | join hended => exact ⟨_, h.of_join hδ rfl hended⟩
  | remove => exact ⟨_, h.of_remove hδ rfl⟩
  | release => exact ⟨_, h.of_release hδ rfl⟩

/-! ### What the threads touch is there -/

theorem Threads.node?_of_live {node : ThreadNode} (h : s.nodes n = .live node) :
    s.node? n = some node := by
  rw [Threads.node?, h]

/-- A node with one of these statuses is there. -/
theorem Kept.not_isNone (h : Kept υ δ s ν) (hunused : ν n ≠ .unused) (hfreed : ν n ≠ .freed) :
    (s.node? n).isNone = false := by
  obtain ⟨node, hnode⟩ := (h.fits n).live hunused hfreed
  rw [Threads.node?_of_live hnode]
  rfl

/-- A node that main works on alone is there. -/
theorem Kept.not_isNone_of_inHand (h : Kept υ δ s ν) (hin : (ν n).inHand = true) :
    (s.node? n).isNone = false := by
  refine h.not_isNone (fun hno => ?_) fun hno => ?_
  · rw [hno] at hin
    cases hin
  · rw [hno] at hin
    cases hin

/-- A node on the list is there. -/
theorem Kept.live_of_mem (h : Kept υ δ s ν) (hn : n ∈ s.list) : ∃ node, s.nodes n = .live node := by
  have hlisted := (h.fits n).listed.mp hn
  refine (h.fits n).live (fun hno => ?_) fun hno => ?_
  · rw [hno] at hlisted
    cases hlisted
  · rw [hno] at hlisted
    cases hlisted

/-- A node on the list is there and can be taken off it. -/
theorem Kept.not_callFaults_listRemove (h : Kept υ δ s ν) (hlisted : (ν n).listed = true) :
    s.callFaults (.listRemove n) = false := by
  have hmem := (h.fits n).listed.mpr hlisted
  obtain ⟨node, hnode⟩ := h.live_of_mem hmem
  rw [Threads.callFaults, Threads.node?_of_live hnode, List.contains_iff_mem.mpr hmem]
  rfl

/-- A node of a thread has its thread and its descriptor. -/
theorem Kept.node_of_kept (h : Kept υ δ s ν) (hkept : ν n = .kept t) :
    ∃ fd, s.node? n = some ⟨some t, some fd⟩ := by
  have hcell := (h.fits n).cell
  rw [hkept] at hcell
  obtain ⟨fd, hfd⟩ := hcell
  exact ⟨fd, Threads.node?_of_live hfd⟩

/-- What a handler touches is there. -/
theorem Kept.not_callFaults {g g' : HandlerPhase} {o : PosixOp} (h : Kept υ δ s ν)
    (hfit : HandlerFits υ s ν t g.stage) (hcall : g.call o = some g') : s.callFaults o = false := by
  obtain ⟨stage, f, l, hit⟩ := g
  cases stage with
  | serving m =>
      have hkept : ν m = .kept t := hfit.2.2.2
      dsimp only [HandlerPhase.call] at hcall
      cases o with
      | loadClientFd m' =>
          simp only [HandlerPhase.serve, Option.ite_none_right_eq_some] at hcall
          obtain ⟨rfl, -⟩ := hcall
          obtain ⟨fd, hfd⟩ := h.node_of_kept hkept
          rw [Threads.callFaults, hfd]
          rfl
      | listRemove m' =>
          simp only [HandlerPhase.serve, Option.ite_none_right_eq_some] at hcall
          obtain ⟨⟨rfl, -⟩, -⟩ := hcall
          exact h.not_callFaults_listRemove (by rw [hkept]; rfl)
      -- it is unlinked before it is freed
      | free m' => cases hcall
      | _ => rfl
  | unlinked m =>
      have hunlinked : ν m = .unlinked t := hfit.2.2.2.1
      dsimp only [HandlerPhase.call] at hcall
      cases o with
      | free m' =>
          simp only [HandlerPhase.leave, Option.ite_none_right_eq_some] at hcall
          obtain ⟨⟨rfl, -⟩, -⟩ := hcall
          exact h.not_isNone (by rw [hunlinked]; simp) (by rw [hunlinked]; simp)
      | loadClientFd m' => cases hcall
      | listRemove m' => cases hcall
      | _ => rfl
  | _ => cases hcall

/-- The thread that main has read from its entry can be named. -/
theorem Kept.knows {l : Bool} {id : ℕ} (h : Kept υ δ s ν) (hδ : δ 0 = .main (.naming e next id) l) :
    s.knows id = true := by
  obtain ⟨⟨-, hid⟩, -, hheld⟩ := h.of_stage hδ
  have hjoined : s.joined id = false := by
    by_contra hno
    rw [Bool.not_eq_false] at hno
    obtain ⟨next', hst⟩ := hheld e id hid hno
    cases hst
  rw [Threads.knows, h.owned e id (.inl hid), hjoined]
  rfl

/-- The thread of the entry that main is at can be read. -/
theorem Kept.not_faults_load {l : Bool} (h : Kept υ δ s ν) (hδ : δ 0 = .main (.following e next) l) :
    s.faults (.loadThreadId e) = false := by
  have hat : AtEntry υ s e next := (h.of_stage hδ).1
  obtain ⟨t, ht⟩ := h.entry hδ hat.head rfl
  obtain ⟨fd, hfd⟩ := h.node_of_kept ht
  rw [Threads.faults, hfd]
  rfl

/-- What main touches while it does not hold `list_mutex` is there. -/
theorem Kept.not_faults_outside {st st' : MainStage} {l : Bool} {ev : Event threads}
    (h : Kept υ δ s ν) (hδ : δ 0 = .main st l) (hstep : st.outside ev = some st') :
    s.faults ev.op = false := by
  have hfit := (h.of_stage hδ).1
  obtain ⟨o, r⟩ := ev
  -- only these operations touch a node, or name a thread
  cases o with
  | storeClientFd m fd =>
      cases st with
      | fresh m' =>
          simp only [MainStage.outside, Option.ite_none_right_eq_some] at hstep
          obtain ⟨rfl, -⟩ := hstep
          have hν : ν m = .fresh := hfit
          exact h.not_isNone_of_inHand (by rw [hν]; rfl)
      | _ => cases hstep
  | pthreadCreate m =>
      cases st with
      | linked m' =>
          simp only [MainStage.outside, Option.ite_none_right_eq_some] at hstep
          obtain ⟨rfl, -⟩ := hstep
          have hν : ν m = .linked := hfit
          exact h.not_isNone_of_inHand (by rw [hν]; rfl)
      | _ => cases hstep
  | loadThreadId e' =>
      cases st with
      | following e next =>
          simp only [MainStage.outside, Option.ite_none_right_eq_some] at hstep
          obtain ⟨rfl, -⟩ := hstep
          exact h.not_faults_load hδ
      | _ => cases hstep
  | pthreadJoin id =>
      cases st with
      | naming e next id' =>
          simp only [MainStage.outside, Option.ite_none_right_eq_some] at hstep
          obtain ⟨rfl, -⟩ := hstep
          rw [Threads.faults, h.knows hδ]
          rfl
      | _ => cases hstep
  | posix o =>
      cases o with
      | free m =>
          cases st with
          | unlinked m' =>
              simp only [MainStage.outside, Option.ite_none_right_eq_some] at hstep
              obtain ⟨rfl, -⟩ := hstep
              have hν : ν m = .retracted := hfit
              exact h.not_isNone_of_inHand (by rw [hν]; rfl)
          | _ => cases hstep
      | listRemove m => cases st <;> cases hstep
      | loadClientFd m => cases st <;> cases hstep
      | _ => rfl
  | listInsertHead m => cases st <;> cases hstep
  | listNext m => cases st <;> cases hstep
  | pthreadCancel id => cases st <;> cases hstep
  | point o => cases st <;> cases hstep
  | _ => rfl

/-- What main touches while it holds `list_mutex` is there. -/
theorem Kept.not_faults_inside {st st' : MainStage} {l : Bool} {ev : Event threads}
    (h : Kept υ δ s ν) (hδ : δ 0 = .main st l) (hstep : st.inside ev = some st') :
    s.faults ev.op = false := by
  have hfit := (h.of_stage hδ).1
  obtain ⟨o, r⟩ := ev
  cases o with
  | listInsertHead m =>
      cases st with
      | filled m' =>
          simp only [MainStage.inside, Option.ite_none_right_eq_some] at hstep
          obtain ⟨rfl, -⟩ := hstep
          have hν : ν m = .filled := hfit
          exact h.not_isNone_of_inHand (by rw [hν]; rfl)
      | _ => cases hstep
  | listNext e' =>
      cases st with
      | atEntry e =>
          simp only [MainStage.inside, Option.ite_none_right_eq_some] at hstep
          obtain ⟨rfl, -⟩ := hstep
          obtain ⟨t, ht⟩ := h.entry hδ hfit.1 rfl
          exact h.not_isNone (by rw [ht]; simp) (by rw [ht]; simp)
      | _ => cases hstep
  | loadThreadId e' =>
      cases st with
      | following e next =>
          simp only [MainStage.inside, Option.ite_none_right_eq_some] at hstep
          obtain ⟨rfl, -⟩ := hstep
          exact h.not_faults_load hδ
      | _ => cases hstep
  | pthreadCancel id =>
      cases st with
      | naming e next id' =>
          simp only [MainStage.inside, Option.ite_none_right_eq_some] at hstep
          obtain ⟨rfl, -⟩ := hstep
          rw [Threads.faults, h.knows hδ]
          rfl
      | _ => cases hstep
  | posix o =>
      cases o with
      | listRemove m =>
          cases st with
          | linked m' =>
              simp only [MainStage.inside, Option.ite_none_right_eq_some] at hstep
              obtain ⟨rfl, -⟩ := hstep
              have hν : ν m = .linked := hfit
              exact h.not_callFaults_listRemove (by rw [hν]; rfl)
          | joined e next =>
              simp only [MainStage.inside, Option.ite_none_right_eq_some] at hstep
              obtain ⟨rfl, -⟩ := hstep
              obtain ⟨-, id, hid, -⟩ := hfit
              exact h.not_callFaults_listRemove (by rw [hid]; rfl)
          | _ => cases hstep
      | free m =>
          cases st with
          | removed e next =>
              simp only [MainStage.inside, Option.ite_none_right_eq_some] at hstep
              obtain ⟨rfl, -⟩ := hstep
              have hν : ν m = .retracted := hfit.1
              exact h.not_isNone_of_inHand (by rw [hν]; rfl)
          | _ => cases hstep
      | loadClientFd m => cases st <;> cases hstep
      | _ => rfl
  | storeClientFd m fd => cases st <;> cases hstep
  | pthreadCreate m => cases st <;> cases hstep
  | pthreadJoin id => cases st <;> cases hstep
  | point o => cases st <;> cases hstep
  | _ => rfl

/-- **No thread touches what is not there.** -/
theorem Kept.not_faults {ev : Event threads} {g : ThreadPhase} (h : Kept υ δ s ν)
    (hstep : (δ t).step ev = some g) (hc : ev.op.cancelled ev.res = false) :
    s.faults ev.op = false := by
  obtain ⟨o, r⟩ := ev
  -- main, without the lock and with it, and a handler
  rcases Nat.eq_zero_or_pos t with rfl | ht
  · obtain ⟨st, l, hδ, -⟩ := h.main
    rw [hδ] at hstep
    cases l with
    | false =>
        by_cases hlock : o.locksList = true
        · unfold ThreadOp.locksList at hlock
          split at hlock
          · rfl
          · cases hlock
        · simp only [ThreadPhase.step, if_neg hlock, Option.map_eq_some_iff] at hstep
          obtain ⟨st', hst', -⟩ := hstep
          exact h.not_faults_outside hδ hst'
    | true =>
        by_cases hunlock : o.unlocksList = true
        · unfold ThreadOp.unlocksList at hunlock
          split at hunlock
          · rfl
          · cases hunlock
        · simp only [ThreadPhase.step, if_neg hunlock, Option.map_eq_some_iff] at hstep
          obtain ⟨st', hst', -⟩ := hstep
          exact h.not_faults_inside hδ hst'
  · obtain ⟨g₀, hg₀, hfit⟩ := h.handler t ht
    rw [hg₀] at hstep
    cases o with
    | posix o =>
        simp only [ThreadPhase.step, Option.map_eq_some_iff] at hstep
        obtain ⟨g', hg', -⟩ := hstep
        exact h.not_callFaults hfit hg'
    | point o =>
        cases r with
        | none => cases hc
        | some r =>
            simp only [ThreadPhase.step, Option.map_eq_some_iff] at hstep
            obtain ⟨g', hg', -⟩ := hstep
            exact h.not_callFaults hfit hg'
    | start => rfl
    | exit => rfl
    | _ => cases hstep

/-! ### Runs -/

/-- Before the first connection. -/
theorem kept_start : Kept [] startPhase Threads.init fun _ => .unused where
  undefined := rfl
  nodup := List.nodup_nil
  fits _ := ⟨rfl, by simp [Threads.init, NodeStatus.listed], rfl, rfl⟩
  owned _ _ h := by rcases h with h | h <;> cases h
  range _ h := absurd rfl h
  pos := Nat.one_pos
  handler t ht := by
    obtain ⟨t, rfl⟩ := Nat.exists_eq_add_of_lt ht
    rw [Nat.zero_add]
    exact ⟨_, rfl, rfl, rfl, fun _ h => by cases h⟩
  main := ⟨.serving, false, rfl, trivial, fun _ h => (by cases h), fun _ _ h => by cases h⟩
  joins _ := rfl

/-- **The step lemma**: a thread takes a step, and a handler unlinks no node that main has met. -/
theorem Kept.step {a : Act threads Threads} {g : ThreadPhase} (h : Kept υ δ a.before ν)
    (hsafe : a.task ≠ 0 → ∀ n, a.event.op.unlinks? = some n → ¬Met υ n)
    (hdoes : Does a.task a.before (δ a.task) a.event g a.after) :
    ∃ ν', Kept (υ ++ [a]) (Function.update δ a.task g) a.after ν' := by
  rcases Nat.eq_zero_or_pos a.task with ht | ht
  · exact h.step_main ht hdoes
  · exact h.step_handler ht (hsafe ht.ne') hdoes

end Main

end Aesd.Server

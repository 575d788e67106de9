import Aesd.Server.ThreadNodes

/-! # Threads that nobody joins

Main joins the threads whose nodes it finds on the list when it shuts down. A handler that comes to
its end takes its own node off the list before, and nobody has detached or joined it:
**`none_lost_iff`**: no thread is lost in a run exactly if no handler unlinks its node. -/

namespace Aesd.Server

open Effects

/-- The thread has been joined, or a node on the list holds its number. -/
def Threads.Accounted (s : Threads) (t : ℕ) : Prop :=
  s.joined t = true ∨ ∃ n ∈ s.list, ∃ node, s.nodes n = .live node ∧ node.threadId = some t

/-- No thread that has been started is lost. -/
def Threads.NoneLost (s : Threads) : Prop := ∀ t, s.arg t ≠ none → s.Accounted t

/-- A handler unlinks a node. -/
def HandlerUnlinks (a : Act threads Threads) : Prop := a.task ≠ 0 ∧ a.event.op.unlinks? ≠ none

section Accounts

variable {υ τ : List (Act threads Threads)} {δ : ℕ → ThreadPhase} {s : Threads}
  {ν : ThreadInfo → NodeStatus} {n : ThreadInfo} {t : ℕ}

/-- A thread whose node is kept is accounted for. -/
theorem Kept.accounted (h : Kept υ δ s ν) (hkept : ν n = .kept t) : s.Accounted t := by
  have hfits := h.fits n
  rw [hkept] at hfits
  obtain ⟨fd, hfd⟩ := hfits.cell
  exact .inr ⟨n, hfits.listed.mpr rfl, _, hfd, rfl⟩

/-- A thread on the list has its own node there. -/
theorem Kept.kept_of_mem {node : ThreadNode} (h : Kept υ δ s ν) (hn : n ∈ s.list)
    (hcell : s.nodes n = .live node) (hid : node.threadId = some t) : ν n = .kept t := by
  have hfits := h.fits n
  have hlisted := hfits.listed.mp hn
  have hholds := hfits.cell
  cases hst : ν n with
  | linked =>
      rw [hst] at hholds
      obtain ⟨fd, hfd⟩ := hholds
      rw [hcell, Cell.live.injEq] at hfd
      rw [hfd] at hid
      cases hid
  | kept u =>
      rw [hst] at hholds
      obtain ⟨fd, hfd⟩ := hholds
      rw [hcell, Cell.live.injEq] at hfd
      rw [hfd] at hid
      rw [Option.some.inj hid]
  | _ =>
      rw [hst] at hlisted
      cases hlisted

/-- As long as no handler has unlinked a node, no thread is lost. -/
theorem Kept.noneLost (h : Kept υ δ s ν) (hclean : ∀ b ∈ υ, ¬HandlerUnlinks b) : s.NoneLost := by
  intro t ht
  obtain ⟨n, hn⟩ := Option.ne_none_iff_exists'.mp ht
  have hpos := (h.range t ht).1
  have hnone : ¬HasUnlinked υ t := by
    rintro ⟨b, hb, htask, hunlinks⟩
    exact hclean b hb ⟨by omega, hunlinks⟩
  obtain ⟨g, -, hfit⟩ := h.handler t hpos
  -- a thread that has not unlinked its node is before it, or has ended without it
  cases hst : g.stage with
  | waiting =>
      rw [hst] at hfit
      exact h.accounted (hfit.2.2 n hn)
  | serving m =>
      rw [hst] at hfit
      exact h.accounted hfit.2.2.2
  | unlinked m =>
      rw [hst] at hfit
      exact absurd hfit.2.2.2.2 hnone
  | freed | gone =>
      rw [hst] at hfit
      obtain ⟨-, -, m, -, -, hunlinked⟩ := hfit
      exact absurd hunlinked hnone
  | abandoned m =>
      rw [hst] at hfit
      obtain ⟨-, -, ⟨-, hkept⟩ | ⟨hjoined, -⟩⟩ := hfit
      · exact h.accounted hkept
      · exact .inl hjoined

/-- A handler that unlinks its node is lost. -/
theorem Kept.lost {a : Act threads Threads} {g : ThreadPhase} (h : Kept υ δ a.before ν)
    (ha : HandlerUnlinks a) (hdoes : Does a.task a.before (δ a.task) a.event g a.after) :
    ¬a.after.NoneLost := by
  obtain ⟨htask, hunlinks⟩ := ha
  obtain ⟨g₀, hg₀, hfit⟩ := h.handler a.task (Nat.pos_of_ne_zero htask)
  obtain ⟨t, hist, e, s, s'⟩ := a
  dsimp only at *
  rw [hg₀] at hdoes
  cases hdoes with
  | @unlink n f l e he =>
      obtain ⟨-, hjoined, harg, hkept⟩ := hfit
      intro hnone
      rcases hnone t (by rw [harg]; simp) with hj | ⟨m, hm, node, hcell, hid⟩
      · rw [hjoined] at hj
        cases hj
      · -- no other node on the list is that of this thread
        have hstatus := h.kept_of_mem (List.mem_of_mem_erase hm) hcell hid
        have harg' := h.owned m t (.inl hstatus)
        rw [harg, Option.some.injEq] at harg'
        rw [← harg'] at hm
        exact h.nodup.not_mem_erase hm
  | quiet _ he => exact absurd he.unlinks hunlinks
  | cancel _ _ hpoint _ => exact absurd (idles_of_isCancellationPoint hpoint).unlinks hunlinks
  | lockFile he _ => exact absurd he.unlinks hunlinks
  | unlockFile he => exact absurd he.unlinks hunlinks
  | lockList _ _ he _ => exact absurd he.unlinks hunlinks
  | unlockList _ _ he => exact absurd he.unlinks hunlinks
  | free _ _ he => rcases he.ops with ho | ho <;> rw [ho] at hunlinks <;> exact absurd rfl hunlinks
  | start | abandon | finish => exact absurd rfl hunlinks

/-- What a run says about the threads: none is lost before a handler unlinks a node, and then one
is. -/
structure Census (υ : List (Act threads Threads)) (δ : ℕ → ThreadPhase) (s : Threads) : Prop where
  /-- No handler has unlinked a node. -/
  clean : (∀ b ∈ υ, ¬HandlerUnlinks b) → (∃ ν, Kept υ δ s ν) ∧ ∀ b ∈ υ, b.after.NoneLost
  /-- A handler has unlinked a node. -/
  lost : (∃ b ∈ υ, HandlerUnlinks b) → ∃ b ∈ υ, ¬b.after.NoneLost

/-- The step lemma. -/
theorem Census.step {a : Act threads Threads} {g : ThreadPhase} (h : Census υ δ a.before)
    (hdoes : Does a.task a.before (δ a.task) a.event g a.after) :
    Census (υ ++ [a]) (Function.update δ a.task g) a.after := by
  constructor
  · intro hclean
    obtain ⟨⟨ν, hkept⟩, hnone⟩ := h.clean fun b hb => hclean b (List.mem_append_left _ hb)
    have ha := hclean a List.mem_concat_self
    obtain ⟨ν', hkept'⟩ := hkept.step
      (fun ht n hn => absurd ⟨ht, by rw [hn]; simp⟩ ha) hdoes
    refine ⟨⟨ν', hkept'⟩, fun b hb => ?_⟩
    rcases List.mem_append.mp hb with hb | hb
    · exact hnone b hb
    · obtain rfl := List.mem_singleton.mp hb
      exact hkept'.noneLost hclean
  · rintro ⟨b, hb, hunlinks⟩
    by_cases hbefore : ∃ b ∈ υ, HandlerUnlinks b
    · obtain ⟨c, hc, hlost⟩ := h.lost hbefore
      exact ⟨c, List.mem_append_left _ hc, hlost⟩
    · -- this is the first time
      have hclean : ∀ b ∈ υ, ¬HandlerUnlinks b := fun c hc hno => hbefore ⟨c, hc, hno⟩
      obtain ⟨⟨ν, hkept⟩, -⟩ := h.clean hclean
      rcases List.mem_append.mp hb with hb | hb
      · exact absurd hunlinks (hclean b hb)
      · obtain rfl := List.mem_singleton.mp hb
        exact ⟨b, List.mem_concat_self, hkept.lost hunlinks hdoes⟩

/-- A step that faults comes after a handler has unlinked a node. -/
theorem Census.fault {a : Act threads Threads} {g : ThreadPhase} (h : Census υ δ a.before)
    (hf : a.before.faults a.event.op = true) (hc : a.event.op.cancelled a.event.res = false)
    (hstep : (δ a.task).step a.event = some g) :
    Census (υ ++ [a]) (Function.update δ a.task g) a.after := by
  have hbefore : ∃ b ∈ υ, HandlerUnlinks b := by
    by_contra hno
    obtain ⟨⟨ν, hkept⟩, -⟩ := h.clean fun b hb hu => hno ⟨b, hb, hu⟩
    rw [hkept.not_faults hstep hc] at hf
    cases hf
  constructor
  · intro hclean
    obtain ⟨b, hb, hu⟩ := hbefore
    exact absurd hu (hclean b (List.mem_append_left _ hb))
  · intro _
    obtain ⟨c, hc, hlost⟩ := h.lost hbefore
    exact ⟨c, List.mem_append_left _ hc, hlost⟩

/-- After main has come to the end of the list, each thread has been joined once. -/
theorem joins_at_end {l : Bool} (h : Kept υ δ s ν) (hδ : δ 0 = .main .atEnd l)
    (hnone : s.NoneLost) (ht : s.arg t ≠ none) : joins υ t = 1 := by
  have hlist : s.list = [] := (h.of_stage hδ).1
  rcases hnone t ht with hjoined | ⟨n, hn, -⟩
  · rw [h.joins, if_pos hjoined]
  · rw [hlist] at hn
    cases hn

end Accounts

/-- **A thread is lost exactly if a handler unlinks its node.** In every run, whatever handlers have
been started, have ended and have been cancelled, and whenever the server shuts down: in every state
each thread that has been started has been joined or its number is held by a node on the list, and
when main returns each thread has been joined once, exactly if no handler takes a node off the list.
-/
theorem none_lost_iff {buffers : ℕ → Buffer} {τ : List (Act threads Threads)}
    {q : Pool threads Threads Unit}
    (hrun : Steps (lifecycle buffers) ((lifecycle buffers).init Threads.init) τ q) :
    ((∀ a ∈ τ, a.after.NoneLost) ∧
        ((q.task 0).prog = .pure () → ∀ t, q.shared.arg t ≠ none → joins τ t = 1)) ↔
      ∀ a ∈ τ, a.task ≠ 0 → a.event.op.unlinks? = none := by
  obtain ⟨δ, hδ, h⟩ := lifecycle_invariant (J := Census) hrun
    ⟨fun _ => ⟨⟨_, kept_start⟩, by simp⟩, by simp⟩ (fun _ _ _ _ _ h _ _ hdoes => h.step hdoes)
    fun _ _ _ _ _ h _ hf hc hstep _ => h.fault hf hc hstep
  constructor
  · rintro ⟨hnone, -⟩ a ha ht
    by_contra hunlinks
    obtain ⟨b, hb, hlost⟩ := h.lost ⟨a, ha, ht, hunlinks⟩
    exact hlost (hnone b hb)
  · intro hclean
    have hclean : ∀ b ∈ τ, ¬HandlerUnlinks b := fun b hb hno => hno.2 (hclean b hb hno.1)
    obtain ⟨⟨ν, hkept⟩, hnone⟩ := h.clean hclean
    refine ⟨hnone, fun hreturned t ht => ?_⟩
    have hend := (hδ 0).2
    rw [hreturned] at hend
    exact joins_at_end hkept (hend rfl) (hkept.noneLost hclean) ht

section Examples

theorem joins_eq_countP {τ : List (Act threads Threads)} {moves : List (ℕ × Event threads)}
    (h : τ.map (fun a => (a.task, a.event)) = moves) (t : ℕ) :
    joins τ t = moves.countP fun m => m.2.op.joins? = some t := by
  rw [← h, List.countP_map]
  rfl

/-- A handler waits for its client. -/
def oneWaiting : List (ℕ × Event threads) :=
  turn 0 (connect 3 4 0) ++ turn 1 (upTo 0 (opened 0 4 deviceFd))

theorem none_lost_iff_oneWaiting : ∃ τ q,
    Steps (lifecycle fun _ => Buffer.zero) ((lifecycle fun _ => Buffer.zero).init Threads.init) τ q ∧
      τ.map (fun a => (a.task, a.event)) = oneWaiting ∧ ∀ a ∈ τ, a.after.NoneLost := by
  have hplay : (Threads.init.play oneWaiting).isSome = true := by decide
  obtain ⟨s', hs'⟩ := Option.isSome_iff_exists.mp hplay
  have hmain : Runs mainThread (eventsOf 0 oneWaiting) mainThread := by
    have hconnect : Runs mainThread (connect 3 4 0) mainThread := runs_connect (by decide)
    simpa [oneWaiting] using hconnect
  obtain ⟨b, hb⟩ : ∃ b, Runs (handlerThread Buffer.zero) (eventsOf 1 oneWaiting) b := by
    obtain ⟨k, hk⟩ : ∃ k, Runs (handleConnection 0 Buffer.zero) (opened 0 4 deviceFd)
        (Prog.call (E := posix) (.recv 4 bufferSize) k) := runs_waiting 4 (by decide)
    simpa [oneWaiting] using runs_upTo hk
  obtain ⟨τ, q, hq, hτ, -⟩ := exists_run_pair hs' hmain hb fun t => by simp [oneWaiting]
  refine ⟨τ, q, hq, hτ, ((none_lost_iff hq).mpr fun a ha _ => ?_).1⟩
  -- nothing is unlinked
  have hnone : ∀ m ∈ oneWaiting, m.2.op.unlinks? = none := by decide
  exact hnone (a.task, a.event) (hτ ▸ List.mem_map_of_mem ha)

/-- The witness of a thread that is lost: it has ended, and main has returned and not joined it. -/
theorem exists_lost : ∃ τ q,
    Steps (lifecycle fun _ => Buffer.zero) ((lifecycle fun _ => Buffer.zero).init Threads.init) τ q ∧
      (q.task 0).prog = .pure () ∧ q.shared.arg 1 = some 0 ∧ q.shared.ended 1 = true ∧
      q.shared.joined 1 = false ∧ q.shared.list = [] ∧ joins τ 1 = 0 := by
  obtain ⟨τ, q, hq, hτ, hs, hreturned⟩ := exists_oneClient
  have hfinal : (Threads.init.play oneClient).map
      (fun s => (s.arg 1, s.ended 1, s.joined 1, s.list)) = some (some 0, true, false, []) := by decide
  rw [hs, Option.map_some, Option.some.injEq, Prod.mk.injEq, Prod.mk.injEq, Prod.mk.injEq] at hfinal
  obtain ⟨harg, hended, hjoined, hlist⟩ := hfinal
  have hnever : joins τ 1 = 0 := by
    rw [joins_eq_countP hτ]
    decide
  exact ⟨τ, q, hq, hreturned, harg, hended, hjoined, hlist, hnever⟩

end Examples

end Aesd.Server

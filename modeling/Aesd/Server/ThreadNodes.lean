import Aesd.Server.NodeSteps

/-! # The life of a node

Main keeps the entry it is at and the one after it while it waits for a thread without `list_mutex`,
and the thread that it waits for unlinks and frees its node on its own. **`unlinked_freed_once`**:
as long as no handler unlinks a node that the loop has met, nothing is touched that is not there,
and every node is unlinked and freed once. A handler that the loop itself has cancelled breaks this
(`exists_unlinked_twice`). -/

namespace Aesd.Server

open Effects

/-- The node that an operation reads, writes, links, unlinks or frees. -/
def ThreadOp.touches? : ThreadOp → Option ThreadInfo
  | .posix (.loadClientFd n) | .point (.loadClientFd n) | .posix (.listRemove n)
  | .point (.listRemove n) | .posix (.free n) | .point (.free n) | .storeClientFd n _
  | .listInsertHead n | .pthreadCreate n | .listNext n | .loadThreadId n => some n
  | _ => none

/-- The node that a step touches is there, and so are those on the list that it can be linked to. -/
structure Sound (a : Act threads Threads) : Prop where
  /-- The node that it touches. -/
  touched : ∀ n, a.event.op.touches? = some n → ∃ node, a.before.nodes n = .live node
  /-- The nodes on the list. -/
  linked : ∀ n ∈ a.before.list, ∃ node, a.before.nodes n = .live node

/-- No handler unlinks a node that the shutdown loop has met, as its entry or as the one after it.
-/
def HandsOff (τ : List (Act threads Threads)) : Prop :=
  ∀ υ a n, υ ++ [a] <+: τ → a.task ≠ 0 → a.event.op.unlinks? = some n → ¬Met υ n

section Life

variable {υ τ : List (Act threads Threads)} {δ : ℕ → ThreadPhase} {s : Threads}
  {ν : ThreadInfo → NodeStatus} {n : ThreadInfo}

/-- An operation that does not fault touches a node that is there. -/
theorem live_of_touches {o : ThreadOp} (hok : s.faults o = false) (ho : o.touches? = some n) :
    ∃ node, s.nodes n = .live node := by
  have hlive : (s.node? n).isNone = false → ∃ node, s.nodes n = .live node := by
    intro h
    obtain ⟨node, hnode, -⟩ := node?_of_not_faults h
    exact ⟨node, hnode⟩
  -- a field that can be read belongs to a node that is there
  have hfield : ∀ {β : Type} {field : ThreadNode → Option β},
      ((s.node? n).bind field).isNone = false → ∃ node, s.nodes n = .live node := by
    intro β field h
    refine hlive ?_
    cases hn : s.node? n with
    | none =>
        rw [hn] at h
        cases h
    | some node => rfl
  have hcall : ∀ {o : PosixOp}, s.callFaults o = false → ThreadOp.touches? (.posix o) = some n →
      ∃ node, s.nodes n = .live node := by
    intro o hok ho
    cases o with
    | loadClientFd n' =>
        cases ho
        exact hfield hok
    | listRemove n' =>
        cases ho
        rw [Threads.callFaults, Bool.or_eq_false_iff] at hok
        exact hlive hok.1
    | free n' =>
        cases ho
        exact hlive hok
    | _ => cases ho
  cases o with
  | posix o => exact hcall hok ho
  | point o => exact hcall hok (by cases o <;> exact ho)
  | storeClientFd n' fd | listInsertHead n' | pthreadCreate n' | listNext n' =>
      cases ho
      exact hlive hok
  | loadThreadId n' =>
      cases ho
      exact hfield hok
  | _ => cases ho

/-- No node is unlinked or freed twice. -/
theorem Kept.once (h : Kept υ δ s ν) : unlinks υ n ≤ 1 ∧ frees υ n ≤ 1 := by
  rw [(h.fits n).unlinks, (h.fits n).frees]
  cases ν n <;> simp [NodeStatus.unlinks, NodeStatus.frees]

/-- After main has come to the end of the list, a node has been unlinked, and its thread frees it
before it ends. -/
theorem Kept.at_end {l : Bool} (h : Kept υ δ s ν) (hδ : δ 0 = .main .atEnd l)
    (hn : s.nodes n ≠ .unused) :
    unlinks υ n = 1 ∧ ((∀ t, s.arg t = some n → s.ended t = true) → frees υ n = 1) := by
  obtain ⟨hlist, hhand, -⟩ := h.of_stage hδ
  have hlist : s.list = [] := hlist
  have hnot : (ν n).listed ≠ true := by
    intro hlisted
    have hmem := (h.fits n).listed.mpr hlisted
    rw [hlist] at hmem
    cases hmem
  have hfree : (ν n).inHand ≠ true := by
    intro hin
    have hno := hhand n hin
    cases hno
  rw [(h.fits n).unlinks, (h.fits n).frees]
  cases hst : ν n with
  | unused =>
      have hcell := (h.fits n).cell
      rw [hst] at hcell
      exact absurd hcell hn
  | fresh | filled | linked | retracted => exact absurd (by rw [hst]; rfl) hfree
  | kept t => exact absurd (by rw [hst]; rfl) hnot
  | freed => exact ⟨rfl, fun _ => rfl⟩
  | unlinked t =>
      refine ⟨rfl, fun hended => ?_⟩
      -- the thread is between the two and has not ended
      have harg := h.owned n t (.inr hst)
      obtain ⟨g, -, hfit⟩ := h.handler t (h.range t (by rw [harg]; simp)).1
      have hrunning := hfit.not_ended harg hst
      rw [hended t harg] at hrunning
      cases hrunning

variable {buffers : ℕ → Buffer} {q : Pool threads Threads Unit}

/-- The run lemma. -/
theorem kept_of_run (hrun : Steps (lifecycle buffers) ((lifecycle buffers).init Threads.init) τ q)
    (hsafe : HandsOff τ) : ∃ δ ν, Watched (fun _ => phases) startPhase EndPhase δ q ∧
      Kept τ δ q.shared ν ∧ ∀ a ∈ τ, Sound a := by
  obtain ⟨δ, hδ, ⟨ν, h⟩, hsound⟩ := lifecycle_invariant
    (J := fun υ δ s => (∃ ν, Kept υ δ s ν) ∧ ∀ a ∈ υ, Sound a) hrun ⟨⟨_, kept_start⟩, by simp⟩
    (by
      rintro υ δ a g hυ ⟨⟨ν, h⟩, hsound⟩ - hok hdoes
      refine ⟨h.step (fun ht n => hsafe υ a n hυ ht) hdoes, fun b hb => ?_⟩
      rcases List.mem_append.mp hb with hb | hb
      · exact hsound b hb
      · obtain rfl := List.mem_singleton.mp hb
        exact ⟨fun n hn => live_of_touches hok hn, fun n hn => h.live_of_mem hn⟩)
    (by
      rintro υ δ a g - ⟨⟨ν, h⟩, -⟩ - hf hc hstep -
      rw [h.not_faults hstep hc] at hf
      cases hf)
  exact ⟨δ, ν, hδ, h, hsound⟩

end Life

/-- **Every node is unlinked once and freed once**, and nothing is touched that is not there, in
every run in which no handler unlinks a node that the shutdown loop has met: each step finds the
node that it touches, and those on the list, neither freed nor missing; no node is unlinked or freed
twice; and when main has returned every node that was allocated has been unlinked, and freed unless
the thread that unlinked it is about to free it. -/
theorem unlinked_freed_once {buffers : ℕ → Buffer} {τ : List (Act threads Threads)}
    {q : Pool threads Threads Unit}
    (hrun : Steps (lifecycle buffers) ((lifecycle buffers).init Threads.init) τ q)
    (hsafe : HandsOff τ) :
    (∀ a ∈ τ, Sound a) ∧ (∀ n, unlinks τ n ≤ 1 ∧ frees τ n ≤ 1) ∧
      ((q.task 0).prog = .pure () → ∀ n, q.shared.nodes n ≠ .unused →
        unlinks τ n = 1 ∧ ((∀ t, q.shared.arg t = some n → q.shared.ended t = true) →
          frees τ n = 1)) := by
  obtain ⟨δ, ν, hδ, h, hsound⟩ := kept_of_run hrun hsafe
  refine ⟨hsound, fun n => h.once, fun hreturned n hn => ?_⟩
  -- main has returned, so it has come to the end of the list
  have hend := (hδ 0).2
  rw [hreturned] at hend
  exact h.at_end (hend rfl) hn

section Examples

theorem unlinks_eq_countP {τ : List (Act threads Threads)} {moves : List (ℕ × Event threads)}
    (h : τ.map (fun a => (a.task, a.event)) = moves) (n : ThreadInfo) :
    unlinks τ n = moves.countP fun m => m.2.op.unlinks? = some n := by
  rw [← h, List.countP_map]
  rfl

/-- No handler unlinks a node after the loop has begun to look at the list. -/
theorem handsOff_of_moves {τ : List (Act threads Threads)} {m₁ m₂ : List (ℕ × Event threads)}
    (hτ : τ.map (fun a => (a.task, a.event)) = m₁ ++ m₂) (h₁ : ∀ m ∈ m₁, ∀ n, ¬Finds m.2 n)
    (h₂ : ∀ m ∈ m₂, m.1 ≠ 0 → m.2.op.unlinks? = none) : HandsOff τ := by
  obtain ⟨τ₁, τ₂, rfl, rfl, rfl⟩ := List.map_eq_append_iff.mp hτ
  rintro υ a n hυ ht hn ⟨b, hb, hfinds⟩
  have hbegins : ¬υ ++ [a] <+: τ₁ := fun hpre =>
    h₁ _ (List.mem_map_of_mem (hpre.subset (List.mem_append_left _ hb))) n hfinds
  -- the act is none of the first ones, as nothing has been found among these
  have hpre := (List.prefix_or_prefix_of_prefix hυ (List.prefix_append τ₁ τ₂)).resolve_left hbegins
  rcases List.prefix_concat_iff.mp hpre with rfl | ⟨υ', rfl⟩
  · exact absurd List.prefix_rfl hbegins
  · rw [List.append_assoc, List.prefix_append_right_inj] at hυ
    rw [h₂ _ (List.mem_map_of_mem (hυ.subset List.mem_concat_self)) ht] at hn
    cases hn

/-- Two clients connect, and the first one hangs up. Then main is told to terminate, finds the node
of the second one and cancels its handler, which is about to unlink it. -/
def foundNode : List (ℕ × Event threads) :=
  turn 0 (connect 3 4 0 ++ connect 3 6 1) ++
    turn 1 (finished 0 4 (opened 0 4 deviceFd ++
      [⟨.recv 4 bufferSize, Transfer.empty bufferSize⟩])) ++
    turn 2 (upTo 1 (opened 1 6 otherFd)) ++
    (turn 0 (terminate ++ requestExit 1 none 2 ++ (join 1 2).take 1) ++
      turn 2 ((cancelledAt 1 6 (.recv 6 bufferSize)).take 5))

theorem exists_foundNode : ∃ τ q,
    Steps (lifecycle fun _ => Buffer.zero) ((lifecycle fun _ => Buffer.zero).init Threads.init) τ q ∧
      τ.map (fun a => (a.task, a.event)) = foundNode := by
  have hplay : (Threads.init.play foundNode).isSome = true := by decide
  obtain ⟨s', hs'⟩ := Option.isSome_iff_exists.mp hplay
  -- main, up to the join
  obtain ⟨b, hb⟩ := runs_requestExit 1 none 2
  have hcut : terminate ++ requestExit 1 none 2 ++ join 1 2 =
      terminate ++ requestExit 1 none 2 ++ (join 1 2).take 1 ++ (join 1 2).drop 1 := by
    rw [List.append_assoc _ (List.take 1 _), List.take_append_drop]
  rw [hcut] at hb
  obtain ⟨c, hc, -⟩ := Runs.split hb
  have hconnect : Runs mainThread (connect 3 4 0 ++ connect 3 6 1) mainThread :=
    (runs_connect (by decide)).trans (runs_connect (by decide))
  have hmain : Runs mainThread (eventsOf 0 foundNode) c := by
    simpa [foundNode] using hconnect.trans hc
  -- the handlers
  have hfirst : Runs (handlerThread Buffer.zero) (eventsOf 1 foundNode) (.pure ()) := by
    simpa [foundNode] using runs_finished (by decide) (runs_hangUp 4 (by decide))
  obtain ⟨k, hk⟩ : ∃ k, Runs (handleConnection 1 Buffer.zero) (opened 1 6 otherFd)
      (Prog.call (E := posix) (.recv 6 bufferSize) k) := runs_waiting 6 (by decide)
  have hcancelled := runs_cancelledAt (show (6 : ℤ) ≠ -1 by decide) hk
  rw [← List.take_append_drop 5 (cancelledAt 1 6 (.recv 6 bufferSize)), ← List.append_assoc]
    at hcancelled
  obtain ⟨d, hd, -⟩ := Runs.split hcancelled
  have hsecond : Runs (handlerThread Buffer.zero) (eventsOf 2 foundNode) d := by
    simpa [foundNode] using hd
  have hruns : ∀ u, ∃ b, Runs ((lifecycle fun _ => Buffer.zero).text u) (eventsOf u foundNode) b := by
    intro u
    rcases u with _ | _ | _ | u
    · exact ⟨_, hmain⟩
    · exact ⟨_, hfirst⟩
    · exact ⟨_, hsecond⟩
    · exact ⟨handlerThread Buffer.zero, by simpa [foundNode] using .refl _⟩
  choose b hb using hruns
  obtain ⟨τ, q, hq, hτ, -⟩ :=
    exists_run (p := (lifecycle fun _ => Buffer.zero).init Threads.init) hs' hb
  exact ⟨τ, q, hq, hτ⟩

/-- A handler that has ended on its own has unlinked and freed its node, and main returns. Main also
waits for a handler whose node it has found, and nothing has been touched that is not there. -/
theorem unlinked_freed_once_twoRuns :
    (∃ τ q, Steps (lifecycle fun _ => Buffer.zero)
        ((lifecycle fun _ => Buffer.zero).init Threads.init) τ q ∧
      τ.map (fun a => (a.task, a.event)) = oneClient ∧ (∀ a ∈ τ, Sound a) ∧ unlinks τ 0 = 1 ∧
      frees τ 0 = 1) ∧
    ∃ τ q, Steps (lifecycle fun _ => Buffer.zero)
        ((lifecycle fun _ => Buffer.zero).init Threads.init) τ q ∧
      τ.map (fun a => (a.task, a.event)) = foundNode ∧ Met τ 1 ∧ (∀ a ∈ τ, Sound a) ∧
      ∀ n, unlinks τ n ≤ 1 ∧ frees τ n ≤ 1 := by
  constructor
  · obtain ⟨τ, q, hq, hτ, hs, hreturned⟩ := exists_oneClient
    -- the list is empty when main looks at it
    have hnone : ∀ m ∈ oneClient, ∀ n, ¬Finds m.2 n := by
      simp [oneClient, turn, connect, finished, opened, cleanUp, leave, terminate, Finds,
        Event.enabled]
    have hsafe : HandsOff τ :=
      handsOff_of_moves (hτ.trans (List.append_nil _).symm) hnone fun m hm => by cases hm
    -- main has returned and the thread of the node has ended
    have hfinal : (Threads.init.play oneClient).map
        (fun s => (s.nodes 0, s.ended 1, s.nextThread)) = some (.freed, true, 2) := by decide
    rw [hs, Option.map_some, Option.some.injEq, Prod.mk.injEq, Prod.mk.injEq] at hfinal
    obtain ⟨hcell, hended, hnext⟩ := hfinal
    obtain ⟨hsound, -, hend⟩ := unlinked_freed_once hq hsafe
    obtain ⟨hunlinks, hfrees⟩ := hend hreturned 0 (by rw [hcell]; simp)
    refine ⟨τ, q, hq, hτ, hsound, hunlinks, hfrees fun t ht => ?_⟩
    obtain ⟨δ, ν, -, hkept, -⟩ := kept_of_run hq hsafe
    have hrange := hkept.range t (by rw [ht]; simp)
    obtain rfl : t = 1 := by omega
    exact hended
  · obtain ⟨τ, q, hq, hτ⟩ := exists_foundNode
    have hsafe : HandsOff τ := by
      refine handsOff_of_moves hτ ?_ ?_
      · simp [turn, connect, finished, upTo, opened, cleanUp, Finds, Event.enabled]
      · decide
    have hfound : (0, (⟨.listFirst, some 1⟩ : Event threads)) ∈
        τ.map fun a => (a.task, a.event) := by
      rw [hτ]
      simp [foundNode, turn, requestExit]
    obtain ⟨a, ha, heq⟩ := List.mem_map.mp hfound
    obtain ⟨hsound, honce, -⟩ := unlinked_freed_once hq hsafe
    exact ⟨τ, q, hq, hτ, ⟨a, ha, .inl (Prod.mk.inj heq).2⟩, hsound, honce⟩

/-- Main cancels a handler that waits for data and joins it; the handler has unlinked and freed its
node before main does. -/
def cancelledWait : List (ℕ × Event threads) :=
  turn 0 (connect 3 4 0) ++ turn 1 (upTo 0 (opened 0 4 deviceFd)) ++
    turn 0 (terminate ++ requestExit 0 none 1 ++ (join 0 1).take 1) ++
    turn 1 (cancelledAt 0 4 (.recv 4 bufferSize)) ++ turn 0 ((join 0 1).drop 1)

/-- The witness of a node that is unlinked twice, the second time after it has been freed. -/
theorem exists_unlinked_twice : ∃ τ q,
    Steps (lifecycle fun _ => Buffer.zero) ((lifecycle fun _ => Buffer.zero).init Threads.init) τ q ∧
      unlinks τ 0 = 2 ∧ q.shared.nodes 0 = .freed ∧ q.shared.undefined = true := by
  have hplay : (Threads.init.play cancelledWait).isSome = true := by decide
  obtain ⟨s', hs'⟩ := Option.isSome_iff_exists.mp hplay
  -- main and the handler
  obtain ⟨b, hb⟩ := runs_requestExit 0 none 1
  have hmain : Runs mainThread (eventsOf 0 cancelledWait) b := by
    have hjoin : (join 0 1).take 1 ++ (join 0 1).tail = join 0 1 := rfl
    simpa [cancelledWait, hjoin] using (runs_connect (by decide)).trans hb
  obtain ⟨k, hk⟩ : ∃ k, Runs (handleConnection 0 Buffer.zero) (opened 0 4 deviceFd)
      (Prog.call (E := posix) (.recv 4 bufferSize) k) := runs_waiting 4 (by decide)
  have hhandler : Runs (handlerThread Buffer.zero) (eventsOf 1 cancelledWait) (.pure ()) := by
    simpa [cancelledWait] using runs_cancelledAt (by decide) hk
  obtain ⟨τ, q, hq, hτ, hs, -⟩ := exists_run_pair hs' hmain hhandler fun t => by simp [cancelledWait]
  -- the node is gone when main unlinks it
  have hfinal : (Threads.init.play cancelledWait).map (fun s => (s.nodes 0, s.undefined)) =
      some (.freed, true) := by decide
  rw [hs', ← hs, Option.map_some, Option.some.injEq, Prod.mk.injEq] at hfinal
  have htwice : unlinks τ 0 = 2 := by
    rw [unlinks_eq_countP hτ]
    decide
  exact ⟨τ, q, hq, htwice, hfinal⟩

end Examples

end Aesd.Server

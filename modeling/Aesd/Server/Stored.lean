import Aesd.Server.Packets
import Aesd.Server.Stack

/-! # What the clients get stored

Over the code of the driver, with every kernel service a step of its own, the chunks of the clients
still reach the device one at a time, each whole and each at most once
(**`chunks_stored_once`**), and the commands of the device are whole packets in the same runs as over
the atomic device (**`stack_whole_packets`**). -/

namespace Aesd.Server

open Effects Memory Streams CharDriver

/-! ### A thread writes what it has received last -/

/-- A write of the driver takes the chunk received last, and takes it once. -/
def deliverCall (g : Delivery) : Event driverCalls → Option Delivery
  | ⟨.inl ⟨.write _ bytes, _⟩, _⟩ =>
      if g.current = some bytes then some ⟨g.done ++ [bytes], none⟩ else none
  | ⟨.inl _, _⟩ | ⟨.inr (.fget _), _⟩ => some g
  | ⟨.inr (.other o), r⟩ => deliver g ⟨o, r⟩

/-- The monitor of the deliveries below the system calls. -/
def callDeliveries : Monitor driverCalls Delivery where
  expects _ _ := True
  step := deliverCall

/-- A system call delivers what its text delivers. -/
theorem follows_systemText (o : PosixOp) (g : Delivery)
    (h : ∀ r, ∃ g', deliver g ⟨o, r⟩ = some g') :
    Follows callDeliveries g (systemText o) fun r g' => deliver g ⟨o, r⟩ = some g' := by
  have hother : Follows callDeliveries g (other o) fun r g' => deliver g ⟨o, r⟩ = some g' := by
    intro r _
    obtain ⟨g', hg'⟩ := h r
    exact ⟨g', hg', hg'⟩
  cases o with
  | read fd n =>
      rintro (_ | f) -
      · exact ⟨g, rfl, hother⟩
      · exact ⟨g, rfl, fun r _ => ⟨g, rfl, rfl⟩⟩
  | ioctl fd request arg =>
      rintro (_ | f) -
      · exact ⟨g, rfl, hother⟩
      · exact ⟨g, rfl, fun r _ => ⟨g, rfl, rfl⟩⟩
  | write fd bytes =>
      rintro (_ | ⟨file, flags⟩) -
      · exact ⟨g, rfl, hother⟩
      · cases flags with
        | rdonly => exact ⟨g, rfl, hother⟩
        | creatAppendRdwr =>
            refine ⟨g, rfl, fun r _ => ?_⟩
            obtain ⟨g', hg'⟩ := h (systemRetval (Reply.retval r))
            exact ⟨g', hg', hg'⟩
  | _ => exact hother

/-- A write takes the chunk received last as a section, too. -/
def deliverSection (g : Delivery) : Event driverSections → Option Delivery
  | ⟨.inl (.call ⟨.write _ bytes, _⟩), _⟩ =>
      if g.current = some bytes then some ⟨g.done ++ [bytes], none⟩ else none
  | ⟨.inl _, _⟩ | ⟨.inr (.fget _), _⟩ => some g
  | ⟨.inr (.other o), r⟩ => deliver g ⟨o, r⟩

/-- The monitor of the deliveries below the calls of the driver. -/
def sectionDeliveries : Monitor driverSections Delivery where
  expects _ _ := True
  step := deliverSection

/-- A section that writes nothing. -/
def WritesNothing (o : sections.Op) : Prop := ∀ filp buf, o ≠ writeSection filp buf

theorem uses_atOnce {o : sections.Op} (ho : WritesNothing o) : Uses WritesNothing (atOnce o) :=
  ⟨ho, fun _ => trivial⟩

theorem uses_seekSections (filp : File) (trav : Fin 10) (index : ℤ) (offset : UInt32) :
    Uses WritesNothing (seekSections filp trav index offset) := by
  rw [seekSections]
  refine Uses.ite trivial (Uses.bind ?_ fun size => Uses.ite trivial ?_)
  · rw [checkedSection]
    split <;> exact uses_atOnce (by rintro filp buf ⟨⟩)
  · exact uses_atOnce (by rintro filp buf ⟨⟩)

/-- A seek request writes nothing. -/
theorem uses_ioctlSections (filp : File) (cmd : ℕ) (arg : AesdSeekto) :
    Uses WritesNothing (ioctlSections filp cmd arg) := by
  rw [ioctlSections]
  refine Uses.bind (uses_atOnce (o := .outOffs) (by rintro filp buf ⟨⟩)) fun trav =>
    Uses.ite ?_ trivial
  refine Uses.bind (uses_atOnce (o := .copySeekto arg) (by rintro filp buf ⟨⟩)) fun q =>
    Uses.ite trivial ?_
  refine Uses.bind (uses_atOnce (o := .outOffs) (by rintro filp buf ⟨⟩)) fun outOffs => ?_
  generalize seekIndex q.2.writeCmd _ = index
  exact uses_seekSections filp trav index q.2.writeCmdOffset

/-- A call delivers what its sections deliver. -/
theorem follows_callSections (o : driverCalls.Op) (g : Delivery)
    (h : ∀ r, ∃ g', deliverCall g ⟨o, r⟩ = some g') :
    Follows sectionDeliveries g (implBeside sys callSections o) fun r g' =>
      deliverCall g ⟨o, r⟩ = some g' := by
  cases o with
  | inl c =>
      obtain ⟨call, htakes⟩ := c
      cases call with
      | «open» filp => cases htakes
      | release filp => cases htakes
      | write filp bytes =>
          intro r _
          obtain ⟨g', hg'⟩ := h r
          exact ⟨g', hg', hg'⟩
      | ioctl filp cmd arg =>
          have huses : Uses (E := driverSections) (Sum.elim WritesNothing fun _ => False)
              (implBeside sys callSections (.inl ⟨.ioctl filp cmd arg, htakes⟩)) :=
            Uses.inl (Uses.bind (uses_ioctlSections filp cmd arg) fun _ => trivial)
          refine (huses.follows (M := sectionDeliveries) (g := g) fun o r ho => ?_).mono
            fun r g' hg' => hg' ▸ rfl
          cases o with
          | inl o =>
              cases o with
              | call c =>
                  obtain ⟨call, hlocks⟩ := c
                  cases call with
                  | write filp bytes => exact absurd rfl (ho filp bytes)
                  | _ => rfl
              | _ => rfl
          | inr o => exact ho.elim
      | _ => exact fun r _ => ⟨g, rfl, rfl⟩
  | inr o =>
      intro r _
      obtain ⟨g', hg'⟩ := h r
      cases o <;> exact ⟨g', hg', hg'⟩

/-- Every write of a thread takes the chunk received last. -/
theorem follows_sectionDeliveries (clients : ℕ → Client) (t : ℕ) :
    Follows sectionDeliveries ⟨[], none⟩ ((callMachine clients).text t) fun _ _ => True := by
  have hcalls : Follows callDeliveries ⟨[], none⟩
      ((handleClient (clients t).tinfo (clients t).stack).link systemText) fun _ _ => True := by
    refine Follows.link (M := deliveries) (fun o g h => ?_) (follows_deliveries _ _ _)
    exact (follows_systemText o g fun r => h r trivial).mono fun r g' hg' => ⟨trivial, hg'⟩
  refine Follows.link (M := callDeliveries) (fun o g h => ?_) hcalls
  exact (follows_callSections o g fun r => h r trivial).mono fun r g' hg' => ⟨trivial, hg'⟩

/-! ### The pieces -/

/-- A chunk that the driver has not refused, as a piece. -/
def pieceOf (t start : ℕ) (bytes : List UInt8) (r : Reply) : Option (Piece ℕ UInt8) :=
  if r.Failed then none else some ⟨t, start, bytes⟩

/-- The piece of its client's stream that an act brings to the device: the chunk received last. -/
def stored (a : Act driverSections (Log × Table)) : Option (Piece ℕ UInt8) :=
  match a.event with
  | ⟨.inl (.call ⟨.write _ bytes, _⟩), r⟩ =>
      pieceOf a.task (a.before.2.arrived a.task).dropLast.flatten.length bytes r
  | _ => none

/-- The pieces brought to the device in the course of a run. -/
def storedPieces (τ : List (Act driverSections (Log × Table))) : List (Piece ℕ UInt8) :=
  τ.filterMap stored

theorem storedPieces_concat (τ : List (Act driverSections (Log × Table)))
    (a : Act driverSections (Log × Table)) :
    storedPieces (τ ++ [a]) = storedPieces τ ++ (stored a).toList := by
  rw [storedPieces, List.filterMap_append, List.filterMap_cons]
  cases stored a <;> rfl

/-- The chunks among the pieces that are the client's. -/
def storedOf (t : ℕ) (ps : List (Piece ℕ UInt8)) : List (List UInt8) :=
  (ps.filter fun p => p.source = t).map Piece.symbols

theorem storedOf_concat (t : ℕ) (ps : List (Piece ℕ UInt8)) (p : Piece ℕ UInt8) :
    storedOf t (ps ++ [p]) = storedOf t ps ++ if p.source = t then [p.symbols] else [] := by
  rw [storedOf, List.filter_append, List.map_append, List.filter_singleton]
  split <;> simp_all [storedOf]

/-- What links the threads, the pieces and the state after the acts `τ`. -/
structure Receipts (clients : ℕ → Client) (τ : List (Act driverSections (Log × Table)))
    (δ : ℕ → Delivery) (s : Log × Table) : Prop where
  /-- The device has been fed the pieces. -/
  stream : s.1.stream = fed (storedPieces τ)
  /-- The threads know what has arrived. -/
  chunks : ∀ t, (δ t).chunks = s.2.arrived t
  /-- What has arrived is a beginning of what the client sends. -/
  arrived : ∀ t, (s.2.arrived t).flatten <+: (clients t).stream
  /-- No chunk is empty. -/
  nonempty : ∀ t, ∀ c ∈ s.2.arrived t, c ≠ []
  /-- The pieces of a client are chunks its thread is done with, in their order. -/
  done : ∀ t, (storedOf t (storedPieces τ)).Sublist (δ t).done
  /-- Each piece is what its client sends at its place. -/
  slices : ∀ p ∈ storedPieces τ,
    p.symbols ≠ [] ∧ p.symbols <+: (clients p.source).stream.drop p.start

section Steps

variable {clients : ℕ → Client} {τ : List (Act driverSections (Log × Table))} {δ : ℕ → Delivery}
  {a : Act driverSections (Log × Table)} {g' : Delivery} {s : Log × Table}

/-- An act that neither stores nor receives anything. -/
theorem Receipts.still (h : Receipts clients τ δ a.before) (hstored : stored a = none)
    (hstream : a.after.1.stream = a.before.1.stream)
    (harrived : a.after.2.arrived = a.before.2.arrived) (hchunks : g'.chunks = (δ a.task).chunks)
    (hdone : (δ a.task).done.Sublist g'.done) :
    Receipts clients (τ ++ [a]) (Function.update δ a.task g') a.after := by
  have hpieces : storedPieces (τ ++ [a]) = storedPieces τ := by
    rw [storedPieces_concat, hstored]
    exact List.append_nil _
  refine ⟨by rw [hstream, hpieces, h.stream], fun t => ?_, harrived ▸ h.arrived,
    harrived ▸ h.nonempty, fun t => ?_, hpieces ▸ h.slices⟩
  · rw [harrived, ← h.chunks]
    by_cases ht : t = a.task
    · rw [ht, Function.update_self, hchunks]
    · rw [Function.update_of_ne ht]
  · rw [hpieces]
    by_cases ht : t = a.task
    · subst ht
      rw [Function.update_self]
      exact (h.done _).trans hdone
    · rw [Function.update_of_ne ht]
      exact h.done t

/-- A write that the driver does not refuse. -/
theorem Receipts.stores (h : Receipts clients τ δ a.before) {bytes : List UInt8}
    (hstored : stored a =
      some ⟨a.task, (a.before.2.arrived a.task).dropLast.flatten.length, bytes⟩)
    (hstream : a.after.1.stream = a.before.1.stream ++ firstLine isNewline bytes)
    (harrived : a.after.2.arrived = a.before.2.arrived)
    (hcurrent : (δ a.task).current = some bytes) :
    Receipts clients (τ ++ [a]) (Function.update δ a.task ⟨(δ a.task).done ++ [bytes], none⟩)
      a.after := by
  have hpieces : storedPieces (τ ++ [a]) = storedPieces τ ++
      [⟨a.task, (a.before.2.arrived a.task).dropLast.flatten.length, bytes⟩] := by
    rw [storedPieces_concat, hstored]
    rfl
  -- the chunk is the last one that has arrived
  have hlast : a.before.2.arrived a.task = (δ a.task).done ++ [bytes] := by
    rw [← h.chunks, Delivery.chunks, hcurrent]
    rfl
  refine ⟨?_, fun t => ?_, harrived ▸ h.arrived, harrived ▸ h.nonempty, fun t => ?_, fun p hp => ?_⟩
  · rw [hstream, hpieces, h.stream]
    simp [fed]
  · rw [harrived]
    by_cases ht : t = a.task
    · rw [ht, Function.update_self, hlast, Delivery.chunks]
      exact List.append_nil _
    · rw [Function.update_of_ne ht, h.chunks]
  · rw [hpieces, storedOf_concat]
    by_cases ht : t = a.task
    · subst ht
      rw [Function.update_self, if_pos rfl]
      exact (h.done _).append (List.Sublist.refl _)
    · rw [Function.update_of_ne ht, if_neg (Ne.symm ht), List.append_nil]
      exact h.done t
  · rw [hpieces] at hp
    rcases List.mem_append.mp hp with hp | hp
    · exact h.slices p hp
    · obtain rfl := List.mem_singleton.mp hp
      refine ⟨h.nonempty a.task bytes (hlast ▸ List.mem_concat_self), ?_⟩
      have hpre := h.arrived a.task
      rw [hlast, List.flatten_append, List.flatten_singleton] at hpre
      obtain ⟨v, hv⟩ := hpre
      refine ⟨v, ?_⟩
      rw [hlast, List.dropLast_concat, ← hv, List.append_assoc, List.drop_left]

/-- What a thread is done with. -/
theorem deliver_done {g : Delivery} {e : Event posix} (h : deliver g e = some g') :
    g.done.Sublist g'.done := by
  obtain ⟨o, r⟩ := e
  cases o with
  | recv fd n =>
      obtain rfl := Option.some.inj h
      exact List.sublist_append_left _ _
  | write fd bytes =>
      rw [deliver] at h
      split at h
      · obtain rfl := Option.some.inj h
        exact List.sublist_append_left _ _
      · cases h
  | _ =>
      obtain rfl := Option.some.inj h
      exact List.Sublist.refl _

/-- What has arrived changes only when something is received. -/
theorem arrived_of_answer {t : ℕ} {o : SysOp} {s s' : Table} {r : SysRes o}
    (h : s.answer clients t o r = some s') (ho : ∀ fd n, o ≠ .other (.recv fd n)) :
    s'.arrived = s.arrived := by
  have hite : ∀ {φ : Prop} {_ : Decidable φ} {u : Table}, (if φ then some u else none) = some s' →
      u.arrived = s.arrived → s'.arrived = s.arrived := by
    intro φ _ u hs hu
    rw [Option.ite_none_right_eq_some, Option.some.injEq] at hs
    rw [← hs.2, hu]
  cases o with
  | fget fd => exact hite h rfl
  | other o =>
      cases o with
      | recv fd n => exact absurd rfl (ho fd n)
      | loadClientFd tinfo => exact hite h rfl
      | openFile flags =>
          rw [Table.answer] at h
          split at h
          · rw [← Option.some.inj h]
          · exact hite h rfl
      | mutexLock m => exact hite h rfl
      | _ => rw [← Option.some.inj h]

/-- A chunk is received, or the connection has come to its end. -/
theorem Receipts.receives (h : Receipts clients τ δ a.before) {fd : ℤ} {n : ℕ} {r : Transfer n}
    (hstored : stored a = none) (hlog : a.after.1 = a.before.1)
    (hans : a.before.2.answer clients a.task (.other (.recv fd n)) r = some a.after.2)
    (hstep : deliver (δ a.task) ⟨.recv fd n, r⟩ = some g') :
    Receipts clients (τ ++ [a]) (Function.update δ a.task g') a.after := by
  have hpieces : storedPieces (τ ++ [a]) = storedPieces τ := by
    rw [storedPieces_concat, hstored]
    exact List.append_nil _
  rw [Table.answer, Option.ite_none_right_eq_some, Option.some.injEq] at hans
  obtain ⟨hpre, htable⟩ := hans
  have hsome : ∀ c ∈ received ⟨.recv fd n, r⟩, c = r.data ∧ c ≠ [] := by
    intro c hc
    rw [received] at hc
    split at hc
    · next hpos =>
      obtain rfl := Option.some.inj hc
      exact ⟨rfl, Transfer.data_ne_nil hpos⟩
    · cases hc
  have harrived : ∀ t, a.after.2.arrived t = a.before.2.arrived t ++
      if t = a.task then (received ⟨.recv fd n, r⟩).toList else [] := by
    intro t
    rw [← htable]
    by_cases ht : t = a.task
    · subst ht
      rw [if_pos rfl]
      exact Function.update_self _ _ _
    · rw [if_neg ht, List.append_nil]
      exact Function.update_of_ne ht _ _
  refine ⟨by rw [hlog, hpieces, h.stream], fun t => ?_, fun t => ?_, fun t c hc => ?_, fun t => ?_,
    hpieces ▸ h.slices⟩
  · rw [harrived]
    by_cases ht : t = a.task
    · rw [ht, Function.update_self, if_pos rfl, deliver_chunks hstep, h.chunks]
    · rw [Function.update_of_ne ht, if_neg ht, List.append_nil, h.chunks]
  · rw [harrived, List.flatten_append]
    split
    · next ht =>
      cases hc : received ⟨.recv fd n, r⟩ with
      | none => simpa using h.arrived t
      | some c => simpa [(hsome c hc).1, ht] using hpre
    · simpa using h.arrived t
  · rw [harrived] at hc
    rcases List.mem_append.mp hc with hc | hc
    · exact h.nonempty t c hc
    · split at hc
      · exact (hsome c (Option.mem_toList.mp hc)).2
      · cases hc
  · rw [hpieces]
    by_cases ht : t = a.task
    · subst ht
      rw [Function.update_self]
      exact (h.done _).trans (deliver_done hstep)
    · rw [Function.update_of_ne ht]
      exact h.done t

/-- The step lemma. -/
theorem Receipts.step (h : Receipts clients τ δ a.before)
    (hans : (callMachine clients).answers a.task a.hist a.event.op a.before a.event.res a.after)
    (hstep : deliverSection (δ a.task) a.event = some g') :
    Receipts clients (τ ++ [a]) (Function.update δ a.task g') a.after := by
  obtain ⟨t, hist, ⟨o, r⟩, before, after⟩ := a
  cases o with
  | inl o =>
      obtain ⟨hlog, htable⟩ := hans
      have hstream : after.1.stream = before.1.stream ++ CharDriver.fed ⟨o, r⟩ := hlog.stream
      have harrived : after.2.arrived = before.2.arrived := by rw [htable]
      -- only a write stores anything
      have hstill : (∀ filp buf, o ≠ writeSection filp buf) →
          stored ⟨t, hist, ⟨.inl o, r⟩, before, after⟩ = none →
          deliverSection (δ t) ⟨.inl o, r⟩ = some (δ t) →
          Receipts clients (τ ++ [⟨t, hist, ⟨.inl o, r⟩, before, after⟩])
            (Function.update δ t g') after := by
        intro ho hnone hsame
        obtain rfl := Option.some.inj (hsame.symm.trans hstep)
        exact h.still hnone (hstream.trans ((congrArg _ (fed_of_not_write ho)).trans
          (List.append_nil _))) harrived rfl (List.Sublist.refl _)
      cases o with
      | call c =>
          obtain ⟨call, hlocks⟩ := c
          cases call with
          | write filp bytes =>
              dsimp only [deliverSection] at hstep
              split at hstep
              · next hcurrent =>
                cases hstep
                by_cases hr : Reply.Failed r
                · refine h.still (if_pos hr) ?_ harrived ?_ (List.sublist_append_left _ _)
                  · rw [hstream, fed_of_failed hr, List.append_nil]
                  · rw [Delivery.chunks, Delivery.chunks, hcurrent]
                    exact List.append_nil _
                · exact h.stores (if_neg hr) (hstream.trans (congrArg _ (if_neg hr))) harrived
                    hcurrent
              · cases hstep
          | _ => exact hstill (by rintro filp buf ⟨⟩) rfl rfl
      | _ => exact hstill (by rintro filp buf ⟨⟩) rfl rfl
  | inr o =>
      obtain ⟨hsys, hlog⟩ := hans
      have hstream : after.1.stream = before.1.stream := by rw [hlog]
      cases o with
      | fget fd =>
          cases hstep
          exact h.still rfl hstream (arrived_of_answer hsys (by simp)) rfl (List.Sublist.refl _)
      | other o =>
          by_cases ho : ∃ fd n, o = .recv fd n
          · obtain ⟨fd, n, rfl⟩ := ho
            exact h.receives rfl hlog hsys hstep
          · have hne : ∀ fd n, SysOp.other o ≠ .other (.recv fd n) := by
              rintro fd n heq
              cases heq
              exact ho ⟨fd, n, rfl⟩
            refine h.still rfl hstream (arrived_of_answer hsys hne) ?_ (deliver_done hstep)
            have hnone : received ⟨o, r⟩ = none := by
              cases o with
              | recv fd n => exact absurd ⟨fd, n, rfl⟩ ho
              | _ => rfl
            rw [deliver_chunks hstep, hnone]
            exact List.append_nil _

/-- What a client gets stored is a part of what it has sent. -/
theorem Receipts.storedOf_sublist (h : Receipts clients τ δ s) (t : ℕ) :
    (storedOf t (storedPieces τ)).Sublist (s.2.arrived t) := by
  have hdone : (δ t).done.Sublist (δ t).chunks := List.sublist_append_left _ _
  rw [← h.chunks]
  exact (h.done t).trans hdone

/-- The run lemma. -/
theorem receipts_of_steps {q : Pool driverSections (Log × Table) Unit}
    (hrun : Steps (callMachine clients) (callInit clients) τ q) :
    ∃ δ, Receipts clients τ δ q.shared := by
  have hinit : Watched (fun _ => sectionDeliveries) (fun _ => ⟨[], none⟩) (fun _ _ _ => True)
      (fun _ => ⟨[], none⟩) (callInit clients) := watched_init (follows_sectionDeliveries clients) _
  obtain ⟨δ, -, hδ⟩ := hrun.monitored (J := Receipts clients) hinit (fun _ _ _ => trivial)
    ⟨rfl, fun _ => rfl, fun _ => List.nil_prefix, fun _ _ hc => (List.not_mem_nil hc).elim,
      fun _ => List.Sublist.refl _, fun _ hp => (List.not_mem_nil hp).elim⟩
    fun υ δ a g' _ h _ hans hstep => h.step hans hstep
  exact ⟨δ, hδ⟩

end Steps

section Outcome

variable {clients : ℕ → Client} {q : Pool services (World × Table) Unit}
  {τ : List (Act services (World × Table))}

/-- Pieces that are lines are fed whole. -/
theorem fed_of_isLine {ps : List (Piece ℕ UInt8)} (h : ∀ p ∈ ps, IsLine isNewline p.symbols) :
    fed ps = (ps.map Piece.symbols).flatten := by
  rw [fed, List.flatMap_def]
  congr 1
  exact List.map_congr_left fun p hp => (h p hp).firstLine

/-- **Chunks that are packets are stored as they are, in their order, and once.** The threads may take
their steps in any order, inside the calls of the driver as well. If every chunk that has been
received is one complete packet, then whenever nobody holds the mutex of the device there is an order
in which packets have been stored, of each client some of those it has sent, in the order in which it
has sent them and none twice; the device retains the last ten of them, and nothing else. -/
theorem chunks_stored_once (hrun : Steps (stackMachine clients) (stackInit clients) τ q)
    (hpermitted : ∀ a ∈ τ, StackPermitted a.task a.event a.before)
    (hlines : ∀ t, ∀ c ∈ q.shared.2.arrived t, IsLine isNewline c)
    (hfree : q.shared.1.dev.lock = none) :
    ∃ order : List (ℕ × List UInt8),
      q.shared.1.retained = ((order.map Prod.snd).rtake 10).map some ∧
      q.shared.1.pending = some [] ∧
      ∀ t, ((order.filter fun c => c.1 = t).map Prod.snd).Sublist (q.shared.2.arrived t) := by
  obtain ⟨τ', q', hcalls, -, htable, hstands, -⟩ := stack_refines hrun hpermitted
  obtain ⟨δ, hδ⟩ := receipts_of_steps hcalls
  have hsub : ∀ t, (storedOf t (storedPieces τ')).Sublist (q.shared.2.arrived t) := by
    rw [← htable]
    exact hδ.storedOf_sublist
  have hisLine : ∀ p ∈ storedPieces τ', IsLine isNewline p.symbols := by
    intro p hp
    refine hlines p.source _ ((hsub p.source).subset (List.mem_map_of_mem ?_))
    exact List.mem_filter.mpr ⟨hp, by simp⟩
  have hlog := hstands hfree
  have hread : lines isNewline ((storedPieces τ').map Piece.symbols).flatten = _ ∧ _ :=
    lines_flatten (by simpa using hisLine)
  have hstream : q'.shared.1.stream = ((storedPieces τ').map Piece.symbols).flatten := by
    rw [hδ.stream, fed_of_isLine hisLine]
  refine ⟨(storedPieces τ').map fun p => (p.source, p.symbols), ?_, ?_, fun t => ?_⟩
  · rw [hlog.retained, Log.commands, hstream, hread.1, List.map_map]
    rfl
  · rw [hlog.pending, Log.pending, hstream, hread.2]
  · rw [List.filter_map, List.map_map]
    exact hsub t

/-- Both packets are stored. -/
theorem chunks_stored_once_twoSenders : ∃ q, ∃ order : List (ℕ × List UInt8),
    playStack twoSenders twoSendersSchedule (stackInit twoSenders) = some q ∧
      q.shared.1.retained = [some [97, newline], some [98, newline]] ∧
      q.shared.1.retained = ((order.map Prod.snd).rtake 10).map some ∧
      q.shared.1.pending = some [] ∧
      ∀ t, ((order.filter fun c => c.1 = t).map Prod.snd).Sublist (q.shared.2.arrived t) := by
  obtain ⟨q, hq, hfree, hretained, harrived⟩ := exists_twoSenders
  obtain ⟨τ, hrun, hpermitted, -⟩ := steps_of_playStack hq
  obtain ⟨order, h⟩ := chunks_stored_once hrun hpermitted (fun t c hc => by
    rw [harrived, Function.update_apply, Function.update_apply] at hc
    split at hc
    · obtain rfl := List.mem_singleton.mp hc
      exact ⟨[98], newline, rfl, rfl, by simp [isNewline, newline]⟩
    · split at hc
      · obtain rfl := List.mem_singleton.mp hc
        exact ⟨[97], newline, rfl, rfl, by simp [isNewline, newline]⟩
      · cases hc) hfree
  exact ⟨q, order, hq, hretained, h⟩

/-- **Whole packets over the code of the driver.** However the chunks are cut and the threads take
their steps, inside the calls of the driver as well, there is a run over the log in which the device
is fed pieces of what the clients send, each at its place. The commands are whole packets exactly if
every piece that becomes part of a command is in place, and while nobody holds the mutex of the
device it retains the last ten of them. -/
theorem stack_whole_packets (packets : ℕ → List Packet) (hsends : Sends clients packets)
    (hrun : Steps (stackMachine clients) (stackInit clients) τ q)
    (hpermitted : ∀ a ∈ τ, StackPermitted a.task a.event a.before) :
    ∃ τ' q', Steps (callMachine clients) (callInit clients) τ' q' ∧ q'.shared.2 = q.shared.2 ∧
      (∀ p ∈ storedPieces τ', p.IsSlice (packetBytes packets)) ∧
      ((∀ c ∈ markedLines isNewline (storedPieces τ'), IsWholePacket (packetBytes packets) c) ↔
        ∀ pre p post, storedPieces τ' = pre ++ p :: post →
          (markedLines isNewline pre).length < (markedLines isNewline (storedPieces τ')).length →
            InPlace isNewline (packetBytes packets) pre p) ∧
      (q.shared.1.dev.lock = none → q.shared.1.retained =
        ((markedLines isNewline (storedPieces τ')).rtake 10).map
          fun c => some (c.map Marked.value)) := by
  obtain ⟨τ', q', hcalls, -, htable, hstands, -⟩ := stack_refines hrun hpermitted
  obtain ⟨δ, hδ⟩ := receipts_of_steps hcalls
  have hslices : ∀ p ∈ storedPieces τ', p.IsSlice (packetBytes packets) := by
    intro p hp
    have hslice := hδ.slices p hp
    rw [hsends] at hslice
    exact hslice
  refine ⟨τ', q', hcalls, htable, hslices, whole_lines_iff ?_ hslices, fun hfree => ?_⟩
  · intro t c hc
    obtain ⟨p, -, rfl⟩ := List.mem_map.mp hc
    exact p.isLine
  · have hfed : q'.shared.1.stream = (provenance isNewline (storedPieces τ')).map Marked.value :=
      hδ.stream.trans (map_value_provenance _).symm
    rw [(hstands hfree).retained, Log.commands, hfed, lines_map, markedLines, List.rtake, List.rtake,
      List.length_map, ← List.map_drop, List.map_map]
    rfl

/-- The packets of the two clients. -/
def twoSendersPackets (t : ℕ) : List Packet :=
  if t = 0 then [.short [97] (by simp [isNewline, newline]) (by decide)]
  else if t = 1 then [.short [98] (by simp [isNewline, newline]) (by decide)]
  else []

/-- In the run of the two clients the commands are made of their packets. -/
theorem stack_whole_packets_twoSenders : ∃ q,
    playStack twoSenders twoSendersSchedule (stackInit twoSenders) = some q ∧
      ∃ τ' q', Steps (callMachine twoSenders) (callInit twoSenders) τ' q' ∧
        q'.shared.2 = q.shared.2 ∧
        [some [97, newline], some [98, newline]] =
          ((markedLines isNewline (storedPieces τ')).rtake 10).map
            fun c => some (c.map Marked.value) := by
  obtain ⟨q, hq, hfree, hretained, -⟩ := exists_twoSenders
  obtain ⟨τ, hrun, hpermitted, -⟩ := steps_of_playStack hq
  obtain ⟨τ', q', hcalls, htable, -, -, hcommands⟩ :=
    stack_whole_packets twoSendersPackets (fun t => by
      rw [packetBytes, twoSendersPackets]
      show (if t = 0 then _ else _) = _
      split_ifs <;> rfl) hrun hpermitted
  exact ⟨q, hq, τ', q', hcalls, htable, hretained ▸ hcommands hfree⟩

end Outcome

end Aesd.Server

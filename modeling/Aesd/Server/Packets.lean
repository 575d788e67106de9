import Aesd.Server.Solo

/-! # Packets of many clients

Every client sends a list of packets, cut into chunks in any way, and the threads take their steps
in any order. A thread writes each data chunk to the device with one call, under `file_mutex`; what
the calls of all threads leave unfinished is kept in the one working entry of the device. So a
packet that arrives in several chunks is whole only if the chunks that reach the device between its
first and its last one are its own: **`committed_whole_packets`** says when every command is one
whole packet, and `not_always_whole_packets` shows a run in which two clients share a command. -/

namespace Aesd.Server

open Effects Streams CharDriver

/-- A packet: its only newline is its last byte, and it does not begin with the seek prefix. -/
structure Packet where
  /-- Its bytes. -/
  bytes : List UInt8
  /-- The newline. -/
  isLine : IsLine isNewline bytes
  /-- It is not a seek command. -/
  not_seek : ¬seekPrefix <+: bytes

/-- The bytes of each client's packets. -/
def packetBytes (packets : ℕ → List Packet) (t : ℕ) : List (List UInt8) :=
  (packets t).map Packet.bytes

/-- Every client sends its packets. -/
def Sends (clients : ℕ → Client) (packets : ℕ → List Packet) : Prop :=
  ∀ t, (clients t).stream = (packetBytes packets t).flatten

/-! ### A thread writes what it has received last -/

/-- The chunks of a thread. -/
structure Delivery where
  /-- The chunks it is done with. -/
  done : List (List UInt8)
  /-- The chunk it is busy with. -/
  current : Option (List UInt8)

/-- All its chunks. -/
def Delivery.chunks (g : Delivery) : List (List UInt8) := g.done ++ g.current.toList

/-- A write takes the chunk received last, and takes it once. -/
def deliver (g : Delivery) : Event posix → Option Delivery
  | ⟨.recv fd n, r⟩ => some ⟨g.chunks, received ⟨.recv fd n, r⟩⟩
  | ⟨.write _ bytes, _⟩ => if g.current = some bytes then some ⟨g.done ++ [bytes], none⟩ else none
  | _ => some g

/-- The monitor of the deliveries. -/
def deliveries : Monitor posix Delivery where
  expects _ _ := True
  step := deliver

theorem deliver_chunks {g g' : Delivery} {e : Event posix} (h : deliver g e = some g') :
    g'.chunks = g.chunks ++ (received e).toList := by
  obtain ⟨o, r⟩ := e
  cases o with
  | recv fd n =>
      obtain rfl := Option.some.inj h
      rfl
  | write fd bytes =>
      rw [deliver] at h
      split at h
      · rename_i hcurrent
        obtain rfl := Option.some.inj h
        simp [Delivery.chunks, hcurrent, received]
      · cases h
  | _ =>
      obtain rfl := Option.some.inj h
      exact (List.append_nil _).symm

/-- The monitor knows all chunks of the trace. -/
theorem deliveries_after {g g' : Delivery} {t : List (Event posix)}
    (h : deliveries.after g t = some g') : g'.chunks = g.chunks ++ chunks t := by
  induction t generalizing g with
  | nil =>
      obtain rfl := Option.some.inj h
      exact (List.append_nil _).symm
  | cons e t ih =>
      rw [Monitor.after_cons, Option.bind_eq_some_iff] at h
      obtain ⟨g₁, hstep, h⟩ := h
      rw [ih h, deliver_chunks hstep, chunks_cons, List.append_assoc]

theorem deliver_plain {g : Delivery} {o : PosixOp} (r : PosixRes o) (ho : o.isPlain = true) :
    deliver g ⟨o, r⟩ = some g := by
  cases o <;> first
    | exact absurd ho Bool.false_ne_true
    | rfl

section Text

variable {tinfo : ThreadInfo} {clientFd fileFd : ℤ} {buffer : Buffer} {g : Delivery}

/-- The data branch writes the chunk. -/
theorem follows_deliveries_storeData {r : Transfer bufferSize} (hg : g.current = some r.data) :
    Follows deliveries g (storeData clientFd fileFd (buffer.chunk r) r.data.length)
      fun _ _ => True := by
  have hrespond : ∀ g', Follows deliveries g' (respond clientFd (buffer.chunk r) r.data.length)
      fun _ _ => True := by
    intro g'
    refine (uses_respond.follows ?_).mono fun _ _ _ => trivial
    rintro o r (ho | rfl)
    · exact deliver_plain r ho
    · rfl
  simp only [storeData, mutexLock, mutexUnlock, write, syslog, close, Prog.bind_eq, Prog.call_bind,
    Prog.pure_bind, Prog.pure_eq]
  refine Follows.skip (fun _ _ => rfl) fun _ _ => Follows.ite ?_ ?_
  · refine Follows.skip (fun _ _ => rfl) fun _ _ => ?_
    exact Follows.skip (fun _ _ => rfl) fun _ _ => trivial
  · intro n _
    have hwrite : deliver g ⟨.write fileFd ((buffer.chunk r).bytes.take r.data.length), n⟩ =
        some ⟨g.done ++ [r.data], none⟩ := by
      rw [deliver, Buffer.take_chunk, if_pos hg]
    refine ⟨_, hwrite, Follows.ite ?_ ?_⟩
    · refine Follows.skip (fun _ _ => rfl) fun _ _ => Follows.skip (fun _ _ => rfl) fun _ _ => ?_
      exact Follows.skip (fun _ _ => rfl) fun _ _ => trivial
    · refine Follows.skip (fun _ _ => rfl) fun _ _ => ?_
      exact Follows.skip (fun _ _ => rfl) fun _ _ => hrespond _

theorem follows_deliveries_serve :
    Follows deliveries g (serve tinfo clientFd fileFd buffer) fun _ _ => True := by
  refine follows_serve (fun _ _ _ => rfl) fun r _ => ⟨_, rfl, fun _ => trivial, ?_, ?_⟩
  · intro _ hstart
    refine follows_seekCommand (fun _ _ _ => rfl) hstart (fun x y _ => ?_) fun _ => ?_
    · refine (uses_performSeek.follows ?_).mono fun _ _ _ => trivial
      rintro o r (ho | ho)
      · exact deliver_plain r ho
      · cases o <;> first
          | exact absurd ho Bool.false_ne_true
          | rfl
    · exact Follows.skip (fun _ _ => rfl) fun _ _ => trivial
  · intro hr _
    exact follows_deliveries_storeData (if_pos hr)

/-- Every write of a thread takes the chunk received last. -/
theorem follows_deliveries (tinfo : ThreadInfo) (stack : Buffer) (g : Delivery) :
    Follows deliveries g (handleClient tinfo stack) fun _ _ => True := by
  have hconnection : Follows deliveries g (handleConnection tinfo stack) fun _ _ => True := by
    simp only [handleConnection, loadClientFd, openFile, syslog, Prog.bind_eq, Prog.call_bind,
      Prog.pure_bind]
    have hloop : ∀ (g' : Delivery) (clientFd fileFd : ℤ),
        Follows deliveries g' (Prog.iterate (serve tinfo clientFd fileFd) stack) fun _ _ => True := by
      intro g' clientFd fileFd
      refine Follows.iterate (fun _ _ => True) trivial fun _ _ _ => ?_
      exact follows_deliveries_serve.mono fun r _ _ => by cases r <;> trivial
    refine Follows.skip (fun _ _ => rfl) fun _ _ => Follows.skip (fun _ _ => rfl) fun fd _ => ?_
    exact Follows.ite (Follows.skip (fun _ _ => rfl) fun _ _ => hloop _ _ _) (hloop _ _ _)
  refine hconnection.bind fun _ g' _ => ?_
  exact (uses_threadCleanup.follows fun o r ho => deliver_plain r ho).mono fun _ _ _ => trivial

end Text

/-! ### The invariant of the runs -/

/-- What arrives is what the client sends next. -/
theorem prefix_of_received {clients : ℕ → Client} {t : ℕ} {hist : List (Event posix)}
    {e : Event posix} {s s' : Host} {c : List UInt8} (hc : received e = some c)
    (ha : hostAnswers clients t hist e.op s e.res s') :
    (chunks hist).flatten ++ c <+: (clients t).stream := by
  obtain ⟨o, r⟩ := e
  cases o with
  | recv fd n =>
      rw [received] at hc
      split at hc
      · exact Option.some.inj hc ▸ ha.1
      · cases hc
  | _ => cases hc

/-- What links the threads and the pieces after the acts `τ`. -/
structure Delivered (clients : ℕ → Client) (packets : ℕ → List Packet) (τ : List (Act posix Host))
    (δ : ℕ → Delivery) : Prop where
  /-- Each piece is what its client sends at its place. -/
  slices : ∀ p ∈ pieces τ, p.IsSlice (packetBytes packets)
  /-- What has arrived is a beginning of what the client sends. -/
  arrived : ∀ t, (δ t).chunks.flatten <+: (clients t).stream

section Runs

variable {clients : ℕ → Client} {packets : ℕ → List Packet} {τ : List (Act posix Host)}
  {δ : ℕ → Delivery} {a : Act posix Host} {g' : Delivery}

/-- The piece of a write is the chunk its thread is busy with. -/
theorem isSlice_of_deliver (hsends : Sends clients packets)
    (hafter : deliveries.after ⟨[], none⟩ a.hist = some (δ a.task))
    (harrived : (δ a.task).chunks.flatten <+: (clients a.task).stream)
    (hstep : deliver (δ a.task) a.event = some g') {p : Piece ℕ UInt8} (hp : piece a = some p) :
    p.IsSlice (packetBytes packets) := by
  rw [piece, Option.map_eq_some_iff] at hp
  obtain ⟨bytes, hbytes, rfl⟩ := hp
  have hchunks : (δ a.task).chunks = chunks a.hist := deliveries_after hafter
  have hcurrent : (δ a.task).current = some bytes := by
    obtain ⟨t, hist, ⟨o, r⟩, before, after⟩ := a
    obtain ⟨fd, rfl⟩ := Host.exists_write_of_deviceWrite hbytes
    rw [deliver] at hstep
    split at hstep
    · assumption
    · cases hstep
  rw [Delivery.chunks, hcurrent] at hchunks
  have hne : bytes ≠ [] := ne_nil_of_mem_chunks (t := a.hist) (hchunks ▸ by simp)
  refine ⟨hne, ?_⟩
  rw [hsends, Delivery.chunks, hcurrent] at harrived
  show bytes <+: (packetBytes packets a.task).flatten.drop (chunks a.hist).dropLast.flatten.length
  rw [← hchunks]
  obtain ⟨rest, hrest⟩ := harrived
  refine ⟨rest, ?_⟩
  rw [← hrest]
  simp

/-- The step lemma. -/
theorem Delivered.step (h : Delivered clients packets τ δ) (hsends : Sends clients packets)
    (hafter : deliveries.after ⟨[], none⟩ a.hist = some (δ a.task))
    (hans : hostAnswers clients a.task a.hist a.event.op a.before a.event.res a.after)
    (hstep : deliver (δ a.task) a.event = some g') :
    Delivered clients packets (τ ++ [a]) (Function.update δ a.task g') := by
  constructor
  · intro p hp
    rw [pieces_concat] at hp
    rcases List.mem_append.mp hp with hp | hp
    · exact h.slices p hp
    · exact isSlice_of_deliver hsends hafter (h.arrived _) hstep (Option.mem_toList.mp hp)
  · intro t
    by_cases ht : t = a.task
    · subst ht
      rw [Function.update_self, deliver_chunks hstep]
      cases hc : received a.event with
      | none => simpa using h.arrived a.task
      | some c =>
          have hchunks : (δ a.task).chunks = chunks a.hist := deliveries_after hafter
          rw [hchunks]
          simpa using prefix_of_received hc hans
    · rw [Function.update_of_ne ht]
      exact h.arrived t

/-- The run lemma: every piece is what its client sends at its place. -/
theorem isSlice_of_mem_pieces {s₀ : Host} {q : Pool posix Host Unit} (hsends : Sends clients packets)
    (hrun : Steps (server clients) ((server clients).init s₀) τ q) :
    ∀ p ∈ pieces τ, p.IsSlice (packetBytes packets) := by
  have hinit : Watched (fun _ => deliveries) (fun _ => ⟨[], none⟩) (fun _ _ _ => True)
      (fun _ => ⟨[], none⟩) ((server clients).init s₀) :=
    watched_init (fun t => follows_deliveries _ _ _) _
  obtain ⟨δ, -, hδ⟩ := hrun.monitored (J := fun τ δ _ => Delivered clients packets τ δ) hinit
    (fun _ _ _ => trivial) ⟨fun _ hp => (List.not_mem_nil hp).elim, fun _ => List.nil_prefix⟩
    (fun υ δ a g' _ h hafter hans hstep => h.step hsends hafter hans hstep)
  exact hδ.slices

/-- Without their marks, the symbols of the pieces are what the device is fed. -/
theorem map_value_provenance (ps : List (Piece ℕ UInt8)) :
    (provenance isNewline ps).map Marked.value = fed ps := by
  rw [provenance, fed, List.map_flatMap]
  congr 1
  funext p
  exact map_value_mark _

end Runs

/-- **When every command is one whole packet of one client.** Exactly in the runs in which every
chunk that becomes part of a command is in place when it reaches the device: at a packet boundary of
its client when the device has no unfinished command, and else where the unfinished packet stopped.
The device retains the last ten of the commands. -/
theorem committed_whole_packets (clients : ℕ → Client) (packets : ℕ → List Packet)
    (hsends : Sends clients packets) (τ : List (Act posix Host)) (q : Pool posix Host Unit)
    (hrun : Steps (server clients) ((server clients).init Host.init) τ q) :
    ((∀ c ∈ markedLines isNewline (pieces τ), IsWholePacket (packetBytes packets) c) ↔
      ∀ pre p post, pieces τ = pre ++ p :: post →
        (markedLines isNewline pre).length < (markedLines isNewline (pieces τ)).length →
          InPlace isNewline (packetBytes packets) pre p) ∧
      q.shared.world.retained =
        ((markedLines isNewline (pieces τ)).rtake 10).map fun c => some (c.map Marked.value) := by
  constructor
  · refine whole_lines_iff ?_ (isSlice_of_mem_pieces hsends hrun)
    intro t c hc
    obtain ⟨p, -, rfl⟩ := List.mem_map.mp hc
    exact p.isLine
  · obtain ⟨l, hl, hstream, -⟩ := Host.sound_init.steps hrun
    have hfed : l.stream = (provenance isNewline (pieces τ)).map Marked.value :=
      hstream.trans (map_value_provenance _).symm
    rw [hl.stands.retained, Log.commands, hfed, lines_map, markedLines, List.rtake, List.rtake,
      List.length_map, ← List.map_drop, List.map_map]
    rfl

/-! ### Two runs -/

/-- A short packet. -/
def Packet.short (word : List UInt8) (hword : ∀ c ∈ word, isNewline c = false)
    (hlen : word.length < 18) : Packet where
  bytes := word ++ [newline]
  isLine := ⟨word, newline, rfl, rfl, hword⟩
  not_seek h := by
    have hle := h.length_le
    rw [length_seekPrefix, List.length_append, List.length_singleton] at hle
    omega

/-- Clients that send the packets. -/
def sendingPackets (packets : ℕ → List Packet) : ℕ → Client :=
  sending fun t => (packetBytes packets t).flatten

/-- The first client sends `"ab\n"`, the second one `"c\n"`. -/
def twoPackets : ℕ → List Packet
  | 0 => [.short [97, 98] (by simp [isNewline, newline]) (by decide)]
  | 1 => [.short [99] (by simp [isNewline, newline]) (by decide)]
  | _ => []

/-- The second client sends `"c\n"` in one chunk, and the first one `"ab\n"` in two. The second chunk
reaches the device because a third client has been given the descriptor that the first one closed
after its first write. -/
theorem committed_whole_packets_two_chunks : ∃ τ q,
    Steps (server (sendingPackets twoPackets)) ((server (sendingPackets twoPackets)).init Host.init)
        τ q ∧
      pieces τ = [⟨1, 0, [99, newline]⟩, ⟨0, 0, [97]⟩, ⟨0, 1, [98, newline]⟩] ∧
      q.shared.world.retained = [some [99, newline], some [97, 98, newline]] ∧
      ∀ c ∈ markedLines isNewline (pieces τ), IsWholePacket (packetBytes twoPackets) c := by
  set clients := sendingPackets twoPackets
  obtain ⟨τ₁, q₁, l₁, hrun₁, hpieces₁, -, -, hl₁, hstream₁, hfiles₁, howner₁, -, hothers₁⟩ :=
    exists_store clients 1 ⟨6, by decide⟩ (.full [99, newline] (by decide))
      (p := (server clients).init Host.init) Host.sound_init rfl (by decide) rfl rfl (by decide)
      (by decide) (by decide) (by decide) (by decide)
  obtain ⟨τ₂, q₂, l₂, hrun₂, hpieces₂, htask₂, hevents₂, hl₂, hstream₂, hfiles₂, howner₂, hprog₂,
    hothers₂⟩ := exists_store clients 0 ⟨6, by decide⟩ (.full [97] (by decide)) (p := q₁) hl₁
      (hothers₁ 0 (by decide)) (by decide) (by rw [hfiles₁]; rfl) (by rw [howner₁]; rfl) (by decide)
      (by decide) (by decide) (by decide) (by rw [Log.pending, hstream₁]; decide)
  obtain ⟨τ₃, q₃, l₃, hrun₃, hpieces₃, hl₃, hstream₃, hfiles₃, howner₃, hothers₃⟩ :=
    exists_opening clients 2 ⟨6, by decide⟩ hl₂
      ((hothers₂ 2 (by decide)).trans (hothers₁ 2 (by decide))) (by decide)
      (by rw [hfiles₂, hfiles₁]; rfl)
  -- the first thread waits for its second chunk
  have hprog₃ : (q₃.task 0).prog =
      afterRound 0 4 6 (.inl (Buffer.zero.chunk (.full [97] (by decide)))) := by
    rw [hothers₃ 0 (by decide), hprog₂, respond, if_neg]
    · rfl
    · rw [Buffer.getD_chunk (w := []) (x := 97) rfl]
      decide
  have hhist₃ : chunks (q₃.task 0).hist = [[97]] := by
    have hself : (τ₂.filter fun a => a.task = 0) = τ₂ := List.filter_eq_self.mpr (by simpa using htask₂)
    rw [hothers₃ 0 (by decide), hrun₂.hist_eq, hself, hevents₂, hothers₁ 0 (by decide)]
    rfl
  have hfile₃ : q₃.shared.files 6 = some ⟨q₂.shared.nextFile, .creatAppendRdwr⟩ := by
    rw [hfiles₃]
    exact Function.update_self _ _ _
  obtain ⟨τ₄, q₄, hrun₄, hpieces₄⟩ := exists_next_store clients 0 ⟨6, by decide⟩
    (.full [98, newline] (by decide)) hl₃ hprog₃ (by decide) hfile₃
    (by rw [howner₃, howner₂, howner₁]; rfl) (by decide) (by decide) (by decide)
    (by rw [hhist₃]; decide) (by rw [Log.pending, hstream₃, hstream₂, hstream₁]; decide)
  rw [hhist₃] at hpieces₄
  have hpieces : pieces (τ₁ ++ τ₂ ++ τ₃ ++ τ₄) =
      [⟨1, 0, [99, newline]⟩, ⟨0, 0, [97]⟩, ⟨0, 1, [98, newline]⟩] := by
    rw [pieces_append, pieces_append, pieces_append, hpieces₁, hpieces₂, hpieces₃, hpieces₄]
    rfl
  have hrun := ((hrun₁.trans hrun₂).trans hrun₃).trans hrun₄
  obtain ⟨hwhole, hretained⟩ :=
    committed_whole_packets clients twoPackets (fun _ => rfl) _ q₄ hrun
  refine ⟨_, q₄, hrun, hpieces, ?_, hwhole.mpr ?_⟩
  · rw [hretained, hpieces]
    rfl
  · rw [hpieces]
    rintro (_ | ⟨p₁, _ | ⟨p₂, _ | ⟨p₃, pre⟩⟩⟩) p post h - <;>
      simp only [List.cons_append, List.nil_append, List.cons.injEq] at h
    -- a packet of the second client, then one of the first
    · obtain ⟨rfl, -⟩ := h
      exact ⟨[], _, rfl, rfl⟩
    · obtain ⟨rfl, rfl, -⟩ := h
      exact ⟨[], _, rfl, rfl⟩
    -- its second chunk goes on where the unfinished command stops
    · obtain ⟨rfl, rfl, rfl, -⟩ := h
      exact ⟨rfl, rfl⟩
    · simp at h
/-- The chunk `"a"` of the first client reaches the device, then the packet `"c\n"` of the second:
the device commits `"ac\n"`. -/
theorem not_always_whole_packets :
    ¬∀ (clients : ℕ → Client) (packets : ℕ → List Packet), Sends clients packets →
      ∀ (τ : List (Act posix Host)) (q : Pool posix Host Unit),
        Steps (server clients) ((server clients).init Host.init) τ q →
          ∀ c ∈ q.shared.world.retained, ∃ t, ∃ p ∈ packets t, c = some p.bytes := by
  intro hall
  -- the first thread stores a part of its packet
  obtain ⟨τ, q, l, hrun, -, -, -, hl, hstream, hfiles, howner, -, hothers⟩ := exists_store
    (sendingPackets twoPackets) 0 ⟨6, by decide⟩ (.full [97] (by decide))
    (p := (server (sendingPackets twoPackets)).init Host.init) Host.sound_init rfl (by decide) rfl
    rfl (by decide) (by decide) (by decide) (by decide) (by decide)
  -- the second thread stores its packet behind it
  obtain ⟨τ', q', l', hrun', -, -, -, hl', hstream', -⟩ := exists_store
    (sendingPackets twoPackets) 1 ⟨6, by decide⟩ (.full [99, newline] (by decide)) (p := q)
    hl (hothers 1 (by decide)) (by decide)
    (by rw [hfiles]; rfl) (by rw [howner]; rfl) (by decide) (by decide) (by decide) (by decide)
    (by rw [Log.pending, hstream]; decide)
  -- the command in the ring is nobody's packet
  have hcommand : some [97, 99, newline] ∈ q'.shared.world.retained := by
    rw [hl'.stands.retained, Log.commands, hstream', hstream]
    decide
  obtain ⟨t, p, hp, hbytes⟩ :=
    hall (sendingPackets twoPackets) twoPackets (fun _ => rfl) _ q' (hrun.trans hrun') _ hcommand
  rcases t with _ | _ | t
  · obtain rfl := List.mem_singleton.mp hp
    exact absurd hbytes (by decide)
  · obtain rfl := List.mem_singleton.mp hp
    exact absurd hbytes (by decide)
  · cases hp

end Aesd.Server

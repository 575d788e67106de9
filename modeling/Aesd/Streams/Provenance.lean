import Aesd.Streams.Lines

/-! # Streams fed from several sources

Several sources each have a stream of packets, and pieces of these streams are fed to one reader
that cuts what it gets into lines. Each symbol is marked with its source and its position there, so
that a line shows where it comes from. A piece is in place if it begins at a packet boundary when
the reader has no unfinished line, and else continues the unfinished line where it stopped. **Every
line is exactly one whole packet of one source if and only if every piece that becomes part of a
line is in place** (`whole_lines_iff`). -/

namespace Streams

variable {ι α β : Type*}

/-- A symbol with its origin. -/
structure Marked (ι α : Type*) where
  /-- The source. -/
  source : ι
  /-- The position in the stream of the source. -/
  pos : ℕ
  /-- The symbol. -/
  value : α
  deriving DecidableEq

/-- Mark the symbols of a piece that begins at a position of a source. -/
def mark (i : ι) : ℕ → List α → List (Marked ι α)
  | _, [] => []
  | n, x :: l => ⟨i, n, x⟩ :: mark i (n + 1) l

/-- A piece of a source's stream. -/
structure Piece (ι α : Type*) where
  /-- The source. -/
  source : ι
  /-- Where the piece begins in the stream of the source. -/
  start : ℕ
  /-- Its symbols. -/
  symbols : List α
  deriving DecidableEq

variable {stop : α → Bool} {i : ι} {n : ℕ} {s u v l : List α}

theorem mark_append (u v : List α) : mark i n (u ++ v) = mark i n u ++ mark i (n + u.length) v := by
  induction u generalizing n with
  | nil => rfl
  | cons x u ih =>
      rw [List.cons_append, mark, mark, ih, List.length_cons, Nat.add_right_comm, Nat.add_assoc]
      rfl

theorem map_value_mark (l : List α) : (mark i n l).map Marked.value = l := by
  induction l generalizing n with
  | nil => rfl
  | cons x l ih => rw [mark, List.map_cons, ih]

/-- The last symbol of a piece. -/
theorem getLast?_mark_concat (x : α) :
    (mark i n (l ++ [x])).getLast? = some ⟨i, n + l.length, x⟩ := by
  rw [mark_append, List.getLast?_append]
  rfl

/-! ## Lines of images -/

theorem foldl_feed_map (f : β → α) (s : List β) (acc : List (List β) × List β) :
    (s.map f).foldl (feed stop) (acc.1.map (List.map f), acc.2.map f) =
      (((s.foldl (feed (stop ∘ f)) acc).1.map (List.map f)),
        (s.foldl (feed (stop ∘ f)) acc).2.map f) := by
  induction s generalizing acc with
  | nil => rfl
  | cons x s ih =>
      rw [List.map_cons, List.foldl_cons, List.foldl_cons, ← ih]
      congr 1
      by_cases hx : stop (f x) = true
      · simp [feed, hx]
      · simp [feed, hx]

theorem lines_map (f : β → α) (s : List β) :
    lines stop (s.map f) = (lines (stop ∘ f) s).map (List.map f) :=
  congrArg Prod.fst (foldl_feed_map f s ([], []))

/-- Marks do not change what ends a line. -/
theorem isLine_mark_iff : IsLine (stop ∘ Marked.value) (mark i n l) ↔ IsLine stop l := by
  constructor
  · rintro ⟨v, x, hl, hx, hv⟩
    refine ⟨v.map Marked.value, x.value, ?_, hx, ?_⟩
    · rw [← map_value_mark (i := i) (n := n) l, hl, List.map_append]
      rfl
    · intro y hy
      obtain ⟨m, hm, rfl⟩ := List.mem_map.mp hy
      exact hv m hm
  · rintro ⟨v, x, rfl, hx, hv⟩
    refine ⟨mark i n v, ⟨i, n + v.length, x⟩, mark_append v [x], hx, ?_⟩
    intro m hm
    have hmem := List.mem_map_of_mem (f := Marked.value) hm
    rw [map_value_mark] at hmem
    exact hv m.value hmem

/-! ## The first line of a beginning -/

/-- What follows a terminator plays no part in the first line. -/
theorem firstLine_append_of_exists (h : ∃ y ∈ u, stop y = true) :
    firstLine stop (u ++ v) = firstLine stop u := by
  cases hu : u.findIdx? stop with
  | none =>
      obtain ⟨y, hy, hstop⟩ := h
      rw [forall_of_findIdx?_none hu y hy] at hstop
      cases hstop
  | some k =>
      have happ : (u ++ v).findIdx? stop = some k := by
        rw [List.findIdx?_append, hu]
        rfl
      rw [firstLine_of_findIdx?_some hu, firstLine_of_findIdx?_some happ,
        List.take_append_of_le_length (findIdx?_lt_length hu)]

/-- Symbols without a terminator are in the first line. -/
theorem firstLine_append_of_forall (h : ∀ y ∈ u, stop y = false) :
    firstLine stop (u ++ v) = u ++ firstLine stop v := by
  induction u with
  | nil => rfl
  | cons x u ih =>
      have hx : stop x = false := h x List.mem_cons_self
      have hu := ih fun y hy => h y (List.mem_cons_of_mem _ hy)
      rw [List.cons_append, List.cons_append, ← hu, firstLine, firstLine, List.findIdx?_cons, hx]
      cases (u ++ v).findIdx? stop <;> rfl

/-- A line is its own first line. -/
theorem IsLine.firstLine (h : IsLine stop l) : firstLine stop l = l := by
  obtain ⟨v, x, rfl, hx, hv⟩ := h
  rw [firstLine_append_of_forall hv, Streams.firstLine, List.findIdx?_cons, hx]
  rfl

theorem IsLine.exists_stop (h : IsLine stop l) : ∃ y ∈ l, stop y = true := by
  obtain ⟨v, x, rfl, hx, -⟩ := h
  exact ⟨x, by simp, hx⟩

theorem firstLine_of_forall (h : ∀ y ∈ u, stop y = false) : firstLine stop u = u := by
  have happ := firstLine_append_of_forall (v := []) h
  rwa [List.append_nil, show firstLine stop ([] : List α) = [] from rfl, List.append_nil] at happ

/-- **The next piece of a packet.** If `v` without terminators and the piece `d` are a beginning of
a stream that starts with the packet `q`, then either `d` has no terminator and they are a beginning
of `q`, or the first line of `d` completes `q`. -/
theorem next_piece {q w d : List α} (hq : IsLine stop q) (hv : ∀ y ∈ v, stop y = false)
    (h : v ++ d <+: q ++ w) :
    (∀ y ∈ d, stop y = false) ∧ v ++ d <+: q ∨
      IsLine stop (firstLine stop d) ∧ v ++ firstLine stop d = q := by
  by_cases hd : ∃ y ∈ d, stop y = true
  · right
    have hcomplete : v ++ firstLine stop d = q := by
      obtain ⟨x, hx⟩ := h
      obtain ⟨y, hy, hstop⟩ := hd
      rw [← firstLine_append_of_forall hv,
        ← firstLine_append_of_exists (v := x) ⟨y, List.mem_append_right _ hy, hstop⟩, hx,
        firstLine_append_of_exists hq.exists_stop, hq.firstLine]
    refine ⟨?_, hcomplete⟩
    cases hidx : d.findIdx? stop with
    | none =>
        obtain ⟨y, hy, hstop⟩ := hd
        rw [forall_of_findIdx?_none hidx y hy] at hstop
        cases hstop
    | some k =>
        rw [firstLine_of_findIdx?_some hidx]
        exact isLine_take_of_findIdx?_some hidx
  · left
    have hnone : ∀ y ∈ d, stop y = false := by
      intro y hy
      by_contra hstop
      exact hd ⟨y, hy, by simpa using hstop⟩
    refine ⟨hnone, ?_⟩
    rcases List.prefix_or_prefix_of_prefix h (List.prefix_append q w) with hle | hge
    · exact hle
    · -- the packet would end inside symbols without a terminator
      obtain ⟨y, hy, hstop⟩ := hq.exists_stop
      rcases List.mem_append.mp (hge.subset hy) with hy | hy
      · rw [hv y hy] at hstop
        cases hstop
      · rw [hnone y hy] at hstop
        cases hstop

/-! ## Pieces in place -/

section Packets

variable (stop) (packets : ι → List (List α))

/-- The part of a piece that the reader takes: its first line. -/
def Piece.fed (p : Piece ι α) : List (Marked ι α) := mark p.source p.start (firstLine stop p.symbols)

/-- What the reader has got. -/
def provenance (ps : List (Piece ι α)) : List (Marked ι α) := ps.flatMap (Piece.fed stop)

/-- The lines of what the reader has got, with their origin. -/
def markedLines (ps : List (Piece ι α)) : List (List (Marked ι α)) :=
  lines (stop ∘ Marked.value) (provenance stop ps)

/-- The line is one whole packet of one source. -/
def IsWholePacket (c : List (Marked ι α)) : Prop :=
  ∃ i pre p post, packets i = pre ++ p :: post ∧ c = mark i pre.flatten.length p

/-- The piece is what its source has at the position. -/
def Piece.IsSlice (p : Piece ι α) : Prop :=
  p.symbols ≠ [] ∧ p.symbols <+: (packets p.source).flatten.drop p.start

/-- After `ps` the piece begins at a packet boundary, if the reader has no unfinished line, and else
continues the unfinished line. -/
def InPlace (ps : List (Piece ι α)) (p : Piece ι α) : Prop :=
  match (rest (stop ∘ Marked.value) (provenance stop ps)).getLast? with
  | none => ∃ pre post, packets p.source = pre ++ post ∧ p.start = pre.flatten.length
  | some m => m.source = p.source ∧ p.start = m.pos + 1

variable {stop packets} {ps : List (Piece ι α)} {p : Piece ι α}

theorem provenance_concat : provenance stop (ps ++ [p]) = provenance stop ps ++ p.fed stop := by
  simp [provenance]

/-- The unfinished line is a beginning of a packet. -/
def Unfinished (stop : α → Bool) (packets : ι → List (List α)) (u : List (Marked ι α)) : Prop :=
  u = [] ∨ ∃ i pre q post v x, packets i = pre ++ q :: post ∧
    u = mark i pre.flatten.length (v ++ [x]) ∧ v ++ [x] <+: q ∧ ∀ y ∈ v ++ [x], stop y = false

/-- A piece in place goes on with a packet: with `v`, what is unfinished of it, it is a beginning of
the stream from the packet on. -/
theorem InPlace.packet (hp : p.IsSlice packets) (hplace : InPlace stop packets ps p)
    (hrest : Unfinished stop packets (rest (stop ∘ Marked.value) (provenance stop ps))) :
    ∃ pre q post v, packets p.source = pre ++ q :: post ∧
      rest (stop ∘ Marked.value) (provenance stop ps) = mark p.source pre.flatten.length v ∧
      p.start = pre.flatten.length + v.length ∧ (∀ y ∈ v, stop y = false) ∧
      v ++ p.symbols <+: q ++ post.flatten := by
  obtain ⟨hne, hslice⟩ := hp
  rcases hrest with hnil | ⟨i, pre, q, post, v, x, hpackets, hrest, hvq, hv⟩
  · rw [InPlace, hnil] at hplace
    obtain ⟨pre, post, hpackets, hstart⟩ := hplace
    rw [hpackets, List.flatten_append, hstart, List.drop_left] at hslice
    cases post with
    | nil => exact absurd (List.prefix_nil.mp hslice) hne
    | cons q post => exact ⟨pre, q, post, [], hpackets, hnil, hstart, by simp, hslice⟩
  · rw [InPlace, hrest, getLast?_mark_concat] at hplace
    obtain ⟨rfl, hstart⟩ := hplace
    have hlen : p.start = pre.flatten.length + (v ++ [x]).length := by
      rw [hstart, List.length_append]
      rfl
    refine ⟨pre, q, post, v ++ [x], hpackets, hrest, hlen, hv, ?_⟩
    obtain ⟨z, rfl⟩ := hvq
    rw [hpackets, List.flatten_append, hlen, ← List.drop_drop, List.drop_left, List.flatten_cons,
      List.append_assoc, List.drop_left] at hslice
    rw [List.append_assoc (v ++ [x])]
    exact (List.prefix_append_right_inj _).mpr hslice

/-- The step lemma: a piece in place completes its packet or prolongs the unfinished line. -/
theorem whole_lines_concat (hpackets : ∀ i, ∀ q ∈ packets i, IsLine stop q)
    (hp : p.IsSlice packets) (hplace : InPlace stop packets ps p)
    (hlines : ∀ c ∈ markedLines stop ps, IsWholePacket packets c)
    (hrest : Unfinished stop packets (rest (stop ∘ Marked.value) (provenance stop ps))) :
    (∀ c ∈ markedLines stop (ps ++ [p]), IsWholePacket packets c) ∧
      Unfinished stop packets (rest (stop ∘ Marked.value) (provenance stop (ps ++ [p]))) := by
  obtain ⟨pre, q, post, v, hpre, hunfinished, hstart, hv, hprefix⟩ := hplace.packet hp hrest
  have hq : IsLine stop q := hpackets p.source q (by simp [hpre])
  have hfed : ∀ d, rest (stop ∘ Marked.value) (provenance stop ps) ++ mark p.source p.start d =
      mark p.source pre.flatten.length (v ++ d) := fun d => by
    rw [hunfinished, hstart, mark_append]
  rw [markedLines, provenance_concat, Piece.fed]
  rcases next_piece hq hv hprefix with ⟨hd, hvd⟩ | ⟨hline, hcomplete⟩
  · -- no terminator: the unfinished line grows
    have hmarks : ∀ m ∈ mark p.source p.start p.symbols, (stop ∘ Marked.value) m = false := by
      intro m hm
      have hmem := List.mem_map_of_mem (f := Marked.value) hm
      rw [map_value_mark] at hmem
      exact hd m.value hmem
    rw [firstLine_of_forall hd, lines_append_of_forall hmarks, rest_append_of_forall hmarks, hfed]
    refine ⟨hlines, .inr ?_⟩
    obtain ⟨d, x, hx⟩ : ∃ d x, v ++ p.symbols = d ++ [x] := by
      rcases List.eq_nil_or_concat (v ++ p.symbols) with hnil | ⟨d, x, hx⟩
      · exact absurd (List.append_eq_nil_iff.mp hnil).2 hp.1
      · exact ⟨d, x, by rw [hx, List.concat_eq_append]⟩
    refine ⟨p.source, pre, q, post, d, x, hpre, by rw [hx], hx ▸ hvd, ?_⟩
    intro y hy
    rw [← hx] at hy
    exact (List.mem_append.mp hy).elim (hv y) (hd y)
  · -- the first line of the piece completes the packet
    have hmarked : IsLine (stop ∘ Marked.value)
        (mark p.source p.start (firstLine stop p.symbols)) := isLine_mark_iff.mpr hline
    rw [lines_append_line hmarked, rest_append_line hmarked, hfed, hcomplete]
    refine ⟨?_, .inl rfl⟩
    intro c hc
    rcases List.mem_append.mp hc with hc | hc
    · exact hlines c hc
    · rw [List.mem_singleton.mp hc]
      exact ⟨p.source, pre, q, post, hpre, rfl⟩

/-- **Whole packets.** If the packets are lines and every piece is in place, then every line is one
whole packet of one source. -/
theorem whole_lines (hpackets : ∀ i, ∀ q ∈ packets i, IsLine stop q)
    (hslice : ∀ p ∈ ps, p.IsSlice packets)
    (hplace : ∀ pre p post, ps = pre ++ p :: post → InPlace stop packets pre p) :
    ∀ c ∈ markedLines stop ps, IsWholePacket packets c := by
  have hall : (∀ c ∈ markedLines stop ps, IsWholePacket packets c) ∧
      Unfinished stop packets (rest (stop ∘ Marked.value) (provenance stop ps)) := by
    induction ps using List.reverseRecOn with
    | nil => exact ⟨fun _ hc => (List.not_mem_nil hc).elim, .inl rfl⟩
    | append_singleton ps p ih =>
        obtain ⟨hlines, hrest⟩ := ih (fun p hp => hslice p (by simp [hp])) fun pre p' post h =>
          hplace pre p' (post ++ [p]) (by rw [h]; simp)
        exact whole_lines_concat hpackets (hslice p (by simp)) (hplace ps p [] rfl) hlines hrest
  exact hall.1

/-! ## Pieces out of place -/

/-- In a list of marks the positions follow each other. -/
theorem mark_eq_append_cons {m : Marked ι α} {u v : List (Marked ι α)}
    (h : mark i n l = u ++ m :: v) : m.source = i ∧ m.pos = n + u.length := by
  induction u generalizing n l with
  | nil =>
      cases l with
      | nil => cases h
      | cons x l =>
          rw [mark, List.nil_append, List.cons.injEq] at h
          rw [← h.1]
          exact ⟨rfl, rfl⟩
  | cons m' u ih =>
      cases l with
      | nil => cases h
      | cons x l =>
          rw [mark, List.cons_append, List.cons.injEq] at h
          obtain ⟨hsource, hpos⟩ := ih h.2
          rw [List.length_cons]
          exact ⟨hsource, by omega⟩

/-- A line that is one whole packet is made of pieces in place. -/
theorem inPlace_of_isWholePacket {tail : List (Marked ι α)} {x : α}
    (h : IsWholePacket packets
      (rest (stop ∘ Marked.value) (provenance stop ps) ++ ⟨p.source, p.start, x⟩ :: tail)) :
    InPlace stop packets ps p := by
  obtain ⟨i, pre, q, post, hpackets, hmark⟩ := h
  obtain ⟨hsource, hpos⟩ := mark_eq_append_cons hmark.symm
  dsimp only at hsource hpos
  rw [InPlace]
  rcases List.eq_nil_or_concat (rest (stop ∘ Marked.value) (provenance stop ps)) with hnil | ⟨u, m, hm⟩
  · rw [hnil] at hpos ⊢
    exact ⟨pre, q :: post, hsource ▸ hpackets, hpos⟩
  · rw [hm, List.concat_eq_append] at hmark hpos ⊢
    rw [List.append_assoc] at hmark
    obtain ⟨hsource', hpos'⟩ := mark_eq_append_cons hmark.symm
    rw [List.getLast?_concat]
    rw [List.length_append, List.length_singleton] at hpos
    exact ⟨hsource'.trans hsource.symm, by omega⟩

theorem markedLines_append (ps ps' : List (Piece ι α)) : markedLines stop (ps ++ ps') =
    lines (stop ∘ Marked.value) (provenance stop ps ++ provenance stop ps') := by
  rw [markedLines, provenance, List.flatMap_append]
  rfl

/-- More pieces leave the lines there are. -/
theorem markedLines_isPrefix {ps' : List (Piece ι α)} (h : ps <+: ps') :
    markedLines stop ps <+: markedLines stop ps' := by
  obtain ⟨post, rfl⟩ := h
  rw [markedLines_append]
  exact lines_isPrefix _ _

/-- **Whole packets, exactly.** The lines are whole packets if and only if every piece that becomes
part of a line, because some line is completed by it or after it, is in place. -/
theorem whole_lines_iff (hpackets : ∀ i, ∀ q ∈ packets i, IsLine stop q)
    (hslice : ∀ p ∈ ps, p.IsSlice packets) :
    (∀ c ∈ markedLines stop ps, IsWholePacket packets c) ↔
      ∀ pre p post, ps = pre ++ p :: post →
        (markedLines stop pre).length < (markedLines stop ps).length → InPlace stop packets pre p := by
  constructor
  · rintro hwhole pre p post rfl hlt
    rw [markedLines_append] at hwhole hlt
    have hnext := hwhole _ (next_line_mem hlt)
    obtain ⟨y, l, hy⟩ := List.exists_cons_of_ne_nil (hslice p (by simp)).1
    obtain ⟨t, ht⟩ : ∃ t, firstLine stop (y :: l) = y :: t := firstLine_cons y l
    have hfed : p.fed stop = ⟨p.source, p.start, y⟩ :: mark p.source (p.start + 1) t := by
      rw [Piece.fed, hy, ht, mark]
    rw [provenance, provenance, List.flatMap_cons, hfed, List.cons_append] at hnext
    have hfirst : ∀ cs, ∃ tail, firstLine (stop ∘ Marked.value) (⟨p.source, p.start, y⟩ :: cs) =
        ⟨p.source, p.start, y⟩ :: tail := firstLine_cons _
    obtain ⟨tail, htail⟩ :=
      hfirst (mark p.source (p.start + 1) t ++ post.flatMap (Piece.fed stop))
    rw [htail] at hnext
    exact inPlace_of_isWholePacket hnext
  · -- the pieces up to the one that completes the last line are in place
    induction ps using List.reverseRecOn with
    | nil => exact fun _ c hc => (List.not_mem_nil hc).elim
    | append_singleton ps p ih =>
        intro hplace
        have hpre : markedLines stop ps <+: markedLines stop (ps ++ [p]) :=
          markedLines_isPrefix (List.prefix_append _ _)
        rcases hpre.length_le.eq_or_lt with heq | hlt
        · rw [← hpre.eq_of_length heq] at hplace ⊢
          refine ih (fun p' hp' => hslice p' (by simp [hp'])) fun pre p' post hps hlt => ?_
          exact hplace pre p' (post ++ [p]) (by rw [hps]; simp) hlt
        · refine whole_lines hpackets hslice fun pre p' post hps => hplace pre p' post hps ?_
          have hle : pre <+: ps := by
            rcases List.prefix_concat_iff.mp (⟨_, hps.symm⟩ : pre <+: ps ++ [p]) with heq | hle
            · rw [← heq] at hps
              exact absurd (List.append_right_eq_self.mp hps.symm) (List.cons_ne_nil _ _)
            · exact hle
          exact (markedLines_isPrefix hle).length_le.trans_lt hlt

end Packets

end Streams

import Aesd.CharDriver.WriteLog

/-! # The read side drains the log

Reads of any sizes from any start position, with the user copies and the lock succeeding and no
write in between: the bytes they return are a contiguous piece of the retained commands, and a read
returns nothing exactly at the end. -/

namespace Aesd.CharDriver

open Memory Effects Streams

/-- The parameters of a read that asks for something and whose lock and user copy succeed. -/
def ReadServed (q : ℕ × Env) : Prop := 0 < q.1 ∧ q.2.lockOk = true ∧ q.2.notCopied = 0

instance (q : ℕ × Env) : Decidable (ReadServed q) := inferInstanceAs (Decidable (_ ∧ _ ∧ _))

/-- A read of a file with the given count. -/
def readCall (filp : File) (q : ℕ × Env) : Invocation := ⟨.read filp q.1, q.2⟩

section Reads

variable {w : World} {l : Log} {filp : File} {q : ℕ × Env} {pos : ℕ}

theorem Log.seekTo_self (hpos : l.fPos filp = pos) : l.seekTo filp pos = l := by
  rw [Log.seekTo, ← hpos, Function.update_eq_self]

/-- One read of the log: a piece of the contents that starts at the position, empty only at the
end. -/
theorem Log.read_served (hq : ReadServed q) (hpos : l.fPos filp = pos) (hlt : pos < 2 ^ 63)
    (hcontents : l.contents.length < 2 ^ 63) :
    ∃ bytes,
      l.read q.2 filp q.1 = some (⟨bytes.length, bytes⟩, l.seekTo filp (pos + bytes.length : ℕ)) ∧
      bytes <+: l.contents.drop pos ∧ bytes.length ≤ q.1 ∧
      (bytes = [] ↔ l.contents.length ≤ pos) := by
  obtain ⟨hcount, hlock, hcopy⟩ := hq
  have hsize : toSizeT (l.fPos filp) = pos := by
    rw [hpos, toSizeT]
    omega
  rw [Log.read, if_neg (by simp [hlock]), hsize]
  cases hloc : locate (l.commands.map List.length) pos with
  | none =>
      -- past the end
      rw [locate_eq_none_iff, ← List.length_flatten] at hloc
      refine ⟨[], ?_, List.nil_prefix, Nat.zero_le _, fun _ => hloc, fun _ => rfl⟩
      rw [List.length_nil, Nat.add_zero, Log.seekTo_self hpos]
      rfl
  | some found =>
      obtain ⟨i, o⟩ := found
      obtain ⟨c, hc, ho, hdrop⟩ := drop_flatten_of_locate hloc
      have hend : pos < l.contents.length := by
        by_contra hge
        have hnone := locate_eq_none_iff.mpr (by
          rw [← List.length_flatten]
          exact not_lt.mp hge : (l.commands.map List.length).sum ≤ pos)
        rw [hnone] at hloc
        cases hloc
      have hpre : (c.drop o).take q.1 <+: l.contents.drop pos := by
        rw [Log.contents, hdrop]
        exact (List.take_prefix _ _).trans (List.prefix_append _ _)
      refine ⟨(c.drop o).take q.1, ?_, hpre, List.length_take_le _ _, ?_⟩
      · have hlen := hpre.length_le
        rw [List.length_drop] at hlen
        simp only [List.getD_eq_getElem?_getD, hc, Option.getD_some, hcopy, Nat.zero_min, ne_eq,
          not_true, if_false, hpos]
        rw [int64_eq (by omega) (by omega)]
        push_cast
        rfl
      · constructor
        · intro hnil
          have hlen := congrArg List.length hnil
          rw [List.length_take, List.length_drop, List.length_nil] at hlen
          omega
        · intro hge
          omega

/-- A read at the start with room enough returns the oldest command. -/
theorem Log.read_first {c : List UInt8} {cs : List (List UInt8)} (hq : ReadServed q)
    (hcommands : l.commands = c :: cs) (hne : c ≠ []) (hroom : c.length ≤ q.1)
    (hlt : c.length < 2 ^ 63) (hpos : l.fPos filp = 0) :
    l.read q.2 filp q.1 = some (⟨c.length, c⟩, l.seekTo filp c.length) := by
  obtain ⟨-, hlock, hcopy⟩ := hq
  have hloc : locate (l.commands.map List.length) (toSizeT (l.fPos filp)) = some (0, 0) := by
    rw [hcommands, hpos, List.map_cons]
    exact if_pos (List.length_pos_iff.mpr hne)
  rw [Log.read, if_neg (by simp [hlock]), hloc, hcommands]
  simp only [List.getD_cons_zero, List.drop_zero, List.take_of_length_le hroom, hcopy,
    Nat.zero_min, ne_eq, not_true, if_false, hpos, zero_add]
  rw [int64_eq (by omega) (by omega)]

/-- A read that succeeds is one whose services all succeed. -/
theorem Log.read_granted {env : Env} {count : ℕ} {r : Reply} {l' : Log} (hcount : 0 < count)
    (h : l.read env filp count = some (r, l')) :
    ReadServed (count, { env with notCopied := 0 }) ∧
      l.read { env with notCopied := 0 } filp count = some (r, l') := by
  by_cases hlock : env.lockOk = false
  · rw [Log.read, if_pos hlock] at h
    cases h
  refine ⟨⟨hcount, by simpa using hlock, rfl⟩, ?_⟩
  rw [Log.read, if_neg hlock] at h ⊢
  cases hloc : locate (l.commands.map List.length) (toSizeT (l.fPos filp)) with
  | none => simpa only [hloc] using h
  | some found =>
      simp only [hloc] at h ⊢
      split at h
      · cases h
      · rw [if_neg (by simp), h]

/-- What a read that succeeds returns, and where it leaves the file. -/
theorem Log.read_reply {env : Env} {count : ℕ} {r : Reply} {l' : Log} (hcount : 0 < count)
    (h : l.read env filp count = some (r, l')) (hpos : l.fPos filp = pos) (hlt : pos < 2 ^ 63)
    (hcontents : l.contents.length < 2 ^ 63) :
    r.retval = r.bytes.length ∧ l' = l.seekTo filp (pos + r.bytes.length : ℕ) ∧
      r.bytes <+: l.contents.drop pos ∧ (r.bytes = [] ↔ l.contents.length ≤ pos) := by
  obtain ⟨hserved, hread⟩ := Log.read_granted hcount h
  obtain ⟨bytes, hbytes, hpre, -, hend⟩ := Log.read_served hserved hpos hlt hcontents
  rw [hread, Option.some.injEq, Prod.mk.injEq] at hbytes
  obtain ⟨rfl, rfl⟩ := hbytes
  exact ⟨rfl, rfl, hpre, hend⟩

/-- One read of the device. -/
theorem Shows.read_served (h : Shows w l) (hq : ReadServed q) (hpos : l.fPos filp = pos)
    (hlt : pos < 2 ^ 63) :
    ∃ bytes w', invoke (readCall filp q) w = .ok (⟨bytes.length, bytes⟩, w') ∧
      Shows w' (l.seekTo filp (pos + bytes.length : ℕ)) ∧
      bytes <+: l.contents.drop pos ∧ bytes.length ≤ q.1 ∧
      (bytes = [] ↔ l.contents.length ≤ pos) := by
  have hcontents := h.length_contents_lt
  obtain ⟨bytes, hread, hpre, hlen, hend⟩ := Log.read_served hq hpos hlt (by omega)
  have hobs : Observes w l (invoke (readCall filp q) w) (.ok (l.read q.2 filp q.1)) :=
    h.observes_read q.1
  rw [hread] at hobs
  obtain ⟨hi, -, hstream⟩ := hobs
  exact ⟨bytes, _, hi, h.setFPos hstream, hpre, hlen, hend⟩

/-- A piece followed by the piece that starts where it ends. -/
theorem prefix_drop_append {C b b' : List UInt8} {p : ℕ} (hb : b <+: C.drop p)
    (hb' : b' <+: C.drop (p + b.length)) : b ++ b' <+: C.drop p := by
  obtain ⟨t, ht⟩ := hb
  have hdrop : C.drop (p + b.length) = t := by
    rw [← List.drop_drop, ← ht, List.drop_left]
  rw [hdrop] at hb'
  rw [← ht]
  exact (List.prefix_append_right_inj b).mpr hb'

/-- The next position is a `loff_t` again. -/
theorem pos_add_lt {C b : List UInt8} (hlt : pos < 2 ^ 63) (hC : C.length < 2 ^ 63)
    (hb : b <+: C.drop pos) : pos + b.length < 2 ^ 63 := by
  have hlen := hb.length_le
  rw [List.length_drop] at hlen
  omega

/-- The run lemma: the pieces returned line up, and the position follows them. -/
theorem Shows.allRead {reads : List (ℕ × Env)} (h : Shows w l)
    (hreads : ∀ q ∈ reads, ReadServed q) (hpos : l.fPos filp = pos) (hlt : pos < 2 ^ 63) :
    ∃ rs w', invokeAll (reads.map (readCall filp)) w = .ok (rs, w') ∧
      Shows w' (l.seekTo filp (pos + (rs.flatMap Reply.bytes).length : ℕ)) ∧
      rs.flatMap Reply.bytes <+: l.contents.drop pos ∧
      List.Forall₂ (fun q r => r.retval = r.bytes.length ∧ r.bytes.length ≤ q.1) reads rs := by
  induction reads generalizing w l pos with
  | nil =>
      refine ⟨[], w, rfl, ?_, List.nil_prefix, .nil⟩
      rw [List.flatMap_nil, List.length_nil, Nat.add_zero, Log.seekTo_self hpos]
      exact h
  | cons q reads ih =>
      have hcontents := h.length_contents_lt
      obtain ⟨bytes, w₁, hi, h₁, hpre, hlen, -⟩ :=
        h.read_served (hreads q List.mem_cons_self) hpos hlt
      have hpos₁ : (l.seekTo filp (pos + bytes.length : ℕ)).fPos filp = (pos + bytes.length : ℕ) :=
        Function.update_self _ _ _
      -- the rest of the reads starts behind the first piece
      obtain ⟨rs, w', hrun, h', hpre', hall⟩ :=
        ih h₁ (fun q' hq' => hreads q' (List.mem_cons_of_mem _ hq')) hpos₁
          (pos_add_lt hlt (by omega) hpre)
      refine ⟨⟨bytes.length, bytes⟩ :: rs, w', ?_, ?_, ?_, .cons ⟨rfl, hlen⟩ hall⟩
      · rw [List.map_cons, invokeAll_cons hi, hrun]
        rfl
      · have hseek : (l.seekTo filp (pos + bytes.length : ℕ)).seekTo filp
            (pos + bytes.length + (rs.flatMap Reply.bytes).length : ℕ) =
              l.seekTo filp (pos + bytes.length + (rs.flatMap Reply.bytes).length : ℕ) := by
          simp only [Log.seekTo, Function.update_idem]
        rw [List.flatMap_cons, List.length_append, ← Nat.add_assoc, ← hseek]
        exact h'
      · rw [List.flatMap_cons]
        exact prefix_drop_append hpre hpre'

/-- Reading until nothing comes ends, and has delivered everything from the position on. The
induction is on what is left to read. -/
theorem Shows.drain {left : ℕ} (h : Shows w l) (reads : ℕ → ℕ × Env)
    (hreads : ∀ k, ReadServed (reads k)) (hpos : l.fPos filp = pos) (hlt : pos < 2 ^ 63)
    (hleft : l.contents.length - pos ≤ left) :
    ∃ n rs w', invokeAll ((List.range (n + 1)).map fun k => readCall filp (reads k)) w =
        .ok (rs ++ [⟨0, []⟩], w') ∧
      (∀ r ∈ rs, r.retval ≠ 0) ∧ rs.flatMap Reply.bytes = l.contents.drop pos := by
  induction left generalizing w l pos reads with
  | zero =>
      obtain ⟨bytes, w₁, hi, -, -, -, hend⟩ := h.read_served (hreads 0) hpos hlt
      have hnil : bytes = [] := hend.mpr (by omega)
      subst hnil
      exact ⟨0, [], w₁, by rw [List.range_one, List.map_singleton, invokeAll_cons hi]; rfl,
        by simp, by rw [List.drop_eq_nil_of_le (by omega)]; rfl⟩
  | succ left ih =>
      obtain ⟨bytes, w₁, hi, h₁, hpre, -, hend⟩ := h.read_served (hreads 0) hpos hlt
      -- a read returns nothing only at the end; else less is left
      by_cases hnil : bytes = []
      · have hle := hend.mp hnil
        subst hnil
        exact ⟨0, [], w₁, by rw [List.range_one, List.map_singleton, invokeAll_cons hi]; rfl,
          by simp, by rw [List.drop_eq_nil_of_le hle]; rfl⟩
      · have hcontents := h.length_contents_lt
        have hbytes : 0 < bytes.length := List.length_pos_iff.mpr hnil
        have hpos₁ : (l.seekTo filp (pos + bytes.length : ℕ)).fPos filp =
            (pos + bytes.length : ℕ) := Function.update_self _ _ _
        have hcontents₁ : (l.seekTo filp (pos + bytes.length : ℕ)).contents = l.contents := rfl
        obtain ⟨n, rs, w', hrun, hne, hall⟩ := ih h₁ (fun k => reads (k + 1))
          (fun k => hreads (k + 1)) hpos₁ (pos_add_lt hlt (by omega) hpre)
          (by rw [hcontents₁]; omega)
        refine ⟨n + 1, ⟨bytes.length, bytes⟩ :: rs, w', ?_, ?_, ?_⟩
        · rw [List.range_succ_eq_map, List.map_cons, List.map_map, invokeAll_cons hi]
          have hrun' : invokeAll (List.map ((fun k => readCall filp (reads k)) ∘ Nat.succ)
              (List.range (n + 1))) w₁ = .ok (rs ++ [⟨0, []⟩], w') := hrun
          rw [hrun']
          rfl
        · intro r hr
          rcases List.mem_cons.mp hr with rfl | hr
          · simpa using hnil
          · exact hne r hr
        · obtain ⟨t, ht⟩ := hpre
          rw [List.flatMap_cons, hall, hcontents₁, ← List.drop_drop, ← ht, List.drop_left]

end Reads

/-- **The read side drains the log.** In a state reached by served writes, with any position `pos`
of a file: reads of any positive counts return a contiguous piece of the retained commands that
starts at `pos`, each at most its count, and leave the position behind it; a further read returns 0
exactly if that position is at or past the end; and reading until 0 ends and delivers everything
from `pos` on. -/
theorem aesdRead_drains {is : List Invocation} {rs₀ : List Reply} {w : World}
    (hs : Throughout WriteServed is aesdInitModule)
    (hrun : invokeAll is aesdInitModule = .ok (rs₀, w)) (filp : File) (pos : ℕ) (hpos : pos < 2 ^ 63) :
    (∀ reads : List (ℕ × Env), (∀ q ∈ reads, ReadServed q) →
      ∃ rs w', invokeAll (reads.map (readCall filp))
          { w with fPos := Function.update w.fPos filp pos } = .ok (rs, w') ∧
        rs.flatMap Reply.bytes =
          (w.contents.drop pos).take (rs.flatMap Reply.bytes).length ∧
        w'.fPos filp = pos + (rs.flatMap Reply.bytes).length ∧
        List.Forall₂ (fun q r => r.retval = r.bytes.length ∧ r.bytes.length ≤ q.1) reads rs ∧
        ∀ q, ReadServed q → ∃ r w'', invoke (readCall filp q) w' = .ok (r, w'') ∧
          (r.retval = 0 ↔ w.contents.length ≤ w'.fPos filp)) ∧
    ∀ reads : ℕ → ℕ × Env, (∀ k, ReadServed (reads k)) →
      ∃ n rs w', invokeAll ((List.range (n + 1)).map fun k => readCall filp (reads k))
          { w with fPos := Function.update w.fPos filp pos } = .ok (rs ++ [⟨0, []⟩], w') ∧
        (∀ r ∈ rs, r.retval ≠ 0) ∧ rs.flatMap Reply.bytes = w.contents.drop pos := by
  obtain ⟨l, h⟩ := exists_stands_of_served hs hrun
  have h₀ : Shows { w with fPos := Function.update w.fPos filp pos } (l.seekTo filp pos) := by
    rw [← h.shows.moved]
    exact h.shows.setFPos rfl
  have hpos₀ : (l.seekTo filp pos).fPos filp = pos := Function.update_self _ _ _
  have hcontents : w.contents = (l.seekTo filp pos).contents := h.contents
  rw [hcontents]
  -- the pieces of any reads, and then reading until nothing comes
  constructor
  · intro reads hreads
    obtain ⟨rs, w', hall, h', hpre, hlen⟩ := h₀.allRead hreads hpos₀ hpos
    have hpos' : w'.fPos filp = (pos + (rs.flatMap Reply.bytes).length : ℕ) := by
      rw [h'.fPos]
      exact Function.update_self _ _ _
    refine ⟨rs, w', hall, List.prefix_iff_eq_take.mp hpre, by rw [hpos']; omega, hlen, ?_⟩
    intro q hq
    have hlt := pos_add_lt hpos (by have := h₀.length_contents_lt; omega) hpre
    obtain ⟨bytes, w'', hi, -, -, -, hend⟩ := h'.read_served hq (h'.fPos ▸ hpos') hlt
    refine ⟨_, w'', hi, ?_⟩
    rw [← List.length_eq_zero_iff] at hend
    have hcontents' : ((l.seekTo filp pos).seekTo filp
        (pos + (rs.flatMap Reply.bytes).length : ℕ)).contents = (l.seekTo filp pos).contents := rfl
    rw [hcontents'] at hend
    show (bytes.length : ℤ) = 0 ↔ _
    rw [hpos']
    omega
  · intro reads hreads
    exact h₀.drain reads hreads hpos₀ hpos le_rfl

/-- Reading one command byte by byte from its second byte on. -/
theorem aesdRead_drains_one_command :
    ∃ w, invokeAll [⟨.write 0 [97, 98, newline], .calm 0⟩] aesdInitModule = .ok ([⟨3, []⟩], w) ∧
      ∃ n rs w', invokeAll ((List.range (n + 1)).map fun _ => readCall 1 (1, .calm 0))
          { w with fPos := Function.update w.fPos 1 1 } = .ok (rs ++ [⟨0, []⟩], w') ∧
        (∀ r ∈ rs, r.retval ≠ 0) ∧ rs.flatMap Reply.bytes = [98, newline] := by
  have hserved : Throughout WriteServed [⟨.write 0 [97, 98, newline], .calm 0⟩] aesdInitModule := by
    decide
  refine ⟨_, rfl, ?_⟩
  exact (aesdRead_drains hserved rfl 1 1 (by decide)).2 (fun _ => (1, .calm 0)) fun _ => by decide

end Aesd.CharDriver

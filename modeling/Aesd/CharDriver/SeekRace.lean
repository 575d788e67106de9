import Aesd.CharDriver.SeekMoments

/-! # A seek beside writers

`aesd_unlocked_ioctl` reads `out_offs` twice and the size it checks once before it takes the mutex;
the walk then runs under the mutex from the first value to the slot that the second one led to.
Writers take their locked sections in between. A write that evicts a command moves the oldest slot
on and puts the newest command into the one that was the oldest. Whether this can be seen depends on
the step of the call before which it falls and on what the call still does with the slots
(`MayEvict`). The call is atomic in every run whose evictions fall only where they do no harm
(`Reached.seek_atomic`). -/

namespace Aesd.CharDriver

open Memory Effects Streams

/-- A `write` of another task. Its locked section needs the mutex to be free. -/
def WriteStep (v v' : World) : Prop :=
  ∃ filp buf env r, v.dev.lock = none ∧ invoke ⟨.write filp buf, env⟩ v = .ok (r, v')

/-- The oldest command gives way: `out_offs` moves on. -/
def Evicts (v v' : World) : Prop := v'.dev.circBuf.outOffs ≠ v.dev.circBuf.outOffs

/-- The writers beside a seek. The seek has made `k` steps, and commands are evicted only when `P`
allows it. -/
def EvictsOnly (P : ℕ → Prop) (k : ℕ) (v v' : World) : Prop :=
  WriteStep v v' ∧ (Evicts v v' → P k)

/-- At one of the states passed through the whole seek would return the same value and lead to the
same position. -/
def AtomicAtSome (env : Env) (filp : File) (arg : AesdSeekto) (ws : List World) (a : ℤ)
    (w' : World) : Prop :=
  ∃ v ∈ ws, ∃ v', invoke ⟨.ioctl filp aesdcharIocseekto arg, env⟩ v = .ok (.ofRetval a, v') ∧
    v'.fPos filp = w'.fPos filp

/-- The evictions that do no harm once the seek has made `k` of its steps. Before the first read of
`out_offs` any does none. Between the two reads it does none if the walk is not reached, since the
request cannot be copied or the mutex is not granted. Between the second read and that of the size
it does none if the check does not tell (the offset is 0 or 1) and the walk is not reached or passes
no slot, or if the newest command is meant and the walk is not reached. Between the size and the
mutex it does none if the walk is not reached or passes no slot. -/
def MayEvict (env : Env) (arg : AesdSeekto) (k : ℕ) : Prop :=
  match k with
  | 1 | 2 => min env.notCopied sizeofSeekto ≠ 0 ∨ env.lockOk = false
  | 3 => min env.notCopied sizeofSeekto ≠ 0 ∨
      arg.writeCmdOffset.toNat ≤ 1 ∧ (env.lockOk = false ∨ arg.writeCmd.toNat = 0) ∨
      arg.writeCmd.toNat = 9 ∧ env.lockOk = false
  | 4 => min env.notCopied sizeofSeekto ≠ 0 ∨ env.lockOk = false ∨ arg.writeCmd.toNat = 0
  | _ => True

instance (env : Env) (arg : AesdSeekto) : (k : ℕ) → Decidable (MayEvict env arg k)
  | 0 => inferInstanceAs (Decidable True)
  | 1 | 2 => inferInstanceAs (Decidable (_ ∨ _))
  | 3 => inferInstanceAs (Decidable (_ ∨ _ ∧ (_ ∨ _) ∨ _ ∧ _))
  | 4 => inferInstanceAs (Decidable (_ ∨ _ ∨ _))
  | _ + 5 => inferInstanceAs (Decidable True)

section Slots

/-! ### What a write does to the slots -/

variable {v v' : World} {l l' : Log} {i : ℕ}

/-- The command in a slot: the last line whose number leaves the slot as remainder. -/
theorem Log.slotSize_eq (l : Log) (i : ℕ) :
    l.slotSize i = (lines isNewline l.stream)[(lines isNewline l.stream).length - 10 +
      (i + 10 - ((lines isNewline l.stream).length - 10) % 10) % 10]?.elim 0 List.length := by
  rw [Log.slotSize, Log.age, Log.outOffs, Log.commands, List.rtake.eq_def, List.getElem?_drop]

/-- One more line goes to the slot behind the newest one. -/
theorem Log.slotSize_concat {c : List UInt8}
    (hlines : lines isNewline l'.stream = lines isNewline l.stream ++ [c]) (hi : i < 10) :
    l'.slotSize i =
      if i = (lines isNewline l.stream).length % 10 then c.length else l.slotSize i := by
  rw [l'.slotSize_eq, l.slotSize_eq, hlines, List.length_append, List.length_singleton]
  obtain ⟨n, hn⟩ : ∃ n, (lines isNewline l.stream).length = n := ⟨_, rfl⟩
  rw [hn]
  by_cases hlast : i = n % 10
  · rw [if_pos hlast, show n + 1 - 10 + (i + 10 - (n + 1 - 10) % 10) % 10 = n by omega,
      List.getElem?_append_right hn.le, hn, Nat.sub_self]
    rfl
  rw [if_neg hlast]
  by_cases hlt : n - 10 + (i + 10 - (n - 10) % 10) % 10 < n
  · rw [show n + 1 - 10 + (i + 10 - (n + 1 - 10) % 10) % 10 =
      n - 10 + (i + 10 - (n - 10) % 10) % 10 by omega, List.getElem?_append_left (hn ▸ hlt)]
  · rw [List.getElem?_eq_none (by rw [List.length_append, List.length_singleton]; omega),
      List.getElem?_eq_none (by omega)]

/-- The slots are used one after the other, and commands have bytes. -/
theorem Shows.slotSize_pos_iff (h : Shows v l) (hi : i < 10) :
    0 < l.slotSize i ↔ i < (lines isNewline l.stream).length := by
  obtain ⟨n, hn⟩ : ∃ n, (lines isNewline l.stream).length = n := ⟨_, rfl⟩
  have hage : l.age i = (i + 10 - (n - 10) % 10) % 10 := by rw [Log.age, Log.outOffs, hn]
  have hlen := l.length_commands
  rw [hn] at hlen ⊢
  rw [Log.slotSize]
  by_cases hlt : l.age i < l.commands.length
  · rw [List.getElem?_eq_getElem hlt]
    have hne := h.nonempty _ (List.getElem_mem hlt)
    exact ⟨fun _ => by omega, fun _ => List.length_pos_of_ne_nil hne⟩
  · rw [List.getElem?_eq_none (not_lt.mp hlt)]
    exact ⟨fun hno => absurd hno (lt_irrefl 0), fun _ => by omega⟩

/-- A write makes the log longer by one line, or leaves its lines as they are. -/
theorem Reached.writeStep (h : Reached v l) (hstep : WriteStep v v') :
    ∃ l', Reached v' l' ∧ l'.fPos = l.fPos ∧
      (lines isNewline l'.stream = lines isNewline l.stream ∨
        ∃ c, lines isNewline l'.stream = lines isNewline l.stream ++ [c]) := by
  obtain ⟨filp, buf, env, r, -, hi⟩ := hstep
  rcases h.returns hi with ⟨-, h'⟩ | ⟨-, l', happ, h'⟩
  · exact ⟨l, h', rfl, .inl rfl⟩
  have hwrite : l.write env buf = some (r, l') := Except.ok.inj happ
  rw [Log.write] at hwrite
  split at hwrite
  · cases hwrite
  cases hwrite
  refine ⟨_, h', rfl, ?_⟩
  cases hpos : buf.findIdx? isNewline with
  | none =>
      left
      rw [firstLine_of_findIdx?_none hpos, lines_append_of_forall (forall_of_findIdx?_none hpos)]
  | some pos =>
      right
      have hline : IsLine isNewline (firstLine isNewline buf) :=
        firstLine_of_findIdx?_some hpos ▸ isLine_take_of_findIdx?_some hpos
      exact ⟨_, lines_append_line hline⟩

/-- Calls have led to the state, and no position has changed since `w`. -/
def ComesFrom (w v : World) : Prop := (∃ l, Reached v l) ∧ v.fPos = w.fPos

/-- What a write does to the slots. -/
structure Appends (v v' : World) : Prop where
  /-- A slot that is used stays so. -/
  used : ∀ i, 0 < v.slotSize i → 0 < v'.slotSize i
  /-- As long as the oldest command stays, no slot shrinks. -/
  grows : v'.outOffs = v.outOffs → ∀ i, v.slotSize i ≤ v'.slotSize i
  /-- Only the newest command is in a new slot. -/
  newest : ∀ i < 10, v'.slotSize i = v.slotSize i ∨ (9 + v'.outOffs) % 10 = i ∨
    v.slotSize 9 = 0 ∧ i ≠ 9

/-- The step lemma of the writers. -/
theorem ComesFrom.writeStep {w : World} (h : ComesFrom w v) (hstep : WriteStep v v') :
    ComesFrom w v' ∧ Appends v v' := by
  obtain ⟨⟨l, h⟩, hpos⟩ := h
  obtain ⟨l', h', hpos', hlines⟩ := h.writeStep hstep
  refine ⟨⟨⟨l', h'⟩, ?_⟩, ?_⟩
  · rw [h'.shows.fPos, hpos', ← h.shows.fPos, hpos]
  have hmod : ∀ i, i % 10 < 10 := fun i => Nat.mod_lt _ (by omega)
  rcases hlines with hsame | ⟨c, hline⟩
  · -- the slots are the same
    have hsize : ∀ i, v'.slotSize i = v.slotSize i := fun i => by
      rw [h.shows.world_slotSize, h'.shows.world_slotSize, l.slotSize_eq, l'.slotSize_eq, hsame]
    exact ⟨fun i hi => (hsize i).symm ▸ hi, fun _ i => (hsize i).ge, fun i _ => .inl (hsize i)⟩
  obtain ⟨n, hn⟩ : ∃ n, (lines isNewline l.stream).length = n := ⟨_, rfl⟩
  have hn' : (lines isNewline l'.stream).length = n + 1 := by
    rw [hline, List.length_append, hn, List.length_singleton]
  have hout : v.outOffs = (n - 10) % 10 := by rw [h.shows.world_outOffs, Log.outOffs, hn]
  have hout' : v'.outOffs = (n + 1 - 10) % 10 := by rw [h'.shows.world_outOffs, Log.outOffs, hn']
  have hused : ∀ i < 10, (0 < v.slotSize i ↔ i < n) := fun i hi => by
    rw [h.shows.world_slotSize, Nat.mod_eq_of_lt hi, h.shows.slotSize_pos_iff hi, hn]
  have hkept : ∀ i, i % 10 ≠ n % 10 → v'.slotSize i = v.slotSize i := fun i hi => by
    rw [h.shows.world_slotSize, h'.shows.world_slotSize, Log.slotSize_concat hline (hmod i), hn,
      if_neg hi]
  refine ⟨fun i hi => ?_, fun hsame i => ?_, fun i hi => ?_⟩
  · rw [h'.shows.world_slotSize, h'.shows.slotSize_pos_iff (hmod i), hn']
    rw [h.shows.world_slotSize, h.shows.slotSize_pos_iff (hmod i), hn] at hi
    omega
  · by_cases hi : i % 10 = n % 10
    · -- the slot was not in use
      have hnot : ¬0 < v.slotSize (i % 10) := by
        rw [hused _ (hmod i)]
        omega
      rw [v.slotSize_mod] at hnot
      omega
    · exact (hkept i hi).ge
  · by_cases hlast : i = n % 10
    · right
      by_cases hnine : n < 9
      · exact .inr ⟨by have hzero := hused 9 (by omega); omega, by omega⟩
      · exact .inl (by omega)
    · exact .inl (hkept i (by omega))

/-- As long as a slot is unused the oldest command is in slot 0. -/
theorem ComesFrom.outOffs_or_used {w : World} (h : ComesFrom w v) :
    v.outOffs = 0 ∨ ∀ i, 0 < v.slotSize i := by
  obtain ⟨⟨l, h⟩, -⟩ := h
  by_cases hn : (lines isNewline l.stream).length ≤ 10
  · left
    rw [h.shows.world_outOffs, Log.outOffs]
    omega
  · right
    intro i
    rw [h.shows.world_slotSize, h.shows.slotSize_pos_iff (Nat.mod_lt _ (by omega))]
    omega

end Slots

section Atomic

/-! ### The evictions that do no harm -/

variable {env : Env} {w w' : World} {filp : File} {arg : AesdSeekto} {ws : List World} {a : ℤ}
  {P : ℕ → Prop} {v : ℕ → World}

/-- What writers keep from the `m`-th of the moments to the `n`-th one. -/
theorem Moments.kept {Q : ℕ → World → World → Prop} {J : World → Prop} (h : Moments Q w ws v)
    {m n : ℕ} (hmn : m ≤ n) (hn : n ≤ 5)
    (hJ : ∀ k, m ≤ k → k < n → ∀ u u', Q k u u' → J u → J u') (hm : J (v m)) : J (v n) := by
  induction n, hmn using Nat.le_induction with
  | base => exact hm
  | succ n hmn ih =>
      obtain ⟨us, -, hpass⟩ := h.passes n (by omega)
      refine hpass.invariant (fun u _ u' _ hQ => hJ n hmn (by omega) u u' hQ) ?_
      exact ih (by omega) fun k hk hkn => hJ k hk (by omega)

theorem Moments.mem {Q : ℕ → World → World → Prop} (h : Moments Q w ws v) {k : ℕ} (hk : k < 5) :
    v (k + 1) ∈ ws := by
  obtain ⟨us, hsub, hpass⟩ := h.passes k hk
  exact hsub hpass.mem_last

theorem Moments.comesFrom (h : Moments (EvictsOnly P) w ws v) (hw : ∃ l, Reached w l) {k : ℕ}
    (hk : k ≤ 5) : ComesFrom w (v k) :=
  h.kept (Nat.zero_le k) hk (fun _ _ _ _ _ hQ hJ => (hJ.writeStep hQ.1).1)
    (h.start.symm ▸ ⟨hw, rfl⟩)

/-- A state passed through at which the whole seek would end the same way. -/
theorem ComesFrom.atomicAtSome {u x : World} (hu : ComesFrom w u) (hmem : u ∈ ws)
    (hx : x.fPos = w.fPos) (hcmd : arg.writeCmd.toNat < 10)
    (hcopied : min env.notCopied sizeofSeekto = 0) {o : ℤ × Option ℤ}
    (ho : seekOutcome env arg u = o) (hpos : w'.fPos filp = o.2.getD (x.fPos filp)) :
    AtomicAtSome env filp arg ws o.1 w' := by
  obtain ⟨⟨l, hreached⟩, hfPos⟩ := hu
  obtain ⟨u', hi, hu'⟩ := hreached.shows.invoke_seekOutcome hcmd hcopied filp
  rw [ho] at hi hu'
  exact ⟨u, hmem, u', hi, by rw [hu', hpos, hfPos, hx]⟩

/-- A request that cannot be copied is refused at every moment. -/
theorem atomic_of_uncopied {Q : ℕ → World → World → Prop}
    (hcopied : min env.notCopied sizeofSeekto ≠ 0)
    (hrun : RunsBeside (kernelStep env) (fun hist => Q hist.length) (seekText filp arg) [] w ws a
      w') : AtomicAtSome env filp arg ws a w' := by
  unfold seekText aesdUnlockedIoctl at hrun
  simp only [loadDev, copySeektoFromUser, Prog.bind_eq, Prog.call_bind, Prog.pure_bind, if_true,
    Prog.pure_eq] at hrun
  obtain ⟨-, v₁, dev₁, _, ws₁, -, -, hstep₁, hws₁, hrun₁⟩ := hrun.of_call
  cases hstep₁
  obtain ⟨-, v₂, ⟨left, seekto⟩, _, ws₂, -, -, hstep₂, hws₂, hrun₂⟩ := hrun₁.of_call
  cases hstep₂
  simp only [ne_eq, hcopied, not_false_eq_true, if_true] at hrun₂
  obtain ⟨rfl, rfl, hmem⟩ := hrun₂.of_pure
  exact ⟨_, hws₁ (hws₂ hmem), _, execute_bind _ (execute_ioctl_uncopied filp rfl arg hcopied), rfl⟩

/-- While the seek goes from one of the moments to the other, no command is evicted. -/
theorem Moments.grows (h : Moments (EvictsOnly P) w ws v) (hw : ∃ l, Reached w l) {m n : ℕ}
    (hmn : m ≤ n) (hn : n ≤ 5) (hP : ∀ k, m ≤ k → k < n → ¬P k) :
    (v n).outOffs = (v m).outOffs ∧ ∀ i, (v m).slotSize i ≤ (v n).slotSize i := by
  have hkept : ComesFrom w (v n) ∧ (v n).outOffs = (v m).outOffs ∧
      ∀ i, (v m).slotSize i ≤ (v n).slotSize i := by
    refine h.kept (J := fun u => ComesFrom w u ∧ u.outOffs = (v m).outOffs ∧
      ∀ i, (v m).slotSize i ≤ u.slotSize i) hmn hn ?_
      ⟨h.comesFrom hw (hmn.trans hn), rfl, fun _ => le_rfl⟩
    rintro k hmk hkn u u' ⟨hstep, hev⟩ ⟨hu, hout, hle⟩
    obtain ⟨hu', happ⟩ := hu.writeStep hstep
    have hsame : u'.outOffs = u.outOffs := not_not.mp fun hne => hP k hmk hkn (hev hne)
    exact ⟨hu', hsame.trans hout, fun i => (hle i).trans (happ.grows hsame i)⟩
  exact hkept.2

/-- The check of an offset up to 1 turns a request down only in a slot that is not in use, and then
the oldest command is in slot 0 before and after. -/
theorem Moments.check_small (h : Moments (EvictsOnly P) w ws v) (hw : ∃ l, Reached w l)
    (hoff : arg.writeCmdOffset.toNat ≤ 1) :
    arg.writeCmdOffset.toNat > (v 4).slotSize (seekTarget arg (v 4)) ↔
      arg.writeCmdOffset.toNat > (v 4).slotSize (seekTarget arg (v 3)) := by
  have hused : (∀ i, 0 < (v 4).slotSize i) → (arg.writeCmdOffset.toNat >
      (v 4).slotSize (seekTarget arg (v 4)) ↔
        arg.writeCmdOffset.toNat > (v 4).slotSize (seekTarget arg (v 3))) := by
    intro hpos
    have hpos₄ := hpos (seekTarget arg (v 4))
    have hpos₃ := hpos (seekTarget arg (v 3))
    omega
  rcases (h.comesFrom hw (by omega : 3 ≤ 5)).outOffs_or_used with hout₃ | hpos
  · rcases (h.comesFrom hw (by omega : 4 ≤ 5)).outOffs_or_used with hout₄ | hpos
    · rw [seekTarget, seekTarget, hout₃, hout₄]
    · exact hused hpos
  · refine hused ?_
    have hkept := h.kept (J := fun u => ComesFrom w u ∧ ∀ i, 0 < u.slotSize i) (by omega : 3 ≤ 4)
      (by omega) (fun k _ _ u u' hQ hJ => ?_) ⟨h.comesFrom hw (by omega), hpos⟩
    · exact hkept.2
    · obtain ⟨hu', happ⟩ := hJ.1.writeStep hQ.1
      exact ⟨hu', fun i => happ.used i (hJ.2 i)⟩

/-- The slot of the newest command: what stands in it when the size is read was the newest command
at a moment after the second read of `out_offs`. -/
theorem Moments.check_newest (h : Moments (EvictsOnly P) w ws v) (hw : ∃ l, Reached w l)
    (hcmd : arg.writeCmd.toNat = 9) : ∃ u ∈ ws, ComesFrom w u ∧
      u.slotSize (seekTarget arg u) = (v 4).slotSize (seekTarget arg (v 3)) := by
  obtain ⟨us, hsub, hpass⟩ := h.passes 3 (by omega)
  have h₃ := h.comesFrom hw (by omega : 3 ≤ 5)
  have htarget : ∀ u : World, seekTarget arg u = (9 + u.outOffs) % 10 := fun u => by
    rw [seekTarget, hcmd]
  obtain ⟨i, hi⟩ : ∃ i, seekTarget arg (v 3) = i := ⟨_, rfl⟩
  have hlt : i < 10 := hi ▸ Nat.mod_lt _ (by omega)
  have hkept : ComesFrom w (v 4) ∧ ((v 4).slotSize 9 = 0 → i = 9) ∧
      ∃ u ∈ us, ComesFrom w u ∧ seekTarget arg u = i ∧ u.slotSize i = (v 4).slotSize i := by
    refine hpass.invariant (J := fun x => ComesFrom w x ∧ (x.slotSize 9 = 0 → i = 9) ∧
      ∃ u ∈ us, ComesFrom w u ∧ seekTarget arg u = i ∧ u.slotSize i = x.slotSize i) ?_
      ⟨h₃, fun hzero => ?_, v 3, hpass.mem_first, h₃, hi, rfl⟩
    · rintro x - x' hx' ⟨hstep, -⟩ ⟨hx, hnine, u, hu, hset, htar, hsize⟩
      obtain ⟨hset', happ⟩ := hx.writeStep hstep
      refine ⟨hset', fun hzero => hnine ?_, ?_⟩
      · have hused := happ.used 9
        omega
      rcases happ.newest i hlt with hsame | hnew | ⟨hzero, hne⟩
      · exact ⟨u, hu, hset, htar, hsize.trans hsame.symm⟩
      · -- the slot has just been written
        exact ⟨x', hx', hset', (htarget x').trans hnew, rfl⟩
      · exact absurd (hnine hzero) hne
    · rcases h₃.outOffs_or_used with hout | hpos
      · rw [← hi, htarget, hout]
      · exact absurd hzero (hpos 9).ne'
  obtain ⟨-, -, u, hu, hset, htar, hsize⟩ := hkept
  exact ⟨u, hsub hu, hset, by rw [htar, hi, hsize]⟩

/-- The call ends as it would where the check of the size ends the same way, if the walk is not
reached or passes no slot. -/
theorem seekOutcome_eq_of_check {u : World}
    (hcheck : arg.writeCmdOffset.toNat > u.slotSize (seekTarget arg u) ↔
      arg.writeCmdOffset.toNat > (v 4).slotSize (seekTarget arg (v 3)))
    (hwalk : env.lockOk = false ∨ arg.writeCmd.toNat = 0 ∧ (v 1).outOffs = (v 3).outOffs) :
    seekOutcome env arg u = momentsOutcome env arg v := by
  rw [seekOutcome, momentsOutcome, walkOutcome, walkOutcome, if_congr hcheck rfl rfl]
  refine ite_congr rfl (fun _ => rfl) fun _ => ite_congr rfl (fun _ => rfl) fun hlock => ?_
  obtain ⟨hzero, hout⟩ := hwalk.resolve_left hlock
  -- the walk starts where it ends
  have hnone : ∀ x : World, (seekTarget arg x + 10 - x.outOffs) % 10 = 0 := fun x => by
    have hlt := x.outOffs_lt
    rw [seekTarget, hzero]
    omega
  rw [hnone u, hout, hnone (v 3)]
  rfl

/-- The check ends the same way at the moment at which it is made. -/
theorem Moments.check_same (h : Moments (EvictsOnly P) w ws v) (hw : ∃ l, Reached w l)
    (hthree : ¬P 3 ∨ arg.writeCmdOffset.toNat ≤ 1) :
    arg.writeCmdOffset.toNat > (v 4).slotSize (seekTarget arg (v 4)) ↔
      arg.writeCmdOffset.toNat > (v 4).slotSize (seekTarget arg (v 3)) := by
  rcases hthree with hnot | hoff
  · have hout := (h.grows hw (by omega : 3 ≤ 4) (by omega) fun k hk hk' =>
      (by omega : k = 3) ▸ hnot).1
    rw [seekTarget, seekTarget, hout]
  · exact h.check_small hw hoff

/-- A moment that the call is atomic at, when the walk is not reached. -/
theorem Moments.exists_same_of_refused (h : Moments (EvictsOnly P) w ws v)
    (hw : ∃ l, Reached w l) (hlock : env.lockOk = false)
    (hthree : P 3 → arg.writeCmdOffset.toNat ≤ 1 ∨ arg.writeCmd.toNat = 9) :
    ∃ u ∈ ws, ComesFrom w u ∧ seekOutcome env arg u = momentsOutcome env arg v := by
  by_cases hsmall : ¬P 3 ∨ arg.writeCmdOffset.toNat ≤ 1
  · exact ⟨v 4, h.mem (by omega : 3 < 5), h.comesFrom hw (by omega),
      seekOutcome_eq_of_check (h.check_same hw hsmall) (.inl hlock)⟩
  · rw [not_or, not_not] at hsmall
    obtain ⟨u, hmem, hu, hsize⟩ :=
      h.check_newest hw ((hthree hsmall.1).resolve_left hsmall.2)
    exact ⟨u, hmem, hu, seekOutcome_eq_of_check (by rw [hsize]) (.inl hlock)⟩

/-- When the walk passes no slot. -/
theorem Moments.exists_same_of_zero (h : Moments (EvictsOnly P) w ws v) (hw : ∃ l, Reached w l)
    (hzero : arg.writeCmd.toNat = 0) (hone : ∀ k, 1 ≤ k → k < 3 → ¬P k)
    (hthree : P 3 → arg.writeCmdOffset.toNat ≤ 1) :
    ∃ u ∈ ws, ComesFrom w u ∧ seekOutcome env arg u = momentsOutcome env arg v := by
  have hout := (h.grows hw (by omega : 1 ≤ 3) (by omega) hone).1
  exact ⟨v 4, h.mem (by omega : 3 < 5), h.comesFrom hw (by omega), seekOutcome_eq_of_check
    (h.check_same hw (not_or_of_imp hthree)) (.inr ⟨hzero, hout.symm⟩)⟩

/-- When nothing is evicted on the way: the moment of the check if it turns the request down, and
otherwise the one at which the mutex is granted. -/
theorem Moments.exists_same_of_quiet (h : Moments (EvictsOnly P) w ws v) (hw : ∃ l, Reached w l)
    (hnone : ∀ k, 1 ≤ k → k < 5 → ¬P k) :
    ∃ u ∈ ws, ComesFrom w u ∧ seekOutcome env arg u = momentsOutcome env arg v := by
  have hsame : ∀ n, 1 ≤ n → n ≤ 5 → (v n).outOffs = (v 1).outOffs := fun n hn hn' =>
    (h.grows hw hn hn' fun k hk hk' => hnone k hk (by omega)).1
  have htarget : ∀ n, 1 ≤ n → n ≤ 5 → seekTarget arg (v n) = seekTarget arg (v 3) :=
    fun n hn hn' => by rw [seekTarget, seekTarget, hsame n hn hn', hsame 3 (by omega) (by omega)]
  by_cases hoff : arg.writeCmdOffset.toNat > (v 4).slotSize (seekTarget arg (v 3))
  · refine ⟨v 4, h.mem (by omega : 3 < 5), h.comesFrom hw (by omega), ?_⟩
    rw [seekOutcome, momentsOutcome, walkOutcome, walkOutcome, htarget 4 (by omega) (by omega),
      if_pos hoff, if_pos hoff]
  · -- what passes the check passes it later too
    have hle := (h.grows hw (by omega : 4 ≤ 5) (by omega) fun k hk hk' =>
      hnone k (by omega) hk').2 (seekTarget arg (v 3))
    refine ⟨v 5, h.mem (by omega : 4 < 5), h.comesFrom hw (le_refl 5), ?_⟩
    rw [seekOutcome, momentsOutcome, walkOutcome, walkOutcome, htarget 5 (by omega) (by omega),
      hsame 5 (by omega) (by omega), if_neg hoff, if_neg (by omega)]

/-- A moment that the call is atomic at, when no eviction does harm. -/
theorem Moments.exists_same (h : Moments (EvictsOnly P) w ws v) (hw : ∃ l, Reached w l)
    (hcopied : min env.notCopied sizeofSeekto = 0) (hP : ∀ k, P k → MayEvict env arg k) :
    ∃ u ∈ ws, ComesFrom w u ∧ seekOutcome env arg u = momentsOutcome env arg v := by
  have hthree : P 3 → arg.writeCmdOffset.toNat ≤ 1 ∧ (env.lockOk = false ∨ arg.writeCmd.toNat = 0) ∨
      arg.writeCmd.toNat = 9 ∧ env.lockOk = false :=
    fun hP₃ => (hP 3 hP₃).resolve_left (not_not.mpr hcopied)
  by_cases hlock : env.lockOk = false
  · exact h.exists_same_of_refused hw hlock fun hP₃ => (hthree hP₃).imp And.left And.left
  have hone : ∀ k, 1 ≤ k → k < 3 → ¬P k := by
    intro k hk hk' hPk
    have hmay : min env.notCopied sizeofSeekto ≠ 0 ∨ env.lockOk = false := by
      obtain rfl | rfl : k = 1 ∨ k = 2 := by omega
      · exact hP 1 hPk
      · exact hP 2 hPk
    exact hmay.elim (fun hno => hno hcopied) hlock
  by_cases hzero : arg.writeCmd.toNat = 0
  · refine h.exists_same_of_zero hw hzero hone fun hP₃ => ?_
    exact ((hthree hP₃).resolve_right fun hno => hlock hno.2).1
  refine h.exists_same_of_quiet hw fun k hk hk' hPk => ?_
  rcases Nat.lt_or_ge k 3 with hlt | hge
  · exact hone k hk hlt hPk
  obtain rfl | rfl : k = 3 ∨ k = 4 := by omega
  · rcases hthree hPk with ⟨-, hno | hno⟩ | ⟨-, hno⟩
    · exact hlock hno
    · exact hzero hno
    · exact hlock hno
  · rcases hP 4 hPk with hno | hno | hno
    · exact hno hcopied
    · exact hlock hno
    · exact hzero hno

/-- **A seek beside writers whose evictions do no harm is atomic.** -/
theorem Reached.seek_atomic {l : Log} (h : Reached w l) (hcmd : arg.writeCmd.toNat < 10)
    (hP : ∀ k, P k → MayEvict env arg k)
    (hrun : RunsBeside (kernelStep env) (fun hist => EvictsOnly P hist.length) (seekText filp arg)
      [] w ws a w') : AtomicAtSome env filp arg ws a w' := by
  by_cases hcopied : min env.notCopied sizeofSeekto = 0
  swap
  · exact atomic_of_uncopied hcopied hrun
  have hfree : ∀ k u u', EvictsOnly P k u u' → u.dev.lock = none := by
    rintro k u u' ⟨⟨_, _, _, _, hlock, -⟩, -⟩
    exact hlock
  obtain ⟨v, hv, rfl, hpos⟩ := moments_of_runsBeside hfree hcmd hcopied hrun
  obtain ⟨u, hmem, hu, hsame⟩ := hv.exists_same ⟨l, h⟩ hcopied hP
  exact hu.atomicAtSome hmem (hv.comesFrom ⟨l, h⟩ (le_refl 5)).2 hcmd hcopied hsame hpos

end Atomic

end Aesd.CharDriver

import Aesd.CharDriver.Sections
import Aesd.Effects.Outline

/-! # How tasks share the device

Any number of tasks are in the driver at once, each in the middle of a call, and every single
kernel service is a step of its own. The rules they keep to: while nobody holds the mutex the state
stands for a log; whoever holds it has the device and its blocks for itself, but for `out_offs` and
the sizes in the ring, which others may read at any moment and which are always those of the log; and
a bounce buffer belongs to the task that has allocated it. **`Grasp t st`** is what the task `t`
knows while it holds the mutex: the `Stage` `st` records the values of the device and what its blocks
hold. Each service then is a symbolic step from one stage to the next, which no other task
disturbs. -/

namespace Aesd.CharDriver

open Memory Effects Streams

/-- What the proof adds to the state. -/
structure Ghost where
  /-- The log the state stands for, or will stand for when the mutex is given back. -/
  log : Log
  /-- The task whose bounce buffer the block is. -/
  bounce : ℕ → Option ℕ

/-- The block becomes, or ceases to be, a bounce buffer. -/
def Ghost.assign (g : Ghost) (b : ℕ) (owner : Option ℕ) : Ghost :=
  { g with bounce := Function.update g.bounce b owner }

@[simp] theorem Ghost.assign_log (g : Ghost) (b : ℕ) (owner : Option ℕ) :
    (g.assign b owner).log = g.log := rfl

@[simp] theorem Ghost.assign_self (g : Ghost) (b : ℕ) (owner : Option ℕ) :
    (g.assign b owner).bounce b = owner := Function.update_self _ _ _

theorem Ghost.assign_of_ne (g : Ghost) {b b' : ℕ} (owner : Option ℕ) (h : b' ≠ b) :
    (g.assign b owner).bounce b' = g.bounce b' := Function.update_of_ne h _ _

/-- The blocks that the device leads to. -/
def AesdDev.pointers (d : AesdDev) : List Ptr :=
  d.workingEntry.buffptr :: d.circBuf.retained.map AesdBufferEntry.buffptr

/-- No block of the device is a bounce buffer. -/
def Ghost.Spares (g : Ghost) (d : AesdDev) : Prop := ∀ b, .block b ∈ d.pointers → g.bounce b = none

/-- What can be read off the ring without the mutex is what the log says. -/
structure Tells (d : AesdDev) (l : Log) : Prop where
  /-- The oldest slot. -/
  outOffs : d.circBuf.outOffs = l.outOffs
  /-- The sizes of the slots. -/
  size : ∀ i < 10, (d.circBuf.slot i).size = l.slotSize i

/-- What holds between any two steps. -/
structure Shared (w : World) (g : Ghost) : Prop where
  /-- While nobody holds the mutex the state stands for the log. -/
  stands : w.dev.lock = none → Stands w g.log
  /-- The ring tells about the log at any moment. -/
  tells : Tells w.dev g.log
  /-- Then the blocks of the device are its own. -/
  spares : w.dev.lock = none → g.Spares w.dev
  /-- Bounce buffers are live. -/
  live : ∀ b, g.bounce b ≠ none → (w.heap.cells b).isSome

/-- What a step of the task `t` leaves alone. -/
structure Yields (t : ℕ) (w : World) (g : Ghost) (w' : World) (g' : Ghost) : Prop where
  /-- Nobody else gets or loses the mutex. -/
  lock : ∀ u, u ≠ t → (w'.dev.lock = some u ↔ w.dev.lock = some u)
  /-- The device belongs to the holder of the mutex. -/
  device : ∀ u, u ≠ t → w.dev.lock = some u →
    w'.dev = w.dev ∧ w'.fPos = w.fPos ∧ g'.log = g.log
  /-- So do its blocks, and a bounce buffer belongs to its task. -/
  blocks : ∀ b, (w.heap.cells b).isSome → g.bounce b ≠ some t →
    (g.bounce b = none → w.dev.lock ≠ some t) →
    w'.heap.cells b = w.heap.cells b ∧ g'.bounce b = g.bounce b

/-- What is assumed of a step: no call releases a mutex that another one holds, and no `krealloc` is
refused while the working entry holds bytes. -/
def Permitted (t : ℕ) (e : Event kernel) (w : World) : Prop :=
  match e with
  | ⟨.mutexUnlock, _⟩ => w.dev.lock = none ∨ w.dev.lock = some t
  | ⟨.krealloc _ _, q⟩ => q = .null → w.dev.workingEntry.size = 0
  | _ => True

/-- The service accesses memory outside every live block, or waits for the mutex that the task holds
itself. -/
def Faults (t : ℕ) (o : KernelOp) (w : World) : Prop :=
  ∃ env : Env, env.task = t ∧ ∃ s, kernelStep env o w = .error s ∧ (s = .hang → w.dev.lock = some t)

/-- The rules under which the calls share the device. A service that fails can be seen from outside,
and so can a section that fails for want of one. -/
def sharing : Protocol kernel sections World Log Ghost ℤ where
  sem t o w r w' := ∃ env : Env, env.task = t ∧ kernelStep env o w = .ok (r, w')
  faults := Faults
  permits := Permitted
  visible := serviceError
  spec _ := Log.Answers
  outcome := sectionError
  view := Ghost.log
  Inv := Shared
  Guar := Yields

/-- A task outside of the driver: it does not hold the mutex. -/
def Outside (t : ℕ) (w : World) (_g : Ghost) : Prop := w.dev.lock ≠ some t

/-- `kern` is a bounce buffer of the task that holds `data`. -/
def Bounce (t : ℕ) (kern : Ptr) (data : List UInt8) (w : World) (g : Ghost) : Prop :=
  match kern with
  | .null => True
  | .zeroSize => data = []
  | .block b => w.heap.cells b = some data ∧ g.bounce b = some t

/-- The values the holder of the mutex works with. -/
structure Stage where
  /-- The log. -/
  log : Log
  /-- The device. -/
  dev : AesdDev
  /-- The positions. -/
  fPos : File → ℤ
  /-- A device whose blocks hold commands: the one as it will be, or as it was. -/
  kept : AesdDev
  /-- How many commands this device has been handed. -/
  count : ℕ
  /-- The commands it retains. -/
  cmds : List (List UInt8)
  /-- What its working entry holds. -/
  rest : List UInt8
  /-- The bounce buffer. -/
  kern : Ptr
  /-- What it holds. -/
  data : List UInt8

/-- The stage at which a call has just taken the mutex. -/
def Stage.start (l : Log) (d : AesdDev) (kern : Ptr) (data : List UInt8) : Stage where
  log := l
  dev := d
  fPos := l.fPos
  kept := d
  count := (lines isNewline l.stream).length
  cmds := l.commands
  rest := l.pending
  kern := kern
  data := data

/-- The task `t` is inside a section and does not hold the mutex. -/
structure Waits {ρ : Type} (t : ℕ) (kern : Ptr) (data : List UInt8) (a : Option ρ) (w : World)
    (g : Ghost) (c : Option ρ) : Prop where
  /-- The answer committed to, if there is one. -/
  answer : c = a
  /-- The mutex is not held. -/
  lock : w.dev.lock ≠ some t
  /-- The bounce buffer. -/
  bounce : Bounce t kern data w g

/-- The task `t` is inside a section and holds the mutex. -/
structure Grasp {ρ : Type} (t : ℕ) (st : Stage) (a : Option ρ) (w : World) (g : Ghost)
    (c : Option ρ) : Prop where
  /-- The answer committed to, if there is one. -/
  answer : c = a
  /-- The mutex is held. -/
  lock : st.dev.lock = some t
  /-- The device. -/
  dev : w.dev = st.dev
  /-- The log. -/
  log : g.log = st.log
  /-- The positions. -/
  fPos : w.fPos = st.fPos
  /-- What the blocks of the device hold. -/
  carries : Carries { w with dev := st.kept } st.count st.cmds st.rest
  /-- They are not bounce buffers. -/
  spares : g.Spares st.kept
  /-- The bounce buffer. -/
  bounce : Bounce t st.kern st.data w g

section Stability

variable {w w' : World} {g g' : Ghost} {t u : ℕ} {n : ℕ} {cmds : List (List UInt8)}
  {r data : List UInt8} {kern : Ptr} {st : Stage} {ρ : Type} {a : Option ρ} {l l' : Log}

/-- The blocks that a device leads to are live. -/
theorem Carries.live (hc : Carries w n cmds r) {b : ℕ} (hb : .block b ∈ w.dev.pointers) :
    (w.heap.cells b).isSome := by
  rcases List.mem_cons.mp hb with hwork | hret
  · have hbacks := hc.working.backs
    rw [← hwork] at hbacks
    simp [hbacks.1]
  · obtain ⟨c, hc', hlive⟩ := hc.block_of_mem hret
    cases hc'
    exact hlive

/-- Only the blocks that the device leads to matter. -/
theorem Carries.congr (hc : Carries w n cmds r) {h' : Heap}
    (hcells : ∀ b, .block b ∈ w.dev.pointers → h'.cells b = w.heap.cells b) :
    Carries { w with heap := h' } n cmds r := by
  have hbacks : ∀ p ∈ w.dev.pointers, ∀ bytes, w.heap.Backs p bytes → h'.Backs p bytes := by
    intro p hp bytes hb
    cases p with
    | null => exact hb
    | zeroSize => exact hb
    | block b => exact ⟨(hcells b hp).trans hb.1, hb.2⟩
  refine ⟨hc.ring, ?_, hc.nonempty, ⟨hc.working.size, hc.working.bounded, ?_⟩, hc.apart⟩
  · have hmem : ∀ e ∈ w.dev.circBuf.retained, e.buffptr ∈ w.dev.pointers := fun e he =>
      List.mem_cons_of_mem _ (List.mem_map_of_mem he)
    refine ((List.forall₂_and_left _ _).mpr ⟨hmem, hc.commands⟩).imp fun e bytes he => ?_
    exact ⟨he.2.size, he.2.bounded, hbacks _ he.1 _ he.2.backs⟩
  · exact hbacks _ List.mem_cons_self _ hc.working.backs

/-- Nothing has been done. -/
theorem Yields.refl (t : ℕ) (w : World) (g : Ghost) : Yields t w g w g where
  lock _ _ := Iff.rfl
  device _ _ _ := ⟨rfl, rfl, rfl⟩
  blocks _ _ _ _ := ⟨rfl, rfl⟩

/-- A bounce buffer is left alone by the other tasks. -/
theorem Bounce.other (h : Bounce t kern data w g) (hu : u ≠ t) (hg : Yields u w g w' g') :
    Bounce t kern data w' g' := by
  cases kern with
  | null => trivial
  | zeroSize => exact h
  | block b =>
      obtain ⟨hcell, hb⟩ := h
      have hne : g.bounce b ≠ some u := by
        rw [hb]
        exact fun e => hu (Option.some.inj e).symm
      obtain ⟨hcell', hb'⟩ := hg.blocks b (by simp [hcell]) hne (by simp [hb])
      exact ⟨hcell'.trans hcell, hb'.trans hb⟩

/-- So is it by what changes no bounce buffer at all. -/
theorem Bounce.congr (h : Bounce t kern data w g)
    (hcells : ∀ b, g.bounce b ≠ none → w'.heap.cells b = w.heap.cells b) :
    Bounce t kern data w' g := by
  cases kern with
  | null => trivial
  | zeroSize => exact h
  | block b => exact ⟨(hcells b (by simp [h.2])).trans h.1, h.2⟩

/-- The bytes of a bounce buffer can be read. -/
theorem Bounce.read (h : Bounce t kern data w g) (hnull : kern ≠ .null) :
    w.heap.read kern = some data := by
  cases kern with
  | null => exact absurd rfl hnull
  | zeroSize => exact congrArg some (Eq.symm h)
  | block b => exact h.1

theorem outside_other (h : Outside t w g) (hu : u ≠ t) (hg : Yields u w g w' g') :
    Outside t w' g' := fun hlock => h ((hg.lock t hu.symm).mp hlock)

/-- A state that stands for a log tells about it. -/
theorem Stands.tells (h : Stands w l) : Tells w.dev l where
  outOffs := h.shows.outOffs
  size _ hi := h.shows.size_slot hi

/-- Only the ring tells. -/
theorem Tells.congr {d d' : AesdDev} (h : Tells d l) (hring : d'.circBuf = d.circBuf) :
    Tells d' l := ⟨hring ▸ h.outOffs, hring ▸ h.size⟩

theorem stable_waits : sharing.Stable t (Waits t kern data a) := by
  intro u hu w g w' g' c _ _ hg h
  exact ⟨h.answer, outside_other (g := g) h.lock hu hg, h.bounce.other hu hg⟩

/-- **What the holder of the mutex knows nobody else can change.** -/
theorem stable_grasp : sharing.Stable t (Grasp t st a) := by
  intro u hu w g w' g' c _ _ hg h
  have hlock : w.dev.lock = some t := h.dev ▸ h.lock
  obtain ⟨hdev, hfPos, hlog⟩ := hg.device t hu.symm hlock
  have hblocks : ∀ b, .block b ∈ st.kept.pointers →
      w'.heap.cells b = w.heap.cells b ∧ g'.bounce b = g.bounce b := by
    intro b hb
    have hnone := h.spares b hb
    refine hg.blocks b (h.carries.live (w := { w with dev := st.kept }) hb) (by simp [hnone])
      fun _ hlock' => hu ?_
    exact Option.some.inj (hlock'.symm.trans hlock)
  refine ⟨h.answer, h.lock, hdev.trans h.dev, hlog.trans h.log, hfPos.trans h.fPos, ?_,
    fun b hb => ?_, h.bounce.other hu hg⟩
  · have hc := h.carries.congr fun b hb => (hblocks b hb).1
    exact ⟨hc.ring, hc.commands, hc.nonempty, hc.working, hc.apart⟩
  · rw [(hblocks b hb).2]
    exact h.spares b hb

end Stability

/-! ### The services as steps from stage to stage -/

section Steps

variable {t : ℕ} {c : sections.Op} {st : Stage} {w : World} {g : Ghost} {kern : Ptr}
  {data : List UInt8} {a : Option (sections.Res c)} {α : Type} {Q : α → sharing.Assertion c}

/-- The task has committed to its reply and has given the mutex back. -/
def Committed {ρ : Type} (t : ℕ) (r : ρ) (w : World) (g : Ghost) (c : Option ρ) : Prop :=
  c = some r ∧ Outside t w g

theorem stable_committed {ρ : Type} {r : ρ} : sharing.Stable t (Committed t r) := by
  intro u hu w g w' g' c _ _ hg ⟨hc, hout⟩
  exact ⟨hc, outside_other hout hu hg⟩

/-- A section that has only its reply to return. -/
theorem Waits.committed {ρ : Type} {r : ρ} {c : Option ρ} (h : Waits t kern data (some r) w g c) :
    Committed t r w g c := ⟨h.answer, h.lock⟩

/-- What the answer of a service means for the section `c`: nothing, or the section commits to a reply
that leaves the log alone. -/
def Turns (c : sections.Op) (l : Log) (e : Event kernel) (a a' : Option (sections.Res c)) : Prop :=
  (a' = a ∧ serviceError e = none) ∨
    ∃ b, a = none ∧ a' = some b ∧ Log.Answers c l b l ∧ serviceError e = sectionError ⟨c, b⟩

/-- It is no other step of the log. -/
theorem Turns.commits {l : Log} {e : Event kernel} {a' : Option (sections.Res c)}
    (h : Turns c l e a a') (hlog : g.log = l) : sharing.Commits t c e g a g a' := by
  subst hlog
  rcases h with ⟨ha, hsilent⟩ | ⟨b, ha, ha', hspec, herror⟩
  · exact .inl ⟨ha, rfl, hsilent⟩
  · exact .inr ⟨b, ha, ha', hspec, herror⟩

/-- What the holder of the mutex does to the device and to blocks other than bounce buffers. -/
theorem holder_step {w' : World} (hI : Shared w g) (hlock : w.dev.lock = some t)
    (hlock' : w'.dev.lock = some t) (hring : w'.dev.circBuf = w.dev.circBuf)
    (hcells : ∀ b, g.bounce b ≠ none → w'.heap.cells b = w.heap.cells b) :
    Shared w' g ∧ Yields t w g w' g := by
  refine ⟨⟨by simp [hlock'], hI.tells.congr hring, by simp [hlock'], fun b hb => ?_⟩,
    ⟨fun u _ => ?_, fun u hu h => ?_, fun b _ _ hfree => ⟨hcells b fun hb => hfree hb hlock, rfl⟩⟩⟩
  · rw [hcells b hb]
    exact hI.live b hb
  · rw [hlock, hlock']
  · exact absurd (Option.some.inj (h.symm.trans hlock)) hu

/-- **A service that the holder of the mutex asks for.** -/
theorem outline_hold {o : KernelOp} {k : KernelRes o → Driver α}
    (Φ : KernelRes o → Stage → Option (sections.Res c) → Prop)
    (hsafe : ∀ w g env s, env.task = t → Shared w g → Grasp t st a w g a →
      kernelStep env o w ≠ .error s)
    (hstep : ∀ w g env r w', env.task = t → Shared w g → Grasp t st a w g a →
      kernelStep env o w = .ok (r, w') → Permitted t ⟨o, r⟩ w →
      (∀ b, g.bounce b ≠ none → w'.heap.cells b = w.heap.cells b) ∧
        w'.dev.circBuf = w.dev.circBuf ∧
        ∃ st' a', Φ r st' a' ∧ Turns c st.log ⟨o, r⟩ a a' ∧ Grasp t st' a' w' g a')
    (hk : ∀ r st' a', Φ r st' a' → sharing.Outline t c (k r) (Grasp t st' a') Q) :
    sharing.Outline t c (Prog.call (E := kernel) o k) (Grasp t st a) Q := by
  constructor
  · rintro w g c hI h ⟨env, henv, s, hbad, -⟩
    obtain rfl := h.answer
    exact hsafe w g env s henv hI h hbad
  intro r
  refine ⟨fun w g c => ∃ q : {q : Stage × _ // Φ r q.1 q.2}, Grasp t q.val.1 q.val.2 w g c, ?_, ?_,
    Protocol.Outline.fix (fun _ _ _ _ h => h) fun q => hk r q.val.1 q.val.2 q.property⟩
  · rintro u hu w g w' g' c hI hI' hg ⟨q, h⟩
    exact ⟨q, stable_grasp u hu w g w' g' c hI hI' hg h⟩
  · rintro w g c w' hI h ⟨env, henv, hok⟩ hperm
    obtain rfl := h.answer
    obtain ⟨hcells, hring, st', a', hst', hturns, h'⟩ := hstep w g env r w' henv hI h hok hperm
    obtain ⟨hI', hg⟩ := holder_step hI (h.dev ▸ h.lock) (h'.dev ▸ h'.lock) hring hcells
    exact ⟨g, a', hturns.commits h.log, hI', hg, ⟨(st', a'), hst'⟩, h'⟩

theorem outline_loadDev {d : AesdDev} {k : AesdDev → Driver α} (hd : st.dev = d)
    (hk : sharing.Outline t c (k d) (Grasp t st a) Q) :
    sharing.Outline t c (Prog.call (E := kernel) .loadDev k) (Grasp t st a) Q := by
  refine outline_hold (fun d' st' a' => d' = d ∧ st' = st ∧ a' = a)
    (fun w g env s _ _ _ hbad => by cases hbad) ?_ ?_
  · rintro w g env d' w' - - h hok -
    cases hok
    exact ⟨fun _ _ => rfl, rfl, st, a, ⟨h.dev.trans hd, rfl, rfl⟩, .inl ⟨rfl, rfl⟩, h⟩
  · rintro d' st' a' ⟨rfl, rfl, rfl⟩
    exact hk

theorem outline_loadFPos {filp : File} {pos : ℤ} {k : ℤ → Driver α} (hpos : st.fPos filp = pos)
    (hk : sharing.Outline t c (k pos) (Grasp t st a) Q) :
    sharing.Outline t c (Prog.call (E := kernel) (.loadFPos filp) k) (Grasp t st a) Q := by
  refine outline_hold (fun pos' st' a' => pos' = pos ∧ st' = st ∧ a' = a)
    (fun w g env s _ _ _ hbad => by cases hbad) ?_ ?_
  · rintro w g env pos' w' - - h hok -
    cases hok
    exact ⟨fun _ _ => rfl, rfl, st, a, ⟨(congrFun h.fPos filp).trans hpos, rfl, rfl⟩,
      .inl ⟨rfl, rfl⟩, h⟩
  · rintro pos' st' a' ⟨rfl, rfl, rfl⟩
    exact hk

theorem outline_storeFPos {filp : File} {pos : ℤ} {k : Unit → Driver α}
    (hk : sharing.Outline t c (k ())
      (Grasp t { st with fPos := Function.update st.fPos filp pos } a) Q) :
    sharing.Outline t c (Prog.call (E := kernel) (.storeFPos filp pos) k) (Grasp t st a) Q := by
  refine outline_hold
    (fun _ st' a' => st' = { st with fPos := Function.update st.fPos filp pos } ∧ a' = a)
    (fun w g env s _ _ _ hbad => by cases hbad) ?_ ?_
  · rintro w g env r w' - - h hok -
    cases hok
    have hcarries := h.carries
    exact ⟨fun _ _ => rfl, rfl, _, a, ⟨rfl, rfl⟩, .inl ⟨rfl, rfl⟩, rfl, h.lock, h.dev, h.log,
      by rw [← h.fPos],
      ⟨hcarries.ring, hcarries.commands, hcarries.nonempty, hcarries.working, hcarries.apart⟩,
      h.spares, h.bounce⟩
  · rintro r st' a' ⟨rfl, rfl⟩
    exact hk

theorem outline_modifyDev {f : AesdDev → AesdDev} {d : AesdDev} {k : Unit → Driver α}
    (hd : f st.dev = d) (hlock : d.lock = st.dev.lock) (hring : d.circBuf = st.dev.circBuf)
    (hk : sharing.Outline t c (k ()) (Grasp t { st with dev := d } a) Q) :
    sharing.Outline t c (Prog.call (E := kernel) (.modifyDev f) k) (Grasp t st a) Q := by
  refine outline_hold (fun _ st' a' => st' = { st with dev := d } ∧ a' = a)
    (fun w g env s _ _ _ hbad => by cases hbad) ?_ ?_
  · rintro w g env r w' - - h hok -
    cases hok
    have hdev : f w.dev = d := (congrArg f h.dev).trans hd
    refine ⟨fun _ _ => rfl, ?_, _, a, ⟨rfl, rfl⟩, .inl ⟨rfl, rfl⟩, rfl, hlock.trans h.lock, hdev,
      h.log, h.fPos, h.carries, h.spares, h.bounce⟩
    rw [hdev, hring, h.dev]
  · rintro r st' a' ⟨rfl, rfl⟩
    exact hk

/-- The mutex is given back. -/
theorem unlock_step (l' : Log) (hI : Shared w g) (h : Grasp t st a w g a) (hkept : st.kept = st.dev)
    (hcount : st.count = (lines isNewline l'.stream).length) (hcmds : st.cmds = l'.commands)
    (hrest : st.rest = l'.pending) (hfPos : st.fPos = l'.fPos) :
    Shared { w with dev := { w.dev with lock := none } } ⟨l', g.bounce⟩ ∧
      Yields t w g { w with dev := { w.dev with lock := none } } ⟨l', g.bounce⟩ := by
  have hlock : w.dev.lock = some t := h.dev ▸ h.lock
  have hcarries := h.carries
  rw [hkept, ← h.dev, hcount, hcmds, hrest] at hcarries
  have hspares := h.spares
  rw [hkept, ← h.dev] at hspares
  have hstands : Stands { w with dev := { w.dev with lock := none } } l' :=
    ⟨⟨⟨hcarries.ring, hcarries.commands, hcarries.nonempty, hcarries.working, hcarries.apart⟩, rfl⟩,
      h.fPos.trans hfPos⟩
  refine ⟨⟨fun _ => hstands, hstands.tells, fun _ => hspares, hI.live⟩, fun u hu => ?_,
    fun u hu hu' => ?_, fun b _ _ _ => ⟨rfl, rfl⟩⟩
  · simp [hlock, Ne.symm hu]
  · exact absurd (Option.some.inj (hu'.symm.trans hlock)) hu

/-- **Giving the mutex back** is the moment at which a section happens that has not happened yet. -/
theorem outline_unlock {k : Unit → Driver α} (l' : Log) {r : sections.Res c}
    (hkept : st.kept = st.dev) (hcount : st.count = (lines isNewline l'.stream).length)
    (hcmds : st.cmds = l'.commands) (hrest : st.rest = l'.pending) (hfPos : st.fPos = l'.fPos)
    (hspec : Log.Answers c st.log r l') (herror : sectionError ⟨c, r⟩ = none)
    (hk : sharing.Outline t c (k ()) (Committed t r) Q) :
    sharing.Outline t c (Prog.call (E := kernel) .mutexUnlock k) (Grasp t st none) Q := by
  refine ⟨?_, fun _ => ⟨_, stable_committed, ?_, hk⟩⟩
  · rintro w g c - - ⟨env, -, s, hbad, -⟩
    cases hbad
  rintro w g c w' hI h ⟨env, -, hok⟩ -
  cases hok
  obtain rfl := h.answer
  obtain ⟨hI', hg⟩ := unlock_step l' hI h hkept hcount hcmds hrest hfPos
  refine ⟨⟨l', g.bounce⟩, some r, .inr ⟨r, rfl, rfl, ?_, herror.symm⟩, hI', hg, rfl, ?_⟩
  · show Log.Answers c g.log r l'
    rw [h.log]
    exact hspec
  · simp [Outside]

/-- A section that has happened gives the mutex back. -/
theorem outline_release {k : Unit → Driver α} {r : sections.Res c} (hkept : st.kept = st.dev)
    (hcount : st.count = (lines isNewline st.log.stream).length) (hcmds : st.cmds = st.log.commands)
    (hrest : st.rest = st.log.pending) (hfPos : st.fPos = st.log.fPos)
    (hk : sharing.Outline t c (k ()) (Committed t r) Q) :
    sharing.Outline t c (Prog.call (E := kernel) .mutexUnlock k) (Grasp t st (some r)) Q := by
  refine ⟨?_, fun _ => ⟨_, stable_committed, ?_, hk⟩⟩
  · rintro w g c - - ⟨env, -, s, hbad, -⟩
    cases hbad
  rintro w g c w' hI h ⟨env, -, hok⟩ -
  cases hok
  obtain rfl := h.answer
  obtain ⟨hI', hg⟩ := unlock_step st.log hI h hkept hcount hcmds hrest hfPos
  rw [← h.log] at hI' hg
  exact ⟨g, some r, .inl ⟨rfl, rfl, rfl⟩, hI', hg, rfl, by simp [Outside]⟩

/-- A service that changes nothing, asked for without the mutex: the section may commit to its
answer. -/
theorem outline_peek {o : KernelOp} {k : KernelRes o → Driver α}
    (φ : KernelRes o → Option (sections.Res c) → Prop)
    (hsafe : ∀ w g env s, Waits t kern data a w g a → kernelStep env o w ≠ .error s)
    (hsame : ∀ w g env r w', Shared w g → Waits t kern data a w g a →
      kernelStep env o w = .ok (r, w') → w' = w ∧ ∃ a', φ r a' ∧ Turns c g.log ⟨o, r⟩ a a')
    (hk : ∀ r a', φ r a' → sharing.Outline t c (k r) (Waits t kern data a') Q) :
    sharing.Outline t c (Prog.call (E := kernel) o k) (Waits t kern data a) Q := by
  constructor
  · rintro w g c - h ⟨env, -, s, hbad, -⟩
    obtain rfl := h.answer
    exact hsafe w g env s h hbad
  refine fun r => ⟨fun w g c => ∃ a' : {a' // φ r a'}, Waits t kern data a'.val w g c, ?_, ?_,
    Protocol.Outline.fix (fun _ _ _ _ h => h) fun a' => hk r a'.val a'.property⟩
  · rintro u hu w g w' g' c hI hI' hg ⟨a', h⟩
    exact ⟨a', stable_waits u hu w g w' g' c hI hI' hg h⟩
  · rintro w g c w' hI h ⟨env, -, hok⟩ -
    obtain rfl := h.answer
    obtain ⟨rfl, a', hφ, hturns⟩ := hsame w g env r w' hI h hok
    exact ⟨g, a', hturns.commits rfl, hI, Yields.refl t _ g, ⟨a', hφ⟩, rfl, h.lock, h.bounce⟩

/-- **Taking the mutex**, or being interrupted while waiting for it. -/
theorem outline_lock {k : ℤ → Driver α} (r : sections.Res c) (hspec : ∀ l, Log.Answers c l r l)
    (herror : sectionError ⟨c, r⟩ = some (-erestartsys))
    (hheld : ∀ l d, d.lock = some t →
      sharing.Outline t c (k 0) (Grasp t (.start l d kern data) none) Q)
    (hfail : ∀ err, err ≠ 0 → sharing.Outline t c (k err) (Waits t kern data (some r)) Q) :
    sharing.Outline t c (Prog.call (E := kernel) .mutexLockInterruptible k)
      (Waits t kern data none) Q := by
  constructor
  · rintro w g c - h ⟨env, -, s, hbad, hown⟩
    simp only [kernelStep] at hbad
    split_ifs at hbad
    cases hbad
    exact h.lock (hown rfl)
  intro err
  by_cases herr : err = (0 : ℤ)
  · subst herr
    refine ⟨fun w g c => ∃ q : {q : Log × AesdDev // q.2.lock = some t},
      Grasp t (.start q.val.1 q.val.2 kern data) none w g c, ?_, ?_,
      Protocol.Outline.fix (fun _ _ _ _ h => h) fun q => hheld _ _ q.property⟩
    · rintro u hu w g w' g' c hI hI' hg ⟨q, h⟩
      exact ⟨q, stable_grasp u hu w g w' g' c hI hI' hg h⟩
    · rintro w g c w' hI h ⟨env, rfl, hok⟩ -
      obtain rfl := h.answer
      simp only [kernelStep] at hok
      split_ifs at hok with hlockOk hlocked
      · exact absurd (congrArg Prod.fst (Except.ok.inj hok)) (show eintr ≠ 0 by decide)
      cases hok
      have hfree : w.dev.lock = none := by simpa using hlocked
      have hstands := hI.stands hfree
      have hc := hstands.represents.toCarries
      refine ⟨g, none, .inl ⟨rfl, rfl, rfl⟩, ⟨by simp, hI.tells.congr rfl, by simp, hI.live⟩,
        ⟨fun u hu => by simp [hfree, Ne.symm hu], fun u _ hu => by simp [hfree] at hu,
          fun b _ _ _ => ⟨rfl, rfl⟩⟩, ⟨⟨g.log, { w.dev with lock := some env.task }⟩, rfl⟩, rfl, rfl, rfl,
        rfl, hstands.fPos, ?_, hI.spares hfree, h.bounce⟩
      exact ⟨hc.ring, hc.commands, hc.nonempty, hc.working, hc.apart⟩
  · refine ⟨_, stable_waits, ?_, hfail err herr⟩
    rintro w g c w' hI h ⟨env, -, hok⟩ -
    obtain rfl := h.answer
    have hw : w' = w := by
      simp only [kernelStep] at hok
      split_ifs at hok
      · cases hok; rfl
      · exact absurd (congrArg Prod.fst (Except.ok.inj hok)).symm herr
    subst hw
    exact ⟨g, some r, .inr ⟨r, rfl, rfl, hspec g.log, (if_neg herr).trans herror.symm⟩, hI,
      Yields.refl t _ g, rfl, h.lock, h.bounce⟩

/-- A write that has failed without the mutex unlocks one that nobody holds. -/
theorem outline_stray {k : Unit → Driver α}
    (hk : sharing.Outline t c (k ()) (Waits t kern data a) Q) :
    sharing.Outline t c (Prog.call (E := kernel) .mutexUnlock k) (Waits t kern data a) Q := by
  refine ⟨?_, fun _ => ⟨_, stable_waits, ?_, hk⟩⟩
  · rintro w g c - - ⟨env, -, s, hbad, -⟩
    cases hbad
  rintro w g c w' hI h ⟨env, -, hok⟩ hperm
  cases hok
  obtain rfl := h.answer
  have hfree : w.dev.lock = none := hperm.resolve_right h.lock
  have hw : { w with dev := { w.dev with lock := none } } = w := by rw [← hfree]
  rw [hw]
  exact ⟨g, _, .inl ⟨rfl, rfl, rfl⟩, hI, Yields.refl t _ g, h⟩

end Steps

end Aesd.CharDriver

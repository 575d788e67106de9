import Aesd.CharDriver.Calls
import Mathlib.Data.List.Forall2

/-! # The device as a log of lines

What the device is for: it is fed a stream of bytes and keeps the last ten newline-terminated lines
of it, together with the unfinished line. **`Represents w S`** says that the state `w` between two
calls stands for the stream `S`: the ring holds the last ten of `lines S` in live blocks, the
working entry holds `rest S`, no two of these entries share a block, and nobody holds the mutex. The
results about `aesd_write` describe each exit of the function on such a state; a write that goes
through extends the stream by the first line of its buffer. -/

namespace Aesd.CharDriver

open Memory Effects Streams

/-- Whether a byte ends a line. -/
def isNewline (c : UInt8) : Bool := c == newline

/-- The entry gives access to exactly these bytes, which fit into one allocation. -/
structure Holds (h : Heap) (e : AesdBufferEntry) (bytes : List UInt8) : Prop where
  /-- The size field is the number of bytes. -/
  size : e.size = bytes.length
  /-- They were allocated at once. -/
  bounded : bytes.length ≤ allocationLimit
  /-- The pointer leads to them. -/
  backs : h.Backs e.buffptr bytes

/-- The device has been handed `n` commands, of which the ring still holds `cmds`, and the working
entry holds `r`. -/
structure Carries (w : World) (n : ℕ) (cmds : List (List UInt8)) (r : List UInt8) : Prop where
  /-- One entry has been added to the ring for each command. -/
  ring : ∃ es, w.dev.circBuf.HoldsLast es ∧ es.length = n
  /-- The retained entries hold the commands. -/
  commands : List.Forall₂ (Holds w.heap) w.dev.circBuf.retained cmds
  /-- No command is empty. -/
  nonempty : ∀ c ∈ cmds, c ≠ []
  /-- The working entry holds the unfinished command. -/
  working : Holds w.heap w.dev.workingEntry r
  /-- No block has two owners. -/
  apart : (w.dev.workingEntry.buffptr ::
    w.dev.circBuf.retained.map AesdBufferEntry.buffptr).Nodup

/-- The state between two calls stands for the stream `S`. -/
structure Represents (w : World) (S : List UInt8) : Prop extends
    Carries w (lines isNewline S).length ((lines isNewline S).rtake 10) (rest isNewline S) where
  /-- No call is in progress. -/
  unlocked : w.dev.lock = none

section Holds

variable {h h' : Heap} {p : Ptr} {e : AesdBufferEntry} {bytes : List UInt8}
  {es : List AesdBufferEntry} {ls : List (List UInt8)}

theorem Holds.keeps (he : Holds h e bytes) (hk : h.Keeps h' p) (hne : e.buffptr ≠ p) :
    Holds h' e bytes := ⟨he.size, he.bounded, he.backs.keeps hk hne⟩

theorem forall₂_holds_keeps (hes : List.Forall₂ (Holds h) es ls) (hk : h.Keeps h' p)
    (hne : p ∉ es.map AesdBufferEntry.buffptr) : List.Forall₂ (Holds h') es ls := by
  induction hes with
  | nil => exact .nil
  | cons he _ ih =>
      rw [List.map_cons, List.mem_cons, not_or] at hne
      exact .cons (he.keeps hk (Ne.symm hne.1)) (ih hne.2)

theorem forall₂_holds_sizes (hes : List.Forall₂ (Holds h) es ls) :
    es.map AesdBufferEntry.size = ls.map List.length := by
  induction hes with
  | nil => rfl
  | cons he _ ih => rw [List.map_cons, List.map_cons, he.size, ih]

/-- Nothing is lost where every block is kept. -/
theorem Holds.keeps_null (he : Holds h e bytes) (hk : h.Keeps h' .null) : Holds h' e bytes := by
  refine ⟨he.size, he.bounded, ?_⟩
  have hbacks := he.backs
  cases hp : e.buffptr with
  | null => rw [hp] at hbacks; exact hbacks
  | zeroSize => exact hp ▸ hbacks.keeps hk (by rw [hp]; simp)
  | block b => exact hp ▸ hbacks.keeps hk (by rw [hp]; simp)

/-- The bytes readable through an entry are the ones it holds. -/
theorem Holds.entryBytes {w : World} (he : Holds w.heap e bytes) :
    w.entryBytes e = some bytes := by
  rw [World.entryBytes, he.size]
  by_cases hb : bytes = []
  · simp [hb]
  · obtain ⟨b, hp, hcell⟩ := he.backs.eq_block hb
    rw [if_neg (by simpa using hb), hp, Heap.read_block, hcell]
    simp

theorem forall₂_holds_entryBytes {w : World} (hes : List.Forall₂ (Holds w.heap) es ls) :
    es.map w.entryBytes = ls.map some := by
  induction hes with
  | nil => rfl
  | cons he _ ih => rw [List.map_cons, List.map_cons, he.entryBytes, ih]

end Holds

section Execute

variable {env : Env} {w w' : World} {α β : Type}

theorem execute_pure (a : α) : execute env (.pure a) w = .ok (a, w) := rfl

/-- A service that answers, then the rest. -/
theorem execute_call {o : KernelOp} {r : KernelRes o} (k : KernelRes o → Driver α)
    (ho : kernelStep env o w = .ok (r, w')) :
    execute env (Prog.call (E := kernel) o k) w = execute env (k r) w' :=
  run_call (E := kernel) k ho

/-! The services that only read or assign always answer. -/

theorem execute_loadDev (k : AesdDev → Driver α) :
    execute env (Prog.call (E := kernel) .loadDev k) w = execute env (k w.dev) w :=
  execute_call (o := .loadDev) (r := w.dev) k rfl

theorem execute_modifyDev (f : AesdDev → AesdDev) (k : Unit → Driver α) :
    execute env (Prog.call (E := kernel) (.modifyDev f) k) w =
      execute env (k ()) { w with dev := f w.dev } :=
  execute_call (o := .modifyDev f) (r := ()) k rfl

theorem execute_mutexUnlock (k : Unit → Driver α) :
    execute env (Prog.call (E := kernel) .mutexUnlock k) w =
      execute env (k ()) { w with dev := { w.dev with lock := none } } :=
  execute_call (o := .mutexUnlock) (r := ()) k rfl

theorem execute_loadFPos (filp : File) (k : ℤ → Driver α) :
    execute env (Prog.call (E := kernel) (.loadFPos filp) k) w = execute env (k (w.fPos filp)) w :=
  execute_call (o := .loadFPos filp) (r := w.fPos filp) k rfl

theorem execute_storeFPos (filp : File) (x : ℤ) (k : Unit → Driver α) :
    execute env (Prog.call (E := kernel) (.storeFPos filp x) k) w =
      execute env (k ()) { w with fPos := Function.update w.fPos filp x } :=
  execute_call (o := .storeFPos filp x) (r := ()) k rfl

theorem execute_loop {σ : Type} {body : σ → Driver (σ ⊕ β)} {s : σ} {b : β} (k : β → Driver α)
    (hb : rounds .hang (fun s w => execute env (body s) w) 10 s w = .ok (b, w')) :
    execute env (.loop body s k) w = execute env (k b) w' := run_loop k hb

theorem execute_loop_error {σ : Type} {body : σ → Driver (σ ⊕ β)} {s : σ} {e : Stop}
    (k : β → Driver α)
    (hb : rounds .hang (fun s w => execute env (body s) w) 10 s w = .error e) :
    execute env (.loop body s k) w = .error e := run_loop_error k hb

theorem execute_bind {p : Driver α} {a : α} (f : α → Driver β)
    (hp : execute env p w = .ok (a, w')) : execute env (p.bind f) w = execute env (f a) w' :=
  run_bind f hp

theorem execute_bind_error {p : Driver α} {e : Stop} (f : α → Driver β)
    (hp : execute env p w = .error e) : execute env (p.bind f) w = .error e :=
  run_bind_error f hp

/-- The exit label `out` releases the mutex. -/
theorem execute_out (retval : ℤ) : execute env (aesdWrite.out retval) w =
    .ok (retval, { w with dev := { w.dev with lock := none } }) := rfl

end Execute

section Append

variable {env : Env} {w : World} {kern : Ptr} {buf r : List UInt8} {pos : Option ℕ} {n : ℕ}

theorem sizeAdd_eq {a b : ℕ} (h : a + b < 2 ^ 64) : sizeAdd a b = a + b := Nat.mod_eq_of_lt h

/-- Appending with a granted `krealloc`: the working entry holds the old and the new bytes, and no
other live block has changed. -/
theorem execute_append (pos : Option ℕ) (hwork : Holds w.heap w.dev.workingEntry r)
    (hkern : w.heap.read kern = some buf)
    (hne : ∀ b, kern = .block b → w.dev.workingEntry.buffptr ≠ .block b) (hn : n ≤ buf.length)
    (hok : env.kreallocOk = true) (hfit : r.length + n ≤ allocationLimit) :
    ∃ tmp h', Holds h' ⟨tmp, r.length + n⟩ (r ++ buf.take n) ∧
      w.heap.Keeps h' w.dev.workingEntry.buffptr ∧ w.heap.Adds h' tmp ∧
      (∀ b, tmp = .block b → (w.heap.cells b).isSome → tmp = w.dev.workingEntry.buffptr) ∧
      execute env (aesdWrite.append kern pos n) w =
        execute env (if pos.isSome then aesdWrite.commit.bind fun _ => aesdWrite.out n
            else aesdWrite.out n)
          { w with heap := h', dev := { w.dev with workingEntry := ⟨tmp, r.length + n⟩ } } := by
  have hlim : allocationLimit < 2 ^ 64 := by decide
  obtain ⟨tmp, h₁, new, hre, hnull, hread, hlen, htake, hkeep, hadds, htmp⟩ :=
    reallocate_ok hwork.backs hok (Nat.le_add_right _ n) hfit
  have hfresh : ∀ b, tmp = .block b → (w.heap.cells b).isSome →
      tmp = w.dev.workingEntry.buffptr := by
    rintro b rfl hb
    rcases htmp with ⟨-, h⟩ | ⟨-, h | h⟩
    · cases h
    · exact h
    · cases h; simp [w.heap.fresh _ le_rfl] at hb
  -- the bounce buffer is still there
  have hkern₁ : h₁.read kern = some buf := by
    cases kern with
    | null => exact hkern
    | zeroSize => exact hkern
    | block b =>
        rw [Heap.read_block] at hkern ⊢
        rw [hkeep b (by simp [hkern]) (hne b rfl).symm, hkern]
  have hbytes : new.take r.length ++ buf.take n ++ new.drop (r.length + n) = r ++ buf.take n := by
    rw [htake, List.drop_eq_nil_of_le hlen.le, List.append_nil]
  refine ⟨tmp, put tmp (r ++ buf.take n) h₁, ⟨?_, ?_, ?_⟩, ?_, ?_, hfresh, ?_⟩
  · simp [hn]
  · simpa [hn] using hfit
  · rcases htmp with ⟨h0, rfl⟩ | ⟨hpos, hblock⟩
    · exact List.eq_nil_of_length_eq_zero (by rw [List.length_append, List.length_take]; omega)
    · obtain ⟨b, rfl⟩ : ∃ b, tmp = .block b := by
        cases tmp with
        | null => exact absurd rfl hnull
        | zeroSize =>
            rw [Heap.read_zeroSize, Option.some.injEq] at hread
            subst hread
            simp at hlen; omega
        | block b => exact ⟨b, rfl⟩
      refine ⟨Heap.cells_write_self _ (by rw [← Heap.read_block, hread]; rfl), fun h => ?_⟩
      have hlen := congrArg List.length h
      rw [List.length_append, List.length_take, List.length_nil] at hlen
      omega
  · cases tmp with
    | null => exact absurd rfl hnull
    | zeroSize => exact hkeep
    | block b =>
        exact hkeep.trans (h₁.keeps_write b _) fun c hc hlive => by cases hc; exact hfresh b rfl hlive
  · cases tmp with
    | null => exact absurd rfl hnull
    | zeroSize => exact hadds
    | block b => exact hadds.trans (h₁.adds_write b _ _)
  · have haccess : access tmp (r.length + n) h₁ = .ok new := access_eq hread hlen.ge
    have haccess' : access kern n h₁ = .ok buf := access_eq hkern₁ hn
    have hsize := hwork.size
    have hstep₁ : kernelStep env
        (.krealloc w.dev.workingEntry.buffptr (sizeAdd w.dev.workingEntry.size n)) w =
          .ok (tmp, { w with heap := h₁ }) := by
      rw [hsize, sizeAdd_eq (by omega)]
      simp only [kernelStep, hre, bind, Except.bind]
    have hstep₂ : kernelStep env (.memcpy tmp w.dev.workingEntry.size kern n)
        { w with heap := h₁, dev := { w.dev with workingEntry.buffptr := tmp } } =
          .ok ((), { w with
            heap := put tmp (r ++ buf.take n) h₁
            dev := { w.dev with workingEntry.buffptr := tmp } }) := by
      simp only [kernelStep, hsize, haccess, haccess', bind, Except.bind, hbytes]
    simp only [aesdWrite.append, loadDev, krealloc, modifyDev, memcpy, Prog.bind_eq,
      Prog.call_bind, Prog.pure_bind, execute_loadDev, execute_call _ hstep₁, if_neg hnull,
      execute_modifyDev, execute_call _ hstep₂]
    rw [hsize, sizeAdd_eq (by omega)]

/-- Appending with a refused `krealloc`: the working buffer is freed and the entry keeps pointing to
it. -/
theorem execute_append_refused (kern : Ptr) (pos : Option ℕ)
    (hwork : Holds w.heap w.dev.workingEntry r)
    (hn : r.length + n < 2 ^ 64)
    (hfail : env.kreallocOk = false ∨ allocationLimit < r.length + n) :
    ∃ h', w.heap.Keeps h' w.dev.workingEntry.buffptr ∧ w.heap.Adds h' .null ∧
      (∀ b, w.dev.workingEntry.buffptr = .block b → h'.cells b = none) ∧
      execute env (aesdWrite.append kern pos n) w =
        .ok (-enomem, { w with heap := h', dev := { w.dev with lock := none } }) := by
  obtain ⟨h', hrel, hkeep, hadds, hfreed⟩ := release_of_backs hwork.backs
  refine ⟨h', hkeep, hadds, hfreed, ?_⟩
  have hstep₁ : kernelStep env
      (.krealloc w.dev.workingEntry.buffptr (sizeAdd w.dev.workingEntry.size n)) w =
        .ok (.null, w) := by
    rw [hwork.size, sizeAdd_eq hn]
    simp only [kernelStep, reallocate_fail hwork.backs hfail, bind, Except.bind]
  have hstep₂ : kernelStep env (.kfree w.dev.workingEntry.buffptr) w =
      .ok ((), { w with heap := h' }) := by
    simp only [kernelStep, hrel, bind, Except.bind]
  simp only [aesdWrite.append, loadDev, krealloc, kfree, Prog.bind_eq, Prog.call_bind,
    Prog.pure_bind, execute_loadDev, execute_call _ hstep₁, if_true, execute_call _ hstep₂,
    execute_out]

end Append

section Commit

variable {env : Env} {w : World} {n : ℕ} {cmds : List (List UInt8)} {r : List UInt8}

/-- The retained entries point to live blocks. -/
theorem Carries.block_of_mem (hc : Carries w n cmds r) {p : Ptr}
    (hp : p ∈ w.dev.circBuf.retained.map AesdBufferEntry.buffptr) :
    ∃ b, p = .block b ∧ (w.heap.cells b).isSome := by
  obtain ⟨e, he, rfl⟩ := List.mem_map.mp hp
  obtain ⟨i, hi, rfl⟩ := List.getElem_of_mem he
  obtain ⟨hlen, hall⟩ := List.forall₂_iff_get.mp hc.commands
  have hi' : i < cmds.length := hlen ▸ hi
  obtain ⟨b, hb, hcell⟩ := (hall i hi hi').backs.eq_block (hc.nonempty _ (List.get_mem _ _))
  exact ⟨b, hb, by simp [hcell]⟩

/-- Only the blocks matter, and only those with an owner. -/
theorem Carries.frame (hc : Carries w n cmds r) (lock : Option ℕ) {h' : Heap}
    (hk : w.heap.Keeps h' .null) :
    Carries { w with heap := h', dev := { w.dev with lock } } n cmds r where
  ring := hc.ring
  commands := hc.commands.imp fun _ _ he => he.keeps_null hk
  nonempty := hc.nonempty
  working := hc.working.keeps_null hk
  apart := hc.apart

/-- Replacing the contents of the working entry, with nothing else touched. -/
theorem Carries.setWorking (hc : Carries w n cmds r) {tmp : Ptr} {h' : Heap} {r' : List UInt8}
    {size : ℕ} (hhold : Holds h' ⟨tmp, size⟩ r')
    (hkeep : w.heap.Keeps h' w.dev.workingEntry.buffptr)
    (hfresh : ∀ b, tmp = .block b → (w.heap.cells b).isSome → tmp = w.dev.workingEntry.buffptr) :
    Carries { w with heap := h', dev := { w.dev with workingEntry := ⟨tmp, size⟩ } } n cmds r' := by
  obtain ⟨hnot, hnodup⟩ := List.nodup_cons.mp hc.apart
  refine ⟨hc.ring, forall₂_holds_keeps hc.commands hkeep hnot, hc.nonempty, hhold,
    List.nodup_cons.mpr ⟨fun hmem => ?_, hnodup⟩⟩
  obtain ⟨b, hb, hlive⟩ := hc.block_of_mem hmem
  exact hnot (hfresh b hb hlive ▸ hmem)

/-- Nobody owns a block that has not been handed out. -/
theorem Carries.next_not_owned (hc : Carries w n cmds r) :
    w.dev.workingEntry.buffptr ≠ .block w.heap.next ∧
      .block w.heap.next ∉ w.dev.circBuf.retained.map AesdBufferEntry.buffptr := by
  have hfresh : w.heap.cells w.heap.next = none := w.heap.fresh _ le_rfl
  constructor
  · intro hw
    have hback := hc.working.backs
    rw [hw] at hback
    simp [hback.1] at hfresh
  · intro hmem
    obtain ⟨b, hb, hcell⟩ := hc.block_of_mem hmem
    cases hb
    simp [hfresh] at hcell

theorem Carries.length_cmds (hc : Carries w n cmds r) : cmds.length = min n 10 := by
  obtain ⟨es, hes, rfl⟩ := hc.ring
  rw [← hc.commands.length_eq, hes.retained_eq, List.rtake.eq_def, List.length_drop]
  omega

/-- What a commit does to the device, once the overwritten pointer is known to be freeable. -/
theorem execute_commit {h' : Heap}
    (hrel : release (aesdCircularBufferAddEntry w.dev.circBuf w.dev.workingEntry).1 w.heap = .ok h') :
    execute env aesdWrite.commit w = .ok ((), { w with
      heap := h'
      dev := { w.dev with
        circBuf := (aesdCircularBufferAddEntry w.dev.circBuf w.dev.workingEntry).2
        workingEntry := ⟨.null, 0⟩ } }) := by
  by_cases hnull : (aesdCircularBufferAddEntry w.dev.circBuf w.dev.workingEntry).1 = .null
  · rw [hnull, release, Except.ok.injEq] at hrel
    subst hrel
    simp only [aesdWrite.commit, loadDev, modifyDev, Prog.bind_eq, Prog.call_bind, Prog.pure_bind,
      execute_loadDev, execute_modifyDev, hnull, ne_eq, not_true, if_false,
      execute_pure]
  · have hstep : kernelStep env
        (.kfree (aesdCircularBufferAddEntry w.dev.circBuf w.dev.workingEntry).1)
        { w with dev := { w.dev with
          circBuf := (aesdCircularBufferAddEntry w.dev.circBuf w.dev.workingEntry).2 } } =
          .ok ((), { w with
            heap := h'
            dev := { w.dev with
              circBuf := (aesdCircularBufferAddEntry w.dev.circBuf w.dev.workingEntry).2 } }) := by
      simp only [kernelStep, hrel, bind, Except.bind]
    simp only [aesdWrite.commit, loadDev, modifyDev, kfree, Prog.bind_eq, Prog.call_bind,
      Prog.pure_bind, execute_loadDev, execute_modifyDev, hnull, ne_eq,
      not_false_eq_true, if_true, execute_call _ hstep, execute_pure]

/-- Committing moves the working entry into the ring, and the block of the command that drops out is
freed. -/
theorem Carries.commit (env : Env) (hc : Carries w n cmds r) (hr : r ≠ []) :
    ∃ h' circBuf,
      (∀ b, (w.heap.cells b).isSome →
        Ptr.block b ∉ w.dev.circBuf.retained.map AesdBufferEntry.buffptr →
        h'.cells b = w.heap.cells b) ∧
      (∀ p ∈ circBuf.retained.map AesdBufferEntry.buffptr, p = w.dev.workingEntry.buffptr ∨
        p ∈ w.dev.circBuf.retained.map AesdBufferEntry.buffptr) ∧
      Carries { w with heap := h', dev := { w.dev with circBuf, workingEntry := ⟨.null, 0⟩ } }
        (n + 1) ((cmds ++ [r]).rtake 10) [] ∧
      execute env aesdWrite.commit w =
        .ok ((), { w with
          heap := h'
          dev := { w.dev with circBuf, workingEntry := ⟨.null, 0⟩ } }) := by
  have hlen := hc.length_cmds
  obtain ⟨es, hes, rfl⟩ := hc.ring
  obtain ⟨b, hwb, hcell⟩ := hc.working.backs.eq_block hr
  -- it is enough to know which entries are kept and what they hold afterwards
  suffices h : ∃ (h' : Heap) (kept : List AesdBufferEntry) (keptCmds : List (List UInt8)),
      release (aesdCircularBufferAddEntry w.dev.circBuf w.dev.workingEntry).1 w.heap = .ok h' ∧
      (∀ b, (w.heap.cells b).isSome →
        Ptr.block b ∉ w.dev.circBuf.retained.map AesdBufferEntry.buffptr →
        h'.cells b = w.heap.cells b) ∧
      (aesdCircularBufferAddEntry w.dev.circBuf w.dev.workingEntry).2.retained =
        kept ++ [w.dev.workingEntry] ∧
      (cmds ++ [r]).rtake 10 = keptCmds ++ [r] ∧
      List.Forall₂ (Holds h') kept keptCmds ∧ kept <:+ w.dev.circBuf.retained ∧
      ∀ c ∈ keptCmds, c ≠ [] by
    obtain ⟨h', kept, keptCmds, hrel, hkeep, hret, hcmds, hall, hsub, hne⟩ := h
    have hnotret : w.dev.workingEntry.buffptr ∉
        w.dev.circBuf.retained.map AesdBufferEntry.buffptr := (List.nodup_cons.mp hc.apart).1
    have hsub' := hsub.sublist.map AesdBufferEntry.buffptr
    refine ⟨h', _, hkeep, fun p hp => ?_, ⟨⟨_, hes.addEntry _, by simp⟩, ?_, ?_,
      ⟨rfl, Nat.zero_le _, rfl⟩, ?_⟩, execute_commit hrel⟩
    · rw [hret, List.map_append, List.mem_append] at hp
      rcases hp with h | h
      · exact .inr (hsub'.subset h)
      · exact .inl (by simpa using h)
    · rw [hret, hcmds]
      refine List.rel_append hall (.cons ⟨hc.working.size, hc.working.bounded, ?_⟩ .nil)
      rw [hwb]
      exact ⟨by rw [hkeep b (by simp [hcell]) (hwb ▸ hnotret), hcell], hr⟩
    · rw [hcmds]
      simpa [or_imp, forall_and, hr] using hne
    · simp only [hret, List.map_append, List.map_cons, List.map_nil, hwb]
      refine List.nodup_cons.mpr ⟨fun hmem => ?_, ?_⟩
      · rcases List.mem_append.mp hmem with h | h
        · obtain ⟨c, hcb, -⟩ := hc.block_of_mem (hsub'.subset h)
          cases hcb
        · simp at h
      · refine List.nodup_append.mpr
          ⟨hsub'.nodup (List.nodup_cons.mp hc.apart).2, by simp, ?_⟩
        intro p hp q hq
        rw [List.mem_singleton.mp hq, ← hwb]
        exact fun e => hnotret (e ▸ hsub'.subset hp)
  rcases hes.retained_addEntry w.dev.workingEntry with
    ⟨hlt, hover, hret⟩ | ⟨hle, old, kept, hold, hover, hret⟩
  · -- the ring still has a free slot
    exact ⟨w.heap, _, cmds, by rw [hover, release], fun _ _ _ => rfl, hret,
      rtake_of_length_le (by rw [List.length_append, List.length_singleton]; omega), hc.commands,
      List.suffix_rfl, hc.nonempty⟩
  · -- the oldest command gives way
    have hcommands := hold ▸ hc.commands
    obtain ⟨c, cs, hfirst, hkept, rfl⟩ := List.forall₂_cons_left_iff.mp hcommands
    obtain ⟨b', hb', hcell'⟩ := hfirst.backs.eq_block (hc.nonempty _ List.mem_cons_self)
    have hnodup := (List.nodup_cons.mp hc.apart).2
    rw [hold, List.map_cons, List.nodup_cons, hb'] at hnodup
    refine ⟨w.heap.free b', kept, cs, ?_, fun b'' hb'' hnot => ?_, hret, ?_,
      forall₂_holds_keeps hkept (w.heap.keeps_free b') hnodup.1, hold ▸ List.suffix_cons _ _,
      fun c hmem => hc.nonempty c (List.mem_cons_of_mem _ hmem)⟩
    · rw [hover, hb', release_block (by simp [hcell'])]
    · refine Heap.cells_free_of_ne _ fun e => hnot ?_
      rw [hold, List.map_cons, hb', e]
      exact List.mem_cons_self
    · rw [List.cons_append, List.rtake.eq_def, List.length_cons, List.length_append,
        List.length_singleton]
      rw [List.length_cons] at hlen
      rw [show cs.length + 1 + 1 - 10 = 1 by omega, List.drop_one, List.tail_cons]

end Commit

section Write

variable {env : Env} {w : World} {S buf : List UInt8}

/-- The call stops before it holds the mutex: an allocation, a user copy or the lock fails. -/
def WriteTurnedAway (env : Env) (buf : List UInt8) : Prop :=
  env.kmallocOk = false ∨ allocationLimit < buf.length ∨ min env.notCopied buf.length ≠ 0 ∨
    env.lockOk = false

/-- The bounce buffer of a write: allocated and filled, pointed to by nobody else, and without a
trace once it is freed. -/
theorem bounce (w : World) (hok : env.kmallocOk = true) (hlen : buf.length ≤ allocationLimit) :
    ∃ kern h₁ h₂ h₃, kern ≠ .null ∧
      kernelStep env (.kmalloc buf.length) w = .ok (kern, { w with heap := h₁ }) ∧
      kernelStep env (.copyFromUser kern buf) { w with heap := h₁ } =
        .ok (min env.notCopied buf.length, { w with heap := h₂ }) ∧
      (min env.notCopied buf.length = 0 → h₂.read kern = some buf) ∧
      release kern h₂ = .ok h₃ ∧ h₃.cells = w.heap.cells ∧ w.heap.Keeps h₂ .null ∧
      w.heap.Adds h₂ kern ∧
      (buf = [] ∧ kern = .zeroSize ∨ buf ≠ [] ∧ kern = .block w.heap.next) := by
  by_cases hbuf : buf = []
  · subst hbuf
    exact ⟨.zeroSize, w.heap, w.heap, w.heap, by simp, by simp [kernelStep, allocate_ok hok],
      by simp [kernelStep, access, put, bind, Except.bind], fun _ => rfl, rfl, rfl,
      w.heap.keeps_refl _, w.heap.adds_refl _, .inl ⟨rfl, rfl⟩⟩
  · have h0 : buf.length ≠ 0 := by simpa using hbuf
    let left := min env.notCopied buf.length
    let copied := buf.take (buf.length - left) ++ List.replicate left 0
    -- the block is new: it holds junk first, and then what could be copied, the rest zeroed
    refine ⟨.block w.heap.next, w.heap.alloc (grow env.junk [] buf.length), w.heap.alloc copied, _,
      by simp, ?_, ?_, fun hleft => ?_, release_block (by simp), by simp, w.heap.keeps_alloc _ _,
      w.heap.adds_alloc _, .inr ⟨hbuf, rfl⟩⟩
    · simp only [kernelStep, allocate_ok hok hlen, if_neg h0]
    · have haccess : access (.block w.heap.next) buf.length
          (w.heap.alloc (grow env.junk [] buf.length)) = .ok (grow env.junk [] buf.length) :=
        access_eq (by simp) (by simp)
      have hdrop : (grow env.junk [] buf.length).drop buf.length = [] :=
        List.drop_eq_nil_of_le (by simp)
      simp only [kernelStep, haccess, bind, Except.bind, put, hdrop, List.append_nil,
        Heap.write_alloc, copied, left]
    · simp [copied, left, hleft]

/-- A write that is turned away changes no block and nothing of the device. -/
theorem execute_aesdWrite_of_turnedAway (h : WriteTurnedAway env buf) (hlock : w.dev.lock = none) :
    ∃ retval h', retval < 0 ∧ h'.cells = w.heap.cells ∧
      execute env (aesdWrite buf) w = .ok (retval, { w with heap := h' }) := by
  have hdev : { w.dev with lock := none } = w.dev := by rw [← hlock]
  by_cases hmalloc : env.kmallocOk = false ∨ allocationLimit < buf.length
  · have hstep : kernelStep env (.kmalloc buf.length) w = .ok (.null, w) := by
      simp only [kernelStep, allocate_fail hmalloc]
    refine ⟨-enomem, w.heap, by decide, rfl, ?_⟩
    simp only [aesdWrite, kmalloc, Prog.bind_eq, Prog.call_bind, Prog.pure_bind,
      execute_call _ hstep, if_true, execute_out, hdev]
  · have hok : env.kmallocOk = true := by simp_all
    have hlen : buf.length ≤ allocationLimit := by omega
    obtain ⟨kern, h₁, h₂, h₃, hnull, hkmalloc, hcopy, hread, hfree, hcells, -, -, -⟩ :=
      bounce w hok hlen
    have hkfree : kernelStep env (.kfree kern) { w with heap := h₂ } =
        .ok ((), { w with heap := h₃ }) := by
      simp only [kernelStep, hfree, bind, Except.bind]
    by_cases hleft : min env.notCopied buf.length = 0
    · -- only the lock can fail now
      have hlockOk : env.lockOk = false := by
        simpa only [WriteTurnedAway, ← or_assoc, hmalloc, hleft, ne_eq, not_true, or_false,
          false_or] using h
      have hmemchr : kernelStep env (.memchr kern newline buf.length) { w with heap := h₂ } =
          .ok (buf.findIdx? isNewline, { w with heap := h₂ }) := by
        simp only [kernelStep, access_eq (hread hleft) le_rfl, bind, Except.bind, List.take_length]
        rfl
      have hmutex : kernelStep env .mutexLockInterruptible { w with heap := h₂ } =
          .ok (eintr, { w with heap := h₂ }) := by
        simp only [kernelStep, hlockOk, if_true]
      refine ⟨-erestartsys, h₃, by decide, hcells, ?_⟩
      simp only [aesdWrite, kmalloc, copyFromUser, memchr, mutexLockInterruptible, kfree,
        Prog.bind_eq, Prog.call_bind, Prog.pure_bind, execute_call _ hkmalloc, if_neg hnull,
        execute_call _ hcopy, ne_eq, hleft, not_true, if_false, execute_call _ hmemchr,
        execute_call _ hmutex, show eintr ≠ 0 by decide, not_false_eq_true, if_true,
        execute_call _ hkfree, execute_out, hdev]
    · refine ⟨-efault, h₃, by decide, hcells, ?_⟩
      simp only [aesdWrite, kmalloc, copyFromUser, kfree, Prog.bind_eq, Prog.call_bind,
        Prog.pure_bind, execute_call _ hkmalloc, if_neg hnull, execute_call _ hcopy, ne_eq, hleft,
        not_false_eq_true, if_true, execute_call _ hkfree, execute_out, hdev]

/-- A write that is not turned away comes to append the first line of its buffer, from a bounce
buffer that nobody points to. -/
theorem execute_aesdWrite_of_not_turnedAway (h : ¬WriteTurnedAway env buf)
    (hlock : w.dev.lock = none) :
    ∃ kern h', w.heap.Keeps h' .null ∧ w.heap.Adds h' kern ∧ h'.read kern = some buf ∧
      (buf = [] ∧ kern = .zeroSize ∨ buf ≠ [] ∧ kern = .block w.heap.next) ∧
      execute env (aesdWrite buf) w =
        execute env (aesdWrite.append kern (buf.findIdx? isNewline)
          (firstLine isNewline buf).length)
          { w with heap := h', dev := { w.dev with lock := some env.task } } := by
  simp only [WriteTurnedAway, not_or, Bool.not_eq_false, not_lt, not_not] at h
  obtain ⟨hmalloc, hlen, hleft, hlockOk⟩ := h
  obtain ⟨kern, h₁, h₂, -, hnull, hkmalloc, hcopy, hread, -, -, hkeep, hadds, hkern⟩ :=
    bounce w hmalloc hlen
  refine ⟨kern, h₂, hkeep, hadds, hread hleft, hkern, ?_⟩
  have hmemchr : kernelStep env (.memchr kern newline buf.length) { w with heap := h₂ } =
      .ok (buf.findIdx? isNewline, { w with heap := h₂ }) := by
    simp only [kernelStep, access_eq (hread hleft) le_rfl, bind, Except.bind, List.take_length]
    rfl
  have hmutex : kernelStep env .mutexLockInterruptible { w with heap := h₂ } =
      .ok (0, { w with heap := h₂, dev := { w.dev with lock := some env.task } }) := by
    simp only [kernelStep, hlockOk, hlock, Option.isSome_none, Bool.false_eq_true, if_false,
      reduceCtorEq]
  simp only [aesdWrite, kmalloc, copyFromUser, memchr, mutexLockInterruptible,
    Prog.bind_eq, Prog.call_bind, Prog.pure_bind, execute_call _ hkmalloc, if_neg hnull,
    execute_call _ hcopy, ne_eq, hleft, not_true, if_false, execute_call _ hmemchr,
    execute_call _ hmutex]
  -- the bytes up to the newline are the first line
  cases hpos : buf.findIdx? isNewline with
  | none => rw [firstLine_of_findIdx?_none hpos]
  | some pos =>
      rw [firstLine_of_findIdx?_some hpos, List.length_take,
        Nat.min_eq_left (findIdx?_lt_length hpos)]

/-- A write whose `krealloc` is refused fails, and what the working entry points to is freed. -/
theorem Represents.write_refused (hr : Represents w S) (h : ¬WriteTurnedAway env buf)
    (hfail : env.kreallocOk = false ∨
      allocationLimit < (rest isNewline S).length + (firstLine isNewline buf).length) :
    ∃ h', execute env (aesdWrite buf) w = .ok (-enomem, { w with heap := h' }) ∧
      w.heap.Keeps h' w.dev.workingEntry.buffptr ∧
      (∀ b, w.dev.workingEntry.buffptr = .block b → h'.cells b = none) ∧
      (buf = [] → w.heap.Adds h' .null) ∧ (buf ≠ [] → (h'.cells w.heap.next).isSome) := by
  obtain ⟨kern, h₀, hkeep, hadds, hread, hkern, hexec⟩ :=
    execute_aesdWrite_of_not_turnedAway (w := w) h hr.unlocked
  rw [hexec]
  have hc₀ := hr.toCarries.frame (some env.task) hkeep
  have hlim : allocationLimit < 2 ^ 63 := by decide
  have hlen : (firstLine isNewline buf).length ≤ buf.length := (firstLine_isPrefix buf).length_le
  have hbuf : buf.length ≤ allocationLimit := by
    rw [WriteTurnedAway, not_or, not_or] at h
    omega
  have hrest := hr.working.bounded
  obtain ⟨h', hkeep', hadds', hfreed, happend⟩ := execute_append_refused kern
    (buf.findIdx? isNewline) hc₀.working (by omega) hfail
  have hdev : { w.dev with lock := none } = w.dev := by rw [← hr.unlocked]
  -- what the bounce buffer and the failing branch do to the heap
  refine ⟨h', by rw [happend]; simp only [hdev], ?_, hfreed, fun hnil => ?_, fun hne => ?_⟩
  · exact hkeep.of_null.trans hkeep' fun _ _ _ => rfl
  · rcases hkern with ⟨-, rfl⟩ | ⟨hne, -⟩
    · intro b hb
      rcases hadds.trans hadds' b hb with h | h
      · exact .inl h
      · cases h
    · exact absurd hnil hne
  · obtain rfl : kern = .block w.heap.next := by
      rcases hkern with ⟨h, -⟩ | ⟨-, h⟩
      · exact absurd h hne
      · exact h
    have hlive : (h₀.cells w.heap.next).isSome := by
      rw [Heap.read_block] at hread
      simp [hread]
    rw [hkeep' _ hlive hr.next_not_owned.1.symm]
    exact hlive

/-- Any other write extends the stream by the first line of its buffer; its bounce buffer stays
behind. -/
theorem Represents.write_granted (hr : Represents w S) (h : ¬WriteTurnedAway env buf)
    (hok : env.kreallocOk = true)
    (hfit : (rest isNewline S).length + (firstLine isNewline buf).length ≤ allocationLimit) :
    ∃ w', execute env (aesdWrite buf) w = .ok (((firstLine isNewline buf).length : ℤ), w') ∧
      Represents w' (S ++ firstLine isNewline buf) ∧ w'.fPos = w.fPos ∧
      (buf = [] → w.heap.Adds w'.heap w'.dev.workingEntry.buffptr) ∧
      (buf ≠ [] → (w'.heap.cells w.heap.next).isSome ∧
        w'.dev.workingEntry.buffptr ≠ .block w.heap.next ∧
        .block w.heap.next ∉ w'.dev.circBuf.retained.map AesdBufferEntry.buffptr) := by
  obtain ⟨kern, h₀, hkeep, hadds, hread, hkern, hexec⟩ :=
    execute_aesdWrite_of_not_turnedAway (w := w) h hr.unlocked
  rw [hexec]
  have hc₀ := hr.toCarries.frame (some env.task) hkeep
  -- the bounce buffer is new, so nobody owns it
  obtain ⟨hwork, hret⟩ := hr.next_not_owned
  have hbounce : ∀ b, kern = .block b → w.dev.workingEntry.buffptr ≠ .block b := by
    rintro b rfl
    rcases hkern with ⟨-, h⟩ | ⟨-, h⟩
    · cases h
    · cases h; exact hwork
  obtain ⟨tmp, h₁, hhold, hkeep₁, hadds₁, htmp, happend⟩ := execute_append (buf.findIdx? isNewline)
    hc₀.working hread hbounce (firstLine_isPrefix buf).length_le hok hfit
  rw [happend]
  rw [take_firstLine] at hhold
  have hc₁ := hc₀.setWorking hhold hkeep₁ htmp
  have hbounce₁ : buf ≠ [] → (h₁.cells w.heap.next).isSome ∧ tmp ≠ .block w.heap.next ∧
      .block w.heap.next ∉ w.dev.circBuf.retained.map AesdBufferEntry.buffptr := by
    intro hbuf
    obtain rfl : kern = .block w.heap.next := by
      rcases hkern with ⟨h, -⟩ | ⟨-, h⟩
      · exact absurd h hbuf
      · exact h
    have hlive : (h₀.cells w.heap.next).isSome := by
      rw [Heap.read_block] at hread
      simp [hread]
    refine ⟨?_, fun e => ?_, hret⟩
    · rw [hkeep₁ _ hlive hwork.symm]
      exact hlive
    · exact hwork (htmp _ e hlive ▸ e)
  cases hpos : buf.findIdx? isNewline with
  | none =>
      -- no newline: the working entry has grown
      have hforall := forall_of_findIdx?_none hpos
      have hfirst := firstLine_of_findIdx?_none hpos
      refine ⟨{ w with heap := h₁, dev := { w.dev with lock := none, workingEntry := ⟨tmp, _⟩ } },
        execute_out _, ⟨?_, rfl⟩, rfl, fun hnil => ?_, hbounce₁⟩
      · rw [hfirst, lines_append_of_forall hforall, rest_append_of_forall hforall, ← hfirst]
        exact hc₁.frame _ (h₁.keeps_refl _)
      · rcases hkern with ⟨-, rfl⟩ | ⟨hne, -⟩
        · intro b hb
          rcases hadds₁ b hb with h | h
          · rcases hadds b h with h | h
            · exact .inl h
            · cases h
          · exact .inr h
        · exact absurd hnil hne
  | some pos =>
      -- a newline: the working entry has become a command
      have hline : IsLine isNewline (firstLine isNewline buf) :=
        firstLine_of_findIdx?_some hpos ▸ isLine_take_of_findIdx?_some hpos
      have hne : rest isNewline S ++ firstLine isNewline buf ≠ [] := by
        have hlen := hline.length_pos
        intro h
        rw [(List.append_eq_nil_iff.mp h).2] at hlen
        simp at hlen
      obtain ⟨h₂, circBuf, hkeep₂, howner, hc₂, hcommit⟩ := hc₁.commit env hne
      refine ⟨{ w with
          heap := h₂
          dev := { w.dev with lock := none, circBuf, workingEntry := ⟨.null, 0⟩ } },
        (execute_bind _ hcommit).trans (execute_out _), ⟨?_, rfl⟩, rfl, fun hnil => ?_,
        fun hbuf => ?_⟩
      · rw [lines_append_line hline, rest_append_line hline, ← rtake_rtake_append,
          List.length_append, List.length_singleton]
        exact hc₂.frame _ (h₂.keeps_refl _)
      · simp [hnil] at hpos
      · obtain ⟨hlive, htmp', hnot⟩ := hbounce₁ hbuf
        refine ⟨?_, by simp, fun hmem => ?_⟩
        · rw [hkeep₂ _ hlive hnot]
          exact hlive
        · rcases howner _ hmem with h | h
          · exact htmp' h.symm
          · exact hnot h

end Write

end Aesd.CharDriver

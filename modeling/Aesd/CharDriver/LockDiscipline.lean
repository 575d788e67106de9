import Aesd.CharDriver.Calls
import Aesd.Effects.Pool

/-! # Who holds the mutex

Any number of tasks in the driver at once, each running one of the file operations step by step, in
any order, with any outcome of every service. Only the mutex is shared state here; what all other
services answer is left open. The calls keep the lock discipline as long as no `write` fails before
it holds the mutex; such a `write` leaves through the exit label of the others, which unlocks. -/

namespace Aesd.CharDriver

open Memory Effects

/-- What the mutex allows: `mutex_lock_interruptible` succeeds only on a free mutex and may be
interrupted at any time, `mutex_unlock` frees it whoever calls. -/
def lockAnswers (t : ℕ) : (o : KernelOp) → Option ℕ → KernelRes o → Option ℕ → Prop
  | .mutexLockInterruptible, s, err, s' => err = 0 ∧ s = none ∧ s' = some t ∨ err ≠ 0 ∧ s' = s
  | .mutexUnlock, _, _, s' => s' = none
  | _, s, _, s' => s' = s

/-- Tasks in the driver, one call each, around the owner of the mutex. -/
def lockMachine (calls : ℕ → Call) : Machine kernel (Option ℕ) Reply where
  text t := (calls t).text
  answers t _ o s r s' := lockAnswers t o s r s'

/-- A `write` fails in `kmalloc`, `copy_from_user` or `mutex_lock_interruptible`. -/
def FailsUnlocked : Call → Event kernel → Prop
  | .write _ _, ⟨.kmalloc _, p⟩ => p = .null
  | .write _ _, ⟨.copyFromUser _ _, left⟩ => left ≠ 0
  | .write _ _, ⟨.mutexLockInterruptible, err⟩ => err ≠ 0
  | _, _ => False

/-- A successful lock. -/
def IsLock : Event kernel → Prop
  | ⟨.mutexLockInterruptible, err⟩ => err = 0
  | _ => False

/-- An unlock. -/
def IsUnlock : Event kernel → Prop
  | ⟨.mutexUnlock, _⟩ => True
  | _ => False

/-- A task with this history is between its successful lock and its unlock. -/
def InCritical (hist : List (Event kernel)) : Prop :=
  ∃ pre e post, hist = pre ++ e :: post ∧ IsLock e ∧ ∀ e' ∈ post, ¬IsUnlock e'

/-- **The lock discipline** of a pool of tasks. -/
structure Disciplined (q : Pool kernel (Option ℕ) Reply) : Prop where
  /-- A task about to unlock owns the mutex. -/
  unlocks : ∀ t k, (q.task t).prog = .call .mutexUnlock k → q.shared = some t
  /-- At most one task is between its lock and its unlock. -/
  exclusive : ∀ t u, InCritical (q.task t).hist → InCritical (q.task u).hist → t = u
  /-- A task that has returned has released the mutex if and only if it had acquired it. -/
  returns : ∀ t a, (q.task t).prog = .pure a →
    ((∃ e ∈ (q.task t).hist, IsUnlock e) ↔ ∃ e ∈ (q.task t).hist, IsLock e)

/-! ### The protocol of one call -/

/-- What one call has done to the mutex. -/
inductive LockState where
  /-- Nothing. -/
  | idle
  /-- It has acquired it. -/
  | held
  /-- It has acquired and released it. -/
  | done
  deriving DecidableEq

/-- The protocol: lock at most once, then unlock at most once. -/
def lockStep (g : LockState) : Event kernel → Option LockState
  | ⟨.mutexLockInterruptible, err⟩ =>
      if g = .idle then some (if err = (0 : ℤ) then .held else .idle) else none
  | ⟨.mutexUnlock, _⟩ => if g = .held then some .done else none
  | _ => some g

/-- The protocol of a call during which no `write` fails unlocked. -/
def lockProtocol (c : Call) : Monitor kernel LockState where
  expects _ e := ¬FailsUnlocked c e
  step := lockStep

section Texts

variable {c : Call} {g : LockState} {α : Type} {Q : α → LockState → Prop}

theorem follows_unlock {k : Unit → Driver α} (hk : Follows (lockProtocol c) .done (k ()) Q) :
    Follows (lockProtocol c) .held (Prog.call (E := kernel) .mutexUnlock k) Q :=
  fun _ _ => ⟨.done, rfl, hk⟩

theorem follows_lock {k : ℤ → Driver α} (hheld : Follows (lockProtocol c) .held (k 0) Q)
    (hidle : ∀ err, err ≠ 0 → ¬FailsUnlocked c ⟨.mutexLockInterruptible, err⟩ →
      Follows (lockProtocol c) .idle (k err) Q) :
    Follows (lockProtocol c) .idle (Prog.call (E := kernel) .mutexLockInterruptible k) Q := by
  intro err hexp
  by_cases herr : err = (0 : ℤ)
  · subst herr
    exact ⟨.held, rfl, hheld⟩
  · exact ⟨.idle, by simp [lockProtocol, lockStep, herr], hidle err herr hexp⟩

/-- The mutex is not held. -/
abbrev Settled {α : Type} : α → LockState → Prop := fun _ g => g ≠ .held

theorem follows_aesdRead (filp : File) (count : ℕ) :
    Follows (lockProtocol c) .idle (aesdRead filp count) Settled := by
  have hunlock : ∀ q, Follows (lockProtocol c) .held (aesdRead.mutexUnlockAndReturn q) Settled :=
    fun q => follows_unlock (by simp)
  simp only [aesdRead, mutexLockInterruptible, loadDev, loadFPos, copyToUser, storeFPos,
    Prog.bind_eq, Prog.call_bind, Prog.pure_bind, Prog.pure_eq]
  refine follows_lock ?_ fun err herr _ => ?_
  · rw [if_neg (not_not.mpr rfl)]
    refine Follows.skip (fun _ _ => rfl) fun dev _ => ?_
    refine Follows.skip (fun _ _ => rfl) fun pos _ => ?_
    split
    · exact hunlock _
    refine Follows.ite (hunlock _) (Follows.skip (fun _ _ => rfl) fun res _ => ?_)
    refine Follows.ite (hunlock _) (Follows.skip (fun _ _ => rfl) fun pos' _ => ?_)
    exact Follows.skip (fun _ _ => rfl) fun _ _ => hunlock _
  · rw [if_pos herr]
    simp

theorem follows_aesdWrite (filp : File) (buf : List UInt8) :
    Follows (lockProtocol (.write filp buf)) .idle (aesdWrite buf) Settled := by
  have hout : ∀ retval,
      Follows (lockProtocol (.write filp buf)) .held (aesdWrite.out retval) Settled :=
    fun retval => follows_unlock (by simp)
  have hcommit : Follows (lockProtocol (.write filp buf)) .held aesdWrite.commit
      fun _ g => g = .held := by
    simp only [aesdWrite.commit, loadDev, modifyDev, kfree, Prog.bind_eq, Prog.call_bind,
      Prog.pure_bind]
    refine Follows.skip (fun _ _ => rfl) fun dev _ => ?_
    refine Follows.skip (fun _ _ => rfl) fun _ _ => Follows.ite ?_ ?_
    · refine Follows.skip (fun _ _ => rfl) fun _ _ => ?_
      exact Follows.skip (fun _ _ => rfl) fun _ _ => rfl
    · exact Follows.skip (fun _ _ => rfl) fun _ _ => rfl
  -- the three exits before the lock are excluded by what the protocol expects
  simp only [aesdWrite, kmalloc, copyFromUser, memchr, kfree, mutexLockInterruptible,
    Prog.bind_eq, Prog.call_bind, Prog.pure_bind]
  refine Follows.skip (fun _ _ => rfl) fun kern hkern => ?_
  rw [if_neg (show ¬kern = .null from hkern)]
  refine Follows.skip (fun _ _ => rfl) fun left hleft => ?_
  rw [if_neg (show ¬left ≠ 0 from hleft)]
  refine Follows.skip (fun _ _ => rfl) fun pos _ => ?_
  refine follows_lock ?_ fun err herr hfail => absurd herr hfail
  rw [if_neg (not_not.mpr rfl)]
  -- from here on the mutex is held, until `out`
  simp only [aesdWrite.append, loadDev, krealloc, kfree, modifyDev, memcpy,
    Prog.bind_eq, Prog.call_bind, Prog.pure_bind]
  refine Follows.skip (fun _ _ => rfl) fun dev _ => ?_
  refine Follows.skip (fun _ _ => rfl) fun tmp _ => Follows.ite ?_ ?_
  · refine Follows.skip (fun _ _ => rfl) fun dev' _ => ?_
    exact Follows.skip (fun _ _ => rfl) fun _ _ => hout _
  · refine Follows.skip (fun _ _ => rfl) fun _ _ => ?_
    refine Follows.skip (fun _ _ => rfl) fun dev' _ => ?_
    refine Follows.skip (fun _ _ => rfl) fun _ _ => ?_
    refine Follows.skip (fun _ _ => rfl) fun _ _ => Follows.ite ?_ (hout _)
    refine hcommit.bind fun _ g' hg => ?_
    rw [hg]
    exact hout _

theorem follows_aesdLlseek (filp : File) (offset whence : ℤ) :
    Follows (lockProtocol c) .idle (aesdLlseek filp offset whence) Settled := by
  have hfinish : ∀ pos, Follows (lockProtocol c) .held (aesdLlseek.finish filp pos) Settled := by
    intro pos
    refine Follows.ite (follows_unlock (by simp)) ?_
    exact Follows.skip (fun _ _ => rfl) fun _ _ => follows_unlock (by simp)
  simp only [aesdLlseek, mutexLockInterruptible, loadDev, loadFPos, mutexUnlock,
    Prog.bind_eq, Prog.call_bind, Prog.pure_bind, Prog.pure_eq]
  refine follows_lock ?_ fun err herr _ => ?_
  · rw [if_neg (not_not.mpr rfl)]
    refine Follows.skip (fun _ _ => rfl) fun dev _ => Follows.ite (hfinish _) ?_
    refine Follows.ite (Follows.skip (fun _ _ => rfl) fun pos _ => hfinish _) ?_
    exact Follows.ite (hfinish _) (follows_unlock (by simp))
  · rw [if_pos herr]
    simp

theorem follows_entrySize {g : LockState} (index : ℤ) :
    Follows (lockProtocol c) g (entrySize index) fun _ g' => g' = g :=
  Follows.ite (Follows.skip (fun _ _ => rfl) fun _ _ => rfl)
    (Follows.skip (fun _ _ => rfl) fun _ _ => rfl)

theorem follows_aesdUnlockedIoctl (filp : File) (cmd : ℕ) (arg : AesdSeekto) :
    Follows (lockProtocol c) .idle (aesdUnlockedIoctl filp cmd arg) Settled := by
  have hwalk : ∀ index s, Follows (lockProtocol c) .held (aesdUnlockedIoctl.walk index s)
      fun _ g => g = .held := by
    rintro index ⟨trav, byteCount⟩
    refine Follows.ite rfl ?_
    exact (follows_entrySize trav).bind fun _ _ h => h
  have hseek : ∀ trav index offset,
      Follows (lockProtocol c) .idle (aesdUnlockedIoctl.seek filp trav index offset) Settled := by
    intro trav index offset
    simp only [aesdUnlockedIoctl.seek, mutexLockInterruptible, storeFPos, mutexUnlock,
      Prog.bind_eq, Prog.call_bind, Prog.pure_bind, Prog.pure_eq]
    refine follows_lock ?_ fun err herr _ => ?_
    · rw [if_neg (not_not.mpr rfl)]
      -- the mutex stays held during the walk
      refine (Follows.iterate (fun _ g => g = .held) (Q := fun _ g => g = .held) rfl
        fun s g hg => ?_).bind fun byteCount g hg => ?_
      · subst hg
        exact (hwalk index s).mono fun r g' hg' => by cases r <;> exact hg'
      · subst hg
        exact Follows.skip (fun _ _ => rfl) fun _ _ => follows_unlock (by simp)
    · rw [if_pos herr]
      simp
  simp only [aesdUnlockedIoctl, loadDev, copySeektoFromUser, Prog.bind_eq, Prog.call_bind,
    Prog.pure_bind, Prog.pure_eq]
  have hidle : ∀ retval : ℤ,
      Follows (lockProtocol c) .idle (Prog.pure (E := kernel) retval) Settled :=
    fun retval => by simp
  refine Follows.skip (fun _ _ => rfl) fun dev _ => Follows.ite ?_ (hidle _)
  refine Follows.skip (fun _ _ => rfl) fun res _ => Follows.ite (hidle _) ?_
  refine Follows.skip (fun _ _ => rfl) fun dev' _ => ?_
  -- whatever the index is
  generalize (int32 (int32 res.2.writeCmd.toNat + dev'.circBuf.outOffs)).tmod _ = index
  refine Follows.ite (hidle _) ((follows_entrySize _).bind fun size g hg => ?_)
  subst hg
  exact Follows.ite (hidle _) (hseek _ _ _)

/-- Every call keeps the protocol. -/
theorem follows_lockProtocol (c : Call) : Follows (lockProtocol c) .idle c.text Settled := by
  cases c with
  | «open» filp => exact Follows.skip (fun _ _ => rfl) fun _ _ => by simp
  | release filp => simp [Call.text, aesdRelease]
  | read filp count => exact (follows_aesdRead filp count).bind fun _ _ h => h
  | write filp buf => exact (follows_aesdWrite filp buf).bind fun _ _ h => h
  | llseek filp offset whence => exact (follows_aesdLlseek filp offset whence).bind fun _ _ h => h
  | ioctl filp cmd arg => exact (follows_aesdUnlockedIoctl filp cmd arg).bind fun _ _ h => h

end Texts

/-! ### The history of a call and its lock state -/

section History

variable {c : Call} {g g' : LockState} {hist : List (Event kernel)} {e : Event kernel}

theorem lockStep_isLock (h : lockStep g e = some g') (he : IsLock e) : g = .idle ∧ g' = .held := by
  obtain ⟨o, r⟩ := e
  cases o <;> simp_all [lockStep, IsLock]

theorem lockStep_isUnlock (h : lockStep g e = some g') (he : IsUnlock e) :
    g = .held ∧ g' = .done := by
  obtain ⟨o, r⟩ := e
  cases o <;> simp_all [lockStep, IsUnlock]

theorem lockStep_other (h : lockStep g e = some g') (hl : ¬IsLock e) (hu : ¬IsUnlock e) :
    g' = g := by
  obtain ⟨o, r⟩ := e
  cases o with
  | mutexLockInterruptible =>
      have hr : ¬r = (0 : ℤ) := hl
      by_cases hg : g = .idle <;> simp_all [lockStep]
  | mutexUnlock => exact absurd trivial hu
  | _ => exact (Option.some.inj h).symm

theorem not_isUnlock_of_isLock (he : IsLock e) : ¬IsUnlock e := by
  obtain ⟨o, r⟩ := e
  cases o <;> simp_all [IsLock, IsUnlock]

/-- A critical section goes on until the unlock. -/
theorem inCritical_concat : InCritical (hist ++ [e]) ↔ IsLock e ∨ InCritical hist ∧ ¬IsUnlock e := by
  constructor
  · rintro ⟨pre, e₁, post, heq, hlock, hpost⟩
    -- the last event is the lock itself, or comes after it
    rcases List.eq_nil_or_concat post with rfl | ⟨post', e₂, rfl⟩
    · obtain ⟨-, h⟩ := List.append_inj' heq rfl
      exact .inl (List.singleton_inj.mp h ▸ hlock)
    · rw [List.concat_eq_append, ← List.cons_append, ← List.append_assoc] at heq
      obtain ⟨rfl, h⟩ := List.append_inj' heq rfl
      rw [List.concat_eq_append] at hpost
      refine .inr ⟨⟨pre, e₁, post', rfl, hlock, fun e' he' => hpost e' (by simp [he'])⟩, ?_⟩
      exact hpost e (by rw [List.singleton_inj.mp h]; simp)
  · rintro (hlock | ⟨⟨pre, e₁, post, rfl, hlock, hpost⟩, hunlock⟩)
    · exact ⟨hist, e, [], rfl, hlock, by simp⟩
    · refine ⟨pre, e₁, post ++ [e], by simp, hlock, fun e' he' => ?_⟩
      rcases List.mem_append.mp he' with he' | he'
      · exact hpost e' he'
      · exact List.mem_singleton.mp he' ▸ hunlock

/-- What the lock state says about the history. -/
theorem lockState_spec (h : (lockProtocol c).after .idle hist = some g) :
    (InCritical hist ↔ g = .held) ∧ ((∃ e ∈ hist, IsLock e) ↔ g ≠ .idle) ∧
      ((∃ e ∈ hist, IsUnlock e) ↔ g = .done) := by
  induction hist using List.reverseRecOn generalizing g with
  | nil =>
      cases h
      simp [InCritical]
  | append_singleton hist e ih =>
      rw [Monitor.after_append, Option.bind_eq_some_iff] at h
      obtain ⟨g₀, hg₀, h⟩ := h
      have hstep : lockStep g₀ e = some g := by
        rw [Monitor.after_cons, Option.bind_eq_some_iff] at h
        obtain ⟨g₁, hg₁, h⟩ := h
        cases h
        exact hg₁
      obtain ⟨hcrit, hlocked, hunlocked⟩ := ih hg₀
      rw [inCritical_concat, hcrit]
      simp only [List.mem_append, List.mem_singleton, or_and_right, exists_or, exists_eq_left,
        hlocked, hunlocked]
      -- the last event locks, unlocks, or does neither
      by_cases hl : IsLock e
      · obtain ⟨rfl, rfl⟩ := lockStep_isLock hstep hl
        simp [hl, not_isUnlock_of_isLock hl]
      by_cases hu : IsUnlock e
      · obtain ⟨rfl, rfl⟩ := lockStep_isUnlock hstep hu
        simp [hl, hu]
      · rw [lockStep_other hstep hl hu]
        simp [hl, hu]

end History

/-! ### The owner of the mutex -/

/-- One operation of the task `t` keeps the mutex and the task's lock state in step, and changes
nothing for the other tasks. -/
theorem lockAnswers_step {t : ℕ} {o : KernelOp} {s s' : Option ℕ} {r : KernelRes o} {g g' : LockState}
    (hr : lockAnswers t o s r s') (hg : lockStep g ⟨o, r⟩ = some g') (h : g = .held ↔ s = some t) :
    (g' = .held ↔ s' = some t) ∧ ∀ u, u ≠ t → (s' = some u ↔ s = some u) := by
  by_cases hl : IsLock ⟨o, r⟩
  · obtain ⟨rfl, rfl⟩ := lockStep_isLock hg hl
    cases o <;> try exact hl.elim
    have hr0 : r = (0 : ℤ) := hl
    rcases hr with ⟨-, rfl, rfl⟩ | ⟨hne, -⟩
    · exact ⟨by simp, fun u hu => by simp [hu.symm]⟩
    · exact absurd hr0 hne
  by_cases hu : IsUnlock ⟨o, r⟩
  · obtain ⟨rfl, rfl⟩ := lockStep_isUnlock hg hu
    cases o <;> try exact hu.elim
    obtain rfl := h.mp rfl
    have hs' : s' = none := hr
    subst hs'
    exact ⟨by simp, fun u hu => by simp [hu.symm]⟩
  · -- any other answer leaves the mutex alone
    obtain rfl := lockStep_other hg hl hu
    have hs' : s' = s := by
      cases o with
      | mutexLockInterruptible => exact hr.elim (fun h => absurd h.1 hl) And.right
      | mutexUnlock => exact absurd trivial hu
      | _ => exact hr
    subst hs'
    exact ⟨h, fun _ _ => Iff.rfl⟩

variable {calls : ℕ → Call} {τ : List (Act kernel (Option ℕ))} {q : Pool kernel (Option ℕ) Reply}

/-- The owner of the mutex is the task whose lock state is `held`, throughout a run in which no
`write` fails before it holds the mutex. -/
theorem owner_held (h : Steps (lockMachine calls) ((lockMachine calls).init none) τ q)
    (hτ : ∀ a ∈ τ, ¬FailsUnlocked (calls a.task) a.event) :
    ∃ γ, Watched (fun t => lockProtocol (calls t)) (fun _ => .idle) (fun _ => Settled) γ q ∧
      ∀ t, γ t = .held ↔ q.shared = some t := by
  refine h.monitored (J := fun _ γ s => ∀ t, γ t = .held ↔ s = some t)
    (watched_init (fun t => follows_lockProtocol (calls t)) none) (fun a ha _ => hτ a ha)
    (by simp) fun υ γ a g' _ howner _ hanswer hg' u => ?_
  obtain ⟨hself, hothers⟩ := lockAnswers_step hanswer hg' (howner a.task)
  by_cases hu : u = a.task
  · rw [hu, Function.update_self]
    exact hself
  · rw [Function.update_of_ne hu, hothers u hu]
    exact howner u

/-! ### The discipline of a run -/

theorem not_failsUnlocked_mutexUnlock (c : Call) : ¬FailsUnlocked c ⟨.mutexUnlock, ()⟩ := by
  intro h
  cases c <;> exact h

/-- **The lock discipline.** In every interleaving of any number of calls in which no `write` fails
before it holds the mutex, the calls keep the lock discipline. -/
theorem lockDiscipline (h : Steps (lockMachine calls) ((lockMachine calls).init none) τ q)
    (hτ : ∀ a ∈ τ, ¬FailsUnlocked (calls a.task) a.event) : Disciplined q := by
  obtain ⟨γ, hwatched, howner⟩ := owner_held h hτ
  constructor
  · intro t k hprog
    obtain ⟨-, hfollows⟩ := hwatched t
    rw [hprog] at hfollows
    obtain ⟨g', hg', -⟩ := hfollows () (not_failsUnlocked_mutexUnlock (calls t))
    exact (howner t).mp (lockStep_isUnlock (e := ⟨.mutexUnlock, ()⟩) hg' trivial).1
  · -- both would own the mutex
    intro t u ht hu
    have ht' := (howner t).mp ((lockState_spec (hwatched t).1).1.mp ht)
    have hu' := (howner u).mp ((lockState_spec (hwatched u).1).1.mp hu)
    exact Option.some.inj (ht'.symm.trans hu')
  · intro t a hprog
    obtain ⟨hafter, hsettled⟩ := hwatched t
    rw [hprog] at hsettled
    obtain ⟨-, hlocked, hunlocked⟩ := lockState_spec hafter
    have hne : γ t ≠ .held := hsettled
    rw [hlocked, hunlocked]
    cases hγ : γ t <;> simp_all

/-- Task 0 reads, all others write one byte. -/
def readBesideWrites (t : ℕ) : Call := if t = 0 then .read 0 1 else .write 0 [97]

/-- Task 0 takes the mutex, and `kmalloc` answers task 1. -/
theorem steps_readBesideWrites (p : Ptr) : ∃ τ q, Steps (lockMachine readBesideWrites)
      ((lockMachine readBesideWrites).init none) τ q ∧
    τ.map (fun a => (a.task, a.event)) =
      [(0, ⟨.mutexLockInterruptible, (0 : ℤ)⟩), (1, ⟨.kmalloc 1, p⟩)] ∧
    q.shared = some 0 ∧
    ∃ k, (Call.write 0 [97]).text = .call (.kmalloc 1) k ∧ (q.task 1).prog = k p := by
  have hlocked : (lockMachine readBesideWrites).answers 0 [] KernelOp.mutexLockInterruptible none
      (0 : ℤ) (some 0) := .inl ⟨rfl, rfl, rfl⟩
  have hlock := Steps.act 0 (.refl ((lockMachine readBesideWrites).init none)) rfl hlocked
  have hanswered : (lockMachine readBesideWrites).answers 1 [] (KernelOp.kmalloc 1) (some 0) p
      (some 0) := rfl
  have halloc := Steps.act 1 hlock rfl hanswered
  exact ⟨_, _, halloc, rfl, rfl, _, rfl, by rw [Pool.setTask_task_self]⟩

/-- A `write` that has allocated its buffer beside a `read` that owns the mutex. -/
theorem lockDiscipline_two_tasks : ∃ q : Pool kernel (Option ℕ) Reply,
    q.shared = some 0 ∧ Disciplined q := by
  obtain ⟨τ, q, hsteps, hτ, hshared, -⟩ := steps_readBesideWrites (.block 0)
  refine ⟨q, hshared, lockDiscipline hsteps fun a ha => ?_⟩
  have hmem := List.mem_map_of_mem (f := fun a : Act kernel (Option ℕ) => (a.task, a.event)) ha
  rw [hτ] at hmem
  obtain ⟨ht, he⟩ | ⟨ht, he⟩ : (a.task = 0 ∧ a.event = ⟨.mutexLockInterruptible, (0 : ℤ)⟩) ∨
      (a.task = 1 ∧ a.event = ⟨.kmalloc 1, Ptr.block 0⟩) := by simpa using hmem
  · rw [ht, he]
    exact id
  · rw [ht, he]
    simp [readBesideWrites, FailsUnlocked]

/-- A `write` whose allocation fails while a `read` owns the mutex is about to unlock it. -/
theorem not_lockDiscipline : ¬∀ (calls : ℕ → Call) (τ : List (Act kernel (Option ℕ)))
    (q : Pool kernel (Option ℕ) Reply),
    Steps (lockMachine calls) ((lockMachine calls).init none) τ q → Disciplined q := by
  intro h
  obtain ⟨τ, q, hsteps, -, hshared, k, hk, hprog⟩ := steps_readBesideWrites .null
  obtain rfl := (Prog.call.inj hk).2
  have hunlocks := (h _ _ _ hsteps).unlocks 1 _ (hprog.trans rfl)
  rw [hshared] at hunlocks
  exact absurd hunlocks (by decide)

end Aesd.CharDriver

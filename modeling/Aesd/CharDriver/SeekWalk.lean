import Aesd.CharDriver.Seek
import Aesd.Effects.Typestate

/-! # The walk of the seek ends

A seek reads size fields of `circ_buf.entry` twice: once when it checks the request, and then in
each round of the walk that it makes under the mutex. Here the operations of one call are followed
one by one, and the loop is not cut off after any number of rounds. `SeekWalkEnds` says that no
index is outside the array and that the walk is over after at most nine rounds; it holds unless the
command number leads to a negative index. -/

namespace Aesd.CharDriver

open Memory Effects Streams

/-- A read beside the array. -/
def IsStray : Event kernel → Prop
  | ⟨.strayLoad _, _⟩ => True
  | _ => False

/-- Counts the size fields read since the mutex was asked for, `none` before that. -/
def noteRound (rounds : Option ℕ) : Event kernel → Option ℕ
  | ⟨.mutexLockInterruptible, _⟩ => some 0
  | ⟨.loadDev, _⟩ => rounds.map (· + 1)
  | _ => rounds

/-- How many rounds the walk has made in the events of a call. -/
def walkRounds (t : List (Event kernel)) : Option ℕ := t.foldl noteRound none

/-- The text of the seek. -/
def seekText (filp : File) (arg : AesdSeekto) : Driver ℤ :=
  aesdUnlockedIoctl filp aesdcharIocseekto arg

/-- However far the seek has come, it has used no index outside the array and made at most nine
rounds of the walk; and it returns. -/
structure SeekWalkEnds (env : Env) (filp : File) (arg : AesdSeekto) (w : World) : Prop where
  /-- Every index into `circ_buf.entry` is in `0..9`. -/
  inBounds : ∀ t q w', Runs (seekText filp arg) t q → Handles (kernelStep env) w t w' →
    ∀ e ∈ t, ¬IsStray e
  /-- The walk is over after nine rounds at the latest. -/
  rounds : ∀ t q w', Runs (seekText filp arg) t q → Handles (kernelStep env) w t w' →
    ∀ n, walkRounds t = some n → n ≤ 9
  /-- The call returns. -/
  returns : ∃ r w', invoke ⟨.ioctl filp aesdcharIocseekto arg, env⟩ w = .ok (r, w')

section Monitor

variable {env : Env} {o : ℕ}

/-- An answer that the kernel gives while the oldest command is in slot `o`. -/
def AnsweredAt (env : Env) (o : ℕ) (e : Event kernel) : Prop :=
  ∃ w w', w.dev.circBuf.outOffs = o ∧ kernelStep env e.op w = .ok (e.res, w')

/-- Neither a read beside the array nor an assignment to the device. -/
def IsQuiet : KernelOp → Bool
  | .strayLoad _ | .modifyDev _ => false
  | _ => true

/-- What the seek may do: it reads sizes inside the array, at most nine of them under the mutex, and
leaves the device as it is. -/
def seekStep (rounds : Option ℕ) (e : Event kernel) : Option (Option ℕ) :=
  if IsQuiet e.op ∧ (noteRound rounds e).all (· ≤ 9) then some (noteRound rounds e) else none

/-- The protocol of the seek. -/
def seekProtocol (env : Env) (o : ℕ) : Monitor kernel (Option ℕ) where
  expects _ := AnsweredAt env o
  step := seekStep

/-- Only an assignment moves the oldest slot. -/
theorem kernelStep_outOffs {op : KernelOp} {r : KernelRes op} {w w' : World}
    (h : kernelStep env op w = .ok (r, w')) (hop : ∀ f, op ≠ .modifyDev f) :
    w'.dev.circBuf = w.dev.circBuf := by
  cases op with
  | modifyDev f => exact absurd rfl (hop f)
  | mutexLockInterruptible =>
      simp only [kernelStep] at h
      split_ifs at h <;> cases h <;> rfl
  | kmalloc n => cases h; rfl
  | krealloc p n | kfree p | copyFromUser dst buf | memchr p c n | copyToUser src offset n =>
      simp only [kernelStep, bind, Except.bind] at h
      split at h <;> cases h
      rfl
  | memcpy dst offset src n =>
      simp only [kernelStep, bind, Except.bind] at h
      split at h
      · cases h
      split at h <;> cases h
      rfl
  | _ => cases h; rfl

theorem seekStep_eq_some {g g' : Option ℕ} {e : Event kernel} (h : seekStep g e = some g') :
    IsQuiet e.op ∧ g'.all (· ≤ 9) ∧ g' = noteRound g e := by
  unfold seekStep at h
  by_cases hcond : IsQuiet e.op ∧ (noteRound g e).all (· ≤ 9)
  · rw [if_pos hcond, Option.some.injEq] at h
    exact ⟨hcond.1, h ▸ hcond.2, h.symm⟩
  · rw [if_neg hcond] at h
    cases h

/-- What the kernel answers keeps the promise of the protocol. -/
theorem admits_of_handles {t : List (Event kernel)} {w w' : World}
    (h : Handles (kernelStep env) w t w') (hout : w.dev.circBuf.outOffs = o) (g : Option ℕ) :
    (seekProtocol env o).Admits g t := by
  induction h generalizing g with
  | nil => trivial
  | @cons op r t w w₁ w' ho _ ih =>
      refine ⟨⟨w, w₁, hout, ho⟩, fun g' hg => ih ?_ g'⟩
      rw [kernelStep_outOffs ho fun f hf => ?_, hout]
      have hquiet := (seekStep_eq_some hg).1
      rw [show (⟨op, r⟩ : Event kernel).op = op from rfl, hf] at hquiet
      cases hquiet

/-- Along a trace that the protocol accepts nothing is read beside the array, and the rounds have
been counted and are few. -/
theorem after_seekProtocol {t : List (Event kernel)} {g g' : Option ℕ} (hg : g.all (· ≤ 9))
    (h : (seekProtocol env o).after g t = some g') :
    (∀ e ∈ t, ¬IsStray e) ∧ g' = t.foldl noteRound g ∧ g'.all (· ≤ 9) := by
  induction t generalizing g with
  | nil =>
      obtain rfl := Option.some.inj h
      exact ⟨by simp, rfl, hg⟩
  | cons e t ih =>
      rw [Monitor.after_cons, Option.bind_eq_some_iff] at h
      obtain ⟨g₁, hg₁, h⟩ := h
      obtain ⟨hquiet, hall, hnote⟩ := seekStep_eq_some hg₁
      obtain ⟨hstray, hfold, hfew⟩ := ih hall h
      refine ⟨?_, by rw [hfold, hnote, List.foldl_cons], hfew⟩
      intro e' he'
      rcases List.mem_cons.mp he' with rfl | he'
      · obtain ⟨op, r⟩ := e'
        cases op with
        | strayLoad i => cases hquiet
        | _ => exact id
      · exact hstray e' he'

/-! ### The text keeps the protocol -/

variable {α : Type} {Q : α → Option ℕ → Prop}

/-- An operation after which the rounds are still few. -/
theorem follows_step {g : Option ℕ} {op : KernelOp} {k : KernelRes op → Driver α} (g' : Option ℕ)
    (hop : IsQuiet op) (hall : g'.all (· ≤ 9)) (hnote : ∀ r, noteRound g ⟨op, r⟩ = g')
    (hk : ∀ r, AnsweredAt env o ⟨op, r⟩ → Follows (seekProtocol env o) g' (k r) Q) :
    Follows (seekProtocol env o) g (Prog.call (E := kernel) op k) Q := by
  intro r hr
  refine ⟨g', ?_, hk r hr⟩
  show seekStep g ⟨op, r⟩ = some g'
  unfold seekStep
  rw [hnote, if_pos ⟨hop, hall⟩]

/-- Reading the device before the mutex is asked for. -/
theorem follows_loadDev {k : AesdDev → Driver α}
    (hk : ∀ dev, dev.circBuf.outOffs = o → Follows (seekProtocol env o) none (k dev) Q) :
    Follows (seekProtocol env o) none (Prog.call (E := kernel) .loadDev k) Q := by
  refine follows_step none rfl rfl (fun _ => rfl) ?_
  rintro dev ⟨w, w', hout, hstep⟩
  cases hstep
  exact hk _ hout

/-- **The walk.** After `n` rounds it is `n` slots behind the oldest one, so it meets its target
before it is back at the first slot. -/
theorem follows_walk {target : ℕ} (ho : o < 10) (htarget : target < 10) :
    Follows (seekProtocol env o) (some 0)
      (Prog.iterate (aesdUnlockedIoctl.walk target) ((o : ℤ), (0 : ℤ)))
      fun _ g => ∃ n, g = some n ∧ n ≤ 9 := by
  refine Follows.iterate (fun (s : ℤ × ℤ) g => ∃ n : ℕ, g = some n ∧
    n ≤ (target + 10 - o) % 10 ∧ s.1 = ((o + n) % 10 : ℕ)) ?_ ?_
  · exact ⟨0, rfl, Nat.zero_le _, by simp only; omega⟩
  rintro ⟨trav, byteCount⟩ g ⟨n, rfl, hn, htrav⟩
  simp only at htrav
  subst htrav
  by_cases hend : (((o + n) % 10 : ℕ) : ℤ) = target
  · rw [aesdUnlockedIoctl.walk, if_pos hend]
    exact ⟨n, rfl, by omega⟩
  · rw [walk_eq (by omega) hend]
    refine follows_step (some (n + 1)) rfl (by simp; omega) (fun _ => rfl) fun dev _ => ?_
    exact ⟨n + 1, rfl, by omega, by simp only; omega⟩

/-- What follows the checks. -/
theorem follows_seek {filp : File} {index : ℤ} (ho : o < 10) (h₀ : 0 ≤ index) (hlt : index < 10)
    (writeCmdOffset : UInt32) :
    Follows (seekProtocol env o) none (aesdUnlockedIoctl.seek filp o index writeCmdOffset)
      fun _ _ => True := by
  obtain ⟨target, rfl⟩ := Int.eq_ofNat_of_zero_le h₀
  unfold aesdUnlockedIoctl.seek
  simp only [mutexLockInterruptible, storeFPos, mutexUnlock, Prog.bind_eq, Prog.call_bind,
    Prog.pure_bind, Prog.pure_eq]
  -- from here on the rounds are counted
  refine follows_step (some 0) rfl rfl (fun _ => rfl) fun err _ => Follows.ite trivial ?_
  refine (follows_walk ho (by omega)).bind ?_
  rintro byteCount g ⟨n, rfl, hn⟩
  have hall : (some n).all (· ≤ 9) := by simpa using hn
  refine follows_step (some n) rfl hall (fun _ => rfl) fun _ _ => ?_
  exact follows_step (some n) rfl hall (fun _ => rfl) fun _ _ => trivial

/-- The seek keeps the protocol, unless its index is negative. -/
theorem follows_seekText {filp : File} {arg : AesdSeekto} (ho : o < 10)
    (hcond : min env.notCopied sizeofSeekto ≠ 0 ∨ 0 ≤ seekIndex arg.writeCmd o) :
    Follows (seekProtocol env o) none (seekText filp arg) fun _ _ => True := by
  unfold seekText aesdUnlockedIoctl
  simp only [loadDev, copySeektoFromUser, Prog.bind_eq, Prog.call_bind, Prog.pure_bind, if_true,
    Prog.pure_eq]
  refine follows_loadDev fun dev hdev => follows_step none rfl rfl (fun _ => rfl) ?_
  rintro ⟨left, seekto⟩ ⟨w, w', -, hstep⟩
  cases hstep
  rcases hcond with hleft | h₀
  · rw [if_pos hleft]
    trivial
  refine Follows.ite trivial (follows_loadDev fun dev' hdev' => ?_)
  have hlt := seekIndex_lt arg.writeCmd o
  rw [hdev', hdev, ← seekIndex]
  generalize seekIndex arg.writeCmd o = index at *
  refine Follows.ite trivial ?_
  rw [entrySize_eq h₀ hlt]
  simp only [Prog.call_bind, Prog.pure_bind]
  exact follows_loadDev fun dev'' _ => Follows.ite trivial (follows_seek ho h₀ hlt _)

end Monitor

section Ends

variable {env : Env} {w : World} {l : Log} {arg : AesdSeekto} {filp : File}

theorem Shows.seekWalkEnds (h : Shows w l)
    (hcond : min env.notCopied sizeofSeekto ≠ 0 ∨ 0 ≤ seekIndex arg.writeCmd l.outOffs) :
    SeekWalkEnds env filp arg w := by
  have hafter : ∀ t q w', Runs (seekText filp arg) t q → Handles (kernelStep env) w t w' →
      ∃ g', (seekProtocol env l.outOffs).after none t = some g' := by
    intro t q w' hruns hhandles
    obtain ⟨g', hg', -⟩ := (follows_seekText l.outOffs_lt hcond).runs hruns
      (admits_of_handles hhandles h.outOffs none)
    exact ⟨g', hg'⟩
  -- inside the array, after nine rounds at the latest, and with a return
  refine ⟨fun t q w' hruns hhandles => ?_, fun t q w' hruns hhandles n hn => ?_, ?_⟩
  · obtain ⟨g', hg'⟩ := hafter t q w' hruns hhandles
    exact (after_seekProtocol rfl hg').1
  · obtain ⟨g', hg'⟩ := hafter t q w' hruns hhandles
    obtain ⟨-, hfold, hall⟩ := after_seekProtocol rfl hg'
    rw [hfold, show t.foldl noteRound none = some n from hn] at hall
    simpa using hall
  · by_cases hcopied : min env.notCopied sizeofSeekto = 0
    · have hexec := h.execute_ioctl filp arg hcopied
      have h₀ := hcond.resolve_left (not_not.mpr hcopied)
      rw [if_neg (not_lt.mpr h₀)] at hexec
      split_ifs at hexec
      · exact ⟨_, _, execute_bind _ hexec⟩
      · exact ⟨_, _, execute_bind _ hexec⟩
      · exact ⟨_, _, execute_bind _ hexec⟩
    · have hobs : Observes w l (invoke ⟨.ioctl filp aesdcharIocseekto arg, env⟩ w) _ :=
        h.observes_ioctl _ _
      rw [Log.ioctl_seek l env filp rfl, if_pos hcopied] at hobs
      obtain ⟨r, hok, -⟩ := hobs
      exact ⟨r, w, hok⟩

/-- The first events of a seek that reads beside the array. -/
def strayEvents (env : Env) (w : World) (arg : AesdSeekto) (index : ℤ) : List (Event kernel) :=
  [⟨.loadDev, w.dev⟩, ⟨.copySeektoFromUser arg, (min env.notCopied sizeofSeekto, arg)⟩,
    ⟨.loadDev, w.dev⟩, ⟨.strayLoad index, env.stray index⟩]

/-- With a negative index the check already reads beside the array. -/
theorem Shows.not_seekWalkEnds (h : Shows w l) (hcopied : min env.notCopied sizeofSeekto = 0)
    (hneg : seekIndex arg.writeCmd l.outOffs < 0) : ¬SeekWalkEnds env filp arg w := by
  intro hends
  -- the text up to the check of the offset
  have hruns : ∃ q, Runs (seekText filp arg)
      (strayEvents env w arg (seekIndex arg.writeCmd l.outOffs)) q := by
    unfold seekText aesdUnlockedIoctl strayEvents
    simp only [loadDev, copySeektoFromUser, Prog.bind_eq, Prog.call_bind, Prog.pure_bind, if_true,
      Prog.pure_eq]
    apply Exists.intro
    apply Runs.call
    apply Runs.call
    rw [if_neg (not_not.mpr hcopied)]
    apply Runs.call
    rw [h.outOffs, ← seekIndex]
    have hle : ¬seekIndex arg.writeCmd l.outOffs > (aesdcharMaxWriteOperationsSupported : ℕ) :=
      not_lt.mpr (seekIndex_lt _ _).le
    rw [if_neg hle, entrySize, if_neg (fun h₀ => absurd h₀.1 (not_le.mpr hneg))]
    apply Runs.call
    exact .refl _
  have hhandles : Handles (kernelStep env) w
      (strayEvents env w arg (seekIndex arg.writeCmd l.outOffs)) w :=
    .cons rfl (.cons rfl (.cons rfl (.cons rfl (.nil w))))
  obtain ⟨q, hruns⟩ := hruns
  have hmem : (⟨.strayLoad (seekIndex arg.writeCmd l.outOffs),
      env.stray (seekIndex arg.writeCmd l.outOffs)⟩ : Event kernel) ∈
        strayEvents env w arg (seekIndex arg.writeCmd l.outOffs) := by
    simp [strayEvents]
  exact hends.inBounds _ _ _ hruns hhandles _ hmem trivial

end Ends

/-- **When the walk ends in bounds.** In every state that calls lead to: exactly if the request
cannot be copied, or the sum of the command number and `out_offs` is not negative as an `int`, or it
is a multiple of ten then. -/
theorem seekWalkEnds_iff {is : List Invocation} {rs : List Reply} {w : World}
    (hrun : invokeAll is aesdInitModule = .ok (rs, w)) (env : Env) (filp : File) (arg : AesdSeekto) :
    SeekWalkEnds env filp arg w ↔
      min env.notCopied sizeofSeekto ≠ 0 ∨
        arg.writeCmd.toNat + w.dev.circBuf.outOffs < 2 ^ 31 ∨
        2 ^ 32 ≤ arg.writeCmd.toNat + w.dev.circBuf.outOffs ∨
        (2 ^ 32 - (arg.writeCmd.toNat + w.dev.circBuf.outOffs)) % 10 = 0 := by
  obtain ⟨l, h⟩ := exists_shows_of_invokeAll hrun
  rw [h.outOffs, ← seekIndex_nonneg_iff l.outOffs_lt]
  constructor
  · intro hends
    by_contra hcond
    rw [not_or, not_not, not_le] at hcond
    exact h.not_seekWalkEnds hcond.1 hcond.2 hends
  · exact h.seekWalkEnds

/-- Twelve commands of two bytes each. -/
def twelveWrites : List Invocation := List.replicate 12 ⟨.write 0 [97, newline], .calm 0⟩

/-- The slot of the oldest command after these writes, and where a seek then leads. -/
def seekAfterWrites (arg : AesdSeekto) : Option (ℕ × Reply × ℤ) :=
  (invokeAll twelveWrites aesdInitModule).toOption.bind fun p =>
    (invoke ⟨.ioctl 0 aesdcharIocseekto arg, .calm 0⟩ p.2).toOption.bind fun q =>
      some (p.2.dev.circBuf.outOffs, q.1, q.2.fPos 0)

theorem exists_ok_of_toOption_bind {ε α β : Type} {x : Except ε α} {f : α → Option β} {b : β}
    (h : x.toOption.bind f = some b) : ∃ a, x = .ok a ∧ f a = some b := by
  cases x with
  | error e => cases h
  | ok a => exact ⟨a, rfl, h⟩

/-- After twelve commands the oldest one is in slot 2, and the newest one nine rounds away from it:
the seek to its second byte leads to position 19. Two command numbers near 2³² lead to slot 0. -/
theorem seekWalkEnds_twelve_writes : ∃ rs w,
    invokeAll twelveWrites aesdInitModule = .ok (rs, w) ∧
      SeekWalkEnds (.calm 0) 0 ⟨9, 1⟩ w ∧
      (∃ w', invoke ⟨.ioctl 0 aesdcharIocseekto ⟨9, 1⟩, .calm 0⟩ w = .ok (.ofRetval 0, w') ∧
        w'.fPos 0 = 19) ∧
      SeekWalkEnds (.calm 0) 0 ⟨4294967294, 0⟩ w ∧ SeekWalkEnds (.calm 0) 0 ⟨4294967284, 0⟩ w := by
  have hseek : seekAfterWrites ⟨9, 1⟩ = some (2, .ofRetval 0, 19) := by decide +kernel
  obtain ⟨⟨rs, w⟩, hrun, hseek⟩ := exists_ok_of_toOption_bind hseek
  obtain ⟨⟨r, w'⟩, hok, hpos⟩ := exists_ok_of_toOption_bind hseek
  simp only [Option.some.injEq, Prod.mk.injEq] at hpos
  obtain ⟨hout, rfl, hpos⟩ := hpos
  have hends := fun arg => (seekWalkEnds_iff hrun (.calm 0) 0 arg).mpr
  rw [hout] at hends
  exact ⟨rs, w, hrun, hends _ (.inr (.inl (by decide))), ⟨w', hok, hpos⟩,
    hends _ (.inr (.inr (.inl (by decide)))), hends _ (.inr (.inr (.inr (by decide))))⟩

/-- A command number of 2³¹ makes the index -8. -/
theorem not_seekWalkEnds_int_min : ¬SeekWalkEnds (.calm 0) 0 ⟨2147483648, 0⟩ aesdInitModule :=
  stands_init.shows.not_seekWalkEnds rfl (by decide)

end Aesd.CharDriver

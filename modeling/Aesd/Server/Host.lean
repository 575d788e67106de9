import Aesd.CharDriver.ReadLog
import Aesd.Effects.Pool
import Aesd.Server.HandleClient
import Aesd.Streams.Provenance

/-! # Many connections over one device

Any number of clients, each served by its own `handle_client`, in any order of steps, on a host with
the device, a table of descriptors and the mutexes of the server. Every driver call is one step and
succeeds, apart from a seek to a place that does not exist. A number that is not the descriptor of
the device file at the time of a call may belong to anything else: such a call has any answer and
leaves the device alone. -/

namespace Aesd.Server

open Effects Streams CharDriver

/-- An open descriptor of the device. -/
structure OpenFile where
  /-- The open file behind it. -/
  file : File
  /-- The flags it was opened with. -/
  flags : OpenFlags

/-- What the connections share. -/
structure Host where
  /-- The device. -/
  world : World
  /-- The descriptors of the device file. -/
  files : ℤ → Option OpenFile
  /-- The next open file. -/
  nextFile : File
  /-- Who holds each mutex. -/
  owner : Mutex → Option ℕ

/-- A client and the thread that serves it. -/
structure Client where
  /-- The thread's `tinfo`. -/
  tinfo : ThreadInfo
  /-- `tinfo->client_fd`. -/
  fd : ℤ
  /-- What the receive buffer holds in the beginning. -/
  stack : Buffer
  /-- The bytes the client sends. -/
  stream : List UInt8

/-- A driver call may give the reply `r` and lead from `s` to `s'`. -/
def Host.Calls (s : Host) (call : Call) (r : Reply) (s' : Host) : Prop :=
  ∃ env w', invoke ⟨call, env⟩ s.world = .ok (r, w') ∧ s' = { s with world := w' }

/-- The answers of the system to the task `t` that serves `clients t`. What has been received is
always a beginning of what the client sends. -/
def hostAnswers (clients : ℕ → Client) (t : ℕ) (hist : List (Event posix)) :
    (o : PosixOp) → Host → PosixRes o → Host → Prop
  | .loadClientFd _, s, fd, s' => fd = (clients t).fd ∧ s' = s
  | .openFile flags, s, fd, s' =>
      fd.val = -1 ∧ s' = s ∨
        fd.val ≠ -1 ∧ s.files fd.val = none ∧ ∃ s₁, s.Calls (.open s.nextFile) (.ofRetval 0) s₁ ∧
          s' = { s₁ with
            files := Function.update s.files fd.val (some ⟨s.nextFile, flags⟩)
            nextFile := s.nextFile + 1 }
  | .recv _ _, s, r, s' => (chunks hist).flatten ++ r.data <+: (clients t).stream ∧ s' = s
  | .read fd n, s, r, s' =>
      match s.files fd with
      | some f => s.Calls (.read f.file n) ⟨r.retval, r.data⟩ s' ∧ 0 ≤ r.retval
      | none => s' = s
  | .write fd bytes, s, n, s' =>
      match s.files fd with
      | some ⟨file, .creatAppendRdwr⟩ => s.Calls (.write file bytes) (.ofRetval n) s' ∧ 0 ≤ n
      | _ => s' = s
  | .ioctl fd request arg, s, n, s' =>
      match s.files fd with
      | some f => ∃ r, s.Calls (.ioctl f.file request arg) r s' ∧
          n = if r.retval < 0 then -1 else r.retval
      | none => s' = s
  | .close fd, s, _, s' => s' = { s with files := Function.update s.files fd none }
  | .mutexLock m, s, _, s' =>
      s.owner m = none ∧ s' = { s with owner := Function.update s.owner m (some t) }
  | .mutexUnlock m, s, _, s' => s' = { s with owner := Function.update s.owner m none }
  | .send _ _, s, _, s' | .syslog _, s, _, s' | .listRemove _, s, _, s' | .free _, s, _, s'
  | .overrun _, s, _, s' => s' = s

/-- The server with its clients. -/
def server (clients : ℕ → Client) : Machine posix Host Unit where
  text t := handleClient (clients t).tinfo (clients t).stack
  answers := hostAnswers clients

/-- The bytes of a write that reaches the device. -/
def Host.deviceWrite (s : Host) : PosixOp → Option (List UInt8)
  | .write fd bytes =>
      match s.files fd with
      | some ⟨_, .creatAppendRdwr⟩ => some bytes
      | _ => none
  | _ => none

/-- The piece of its client's stream that an act brings to the device: the chunk received last. -/
def piece (a : Act posix Host) : Option (Piece ℕ UInt8) :=
  (a.before.deviceWrite a.event.op).map fun bytes =>
    ⟨a.task, (chunks a.hist).dropLast.flatten.length, bytes⟩

/-- The pieces brought to the device in the course of a run. -/
def pieces (τ : List (Act posix Host)) : List (Piece ℕ UInt8) := τ.filterMap piece

/-- The descriptor an operation works on. -/
def PosixOp.fd? : PosixOp → Option ℤ
  | .read fd _ | .write fd _ | .ioctl fd _ _ | .close fd => some fd
  | _ => none

theorem pieces_append (τ υ : List (Act posix Host)) : pieces (τ ++ υ) = pieces τ ++ pieces υ :=
  List.filterMap_append

theorem pieces_concat (τ : List (Act posix Host)) (a : Act posix Host) :
    pieces (τ ++ [a]) = pieces τ ++ (piece a).toList := by
  have hone : pieces [a] = (piece a).toList := by
    rw [pieces, List.filterMap_cons]
    cases piece a <;> rfl
  rw [pieces_append, hone]

theorem Host.exists_write_of_deviceWrite {s : Host} {o : PosixOp} {bytes : List UInt8}
    (h : s.deviceWrite o = some bytes) : ∃ fd, o = .write fd bytes := by
  cases o with
  | write fd bytes' =>
      rw [Host.deviceWrite] at h
      split at h
      · exact ⟨fd, by rw [Option.some.inj h]⟩
      · cases h
  | _ => cases h

/-! ### The host and the log of its device -/

/-- No two descriptors share an open file, and the next open file is new. -/
structure Distinct (files : ℤ → Option OpenFile) (next : File) : Prop where
  /-- Each descriptor has its own open file. -/
  apart : ∀ fd fd' f f', files fd = some f → files fd' = some f' → f.file = f'.file → fd = fd'
  /-- The next open file is new. -/
  fresh : ∀ fd f, files fd = some f → f.file < next

/-- The device of the host stands for the log, and its descriptors are in order. -/
structure Host.Sound (s : Host) (l : Log) : Prop where
  /-- The device stands for the log. -/
  stands : Stands s.world l
  /-- The descriptors are distinct. -/
  distinct : Distinct s.files s.nextFile

section Table

variable {files : ℤ → Option OpenFile} {next : File} {fd : ℤ} {flags : OpenFlags}

/-- Opening a descriptor. -/
theorem Distinct.insert (h : Distinct files next) :
    Distinct (Function.update files fd (some ⟨next, flags⟩)) (next + 1) := by
  have hget : ∀ fd' f, Function.update files fd (some ⟨next, flags⟩) fd' = some f →
      fd' = fd ∧ f.file = next ∨ files fd' = some f ∧ f.file < next := by
    intro fd' f hf
    by_cases hfd : fd' = fd
    · rw [hfd, Function.update_self, Option.some.injEq] at hf
      exact .inl ⟨hfd, by rw [← hf]⟩
    · rw [Function.update_of_ne hfd] at hf
      exact .inr ⟨hf, h.fresh fd' f hf⟩
  constructor
  · intro fd₁ fd₂ f₁ f₂ h₁ h₂ heq
    rcases hget fd₁ f₁ h₁ with ⟨rfl, hnew₁⟩ | ⟨hold₁, hlt₁⟩ <;>
      rcases hget fd₂ f₂ h₂ with ⟨rfl, hnew₂⟩ | ⟨hold₂, hlt₂⟩
    · rfl
    · exact absurd (hnew₁ ▸ heq ▸ hlt₂) (lt_irrefl _)
    · exact absurd (hnew₂ ▸ heq ▸ hlt₁) (lt_irrefl _)
    · exact h.apart fd₁ fd₂ f₁ f₂ hold₁ hold₂ heq
  · intro fd' f hf
    rcases hget fd' f hf with ⟨-, hnew⟩ | ⟨-, hlt⟩
    · exact hnew ▸ Nat.lt_succ_self _
    · exact hlt.trans (Nat.lt_succ_self _)

/-- Closing a descriptor. -/
theorem Distinct.erase (h : Distinct files next) : Distinct (Function.update files fd none) next := by
  have hget : ∀ fd' f, Function.update files fd none fd' = some f → files fd' = some f := by
    intro fd' f hf
    by_cases hfd : fd' = fd
    · rw [hfd, Function.update_self] at hf
      cases hf
    · rwa [Function.update_of_ne hfd] at hf
  exact ⟨fun fd₁ fd₂ f₁ f₂ h₁ h₂ => h.apart fd₁ fd₂ f₁ f₂ (hget _ _ h₁) (hget _ _ h₂),
    fun fd' f hf => h.fresh fd' f (hget _ _ hf)⟩

end Table

/-- The host before any connection, the module freshly loaded. -/
def Host.init : Host where
  world := aesdInitModule
  files := fun _ => none
  nextFile := 0
  owner := fun _ => none

theorem Host.sound_init : Host.init.Sound Log.init where
  stands := stands_init
  distinct :=
    { apart := fun _ _ _ _ h => by cases h
      fresh := fun _ _ h => by cases h }

section Sound

variable {clients : ℕ → Client} {t : ℕ} {hist : List (Event posix)} {s s' : Host} {l : Log}
  {call : Call} {r : Reply}

/-- A driver call on the host is a step of the log. -/
theorem Host.Sound.calls (h : s.Sound l) (hc : s.Calls call r s') (hr : ¬r.Failed) :
    ∃ l' env, l.apply ⟨call, env⟩ = .ok (some (r, l')) ∧ s'.Sound l' ∧ s'.files = s.files ∧
      l'.stream = l.stream ++ firstLine isNewline call.data ∧
      ∀ file, file ≠ call.file → l'.fPos file = l.fPos file := by
  obtain ⟨env, w', hi, rfl⟩ := hc
  obtain ⟨l', happ, h'⟩ := h.stands.granted hi hr
  obtain ⟨hstream, hpos⟩ := Log.apply_effect happ
  exact ⟨l', env, happ, ⟨h', h.distinct⟩, rfl, hstream, hpos⟩

/-- A driver call that fails leaves the log as it is, unless it is a write. -/
theorem Host.Sound.calls_failed (h : s.Sound l) (hc : s.Calls call r s') (hr : r.Failed)
    (hdata : ∀ filp buf, call ≠ .write filp buf) : s'.Sound l ∧ s'.files = s.files := by
  obtain ⟨env, w', hi, rfl⟩ := hc
  have hs : ¬Spoils ⟨call, env⟩ s.world := by
    cases call with
    | write filp buf => exact absurd rfl (hdata filp buf)
    | _ => exact fun h => h
  rcases h.stands.returns hs hi with ⟨-, -, h'⟩ | ⟨hok, -⟩
  · exact ⟨⟨h', h.distinct⟩, rfl⟩
  · exact absurd hr hok

theorem not_failed_of_nonneg {n : ℤ} {bytes : List UInt8} (hn : 0 ≤ n) : ¬Reply.Failed ⟨n, bytes⟩ :=
  not_lt.mpr hn

/-- What one operation does to the log: a write that reaches the device feeds its first line, and
what is behind a descriptor the operation does not work on stays as it is. -/
structure Host.Step (s : Host) (l : Log) (o : PosixOp) (s' : Host) (l' : Log) : Prop where
  /-- The host stays sound. -/
  sound : s'.Sound l'
  /-- What is fed. -/
  stream : l'.stream = l.stream ++ (s.deviceWrite o).elim [] (firstLine isNewline)
  /-- The other descriptors. -/
  others : ∀ fd f, s.files fd = some f → o.fd? ≠ some fd →
    s'.files fd = some f ∧ l'.fPos f.file = l.fPos f.file

/-- What the operation `o` can do to the host `s`. -/
inductive Host.Effect (s : Host) (o : PosixOp) : Host → Prop where
  /-- The device and the descriptors stay as they are. -/
  | none {s' : Host} (hwrite : s.deviceWrite o = .none) (hworld : s'.world = s.world)
      (hfiles : s'.files = s.files) (hnext : s'.nextFile = s.nextFile) : s.Effect o s'
  /-- A driver call through a descriptor, not a write. -/
  | call {s' : Host} {fd : ℤ} {f : OpenFile} {call : Call} {r : Reply}
      (hwrite : s.deviceWrite o = .none) (hfd : o.fd? = some fd) (hf : s.files fd = some f)
      (hc : s.Calls call r s') (hfile : call.file = f.file)
      (hnowrite : ∀ filp buf, call ≠ .write filp buf) : s.Effect o s'
  /-- A write that reaches the device. -/
  | wrote {s' : Host} {fd : ℤ} {f : OpenFile} {bytes : List UInt8} {n : ℤ}
      (hwrite : s.deviceWrite o = some bytes) (hfd : o.fd? = some fd) (hf : s.files fd = some f)
      (hc : s.Calls (.write f.file bytes) (.ofRetval n) s') (hn : 0 ≤ n) : s.Effect o s'
  /-- The device is opened. -/
  | opened {s₁ : Host} {fd : ℤ} (flags : OpenFlags) (hwrite : s.deviceWrite o = .none)
      (hfree : s.files fd = .none) (hc : s.Calls (.open s.nextFile) (.ofRetval 0) s₁) :
      s.Effect o { s₁ with
        files := Function.update s.files fd (some ⟨s.nextFile, flags⟩)
        nextFile := s.nextFile + 1 }
  /-- A descriptor is closed. -/
  | closed {fd : ℤ} (hwrite : s.deviceWrite o = .none) (hfd : o.fd? = some fd) :
      s.Effect o { s with files := Function.update s.files fd .none }

/-- **What the answers of the host allow.** -/
theorem effect_of_answers {o : PosixOp} {r : PosixRes o} (ha : hostAnswers clients t hist o s r s') :
    s.Effect o s' := by
  cases o with
  | openFile flags =>
      rcases ha with ⟨-, rfl⟩ | ⟨-, hfree, s₁, hc, rfl⟩
      · exact .none rfl rfl rfl rfl
      · exact .opened flags rfl hfree hc
  | read fd n =>
      rw [hostAnswers] at ha
      cases hf : s.files fd with
      | none =>
          rw [hf] at ha
          subst ha
          exact .none rfl rfl rfl rfl
      | some f =>
          rw [hf] at ha
          exact .call rfl rfl hf ha.1 rfl (by simp)
  | write fd bytes =>
      have hother : s' = s → s.deviceWrite (.write fd bytes) = none →
          s.Effect (.write fd bytes) s' := by
        rintro rfl hnone
        exact .none hnone rfl rfl rfl
      rw [hostAnswers] at ha
      cases hf : s.files fd with
      | none =>
          rw [hf] at ha
          exact hother ha (by rw [Host.deviceWrite, hf])
      | some f =>
          obtain ⟨file, flags⟩ := f
          rw [hf] at ha
          cases flags with
          | rdonly => exact hother ha (by rw [Host.deviceWrite, hf])
          | creatAppendRdwr =>
              exact .wrote (by rw [Host.deviceWrite, hf]) rfl hf ha.1 ha.2
  | ioctl fd request arg =>
      rw [hostAnswers] at ha
      cases hf : s.files fd with
      | none =>
          rw [hf] at ha
          subst ha
          exact .none rfl rfl rfl rfl
      | some f =>
          rw [hf] at ha
          obtain ⟨reply, hc, -⟩ := ha
          exact .call rfl rfl hf hc rfl (by simp)
  | close fd =>
      obtain rfl := ha
      exact .closed rfl rfl
  | loadClientFd tinfo =>
      obtain ⟨-, rfl⟩ := ha
      exact .none rfl rfl rfl rfl
  | recv fd n =>
      obtain ⟨-, rfl⟩ := ha
      exact .none rfl rfl rfl rfl
  | mutexLock m =>
      obtain ⟨-, rfl⟩ := ha
      exact .none rfl rfl rfl rfl
  | _ =>
      -- nothing but the mutexes can have changed
      obtain rfl := ha
      exact .none rfl rfl rfl rfl

/-- An operation on another descriptor works on another file. -/
theorem Distinct.file_ne {files : ℤ → Option OpenFile} {next file : File} {o : PosixOp} {fd fd' : ℤ}
    {f f' : OpenFile} (h : Distinct files next) (hf : files fd = some f) (hf' : files fd' = some f')
    (hfd : o.fd? = some fd) (hfile : file = f.file) (hne : o.fd? ≠ some fd') : f'.file ≠ file := by
  intro heq
  apply hne
  rw [hfd, h.apart fd fd' f f' hf hf' (hfile.symm.trans heq.symm)]

/-- Opening or closing leaves the other descriptors. -/
theorem update_files_of_ne {files : ℤ → Option OpenFile} {fd fd' : ℤ} {f' : OpenFile}
    {f : Option OpenFile} (hf' : files fd' = some f') (hne : fd' ≠ fd) :
    Function.update files fd f fd' = some f' := (Function.update_of_ne hne _ _).trans hf'

/-- A descriptor that the operation does not work on. -/
theorem Host.Effect.files {s s' : Host} {o : PosixOp} {fd : ℤ} {f : OpenFile} (h : s.Effect o s')
    (hf : s.files fd = some f) (hne : o.fd? ≠ some fd) : s'.files fd = some f := by
  cases h with
  | none _ _ hfiles _ => rw [hfiles, hf]
  | call _ _ _ hc =>
      obtain ⟨env, w', -, rfl⟩ := hc
      exact hf
  | wrote _ _ _ hc _ =>
      obtain ⟨env, w', -, rfl⟩ := hc
      exact hf
  | opened flags _ hfree _ =>
      refine update_files_of_ne hf ?_
      rintro rfl
      rw [hfree] at hf
      cases hf
  | closed _ hfd => exact update_files_of_ne hf fun heq => hne (heq ▸ hfd)

/-- **The step lemma of the host.** -/
theorem Host.Sound.step (h : s.Sound l) {o : PosixOp} {r : PosixRes o}
    (ha : hostAnswers clients t hist o s r s') : ∃ l', s.Step l o s' l' := by
  have hkeep : s.deviceWrite o = none →
      l.stream = l.stream ++ (s.deviceWrite o).elim [] (firstLine isNewline) := by
    intro hwrite
    rw [hwrite]
    exact (List.append_nil _).symm
  cases effect_of_answers ha with
  | none hwrite hworld hfiles hnext =>
      refine ⟨l, ⟨hworld ▸ h.stands, by rw [hfiles, hnext]; exact h.distinct⟩, hkeep hwrite, ?_⟩
      exact fun fd f hf _ => ⟨by rw [hfiles, hf], rfl⟩
  | @call _ fd f call reply hwrite hfd hf hc hfile hnowrite =>
      by_cases hr : reply.Failed
      · obtain ⟨h', hfiles⟩ := h.calls_failed hc hr hnowrite
        exact ⟨l, h', hkeep hwrite, fun fd' f' hf' _ => ⟨by rw [hfiles, hf'], rfl⟩⟩
      · obtain ⟨l', -, -, h', hfiles, hstream, hpos⟩ := h.calls hc hr
        rw [Call.data_eq_nil hnowrite] at hstream
        refine ⟨l', h', by rw [hstream, hwrite]; rfl, fun fd' f' hf' hne => ⟨by rw [hfiles, hf'], ?_⟩⟩
        exact hpos _ (h.distinct.file_ne hf hf' hfd hfile hne)
  | @wrote _ fd f bytes n hwrite hfd hf hc hn =>
      obtain ⟨l', -, -, h', hfiles, hstream, hpos⟩ := h.calls hc (not_failed_of_nonneg hn)
      refine ⟨l', h', by rw [hstream, hwrite]; rfl, fun fd' f' hf' hne => ⟨by rw [hfiles, hf'], ?_⟩⟩
      exact hpos _ (h.distinct.file_ne hf hf' hfd rfl hne)
  | @opened s₁ fd flags hwrite hfree hc =>
      obtain ⟨l', -, -, h', hfiles, hstream, hpos⟩ := h.calls hc (by decide)
      -- the new descriptor has the new file, the others are as before
      refine ⟨l', ⟨h'.stands, h.distinct.insert⟩, by rw [hstream, hwrite]; rfl, ?_⟩
      intro fd' f hf _
      have hfd : fd' ≠ fd := by
        rintro rfl
        rw [hfree] at hf
        cases hf
      exact ⟨update_files_of_ne hf hfd, hpos _ (ne_of_lt (h.distinct.fresh fd' f hf))⟩
  | @closed fd hwrite hfd =>
      refine ⟨l, ⟨h.stands, h.distinct.erase⟩, hkeep hwrite, fun fd' f hf hne => ⟨?_, rfl⟩⟩
      exact update_files_of_ne hf fun heq => hne (heq ▸ hfd)

/-- The device is opened at its start. -/
theorem Host.Sound.opened (h : s.Sound l) {flags : OpenFlags} {fd : Descriptor}
    (ha : hostAnswers clients t hist (.openFile flags) s fd s') (hfd : fd.val ≠ -1) :
    ∃ l' f, s'.Sound l' ∧ s'.files fd.val = some f ∧ l'.fPos f.file = 0 := by
  rcases ha with ⟨hno, -⟩ | ⟨-, -, s₁, hc, rfl⟩
  · exact absurd hno hfd
  · obtain ⟨l', env, happ, h', hfiles, -⟩ := h.calls hc (by decide)
    have hseek : l.seekTo s.nextFile 0 = l' := by
      rw [Log.apply, Except.ok.injEq, Option.some.injEq, Prod.mk.injEq] at happ
      exact happ.2
    subst hseek
    refine ⟨_, ⟨s.nextFile, flags⟩, ⟨h'.stands, h.distinct.insert⟩, Function.update_self _ _ _, ?_⟩
    exact Function.update_self _ _ _

/-- A read returns a piece of the contents from the position on, and nothing only at the end. -/
theorem Host.Sound.reads (h : s.Sound l) {fd : ℤ} {n pos : ℕ} {f : OpenFile} {r : Transfer n}
    (hf : s.files fd = some f) (hpos : l.fPos f.file = pos) (hle : pos ≤ l.contents.length)
    (hn : 0 < n) (ha : hostAnswers clients t hist (.read fd n) s r s') :
    ∃ l', s'.Sound l' ∧ s'.files = s.files ∧ l'.contents = l.contents ∧
      l'.fPos f.file = (pos + r.data.length : ℕ) ∧ r.data <+: l.contents.drop pos ∧
      (r.retval ≤ 0 → l.contents.length ≤ pos) := by
  rw [hostAnswers, hf] at ha
  obtain ⟨hc, hr⟩ := ha
  obtain ⟨l', env, happ, h', hfiles, -⟩ := h.calls hc (not_failed_of_nonneg hr)
  have hcontents := h.stands.length_contents_lt
  obtain ⟨hretval, rfl, hpre, hend⟩ :=
    Log.read_reply hn (Except.ok.inj happ) hpos (by omega) (by omega)
  refine ⟨_, h', hfiles, rfl, Function.update_self _ _ _, hpre, fun hle => hend.mp ?_⟩
  rw [show r.retval = r.data.length from hretval] at hle
  apply List.eq_nil_of_length_eq_zero
  show r.data.length = 0
  omega

end Sound

/-! ### Runs -/

/-- What the pieces feed to the device: the first line of each. -/
def fed (ps : List (Piece ℕ UInt8)) : List UInt8 := ps.flatMap fun p => firstLine isNewline p.symbols

section Runs

variable {clients : ℕ → Client} {p q : Pool posix Host Unit} {τ : List (Act posix Host)} {l : Log}

/-- The run lemma: the device is fed the first lines of the pieces, and what is behind a descriptor
that no operation works on stays as it is. -/
theorem Host.Sound.steps (h : p.shared.Sound l) (hrun : Steps (server clients) p τ q) :
    ∃ l', q.shared.Sound l' ∧ l'.stream = l.stream ++ fed (pieces τ) ∧
      ∀ fd f, p.shared.files fd = some f → (∀ a ∈ τ, a.event.op.fd? ≠ some fd) →
        q.shared.files fd = some f ∧ l'.fPos f.file = l.fPos f.file := by
  induction hrun with
  | refl => exact ⟨l, h, (List.append_nil _).symm, fun _ _ hf _ => ⟨hf, rfl⟩⟩
  | act t _ _ hr ih =>
      obtain ⟨l₁, h₁, hstream₁, hframe⟩ := ih
      obtain ⟨l', hl⟩ := h₁.step hr
      refine ⟨l', hl.sound, ?_, fun fd f hf hτ => ?_⟩
      · rw [hl.stream, hstream₁, pieces_concat, fed, fed, List.flatMap_append, List.append_assoc,
          piece]
        cases Host.deviceWrite _ _ <;> simp
      · obtain ⟨hfile, hpos⟩ := hframe fd f hf fun a ha => hτ a (List.mem_append_left _ ha)
        obtain ⟨hfile', hpos'⟩ := hl.others fd f hfile (hτ _ List.mem_concat_self)
        exact ⟨hfile', hpos'.trans hpos⟩
  | loop t _ _ ih => exact ih

/-- The device before an act of a run. -/
theorem Host.Sound.before (h : p.shared.Sound l) (hrun : Steps (server clients) p τ q)
    {a : Act posix Host} (ha : a ∈ τ) :
    ∃ pre l', pre <+: τ ∧ a.before.Sound l' ∧ l'.stream = l.stream ++ fed (pieces pre) := by
  obtain ⟨pre, post, rfl⟩ := List.append_of_mem ha
  rw [List.append_cons] at hrun
  obtain ⟨m, hpre, -⟩ := hrun.split
  obtain ⟨m₀, -, hpre₀, hbefore, -⟩ := hpre.last
  obtain ⟨l', hl, hstream, -⟩ := h.steps hpre₀
  exact ⟨pre, l', List.prefix_append _ _, hbefore ▸ hl, hstream⟩

/-- Nothing is evicted from a device that is fed ten commands at most. -/
theorem Host.Sound.kept (h : p.shared.Sound l) (hrun : Steps (server clients) p τ q)
    (hfew : (lines isNewline (l.stream ++ fed (pieces τ))).length ≤ 10) :
    ∀ a ∈ τ, a.before.world.retained <+: a.after.world.retained := by
  induction hrun with
  | refl => simp
  | @act q τ t o k r s' hpre hprog hr ih =>
      obtain ⟨l₁, h₁, hstream₁, -⟩ := h.steps hpre
      obtain ⟨l₂, h₂, hstream₂, -⟩ := h.steps (hpre.act t hprog hr)
      -- what has been fed before the act is a beginning of what has been fed after it
      have hlines : lines isNewline l₁.stream <+: lines isNewline l₂.stream := by
        rw [hstream₂, hstream₁, pieces_append, fed, fed, List.flatMap_append, ← List.append_assoc]
        exact lines_isPrefix _ _
      rw [← hstream₂] at hfew
      intro a ha
      rcases List.mem_append.mp ha with ha | ha
      · exact ih (by rw [← hstream₁]; exact hlines.length_le.trans hfew) a ha
      · obtain rfl := List.mem_singleton.mp ha
        have hbefore : q.shared.world.retained = (lines isNewline l₁.stream).map some := by
          rw [h₁.stands.retained, Log.commands,
            rtake_of_length_le (hlines.length_le.trans hfew)]
        have hafter : s'.world.retained = (lines isNewline l₂.stream).map some := by
          rw [show s'.world = (Pool.setTask { q with shared := s' } t _).shared.world from rfl,
            h₂.stands.retained, Log.commands, rtake_of_length_le hfew]
        show q.shared.world.retained <+: s'.world.retained
        rw [hbefore, hafter]
        exact hlines.map some
  | loop t _ _ ih => exact ih hfew

end Runs

end Aesd.Server

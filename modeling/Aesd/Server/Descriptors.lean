import Aesd.Server.Sessions

/-! # Descriptors of a connection

`file_fd` is opened once, before the loop, and closed in every round that uses it. So a connection
keeps the descriptor discipline exactly if one round uses it: with none it stays open, and the
second one works on a number that is no longer its own. -/

namespace Aesd.Server

open Effects CLib CharDriver

/-- The descriptors a connection has open: it may use and close only what it has opened itself and
not yet closed. -/
def descriptorStep (own : List ℤ) : Event posix → Option (List ℤ)
  | ⟨.openFile _, fd⟩ => some (if fd.val = -1 then own else fd.val :: own)
  | ⟨.read fd _, _⟩ | ⟨.write fd _, _⟩ | ⟨.ioctl fd _ _, _⟩ => if fd ∈ own then some own else none
  | ⟨.close fd, _⟩ => if fd ∈ own then some (own.erase fd) else none
  | _ => some own

/-- The monitor of the descriptors. -/
def descriptors : Monitor posix (List ℤ) where
  expects _ _ := True
  step := descriptorStep

/-- The connection uses and closes only descriptors it has open, and leaves none open. -/
def KeepsDescriptors (t : List (Event posix)) : Prop := descriptors.after [] t = some []

/-- `file_fd` cannot be opened. -/
def fileFails : Event posix → Bool
  | ⟨.openFile .creatAppendRdwr, fd⟩ => fd.val = -1
  | _ => false

/-- The chunk calls for `file_fd`: it is data or a well-formed seek. -/
def needsFile (chunk : List UInt8) : Bool := (request chunk).isSome

/-! ### The ledger of a connection -/

/-- What is needed to tell whether the discipline is kept. -/
structure Ledger where
  /-- The descriptors open, `none` after an offence. -/
  own : Option (List ℤ)
  /-- `file_fd` could not be opened. -/
  failed : Bool
  /-- How many chunks called for `file_fd`. -/
  served : ℕ

/-- One more event. -/
def Ledger.note (g : Ledger) (e : Event posix) : Ledger where
  own := g.own.bind (descriptorStep · e)
  failed := fileFails e || g.failed
  served := g.served + ((received e).any needsFile).toNat

/-- The monitor that keeps the ledger. -/
abbrev ledger : Monitor posix Ledger := .watch (fun _ => True) Ledger.note

theorem foldl_note (g : Ledger) (t : List (Event posix)) :
    t.foldl Ledger.note g =
      ⟨g.own.bind (descriptors.after · t), t.any fileFails || g.failed,
        g.served + ((chunks t).filter needsFile).length⟩ := by
  induction t generalizing g with
  | nil =>
      obtain ⟨own, failed, served⟩ := g
      cases own <;> rfl
  | cons e t ih =>
      rw [List.foldl_cons, ih]
      -- one event, field by field
      have hown : (g.note e).own.bind (descriptors.after · t) =
          g.own.bind (descriptors.after · (e :: t)) := by
        rw [Ledger.note, Option.bind_assoc]
        rfl
      have hfailed : (t.any fileFails || (g.note e).failed) =
          ((e :: t).any fileFails || g.failed) := by
        rw [Ledger.note, List.any_cons, ← Bool.or_assoc, Bool.or_comm (t.any fileFails)]
      have hserved : (g.note e).served + ((chunks t).filter needsFile).length =
          g.served + ((chunks (e :: t)).filter needsFile).length := by
        rw [Ledger.note, chunks_cons]
        cases received e with
        | none => rfl
        | some c =>
            cases hc : needsFile c with
            | false => simp [hc]
            | true => simp [hc]; omega
      rw [hown, hfailed, hserved]

/-- Operations that say nothing about descriptors and chunks. -/
def PosixOp.isBystander : PosixOp → Bool
  | .loadClientFd _ | .send _ _ | .mutexLock _ | .mutexUnlock _ | .syslog _ | .overrun _ => true
  | _ => false

theorem ledger_ignores {o : PosixOp} (ho : o.isBystander = true) : ledger.Ignores o := by
  rintro ⟨own, failed, served⟩ r
  cases o <;> first
    | exact absurd ho Bool.false_ne_true
    | (cases own <;> rfl)

/-! ### What a round does to the ledger -/

/-- The descriptors between two rounds, after `n` chunks that called for `file_fd`. -/
def ownAfter (fileFd : ℤ) : ℕ → Option (List ℤ)
  | 0 => some [fileFd]
  | 1 => some []
  | _ + 2 => none

/-- The descriptors in a round that has used `file_fd` after `n` others. -/
def ownWithin (fileFd : ℤ) (n : ℕ) : Option (List ℤ) := if n = 0 then some [fileFd] else none

section Rounds

variable {tinfo : ThreadInfo} {clientFd fileFd : ℤ} {buffer : Buffer} {r : Transfer bufferSize}
  {n m : ℕ}

theorem use_ownAfter : ((ownAfter fileFd n).bind fun own => if fileFd ∈ own then some own else none) =
    ownWithin fileFd n := by
  rcases n with _ | _ | n <;> simp [ownAfter, ownWithin]

theorem use_ownWithin :
    ((ownWithin fileFd n).bind fun own => if fileFd ∈ own then some own else none) =
      ownWithin fileFd n := by
  cases n <;> simp [ownWithin]

theorem close_ownWithin :
    ((ownWithin fileFd n).bind fun own => if fileFd ∈ own then some (own.erase fileFd) else none) =
      ownAfter fileFd (n + 1) := by
  cases n <;> simp [ownAfter, ownWithin]

/-- The seek branch uses `file_fd` and closes it. -/
theorem follows_performSeek {seekto : AesdSeekto} (hfd : 0 ≤ fileFd) :
    Follows ledger ⟨ownAfter fileFd n, false, m⟩ (performSeek tinfo fileFd seekto)
      fun _ g => g = ⟨ownAfter fileFd (n + 1), false, m⟩ := by
  have hloop : Follows ledger ⟨ownWithin fileFd n, false, m⟩
      ((Prog.iterate (fun () => sendRest tinfo fileFd) ()).bind fun _ => close fileFd)
      fun _ g => g = ⟨ownAfter fileFd (n + 1), false, m⟩ := by
    refine (Follows.iterate (fun _ g => g = ⟨ownWithin fileFd n, false, m⟩)
      (Q := fun _ g => g = ⟨ownWithin fileFd n, false, m⟩) rfl ?_).bind ?_
    · rintro _ _ rfl
      simp only [sendRest, read, loadClientFd, send, Prog.bind_eq, Prog.call_bind, Prog.pure_bind,
        Prog.pure_eq]
      apply Follows.note
      intro r _
      simp only [Ledger.note, descriptorStep, use_ownWithin]
      refine Follows.ite ?_ rfl
      refine Follows.skip (ledger_ignores rfl) fun _ _ => ?_
      exact Follows.skip (ledger_ignores rfl) fun _ _ => rfl
    · rintro _ _ rfl
      apply Follows.note
      intro r _
      simp only [Ledger.note, descriptorStep, close_ownWithin]
      rfl
  -- an open descriptor is not negative
  simp only [performSeek, ioctl, syslog, Prog.bind_eq, Prog.call_bind, Prog.pure_bind]
  rw [if_neg (by omega)]
  apply Follows.note
  intro r _
  simp only [Ledger.note, descriptorStep, use_ownAfter]
  split
  · exact Follows.skip (ledger_ignores rfl) fun _ _ => hloop
  · exact hloop

/-- A response opens, uses and closes a descriptor of its own. -/
theorem follows_respond {own : Option (List ℤ)} {k : ℕ} {c : Bool} :
    Follows ledger ⟨own, c, m⟩ (respond clientFd buffer k) fun _ g => g = ⟨own, c, m⟩ := by
  simp only [respond, openFile, syslog, close, Prog.bind_eq, Prog.call_bind, Prog.pure_bind,
    Prog.pure_eq]
  refine Follows.ite ?_ rfl
  apply Follows.note
  intro fd _
  by_cases hfd : fd.val = -1
  · rw [if_pos hfd]
    refine Follows.skip (ledger_ignores rfl) fun _ _ => ?_
    simp only [Follows.pure_iff, Ledger.note, descriptorStep, if_pos hfd]
    cases own <;> rfl
  · rw [if_neg hfd]
    -- the descriptor stays the newest one until it is closed
    have hopen : Ledger.note ⟨own, c, m⟩ ⟨.openFile .rdonly, fd⟩ =
        ⟨own.map (fd.val :: ·), c, m⟩ := by
      simp only [Ledger.note, descriptorStep, if_neg hfd]
      cases own <;> rfl
    rw [hopen]
    refine (Follows.iterate (fun _ g => g = ⟨own.map (fd.val :: ·), c, m⟩)
      (Q := fun _ g => g = ⟨own.map (fd.val :: ·), c, m⟩) rfl ?_).bind ?_
    · rintro buffer _ rfl
      simp only [echo, read, send, syslog, Prog.bind_eq, Prog.call_bind, Prog.pure_bind,
        Prog.pure_eq]
      apply Follows.note
      intro r _
      have hread : Ledger.note ⟨own.map (fd.val :: ·), c, m⟩ ⟨.read fd.val bufferSize, r⟩ =
          ⟨own.map (fd.val :: ·), c, m⟩ := by
        cases own <;> simp [Ledger.note, descriptorStep, fileFails, received]
      rw [hread]
      refine Follows.ite (Follows.skip (ledger_ignores rfl) fun _ _ => ?_) rfl
      exact Follows.ite (Follows.skip (ledger_ignores rfl) fun _ _ => rfl) rfl
    · rintro buffer _ rfl
      apply Follows.note
      intro r _
      cases own <;> simp [Ledger.note, descriptorStep, fileFails, received]

/-- The data branch uses `file_fd` and closes it. -/
theorem follows_storeData {k : ℕ} (hfd : 0 ≤ fileFd) :
    Follows ledger ⟨ownAfter fileFd n, false, m⟩ (storeData clientFd fileFd buffer k)
      fun _ g => g = ⟨ownAfter fileFd (n + 1), false, m⟩ := by
  simp only [storeData, mutexLock, mutexUnlock, write, syslog, close, Prog.bind_eq, Prog.call_bind,
    Prog.pure_bind, Prog.pure_eq]
  refine Follows.skip (ledger_ignores rfl) fun _ _ => ?_
  rw [if_neg (by omega)]
  apply Follows.note
  intro r _
  simp only [Ledger.note, descriptorStep, use_ownAfter]
  split
  · refine Follows.skip (ledger_ignores rfl) fun _ _ => ?_
    apply Follows.note
    intro _ _
    simp only [Ledger.note, descriptorStep, close_ownWithin]
    exact Follows.skip (ledger_ignores rfl) fun _ _ => rfl
  · apply Follows.note
    intro _ _
    simp only [Ledger.note, descriptorStep, close_ownWithin]
    exact Follows.skip (ledger_ignores rfl) fun _ _ => follows_respond

/-- A round with an open `file_fd`. -/
theorem follows_serve_opened (hfd : 0 ≤ fileFd) (n : ℕ) :
    Follows ledger ⟨ownAfter fileFd n, false, n⟩ (serve tinfo clientFd fileFd buffer)
      fun _ g => ∃ n', g = ⟨ownAfter fileFd n', false, n'⟩ := by
  -- the loop is left, a seek command, or data
  refine follows_serve (fun _ => ledger_ignores rfl) fun r _ => ⟨_, rfl, ?_, ?_, ?_⟩
  · intro hr
    refine ⟨n, ?_⟩
    simp only [Ledger.note, received, if_neg (by omega : ¬0 < r.retval)]
    cases ownAfter fileFd n <;> rfl
  · intro hr hstart
    have hnote : Ledger.note ⟨ownAfter fileFd n, false, n⟩ ⟨.recv clientFd bufferSize, r⟩ =
        ⟨ownAfter fileFd n, false, n + (request r.data).isSome.toNat⟩ := by
      simp only [Ledger.note, received, if_pos hr]
      cases ownAfter fileFd n <;> rfl
    rw [hnote]
    refine follows_seekCommand (fun _ => ledger_ignores rfl) hstart (fun x y hxy => ?_) fun hbad => ?_
    · rw [hxy]
      exact (follows_performSeek hfd).mono fun _ _ h => ⟨n + 1, h⟩
    · rw [hbad]
      exact Follows.skip (ledger_ignores rfl) fun _ _ => ⟨n, rfl⟩
  · intro hr hstart
    have hnote : Ledger.note ⟨ownAfter fileFd n, false, n⟩ ⟨.recv clientFd bufferSize, r⟩ =
        ⟨ownAfter fileFd n, false, n + 1⟩ := by
      simp only [Ledger.note, received, if_pos hr, Option.any_some, needsFile,
        request_eq_data_iff.mpr hstart]
      cases ownAfter fileFd n <;> rfl
    rw [hnote]
    exact (follows_storeData hfd).mono fun _ _ h => ⟨n + 1, h⟩

/-- A round without `file_fd`. -/
theorem follows_serve_failed (n : ℕ) :
    Follows ledger ⟨some [], true, n⟩ (serve tinfo clientFd (-1) buffer)
      fun _ g => ∃ n', g = ⟨some [], true, n'⟩ := by
  refine follows_serve (fun _ => ledger_ignores rfl) fun r _ => ⟨_, rfl, ?_, ?_, ?_⟩
  · exact fun _ => ⟨_, rfl⟩
  · intro _ hstart
    refine follows_seekCommand (fun _ => ledger_ignores rfl) hstart (fun _ _ _ => ?_) fun _ => ?_
    · exact Follows.skip (ledger_ignores rfl) fun _ _ => ⟨_, rfl⟩
    · exact Follows.skip (ledger_ignores rfl) fun _ _ => ⟨_, rfl⟩
  · intro _ _
    refine Follows.skip (ledger_ignores rfl) fun _ _ => ?_
    refine Follows.skip (ledger_ignores rfl) fun _ _ => ?_
    exact Follows.skip (ledger_ignores rfl) fun _ _ => ⟨_, rfl⟩

/-- What the ledger says when the loop has been left. -/
theorem follows_handleConnection {stack : Buffer} :
    Follows ledger ⟨some [], false, 0⟩ (handleConnection tinfo stack)
      fun _ g => g.own = some [] ↔ g.failed = true ∨ g.served = 1 := by
  simp only [handleConnection, loadClientFd, openFile, syslog, Prog.bind_eq, Prog.call_bind,
    Prog.pure_bind]
  refine Follows.skip (ledger_ignores rfl) fun clientFd _ => ?_
  apply Follows.note
  intro fd _
  -- without `file_fd` nothing is ever owned
  by_cases hfd : fd.val = -1
  · have hnote : Ledger.note ⟨some [], false, 0⟩ ⟨.openFile .creatAppendRdwr, fd⟩ =
        ⟨some [], true, 0⟩ := by
      simp [Ledger.note, descriptorStep, fileFails, received, hfd]
    rw [hnote, if_pos hfd, hfd]
    refine Follows.skip (ledger_ignores rfl) fun _ _ => ?_
    refine (Follows.iterate (fun _ g => ∃ n, g = ⟨some [], true, n⟩)
      (Q := fun _ g => ∃ n, g = ⟨some [], true, n⟩) ⟨0, rfl⟩ ?_).mono ?_
    · rintro buffer _ ⟨n, rfl⟩
      exact (follows_serve_failed n).mono fun r _ h => by cases r <;> exact h
    · rintro _ _ ⟨n, rfl⟩
      simp
  · have hnote : Ledger.note ⟨some [], false, 0⟩ ⟨.openFile .creatAppendRdwr, fd⟩ =
        ⟨ownAfter fd.val 0, false, 0⟩ := by
      simp [Ledger.note, descriptorStep, fileFails, received, ownAfter, hfd]
    rw [hnote, if_neg hfd]
    -- the first chunk that needs the file closes it, and a second one breaks the discipline
    have hpos : 0 ≤ fd.val := by
      have hge := fd.property
      omega
    refine (Follows.iterate (fun _ g => ∃ n, g = ⟨ownAfter fd.val n, false, n⟩)
      (Q := fun _ g => ∃ n, g = ⟨ownAfter fd.val n, false, n⟩) ⟨0, rfl⟩ ?_).mono ?_
    · rintro buffer _ ⟨n, rfl⟩
      exact (follows_serve_opened hpos n).mono fun r _ h => by cases r <;> exact h
    · rintro _ _ ⟨n, rfl⟩
      rcases n with _ | _ | n <;> simp [ownAfter]

end Rounds

/-! ### The discipline of a connection -/

section Discipline

variable {tinfo : ThreadInfo} {stack : Buffer} {t : List (Event posix)}

/-- In a session the file has been opened. -/
theorem Session.not_fileFails (h : Session tinfo stack t) : ¬∃ e ∈ t, fileFails e = true := by
  rintro ⟨⟨o, r⟩, he, hfails⟩
  have hsucceeds := h.succeeds _ he
  cases o with
  | openFile flags =>
      have hpos : 0 ≤ r.val := hsucceeds
      cases flags with
      | creatAppendRdwr =>
          have hfd : r.val = -1 := of_decide_eq_true hfails
          omega
      | rdonly => cases hfails
  | _ => cases hfails

/-- **When a connection keeps the descriptor discipline.** Exactly if `file_fd` could not be opened
or exactly one of the chunks received is data or a well-formed seek. -/
theorem keepsDescriptors_iff (h : Runs (handleConnection tinfo stack) t (.pure ())) :
    KeepsDescriptors t ↔
      (∃ e ∈ t, fileFails e = true) ∨ ((chunks t).filter needsFile).length = 1 := by
  have hledger := follows_handleConnection.watch_runs h fun _ _ => trivial
  rw [foldl_note] at hledger
  simpa [KeepsDescriptors] using hledger

/-- A connection that receives one chunk of data. -/
theorem keepsDescriptors_one_chunk : ∃ t, Runs (handleConnection 0 Buffer.zero) t (.pure ()) ∧
    chunks t = [[97]] ∧ KeepsDescriptors t := by
  have hsizes : ∀ c ∈ [[(97 : UInt8)]], c ≠ [] ∧ c.length ≤ bufferSize := by simp [bufferSize]
  obtain ⟨t, h, hchunks⟩ := exists_session 0 Buffer.zero hsizes
  refine ⟨t, h.runs, hchunks, (keepsDescriptors_iff h.runs).mpr (.inr ?_)⟩
  rw [hchunks]
  decide

/-- A connection that receives two chunks of data. -/
theorem not_keepsDescriptors_two_chunks : ¬∀ t, Runs (handleConnection 0 Buffer.zero) t (.pure ()) →
    KeepsDescriptors t := by
  intro hkeeps
  have hsizes : ∀ c ∈ [[(97 : UInt8)], [98]], c ≠ [] ∧ c.length ≤ bufferSize := by
    simp [bufferSize]
  obtain ⟨t, h, hchunks⟩ := exists_session 0 Buffer.zero hsizes
  have hledger := follows_handleConnection.watch_runs h.runs fun _ _ => trivial
  rw [foldl_note, hchunks] at hledger
  have hserved := hledger.mp (hkeeps t h.runs)
  simp only [Bool.or_false, List.any_eq_true] at hserved
  exact hserved.elim h.not_fileFails (by decide)

end Discipline

end Aesd.Server

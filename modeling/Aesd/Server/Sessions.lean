import Aesd.Server.HandleClient

/-! # Undisturbed connections

Connections in which every call succeeds. There is one for every sequence of chunks. -/

namespace Aesd.Server

open Effects CLib CharDriver

/-- The call succeeds. -/
def Succeeds : Event posix → Prop
  | ⟨.openFile _, fd⟩ => 0 ≤ fd.val
  | ⟨.recv _ _, r⟩ | ⟨.read _ _, r⟩ => 0 ≤ r.retval
  | ⟨.send _ _, n⟩ | ⟨.write _ _, n⟩ | ⟨.ioctl _ _ _, n⟩ | ⟨.close _, n⟩ => 0 ≤ n
  | _ => True

/-- A connection that has come to its end, every call having succeeded. -/
structure Session (tinfo : ThreadInfo) (stack : Buffer) (t : List (Event posix)) : Prop where
  /-- It is a run of the text. -/
  runs : Runs (handleConnection tinfo stack) t (.pure ())
  /-- Every call succeeded. -/
  succeeds : ∀ e ∈ t, Succeeds e

section Exists

variable {tinfo : ThreadInfo} {clientFd fileFd : ℤ} {buffer : Buffer} {c : List UInt8}
  {cs : List (List UInt8)} {r : Transfer bufferSize} {k : ℕ}

/-- The chunks so far, after one more event. -/
def collect (cs : List (List UInt8)) (e : Event posix) : List (List UInt8) :=
  cs ++ (received e).toList

theorem foldl_collect (t : List (Event posix)) : t.foldl collect cs = cs ++ chunks t := by
  induction t generalizing cs with
  | nil => exact (List.append_nil _).symm
  | cons e t ih =>
      rw [List.foldl_cons, ih, collect, chunks_cons, List.append_assoc]

/-- An operation that receives nothing. -/
theorem canEnd_other {α : Type} {o : PosixOp} {f : PosixRes o → Handler α}
    {Q : α → List (List UInt8) → Prop} (r : PosixRes o) (hr : Succeeds ⟨o, r⟩)
    (hnone : received ⟨o, r⟩ = none) (h : CanEnd Succeeds collect cs (f r) Q) :
    CanEnd Succeeds collect cs (Prog.call (E := posix) o f) Q := by
  have hcollect : collect cs ⟨o, r⟩ = cs := by
    rw [collect, hnone]
    exact List.append_nil _
  apply CanEnd.call r hr
  rwa [hcollect]

/-- The seek branch can come to its end. -/
theorem canEnd_seekCommand (hfd : 0 ≤ fileFd) :
    CanEnd Succeeds collect cs (seekCommand tinfo fileFd buffer) fun _ cs' => cs' = cs := by
  have hperform : ∀ seekto, CanEnd Succeeds collect cs (performSeek tinfo fileFd seekto)
      fun _ cs' => cs' = cs := by
    intro seekto
    simp only [performSeek, ioctl, syslog, Prog.bind_eq, Prog.call_bind, Prog.pure_bind]
    rw [if_neg (by omega)]
    refine canEnd_other (0 : ℤ) (le_refl (0 : ℤ)) rfl ?_
    rw [if_neg (by decide)]
    -- the device is at its end, so the first read leaves the loop
    apply CanEnd.loop (R := fun r cs' => r = .inr () ∧ cs' = cs)
    · exact canEnd_other (Transfer.empty bufferSize) (le_refl (0 : ℤ)) rfl (CanEnd.pure ⟨rfl, rfl⟩)
    · rintro s' g' ⟨h, -⟩
      cases h
    · rintro b g' ⟨-, rfl⟩
      exact canEnd_other (0 : ℤ) (le_refl (0 : ℤ)) rfl (CanEnd.pure rfl)
  have hload : CanEnd Succeeds collect cs (buffer.loadString 19) fun _ cs' => cs' = cs := by
    simp only [Buffer.loadString, overrun, Prog.bind_eq, Prog.pure_eq]
    by_cases hnul : 0 ∉ buffer.bytes.drop 19
    · rw [if_pos hnul]
      exact canEnd_other () trivial rfl (CanEnd.pure rfl)
    · rw [if_neg hnul]
      exact CanEnd.pure rfl
  rw [seekCommand, Prog.bind_eq]
  refine hload.bind ?_
  rintro s cs' rfl
  -- the text is scanned, and every pair of numbers is tried
  cases scanPair s with
  | none => exact canEnd_other () trivial rfl (CanEnd.pure rfl)
  | some q => exact hperform _

/-- The data branch can come to its end. -/
theorem canEnd_storeData (hfd : 0 ≤ fileFd) :
    CanEnd Succeeds collect cs (storeData clientFd fileFd buffer k)
      fun r cs' => (∃ b, r = .inl b) ∧ cs' = cs := by
  simp only [storeData, respond, mutexLock, mutexUnlock, write, syslog, close, openFile, Prog.bind_eq,
    Prog.call_bind, Prog.pure_bind, Prog.pure_eq]
  refine canEnd_other () trivial rfl ?_
  rw [if_neg (by omega)]
  refine canEnd_other (0 : ℤ) (le_refl (0 : ℤ)) rfl ?_
  rw [if_neg (by decide)]
  refine canEnd_other (0 : ℤ) (le_refl (0 : ℤ)) rfl (canEnd_other () trivial rfl ?_)
  split
  · refine canEnd_other (⟨0, by decide⟩ : Descriptor) (le_refl (0 : ℤ)) rfl ?_
    rw [if_neg (by decide)]
    apply CanEnd.loop (R := fun r cs' => (∃ b, r = .inr b) ∧ cs' = cs)
    · exact canEnd_other (Transfer.empty bufferSize) (le_refl (0 : ℤ)) rfl
        (CanEnd.pure ⟨⟨_, rfl⟩, rfl⟩)
    · rintro s' g' ⟨⟨b, h⟩, -⟩
      cases h
    · rintro b g' ⟨-, rfl⟩
      exact canEnd_other (0 : ℤ) (le_refl (0 : ℤ)) rfl (CanEnd.pure ⟨⟨_, rfl⟩, rfl⟩)
  · exact CanEnd.pure ⟨⟨_, rfl⟩, rfl⟩

/-- A round can receive any chunk. -/
theorem canEnd_serve (hfd : 0 ≤ fileFd) (hc : c ≠ []) (hlen : c.length ≤ bufferSize) :
    CanEnd Succeeds collect cs (serve tinfo clientFd fileFd buffer)
      fun r cs' => (∃ b, r = .inl b) ∧ cs' = cs ++ [c] := by
  have hpos : 0 < (c.length : ℤ) := by
    have hlt := List.length_pos_iff.mpr hc
    omega
  rw [serve_eq]
  apply CanEnd.call (Transfer.full c hlen) hpos.le
  have hcollect : collect cs ⟨.recv clientFd bufferSize, Transfer.full c hlen⟩ = cs ++ [c] := by
    rw [collect, received, if_pos (show 0 < (Transfer.full c hlen).retval from hpos)]
    rfl
  have hchunk : CanEnd Succeeds collect (cs ++ [c])
      (afterChunk tinfo clientFd fileFd buffer (Transfer.full c hlen))
      fun r cs' => (∃ b, r = .inl b) ∧ cs' = cs ++ [c] := by
    rw [afterChunk]
    split
    · exact (canEnd_seekCommand hfd).bind fun _ _ h => CanEnd.pure ⟨⟨_, rfl⟩, h⟩
    · exact canEnd_storeData hfd
  rw [hcollect, if_neg (show ¬(Transfer.full c hlen).retval ≤ 0 from not_le.mpr hpos)]
  split
  · exact canEnd_other () trivial rfl hchunk
  · exact hchunk

/-- The loop can receive any sequence of chunks. -/
theorem canEnd_loop (hfd : 0 ≤ fileFd) (hcs : ∀ c ∈ cs, c ≠ [] ∧ c.length ≤ bufferSize)
    (buffer : Buffer) (pre : List (List UInt8)) :
    CanEnd Succeeds collect pre (Prog.iterate (serve tinfo clientFd fileFd) buffer)
      fun _ cs' => cs' = pre ++ cs := by
  induction cs generalizing pre buffer with
  | nil =>
      apply CanEnd.loop (R := fun r cs' => r = .inr () ∧ cs' = pre)
      · rw [serve_eq]
        exact canEnd_other (Transfer.empty bufferSize) (le_refl (0 : ℤ)) rfl (CanEnd.pure ⟨rfl, rfl⟩)
      · rintro s' g' ⟨h, -⟩
        cases h
      · rintro b g' ⟨-, rfl⟩
        exact CanEnd.pure (List.append_nil _).symm
  | cons c cs ih =>
      obtain ⟨hc, hlen⟩ := hcs c List.mem_cons_self
      apply CanEnd.loop (canEnd_serve hfd hc hlen)
      · rintro s' g' ⟨-, rfl⟩
        have hrest := ih (fun c' hc' => hcs c' (List.mem_cons_of_mem _ hc')) s' (pre ++ [c])
        rwa [List.append_assoc] at hrest
      · rintro b g' ⟨⟨_, h⟩, -⟩
        cases h

/-- **There is a session for every sequence of chunks.** -/
theorem exists_session (tinfo : ThreadInfo) (stack : Buffer)
    (hcs : ∀ c ∈ cs, c ≠ [] ∧ c.length ≤ bufferSize) :
    ∃ t, Session tinfo stack t ∧ chunks t = cs := by
  have hcan : CanEnd Succeeds collect [] (handleConnection tinfo stack) fun _ cs' => cs' = cs := by
    simp only [handleConnection, loadClientFd, openFile, syslog, Prog.bind_eq, Prog.call_bind,
      Prog.pure_bind]
    refine canEnd_other (0 : ℤ) trivial rfl ?_
    refine canEnd_other (⟨0, by decide⟩ : Descriptor) (le_refl (0 : ℤ)) rfl ?_
    rw [if_neg (by decide)]
    exact canEnd_loop le_rfl hcs stack []
  obtain ⟨t, ⟨⟩, hruns, hsucceeds, hchunks⟩ := hcan
  rw [foldl_collect, List.nil_append] at hchunks
  exact ⟨t, ⟨hruns, hsucceeds⟩, hchunks⟩

end Exists

end Aesd.Server

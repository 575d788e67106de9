import Aesd.Server.Sessions
import Mathlib.Data.List.Infix

/-! # From chunks to requests

A connection in which every call succeeds turns each chunk into at most one request to the device: a
write of the whole chunk, or a seek if the chunk starts with the seek prefix. So the cut of the
stream into chunks matters exactly for the streams in which the seek prefix occurs. -/

namespace Aesd.Server

open Effects CLib CharDriver

/-- The request that an event makes. -/
def issued : Event posix → Option Request
  | ⟨.write _ bytes, _⟩ => some (.data bytes)
  | ⟨.ioctl _ _ arg, _⟩ => some (.seek arg.writeCmd arg.writeCmdOffset)
  | _ => none

/-- The requests made in the course of a trace. -/
def requests (t : List (Event posix)) : List Request := t.filterMap issued

/-- One more request at the front, where data joins the data that follows. -/
def joinData : Request → List Request → List Request
  | .data a, .data b :: rs => .data (a ++ b) :: rs
  | r, rs => r :: rs

/-- Adjacent data requests concatenated. -/
def merged (rs : List Request) : List Request := rs.foldr joinData []

/-- For every two divisions of the stream into chunks of 1 to 1023 bytes the merged requests are the
same. -/
def FramingInvariant (tinfo : ThreadInfo) (stack : Buffer) (s : List UInt8) : Prop :=
  ∀ t t', Session tinfo stack t → Session tinfo stack t' →
    (∀ c ∈ chunks t, c.length < bufferSize) → (∀ c ∈ chunks t', c.length < bufferSize) →
    (chunks t).flatten = s → (chunks t').flatten = s → merged (requests t) = merged (requests t')

/-! ### One request a chunk -/

/-- The chunks and requests so far. -/
structure Transcript where
  /-- The chunks received. -/
  received : List (List UInt8)
  /-- The requests made. -/
  issued : List Request

/-- One more event. -/
def Transcript.note (g : Transcript) (e : Event posix) : Transcript where
  received := g.received ++ (Server.received e).toList
  issued := g.issued ++ (Server.issued e).toList

/-- The monitor that keeps the transcript of undisturbed connections. -/
abbrev transcript : Monitor posix Transcript := .watch Succeeds Transcript.note

theorem foldl_transcript (g : Transcript) (t : List (Event posix)) :
    t.foldl Transcript.note g = ⟨g.received ++ chunks t, g.issued ++ requests t⟩ := by
  induction t generalizing g with
  | nil =>
      obtain ⟨cs, rs⟩ := g
      simp [chunks, requests]
  | cons e t ih =>
      rw [List.foldl_cons, ih, Transcript.note, chunks, chunks, requests, requests,
        List.filterMap_cons, List.filterMap_cons]
      cases received e <;> cases issued e <;> simp

/-- Operations that neither receive nor make a request. -/
def PosixOp.isInternal : PosixOp → Bool
  | .recv _ _ | .write _ _ | .ioctl _ _ _ => false
  | _ => true

theorem transcript_ignores {o : PosixOp} (ho : o.isInternal = true) : transcript.Ignores o := by
  rintro ⟨cs, rs⟩ r
  have hnote : Transcript.note ⟨cs, rs⟩ ⟨o, r⟩ = ⟨cs ++ [], rs ++ []⟩ := by
    cases o <;> first
      | exact absurd ho Bool.false_ne_true
      | rfl
  show some (Transcript.note ⟨cs, rs⟩ ⟨o, r⟩) = _
  rw [hnote, List.append_nil, List.append_nil]

section Rounds

variable {tinfo : ThreadInfo} {clientFd fileFd : ℤ} {buffer : Buffer} {r : Transfer bufferSize}
  {g : Transcript} {cs : List (List UInt8)} {rs : List Request}

/-- A seek makes one request. -/
theorem transcript_performSeek {seekto : AesdSeekto} (hfd : 0 ≤ fileFd) :
    Follows transcript ⟨cs, rs⟩ (performSeek tinfo fileFd seekto)
      fun _ g => g = ⟨cs, rs ++ [.seek seekto.writeCmd seekto.writeCmdOffset]⟩ := by
  simp only [performSeek, ioctl, syslog, Prog.bind_eq, Prog.call_bind, Prog.pure_bind]
  rw [if_neg (by omega)]
  apply Follows.note
  intro n hn
  have hnote : Transcript.note ⟨cs, rs⟩ ⟨.ioctl fileFd aesdcharIocseekto seekto, n⟩ =
      ⟨cs, rs ++ [.seek seekto.writeCmd seekto.writeCmdOffset]⟩ := by
    simp [Transcript.note, received, issued]
  rw [hnote, if_neg (show ¬n < 0 from not_lt.mpr hn)]
  refine (Follows.iterate
    (fun _ g => g = ⟨cs, rs ++ [.seek seekto.writeCmd seekto.writeCmdOffset]⟩)
    (Q := fun _ g => g = ⟨cs, rs ++ [.seek seekto.writeCmd seekto.writeCmdOffset]⟩) rfl ?_).bind ?_
  · rintro _ _ rfl
    simp only [sendRest, read, loadClientFd, send, Prog.bind_eq, Prog.call_bind, Prog.pure_bind,
      Prog.pure_eq]
    refine Follows.skip (transcript_ignores rfl) fun _ _ => Follows.ite ?_ rfl
    refine Follows.skip (transcript_ignores rfl) fun _ _ => ?_
    exact Follows.skip (transcript_ignores rfl) fun _ _ => rfl
  · rintro _ _ rfl
    exact Follows.skip (transcript_ignores rfl) fun _ _ => rfl

/-- A response makes no request. -/
theorem transcript_respond {k : ℕ} : Follows transcript g (respond clientFd buffer k)
    fun _ g' => g' = g := by
  apply uses_respond.follows
  rintro o r (ho | rfl)
  · refine transcript_ignores ?_ g r
    cases o <;> first
      | exact absurd ho Bool.false_ne_true
      | rfl
  · exact transcript_ignores rfl g r

/-- Data makes one request. -/
theorem transcript_storeData (hfd : 0 ≤ fileFd) :
    Follows transcript ⟨cs, rs⟩ (storeData clientFd fileFd (buffer.chunk r) r.data.length)
      fun _ g => g = ⟨cs, rs ++ [.data r.data]⟩ := by
  simp only [storeData, mutexLock, mutexUnlock, write, syslog, close, Prog.bind_eq, Prog.call_bind,
    Prog.pure_bind]
  refine Follows.skip (transcript_ignores rfl) fun _ _ => ?_
  rw [if_neg (by omega)]
  apply Follows.note
  intro n hn
  have hnote : Transcript.note ⟨cs, rs⟩
      ⟨.write fileFd ((buffer.chunk r).bytes.take r.data.length), n⟩ =
        ⟨cs, rs ++ [.data r.data]⟩ := by
    simp [Transcript.note, received, issued, Buffer.take_chunk]
  have hne : ∀ n : ℤ, 0 ≤ n → ¬n = -1 := by omega
  rw [hnote, if_neg (hne n hn)]
  refine Follows.skip (transcript_ignores rfl) fun _ _ => ?_
  exact Follows.skip (transcript_ignores rfl) fun _ _ => transcript_respond

/-- A round keeps the requests in step with the chunks. -/
theorem transcript_serve (hfd : 0 ≤ fileFd) :
    Follows transcript ⟨cs, cs.filterMap request⟩ (serve tinfo clientFd fileFd buffer)
      fun _ g => ∃ cs', g = ⟨cs', cs'.filterMap request⟩ := by
  refine follows_serve (fun _ => transcript_ignores rfl) fun r _ => ⟨_, rfl, ?_, ?_, ?_⟩
  · intro hr
    have hnote : Transcript.note ⟨cs, cs.filterMap request⟩ ⟨.recv clientFd bufferSize, r⟩ =
        ⟨cs, cs.filterMap request⟩ := by
      simp [Transcript.note, received, issued, not_lt.mpr hr]
    exact ⟨cs, hnote⟩
  · intro hr hstart
    have hnote : Transcript.note ⟨cs, cs.filterMap request⟩ ⟨.recv clientFd bufferSize, r⟩ =
        ⟨cs ++ [r.data], cs.filterMap request⟩ := by
      simp [Transcript.note, received, issued, hr]
    rw [hnote]
    -- a well-formed command is one request, a malformed one is none
    refine follows_seekCommand (fun _ => transcript_ignores rfl) hstart ?_ ?_
    · intro x y hxy
      refine (transcript_performSeek hfd).mono fun _ g h => ⟨cs ++ [r.data], ?_⟩
      rw [h, List.filterMap_append, List.filterMap_cons_some hxy, List.filterMap_nil]
    · intro hbad
      refine Follows.skip (transcript_ignores rfl) fun _ _ => ⟨cs ++ [r.data], ?_⟩
      rw [List.filterMap_append, List.filterMap_cons_none hbad, List.filterMap_nil,
        List.append_nil]
  · intro hr hstart
    have hnote : Transcript.note ⟨cs, cs.filterMap request⟩ ⟨.recv clientFd bufferSize, r⟩ =
        ⟨cs ++ [r.data], cs.filterMap request⟩ := by
      simp [Transcript.note, received, issued, hr]
    rw [hnote]
    refine (transcript_storeData hfd).mono fun _ g h => ⟨cs ++ [r.data], ?_⟩
    rw [h, List.filterMap_append, List.filterMap_cons_some (request_eq_data_iff.mpr hstart),
      List.filterMap_nil]

theorem transcript_handleConnection {stack : Buffer} :
    Follows transcript ⟨[], []⟩ (handleConnection tinfo stack)
      fun _ g => ∃ cs', g = ⟨cs', cs'.filterMap request⟩ := by
  simp only [handleConnection, loadClientFd, openFile, syslog, Prog.bind_eq, Prog.call_bind,
    Prog.pure_bind]
  refine Follows.skip (transcript_ignores rfl) fun clientFd _ => ?_
  refine Follows.skip (transcript_ignores rfl) fun fd hfd => ?_
  have hpos : 0 ≤ fd.val := hfd
  rw [if_neg (show ¬fd.val = -1 by omega)]
  refine Follows.iterate (fun _ g => ∃ cs', g = ⟨cs', cs'.filterMap request⟩) ⟨[], rfl⟩ ?_
  rintro buffer _ ⟨cs', rfl⟩
  exact (transcript_serve hpos).mono fun r _ h => by cases r <;> exact h

/-- **One request a chunk**: the requests of a session are those of its chunks. -/
theorem Session.requests_eq {stack : Buffer} {t : List (Event posix)} (h : Session tinfo stack t) :
    requests t = (chunks t).filterMap request := by
  obtain ⟨cs', hcs⟩ := transcript_handleConnection.watch_runs h.runs h.succeeds
  rw [foldl_transcript, List.nil_append, List.nil_append, Transcript.mk.injEq] at hcs
  rw [hcs.1, hcs.2]

end Rounds

/-! ### The cut of the stream -/

section Framing

variable {tinfo : ThreadInfo} {stack : Buffer} {t : List (Event posix)} {cs : List (List UInt8)}
  {s u v : List UInt8}

/-- Data requests merge into one. -/
theorem merged_map_data (cs : List (List UInt8)) :
    merged (cs.map .data) = if cs = [] then [] else [.data cs.flatten] := by
  induction cs with
  | nil => rfl
  | cons c cs ih =>
      rw [List.map_cons, merged, List.foldr_cons, ← merged, ih]
      cases cs with
      | nil => simp [joinData]
      | cons d ds => simp [joinData]

/-- Where the seek prefix does not occur, no chunk is a command. -/
theorem filterMap_request_of_not_infix (h : ¬seekPrefix <:+: cs.flatten) :
    cs.filterMap request = cs.map .data := by
  rw [← List.filterMap_eq_map]
  apply List.filterMap_congr
  intro c hc
  refine request_eq_data_iff.mpr fun hstart => h ?_
  exact hstart.isInfix.trans (List.infix_of_mem_flatten hc)

/-- The requests of a session whose stream does not contain the seek prefix. -/
theorem Session.merged_requests (h : Session tinfo stack t)
    (hs : ¬seekPrefix <:+: (chunks t).flatten) :
    merged (requests t) =
      if (chunks t).flatten = [] then [] else [.data (chunks t).flatten] := by
  rw [h.requests_eq, filterMap_request_of_not_infix hs, merged_map_data]
  have hnil : chunks t = [] ↔ (chunks t).flatten = [] := by
    rw [List.flatten_eq_nil_iff]
    constructor
    · intro hcs
      simp [hcs]
    · intro hall
      apply List.eq_nil_iff_forall_not_mem.mpr
      intro c hc
      exact ne_nil_of_mem_chunks hc (hall c hc)
  rw [if_congr hnil rfl rfl]

/-- The stream byte by byte. -/
def bytewise (s : List UInt8) : List (List UInt8) := s.map fun b => [b]

theorem flatten_bytewise (s : List UInt8) : (bytewise s).flatten = s := by
  induction s with
  | nil => rfl
  | cons b s ih => exact congrArg (b :: ·) ih

/-- Single bytes are data. -/
theorem filterMap_request_bytewise (s : List UInt8) :
    (bytewise s).filterMap request = (bytewise s).map .data := by
  rw [← List.filterMap_eq_map]
  apply List.filterMap_congr
  intro c hc
  obtain ⟨b, -, rfl⟩ := List.mem_map.mp hc
  refine request_eq_data_iff.mpr fun hstart => ?_
  have hle := hstart.length_le
  rw [length_seekPrefix] at hle
  simp at hle

theorem merged_bytewise (s : List UInt8) :
    merged ((bytewise s).map .data) = if s = [] then [] else [.data s] := by
  rw [merged_map_data, flatten_bytewise]
  cases s <;> rfl

/-- A division of a stream that contains the seek prefix loses it: the prefix arrives alone. -/
theorem not_framingInvariant (tinfo : ThreadInfo) (stack : Buffer) (hs : seekPrefix <:+: s) :
    ¬FramingInvariant tinfo stack s := by
  obtain ⟨u, v, rfl⟩ := hs
  intro hinv
  have hbytes : ∀ w : List UInt8, ∀ c ∈ bytewise w, c ≠ [] ∧ c.length ≤ 1 := by
    intro w c hc
    obtain ⟨b, -, rfl⟩ := List.mem_map.mp hc
    simp
  have hsize : ∀ w : List UInt8, ∀ c ∈ bytewise w, c ≠ [] ∧ c.length ≤ bufferSize := fun w c hc =>
    ⟨(hbytes w c hc).1, (hbytes w c hc).2.trans (by decide)⟩
  have hcut : ∀ c ∈ bytewise u ++ seekPrefix :: bytewise v, c ≠ [] ∧ c.length < bufferSize := by
    intro c hc
    rcases List.mem_append.mp hc with hc | hc
    · exact ⟨(hbytes u c hc).1, (hbytes u c hc).2.trans_lt (by decide)⟩
    rcases List.mem_cons.mp hc with rfl | hc
    · exact ⟨by decide, by decide⟩
    · exact ⟨(hbytes v c hc).1, (hbytes v c hc).2.trans_lt (by decide)⟩
  obtain ⟨t, ht, hchunks⟩ := exists_session tinfo stack (hsize (u ++ seekPrefix ++ v))
  obtain ⟨t', ht', hchunks'⟩ := exists_session tinfo stack fun c hc =>
    ⟨(hcut c hc).1, (hcut c hc).2.le⟩
  have hmerged := hinv t t' ht ht'
    (fun c hc => ((hbytes _ c (hchunks ▸ hc)).2).trans_lt (by decide))
    (fun c hc => (hcut c (hchunks' ▸ hc)).2)
    (by rw [hchunks, flatten_bytewise])
    (by rw [hchunks', List.flatten_append, List.flatten_cons, flatten_bytewise, flatten_bytewise,
      List.append_assoc])
  have hnone : request seekPrefix = none := by decide
  have hleft : bytewise u ++ bytewise v = bytewise (u ++ v) := List.map_append.symm
  rw [ht.requests_eq, ht'.requests_eq, hchunks, hchunks', filterMap_request_bytewise,
    merged_bytewise, List.filterMap_append, List.filterMap_cons_none hnone,
    ← List.filterMap_append, hleft, filterMap_request_bytewise, merged_bytewise,
    if_neg (by simp [seekPrefix])] at hmerged
  -- one side has lost the prefix
  by_cases huv : u ++ v = []
  · rw [if_pos huv] at hmerged
    cases hmerged
  · rw [if_neg huv, List.cons.injEq, Request.data.injEq] at hmerged
    have hlen := congrArg List.length hmerged.1
    simp only [List.length_append, length_seekPrefix] at hlen
    omega

/-- **When framing does not depend on the cut.** Exactly for the streams in which the seek prefix
does not occur. -/
theorem framingInvariant_iff (tinfo : ThreadInfo) (stack : Buffer) (s : List UInt8) :
    FramingInvariant tinfo stack s ↔ ¬seekPrefix <:+: s := by
  constructor
  · intro hinv hs
    exact not_framingInvariant tinfo stack hs hinv
  · rintro hs t t' ht ht' - - rfl hflat
    rw [ht.merged_requests hs, ht'.merged_requests (hflat ▸ hs), hflat]

/-- `"AESDCHAR_IOCSEEKTO:0,0\n"`, in one chunk or byte by byte. -/
theorem not_framingInvariant_seek_command :
    ¬FramingInvariant 0 Buffer.zero (seekPrefix ++ [48, 44, 48, newline]) := by
  intro hinv
  have hwhole : ∀ c ∈ [seekPrefix ++ [48, 44, 48, newline]], c ≠ [] ∧ c.length ≤ bufferSize := by
    decide
  have hbytewise : ∀ c ∈ bytewise (seekPrefix ++ [48, 44, 48, newline]),
      c ≠ [] ∧ c.length ≤ bufferSize := by
    decide
  obtain ⟨t, ht, hchunks⟩ := exists_session 0 Buffer.zero hwhole
  obtain ⟨t', ht', hchunks'⟩ := exists_session 0 Buffer.zero hbytewise
  have hmerged := hinv t t' ht ht' (by rw [hchunks]; decide) (by rw [hchunks']; decide)
    (by rw [hchunks]; rfl) (by rw [hchunks', flatten_bytewise])
  rw [ht.requests_eq, ht'.requests_eq, hchunks, hchunks'] at hmerged
  exact absurd hmerged (by decide)

end Framing

end Aesd.Server

import Aesd.CharDriver.Seek
import Aesd.Server.Responses

/-! # One round of a connection

A thread at the head of its loop receives a chunk while its `file_fd` is open, on a host whose
device may have been led to its state by any calls. Until it receives again it takes its steps among
those of the other threads, none of which writes to the device or works on the number `file_fd`. -/

namespace Aesd.Server

open Effects Streams CharDriver

/-- The device of the host shows the log, whatever calls have led to it, and its descriptors are in
order. -/
structure Host.Shown (s : Host) (l : Log) : Prop where
  /-- The device shows the log. -/
  reached : Reached s.world l
  /-- The descriptors are distinct. -/
  distinct : Distinct s.files s.nextFile

section Shown

variable {clients : ℕ → Client} {t : ℕ} {hist : List (Event posix)} {s s' : Host} {l : Log}
  {call : Call} {r : Reply}

/-- A driver call that fails leaves the log as it is, one that succeeds is a step of it. -/
theorem Host.Shown.calls (h : s.Shown l) (hc : s.Calls call r s') :
    ∃ l', s'.Shown l' ∧ s'.files = s.files ∧
      (r.Failed ∧ l' = l ∨ ¬r.Failed ∧ ∃ env, l.apply ⟨call, env⟩ = .ok (some (r, l'))) := by
  obtain ⟨env, w', hi, rfl⟩ := hc
  rcases h.reached.returns hi with ⟨hfail, h'⟩ | ⟨hok, l', happ, h'⟩
  · exact ⟨l, ⟨h', h.distinct⟩, rfl, .inl ⟨hfail, rfl⟩⟩
  · exact ⟨l', ⟨h', h.distinct⟩, rfl, .inr ⟨hok, env, happ⟩⟩

/-- The step lemma of a host in any state. -/
theorem Host.Shown.step (h : s.Shown l) {o : PosixOp} {r : PosixRes o}
    (ha : hostAnswers clients t hist o s r s') :
    ∃ l', s'.Shown l' ∧
      l'.stream = l.stream ++ (s.deviceWrite o).elim [] (firstLine isNewline) ∧
      ∀ fd f, s.files fd = some f → o.fd? ≠ some fd →
        s'.files fd = some f ∧ l'.fPos f.file = l.fPos f.file := by
  have hkeep : s.deviceWrite o = none →
      l.stream = l.stream ++ (s.deviceWrite o).elim [] (firstLine isNewline) := by
    intro hwrite
    rw [hwrite]
    exact (List.append_nil _).symm
  -- only a `write` that succeeds feeds the log
  cases effect_of_answers ha with
  | none hwrite hworld hfiles hnext =>
      refine ⟨l, ⟨hworld ▸ h.reached, by rw [hfiles, hnext]; exact h.distinct⟩, hkeep hwrite, ?_⟩
      exact fun fd f hf _ => ⟨by rw [hfiles, hf], rfl⟩
  | @call _ fd f call reply hwrite hfd hf hc hfile hnowrite =>
      obtain ⟨l', h', hfiles, ⟨-, rfl⟩ | ⟨-, env, happ⟩⟩ := h.calls hc
      · exact ⟨l', h', hkeep hwrite, fun fd' f' hf' _ => ⟨by rw [hfiles, hf'], rfl⟩⟩
      · obtain ⟨hstream, hpos⟩ := Log.apply_effect happ
        rw [Call.data_eq_nil hnowrite] at hstream
        refine ⟨l', h', by rw [hstream, hwrite]; rfl, fun fd' f' hf' hne => ⟨by rw [hfiles, hf'], ?_⟩⟩
        -- another descriptor has another open file
        exact hpos _ (h.distinct.file_ne hf hf' hfd hfile hne)
  | @wrote _ fd f bytes n hwrite hfd hf hc hn =>
      obtain ⟨l', h', hfiles, ⟨hno, -⟩ | ⟨-, env, happ⟩⟩ := h.calls hc
      · exact absurd hno (not_failed_of_nonneg hn)
      · obtain ⟨hstream, hpos⟩ := Log.apply_effect happ
        refine ⟨l', h', by rw [hstream, hwrite]; rfl, fun fd' f' hf' hne => ⟨by rw [hfiles, hf'], ?_⟩⟩
        exact hpos _ (h.distinct.file_ne hf hf' hfd rfl hne)
  | @opened s₁ fd flags hwrite hfree hc =>
      obtain ⟨l', h', hfiles, ⟨hr, -⟩ | ⟨-, env, happ⟩⟩ := h.calls hc
      · exact absurd hr (by decide)
      obtain ⟨hstream, hpos⟩ := Log.apply_effect happ
      refine ⟨l', ⟨h'.reached, h.distinct.insert⟩, by rw [hstream, hwrite]; rfl, ?_⟩
      intro fd' f hf _
      have hfd : fd' ≠ fd := by
        rintro rfl
        rw [hfree] at hf
        cases hf
      exact ⟨update_files_of_ne hf hfd, hpos _ (ne_of_lt (h.distinct.fresh fd' f hf))⟩
  | @closed fd hwrite hfd =>
      refine ⟨l, ⟨h.reached, h.distinct.erase⟩, hkeep hwrite, fun fd' f hf hne => ⟨?_, rfl⟩⟩
      exact update_files_of_ne hf fun heq => hne (heq ▸ hfd)

/-- A read returns a piece of the contents from the position on, and nothing only at the end. -/
theorem Host.Shown.reads (h : s.Shown l) {fd : ℤ} {n pos : ℕ} {f : OpenFile} {r : Transfer n}
    (hf : s.files fd = some f) (hpos : l.fPos f.file = pos) (hle : pos ≤ l.contents.length)
    (hn : 0 < n) (ha : hostAnswers clients t hist (.read fd n) s r s') :
    ∃ l', s'.Shown l' ∧ s'.files = s.files ∧ l'.stream = l.stream ∧
      l'.fPos f.file = (pos + r.data.length : ℕ) ∧ r.data <+: l.contents.drop pos ∧
      (r.retval ≤ 0 → l.contents.length ≤ pos) := by
  rw [hostAnswers, hf] at ha
  obtain ⟨hc, hr⟩ := ha
  obtain ⟨l', h', hfiles, ⟨hno, -⟩ | ⟨-, env, happ⟩⟩ := h.calls hc
  · exact absurd hno (not_failed_of_nonneg hr)
  have hcontents := h.reached.shows.length_contents_lt
  obtain ⟨hretval, rfl, hpre, hend⟩ :=
    Log.read_reply hn (Except.ok.inj happ) hpos (by omega) (by omega)
  refine ⟨_, h', hfiles, rfl, Function.update_self _ _ _, hpre, fun hle => hend.mp ?_⟩
  rw [show r.retval = r.data.length from hretval] at hle
  apply List.eq_nil_of_length_eq_zero
  show r.data.length = 0
  omega

/-- A device whose working entry dangles takes nothing in any more. -/
theorem Host.Shown.pieces_of_dangles {p q : Pool posix Host Unit} {τ : List (Act posix Host)}
    (h : p.shared.Shown l) (hd : Dangles p.shared.world) (hrun : Steps (server clients) p τ q) :
    (∃ l', Shows q.shared.world l') ∧ Dangles q.shared.world ∧ pieces τ = [] := by
  induction hrun with
  | refl => exact ⟨⟨l, h.reached.shows⟩, hd, rfl⟩
  | @act q τ u o k r s' _ hu hr ih =>
      obtain ⟨⟨l', hl'⟩, hd', hpieces⟩ := ih
      have hnone : q.shared.deviceWrite o = none →
          pieces (τ ++ [⟨u, (q.task u).hist, ⟨o, r⟩, q.shared, s'⟩]) = [] := by
        intro hwrite
        rw [pieces_concat, hpieces, piece]
        show ((q.shared.deviceWrite o).map _).toList = []
        rw [hwrite]
        rfl
      -- a `write` would have to succeed
      cases effect_of_answers hr with
      | none hwrite hworld =>
          rw [Pool.setTask_shared, hworld]
          exact ⟨⟨l', hl'⟩, hd', hnone hwrite⟩
      | call hwrite _ _ hc =>
          obtain ⟨env, w', hi, rfl⟩ := hc
          rcases hl'.returns_of_dangles hd' hi with ⟨-, hl'', hd''⟩ | ⟨-, l'', -, hl'', hd''⟩
          · exact ⟨⟨l', hl''⟩, hd'', hnone hwrite⟩
          · exact ⟨⟨l'', hl''⟩, hd'', hnone hwrite⟩
      | wrote _ _ _ hc hn =>
          obtain ⟨env, w', hi, rfl⟩ := hc
          exact absurd (hl'.write_of_dangles hd' hi).1 (not_failed_of_nonneg hn)
      | opened _ hwrite _ hc =>
          obtain ⟨env, w', hi, rfl⟩ := hc
          rcases hl'.returns_of_dangles hd' hi with ⟨-, hl'', hd''⟩ | ⟨-, l'', -, hl'', hd''⟩
          · exact ⟨⟨l', hl''⟩, hd'', hnone hwrite⟩
          · exact ⟨⟨l'', hl''⟩, hd'', hnone hwrite⟩
      | closed hwrite => exact ⟨⟨l', hl'⟩, hd', hnone hwrite⟩
  | loop _ _ _ ih => exact ih

end Shown

/-- The thread `t` is about to receive its next chunk. -/
def Waits (clients : ℕ → Client) (t : ℕ) (fileFd : ℤ) (p : Pool posix Host Unit) : Prop :=
  ∃ buffer, (p.task t).prog = afterRound (clients t).tinfo (clients t).fd fileFd (.inl buffer)

/-- No loop of the thread spins. -/
theorem productive_afterRound {tinfo : ThreadInfo} {clientFd fileFd : ℤ} (res : Buffer ⊕ Unit) :
    Productive (afterRound tinfo clientFd fileFd res) := by
  cases res with
  | inl buffer =>
      refine Productive.bind (p := Prog.iterate (serve tinfo clientFd fileFd) buffer)
        ⟨fun buffer => ⟨?_, productive_serve⟩, fun _ => trivial⟩ fun _ => productive_threadCleanup
      rw [serve_eq]
      trivial
  | inr _ => exact productive_threadCleanup

/-- A run that begins when the thread `t` receives the chunk of `r`, at the act `a`, and in which it
does not receive again. -/
structure Round (clients : ℕ → Client) (t : ℕ) (fileFd : ℤ) (r : Transfer bufferSize)
    (p : Pool posix Host Unit) (a : Act posix Host) (τ : List (Act posix Host))
    (q : Pool posix Host Unit) : Prop where
  /-- It is a run. -/
  runs : Steps (server clients) p (a :: τ) q
  /-- The chunk is received. -/
  receives : a.task = t ∧ a.event = ⟨.recv (clients t).fd bufferSize, r⟩
  /-- The round is not over. -/
  within : ∀ b ∈ τ, b.task = t → ∀ r' : Transfer bufferSize,
    b.event ≠ ⟨.recv (clients t).fd bufferSize, r'⟩
  /-- No other thread writes to the device or works on the number `file_fd`. -/
  quiet : ∀ b ∈ τ, b.task ≠ t →
    b.before.deviceWrite b.event.op = none ∧ b.event.op.fd? ≠ some fileFd

/-- The next chunk that the client sends can be received. -/
theorem Waits.exists_round {clients : ℕ → Client} {t : ℕ} {fileFd : ℤ} {p : Pool posix Host Unit}
    (h : Waits clients t fileFd p) {r : Transfer bufferSize}
    (harrives : (chunks (p.task t).hist).flatten ++ r.data <+: (clients t).stream) :
    ∃ a q, Round clients t fileFd r p a [] q := by
  obtain ⟨buffer, hbuffer⟩ := h
  obtain ⟨k, hhead⟩ : ∃ k, Prog.unfold (serve (clients t).tinfo (clients t).fd fileFd) buffer
      (fun b => (Prog.pure b).bind fun _ => threadCleanup (clients t).tinfo) =
        Prog.call (E := posix) (.recv (clients t).fd bufferSize) k := by
    rw [unfold_serve, serve_eq, Prog.call_bind]
    exact ⟨_, rfl⟩
  have hloop : Steps (server clients) p []
      (p.setTask t ⟨(p.task t).hist, Prog.call (E := posix) (.recv (clients t).fd bufferSize) k⟩) :=
    hhead ▸ Steps.loop t (.refl p) hbuffer
  have hans : (server clients).answers t (p.task t).hist (.recv (clients t).fd bufferSize) p.shared r
      p.shared := ⟨harrives, rfl⟩
  exact ⟨_, _, hloop.act_self hans, ⟨rfl, rfl⟩, by simp, by simp⟩

/-- The acts of the thread `t`. -/
def steps (t : ℕ) (τ : List (Act posix Host)) : ℕ := τ.countP fun b => b.task = t

end Aesd.Server

import Aesd.Effects.Outline

/-! # Operations beside those of a protocol

Clients often use more than the operations a protocol is about: they have a table of their own, a
network, other locks. **`P.beside answers`** adds such operations, each of them one step on a state
of its own, `R`, and seen from outside with its answer. The outlines of the operations of `P` are
still outlines beside the new ones (`Outline.beside`), so clients that use both refine the same
clients over the abstract state (`Implements.beside`). -/

namespace Effects

open Prog

variable {D E F H : Interface} {S L G V R : Type} {α β σ : Type}

/-- Two interfaces in one. -/
abbrev Interface.sum (E H : Interface) : Interface := ⟨E.Op ⊕ H.Op, Sum.elim E.Res H.Res⟩

/-- A program over the first one. -/
def Prog.inl (H : Interface) : {α : Type} → Prog E α → Prog (E.sum H) α
  | _, .pure a => .pure a
  | _, .call e k => .call (E := E.sum H) (.inl e) fun r => Prog.inl H (k r)
  | _, .loop body s k => .loop (fun s => Prog.inl H (body s)) s fun b => Prog.inl H (k b)

/-- The operations of `F` by their texts, and those of `H` as they are. -/
def implBeside (H : Interface) (impl : (o : F.Op) → Prog E (F.Res o)) :
    (o : (F.sum H).Op) → Prog (E.sum H) ((F.sum H).Res o)
  | .inl o => (impl o).inl H
  | .inr h => .call (E := E.sum H) (.inr h) .pure

section Inl

/-- What comes next is over the first one as well. -/
theorem inl_bind (p : Prog E α) (f : α → Prog E β) :
    (p.bind f).inl H = (p.inl H).bind fun a => (f a).inl H := by
  induction p with
  | pure a => rfl
  | call o k ih =>
      rw [call_bind, Prog.inl, Prog.inl, call_bind]
      congr 1
      funext r
      exact ih r f
  | loop body s k _ ih =>
      rw [loop_bind, Prog.inl, Prog.inl, loop_bind]
      congr 1
      funext b
      exact ih b f

/-- The texts of its operations are. -/
theorem inl_link {impl : (o : E.Op) → Prog D (E.Res o)} (p : Prog E α) :
    (p.inl H).link (implBeside H impl) = (p.link impl).inl H := by
  induction p with
  | pure a => rfl
  | call o k ih =>
      rw [Prog.inl, Prog.link, Prog.link, inl_bind]
      congr 1
      funext r
      exact ih r
  | loop body s k ihbody ih =>
      rw [Prog.inl, Prog.link, Prog.link, Prog.inl]
      congr 1
      · funext s
        exact ihbody s
      · funext b
        exact ih b

/-- Operations whose own texts use operations with texts, beside others. -/
theorem implBeside_link {impl : (o : E.Op) → Prog D (E.Res o)}
    {impl' : (o : F.Op) → Prog E (F.Res o)}
    (o : (F.sum H).Op) : (implBeside H impl' o).link (implBeside H impl) =
      implBeside H (fun o => (impl' o).link impl) o := by
  cases o with
  | inl o => exact inl_link (impl' o)
  | inr h => rfl

/-- It uses the operations of the first one. -/
theorem Uses.inl {P : (E.sum H).Op → Prop} {p : Prog E α} (h : Uses (fun o => P (.inl o)) p) :
    Uses P (p.inl H) := by
  induction p with
  | pure a => trivial
  | call o k ih => exact ⟨h.1, fun r => ih r (h.2 r)⟩
  | loop body s k ihbody ih => exact ⟨fun s => ihbody s (h.1 s), fun b => ih b (h.2 b)⟩

end Inl

namespace Protocol

/-- The protocol with further operations, which one step of `answers` makes on their own state. -/
def beside (P : Protocol E F S L G V) (answers : ℕ → (h : H.Op) → R → H.Res h → R → Prop) :
    Protocol (E.sum H) (F.sum H) (S × R) (L × R) (G × R) (V ⊕ Event H) where
  sem t
    | .inl e, s, r, s' => P.sem t e s.1 r s'.1 ∧ s'.2 = s.2
    | .inr h, s, r, s' => answers t h s.2 r s'.2 ∧ s'.1 = s.1
  faults t
    | .inl e, s => P.faults t e s.1
    | .inr _, _ => False
  permits t
    | ⟨.inl e, r⟩, s => P.permits t ⟨e, r⟩ s.1
    | ⟨.inr _, _⟩, _ => True
  visible
    | ⟨.inl e, r⟩ => (P.visible ⟨e, r⟩).map .inl
    | ⟨.inr h, r⟩ => some (.inr ⟨h, r⟩)
  spec t
    | .inl o, l, r, l' => P.spec t o l.1 r l'.1 ∧ l'.2 = l.2
    | .inr h, l, r, l' => answers t h l.2 r l'.2 ∧ l'.1 = l.1
  outcome
    | ⟨.inl o, r⟩ => (P.outcome ⟨o, r⟩).map .inl
    | ⟨.inr h, r⟩ => some (.inr ⟨h, r⟩)
  view g := (P.view g.1, g.2)
  Inv s g := P.Inv s.1 g.1 ∧ s.2 = g.2
  Guar t s g s' g' := P.Guar t s.1 g.1 s'.1 g'.1

variable {P : Protocol E F S L G V} {answers : ℕ → (h : H.Op) → R → H.Res h → R → Prop} {t : ℕ}

/-- An assertion about the first part of the state. -/
def onFirst {ρ : Type} (A : S → G → Option ρ → Prop) (s : S × R) (g : G × R) (c : Option ρ) : Prop :=
  A s.1 g.1 c

theorem Stable.beside {ρ : Type} {A : S → G → Option ρ → Prop} (h : P.Stable t A) :
    (P.beside answers).Stable t (onFirst (R := R) A) :=
  fun u hu s g s' g' c hI hI' hg hA => h u hu s.1 g.1 s'.1 g'.1 c hI.1 hI'.1 hg hA

/-- An outline is an outline beside other operations. -/
theorem Outline.beside {o : F.Op} {p : Prog E β} {A : P.Assertion o} {Q : β → P.Assertion o}
    (h : P.Outline t o p A Q) :
    (P.beside answers).Outline t (.inl o) (p.inl H) (onFirst A) fun b => onFirst (Q b) := by
  induction p generalizing A with
  | pure b => exact fun s g c hI hA => h s.1 g.1 c hI.1 hA
  | call e k ih =>
      refine ⟨fun s g c hI hA => h.1 s.1 g.1 c hI.1 hA, fun r => ?_⟩
      obtain ⟨B, hB, hgoes, hrest⟩ := h.2 r
      refine ⟨onFirst B, hB.beside, ?_, ih r hrest⟩
      rintro ⟨s, ρ⟩ ⟨g, ρ₁⟩ c ⟨s', ρ'⟩ ⟨hI, hρ⟩ hA ⟨hsem, hρ'⟩ hok
      obtain ⟨g', c', hcommits, hinv, hguar, hBs⟩ := hgoes s g c s' hI hA hsem hok
      refine ⟨(g', ρ'), c', ?_, ⟨hinv, rfl⟩, hguar, hBs⟩
      have hsame : ρ' = ρ₁ := hρ'.trans hρ
      rcases hcommits with ⟨hc, hview, hvisible⟩ | ⟨r', hc, hc', hspec, hvisible⟩
      · exact .inl ⟨hc, Prod.ext hview hsame, congrArg (Option.map Sum.inl) hvisible⟩
      · exact .inr ⟨r', hc, hc', ⟨hspec, hsame⟩, congrArg (Option.map Sum.inl) hvisible⟩
  | loop body i k ihbody ih =>
      obtain ⟨I, Q', hstart, hbody, hk⟩ := h
      refine ⟨fun i => onFirst (I i), fun b => onFirst (Q' b),
        fun s g c hI hA => hstart s.1 g.1 c hI.1 hA, fun i => ⟨(hbody i).1.beside, ?_⟩,
        fun b => ⟨(hk b).1.beside, ih b (hk b).2⟩⟩
      refine (ihbody i (hbody i).2).mono fun r s g c _ hr => ?_
      cases r with
      | inl i' => exact hr
      | inr b => exact hr

/-- **Implementations go on beside other operations**, as long as a task may do nothing. -/
theorem Implements.beside {impl : (o : F.Op) → Prog E (F.Res o)} {Idle : ℕ → S → G → Prop}
    (h : P.Implements impl Idle) (hrefl : ∀ t s g, P.Guar t s g s g) :
    (P.beside answers).Implements (implBeside H impl) fun t s g => Idle t s.1 g.1 where
  stable t u hu s g s' g' hI hI' hg hidle :=
    h.stable t u hu s.1 g.1 s'.1 g'.1 hI.1 hI'.1 hg hidle
  outline t o := by
    cases o with
    | inl o => exact (h.outline t o).beside
    | inr o =>
        refine ⟨fun s g c _ _ hbad => hbad, fun r => ?_⟩
        refine ⟨fun s g c => c = some r ∧ Idle t s.1 g.1, ?_, ?_, fun s g c _ hc => hc⟩
        · rintro u hu s g s' g' c hI hI' hg ⟨hc, hidle⟩
          exact ⟨hc, h.stable t u hu s.1 g.1 s'.1 g'.1 hI.1 hI'.1 hg hidle⟩
        · rintro ⟨s, ρ⟩ ⟨g, ρ₁⟩ c ⟨s', ρ'⟩ ⟨hI, rfl⟩ ⟨rfl, hidle⟩ ⟨hans, rfl⟩ -
          exact ⟨(g, ρ'), some r, .inr ⟨r, rfl, rfl, ⟨hans, rfl⟩, rfl⟩, ⟨hI, rfl⟩, hrefl t _ g, rfl,
            hidle⟩

end Protocol

end Effects

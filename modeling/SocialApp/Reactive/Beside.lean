import SocialApp.Reactive.Machine

/-! # Two machines side by side

Each event is one of the first machine or one of the second, and leaves the other as
it is.  A run is then a run of each, on its own events. -/

namespace SocialApp
namespace Reactive
namespace Machine

universe u v w

variable {S T : Type u} {E F : Type v} {O P : Type w}

def beside (M : Machine S E O) (N : Machine T F P) : Machine (S × T) (E ⊕ F) (O ⊕ P) where
  step p
    | .inl e => (M.step p.1 e).map fun r => ((r.1, p.2), r.2.map .inl)
    | .inr f => (N.step p.2 f).map fun r => ((p.1, r.1), r.2.map .inr)

variable {M : Machine S E O} {N : Machine T F P}

theorem step_beside_inl {p p' : S × T} {e : E} {o : List (O ⊕ P)} :
    (M.beside N).step p (.inl e) = some (p', o) ↔
      ∃ a, M.step p.1 e = some (p'.1, a) ∧ p'.2 = p.2 ∧ o = a.map .inl := by
  show Option.map _ (M.step p.1 e) = _ ↔ _
  rw [Option.map_eq_some_iff]
  constructor
  · rintro ⟨⟨s, a⟩, hstep, heq⟩
    obtain ⟨rfl, rfl⟩ := Prod.mk.inj heq
    exact ⟨a, hstep, rfl, rfl⟩
  · rintro ⟨a, hstep, hsame, rfl⟩
    exact ⟨(p'.1, a), hstep, by rw [← hsame]⟩

theorem step_beside_inr {p p' : S × T} {f : F} {o : List (O ⊕ P)} :
    (M.beside N).step p (.inr f) = some (p', o) ↔
      ∃ b, N.step p.2 f = some (p'.2, b) ∧ p'.1 = p.1 ∧ o = b.map .inr := by
  show Option.map _ (N.step p.2 f) = _ ↔ _
  rw [Option.map_eq_some_iff]
  constructor
  · rintro ⟨⟨t, b⟩, hstep, heq⟩
    obtain ⟨rfl, rfl⟩ := Prod.mk.inj heq
    exact ⟨b, hstep, rfl, rfl⟩
  · rintro ⟨b, hstep, hsame, rfl⟩
    exact ⟨(p'.2, b), hstep, by rw [← hsame]⟩

/-- What the second machine does is no part of a run of the first. -/
theorem run_beside_left {p p' : S × T} {es : List (E ⊕ F)} {o : List (O ⊕ P)}
    (hrun : (M.beside N).run p es = some (p', o)) :
    ∃ a, M.run p.1 (es.filterMap Sum.getLeft?) = some (p'.1, a) := by
  induction es generalizing p o with
  | nil =>
    rw [run_nil, Option.some.injEq, Prod.mk.injEq] at hrun
    rw [← hrun.1]
    exact ⟨[], rfl⟩
  | cons e es ih =>
    obtain ⟨p₁, o₁, o₂, hstep, hrest, -⟩ := run_cons.mp hrun
    obtain ⟨a₂, ha₂⟩ := ih hrest
    cases e with
    | inl e =>
      obtain ⟨a₁, hfirst, -, -⟩ := step_beside_inl.mp hstep
      exact ⟨a₁ ++ a₂, run_cons.mpr ⟨p₁.1, a₁, a₂, hfirst, ha₂, rfl⟩⟩
    | inr f =>
      obtain ⟨b, -, hsame, -⟩ := step_beside_inr.mp hstep
      rw [hsame] at ha₂
      exact ⟨a₂, ha₂⟩

end Machine
end Reactive
end SocialApp

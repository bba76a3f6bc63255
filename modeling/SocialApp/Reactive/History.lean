import SocialApp.Reactive.Machine

/-! # History variables

A machine can carry a record of what has happened to it.  Each step adds to the record and
none reads it, so the runs are those of the machine without it. -/

namespace SocialApp
namespace Reactive
namespace Machine

universe u v w x

variable {S : Type u} {E : Type v} {O : Type w} {H : Type x}

/-- The machine with a record of its past, which `note` continues after each step. -/
def withHistory (M : Machine S E O) (note : H → S → E → S → List O → H) :
    Machine (S × H) E O where
  step p e := (M.step p.1 e).map fun r => ((r.1, note p.2 p.1 e r.1 r.2), r.2)

variable {M : Machine S E O} {note : H → S → E → S → List O → H}

theorem step_withHistory {p p' : S × H} {e : E} {o : List O} :
    (M.withHistory note).step p e = some (p', o) ↔
      M.step p.1 e = some (p'.1, o) ∧ p'.2 = note p.2 p.1 e p'.1 o := by
  show Option.map _ _ = _ ↔ _
  rw [Option.map_eq_some_iff]
  constructor
  · intro ⟨r, hstep, hr⟩
    obtain ⟨hp, ho⟩ := Prod.mk.inj hr
    rw [← hp, ← ho]
    exact ⟨hstep, rfl⟩
  · intro ⟨hstep, hnote⟩
    refine ⟨(p'.1, o), hstep, ?_⟩
    show ((p'.1, note p.2 p.1 e p'.1 o), o) = (p', o)
    rw [← hnote]

/-- A record changes no run, whatever is in it at the start. -/
theorem run_withHistory_iff (note : H → S → E → S → List O → H) (h : H) {s s' : S}
    {es : List E} {o : List O} :
    (∃ h', (M.withHistory note).run (s, h) es = some ((s', h'), o)) ↔
      M.run s es = some (s', o) := by
  induction es generalizing s h o with
  | nil =>
    simp only [run_nil, Option.some.injEq, Prod.mk.injEq]
    constructor
    · intro ⟨_, ⟨hs, _⟩, ho⟩
      exact ⟨hs, ho⟩
    · intro ⟨hs, ho⟩
      exact ⟨h, ⟨hs, rfl⟩, ho⟩
  | cons e es ih =>
    constructor
    · intro ⟨h', hrun⟩
      obtain ⟨p₁, o₁, o₂, hstep, hrest, ho⟩ := run_cons.mp hrun
      obtain ⟨hstep, _⟩ := step_withHistory.mp hstep
      exact run_cons.mpr ⟨p₁.1, o₁, o₂, hstep, (ih _).mp ⟨h', hrest⟩, ho⟩
    · intro hrun
      obtain ⟨s₁, o₁, o₂, hstep, hrest, ho⟩ := run_cons.mp hrun
      obtain ⟨h', hrest⟩ := (ih (note h s e s₁ o₁)).mpr hrest
      exact ⟨h', run_cons.mpr ⟨(s₁, _), o₁, o₂, step_withHistory.mpr ⟨hstep, rfl⟩, hrest, ho⟩⟩

/-- What the steps of a run satisfy, they satisfy with a record kept beside them. -/
theorem every_withHistory_iff (note : H → S → E → S → List O → H) (h : H)
    {Q : S → E → S → List O → Prop} {s : S} {es : List E} :
    (M.withHistory note).Every (fun p e p' o => Q p.1 e p'.1 o) (s, h) es ↔ M.Every Q s es := by
  induction es generalizing s h with
  | nil => exact Iff.rfl
  | cons e es ih =>
    constructor
    · intro hQ s' o hstep
      obtain ⟨hq, hrest⟩ := hQ (s', note h s e s' o) o (step_withHistory.mpr ⟨hstep, rfl⟩)
      exact ⟨hq, (ih _).mp hrest⟩
    · intro hQ p' o hstep
      obtain ⟨hq, hrest⟩ := hQ p'.1 o (step_withHistory.mp hstep).1
      exact ⟨hq, (ih _).mpr hrest⟩

end Machine
end Reactive
end SocialApp

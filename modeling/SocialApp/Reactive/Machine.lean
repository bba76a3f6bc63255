import Mathlib.Data.List.Basic

namespace SocialApp
namespace Reactive

universe u v w

/-- A reactive program.  In a state an event is accepted or it is not, and an
accepted event gives the next state and the effects it has outside the state. -/
structure Machine (S : Type u) (E : Type v) (O : Type w) where
  step : S → E → Option (S × List O)

namespace Machine

variable {S : Type u} {E : Type v} {O : Type w}

/-- Play a list of events.  The result is `none` as soon as one is not accepted,
and otherwise the last state with the effects in the order they happened. -/
def run (M : Machine S E O) : S → List E → Option (S × List O)
  | s, [] => some (s, [])
  | s, e :: es =>
    match M.step s e with
    | none => none
    | some (s₁, o₁) =>
      match M.run s₁ es with
      | none => none
      | some (s₂, o₂) => some (s₂, o₁ ++ o₂)

/-- `Q` holds of every step taken along the events: of the state before, the
event, the state after and the effects. -/
def Every (M : Machine S E O) (Q : S → E → S → List O → Prop) : S → List E → Prop
  | _, [] => True
  | s, e :: es => ∀ s' o, M.step s e = some (s', o) → Q s e s' o ∧ M.Every Q s' es

variable {M : Machine S E O}

theorem run_nil (s : S) : M.run s [] = some (s, []) := rfl

theorem run_cons {s s' : S} {e : E} {es : List E} {o : List O} :
    M.run s (e :: es) = some (s', o) ↔
      ∃ s₁ o₁ o₂, M.step s e = some (s₁, o₁) ∧ M.run s₁ es = some (s', o₂) ∧
        o = o₁ ++ o₂ := by
  rw [run]
  constructor
  · intro h
    split at h
    · exact absurd h (by simp)
    · rename_i s₁ o₁ hstep
      split at h
      · exact absurd h (by simp)
      · rename_i s₂ o₂ hrun
        simp only [Option.some.injEq, Prod.mk.injEq] at h
        obtain ⟨rfl, rfl⟩ := h
        exact ⟨s₁, o₁, o₂, hstep, hrun, rfl⟩
  · rintro ⟨s₁, o₁, o₂, hstep, hrun, rfl⟩
    rw [hstep]
    simp only [hrun]

theorem run_append {s s' : S} {a b : List E} {o : List O} :
    M.run s (a ++ b) = some (s', o) ↔
      ∃ s₁ o₁ o₂, M.run s a = some (s₁, o₁) ∧ M.run s₁ b = some (s', o₂) ∧
        o = o₁ ++ o₂ := by
  induction a generalizing s o with
  | nil =>
    constructor
    · intro h
      exact ⟨s, [], o, rfl, h, rfl⟩
    · rintro ⟨s₁, o₁, o₂, h₁, h₂, rfl⟩
      simp only [run_nil, Option.some.injEq, Prod.mk.injEq] at h₁
      obtain ⟨rfl, rfl⟩ := h₁
      exact h₂
  | cons e a ih =>
    rw [List.cons_append, run_cons]
    constructor
    · rintro ⟨s₁, o₁, o₂, hstep, hrun, rfl⟩
      obtain ⟨s₂, p₁, p₂, ha, hb, rfl⟩ := ih.mp hrun
      exact ⟨s₂, o₁ ++ p₁, p₂, run_cons.mpr ⟨s₁, o₁, p₁, hstep, ha, rfl⟩, hb,
        (List.append_assoc _ _ _).symm⟩
    · rintro ⟨s₂, p, p₂, ha, hb, rfl⟩
      obtain ⟨s₁, o₁, p₁, hstep, ha', rfl⟩ := run_cons.mp ha
      exact ⟨s₁, o₁, p₁ ++ p₂, hstep, ih.mpr ⟨s₂, p₁, p₂, ha', hb, rfl⟩,
        List.append_assoc _ _ _⟩

theorem every_cons {Q : S → E → S → List O → Prop} {s s' : S} {e : E} {es : List E}
    {o : List O} (h : M.step s e = some (s', o)) (hq : Q s e s' o)
    (hrest : M.Every Q s' es) : M.Every Q s (e :: es) := by
  intro s₁ o₁ h₁
  rw [h, Option.some.injEq, Prod.mk.injEq] at h₁
  rw [← h₁.1, ← h₁.2]
  exact ⟨hq, hrest⟩

theorem every_append {Q : S → E → S → List O → Prop} {s s₁ : S} {a b : List E}
    {o : List O} (hrun : M.run s a = some (s₁, o)) (h : M.Every Q s (a ++ b)) :
    M.Every Q s₁ b := by
  induction a generalizing s o with
  | nil =>
    simp only [run_nil, Option.some.injEq, Prod.mk.injEq] at hrun
    obtain ⟨rfl, rfl⟩ := hrun
    exact h
  | cons e a ih =>
    obtain ⟨s₂, o₁, o₂, hstep, hrest, rfl⟩ := run_cons.mp hrun
    exact ih hrest (h s₂ o₁ hstep).2

theorem every_prefix {Q : S → E → S → List O → Prop} {s : S} {a es : List E} (h : a <+: es)
    (hQ : M.Every Q s es) : M.Every Q s a := by
  induction a generalizing s es with
  | nil => trivial
  | cons e a ih =>
    cases es with
    | nil => exact absurd (List.prefix_nil.mp h) (by simp)
    | cons e' es =>
      obtain ⟨rfl, hrest⟩ := List.cons_prefix_cons.mp h
      exact fun s' o hstep => ⟨(hQ s' o hstep).1, ih hrest (hQ s' o hstep).2⟩

/-- A condition on events alone, checked once on the list, holds at every step. -/
theorem every_of_forall {Q : S → E → S → List O → Prop} {G : E → Prop}
    (hQ : ∀ s e s' o, G e → Q s e s' o) {es : List E} (h : ∀ e ∈ es, G e) :
    ∀ s, M.Every Q s es := by
  induction es with
  | nil => intro s; trivial
  | cons e es ih =>
    intro s s' o hstep
    exact ⟨hQ s e s' o (h e List.mem_cons_self),
      ih (fun e' he' => h e' (List.mem_cons_of_mem e he')) s'⟩

theorem Every.and {Q R : S → E → S → List O → Prop} {es : List E} :
    ∀ {s}, M.Every Q s es → M.Every R s es →
      M.Every (fun s e s' o => Q s e s' o ∧ R s e s' o) s es := by
  induction es with
  | nil => intro s _ _; trivial
  | cons e es ih =>
    intro s hQ hR s' o hstep
    exact ⟨⟨(hQ s' o hstep).1, (hR s' o hstep).1⟩,
      ih (hQ s' o hstep).2 (hR s' o hstep).2⟩

/-- The step lemma of an invariant, carried along a run together with the
effects so far.  The steps may be assumed to satisfy `Q`. -/
theorem run_invariant {I : S → List O → Prop} {Q : S → E → S → List O → Prop}
    (hstep : ∀ s e s' o a, I s a → M.step s e = some (s', o) → Q s e s' o →
      I s' (a ++ o)) :
    ∀ {es : List E} {s s' : S} {a o : List O}, I s a → M.Every Q s es →
      M.run s es = some (s', o) → I s' (a ++ o) := by
  intro es
  induction es with
  | nil =>
    intro s s' a o hs _ hrun
    simp only [run_nil, Option.some.injEq, Prod.mk.injEq] at hrun
    obtain ⟨rfl, rfl⟩ := hrun
    rwa [List.append_nil]
  | cons e es ih =>
    intro s s' a o hs hQ hrun
    obtain ⟨s₁, o₁, o₂, h₁, h₂, rfl⟩ := run_cons.mp hrun
    obtain ⟨hq, hrest⟩ := hQ s₁ o₁ h₁
    rw [← List.append_assoc]
    exact ih (hstep s e s₁ o₁ a hs h₁ hq) hrest h₂

/-- An invariant of the state alone, preserved by every step. -/
theorem run_state_invariant {I : S → Prop} {Q : S → E → S → List O → Prop}
    (hstep : ∀ s e s' o, I s → M.step s e = some (s', o) → Q s e s' o → I s')
    {es : List E} {s s' : S} {o : List O} (hs : I s) (hQ : M.Every Q s es)
    (hrun : M.run s es = some (s', o)) : I s' :=
  run_invariant (I := fun s _ => I s) (a := [])
    (fun s e s' o _ => hstep s e s' o) hs hQ hrun

/-- An account of the state and the effects that every step keeps. -/
theorem run_preserves {I : S → List O → Prop}
    (hstep : ∀ s e s' o a, I s a → M.step s e = some (s', o) → I s' (a ++ o))
    {es : List E} {s s' : S} {o : List O} (hs : I s []) (hrun : M.run s es = some (s', o)) :
    I s' o :=
  run_invariant (Q := fun _ _ _ _ => True) (a := [])
    (fun s e s' o a hs h _ => hstep s e s' o a hs h) hs
    (every_of_forall (G := fun _ => True) (fun _ _ _ _ _ => trivial) (fun _ _ => trivial) s) hrun

/-- An invariant of the state that every step keeps. -/
theorem run_state_preserves {I : S → Prop}
    (hstep : ∀ s e s' o, I s → M.step s e = some (s', o) → I s')
    {es : List E} {s s' : S} {o : List O} (hs : I s) (hrun : M.run s es = some (s', o)) : I s' :=
  run_preserves (I := fun s _ => I s) (fun s e s' o _ => hstep s e s' o) hs hrun

/-- Two properties of steps agree along a run whose steps satisfy `H`, when they
agree wherever the invariant holds and a good step keeps the invariant. -/
theorem every_iff_of {I : S → Prop} {H Q R : S → E → S → List O → Prop}
    (hstep : ∀ s e s' o, I s → M.step s e = some (s', o) → H s e s' o →
      (Q s e s' o ↔ R s e s' o) ∧ (Q s e s' o → I s')) :
    ∀ {es : List E} {s : S}, I s → M.Every H s es → (M.Every Q s es ↔ M.Every R s es) := by
  intro es
  induction es with
  | nil => intro s _ _; exact Iff.rfl
  | cons e es ih =>
    intro s hs hH
    constructor
    · intro h s' o h₁
      obtain ⟨hh, hH'⟩ := hH s' o h₁
      obtain ⟨hq, hrest⟩ := h s' o h₁
      obtain ⟨hiff, hinv⟩ := hstep s e s' o hs h₁ hh
      exact ⟨hiff.mp hq, (ih (hinv hq) hH').mp hrest⟩
    · intro h s' o h₁
      obtain ⟨hh, hH'⟩ := hH s' o h₁
      obtain ⟨hr, hrest⟩ := h s' o h₁
      obtain ⟨hiff, hinv⟩ := hstep s e s' o hs h₁ hh
      exact ⟨hiff.mpr hr, (ih (hinv (hiff.mpr hr)) hH').mpr hrest⟩

/-- Two properties of steps that agree wherever the invariant holds agree along
every run, when a good step keeps the invariant. -/
theorem every_iff {I : S → Prop} {Q R : S → E → S → List O → Prop}
    (hstep : ∀ s e s' o, I s → M.step s e = some (s', o) →
      (Q s e s' o ↔ R s e s' o) ∧ (Q s e s' o → I s'))
    {es : List E} {s : S} (hs : I s) : M.Every Q s es ↔ M.Every R s es :=
  every_iff_of (H := fun _ _ _ _ => True) (fun s e s' o hs h _ => hstep s e s' o hs h) hs
    (every_of_forall (G := fun _ => True) (fun _ _ _ _ _ => trivial) (fun _ _ => trivial) s)

/-- An account of the state and of the effects so far holds in every state that a
run reaches exactly when every step satisfies `Q`, when `Q` says which steps keep
the account. -/
theorem reached_iff {J : S → Prop} {I : S → List O → Prop} {H Q : S → E → S → List O → Prop}
    (hJ : ∀ s e s' o, J s → M.step s e = some (s', o) → H s e s' o → J s')
    (hstep : ∀ s e s' o a, J s → I s a → M.step s e = some (s', o) → H s e s' o →
      (I s' (a ++ o) ↔ Q s e s' o)) :
    ∀ {es : List E} {s : S} {a : List O}, J s → I s a → M.Every H s es →
      ((∀ es₁ s' o, es₁ <+: es → M.run s es₁ = some (s', o) → I s' (a ++ o)) ↔
        M.Every Q s es) := by
  intro es
  induction es with
  | nil =>
    intro s a _ hI _
    refine ⟨fun _ => trivial, fun _ es₁ s' o hpre hrun => ?_⟩
    rw [List.prefix_nil.mp hpre, run_nil, Option.some.injEq, Prod.mk.injEq] at hrun
    obtain ⟨rfl, rfl⟩ := hrun
    rwa [List.append_nil]
  | cons e es ih =>
    intro s a hs hI hH
    constructor
    · intro h s₁ o₁ h₁
      obtain ⟨hh, hH'⟩ := hH s₁ o₁ h₁
      have hrun : M.run s [e] = some (s₁, o₁) :=
        run_cons.mpr ⟨s₁, o₁, [], h₁, rfl, (List.append_nil _).symm⟩
      have hI' : I s₁ (a ++ o₁) := h [e] s₁ o₁ ⟨es, rfl⟩ hrun
      refine ⟨(hstep s e s₁ o₁ a hs hI h₁ hh).mp hI', ?_⟩
      refine (ih (hJ s e s₁ o₁ hs h₁ hh) hI' hH').mp fun es₂ s' o hpre hrest => ?_
      rw [List.append_assoc]
      exact h (e :: es₂) s' (o₁ ++ o) (List.cons_prefix_cons.mpr ⟨rfl, hpre⟩)
        (run_cons.mpr ⟨s₁, o₁, o, h₁, hrest, rfl⟩)
    · intro h es₁ s' o hpre hrun
      cases es₁ with
      | nil =>
        rw [run_nil, Option.some.injEq, Prod.mk.injEq] at hrun
        obtain ⟨rfl, rfl⟩ := hrun
        rwa [List.append_nil]
      | cons e' es₂ =>
        obtain ⟨rfl, hpre'⟩ := List.cons_prefix_cons.mp hpre
        obtain ⟨s₁, o₁, o₂, h₁, hrest, rfl⟩ := run_cons.mp hrun
        obtain ⟨hh, hH'⟩ := hH s₁ o₁ h₁
        obtain ⟨hq, hrest'⟩ := h s₁ o₁ h₁
        have hI' : I s₁ (a ++ o₁) := (hstep s e' s₁ o₁ a hs hI h₁ hh).mpr hq
        rw [← List.append_assoc]
        exact (ih (hJ s e' s₁ o₁ hs h₁ hh) hI' hH').mpr hrest' es₂ s' o₂ hpre' hrest

/-- A property that is not regained once it is lost holds of the end of a run only
if it holds of the start. -/
theorem of_run_end {J I : S → List O → Prop} {H : S → E → S → List O → Prop}
    (hJ : ∀ s e s' o a, J s a → M.step s e = some (s', o) → H s e s' o → J s' (a ++ o))
    (hlost : ∀ s e s' o a, J s a → M.step s e = some (s', o) → H s e s' o →
      I s' (a ++ o) → I s a) :
    ∀ {es : List E} {s s' : S} {a o : List O}, J s a → M.Every H s es →
      M.run s es = some (s', o) → I s' (a ++ o) → I s a := by
  intro es
  induction es with
  | nil =>
    intro s s' a o _ _ hrun hI
    rw [run_nil, Option.some.injEq, Prod.mk.injEq] at hrun
    obtain ⟨rfl, rfl⟩ := hrun
    rwa [List.append_nil] at hI
  | cons e es ih =>
    intro s s' a o hs hH hrun hI
    obtain ⟨s₁, o₁, o₂, h₁, hrest, rfl⟩ := run_cons.mp hrun
    obtain ⟨hh, hH'⟩ := hH s₁ o₁ h₁
    rw [← List.append_assoc] at hI
    exact hlost s e s₁ o₁ a hs h₁ hh (ih (hJ s e s₁ o₁ a hs h₁ hh) hH' hrest hI)

/-- A property of the state and of the effects so far that is not regained once it
is lost holds at the end of a run exactly when every step satisfies `Q`, when `Q`
says which steps keep it. -/
theorem end_iff {J I : S → List O → Prop} {H Q : S → E → S → List O → Prop}
    (hJ : ∀ s e s' o a, J s a → M.step s e = some (s', o) → H s e s' o → J s' (a ++ o))
    (hlost : ∀ s e s' o a, J s a → M.step s e = some (s', o) → H s e s' o →
      I s' (a ++ o) → I s a)
    (hkeep : ∀ s e s' o a, J s a → I s a → M.step s e = some (s', o) → H s e s' o →
      (I s' (a ++ o) ↔ Q s e s' o)) :
    ∀ {es : List E} {s s' : S} {a o : List O}, J s a → I s a → M.Every H s es →
      M.run s es = some (s', o) → (I s' (a ++ o) ↔ M.Every Q s es) := by
  intro es
  induction es with
  | nil =>
    intro s s' a o _ hI _ hrun
    rw [run_nil, Option.some.injEq, Prod.mk.injEq] at hrun
    obtain ⟨rfl, rfl⟩ := hrun
    rw [List.append_nil]
    exact ⟨fun _ => trivial, fun _ => hI⟩
  | cons e es ih =>
    intro s s' a o hs hI hH hrun
    obtain ⟨s₁, o₁, o₂, h₁, hrest, rfl⟩ := run_cons.mp hrun
    obtain ⟨hh, hH'⟩ := hH s₁ o₁ h₁
    have hs₁ := hJ s e s₁ o₁ a hs h₁ hh
    have hiff := hkeep s e s₁ o₁ a hs hI h₁ hh
    rw [← List.append_assoc]
    constructor
    · intro hend
      have hI₁ := of_run_end hJ hlost hs₁ hH' hrest hend
      exact every_cons h₁ (hiff.mp hI₁) ((ih hs₁ hI₁ hH' hrest).mp hend)
    · intro h
      obtain ⟨hq, hQ⟩ := h s₁ o₁ h₁
      exact (ih hs₁ (hiff.mpr hq) hH' hrest).mpr hQ

section Simulation

variable {T : Type u} {F : Type v} {U : Type w} {A : Machine T F U}

/-- Forward simulation.  Each step of `M` is matched by events of `A` that
satisfy `G` and that have the observed part of its effects, so each run is. -/
theorem run_simulates {R : S → T → Prop} {Q : S → E → S → List O → Prop}
    {G : F → Prop} {obs : O → Option U}
    (hstep : ∀ s t e s' o, R s t → M.step s e = some (s', o) → Q s e s' o →
      ∃ fs t', (∀ f ∈ fs, G f) ∧ A.run t fs = some (t', o.filterMap obs) ∧ R s' t') :
    ∀ {es : List E} {s s' : S} {t : T} {o : List O}, R s t → M.Every Q s es →
      M.run s es = some (s', o) →
      ∃ fs t', (∀ f ∈ fs, G f) ∧ A.run t fs = some (t', o.filterMap obs) ∧ R s' t' := by
  intro es
  induction es with
  | nil =>
    intro s s' t o hR _ hrun
    simp only [run_nil, Option.some.injEq, Prod.mk.injEq] at hrun
    obtain ⟨rfl, rfl⟩ := hrun
    exact ⟨[], t, by simp, rfl, hR⟩
  | cons e es ih =>
    intro s s' t o hR hQ hrun
    obtain ⟨s₁, o₁, o₂, h₁, h₂, rfl⟩ := run_cons.mp hrun
    obtain ⟨hq, hrest⟩ := hQ s₁ o₁ h₁
    obtain ⟨fs₁, t₁, hG₁, hA₁, hR₁⟩ := hstep s t e s₁ o₁ hR h₁ hq
    obtain ⟨fs₂, t₂, hG₂, hA₂, hR₂⟩ := ih hR₁ hrest h₂
    refine ⟨fs₁ ++ fs₂, t₂, ?_, ?_, hR₂⟩
    · intro f hf
      rcases List.mem_append.mp hf with hf | hf
      · exact hG₁ f hf
      · exact hG₂ f hf
    · rw [List.filterMap_append]
      exact run_append.mpr ⟨t₁, _, _, hA₁, hA₂, rfl⟩

end Simulation

end Machine

end Reactive
end SocialApp

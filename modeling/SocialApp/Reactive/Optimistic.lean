import Mathlib.Data.List.Basic

/-! # Writes that show before they are acknowledged

A replica keeps a base, which the other side has confirmed, and the writes that it has not.
It shows the base with these writes applied.  When some of them are confirmed the base moves
on, and nothing that is shown changes. -/

namespace SocialApp
namespace Reactive

/-- How writes are applied here, and which states show the same. -/
structure Optimistic (σ ω : Type) where
  apply : σ → ω → σ
  Enabled : σ → ω → Prop
  Same : σ → σ → Prop
  refl : ∀ s, Same s s
  symm : ∀ {s t}, Same s t → Same t s
  trans : ∀ {s t u}, Same s t → Same t u → Same s u
  enabled_same : ∀ {s t w}, Same s t → Enabled s w → Enabled t w
  apply_same : ∀ {s t w}, Same s t → Enabled s w → Same (apply s w) (apply t w)

namespace Optimistic

variable {σ ω : Type} (o : Optimistic σ ω)

def view (base : σ) (writes : List ω) : σ := writes.foldl o.apply base

/-- Each write is enabled where it is applied. -/
def Applies : σ → List ω → Prop
  | _, [] => True
  | s, w :: writes => o.Enabled s w ∧ Applies (o.apply s w) writes

/-- The base and the writes still to be confirmed. -/
structure Replica (σ ω : Type) where
  base : σ
  pending : List ω

/-- A step, and the writes that it makes. -/
inductive Step : Replica σ ω → List ω → Replica σ ω → Prop
  | write {base : σ} {pending writes : List ω}
      (h : o.Applies (o.view base pending) writes) :
      Step ⟨base, pending⟩ writes ⟨base, pending ++ writes⟩
  | confirm {base base' : σ} {writes pending : List ω}
      (h : o.Same (o.view base writes) base') :
      Step ⟨base, writes ++ pending⟩ [] ⟨base', pending⟩

inductive Run : Replica σ ω → List ω → Replica σ ω → Prop
  | nil (r : Replica σ ω) : Run r [] r
  | cons {r r' r'' : Replica σ ω} {writes more : List ω} (step : o.Step r writes r')
      (run : Run r' more r'') : Run r (writes ++ more) r''

theorem view_append (s : σ) (writes more : List ω) :
    o.view s (writes ++ more) = o.view (o.view s writes) more :=
  List.foldl_append

variable {o} {s t : σ} {writes more : List ω}

theorem applies_append : o.Applies s (writes ++ more) ↔
    o.Applies s writes ∧ o.Applies (o.view s writes) more := by
  induction writes generalizing s with
  | nil => exact ⟨fun h => ⟨trivial, h⟩, And.right⟩
  | cons w writes ih =>
    rw [List.cons_append, Applies, Applies, ih, and_assoc]
    rfl

/-- States that show the same take the same writes and go on showing the same. -/
theorem same_view (hsame : o.Same s t) (h : o.Applies s writes) :
    o.Applies t writes ∧ o.Same (o.view s writes) (o.view t writes) := by
  induction writes generalizing s t with
  | nil => exact ⟨trivial, hsame⟩
  | cons w writes ih =>
    obtain ⟨happlies, hview⟩ := ih (o.apply_same hsame h.1) h.2
    exact ⟨⟨o.enabled_same hsame h.1, happlies⟩, hview⟩

/-- What is shown before a step, with the writes of the step, is shown after it. -/
theorem step_same {r r' : Replica σ ω} (step : o.Step r writes r')
    (h : o.Applies r.base r.pending) :
    o.Applies r'.base r'.pending ∧ o.Applies (o.view r.base r.pending) writes ∧
      o.Same (o.view (o.view r.base r.pending) writes) (o.view r'.base r'.pending) := by
  cases step with
  | write hwrites =>
    refine ⟨applies_append.mpr ⟨h, hwrites⟩, hwrites, ?_⟩
    rw [o.view_append]
    exact o.refl _
  | confirm hbase =>
    obtain ⟨-, hrest⟩ := applies_append.mp h
    obtain ⟨happlies, hview⟩ := same_view hbase hrest
    refine ⟨happlies, trivial, ?_⟩
    rw [o.view_append]
    exact hview

/-- A run shows its writes in their order, whenever they are confirmed. -/
theorem run_same {r r' : Replica σ ω} (run : o.Run r writes r')
    (h : o.Applies r.base r.pending) :
    o.Applies r'.base r'.pending ∧ o.Applies (o.view r.base r.pending) writes ∧
      o.Same (o.view (o.view r.base r.pending) writes) (o.view r'.base r'.pending) := by
  induction run with
  | nil r => exact ⟨h, trivial, o.refl _⟩
  | cons step run ih =>
    obtain ⟨hnext, hwrites, hsame⟩ := step_same step h
    obtain ⟨hlast, hmore, hrun⟩ := ih hnext
    obtain ⟨hmore, hview⟩ := same_view (o.symm hsame) hmore
    refine ⟨hlast, applies_append.mpr ⟨hwrites, hmore⟩, ?_⟩
    rw [o.view_append]
    exact o.trans (o.symm hview) hrun

end Optimistic
end Reactive
end SocialApp

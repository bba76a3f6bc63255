import SocialApp.Reactive.Machine
import Mathlib.Data.List.Perm.Basic

/-! # Runs that come to rest

Some events answer what the machine is waiting for, and a measure of what is still to
come goes down with each of them.  However the answers turn out, there are no more of
them than the measure says, and a machine that is only answered comes to a state in
which nothing is left to answer. -/

namespace SocialApp
namespace Reactive
namespace Machine

universe u v w

variable {S : Type u} {E : Type v} {O : Type w} {M : Machine S E O}

/-- No event of the kind `G` is accepted. -/
def Rests (M : Machine S E O) (G : E → Prop) (s : S) : Prop :=
  ∀ e, G e → M.step s e = none

variable {G : E → Prop} {μ : S → Nat}

/-- What the events of a run take off the measure pays for each of them. -/
theorem run_length_le
    (hstep : ∀ s e s' o, G e → M.step s e = some (s', o) → μ s' < μ s) :
    ∀ {es : List E} {s s' : S} {o : List O}, (∀ e ∈ es, G e) → M.run s es = some (s', o) →
      es.length + μ s' ≤ μ s := by
  intro es
  induction es with
  | nil =>
    intro s s' o _ hrun
    rw [run_nil, Option.some.injEq, Prod.mk.injEq] at hrun
    rw [← hrun.1, List.length_nil]
    exact Nat.le_of_eq (Nat.zero_add _)
  | cons e es ih =>
    intro s s' o hG hrun
    obtain ⟨s₁, o₁, o₂, h₁, hrest, -⟩ := run_cons.mp hrun
    have hlt := hstep s e s₁ o₁ (hG e List.mem_cons_self) h₁
    have hle := ih (fun f hf => hG f (List.mem_cons_of_mem e hf)) hrest
    rw [List.length_cons]
    omega

/-- From every state some events of the kind `G` lead to rest. -/
theorem exists_run_rests
    (hstep : ∀ s e s' o, G e → M.step s e = some (s', o) → μ s' < μ s) (s : S) :
    ∃ es s' o, (∀ e ∈ es, G e) ∧ M.run s es = some (s', o) ∧ M.Rests G s' := by
  -- by induction on the measure, taking any step that is still possible
  induction hn : μ s using Nat.strongRecOn generalizing s with
  | _ n ih =>
    by_cases hrests : M.Rests G s
    · exact ⟨[], s, [], fun e he => absurd he List.not_mem_nil, rfl, hrests⟩
    · have hmove : ∃ e, G e ∧ M.step s e ≠ none := by
        simpa only [Rests, not_forall, exists_prop] using hrests
      obtain ⟨e, he, hsome⟩ := hmove
      obtain ⟨⟨s₁, o₁⟩, h₁⟩ := Option.ne_none_iff_exists'.mp hsome
      have hlt := hstep s e s₁ o₁ he h₁
      obtain ⟨es, s', o, hes, hrun, hend⟩ := ih (μ s₁) (hn ▸ hlt) s₁ rfl
      refine ⟨e :: es, s', o₁ ++ o, ?_, run_cons.mpr ⟨s₁, o₁, o, h₁, hrun, rfl⟩, hend⟩
      intro f hf
      rcases List.mem_cons.mp hf with rfl | hf
      · exact he
      · exact hes f hf

end Machine

/-! ## Callbacks that weigh something -/

section Weight

variable {α : Type u} {ps qs : List α} {k : Nat} {p : α}

/-- What the callbacks in flight weigh together. -/
def total (weight : α → Nat) : List α → Nat
  | [] => 0
  | p :: ps => weight p + total weight ps

theorem total_append (weight : α → Nat) (ps qs : List α) :
    total weight (ps ++ qs) = total weight ps + total weight qs := by
  induction ps with
  | nil => exact (Nat.zero_add _).symm
  | cons p ps ih =>
    show weight p + total weight (ps ++ qs) = weight p + total weight ps + total weight qs
    rw [ih, Nat.add_assoc]

theorem total_mono {f g : α → Nat} (h : ∀ p, f p ≤ g p) (ps : List α) :
    total f ps ≤ total g ps := by
  induction ps with
  | nil => exact Nat.le_refl 0
  | cons p ps ih => exact Nat.add_le_add (h p) ih

/-- Callbacks that weigh one each. -/
theorem total_of_one {weight : α → Nat} (h : ∀ p ∈ ps, weight p = 1) :
    total weight ps = ps.length := by
  induction ps with
  | nil => rfl
  | cons p ps ih =>
    have hrest := ih fun q hq => h q (List.mem_cons_of_mem p hq)
    show weight p + total weight ps = ps.length + 1
    rw [h p List.mem_cons_self, hrest, Nat.add_comm]

theorem total_perm (weight : α → Nat) (h : ps.Perm qs) : total weight ps = total weight qs := by
  induction h with
  | nil => rfl
  | cons p _ ih => exact congrArg (weight p + ·) ih
  | swap p q ps => exact Nat.add_left_comm _ _ _
  | trans _ _ ih₁ ih₂ => exact ih₁.trans ih₂

/-- The callback at `k` set apart. -/
theorem total_eraseIdx (weight : α → Nat) (h : ps[k]? = some p) :
    total weight ps = weight p + total weight (ps.eraseIdx k) := by
  obtain ⟨hk, rfl⟩ := List.getElem?_eq_some_iff.mp h
  exact (total_perm weight (List.getElem_cons_eraseIdx_perm hk)).symm

theorem total_set (weight : α → Nat) (h : ps[k]? = some p) (q : α) :
    total weight (ps.set k q) = weight q + total weight (ps.eraseIdx k) := by
  obtain ⟨hk, -⟩ := List.getElem?_eq_some_iff.mp h
  exact total_perm weight (List.set_perm_cons_eraseIdx hk q)

end Weight

end Reactive
end SocialApp

import SocialApp.Reactive.Machine
import Mathlib.Logic.Function.Basic

/-! # Machines with one store

Any number of copies of a machine, each with a state of its own, and a store that the
effects of all of them change.  What one of them can see of the store is as if the others
were not there, as long as their effects are out of its view. -/

namespace SocialApp
namespace Reactive

universe u v w

variable {ι : Type u} [DecidableEq ι]

/-- What is of the `i`-th member, in order. -/
def own {α : Type v} (i : ι) (xs : List (ι × α)) : List α :=
  xs.filterMap fun x => if x.1 = i then some x.2 else none

theorem own_cons_self {α : Type v} (i : ι) (x : α) (xs : List (ι × α)) :
    own i ((i, x) :: xs) = x :: own i xs :=
  List.filterMap_cons_some (if_pos rfl)

theorem own_cons_of_ne {α : Type v} {i j : ι} (h : j ≠ i) (x : α) (xs : List (ι × α)) :
    own i ((j, x) :: xs) = own i xs :=
  List.filterMap_cons_none (if_neg h)

theorem own_append {α : Type v} (i : ι) (xs ys : List (ι × α)) :
    own i (xs ++ ys) = own i xs ++ own i ys :=
  List.filterMap_append

theorem own_map_self {α : Type v} (i : ι) (xs : List α) : own i (xs.map (i, ·)) = xs := by
  induction xs with
  | nil => rfl
  | cons x xs ih => rw [List.map_cons, own_cons_self, ih]

theorem own_map_of_ne {α : Type v} {i j : ι} (h : j ≠ i) (xs : List α) :
    own i (xs.map (j, ·)) = [] := by
  induction xs with
  | nil => rfl
  | cons x xs ih => rw [List.map_cons, own_cons_of_ne h, ih]

theorem mem_own_iff {α : Type v} {i : ι} {x : α} {xs : List (ι × α)} :
    x ∈ own i xs ↔ (i, x) ∈ xs := by
  rw [own, List.mem_filterMap]
  constructor
  · rintro ⟨⟨j, y⟩, hy, heq⟩
    split at heq
    · rename_i hj
      rw [← Option.some.inj heq, ← hj]
      exact hy
    · exact absurd heq (by simp)
  · intro h
    exact ⟨_, h, if_pos rfl⟩

namespace Machine

variable {S V : Type u} {E : Type v} {O : Type w}

/-- One machine with the store. -/
def served (M : Machine S E O) (serve : V → O → V) : Machine (S × V) E O where
  step p e := (M.step p.1 e).map fun r => ((r.1, r.2.foldl serve p.2), r.2)

/-- A machine for each index, with one store. -/
def shared (M : Machine S E O) (serve : V → O → V) :
    Machine ((ι → S) × V) (ι × E) (ι × O) where
  step p x := (M.step (p.1 x.1) x.2).map fun r =>
    ((Function.update p.1 x.1 r.1, r.2.foldl serve p.2), r.2.map (x.1, ·))

variable {M : Machine S E O} {serve : V → O → V}

theorem step_served {p p' : S × V} {e : E} {o : List O} :
    (M.served serve).step p e = some (p', o) ↔
      M.step p.1 e = some (p'.1, o) ∧ p'.2 = o.foldl serve p.2 := by
  show Option.map _ (M.step p.1 e) = _ ↔ _
  rw [Option.map_eq_some_iff]
  constructor
  · rintro ⟨⟨s, a⟩, hstep, heq⟩
    obtain ⟨rfl, rfl⟩ := Prod.mk.inj heq
    exact ⟨hstep, rfl⟩
  · rintro ⟨hstep, hstore⟩
    exact ⟨(p'.1, o), hstep, by rw [← hstore]⟩

theorem step_shared {p p' : (ι → S) × V} {i : ι} {e : E} {o : List (ι × O)} :
    (M.shared serve).step p (i, e) = some (p', o) ↔
      ∃ a, M.step (p.1 i) e = some (p'.1 i, a) ∧ (∀ j, j ≠ i → p'.1 j = p.1 j) ∧
        p'.2 = a.foldl serve p.2 ∧ o = a.map (i, ·) := by
  show Option.map _ (M.step (p.1 i) e) = _ ↔ _
  rw [Option.map_eq_some_iff]
  constructor
  · rintro ⟨⟨s, a⟩, hstep, heq⟩
    obtain ⟨rfl, rfl⟩ := Prod.mk.inj heq
    refine ⟨a, ?_, fun j hj => Function.update_of_ne hj _ _, rfl, rfl⟩
    show M.step (p.1 i) e = some (Function.update p.1 i s i, a)
    rw [Function.update_self]
    exact hstep
  · rintro ⟨a, hstep, hothers, hstore, rfl⟩
    refine ⟨(p'.1 i, a), hstep, ?_⟩
    have hstates : Function.update p.1 i (p'.1 i) = p'.1 := by
      funext j
      by_cases hj : j = i
      · subst hj
        exact Function.update_self j _ _
      · rw [Function.update_of_ne hj, hothers j hj]
    rw [hstates, ← hstore]

/-! ## What the others do -/

/-- What keeps the effects of the others out of the view of the `i`-th member.  `I` is an
invariant of each member, whose events satisfy `G`. -/
structure Apart (M : Machine S E O) (serve : V → O → V) {W : Type u} (I : ι → S → Prop)
    (G : ι → E → Prop) (i : ι) (view : V → W) : Prop where
  keep : ∀ j s e s' o, I j s → M.step s e = some (s', o) → G j e → I j s'
  others : ∀ j s e s' o, j ≠ i → I j s → M.step s e = some (s', o) → G j e →
    ∀ x ∈ o, ∀ v, view (serve v x) = view v
  seen : ∀ v v' x, view v = view v' → view (serve v x) = view (serve v' x)

section

variable {W : Type u} {I : ι → S → Prop} {G : ι → E → Prop} {i : ι} {view : V → W}

theorem foldl_unseen {o : List O} (h : ∀ x ∈ o, ∀ v, view (serve v x) = view v) (v : V) :
    view (o.foldl serve v) = view v := by
  induction o generalizing v with
  | nil => rfl
  | cons x o ih =>
    rw [List.foldl_cons, ih fun y hy => h y (List.mem_cons_of_mem x hy)]
    exact h x List.mem_cons_self v

theorem foldl_seen (h : ∀ v v' x, view v = view v' → view (serve v x) = view (serve v' x))
    (o : List O) {v v' : V} (hv : view v = view v') :
    view (o.foldl serve v) = view (o.foldl serve v') := by
  induction o generalizing v v' with
  | nil => exact hv
  | cons x o ih => exact ih (h v v' x hv)

/-- The `i`-th member runs on its own events as it would with the store to itself. -/
theorem run_own (hapart : Apart M serve I G i view) {es : List (ι × E)} :
    ∀ {p p' : (ι → S) × V} {o : List (ι × O)} {v : V}, (∀ j, I j (p.1 j)) →
      (∀ x ∈ es, G x.1 x.2) → view p.2 = view v →
      (M.shared serve).run p es = some (p', o) →
      ∃ v', (M.served serve).run (p.1 i, v) (own i es) = some ((p'.1 i, v'), own i o) ∧
        view p'.2 = view v' := by
  induction es with
  | nil =>
    intro p p' o v _ _ hv hrun
    rw [run_nil, Option.some.injEq, Prod.mk.injEq] at hrun
    obtain ⟨rfl, rfl⟩ := hrun
    exact ⟨v, rfl, hv⟩
  | cons x es ih =>
    intro p p' o v hI hG hv hrun
    obtain ⟨j, e⟩ := x
    obtain ⟨p₁, o₁, o₂, hstep, hrest, rfl⟩ := run_cons.mp hrun
    obtain ⟨a, hj, hothers, hstore, rfl⟩ := step_shared.mp hstep
    have hGe : G j e := hG (j, e) List.mem_cons_self
    have hI₁ : ∀ l, I l (p₁.1 l) := by
      intro l
      by_cases hl : l = j
      · subst hl
        exact hapart.keep l _ _ _ _ (hI l) hj hGe
      · rw [hothers l hl]
        exact hI l
    have hG₁ : ∀ x ∈ es, G x.1 x.2 := fun x hx => hG x (List.mem_cons_of_mem _ hx)
    by_cases hji : j = i
    · subst hji
      have hv₁ : view p₁.2 = view (a.foldl serve v) := by
        rw [hstore]
        exact foldl_seen hapart.seen a hv
      obtain ⟨v', hown, hview⟩ := ih hI₁ hG₁ hv₁ hrest
      refine ⟨v', ?_, hview⟩
      rw [own_cons_self, own_append, own_map_self]
      exact run_cons.mpr ⟨(p₁.1 j, a.foldl serve v), a, own j o₂,
        step_served.mpr ⟨hj, rfl⟩, hown, rfl⟩
    · have hv₁ : view p₁.2 = view v := by
        rw [hstore, foldl_unseen (hapart.others j _ _ _ _ hji (hI j) hj hGe)]
        exact hv
      obtain ⟨v', hown, hview⟩ := ih hI₁ hG₁ hv₁ hrest
      refine ⟨v', ?_, hview⟩
      rw [own_cons_of_ne hji, own_append, own_map_of_ne hji, List.nil_append,
        ← hothers i fun h => hji h.symm]
      exact hown

end

/-- Two interleavings of the same events of each member come to the same, when each member
acts on a part of the store that the others do not act on, and there is no other part. -/
theorem run_interleaved {W : ι → Type u} {I : ι → S → Prop} {G : ι → E → Prop}
    {view : ∀ i, V → W i} (hapart : ∀ i, Apart M serve I G i (view i))
    (hparts : ∀ v v', (∀ i, view i v = view i v') → v = v') {es es' : List (ι × E)}
    {p q q' : (ι → S) × V} {o o' : List (ι × O)} (hI : ∀ j, I j (p.1 j))
    (hG : ∀ x ∈ es, G x.1 x.2) (hsame : ∀ i, own i es = own i es')
    (hrun : (M.shared serve).run p es = some (q, o))
    (hrun' : (M.shared serve).run p es' = some (q', o')) : q = q' ∧ ∀ i, own i o = own i o' := by
  have hG' : ∀ x ∈ es', G x.1 x.2 := by
    rintro ⟨i, e⟩ hx
    have hown : e ∈ own i es := by
      rw [hsame i]
      exact mem_own_iff.mpr hx
    exact hG (i, e) (mem_own_iff.mp hown)
  have hend : ∀ i, q.1 i = q'.1 i ∧ view i q.2 = view i q'.2 ∧ own i o = own i o' := by
    intro i
    obtain ⟨v, hv, hview⟩ := run_own (hapart i) hI hG rfl hrun
    obtain ⟨v', hv', hview'⟩ := run_own (hapart i) hI hG' rfl hrun'
    rw [hsame i, hv', Option.some.injEq, Prod.mk.injEq, Prod.mk.injEq] at hv
    obtain ⟨⟨hstate, hstore⟩, heffects⟩ := hv
    exact ⟨hstate.symm, by rw [hview, hview', hstore], heffects.symm⟩
  refine ⟨Prod.ext (funext fun i => (hend i).1) (hparts _ _ fun i => (hend i).2.1),
    fun i => (hend i).2.2⟩

end Machine
end Reactive
end SocialApp

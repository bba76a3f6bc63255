import Mathlib.Data.List.Perm.Basic

/-! # Callbacks in flight

The callbacks that wait for an answer are kept in a list.  One that runs is taken
out with `eraseIdx`, one whose state changes is replaced with `set`.  An
invariant looks at the callbacks of one kind, through `filterMap`. -/

namespace SocialApp
namespace Reactive

universe u v

variable {α : Type u} {β : Type v} {f : α → Option β} {l : List α} {k : Nat} {x : α} {y : β}

theorem mem_iff_mem_eraseIdx (h : l[k]? = some x) {z : α} :
    z ∈ l ↔ z = x ∨ z ∈ l.eraseIdx k := by
  obtain ⟨hk, rfl⟩ := List.getElem?_eq_some_iff.mp h
  rw [← (List.getElem_cons_eraseIdx_perm hk).mem_iff, List.mem_cons]

/-- Replacing a callback leaves the others in flight. -/
theorem mem_set_iff (h : l[k]? = some x) {y z : α} (hx : z ≠ x) (hy : z ≠ y) :
    z ∈ l.set k y ↔ z ∈ l := by
  induction l generalizing k with
  | nil => exact absurd h (by simp)
  | cons a l ih =>
    cases k with
    | zero =>
      simp only [List.getElem?_cons_zero, Option.some.injEq] at h
      rw [List.set_cons_zero, List.mem_cons, List.mem_cons, h, or_iff_right hx, or_iff_right hy]
    | succ k =>
      rw [List.getElem?_cons_succ] at h
      rw [List.set_cons_succ, List.mem_cons, List.mem_cons, ih h]

/-- A callback in flight after one has run and issued another. -/
theorem mem_or_eq_of_mem_issued {z : α} (h : z ∈ l.eraseIdx k ++ [x]) : z ∈ l ∨ z = x := by
  rcases List.mem_append.mp h with h | h
  · exact Or.inl (List.mem_of_mem_eraseIdx h)
  · exact Or.inr (List.mem_singleton.mp h)

/-- The callbacks of one kind, with the one at `k` in its place. -/
theorem filterMap_eq_take_append (h : l[k]? = some x) (f : α → Option β) :
    l.filterMap f =
      (l.take k).filterMap f ++ ((f x).toList ++ (l.drop (k + 1)).filterMap f) := by
  obtain ⟨hk, rfl⟩ := List.getElem?_eq_some_iff.mp h
  conv_lhs => rw [← List.take_append_drop k l, List.drop_eq_getElem_cons hk]
  rw [List.filterMap_append, List.filterMap_cons]
  cases f l[k] <;> rfl

/-- The same after the callback at `k` has run. -/
theorem filterMap_eraseIdx_eq (f : α → Option β) :
    (l.eraseIdx k).filterMap f = (l.take k).filterMap f ++ (l.drop (k + 1)).filterMap f := by
  rw [List.eraseIdx_eq_take_drop_succ, List.filterMap_append]

/-- The same after it has been replaced. -/
theorem filterMap_set_eq (h : l[k]? = some x) (f : α → Option β) (z : α) :
    (l.set k z).filterMap f =
      (l.take k).filterMap f ++ ((f z).toList ++ (l.drop (k + 1)).filterMap f) := by
  obtain ⟨hk, -⟩ := List.getElem?_eq_some_iff.mp h
  rw [List.set_eq_take_append_cons_drop, if_pos hk, List.filterMap_append, List.filterMap_cons]
  cases f z <;> rfl

/-- Taking out a callback of another kind. -/
theorem filterMap_eraseIdx_none (h : l[k]? = some x) (hf : f x = none) :
    (l.eraseIdx k).filterMap f = l.filterMap f := by
  induction l generalizing k with
  | nil => rfl
  | cons a l ih =>
    cases k with
    | zero =>
      simp only [List.getElem?_cons_zero, Option.some.injEq] at h
      rw [List.eraseIdx_cons_zero, h, List.filterMap_cons_none hf]
    | succ k =>
      rw [List.getElem?_cons_succ] at h
      rw [List.eraseIdx_cons_succ, List.filterMap_cons, List.filterMap_cons, ih h]

/-- Taking out a callback of the kind looked at. -/
theorem filterMap_eraseIdx_some (h : l[k]? = some x) (hf : f x = some y) :
    (y :: (l.eraseIdx k).filterMap f).Perm (l.filterMap f) := by
  obtain ⟨hk, rfl⟩ := List.getElem?_eq_some_iff.mp h
  have hperm := (List.getElem_cons_eraseIdx_perm hk).filterMap f
  rwa [List.filterMap_cons_some hf] at hperm

/-- Replacing a callback by one that looks the same. -/
theorem filterMap_set (h : l[k]? = some x) {z : α} (hf : f z = f x) :
    (l.set k z).filterMap f = l.filterMap f := by
  induction l generalizing k with
  | nil => rfl
  | cons a l ih =>
    cases k with
    | zero =>
      simp only [List.getElem?_cons_zero, Option.some.injEq] at h
      rw [List.set_cons_zero, List.filterMap_cons, List.filterMap_cons, h, hf]
    | succ k =>
      rw [List.getElem?_cons_succ] at h
      rw [List.set_cons_succ, List.filterMap_cons, List.filterMap_cons, ih h]

/-- Replacing a callback by one of the kind looked at. -/
theorem filterMap_set_some (h : l[k]? = some x) {z : α} (hf : f z = some y) :
    ((l.set k z).filterMap f).Perm (y :: (l.eraseIdx k).filterMap f) := by
  obtain ⟨hk, -⟩ := List.getElem?_eq_some_iff.mp h
  have hperm := (List.set_perm_cons_eraseIdx hk z).filterMap f
  rwa [List.filterMap_cons_some hf] at hperm

/-- The callbacks of the kind looked at, with the one at `k` set apart. -/
theorem filterMap_perm_eraseIdx (h : l[k]? = some x) (f : α → Option β) :
    (l.filterMap f).Perm ((f x).toList ++ (l.eraseIdx k).filterMap f) := by
  obtain ⟨hk, rfl⟩ := List.getElem?_eq_some_iff.mp h
  have hperm := (List.getElem_cons_eraseIdx_perm hk).filterMap f
  rw [List.filterMap_cons] at hperm
  cases hf : f l[k] with
  | none => rw [hf] at hperm; exact hperm.symm
  | some y => rw [hf] at hperm; exact hperm.symm

/-- The same after the callback at `k` has been replaced. -/
theorem filterMap_set_perm (h : l[k]? = some x) (f : α → Option β) (z : α) :
    ((l.set k z).filterMap f).Perm ((f z).toList ++ (l.eraseIdx k).filterMap f) := by
  obtain ⟨hk, -⟩ := List.getElem?_eq_some_iff.mp h
  have hperm := (List.set_perm_cons_eraseIdx hk z).filterMap f
  rw [List.filterMap_cons] at hperm
  cases hf : f z with
  | none => rw [hf] at hperm; exact hperm
  | some y => rw [hf] at hperm; exact hperm

/-! ## Stamps -/

/-- A list with a stamp for each callback, when those that follow the ones in `left` have
just been issued. -/
def stamp {ν : Type v} (n : ν) (left : List (ν × α)) (inFlight : List α) : List (ν × α) :=
  left ++ (inFlight.drop left.length).map (Prod.mk n)

theorem stamp_append {ν : Type v} (n : ν) (left : List (ν × α)) (new : List α) :
    stamp n left (left.map Prod.snd ++ new) = left ++ new.map (Prod.mk n) := by
  unfold stamp
  rw [List.drop_left' (by simp)]

end Reactive
end SocialApp

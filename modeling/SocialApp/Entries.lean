import Mathlib.Data.List.Basic
import Mathlib.Data.List.Sort
import Mathlib.Order.Basic

/-! # Sorted lists of entries

A list of entries with rising keys is a finite map: it has one entry for a key at most, and
two such lists that answer every lookup alike are equal. -/

namespace SocialApp
namespace Entries

variable {κ β : Type}

def keys (l : List (κ × β)) : List κ := l.map Prod.fst

theorem mem_keys {l : List (κ × β)} {k : κ} : k ∈ keys l ↔ ∃ v, (k, v) ∈ l := by
  simp [keys]

theorem mem_keys_filter {l : List (κ × β)} {p : κ → Bool} {k : κ} :
    k ∈ keys (l.filter fun e => p e.1) ↔ k ∈ keys l ∧ p k := by
  simp [mem_keys]

/-- The entries that are kept come first in a list just when none that is dropped comes
before one that is kept. -/
theorem take_eq_filter_iff {ε : Type} (p : ε → Bool) (l : List ε) :
    l.take (l.filter p).length = l.filter p ↔ l.Pairwise fun a b => p b → p a := by
  induction l with
  | nil => simp
  | cons a l ih =>
    rw [List.pairwise_cons]
    cases hp : p a with
    | true =>
      rw [List.filter_cons_of_pos hp, List.length_cons, List.take_succ_cons]
      simp [ih]
    | false =>
      rw [List.filter_cons_of_neg (by simp [hp])]
      rcases hkept : l.filter p with _ | ⟨b, rest⟩
      · have hnone : ∀ b ∈ l, ¬ p b = true := List.filter_eq_nil_iff.mp hkept
        refine ⟨fun _ => ⟨fun b hb hpb => absurd hpb (hnone b hb), ?_⟩, fun _ => rfl⟩
        exact List.pairwise_of_forall_mem_list fun a _ b hb hpb => absurd hpb (hnone b hb)
      · have hb : b ∈ l.filter p := hkept ▸ List.mem_cons_self
        obtain ⟨hb, hpb⟩ := List.mem_filter.mp hb
        constructor
        · intro h
          rw [List.length_cons, List.take_succ_cons] at h
          have hab : a = b := (List.cons_eq_cons.mp h).1
          rw [← hab, hp] at hpb
          exact absurd hpb (by simp)
        · exact fun h => absurd (h.1 b hb hpb) (by simp)

/-! ## Lookups -/

section Lookup

variable [BEq κ] [LawfulBEq κ]

theorem lookup_eq_none_iff {l : List (κ × β)} {k : κ} : l.lookup k = none ↔ k ∉ keys l := by
  rw [List.lookup_eq_none_iff, mem_keys]
  constructor
  · rintro h ⟨v, hv⟩
    exact absurd (h _ hv) (by simp)
  · intro h e he
    exact bne_iff_ne.mpr fun hk => h ⟨e.2, hk ▸ he⟩

theorem lookup_cons_ne {l : List (κ × β)} {e : κ × β} {k : κ} (h : k ≠ e.1) :
    (e :: l).lookup k = l.lookup k := by
  rw [List.lookup_cons, beq_eq_false_iff_ne.mpr h]

theorem mem_of_lookup {l : List (κ × β)} {k : κ} {v : β} (h : l.lookup k = some v) :
    (k, v) ∈ l := by
  obtain ⟨before, after, rfl, -⟩ := List.lookup_eq_some_iff.mp h
  exact List.mem_append_right _ List.mem_cons_self

end Lookup

/-! ## Rising keys -/

variable [LinearOrder κ] {l l' : List (κ × β)} {k : κ} {v : β}

def Sorted (l : List (κ × β)) : Prop := l.Pairwise fun a b => a.1 < b.1

instance (l : List (κ × β)) : Decidable (Sorted l) :=
  inferInstanceAs (Decidable (l.Pairwise fun a b => a.1 < b.1))

theorem Sorted.nodup (hl : Sorted l) : l.Nodup := by
  unfold Sorted at hl
  exact hl.imp fun hlt heq => hlt.ne (congrArg Prod.fst heq)

theorem Sorted.nodup_keys (hl : Sorted l) : (keys l).Nodup := by
  unfold Sorted at hl
  exact List.pairwise_map.mpr (hl.imp fun hlt => hlt.ne)

theorem Sorted.pairwise_iff (hl : Sorted l) {r : κ × β → κ × β → Prop} :
    l.Pairwise r ↔ ∀ a ∈ l, ∀ b ∈ l, a.1 < b.1 → r a b := by
  induction l with
  | nil => simp
  | cons e l ih =>
    obtain ⟨he, hl⟩ := List.pairwise_cons.mp hl
    rw [List.pairwise_cons, ih hl]
    constructor
    · rintro ⟨hr, hrest⟩ a ha b hb hab
      rcases List.mem_cons.mp ha with rfl | ha'
      · rcases List.mem_cons.mp hb with rfl | hb
        · exact absurd hab (lt_irrefl _)
        · exact hr b hb
      · rcases List.mem_cons.mp hb with rfl | hb
        · exact absurd hab (he a ha').asymm
        · exact hrest a ha' b hb hab
    · intro h
      refine ⟨fun b hb => h e List.mem_cons_self b (List.mem_cons_of_mem e hb) (he b hb), ?_⟩
      exact fun a ha b hb => h a (List.mem_cons_of_mem e ha) b (List.mem_cons_of_mem e hb)

theorem Sorted.filter (hl : Sorted l) (p : κ × β → Bool) : Sorted (l.filter p) :=
  List.Pairwise.filter p hl

/-! ## Insertion -/

/-- The entry of a key is replaced, or put between its neighbours. -/
def insert (k : κ) (v : β) : List (κ × β) → List (κ × β)
  | [] => [(k, v)]
  | e :: l =>
    if k < e.1 then (k, v) :: e :: l
    else if k = e.1 then (k, v) :: l
    else e :: insert k v l

theorem keys_insert_subset {k' : κ} (h : k' ∈ keys (insert k v l)) : k' = k ∨ k' ∈ keys l := by
  induction l with
  | nil => exact (List.mem_cons.mp h).imp_right fun h => absurd h List.not_mem_nil
  | cons e l ih =>
    unfold insert at h
    split at h
    · exact List.mem_cons.mp h
    · split at h
      · exact (List.mem_cons.mp h).imp_right (List.mem_cons_of_mem _)
      · rcases List.mem_cons.mp h with h | h
        · exact .inr (h ▸ List.mem_cons_self)
        · exact (ih h).imp_right (List.mem_cons_of_mem _)

theorem Sorted.insert (hl : Sorted l) (k : κ) (v : β) : Sorted (insert k v l) := by
  induction l with
  | nil => exact List.pairwise_singleton _ _
  | cons e l ih =>
    obtain ⟨he, hl⟩ := List.pairwise_cons.mp hl
    unfold Entries.insert
    split
    · next hlt =>
      refine List.pairwise_cons.mpr ⟨fun b hb => ?_, List.pairwise_cons.mpr ⟨he, hl⟩⟩
      rcases List.mem_cons.mp hb with rfl | hb
      · exact hlt
      · exact hlt.trans (he b hb)
    · split
      · next heq => exact List.pairwise_cons.mpr ⟨fun b hb => heq ▸ he b hb, hl⟩
      · next hnlt hne =>
        refine List.pairwise_cons.mpr ⟨fun b hb => ?_, ih hl⟩
        rcases keys_insert_subset (mem_keys.mpr ⟨b.2, hb⟩) with hk | hk
        · rw [hk]
          exact lt_of_le_of_ne (not_lt.mp hnlt) (Ne.symm hne)
        · obtain ⟨w, hw⟩ := mem_keys.mp hk
          exact he (b.1, w) hw

/-! ## Lookups by rising keys -/

variable [BEq κ] [LawfulBEq κ]

theorem Sorted.lookup_of_mem (hl : Sorted l) (h : (k, v) ∈ l) : l.lookup k = some v := by
  induction l with
  | nil => exact absurd h List.not_mem_nil
  | cons e l ih =>
    obtain ⟨he, hl⟩ := List.pairwise_cons.mp hl
    rcases List.mem_cons.mp h with rfl | h
    · exact List.lookup_cons_self
    · rw [lookup_cons_ne (he _ h).ne', ih hl h]

theorem Sorted.lookup_eq_some_iff (hl : Sorted l) : l.lookup k = some v ↔ (k, v) ∈ l :=
  ⟨mem_of_lookup, hl.lookup_of_mem⟩

theorem Sorted.ext (hl : Sorted l) (hl' : Sorted l') (h : ∀ k, l.lookup k = l'.lookup k) :
    l = l' := by
  have hperm : l.Perm l' := by
    rw [List.perm_ext_iff_of_nodup hl.nodup hl'.nodup]
    rintro ⟨k, v⟩
    rw [← hl.lookup_eq_some_iff, ← hl'.lookup_eq_some_iff, h]
  exact hperm.eq_of_pairwise (fun a b _ _ hab hba => absurd hab hba.asymm) hl hl'

theorem Sorted.lookup_filter (hl : Sorted l) (p : κ → Bool) (k : κ) :
    (l.filter fun e => p e.1).lookup k = if p k then l.lookup k else none := by
  refine Option.ext fun v => ?_
  rw [(hl.filter _).lookup_eq_some_iff, List.mem_filter]
  split
  · next hp => rw [hl.lookup_eq_some_iff, and_iff_left hp]
  · next hp => exact ⟨fun h => absurd h.2 hp, fun h => absurd h (by simp)⟩

theorem lookup_insert (k : κ) (v : β) (l : List (κ × β)) (k' : κ) :
    (insert k v l).lookup k' = if k' = k then some v else l.lookup k' := by
  induction l with
  | nil =>
    split
    · next h => rw [h, insert, List.lookup_cons_self]
    · next h => rw [insert, lookup_cons_ne h]
  | cons e l ih =>
    unfold insert
    split
    · split
      · next h => rw [h, List.lookup_cons_self]
      · next h => rw [lookup_cons_ne h]
    · split
      · next heq =>
        split
        · next h => rw [h, List.lookup_cons_self]
        · next h => rw [lookup_cons_ne h, lookup_cons_ne (heq ▸ h)]
      · next hne =>
        by_cases h : k' = e.1
        · have hk : k' ≠ k := fun hk => hne (hk ▸ h)
          rw [if_neg hk, h, List.lookup_cons_self, List.lookup_cons_self]
        · rw [lookup_cons_ne h, ih, lookup_cons_ne h]

end Entries
end SocialApp

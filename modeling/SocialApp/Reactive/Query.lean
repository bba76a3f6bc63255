import SocialApp.Reactive.Order

/-! # Results of queries

The result of a query lists what satisfies a condition, each thing once, in an order.  It
is known by the condition and the order, so a narrower query lists a part of what a wider
one does, in the same order. -/

namespace SocialApp
namespace Reactive

universe u

variable {δ : Type u}

/-- `docs` is the result of the query for what satisfies `P`, in the order of `r`. -/
structure Lists (r : δ → δ → Prop) (P : δ → Prop) (docs : List δ) : Prop where
  mem_iff : ∀ d, d ∈ docs ↔ P d
  sorted : docs.Pairwise r

namespace Lists

variable {r r' : δ → δ → Prop} {P Q : δ → Prop} {docs docs' : List δ}

/-- The order matters only for what is listed. -/
theorem congr (h : Lists r P docs) (hP : ∀ d, P d ↔ Q d)
    (hr : ∀ a b, Q a → Q b → r a b → r' a b) : Lists r' Q docs := by
  refine { mem_iff := fun d => (h.mem_iff d).trans (hP d), sorted := ?_ }
  refine h.sorted.imp_of_mem fun {a b} ha hb hab => ?_
  exact hr a b ((hP a).mp ((h.mem_iff a).mp ha)) ((hP b).mp ((h.mem_iff b).mp hb)) hab

theorem reverse (h : Lists r P docs) : Lists (fun a b => r b a) P docs.reverse := by
  refine { mem_iff := fun d => ?_, sorted := List.pairwise_reverse.mpr h.sorted }
  rw [List.mem_reverse]
  exact h.mem_iff d

theorem filter (h : Lists r P docs) (p : δ → Bool) :
    Lists r (fun d => P d ∧ p d = true) (docs.filter p) := by
  refine { mem_iff := fun d => ?_, sorted := h.sorted.filter p }
  rw [List.mem_filter, h.mem_iff d]

theorem nodup [Std.Irrefl r] (h : Lists r P docs) : docs.Nodup := by
  refine h.sorted.imp fun {a b} hab => ?_
  rintro rfl
  exact Std.Irrefl.irrefl a hab

/-- A query has one result. -/
theorem unique [Std.Asymm r] (h : Lists r P docs) (h' : Lists r P docs') : docs = docs' := by
  have hirrefl : Std.Irrefl r := ⟨fun a ha => Std.Asymm.asymm a a ha ha⟩
  have hperm : docs.Perm docs' :=
    (List.perm_ext_iff_of_nodup h.nodup h'.nodup).mpr fun d =>
      (h.mem_iff d).trans (h'.mem_iff d).symm
  refine hperm.eq_of_pairwise (fun a b _ _ hab hba => ?_) h.sorted h'.sorted
  exact absurd hba (Std.Asymm.asymm a b hab)

/-- A narrower query lists a part of what a wider one lists. -/
theorem eq_filter [Std.Asymm r] (h : Lists r P docs) (h' : Lists r Q docs') (p : δ → Bool)
    (hp : ∀ d, P d ↔ Q d ∧ p d = true) : docs = docs'.filter p :=
  (h.congr hp fun _ _ _ _ hab => hab).unique (h'.filter p)

theorem sublist [Std.Asymm r] (h : Lists r P docs) (h' : Lists r Q docs') (hPQ : ∀ d, P d → Q d) :
    docs.Sublist docs' := by
  classical
  have heq : docs = docs'.filter fun d => decide (P d) :=
    h.eq_filter h' _ fun d => by
      rw [decide_eq_true_eq]
      exact ⟨fun hd => ⟨hPQ d hd, hd⟩, And.right⟩
  rw [heq]
  exact List.filter_sublist

/-- What a wider query lists more comes at the end exactly when it is ordered after all
that the narrower one lists. -/
theorem prefix_iff [Std.Asymm r] (h : Lists r P docs) (h' : Lists r Q docs')
    (hPQ : ∀ d, P d → Q d) :
    docs <+: docs' ↔ ∀ d ∈ docs', d ∉ docs → ∀ e ∈ docs, r e d := by
  classical
  constructor
  · rintro ⟨rest, rfl⟩ d hd hnot e he
    have hcross := (List.pairwise_append.mp h'.sorted).2.2
    rcases List.mem_append.mp hd with hd | hd
    · exact absurd hd hnot
    · exact hcross e he d hd
  · intro hlater
    let rest := docs'.filter fun d => decide (d ∉ docs)
    have hrest : ∀ d, d ∈ rest ↔ d ∈ docs' ∧ d ∉ docs := by
      intro d
      rw [List.mem_filter, decide_eq_true_eq]
    have happend : Lists r Q (docs ++ rest) := by
      refine { mem_iff := fun d => ?_, sorted := ?_ }
      · rw [List.mem_append, hrest, h'.mem_iff]
        constructor
        · rintro (hd | hd)
          · exact hPQ d ((h.mem_iff d).mp hd)
          · exact hd.1
        · intro hd
          by_cases hmem : d ∈ docs
          · exact Or.inl hmem
          · exact Or.inr ⟨hd, hmem⟩
      · refine List.pairwise_append.mpr ⟨h.sorted, h'.sorted.filter _, fun e he d hd => ?_⟩
        obtain ⟨hd, hnot⟩ := (hrest d).mp hd
        exact hlater d hd hnot e he
    exact ⟨rest, happend.unique h'⟩

end Lists

/-- Documents with different keys, in the order of their keys. -/
theorem Keyed.lists {κ : Type*} [LinearOrder κ] {key : δ → κ} {docs : List δ}
    (h : Keyed key docs) :
    Lists (fun a b => key a < key b) (fun d => d ∈ docs) (orderBy key docs) :=
  { mem_iff := fun _ => mem_orderBy, sorted := h.orderBy_pairwise }

end Reactive
end SocialApp

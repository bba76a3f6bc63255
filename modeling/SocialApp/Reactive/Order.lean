import Mathlib.Data.List.Sort
import Mathlib.Data.List.Nodup

/-! # Two listings of the same things

A query lists documents by a key.  Where the same things have a document in each of
two collections, with keys of their own, the two queries list the things in one
order exactly when the keys of any two of them compare alike in both. -/

namespace SocialApp
namespace Reactive

universe u v w

variable {α : Type u} {κ : Type v} {ι : Type w} [LinearOrder κ]

/-- The documents of a query, in the order of `key`. -/
def orderBy (key : α → κ) (docs : List α) : List α :=
  docs.insertionSort fun a b => key a ≤ key b

section OneQuery

variable {key : α → κ} {docs : List α}

theorem orderBy_perm (key : α → κ) (docs : List α) : (orderBy key docs).Perm docs :=
  List.perm_insertionSort _ docs

theorem mem_orderBy {a : α} : a ∈ orderBy key docs ↔ a ∈ docs := (orderBy_perm key docs).mem_iff

theorem orderBy_pairwise (key : α → κ) (docs : List α) :
    (orderBy key docs).Pairwise fun a b => key a ≤ key b :=
  have : Std.Total fun a b : α => key a ≤ key b := ⟨fun a b => le_total (key a) (key b)⟩
  have : IsTrans α fun a b : α => key a ≤ key b := ⟨fun _ _ _ => le_trans⟩
  List.pairwise_insertionSort _ docs

/-- No two documents have one key. -/
def Keyed (key : α → κ) (docs : List α) : Prop := (docs.map key).Nodup

theorem Keyed.orderBy_pairwise (h : Keyed key docs) :
    (orderBy key docs).Pairwise fun a b => key a < key b := by
  have hnodup : ((orderBy key docs).map key).Nodup :=
    ((orderBy_perm key docs).map key).nodup_iff.mpr h
  have hne : (orderBy key docs).Pairwise fun a b => key a ≠ key b := List.pairwise_map.mp hnodup
  exact (Reactive.orderBy_pairwise key docs).imp₂ (fun _ _ hle hne => lt_of_le_of_ne hle hne) hne

/-- Of two documents the one with the smaller key is listed first. -/
theorem Keyed.pair_sublist_iff (h : Keyed key docs) {a b : α} (ha : a ∈ docs) (hb : b ∈ docs) :
    [a, b].Sublist (orderBy key docs) ↔ key a < key b := by
  constructor
  · intro hsub
    have hpair := h.orderBy_pairwise.sublist hsub
    exact List.rel_of_pairwise_cons hpair List.mem_cons_self
  · intro hlt
    have hne : a ≠ b := fun heq => absurd (heq ▸ hlt) (lt_irrefl _)
    have hpair : [a, b].Pairwise fun a b => key a < key b := List.pairwise_pair.mpr hlt
    have hsubperm : [a, b].Subperm (orderBy key docs) := by
      refine List.subperm_of_subset (by simp [hne]) fun x hx => ?_
      rcases List.mem_cons.mp hx with rfl | hx
      · exact mem_orderBy.mpr ha
      · rw [List.mem_singleton.mp hx]
        exact mem_orderBy.mpr hb
    obtain ⟨l, hperm, hsub⟩ := hsubperm
    have hl := h.orderBy_pairwise.sublist hsub
    have heq : l = [a, b] :=
      hperm.eq_of_pairwise (fun _ _ _ _ hxy hyx => absurd hxy (lt_asymm hyx)) hl hpair
    exact heq ▸ hsub

end OneQuery

section TwoQueries

variable {key : α → κ} {name : α → ι} {docs docs' : List α}

/-- The keys of any two things compare alike in both collections. -/
def Alike (key : α → κ) (name : α → ι) (docs docs' : List α) : Prop :=
  ∀ a ∈ docs, ∀ b ∈ docs, ∀ a' ∈ docs', ∀ b' ∈ docs', name a = name a' → name b = name b' →
    (key a < key b ↔ key a' < key b')

/-- A collection with one document for each thing. -/
theorem eq_of_name (hname : (docs.map name).Nodup) {a b : α} (ha : a ∈ docs) (hb : b ∈ docs)
    (h : name a = name b) : a = b := List.inj_on_of_nodup_map hname ha hb h

/-- A pair of names, listed in this order, is of two documents listed in this order. -/
theorem pair_of_map (hname : (docs.map name).Nodup) {a b : α} (ha : a ∈ docs) (hb : b ∈ docs)
    (h : [name a, name b].Sublist ((orderBy key docs).map name)) :
    [a, b].Sublist (orderBy key docs) := by
  obtain ⟨l, hsub, heq⟩ := List.sublist_map_iff.mp h
  obtain ⟨c, l, rfl, hc, hl⟩ := List.map_eq_cons_iff.mp heq.symm
  obtain ⟨d, l', rfl, hd, hnil⟩ := List.map_eq_cons_iff.mp hl
  rw [List.map_eq_nil_iff.mp hnil] at hsub
  have hcdocs : c ∈ docs := mem_orderBy.mp (hsub.subset List.mem_cons_self)
  have hddocs : d ∈ docs :=
    mem_orderBy.mp (hsub.subset (List.mem_cons_of_mem _ List.mem_cons_self))
  rwa [eq_of_name hname hcdocs ha hc, eq_of_name hname hddocs hb hd] at hsub

/-- The two collections list the things in one order exactly when their keys
compare alike. -/
theorem map_orderBy_eq_iff (hkey : Keyed key docs) (hkey' : Keyed key docs')
    (hname : (docs.map name).Nodup) (hperm : (docs.map name).Perm (docs'.map name)) :
    (orderBy key docs).map name = (orderBy key docs').map name ↔ Alike key name docs docs' := by
  have hname' : (docs'.map name).Nodup := hperm.nodup_iff.mp hname
  constructor
  · intro h a ha b hb a' ha' b' hb' haa hbb
    rw [← hkey.pair_sublist_iff ha hb, ← hkey'.pair_sublist_iff ha' hb']
    constructor
    · intro hsub
      have hmap := hsub.map name
      rw [h, List.map_cons, List.map_cons, haa, hbb] at hmap
      exact pair_of_map hname' ha' hb' hmap
    · intro hsub
      have hmap := hsub.map name
      rw [← h, List.map_cons, List.map_cons, ← haa, ← hbb] at hmap
      exact pair_of_map hname ha hb hmap
  · intro h
    -- the order of the keys, read off the first collection
    let r : ι → ι → Prop := fun i j => ∃ a ∈ docs, ∃ b ∈ docs, name a = i ∧ name b = j ∧
      key a < key b
    have hlisted : ((orderBy key docs).map name).Pairwise r := by
      rw [List.pairwise_map]
      refine hkey.orderBy_pairwise.imp_of_mem fun ha hb hlt => ?_
      exact ⟨_, mem_orderBy.mp ha, _, mem_orderBy.mp hb, rfl, rfl, hlt⟩
    have hlisted' : ((orderBy key docs').map name).Pairwise r := by
      rw [List.pairwise_map]
      refine hkey'.orderBy_pairwise.imp_of_mem fun {a' b'} ha' hb' hlt => ?_
      have ha' := mem_orderBy.mp ha'
      have hb' := mem_orderBy.mp hb'
      obtain ⟨a, ha, haa⟩ := List.mem_map.mp (hperm.mem_iff.mpr (List.mem_map_of_mem ha'))
      obtain ⟨b, hb, hbb⟩ := List.mem_map.mp (hperm.mem_iff.mpr (List.mem_map_of_mem hb'))
      exact ⟨a, ha, b, hb, haa, hbb, (h a ha b hb a' ha' b' hb' haa hbb).mpr hlt⟩
    have hmaps : ((orderBy key docs).map name).Perm ((orderBy key docs').map name) :=
      (((orderBy_perm key docs).map name).trans hperm).trans
        ((orderBy_perm key docs').map name).symm
    refine hmaps.eq_of_pairwise ?_ hlisted hlisted'
    rintro i j _ _ ⟨a, ha, b, hb, rfl, rfl, hab⟩ ⟨c, hc, d, hd, hcj, hdi, hcd⟩
    rw [eq_of_name hname hc hb hcj, eq_of_name hname hd ha hdi] at hcd
    exact absurd hab (lt_asymm hcd)

end TwoQueries

end Reactive
end SocialApp

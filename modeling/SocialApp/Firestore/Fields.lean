import SocialApp.Entries
import Mathlib.Data.String.Basic

/-! # The fields of a map value

A map value keeps its fields in an array that is sorted by name.  A change of several fields
at once is one pass over the array, beside the sorted upserts and deletes. -/

namespace SocialApp
namespace Firestore

open Entries

/-- `google_firestore_v1_Value`.  A leaf is a value that holds no other value. -/
inductive Value (α : Type)
  | leaf (a : α)
  | array (values : List (Value α))
  | map (fields : List (String × Value α))

abbrev Fields (α : Type) := List (String × Value α)

variable {α : Type}

/-! ## Sorting

The fields of a value have different names, so that it does not matter where a sort leaves
equal ones, nor that the nested values are sorted first here. -/

mutual

def sortFields : Value α → Value α
  | .leaf a => .leaf a
  | .array values => .array (sortValues values)
  | .map fields => .map ((sortNested fields).mergeSort fun a b => a.1 ≤ b.1)

def sortValues : List (Value α) → List (Value α)
  | [] => []
  | value :: values => sortFields value :: sortValues values

def sortNested : List (String × Value α) → List (String × Value α)
  | [] => []
  | (key, value) :: fields => (key, sortFields value) :: sortNested fields

end

/-! ## Changing fields -/

/-- `CalculateSizeOfUnion` -/
def calculateSizeOfUnion (source upserts : Fields α) (deletes : List String) : Nat :=
  upserts.length + source.countP fun entry => entry.1 ∉ deletes ∧ entry.1 ∉ keys upserts

/-- The loop, with the number of entries still to be written.  It does not look past the
entries that are left: past the end of `upserts` the code is undefined. -/
def applyLoop : Nat → Fields α → Fields α → List String → Fields α
  | 0, _, _, _ => []
  | _ + 1, [], [], _ => []
  | count + 1, [], (next, new) :: upserts, deletes =>
    (next, sortFields new) :: applyLoop count [] upserts deletes
  | count + 1, (key, value) :: source, upserts, deletes =>
    if deletes.head? = some key then applyLoop (count + 1) source upserts deletes.tail
    else match upserts with
      | [] => (key, value) :: applyLoop count source [] deletes
      | (next, new) :: upserts =>
        if next = key then (key, sortFields new) :: applyLoop count source upserts deletes
        else if key < next then
          (key, value) :: applyLoop count source ((next, new) :: upserts) deletes
        else (next, sortFields new) :: applyLoop count ((key, value) :: source) upserts deletes
termination_by _ source upserts _ => source.length + upserts.length

def applyChanges (parent upserts : Fields α) (deletes : List String) : Fields α :=
  applyLoop (calculateSizeOfUnion parent upserts deletes) parent upserts deletes

/-! ## What the loop writes -/

section Equations

variable {count : Nat} {key next : String} {value new : Value α} {source upserts : Fields α}
  {deletes : List String}

theorem applyLoop_append : applyLoop (count + 1) [] ((next, new) :: upserts) deletes =
    (next, sortFields new) :: applyLoop count [] upserts deletes := by
  rw [applyLoop]

theorem applyLoop_delete (h : deletes.head? = some key) :
    applyLoop (count + 1) ((key, value) :: source) upserts deletes =
      applyLoop (count + 1) source upserts deletes.tail := by
  rw [applyLoop.eq_def]
  exact if_pos h

theorem applyLoop_copy (h : deletes.head? ≠ some key) :
    applyLoop (count + 1) ((key, value) :: source) [] deletes =
      (key, value) :: applyLoop count source [] deletes := by
  rw [applyLoop, if_neg h]

theorem applyLoop_update (h : deletes.head? ≠ some key) :
    applyLoop (count + 1) ((key, value) :: source) ((key, new) :: upserts) deletes =
      (key, sortFields new) :: applyLoop count source upserts deletes := by
  rw [applyLoop, if_neg h]
  exact if_pos rfl

theorem applyLoop_keep (h : deletes.head? ≠ some key) (hlt : key < next) :
    applyLoop (count + 1) ((key, value) :: source) ((next, new) :: upserts) deletes =
      (key, value) :: applyLoop count source ((next, new) :: upserts) deletes := by
  rw [applyLoop, if_neg h]
  rw [if_neg hlt.ne', if_pos hlt]

theorem applyLoop_insert (h : deletes.head? ≠ some key) (hlt : next < key) :
    applyLoop (count + 1) ((key, value) :: source) ((next, new) :: upserts) deletes =
      (next, sortFields new) :: applyLoop count ((key, value) :: source) upserts deletes := by
  rw [applyLoop, if_neg h]
  rw [if_neg hlt.ne, if_neg hlt.not_gt]

end Equations

/-- A loop that stops earlier writes the first of the same entries. -/
theorem applyLoop_take (count n : Nat) (source upserts : Fields α) (deletes : List String) :
    applyLoop count source upserts deletes =
      (applyLoop (count + n) source upserts deletes).take count := by
  fun_induction applyLoop count source upserts deletes with
  | case1 => rw [List.take_zero]
  | case2 =>
    rw [Nat.succ_add, applyLoop]
    rfl
  | case3 _ _ _ _ _ ih => rw [Nat.succ_add, applyLoop_append, List.take_succ_cons, ← ih]
  | case4 _ _ _ _ _ _ h ih =>
    rw [Nat.succ_add, applyLoop_delete h, ih, Nat.succ_add]
  | case5 _ _ _ _ _ h ih =>
    rw [Nat.succ_add, applyLoop_copy h, List.take_succ_cons, ← ih]
  | case6 _ _ _ _ _ _ _ h ih =>
    rw [Nat.succ_add, applyLoop_update h, List.take_succ_cons, ← ih]
  | case7 _ _ _ _ _ h _ _ _ _ hlt ih =>
    rw [Nat.succ_add, applyLoop_keep h hlt, List.take_succ_cons, ← ih]
  | case8 _ _ _ _ _ h _ _ _ hne hle ih =>
    have hlt := lt_of_le_of_ne (not_lt.mp hle) hne
    rw [Nat.succ_add, applyLoop_insert h hlt, List.take_succ_cons, ← ih]

theorem mem_applyLoop {count : Nat} {source upserts : Fields α} {deletes : List String}
    {e : String × Value α} (h : e ∈ applyLoop count source upserts deletes) :
    e ∈ source ∨ ∃ new, (e.1, new) ∈ upserts ∧ sortFields new = e.2 := by
  have hmore : ∀ {u : String × Value α} {upserts : Fields α},
      (∃ new, (e.1, new) ∈ upserts ∧ sortFields new = e.2) →
      ∃ new, (e.1, new) ∈ u :: upserts ∧ sortFields new = e.2 :=
    fun ⟨new, hnew, he⟩ => ⟨new, List.mem_cons_of_mem _ hnew, he⟩
  fun_induction applyLoop count source upserts deletes with
  | case1 => exact absurd h List.not_mem_nil
  | case2 => exact absurd h List.not_mem_nil
  | case3 _ _ _ _ _ ih =>
    rcases List.mem_cons.mp h with rfl | h
    · exact .inr ⟨_, List.mem_cons_self, rfl⟩
    · exact (ih h).imp_right hmore
  | case4 _ _ _ _ _ _ _ ih => exact (ih h).imp_left (List.mem_cons_of_mem _)
  | case5 _ _ _ _ _ _ ih =>
    rcases List.mem_cons.mp h with rfl | h
    · exact .inl List.mem_cons_self
    · exact (ih h).imp_left (List.mem_cons_of_mem _)
  | case6 _ _ _ _ _ _ _ _ ih =>
    rcases List.mem_cons.mp h with rfl | h
    · exact .inr ⟨_, List.mem_cons_self, rfl⟩
    · exact (ih h).imp (List.mem_cons_of_mem _) hmore
  | case7 _ _ _ _ _ _ _ _ _ _ _ ih =>
    rcases List.mem_cons.mp h with rfl | h
    · exact .inl List.mem_cons_self
    · exact (ih h).imp_left (List.mem_cons_of_mem _)
  | case8 _ _ _ _ _ _ _ _ _ _ _ ih =>
    rcases List.mem_cons.mp h with rfl | h
    · exact .inr ⟨_, List.mem_cons_self, rfl⟩
    · exact (ih h).imp_right hmore

theorem mem_keys_applyLoop {count : Nat} {source upserts : Fields α} {deletes : List String}
    {k : String} (h : k ∈ keys (applyLoop count source upserts deletes)) :
    k ∈ keys source ∨ k ∈ keys upserts := by
  obtain ⟨v, hv⟩ := mem_keys.mp h
  refine (mem_applyLoop hv).imp (fun h => mem_keys.mpr ⟨v, h⟩) ?_
  rintro ⟨new, hnew, -⟩
  exact mem_keys.mpr ⟨new, hnew⟩

/-! ## Which deletes the loop finds

The loop passes the deletes in their order, so that one that is missing from the source
hides those after it. -/

def found (source : Fields α) (deletes : List String) : List String :=
  deletes.takeWhile fun d => d ∈ keys source

theorem mem_takeWhile_iff {p : String → Bool} {l : List String} (hl : l.Pairwise (· < ·))
    {k : String} : k ∈ l.takeWhile p ↔ k ∈ l ∧ ∀ d ∈ l, d ≤ k → p d = true := by
  induction l with
  | nil => simp
  | cons a l ih =>
    obtain ⟨ha, hl⟩ := List.pairwise_cons.mp hl
    rw [List.takeWhile_cons]
    cases hp : p a with
    | false =>
      refine ⟨fun h => absurd h List.not_mem_nil, fun h => ?_⟩
      have hak : a ≤ k := (List.mem_cons.mp h.1).elim Eq.ge fun hk => (ha k hk).le
      exact absurd (h.2 a List.mem_cons_self hak) (by simp [hp])
    | true =>
      rw [if_pos rfl, List.mem_cons, ih hl, List.mem_cons, List.forall_mem_cons]
      constructor
      · rintro (rfl | ⟨hk, hd⟩)
        · exact ⟨.inl rfl, fun _ => hp, fun d hd hdk => absurd hdk (ha d hd).not_ge⟩
        · exact ⟨.inr hk, fun _ => hp, hd⟩
      · rintro ⟨rfl | hk, -, hd⟩
        · exact .inl rfl
        · exact .inr ⟨hk, hd⟩

section Found

variable {source : Fields α} {deletes : List String} {key : String} {value : Value α}

theorem mem_found_iff (hd : deletes.Pairwise (· < ·)) {k : String} :
    k ∈ found source deletes ↔ k ∈ deletes ∧ ∀ d ∈ deletes, d ≤ k → d ∈ keys source := by
  rw [found, mem_takeWhile_iff hd]
  simp only [decide_eq_true_eq]

theorem found_nil (deletes : List String) : found ([] : Fields α) deletes = [] := by
  cases deletes with
  | nil => rfl
  | cons d deletes => exact List.takeWhile_cons_of_neg (by simp [keys])

/-- The loop finds the head of the source. -/
theorem mem_found_of_head (hsource : Sorted ((key, value) :: source))
    (hd : deletes.Pairwise (· < ·)) (h : deletes.head? = some key) {k : String} :
    k ∈ found ((key, value) :: source) deletes ↔ k = key ∨ k ∈ found source deletes.tail := by
  obtain ⟨ds, rfl⟩ := List.head?_eq_some_iff.mp h
  obtain ⟨hkey, hds⟩ := List.pairwise_cons.mp hd
  rw [mem_found_iff hd, List.tail_cons, mem_found_iff hds, List.mem_cons, List.forall_mem_cons]
  have hcons : ∀ d ∈ ds, d ∈ keys ((key, value) :: source) ↔ d ∈ keys source := fun d hd => by
    rw [keys, List.map_cons, List.mem_cons, or_iff_right (hkey d hd).ne']
    rfl
  constructor
  · rintro ⟨rfl | hk, -, hall⟩
    · exact .inl rfl
    · exact .inr ⟨hk, fun d hd hdk => (hcons d hd).mp (hall d hd hdk)⟩
  · rintro (rfl | ⟨hk, hall⟩)
    · exact ⟨.inl rfl, fun _ => List.mem_cons_self,
        fun d hd hdk => absurd hdk (hkey d hd).not_ge⟩
    · exact ⟨.inr hk, fun _ => List.mem_cons_self,
        fun d hd hdk => (hcons d hd).mpr (hall d hd hdk)⟩

theorem lt_of_mem_keys (hsource : Sorted ((key, value) :: source)) {k : String}
    (h : k ∈ keys source) : key < k := by
  obtain ⟨v, hv⟩ := mem_keys.mp h
  exact (List.pairwise_cons.mp hsource).1 _ hv

/-- The loop passes the head of the source. -/
theorem mem_found_of_not_head (hsource : Sorted ((key, value) :: source))
    (hd : deletes.Pairwise (· < ·)) (h : deletes.head? ≠ some key) {k : String} :
    k ∈ found ((key, value) :: source) deletes ↔ k ∈ found source deletes := by
  rw [mem_found_iff hd, mem_found_iff hd]
  refine and_congr_right fun _ => ?_
  constructor
  · intro hall d hdmem hdk
    refine (List.mem_cons.mp (hall d hdmem hdk)).resolve_left ?_
    -- a delete before the head of the source is missing from it
    rintro rfl
    cases deletes with
    | nil => exact absurd hdmem List.not_mem_nil
    | cons e ds =>
      have hne : e ≠ d := fun he => h (congrArg some he)
      have hlt : e < d := (List.pairwise_cons.mp hd).1 _
        ((List.mem_cons.mp hdmem).resolve_left hne.symm)
      rcases List.mem_cons.mp (hall e List.mem_cons_self (hlt.le.trans hdk)) with he | he
      · exact hne he
      · exact hlt.asymm (lt_of_mem_keys hsource he)
  · exact fun hall d hdmem hdk => List.mem_cons_of_mem _ (hall d hdmem hdk)

/-- A head that the loop passes is no delete that it finds. -/
theorem head_not_mem_found (hsource : Sorted ((key, value) :: source))
    (hd : deletes.Pairwise (· < ·)) (h : deletes.head? ≠ some key) :
    key ∉ found ((key, value) :: source) deletes := by
  rw [mem_found_of_not_head hsource hd h, mem_found_iff hd]
  exact fun hmem => lt_irrefl key (lt_of_mem_keys hsource (hmem.2 key hmem.1 le_rfl))

end Found

/-! ## What a whole pass looks up -/

/-- What the entries are after the upserts and the deletes. -/
def changed (source upserts : Fields α) (deletes : List String) (k : String) :
    Option (Value α) :=
  if k ∈ deletes then none
  else ((upserts.lookup k).map sortFields).or (source.lookup k)

theorem changed_congr {source source' upserts upserts' : Fields α} {deletes deletes' : List String}
    {k : String} (hd : k ∈ deletes ↔ k ∈ deletes') (hupserts : upserts.lookup k = upserts'.lookup k)
    (hsource : source.lookup k = source'.lookup k) :
    changed source upserts deletes k = changed source' upserts' deletes' k := by
  rw [changed, changed, hupserts, hsource]
  exact if_congr hd rfl rfl

theorem not_mem_keys_tail {fields : Fields α} {key : String} {value : Value α}
    (h : Sorted ((key, value) :: fields)) : key ∉ keys fields :=
  fun hmem => lt_irrefl key (lt_of_mem_keys h hmem)

/-- The entry that is written comes before all that is written later. -/
theorem sorted_cons_applyLoop {count : Nat} {source upserts : Fields α} {deletes : List String}
    {key : String} {value : Value α}
    (h : Sorted (applyLoop count source upserts deletes))
    (hsource : ∀ k ∈ keys source, key < k) (hupserts : ∀ k ∈ keys upserts, key < k) :
    Sorted ((key, value) :: applyLoop count source upserts deletes) := by
  refine List.pairwise_cons.mpr ⟨fun e he => ?_, h⟩
  exact (mem_keys_applyLoop (mem_keys.mpr ⟨e.2, he⟩)).elim (hsource e.1) (hupserts e.1)

theorem lookup_cons_changed {source upserts rest : Fields α} {deletes : List String} {key : String}
    {value : Value α} (hkey : changed source upserts deletes key = some value)
    {k : String} (hrest : k ≠ key → rest.lookup k = changed source upserts deletes k) :
    ((key, value) :: rest).lookup k = changed source upserts deletes k := by
  by_cases hk : k = key
  · rw [hk, List.lookup_cons_self, hkey]
  · rw [lookup_cons_ne hk, hrest hk]

theorem changed_upsert {source upserts : Fields α} {deletes : List String} {key : String}
    {new : Value α} (h : key ∉ deletes) :
    changed source ((key, new) :: upserts) deletes key = some (sortFields new) := by
  rw [changed, if_neg h, List.lookup_cons_self]
  rfl

theorem changed_source {source upserts : Fields α} {deletes : List String} {key : String}
    {value : Value α} (h : key ∉ deletes) (hupserts : key ∉ keys upserts) :
    changed ((key, value) :: source) upserts deletes key = some value := by
  rw [changed, if_neg h, lookup_eq_none_iff.mpr hupserts, List.lookup_cons_self]
  rfl

/-- The deletes only drop entries of the source, whatever they are. -/
theorem applyLoop_sorted {count : Nat} {source upserts : Fields α} {deletes : List String}
    (hsource : Sorted source) (hupserts : Sorted upserts) :
    Sorted (applyLoop count source upserts deletes) := by
  fun_induction applyLoop count source upserts deletes with
  | case1 => exact List.Pairwise.nil
  | case2 => exact List.Pairwise.nil
  | case3 count next new upserts deletes ih =>
    exact sorted_cons_applyLoop (ih hsource hupserts.of_cons)
      (fun k hk => absurd hk List.not_mem_nil) fun k hk => lt_of_mem_keys hupserts hk
  | case4 count key value source upserts deletes h ih => exact ih hsource.of_cons hupserts
  | case5 count key value source deletes h ih =>
    exact sorted_cons_applyLoop (ih hsource.of_cons hupserts)
      (fun k hk => lt_of_mem_keys hsource hk) fun k hk => absurd hk List.not_mem_nil
  | case6 count value source deletes key new upserts h ih =>
    exact sorted_cons_applyLoop (ih hsource.of_cons hupserts.of_cons)
      (fun k hk => lt_of_mem_keys hsource hk) fun k hk => lt_of_mem_keys hupserts hk
  | case7 count key value source deletes h next new upserts hne hlt ih =>
    refine sorted_cons_applyLoop (ih hsource.of_cons hupserts)
      (fun k hk => lt_of_mem_keys hsource hk) fun k hk => ?_
    rcases List.mem_cons.mp hk with rfl | hk
    · exact hlt
    · exact hlt.trans (lt_of_mem_keys hupserts hk)
  | case8 count key value source deletes h next new upserts hne hle ih =>
    have hlt : next < key := lt_of_le_of_ne (not_lt.mp hle) hne
    refine sorted_cons_applyLoop (ih hsource hupserts.of_cons) (fun k hk => ?_)
      fun k hk => lt_of_mem_keys hupserts hk
    rcases List.mem_cons.mp hk with rfl | hk
    · exact hlt
    · exact hlt.trans (lt_of_mem_keys hsource hk)

/-- The arguments of a loop that runs to the end of both arrays. -/
structure Pass (count : Nat) (source upserts : Fields α) (deletes : List String) : Prop where
  sortedSource : Sorted source
  sortedUpserts : Sorted upserts
  sortedDeletes : deletes.Pairwise (· < ·)
  disjoint : ∀ k ∈ deletes, k ∉ keys upserts
  fits : source.length + upserts.length ≤ count

section Pass

variable {count : Nat} {entry : String × Value α} {source upserts : Fields α}
  {deletes : List String}

theorem Pass.delete (h : Pass count (entry :: source) upserts deletes) :
    Pass count source upserts deletes.tail where
  sortedSource := h.sortedSource.of_cons
  sortedUpserts := h.sortedUpserts
  sortedDeletes := h.sortedDeletes.tail
  disjoint k hk := h.disjoint k (List.mem_of_mem_tail hk)
  fits := by
    have hfits := h.fits
    rw [List.length_cons] at hfits
    omega

theorem Pass.keep (h : Pass (count + 1) (entry :: source) upserts deletes) :
    Pass count source upserts deletes where
  sortedSource := h.sortedSource.of_cons
  sortedUpserts := h.sortedUpserts
  sortedDeletes := h.sortedDeletes
  disjoint := h.disjoint
  fits := by
    have hfits := h.fits
    rw [List.length_cons] at hfits
    omega

theorem Pass.insert (h : Pass (count + 1) source (entry :: upserts) deletes) :
    Pass count source upserts deletes where
  sortedSource := h.sortedSource
  sortedUpserts := h.sortedUpserts.of_cons
  sortedDeletes := h.sortedDeletes
  disjoint k hk hmem := h.disjoint k hk (List.mem_cons_of_mem _ hmem)
  fits := by
    have hfits := h.fits
    rw [List.length_cons] at hfits
    omega

theorem Pass.more (h : Pass count source upserts deletes) :
    Pass (count + 1) source upserts deletes :=
  ⟨h.sortedSource, h.sortedUpserts, h.sortedDeletes, h.disjoint, Nat.le_succ_of_le h.fits⟩

end Pass

/-- A pass to the end drops the deletes that it finds. -/
theorem applyLoop_lookup {count : Nat} {source upserts : Fields α} {deletes : List String}
    (hpass : Pass count source upserts deletes) (k : String) :
    (applyLoop count source upserts deletes).lookup k =
      changed source upserts (found source deletes) k := by
  fun_induction applyLoop count source upserts deletes with
  | case1 source upserts deletes =>
    obtain ⟨hnil, hnil'⟩ := Nat.add_eq_zero_iff.mp (Nat.le_zero.mp hpass.fits)
    rw [List.eq_nil_of_length_eq_zero hnil, List.eq_nil_of_length_eq_zero hnil', found_nil]
    rfl
  | case2 count deletes =>
    rw [found_nil]
    rfl
  | case3 count next new upserts deletes ih =>
    have hlookup := ih hpass.insert
    rw [found_nil] at hlookup ⊢
    refine lookup_cons_changed (changed_upsert List.not_mem_nil) fun hk => ?_
    rw [hlookup]
    exact changed_congr Iff.rfl (lookup_cons_ne hk).symm rfl
  | case4 count key value source upserts deletes h ih =>
    have hkey : key ∉ keys upserts := hpass.disjoint key (List.mem_of_mem_head? h)
    have hfound := mem_found_of_head hpass.sortedSource hpass.sortedDeletes h (k := k)
    rw [ih hpass.delete]
    by_cases hk : k = key
    · subst hk
      rw [changed, changed, if_pos (hfound.mpr (.inl rfl)), lookup_eq_none_iff.mpr hkey,
        lookup_eq_none_iff.mpr (not_mem_keys_tail hpass.sortedSource)]
      exact ite_self none
    · refine changed_congr ?_ rfl (lookup_cons_ne hk).symm
      rw [hfound, or_iff_right hk]
  | case5 count key value source deletes h ih =>
    have hkey := head_not_mem_found hpass.sortedSource hpass.sortedDeletes h
    refine lookup_cons_changed (changed_source hkey List.not_mem_nil) fun hk => ?_
    rw [ih hpass.keep]
    exact changed_congr (mem_found_of_not_head hpass.sortedSource hpass.sortedDeletes h).symm rfl
      (lookup_cons_ne hk).symm
  | case6 count value source deletes key new upserts h ih =>
    have hkey := head_not_mem_found hpass.sortedSource hpass.sortedDeletes h
    refine lookup_cons_changed (changed_upsert hkey) fun hk => ?_
    rw [ih hpass.insert.more.keep]
    exact changed_congr (mem_found_of_not_head hpass.sortedSource hpass.sortedDeletes h).symm
      (lookup_cons_ne hk).symm (lookup_cons_ne hk).symm
  | case7 count key value source deletes h next new upserts hne hlt ih =>
    have hkey := head_not_mem_found hpass.sortedSource hpass.sortedDeletes h
    have hnew : key ∉ keys ((next, new) :: upserts) := by
      intro hmem
      rcases List.mem_cons.mp hmem with rfl | hmem
      · exact lt_irrefl _ hlt
      · exact lt_irrefl key (hlt.trans (lt_of_mem_keys hpass.sortedUpserts hmem))
    refine lookup_cons_changed (changed_source hkey hnew) fun hk => ?_
    rw [ih hpass.keep]
    exact changed_congr (mem_found_of_not_head hpass.sortedSource hpass.sortedDeletes h).symm rfl
      (lookup_cons_ne hk).symm
  | case8 count key value source deletes h next new upserts hne hle ih =>
    have hnext : next ∉ found ((key, value) :: source) deletes := fun hmem =>
      hpass.disjoint next ((mem_found_iff hpass.sortedDeletes).mp hmem).1 List.mem_cons_self
    refine lookup_cons_changed (changed_upsert hnext) fun hk => ?_
    rw [ih hpass.insert]
    exact changed_congr Iff.rfl (lookup_cons_ne hk).symm rfl

theorem applyChanges_sorted {source upserts : Fields α} {deletes : List String}
    (hsource : Sorted source) (hupserts : Sorted upserts) :
    Sorted (applyChanges source upserts deletes) :=
  applyLoop_sorted hsource hupserts

/-! ## When a change does what it should -/

section Change

variable {source upserts : Fields α} {deletes : List String}

theorem mem_keys_iff_lookup {fields : Fields α} {k : String} :
    k ∈ keys fields ↔ (fields.lookup k).isSome := by
  rw [← Option.ne_none_iff_isSome, Ne, lookup_eq_none_iff, not_not]

theorem changed_isSome_iff {k : String} :
    (changed source upserts deletes k).isSome ↔
      k ∉ deletes ∧ (k ∈ keys upserts ∨ k ∈ keys source) := by
  unfold changed
  split
  · next h => simp [h]
  · next h => simp [h, mem_keys_iff_lookup]

/-- An entry that is there after the change. -/
def Kept (source upserts : Fields α) (deletes : List String) (k : String) : Prop :=
  k ∈ keys upserts ∨ k ∈ keys source ∧ k ∉ deletes

/-- A delete that the source has comes after all that is kept if it comes after a delete that
the source lacks. -/
def NoneHidden (source upserts : Fields α) (deletes : List String) : Prop :=
  ∀ a ∈ deletes, a ∉ keys source → ∀ d ∈ deletes, d ∈ keys source → a < d →
    ∀ k, Kept source upserts deletes k → k < d

/-- The entries of a whole pass that the deletes name are left out. -/
def wanted (source upserts : Fields α) (deletes : List String) : Fields α :=
  (applyLoop (source.length + upserts.length) source upserts deletes).filter fun entry =>
    entry.1 ∉ deletes

variable (hsource : Sorted source) (hupserts : Sorted upserts) (hd : deletes.Pairwise (· < ·))
  (hdisjoint : ∀ k ∈ deletes, k ∉ keys upserts)

include hsource hupserts hd hdisjoint

theorem wanted_lookup (k : String) :
    (wanted source upserts deletes).lookup k = changed source upserts deletes k := by
  have hsorted : Sorted (applyLoop (source.length + upserts.length) source upserts deletes) :=
    applyLoop_sorted hsource hupserts
  have hlookup := applyLoop_lookup ⟨hsource, hupserts, hd, hdisjoint, le_rfl⟩
  rw [wanted, hsorted.lookup_filter fun k => decide (k ∉ deletes), hlookup]
  by_cases hk : k ∈ deletes
  · rw [if_neg (by simp [hk]), changed, if_pos hk]
  · rw [if_pos (by simp [hk]), changed, changed, if_neg hk,
      if_neg fun h => hk ((mem_found_iff hd).mp h).1]

theorem wanted_length :
    (wanted source upserts deletes).length = calculateSizeOfUnion source upserts deletes := by
  have hsorted : Sorted (wanted source upserts deletes) :=
    (applyLoop_sorted hsource hupserts).filter _
  have hkept : Sorted (source.filter fun entry =>
      entry.1 ∉ deletes ∧ entry.1 ∉ keys upserts) := hsource.filter _
  have hperm : (keys (wanted source upserts deletes)).Perm
      (keys upserts ++ keys (source.filter fun entry =>
        entry.1 ∉ deletes ∧ entry.1 ∉ keys upserts)) := by
    rw [List.perm_ext_iff_of_nodup hsorted.nodup_keys]
    · intro k
      rw [mem_keys_iff_lookup, wanted_lookup hsource hupserts hd hdisjoint, changed_isSome_iff,
        List.mem_append, mem_keys_filter (p := fun k => decide (k ∉ deletes ∧ k ∉ keys upserts)),
        decide_eq_true_eq]
      constructor
      · rintro ⟨hk, hmem⟩
        by_cases hu : k ∈ keys upserts
        · exact .inl hu
        · exact .inr ⟨hmem.resolve_left hu, hk, hu⟩
      · rintro (hu | ⟨hs, hk, -⟩)
        · exact ⟨fun hk => hdisjoint k hk hu, .inl hu⟩
        · exact ⟨hk, .inr hs⟩
    · refine List.nodup_append.mpr ⟨hupserts.nodup_keys, hkept.nodup_keys, ?_⟩
      rintro k hk k' hk' rfl
      have hmem := (mem_keys_filter (p := fun k => decide (k ∉ deletes ∧ k ∉ keys upserts))).mp hk'
      exact (of_decide_eq_true hmem.2).2 hk
  have hlength := hperm.length_eq
  rw [List.length_append, keys, keys, keys, List.length_map, List.length_map, List.length_map,
    ← List.countP_eq_length_filter] at hlength
  exact hlength

theorem applyChanges_eq_take : applyChanges source upserts deletes =
    (applyLoop (source.length + upserts.length) source upserts deletes).take
      (wanted source upserts deletes).length := by
  have hle : calculateSizeOfUnion source upserts deletes ≤ source.length + upserts.length := by
    rw [calculateSizeOfUnion, Nat.add_comm]
    exact Nat.add_le_add_right List.countP_le_length _
  obtain ⟨n, hn⟩ := Nat.exists_eq_add_of_le hle
  rw [wanted_length hsource hupserts hd hdisjoint, hn]
  exact applyLoop_take _ n source upserts deletes

theorem noneHidden_iff : NoneHidden source upserts deletes ↔
    (applyLoop (source.length + upserts.length) source upserts deletes).Pairwise
      fun a b => decide (b.1 ∉ deletes) → decide (a.1 ∉ deletes) := by
  have hsorted : Sorted (applyLoop (source.length + upserts.length) source upserts deletes) :=
    applyLoop_sorted hsource hupserts
  have hlookup := applyLoop_lookup ⟨hsource, hupserts, hd, hdisjoint, le_rfl⟩
  have hmem : ∀ k, (∃ v, (k, v) ∈
      applyLoop (source.length + upserts.length) source upserts deletes) ↔
      k ∉ found source deletes ∧ (k ∈ keys upserts ∨ k ∈ keys source) := fun k => by
    rw [← mem_keys, mem_keys_iff_lookup, hlookup, changed_isSome_iff]
  rw [hsorted.pairwise_iff]
  simp only [decide_eq_true_eq]
  constructor
  · rintro h ⟨d, v⟩ hdv ⟨k, w⟩ hkw hdk hk hdmem
    obtain ⟨hhidden, hdin⟩ := (hmem d).mp ⟨v, hdv⟩
    obtain ⟨-, hkin⟩ := (hmem k).mp ⟨w, hkw⟩
    have hds : d ∈ keys source := hdin.resolve_left (hdisjoint d hdmem)
    rw [mem_found_iff hd] at hhidden
    push Not at hhidden
    obtain ⟨a, ha, had, has⟩ := hhidden hdmem
    have hlt : a < d := lt_of_le_of_ne had fun heq => has (heq ▸ hds)
    exact lt_asymm hdk (h a ha has d hdmem hds hlt k (hkin.imp_right fun hs => ⟨hs, hk⟩))
  · intro h a ha has d hdmem hds hlt k hk
    have hkd : k ∉ deletes := hk.elim (fun hu hkd => hdisjoint k hkd hu) And.right
    obtain ⟨w, hkw⟩ := (hmem k).mpr
      ⟨fun hf => hkd ((mem_found_iff hd).mp hf).1, hk.imp_right And.left⟩
    obtain ⟨v, hdv⟩ := (hmem d).mpr
      ⟨fun hf => has (((mem_found_iff hd).mp hf).2 a ha hlt.le), .inr hds⟩
    refine lt_of_le_of_ne (not_lt.mp fun hdk => ?_) fun heq => hkd (heq ▸ hdmem)
    exact h _ hdv _ hkw hdk hkd hdmem

theorem applyChanges_lookup_iff :
    (∀ k, (applyChanges source upserts deletes).lookup k = changed source upserts deletes k) ↔
      NoneHidden source upserts deletes := by
  have hall : Sorted (applyLoop (source.length + upserts.length) source upserts deletes) :=
    applyLoop_sorted hsource hupserts
  rw [noneHidden_iff hsource hupserts hd hdisjoint,
    ← take_eq_filter_iff fun entry : String × Value α => decide (entry.1 ∉ deletes)]
  change _ ↔ List.take (wanted source upserts deletes).length _ = wanted source upserts deletes
  rw [← applyChanges_eq_take hsource hupserts hd hdisjoint]
  constructor
  · intro h
    refine (applyChanges_sorted hsource hupserts).ext (hall.filter _) fun k => ?_
    rw [h k]
    exact (wanted_lookup hsource hupserts hd hdisjoint k).symm
  · intro h k
    rw [h, wanted_lookup hsource hupserts hd hdisjoint]

/-- The pass fills the new array in the order of the names.  It leaves what the upserts and
the deletes ask for just when no delete is hidden by one that the source lacks. -/
theorem applyChanges_right_iff :
    Sorted (applyChanges source upserts deletes) ∧
      (applyChanges source upserts deletes).length =
        calculateSizeOfUnion source upserts deletes ∧
      ((∀ k, (applyChanges source upserts deletes).lookup k =
        changed source upserts deletes k) ↔ NoneHidden source upserts deletes) := by
  refine ⟨applyChanges_sorted hsource hupserts, ?_,
    applyChanges_lookup_iff hsource hupserts hd hdisjoint⟩
  rw [applyChanges_eq_take hsource hupserts hd hdisjoint, List.length_take,
    wanted_length hsource hupserts hd hdisjoint]
  refine Nat.min_eq_left ?_
  rw [← wanted_length hsource hupserts hd hdisjoint, wanted]
  exact List.length_filter_le _ _

omit hsource hupserts hd hdisjoint in
/-- The delete of a field that is missing hides the delete of `c`, and `d` is lost for it. -/
theorem applyChanges_right_iff_hidden :
    ¬ ∀ k, (applyChanges [("b", .leaf 1), ("c", .leaf 2), ("d", .leaf 3)] [] ["a", "c"]).lookup k =
      changed [("b", .leaf 1), ("c", .leaf 2), ("d", .leaf 3)] [] ["a", "c"] k := by
  rw [(applyChanges_right_iff (by decide) (by decide) (by decide) (by decide)).2.2]
  intro h
  exact absurd (h "a" (by decide) (by decide) "c" (by decide) (by decide) (by decide) "d"
    (.inr (by decide))) (by decide)

omit hd hdisjoint in
theorem applyChanges_upserts (k : String) :
    (applyChanges source upserts []).lookup k =
      ((upserts.lookup k).map sortFields).or (source.lookup k) :=
  (applyChanges_lookup_iff hsource hupserts List.Pairwise.nil
    fun _ hk => absurd hk List.not_mem_nil).mpr (fun _ ha => absurd ha List.not_mem_nil) k

end Change

end Firestore
end SocialApp

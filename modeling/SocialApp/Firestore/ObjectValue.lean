import SocialApp.Firestore.FieldPath
import SocialApp.Firestore.Fields

/-! # Object values

The data of a document is a map value.  A field is read, set and deleted by its path.  A
patch of several fields is collected parent by parent, and each parent's map is changed in
one pass. -/

namespace SocialApp
namespace Firestore

open Entries

variable {α : Type}

/-! ## Reading -/

/-- The entries of a map are searched by halves.  As they are sorted, that is the first one
with the name. -/
def findEntry (value : Value α) (segment : String) : Option (Value α) :=
  match value with
  | .map fields => fields.lookup segment
  | .leaf _ => none
  | .array _ => none

def get (value : Value α) : FieldPath → Option (Value α)
  | [] => some value
  | segment :: path =>
    match findEntry value segment with
    | none => none
    | some nested => get nested path

/-! ## Writing -/

/-- A new value in the entry that `FindEntry` points to. -/
def writeEntry (segment : String) (value : Value α) : Fields α → Fields α
  | [] => []
  | (key, old) :: fields =>
    if key = segment then (key, value) :: fields
    else (key, old) :: writeEntry segment value fields

/-- `ParentMap` and a change of the map that it points to.  A value on the way that is no map
becomes an empty one, and one that is missing is made. -/
def atParentMap (change : Fields α → Fields α) : FieldPath → Fields α → Fields α
  | [], fields => change fields
  | segment :: path, fields =>
    match findEntry (.map fields) segment with
    | some (.map nested) => writeEntry segment (.map (atParentMap change path nested)) fields
    | some (.leaf _) => writeEntry segment (.map (atParentMap change path [])) fields
    | some (.array _) => writeEntry segment (.map (atParentMap change path [])) fields
    | none =>
      writeEntry segment (.map (atParentMap change path []))
        (applyChanges fields [(segment, .map [])] [])

def lastSegment (path : FieldPath) : String := path.getLastD ""

def set (fields : Fields α) (path : FieldPath) (value : Value α) : Fields α :=
  atParentMap (fun parent => applyChanges parent [(lastSegment path, value)] []) path.dropLast
    fields

/-- A path without a value is to be deleted. -/
abbrev TransformMap (α : Type) := List (FieldPath × Option (Value α))

def isImmediateParentOf (parent path : FieldPath) : Bool :=
  parent.length + 1 = path.length ∧ parent = path.take parent.length

/-- `deletes.insert` -/
def insertDelete (segment : String) : List String → List String
  | [] => [segment]
  | d :: deletes =>
    if segment < d then segment :: d :: deletes
    else if segment = d then d :: deletes
    else d :: insertDelete segment deletes

/-- The loop, with the parent of the paths before and what is collected for it. -/
def setAllLoop (parent : FieldPath) (upserts : Fields α) (deletes : List String)
    (fields : Fields α) : TransformMap α → Fields α
  | [] => atParentMap (fun map => applyChanges map upserts deletes) parent fields
  | (path, value) :: data =>
    if isImmediateParentOf parent path then
      match value with
      | some new =>
        setAllLoop parent (Entries.insert (lastSegment path) new upserts) deletes fields data
      | none => setAllLoop parent upserts (insertDelete (lastSegment path) deletes) fields data
    else
      let flushed := atParentMap (fun map => applyChanges map upserts deletes) parent fields
      match value with
      | some new => setAllLoop path.dropLast [(lastSegment path, new)] [] flushed data
      | none => setAllLoop path.dropLast [] [lastSegment path] flushed data

def setAll (fields : Fields α) (data : TransformMap α) : Fields α :=
  setAllLoop [] [] [] fields data

/-! ## Values whose maps are all sorted -/

inductive Normal : Value α → Prop
  | leaf (a : α) : Normal (.leaf a)
  | array {values : List (Value α)} (h : ∀ value ∈ values, Normal value) :
      Normal (.array values)
  | map {fields : Fields α} (hsorted : Sorted fields)
      (h : ∀ entry ∈ fields, Normal entry.2) : Normal (.map fields)

theorem normal_map_iff {fields : Fields α} :
    Normal (.map fields) ↔ Sorted fields ∧ ∀ entry ∈ fields, Normal entry.2 :=
  ⟨fun h => by cases h with | map hsorted h => exact ⟨hsorted, h⟩, fun h => .map h.1 h.2⟩

theorem normal_empty : Normal (.map ([] : Fields α)) :=
  .map List.Pairwise.nil fun _ h => absurd h List.not_mem_nil

theorem sortFields_of_normal {value : Value α} (h : Normal value) : sortFields value = value := by
  induction h with
  | leaf a => rw [sortFields]
  | @array values h ih =>
    have hvalues : ∀ l : List (Value α), (∀ value ∈ l, sortFields value = value) →
        sortValues l = l := by
      intro l hl
      induction l with
      | nil => rw [sortValues]
      | cons value l ihl =>
        rw [sortValues, hl value List.mem_cons_self,
          ihl fun v hv => hl v (List.mem_cons_of_mem _ hv)]
    rw [sortFields, hvalues values ih]
  | @map fields hsorted h ih =>
    have hnested : ∀ l : Fields α, (∀ entry ∈ l, sortFields entry.2 = entry.2) →
        sortNested l = l := by
      intro l hl
      induction l with
      | nil => rw [sortNested]
      | cons entry l ihl =>
        rw [sortNested, hl entry List.mem_cons_self,
          ihl fun v hv => hl v (List.mem_cons_of_mem _ hv)]
    rw [sortFields, hnested fields ih, List.mergeSort_of_pairwise]
    unfold Sorted at hsorted
    exact hsorted.imp fun hlt => decide_eq_true hlt.le

theorem sorted_single (segment : String) (value : Value α) : Sorted [(segment, value)] :=
  List.pairwise_singleton _ _

theorem normal_applyChanges {fields upserts : Fields α} {deletes : List String}
    (hsorted : Sorted upserts) (hupserts : ∀ entry ∈ upserts, Normal (sortFields entry.2))
    (h : Normal (.map fields)) : Normal (.map (applyChanges fields upserts deletes)) := by
  obtain ⟨hfields, hnested⟩ := normal_map_iff.mp h
  refine .map (applyChanges_sorted hfields hsorted) fun entry hentry => ?_
  rcases mem_applyLoop hentry with hold | ⟨new, hnew, heq⟩
  · exact hnested entry hold
  · rw [← heq]
    exact hupserts _ hnew

/-! ## One entry on the way -/

/-- The map that `ParentMap` goes on with. -/
def nestedMap (fields : Fields α) (segment : String) : Fields α :=
  match findEntry (.map fields) segment with
  | some (.map nested) => nested
  | some (.leaf _) => []
  | some (.array _) => []
  | none => []

variable {fields : Fields α} {segment k : String} {path : FieldPath} {value : Value α}
  {change : Fields α → Fields α}

theorem keys_writeEntry (segment : String) (value : Value α) (fields : Fields α) :
    keys (writeEntry segment value fields) = keys fields := by
  induction fields with
  | nil => rfl
  | cons e fields ih =>
    unfold writeEntry
    split
    · rfl
    · exact congrArg (e.1 :: ·) ih

theorem sorted_writeEntry (h : Sorted fields) : Sorted (writeEntry segment value fields) := by
  have hkeys : (keys fields).Pairwise (· < ·) := List.pairwise_map.mpr h
  rw [← keys_writeEntry segment value fields] at hkeys
  exact List.pairwise_map.mp hkeys

theorem lookup_writeEntry (h : segment ∈ keys fields) :
    (writeEntry segment value fields).lookup k =
      if k = segment then some value else fields.lookup k := by
  induction fields with
  | nil => exact absurd h List.not_mem_nil
  | cons e fields ih =>
    unfold writeEntry
    split
    · next he =>
      split
      · next hk => rw [hk, he, List.lookup_cons_self]
      · next hk =>
        have hne : k ≠ e.1 := fun hke => hk (hke.trans he)
        rw [lookup_cons_ne (e := (e.1, value)) hne, lookup_cons_ne hne]
    · next he =>
      have hmem : segment ∈ keys fields := (List.mem_cons.mp h).resolve_left (Ne.symm he)
      by_cases hk : k = e.1
      · have hne : k ≠ segment := fun hks => he (hk ▸ hks)
        rw [if_neg hne, hk, List.lookup_cons_self, List.lookup_cons_self]
      · rw [lookup_cons_ne hk, ih hmem, lookup_cons_ne hk]

theorem lookup_upsert (h : Sorted fields) :
    (applyChanges fields [(segment, value)] []).lookup k =
      if k = segment then some (sortFields value) else fields.lookup k := by
  rw [applyChanges_upserts h (sorted_single segment value)]
  split
  · next hk =>
    rw [hk, List.lookup_cons_self]
    rfl
  · next hk =>
    rw [lookup_cons_ne (e := (segment, value)) hk]
    rfl

theorem sorted_upsert (h : Sorted fields) :
    Sorted (applyChanges fields [(segment, value)] []) :=
  applyChanges_sorted h (sorted_single segment value)

/-- The entry on the way is written where it is, or made first. -/
theorem atParentMap_cons (segment : String) (path : FieldPath) (change : Fields α → Fields α)
    (h : Sorted fields) :
    ∃ fields', Sorted fields' ∧ segment ∈ keys fields' ∧
      (∀ k, k ≠ segment → fields'.lookup k = fields.lookup k) ∧
      atParentMap change (segment :: path) fields =
        writeEntry segment (.map (atParentMap change path (nestedMap fields segment)))
          fields' := by
  rw [atParentMap]
  unfold nestedMap findEntry
  dsimp only
  cases hentry : fields.lookup segment with
  | some entry =>
    have hmem : segment ∈ keys fields := mem_keys_iff_lookup.mpr (by rw [hentry]; rfl)
    refine ⟨fields, h, hmem, fun _ _ => rfl, ?_⟩
    cases entry with
    | leaf a => rfl
    | array values => rfl
    | map nested => rfl
  | none =>
    refine ⟨applyChanges fields [(segment, .map [])] [], sorted_upsert h, ?_, ?_, rfl⟩
    · rw [mem_keys_iff_lookup, lookup_upsert h, if_pos rfl]
      rfl
    · intro k hk
      rw [lookup_upsert h, if_neg hk]

theorem lookup_atParentMap (h : Sorted fields) :
    (atParentMap change (segment :: path) fields).lookup k =
      if k = segment then some (.map (atParentMap change path (nestedMap fields segment)))
      else fields.lookup k := by
  obtain ⟨fields', -, hmem, hother, heq⟩ := atParentMap_cons segment path change h
  rw [heq, lookup_writeEntry hmem]
  split
  · rfl
  · next hk => exact hother k hk

theorem sorted_atParentMap (h : Sorted fields) :
    Sorted (atParentMap change (segment :: path) fields) := by
  obtain ⟨fields', hsorted, -, -, heq⟩ := atParentMap_cons segment path change h
  rw [heq]
  exact sorted_writeEntry hsorted

theorem normal_nestedMap (h : Normal (.map fields)) (segment : String) :
    Normal (.map (nestedMap fields segment)) := by
  unfold nestedMap findEntry
  dsimp only
  cases hentry : fields.lookup segment with
  | none => exact normal_empty
  | some entry =>
    have hnormal := (normal_map_iff.mp h).2 _ (mem_of_lookup hentry)
    cases entry with
    | leaf a => exact normal_empty
    | array values => exact normal_empty
    | map nested => exact hnormal

/-- A change that keeps maps normal keeps the whole data normal. -/
theorem normal_atParentMap (hchange : ∀ m, Normal (.map m) → Normal (.map (change m)))
    (h : Normal (.map fields)) : Normal (.map (atParentMap change path fields)) := by
  induction path generalizing fields with
  | nil => exact hchange fields h
  | cons segment path ih =>
    obtain ⟨hsorted, hnested⟩ := normal_map_iff.mp h
    refine .map (sorted_atParentMap hsorted) fun entry hentry => ?_
    have hlookup := (sorted_atParentMap hsorted).lookup_of_mem hentry
    rw [lookup_atParentMap hsorted] at hlookup
    split at hlookup
    · rw [← Option.some.inj hlookup]
      exact ih (normal_nestedMap h segment)
    · exact hnested _ (mem_of_lookup hlookup)

/-- Two changes at one parent are one change. -/
theorem atParentMap_atParentMap {change' both : Fields α → Fields α}
    (hboth : ∀ m, Normal (.map m) → change' (change m) = both m) (h : Normal (.map fields)) :
    atParentMap change' path (atParentMap change path fields) = atParentMap both path fields := by
  induction path generalizing fields with
  | nil => exact hboth fields h
  | cons segment path ih =>
    have hsorted := (normal_map_iff.mp h).1
    have hfirst : Sorted (atParentMap change (segment :: path) fields) :=
      sorted_atParentMap hsorted
    refine (sorted_atParentMap hfirst).ext (sorted_atParentMap hsorted) fun k => ?_
    rw [lookup_atParentMap hfirst, lookup_atParentMap hsorted, lookup_atParentMap hsorted]
    split
    · have hnested : nestedMap (atParentMap change (segment :: path) fields) segment =
          atParentMap change path (nestedMap fields segment) := by
        conv_lhs => unfold nestedMap findEntry
        dsimp only
        rw [lookup_atParentMap hsorted, if_pos rfl]
      rw [hnested, ih (normal_nestedMap h segment)]
    · rfl

/-! ## What a set changes -/

theorem get_cons (fields : Fields α) (segment : String) (path : FieldPath) :
    get (.map fields) (segment :: path) =
      (fields.lookup segment).bind fun nested => get nested path := by
  rw [get]
  unfold findEntry
  dsimp only
  cases fields.lookup segment with
  | none => rfl
  | some nested => rfl

/-- The value that a set leaves in the entry of the first segment. -/
def written (fields : Fields α) (segment : String) (path : FieldPath) (value : Value α) :
    Value α :=
  if path = [] then sortFields value else .map (set (nestedMap fields segment) path value)

theorem lookup_set (h : Sorted fields) :
    (set fields (segment :: path) value).lookup k =
      if k = segment then some (written fields segment path value) else fields.lookup k := by
  cases path with
  | nil => exact lookup_upsert h
  | cons next path =>
    change (atParentMap _ (segment :: (next :: path).dropLast) fields).lookup k = _
    rw [lookup_atParentMap h]
    rfl

theorem sorted_set (h : Sorted fields) : Sorted (set fields (segment :: path) value) := by
  cases path with
  | nil => exact sorted_upsert h
  | cons next path =>
    change Sorted (atParentMap _ (segment :: (next :: path).dropLast) fields)
    exact sorted_atParentMap h

theorem normal_set (hvalue : Normal (sortFields value)) (h : Normal (.map fields)) :
    Normal (.map (set fields path value)) :=
  normal_atParentMap (fun _ hm => normal_applyChanges (sorted_single _ _)
    (fun _ he => List.mem_singleton.mp he ▸ hvalue) hm) h

theorem get_set_self (hpath : path ≠ []) (h : Normal (.map fields)) (q : FieldPath) :
    get (.map (set fields path value)) (path ++ q) = get (sortFields value) q := by
  induction path generalizing fields with
  | nil => exact absurd rfl hpath
  | cons segment path ih =>
    rw [List.cons_append, get_cons, lookup_set (normal_map_iff.mp h).1, if_pos rfl, written]
    split
    · next hnil =>
      rw [hnil]
      rfl
    · next hne => exact ih hne (normal_nestedMap h segment)

theorem normal_get {q : FieldPath} {v w : Value α} (h : Normal v) (hget : get v q = some w) :
    Normal w := by
  induction q generalizing v with
  | nil =>
    rw [← Option.some.inj hget]
    exact h
  | cons segment q ih =>
    cases v with
    | leaf a => exact absurd hget (by simp [get, findEntry])
    | array values => exact absurd hget (by simp [get, findEntry])
    | map fields =>
      rw [get_cons] at hget
      obtain ⟨nested, hnested, hget⟩ := Option.bind_eq_some_iff.mp hget
      exact ih ((normal_map_iff.mp h).2 _ (mem_of_lookup hnested)) hget

/-- What is read through a map on the way is read from that map. -/
theorem get_nestedMap (fields : Fields α) (segment : String) {q : FieldPath} (hq : q ≠ []) :
    get (.map (nestedMap fields segment)) q = get (.map fields) (segment :: q) := by
  obtain ⟨next, q, rfl⟩ := List.exists_cons_of_ne_nil hq
  rw [get_cons, get_cons]
  unfold nestedMap findEntry
  dsimp only
  cases fields.lookup segment with
  | none => rfl
  | some entry =>
    cases entry with
    | leaf a => rfl
    | array values => rfl
    | map nested => exact (get_cons nested next q).symm

theorem get_set_other {q : FieldPath} (hpath : path ≠ []) (h : Normal (.map fields))
    (hover : ¬ path <+: q) (hunder : ¬ q <+: path) :
    get (.map (set fields path value)) q = get (.map fields) q := by
  induction path generalizing fields q with
  | nil => exact absurd rfl hpath
  | cons segment path ih =>
    cases q with
    | nil => exact absurd (List.nil_prefix) hunder
    | cons k q =>
      rw [get_cons, lookup_set (normal_map_iff.mp h).1, get_cons]
      split
      · next hk =>
        subst hk
        rw [List.cons_prefix_cons, not_and] at hover hunder
        have hne : path ≠ [] := fun hnil => hover rfl (hnil ▸ List.nil_prefix)
        have hq : q ≠ [] := fun hnil => hunder rfl (hnil ▸ List.nil_prefix)
        rw [written, if_neg hne, Option.bind_some,
          ih hne (normal_nestedMap h k) (hover rfl) (hunder rfl), get_nestedMap fields k hq,
          get_cons]
      · rfl

/-- A value on the way to the field changes only below. -/
theorem get_set_above {q r : FieldPath} {nested : Fields α} (hr : r ≠ [])
    (h : Normal (.map fields)) (hget : get (.map fields) q = some (.map nested)) :
    get (.map (set fields (q ++ r) value)) q = some (.map (set nested r value)) := by
  induction q generalizing fields with
  | nil =>
    cases Option.some.inj hget
    rfl
  | cons segment q ih =>
    have hne : q ++ r ≠ [] := fun hnil => hr (List.append_eq_nil_iff.mp hnil).2
    rw [List.cons_append, get_cons, lookup_set (normal_map_iff.mp h).1, if_pos rfl, written,
      if_neg hne, Option.bind_some]
    refine ih (normal_nestedMap h segment) ?_
    cases q with
    | nil =>
      rw [get_cons] at hget
      unfold nestedMap findEntry
      dsimp only
      obtain ⟨entry, hentry, hget⟩ := Option.bind_eq_some_iff.mp hget
      cases Option.some.inj hget
      rw [hentry]
      rfl
    | cons next q => rw [get_nestedMap fields segment (List.cons_ne_nil next q), hget]

/-- A field that is set to what it is stays so. -/
theorem set_same (hpath : path ≠ []) (h : Normal (.map fields))
    (hget : get (.map fields) path = some value) : set fields path value = fields := by
  induction path generalizing fields with
  | nil => exact absurd rfl hpath
  | cons segment path ih =>
    have hsorted := (normal_map_iff.mp h).1
    refine (sorted_set hsorted).ext hsorted fun k => ?_
    rw [lookup_set hsorted]
    split
    · next hk =>
      subst hk
      have hread := hget
      rw [get_cons] at hread
      obtain ⟨entry, hentry, hread⟩ := Option.bind_eq_some_iff.mp hread
      rw [hentry, written]
      split
      · next hnil =>
        rw [hnil] at hread
        cases Option.some.inj hread
        rw [sortFields_of_normal ((normal_map_iff.mp h).2 _ (mem_of_lookup hentry))]
      · next hne =>
        rw [ih hne (normal_nestedMap h k) (by rw [get_nestedMap fields k hne, hget])]
        unfold nestedMap findEntry
        dsimp only
        rw [hentry]
        obtain ⟨next, path, rfl⟩ := List.exists_cons_of_ne_nil hne
        cases entry with
        | leaf a => exact absurd hread (by simp [get, findEntry])
        | array values => exact absurd hread (by simp [get, findEntry])
        | map nested => rfl
    · rfl

/-! ## A patch is one set after another -/

theorem normal_insert {upserts : Fields α} (hsorted : Sorted upserts)
    (hupserts : ∀ entry ∈ upserts, Normal (sortFields entry.2))
    (hvalue : Normal (sortFields value)) :
    ∀ entry ∈ Entries.insert segment value upserts, Normal (sortFields entry.2) := by
  intro entry hentry
  have hlookup := (hsorted.insert _ _).lookup_of_mem hentry
  rw [lookup_insert] at hlookup
  split at hlookup
  · rwa [← Option.some.inj hlookup]
  · exact hupserts _ (mem_of_lookup hlookup)

theorem normal_flush {parent : FieldPath} {upserts : Fields α} (deletes : List String)
    (hsorted : Sorted upserts) (hupserts : ∀ entry ∈ upserts, Normal (sortFields entry.2))
    (h : Normal (.map fields)) :
    Normal (.map (atParentMap (fun map => applyChanges map upserts deletes) parent fields)) :=
  normal_atParentMap (fun _ hm => normal_applyChanges hsorted hupserts hm) h

theorem normal_setAllLoop {parent : FieldPath} {upserts : Fields α} {deletes : List String}
    (hsorted : Sorted upserts) (hupserts : ∀ entry ∈ upserts, Normal (sortFields entry.2))
    (h : Normal (.map fields)) (data : TransformMap α)
    (hdata : ∀ d ∈ data, ∀ new, d.2 = some new → Normal (sortFields new)) :
    Normal (.map (setAllLoop parent upserts deletes fields data)) := by
  induction data generalizing parent upserts deletes fields with
  | nil => exact normal_flush deletes hsorted hupserts h
  | cons d data ih =>
    obtain ⟨path, value⟩ := d
    obtain ⟨hd, hrest⟩ := List.forall_mem_cons.mp hdata
    unfold setAllLoop
    split
    · cases value with
      | none => exact ih hsorted hupserts h hrest
      | some new =>
        exact ih (hsorted.insert _ _) (normal_insert hsorted hupserts (hd new rfl)) h hrest
    · cases value with
      | none =>
        exact ih List.Pairwise.nil (fun _ he => absurd he List.not_mem_nil)
          (normal_flush deletes hsorted hupserts h) hrest
      | some new =>
        exact ih (sorted_single _ _) (fun _ he => List.mem_singleton.mp he ▸ hd new rfl)
          (normal_flush deletes hsorted hupserts h) hrest

theorem normal_setAll (h : Normal (.map fields)) (data : TransformMap α)
    (hdata : ∀ d ∈ data, ∀ new, d.2 = some new → Normal (sortFields new)) :
    Normal (.map (setAll fields data)) :=
  normal_setAllLoop List.Pairwise.nil (fun _ he => absurd he List.not_mem_nil) h data hdata

theorem dropLast_of_immediateParent {parent path : FieldPath}
    (h : isImmediateParentOf parent path = true) : path.dropLast = parent := by
  obtain ⟨hlength, hparent⟩ := of_decide_eq_true h
  rw [List.dropLast_eq_take, ← hlength, Nat.add_sub_cancel]
  exact hparent.symm

/-- One more upsert for the same parent. -/
theorem applyChanges_applyChanges {upserts : Fields α} (hsorted : Sorted upserts)
    (h : Sorted fields) :
    applyChanges (applyChanges fields upserts []) [(segment, value)] [] =
      applyChanges fields (Entries.insert segment value upserts) [] := by
  have hfirst : Sorted (applyChanges fields upserts []) := applyChanges_sorted h hsorted
  have hinsert := hsorted.insert segment value
  refine (sorted_upsert hfirst).ext
    (applyChanges_sorted h hinsert) fun k => ?_
  rw [lookup_upsert hfirst, applyChanges_upserts h hsorted, applyChanges_upserts h hinsert,
    lookup_insert]
  split
  · rfl
  · rfl

theorem setAllLoop_eq_foldl {parent : FieldPath} {upserts : Fields α}
    (hsorted : Sorted upserts) (hupserts : ∀ entry ∈ upserts, Normal (sortFields entry.2))
    (h : Normal (.map fields)) (data : List (FieldPath × Value α))
    (hdata : ∀ d ∈ data, Normal (sortFields d.2)) :
    setAllLoop parent upserts [] fields (data.map fun d => (d.1, some d.2)) =
      data.foldl (fun fields d => set fields d.1 d.2)
        (atParentMap (fun map => applyChanges map upserts []) parent fields) := by
  induction data generalizing parent upserts fields with
  | nil => rfl
  | cons d data ih =>
    obtain ⟨hd, hdata⟩ := List.forall_mem_cons.mp hdata
    rw [List.map_cons, setAllLoop, List.foldl_cons]
    dsimp only
    split
    · next hparent =>
      rw [ih (hsorted.insert _ _) (normal_insert hsorted hupserts hd) h hdata, set,
        dropLast_of_immediateParent hparent,
        atParentMap_atParentMap (fun m hm => ?_) h]
      exact applyChanges_applyChanges hsorted (normal_map_iff.mp hm).1
    · rw [ih (sorted_single _ _) (fun entry hentry => ?_) (normal_flush [] hsorted hupserts h)
        hdata]
      · rfl
      · rwa [List.mem_singleton.mp hentry]

/-- A patch without deletes sets its fields one after another. -/
theorem setAll_eq_foldl (h : Normal (.map fields)) (data : List (FieldPath × Value α))
    (hdata : ∀ d ∈ data, Normal (sortFields d.2)) :
    setAll fields (data.map fun d => (d.1, some d.2)) =
      data.foldl (fun fields d => set fields d.1 d.2) fields := by
  have hsorted := (normal_map_iff.mp h).1
  have hcopy : applyChanges fields [] [] = fields := by
    refine (applyChanges_sorted hsorted List.Pairwise.nil).ext hsorted fun k => ?_
    rw [applyChanges_upserts hsorted List.Pairwise.nil]
    rfl
  rw [setAll, setAllLoop_eq_foldl List.Pairwise.nil (fun _ he => absurd he List.not_mem_nil) h
    data hdata, atParentMap, hcopy]

end Firestore
end SocialApp

import SocialApp.Firestore.ObjectValue
import Mathlib.Data.List.Induction

/-! # Mutations of a document

A write of the app is a mutation: it sets the document, patches the fields that its mask
names, or deletes the document.  It is applied to the local view at once, and to the cached
document when the server has acknowledged it. -/

namespace SocialApp
namespace Firestore

open Entries

variable {α : Type}

/-- The data of a document, with all its maps sorted. -/
structure ObjectValue (α : Type) where
  fields : Fields α
  normal : Normal (.map fields)

def ObjectValue.empty : ObjectValue α := ⟨[], normal_empty⟩

/-! ## Patches -/

/-- The values of the fields in the mask.  One that the value lacks is to be deleted. -/
def getPatch (value : Fields α) (mask : List FieldPath) : TransformMap α :=
  (mask.filter fun path => path ≠ []).map fun path => (path, get (.map value) path)

theorem normal_patch (data value : ObjectValue α) (mask : List FieldPath) :
    Normal (.map (setAll data.fields (getPatch value.fields mask))) := by
  refine normal_setAll data.normal _ fun d hd new hnew => ?_
  obtain ⟨path, -, rfl⟩ := List.mem_map.mp hd
  have hnormal := normal_get value.normal hnew
  rwa [sortFields_of_normal hnormal]

def ObjectValue.patch (data value : ObjectValue α) (mask : List FieldPath) : ObjectValue α :=
  ⟨setAll data.fields (getPatch value.fields mask), normal_patch data value mask⟩

/-! ## What a patch changes -/

theorem get_append (value : Value α) (path q : FieldPath) :
    get value (path ++ q) = (get value path).bind fun nested => get nested q := by
  induction path generalizing value with
  | nil => rfl
  | cons segment path ih =>
    rw [List.cons_append, get, get]
    cases findEntry value segment with
    | none => rfl
    | some nested => exact ih nested

/-- The fields of a patch that the value has. -/
def patchData (value : Fields α) (mask : List FieldPath) : List (FieldPath × Value α) :=
  (mask.filter fun path => path ≠ []).filterMap fun path =>
    (get (.map value) path).map fun new => (path, new)

theorem mem_patchData {value : Fields α} {mask : List FieldPath} {d : FieldPath × Value α} :
    d ∈ patchData value mask ↔ d.1 ∈ mask ∧ d.1 ≠ [] ∧ get (.map value) d.1 = some d.2 := by
  rw [patchData, List.mem_filterMap]
  constructor
  · rintro ⟨path, hpath, hd⟩
    obtain ⟨new, hnew, rfl⟩ := Option.map_eq_some_iff.mp hd
    obtain ⟨hmem, hne⟩ := List.mem_filter.mp hpath
    exact ⟨hmem, of_decide_eq_true hne, hnew⟩
  · rintro ⟨hmem, hne, hget⟩
    refine ⟨d.1, List.mem_filter.mpr ⟨hmem, decide_eq_true hne⟩, ?_⟩
    rw [hget]
    rfl

/-- A patch whose fields the value has deletes nothing. -/
theorem getPatch_eq {value : Fields α} {mask : List FieldPath}
    (h : ∀ path ∈ mask, (get (.map value) path).isSome) :
    getPatch value mask = (patchData value mask).map fun d => (d.1, some d.2) := by
  unfold getPatch patchData
  have hfilter : ∀ path ∈ mask.filter fun path => path ≠ [], (get (.map value) path).isSome :=
    fun path hpath => h path (List.mem_filter.mp hpath).1
  generalize mask.filter (fun path => path ≠ []) = paths at hfilter ⊢
  induction paths with
  | nil => rfl
  | cons path paths ih =>
    obtain ⟨hpath, hpaths⟩ := List.forall_mem_cons.mp hfilter
    obtain ⟨new, hnew⟩ := Option.isSome_iff_exists.mp hpath
    rw [List.map_cons, ih hpaths, List.filterMap_cons_some (by rw [hnew]; rfl), List.map_cons,
      hnew]

/-- The fields that have been set so far are those of the value, and those apart are as they
were. -/
structure Patched (old value : Fields α) (data : List (FieldPath × Value α))
    (fields : Fields α) : Prop where
  normal : Normal (.map fields)
  covered : ∀ d ∈ data, ∀ q, d.1 <+: q → get (.map fields) q = get (.map value) q
  apart : ∀ q, (∀ d ∈ data, ¬ d.1 <+: q ∧ ¬ q <+: d.1) →
    get (.map fields) q = get (.map old) q

/-- A field above the one that is set keeps the value's content, of which the new one is
part. -/
theorem get_set_part {value fields : Fields α} {path q : FieldPath} {new : Value α}
    (hvalue : Normal (.map value)) (hfields : Normal (.map fields))
    (hnew : get (.map value) path = some new) (hqp : q <+: path) (hpq : ¬ path <+: q)
    (hq : get (.map fields) q = get (.map value) q) :
    get (.map (Firestore.set fields path new)) q = get (.map value) q := by
  obtain ⟨r, rfl⟩ := hqp
  have hr : r ≠ [] := by
    rintro rfl
    rw [List.append_nil] at hpq
    exact hpq (List.prefix_refl q)
  rw [get_append] at hnew
  obtain ⟨w, hw, hread⟩ := Option.bind_eq_some_iff.mp hnew
  obtain ⟨next, r, rfl⟩ := List.exists_cons_of_ne_nil hr
  cases w with
  | leaf a => exact absurd hread (by simp [get, findEntry])
  | array values => exact absurd hread (by simp [get, findEntry])
  | map nested =>
    rw [get_set_above hr hfields (hq.trans hw), set_same hr (normal_get hvalue hw) hread, hw]

theorem Patched.set {old value fields : Fields α} {data : List (FieldPath × Value α)}
    {path : FieldPath} {new : Value α} (h : Patched old value data fields)
    (hvalue : Normal (.map value)) (hpath : path ≠ [])
    (hnew : get (.map value) path = some new) :
    Patched old value (data ++ [(path, new)]) (set fields path new) := by
  have hnormal : Normal new := normal_get hvalue hnew
  have hsort : sortFields new = new := sortFields_of_normal hnormal
  refine { normal := normal_set (hsort.symm ▸ hnormal) h.normal, covered := ?_, apart := ?_ }
  · intro d hd q hq
    by_cases hpq : path <+: q
    · obtain ⟨r, rfl⟩ := hpq
      rw [get_set_self hpath h.normal, hsort, get_append, hnew]
      rfl
    · have hmem : d ∈ data := by
        refine (List.mem_append.mp hd).resolve_right fun hlast => hpq ?_
        rwa [List.mem_singleton.mp hlast] at hq
      have hold := h.covered d hmem q hq
      by_cases hqp : q <+: path
      · exact get_set_part hvalue h.normal hnew hqp hpq hold
      · rw [get_set_other hpath h.normal hpq hqp]
        exact hold
  · intro q hq
    obtain ⟨hpq, hqp⟩ := hq (path, new) (List.mem_append_right _ List.mem_cons_self)
    rw [get_set_other hpath h.normal hpq hqp]
    exact h.apart q fun d hd => hq d (List.mem_append_left _ hd)

theorem patched_foldl {old value : Fields α} (hold : Normal (.map old))
    (hvalue : Normal (.map value)) (data : List (FieldPath × Value α))
    (hdata : ∀ d ∈ data, d.1 ≠ [] ∧ get (.map value) d.1 = some d.2) :
    Patched old value data (data.foldl (fun fields d => Firestore.set fields d.1 d.2) old) := by
  induction data using List.reverseRecOn with
  | nil =>
    exact { normal := hold, covered := fun d hd => absurd hd List.not_mem_nil,
            apart := fun q _ => rfl }
  | append_singleton data d ih =>
    obtain ⟨hne, hget⟩ := hdata d (List.mem_append_right _ List.mem_cons_self)
    rw [List.foldl_append]
    exact (ih fun d hd => hdata d (List.mem_append_left _ hd)).set hvalue hne hget

theorem patched (data value : ObjectValue α) {mask : List FieldPath}
    (h : ∀ path ∈ mask, (get (.map value.fields) path).isSome) :
    Patched data.fields value.fields (patchData value.fields mask)
      (data.patch value mask).fields := by
  have hdata : ∀ d ∈ patchData value.fields mask,
      d.1 ≠ [] ∧ get (.map value.fields) d.1 = some d.2 := fun d hd => (mem_patchData.mp hd).2
  have hpatch : (data.patch value mask).fields =
      (patchData value.fields mask).foldl (fun fields d => set fields d.1 d.2) data.fields := by
    show setAll data.fields (getPatch value.fields mask) = _
    rw [getPatch_eq h, setAll_eq_foldl data.normal]
    intro d hd
    have hnormal := normal_get value.normal (hdata d hd).2
    rwa [sortFields_of_normal hnormal]
  rw [hpatch]
  exact patched_foldl data.normal value.normal _ hdata

/-- A patch whose fields the value has leaves each field of the mask, and all below it, as the
value has them, and whatever is neither below nor above such a field as it was. -/
theorem patch_reads (data value : ObjectValue α) (mask : List FieldPath)
    (h : ∀ path ∈ mask, (get (.map value.fields) path).isSome) :
    (∀ path ∈ mask, path ≠ [] → ∀ q, path <+: q →
      get (.map (data.patch value mask).fields) q = get (.map value.fields) q) ∧
    ∀ q, (∀ path ∈ mask, path ≠ [] → ¬ path <+: q ∧ ¬ q <+: path) →
      get (.map (data.patch value mask).fields) q = get (.map data.fields) q := by
  have hpatched := patched data value h
  refine ⟨fun path hpath hne q hq => ?_, fun q hq => ?_⟩
  · obtain ⟨new, hnew⟩ := Option.isSome_iff_exists.mp (h path hpath)
    exact hpatched.covered (path, new) (mem_patchData.mpr ⟨hpath, hne, hnew⟩) q hq
  · refine hpatched.apart q fun d hd => ?_
    obtain ⟨hmem, hne, -⟩ := mem_patchData.mp hd
    exact hq d.1 hmem hne

/-- A document with a nested map, and a value for one of its fields. -/
def nestedDocument : ObjectValue Nat :=
  ⟨[("a", .map [("x", .leaf 1)]), ("b", .leaf 2)], normal_map_iff.mpr ⟨by decide, by
    simp only [List.forall_mem_cons]
    exact ⟨.map (by decide) (by simp [Normal.leaf]), .leaf 2, by simp⟩⟩⟩

def nestedField : ObjectValue Nat :=
  ⟨[("a", .map [("y", .leaf 3)])], normal_map_iff.mpr ⟨by decide, by
    simp only [List.forall_mem_cons]
    exact ⟨.map (by decide) (by simp [Normal.leaf]), by simp⟩⟩⟩

theorem patch_reads_nestedField :
    get (.map (nestedDocument.patch nestedField [["a", "y"]]).fields) ["a", "x"] =
      get (.map nestedDocument.fields) ["a", "x"] :=
  (patch_reads nestedDocument nestedField [["a", "y"]]
    (by simp only [List.forall_mem_cons]; exact ⟨rfl, by simp⟩)).2 ["a", "x"]
    (by simp only [List.forall_mem_cons]; exact ⟨fun _ => by decide, by simp⟩)

/-! ## Documents -/

abbrev DocumentKey := String

/-- The moment of a commit, with 0 for `None`. -/
abbrev SnapshotVersion := Nat

inductive DocumentType
  | invalid
  | foundDocument
  | noDocument
  | unknownDocument
deriving DecidableEq

inductive DocumentState
  | hasLocalMutations
  | hasCommittedMutations
  | synced
deriving DecidableEq

structure MutableDocument (α : Type) where
  key : DocumentKey
  type : DocumentType
  version : SnapshotVersion
  data : ObjectValue α
  state : DocumentState

namespace MutableDocument

def isFoundDocument (document : MutableDocument α) : Bool := document.type = .foundDocument

def isValidDocument (document : MutableDocument α) : Bool := document.type ≠ .invalid

/-- `ConvertToFoundDocument` with a value.  Without one the document keeps its own. -/
def convertToFoundDocument (document : MutableDocument α) (version : SnapshotVersion)
    (data : ObjectValue α) : MutableDocument α :=
  { document with type := .foundDocument, version := version, data := data, state := .synced }

def convertToNoDocument (document : MutableDocument α) (version : SnapshotVersion) :
    MutableDocument α :=
  { document with type := .noDocument, version := version, data := .empty, state := .synced }

def convertToUnknownDocument (document : MutableDocument α) (version : SnapshotVersion) :
    MutableDocument α :=
  { document with
    type := .unknownDocument, version := version, data := .empty,
    state := .hasCommittedMutations }

def setHasCommittedMutations (document : MutableDocument α) : MutableDocument α :=
  { document with state := .hasCommittedMutations }

def setHasLocalMutations (document : MutableDocument α) : MutableDocument α :=
  { document with state := .hasLocalMutations }

end MutableDocument

/-! ## Mutations -/

inductive Precondition
  | none
  | exists (exists' : Bool)
  | updateTime (version : SnapshotVersion)
deriving DecidableEq

def Precondition.isValidFor (precondition : Precondition) (document : MutableDocument α) :
    Bool :=
  match precondition with
  | .updateTime version => document.isFoundDocument && document.version = version
  | .exists exists' => exists' = document.isFoundDocument
  | .none => true

/-- What the three kinds of mutation hold besides the key and the precondition. -/
inductive Change (α : Type)
  | set (value : ObjectValue α)
  | patch (value : ObjectValue α) (mask : List FieldPath)
  | delete

structure Mutation (α : Type) where
  key : DocumentKey
  precondition : Precondition
  change : Change α

def getPostMutationVersion (document : MutableDocument α) : SnapshotVersion :=
  if document.isFoundDocument then document.version else 0

def Mutation.applyToLocalView (mutation : Mutation α) (document : MutableDocument α) :
    MutableDocument α :=
  if mutation.precondition.isValidFor document then
    match mutation.change with
    | .set value =>
      (document.convertToFoundDocument (getPostMutationVersion document)
        value).setHasLocalMutations
    | .patch value mask =>
      (document.convertToFoundDocument (getPostMutationVersion document)
        (document.data.patch value mask)).setHasLocalMutations
    | .delete => document.convertToNoDocument 0
  else document

def Mutation.applyToRemoteDocument (mutation : Mutation α) (document : MutableDocument α)
    (version : SnapshotVersion) : MutableDocument α :=
  match mutation.change with
  | .set value => (document.convertToFoundDocument version value).setHasCommittedMutations
  | .patch value mask =>
    if mutation.precondition.isValidFor document then
      (document.convertToFoundDocument version
        (document.data.patch value mask)).setHasCommittedMutations
    else document.convertToUnknownDocument version
  | .delete => (document.convertToNoDocument version).setHasCommittedMutations

end Firestore
end SocialApp

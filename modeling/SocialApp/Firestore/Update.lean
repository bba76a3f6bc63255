import SocialApp.Models
import SocialApp.Firestore.Mutation

/-! # The update of a user

`update` of a document takes a map of the app.  Each key is read as a path, the values are put
into an object, and the mutation patches the fields that the keys name in a document that must
exist.  The update of a user is this with the map of the model. -/

namespace SocialApp
namespace Firestore

open Entries

variable {α : Type}

/-! ## The data of an update -/

def fieldDescription (path : FieldPath) : String :=
  if path = [] then "" else " (found in field " ++ canonicalString path ++ ")"

/-- `ValidatePathSegment` in a write. -/
def validatePathSegment (path : FieldPath) (segment : String) : Except String Unit :=
  if segment = "" then
    .error ("Invalid data. Document fields must not be empty" ++ fieldDescription path)
  else if ['_', '_'] <+: segment.toList ∧ ['_', '_'] <:+ segment.toList then
    .error ("Invalid data. Document fields cannot begin and end with \"__\"" ++
      fieldDescription path)
  else .ok ()

def validateSegments (path : FieldPath) : FieldPath → Except String Unit
  | [] => .ok ()
  | segment :: segments =>
    match validatePathSegment path segment with
    | .error message => .error message
    | .ok () => validateSegments path segments

def validatePath (path : FieldPath) : Except String Unit := validateSegments path path

/-- `field_mask_.insert`, in the order of the paths. -/
def addToFieldMask (path : FieldPath) : List FieldPath → List FieldPath
  | [] => [path]
  | first :: mask =>
    if path < first then path :: first :: mask
    else if path = first then first :: mask
    else first :: addToFieldMask path mask

/-- The loop over the keys and values, which are strings, booleans and nulls. -/
def parseEntries (updateData : Fields α) (mask : List FieldPath) :
    List (String × α) → Except String (Fields α × List FieldPath)
  | [] => .ok (updateData, mask)
  | (key, value) :: entries =>
    match fromDotSeparatedString key with
    | .error message => .error message
    | .ok path =>
      match validatePath path with
      | .error message => .error message
      | .ok () =>
        parseEntries (set updateData path (.leaf value)) (addToFieldMask path mask) entries

def parsedUpdateData (entries : List (String × α)) : Except String (Fields α × List FieldPath) :=
  parseEntries [] [] entries

/-! ## Keys that name a field of their own -/

/-- A key that is one segment and is not reserved. -/
def PlainKey (key : String) : Prop :=
  fromDotSeparatedString key = .ok [key] ∧ validatePath [key] = .ok ()

theorem mem_addToFieldMask {path q : FieldPath} {mask : List FieldPath} :
    q ∈ addToFieldMask path mask ↔ q = path ∨ q ∈ mask := by
  induction mask with
  | nil => exact List.mem_cons
  | cons first mask ih =>
    unfold addToFieldMask
    split
    · exact List.mem_cons
    · split
      · next heq =>
        rw [heq, List.mem_cons]
        exact ⟨.inr, fun h => h.elim .inl id⟩
      · rw [List.mem_cons, List.mem_cons, ih]
        exact or_left_comm

/-- What the loop has when the entries are done. -/
structure Parsed (entries : List (String × α)) (updateData : Fields α)
    (mask : List FieldPath) : Prop where
  normal : Normal (.map updateData)
  read : ∀ e ∈ entries, updateData.lookup e.1 = some (.leaf e.2)
  named : ∀ path, path ∈ mask ↔ ∃ e ∈ entries, path = [e.1]

theorem Parsed.none : Parsed ([] : List (String × α)) [] [] :=
  ⟨normal_empty, fun e he => absurd he List.not_mem_nil, fun path => by simp⟩

/-- A round of the loop, with a key that has not come before. -/
theorem Parsed.entry {done : List (String × α)} {updateData : Fields α} {mask : List FieldPath}
    {key : String} (value : α) (h : Parsed done updateData mask) (hnew : key ∉ keys done) :
    Parsed (done ++ [(key, value)]) (set updateData [key] (.leaf value))
      (addToFieldMask [key] mask) := by
  have hsorted := (normal_map_iff.mp h.normal).1
  have hleaf : sortFields (Value.leaf value) = .leaf value := sortFields_of_normal (.leaf value)
  refine { normal := normal_set (hleaf.symm ▸ .leaf value) h.normal, read := ?_, named := ?_ }
  · intro e he
    rw [lookup_set hsorted]
    rcases List.mem_append.mp he with he | he
    · have hne : e.1 ≠ key := fun heq => hnew (heq ▸ mem_keys.mpr ⟨e.2, he⟩)
      rw [if_neg hne]
      exact h.read e he
    · rw [List.mem_singleton.mp he, if_pos rfl, written, if_pos rfl, hleaf]
  · intro path
    rw [mem_addToFieldMask, h.named]
    constructor
    · rintro (rfl | ⟨e, he, rfl⟩)
      · exact ⟨_, List.mem_append_right _ List.mem_cons_self, rfl⟩
      · exact ⟨e, List.mem_append_left _ he, rfl⟩
    · rintro ⟨e, he, rfl⟩
      rcases List.mem_append.mp he with he | he
      · exact .inr ⟨e, he, rfl⟩
      · rw [List.mem_singleton.mp he]
        exact .inl rfl

theorem parseEntries_ok {done entries : List (String × α)} {updateData : Fields α}
    {mask : List FieldPath} (h : Parsed done updateData mask)
    (hplain : ∀ e ∈ entries, PlainKey e.1) (hnodup : (keys (done ++ entries)).Nodup) :
    ∃ updateData' mask', parseEntries updateData mask entries = .ok (updateData', mask') ∧
      Parsed (done ++ entries) updateData' mask' := by
  induction entries generalizing done updateData mask with
  | nil => exact ⟨updateData, mask, rfl, by rwa [List.append_nil]⟩
  | cons e entries ih =>
    obtain ⟨key, value⟩ := e
    obtain ⟨⟨hpath, hvalid⟩, hrest⟩ := List.forall_mem_cons.mp hplain
    have hnew : key ∉ keys done := by
      rw [keys, List.map_append, List.nodup_append] at hnodup
      exact fun hmem => hnodup.2.2 key hmem key List.mem_cons_self rfl
    rw [List.append_cons] at hnodup ⊢
    obtain ⟨updateData', mask', hparse, hparsed⟩ := ih (h.entry value hnew) hrest hnodup
    refine ⟨updateData', mask', ?_, hparsed⟩
    unfold parseEntries
    rw [hpath]
    dsimp only
    rw [hvalid]
    exact hparse

theorem parsedUpdateData_ok {entries : List (String × α)} (hplain : ∀ e ∈ entries, PlainKey e.1)
    (hnodup : (keys entries).Nodup) :
    ∃ updateData mask, parsedUpdateData entries = .ok (updateData, mask) ∧
      Parsed entries updateData mask :=
  parseEntries_ok Parsed.none hplain hnodup

/-! ## The document after the update -/

/-- The data of a document as the app reads it.  A null is read as nothing. -/
def readJson (data : ObjectValue (Option Dynamic)) : Json := fun key =>
  match data.fields.lookup key with
  | some (.leaf value) => value
  | some (.array _) => none
  | some (.map _) => none
  | none => none

/-- `ParsedUpdateData::ToMutation` with the precondition of `UpdateData`. -/
def updateMutation (key : DocumentKey) (value : ObjectValue α) (mask : List FieldPath) :
    Mutation α :=
  { key := key, precondition := .exists true, change := .patch value mask }

theorem get_field (fields : Fields α) (key : String) :
    get (.map fields) [key] = fields.lookup key := by
  rw [get_cons]
  cases fields.lookup key with
  | none => rfl
  | some value => rfl

/-- A patch with fields of the top replaces these and no other. -/
theorem patch_lookup {entries : List (String × α)} {value : ObjectValue α}
    {mask : List FieldPath} (h : Parsed entries value.fields mask) (data : ObjectValue α) :
    (∀ e ∈ entries, (data.patch value mask).fields.lookup e.1 = some (.leaf e.2)) ∧
      ∀ key ∉ keys entries, (data.patch value mask).fields.lookup key = data.fields.lookup key := by
  have hmask : ∀ path ∈ mask, (get (.map value.fields) path).isSome := by
    intro path hpath
    obtain ⟨e, he, rfl⟩ := (h.named path).mp hpath
    rw [get_field, h.read e he]
    rfl
  have hpatched := patched data value hmask
  constructor
  · intro e he
    have hmem : ([e.1], Value.leaf e.2) ∈ patchData value.fields mask :=
      mem_patchData.mpr ⟨(h.named _).mpr ⟨e, he, rfl⟩, List.cons_ne_nil _ _,
        (get_field _ _).trans (h.read e he)⟩
    have hcovered := hpatched.covered _ hmem [e.1] (List.prefix_refl _)
    rwa [get_field, get_field, h.read e he] at hcovered
  · intro key hkey
    have hapart := hpatched.apart [key] fun d hd => ?_
    · rwa [get_field, get_field] at hapart
    · obtain ⟨e, he, hpath⟩ := (h.named d.1).mp (mem_patchData.mp hd).1
      have hne : e.1 ≠ key := fun heq => hkey (mem_keys.mpr ⟨e.2, heq ▸ he⟩)
      rw [hpath]
      constructor
      · exact fun hprefix => hne (List.cons_prefix_cons.mp hprefix).1
      · exact fun hprefix => hne (List.cons_prefix_cons.mp hprefix).1.symm

theorem plainKey_fields : ∀ key ∈ LoginModel.fields, PlainKey key := by
  simp only [LoginModel.fields, List.forall_mem_cons]
  refine ⟨?_, ?_, ?_, ?_, ?_, ?_, ?_, ?_, by simp⟩
  all_goals exact ⟨by decide, by decide⟩

theorem keys_perm {m : LoginModel} {entries : List (String × Option Dynamic)}
    (hentries : entries.Perm (LoginModel.fields.map fun key => (key, m.toMap key))) :
    (keys entries).Perm LoginModel.fields := by
  have hmap := hentries.map Prod.fst
  rwa [List.map_map, show (Prod.fst ∘ fun key => (key, m.toMap key)) = id from rfl,
    List.map_id] at hmap

/-- The patch of all fields of a user is the update of the model. -/
theorem readJson_patch (m : LoginModel) {entries : List (String × Option Dynamic)}
    (hentries : entries.Perm (LoginModel.fields.map fun key => (key, m.toMap key)))
    {value : ObjectValue (Option Dynamic)} {mask : List FieldPath}
    (h : Parsed entries value.fields mask) (data : ObjectValue (Option Dynamic)) :
    readJson (data.patch value mask) = m.update (readJson data) := by
  obtain ⟨hwritten, hother⟩ := patch_lookup h data
  funext field
  unfold readJson LoginModel.update
  dsimp only
  by_cases hfield : field ∈ LoginModel.fields
  · have hmem : (field, m.toMap field) ∈ entries :=
      hentries.mem_iff.mpr (List.mem_map.mpr ⟨field, hfield, rfl⟩)
    rw [if_pos hfield, hwritten _ hmem]
  · have hnone : field ∉ keys entries := fun hmem => hfield ((keys_perm hentries).mem_iff.mp hmem)
    rw [if_neg hfield, hother field hnone]

/-- `update` with the map of a user, in whatever order the map's entries come, is accepted, and
the local view as well as the acknowledged document then reads as the model writes it: its own
fields replaced and every other one kept. -/
theorem user_update_patches (m : LoginModel) {entries : List (String × Option Dynamic)}
    (hentries : entries.Perm (LoginModel.fields.map fun key => (key, m.toMap key)))
    {document : MutableDocument (Option Dynamic)} (hfound : document.type = .foundDocument)
    (key : DocumentKey) (version : SnapshotVersion) :
    ∃ (value : ObjectValue (Option Dynamic)) (mask : List FieldPath),
      parsedUpdateData entries = .ok (value.fields, mask) ∧
      readJson ((updateMutation key value mask).applyToLocalView document).data =
        m.update (readJson document.data) ∧
      readJson ((updateMutation key value mask).applyToRemoteDocument document version).data =
        m.update (readJson document.data) := by
  have hkeys := keys_perm hentries
  have hplain : ∀ e ∈ entries, PlainKey e.1 := fun e he =>
    plainKey_fields e.1 (hkeys.mem_iff.mp (mem_keys.mpr ⟨e.2, he⟩))
  have hnodup : (keys entries).Nodup := hkeys.nodup_iff.mpr (by decide)
  obtain ⟨updateData, mask, hparse, hparsed⟩ := parsedUpdateData_ok hplain hnodup
  refine ⟨⟨updateData, hparsed.normal⟩, mask, hparse, ?_⟩
  have hread : readJson (document.data.patch ⟨updateData, hparsed.normal⟩ mask) =
      m.update (readJson document.data) := readJson_patch m hentries hparsed document.data
  have hvalid : (updateMutation key ⟨updateData, hparsed.normal⟩ mask).precondition.isValidFor
      document = true := by
    simp [updateMutation, Precondition.isValidFor, MutableDocument.isFoundDocument, hfound]
  constructor
  · unfold Mutation.applyToLocalView
    rw [if_pos hvalid]
    exact hread
  · show readJson (if _ then _ else _ : MutableDocument _).data = _
    rw [if_pos hvalid]
    exact hread

def ann : LoginModel where
  name := some "Ann"
  phone := some "1"
  email := some "ann@mail"
  uid := some "ann"
  image := none
  cover := none
  bio := some "hi"
  isEmailVarified := some false

def annDocument : MutableDocument (Option Dynamic) where
  key := "users/ann"
  type := .foundDocument
  version := 1
  data := ⟨[("token", .leaf (some (.string "t")))], normal_map_iff.mpr ⟨by decide, by
    simp only [List.forall_mem_cons]
    exact ⟨.leaf _, by simp⟩⟩⟩
  state := .synced

theorem user_update_patches_ann :
    ∃ (value : ObjectValue (Option Dynamic)) (mask : List FieldPath),
      parsedUpdateData (LoginModel.fields.map fun key => (key, ann.toMap key)).reverse =
        .ok (value.fields, mask) ∧
      readJson ((updateMutation "users/ann" value mask).applyToLocalView annDocument).data =
        ann.update (readJson annDocument.data) ∧
      readJson ((updateMutation "users/ann" value mask).applyToRemoteDocument
        annDocument 2).data = ann.update (readJson annDocument.data) :=
  user_update_patches ann (List.reverse_perm _) rfl "users/ann" 2

end Firestore
end SocialApp

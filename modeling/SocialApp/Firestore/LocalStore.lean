import SocialApp.Reactive.Optimistic
import SocialApp.Firestore.Mutation

/-! # The local store

The store keeps the documents that the server has sent or acknowledged, and the queue of the
batches that it has not acknowledged yet.  A listener is shown a document with the queue
applied to it. -/

namespace SocialApp
namespace Firestore

open Reactive

variable {α : Type}

structure MutationBatch (α : Type) where
  mutations : List (Mutation α)
  nonempty : mutations ≠ []

namespace MutationBatch

def applyToLocalDocument (batch : MutationBatch α) (document : MutableDocument α) :
    MutableDocument α :=
  batch.mutations.foldl (fun document mutation =>
    if mutation.key = document.key then mutation.applyToLocalView document else document)
    document

def applyToRemoteDocument (batch : MutationBatch α) (results : List SnapshotVersion)
    (document : MutableDocument α) : MutableDocument α :=
  (batch.mutations.zip results).foldl (fun document result =>
    if result.1.key = document.key then result.1.applyToRemoteDocument document result.2
    else document) document

end MutationBatch

/-- `doc_versions`: the version of the last result for the document. -/
def docVersion (key : DocumentKey) : List (Mutation α × SnapshotVersion) →
    Option SnapshotVersion
  | [] => none
  | result :: results =>
    (docVersion key results).or (if result.1.key = key then some result.2 else none)

/-- What `ApplyBatchResult` does with one document of the cache. -/
def applyBatchResult (batch : MutationBatch α) (results : List SnapshotVersion)
    (document : MutableDocument α) : MutableDocument α :=
  match docVersion document.key (batch.mutations.zip results) with
  | none => document
  | some ackVersion =>
    if document.version < ackVersion then
      let applied := batch.applyToRemoteDocument results document
      if applied.isValidDocument then applied else document
    else document

/-! ## Keys -/

theorem applyToLocalView_key (mutation : Mutation α) (document : MutableDocument α) :
    (mutation.applyToLocalView document).key = document.key := by
  unfold Mutation.applyToLocalView
  split
  · cases mutation.change with
    | set value => rfl
    | patch value mask => rfl
    | delete => rfl
  · rfl

theorem applyToRemoteDocument_key (mutation : Mutation α) (document : MutableDocument α)
    (version : SnapshotVersion) :
    (mutation.applyToRemoteDocument document version).key = document.key := by
  unfold Mutation.applyToRemoteDocument
  cases mutation.change with
  | set value => rfl
  | patch value mask =>
    dsimp only
    split
    · rfl
    · rfl
  | delete => rfl

theorem remote_key (results : List (Mutation α × SnapshotVersion))
    (document : MutableDocument α) :
    (results.foldl (fun document result =>
      if result.1.key = document.key then result.1.applyToRemoteDocument document result.2
      else document) document).key = document.key := by
  induction results generalizing document with
  | nil => rfl
  | cons result results ih =>
    rw [List.foldl_cons, ih]
    split
    · exact applyToRemoteDocument_key _ _ _
    · rfl

theorem applyBatchResult_key (batch : MutationBatch α) (results : List SnapshotVersion)
    (document : MutableDocument α) :
    (applyBatchResult batch results document).key = document.key := by
  unfold applyBatchResult
  split
  · rfl
  · split
    · dsimp only
      split
      · exact remote_key _ _
      · rfl
    · rfl

/-! ## The store -/

structure LocalStore (α : Type) where
  remoteDocumentCache : DocumentKey → MutableDocument α
  keyed : ∀ key, (remoteDocumentCache key).key = key
  mutationQueue : List (MutationBatch α)

inductive Event (α : Type)
  | writeLocally (batch : MutationBatch α)
  | acknowledgeBatch (results : List SnapshotVersion)

namespace LocalStore

/-- `AllMutationBatchesAffectingDocumentKey` on the cached document. -/
def getDocument (store : LocalStore α) (key : DocumentKey) : MutableDocument α :=
  (store.mutationQueue.filter fun batch =>
    batch.mutations.any fun mutation => mutation.key = key).foldl
    (fun document batch => batch.applyToLocalDocument document)
    (store.remoteDocumentCache key)

/-- Only the first batch of the queue can be acknowledged. -/
def step (store : LocalStore α) : Event α → LocalStore α
  | .writeLocally batch => { store with mutationQueue := store.mutationQueue ++ [batch] }
  | .acknowledgeBatch results =>
    match store.mutationQueue with
    | [] => store
    | batch :: queue =>
      { remoteDocumentCache := fun key =>
          applyBatchResult batch results (store.remoteDocumentCache key)
        keyed := fun key => (applyBatchResult_key _ _ _).trans (store.keyed key)
        mutationQueue := queue }

def run (store : LocalStore α) (events : List (Event α)) : LocalStore α :=
  events.foldl step store

end LocalStore

/-! ## What a listener is shown -/

/-- Documents that differ at most in their version and in whether writes are pending. -/
structure SameShown (document document' : MutableDocument α) : Prop where
  key : document.key = document'.key
  type : document.type = document'.type
  data : document.data = document'.data

/-- The mutations of the plain writes, whose preconditions ask for no version. -/
def Mutation.enabled (mutation : Mutation α) (document : MutableDocument α) : Prop :=
  (∀ version, mutation.precondition ≠ .updateTime version) ∧
    mutation.precondition.isValidFor document = true

theorem enabled_same {mutation : Mutation α} {document document' : MutableDocument α}
    (hsame : SameShown document document') (h : mutation.enabled document) :
    mutation.enabled document' := by
  refine ⟨h.1, ?_⟩
  have hvalid := h.2
  unfold Precondition.isValidFor at hvalid ⊢
  cases hp : mutation.precondition with
  | none => rfl
  | «exists» exists' =>
    rw [hp] at hvalid
    dsimp only at hvalid ⊢
    rwa [MutableDocument.isFoundDocument, ← hsame.type]
  | updateTime version => exact absurd hp (h.1 version)

theorem applyToLocalView_same {mutation : Mutation α} {document document' : MutableDocument α}
    (hsame : SameShown document document') (h : mutation.enabled document) :
    SameShown (mutation.applyToLocalView document) (mutation.applyToLocalView document') := by
  unfold Mutation.applyToLocalView
  rw [if_pos h.2, if_pos (enabled_same hsame h).2]
  cases mutation.change with
  | set value => exact ⟨hsame.key, rfl, rfl⟩
  | patch value mask =>
    exact ⟨hsame.key, rfl, congrArg (fun data => data.patch value mask) hsame.data⟩
  | delete => exact ⟨hsame.key, rfl, rfl⟩

/-- An acknowledged mutation leaves the cached document as the local view showed it. -/
theorem applyToRemoteDocument_same {mutation : Mutation α} {document : MutableDocument α}
    (h : mutation.enabled document) (version : SnapshotVersion) :
    SameShown (mutation.applyToLocalView document)
      (mutation.applyToRemoteDocument document version) := by
  unfold Mutation.applyToLocalView Mutation.applyToRemoteDocument
  rw [if_pos h.2]
  cases mutation.change with
  | set value => exact ⟨rfl, rfl, rfl⟩
  | patch value mask =>
    dsimp only
    rw [if_pos h.2]
    exact ⟨rfl, rfl, rfl⟩
  | delete => exact ⟨rfl, rfl, rfl⟩

def documents : Optimistic (MutableDocument α) (Mutation α) where
  apply document mutation := mutation.applyToLocalView document
  Enabled document mutation := mutation.enabled document
  Same := SameShown
  refl _ := ⟨rfl, rfl, rfl⟩
  symm h := ⟨h.key.symm, h.type.symm, h.data.symm⟩
  trans h h' := ⟨h.key.trans h'.key, h.type.trans h'.type, h.data.trans h'.data⟩
  enabled_same := enabled_same
  apply_same := applyToLocalView_same

/-- The mutations of one document. -/
def mutationsOf (key : DocumentKey) (mutations : List (Mutation α)) : List (Mutation α) :=
  mutations.filter fun mutation => mutation.key = key

theorem mutationsOf_cons_self {key : DocumentKey} {mutation : Mutation α}
    (h : mutation.key = key) (mutations : List (Mutation α)) :
    mutationsOf key (mutation :: mutations) = mutation :: mutationsOf key mutations :=
  List.filter_cons_of_pos (by simpa using h)

theorem mutationsOf_cons_ne {key : DocumentKey} {mutation : Mutation α}
    (h : mutation.key ≠ key) (mutations : List (Mutation α)) :
    mutationsOf key (mutation :: mutations) = mutationsOf key mutations :=
  List.filter_cons_of_neg (by simpa using h)

theorem mutationsOf_append (key : DocumentKey) (mutations more : List (Mutation α)) :
    mutationsOf key (mutations ++ more) = mutationsOf key mutations ++ mutationsOf key more :=
  List.filter_append _ _

def LocalStore.pending (store : LocalStore α) (key : DocumentKey) : List (Mutation α) :=
  mutationsOf key (store.mutationQueue.flatMap MutationBatch.mutations)

theorem view_key (document : MutableDocument α) (mutations : List (Mutation α)) :
    (documents.view document mutations).key = document.key := by
  induction mutations generalizing document with
  | nil => rfl
  | cons mutation mutations ih => exact (ih _).trans (applyToLocalView_key mutation document)

theorem local_eq_view (mutations : List (Mutation α)) (document : MutableDocument α) :
    mutations.foldl (fun document mutation =>
      if mutation.key = document.key then mutation.applyToLocalView document else document)
      document = documents.view document (mutationsOf document.key mutations) := by
  induction mutations generalizing document with
  | nil => rfl
  | cons mutation mutations ih =>
    rw [List.foldl_cons, ih]
    split
    · next h =>
      rw [mutationsOf_cons_self h, applyToLocalView_key]
      rfl
    · next h => rw [mutationsOf_cons_ne h]

theorem getDocument_eq (store : LocalStore α) (key : DocumentKey) :
    store.getDocument key =
      documents.view (store.remoteDocumentCache key) (store.pending key) := by
  unfold LocalStore.getDocument LocalStore.pending
  have hkey := store.keyed key
  generalize store.remoteDocumentCache key = document at hkey ⊢
  induction store.mutationQueue generalizing document with
  | nil => rfl
  | cons batch queue ih =>
    have hbatch : batch.applyToLocalDocument document =
        documents.view document (mutationsOf key batch.mutations) := by
      rw [← hkey]
      exact local_eq_view batch.mutations document
    rw [List.flatMap_cons, mutationsOf_append, documents.view_append, ← hbatch, List.filter_cons]
    split
    · refine ih _ ?_
      show (batch.applyToLocalDocument document).key = key
      rw [hbatch, view_key, hkey]
    · next hany =>
      have hnone : mutationsOf key batch.mutations = [] := by
        refine List.filter_eq_nil_iff.mpr fun mutation hmutation hmem => ?_
        exact hany (List.any_eq_true.mpr ⟨mutation, hmutation, hmem⟩)
      rw [hbatch, hnone]
      exact ih document hkey

/-- The results of a batch move the cached document to what was shown of it. -/
theorem remote_same (results : List (Mutation α × SnapshotVersion))
    (document : MutableDocument α)
    (h : documents.Applies document (mutationsOf document.key (results.map Prod.fst))) :
    SameShown (documents.view document (mutationsOf document.key (results.map Prod.fst)))
      (results.foldl (fun document result =>
        if result.1.key = document.key then result.1.applyToRemoteDocument document result.2
        else document) document) := by
  induction results generalizing document with
  | nil => exact ⟨rfl, rfl, rfl⟩
  | cons result results ih =>
    rw [List.foldl_cons]
    rw [List.map_cons] at h ⊢
    split
    · next hkey =>
      rw [mutationsOf_cons_self hkey] at h ⊢
      have hsame := applyToRemoteDocument_same h.1 result.2
      obtain ⟨happlies, hview⟩ := Optimistic.same_view (o := documents) hsame h.2
      have hremote := applyToRemoteDocument_key result.1 document result.2
      refine documents.trans hview ?_
      rw [← hremote] at happlies ⊢
      exact ih _ happlies
    · next hkey =>
      rw [mutationsOf_cons_ne hkey] at h ⊢
      exact ih document h

/-! ## Runs -/

/-- A write is a plain one and its precondition holds where it is made.  An acknowledgement is
of the whole first batch, and newer than the cached document unless the batch changes nothing
of it. -/
def Sound (store : LocalStore α) : Event α → Prop
  | .writeLocally batch => ∀ key,
    documents.Applies (store.getDocument key) (mutationsOf key batch.mutations)
  | .acknowledgeBatch results => ∀ batch queue, store.mutationQueue = batch :: queue →
    results.length = batch.mutations.length ∧
      ∀ key version, docVersion key (batch.mutations.zip results) = some version →
        (store.remoteDocumentCache key).version < version ∨
          SameShown (documents.view (store.remoteDocumentCache key)
            (mutationsOf key batch.mutations)) (store.remoteDocumentCache key)

def SoundRun : LocalStore α → List (Event α) → Prop
  | _, [] => True
  | store, event :: events => Sound store event ∧ SoundRun (store.step event) events

def Event.written (key : DocumentKey) : Event α → List (Mutation α)
  | .writeLocally batch => mutationsOf key batch.mutations
  | .acknowledgeBatch _ => []

def writtenTo (key : DocumentKey) (events : List (Event α)) : List (Mutation α) :=
  events.flatMap (Event.written key)

def replica (store : LocalStore α) (key : DocumentKey) :
    Optimistic.Replica (MutableDocument α) (Mutation α) :=
  ⟨store.remoteDocumentCache key, store.pending key⟩

theorem docVersion_none_iff {key : DocumentKey}
    {results : List (Mutation α × SnapshotVersion)} :
    docVersion key results = none ↔ mutationsOf key (results.map Prod.fst) = [] := by
  induction results with
  | nil => exact ⟨fun _ => rfl, fun _ => rfl⟩
  | cons result results ih =>
    rw [docVersion, Option.or_eq_none_iff, ih, List.map_cons]
    by_cases hkey : result.1.key = key
    · rw [if_pos hkey, mutationsOf_cons_self hkey]
      simp
    · rw [if_neg hkey, mutationsOf_cons_ne hkey]
      exact and_iff_left rfl

/-- A document that some mutation was applied to is no invalid one. -/
theorem remote_valid {results : List (Mutation α × SnapshotVersion)}
    {document : MutableDocument α} (h : document.isValidDocument = true ∨
      mutationsOf document.key (results.map Prod.fst) ≠ []) :
    (results.foldl (fun document result =>
      if result.1.key = document.key then result.1.applyToRemoteDocument document result.2
      else document) document).isValidDocument = true := by
  induction results generalizing document with
  | nil => exact h.resolve_right fun hne => hne rfl
  | cons result results ih =>
    rw [List.foldl_cons]
    split
    · refine ih (.inl ?_)
      unfold Mutation.applyToRemoteDocument
      cases result.1.change with
      | set value => rfl
      | patch value mask =>
        dsimp only
        split
        · rfl
        · rfl
      | delete => rfl
    · next hkey =>
      refine ih (h.imp_right fun hne => ?_)
      rwa [List.map_cons, mutationsOf_cons_ne hkey] at hne

/-- The cached document moves to what was shown of the batch. -/
theorem applyBatchResult_same {batch : MutationBatch α} {results : List SnapshotVersion}
    {document : MutableDocument α} (hlength : results.length = batch.mutations.length)
    (happlies : documents.Applies document (mutationsOf document.key batch.mutations))
    (hnewer : ∀ version, docVersion document.key (batch.mutations.zip results) = some version →
      document.version < version ∨
        SameShown (documents.view document (mutationsOf document.key batch.mutations))
          document) :
    SameShown (documents.view document (mutationsOf document.key batch.mutations))
      (applyBatchResult batch results document) := by
  have hzip : (batch.mutations.zip results).map Prod.fst = batch.mutations :=
    List.map_fst_zip hlength.ge
  unfold applyBatchResult
  split
  · next hnone =>
    have hnil := docVersion_none_iff.mp hnone
    rw [hzip] at hnil
    rw [hnil]
    exact ⟨rfl, rfl, rfl⟩
  · next version hversion =>
    have hsame := remote_same (batch.mutations.zip results) document (by rwa [hzip])
    rw [hzip] at hsame
    split
    · have hvalid : (batch.applyToRemoteDocument results document).isValidDocument = true := by
        refine remote_valid (.inr fun hnil => ?_)
        rw [docVersion_none_iff.mpr hnil] at hversion
        exact absurd hversion (by simp)
      dsimp only
      rw [if_pos hvalid]
      exact hsame
    · next hold => exact (hnewer version hversion).resolve_left hold

theorem pending_append (store : LocalStore α) (batch : MutationBatch α) (key : DocumentKey) :
    (store.step (.writeLocally batch)).pending key =
      store.pending key ++ mutationsOf key batch.mutations := by
  show mutationsOf key ((store.mutationQueue ++ [batch]).flatMap MutationBatch.mutations) = _
  unfold LocalStore.pending
  rw [List.flatMap_append, mutationsOf_append, List.flatMap_singleton]

theorem pending_nil {store : LocalStore α} (h : store.mutationQueue = []) (key : DocumentKey) :
    store.pending key = [] := by
  unfold LocalStore.pending
  rw [h]
  rfl

theorem pending_cons {store : LocalStore α} {batch : MutationBatch α}
    {queue : List (MutationBatch α)} (h : store.mutationQueue = batch :: queue)
    (key : DocumentKey) : store.pending key = mutationsOf key batch.mutations ++
      mutationsOf key (queue.flatMap MutationBatch.mutations) := by
  unfold LocalStore.pending
  rw [h, List.flatMap_cons, mutationsOf_append]

/-- The cached document after the acknowledgement of the first batch. -/
theorem acknowledged_same {store : LocalStore α} {results : List SnapshotVersion}
    {batch : MutationBatch α} {queue : List (MutationBatch α)}
    (h : Sound store (.acknowledgeBatch results))
    (hqueue : store.mutationQueue = batch :: queue) (key : DocumentKey)
    (happlies : documents.Applies (store.remoteDocumentCache key) (store.pending key)) :
    SameShown
      (documents.view (store.remoteDocumentCache key) (mutationsOf key batch.mutations))
      (applyBatchResult batch results (store.remoteDocumentCache key)) := by
  obtain ⟨hlength, hnewer⟩ := h batch queue hqueue
  rw [pending_cons hqueue] at happlies
  have hfirst := (Optimistic.applies_append.mp happlies).1
  have hversion := hnewer key
  have hkey := store.keyed key
  generalize store.remoteDocumentCache key = document at *
  subst hkey
  exact applyBatchResult_same hlength hfirst hversion

/-- An event is a step of the replica of each document. -/
theorem step_replica {store : LocalStore α} {event : Event α} (h : Sound store event)
    (key : DocumentKey)
    (happlies : documents.Applies (replica store key).base (replica store key).pending) :
    documents.Step (replica store key) (event.written key) (replica (store.step event) key) := by
  cases event with
  | writeLocally batch =>
    have hwrites := h key
    rw [getDocument_eq] at hwrites
    unfold replica
    rw [pending_append]
    exact .write hwrites
  | acknowledgeBatch results =>
    cases hqueue : store.mutationQueue with
    | nil =>
      have hstay : store.step (.acknowledgeBatch results) = store := by
        unfold LocalStore.step
        rw [hqueue]
      rw [hstay]
      exact Optimistic.Step.confirm (documents.refl (documents.view (replica store key).base []))
    | cons batch queue =>
      have hsame := acknowledged_same h hqueue key happlies
      unfold replica LocalStore.step Event.written
      rw [pending_cons hqueue, hqueue]
      exact .confirm hsame

/-- The replica of a document goes through a run. -/
theorem run_replica {store : LocalStore α} {events : List (Event α)}
    (h : SoundRun store events) (key : DocumentKey)
    (happlies : documents.Applies (replica store key).base (replica store key).pending) :
    documents.Run (replica store key) (writtenTo key events) (replica (store.run events) key) := by
  induction events generalizing store with
  | nil => exact .nil _
  | cons event events ih =>
    have hstep := step_replica h.1 key happlies
    exact .cons hstep (ih h.2 (Optimistic.step_same hstep happlies).1)

/-- A listener is shown the writes of this device, one after another, over what the cache had
when the queue was empty, whenever and in whatever portions they are acknowledged.  Once the
queue is empty again, the cache itself has that document. -/
theorem shown_as_written {store : LocalStore α} {events : List (Event α)}
    (hqueue : store.mutationQueue = []) (h : SoundRun store events) (key : DocumentKey) :
    SameShown (documents.view (store.remoteDocumentCache key) (writtenTo key events))
        ((store.run events).getDocument key) ∧
      ((store.run events).mutationQueue = [] →
        SameShown (documents.view (store.remoteDocumentCache key) (writtenTo key events))
          ((store.run events).remoteDocumentCache key)) := by
  have hstart : documents.Applies (replica store key).base (replica store key).pending := by
    unfold replica
    rw [pending_nil hqueue]
    trivial
  have hrun := (Optimistic.run_same (run_replica h key hstart) hstart).2.2
  unfold replica at hrun
  dsimp only at hrun
  rw [pending_nil hqueue] at hrun
  refine ⟨?_, fun hempty => ?_⟩
  · rw [getDocument_eq]
    exact hrun
  · rw [pending_nil hempty] at hrun
    exact hrun

/-- The cache has the document of Ann. -/
def cachedStore : LocalStore Nat where
  remoteDocumentCache key :=
    { key := key, type := .foundDocument, version := 1, data := .empty, state := .synced }
  keyed _ := rfl
  mutationQueue := []

def updateOfAnn (change : Change Nat) : MutationBatch Nat :=
  ⟨[{ key := "users/ann", precondition := .exists true, change }], by simp⟩

theorem updateOfAnn_sound {store : LocalStore Nat} (change : Change Nat)
    (h : (Precondition.exists true).isValidFor (store.getDocument "users/ann") = true) :
    Sound store (.writeLocally (updateOfAnn change)) := by
  intro key
  unfold updateOfAnn
  by_cases hkey : "users/ann" = key
  · rw [mutationsOf_cons_self hkey]
    subst hkey
    exact ⟨⟨fun version => by simp, h⟩, trivial⟩
  · rw [mutationsOf_cons_ne hkey]
    trivial

theorem acknowledgement_sound {store : LocalStore Nat} {change : Change Nat}
    {queue : List (MutationBatch Nat)} {version : SnapshotVersion}
    (hqueue : store.mutationQueue = updateOfAnn change :: queue)
    (hnewer : (store.remoteDocumentCache "users/ann").version < version) :
    Sound store (.acknowledgeBatch [version]) := by
  intro batch queue' hqueue'
  obtain ⟨rfl, rfl⟩ := List.cons_eq_cons.mp (hqueue.symm.trans hqueue')
  refine ⟨rfl, fun key version' hversion => .inl ?_⟩
  change (if "users/ann" = key then some version else none) = some version' at hversion
  by_cases hkey : "users/ann" = key
  · subst hkey
    rw [if_pos rfl] at hversion
    rwa [← Option.some.inj hversion]
  · rw [if_neg hkey] at hversion
    exact absurd hversion (by simp)

/-- A field is set, and deleted when the server has acknowledged that. -/
def setAndDeleted : List (Event Nat) :=
  [.writeLocally (updateOfAnn (.patch nestedField [["a"]])), .acknowledgeBatch [2],
    .writeLocally (updateOfAnn (.patch .empty [["a"]])), .acknowledgeBatch [3]]

theorem shown_as_written_ann :
    SameShown (documents.view (cachedStore.remoteDocumentCache "users/ann")
        (writtenTo "users/ann" setAndDeleted))
      ((cachedStore.run setAndDeleted).getDocument "users/ann") ∧
    SameShown (documents.view (cachedStore.remoteDocumentCache "users/ann")
        (writtenTo "users/ann" setAndDeleted))
      ((cachedStore.run setAndDeleted).remoteDocumentCache "users/ann") := by
  have hsound : SoundRun cachedStore setAndDeleted :=
    ⟨updateOfAnn_sound _ rfl, acknowledgement_sound rfl (by decide), updateOfAnn_sound _ rfl,
      acknowledgement_sound rfl (by decide), trivial⟩
  obtain ⟨hshown, hcache⟩ := shown_as_written rfl hsound "users/ann"
  exact ⟨hshown, hcache rfl⟩

end Firestore
end SocialApp

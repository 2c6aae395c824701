import MobileApps.Firestore.CollectionQuery
import MobileApps.Library.OrderedSets

/-! What a listener to a collection is shown, kept up to date change by change: `document_set.cc`,
`view_snapshot.cc`, `view.cc`. The apps' queries have no limit, so a view never lacks documents
that it would have to look up again. -/

namespace MobileApps.Firestore

open Library.OrderedSets

variable {D : Type}

def MutableDocument.hasCommittedMutations (d : MutableDocument D) : Bool :=
  d.documentState = .hasCommittedMutations

/-- The plain query of a collection orders the documents by their keys. -/
abbrev DocumentSet (D : Type) := OrderedSet (MutableDocument.key (D := D))

abbrev DocumentMap (D : Type) := AList fun _ : ResourcePath => MutableDocument D

inductive DocumentViewChangeType
  | removed
  | added
  | modified
  | metadata
  deriving DecidableEq

structure DocumentViewChange (D : Type) where
  document : MutableDocument D
  type : DocumentViewChangeType

abbrev DocumentViewChangeSet (D : Type) := AList fun _ : ResourcePath => DocumentViewChange D

def DocumentViewChangeSet.addChange (change : DocumentViewChange D)
    (s : DocumentViewChangeSet D) : Except Halt (DocumentViewChangeSet D) :=
  let key := change.document.key
  match s.lookup key with
  | none => .ok (s.insert key change)
  | some old =>
      match change.type, old.type with
      | .removed, .metadata | .modified, .metadata | .metadata, .metadata =>
          .ok (s.insert key change)
      | .metadata, .added | .metadata, .modified =>
          .ok (s.insert key { document := change.document, type := old.type })
      | .modified, .modified =>
          .ok (s.insert key { document := change.document, type := .modified })
      | .modified, .added => .ok (s.insert key { document := change.document, type := .added })
      | .removed, .added => .ok (s.erase key)
      | .removed, .modified => .ok (s.insert key { document := old.document, type := .removed })
      | .added, .removed => .ok (s.insert key { document := change.document, type := .modified })
      | .added, .added | .removed, .removed | .added, .modified | .modified, .removed
      | .added, .metadata | .metadata, .removed =>
          .error (.hardAssert "Unsupported combination of changes")

def DocumentViewChangeSet.getChanges (s : DocumentViewChangeSet D) : List (DocumentViewChange D) :=
  s.entries.map Sigma.snd

/-- A change of the metadata counts as a modification to the public API. -/
def DocumentViewChangeType.position : DocumentViewChangeType → ℕ
  | removed => 0
  | added => 1
  | modified | metadata => 2

inductive SyncState
  | none
  | local_
  | synced
  deriving DecidableEq

inductive OnlineState
  | unknown
  | online
  | offline
  deriving DecidableEq

abbrev ByteString := List UInt8

structure TargetChange where
  resumeToken : ByteString
  current : Bool
  addedDocuments : List ResourcePath
  modifiedDocuments : List ResourcePath
  removedDocuments : List ResourcePath
  deriving DecidableEq

def TargetChange.createSynthesizedTargetChange (current : Bool) (resumeToken : ByteString) :
    TargetChange :=
  ⟨resumeToken, current, [], [], []⟩

inductive LimboDocumentChange
  | added (key : ResourcePath)
  | removed (key : ResourcePath)
  deriving DecidableEq

structure ViewDocumentChanges (D : Type) where
  documentSet : DocumentSet D
  changeSet : DocumentViewChangeSet D
  mutatedKeys : Finset ResourcePath

structure ViewSnapshot (D : Type) where
  query : ResourcePath
  documents : DocumentSet D
  oldDocuments : DocumentSet D
  documentChanges : List (DocumentViewChange D)
  mutatedKeys : Finset ResourcePath
  fromCache : Bool
  syncStateChanged : Bool
  excludesMetadataChanges : Bool
  hasCachedResults : Bool

namespace ViewSnapshot

def fromInitialDocuments (query : ResourcePath) (documents : DocumentSet D)
    (mutatedKeys : Finset ResourcePath)
    (fromCache excludesMetadataChanges hasCachedResults : Bool) : ViewSnapshot D where
  query := query
  documents := documents
  oldDocuments := .empty
  documentChanges := documents.members.map fun doc => ⟨doc, .added⟩
  mutatedKeys := mutatedKeys
  fromCache := fromCache
  syncStateChanged := true
  excludesMetadataChanges := excludesMetadataChanges
  hasCachedResults := hasCachedResults

def hasPendingWrites (s : ViewSnapshot D) : Bool := s.mutatedKeys ≠ ∅

end ViewSnapshot

structure View (D : Type) where
  query : ResourcePath
  documentSet : DocumentSet D
  syncState : SyncState
  current : Bool
  syncedDocuments : Finset ResourcePath
  limboDocuments : List ResourcePath
  mutatedKeys : Finset ResourcePath

namespace View

def start (query : ResourcePath) (remoteDocuments : Finset ResourcePath) : View D where
  query := query
  documentSet := .empty
  syncState := .none
  current := false
  syncedDocuments := remoteDocuments
  limboDocuments := []
  mutatedKeys := ∅

/-- The server sends a document again whose write it has acknowledged, so the change is not shown
before that. -/
def shouldWaitForSyncedDocument (newDoc oldDoc : MutableDocument D) : Bool :=
  oldDoc.hasLocalMutations && newDoc.hasCommittedMutations && !newDoc.hasLocalMutations

def oldDocHadPendingMutations (v : View D) (key : ResourcePath) : Bool := key ∈ v.mutatedKeys

/-- A committed mutation counts for a document that was mutated while the view was there. -/
def newDocHasPendingMutations (v : View D) (key : ResourcePath) (newDoc : MutableDocument D) :
    Bool :=
  newDoc.hasLocalMutations || (key ∈ v.mutatedKeys && newDoc.hasCommittedMutations)

def changeOf [DecidableEq D] (v : View D) (key : ResourcePath) (doc : MutableDocument D) :
    Option (DocumentViewChange D) :=
  match v.documentSet.find key, LocalStore.matchesQuery v.query doc with
  | some oldDoc, true =>
      if oldDoc.value ≠ doc.value then
        if shouldWaitForSyncedDocument doc oldDoc then none else some ⟨doc, .modified⟩
      else if v.oldDocHadPendingMutations key ≠ v.newDocHasPendingMutations key doc then
        some ⟨doc, .metadata⟩
      else none
  | none, true => some ⟨doc, .added⟩
  | some oldDoc, false => some ⟨oldDoc, .removed⟩
  | none, false => none

def computeDocumentChange [DecidableEq D] (v : View D) (c : ViewDocumentChanges D)
    (entry : (_ : ResourcePath) × MutableDocument D) : Except Halt (ViewDocumentChanges D) :=
  match v.changeOf entry.1 entry.2 with
  | none => .ok c
  | some change => do
    let changeSet ← DocumentViewChangeSet.addChange change c.changeSet
    if LocalStore.matchesQuery v.query entry.2 then
      .ok
        { documentSet := c.documentSet.insert entry.2
          changeSet
          mutatedKeys := if entry.2.hasLocalMutations then insert entry.1 c.mutatedKeys
            else c.mutatedKeys.erase entry.1 }
    else
      .ok
        { documentSet := c.documentSet.erase entry.1
          changeSet
          mutatedKeys := c.mutatedKeys.erase entry.1 }

def computeDocumentChanges [DecidableEq D] (docChanges : DocumentMap D) (v : View D) :
    Except Halt (ViewDocumentChanges D) :=
  docChanges.entries.foldlM v.computeDocumentChange ⟨v.documentSet, ∅, v.mutatedKeys⟩

def shouldBeInLimbo (key : ResourcePath) (v : View D) : Bool :=
  if key ∈ v.syncedDocuments then false
  else
    match v.documentSet.find key with
    | none => false
    | some doc => !doc.hasLocalMutations

def applyTargetChange (maybeTargetChange : Option TargetChange) (v : View D) :
    Except Halt (View D) :=
  match maybeTargetChange with
  | none => .ok v
  | some targetChange => do
    let synced := v.syncedDocuments ∪ targetChange.addedDocuments.toFinset
    hardAssert (∀ key ∈ targetChange.modifiedDocuments, key ∈ synced)
      "Modified document not found in view."
    .ok { v with
      syncedDocuments := synced \ targetChange.removedDocuments.toFinset
      current := targetChange.current }

def updateLimboDocuments (v : View D) : View D × List LimboDocumentChange :=
  if ¬ v.current then (v, [])
  else
    let limboDocuments :=
      (v.documentSet.members.map MutableDocument.key).filter fun key => v.shouldBeInLimbo key
    ({ v with limboDocuments },
      ((v.limboDocuments.filter fun key => key ∉ limboDocuments).map .removed) ++
        (limboDocuments.filter fun key => key ∉ v.limboDocuments).map .added)

def applyChanges (docChanges : ViewDocumentChanges D) (targetChange : Option TargetChange)
    (v : View D) :
    Except Halt (View D × Option (ViewSnapshot D) × List LimboDocumentChange) := do
  let changes := docChanges.changeSet.getChanges.mergeSort fun lhs rhs =>
    lhs.type.position < rhs.type.position ||
      lhs.type.position == rhs.type.position && decide (lhs.document.key ≤ rhs.document.key)
  let w ← { v with
    documentSet := docChanges.documentSet
    mutatedKeys := docChanges.mutatedKeys }.applyTargetChange targetChange
  let (w, limboChanges) := w.updateLimboDocuments
  let newSyncState := if w.limboDocuments = [] ∧ w.current then SyncState.synced else .local_
  let syncStateChanged := decide (newSyncState ≠ v.syncState)
  let w := { w with syncState := newSyncState }
  if changes.isEmpty && !syncStateChanged then .ok (w, none, limboChanges)
  else
    .ok (w, some
      { query := v.query
        documents := docChanges.documentSet
        oldDocuments := v.documentSet
        documentChanges := changes
        mutatedKeys := docChanges.mutatedKeys
        fromCache := newSyncState = .local_
        syncStateChanged
        excludesMetadataChanges := false
        hasCachedResults := targetChange.elim false fun change => !change.resumeToken.isEmpty },
      limboChanges)

def applyOnlineStateChange (onlineState : OnlineState) (v : View D) :
    Except Halt (View D × Option (ViewSnapshot D) × List LimboDocumentChange) :=
  if v.current ∧ onlineState = .offline then
    { v with current := false }.applyChanges ⟨v.documentSet, ∅, v.mutatedKeys⟩ none
  else .ok (v, none, [])

end View

end MobileApps.Firestore

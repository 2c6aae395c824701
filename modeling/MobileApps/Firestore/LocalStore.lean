import MobileApps.Firestore.MutationQueue
import MobileApps.Library.PrefixScan
import Mathlib.Data.Char
import Mathlib.Data.List.AList
import Mathlib.Logic.Function.Basic

/-! What a device keeps of Firestore: the documents it has heard of from the server, the queue of
its own writes, and an overlay for each document that a write in the queue changes, so that a read
need not replay the queue: `memory_remote_document_cache.cc`, `memory_document_overlay_cache.cc`,
`local_documents_view.cc`, `local_store.cc`. -/

namespace MobileApps.Firestore

open Library.Runs Library.PrefixScan

variable {D : Type}

abbrev RemoteDocumentCache (D : Type) := AList fun _ : ResourcePath => MutableDocument D
abbrev MutableDocumentMap (D : Type) := AList fun _ : ResourcePath => MutableDocument D

namespace RemoteDocumentCache

def add (d : MutableDocument D) (readTime : SnapshotVersion) (c : RemoteDocumentCache D) :
    RemoteDocumentCache D :=
  c.insert d.key (d.withReadTime readTime)

def get [Inhabited D] (key : ResourcePath) (c : RemoteDocumentCache D) : MutableDocument D :=
  (c.lookup key).getD (.invalidDocument key)

def getAll [Inhabited D] (keys : List ResourcePath) (c : RemoteDocumentCache D) :
    MutableDocumentMap D :=
  keys.foldl (fun results key => results.insert key (get key c)) ∅

def keysAt (path : ResourcePath) (c : RemoteDocumentCache D) : List ResourcePath :=
  (prefixScan [] path c.keys).filter fun key => ¬ path.length + 1 < key.length

end RemoteDocumentCache

structure Overlay (D : Type) where
  largestBatchId : ℤ
  mutation : Mutation D
  deriving DecidableEq

abbrev DocumentKeysByBatchIdMap := AList fun _ : ℤ => List ResourcePath

structure DocumentOverlayCache (D : Type) where
  overlays : AList fun _ : ResourcePath => Overlay D
  overlayByBatchId : DocumentKeysByBatchIdMap

namespace DocumentOverlayCache

def empty : DocumentOverlayCache D := ⟨∅, ∅⟩

def getOverlay (key : ResourcePath) (c : DocumentOverlayCache D) : Option (Overlay D) :=
  c.overlays.lookup key

def saveOverlay (largestBatchId : ℤ) (m : Mutation D) (c : DocumentOverlayCache D) :
    Except Halt (DocumentOverlayCache D) := do
  let byBatchId ←
    match c.overlays.lookup m.key with
    | none => .ok c.overlayByBatchId
    | some existing =>
        match c.overlayByBatchId.lookup existing.largestBatchId with
        | none => .error (.hardAssert "overlay_by_batch_id_iter != overlay_by_batch_id_.end()")
        | some existingKeys => .ok (c.overlayByBatchId.insert existing.largestBatchId
            (existingKeys.filter fun key => key ≠ m.key))
  .ok
    { overlays := c.overlays.insert m.key ⟨largestBatchId, m⟩
      overlayByBatchId := byBatchId.insert largestBatchId
        (((byBatchId.lookup largestBatchId).getD []).insert m.key) }

def saveOverlays (largestBatchId : ℤ) (overlays : List (Mutation D))
    (c : DocumentOverlayCache D) : Except Halt (DocumentOverlayCache D) :=
  overlays.foldlM (fun c m => c.saveOverlay largestBatchId m) c

def removeOverlaysForBatchId (batchId : ℤ) (c : DocumentOverlayCache D) :
    DocumentOverlayCache D :=
  match c.overlayByBatchId.lookup batchId with
  | none => c
  | some keys =>
      { overlays := keys.foldl (fun overlays key => overlays.erase key) c.overlays
        overlayByBatchId := c.overlayByBatchId.erase batchId }

def keysIn (collection : ResourcePath) (c : DocumentOverlayCache D) : List ResourcePath :=
  (prefixScan [] collection c.overlays.keys).filter fun key => key.length = collection.length + 1

end DocumentOverlayCache

/-! ### The store and its view -/

structure LocalStore (D : Type) where
  remoteDocumentCache : RemoteDocumentCache D
  lastRemoteSnapshotVersion : SnapshotVersion
  mutationQueue : MutationQueue D
  documentOverlayCache : DocumentOverlayCache D

structure Recalculation (D : Type) where
  docs : MutableDocumentMap D
  masks : AList fun _ : ResourcePath => Option FieldMask
  documentsByBatchId : List (ℤ × List ResourcePath)

structure OverlayedDocument (D : Type) where
  document : MutableDocument D
  mutatedFields : Option FieldMask

abbrev OverlayedDocumentMap (D : Type) := AList fun _ : ResourcePath => OverlayedDocument D

variable [Inhabited D]

def recalculateDocument (batch : MutationBatch D) (s : Recalculation D) (key : ResourcePath) :
    Except Halt (Recalculation D) :=
  match s.docs.lookup key with
  | none => .ok s
  | some baseDoc => do
    let (doc, mask) ← batch.applyToLocalView baseDoc ((s.masks.lookup key).getD (some []))
    .ok { s with docs := s.docs.insert key doc, masks := s.masks.insert key mask }

/-- The batches come in the order of their ids, so the list by batch id is in that order too. -/
def recalculateBatch (s : Recalculation D) (batch : MutationBatch D) :
    Except Halt (Recalculation D) := do
  let keys := batch.keys.filter fun key => (s.docs.lookup key).isSome
  let s ← keys.foldlM (recalculateDocument batch) s
  .ok { s with documentsByBatchId := s.documentsByBatchId ++ [(batch.batchId, keys)] }

omit [Inhabited D] in
def recalculatedOverlay (s : Recalculation D) (found : List (Mutation D) × List ResourcePath)
    (key : ResourcePath) : Except Halt (List (Mutation D) × List ResourcePath) :=
  if key ∈ found.2 then .ok found
  else
    match s.docs.lookup key with
    | none => .error (.hardAssert "docs_it != docs.end()")
    | some doc => do
      let mutation ← Mutation.calculateOverlayMutation doc ((s.masks.lookup key).getD none)
      .ok (found.1 ++ mutation.toList, key :: found.2)

omit [Inhabited D] in
def saveRecalculated (s : Recalculation D)
    (saved : List ResourcePath × DocumentOverlayCache D) (entry : ℤ × List ResourcePath) :
    Except Halt (List ResourcePath × DocumentOverlayCache D) := do
  let (overlays, processed) ← entry.2.foldlM (recalculatedOverlay s) ([], saved.1)
  let cache ← saved.2.saveOverlays entry.1 overlays
  .ok (processed, cache)

namespace LocalStore

omit [Inhabited D] in
def empty : LocalStore D := ⟨∅, .none, .empty, .empty⟩

def recalculateAndSaveOverlays (docs : MutableDocumentMap D) (s : LocalStore D) :
    Except Halt (LocalStore D × Recalculation D) := do
  let batches ← s.mutationQueue.allMutationBatchesAffectingDocumentKeys docs.keys
  let r ← batches.foldlM recalculateBatch ⟨docs, ∅, []⟩
  let (_, cache) ←
    r.documentsByBatchId.reverse.foldlM (saveRecalculated r) ([], s.documentOverlayCache)
  .ok ({ s with documentOverlayCache := cache }, r)

def overlayDocument (key : ResourcePath) (doc : MutableDocument D) (s : LocalStore D) :
    Except Halt (OverlayedDocument D) :=
  match s.documentOverlayCache.getOverlay key with
  | none => .ok ⟨doc, none⟩
  | some overlay => do
    let (doc, _) ← overlay.mutation.applyToLocalView doc none
    .ok ⟨doc, none⟩

/-- An overlay that is not a patch is not recalculated. -/
def viewDocument (existenceStateChanged : List ResourcePath) (s : LocalStore D)
    (docs : MutableDocumentMap D) (found : MutableDocumentMap D × OverlayedDocumentMap D)
    (key : ResourcePath) : Except Halt (MutableDocumentMap D × OverlayedDocumentMap D) :=
  match docs.lookup key with
  | none => .ok found
  | some doc =>
      if key ∈ existenceStateChanged ∧ (s.documentOverlayCache.getOverlay key).isNone then
        .ok (found.1.insert key doc, found.2)
      else do
        let view ← s.overlayDocument key doc
        .ok (found.1, found.2.insert key view)

omit [Inhabited D] in
def recalculatedView (r : Recalculation D) (views : OverlayedDocumentMap D)
    (key : ResourcePath) : OverlayedDocumentMap D :=
  match r.docs.lookup key with
  | none => views
  | some doc => views.insert key ⟨doc, (r.masks.lookup key).getD none⟩

def computeViews (docs : MutableDocumentMap D) (existenceStateChanged : List ResourcePath)
    (s : LocalStore D) : Except Halt (LocalStore D × OverlayedDocumentMap D) := do
  let (recalculateDocuments, views) ←
    docs.keys.foldlM (viewDocument existenceStateChanged s docs) (∅, ∅)
  let (s, r) ← s.recalculateAndSaveOverlays recalculateDocuments
  .ok (s, r.docs.keys.foldl (recalculatedView r) views)

def getBaseDocument (key : ResourcePath) (overlay : Option (Overlay D)) (s : LocalStore D) :
    MutableDocument D :=
  match overlay with
  | none => RemoteDocumentCache.get key s.remoteDocumentCache
  | some _ => .invalidDocument key

def getDocument (key : ResourcePath) (s : LocalStore D) : Except Halt (MutableDocument D) :=
  let overlay := s.documentOverlayCache.getOverlay key
  let document := s.getBaseDocument key overlay
  match overlay with
  | none => .ok document
  | some overlay => do
    let (document, _) ← overlay.mutation.applyToLocalView document (some [])
    .ok document

def getDocumentFromBatches (key : ResourcePath) (batches : List (MutationBatch D))
    (s : LocalStore D) : Except Halt (MutableDocument D) :=
  batches.foldlM (fun document batch => do
    let (document, _) ← batch.applyToLocalDocument document (some [])
    .ok document) (RemoteDocumentCache.get key s.remoteDocumentCache)

def getDocuments (keys : List ResourcePath) (s : LocalStore D) :
    Except Halt (LocalStore D × OverlayedDocumentMap D) :=
  s.computeViews (RemoteDocumentCache.getAll keys s.remoteDocumentCache) []

omit [Inhabited D] in
def matchesQuery (path : ResourcePath) (d : MutableDocument D) : Bool :=
  d.isFoundDocument && path.length + 1 == d.key.length && path.isPrefixOf d.key

def queriedDocument (path : ResourcePath) (overlaid : List ResourcePath) (s : LocalStore D)
    (results : MutableDocumentMap D) (doc : MutableDocument D) :
    Except Halt (MutableDocumentMap D) := do
  let key := doc.key
  let doc ←
    match if key ∈ overlaid then s.documentOverlayCache.getOverlay key else none with
    | none => .ok doc
    | some overlay => do
      let (doc, _) ← overlay.mutation.applyToLocalView doc (some [])
      .ok doc
  .ok (if matchesQuery path doc then results.insert key doc else results)

/-- A query of a whole collection: the documents of the cache, and those that only an overlay
has, each under its overlay. -/
def getDocumentsMatchingCollectionQuery (path : ResourcePath) (s : LocalStore D) :
    Except Halt (MutableDocumentMap D) :=
  let remote := RemoteDocumentCache.keysAt path s.remoteDocumentCache
  let overlaid := s.documentOverlayCache.keysIn path
  let documents :=
    (remote.map fun key => RemoteDocumentCache.get key s.remoteDocumentCache) ++
      (overlaid.filter fun key => key ∉ remote).map .invalidDocument
  documents.foldlM (queriedDocument path overlaid s) ∅

def applyToLocalDocument (batch : MutationBatch D)
    (found : OverlayedDocumentMap D × List (Mutation D)) (m : Mutation D) :
    Except Halt (OverlayedDocumentMap D × List (Mutation D)) :=
  match found.1.lookup m.key with
  | none => .error (.hardAssert "document for key not found")
  | some entry => do
    let (document, mutatedFields) ←
      batch.applyToLocalDocument entry.document entry.mutatedFields
    let overlay ← Mutation.calculateOverlayMutation document mutatedFields
    let document := if document.isValidDocument then document
      else document.convertToNoDocument .none
    .ok (found.1.insert m.key { entry with document },
      -- `emplace` keeps what is there
      if m.key ∈ found.2.map Mutation.key then found.2 else found.2 ++ overlay.toList)

def applyToLocalDocumentSet (batch : MutationBatch D) (documents : OverlayedDocumentMap D) :
    Except Halt (OverlayedDocumentMap D × List (Mutation D)) :=
  batch.mutations.foldlM (applyToLocalDocument batch) (documents, [])

/-- Without field transforms there is no base state to record beside the mutations. -/
def writeLocally (mutations : List (Mutation D)) (s : LocalStore D) :
    Except Halt (LocalStore D × MutationBatch D × OverlayedDocumentMap D) := do
  let keys := (mutations.map Mutation.key).dedup
  let (s, documents) ←
    s.computeViews (RemoteDocumentCache.getAll keys s.remoteDocumentCache) []
  hardAssert (∀ m ∈ mutations, (documents.lookup m.key).isSome)
    "Failed to find overlayed document with mutation key"
  let (batch, mutationQueue) ← s.mutationQueue.addMutationBatch mutations
  let (documents, overlays) ← applyToLocalDocumentSet batch documents
  let documentOverlayCache ← s.documentOverlayCache.saveOverlays batch.batchId overlays
  .ok ({ s with mutationQueue, documentOverlayCache }, batch, documents)

/-! ### Answers of the server -/

def applyDocumentResult (result : MutationBatchResult D) (c : RemoteDocumentCache D)
    (key : ResourcePath) : Except Halt (RemoteDocumentCache D) :=
  let doc := RemoteDocumentCache.get key c
  match result.docVersions key with
  | none => .error (.hardAssert "doc_versions should contain every doc in the write.")
  | some ackVersion =>
      if doc.version < ackVersion then do
        let doc ← result.batch.applyToRemoteDocument doc result.mutationResults
        .ok (if doc.isValidDocument then RemoteDocumentCache.add doc result.commitVersion c
          else c)
      else .ok c

def applyBatchResult (result : MutationBatchResult D) (s : LocalStore D) :
    Except Halt (LocalStore D) := do
  let remoteDocumentCache ←
    result.batch.keys.foldlM (applyDocumentResult result) s.remoteDocumentCache
  let mutationQueue ← s.mutationQueue.removeMutationBatch result.batch
  .ok { s with remoteDocumentCache, mutationQueue }

/-- All keys of the batch: the condition reads the size of a repeated field from the descriptor of
the message type, where it is zero. -/
def getKeysWithTransformResults (result : MutationBatchResult D) : List ResourcePath :=
  result.batch.keys

def acknowledgeBatch (result : MutationBatchResult D) (s : LocalStore D) :
    Except Halt (LocalStore D × OverlayedDocumentMap D) := do
  s.mutationQueue.acknowledgeBatch result.batch
  let s ← s.applyBatchResult result
  s.mutationQueue.performConsistencyCheck
  let s := { s with documentOverlayCache :=
    s.documentOverlayCache.removeOverlaysForBatchId result.batch.batchId }
  let (s, _) ← s.recalculateAndSaveOverlays
    (RemoteDocumentCache.getAll (getKeysWithTransformResults result) s.remoteDocumentCache)
  s.getDocuments result.batch.keys

def rejectBatch (batchId : ℤ) (s : LocalStore D) :
    Except Halt (LocalStore D × OverlayedDocumentMap D) := do
  match ← s.mutationQueue.lookupMutationBatch batchId with
  | none => .error (.hardAssert "Attempt to reject nonexistent batch!")
  | some toReject => do
    let mutationQueue ← s.mutationQueue.removeMutationBatch toReject
    mutationQueue.performConsistencyCheck
    let s := { s with
      mutationQueue
      documentOverlayCache := s.documentOverlayCache.removeOverlaysForBatchId batchId }
    let (s, _) ← s.recalculateAndSaveOverlays
      (RemoteDocumentCache.getAll toReject.keys s.remoteDocumentCache)
    s.getDocuments toReject.keys

structure DocumentChanges (D : Type) where
  cache : RemoteDocumentCache D
  changedDocs : MutableDocumentMap D
  existenceChangedKeys : List ResourcePath

omit [Inhabited D] in
def DocumentChanges.noteExistence (existingDoc doc : MutableDocument D) (c : DocumentChanges D) :
    DocumentChanges D :=
  if doc.isFoundDocument = existingDoc.isFoundDocument then c
  else { c with existenceChangedKeys := c.existenceChangedKeys.insert doc.key }

def populateDocumentChange (existingDocs : RemoteDocumentCache D) (readTime : SnapshotVersion)
    (c : DocumentChanges D) (doc : MutableDocument D) : Except Halt (DocumentChanges D) := do
  let existingDoc := RemoteDocumentCache.get doc.key existingDocs
  let c := c.noteExistence existingDoc doc
  if doc.isNoDocument ∧ doc.version = .none then
    .ok { c with cache := c.cache.erase doc.key, changedDocs := c.changedDocs.insert doc.key doc }
  else if ¬ existingDoc.isValidDocument ∨ existingDoc.version < doc.version ∨
      (doc.version = existingDoc.version ∧ existingDoc.hasPendingWrites) then do
    hardAssert (readTime ≠ .none) "Cannot add a document when the remote version is zero"
    .ok { c with
      cache := RemoteDocumentCache.add doc readTime c.cache
      changedDocs := c.changedDocs.insert doc.key doc }
  else .ok c

omit [Inhabited D] in
/-- An event without a version is one that the device makes up for a document in limbo. -/
def setLastRemoteSnapshotVersion (remoteVersion : SnapshotVersion) (s : LocalStore D) :
    Except Halt (LocalStore D) :=
  if remoteVersion = .none then .ok s
  else do
    hardAssert (s.lastRemoteSnapshotVersion ≤ remoteVersion)
      "Watch stream reverted to previous snapshot??"
    .ok { s with lastRemoteSnapshotVersion := remoteVersion }

def applyRemoteEvent (updates : List (MutableDocument D)) (snapshotVersion : SnapshotVersion)
    (s : LocalStore D) : Except Halt (LocalStore D × OverlayedDocumentMap D) := do
  let changes ← updates.foldlM (populateDocumentChange s.remoteDocumentCache snapshotVersion)
    ⟨s.remoteDocumentCache, ∅, []⟩
  let s ← { s with remoteDocumentCache := changes.cache }.setLastRemoteSnapshotVersion
    snapshotVersion
  s.computeViews changes.changedDocs changes.existenceChangedKeys

end LocalStore

/-- The users of a device share what it knows from the server; each has a queue and overlays. -/
structure MemoryPersistence (U D : Type) where
  user : U
  remoteDocumentCache : RemoteDocumentCache D
  lastRemoteSnapshotVersion : SnapshotVersion
  mutationQueues : U → MutationQueue D
  documentOverlayCaches : U → DocumentOverlayCache D

namespace MemoryPersistence

variable {U : Type} [DecidableEq U]

omit [Inhabited D] [DecidableEq U] in
def empty (user : U) : MemoryPersistence U D :=
  ⟨user, ∅, .none, fun _ => .empty, fun _ => .empty⟩

omit [Inhabited D] [DecidableEq U] in
def localStore (p : MemoryPersistence U D) : LocalStore D :=
  ⟨p.remoteDocumentCache, p.lastRemoteSnapshotVersion, p.mutationQueues p.user,
    p.documentOverlayCaches p.user⟩

omit [Inhabited D] in
def withLocalStore (s : LocalStore D) (p : MemoryPersistence U D) : MemoryPersistence U D :=
  { user := p.user
    remoteDocumentCache := s.remoteDocumentCache
    lastRemoteSnapshotVersion := s.lastRemoteSnapshotVersion
    mutationQueues := Function.update p.mutationQueues p.user s.mutationQueue
    documentOverlayCaches := Function.update p.documentOverlayCaches p.user s.documentOverlayCache }

omit [Inhabited D] in
def startMutationQueue (user : U) (p : MemoryPersistence U D) : MemoryPersistence U D :=
  { p with
    user
    mutationQueues := Function.update p.mutationQueues user (p.mutationQueues user).start }

omit [Inhabited D] in
def changedKeys (batches : List (MutationBatch D)) : List ResourcePath :=
  ((batches.flatMap MutationBatch.mutations).map Mutation.key).dedup

def handleUserChange (user : U) (p : MemoryPersistence U D) :
    Except Halt (MemoryPersistence U D × OverlayedDocumentMap D) := do
  let oldBatches := (p.mutationQueues p.user).queue
  let p := p.startMutationQueue user
  let newBatches := (p.mutationQueues p.user).queue
  let (s, changes) ← p.localStore.getDocuments (changedKeys (oldBatches ++ newBatches))
  .ok (p.withLocalStore s, changes)

end MemoryPersistence

end MobileApps.Firestore

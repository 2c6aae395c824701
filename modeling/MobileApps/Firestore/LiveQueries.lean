import MobileApps.Firestore.ViewUpdates
import MobileApps.Firestore.LimboTargets

/-! The queries that a device listens to, which change with the user's writes and with what the
server tells: `sync_engine.cc`. The apps listen to plain queries of collections, so each query is
the only one of its target. -/

namespace MobileApps.Firestore

open Library.KeyedMaps Library.Runs

variable {U D : Type}

def MutableDocument.noDocument [Inhabited D] (key : ResourcePath) (version : SnapshotVersion) :
    MutableDocument D :=
  (invalidDocument key).convertToNoDocument version

structure LiveQueries (U D : Type) where
  persistence : MemoryPersistence U D
  /-- Which targets the local store has data of. -/
  targetDataByTarget : Finset ResourcePath
  queryViews : AList fun _ : ResourcePath => View D
  limboTargets : LimboTargets

namespace LiveQueries

def start (user : U) (maxConcurrentLimboResolutions : ℕ) : LiveQueries U D :=
  ⟨.empty user, ∅, ∅, .start maxConcurrentLimboResolutions⟩

def allocateTarget (path : ResourcePath) (s : LiveQueries U D) : LiveQueries U D :=
  { s with targetDataByTarget := insert path s.targetDataByTarget }

def releaseTarget (path : ResourcePath) (s : LiveQueries U D) :
    Except Halt (LiveQueries U D) := do
  hardAssert (path ∈ s.targetDataByTarget) "Tried to release a non-existent target"
  .ok { s with targetDataByTarget := s.targetDataByTarget.erase path }

def notifyLocalViewChanges (snapshots : List (ViewSnapshot D)) (s : LiveQueries U D) :
    Except Halt Unit :=
  hardAssert (∀ snapshot ∈ snapshots, snapshot.fromCache = false →
    snapshot.query ∈ s.targetDataByTarget)
    "Can't set limbo-free snapshot version for unknown target"

variable [DecidableEq D]

def emitNewSnapshot (changes : DocumentMap D) (targetChanges : TargetChangeMap)
    (emitted : LiveQueries U D × List (ViewSnapshot D)) (entry : (_ : ResourcePath) × View D) :
    Except Halt (LiveQueries U D × List (ViewSnapshot D)) := do
  let viewDocChanges ← entry.2.computeDocumentChanges changes
  let (view, snapshot, limboChanges) ←
    entry.2.applyChanges viewDocChanges (targetChanges.lookup (.query entry.1))
  let limboTargets ←
    LimboTargets.updateTrackedLimboDocuments limboChanges entry.1 emitted.1.limboTargets
  .ok ({ emitted.1 with queryViews := emitted.1.queryViews.insert entry.1 view, limboTargets },
    emitted.2 ++ snapshot.toList)

def emitNewSnapshotsAndNotifyLocalStore (changes : DocumentMap D) (targetChanges : TargetChangeMap)
    (s : LiveQueries U D) : Except Halt (LiveQueries U D × List (ViewSnapshot D)) := do
  let (s, snapshots) ←
    s.queryViews.entries.foldlM (emitNewSnapshot changes targetChanges) (s, [])
  s.notifyLocalViewChanges snapshots
  .ok (s, snapshots)

omit [DecidableEq D] in
def emitOnlineState (onlineState : OnlineState)
    (emitted : LiveQueries U D × List (ViewSnapshot D)) (entry : (_ : ResourcePath) × View D) :
    Except Halt (LiveQueries U D × List (ViewSnapshot D)) := do
  let (view, snapshot, limboChanges) ← entry.2.applyOnlineStateChange onlineState
  hardAssert (limboChanges = []) "OnlineState should not affect limbo documents."
  .ok ({ emitted.1 with queryViews := emitted.1.queryViews.insert entry.1 view },
    emitted.2 ++ snapshot.toList)

omit [DecidableEq D] in
def handleOnlineStateChange (onlineState : OnlineState) (s : LiveQueries U D) :
    Except Halt (LiveQueries U D × List (ViewSnapshot D)) :=
  s.queryViews.entries.foldlM (emitOnlineState onlineState) (s, [])

variable [Inhabited D]

/-- What the target cache has of a target, the keys of the server's last answer and the token of
the watch stream, comes with the call. -/
def listen (path : ResourcePath) (remoteKeys : Finset ResourcePath) (resumeToken : ByteString)
    (s : LiveQueries U D) : Except Halt (LiveQueries U D × List (ViewSnapshot D)) := do
  hardAssert (path ∉ s.queryViews) "We already listen to query"
  let s := s.allocateTarget path
  let documents ← s.persistence.localStore.getDocumentsMatchingCollectionQuery path
  let view := View.start path remoteKeys
  let viewDocChanges ← view.computeDocumentChanges documents
  let (view, snapshot, limboChanges) ← view.applyChanges viewDocChanges
    (some (.createSynthesizedTargetChange false resumeToken))
  let limboTargets ← LimboTargets.updateTrackedLimboDocuments limboChanges path
    (s.limboTargets.listen (.query path))
  match snapshot with
  | none => .error (.hardAssert
      "ApplyChanges to documents for new view should always return a snapshot")
  | some snapshot =>
      .ok ({ s with queryViews := s.queryViews.insert path view, limboTargets }, [snapshot])

omit [DecidableEq D] [Inhabited D] in
def removeAndCleanupTarget (path : ResourcePath) (s : LiveQueries U D) :
    Except Halt (LiveQueries U D) := do
  let limboTargets ← s.limboTargets.removeTarget path
  .ok { s with queryViews := s.queryViews.erase path, limboTargets }

omit [DecidableEq D] [Inhabited D] in
def stopListening (path : ResourcePath) (s : LiveQueries U D) :
    Except Halt (LiveQueries U D) := do
  hardAssert (path ∈ s.queryViews) "Trying to stop listening to a query not found"
  let s ← releaseTarget path s
  let limboTargets ← s.limboTargets.stopListening (.query path)
  removeAndCleanupTarget path { s with limboTargets }

variable [DecidableEq U]

def change (e : MemoryPersistence.Event U D) (targetChanges : TargetChangeMap)
    (s : LiveQueries U D) : Except Halt (LiveQueries U D × List (ViewSnapshot D)) := do
  let (persistence, changes) ← s.persistence.handle e
  emitNewSnapshotsAndNotifyLocalStore (mapValues OverlayedDocument.document changes) targetChanges
    { s with persistence }

def writeMutations (mutations : List (Mutation D)) (s : LiveQueries U D) :
    Except Halt (LiveQueries U D × List (ViewSnapshot D)) :=
  s.change (.write mutations) ∅

def handleSuccessfulWrite (result : MutationBatchResult D) (s : LiveQueries U D) :
    Except Halt (LiveQueries U D × List (ViewSnapshot D)) :=
  s.change (.acknowledge result) ∅

def handleRejectedWrite (batchId : ℤ) (s : LiveQueries U D) :
    Except Halt (LiveQueries U D × List (ViewSnapshot D)) :=
  s.change (.reject batchId) ∅

def handleCredentialChange (user : U) (s : LiveQueries U D) :
    Except Halt (LiveQueries U D × List (ViewSnapshot D)) :=
  if s.persistence.user ≠ user then s.change (.userChange user) ∅ else .ok (s, [])

def applyRemoteEvent (targetChanges : TargetChangeMap) (updates : List (MutableDocument D))
    (snapshotVersion : SnapshotVersion) (s : LiveQueries U D) :
    Except Halt (LiveQueries U D × List (ViewSnapshot D)) := do
  let limboTargets ← s.limboTargets.noteTargetChanges targetChanges
  { s with limboTargets }.change (.remoteEvent updates snapshotVersion) targetChanges

def handleRejectedListen (target : TargetId) (s : LiveQueries U D) :
    Except Halt (LiveQueries U D × List (ViewSnapshot D)) :=
  match target with
  | .query path => do
    let s ← releaseTarget path s
    hardAssert (path ∈ s.queryViews) "queries_by_target_.at"
    let s ← removeAndCleanupTarget path s
    .ok (s, [])
  | .limbo id =>
      match s.limboTargets.activeLimboResolutionsByTarget.lookup id with
      | none => .error (.hardAssert "Tried to release a non-existent target")
      | some resolution =>
          applyRemoteEvent ∅ [.noDocument resolution.key .none] .none
            { s with limboTargets := s.limboTargets.resolutionFailed id resolution }

def processTargetError (target : TargetId) (s : LiveQueries U D) :
    Except Halt (LiveQueries U D × List (ViewSnapshot D)) :=
  if target ∈ s.limboTargets.listenTargets then
    handleRejectedListen target { s with limboTargets := s.limboTargets.forget target }
  else .ok (s, [])

omit [DecidableEq D] [Inhabited D] [DecidableEq U] in
inductive Event (U D : Type)
  | listen (path : ResourcePath) (remoteKeys : Finset ResourcePath) (resumeToken : ByteString)
  | stopListening (path : ResourcePath)
  | write (mutations : List (Mutation D))
  | acknowledge (result : MutationBatchResult D)
  | reject (batchId : ℤ)
  | remoteEvent (targetChanges : TargetChangeMap) (updates : List (MutableDocument D))
      (snapshotVersion : SnapshotVersion)
  | targetError (target : TargetId)
  | onlineState (onlineState : OnlineState)
  | userChange (user : U)
  | remove (key : ResourcePath)

def handle (s : LiveQueries U D) :
    Event U D → Except Halt (LiveQueries U D × List (ViewSnapshot D))
  | .listen path remoteKeys resumeToken => s.listen path remoteKeys resumeToken
  | .stopListening path => do
    let s ← s.stopListening path
    .ok (s, [])
  | .write mutations => s.writeMutations mutations
  | .acknowledge result => s.handleSuccessfulWrite result
  | .reject batchId => s.handleRejectedWrite batchId
  | .remoteEvent targetChanges updates snapshotVersion =>
      s.applyRemoteEvent targetChanges updates snapshotVersion
  | .targetError target => s.processTargetError target
  | .onlineState onlineState => s.handleOnlineStateChange onlineState
  | .userChange user => s.handleCredentialChange user
  -- the collector tells nobody what it drops
  | .remove key => do
    let (persistence, _) ← s.persistence.handle (.remove key)
    .ok ({ s with persistence }, [])

omit [DecidableEq D] [Inhabited D] [DecidableEq U] in
/-- What the watch stream sees to: a document is modified only for a target that has it. -/
def Promised (s : LiveQueries U D) : (_ : TargetId) × TargetChange → Prop
  | ⟨.query path, change⟩ =>
      ∀ view ∈ s.queryViews.lookup path, ∀ key ∈ change.modifiedDocuments,
        key ∈ view.syncedDocuments
  | ⟨.limbo id, change⟩ => s.limboTargets.Promised id change

omit [DecidableEq D] [Inhabited D] [DecidableEq U] in
def Admissible (s : LiveQueries U D) : Event U D → Prop
  | .listen path _ _ => path ∉ s.queryViews
  | .stopListening path => path ∈ s.queryViews
  | .write mutations => s.persistence.Admissible (.write mutations)
  | .acknowledge result => s.persistence.Admissible (.acknowledge result)
  | .reject batchId => s.persistence.Admissible (.reject batchId)
  | .remoteEvent targetChanges updates snapshotVersion =>
      s.persistence.Admissible (.remoteEvent updates snapshotVersion) ∧
        ∀ entry ∈ targetChanges.entries, s.Promised entry
  | .targetError _ | .onlineState _ | .userChange _ | .remove _ => True

omit [DecidableEq D] [Inhabited D] [DecidableEq U] in
instance decidablePromised (s : LiveQueries U D) :
    ∀ entry : (_ : TargetId) × TargetChange, Decidable (s.Promised entry)
  | ⟨.query path, change⟩ => inferInstanceAs (Decidable (∀ view ∈ s.queryViews.lookup path,
      ∀ key ∈ change.modifiedDocuments, key ∈ view.syncedDocuments))
  | ⟨.limbo id, change⟩ => inferInstanceAs (Decidable (∀ resolution ∈
      s.limboTargets.activeLimboResolutionsByTarget.lookup id,
        (change.addedDocuments ++ change.modifiedDocuments ++
          change.removedDocuments).length ≤ 1 ∧
        (change.modifiedDocuments ++ change.removedDocuments ≠ [] →
          resolution.documentReceived = true)))

omit [Inhabited D] [DecidableEq U] in
instance decidableAdmissible (s : LiveQueries U D) :
    ∀ e : Event U D, Decidable (s.Admissible e)
  | .listen path _ _ => inferInstanceAs (Decidable (path ∉ s.queryViews))
  | .stopListening path => inferInstanceAs (Decidable (path ∈ s.queryViews))
  | .write mutations => inferInstanceAs (Decidable (s.persistence.Admissible (.write mutations)))
  | .acknowledge result =>
      inferInstanceAs (Decidable (s.persistence.Admissible (.acknowledge result)))
  | .reject batchId => inferInstanceAs (Decidable (s.persistence.Admissible (.reject batchId)))
  | .remoteEvent targetChanges updates snapshotVersion => inferInstanceAs (Decidable
      (s.persistence.Admissible (.remoteEvent updates snapshotVersion) ∧
        ∀ entry ∈ targetChanges.entries, s.Promised entry))
  | .targetError _ | .onlineState _ | .userChange _ | .remove _ => isTrue trivial

def step (s : LiveQueries U D) (e : Event U D) : Option (LiveQueries U D) :=
  if s.Admissible e then (s.handle e).toOption.map Prod.fst else none

end LiveQueries

end MobileApps.Firestore

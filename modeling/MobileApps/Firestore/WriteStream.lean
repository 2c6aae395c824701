import MobileApps.Firestore.LocalRuns

/-! How a device sends the writes in its queue: the stream that carries them (`stream.cc`,
`write_stream.cc`), the pipeline of writes that wait for an answer (`remote_store.cc`), and the
callbacks of the app (`sync_engine.cc`). -/

namespace MobileApps.Firestore

variable {U C D : Type}

inductive Error
  | cancelled
  | unknown
  | invalidArgument
  | deadlineExceeded
  | notFound
  | alreadyExists
  | permissionDenied
  | resourceExhausted
  | failedPrecondition
  | aborted
  | outOfRange
  | unimplemented
  | internal
  | unavailable
  | dataLoss
  | unauthenticated
  deriving DecidableEq

/-- `none` stands for the status OK. -/
abbrev Status := Option Error

def Error.isPermanentError : Error → Bool
  | cancelled | unknown | deadlineExceeded | resourceExhausted | internal | unavailable
  | unauthenticated => false
  | invalidArgument | notFound | alreadyExists | permissionDenied | failedPrecondition | aborted
  | outOfRange | unimplemented | dataLoss => true

def Error.isPermanentWriteError (error : Error) : Bool :=
  error.isPermanentError && error ≠ aborted

inductive StreamState
  | initial
  | starting
  | opened
  | error
  | backoff
  deriving DecidableEq

inductive WriteRequest (D : Type)
  | handshake
  | write (mutations : List (Mutation D))
  deriving DecidableEq

structure WriteResponse where
  commitVersion : SnapshotVersion
  mutationResults : List SnapshotVersion
  deriving DecidableEq

structure GrpcStream (D : Type) where
  requests : List (WriteRequest D)
  responses : List WriteResponse

/-- `credentials` has the close count at each request for credentials that has no answer yet, and
`abandoned` what streams that are gone have left on its way to the server. -/
structure WriteStream (D : Type) where
  state : StreamState
  handshakeComplete : Bool
  idlenessTimer : Bool
  backoffTimer : Bool
  closeCount : ℕ
  credentials : List ℕ
  grpcStream : Option (GrpcStream D)
  abandoned : List (WriteRequest D)

namespace WriteStream

def fresh : WriteStream D := ⟨.initial, false, false, false, 0, [], none, []⟩

def isOpen (w : WriteStream D) : Bool := w.state = .opened

def isStarted (w : WriteStream D) : Bool :=
  w.state = .starting || w.state = .backoff || w.isOpen

def start (w : WriteStream D) : Except Halt (WriteStream D) :=
  if w.state = .error then .ok { w with state := .backoff, backoffTimer := true }
  else do
    hardAssert (w.state = .initial) "Already started"
    .ok { w with state := .starting, credentials := w.credentials ++ [w.closeCount] }

def inhibitBackoff (w : WriteStream D) : Except Halt (WriteStream D) := do
  hardAssert (¬ w.isStarted) "Can only cancel backoff in a stopped state"
  .ok { w with state := .initial }

def backoffElapsed (w : WriteStream D) : Except Halt (WriteStream D) := do
  hardAssert (w.state = .backoff) "Backoff elapsed but the state is another"
  let w := { w with state := .initial, backoffTimer := false }
  let w ← w.start
  hardAssert w.isStarted "Stream should have started."
  .ok w

def markIdle (w : WriteStream D) : WriteStream D :=
  if w.isOpen && !w.idlenessTimer then { w with idlenessTimer := true } else w

def write (request : WriteRequest D) (w : WriteStream D) : Except Halt (WriteStream D) := do
  hardAssert w.isOpen "Cannot write when the stream is not open."
  match w.grpcStream with
  | none => .error .nullPointer
  | some stream => .ok { w with
      idlenessTimer := false
      grpcStream := some { stream with requests := stream.requests ++ [request] } }

def writeHandshake (w : WriteStream D) : Except Halt (WriteStream D) := do
  hardAssert w.isOpen "Writing handshake requires an opened stream"
  hardAssert (¬ w.handshakeComplete) "Handshake already completed"
  w.write .handshake

def writeMutations (mutations : List (Mutation D)) (w : WriteStream D) :
    Except Halt (WriteStream D) := do
  hardAssert w.isOpen "Writing mutations requires an opened stream"
  hardAssert w.handshakeComplete "Handshake must be complete before writing mutations"
  w.write (.write mutations)

def tearDown (status : Status) (w : WriteStream D) : WriteStream D :=
  { w with
    state := if status = none then .initial else .error
    idlenessTimer := false
    backoffTimer := false
    closeCount := w.closeCount + 1
    grpcStream := none
    abandoned := w.abandoned ++ (w.grpcStream.map GrpcStream.requests).getD [] }

end WriteStream

structure SyncEngine (U C D : Type) where
  persistence : MemoryPersistence U D
  mutationCallbacks : U → AList fun _ : ℤ => C
  called : List (U × C × Status)
  isNetworkEnabled : Bool
  writePipeline : List (MutationBatch D)
  writeStream : WriteStream D

def kMaxPendingWrites : ℕ := 10

namespace SyncEngine

def start (user : U) : SyncEngine U C D :=
  ⟨.empty user, fun _ => ∅, [], true, [], .fresh⟩

def canUseNetwork (s : SyncEngine U C D) : Bool := s.isNetworkEnabled

def canAddToWritePipeline (s : SyncEngine U C D) : Bool :=
  s.canUseNetwork && s.writePipeline.length < kMaxPendingWrites

def shouldStartWriteStream (s : SyncEngine U C D) : Bool :=
  s.canUseNetwork && !s.writeStream.isStarted && !s.writePipeline.isEmpty

def startWriteStream (s : SyncEngine U C D) : Except Halt (SyncEngine U C D) := do
  hardAssert s.shouldStartWriteStream
    "StartWriteStream called when ShouldStartWriteStream is false."
  let writeStream ← s.writeStream.start
  .ok { s with writeStream }

def startIfNeeded (s : SyncEngine U C D) : Except Halt (SyncEngine U C D) :=
  if s.shouldStartWriteStream then s.startWriteStream else .ok s

def addToWritePipeline (batch : MutationBatch D) (s : SyncEngine U C D) :
    Except Halt (SyncEngine U C D) := do
  hardAssert s.canAddToWritePipeline "AddToWritePipeline called when pipeline is full"
  let s := { s with writePipeline := s.writePipeline ++ [batch] }
  if s.writeStream.isOpen && s.writeStream.handshakeComplete then
    let writeStream ← s.writeStream.writeMutations batch.mutations
    .ok { s with writeStream }
  else .ok s

def getNextMutationBatch (batchId : ℤ) (s : SyncEngine U C D) : Option (MutationBatch D) :=
  s.persistence.localStore.mutationQueue.nextMutationBatchAfterBatchId batchId

/-- The loop adds at most as many batches as the pipeline has places left. -/
def fillLoop : ℕ → ℤ → SyncEngine U C D → Except Halt (SyncEngine U C D)
  | 0, _, s => .ok s
  | places + 1, lastBatchIdRetrieved, s =>
      if ¬ s.canAddToWritePipeline then .ok s
      else
        match s.getNextMutationBatch lastBatchIdRetrieved with
        | none =>
            if s.writePipeline.isEmpty then
              .ok { s with writeStream := s.writeStream.markIdle }
            else .ok s
        | some batch => do
            let s ← s.addToWritePipeline batch
            s.fillLoop places batch.batchId

def fillWritePipeline (s : SyncEngine U C D) : Except Halt (SyncEngine U C D) := do
  let lastBatchIdRetrieved :=
    (s.writePipeline.getLast?.map MutationBatch.batchId).getD kBatchIdUnknown
  let s ← s.fillLoop (kMaxPendingWrites - s.writePipeline.length) lastBatchIdRetrieved
  s.startIfNeeded

variable [DecidableEq U]

def notifyUser (batchId : ℤ) (status : Status) (s : SyncEngine U C D) : SyncEngine U C D :=
  let user := s.persistence.user
  match (s.mutationCallbacks user).lookup batchId with
  | none => s
  | some callback =>
      { s with
        called := s.called ++ [(user, callback, status)]
        mutationCallbacks := Function.update s.mutationCallbacks user
          ((s.mutationCallbacks user).erase batchId) }

variable [Inhabited D]

def writeMutations (mutations : List (Mutation D)) (callback : C) (s : SyncEngine U C D) :
    Except Halt (SyncEngine U C D) := do
  let (store, batch, _) ← s.persistence.localStore.writeLocally mutations
  let user := s.persistence.user
  let callbacks := s.mutationCallbacks user
  -- `insert` keeps what is there
  let callbacks := if (callbacks.lookup batch.batchId).isSome then callbacks
    else callbacks.insert batch.batchId callback
  let s := { s with
    persistence := s.persistence.withLocalStore store
    mutationCallbacks := Function.update s.mutationCallbacks user callbacks }
  s.fillWritePipeline

def handleSuccessfulWrite (result : MutationBatchResult D) (s : SyncEngine U C D) :
    Except Halt (SyncEngine U C D) := do
  let s := s.notifyUser result.batch.batchId none
  let (store, _) ← s.persistence.localStore.acknowledgeBatch result
  .ok { s with persistence := s.persistence.withLocalStore store }

def handleRejectedWrite (batchId : ℤ) (error : Error) (s : SyncEngine U C D) :
    Except Halt (SyncEngine U C D) := do
  let (store, _) ← s.persistence.localStore.rejectBatch batchId
  let s := { s with persistence := s.persistence.withLocalStore store }
  .ok (s.notifyUser batchId (some error))

def onWriteStreamHandshakeComplete (s : SyncEngine U C D) : Except Halt (SyncEngine U C D) := do
  let writeStream ← s.writePipeline.foldlM (fun (w : WriteStream D) (batch : MutationBatch D) =>
    w.writeMutations batch.mutations) s.writeStream
  .ok { s with writeStream }

def onWriteStreamMutationResult (response : WriteResponse) (s : SyncEngine U C D) :
    Except Halt (SyncEngine U C D) :=
  match s.writePipeline with
  | [] => .error (.hardAssert "Got result for empty write pipeline")
  | batch :: rest =>
      let s := { s with writePipeline := rest }
      if sizes : batch.mutations.length = response.mutationResults.length then do
        let s ← s.handleSuccessfulWrite
          ⟨batch, response.commitVersion, response.mutationResults, sizes⟩
        s.fillWritePipeline
      else .error (.hardAssert "Number of mutations sent must equal results received")

def onStreamRead (response : WriteResponse) (s : SyncEngine U C D) :
    Except Halt (SyncEngine U C D) := do
  hardAssert s.writeStream.isStarted "OnStreamRead called for a stopped stream."
  if s.writeStream.handshakeComplete then s.onWriteStreamMutationResult response
  else
    let s := { s with writeStream := { s.writeStream with handshakeComplete := true } }
    s.onWriteStreamHandshakeComplete

def handleWriteError (error : Error) (s : SyncEngine U C D) : Except Halt (SyncEngine U C D) :=
  if ¬ error.isPermanentWriteError then .ok s
  else
    match s.writePipeline with
    | [] => .error .nullPointer
    | batch :: rest => do
      let s := { s with writePipeline := rest }
      let writeStream ← s.writeStream.inhibitBackoff
      let s := { s with writeStream }
      let s ← s.handleRejectedWrite batch.batchId error
      s.fillWritePipeline

def onWriteStreamClose (status : Status) (s : SyncEngine U C D) :
    Except Halt (SyncEngine U C D) := do
  let s ←
    match status with
    | none => do
      hardAssert (¬ s.shouldStartWriteStream)
        "Write stream was stopped gracefully while still needed."
      .ok s
    | some error =>
        -- an error before the end of the handshake concerns the stream token only
        if s.writePipeline.isEmpty = false ∧ s.writeStream.handshakeComplete then
          s.handleWriteError error
        else .ok s
  s.startIfNeeded

def close (status : Status) (s : SyncEngine U C D) : Except Halt (SyncEngine U C D) :=
  if status = none ∧ ¬ s.writeStream.isStarted then .ok s
  else do
    hardAssert s.writeStream.isStarted "Trying to close a non-started stream"
    let s := { s with writeStream := s.writeStream.tearDown status }
    let s ← s.onWriteStreamClose status
    .ok { s with writeStream := { s.writeStream with handshakeComplete := false } }

def resumeStartWithCredentials (auth : Status) (s : SyncEngine U C D) :
    Except Halt (SyncEngine U C D) := do
  hardAssert (s.writeStream.state = .starting) "State should still be 'Starting'"
  match auth with
  | some error => s.close (some error)
  | none => do
    let writeStream := { s.writeStream with state := .opened, grpcStream := some ⟨[], []⟩ }
    let writeStream ← writeStream.writeHandshake
    .ok { s with writeStream }

/-- The answer to a request for credentials, which counts unless the stream was closed since. -/
def onCredentials (request : ℕ) (auth : Status) (s : SyncEngine U C D) :
    Except Halt (SyncEngine U C D) :=
  let s' := { s with writeStream :=
    { s.writeStream with credentials := s.writeStream.credentials.erase request } }
  if s.writeStream.closeCount ≠ request then .ok s' else s'.resumeStartWithCredentials auth

def enableNetwork (s : SyncEngine U C D) : Except Halt (SyncEngine U C D) :=
  { s with isNetworkEnabled := true }.fillWritePipeline

def disableNetworkInternal (s : SyncEngine U C D) : Except Halt (SyncEngine U C D) := do
  let s ← s.close none
  .ok { s with writePipeline := [] }

def disableNetwork (s : SyncEngine U C D) : Except Halt (SyncEngine U C D) :=
  { s with isNetworkEnabled := false }.disableNetworkInternal

def restartNetwork (s : SyncEngine U C D) : Except Halt (SyncEngine U C D) := do
  let s := { s with isNetworkEnabled := false }
  let s ← s.disableNetworkInternal
  let writeStream ← s.writeStream.inhibitBackoff
  let s := { s with writeStream }
  s.enableNetwork

def handleCredentialChange (user : U) (s : SyncEngine U C D) :
    Except Halt (SyncEngine U C D) := do
  let s ←
    if s.persistence.user = user then .ok s
    else do
      let (persistence, _) ← s.persistence.handleUserChange user
      .ok { s with persistence }
  if s.canUseNetwork then s.restartNetwork else .ok s

end SyncEngine

end MobileApps.Firestore

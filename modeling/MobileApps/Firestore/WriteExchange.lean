import MobileApps.Firestore.WriteStream
import MobileApps.Library.Pipelining

/-! A device that sends its users' writes, and a server that serves them in the order in which they
come in on a stream. Streams break at any time, and what is still on its way then may or may not
reach the server; the answers on their way are lost. -/

namespace MobileApps.Firestore

open Library.Runs Library.Pipelining

variable {U C D : Type}

inductive Verdict
  | committed (commitVersion : SnapshotVersion) (mutationResults : List SnapshotVersion)
  | refused (error : Error)
  deriving DecidableEq

def Verdict.status : Verdict → Status
  | committed .. => none
  | refused error => some error

/-- `issued` has the writes of each user with their callbacks, and `log` what the server did, both
from the first to the last. -/
structure WriteExchange (U C D : Type) where
  engine : SyncEngine U C D
  issued : U → List (C × List (Mutation D))
  log : List (List (Mutation D) × Verdict)

namespace WriteExchange

inductive Event (U C D : Type)
  | write (mutations : List (Mutation D)) (callback : C)
  | credentials (request : ℕ) (auth : Status)
  | serve (commitVersion : SnapshotVersion) (mutationResults : List SnapshotVersion)
  | serveAbandoned (i : ℕ) (commitVersion : SnapshotVersion)
      (mutationResults : List SnapshotVersion)
  | read
  | refuse (error : Error)
  | finish (status : Status)
  | backoffElapsed
  | idle
  | enableNetwork
  | disableNetwork
  | connectivityChange
  | credentialChange (user : U)
  | remoteEvent (updates : List (MutableDocument D)) (snapshotVersion : SnapshotVersion)
  | remove (key : ResourcePath)

def start (user : U) : WriteExchange U C D := ⟨.start user, fun _ => [], []⟩

def Answers (results : List SnapshotVersion) : WriteRequest D → Prop
  | .handshake => True
  | .write mutations => results.length = mutations.length

instance decidableAnswers (results : List SnapshotVersion) (request : WriteRequest D) :
    Decidable (Answers results request) := by
  cases request <;> unfold Answers <;> infer_instance

/-- A permanent error is the server's answer to the first write on the stream, after the answers to
those before. The status OK comes only when no write waits for its answer. -/
def Ends (x : WriteExchange U C D) (stream : GrpcStream D) : Status → Prop
  | none => x.engine.writePipeline = []
  | some error => error.isPermanentWriteError = false ∨
      x.engine.writeStream.handshakeComplete = false ∨
        (stream.requests = [] ∧ stream.responses = [])

instance decidableEnds [DecidableEq D] (x : WriteExchange U C D) (stream : GrpcStream D)
    (status : Status) : Decidable (x.Ends stream status) := by
  cases status <;> unfold Ends <;> infer_instance

def Enabled (x : WriteExchange U C D) : Event U C D → Prop
  | .write mutations _ => mutations ≠ [] ∧ ∀ m ∈ mutations, m.precondition = .none
  | .credentials request _ => request ∈ x.engine.writeStream.credentials
  | .serve _ results => ∃ stream ∈ x.engine.writeStream.grpcStream,
      ∃ request ∈ stream.requests.head?, Answers results request
  | .serveAbandoned i _ results => ∃ request ∈ x.engine.writeStream.abandoned[i]?,
      Answers results request
  | .read => ∃ stream ∈ x.engine.writeStream.grpcStream, stream.responses ≠ []
  | .refuse error => error.isPermanentWriteError = true ∧
      ∃ stream ∈ x.engine.writeStream.grpcStream, stream.responses = [] ∧
        ∃ request ∈ stream.requests.head?, request ≠ .handshake
  | .finish status => ∃ stream ∈ x.engine.writeStream.grpcStream, x.Ends stream status
  | .backoffElapsed => x.engine.writeStream.backoffTimer = true
  | .idle => x.engine.writeStream.idlenessTimer = true
  | .remoteEvent _ snapshotVersion => snapshotVersion ≠ .none ∧
      x.engine.persistence.lastRemoteSnapshotVersion ≤ snapshotVersion
  | .enableNetwork | .disableNetwork | .connectivityChange | .credentialChange _
  | .remove _ => True

instance decidableEnabled [DecidableEq D] (x : WriteExchange U C D) (e : Event U C D) :
    Decidable (x.Enabled e) := by
  cases e <;> unfold Enabled <;> infer_instance

def served (request : WriteRequest D) (commitVersion : SnapshotVersion)
    (results : List SnapshotVersion) : List (List (Mutation D) × Verdict) :=
  match request with
  | .handshake => []
  | .write mutations => [(mutations, .committed commitVersion results)]

def takeRequest (x : WriteExchange U C D) (answer : List WriteResponse)
    (record : WriteRequest D → List (List (Mutation D) × Verdict)) : WriteExchange U C D :=
  match x.engine.writeStream.grpcStream with
  | none => x
  | some stream =>
      match stream.requests with
      | [] => x
      | request :: requests =>
          { x with
            engine := { x.engine with writeStream := { x.engine.writeStream with
              grpcStream := some ⟨requests, stream.responses ++ answer⟩ } }
            log := x.log ++ record request }

def refusal (error : Error) : WriteRequest D → List (List (Mutation D) × Verdict)
  | .handshake => []
  | .write mutations => [(mutations, .refused error)]

variable [DecidableEq U] [Inhabited D]

def handle (x : WriteExchange U C D) : Event U C D → Except Halt (WriteExchange U C D)
  | .write mutations callback => do
    let engine ← x.engine.writeMutations mutations callback
    let user := x.engine.persistence.user
    .ok { x with
      engine
      issued := Function.update x.issued user (x.issued user ++ [(callback, mutations)]) }
  | .credentials request auth => do
    let engine ← x.engine.onCredentials request auth
    .ok { x with engine }
  | .serve commitVersion results =>
    .ok (x.takeRequest [⟨commitVersion, results⟩] fun request =>
      served request commitVersion results)
  | .serveAbandoned i commitVersion results =>
    match x.engine.writeStream.abandoned[i]? with
    | none => .ok x
    | some request => .ok { x with log := x.log ++ served request commitVersion results }
  | .read =>
    match x.engine.writeStream.grpcStream with
    | none => .ok x
    | some stream =>
        match stream.responses with
        | [] => .ok x
        | response :: responses => do
          let writeStream := { x.engine.writeStream with
            grpcStream := some ⟨stream.requests, responses⟩ }
          let engine ← { x.engine with writeStream }.onStreamRead response
          .ok { x with engine }
  | .refuse error => do
    let x := x.takeRequest [] (refusal error)
    let engine ← x.engine.close (some error)
    .ok { x with engine }
  | .finish status => do
    let engine ← x.engine.close status
    .ok { x with engine }
  | .backoffElapsed => do
    let writeStream ← x.engine.writeStream.backoffElapsed
    .ok { x with engine := { x.engine with writeStream } }
  | .idle => do
    let engine ← x.engine.close none
    .ok { x with engine }
  | .enableNetwork => do
    let engine ← x.engine.enableNetwork
    .ok { x with engine }
  | .disableNetwork => do
    let engine ← x.engine.disableNetwork
    .ok { x with engine }
  | .connectivityChange => do
    let engine ← if x.engine.canUseNetwork then x.engine.restartNetwork else .ok x.engine
    .ok { x with engine }
  | .credentialChange user => do
    let engine ← x.engine.handleCredentialChange user
    .ok { x with engine }
  | .remoteEvent updates snapshotVersion => do
    let (persistence, _) ← x.engine.persistence.handle (.remoteEvent updates snapshotVersion)
    .ok { x with engine := { x.engine with persistence } }
  | .remove key => do
    let (persistence, _) ← x.engine.persistence.handle (.remove key)
    .ok { x with engine := { x.engine with persistence } }

def step [DecidableEq D] (x : WriteExchange U C D) (e : Event U C D) :
    Option (WriteExchange U C D) :=
  if x.Enabled e then (x.handle e).toOption else none

end WriteExchange

end MobileApps.Firestore

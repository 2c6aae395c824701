import MobileApps.Firestore.Paths
import MobileApps.Library.Runs
import Mathlib.Data.Int.Notation
import Mathlib.Data.List.Dedup
import Mathlib.Data.List.Induction

/-! Documents, mutations and batches in the Firestore SDK under Pods: `mutable_document.cc`,
`precondition.cc`, `set_mutation.cc`, `delete_mutation.cc`, `mutation.cc`, `mutation_batch.cc`,
`mutation_batch_result.cc`. The apps send whole documents and deletions only, so there are no
patches and no field transforms. -/

namespace MobileApps.Firestore

/-- Where the SDK stops: at a `HARD_ASSERT`, at the use of what is not there, or at a patch, which
is outside of this model. -/
inductive Halt
  | hardAssert (message : String)
  | nullPointer
  | patch
  deriving DecidableEq

def hardAssert (p : Prop) [Decidable p] (message : String) : Except Halt Unit :=
  if p then .ok () else .error (.hardAssert message)

abbrev SnapshotVersion := ℕ

def SnapshotVersion.none : SnapshotVersion := 0

inductive DocumentType
  | invalid
  | foundDocument
  | noDocument
  | unknownDocument
  deriving DecidableEq

inductive DocumentState
  | hasLocalMutations
  | hasCommittedMutations
  | synced
  deriving DecidableEq

structure MutableDocument (D : Type) where
  key : ResourcePath
  documentType : DocumentType
  version : SnapshotVersion
  readTime : SnapshotVersion
  value : D
  documentState : DocumentState
  deriving DecidableEq

variable {D : Type}

namespace MutableDocument

/-- `operator==`, which leaves the read time out. -/
def Same (d e : MutableDocument D) : Prop :=
  d.key = e.key ∧ d.documentType = e.documentType ∧ d.version = e.version ∧
    d.documentState = e.documentState ∧ d.value = e.value

def convertToFoundDocument (version : SnapshotVersion) (value : D) (d : MutableDocument D) :
    MutableDocument D :=
  { d with version, documentType := .foundDocument, value, documentState := .synced }

def setHasLocalMutations (d : MutableDocument D) : MutableDocument D :=
  { d with documentState := .hasLocalMutations, version := .none }

def setHasCommittedMutations (d : MutableDocument D) : MutableDocument D :=
  { d with documentState := .hasCommittedMutations }

def withReadTime (readTime : SnapshotVersion) (d : MutableDocument D) : MutableDocument D :=
  { d with readTime }

def isValidDocument (d : MutableDocument D) : Bool := d.documentType ≠ .invalid
def isFoundDocument (d : MutableDocument D) : Bool := d.documentType = .foundDocument
def isNoDocument (d : MutableDocument D) : Bool := d.documentType = .noDocument
def hasLocalMutations (d : MutableDocument D) : Bool := d.documentState = .hasLocalMutations

def hasPendingWrites (d : MutableDocument D) : Bool :=
  d.documentState = .hasLocalMutations ∨ d.documentState = .hasCommittedMutations

variable [Inhabited D]

/-- A fresh document holds the default, empty value. -/
def invalidDocument (key : ResourcePath) : MutableDocument D :=
  ⟨key, .invalid, .none, .none, default, .synced⟩

def convertToNoDocument (version : SnapshotVersion) (d : MutableDocument D) : MutableDocument D :=
  { d with version, documentType := .noDocument, value := default, documentState := .synced }

end MutableDocument

inductive Precondition
  | none
  | exists_ (expected : Bool)
  | updateTime (time : SnapshotVersion)
  deriving DecidableEq

def Precondition.isValidFor (d : MutableDocument D) : Precondition → Bool
  | updateTime time => d.isFoundDocument && d.version = time
  | exists_ expected => expected = d.isFoundDocument
  | none => true

inductive Mutation (D : Type)
  | set (key : ResourcePath) (value : D) (precondition : Precondition)
  | delete (key : ResourcePath) (precondition : Precondition)
  deriving DecidableEq

abbrev FieldPath := List Library.Unicode.Text
abbrev FieldMask := List FieldPath

namespace Mutation

def key : Mutation D → ResourcePath
  | set k _ _ | delete k _ => k

def precondition : Mutation D → Precondition
  | set _ _ p | delete _ p => p

def verifyKeyMatches (m : Mutation D) (d : MutableDocument D) : Except Halt Unit :=
  hardAssert (d.key = m.key) "Can only apply a mutation to a document with the same key"

variable [Inhabited D]

/-- Gives the document and the mask of the fields mutated so far; no mask stands for all. -/
def applyToLocalView (m : Mutation D) (d : MutableDocument D) (previousMask : Option FieldMask) :
    Except Halt (MutableDocument D × Option FieldMask) := do
  m.verifyKeyMatches d
  if m.precondition.isValidFor d then
    match m with
    | set _ value _ =>
        .ok ((d.convertToFoundDocument d.version value).setHasLocalMutations, none)
    | delete .. => .ok ((d.convertToNoDocument .none).setHasLocalMutations, none)
  else .ok (d, previousMask)

def applyToRemoteDocument (m : Mutation D) (d : MutableDocument D) (version : SnapshotVersion) :
    Except Halt (MutableDocument D) := do
  m.verifyKeyMatches d
  match m with
  | set _ value _ => .ok (d.convertToFoundDocument version value).setHasCommittedMutations
  | delete .. => .ok (d.convertToNoDocument version).setHasCommittedMutations

omit [Inhabited D] in
def calculateOverlayMutation (d : MutableDocument D) (mask : Option FieldMask) :
    Except Halt (Option (Mutation D)) :=
  if !d.hasLocalMutations then .ok none
  else
    match mask with
    | none => .ok (some (if d.isNoDocument then delete d.key .none else set d.key d.value .none))
    | some _ => .error .patch

end Mutation

structure MutationBatch (D : Type) where
  batchId : ℤ
  mutations : List (Mutation D)
  nonempty : mutations ≠ []
  deriving DecidableEq

def MutationBatch.keys (b : MutationBatch D) : List ResourcePath :=
  (b.mutations.map Mutation.key).dedup

structure MutationBatchResult (D : Type) where
  batch : MutationBatch D
  commitVersion : SnapshotVersion
  mutationResults : List SnapshotVersion
  sizes : batch.mutations.length = mutationResults.length

def MutationBatchResult.resultsOn (r : MutationBatchResult D) (key : ResourcePath) :
    List (Mutation D × SnapshotVersion) :=
  (r.batch.mutations.zip r.mutationResults).filter fun result => result.1.key = key

def MutationBatchResult.docVersions (r : MutationBatchResult D) (key : ResourcePath) :
    Option SnapshotVersion :=
  (r.resultsOn key).getLast?.map Prod.snd

variable [Inhabited D]

def MutationBatch.applyToLocalView (b : MutationBatch D) (d : MutableDocument D)
    (mutatedFields : Option FieldMask) : Except Halt (MutableDocument D × Option FieldMask) :=
  b.mutations.foldlM (fun s m =>
    if m.key = s.1.key then m.applyToLocalView s.1 s.2 else .ok s) (d, mutatedFields)

def MutationBatch.applyToLocalDocument (b : MutationBatch D) (d : MutableDocument D)
    (previouslyMutatedFields : Option FieldMask) :
    Except Halt (MutableDocument D × Option FieldMask) :=
  b.applyToLocalView d previouslyMutatedFields

def MutationBatch.applyToRemoteDocument (b : MutationBatch D) (d : MutableDocument D)
    (results : List SnapshotVersion) : Except Halt (MutableDocument D) := do
  hardAssert (results.length = b.mutations.length)
    "Mismatch between mutations length and results length"
  (b.mutations.zip results).foldlM (fun d result =>
    if result.1.key = d.key then result.1.applyToRemoteDocument d result.2 else .ok d) d

def Mutation.Unconditional (m : Mutation D) : Prop := m.precondition = .none

def Mutation.outcome (d : MutableDocument D) : Mutation D → MutableDocument D
  | .set _ value _ => (d.convertToFoundDocument d.version value).setHasLocalMutations
  | .delete .. => (d.convertToNoDocument .none).setHasLocalMutations

omit [Inhabited D] in
def lastOn (key : ResourcePath) (ms : List (Mutation D)) : Option (Mutation D) :=
  (ms.filter fun m => m.key = key).getLast?

def replay (ms : List (Mutation D)) (d : MutableDocument D) : MutableDocument D :=
  match lastOn d.key ms with
  | none => d
  | some m => m.outcome d

@[simp] lemma outcome_key (m : Mutation D) (d : MutableDocument D) :
    (m.outcome d).key = d.key := by
  cases m <;> rfl

@[simp] lemma outcome_hasLocalMutations (m : Mutation D) (d : MutableDocument D) :
    (m.outcome d).hasLocalMutations = true := by
  cases m <;> rfl

lemma outcome_outcome (m m' : Mutation D) (d : MutableDocument D) :
    m.outcome (m'.outcome d) = m.outcome d := by
  cases m <;> cases m' <;> rfl

lemma outcome_same (m : Mutation D) {d e : MutableDocument D} (h : d.key = e.key) :
    (m.outcome d).Same (m.outcome e) := by
  cases m <;> exact ⟨h, rfl, rfl, rfl, rfl⟩

@[simp] lemma replay_key (ms : List (Mutation D)) (d : MutableDocument D) :
    (replay ms d).key = d.key := by
  unfold replay
  split
  · rfl
  · exact outcome_key _ d

omit [Inhabited D] in
lemma lastOn_append (k : ResourcePath) (ms ns : List (Mutation D)) :
    lastOn k (ms ++ ns) = (lastOn k ns).or (lastOn k ms) := by
  rw [lastOn, List.filter_append, List.getLast?_append]
  rfl

omit [Inhabited D] in
lemma lastOn_singleton (m : Mutation D) (k : ResourcePath) :
    lastOn k [m] = if m.key = k then some m else none := by
  by_cases h : m.key = k <;> simp [lastOn, h]

omit [Inhabited D] in
lemma mem_of_lastOn {k : ResourcePath} {ms : List (Mutation D)} {m : Mutation D}
    (h : lastOn k ms = some m) : m ∈ ms ∧ m.key = k := by
  simpa using List.mem_of_getLast? h

omit [Inhabited D] in
lemma lastOn_eq_none {k : ResourcePath} {ms : List (Mutation D)} :
    lastOn k ms = none ↔ ∀ m ∈ ms, m.key ≠ k := by
  simp [lastOn]

lemma replay_append (ms ns : List (Mutation D)) (d : MutableDocument D) :
    replay (ms ++ ns) d = replay ns (replay ms d) := by
  rw [replay, lastOn_append, replay, replay_key]
  cases hn : lastOn d.key ns with
  | none => rfl
  | some n =>
    rw [replay]
    cases lastOn d.key ms with
    | none => rfl
    | some m => exact (outcome_outcome n m d).symm

lemma applyToLocalView_eq {m : Mutation D} (hm : m.Unconditional) {d : MutableDocument D}
    (hk : m.key = d.key) (mask : Option FieldMask) :
    m.applyToLocalView d mask = .ok (m.outcome d, none) := by
  have hv : m.verifyKeyMatches d = .ok () := if_pos hk.symm
  have hp : m.precondition.isValidFor d = true := by rw [hm]; rfl
  cases m <;> simp only [Mutation.applyToLocalView, hv, bind, Except.bind, hp, if_true,
    Mutation.outcome]

lemma applyMutations_eq {ms : List (Mutation D)} (hms : ∀ m ∈ ms, m.Unconditional)
    (d : MutableDocument D) (mask : Option FieldMask) :
    ms.foldlM (fun s m =>
      if m.key = s.1.key then m.applyToLocalView s.1 s.2 else .ok s) (d, mask) =
      .ok (replay ms d, if lastOn d.key ms = none then mask else none) := by
  induction ms using List.reverseRecOn with
  | nil => rfl
  | append_singleton ms m ih =>
    have hm : m.Unconditional := hms m (by simp)
    have hr : (replay ms d).key = d.key := replay_key ms d
    rw [List.foldlM_append, ih fun n hn => hms n (by simp [hn]), replay_append, lastOn_append]
    generalize replay ms d = e at hr ⊢
    rw [← hr]
    by_cases hk : m.key = e.key
    · have ha := applyToLocalView_eq hm hk (if lastOn e.key ms = none then mask else none)
      simp [bind, Except.bind, hk, ha, replay, lastOn_singleton, pure, Except.pure]
    · simp [bind, Except.bind, hk, replay, lastOn_singleton, pure, Except.pure]

lemma MutationBatch.applyToLocalView_eq {b : MutationBatch D}
    (hb : ∀ m ∈ b.mutations, m.Unconditional) (d : MutableDocument D) (mask : Option FieldMask) :
    b.applyToLocalView d mask =
      .ok (replay b.mutations d, if lastOn d.key b.mutations = none then mask else none) :=
  applyMutations_eq hb d mask

omit [Inhabited D] in
lemma MutationBatch.mem_keys {b : MutationBatch D} {k : ResourcePath} :
    k ∈ b.keys ↔ lastOn k b.mutations ≠ none := by
  simp [MutationBatch.keys, lastOn_eq_none]

lemma calculateOverlayMutation_outcome {m : Mutation D} (hm : m.Unconditional)
    {d : MutableDocument D} (hk : m.key = d.key) :
    Mutation.calculateOverlayMutation (m.outcome d) none = .ok (some m) := by
  cases m with
  | set k v p =>
    obtain rfl : p = .none := hm
    obtain rfl : k = d.key := hk
    rfl
  | delete k p =>
    obtain rfl : p = .none := hm
    obtain rfl : k = d.key := hk
    rfl

end MobileApps.Firestore

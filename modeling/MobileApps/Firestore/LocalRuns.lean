import MobileApps.Firestore.ServerAnswers

/-! Every run of the local store of a device: writes of the user, answers of the server to them,
documents from the server, documents that the garbage collector drops, and changes of the user. -/

namespace MobileApps.Firestore

open Library.Runs

variable {U D : Type}

lemma MutationQueue.start_queue (q : MutationQueue D) : q.start.queue = q.queue := by
  unfold MutationQueue.start
  split <;> rfl

namespace MemoryPersistence

def storeOf (user : U) (p : MemoryPersistence U D) : LocalStore D :=
  ⟨p.remoteDocumentCache, p.lastRemoteSnapshotVersion, p.mutationQueues user,
    p.documentOverlayCaches user⟩

def Consistent (p : MemoryPersistence U D) : Prop := ∀ user, (p.storeOf user).Consistent

lemma empty_consistent (user : U) : (empty user : MemoryPersistence U D).Consistent :=
  fun _ => LocalStore.empty_consistent

lemma Consistent.current {p : MemoryPersistence U D} (h : p.Consistent) :
    p.localStore.Consistent :=
  h p.user

variable [DecidableEq U]

@[simp] lemma localStore_withLocalStore (p : MemoryPersistence U D) (s : LocalStore D) :
    (p.withLocalStore s).localStore = s := by
  simp [localStore, withLocalStore]

lemma Consistent.withLocalStore {p : MemoryPersistence U D} (h : p.Consistent)
    {s : LocalStore D} (hs : s.Consistent) : (p.withLocalStore s).Consistent := by
  intro user
  by_cases hu : user = p.user
  · subst hu
    simpa [storeOf, MemoryPersistence.withLocalStore] using hs
  · have hstore := h user
    -- what the other users have in store does not depend on the documents of the server
    exact ⟨by simpa [storeOf, MemoryPersistence.withLocalStore, hu] using hstore.indexed,
      by simpa [storeOf, MemoryPersistence.withLocalStore, hu] using hstore.unconditional,
      by simpa [storeOf, MemoryPersistence.withLocalStore, hu] using hstore.coherent,
      by simpa [storeOf, MemoryPersistence.withLocalStore, hu] using hstore.overlays,
      hs.remote⟩

variable [Inhabited D]

omit [Inhabited D] in
lemma startMutationQueue_queue (p : MemoryPersistence U D) (user u : U) :
    ((p.startMutationQueue user).mutationQueues u).queue = (p.mutationQueues u).queue := by
  by_cases hu : u = user
  · subst hu
    simp [startMutationQueue, MutationQueue.start_queue]
  · simp [startMutationQueue, hu]

omit [Inhabited D] in
lemma Consistent.startMutationQueue {p : MemoryPersistence U D} (h : p.Consistent) (user : U) :
    (p.startMutationQueue user).Consistent := by
  intro u
  have hqueue := startMutationQueue_queue p user u
  refine ⟨?_, hqueue ▸ (h u).unconditional, (h u).coherent, fun k => ?_, (h u).remote⟩
  · by_cases hu : u = user
    · subst hu
      simpa [storeOf, MemoryPersistence.startMutationQueue] using
        MutationQueue.start_indexed (h u).indexed
    · simpa [storeOf, MemoryPersistence.startMutationQueue, hu] using (h u).indexed
  · exact ((h u).overlays k).trans (congrArg (overlayOf · k) hqueue.symm)

omit [DecidableEq U] [Inhabited D] in
lemma mem_changedKeys {batches : List (MutationBatch D)} {k : ResourcePath} :
    k ∈ changedKeys batches ↔ ∃ b ∈ batches, k ∈ b.keys := by
  simp only [changedKeys, List.mem_dedup, List.mem_map, List.mem_flatMap,
    MutationQueue.mem_batch_keys]
  tauto

lemma handleUserChange_eq {p : MemoryPersistence U D} (h : p.Consistent) (user : U) :
    ∃ p' changes, p.handleUserChange user = .ok (p', changes) ∧ p'.Consistent ∧ p'.user = user ∧
      (∀ u, (p'.mutationQueues u).queue = (p.mutationQueues u).queue) ∧
      LocalStore.Reports changes p.localStore p'.localStore := by
  have hstarted := h.startMutationQueue user
  obtain ⟨c, changes, hviews, hc, hlookup⟩ := LocalStore.getDocuments_eq hstarted.current
    (changedKeys ((p.mutationQueues p.user).queue ++
      ((p.startMutationQueue user).mutationQueues user).queue))
  have hreports : LocalStore.Reports changes p.localStore
      { (p.startMutationQueue user).localStore with documentOverlayCache := c } := by
    refine .of_keys _ hlookup fun k hk => ?_
    -- neither queue has a write on the document
    have hnone : ∀ queue, (∀ b ∈ queue, b ∈ (p.mutationQueues p.user).queue ++
        ((p.startMutationQueue user).mutationQueues user).queue) → overlayOf queue k = none :=
      fun queue hq => overlayOf_eq_none.mpr fun b hb hkb =>
        hk (mem_changedKeys.mpr ⟨b, hq b hb, hkb⟩)
    rw [LocalStore.view_eq hc.remote, LocalStore.view_eq h.current.remote,
      hnone p.localStore.mutationQueue.queue fun b hb => List.mem_append_left _ hb,
      hnone (p.startMutationQueue user).localStore.mutationQueue.queue
        fun b hb => List.mem_append_right _ hb]
    rfl
  refine ⟨_, changes, ?_, hstarted.withLocalStore hc, rfl, fun u => ?_, ?_⟩
  · have huser : (p.startMutationQueue user).user = user := rfl
    simp only [handleUserChange, bind, Except.bind, huser, hviews]
  · have hqueue := startMutationQueue_queue p user u
    by_cases hu : u = user
    · subst hu
      simp [withLocalStore, localStore, hqueue]
    · simp [withLocalStore, localStore, MemoryPersistence.startMutationQueue, hu]
  · rw [localStore_withLocalStore]
    exact hreports

omit [DecidableEq U] [Inhabited D] in
inductive Event (U D : Type)
  | write (mutations : List (Mutation D))
  | acknowledge (result : MutationBatchResult D)
  | reject (batchId : ℤ)
  | remoteEvent (updates : List (MutableDocument D)) (snapshotVersion : SnapshotVersion)
  | remove (key : ResourcePath)
  | userChange (user : U)

def handle (p : MemoryPersistence U D) :
    Event U D → Except Halt (MemoryPersistence U D × OverlayedDocumentMap D)
  | .write mutations => do
    let (s, _, changes) ← p.localStore.writeLocally mutations
    .ok (p.withLocalStore s, changes)
  | .acknowledge result => do
    let (s, changes) ← p.localStore.acknowledgeBatch result
    .ok (p.withLocalStore s, changes)
  | .reject batchId => do
    let (s, changes) ← p.localStore.rejectBatch batchId
    .ok (p.withLocalStore s, changes)
  | .remoteEvent updates snapshotVersion => do
    let (s, changes) ← p.localStore.applyRemoteEvent updates snapshotVersion
    .ok (p.withLocalStore s, changes)
  -- which documents the collector finds without a reference is left open
  | .remove key => .ok ({ p with remoteDocumentCache := p.remoteDocumentCache.erase key }, ∅)
  | .userChange user => p.handleUserChange user

omit [DecidableEq U] [Inhabited D] in
/-- What the callers see to: a write is not empty and sets or deletes whole documents, an answer is
for the batch at the head of the queue, and a snapshot of the server's documents has a version that
is not before the last one. -/
def Admissible (p : MemoryPersistence U D) : Event U D → Prop
  | .write mutations => mutations ≠ [] ∧ ∀ m ∈ mutations, m.precondition = .none
  | .acknowledge result => p.localStore.mutationQueue.queue.head? = some result.batch
  | .reject batchId =>
      p.localStore.mutationQueue.queue.head?.map MutationBatch.batchId = some batchId
  | .remoteEvent _ snapshotVersion =>
      snapshotVersion ≠ .none ∧ p.lastRemoteSnapshotVersion ≤ snapshotVersion
  | .remove _ | .userChange _ => True

omit [DecidableEq U] [Inhabited D] in
instance decidableAdmissible [DecidableEq D] (p : MemoryPersistence U D) (e : Event U D) :
    Decidable (p.Admissible e) := by
  cases e <;> unfold Admissible <;> infer_instance

def step [DecidableEq D] (p : MemoryPersistence U D) (e : Event U D) :
    Option (MemoryPersistence U D) :=
  if p.Admissible e then (p.handle e).toOption.map Prod.fst else none

lemma handle_remoteEvent_eq {p : MemoryPersistence U D} (h : p.Consistent)
    {snapshotVersion : SnapshotVersion} (updates : List (MutableDocument D))
    (hv : ∀ doc ∈ updates, snapshotVersion ≠ .none ∨ doc.isNoDocument ∧ doc.version = .none)
    (hlast : snapshotVersion = .none ∨ p.lastRemoteSnapshotVersion ≤ snapshotVersion) :
    ∃ p' changes, p.handle (.remoteEvent updates snapshotVersion) = .ok (p', changes) ∧
      p'.Consistent ∧ LocalStore.Reports changes p.localStore p'.localStore := by
  obtain ⟨s, changes, hs, hc, _, hr⟩ := LocalStore.applyRemoteEvent_eq h.current updates hv hlast
  refine ⟨_, changes, ?_, h.withLocalStore hc, ?_⟩
  · simp only [handle, hs, bind, Except.bind]
  · rwa [localStore_withLocalStore]

lemma handle_eq {p : MemoryPersistence U D} (h : p.Consistent) {e : Event U D}
    (he : p.Admissible e) : ∃ p' changes, p.handle e = .ok (p', changes) ∧ p'.Consistent ∧
      ((∀ key, e ≠ .remove key) → LocalStore.Reports changes p.localStore p'.localStore) := by
  cases e with
  | write mutations =>
    obtain ⟨s, b, changes, hs, hc, _, _, _, _, hr⟩ :=
      LocalStore.writeLocally_eq h.current he.1 he.2
    refine ⟨_, changes, ?_, h.withLocalStore hc, fun _ => ?_⟩
    · simp only [handle, hs, bind, Except.bind]
    · rwa [localStore_withLocalStore]
  | acknowledge result =>
    obtain ⟨rest, hq⟩ := List.head?_eq_some_iff.mp he
    obtain ⟨s, changes, hs, hc, _, _, hr, _⟩ := LocalStore.acknowledgeBatch_eq h.current hq
    refine ⟨_, changes, ?_, h.withLocalStore hc, fun _ => ?_⟩
    · simp only [handle, hs, bind, Except.bind]
    · rwa [localStore_withLocalStore]
  | reject batchId =>
    obtain ⟨b, hb, rfl⟩ := Option.map_eq_some_iff.mp he
    obtain ⟨rest, hq⟩ := List.head?_eq_some_iff.mp hb
    obtain ⟨s, changes, hs, hc, _, _, hr⟩ := LocalStore.rejectBatch_eq h.current hq
    refine ⟨_, changes, ?_, h.withLocalStore hc, fun _ => ?_⟩
    · simp only [handle, hs, bind, Except.bind]
    · rwa [localStore_withLocalStore]
  | remoteEvent updates snapshotVersion =>
    obtain ⟨p', changes, hp, hc, hr⟩ :=
      handle_remoteEvent_eq h updates (fun _ _ => Or.inl he.1) (Or.inr he.2)
    exact ⟨p', changes, hp, hc, fun _ => hr⟩
  | remove key =>
    refine ⟨_, ∅, rfl, fun u => ?_, fun hne => absurd rfl (hne key)⟩
    exact ⟨(h u).indexed, (h u).unconditional, (h u).coherent, (h u).overlays,
      (h u).remote.erase key⟩
  | userChange user =>
    obtain ⟨p', changes, hp, hc, _, _, hr⟩ := handleUserChange_eq h user
    exact ⟨p', changes, hp, hc, fun _ => hr⟩

lemma step_consistent [DecidableEq D] {p p' : MemoryPersistence U D} {e : Event U D}
    (h : p.Consistent) (hs : p.step e = some p') : p'.Consistent := by
  unfold step at hs
  split at hs
  · rename_i he
    obtain ⟨p₁, changes, hp, hc, _⟩ := handle_eq h he
    rw [hp] at hs
    exact Option.some.inj hs ▸ hc
  · cases hs

lemma always_consistent [DecidableEq D] {Q : MemoryPersistence U D → Prop}
    (law : ∀ p : MemoryPersistence U D, p.Consistent → Q p) (user : U) (es : List (Event U D)) :
    Always step Q (empty user) es :=
  always_of_invariant law (fun _ _ _ h hs => step_consistent h hs) (empty_consistent user)

structure Faithful (p : MemoryPersistence U D) : Prop where
  succeeds : ∀ e, p.Admissible e → ∃ p' changes, p.handle e = .ok (p', changes)
  reads : ∀ key, ∃ d d', p.localStore.getDocument key = .ok d ∧
    p.localStore.getDocumentFromBatches key p.localStore.mutationQueue.queue = .ok d' ∧ d.Same d'

/-- In every run no assertion fails, and the read through an overlay gives the document that the
replay of the user's whole queue gives. -/
theorem overlays_faithful [DecidableEq D] (user : U) (es : List (Event U D)) :
    Always step Faithful (empty user) es := by
  refine always_consistent (fun p h => ⟨fun e he => ?_, fun key => ?_⟩) user es
  · obtain ⟨p', changes, hp, _⟩ := handle_eq h he
    exact ⟨p', changes, hp⟩
  · obtain ⟨d, hd, hsame⟩ := LocalStore.getDocument_eq h.current key
    exact ⟨d, _, hd, getDocumentFromBatches_eq h.current.unconditional key, hsame⟩

/-- The changes that an event gives rise to say what a read shows from then on, and a document
that they leave out reads as before. -/
def Complete (p : MemoryPersistence U D) : Prop :=
  ∀ e p' changes, p.Admissible e → (∀ key, e ≠ .remove key) → p.handle e = .ok (p', changes) →
    ∀ key d d', p.localStore.getDocument key = .ok d → p'.localStore.getDocument key = .ok d' →
      (changes.lookup key).elim (d.Same d') fun change => change.document.Shows d'

theorem changes_complete [DecidableEq D] (user : U) (es : List (Event U D)) :
    Always step Complete (empty user) es := by
  refine always_consistent (fun p h e p' changes he hne hp key d d' hd hd' => ?_) user es
  obtain ⟨p₁, changes₁, hp₁, hc, hr⟩ := handle_eq h he
  rw [hp] at hp₁
  obtain ⟨rfl, rfl⟩ := Prod.mk.inj (Except.ok.inj hp₁)
  have hreports := hr hne
  have hbefore := LocalStore.same_view h.current hd
  have hafter := LocalStore.same_view hc.current hd'
  cases hk : changes.lookup key with
  | none =>
    have hview := hreports.unchanged key hk
    exact hbefore.trans (hview ▸ hafter.symm)
  | some change => exact (hreports.shown key change hk).trans hafter.symm.shows

/-- The answer of the server to a write of the user does not change what a read shows, when the
cache has no later version than that of the answer. -/
def Flickerless (p : MemoryPersistence U D) : Prop :=
  ∀ r p' changes, p.Admissible (.acknowledge r) → p.handle (.acknowledge r) = .ok (p', changes) →
    ∀ key d d', p.localStore.getDocument key = .ok d → p'.localStore.getDocument key = .ok d' →
      (∀ v ∈ r.docVersions key,
        (RemoteDocumentCache.get key p.remoteDocumentCache).version < v) →
      d.documentType = d'.documentType ∧ d.value = d'.value ∧
        d.hasPendingWrites = d'.hasPendingWrites

theorem acknowledgement_flickerless [DecidableEq D] (user : U) (es : List (Event U D)) :
    Always step Flickerless (empty user) es := by
  refine always_consistent (fun p h r p' changes he hp key d d' hd hd' hv => ?_) user es
  obtain ⟨rest, hq⟩ := List.head?_eq_some_iff.mp he
  obtain ⟨s, changes₁, hs, hc, hrest, _, _, hget⟩ := LocalStore.acknowledgeBatch_eq h.current hq
  have hp₁ : p.handle (.acknowledge r) = .ok (p.withLocalStore s, changes₁) := by
    simp only [handle, hs, bind, Except.bind]
  rw [hp] at hp₁
  obtain ⟨rfl, rfl⟩ := Prod.mk.inj (Except.ok.inj hp₁)
  rw [localStore_withLocalStore] at hd'
  have hbefore := LocalStore.same_view h.current hd
  have hafter := LocalStore.same_view hc hd'
  obtain ⟨htype, hvalue, hpending⟩ :=
    LocalStore.acknowledged_view h.current.remote hc.remote (hrest ▸ hq) hget hv
  exact ⟨hbefore.2.1.trans (htype.trans hafter.2.1.symm),
    hbefore.2.2.2.2.trans (hvalue.trans hafter.2.2.2.2.symm),
    hbefore.hasPendingWrites.trans (hpending.trans hafter.hasPendingWrites.symm)⟩

end MemoryPersistence

end MobileApps.Firestore

import MobileApps.Firestore.LocalView

/-! What the answers of the server do to the local store: an acknowledged or rejected batch leaves
the queue with its overlays, and the documents that the server sends go under those that stay. -/

namespace MobileApps.Firestore

open Library.Runs

variable {D : Type} [Inhabited D]

def Mutation.committed (version : SnapshotVersion) (d : MutableDocument D) :
    Mutation D → MutableDocument D
  | .set _ value _ => (d.convertToFoundDocument version value).setHasCommittedMutations
  | .delete .. => (d.convertToNoDocument version).setHasCommittedMutations

@[simp] lemma committed_key (m : Mutation D) (v : SnapshotVersion) (d : MutableDocument D) :
    (m.committed v d).key = d.key := by
  cases m <;> rfl

lemma committed_valid (m : Mutation D) (v : SnapshotVersion) (d : MutableDocument D) :
    (m.committed v d).isValidDocument = true := by
  cases m <;> rfl

lemma committed_committed (m m' : Mutation D) (v v' : SnapshotVersion) (d : MutableDocument D) :
    m.committed v (m'.committed v' d) = m.committed v d := by
  cases m <;> cases m' <;> rfl

lemma Mutation.applyToRemoteDocument_eq {m : Mutation D} {d : MutableDocument D}
    (hk : m.key = d.key) (v : SnapshotVersion) :
    m.applyToRemoteDocument d v = .ok (m.committed v d) := by
  have hv : m.verifyKeyMatches d = .ok () := if_pos hk.symm
  cases m <;> simp only [Mutation.applyToRemoteDocument, hv, bind, Except.bind, Mutation.committed]

def committedBy (results : List (Mutation D × SnapshotVersion)) (d : MutableDocument D) :
    MutableDocument D :=
  ((results.filter fun result => result.1.key = d.key).getLast?).elim d fun result =>
    result.1.committed result.2 d

@[simp] lemma committedBy_key (results : List (Mutation D × SnapshotVersion))
    (d : MutableDocument D) : (committedBy results d).key = d.key := by
  unfold committedBy
  cases (results.filter fun result => result.1.key = d.key).getLast? <;> simp

lemma committedBy_append (results : List (Mutation D × SnapshotVersion))
    (result : Mutation D × SnapshotVersion) (d : MutableDocument D) :
    committedBy (results ++ [result]) d = if result.1.key = d.key then
      result.1.committed result.2 (committedBy results d) else committedBy results d := by
  by_cases hk : result.1.key = d.key
  · simp only [committedBy, List.filter_append, hk, if_true, decide_true, List.filter_cons_of_pos,
      List.filter_nil, List.getLast?_append, List.getLast?_singleton, Option.some_or,
      Option.elim_some]
    cases (results.filter fun result => result.1.key = d.key).getLast? with
    | none => rfl
    | some last => exact (committed_committed _ _ _ _ d).symm
  · simp [committedBy, hk]

lemma MutationBatch.applyToRemoteDocument_eq (r : MutationBatchResult D) (d : MutableDocument D) :
    r.batch.applyToRemoteDocument d r.mutationResults =
      .ok (committedBy (r.batch.mutations.zip r.mutationResults) d) := by
  have hsizes : hardAssert (r.mutationResults.length = r.batch.mutations.length)
      "Mismatch between mutations length and results length" = .ok () := if_pos r.sizes.symm
  simp only [MutationBatch.applyToRemoteDocument, hsizes, bind, Except.bind]
  generalize r.batch.mutations.zip r.mutationResults = results
  induction results using List.reverseRecOn with
  | nil => rfl
  | append_singleton results result ih =>
    rw [List.foldlM_append, ih, committedBy_append, ← committedBy_key results d]
    by_cases hk : result.1.key = (committedBy results d).key
    · have ha := Mutation.applyToRemoteDocument_eq hk result.2
      simp only [bind, Except.bind, List.foldlM_cons, List.foldlM_nil, hk, if_true, ha]
      rfl
    · simp only [bind, Except.bind, List.foldlM_cons, List.foldlM_nil, hk, if_false]
      rfl

omit [Inhabited D] in
lemma MutationBatchResult.lastOn_eq (r : MutationBatchResult D) (k : ResourcePath) :
    lastOn k r.batch.mutations = (r.resultsOn k).getLast?.map Prod.fst := by
  have hzip : (r.batch.mutations.zip r.mutationResults).map Prod.fst = r.batch.mutations :=
    List.map_fst_zip r.sizes.le
  rw [lastOn, MutationBatchResult.resultsOn, ← List.getLast?_map]
  conv_lhs => rw [← hzip, List.filter_map]
  rfl

omit [Inhabited D] in
lemma MutationBatchResult.docVersions_isSome {r : MutationBatchResult D} {k : ResourcePath}
    (hk : k ∈ r.batch.keys) : ∃ v, r.docVersions k = some v := by
  obtain ⟨m, hm⟩ := Option.ne_none_iff_exists'.mp (MutationBatch.mem_keys.mp hk)
  rw [r.lastOn_eq] at hm
  obtain ⟨result, hr, _⟩ := Option.map_eq_some_iff.mp hm
  exact ⟨result.2, by rw [MutationBatchResult.docVersions, hr]; rfl⟩

def MutationBatchResult.acknowledged (r : MutationBatchResult D) (d : MutableDocument D) :
    MutableDocument D :=
  if (r.docVersions d.key).any (d.version < ·) then
    (committedBy (r.batch.mutations.zip r.mutationResults) d).withReadTime r.commitVersion
  else d

lemma MutationBatchResult.acknowledged_of_notMem {r : MutationBatchResult D}
    {d : MutableDocument D} (hd : d.key ∉ r.batch.keys) : r.acknowledged d = d := by
  have hnone : r.resultsOn d.key = [] := by
    refine List.filter_eq_nil_iff.mpr fun result hr hk => ?_
    exact hd (MutationQueue.mem_batch_keys.mpr
      ⟨result.1, (List.of_mem_zip hr).1, by simpa using hk⟩)
  simp [acknowledged, docVersions, hnone]

namespace RemoteDocumentCache

lemma get_add (d : MutableDocument D) (readTime : SnapshotVersion) (c : RemoteDocumentCache D)
    (k : ResourcePath) :
    get k (add d readTime c) = if k = d.key then d.withReadTime readTime else get k c := by
  by_cases hk : k = d.key
  · subst hk
    simp [get, add]
  · simp [get, add, hk, AList.lookup_insert_ne hk]

end RemoteDocumentCache

omit [Inhabited D] in
lemma Keyed.insert {docs : MutableDocumentMap D} (h : Keyed docs) {key : ResourcePath}
    {d : MutableDocument D} (hd : d.key = key) : Keyed (docs.insert key d) := by
  intro k e he
  by_cases hk : k = key
  · subst hk
    rw [AList.lookup_insert] at he
    exact Option.some.inj he ▸ hd
  · rw [AList.lookup_insert_ne hk] at he
    exact h k e he

omit [Inhabited D] in
lemma Keyed.erase {docs : MutableDocumentMap D} (h : Keyed docs) (key : ResourcePath) :
    Keyed (docs.erase key) := by
  intro k e he
  by_cases hk : k = key
  · subst hk
    simp at he
  · rw [AList.lookup_erase_ne hk] at he
    exact h k e he

namespace LocalStore

lemma applyDocumentResult_eq {r : MutationBatchResult D} {c : RemoteDocumentCache D}
    (hc : Keyed c) {k : ResourcePath} (hk : k ∈ r.batch.keys) : ∃ c',
      applyDocumentResult r c k = .ok c' ∧ Keyed c' ∧ ∀ k', RemoteDocumentCache.get k' c' =
        if k' = k then r.acknowledged (RemoteDocumentCache.get k c)
        else RemoteDocumentCache.get k' c := by
  obtain ⟨v, hv⟩ := MutationBatchResult.docVersions_isSome hk
  have hkey := RemoteDocumentCache.get_key hc k
  have happly := MutationBatch.applyToRemoteDocument_eq r (RemoteDocumentCache.get k c)
  by_cases hlt : (RemoteDocumentCache.get k c).version < v
  · have hack : r.acknowledged (RemoteDocumentCache.get k c) =
        (committedBy (r.batch.mutations.zip r.mutationResults)
          (RemoteDocumentCache.get k c)).withReadTime r.commitVersion := by
      rw [MutationBatchResult.acknowledged, hkey, hv]
      exact if_pos (by simpa using hlt)
    have hvalid : (committedBy (r.batch.mutations.zip r.mutationResults)
        (RemoteDocumentCache.get k c)).isValidDocument = true := by
      unfold committedBy
      rw [hkey]
      cases hl : ((r.batch.mutations.zip r.mutationResults).filter
          fun result => result.1.key = k).getLast? with
      | none =>
        rw [MutationBatchResult.docVersions, MutationBatchResult.resultsOn, hl] at hv
        cases hv
      | some last => exact committed_valid _ _ _
    refine ⟨RemoteDocumentCache.add (committedBy (r.batch.mutations.zip r.mutationResults)
      (RemoteDocumentCache.get k c)) r.commitVersion c, ?_,
      hc.insert rfl, fun k' => ?_⟩
    · simp only [applyDocumentResult, hv, hlt, if_true, happly, bind, Except.bind, hvalid]
    · rw [RemoteDocumentCache.get_add, committedBy_key, hkey, hack]
  · have hack : r.acknowledged (RemoteDocumentCache.get k c) = RemoteDocumentCache.get k c := by
      rw [MutationBatchResult.acknowledged, hkey, hv]
      exact if_neg (by simpa using hlt)
    refine ⟨c, ?_, hc, fun k' => ?_⟩
    · simp only [applyDocumentResult, hv, hlt, if_false]
    · rw [hack]
      split
      · rename_i h
        rw [h]
      · rfl

lemma applyDocumentResults_eq (r : MutationBatchResult D) {c : RemoteDocumentCache D}
    (hc : Keyed c) : ∃ c', r.batch.keys.foldlM (applyDocumentResult r) c = .ok c' ∧ Keyed c' ∧
      ∀ k, RemoteDocumentCache.get k c' = r.acknowledged (RemoteDocumentCache.get k c) := by
  obtain ⟨c', hloop, hc', hget⟩ := foldlM_loop (f := applyDocumentResult r)
    (l := r.batch.keys) (b := c)
    (I := fun done c' => Keyed c' ∧ ∀ k, RemoteDocumentCache.get k c' =
      if k ∈ done then r.acknowledged (RemoteDocumentCache.get k c)
      else RemoteDocumentCache.get k c)
    ⟨hc, by simp⟩ (by
      intro done key rest c₁ hl hi
      obtain ⟨hc₁, hget⟩ := hi
      have hnodup : (done ++ key :: rest).Nodup := hl ▸ List.nodup_dedup _
      have hfresh : key ∉ done := fun hm =>
        (List.nodup_append.mp hnodup).2.2 key hm key List.mem_cons_self rfl
      obtain ⟨c₂, happly, hc₂, hget'⟩ := applyDocumentResult_eq (r := r) hc₁
        (k := key) (by simp [hl])
      refine ⟨c₂, happly, hc₂, fun k => ?_⟩
      rw [hget']
      by_cases hk : k = key
      · simp [hk, hget, hfresh]
      · simp [hk, hget])
  refine ⟨c', hloop, hc', fun k => ?_⟩
  rw [hget]
  split
  · rfl
  · rename_i hk
    have hkey := RemoteDocumentCache.get_key hc k
    exact (MutationBatchResult.acknowledged_of_notMem (hkey.symm ▸ hk)).symm

lemma dropOverlays_eq {s : LocalStore D} (h : s.Consistent) {b : MutationBatch D}
    {rest : List (MutationBatch D)} (hs : s.mutationQueue.queue = b :: rest)
    {q : MutationQueue D} (hq : q.Indexed) (hrest : q.queue = rest)
    {remote : RemoteDocumentCache D} (hr : Keyed remote) : ∃ c r,
      (LocalStore.mk remote s.lastRemoteSnapshotVersion q
        (s.documentOverlayCache.removeOverlaysForBatchId b.batchId)).recalculateAndSaveOverlays
          (RemoteDocumentCache.getAll b.keys remote) =
            .ok (⟨remote, s.lastRemoteSnapshotVersion, q, c⟩, r) ∧
      Consistent ⟨remote, s.lastRemoteSnapshotVersion, q, c⟩ := by
  have hu : Unconditional q.queue := by
    intro b' hb'
    exact h.unconditional b' (by rw [hs, ← hrest]; exact List.mem_cons_of_mem _ hb')
  obtain ⟨hcoherent, hfilter⟩ :=
    DocumentOverlayCache.removeOverlaysForBatchId_eq h.coherent b.batchId
  obtain ⟨c, r, hrecalculated, hc, hlookup, _⟩ := recalculateAndSaveOverlays_eq
    (s := ⟨remote, s.lastRemoteSnapshotVersion, q,
      s.documentOverlayCache.removeOverlaysForBatchId b.batchId⟩)
    hq hu hcoherent (RemoteDocumentCache.getAll_keyed hr b.keys)
  refine ⟨c, r, hrecalculated, hq, hu, hc, fun k => ?_, hr⟩
  have hascends := h.indexed.ascends
  rw [hs] at hascends
  rw [hlookup, hfilter, h.overlays, hs, overlayOf_tail hascends, ← hrest]
  split <;> rfl

lemma view_first {s : LocalStore D} (h : Keyed s.remoteDocumentCache) {b : MutationBatch D}
    {rest : List (MutationBatch D)} (hs : s.mutationQueue.queue = b :: rest) {k : ResourcePath}
    (hk : k ∉ b.keys) : s.view k = (overlayOf rest k).elim
      (RemoteDocumentCache.get k s.remoteDocumentCache) fun o =>
        o.mutation.outcome (RemoteDocumentCache.get k s.remoteDocumentCache) := by
  have hlast : lastOn k b.mutations = none := by
    by_contra hne
    exact hk (MutationBatch.mem_keys.mpr hne)
  rw [view_eq h, hs, overlayOf, hlast, Option.map_none, Option.or_none]

lemma acknowledgeBatch_eq {s : LocalStore D} (h : s.Consistent) {r : MutationBatchResult D}
    {rest : List (MutationBatch D)} (hs : s.mutationQueue.queue = r.batch :: rest) : ∃ s' views,
      s.acknowledgeBatch r = .ok (s', views) ∧ s'.Consistent ∧ s'.mutationQueue.queue = rest ∧
      s'.mutationQueue.nextBatchId = s.mutationQueue.nextBatchId ∧ Reports views s s' ∧
      ∀ k, RemoteDocumentCache.get k s'.remoteDocumentCache =
        r.acknowledged (RemoteDocumentCache.get k s.remoteDocumentCache) := by
  obtain ⟨remote, hremote, hkeyed, hget⟩ := applyDocumentResults_eq r h.remote
  obtain ⟨q, hq, hrest, hnext, hremove⟩ := MutationQueue.removeMutationBatch_eq h.indexed hs
  obtain ⟨c, _, hdrop, hc⟩ := dropOverlays_eq h hs hq hrest hkeyed
  obtain ⟨c', views, hviews, hc', hlookup⟩ := getDocuments_eq hc r.batch.keys
  refine ⟨⟨remote, s.lastRemoteSnapshotVersion, q, c'⟩, views, ?_, hc', hrest, hnext,
    .of_keys r.batch.keys hlookup fun k hk => ?_, hget⟩
  · simp only [acknowledgeBatch, MutationQueue.acknowledgeBatch_eq hs, applyBatchResult, hremote,
      hremove, MutationQueue.performConsistencyCheck_eq hq, getKeysWithTransformResults, hdrop,
      hviews, bind, Except.bind]
  · have hkey := RemoteDocumentCache.get_key h.remote k
    rw [view_first h.remote hs hk, view_eq (s := ⟨remote, _, q, c'⟩) hkeyed, hrest, hget,
      MutationBatchResult.acknowledged_of_notMem (hkey.symm ▸ hk)]

lemma acknowledged_view {s s' : LocalStore D} (h : Keyed s.remoteDocumentCache)
    (h' : Keyed s'.remoteDocumentCache) {r : MutationBatchResult D}
    (hs : s.mutationQueue.queue = r.batch :: s'.mutationQueue.queue)
    (hget : ∀ k, RemoteDocumentCache.get k s'.remoteDocumentCache =
      r.acknowledged (RemoteDocumentCache.get k s.remoteDocumentCache)) {k : ResourcePath}
    (hv : ∀ v ∈ r.docVersions k, (RemoteDocumentCache.get k s.remoteDocumentCache).version < v) :
    (s.view k).documentType = (s'.view k).documentType ∧ (s.view k).value = (s'.view k).value ∧
      (s.view k).hasPendingWrites = (s'.view k).hasPendingWrites := by
  have hkey := RemoteDocumentCache.get_key h k
  have hkey' := RemoteDocumentCache.get_key h' k
  rw [view_eq h, view_eq h', hs, overlayOf]
  cases ho : overlayOf s'.mutationQueue.queue k with
  | some o =>
    have hsame := outcome_same o.mutation (hkey.trans hkey'.symm)
    exact ⟨hsame.2.1, hsame.2.2.2.2, hsame.hasPendingWrites⟩
  | none =>
    rw [Option.none_or, Option.elim_none, hget]
    cases hl : lastOn k r.batch.mutations with
    | none =>
      have hnotMem : (RemoteDocumentCache.get k s.remoteDocumentCache).key ∉ r.batch.keys := by
        rw [hkey, MutationBatch.mem_keys, hl]
        exact fun hne => hne rfl
      rw [MutationBatchResult.acknowledged_of_notMem hnotMem]
      exact ⟨rfl, rfl, rfl⟩
    | some m =>
      rw [r.lastOn_eq] at hl
      obtain ⟨result, hr, rfl⟩ := Option.map_eq_some_iff.mp hl
      have hversion : r.docVersions k = some result.2 := by
        rw [MutationBatchResult.docVersions, hr]
        rfl
      have hack : r.acknowledged (RemoteDocumentCache.get k s.remoteDocumentCache) =
          (result.1.committed result.2 (RemoteDocumentCache.get k
            s.remoteDocumentCache)).withReadTime r.commitVersion := by
        have hlast := hr
        rw [MutationBatchResult.resultsOn] at hlast
        rw [MutationBatchResult.acknowledged, committedBy, hkey, hversion, hlast]
        exact if_pos (by simpa using hv result.2 hversion)
      rw [hack]
      cases result.1 <;> exact ⟨rfl, rfl, rfl⟩

lemma rejectBatch_eq {s : LocalStore D} (h : s.Consistent) {b : MutationBatch D}
    {rest : List (MutationBatch D)} (hs : s.mutationQueue.queue = b :: rest) : ∃ s' views,
      s.rejectBatch b.batchId = .ok (s', views) ∧ s'.Consistent ∧ s'.mutationQueue.queue = rest ∧
      s'.mutationQueue.nextBatchId = s.mutationQueue.nextBatchId ∧ Reports views s s' := by
  have hfind : (s.mutationQueue.queue.find? fun b' => b'.batchId = b.batchId) = some b :=
    h.indexed.ascends.find_label (by rw [hs]; exact List.mem_cons_self)
  have hlookup := MutationQueue.lookupMutationBatch_eq h.indexed b.batchId
  rw [hfind] at hlookup
  obtain ⟨q, hq, hrest, hnext, hremove⟩ := MutationQueue.removeMutationBatch_eq h.indexed hs
  obtain ⟨c, _, hdrop, hc⟩ := dropOverlays_eq h hs hq hrest h.remote
  obtain ⟨c', views, hviews, hc', hlookup'⟩ := getDocuments_eq hc b.keys
  refine ⟨⟨s.remoteDocumentCache, s.lastRemoteSnapshotVersion, q, c'⟩, views, ?_, hc', hrest, hnext,
    .of_keys b.keys hlookup' fun k hk => ?_⟩
  · simp only [rejectBatch, hlookup, hremove, MutationQueue.performConsistencyCheck_eq hq, hdrop,
      hviews, bind, Except.bind]
  · rw [view_first h.remote hs hk, view_eq (s := ⟨s.remoteDocumentCache, _, q, c'⟩) h.remote,
      hrest]

structure DocumentChanges.Kept (before : RemoteDocumentCache D) (c : DocumentChanges D) :
    Prop where
  cache : Keyed c.cache
  changedDocs : Keyed c.changedDocs
  unchanged : ∀ k, c.changedDocs.lookup k = none →
    RemoteDocumentCache.get k c.cache = RemoteDocumentCache.get k before
  shown : ∀ k d, c.changedDocs.lookup k = some d → d.Shows (RemoteDocumentCache.get k c.cache)

lemma DocumentChanges.Kept.change {before : RemoteDocumentCache D} {c c' : DocumentChanges D}
    (h : c.Kept before) {doc : MutableDocument D}
    (hchanged : c'.changedDocs = c.changedDocs.insert doc.key doc)
    (hcache : Keyed c'.cache) (hget : ∀ k, k ≠ doc.key →
      RemoteDocumentCache.get k c'.cache = RemoteDocumentCache.get k c.cache)
    (hdoc : doc.Shows (RemoteDocumentCache.get doc.key c'.cache)) : c'.Kept before where
  cache := hcache
  changedDocs := hchanged ▸ h.changedDocs.insert rfl
  unchanged k hk := by
    rw [hchanged] at hk
    by_cases hkey : k = doc.key
    · subst hkey
      rw [AList.lookup_insert] at hk
      cases hk
    · rw [AList.lookup_insert_ne hkey] at hk
      rw [hget k hkey, h.unchanged k hk]
  shown k d hk := by
    rw [hchanged] at hk
    by_cases hkey : k = doc.key
    · subst hkey
      rw [AList.lookup_insert] at hk
      exact Option.some.inj hk ▸ hdoc
    · rw [AList.lookup_insert_ne hkey] at hk
      rw [hget k hkey]
      exact h.shown k d hk

lemma populateDocumentChange_eq {before : RemoteDocumentCache D} {readTime : SnapshotVersion}
    {doc : MutableDocument D} (ht : readTime ≠ .none ∨ doc.isNoDocument ∧ doc.version = .none)
    {c : DocumentChanges D} (h : c.Kept before) :
    ∃ c', populateDocumentChange before readTime c doc = .ok c' ∧ c'.Kept before := by
  have hnoted : (c.noteExistence (RemoteDocumentCache.get doc.key before) doc).Kept before := by
    unfold DocumentChanges.noteExistence
    split
    · exact h
    · exact ⟨h.cache, h.changedDocs, h.unchanged, h.shown⟩
  generalize hc : c.noteExistence (RemoteDocumentCache.get doc.key before) doc = c₁ at hnoted
  simp only [populateDocumentChange, hc]
  split
  · rename_i hno
    refine ⟨_, rfl, hnoted.change rfl (hnoted.cache.erase doc.key) (fun k hk => ?_) ?_⟩
    · simp [RemoteDocumentCache.get, AList.lookup_erase_ne hk]
    · have hfound : doc.isFoundDocument = false := by
        have htype : doc.documentType = .noDocument := by
          simpa [MutableDocument.isNoDocument] using hno.1
        simp [MutableDocument.isFoundDocument, htype]
      refine ⟨?_, fun hf => ?_⟩
      · rw [hfound]
        simp [RemoteDocumentCache.get, MutableDocument.isFoundDocument,
          MutableDocument.invalidDocument]
      · rw [hfound] at hf
        cases hf
  · rename_i hdoc
    have hassert : hardAssert (readTime ≠ .none)
        "Cannot add a document when the remote version is zero" = .ok () :=
      if_pos (ht.resolve_right hdoc)
    rw [hassert]
    split
    · refine ⟨_, rfl, hnoted.change rfl (hnoted.cache.insert rfl) (fun k hk => ?_) ?_⟩
      · rw [RemoteDocumentCache.get_add, if_neg hk]
      · rw [RemoteDocumentCache.get_add, if_pos rfl]
        exact ⟨rfl, fun _ => ⟨rfl, rfl, rfl, rfl, rfl⟩⟩
    · exact ⟨_, rfl, hnoted⟩

lemma applyRemoteEvent_eq {s : LocalStore D} (h : s.Consistent) {snapshotVersion : SnapshotVersion}
    (updates : List (MutableDocument D)) (hv : ∀ doc ∈ updates,
      snapshotVersion ≠ .none ∨ doc.isNoDocument ∧ doc.version = .none)
    (hlast : snapshotVersion = .none ∨ s.lastRemoteSnapshotVersion ≤ snapshotVersion) :
    ∃ s' views, s.applyRemoteEvent updates snapshotVersion = .ok (s', views) ∧ s'.Consistent ∧
      s'.mutationQueue = s.mutationQueue ∧ Reports views s s' := by
  obtain ⟨changes, hloop, hkept⟩ := foldlM_loop
    (f := populateDocumentChange s.remoteDocumentCache snapshotVersion)
    (l := updates) (b := ⟨s.remoteDocumentCache, ∅, []⟩)
    (I := fun _ c => c.Kept s.remoteDocumentCache)
    ⟨h.remote, fun k d hk => by simp at hk, fun _ _ => rfl, fun k d hk => by simp at hk⟩
    fun done doc rest c hl hi => populateDocumentChange_eq (hv doc (by simp [hl])) hi
  obtain ⟨version, hversion⟩ : ∃ version,
      ({ s with remoteDocumentCache := changes.cache } : LocalStore D).setLastRemoteSnapshotVersion
        snapshotVersion = .ok { s with
          remoteDocumentCache := changes.cache, lastRemoteSnapshotVersion := version } := by
    rcases hlast with rfl | hlast
    · exact ⟨s.lastRemoteSnapshotVersion, if_pos rfl⟩
    · by_cases hnone : snapshotVersion = .none
      · exact ⟨s.lastRemoteSnapshotVersion, if_pos hnone⟩
      · refine ⟨snapshotVersion, ?_⟩
        simp only [setLastRemoteSnapshotVersion, if_neg hnone, hardAssert, if_pos hlast, bind,
          Except.bind]
  have hs : Consistent
      { s with remoteDocumentCache := changes.cache, lastRemoteSnapshotVersion := version } :=
    ⟨h.indexed, h.unconditional, h.coherent, h.overlays, hkept.cache⟩
  obtain ⟨c, views, hviews, hc, hlookup⟩ :=
    computeViews_eq hs hkept.changedDocs changes.existenceChangedKeys
  refine ⟨_, views, ?_, hc, rfl, fun k hk => ?_, fun k e hk => ?_⟩
  · simp only [applyRemoteEvent, hloop, hversion, hviews, bind, Except.bind]
  · rw [hlookup, Option.map_eq_none_iff] at hk
    exact congrArg (Firestore.replay s.pending) (hkept.unchanged k hk)
  · rw [hlookup] at hk
    obtain ⟨d, hd, rfl⟩ := Option.map_eq_some_iff.mp hk
    have hkey : d.key = (RemoteDocumentCache.get k changes.cache).key :=
      (hkept.changedDocs k d hd).trans (RemoteDocumentCache.get_key hkept.cache k).symm
    exact (hkept.shown k d hd).replay hkey s.pending

end LocalStore

end MobileApps.Firestore

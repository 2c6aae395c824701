import MobileApps.Firestore.Overlays

/-! The operations of the local store keep its overlays those that its queue calls for, so a read
through an overlay is the replay of the queue. -/

namespace MobileApps.Firestore

open Library.Runs

variable {D : Type} [Inhabited D]

omit [Inhabited D] in
structure LocalStore.Consistent (s : LocalStore D) : Prop where
  indexed : s.mutationQueue.Indexed
  unconditional : Unconditional s.mutationQueue.queue
  coherent : s.documentOverlayCache.Coherent
  overlays : ∀ k, s.documentOverlayCache.overlays.lookup k = overlayOf s.mutationQueue.queue k
  remote : Keyed s.remoteDocumentCache

def LocalStore.pending (s : LocalStore D) : List (Mutation D) :=
  pendingMutations s.mutationQueue.queue

/-- What the server has sent of a document, with the user's writes that it has not answered. -/
def LocalStore.view (k : ResourcePath) (s : LocalStore D) : MutableDocument D :=
  replay s.pending (RemoteDocumentCache.get k s.remoteDocumentCache)

def MutableDocument.Shows (d e : MutableDocument D) : Prop :=
  d.isFoundDocument = e.isFoundDocument ∧ (d.isFoundDocument = true → d.Same e)

structure LocalStore.Reports (changes : OverlayedDocumentMap D) (s s' : LocalStore D) : Prop where
  unchanged : ∀ k, changes.lookup k = none → s'.view k = s.view k
  shown : ∀ k c, changes.lookup k = some c → c.document.Shows (s'.view k)

omit [Inhabited D] in
lemma MutableDocument.Same.symm {d e : MutableDocument D} (h : d.Same e) : e.Same d :=
  ⟨h.1.symm, h.2.1.symm, h.2.2.1.symm, h.2.2.2.1.symm, h.2.2.2.2.symm⟩

omit [Inhabited D] in
lemma MutableDocument.Same.trans {d e f : MutableDocument D} (h : d.Same e) (h' : e.Same f) :
    d.Same f :=
  ⟨h.1.trans h'.1, h.2.1.trans h'.2.1, h.2.2.1.trans h'.2.2.1, h.2.2.2.1.trans h'.2.2.2.1,
    h.2.2.2.2.trans h'.2.2.2.2⟩

omit [Inhabited D] in
lemma MutableDocument.Same.hasPendingWrites {d e : MutableDocument D} (h : d.Same e) :
    d.hasPendingWrites = e.hasPendingWrites := by
  simp [MutableDocument.hasPendingWrites, h.2.2.2.1]

omit [Inhabited D] in
lemma MutableDocument.Same.shows {d e : MutableDocument D} (h : d.Same e) : d.Shows e :=
  ⟨by simp only [MutableDocument.isFoundDocument, h.2.1], fun _ => h⟩

omit [Inhabited D] in
lemma MutableDocument.Shows.trans {d e f : MutableDocument D} (h : d.Shows e) (h' : e.Shows f) :
    d.Shows f :=
  ⟨h.1.trans h'.1, fun hd => (h.2 hd).trans (h'.2 (h.1 ▸ hd))⟩

omit [Inhabited D] in
lemma MutableDocument.Shows.refl (d : MutableDocument D) : d.Shows d :=
  ⟨rfl, fun _ => ⟨rfl, rfl, rfl, rfl, rfl⟩⟩

lemma MutableDocument.Shows.replay {d e : MutableDocument D} (h : d.Shows e) (hk : d.key = e.key)
    (ms : List (Mutation D)) : (replay ms d).Shows (replay ms e) := by
  unfold Firestore.replay
  rw [hk]
  cases lastOn e.key ms with
  | none => exact h
  | some m =>
    have hsame := outcome_same m hk
    exact ⟨by simp only [MutableDocument.isFoundDocument, hsame.2.1], fun _ => hsame⟩

namespace RemoteDocumentCache

lemma get_key {c : RemoteDocumentCache D} (h : Keyed c) (k : ResourcePath) : (get k c).key = k := by
  unfold get
  cases hk : c.lookup k with
  | none => rfl
  | some d => exact h k d hk

lemma lookup_getAll (keys : List ResourcePath) (c : RemoteDocumentCache D) (k : ResourcePath) :
    (getAll keys c).lookup k = if k ∈ keys then some (get k c) else none := by
  induction keys using List.reverseRecOn with
  | nil => simp [getAll]
  | append_singleton keys key ih =>
    have hg : getAll (keys ++ [key]) c = (getAll keys c).insert key (get key c) := by
      simp [getAll]
    rw [hg]
    by_cases hk : k = key
    · subst hk
      simp
    · simp [AList.lookup_insert_ne hk, ih, hk]

lemma getAll_keyed {c : RemoteDocumentCache D} (h : Keyed c) (keys : List ResourcePath) :
    Keyed (getAll keys c) := by
  intro k d hk
  rw [lookup_getAll] at hk
  split at hk
  · exact Option.some.inj hk ▸ get_key h k
  · cases hk

end RemoteDocumentCache

namespace LocalStore

omit [Inhabited D] in
lemma empty_consistent : (empty : LocalStore D).Consistent where
  indexed := MutationQueue.empty_indexed
  unconditional b hb := by cases hb
  coherent := DocumentOverlayCache.empty_coherent
  overlays k := by simp [empty, DocumentOverlayCache.empty, MutationQueue.empty, overlayOf]
  remote k d hk := by simp [empty] at hk

omit [Inhabited D] in
lemma Consistent.of_overlay {s : LocalStore D} (h : s.Consistent) {k : ResourcePath}
    {o : Overlay D} (ho : overlayOf s.mutationQueue.queue k = some o) :
    o.mutation.Unconditional ∧ o.mutation.key = k := by
  obtain ⟨b, hb, _, hm, hk⟩ := of_overlayOf ho
  exact ⟨h.unconditional b hb _ hm, hk⟩

lemma view_eq {s : LocalStore D} (h : Keyed s.remoteDocumentCache) (k : ResourcePath) :
    s.view k = (overlayOf s.mutationQueue.queue k).elim
      (RemoteDocumentCache.get k s.remoteDocumentCache) fun o =>
        o.mutation.outcome (RemoteDocumentCache.get k s.remoteDocumentCache) := by
  rw [view, pending, replay_pending, RemoteDocumentCache.get_key h]

lemma Reports.of_keys (keys : List ResourcePath) {changes : OverlayedDocumentMap D}
    {s s' : LocalStore D}
    (hlookup : ∀ k, changes.lookup k = if k ∈ keys then some ⟨s'.view k, none⟩ else none)
    (hview : ∀ k, k ∉ keys → s'.view k = s.view k) : Reports changes s s' where
  unchanged k hk := by
    refine hview k fun hm => ?_
    rw [hlookup, if_pos hm] at hk
    cases hk
  shown k c hk := by
    rw [hlookup] at hk
    split at hk
    · exact Option.some.inj hk ▸ MutableDocument.Shows.refl _
    · cases hk

lemma overlayDocument_eq {s : LocalStore D} (h : s.Consistent) (d : MutableDocument D) :
    s.overlayDocument d.key d = .ok ⟨replay s.pending d, none⟩ := by
  rw [pending, replay_pending]
  unfold overlayDocument DocumentOverlayCache.getOverlay
  rw [h.overlays]
  cases ho : overlayOf s.mutationQueue.queue d.key with
  | none => rfl
  | some o =>
    obtain ⟨hu, hk⟩ := h.of_overlay ho
    simp only [applyToLocalView_eq hu hk none, bind, Except.bind, Option.elim_some]

lemma viewDocuments_eq {s : LocalStore D} (h : s.Consistent) {docs : MutableDocumentMap D}
    (hd : Keyed docs) (changed : List ResourcePath) : ∃ recalculated views,
      docs.keys.foldlM (viewDocument changed s docs) (∅, ∅) = .ok (recalculated, views) ∧
      Keyed recalculated ∧ ∀ k, (recalculated.lookup k = docs.lookup k ∧ views.lookup k = none) ∨
        (recalculated.lookup k = none ∧
          views.lookup k = (docs.lookup k).map fun d => ⟨replay s.pending d, none⟩) := by
  obtain ⟨⟨recalculated, views⟩, hloop, hk⟩ := foldlM_loop (f := viewDocument changed s docs)
    (l := docs.keys) (b := (∅, ∅))
    (I := fun done found => ∀ k,
      (k ∈ done → (found.1.lookup k = docs.lookup k ∧ found.2.lookup k = none) ∨
        (found.1.lookup k = none ∧
          found.2.lookup k = (docs.lookup k).map fun d => ⟨replay s.pending d, none⟩)) ∧
      (k ∉ done → found.1.lookup k = none ∧ found.2.lookup k = none))
    (by simp) (by
      intro done key rest found hl hi
      have hnodup : (done ++ key :: rest).Nodup := hl ▸ docs.keys_nodup
      have hfresh : key ∉ done := fun hm =>
        (List.nodup_append.mp hnodup).2.2 key hm key List.mem_cons_self rfl
      obtain ⟨hn₁, hn₂⟩ := (hi key).2 hfresh
      have hmem : key ∈ docs := AList.mem_keys.mpr (by simp [hl])
      obtain ⟨d, hdoc⟩ := Option.isSome_iff_exists.mp (AList.lookup_isSome.mpr hmem)
      obtain rfl := hd key d hdoc
      have hview := overlayDocument_eq h d
      by_cases hc : d.key ∈ changed ∧ (s.documentOverlayCache.getOverlay d.key).isNone
      · refine ⟨(found.1.insert d.key d, found.2), ?_, fun k => ?_⟩
        · simp only [viewDocument, hdoc, hc, and_self, if_true]
        · by_cases hk : k = d.key
          · subst hk
            simp [hdoc, hn₂]
          · simpa [hk, AList.lookup_insert_ne hk] using hi k
      · refine ⟨(found.1, found.2.insert d.key ⟨replay s.pending d, none⟩), ?_, fun k => ?_⟩
        · simp only [viewDocument, hdoc, hc, if_false, hview]
          rfl
        · by_cases hk : k = d.key
          · subst hk
            simp [hdoc, hn₁]
          · simpa [hk, AList.lookup_insert_ne hk] using hi k)
  have hall : ∀ k, (recalculated.lookup k = docs.lookup k ∧ views.lookup k = none) ∨
      (recalculated.lookup k = none ∧
        views.lookup k = (docs.lookup k).map fun d => ⟨replay s.pending d, none⟩) := by
    intro k
    by_cases hm : k ∈ docs.keys
    · exact (hk k).1 hm
    · obtain ⟨h₁, h₂⟩ := (hk k).2 hm
      exact Or.inr ⟨h₁, by rw [h₂, AList.lookup_eq_none.mpr hm]; rfl⟩
  refine ⟨recalculated, views, hloop, fun k d hkd => ?_, hall⟩
  rcases hall k with ⟨hr, _⟩ | ⟨hr, _⟩
  · exact hd k d (hr ▸ hkd)
  · rw [hr] at hkd
    cases hkd

omit [Inhabited D] in
lemma lookup_views (keys : List ResourcePath) (r : Recalculation D)
    (views : OverlayedDocumentMap D) (k : ResourcePath) :
    (keys.foldl (recalculatedView r) views).lookup k =
      if k ∈ keys then
        ((r.docs.lookup k).map fun d => ⟨d, (r.masks.lookup k).getD none⟩).or (views.lookup k)
      else views.lookup k := by
  induction keys generalizing views with
  | nil => simp
  | cons key keys ih =>
    rw [List.foldl_cons, ih]
    by_cases hk : k = key
    · subst hk
      cases hr : r.docs.lookup k <;> simp [recalculatedView, hr]
    · cases hr : r.docs.lookup key with
      | none => simp [recalculatedView, hr, hk]
      | some d => simp [recalculatedView, hr, hk, AList.lookup_insert_ne hk]

lemma computeViews_eq {s : LocalStore D} (h : s.Consistent) {docs : MutableDocumentMap D}
    (hd : Keyed docs) (changed : List ResourcePath) : ∃ c views,
      s.computeViews docs changed = .ok ({ s with documentOverlayCache := c }, views) ∧
      Consistent { s with documentOverlayCache := c } ∧
      ∀ k, views.lookup k = (docs.lookup k).map fun d => ⟨replay s.pending d, none⟩ := by
  obtain ⟨recalculated, views, hviews, hkeyed, hall⟩ := viewDocuments_eq h hd changed
  obtain ⟨c, r, hr, hc, hlookup, hdocs, hmasks⟩ :=
    recalculateAndSaveOverlays_eq h.indexed h.unconditional h.coherent hkeyed
  refine ⟨c, _, by simp only [computeViews, hviews, bind, Except.bind, hr]; rfl,
    ⟨h.indexed, h.unconditional, hc, fun k => ?_, h.remote⟩, fun k => ?_⟩
  · rw [hlookup, h.overlays]
    split <;> rfl
  · have hmem : k ∈ r.docs.keys ↔ (recalculated.lookup k).isSome := by
      rw [← AList.mem_keys, ← AList.lookup_isSome, hdocs, Option.isSome_map]
    rw [lookup_views, hmasks, hdocs]
    simp only [hmem]
    rcases hall k with ⟨h₁, h₂⟩ | ⟨h₁, h₂⟩
    · rw [h₁, h₂]
      cases docs.lookup k <;> rfl
    · rw [h₁, h₂]
      rfl

lemma getDocuments_eq {s : LocalStore D} (h : s.Consistent) (keys : List ResourcePath) :
    ∃ c views, s.getDocuments keys = .ok ({ s with documentOverlayCache := c }, views) ∧
      Consistent { s with documentOverlayCache := c } ∧
      ∀ k, views.lookup k = if k ∈ keys then some ⟨s.view k, none⟩ else none := by
  obtain ⟨c, views, hv, hc, hlookup⟩ :=
    computeViews_eq h (RemoteDocumentCache.getAll_keyed h.remote keys) []
  refine ⟨c, views, hv, hc, fun k => ?_⟩
  rw [hlookup, RemoteDocumentCache.lookup_getAll]
  split <;> rfl

lemma getDocument_eq {s : LocalStore D} (h : s.Consistent) (key : ResourcePath) :
    ∃ d, s.getDocument key = .ok d ∧ d.Same (s.view key) := by
  have hkey := RemoteDocumentCache.get_key h.remote key
  rw [view, pending, replay_pending, hkey]
  unfold getDocument DocumentOverlayCache.getOverlay
  rw [h.overlays]
  cases ho : overlayOf s.mutationQueue.queue key with
  | none => exact ⟨_, rfl, rfl, rfl, rfl, rfl, rfl⟩
  | some o =>
    obtain ⟨hu, hk⟩ := h.of_overlay ho
    have ha := applyToLocalView_eq hu (d := .invalidDocument key) hk (some [])
    refine ⟨_, ?_, outcome_same o.mutation (d := .invalidDocument key) hkey.symm⟩
    simp only [getBaseDocument, ha, bind, Except.bind]

lemma same_view {s : LocalStore D} (h : s.Consistent) {key : ResourcePath}
    {d : MutableDocument D} (hd : s.getDocument key = .ok d) : d.Same (s.view key) := by
  obtain ⟨e, he, hsame⟩ := getDocument_eq h key
  rw [hd] at he
  exact Except.ok.inj he ▸ hsame

lemma replay_replay (ms : List (Mutation D)) (d : MutableDocument D) :
    replay ms (replay ms d) = replay ms d := by
  rw [replay, replay_key, replay]
  cases lastOn d.key ms with
  | none => rfl
  | some m => exact outcome_outcome m m d

lemma outcome_valid (m : Mutation D) (d : MutableDocument D) :
    (m.outcome d).isValidDocument = true := by
  cases m <;> rfl

lemma applyToLocalDocumentSet_eq {b : MutationBatch D} (hb : ∀ m ∈ b.mutations, m.Unconditional)
    {documents : OverlayedDocumentMap D}
    (hd : ∀ k ∈ b.keys, ∃ e, documents.lookup k = some e ∧ e.document.key = k) :
    ∃ found, applyToLocalDocumentSet b documents = .ok found ∧
      (∀ k, found.1.lookup k = if k ∈ b.keys then (documents.lookup k).map fun e =>
        { e with document := replay b.mutations e.document } else documents.lookup k) ∧
      (∀ m ∈ found.2, overlayOf [b] m.key = some ⟨b.batchId, m⟩) ∧
      ∀ k, (∃ m ∈ found.2, m.key = k) ↔ k ∈ b.keys := by
  obtain ⟨found, hloop, hdocs, hall, hhas⟩ := foldlM_loop (f := applyToLocalDocument b)
    (l := b.mutations) (b := (documents, []))
    (I := fun done found =>
      (∀ k, found.1.lookup k = if ∃ m ∈ done, m.key = k then (documents.lookup k).map fun e =>
        { e with document := replay b.mutations e.document } else documents.lookup k) ∧
      (∀ m ∈ found.2, overlayOf [b] m.key = some ⟨b.batchId, m⟩) ∧
      ∀ k, (∃ m ∈ found.2, m.key = k) ↔ ∃ m ∈ done, m.key = k)
    (by simp) (by
      intro done m rest found hl hi
      obtain ⟨hdocs, hall, hhas⟩ := hi
      have hm : m ∈ b.mutations := by simp [hl]
      have hkey : m.key ∈ b.keys := MutationQueue.mem_batch_keys.mpr ⟨m, hm, rfl⟩
      obtain ⟨e, he, hek⟩ := hd m.key hkey
      obtain ⟨last, hlast⟩ := Option.ne_none_iff_exists'.mp (MutationBatch.mem_keys.mp hkey)
      -- the document as the loop has it, mutated by the batch before or not yet
      obtain ⟨doc, hdoc, hdockey, hreplay⟩ : ∃ doc,
          found.1.lookup m.key = some { e with document := doc } ∧ doc.key = m.key ∧
          replay b.mutations doc = replay b.mutations e.document := by
        rw [hdocs, he]
        split
        · exact ⟨replay b.mutations e.document, rfl, by rw [replay_key, hek], replay_replay _ _⟩
        · exact ⟨e.document, rfl, hek, rfl⟩
      have hout : replay b.mutations doc = last.outcome doc := by
        rw [replay, hdockey, hlast]
      have happly : b.applyToLocalDocument doc e.mutatedFields =
          .ok (last.outcome doc, none) := by
        rw [MutationBatch.applyToLocalDocument, MutationBatch.applyToLocalView_eq hb, hout,
          hdockey, if_neg (by rw [hlast]; exact Option.some_ne_none _)]
      obtain ⟨hlastm, hlastk⟩ := mem_of_lastOn hlast
      have hcalc := calculateOverlayMutation_outcome (hb last hlastm) (d := doc)
        (hlastk.trans hdockey.symm)
      refine ⟨(found.1.insert m.key { e with document := last.outcome doc },
        if m.key ∈ found.2.map Mutation.key then found.2 else found.2 ++ [last]), ?_,
        fun k => ?_, fun m' hm' => ?_, fun k => ?_⟩
      · simp only [applyToLocalDocument, hdoc, happly, bind, Except.bind, hcalc, outcome_valid,
          if_true, Option.toList_some]
      · by_cases hk : k = m.key
        · subst hk
          simp [he, ← hout, hreplay]
        · have hk' : ¬ m.key = k := fun h => hk h.symm
          simp [AList.lookup_insert_ne hk, hdocs, hk', or_and_right, exists_or]
      · have hnew : overlayOf [b] last.key = some ⟨b.batchId, last⟩ := by
          rw [overlayOf_singleton, hlastk, hlast]
          rfl
        split at hm'
        · exact hall m' hm'
        · rcases List.mem_append.mp hm' with hm' | hm'
          · exact hall m' hm'
          · exact List.mem_singleton.mp hm' ▸ hnew
      · have hcases : (∃ m' ∈ done ++ [m], m'.key = k) ↔
            (∃ m' ∈ found.2, m'.key = k) ∨ m.key = k := by
          simp [hhas, or_and_right, exists_or]
        rw [hcases]
        split
        · rename_i hmem
          refine ⟨Or.inl, ?_⟩
          rintro (h | rfl)
          · exact h
          · exact List.mem_map.mp hmem
        · simp [or_and_right, exists_or, hlastk])
  exact ⟨found, hloop, fun k => by simp only [hdocs, MutationQueue.mem_batch_keys], hall,
    fun k => (hhas k).trans MutationQueue.mem_batch_keys.symm⟩

omit [Inhabited D] in
lemma pending_append (s : LocalStore D) {q : MutationQueue D} {b : MutationBatch D}
    (hq : q.queue = s.mutationQueue.queue ++ [b]) :
    pendingMutations q.queue = s.pending ++ b.mutations := by
  simp [hq, pending, pendingMutations]

lemma writeLocally_eq {s : LocalStore D} (h : s.Consistent) {mutations : List (Mutation D)}
    (hne : mutations ≠ []) (hm : ∀ m ∈ mutations, m.Unconditional) : ∃ s' b views,
      s.writeLocally mutations = .ok (s', b, views) ∧ s'.Consistent ∧ b.mutations = mutations ∧
      s'.mutationQueue.queue = s.mutationQueue.queue ++ [b] ∧
      s'.mutationQueue.nextBatchId = s.mutationQueue.nextBatchId + 1 ∧
      b.batchId = s.mutationQueue.nextBatchId ∧ Reports views s s' := by
  obtain ⟨c, views, hviews, hc, hlookup⟩ := computeViews_eq h
    (RemoteDocumentCache.getAll_keyed h.remote (mutations.map Mutation.key).dedup) []
  obtain ⟨q, hq, hqueue, hnext, hadd⟩ := MutationQueue.addMutationBatch_eq h.indexed hne
  have hdocs : ∀ k ∈ (MutationBatch.mk s.mutationQueue.nextBatchId mutations hne).keys,
      ∃ e, views.lookup k = some e ∧ e.document.key = k := by
    intro k hk
    have hk' : k ∈ (mutations.map Mutation.key).dedup := hk
    refine ⟨⟨replay s.pending (RemoteDocumentCache.get k s.remoteDocumentCache), none⟩, ?_, ?_⟩
    · rw [hlookup, RemoteDocumentCache.lookup_getAll, if_pos hk']
      rfl
    · rw [replay_key, RemoteDocumentCache.get_key h.remote]
  obtain ⟨found, hfound, hviews', hall, hhas⟩ :=
    applyToLocalDocumentSet_eq (b := ⟨_, mutations, hne⟩) hm hdocs
  obtain ⟨c', hsave, hc', hlookup'⟩ := DocumentOverlayCache.saveOverlays_eq hc.coherent hall
  refine ⟨⟨s.remoteDocumentCache, s.lastRemoteSnapshotVersion, q, c'⟩, ⟨_, mutations, hne⟩,
    found.1, ?_, ⟨hq, ?_, hc', fun k => ?_, h.remote⟩, rfl, hqueue, hnext, rfl,
    .of_keys (mutations.map Mutation.key).dedup (fun k => ?_) fun k hk => ?_⟩
  · have hassert : hardAssert (∀ m ∈ mutations, (views.lookup m.key).isSome)
        "Failed to find overlayed document with mutation key" = .ok () := by
      refine if_pos fun m hm => ?_
      obtain ⟨e, he, _⟩ := hdocs m.key (MutationQueue.mem_batch_keys.mpr ⟨m, hm, rfl⟩)
      rw [he]
      rfl
    simp only [writeLocally, hviews, bind, Except.bind, hassert, hadd, hfound, hsave]
  · intro b hb
    rw [hqueue] at hb
    rcases List.mem_append.mp hb with hb | hb
    · exact h.unconditional b hb
    · exact List.mem_singleton.mp hb ▸ hm
  · rw [hlookup', hqueue, overlayOf_append]
    simp only [hhas]
    split
    · rename_i hk
      obtain ⟨m, hlast⟩ := Option.ne_none_iff_exists'.mp (MutationBatch.mem_keys.mp hk)
      rw [overlayOf_singleton, hlast]
      rfl
    · rename_i hk
      have hnone : overlayOf [⟨s.mutationQueue.nextBatchId, mutations, hne⟩] k = none :=
        overlayOf_eq_none.mpr (by simpa using hk)
      rw [hc.overlays, hnone]
      rfl
  · rw [hviews', hlookup, RemoteDocumentCache.lookup_getAll]
    have hp : pending ⟨s.remoteDocumentCache, s.lastRemoteSnapshotVersion, q, c'⟩ =
        s.pending ++ mutations :=
      pending_append s hqueue
    by_cases hk : k ∈ (mutations.map Mutation.key).dedup
    · have hk' : k ∈ (MutationBatch.mk s.mutationQueue.nextBatchId mutations hne).keys := hk
      rw [if_pos hk, if_pos hk', view, hp]
      simp only [if_pos hk, Option.map_some, replay_append]
    · have hk' : k ∉ (MutationBatch.mk s.mutationQueue.nextBatchId mutations hne).keys := hk
      rw [if_neg hk, if_neg hk', if_neg hk]
      rfl
  · have hk' : k ∉ (MutationBatch.mk s.mutationQueue.nextBatchId mutations hne).keys := hk
    rw [view_eq (s := ⟨s.remoteDocumentCache, s.lastRemoteSnapshotVersion, q, c'⟩) h.remote,
      view_eq h.remote, hqueue, overlayOf_append, overlayOf_eq_none.mpr (by simpa using hk')]
    rfl

end LocalStore

end MobileApps.Firestore

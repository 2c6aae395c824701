import MobileApps.Firestore.LocalStore

namespace MobileApps.Firestore

open Library.Runs Library.Ascending

variable {D : Type}

namespace DocumentOverlayCache

def Coherent (c : DocumentOverlayCache D) : Prop :=
  ∀ id k, (∃ keys, c.overlayByBatchId.lookup id = some keys ∧ k ∈ keys) ↔
    ∃ o, c.overlays.lookup k = some o ∧ o.largestBatchId = id

lemma empty_coherent : (empty : DocumentOverlayCache D).Coherent := by
  intro id k
  simp [empty]

lemma saveOverlay_eq {c : DocumentOverlayCache D} (h : c.Coherent) (id : ℤ) (m : Mutation D) :
    ∃ c', c.saveOverlay id m = .ok c' ∧ c'.Coherent ∧
      ∀ k, c'.overlays.lookup k = if k = m.key then some ⟨id, m⟩ else c.overlays.lookup k := by
  -- the key is taken out of the index first
  obtain ⟨byBatchId, hsave, hby⟩ : ∃ byBatchId : DocumentKeysByBatchIdMap,
      c.saveOverlay id m = .ok ⟨c.overlays.insert m.key ⟨id, m⟩, byBatchId.insert id
        (((byBatchId.lookup id).getD []).insert m.key)⟩ ∧
      ∀ id k, (∃ keys, byBatchId.lookup id = some keys ∧ k ∈ keys) ↔
        k ≠ m.key ∧ ∃ o, c.overlays.lookup k = some o ∧ o.largestBatchId = id := by
    cases hm : c.overlays.lookup m.key with
    | none =>
      refine ⟨c.overlayByBatchId, by simp [saveOverlay, hm, bind, Except.bind], fun id k => ?_⟩
      rw [h id k]
      refine (and_iff_right_of_imp ?_).symm
      rintro ⟨o, ho, _⟩ rfl
      rw [hm] at ho
      cases ho
    | some existing =>
      obtain ⟨keys, hkeys, _⟩ := (h existing.largestBatchId m.key).mpr ⟨existing, hm, rfl⟩
      refine ⟨c.overlayByBatchId.insert existing.largestBatchId (keys.filter fun k => k ≠ m.key),
        by simp [saveOverlay, hm, hkeys, bind, Except.bind], fun id k => ?_⟩
      rw [← h id k]
      by_cases hid : id = existing.largestBatchId
      · subst hid
        simp [hkeys, and_comm]
      · rw [AList.lookup_insert_ne hid]
        refine (and_iff_right_of_imp ?_).symm
        intro hk hkm
        obtain ⟨o, ho, hoid⟩ := (h id k).mp hk
        rw [hkm, hm] at ho
        exact hid ((Option.some.inj ho) ▸ hoid.symm)
  refine ⟨_, hsave, fun id' k => ?_, fun k => ?_⟩
  · by_cases hk : k = m.key
    · subst hk
      simp only [AList.lookup_insert, Option.some.injEq, exists_eq_left']
      by_cases hid : id' = id
      · subst hid
        simp
      · rw [AList.lookup_insert_ne hid, hby]
        exact iff_of_false (fun hn => hn.1 rfl) (fun he => hid he.symm)
    · rw [AList.lookup_insert_ne hk]
      by_cases hid : id' = id
      · subst hid
        refine Iff.trans ?_ ((hby id' k).trans (and_iff_right hk))
        cases hl : byBatchId.lookup id' <;> simp [hk]
      · rw [AList.lookup_insert_ne hid, hby]
        exact and_iff_right hk
  · split
    · rename_i hk
      rw [hk, AList.lookup_insert]
    · rename_i hk
      rw [AList.lookup_insert_ne hk]

lemma lookup_erasures (overlays : AList fun _ : ResourcePath => Overlay D)
    (keys : List ResourcePath) (k : ResourcePath) :
    (keys.foldl (fun overlays key => overlays.erase key) overlays).lookup k =
      if k ∈ keys then none else overlays.lookup k := by
  induction keys generalizing overlays with
  | nil => simp
  | cons key keys ih =>
    rw [List.foldl_cons, ih]
    by_cases hk : k = key
    · subst hk
      simp
    · simp [hk, AList.lookup_erase_ne hk]

lemma removeOverlaysForBatchId_eq {c : DocumentOverlayCache D} (h : c.Coherent) (id : ℤ) :
    (c.removeOverlaysForBatchId id).Coherent ∧
      ∀ k, (c.removeOverlaysForBatchId id).overlays.lookup k =
        (c.overlays.lookup k).filter fun o => o.largestBatchId ≠ id := by
  have hlookup : ∀ k, (c.removeOverlaysForBatchId id).overlays.lookup k =
      (c.overlays.lookup k).filter fun o => o.largestBatchId ≠ id := by
    intro k
    unfold removeOverlaysForBatchId
    have hk := h id k
    cases hl : c.overlayByBatchId.lookup id with
    | none =>
      simp only [hl, false_and, exists_false, false_iff, reduceCtorEq] at hk
      cases ho : c.overlays.lookup k with
      | none => rfl
      | some o =>
        have hne : o.largestBatchId ≠ id := fun he => hk ⟨o, ho, he⟩
        exact (Option.filter_eq_some_iff.mpr ⟨rfl, by simpa using hne⟩).symm
    | some keys =>
      simp only [hl, Option.some.injEq, exists_eq_left'] at hk
      simp only [lookup_erasures, hk]
      cases ho : c.overlays.lookup k with
      | none => simp
      | some o =>
        by_cases he : o.largestBatchId = id <;> simp [he, Option.filter]
  have hindex : ∀ id', (c.removeOverlaysForBatchId id).overlayByBatchId.lookup id' =
      if id' = id then none else c.overlayByBatchId.lookup id' := by
    intro id'
    unfold removeOverlaysForBatchId
    by_cases hid : id' = id
    · subst hid
      cases hl : c.overlayByBatchId.lookup id' <;> simp [hl]
    · cases hl : c.overlayByBatchId.lookup id <;> simp [hid, AList.lookup_erase_ne hid]
  refine ⟨fun id' k => ?_, hlookup⟩
  rw [hlookup, hindex]
  by_cases hid : id' = id
  · subst hid
    simp [Option.filter_eq_some_iff]
  · simp only [hid, if_false, h id' k, Option.filter_eq_some_iff, decide_eq_true_eq]
    refine exists_congr fun o => and_congr_left fun ho => (and_iff_left ?_).symm
    rw [ho]
    exact hid

end DocumentOverlayCache

def overlayOf : List (MutationBatch D) → ResourcePath → Option (Overlay D)
  | [], _ => none
  | b :: rest, k => (overlayOf rest k).or ((lastOn k b.mutations).map (Overlay.mk b.batchId))

def pendingMutations (queue : List (MutationBatch D)) : List (Mutation D) :=
  queue.flatMap MutationBatch.mutations

def Unconditional (queue : List (MutationBatch D)) : Prop :=
  ∀ b ∈ queue, ∀ m ∈ b.mutations, m.Unconditional

lemma overlayOf_append (p q : List (MutationBatch D)) (k : ResourcePath) :
    overlayOf (p ++ q) k = (overlayOf q k).or (overlayOf p k) := by
  induction p with
  | nil => simp [overlayOf]
  | cons b p ih => rw [List.cons_append, overlayOf, ih, overlayOf, Option.or_assoc]

lemma overlayOf_singleton (b : MutationBatch D) (k : ResourcePath) :
    overlayOf [b] k = (lastOn k b.mutations).map (Overlay.mk b.batchId) := by
  simp [overlayOf]

lemma lastOn_pending (queue : List (MutationBatch D)) (k : ResourcePath) :
    lastOn k (pendingMutations queue) = (overlayOf queue k).map Overlay.mutation := by
  induction queue with
  | nil => rfl
  | cons b rest ih =>
    have hp : pendingMutations (b :: rest) = b.mutations ++ pendingMutations rest := rfl
    rw [hp, lastOn_append, ih, overlayOf]
    cases overlayOf rest k <;> cases lastOn k b.mutations <;> rfl

lemma of_overlayOf {queue : List (MutationBatch D)} {k : ResourcePath} {o : Overlay D}
    (h : overlayOf queue k = some o) : ∃ b ∈ queue, o.largestBatchId = b.batchId ∧
      o.mutation ∈ b.mutations ∧ o.mutation.key = k := by
  induction queue with
  | nil => cases h
  | cons b rest ih =>
    rw [overlayOf, Option.or_eq_some_iff] at h
    rcases h with h | ⟨_, h⟩
    · obtain ⟨b', hb', h⟩ := ih h
      exact ⟨b', List.mem_cons_of_mem _ hb', h⟩
    · obtain ⟨m, hm, rfl⟩ := Option.map_eq_some_iff.mp h
      exact ⟨b, List.mem_cons_self, rfl, (mem_of_lastOn hm).1, (mem_of_lastOn hm).2⟩

lemma overlayOf_eq_none {queue : List (MutationBatch D)} {k : ResourcePath} :
    overlayOf queue k = none ↔ ∀ b ∈ queue, k ∉ b.keys := by
  induction queue with
  | nil => simp [overlayOf]
  | cons b rest ih => simp [overlayOf, ih, MutationBatch.mem_keys, and_comm]

lemma overlayOf_isSome {queue : List (MutationBatch D)} {k : ResourcePath} :
    (overlayOf queue k).isSome ↔ ∃ b ∈ queue, k ∈ b.keys := by
  rw [Option.isSome_iff_ne_none, ne_eq, overlayOf_eq_none]
  simp only [not_forall, not_not, exists_prop]

lemma overlayOf_tail {b : MutationBatch D} {rest : List (MutationBatch D)}
    (h : Ascends MutationBatch.batchId (b :: rest)) (k : ResourcePath) :
    ((overlayOf (b :: rest) k).filter fun o => o.largestBatchId ≠ b.batchId) =
      overlayOf rest k := by
  rw [overlayOf]
  cases hr : overlayOf rest k with
  | none => cases lastOn k b.mutations <;> simp [Option.filter]
  | some o =>
    obtain ⟨b', hb', hid, _⟩ := of_overlayOf hr
    have hlt := (List.pairwise_cons.mp h).1 b' hb'
    have hne : o.largestBatchId ≠ b.batchId := by omega
    simp [Option.filter, hne]

variable [Inhabited D]

lemma replay_pending (queue : List (MutationBatch D)) (d : MutableDocument D) :
    replay (pendingMutations queue) d =
      (overlayOf queue d.key).elim d fun o => o.mutation.outcome d := by
  rw [replay, lastOn_pending]
  cases overlayOf queue d.key <;> rfl

lemma replay_untouched {b : MutationBatch D} {d : MutableDocument D} (h : d.key ∉ b.keys) :
    replay b.mutations d = d := by
  have hl : lastOn d.key b.mutations = none := by
    by_contra hne
    exact h (MutationBatch.mem_keys.mpr hne)
  rw [replay, hl]

lemma getDocumentFromBatches_eq {s : LocalStore D} {batches : List (MutationBatch D)}
    (h : Unconditional batches) (key : ResourcePath) : s.getDocumentFromBatches key batches =
      .ok (replay (pendingMutations batches)
        (RemoteDocumentCache.get key s.remoteDocumentCache)) := by
  unfold LocalStore.getDocumentFromBatches
  generalize RemoteDocumentCache.get key s.remoteDocumentCache = d
  induction batches generalizing d with
  | nil => rfl
  | cons b rest ih =>
    have hb := MutationBatch.applyToLocalView_eq (h b List.mem_cons_self) d (some [])
    have hp : pendingMutations (b :: rest) = b.mutations ++ pendingMutations rest := rfl
    rw [List.foldlM_cons, hp, replay_append, MutationBatch.applyToLocalDocument, hb]
    exact ih (fun b' hb' => h b' (List.mem_cons_of_mem _ hb')) (replay b.mutations d)

def Keyed (docs : MutableDocumentMap D) : Prop := ∀ k d, docs.lookup k = some d → d.key = k

lemma recalculateBatch_eq {b : MutationBatch D} (hb : ∀ m ∈ b.mutations, m.Unconditional)
    {s : Recalculation D} (hs : Keyed s.docs) : ∃ s', recalculateBatch s b = .ok s' ∧
      (∀ k, s'.docs.lookup k = (s.docs.lookup k).map (replay b.mutations)) ∧
      (∀ k, s'.masks.lookup k =
        if k ∈ b.keys ∧ (s.docs.lookup k).isSome then some none else s.masks.lookup k) ∧
      s'.documentsByBatchId = s.documentsByBatchId ++
        [(b.batchId, b.keys.filter fun k => (s.docs.lookup k).isSome)] := by
  obtain ⟨s', hloop, hdocs, hmasks, hby⟩ := foldlM_loop (f := recalculateDocument b)
    (l := b.keys.filter fun k => (s.docs.lookup k).isSome) (b := s)
    (I := fun done s' =>
      (∀ k, s'.docs.lookup k =
        if k ∈ done then (s.docs.lookup k).map (replay b.mutations) else s.docs.lookup k) ∧
      (∀ k, s'.masks.lookup k = if k ∈ done then some none else s.masks.lookup k) ∧
      s'.documentsByBatchId = s.documentsByBatchId)
    (by simp) (by
      intro done key rest s' hl hi
      obtain ⟨hdocs, hmasks, hby⟩ := hi
      have hnodup : (done ++ key :: rest).Nodup := hl ▸ (List.nodup_dedup _).filter _
      have hfresh : key ∉ done := fun hm =>
        (List.nodup_append.mp hnodup).2.2 key hm key List.mem_cons_self rfl
      have hmem : key ∈ b.keys.filter fun k => (s.docs.lookup k).isSome := by simp [hl]
      obtain ⟨hkey, hsome⟩ := List.mem_filter.mp hmem
      obtain ⟨d, hd⟩ := Option.isSome_iff_exists.mp hsome
      have hdk : d.key = key := hs key d hd
      have hlookup : s'.docs.lookup key = some d := by rw [hdocs, if_neg hfresh, hd]
      have happly := MutationBatch.applyToLocalView_eq hb d ((s'.masks.lookup key).getD (some []))
      rw [if_neg (hdk ▸ MutationBatch.mem_keys.mp hkey)] at happly
      refine ⟨{ s' with
        docs := s'.docs.insert key (replay b.mutations d)
        masks := s'.masks.insert key none }, ?_, fun k => ?_, fun k => ?_, hby⟩
      · simp only [recalculateDocument, hlookup, happly]
        rfl
      · by_cases hk : k = key
        · subst hk
          simp [hd]
        · simp [AList.lookup_insert_ne hk, hdocs, hk]
      · by_cases hk : k = key
        · subst hk
          simp
        · simp [AList.lookup_insert_ne hk, hmasks, hk])
  refine ⟨{ s' with documentsByBatchId := s'.documentsByBatchId ++
    [(b.batchId, b.keys.filter fun k => (s.docs.lookup k).isSome)] }, ?_, fun k => ?_,
    fun k => ?_, ?_⟩
  · simp only [recalculateBatch, hloop]
    rfl
  · simp only [hdocs, List.mem_filter]
    cases hd : s.docs.lookup k with
    | none => simp
    | some d =>
      obtain rfl := hs k d hd
      by_cases hk : d.key ∈ b.keys
      · simp [hk]
      · simp [hk, replay_untouched hk]
  · simp only [hmasks, List.mem_filter]
  · rw [hby]

lemma recalculateBatches_eq {batches : List (MutationBatch D)} (hb : Unconditional batches)
    {docs : MutableDocumentMap D} (hd : Keyed docs) : ∃ r,
      batches.foldlM recalculateBatch ⟨docs, ∅, []⟩ = .ok r ∧
      (∀ k, r.docs.lookup k = (docs.lookup k).map (replay (pendingMutations batches))) ∧
      (∀ k, r.masks.lookup k = if (docs.lookup k).isSome ∧ (overlayOf batches k).isSome
        then some none else none) ∧
      r.documentsByBatchId = batches.map fun b =>
        (b.batchId, b.keys.filter fun k => (docs.lookup k).isSome) := by
  refine foldlM_loop (f := recalculateBatch) (I := fun done r =>
    (∀ k, r.docs.lookup k = (docs.lookup k).map (replay (pendingMutations done))) ∧
    (∀ k, r.masks.lookup k = if (docs.lookup k).isSome ∧ (overlayOf done k).isSome
      then some none else none) ∧
    r.documentsByBatchId = done.map fun b =>
      (b.batchId, b.keys.filter fun k => (docs.lookup k).isSome)) ?_ ?_
  · refine ⟨fun k => ?_, fun k => ?_, rfl⟩
    · cases docs.lookup k <;> rfl
    · simp [overlayOf]
  · intro done b rest r hl hi
    obtain ⟨hdocs, hmasks, hby⟩ := hi
    have hkeyed : Keyed r.docs := by
      intro k d hk
      rw [hdocs] at hk
      obtain ⟨d', hd', rfl⟩ := Option.map_eq_some_iff.mp hk
      rw [replay_key]
      exact hd k d' hd'
    have hsome : ∀ k, (r.docs.lookup k).isSome = (docs.lookup k).isSome := fun k => by
      rw [hdocs, Option.isSome_map]
    have hbm := hb b (by simp [hl])
    obtain ⟨r', hr', hdocs', hmasks', hby'⟩ := recalculateBatch_eq hbm hkeyed
    refine ⟨r', hr', fun k => ?_, fun k => ?_, ?_⟩
    · have hp : pendingMutations (done ++ [b]) = pendingMutations done ++ b.mutations := by
        simp [pendingMutations]
      rw [hdocs', hdocs, Option.map_map, hp]
      exact Option.map_congr fun d _ => (replay_append _ _ d).symm
    · rw [hmasks', hmasks, hsome, overlayOf_append, overlayOf_singleton]
      simp only [MutationBatch.mem_keys]
      cases lastOn k b.mutations <;> cases docs.lookup k <;> simp
    · rw [hby', hby, List.map_append]
      simp only [hsome, List.map_cons, List.map_nil]

omit [Inhabited D] in
lemma DocumentOverlayCache.saveOverlays_eq {c : DocumentOverlayCache D} (h : c.Coherent) {id : ℤ}
    {ms : List (Mutation D)} {expected : ResourcePath → Option (Overlay D)}
    (hm : ∀ m ∈ ms, expected m.key = some ⟨id, m⟩) : ∃ c', c.saveOverlays id ms = .ok c' ∧
      c'.Coherent ∧ ∀ k, c'.overlays.lookup k =
        if ∃ m ∈ ms, m.key = k then expected k else c.overlays.lookup k := by
  refine foldlM_loop (f := fun (c : DocumentOverlayCache D) m => c.saveOverlay id m)
    (I := fun done c' => c'.Coherent ∧ ∀ k, c'.overlays.lookup k =
      if ∃ m ∈ done, m.key = k then expected k else c.overlays.lookup k) ⟨h, by simp⟩ ?_
  intro done m rest c₁ hl hi
  obtain ⟨hc₁, hlookup⟩ := hi
  obtain ⟨c₂, hsave, hc₂, hlookup'⟩ := saveOverlay_eq hc₁ id m
  refine ⟨c₂, hsave, hc₂, fun k => ?_⟩
  rw [hlookup', hlookup]
  by_cases hk : k = m.key
  · subst hk
    simp [hm m (by simp [hl])]
  · have hk' : ¬ m.key = k := fun he => hk he.symm
    simp [hk, hk', or_and_right, exists_or]

omit [Inhabited D] in
lemma overlayOf_filter {queue : List (MutationBatch D)} {p : MutationBatch D → Bool}
    {k : ResourcePath} (h : ∀ b ∈ queue, k ∈ b.keys → p b = true) :
    overlayOf (queue.filter p) k = overlayOf queue k := by
  induction queue with
  | nil => rfl
  | cons b rest ih =>
    have ih := ih fun b' hb' => h b' (List.mem_cons_of_mem _ hb')
    by_cases hp : p b = true
    · rw [List.filter_cons_of_pos hp, overlayOf, ih, overlayOf]
    · have hl : lastOn k b.mutations = none := by
        by_contra hne
        exact hp (h b List.mem_cons_self (MutationBatch.mem_keys.mpr hne))
      rw [List.filter_cons_of_neg hp, ih, overlayOf, hl]
      simp

lemma recalculatedOverlays_eq {batches : List (MutationBatch D)} (hb : Unconditional batches)
    {docs : MutableDocumentMap D} (hd : Keyed docs) {r : Recalculation D}
    (hdocs : ∀ k, r.docs.lookup k = (docs.lookup k).map (replay (pendingMutations batches)))
    (hmasks : ∀ k, r.masks.lookup k = if (docs.lookup k).isSome ∧ (overlayOf batches k).isSome
      then some none else none)
    {id : ℤ} {keys processed : List ResourcePath}
    (hkeys : ∀ k ∈ keys, (docs.lookup k).isSome ∧
      (k ∉ processed → ∃ m, overlayOf batches k = some ⟨id, m⟩)) : ∃ found,
      keys.foldlM (recalculatedOverlay r) ([], processed) = .ok found ∧
      (∀ k, k ∈ found.2 ↔ k ∈ processed ∨ k ∈ keys) ∧
      (∀ m ∈ found.1, overlayOf batches m.key = some ⟨id, m⟩) ∧
      ∀ k, (∃ m ∈ found.1, m.key = k) ↔ k ∈ keys ∧ k ∉ processed := by
  refine foldlM_loop (f := recalculatedOverlay r) (I := fun done found =>
    (∀ k, k ∈ found.2 ↔ k ∈ processed ∨ k ∈ done) ∧
    (∀ m ∈ found.1, overlayOf batches m.key = some ⟨id, m⟩) ∧
    ∀ k, (∃ m ∈ found.1, m.key = k) ↔ k ∈ done ∧ k ∉ processed) (by simp) ?_
  intro done key rest found hl hi
  obtain ⟨hfound, hall, hhas⟩ := hi
  obtain ⟨hsome, hover⟩ := hkeys key (by simp [hl])
  by_cases hp : key ∈ found.2
  · refine ⟨found, if_pos hp, fun k => ?_, hall, fun k => ?_⟩
    · rw [hfound, List.mem_append, List.mem_singleton]
      refine ⟨fun h => by tauto, ?_⟩
      rintro (h | h | rfl)
      · exact Or.inl h
      · exact Or.inr h
      · exact (hfound k).mp hp
    · rw [hhas, List.mem_append, List.mem_singleton]
      refine ⟨fun h => by tauto, ?_⟩
      rintro ⟨h | rfl, hn⟩
      · exact ⟨h, hn⟩
      · exact ⟨((hfound k).mp hp).resolve_left hn, hn⟩
  · have hnp : key ∉ processed := fun h => hp ((hfound key).mpr (Or.inl h))
    obtain ⟨m, hm⟩ := hover hnp
    obtain ⟨d, hdoc⟩ := Option.isSome_iff_exists.mp hsome
    obtain rfl := hd key d hdoc
    obtain ⟨b, hbm, _, hmem, hk⟩ := of_overlayOf hm
    have hdoc' : r.docs.lookup d.key = some (m.outcome d) := by
      rw [hdocs, hdoc, Option.map_some, replay_pending, hm]
      rfl
    have hmask : (r.masks.lookup d.key).getD none = none := by simp [hmasks, hdoc, hm]
    have hcalc := calculateOverlayMutation_outcome (hb b hbm m hmem) hk
    refine ⟨(found.1 ++ [m], d.key :: found.2), ?_, fun k => ?_, fun m' hm' => ?_, fun k => ?_⟩
    · simp only [recalculatedOverlay, hp, if_false, hdoc', hmask, hcalc]
      rfl
    · simp only [List.mem_cons, hfound, List.mem_append, List.not_mem_nil, or_false]
      tauto
    · rcases List.mem_append.mp hm' with hm' | hm'
      · exact hall m' hm'
      · rw [List.mem_singleton.mp hm', hk, hm]
    · have hkm : m.key = d.key := hk
      simp only [List.mem_append, List.mem_singleton, or_and_right, exists_or, exists_eq_left,
        hhas, hkm]
      constructor
      · rintro (h | rfl)
        · exact Or.inl h
        · exact Or.inr ⟨rfl, hnp⟩
      · rintro (h | ⟨rfl, _⟩)
        · exact Or.inl h
        · exact Or.inr rfl

lemma saveRecalculated_eq {batches : List (MutationBatch D)} (hb : Unconditional batches)
    {docs : MutableDocumentMap D} (hd : Keyed docs) {r : Recalculation D}
    (hdocs : ∀ k, r.docs.lookup k = (docs.lookup k).map (replay (pendingMutations batches)))
    (hmasks : ∀ k, r.masks.lookup k = if (docs.lookup k).isSome ∧ (overlayOf batches k).isSome
      then some none else none)
    (hby : r.documentsByBatchId = batches.map fun b =>
      (b.batchId, b.keys.filter fun k => (docs.lookup k).isSome))
    {c : DocumentOverlayCache D} (hc : c.Coherent) : ∃ saved,
      r.documentsByBatchId.reverse.foldlM (saveRecalculated r) ([], c) = .ok saved ∧
      saved.2.Coherent ∧ ∀ k, saved.2.overlays.lookup k =
        if (docs.lookup k).isSome ∧ (overlayOf batches k).isSome then overlayOf batches k
        else c.overlays.lookup k := by
  obtain ⟨saved, hloop, hprocessed, hcoherent, hlookup⟩ := foldlM_loop (f := saveRecalculated r)
    (l := r.documentsByBatchId.reverse) (b := ([], c))
    (I := fun done saved => (∀ k, k ∈ saved.1 ↔ ∃ e ∈ done, k ∈ e.2) ∧ saved.2.Coherent ∧
      ∀ k, saved.2.overlays.lookup k =
        if k ∈ saved.1 then overlayOf batches k else c.overlays.lookup k)
    ⟨by simp, hc, by simp⟩ (by
      intro done entry rest saved hl hi
      obtain ⟨hprocessed, hcoherent, hlookup⟩ := hi
      -- the batch of this entry, with the batches that are done behind it
      have hsplit : (batches.map fun b =>
          (b.batchId, b.keys.filter fun k => (docs.lookup k).isSome)) =
          rest.reverse ++ entry :: done.reverse := by
        rw [← hby, ← List.reverse_reverse r.documentsByBatchId, hl]
        simp
      obtain ⟨before, behind, rfl, _, hbehind⟩ := List.map_eq_append_iff.mp hsplit
      obtain ⟨b, after, rfl, rfl, hafter⟩ := List.map_eq_cons_iff.mp hbehind
      have hkeys : ∀ k ∈ b.keys.filter fun k => (docs.lookup k).isSome,
          (docs.lookup k).isSome ∧ (k ∉ saved.1 →
            ∃ m, overlayOf (before ++ b :: after) k = some ⟨b.batchId, m⟩) := by
        intro k hk
        obtain ⟨hkb, hsome⟩ := List.mem_filter.mp hk
        refine ⟨hsome, fun hn => ?_⟩
        have hnone : overlayOf after k = none := by
          refine overlayOf_eq_none.mpr fun b' hb' hk' => hn ((hprocessed k).mpr ?_)
          refine ⟨(b'.batchId, b'.keys.filter fun k => (docs.lookup k).isSome), ?_,
            List.mem_filter.mpr ⟨hk', hsome⟩⟩
          rw [← List.mem_reverse, ← hafter]
          exact List.mem_map_of_mem hb'
        obtain ⟨m, hm⟩ := Option.ne_none_iff_exists'.mp (MutationBatch.mem_keys.mp hkb)
        exact ⟨m, by rw [overlayOf_append, overlayOf, hnone, hm]; rfl⟩
      obtain ⟨found, hfound, hproc, hall, hhas⟩ :=
        recalculatedOverlays_eq hb hd hdocs hmasks hkeys
      obtain ⟨c', hsave, hc', hlookup'⟩ := DocumentOverlayCache.saveOverlays_eq hcoherent hall
      refine ⟨(found.2, c'), ?_, fun k => ?_, hc', fun k => ?_⟩
      · simp only [saveRecalculated, hfound, bind, Except.bind, hsave]
      · simp only [hproc, hprocessed, List.mem_append, List.mem_singleton, or_and_right,
          exists_or, exists_eq_left]
      · simp only [hlookup', hhas, hlookup, hproc]
        by_cases hp : k ∈ saved.1
        · simp [hp]
        · simp [hp])
  refine ⟨saved, hloop, hcoherent, fun k => ?_⟩
  have hk : k ∈ saved.1 ↔ (docs.lookup k).isSome ∧ (overlayOf batches k).isSome := by
    simp only [hprocessed, hby, List.mem_reverse, List.mem_map, exists_exists_and_eq_and,
      List.mem_filter, overlayOf_isSome]
    constructor
    · rintro ⟨b, hb, hk, hsome⟩
      exact ⟨hsome, b, hb, hk⟩
    · rintro ⟨hsome, b, hb, hk⟩
      exact ⟨b, hb, hk, hsome⟩
  rw [hlookup]
  simp only [hk]

lemma LocalStore.recalculateAndSaveOverlays_eq {s : LocalStore D} (hq : s.mutationQueue.Indexed)
    (hu : Unconditional s.mutationQueue.queue) (hc : s.documentOverlayCache.Coherent)
    {docs : MutableDocumentMap D} (hd : Keyed docs) : ∃ c r,
      s.recalculateAndSaveOverlays docs = .ok ({ s with documentOverlayCache := c }, r) ∧
      c.Coherent ∧ (∀ k, c.overlays.lookup k =
        if (docs.lookup k).isSome ∧ (overlayOf s.mutationQueue.queue k).isSome then
          overlayOf s.mutationQueue.queue k
        else s.documentOverlayCache.overlays.lookup k) ∧
      (∀ k, r.docs.lookup k =
        (docs.lookup k).map (replay (pendingMutations s.mutationQueue.queue))) ∧
      ∀ k, (r.masks.lookup k).getD none = none := by
  have hbatches := s.mutationQueue.allMutationBatchesAffectingDocumentKeys_eq hq docs.keys
  have hover : ∀ k, (docs.lookup k).isSome →
      overlayOf (s.mutationQueue.queue.filter fun b => b.keys.any fun k => k ∈ docs.keys) k =
        overlayOf s.mutationQueue.queue k := by
    intro k hk
    refine overlayOf_filter fun b _ hkb => List.any_eq_true.mpr ⟨k, hkb, ?_⟩
    simpa using AList.mem_keys.mp (AList.lookup_isSome.mp hk)
  have hub : Unconditional
      (s.mutationQueue.queue.filter fun b => b.keys.any fun k => k ∈ docs.keys) :=
    fun b hb => hu b (List.mem_filter.mp hb).1
  obtain ⟨r, hr, hdocs, hmasks, hby⟩ := recalculateBatches_eq hub hd
  obtain ⟨saved, hsave, hcoherent, hlookup⟩ := saveRecalculated_eq hub hd hdocs hmasks hby hc
  refine ⟨saved.2, r, ?_, hcoherent, fun k => ?_, fun k => ?_, fun k => ?_⟩
  · simp only [LocalStore.recalculateAndSaveOverlays, hbatches, bind, Except.bind, hr, hsave]
  · rw [hlookup]
    by_cases hk : (docs.lookup k).isSome
    · simp only [hover k hk]
    · simp [hk]
  · rw [hdocs]
    cases hk : docs.lookup k with
    | none => rfl
    | some d =>
      obtain rfl := hd k d hk
      simp only [Option.map_some, replay_pending, hover d.key (by simp [hk])]
  · rw [hmasks]
    split <;> rfl

end MobileApps.Firestore

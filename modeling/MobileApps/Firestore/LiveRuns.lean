import MobileApps.Firestore.LiveQueries

/-! What holds of the queries that a device listens to in every run: a listener that goes by the
changes that it is told has the documents that a fresh query would find, and the documents in limbo
are looked up. -/

namespace MobileApps.Firestore

open Library.KeyedMaps Library.Runs Library.OrderedSets

variable {U D : Type} {n : ℕ}

structure View.Told (v w : View D) (snapshot : Option (ViewSnapshot D)) : Prop where
  query : w.query = v.query
  marks : View.Marks w.mutatedKeys w.documentSet
  confirmed : w.Confirmed
  silent : snapshot = none → w.documentSet = v.documentSet ∧ w.syncState = v.syncState
  told : ∀ s ∈ snapshot, s.Of w ∧ s.oldDocuments = v.documentSet ∧
    s.documentChanges.foldl DocumentViewChange.follow s.oldDocuments = s.documents ∧
    (s.documentChanges ≠ [] ∨ s.syncStateChanged = true)

lemma View.Updated.told_of [DecidableEq D] {v w : View D} {docChanges : DocumentMap D}
    {targetChange : Option TargetChange} {snapshot : Option (ViewSnapshot D)}
    {limboChanges : List LimboDocumentChange}
    (h : v.Updated docChanges targetChange w snapshot limboChanges) : v.Told w snapshot where
  query := h.query
  marks := h.marks
  confirmed := h.confirmed
  silent hnone := ⟨(h.silent hnone).1, (h.silent hnone).2.2⟩
  told := h.told

lemma View.onlineState_eq {v : View D} (hm : View.Marks v.mutatedKeys v.documentSet)
    (hconfirmed : v.Confirmed) (onlineState : OnlineState) : ∃ w snapshot,
      v.applyOnlineStateChange onlineState = .ok (w, snapshot, []) ∧ v.Told w snapshot ∧
      w.documentSet = v.documentSet ∧ View.Diffs [] v.limboDocuments w.limboDocuments := by
  unfold applyOnlineStateChange
  split
  · have hnone : ∀ change ∈ (none : Option TargetChange), ∀ key ∈ change.modifiedDocuments,
        key ∈ v.syncedDocuments := nofun
    obtain ⟨w, snapshot, limboChanges, hw, happlied⟩ :=
      applyChanges_eq (v := { v with current := false }) ⟨v.documentSet, ∅, v.mutatedKeys⟩ hnone
    obtain rfl := happlied.quiet rfl rfl
    have hmarks : View.Marks w.mutatedKeys w.documentSet := by
      rw [happlied.mutated, happlied.documents]
      exact hm
    refine ⟨w, snapshot, hw, ⟨happlied.query, hmarks, happlied.confirmed,
      fun hsilent => ⟨happlied.documents, (happlied.silent hsilent).2⟩, fun s hs => ?_⟩,
      happlied.documents, happlied.limbo⟩
    obtain ⟨hof, hold, hperm, htells⟩ := happlied.told s hs
    have hsilent : s.documentChanges = [] := hperm.eq_nil
    refine ⟨hof, hold, ?_, htells⟩
    rw [hsilent, List.foldl_nil, hold, hof.2.1]
    exact happlied.documents.symm
  · exact ⟨v, none, rfl, ⟨rfl, hm, hconfirmed, fun _ => ⟨rfl, rfl⟩, nofun⟩, rfl,
      by simp [Diffs]⟩

namespace LiveQueries

structure Linked (n : ℕ) (s : LiveQueries U D) : Prop where
  query : ∀ path, ∀ v ∈ s.queryViews.lookup path, v.query = path
  marks : ∀ path, ∀ v ∈ s.queryViews.lookup path, View.Marks v.mutatedKeys v.documentSet
  confirmed : ∀ path, ∀ v ∈ s.queryViews.lookup path, v.Confirmed
  sound : s.limboTargets.Sound []
  full : s.limboTargets.Full
  capacity : s.limboTargets.maxConcurrentLimboResolutions = n
  listened : ∀ path, .query path ∈ s.limboTargets.listenTargets ↔ path ∈ s.queryViews
  allocated : ∀ path, path ∈ s.targetDataByTarget ↔ path ∈ s.queryViews
  limbo : ∀ k path, (k, path) ∈ s.limboTargets.limboDocumentRefs ↔
    ∃ v ∈ s.queryViews.lookup path, k ∈ v.limboDocuments

lemma start_linked (user : U) (n : ℕ) : (start user n : LiveQueries U D).Linked n where
  query path v hv := by simp [start] at hv
  marks path v hv := by simp [start] at hv
  confirmed path v hv := by simp [start] at hv
  sound := LimboTargets.start_sound n
  full hne := absurd rfl hne
  capacity := rfl
  listened path := by simp [start, LimboTargets.start]
  allocated path := by simp [start]
  limbo k path := by simp [start, LimboTargets.start]

lemma Linked.withTargets {s : LiveQueries U D} (h : s.Linked n) {t : LimboTargets}
    (hsound : t.Sound []) (hfull : t.Full) (hframe : LimboTargets.Frame s.limboTargets t)
    (hrefs : t.limboDocumentRefs = s.limboTargets.limboDocumentRefs) :
    Linked n { s with limboTargets := t } where
  query := h.query
  marks := h.marks
  confirmed := h.confirmed
  sound := hsound
  full := hfull
  capacity := hframe.capacity.trans h.capacity
  listened path := (hframe.queries path).trans (h.listened path)
  allocated := h.allocated
  limbo k path := by
    rw [hrefs]
    exact h.limbo k path

lemma Linked.withPersistence {s : LiveQueries U D} (h : s.Linked n) (p : MemoryPersistence U D) :
    Linked n { s with persistence := p } :=
  ⟨h.query, h.marks, h.confirmed, h.sound, h.full, h.capacity, h.listened, h.allocated, h.limbo⟩

lemma Linked.told_self {s : LiveQueries U D} (h : s.Linked n) {path : ResourcePath} {v : View D}
    (hv : s.queryViews.lookup path = some v) : v.Told v none :=
  ⟨rfl, h.marks path v hv, h.confirmed path v hv, fun _ => ⟨rfl, rfl⟩, nofun⟩

lemma Linked.insert {s : LiveQueries U D} (h : s.Linked n) {path : ResourcePath} {v w : View D}
    (hquery : v.query = path) {snapshot : Option (ViewSnapshot D)} (htold : v.Told w snapshot)
    (hold : ∀ k, (k, path) ∈ s.limboTargets.limboDocumentRefs ↔ k ∈ v.limboDocuments)
    {limboChanges : List LimboDocumentChange}
    (hdiffs : View.Diffs limboChanges v.limboDocuments w.limboDocuments) :
    ∃ t, LimboTargets.updateTrackedLimboDocuments limboChanges path
        (s.limboTargets.listen (.query path)) = .ok t ∧
      Linked n { s.allocateTarget path with
        queryViews := s.queryViews.insert path w, limboTargets := t } := by
  have hlistens : (s.limboTargets.listen (.query path)).Sound [] :=
    { h.sound with listened := fun id => by simp [LimboTargets.listen, h.sound.listened id] }
  have hdisjoint : ∀ k, .added k ∈ limboChanges → .removed k ∉ limboChanges := fun k ha hr =>
    ((hdiffs.1 k).mp ha).2 ((hdiffs.2 k).mp hr).1
  obtain ⟨t, ht, hsound, hfull, hframe, hfollows⟩ :=
    LimboTargets.updateAllTracked_eq hlistens h.full path hdisjoint
  have hlookup : ∀ p, ∀ x ∈ (s.queryViews.insert path w).lookup p,
      p = path ∧ x = w ∨ p ≠ path ∧ x ∈ s.queryViews.lookup p := by
    intro p x hx
    by_cases hp : p = path
    · subst hp
      rw [AList.lookup_insert] at hx
      exact Or.inl ⟨rfl, (Option.some.inj hx).symm⟩
    · rw [AList.lookup_insert_ne hp] at hx
      exact Or.inr ⟨hp, hx⟩
  refine ⟨t, ht, ⟨fun p x hx => ?_, fun p x hx => ?_, fun p x hx => ?_, hsound, hfull,
    hframe.capacity.trans h.capacity, fun p => ?_, fun p => ?_, fun k p => ?_⟩⟩
  · rcases hlookup p x hx with ⟨rfl, rfl⟩ | ⟨_, hx⟩
    · exact htold.query.trans hquery
    · exact h.query p x hx
  · rcases hlookup p x hx with ⟨rfl, rfl⟩ | ⟨_, hx⟩
    · exact htold.marks
    · exact h.marks p x hx
  · rcases hlookup p x hx with ⟨rfl, rfl⟩ | ⟨_, hx⟩
    · exact htold.confirmed
    · exact h.confirmed p x hx
  · rw [hframe.queries p, AList.mem_insert, ← h.listened p]
    simp [LimboTargets.listen]
  · rw [AList.mem_insert, ← h.allocated p]
    simp [allocateTarget]
  · by_cases hp : p = path
    · subst hp
      simp only [AList.lookup_insert, Option.mem_some_iff, exists_eq_left']
      have ha := hdiffs.1 k
      have hr := hdiffs.2 k
      by_cases hadded : .added k ∈ limboChanges
      · exact iff_of_true (hfollows.added k hadded) (ha.mp hadded).1
      · by_cases hremoved : .removed k ∈ limboChanges
        · exact iff_of_false (hfollows.removed k hremoved) (hr.mp hremoved).2
        · have hkept := (hfollows.kept k hadded hremoved).trans (hold k)
          tauto
    · rw [hfollows.others k p hp, AList.lookup_insert_ne hp]
      exact h.limbo k p

lemma Linked.replace {s : LiveQueries U D} (h : s.Linked n) {path : ResourcePath} {v w : View D}
    (hv : s.queryViews.lookup path = some v) {snapshot : Option (ViewSnapshot D)}
    (htold : v.Told w snapshot) {limboChanges : List LimboDocumentChange}
    (hdiffs : View.Diffs limboChanges v.limboDocuments w.limboDocuments) :
    ∃ t, LimboTargets.updateTrackedLimboDocuments limboChanges path s.limboTargets = .ok t ∧
      Linked n { s with queryViews := s.queryViews.insert path w, limboTargets := t } := by
  have hlistened : .query path ∈ s.limboTargets.listenTargets :=
    (h.listened path).mpr (AList.lookup_isSome.mp (by rw [hv]; rfl))
  have hsame : s.limboTargets.listen (.query path) = s.limboTargets := by
    rw [LimboTargets.listen, Finset.insert_eq_of_mem hlistened]
  have hkept : s.allocateTarget path = s := by
    rw [allocateTarget, Finset.insert_eq_of_mem ((h.allocated path).mpr
      (AList.lookup_isSome.mp (by rw [hv]; rfl)))]
  have hinsert := h.insert (h.query path v hv) htold (fun k => by simp [h.limbo, hv]) hdiffs
  rwa [hsame, hkept] at hinsert

lemma removeAndCleanupTarget_eq {s : LiveQueries U D} (h : s.Linked n) (path : ResourcePath) :
    ∃ s', removeAndCleanupTarget path { s with
        targetDataByTarget := s.targetDataByTarget.erase path
        limboTargets := s.limboTargets.forget (.query path) } = .ok s' ∧ s'.Linked n ∧
      s'.persistence = s.persistence ∧ s'.queryViews = s.queryViews.erase path := by
  have hsound : (s.limboTargets.forget (.query path)).Sound [] :=
    { h.sound with
      listened := fun id => by simp [LimboTargets.forget, h.sound.listened id] }
  obtain ⟨u, hu, hsound', hfull', hframe, hleft⟩ := LimboTargets.removeTarget_eq hsound h.full path
  refine ⟨{ s with
      targetDataByTarget := s.targetDataByTarget.erase path
      queryViews := s.queryViews.erase path
      limboTargets := u }, ?_,
    ⟨fun p x hx => h.query p x (mem_lookup_of_erase hx),
      fun p x hx => h.marks p x (mem_lookup_of_erase hx),
      fun p x hx => h.confirmed p x (mem_lookup_of_erase hx), hsound', hfull',
      hframe.capacity.trans h.capacity, fun p => ?_, fun p => ?_, fun k p => ?_⟩, rfl, rfl⟩
  · simp only [removeAndCleanupTarget, hu, bind, Except.bind]
  · rw [hframe.queries p, AList.mem_erase, ← h.listened p]
    simp [LimboTargets.forget]
  · rw [AList.mem_erase, ← h.allocated p, Finset.mem_erase]
  · rw [hleft, LimboTargets.forget, h.limbo]
    by_cases hp : p = path
    · subst hp
      simp
    · simp [hp, AList.lookup_erase_ne hp]

/-! ### The loops over the views -/

structure Emitted (R : View D → View D → Prop) (s s' : LiveQueries U D)
    (snapshots : List (ViewSnapshot D)) : Prop where
  known : ∀ told ∈ snapshots, told.query ∈ s.queryViews
  absent : ∀ path, s.queryViews.lookup path = none → s'.queryViews.lookup path = none
  shown : ∀ path v, s.queryViews.lookup path = some v → ∃ w snapshot,
    s'.queryViews.lookup path = some w ∧ R v w ∧ v.Told w snapshot ∧
    snapshots.filter (fun told => told.query = path) = snapshot.toList

structure Emitting (n : ℕ) (R : View D → View D → Prop) (s : LiveQueries U D)
    (done : List ((_ : ResourcePath) × View D))
    (emitted : LiveQueries U D × List (ViewSnapshot D)) : Prop where
  linked : emitted.1.Linked n
  persistence : emitted.1.persistence = s.persistence
  targets : emitted.1.targetDataByTarget = s.targetDataByTarget
  known : ∀ told ∈ emitted.2, told.query ∈ s.queryViews
  absent : ∀ path, s.queryViews.lookup path = none → emitted.1.queryViews.lookup path = none
  shown : ∀ path v, s.queryViews.lookup path = some v → path ∈ done.keys → ∃ w snapshot,
    emitted.1.queryViews.lookup path = some w ∧ R v w ∧ v.Told w snapshot ∧
    emitted.2.filter (fun told => told.query = path) = snapshot.toList
  waiting : ∀ path v, s.queryViews.lookup path = some v → path ∉ done.keys →
    emitted.1.queryViews.lookup path = some v ∧
    emitted.2.filter (fun told => told.query = path) = []

lemma Emitting.next {R : View D → View D → Prop} {s : LiveQueries U D}
    {done : List ((_ : ResourcePath) × View D)}
    {emitted : LiveQueries U D × List (ViewSnapshot D)} (h : Emitting n R s done emitted)
    {path : ResourcePath} {v w : View D} (hlookup : s.queryViews.lookup path = some v)
    (hfresh : path ∉ done.keys) (hquery : v.query = path) (hr : R v w)
    {snapshot : Option (ViewSnapshot D)} (htold : v.Told w snapshot) {t : LimboTargets}
    (hlinked : Linked n { emitted.1 with
      queryViews := emitted.1.queryViews.insert path w, limboTargets := t }) :
    Emitting n R s (done ++ [⟨path, v⟩]) ({ emitted.1 with
      queryViews := emitted.1.queryViews.insert path w, limboTargets := t },
        emitted.2 ++ snapshot.toList) := by
  have hsnapshot : ∀ told ∈ snapshot, told.query = path := fun told ht =>
    (htold.told told ht).1.1.trans (htold.query.trans hquery)
  have hothers : ∀ p, p ≠ path → (emitted.2 ++ snapshot.toList).filter
      (fun told => told.query = p) = emitted.2.filter fun told => told.query = p := by
    intro p hp
    have hnone : snapshot.toList.filter (fun told => told.query = p) = [] :=
      List.filter_eq_nil_iff.mpr fun told ht => by
        simpa [hsnapshot told (Option.mem_toList.mp ht)] using fun he : path = p => hp he.symm
    rw [List.filter_append, hnone, List.append_nil]
  have hkeys : ∀ p, p ∈ (done ++ [(⟨path, v⟩ : (_ : ResourcePath) × View D)]).keys ↔
      p ∈ done.keys ∨ p = path := fun p => by simp [List.keys]
  refine ⟨hlinked, h.persistence, h.targets, fun told ht => ?_, fun p hp => ?_,
    fun p x hx hm => ?_, fun p x hx hm => ?_⟩
  · rcases List.mem_append.mp ht with ht | ht
    · exact h.known told ht
    · rw [hsnapshot told (Option.mem_toList.mp ht)]
      exact AList.lookup_isSome.mp (by rw [hlookup]; rfl)
  · have hne : p ≠ path := by
      rintro rfl
      rw [hlookup] at hp
      cases hp
    exact (AList.lookup_insert_ne hne).trans (h.absent p hp)
  · by_cases hp : p = path
    · subst hp
      obtain rfl := Option.some.inj (hlookup.symm.trans hx)
      refine ⟨w, snapshot, AList.lookup_insert _, hr, htold, ?_⟩
      rw [List.filter_append, (h.waiting p v hlookup hfresh).2, List.nil_append]
      exact List.filter_eq_self.mpr fun told ht => by
        simpa using hsnapshot told (Option.mem_toList.mp ht)
    · obtain ⟨w', snapshot', hw, hrest⟩ := h.shown p x hx (((hkeys p).mp hm).resolve_right hp)
      refine ⟨w', snapshot', (AList.lookup_insert_ne hp).trans hw, ?_⟩
      rw [hothers p hp]
      exact hrest
  · obtain ⟨hdone, hp⟩ := not_or.mp (mt (hkeys p).mpr hm)
    obtain ⟨hx', hnone⟩ := h.waiting p x hx hdone
    exact ⟨(AList.lookup_insert_ne hp).trans hx', (hothers p hp).trans hnone⟩

lemma emit_loop {R : View D → View D → Prop} {s : LiveQueries U D} (h : s.Linked n)
    {f : LiveQueries U D × List (ViewSnapshot D) → (_ : ResourcePath) × View D →
      Except Halt (LiveQueries U D × List (ViewSnapshot D))}
    (body : ∀ emitted : LiveQueries U D × List (ViewSnapshot D), emitted.1.Linked n →
      ∀ path v, s.queryViews.lookup path = some v → emitted.1.queryViews.lookup path = some v →
      ∃ w snapshot limboTargets, f emitted ⟨path, v⟩ = .ok ({ emitted.1 with
          queryViews := emitted.1.queryViews.insert path w, limboTargets },
            emitted.2 ++ snapshot.toList) ∧
        R v w ∧ v.Told w snapshot ∧ Linked n { emitted.1 with
          queryViews := emitted.1.queryViews.insert path w, limboTargets }) :
    ∃ s' snapshots, s.queryViews.entries.foldlM f (s, []) = .ok (s', snapshots) ∧ s'.Linked n ∧
      s'.persistence = s.persistence ∧ s'.targetDataByTarget = s.targetDataByTarget ∧
      Emitted R s s' snapshots := by
  obtain ⟨⟨s', snapshots⟩, hloop, hdone⟩ := foldlM_loop
    (f := f) (l := s.queryViews.entries) (b := (s, [])) (I := Emitting n R s)
    ⟨h, rfl, rfl, fun _ ht => absurd ht List.not_mem_nil, fun _ hn => hn,
      fun _ _ _ hm => absurd hm List.not_mem_nil, fun _ _ hv _ => ⟨hv, rfl⟩⟩
    (by
      rintro done ⟨path, v⟩ rest emitted hl hdone
      obtain ⟨hlookup, hfresh⟩ := split_entries hl
      obtain ⟨w, snapshot, limboTargets, hf, hr, htold, hnext⟩ := body emitted hdone.linked path v
        hlookup (hdone.waiting path v hlookup hfresh).1
      exact ⟨_, hf, hdone.next hlookup hfresh (h.query path v hlookup) hr htold hnext⟩)
  refine ⟨s', snapshots, hloop, hdone.linked, hdone.persistence, hdone.targets, hdone.known,
    hdone.absent, fun path v hv => hdone.shown path v hv ?_⟩
  exact AList.mem_keys.mpr (AList.lookup_isSome.mp (by rw [hv]; rfl))

lemma handleOnlineStateChange_eq {s : LiveQueries U D} (h : s.Linked n)
    (onlineState : OnlineState) : ∃ s' snapshots,
      s.handleOnlineStateChange onlineState = .ok (s', snapshots) ∧ s'.Linked n ∧
      s'.persistence = s.persistence ∧
      Emitted (fun v w => w.documentSet = v.documentSet) s s' snapshots := by
  obtain ⟨s', snapshots, hloop, hlinked, hpersistence, _, hemitted⟩ :=
    emit_loop h (f := emitOnlineState onlineState)
      (R := fun v w => w.documentSet = v.documentSet) fun emitted hlinked path v _ hv => by
    obtain ⟨w, snapshot, hw, htold, hdocuments, hdiffs⟩ :=
      View.onlineState_eq (hlinked.marks path v hv) (hlinked.confirmed path v hv) onlineState
    obtain ⟨t, ht, hnext⟩ := hlinked.replace hv htold hdiffs
    obtain rfl : emitted.1.limboTargets = t := Except.ok.inj ht
    refine ⟨w, snapshot, _, ?_, hdocuments, htold, hnext⟩
    simp only [emitOnlineState, hw, hardAssert, if_true, bind, Except.bind]
  exact ⟨s', snapshots, hloop, hlinked, hpersistence, hemitted⟩

variable [DecidableEq D]

lemma emitNewSnapshots_eq {s : LiveQueries U D} (h : s.Linked n) {changes : DocumentMap D}
    (hkeys : ∀ path k d, changes.lookup k = some d → LocalStore.matchesQuery path d = true →
      d.key = k)
    {targetChanges : TargetChangeMap}
    (hpromised : ∀ path, ∀ change ∈ targetChanges.lookup (.query path),
      ∀ v ∈ s.queryViews.lookup path, ∀ key ∈ change.modifiedDocuments, key ∈ v.syncedDocuments) :
    ∃ s' snapshots,
      s.emitNewSnapshotsAndNotifyLocalStore changes targetChanges = .ok (s', snapshots) ∧
      s'.Linked n ∧ s'.persistence = s.persistence ∧
      Emitted (fun v w => ∀ k, w.documentSet.find k =
        (changes.lookup k).elim (v.documentSet.find k) (v.shown k)) s s' snapshots := by
  obtain ⟨s', snapshots, hloop, hlinked, hpersistence, htargets, hemitted⟩ :=
    emit_loop h (f := emitNewSnapshot changes targetChanges)
      (R := fun v w => ∀ k, w.documentSet.find k =
        (changes.lookup k).elim (v.documentSet.find k) (v.shown k))
      fun emitted hlinked path v hold hv => by
    obtain ⟨c, w, snapshot, limboChanges, hc, hw, hupdated⟩ :=
      View.update_eq (hlinked.marks path v hv) (fun k d hd hm => hkeys v.query k d hd hm)
        (fun change hchange => hpromised path change hchange v hold)
    obtain ⟨t, ht, hnext⟩ := hlinked.replace hv hupdated.told_of hupdated.limbo
    refine ⟨w, snapshot, t, ?_, hupdated.documents, hupdated.told_of, hnext⟩
    simp only [emitNewSnapshot, hc, hw, ht, bind, Except.bind]
  have hknown : ∀ snapshot ∈ snapshots, snapshot.fromCache = false →
      snapshot.query ∈ s'.targetDataByTarget := by
    intro snapshot hs _
    rw [htargets, h.allocated]
    exact hemitted.known snapshot hs
  refine ⟨s', snapshots, ?_, hlinked, hpersistence, hemitted⟩
  simp only [emitNewSnapshotsAndNotifyLocalStore, hloop, notifyLocalViewChanges, hardAssert,
    if_pos hknown, bind, Except.bind]

variable [Inhabited D]

structure Live (n : ℕ) (s : LiveQueries U D) : Prop where
  stores : s.persistence.Consistent
  linked : s.Linked n

def AsStored (key : ResourcePath) (s : LiveQueries U D) : Prop :=
  ∀ path, ∀ v ∈ s.queryViews.lookup path,
    ShownAs path (s.persistence.localStore.view key) (v.documentSet.find key)

structure Handled (n : ℕ) (e : Event U D) (s s' : LiveQueries U D)
    (snapshots : List (ViewSnapshot D)) : Prop where
  live : s'.Live n
  delivered : ∀ path, ∀ w ∈ s'.queryViews.lookup path, ∃ v snapshot,
    (s.queryViews.lookup path).elim (v.documentSet = .empty ∧ snapshot ≠ none) (· = v) ∧
    v.Told w snapshot ∧
    snapshots.filter (fun told => told.query = path) = snapshot.toList
  stored : ∀ key, e ≠ .remove key → s.AsStored key → s'.AsStored key

omit [DecidableEq D] in
lemma Handled.of_emitted {R : View D → View D → Prop} {s s' : LiveQueries U D}
    {snapshots : List (ViewSnapshot D)} (hlive : s'.Live n) (h : Emitted R s s' snapshots)
    (hstored : ∀ path v w key, s.queryViews.lookup path = some v → R v w →
      ShownAs path (s.persistence.localStore.view key) (v.documentSet.find key) →
      ShownAs path (s'.persistence.localStore.view key) (w.documentSet.find key))
    (e : Event U D) : Handled n e s s' snapshots := by
  have hfrom : ∀ path, ∀ w ∈ s'.queryViews.lookup path, ∃ v snapshot,
      s.queryViews.lookup path = some v ∧ R v w ∧ v.Told w snapshot ∧
      snapshots.filter (fun told => told.query = path) = snapshot.toList := by
    intro path w hw
    cases hv : s.queryViews.lookup path with
    | none =>
      rw [h.absent path hv] at hw
      cases hw
    | some v =>
      obtain ⟨w', snapshot, hw', hr, htold, hfilter⟩ := h.shown path v hv
      obtain rfl := Option.some.inj (hw'.symm.trans hw)
      exact ⟨v, snapshot, rfl, hr, htold, hfilter⟩
  refine ⟨hlive, fun path w hw => ?_, fun key _ hs path w hw => ?_⟩
  · obtain ⟨v, snapshot, hv, _, htold, hfilter⟩ := hfrom path w hw
    exact ⟨v, snapshot, by rw [hv]; rfl, htold, hfilter⟩
  · obtain ⟨v, snapshot, hv, hr, _⟩ := hfrom path w hw
    exact hstored path v w key hv hr (hs path v hv)

omit [DecidableEq D] in
lemma Handled.of_fewer {e : Event U D} {s s' : LiveQueries U D} (hlive : s'.Live n)
    (hviews : ∀ path, ∀ w ∈ s'.queryViews.lookup path, w ∈ s.queryViews.lookup path)
    (hstored : ∀ key, e ≠ .remove key →
      s'.persistence.localStore.view key = s.persistence.localStore.view key) :
    Handled n e s s' [] := by
  refine ⟨hlive, fun path w hw => ?_, fun key hne hs path w hw => ?_⟩
  · have hold : s.queryViews.lookup path = some w := hviews path w hw
    exact ⟨w, none, by rw [hold]; rfl, hlive.linked.told_self hw, rfl⟩
  · rw [hstored key hne]
    exact hs path w (hviews path w hw)

variable [DecidableEq U]

lemma change_eq {s : LiveQueries U D} (h : s.Live n) {event : MemoryPersistence.Event U D}
    {p : MemoryPersistence U D} {changes : OverlayedDocumentMap D}
    (hp : s.persistence.handle event = .ok (p, changes)) (hc : p.Consistent)
    (hr : LocalStore.Reports changes s.persistence.localStore p.localStore)
    {targetChanges : TargetChangeMap}
    (hpromised : ∀ path, ∀ change ∈ targetChanges.lookup (.query path),
      ∀ v ∈ s.queryViews.lookup path, ∀ key ∈ change.modifiedDocuments, key ∈ v.syncedDocuments)
    (e : Event U D) : ∃ s' snapshots, s.change event targetChanges = .ok (s', snapshots) ∧
      Handled n e s s' snapshots := by
  have hlookup : ∀ k, (mapValues OverlayedDocument.document changes).lookup k =
      (changes.lookup k).map OverlayedDocument.document := lookup_mapValues _ changes
  have hshows : ∀ k d, (mapValues OverlayedDocument.document changes).lookup k = some d →
      d.Shows (p.localStore.view k) := by
    intro k d hd
    rw [hlookup, Option.map_eq_some_iff] at hd
    obtain ⟨c, hk, rfl⟩ := hd
    exact hr.shown k c hk
  obtain ⟨s', snapshots, hs, hlinked, hpersistence, hemitted⟩ :=
    emitNewSnapshots_eq (h.linked.withPersistence p)
      (fun path k d hd hm => by
        have hfound := (LocalStore.matchesQuery_iff.mp hm).1
        exact ((hshows k d hd).2 hfound).1.trans (LocalStore.view_key hc.current k)) hpromised
  refine ⟨s', snapshots, ?_, .of_emitted (s := s) ⟨hpersistence ▸ hc, hlinked⟩
    ⟨hemitted.known, hemitted.absent, hemitted.shown⟩ (fun path v w key hv hw hold => ?_) e⟩
  · simp only [change, hp, bind, Except.bind]
    exact hs
  · rw [hpersistence, hw key]
    cases hk : (mapValues OverlayedDocument.document changes).lookup key with
    | none =>
      rw [hlookup, Option.map_eq_none_iff] at hk
      exact hr.unchanged key hk ▸ hold
    | some d =>
      have hshown : ShownAs v.query (p.localStore.view key) (v.shown key d) :=
        View.shown_as (h.linked.marks path v hv) (hshows key d hk)
      rwa [h.linked.query path v hv] at hshown

lemma applyRemoteEvent_eq {s : LiveQueries U D} (h : s.Live n) (targetChanges : TargetChangeMap)
    (hpromised : ∀ entry ∈ targetChanges.entries, s.Promised entry)
    (updates : List (MutableDocument D)) (snapshotVersion : SnapshotVersion)
    (hv : ∀ doc ∈ updates, snapshotVersion ≠ .none ∨ doc.isNoDocument ∧ doc.version = .none)
    (hlast : snapshotVersion = .none ∨ s.persistence.lastRemoteSnapshotVersion ≤ snapshotVersion)
    (e : Event U D) : ∃ s' snapshots,
      s.applyRemoteEvent targetChanges updates snapshotVersion = .ok (s', snapshots) ∧
      Handled n e s s' snapshots := by
  have hresolutions : ∀ id change, targetChanges.lookup (.limbo id) = some change →
      s.limboTargets.Promised id change := fun id change hchange =>
    hpromised ⟨.limbo id, change⟩ (AList.mem_lookup_iff.mp hchange)
  have hqueries : ∀ path, ∀ change ∈ targetChanges.lookup (.query path),
      ∀ v ∈ s.queryViews.lookup path, ∀ key ∈ change.modifiedDocuments, key ∈ v.syncedDocuments :=
    fun path change hchange => hpromised ⟨.query path, change⟩ (AList.mem_lookup_iff.mp hchange)
  obtain ⟨t, ht, hnoted⟩ :=
    LimboTargets.noteTargetChanges_eq h.linked.sound h.linked.full hresolutions
  obtain ⟨p, changes, hp, hc, hr⟩ :=
    MemoryPersistence.handle_remoteEvent_eq h.stores updates hv hlast
  have hlive : Live n { s with limboTargets := t } :=
    ⟨h.stores, h.linked.withTargets hnoted.sound hnoted.full hnoted.frame hnoted.refs⟩
  obtain ⟨s', snapshots, hs, hhandled⟩ := change_eq hlive hp hc hr hqueries e
  refine ⟨s', snapshots, ?_, ⟨hhandled.live, hhandled.delivered, hhandled.stored⟩⟩
  simp only [applyRemoteEvent, ht, bind, Except.bind]
  exact hs

lemma processTargetError_eq {s : LiveQueries U D} (h : s.Live n) (target : TargetId)
    (e : Event U D) : ∃ s' snapshots, s.processTargetError target = .ok (s', snapshots) ∧
      Handled n e s s' snapshots := by
  unfold processTargetError
  split
  · rename_i htarget
    cases target with
    | query path =>
      obtain ⟨s', hs, hlinked, hpersistence, hviews⟩ := removeAndCleanupTarget_eq h.linked path
      have hpath : path ∈ s.queryViews := (h.linked.listened path).mp htarget
      refine ⟨s', [], ?_, .of_fewer ⟨hpersistence ▸ h.stores, hlinked⟩ (fun p w hw => ?_)
        fun key _ => by rw [hpersistence]⟩
      · simp only [handleRejectedListen, releaseTarget, hardAssert,
          if_pos ((h.linked.allocated path).mpr hpath), if_pos hpath, hs, bind, Except.bind]
      · rw [hviews] at hw
        exact mem_lookup_of_erase hw
    | limbo id =>
      have hid := (h.linked.sound.listened id).mp htarget
      cases hr : s.limboTargets.activeLimboResolutionsByTarget.lookup id with
      | none => exact absurd hid (AList.lookup_eq_none.mp hr)
      | some resolution =>
        obtain ⟨hsound, hfull, hframe, hrefs⟩ :=
          LimboTargets.resolutionFailed_eq h.linked.sound hr
        have hlive : Live n { s with limboTargets :=
            (s.limboTargets.forget (.limbo id)).resolutionFailed id resolution } :=
          ⟨h.stores, h.linked.withTargets hsound hfull hframe hrefs⟩
        have hdeleted : ∀ doc ∈ [(MutableDocument.noDocument resolution.key .none :
            MutableDocument D)], SnapshotVersion.none ≠ .none ∨
              doc.isNoDocument ∧ doc.version = .none := by
          intro doc hd
          obtain rfl := List.mem_singleton.mp hd
          exact Or.inr ⟨rfl, rfl⟩
        obtain ⟨s', snapshots, hs, hhandled⟩ := applyRemoteEvent_eq hlive ∅
          (fun _ hm => absurd hm List.not_mem_nil) _ .none hdeleted (Or.inl rfl) e
        refine ⟨s', snapshots, ?_, ⟨hhandled.live, hhandled.delivered, hhandled.stored⟩⟩
        have hforget : (s.limboTargets.forget
            (.limbo id)).activeLimboResolutionsByTarget.lookup id = some resolution := hr
        simp only [handleRejectedListen, hforget]
        exact hs
  · exact ⟨s, [], rfl, .of_fewer h (fun _ _ hw => hw) fun _ _ => rfl⟩

omit [DecidableEq U] in
lemma listen_eq {s : LiveQueries U D} (h : s.Live n) {path : ResourcePath}
    (hpath : path ∉ s.queryViews) (remoteKeys : Finset ResourcePath) (resumeToken : ByteString)
    (e : Event U D) : ∃ s' snapshots,
      s.listen path remoteKeys resumeToken = .ok (s', snapshots) ∧ Handled n e s s' snapshots := by
  have habsent : s.queryViews.lookup path = none := AList.lookup_eq_none.mpr hpath
  obtain ⟨documents, hdocuments, hlookup⟩ :=
    LocalStore.getDocumentsMatchingCollectionQuery_eq h.stores.current path
  have hkeys : ∀ k d, documents.lookup k = some d → LocalStore.matchesQuery path d = true →
      d.key = k := by
    intro k d hd _
    rw [hlookup] at hd
    split at hd
    · exact Option.some.inj hd ▸ LocalStore.view_key h.stores.current k
    · cases hd
  have hmarks : View.Marks (∅ : Finset ResourcePath) (OrderedSet.empty : DocumentSet D) :=
    fun k => by simp
  have hmodified : ∀ change ∈ some (TargetChange.createSynthesizedTargetChange false resumeToken),
      ∀ key ∈ change.modifiedDocuments,
        key ∈ (View.start path remoteKeys : View D).syncedDocuments := by
    intro change hchange key hkey
    obtain rfl := Option.some.inj hchange
    cases hkey
  obtain ⟨c, w, snapshot, limboChanges, hc, hw, hupdated⟩ :=
    View.update_eq (v := .start path remoteKeys) hmarks hkeys hmodified
  cases snapshot with
  | none => exact absurd (hupdated.silent rfl).2.2 hupdated.started
  | some snapshot =>
    have hstart : (View.start path remoteKeys : View D).query = path := rfl
    obtain ⟨t, ht, hlinked⟩ := h.linked.insert hstart hupdated.told_of
      (fun k => by simp [h.linked.limbo, habsent, View.start]) hupdated.limbo
    have hquery : snapshot.query = path :=
      (hupdated.told snapshot rfl).1.1.trans hupdated.query
    refine ⟨{ s.allocateTarget path with
        queryViews := s.queryViews.insert path w, limboTargets := t }, [snapshot],
      by simp only [listen, allocateTarget, hardAssert, if_pos hpath, hdocuments, hc, hw, ht, bind,
        Except.bind],
      ⟨⟨h.stores, hlinked⟩, fun p x hx => ?_, fun key _ hs p x hx => ?_⟩⟩
    · by_cases hp : p = path
      · subst hp
        obtain rfl := Option.some.inj ((AList.lookup_insert _).symm.trans hx)
        have hfirst : (View.start p remoteKeys : View D).documentSet = .empty ∧
            some snapshot ≠ none := ⟨rfl, Option.some_ne_none _⟩
        exact ⟨.start p remoteKeys, some snapshot, by rw [habsent]; exact hfirst,
          hupdated.told_of, by simp [hquery]⟩
      · have hold : s.queryViews.lookup p = some x := (AList.lookup_insert_ne hp).symm.trans hx
        have hother : path ≠ p := fun he => hp he.symm
        exact ⟨x, none, by rw [hold]; rfl, h.linked.told_self hold, by simp [hquery, hother]⟩
    · by_cases hp : p = path
      · subst hp
        obtain rfl := Option.some.inj ((AList.lookup_insert _).symm.trans hx)
        rw [hupdated.documents, hlookup]
        split
        · exact View.shown_as (v := .start p remoteKeys) hmarks (.refl _)
        · rename_i hm
          exact Bool.eq_false_iff.mpr hm
      · exact hs p x ((AList.lookup_insert_ne hp).symm.trans hx)

omit [DecidableEq D] [Inhabited D] [DecidableEq U] in
lemma stopListening_eq {s : LiveQueries U D} (h : s.Linked n) {path : ResourcePath}
    (hpath : path ∈ s.queryViews) : ∃ s', s.stopListening path = .ok s' ∧ s'.Linked n ∧
      s'.persistence = s.persistence ∧ s'.queryViews = s.queryViews.erase path := by
  have htarget : .query path ∈ s.limboTargets.listenTargets := (h.listened path).mpr hpath
  obtain ⟨s', hs, hrest⟩ := removeAndCleanupTarget_eq h path
  refine ⟨s', ?_, hrest⟩
  simp only [stopListening, releaseTarget, LimboTargets.stopListening, hardAssert, if_pos hpath,
    if_pos ((h.allocated path).mpr hpath), if_pos htarget, bind, Except.bind]
  exact hs

lemma handle_eq {s : LiveQueries U D} (h : s.Live n) {e : Event U D} (he : s.Admissible e) :
    ∃ s' snapshots, s.handle e = .ok (s', snapshots) ∧ Handled n e s s' snapshots := by
  have hchange : ∀ event, s.persistence.Admissible event → (∀ key, event ≠ .remove key) →
      ∃ s' snapshots, s.change event ∅ = .ok (s', snapshots) ∧ Handled n e s s' snapshots := by
    intro event hevent hne
    obtain ⟨p, changes, hp, hc, hr⟩ := MemoryPersistence.handle_eq h.stores hevent
    exact change_eq h hp hc (hr hne) (fun path change hm => by simp at hm) e
  cases e with
  | listen path remoteKeys resumeToken => exact listen_eq h he remoteKeys resumeToken _
  | stopListening path =>
    obtain ⟨s', hs, hlinked, hpersistence, hviews⟩ := stopListening_eq h.linked he
    refine ⟨s', [], by simp only [handle, hs, bind, Except.bind],
      .of_fewer ⟨hpersistence ▸ h.stores, hlinked⟩ (fun p w hw => ?_)
        fun key _ => by rw [hpersistence]⟩
    rw [hviews] at hw
    exact mem_lookup_of_erase hw
  | write mutations => exact hchange _ he nofun
  | acknowledge result => exact hchange _ he nofun
  | reject batchId => exact hchange _ he nofun
  | remoteEvent targetChanges updates snapshotVersion =>
    exact applyRemoteEvent_eq h targetChanges he.2 updates snapshotVersion
      (fun _ _ => Or.inl he.1.1) (Or.inr he.1.2) _
  | targetError target => exact processTargetError_eq h target _
  | onlineState onlineState =>
    obtain ⟨s', snapshots, hs, hlinked, hpersistence, hemitted⟩ :=
      handleOnlineStateChange_eq h.linked onlineState
    refine ⟨s', snapshots, hs, .of_emitted ⟨hpersistence ▸ h.stores, hlinked⟩ hemitted
      (fun path v w key _ hw hold => ?_) _⟩
    rw [hpersistence, hw]
    exact hold
  | userChange user =>
    by_cases hu : s.persistence.user = user
    · refine ⟨s, [], ?_, .of_fewer h (fun _ _ hw => hw) fun _ _ => rfl⟩
      simp only [handle, handleCredentialChange, hu, ne_eq, not_true_eq_false, if_false]
    · obtain ⟨s', snapshots, hs, hhandled⟩ := hchange (.userChange user) trivial nofun
      refine ⟨s', snapshots, ?_, hhandled⟩
      simp only [handle, handleCredentialChange, ne_eq, hu, not_false_eq_true, if_true, hs]
  | remove key =>
    obtain ⟨p, changes, hp, hc, _⟩ :=
      MemoryPersistence.handle_eq h.stores (e := .remove key) trivial
    refine ⟨{ s with persistence := p }, [], by simp only [handle, hp, bind, Except.bind],
      .of_fewer ⟨hc, h.linked.withPersistence p⟩ (fun _ _ hw => hw) fun k hk => ?_⟩
    obtain ⟨rfl, _⟩ := Prod.mk.inj (Except.ok.inj hp)
    have hne : k ≠ key := fun he => hk (he ▸ rfl)
    simp [MemoryPersistence.localStore, LocalStore.view, LocalStore.pending,
      RemoteDocumentCache.get, AList.lookup_erase_ne hne]

lemma step_handled {s s' : LiveQueries U D} {e : Event U D} (h : s.Live n)
    (hs : s.step e = some s') : ∃ snapshots, s.handle e = .ok (s', snapshots) ∧
      Handled n e s s' snapshots := by
  unfold step at hs
  split at hs
  · rename_i he
    obtain ⟨t, snapshots, ht, hhandled⟩ := handle_eq h he
    rw [ht] at hs
    obtain rfl : t = s' := Option.some.inj hs
    exact ⟨snapshots, ht, hhandled⟩
  · cases hs

omit [DecidableEq D] [Inhabited D] [DecidableEq U] in
lemma start_live (user : U) (n : ℕ) : (start user n : LiveQueries U D).Live n :=
  ⟨MemoryPersistence.empty_consistent user, start_linked user n⟩

/-! ### What holds in every run -/

lemma always_live {Q : LiveQueries U D → Prop}
    (law : ∀ s : LiveQueries U D, s.Live n → Q s) (user : U) (es : List (Event U D)) :
    Always step Q (start user n) es :=
  always_of_invariant law (fun _ _ _ h hs => (step_handled h hs).choose_spec.2.live)
    (start_live user n)

def follow (screens : ResourcePath → DocumentSet D) (s : LiveQueries U D) (e : Event U D) :
    ResourcePath → DocumentSet D :=
  match s.handle e with
  | .error _ => screens
  | .ok (_, snapshots) => fun path =>
      (snapshots.filter fun snapshot => snapshot.query = path).foldl
        (fun documents snapshot =>
          snapshot.documentChanges.foldl DocumentViewChange.follow documents)
        (if path ∈ s.queryViews then screens path else .empty)

def Followed (s : LiveQueries U D) (screens : ResourcePath → DocumentSet D) : Prop :=
  ∀ path, ∀ v ∈ s.queryViews.lookup path, screens path = v.documentSet

lemma followed_step {s s' : LiveQueries U D} {screens : ResourcePath → DocumentSet D}
    {e : Event U D} {snapshots : List (ViewSnapshot D)} (h : s.Followed screens)
    (hs : s.handle e = .ok (s', snapshots)) (hhandled : Handled n e s s' snapshots) :
    s'.Followed (follow screens s e) := by
  intro path w hw
  obtain ⟨v, snapshot, hv, htold, hfilter⟩ := hhandled.delivered path w hw
  have hbefore : (if path ∈ s.queryViews then screens path else .empty) = v.documentSet := by
    cases hl : s.queryViews.lookup path with
    | none =>
      rw [hl] at hv
      rw [if_neg (AList.lookup_eq_none.mp hl)]
      exact hv.1.symm
    | some u =>
      rw [hl] at hv
      obtain rfl : u = v := hv
      rw [if_pos (AList.lookup_isSome.mp (by rw [hl]; rfl))]
      exact h path u hl
  simp only [follow, hs, hfilter, hbefore]
  cases snapshot with
  | none => exact (htold.silent rfl).1.symm
  | some snapshot =>
    obtain ⟨hof, hold, hchanges, _⟩ := htold.told snapshot rfl
    rw [Option.toList_some, List.foldl_cons, List.foldl_nil, ← hold, hchanges, hof.2.1]

omit [DecidableEq D] [Inhabited D] [DecidableEq U] in
lemma shownAs_of_same {path : ResourcePath} {d f : MutableDocument D} (h : d.Same f)
    {o : Option (MutableDocument D)} (ho : ShownAs path f o) : ShownAs path d o := by
  have hmatches := h.shows.matchesQuery path
  have hstate : d.hasLocalMutations = f.hasLocalMutations ∧
      d.hasCommittedMutations = f.hasCommittedMutations := by
    simp only [MutableDocument.hasLocalMutations, MutableDocument.hasCommittedMutations,
      h.2.2.2.1, and_self]
  cases o with
  | none => exact hmatches.trans ho
  | some e =>
    refine ⟨hmatches.trans ho.1, ?_⟩
    rw [hstate.1, hstate.2, h.2.2.2.2]
    exact ho.2

def Shows (key : ResourcePath) (t : LiveQueries U D × (ResourcePath → DocumentSet D)) : Prop :=
  ∀ path ∈ t.1.queryViews, ∀ d, t.1.persistence.localStore.getDocument key = .ok d →
    ShownAs path d ((t.2 path).find key)

omit [DecidableEq D] [DecidableEq U] in
lemma shows_of_followed {s : LiveQueries U D} (h : s.Live n) {key : ResourcePath}
    (hstored : s.AsStored key) {screens : ResourcePath → DocumentSet D}
    (hfollowed : s.Followed screens) : Shows key (s, screens) := by
  intro path hpath d hd
  obtain ⟨v, hv⟩ := Option.isSome_iff_exists.mp (AList.lookup_isSome.mpr hpath)
  have hsame := LocalStore.same_view h.stores.current hd
  have hshown := shownAs_of_same hsame (hstored path v hv)
  rw [← hfollowed path v hv] at hshown
  exact hshown

lemma always_kept {H : Type} {f : H → LiveQueries U D → Event U D → H}
    {J : LiveQueries U D → H → Prop} {Q : LiveQueries U D × H → Prop} {key : ResourcePath}
    (law : ∀ s h, Live n s → s.AsStored key → J s h → Q (s, h))
    (keep : ∀ s s' e h snapshots, J s h → s.handle e = .ok (s', snapshots) →
      Handled n e s s' snapshots → J s' (f h s e))
    {es : List (Event U D)} (hkept : ∀ e ∈ es, e ≠ .remove key) {s : LiveQueries U D}
    (hlive : s.Live n) (hstored : s.AsStored key) {h : H} (hj : J s h) :
    Always (observe step f) Q (s, h) es := by
  induction es generalizing s h with
  | nil => exact law s h hlive hstored hj
  | cons e es ih =>
    refine ⟨law s h hlive hstored hj, fun t ht => ?_⟩
    obtain ⟨hs, hrecorded⟩ := observe_some.mp ht
    obtain ⟨snapshots, hhandle, hhandled⟩ := step_handled hlive hs
    exact ih (fun e' he => hkept e' (List.mem_cons_of_mem e he)) hhandled.live
      (hhandled.stored key (hkept e List.mem_cons_self) hstored)
      (hrecorded ▸ keep s t.1 e h snapshots hj hhandle hhandled)

omit [DecidableEq D] [DecidableEq U] in
lemma start_stored (user : U) (n : ℕ) (key : ResourcePath) :
    (start user n : LiveQueries U D).AsStored key := by
  intro path v hv
  simp [start] at hv

/-- In every run a listener that goes by the changes that it is told shows each document of its
collection as a read of it gives it, and no other, as long as the collector does not drop it. -/
theorem listeners_follow (user : U) (n : ℕ) {key : ResourcePath} {es : List (Event U D)}
    (hkept : ∀ e ∈ es, e ≠ .remove key) :
    Always (observe step follow) (Shows key) (start user n, fun _ => .empty) es := by
  have hnone : (start user n : LiveQueries U D).Followed fun _ => .empty := by
    intro path v hv
    simp [start] at hv
  exact always_kept (fun _ _ hlive hstored => shows_of_followed hlive hstored)
    (fun _ _ _ _ _ => followed_step) hkept (start_live user n) (start_stored user n key) hnone

theorem written_followed : Always (observe step follow) (Shows [['t'], ['1']])
    (start () 1, fun _ => .empty)
    [.listen [['t']] ∅ [], .write [.set [['t'], ['1']] (5 : ℕ) .none], .onlineState .offline] :=
  listeners_follow () 1 (by simp)

/-- A listener is told once at most of an event, of the documents that it has from then on, and
never of nothing. What is shown as the server's answer the server has told, or the user has
written. -/
def Tells (s : LiveQueries U D) : Prop :=
  ∀ e s' snapshots, s.Admissible e → s.handle e = .ok (s', snapshots) →
    ∀ path, ∀ w ∈ s'.queryViews.lookup path,
      (snapshots.filter fun snapshot => snapshot.query = path).length ≤ 1 ∧
      ∀ snapshot ∈ snapshots, snapshot.query = path →
        snapshot.documents = w.documentSet ∧
        (snapshot.documentChanges ≠ [] ∨ snapshot.syncStateChanged = true) ∧
        (snapshot.hasPendingWrites = true ↔
          ∃ d ∈ snapshot.documents.members, d.hasLocalMutations = true) ∧
        (snapshot.fromCache = false → ∀ d ∈ snapshot.documents.members,
          d.key ∈ w.syncedDocuments ∨ d.hasLocalMutations = true)

omit [DecidableEq D] [Inhabited D] [DecidableEq U] in
lemma hasPendingWrites_iff {s : ViewSnapshot D} {v : View D} (h : s.Of v)
    (hm : View.Marks v.mutatedKeys v.documentSet) : s.hasPendingWrites = true ↔
      ∃ d ∈ s.documents.members, d.hasLocalMutations = true := by
  rw [ViewSnapshot.hasPendingWrites, decide_eq_true_eq, ← Finset.nonempty_iff_ne_empty, h.2.2.1,
    h.2.1]
  constructor
  · rintro ⟨k, hk⟩
    obtain ⟨d, hd, hlocal⟩ := (hm k).mp hk
    exact ⟨d, (OrderedSet.find_eq_some.mp hd).1, hlocal⟩
  · rintro ⟨d, hd, hlocal⟩
    exact ⟨d.key, (hm d.key).mpr ⟨d, OrderedSet.mem_iff_find.mp hd, hlocal⟩⟩

theorem snapshots_told (user : U) (n : ℕ) (es : List (Event U D)) :
    Always step Tells (start user n) es := by
  refine always_live (fun s h e s' snapshots he hs path w hw => ?_) user es
  obtain ⟨t, told, ht, hhandled⟩ := handle_eq h he
  rw [hs] at ht
  obtain ⟨rfl, rfl⟩ := Prod.mk.inj (Except.ok.inj ht)
  obtain ⟨v, snapshot, _, htold, hfilter⟩ := hhandled.delivered path w hw
  refine ⟨by rw [hfilter]; cases snapshot <;> simp, fun told hmem hquery => ?_⟩
  have htells : told ∈ snapshot := by
    have hfiltered : told ∈ snapshots.filter fun snapshot => snapshot.query = path :=
      List.mem_filter.mpr ⟨hmem, decide_eq_true hquery⟩
    rw [hfilter] at hfiltered
    exact Option.mem_toList.mp hfiltered
  obtain ⟨hof, _, _, hchanged⟩ := htold.told told htells
  refine ⟨hof.2.1, hchanged, hasPendingWrites_iff hof htold.marks, fun hserver d hd => ?_⟩
  rw [hof.2.1] at hd
  exact htold.confirmed (hof.2.2.2.mp hserver) d.key d (OrderedSet.mem_iff_find.mp hd)

/-- Every event that may come is handled, so that no assertion fails. A document in limbo is asked
for as long as a view needs it and the server has not refused, and only so many at a time. -/
structure Resolves (n : ℕ) (s : LiveQueries U D) : Prop where
  succeeds : ∀ e, s.Admissible e → ∃ s' snapshots, s.handle e = .ok (s', snapshots)
  watched : ∀ path, .query path ∈ s.limboTargets.listenTargets ↔ path ∈ s.queryViews
  bounded : s.limboTargets.activeLimboTargetsByKey.keys.length ≤ n
  asked : ∀ path, ∀ v ∈ s.queryViews.lookup path, ∀ key ∈ v.limboDocuments,
    (∃ id, s.limboTargets.activeLimboTargetsByKey.lookup key = some id ∧
      .limbo id ∈ s.limboTargets.listenTargets) ∨
    (key ∈ s.limboTargets.enqueuedLimboResolutions ∧
      s.limboTargets.activeLimboTargetsByKey.keys.length = n) ∨
    key ∈ s.limboTargets.refused
  needed : ∀ id, .limbo id ∈ s.limboTargets.listenTargets → ∃ resolution,
    s.limboTargets.activeLimboResolutionsByTarget.lookup id = some resolution ∧
    ∃ path, ∃ v ∈ s.queryViews.lookup path, resolution.key ∈ v.limboDocuments

theorem limbo_resolved (user : U) (n : ℕ) (es : List (Event U D)) :
    Always step (Resolves n) (start user n) es := by
  refine always_live (fun s h => ?_) user es
  have hsound := h.linked.sound
  have hcapacity := h.linked.capacity
  refine ⟨fun e he => ?_, h.linked.listened, hcapacity ▸ hsound.bounded,
    fun path v hv key hkey => ?_, fun id hid => ?_⟩
  · obtain ⟨s', snapshots, hs, _⟩ := handle_eq h he
    exact ⟨s', snapshots, hs⟩
  · have href := (h.linked.limbo key path).mpr ⟨v, hv, hkey⟩
    rcases hsound.tracked key path href with hactive | hwaits | hrefused
    · obtain ⟨id, hid⟩ := Option.isSome_iff_exists.mp (AList.lookup_isSome.mpr hactive)
      obtain ⟨received, hr⟩ := (hsound.inverse key id).mp hid
      refine Or.inl ⟨id, hid, (hsound.listened id).mpr ?_⟩
      exact AList.lookup_isSome.mp (by rw [hr]; rfl)
    · have hroom := h.linked.full (List.ne_nil_of_mem hwaits)
      exact Or.inr (Or.inl ⟨hwaits, hroom.trans hcapacity⟩)
    · exact Or.inr (Or.inr hrefused)
  · have hmem := (hsound.listened id).mp hid
    obtain ⟨⟨key, received⟩, hr⟩ := Option.isSome_iff_exists.mp (AList.lookup_isSome.mpr hmem)
    have hactive := (hsound.inverse key id).mpr ⟨received, hr⟩
    refine ⟨_, hr, ?_⟩
    rcases hsound.referenced key (Or.inl (AList.lookup_isSome.mp (by rw [hactive]; rfl))) with
      hnil | ⟨path, hp⟩
    · cases hnil
    · exact ⟨path, (h.linked.limbo key path).mp hp⟩

end LiveQueries

end MobileApps.Firestore

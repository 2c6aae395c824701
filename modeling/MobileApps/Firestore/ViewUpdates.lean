import MobileApps.Firestore.Views
import MobileApps.Library.KeyedMaps

/-! A view that is kept up to date change by change shows what the query would find, but for the
documents whose write the server has acknowledged and not sent back yet. -/

namespace MobileApps.Firestore

open Library.OrderedSets Library.Runs Library.KeyedMaps

variable {D : Type}

/-- What is shown of a document is what the store has of it. A document with a pending write goes
on to be shown as such while the store has the write acknowledged and the server has not sent it. -/
def ShownAs (query : ResourcePath) (f : MutableDocument D) : Option (MutableDocument D) → Prop
  | none => LocalStore.matchesQuery query f = false
  | some d => LocalStore.matchesQuery query f = true ∧
      (d.value = f.value ∧ d.hasLocalMutations = f.hasLocalMutations ∨
        d.hasLocalMutations = true ∧ f.hasCommittedMutations = true)

lemma MutableDocument.Shows.matchesQuery {d f : MutableDocument D} (h : d.Shows f)
    (query : ResourcePath) :
    LocalStore.matchesQuery query d = LocalStore.matchesQuery query f := by
  unfold LocalStore.matchesQuery
  rw [← h.1]
  cases hd : d.isFoundDocument with
  | false => rfl
  | true => rw [(h.2 hd).1]

def ViewSnapshot.Of (s : ViewSnapshot D) (v : View D) : Prop :=
  s.query = v.query ∧ s.documents = v.documentSet ∧ s.mutatedKeys = v.mutatedKeys ∧
    (s.fromCache = false ↔ v.syncState = .synced)

namespace DocumentViewChange

def follow (docs : DocumentSet D) (change : DocumentViewChange D) : DocumentSet D :=
  if change.type = .removed then docs.erase change.document.key else docs.insert change.document

lemma find_follow_self (change : DocumentViewChange D) (docs : DocumentSet D) :
    (follow docs change).find change.document.key =
      if change.type = .removed then none else some change.document := by
  unfold follow
  split <;> simp

lemma find_follow_ne {change : DocumentViewChange D} {k : ResourcePath}
    (h : k ≠ change.document.key) (docs : DocumentSet D) :
    (follow docs change).find k = docs.find k := by
  unfold follow
  split
  · exact OrderedSet.find_erase_ne h docs
  · exact OrderedSet.find_insert_ne h docs

end DocumentViewChange

namespace View

def Marks (mutatedKeys : Finset ResourcePath) (documents : DocumentSet D) : Prop :=
  ∀ k, k ∈ mutatedKeys ↔ ∃ d, documents.find k = some d ∧ d.hasLocalMutations = true

lemma Marks.unique {s t : Finset ResourcePath} {documents : DocumentSet D}
    (hs : Marks s documents) (ht : Marks t documents) : s = t :=
  Finset.ext fun k => (hs k).trans (ht k).symm

variable [DecidableEq D]

def shown (v : View D) (key : ResourcePath) (doc : MutableDocument D) :
    Option (MutableDocument D) :=
  if (v.changeOf key doc).isNone then v.documentSet.find key
  else if LocalStore.matchesQuery v.query doc then some doc
  else none

lemma changeOf_key {v : View D} {key : ResourcePath} {doc : MutableDocument D}
    {change : DocumentViewChange D} (h : v.changeOf key doc = some change)
    (hdoc : LocalStore.matchesQuery v.query doc = true → doc.key = key) :
    change.document.key = key := by
  unfold changeOf at h
  split at h
  · rename_i old _ hm
    split at h
    · split at h
      · cases h
      · exact Option.some.inj h ▸ hdoc hm
    · split at h
      · exact Option.some.inj h ▸ hdoc hm
      · cases h
  · rename_i _ hm
    exact Option.some.inj h ▸ hdoc hm
  · rename_i old hold _
    exact Option.some.inj h ▸ OrderedSet.find_label hold
  · cases h

lemma shown_as {v : View D} (hm : Marks v.mutatedKeys v.documentSet) {key : ResourcePath}
    {doc f : MutableDocument D} (hf : doc.Shows f) : ShownAs v.query f (v.shown key doc) := by
  have hmatches := hf.matchesQuery v.query
  have hself : LocalStore.matchesQuery v.query doc = true →
      ShownAs v.query f (some doc) := by
    intro h
    have hfound : doc.isFoundDocument = true := (LocalStore.matchesQuery_iff.mp h).1
    have hsame := hf.2 hfound
    refine ⟨hmatches ▸ h, Or.inl ⟨hsame.2.2.2.2, ?_⟩⟩
    simp only [MutableDocument.hasLocalMutations, hsame.2.2.2.1]
  unfold shown
  cases hd : LocalStore.matchesQuery v.query doc with
  | false =>
    cases ho : v.documentSet.find key with
    | none =>
      rw [if_pos (by simp [changeOf, ho, hd])]
      exact hmatches.symm.trans hd
    | some old =>
      rw [if_neg (by simp [changeOf, ho, hd]), if_neg (by simp)]
      exact hmatches.symm.trans hd
  | true =>
    have hsame := hf.2 (LocalStore.matchesQuery_iff.mp hd).1
    rw [if_pos rfl]
    split
    · rename_i hnone
      cases ho : v.documentSet.find key with
      | none => simp [changeOf, ho, hd] at hnone
      | some old =>
        -- the old document stays: its contents are still right, or it waits for the server
        have hmutated : decide (key ∈ v.mutatedKeys) = old.hasLocalMutations := by
          rw [Bool.eq_iff_iff, decide_eq_true_eq, hm key]
          simp [ho]
        have hstate : doc.hasLocalMutations = f.hasLocalMutations ∧
            doc.hasCommittedMutations = f.hasCommittedMutations := by
          simp only [MutableDocument.hasLocalMutations, MutableDocument.hasCommittedMutations,
            hsame.2.2.2.1, and_self]
        refine ⟨hmatches ▸ hd, ?_⟩
        simp only [changeOf, oldDocHadPendingMutations, newDocHasPendingMutations, ho, hd, hmutated]
          at hnone
        rw [← hsame.2.2.2.2, ← hstate.1, ← hstate.2]
        by_cases hvalue : old.value = doc.value
        · by_cases hlocal : doc.hasLocalMutations = old.hasLocalMutations
          · exact Or.inl ⟨hvalue, hlocal.symm⟩
          · right
            cases hl : old.hasLocalMutations <;> cases hn : doc.hasLocalMutations <;>
              simp_all
        · right
          simp only [hvalue, ne_eq, not_false_eq_true, if_true] at hnone
          cases hw : shouldWaitForSyncedDocument doc old with
          | false => simp [hw] at hnone
          | true =>
            simp only [shouldWaitForSyncedDocument, Bool.and_eq_true] at hw
            exact hw.1
    · exact hself hd

omit [DecidableEq D] in
lemma addChange_fresh {change : DocumentViewChange D} {s : DocumentViewChangeSet D}
    (h : s.lookup change.document.key = none) :
    DocumentViewChangeSet.addChange change s = .ok (s.insert change.document.key change) := by
  simp only [DocumentViewChangeSet.addChange, h]

lemma computeDocumentChange_eq {v : View D} {key : ResourcePath} {doc : MutableDocument D}
    (hdoc : LocalStore.matchesQuery v.query doc = true → doc.key = key)
    {c : ViewDocumentChanges D} (hmarks : Marks c.mutatedKeys c.documentSet)
    (hold : c.documentSet.find key = v.documentSet.find key)
    (hfresh : c.changeSet.lookup key = none) :
    ∃ c', v.computeDocumentChange c ⟨key, doc⟩ = .ok c' ∧ Marks c'.mutatedKeys c'.documentSet ∧
      (∀ k, c'.documentSet.find k =
        if k = key then v.shown key doc else c.documentSet.find k) ∧
      ∀ k, c'.changeSet.lookup k =
        if k = key then v.changeOf key doc else c.changeSet.lookup k := by
  cases hc : v.changeOf key doc with
  | none =>
    refine ⟨c, by simp only [computeDocumentChange, hc], hmarks, fun k => ?_, fun k => ?_⟩
    · split
      · rename_i hk
        subst hk
        simp [hold, shown, hc]
      · rfl
    · split
      · rename_i hk
        exact hk ▸ hfresh
      · rfl
  | some change =>
    have hkey := changeOf_key hc hdoc
    have hadd : DocumentViewChangeSet.addChange change c.changeSet =
        .ok (c.changeSet.insert key change) := by
      rw [← hkey] at hfresh ⊢
      exact addChange_fresh hfresh
    have hset : ∀ k, (c.changeSet.insert key change).lookup k =
        if k = key then some change else c.changeSet.lookup k := by
      intro k
      by_cases hk : k = key
      · subst hk
        simp
      · rw [AList.lookup_insert_ne hk, if_neg hk]
    by_cases hd : LocalStore.matchesQuery v.query doc = true
    · obtain rfl := hdoc hd
      refine ⟨_, by simp only [computeDocumentChange, hc, hadd, bind, Except.bind, if_pos hd]; rfl,
        fun k => ?_, fun k => ?_, hset⟩
      · by_cases hk : k = doc.key
        · subst hk
          rw [OrderedSet.find_insert_self]
          cases hl : doc.hasLocalMutations <;> simp [hl]
        · rw [OrderedSet.find_insert_ne hk, ← hmarks k]
          split <;> simp [hk]
      · by_cases hk : k = doc.key
        · subst hk
          rw [OrderedSet.find_insert_self]
          simp [shown, hc, hd]
        · rw [OrderedSet.find_insert_ne hk, if_neg hk]
    · refine ⟨_, by simp only [computeDocumentChange, hc, hadd, bind, Except.bind, if_neg hd]; rfl,
        fun k => ?_, fun k => ?_, hset⟩
      · by_cases hk : k = key
        · subst hk
          simp
        · rw [OrderedSet.find_erase_ne hk, ← hmarks k]
          simp [hk]
      · by_cases hk : k = key
        · subst hk
          simp [shown, hc, hd]
        · rw [OrderedSet.find_erase_ne hk, if_neg hk]

lemma computeDocumentChanges_eq {v : View D} (hm : Marks v.mutatedKeys v.documentSet)
    {docChanges : DocumentMap D} (hkeys : ∀ k d, docChanges.lookup k = some d →
      LocalStore.matchesQuery v.query d = true → d.key = k) :
    ∃ c, v.computeDocumentChanges docChanges = .ok c ∧ Marks c.mutatedKeys c.documentSet ∧
      (∀ k, c.documentSet.find k = (docChanges.lookup k).elim (v.documentSet.find k) (v.shown k)) ∧
      ∀ k, c.changeSet.lookup k = (docChanges.lookup k).bind (v.changeOf k) := by
  obtain ⟨c, hloop, hmarks, hfind, hchange⟩ := foldlM_loop (f := v.computeDocumentChange)
    (l := docChanges.entries) (b := ⟨v.documentSet, ∅, v.mutatedKeys⟩)
    (I := fun done c => Marks c.mutatedKeys c.documentSet ∧
      (∀ k, c.documentSet.find k = (done.dlookup k).elim (v.documentSet.find k) (v.shown k)) ∧
      ∀ k, c.changeSet.lookup k = (done.dlookup k).bind (v.changeOf k))
    ⟨hm, fun _ => rfl, fun _ => rfl⟩ (by
      rintro done ⟨key, doc⟩ rest c hl ⟨hmarks, hfind, hchange⟩
      obtain ⟨hlookup, hnew⟩ := split_entries hl
      have hfresh : done.dlookup key = none := List.dlookup_eq_none.mpr hnew
      have hold : c.documentSet.find key = v.documentSet.find key := by
        rw [hfind, hfresh]
        rfl
      have hnone : c.changeSet.lookup key = none := by
        rw [hchange, hfresh]
        rfl
      obtain ⟨c', hc, hmarks', hfind', hchange'⟩ :=
        computeDocumentChange_eq (hkeys key doc hlookup) hmarks hold hnone
      refine ⟨c', hc, hmarks', fun k => ?_, fun k => ?_⟩
      · rw [hfind', dlookup_concat hnew, hfind]
        split
        · rename_i hk
          subst hk
          rfl
        · rfl
      · rw [hchange', dlookup_concat hnew, hchange]
        split
        · rename_i hk
          subst hk
          rfl
        · rfl)
  exact ⟨c, hloop, hmarks, hfind, hchange⟩

omit [DecidableEq D] in
lemma applyTargetChange_eq {v : View D} {targetChange : Option TargetChange}
    (hmodified : ∀ change ∈ targetChange, ∀ key ∈ change.modifiedDocuments,
      key ∈ v.syncedDocuments) :
    v.applyTargetChange targetChange = .ok { v with
      syncedDocuments := targetChange.elim v.syncedDocuments fun change =>
        (v.syncedDocuments ∪ change.addedDocuments.toFinset) \ change.removedDocuments.toFinset
      current := targetChange.elim v.current TargetChange.current } := by
  cases targetChange with
  | none => rfl
  | some change =>
    have hassert : ∀ key ∈ change.modifiedDocuments,
        key ∈ v.syncedDocuments ∪ change.addedDocuments.toFinset := fun key hk =>
      Finset.mem_union_left _ (hmodified change rfl key hk)
    simp only [applyTargetChange, hardAssert, if_pos hassert, bind, Except.bind, Option.elim_some]

def Diffs (changes : List LimboDocumentChange) (before after : List ResourcePath) : Prop :=
  (∀ k, .added k ∈ changes ↔ k ∈ after ∧ k ∉ before) ∧
    ∀ k, .removed k ∈ changes ↔ k ∈ before ∧ k ∉ after

omit [DecidableEq D] in
lemma updateLimboDocuments_eq (v : View D) : ∃ limboDocuments,
    v.updateLimboDocuments.1 = { v with limboDocuments } ∧
    Diffs v.updateLimboDocuments.2 v.limboDocuments limboDocuments ∧
    (v.current = false → v.updateLimboDocuments.2 = []) ∧
    (v.current = true → ∀ k, v.shouldBeInLimbo k = true → k ∈ limboDocuments) := by
  unfold updateLimboDocuments
  split
  · rename_i hcurrent
    exact ⟨v.limboDocuments, rfl, by simp [Diffs], fun _ => rfl, fun h => absurd h hcurrent⟩
  · rename_i hcurrent
    refine ⟨_, rfl, ⟨fun k => ?_, fun k => ?_⟩, fun h => absurd (by simp [h]) hcurrent,
      fun _ k hk => List.mem_filter.mpr ⟨?_, hk⟩⟩
    · simp [and_assoc, and_comm]
    · simp [and_assoc, and_comm]
    · unfold shouldBeInLimbo at hk
      split at hk
      · cases hk
      · split at hk
        · cases hk
        · rename_i doc hfind
          obtain ⟨hm, rfl⟩ := OrderedSet.find_eq_some.mp hfind
          exact List.mem_map.mpr ⟨doc, hm, rfl⟩

def Confirmed (v : View D) : Prop :=
  v.syncState = .synced → ∀ k d, v.documentSet.find k = some d →
    k ∈ v.syncedDocuments ∨ d.hasLocalMutations = true

omit [DecidableEq D] in
lemma confirmed_of_limbo {v : View D}
    (hall : v.current = true → ∀ k, v.shouldBeInLimbo k = true → k ∈ v.limboDocuments)
    (hsynced : v.syncState = .synced → v.limboDocuments = [] ∧ v.current = true) :
    v.Confirmed := by
  intro hstate k d hd
  by_contra hneither
  obtain ⟨htold, hlocal⟩ := not_or.mp hneither
  obtain ⟨hempty, hcurrent⟩ := hsynced hstate
  have hin : v.shouldBeInLimbo k = true := by
    simp only [shouldBeInLimbo, if_neg htold, hd]
    simpa using hlocal
  exact List.not_mem_nil (hempty ▸ hall hcurrent k hin)

structure Applied (v : View D) (c : ViewDocumentChanges D) (targetChange : Option TargetChange)
    (w : View D) (snapshot : Option (ViewSnapshot D)) (limboChanges : List LimboDocumentChange) :
    Prop where
  query : w.query = v.query
  documents : w.documentSet = c.documentSet
  mutated : w.mutatedKeys = c.mutatedKeys
  synced : w.syncedDocuments = targetChange.elim v.syncedDocuments fun change =>
    (v.syncedDocuments ∪ change.addedDocuments.toFinset) \ change.removedDocuments.toFinset
  limbo : Diffs limboChanges v.limboDocuments w.limboDocuments
  quiet : targetChange = none → v.current = false → limboChanges = []
  confirmed : w.Confirmed
  started : w.syncState ≠ .none
  silent : snapshot = none → c.changeSet.entries = [] ∧ w.syncState = v.syncState
  told : ∀ s ∈ snapshot, s.Of w ∧ s.oldDocuments = v.documentSet ∧
    s.documentChanges.Perm c.changeSet.getChanges ∧
    (s.documentChanges ≠ [] ∨ s.syncStateChanged = true)

omit [DecidableEq D] in
lemma applyChanges_eq {v : View D} (c : ViewDocumentChanges D)
    {targetChange : Option TargetChange}
    (hmodified : ∀ change ∈ targetChange, ∀ key ∈ change.modifiedDocuments,
      key ∈ v.syncedDocuments) :
    ∃ w snapshot limboChanges, v.applyChanges c targetChange = .ok (w, snapshot, limboChanges) ∧
      Applied v c targetChange w snapshot limboChanges := by
  have htarget := applyTargetChange_eq (v := { v with
    documentSet := c.documentSet
    mutatedKeys := c.mutatedKeys }) hmodified
  generalize hx : ({ v with
    documentSet := c.documentSet
    mutatedKeys := c.mutatedKeys
    syncedDocuments := targetChange.elim v.syncedDocuments fun change =>
      (v.syncedDocuments ∪ change.addedDocuments.toFinset) \ change.removedDocuments.toFinset
    current := targetChange.elim v.current TargetChange.current } : View D) = x at htarget
  obtain ⟨limboDocuments, hlimbo, hdiffs, hquiet, hall⟩ := updateLimboDocuments_eq x
  generalize hsorted : (c.changeSet.getChanges.mergeSort fun lhs rhs =>
    lhs.type.position < rhs.type.position ||
      lhs.type.position == rhs.type.position && decide (lhs.document.key ≤ rhs.document.key)) =
    changes
  have hperm : changes.Perm c.changeSet.getChanges := hsorted ▸ List.mergeSort_perm _ _
  cases hu : x.updateLimboDocuments with
  | mk w limboChanges =>
    rw [hu] at hlimbo hdiffs hquiet
    generalize hstate : (if w.limboDocuments = [] ∧ w.current = true then SyncState.synced
      else .local_) = newSyncState
    have hlocal : (decide (newSyncState = .local_) = false ↔ newSyncState = .synced) := by
      rw [← hstate]
      split <;> simp
    have hstarted : newSyncState ≠ .none := by
      rw [← hstate]
      split <;> exact SyncState.noConfusion
    have hw : w = { x with limboDocuments } := hlimbo
    have hconfirmed : Confirmed { w with syncState := newSyncState } := by
      subst hw
      refine confirmed_of_limbo hall fun hsynced => ?_
      by_contra hnot
      rw [if_neg hnot] at hstate
      exact SyncState.noConfusion (hstate.trans hsynced)
    have hafter : ∀ snapshot,
        (snapshot = none → c.changeSet.entries = [] ∧ newSyncState = v.syncState) →
        (∀ s ∈ snapshot, ViewSnapshot.Of s { w with syncState := newSyncState } ∧
          s.oldDocuments = v.documentSet ∧ s.documentChanges.Perm c.changeSet.getChanges ∧
          (s.documentChanges ≠ [] ∨ s.syncStateChanged = true)) →
        Applied v c targetChange { w with syncState := newSyncState } snapshot limboChanges := by
      subst hw hx
      exact fun snapshot hsilent htold => ⟨rfl, rfl, rfl, rfl, hdiffs,
        fun hnone hcurrent => hquiet (by rw [hnone]; exact hcurrent), hconfirmed, hstarted,
        hsilent, htold⟩
    by_cases hsilent : (changes.isEmpty && !decide (newSyncState ≠ v.syncState)) = true
    · refine ⟨{ w with syncState := newSyncState }, none, limboChanges, ?_,
        hafter none (fun _ => ?_) (by simp)⟩
      · simp only [applyChanges, hsorted, htarget, bind, Except.bind, hu, hstate, hsilent, if_true]
      · obtain ⟨hempty, hsame⟩ := Bool.and_eq_true_iff.mp hsilent
        have hchanges : c.changeSet.getChanges = [] :=
          (List.isEmpty_iff.mp hempty ▸ hperm).nil_eq.symm
        exact ⟨List.map_eq_nil_iff.mp hchanges, by simpa using hsame⟩
    · have happly : v.applyChanges c targetChange = .ok ({ w with syncState := newSyncState },
          some
            { query := v.query
              documents := c.documentSet
              oldDocuments := v.documentSet
              documentChanges := changes
              mutatedKeys := c.mutatedKeys
              fromCache := newSyncState = .local_
              syncStateChanged := decide (newSyncState ≠ v.syncState)
              excludesMetadataChanges := false
              hasCachedResults :=
                targetChange.elim false fun change => !change.resumeToken.isEmpty },
          limboChanges) := by
        simp only [applyChanges, hsorted, htarget, bind, Except.bind, hu, hstate]
        rw [if_neg hsilent]
      refine ⟨_, _, _, happly, hafter _ nofun fun s hs => ?_⟩
      obtain rfl := Option.some.inj hs
      subst hw hx
      refine ⟨⟨rfl, rfl, rfl, hlocal⟩, rfl, hperm, ?_⟩
      by_contra hnone
      simp only [ne_eq, not_or, not_not, Bool.not_eq_true] at hnone
      exact hsilent (by simp [hnone])

omit [DecidableEq D] in
lemma follow_all {changes : List (DocumentViewChange D)}
    (hnodup : (changes.map fun change => change.document.key).Nodup) (docs : DocumentSet D) :
    (∀ k, (∀ change ∈ changes, change.document.key ≠ k) →
      (changes.foldl DocumentViewChange.follow docs).find k = docs.find k) ∧
    ∀ change ∈ changes, (changes.foldl DocumentViewChange.follow docs).find change.document.key =
      if change.type = .removed then none else some change.document := by
  induction changes generalizing docs with
  | nil => exact ⟨fun _ _ => rfl, nofun⟩
  | cons change changes ih =>
    obtain ⟨hfresh, hnodup⟩ := List.nodup_cons.mp hnodup
    obtain ⟨hothers, hall⟩ := ih hnodup (DocumentViewChange.follow docs change)
    rw [List.foldl_cons]
    refine ⟨fun k hk => ?_, fun other ho => ?_⟩
    · rw [hothers k fun c hc => hk c (List.mem_cons_of_mem _ hc)]
      exact DocumentViewChange.find_follow_ne (hk change List.mem_cons_self).symm docs
    · rcases List.mem_cons.mp ho with rfl | ho
      · rw [hothers _ fun c hc he => hfresh (List.mem_map.mpr ⟨c, hc, he⟩)]
        exact DocumentViewChange.find_follow_self other docs
      · exact hall other ho

lemma changeOf_type {v : View D} {key : ResourcePath} {doc : MutableDocument D}
    {change : DocumentViewChange D} (h : v.changeOf key doc = some change) :
    if LocalStore.matchesQuery v.query doc then change.type ≠ .removed ∧ change.document = doc
    else change.type = .removed := by
  unfold changeOf at h
  split at h
  · rename_i hm
    rw [if_pos hm]
    split at h
    · split at h
      · cases h
      · exact Option.some.inj h ▸ ⟨nofun, rfl⟩
    · split at h
      · exact Option.some.inj h ▸ ⟨nofun, rfl⟩
      · cases h
  · rename_i hm
    rw [if_pos hm]
    exact Option.some.inj h ▸ ⟨nofun, rfl⟩
  · rename_i hm
    rw [if_neg (by simp [hm])]
    exact Option.some.inj h ▸ rfl
  · cases h

lemma follow_changes {v : View D} {docChanges : DocumentMap D}
    (hkeys : ∀ k d, docChanges.lookup k = some d →
      LocalStore.matchesQuery v.query d = true → d.key = k)
    {changeSet : DocumentViewChangeSet D}
    (hchanges : ∀ k, changeSet.lookup k = (docChanges.lookup k).bind (v.changeOf k))
    {documents : DocumentSet D} (hdocuments : ∀ k, documents.find k =
      (docChanges.lookup k).elim (v.documentSet.find k) (v.shown k))
    {changes : List (DocumentViewChange D)} (hperm : changes.Perm changeSet.getChanges) :
    changes.foldl DocumentViewChange.follow v.documentSet = documents := by
  have hof : ∀ entry ∈ changeSet.entries, ∃ d, docChanges.lookup entry.1 = some d ∧
      v.changeOf entry.1 d = some entry.2 := fun entry he =>
    Option.bind_eq_some_iff.mp (hchanges entry.1 ▸ AList.mem_lookup_iff.mpr he)
  have hkey : ∀ entry ∈ changeSet.entries, entry.2.document.key = entry.1 := by
    intro entry he
    obtain ⟨d, hd, hc⟩ := hof entry he
    exact changeOf_key hc (hkeys entry.1 d hd)
  have hmap : changeSet.getChanges.map (fun change => change.document.key) =
      changeSet.entries.map Sigma.fst := by
    rw [DocumentViewChangeSet.getChanges, List.map_map]
    exact List.map_congr_left hkey
  have hnodup : (changes.map fun change => change.document.key).Nodup :=
    (hperm.map _).nodup_iff.mpr (hmap ▸ changeSet.nodupKeys)
  obtain ⟨hothers, hall⟩ := follow_all hnodup v.documentSet
  refine OrderedSet.ext_find fun k => ?_
  rw [hdocuments]
  cases hl : changeSet.lookup k with
  | none =>
    rw [hothers k]
    · rw [hchanges] at hl
      cases hd : docChanges.lookup k with
      | none => rfl
      | some d =>
        rw [hd, Option.bind_some] at hl
        simp [shown, hl]
    · intro change hc he
      obtain ⟨entry, hentry, rfl⟩ := List.mem_map.mp (hperm.mem_iff.mp hc)
      have hsome := AList.mem_lookup_iff.mpr hentry
      rw [← hkey entry hentry, he, hl] at hsome
      cases hsome
  | some change =>
    have hentry := AList.mem_lookup_iff.mp hl
    have hmem : change ∈ changes := hperm.mem_iff.mpr (List.mem_map.mpr ⟨_, hentry, rfl⟩)
    obtain ⟨d, hd, hc⟩ := hof _ hentry
    have hfollowed := hall change hmem
    rw [hkey _ hentry] at hfollowed
    have htype := changeOf_type hc
    rw [hfollowed, hd, Option.elim_some, shown, hc]
    split at htype
    · rename_i hm
      rw [if_neg htype.1, if_neg (by simp), if_pos hm, htype.2]
    · rename_i hm
      rw [if_pos htype, if_neg (by simp), if_neg hm]

structure Updated (v : View D) (docChanges : DocumentMap D) (targetChange : Option TargetChange)
    (w : View D) (snapshot : Option (ViewSnapshot D)) (limboChanges : List LimboDocumentChange) :
    Prop where
  query : w.query = v.query
  marks : Marks w.mutatedKeys w.documentSet
  documents : ∀ k, w.documentSet.find k =
    (docChanges.lookup k).elim (v.documentSet.find k) (v.shown k)
  synced : w.syncedDocuments = targetChange.elim v.syncedDocuments fun change =>
    (v.syncedDocuments ∪ change.addedDocuments.toFinset) \ change.removedDocuments.toFinset
  limbo : Diffs limboChanges v.limboDocuments w.limboDocuments
  confirmed : w.Confirmed
  started : w.syncState ≠ .none
  silent : snapshot = none → w.documentSet = v.documentSet ∧ w.mutatedKeys = v.mutatedKeys ∧
    w.syncState = v.syncState
  told : ∀ s ∈ snapshot, s.Of w ∧ s.oldDocuments = v.documentSet ∧
    s.documentChanges.foldl DocumentViewChange.follow s.oldDocuments = s.documents ∧
    (s.documentChanges ≠ [] ∨ s.syncStateChanged = true)

lemma update_eq {v : View D} (hm : Marks v.mutatedKeys v.documentSet)
    {docChanges : DocumentMap D} (hkeys : ∀ k d, docChanges.lookup k = some d →
      LocalStore.matchesQuery v.query d = true → d.key = k)
    {targetChange : Option TargetChange} (hmodified : ∀ change ∈ targetChange,
      ∀ key ∈ change.modifiedDocuments, key ∈ v.syncedDocuments) :
    ∃ c w snapshot limboChanges, v.computeDocumentChanges docChanges = .ok c ∧
      v.applyChanges c targetChange = .ok (w, snapshot, limboChanges) ∧
      Updated v docChanges targetChange w snapshot limboChanges := by
  obtain ⟨c, hc, hmarks, hfind, hchanges⟩ := computeDocumentChanges_eq hm hkeys
  obtain ⟨w, snapshot, limboChanges, hw, happlied⟩ := applyChanges_eq c hmodified
  have hmarks' : Marks w.mutatedKeys w.documentSet := by
    rw [happlied.mutated, happlied.documents]
    exact hmarks
  refine ⟨c, w, snapshot, limboChanges, hc, hw, happlied.query, hmarks', fun k => ?_,
    happlied.synced, happlied.limbo, happlied.confirmed, happlied.started, fun hnone => ?_,
    fun s hs => ?_⟩
  · rw [happlied.documents]
    exact hfind k
  · obtain ⟨hempty, hstate⟩ := happlied.silent hnone
    have hsame : w.documentSet = v.documentSet := by
      rw [happlied.documents]
      have hperm : [].Perm c.changeSet.getChanges := by
        rw [DocumentViewChangeSet.getChanges, hempty]
        exact .nil
      exact (follow_changes hkeys hchanges hfind hperm).symm
    exact ⟨hsame, hmarks'.unique (hsame ▸ hm), hstate⟩
  · obtain ⟨hof, hold, hperm, htells⟩ := happlied.told s hs
    refine ⟨hof, hold, ?_, htells⟩
    rw [hold, hof.2.1, happlied.documents]
    exact follow_changes hkeys hchanges hfind hperm

end View

end MobileApps.Firestore

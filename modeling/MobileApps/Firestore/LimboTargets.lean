import MobileApps.Firestore.Views
import MobileApps.Library.KeyedMaps
import Mathlib.Data.Finset.Sort

/-! The documents in limbo: a view has them though the server does not count them among the results
of its query, so each is asked for by a target of its own, and only so many at a time:
`sync_engine.cc`, `reference_set.cc`, and the targets that `remote_store.cc` watches. -/

namespace MobileApps.Firestore

open Library.KeyedMaps Library.Runs

/-- The id of a query's target, which is even, goes by the path of its collection; those of
documents in limbo are odd. -/
inductive TargetId
  | query (path : ResourcePath)
  | limbo (id : ℕ)
  deriving DecidableEq

abbrev TargetChangeMap := AList fun _ : TargetId => TargetChange

structure LimboResolution where
  key : ResourcePath
  documentReceived : Bool
  deriving DecidableEq

/-- `refused` has the documents in limbo that the server would not tell about. -/
structure LimboTargets where
  maxConcurrentLimboResolutions : ℕ
  listenTargets : Finset TargetId
  limboDocumentRefs : Finset (ResourcePath × ResourcePath)
  activeLimboTargetsByKey : AList fun _ : ResourcePath => ℕ
  activeLimboResolutionsByTarget : AList fun _ : ℕ => LimboResolution
  enqueuedLimboResolutions : List ResourcePath
  nextId : ℕ
  refused : Finset ResourcePath

namespace LimboTargets

def start (maxConcurrentLimboResolutions : ℕ) : LimboTargets :=
  ⟨maxConcurrentLimboResolutions, ∅, ∅, ∅, ∅, [], 1, ∅⟩

def listen (target : TargetId) (t : LimboTargets) : LimboTargets :=
  { t with listenTargets := insert target t.listenTargets }

def stopListening (target : TargetId) (t : LimboTargets) : Except Halt LimboTargets := do
  hardAssert (target ∈ t.listenTargets) "StopListening: target not currently watched"
  .ok { t with listenTargets := t.listenTargets.erase target }

def forget (target : TargetId) (t : LimboTargets) : LimboTargets :=
  { t with listenTargets := t.listenTargets.erase target }

def addReference (key path : ResourcePath) (t : LimboTargets) : LimboTargets :=
  { t with limboDocumentRefs := insert (key, path) t.limboDocumentRefs }

def removeReference (key path : ResourcePath) (t : LimboTargets) : LimboTargets :=
  { t with limboDocumentRefs := t.limboDocumentRefs.erase (key, path) }

def removeReferences (path : ResourcePath) (t : LimboTargets) : LimboTargets :=
  { t with limboDocumentRefs := t.limboDocumentRefs.filter fun reference => reference.2 ≠ path }

def referencedKeys (path : ResourcePath) (t : LimboTargets) : List ResourcePath :=
  ((t.limboDocumentRefs.filter fun reference => reference.2 = path).image Prod.fst).sort

def containsKey (key : ResourcePath) (t : LimboTargets) : Bool :=
  key ∈ t.limboDocumentRefs.image Prod.fst

def resolve (key : ResourcePath) (t : LimboTargets) : LimboTargets :=
  listen (.limbo t.nextId)
    { t with
      nextId := t.nextId + 2
      activeLimboResolutionsByTarget :=
        t.activeLimboResolutionsByTarget.insert t.nextId ⟨key, false⟩
      activeLimboTargetsByKey := t.activeLimboTargetsByKey.insert key t.nextId }

def pump : List ResourcePath → LimboTargets → LimboTargets
  | [], t => { t with enqueuedLimboResolutions := [] }
  | key :: enqueued, t =>
      if t.activeLimboTargetsByKey.keys.length < t.maxConcurrentLimboResolutions then
        pump enqueued (t.resolve key)
      else { t with enqueuedLimboResolutions := key :: enqueued }

def pumpEnqueuedLimboResolutions (t : LimboTargets) : LimboTargets :=
  pump t.enqueuedLimboResolutions t

def trackLimboChange (key : ResourcePath) (t : LimboTargets) : LimboTargets :=
  if key ∉ t.activeLimboTargetsByKey ∧ key ∉ t.enqueuedLimboResolutions then
    pumpEnqueuedLimboResolutions
      { t with enqueuedLimboResolutions := t.enqueuedLimboResolutions ++ [key] }
  else t

def dequeue (key : ResourcePath) (t : LimboTargets) : LimboTargets :=
  { t with enqueuedLimboResolutions := t.enqueuedLimboResolutions.filter fun k => k ≠ key }

def endResolution (key : ResourcePath) (limboTargetId : ℕ) (t : LimboTargets) : LimboTargets :=
  { t with
    activeLimboTargetsByKey := t.activeLimboTargetsByKey.erase key
    activeLimboResolutionsByTarget := t.activeLimboResolutionsByTarget.erase limboTargetId }

def removeLimboTarget (key : ResourcePath) (t : LimboTargets) : Except Halt LimboTargets :=
  let t := t.dequeue key
  match t.activeLimboTargetsByKey.lookup key with
  | none => .ok t
  | some limboTargetId => do
    let t ← t.stopListening (.limbo limboTargetId)
    .ok (t.endResolution key limboTargetId).pumpEnqueuedLimboResolutions

def dropUnreferenced (t : LimboTargets) (key : ResourcePath) : Except Halt LimboTargets :=
  if t.containsKey key then .ok t else t.removeLimboTarget key

def updateTrackedLimboDocument (path : ResourcePath) (t : LimboTargets) :
    LimboDocumentChange → Except Halt LimboTargets
  | .added key => .ok ((t.addReference key path).trackLimboChange key)
  | .removed key => (t.removeReference key path).dropUnreferenced key

def updateTrackedLimboDocuments (limboChanges : List LimboDocumentChange) (path : ResourcePath)
    (t : LimboTargets) : Except Halt LimboTargets :=
  limboChanges.foldlM (updateTrackedLimboDocument path) t

/-- What `RemoveAndCleanupTarget` does about the documents in limbo. -/
def removeTarget (path : ResourcePath) (t : LimboTargets) : Except Halt LimboTargets :=
  (t.referencedKeys path).foldlM dropUnreferenced (t.removeReferences path)

/-- What `HandleRejectedListen` does about a document in limbo. -/
def resolutionFailed (id : ℕ) (resolution : LimboResolution) (t : LimboTargets) : LimboTargets :=
  pumpEnqueuedLimboResolutions
    { t.endResolution resolution.key id with refused := insert resolution.key t.refused }

def noteReceived (id : ℕ) (key : ResourcePath) (documentReceived : Bool) (t : LimboTargets) :
    LimboTargets :=
  { t with activeLimboResolutionsByTarget :=
    t.activeLimboResolutionsByTarget.insert id { key, documentReceived } }

/-- What `ApplyRemoteEvent` notes for one target. -/
def noteTargetChange (t : LimboTargets) :
    (_ : TargetId) × TargetChange → Except Halt LimboTargets
  | ⟨.query _, _⟩ => .ok t
  | ⟨.limbo id, change⟩ =>
      match t.activeLimboResolutionsByTarget.lookup id with
      | none => .ok t
      | some resolution => do
        hardAssert ((change.addedDocuments ++ change.modifiedDocuments ++
            change.removedDocuments).length ≤ 1)
          "Limbo resolution for single document contains multiple changes."
        if change.addedDocuments ≠ [] then
          .ok (t.noteReceived id resolution.key true)
        else if change.modifiedDocuments ≠ [] then do
          hardAssert resolution.documentReceived
            "Received change for limbo target document without add."
          .ok t
        else if change.removedDocuments ≠ [] then do
          hardAssert resolution.documentReceived
            "Received remove for limbo target document without add."
          .ok (t.noteReceived id resolution.key false)
        else .ok t

def noteTargetChanges (changes : TargetChangeMap) (t : LimboTargets) : Except Halt LimboTargets :=
  changes.entries.foldlM noteTargetChange t

/-- What the watch stream sees to about the change of a target of a document in limbo. -/
def Promised (t : LimboTargets) (id : ℕ) (change : TargetChange) : Prop :=
  ∀ resolution ∈ t.activeLimboResolutionsByTarget.lookup id,
    (change.addedDocuments ++ change.modifiedDocuments ++ change.removedDocuments).length ≤ 1 ∧
    (change.modifiedDocuments ++ change.removedDocuments ≠ [] →
      resolution.documentReceived = true)

/-! ### The bookkeeping holds together -/

/-- The two maps are inverse to each other, and a target is watched for each resolution that runs.
A resolution runs or waits for the documents in limbo, except for those that are `leaving`, and for
no others; one that was refused is not tried again. -/
structure Sound (leaving : List ResourcePath) (t : LimboTargets) : Prop where
  inverse : ∀ k id, t.activeLimboTargetsByKey.lookup k = some id ↔
    ∃ received, t.activeLimboResolutionsByTarget.lookup id = some ⟨k, received⟩
  fresh : ∀ id ∈ t.activeLimboResolutionsByTarget, id < t.nextId
  listened : ∀ id, .limbo id ∈ t.listenTargets ↔ id ∈ t.activeLimboResolutionsByTarget
  nodup : t.enqueuedLimboResolutions.Nodup
  waiting : ∀ k ∈ t.enqueuedLimboResolutions, k ∉ t.activeLimboTargetsByKey
  bounded : t.activeLimboTargetsByKey.keys.length ≤ t.maxConcurrentLimboResolutions
  referenced : ∀ k, k ∈ t.activeLimboTargetsByKey ∨ k ∈ t.enqueuedLimboResolutions →
    k ∈ leaving ∨ ∃ path, (k, path) ∈ t.limboDocumentRefs
  tracked : ∀ k path, (k, path) ∈ t.limboDocumentRefs →
    k ∈ t.activeLimboTargetsByKey ∨ k ∈ t.enqueuedLimboResolutions ∨ k ∈ t.refused

def Full (t : LimboTargets) : Prop :=
  t.enqueuedLimboResolutions ≠ [] →
    t.activeLimboTargetsByKey.keys.length = t.maxConcurrentLimboResolutions

structure Frame (t u : LimboTargets) : Prop where
  capacity : u.maxConcurrentLimboResolutions = t.maxConcurrentLimboResolutions
  queries : ∀ path, .query path ∈ u.listenTargets ↔ .query path ∈ t.listenTargets

lemma Frame.refl (t : LimboTargets) : Frame t t := ⟨rfl, fun _ => Iff.rfl⟩

lemma Frame.trans {t u v : LimboTargets} (h : Frame t u) (h' : Frame u v) : Frame t v :=
  ⟨h'.capacity.trans h.capacity, fun path => (h'.queries path).trans (h.queries path)⟩

lemma start_sound (n : ℕ) : (start n).Sound [] where
  inverse k id := by simp [start]
  fresh id hid := by simp [start] at hid
  listened id := by simp [start]
  nodup := List.nodup_nil
  waiting k hk := by cases hk
  bounded := Nat.zero_le n
  referenced k hk := by simp [start] at hk
  tracked k path hk := by simp [start] at hk

lemma resolve_frame (key : ResourcePath) (t : LimboTargets) : Frame t (t.resolve key) :=
  ⟨rfl, fun path => by simp [resolve, listen]⟩

lemma resolve_sound {key : ResourcePath} {enqueued leaving : List ResourcePath} {t : LimboTargets}
    (h : Sound leaving { t with enqueuedLimboResolutions := key :: enqueued })
    (hroom : t.activeLimboTargetsByKey.keys.length < t.maxConcurrentLimboResolutions) :
    Sound leaving { t.resolve key with enqueuedLimboResolutions := enqueued } := by
  have hkey : key ∉ t.activeLimboTargetsByKey := h.waiting key List.mem_cons_self
  have hid : t.nextId ∉ t.activeLimboResolutionsByTarget := fun hm => (h.fresh t.nextId hm).false
  obtain ⟨hnot, hnodup⟩ := List.nodup_cons.mp h.nodup
  refine ⟨fun k id => ?_, fun id hm => ?_, fun id => ?_, hnodup, fun k hk => ?_, ?_,
    fun k hk => ?_, fun k path hk => ?_⟩
  · have hinverse := h.inverse k id
    by_cases hk : k = key <;> by_cases hi : id = t.nextId
    · subst hk hi
      simp [resolve, listen]
    · subst hk
      refine iff_of_false (fun he => hi ?_) fun ⟨received, hr⟩ => hkey ?_
      · exact (Option.some.inj ((AList.lookup_insert _).symm.trans he)).symm
      · have hold := (AList.lookup_insert_ne hi).symm.trans hr
        exact AList.lookup_isSome.mp (by rw [(h.inverse k id).mpr ⟨received, hold⟩]; rfl)
    · subst hi
      refine iff_of_false (fun he => hid ?_) fun ⟨received, hr⟩ => hk ?_
      · obtain ⟨received, hr⟩ := hinverse.mp ((AList.lookup_insert_ne hk).symm.trans he)
        exact AList.lookup_isSome.mp (by rw [hr]; rfl)
      · have hold := Option.some.inj ((AList.lookup_insert _).symm.trans hr)
        exact (LimboResolution.mk.inj hold).1.symm
    · simpa [resolve, listen, AList.lookup_insert_ne hk, AList.lookup_insert_ne hi] using hinverse
  · simp only [resolve, listen, AList.mem_insert] at hm ⊢
    rcases hm with rfl | hm
    · omega
    · have hlt := h.fresh id hm
      simp only at hlt
      omega
  · have hlistened := h.listened id
    simp only [resolve, listen, Finset.mem_insert, AList.mem_insert, TargetId.limbo.injEq]
    rw [← hlistened]
  · have hwaiting := h.waiting k (List.mem_cons_of_mem _ hk)
    simp only [resolve, listen, AList.mem_insert, not_or]
    exact ⟨fun he => hnot (he ▸ hk), hwaiting⟩
  · simp only [resolve, listen, length_keys_insert hkey]
    exact hroom
  · refine h.referenced k ?_
    simp only [resolve, listen, AList.mem_insert] at hk
    simp only [List.mem_cons]
    tauto
  · have htracked := h.tracked k path hk
    simp only [resolve, listen, AList.mem_insert, List.mem_cons] at htracked ⊢
    tauto

lemma pump_eq (enqueued : List ResourcePath) {leaving : List ResourcePath} {t : LimboTargets}
    (h : Sound leaving { t with enqueuedLimboResolutions := enqueued }) :
    Sound leaving (pump enqueued t) ∧ (pump enqueued t).Full ∧ Frame t (pump enqueued t) ∧
      (pump enqueued t).limboDocumentRefs = t.limboDocumentRefs := by
  induction enqueued generalizing t with
  | nil => exact ⟨h, fun hne => absurd rfl hne, ⟨rfl, fun _ => Iff.rfl⟩, rfl⟩
  | cons key enqueued ih =>
    unfold pump
    split
    · rename_i hroom
      obtain ⟨hsound, hfull, hframe, hrefs⟩ := ih (resolve_sound h hroom)
      exact ⟨hsound, hfull, (resolve_frame key t).trans hframe, hrefs⟩
    · rename_i hroom
      exact ⟨h, fun _ => le_antisymm h.bounded (not_lt.mp hroom), ⟨rfl, fun _ => Iff.rfl⟩, rfl⟩

lemma pumpEnqueued_eq {leaving : List ResourcePath} {t : LimboTargets} (h : t.Sound leaving) :
    t.pumpEnqueuedLimboResolutions.Sound leaving ∧ t.pumpEnqueuedLimboResolutions.Full ∧
      Frame t t.pumpEnqueuedLimboResolutions ∧
      t.pumpEnqueuedLimboResolutions.limboDocumentRefs = t.limboDocumentRefs :=
  pump_eq t.enqueuedLimboResolutions h

lemma track_eq {t : LimboTargets} (h : t.Sound []) (hfull : t.Full) (key path : ResourcePath) :
    ((t.addReference key path).trackLimboChange key).Sound [] ∧
      ((t.addReference key path).trackLimboChange key).Full ∧
      Frame t ((t.addReference key path).trackLimboChange key) ∧
      ((t.addReference key path).trackLimboChange key).limboDocumentRefs =
        insert (key, path) t.limboDocumentRefs := by
  have hreferenced : ∀ k, k ∈ t.activeLimboTargetsByKey ∨ k ∈ t.enqueuedLimboResolutions →
      ∃ p, (k, p) ∈ insert (key, path) t.limboDocumentRefs := by
    intro k hk
    rcases h.referenced k hk with hnil | ⟨p, hp⟩
    · cases hnil
    · exact ⟨p, Finset.mem_insert_of_mem hp⟩
  unfold trackLimboChange
  split
  · rename_i hnew
    have hsound : Sound [] { t.addReference key path with
        enqueuedLimboResolutions := t.enqueuedLimboResolutions ++ [key] } := by
      refine ⟨h.inverse, h.fresh, h.listened, ?_, ?_, h.bounded, fun k hk => Or.inr ?_, ?_⟩
      · exact List.nodup_append.mpr ⟨h.nodup, List.nodup_singleton key, fun a ha b hb hab =>
          hnew.2 (List.mem_singleton.mp hb ▸ hab ▸ ha)⟩
      · intro k hk
        rcases List.mem_append.mp hk with hk | hk
        · exact h.waiting k hk
        · exact List.mem_singleton.mp hk ▸ hnew.1
      · rw [List.mem_append, List.mem_singleton, ← or_assoc] at hk
        rcases hk with hk | rfl
        · exact hreferenced k hk
        · exact ⟨path, Finset.mem_insert_self _ _⟩
      · intro k p hp
        rcases Finset.mem_insert.mp hp with hp | hp
        · obtain ⟨rfl, rfl⟩ := Prod.mk.inj hp
          exact Or.inr (Or.inl (by simp))
        · rcases h.tracked k p hp with hk | hk | hk
          · exact Or.inl hk
          · exact Or.inr (Or.inl (List.mem_append_left _ hk))
          · exact Or.inr (Or.inr hk)
    obtain ⟨hpumped, hroom, hframe, hrefs⟩ := pumpEnqueued_eq hsound
    exact ⟨hpumped, hroom, ⟨hframe.capacity, hframe.queries⟩, hrefs⟩
  · rename_i hold
    refine ⟨⟨h.inverse, h.fresh, h.listened, h.nodup, h.waiting, h.bounded,
      fun k hk => Or.inr (hreferenced k hk), fun k p hp => ?_⟩, hfull,
      ⟨rfl, fun _ => Iff.rfl⟩, rfl⟩
    rcases Finset.mem_insert.mp hp with hp | hp
    · obtain ⟨rfl, rfl⟩ := Prod.mk.inj hp
      have hhas : k ∈ t.activeLimboTargetsByKey ∨ k ∈ t.enqueuedLimboResolutions := by
        by_contra hnot
        exact hold (not_or.mp hnot)
      exact hhas.imp_right Or.inl
    · exact h.tracked k p hp

lemma endResolution_sound {key : ResourcePath} {id : ℕ} {leaving : List ResourcePath}
    {t : LimboTargets} (h : t.Sound (key :: leaving)) {received : Bool}
    (hr : t.activeLimboResolutionsByTarget.lookup id = some ⟨key, received⟩)
    (hqueue : key ∉ t.enqueuedLimboResolutions)
    (hnone : ∀ path, (key, path) ∈ t.limboDocumentRefs → key ∈ t.refused) :
    Sound leaving { t.endResolution key id with
      listenTargets := t.listenTargets.erase (.limbo id) } := by
  have hkey : t.activeLimboTargetsByKey.lookup key = some id := (h.inverse key id).mpr ⟨_, hr⟩
  have hactive : key ∈ t.activeLimboTargetsByKey := AList.lookup_isSome.mp (by rw [hkey]; rfl)
  refine ⟨fun k j => ?_, fun j hj => h.fresh j (AList.mem_erase.mp hj).2, fun j => ?_, h.nodup,
    fun k hk hm => h.waiting k hk (AList.mem_erase.mp hm).2, ?_, fun k hk => ?_,
    fun k path hp => ?_⟩
  · by_cases hk : k = key
    · subst hk
      refine iff_of_false (by simp [endResolution]) fun ⟨received', hr'⟩ => ?_
      by_cases hj : j = id
      · subst hj
        simp [endResolution] at hr'
      · have hold := (AList.lookup_erase_ne hj).symm.trans hr'
        have hother := (h.inverse k j).mpr ⟨received', hold⟩
        exact hj (Option.some.inj (hother.symm.trans hkey))
    · have hleft := AList.lookup_erase_ne (s := t.activeLimboTargetsByKey) hk
      simp only [endResolution, hleft]
      by_cases hj : j = id
      · subst hj
        rw [AList.lookup_erase]
        refine iff_of_false (fun he => hk ?_) (by simp)
        obtain ⟨received', hr'⟩ := (h.inverse k j).mp he
        exact (LimboResolution.mk.inj (Option.some.inj (hr'.symm.trans hr))).1
      · rw [AList.lookup_erase_ne hj]
        exact h.inverse k j
  · have hlistened := h.listened j
    simp only [endResolution, Finset.mem_erase, AList.mem_erase, ne_eq, TargetId.limbo.injEq]
    rw [hlistened]
  · have hsize := length_keys_erase hactive
    have hbounded := h.bounded
    simp only [endResolution]
    omega
  · have hk' : k ≠ key ∧ (k ∈ t.activeLimboTargetsByKey ∨ k ∈ t.enqueuedLimboResolutions) := by
      rcases hk with hk | hk
      · obtain ⟨hne, hm⟩ := AList.mem_erase.mp hk
        exact ⟨hne, Or.inl hm⟩
      · exact ⟨fun he => hqueue (he ▸ hk), Or.inr hk⟩
    exact (h.referenced k hk'.2).imp_left fun hm => (List.mem_cons.mp hm).resolve_left hk'.1
  · by_cases hk : k = key
    · subst hk
      exact Or.inr (Or.inr (hnone path hp))
    · exact (h.tracked k path hp).imp_left fun hm => AList.mem_erase.mpr ⟨hk, hm⟩

lemma dequeue_sound {key : ResourcePath} {leaving : List ResourcePath} {t : LimboTargets}
    (h : t.Sound (key :: leaving)) (hnone : ∀ path, (key, path) ∉ t.limboDocumentRefs) :
    (t.dequeue key).Sound (key :: leaving) := by
  refine ⟨h.inverse, h.fresh, h.listened, h.nodup.filter _,
    fun k hk => h.waiting k (List.mem_of_mem_filter hk), h.bounded,
    fun k hk => h.referenced k (hk.imp_right List.mem_of_mem_filter), fun k path hp => ?_⟩
  refine (h.tracked k path hp).imp_right (Or.imp_left fun hk => ?_)
  exact List.mem_filter.mpr ⟨hk, by simpa using fun he : k = key => hnone path (he ▸ hp)⟩

lemma removeLimboTarget_eq {key : ResourcePath} {leaving : List ResourcePath} {t : LimboTargets}
    (h : t.Sound (key :: leaving)) (hfull : t.Full)
    (hnone : ∀ path, (key, path) ∉ t.limboDocumentRefs) :
    ∃ u, t.removeLimboTarget key = .ok u ∧ u.Sound leaving ∧ u.Full ∧ Frame t u ∧
      u.limboDocumentRefs = t.limboDocumentRefs := by
  have hdequeued := dequeue_sound h hnone
  have hqueue : key ∉ (t.dequeue key).enqueuedLimboResolutions := by simp [dequeue]
  cases hl : (t.dequeue key).activeLimboTargetsByKey.lookup key with
  | none =>
    have habsent : key ∉ t.activeLimboTargetsByKey := AList.lookup_eq_none.mp hl
    refine ⟨t.dequeue key, by simp only [removeLimboTarget, hl], { hdequeued with
      referenced := fun k hk => ?_ }, fun hne => hfull fun hnil => hne ?_,
      ⟨rfl, fun _ => Iff.rfl⟩, rfl⟩
    · have hk' : k ≠ key := by
        rintro rfl
        exact hk.elim habsent hqueue
      exact (hdequeued.referenced k hk).imp_left fun hm => (List.mem_cons.mp hm).resolve_left hk'
    · simp [dequeue, hnil]
  | some limboTargetId =>
    obtain ⟨received, hr⟩ := (hdequeued.inverse key limboTargetId).mp hl
    have hlistened : .limbo limboTargetId ∈ (t.dequeue key).listenTargets :=
      (hdequeued.listened limboTargetId).mpr (AList.lookup_isSome.mp (by rw [hr]; rfl))
    obtain ⟨hsound, hroom, hframe, hrefs⟩ := pumpEnqueued_eq
      (endResolution_sound hdequeued hr hqueue fun path hp => absurd hp (hnone path))
    have hqueries : ∀ path, .query path ∈ (t.dequeue key).listenTargets.erase
        (.limbo limboTargetId) ↔ .query path ∈ t.listenTargets := fun path => by simp [dequeue]
    refine ⟨_, ?_, hsound, hroom, ⟨hframe.capacity, fun path =>
      (hframe.queries path).trans (hqueries path)⟩, hrefs⟩
    simp only [removeLimboTarget, hl, stopListening, hardAssert, if_pos hlistened, bind,
      Except.bind]
    rfl

lemma containsKey_eq_false {key : ResourcePath} {t : LimboTargets}
    (h : t.containsKey key = false) (path : ResourcePath) : (key, path) ∉ t.limboDocumentRefs := by
  intro hm
  simp only [containsKey, decide_eq_false_iff_not, Finset.mem_image, not_exists, not_and] at h
  exact h (key, path) hm rfl

lemma dropUnreferenced_eq {key : ResourcePath} {leaving : List ResourcePath} {t : LimboTargets}
    (h : t.Sound (key :: leaving)) (hfull : t.Full) :
    ∃ u, t.dropUnreferenced key = .ok u ∧ u.Sound leaving ∧ u.Full ∧ Frame t u ∧
      u.limboDocumentRefs = t.limboDocumentRefs := by
  cases hc : t.containsKey key with
  | false =>
    obtain ⟨u, hu, hrest⟩ := removeLimboTarget_eq h hfull (containsKey_eq_false hc)
    exact ⟨u, by simp only [dropUnreferenced, hc, Bool.false_eq_true, if_false, hu], hrest⟩
  | true =>
    refine ⟨t, by simp only [dropUnreferenced, hc, if_true], { h with
      referenced := fun k hk => ?_ }, hfull, Frame.refl t, rfl⟩
    rcases h.referenced k hk with hm | hp
    · rcases List.mem_cons.mp hm with rfl | hm
      · simp only [containsKey, decide_eq_true_eq, Finset.mem_image] at hc
        obtain ⟨⟨k', path⟩, hp, rfl⟩ := hc
        exact Or.inr ⟨path, hp⟩
      · exact Or.inl hm
    · exact Or.inr hp

structure Follows (changes : List LimboDocumentChange) (path : ResourcePath) (t u : LimboTargets) :
    Prop where
  others : ∀ k p, p ≠ path → ((k, p) ∈ u.limboDocumentRefs ↔ (k, p) ∈ t.limboDocumentRefs)
  added : ∀ k, .added k ∈ changes → (k, path) ∈ u.limboDocumentRefs
  removed : ∀ k, .removed k ∈ changes → (k, path) ∉ u.limboDocumentRefs
  kept : ∀ k, .added k ∉ changes → .removed k ∉ changes →
    ((k, path) ∈ u.limboDocumentRefs ↔ (k, path) ∈ t.limboDocumentRefs)

lemma removeReference_sound {t : LimboTargets} (h : t.Sound []) (key path : ResourcePath) :
    (t.removeReference key path).Sound [key] := by
  refine ⟨h.inverse, h.fresh, h.listened, h.nodup, h.waiting, h.bounded, fun k hk => ?_,
    fun k p hp => h.tracked k p (Finset.mem_of_mem_erase hp)⟩
  rcases h.referenced k hk with hnil | ⟨p, hp⟩
  · cases hnil
  · by_cases hkey : k = key
    · exact Or.inl (by simp [hkey])
    · exact Or.inr ⟨p, Finset.mem_erase.mpr ⟨fun he => hkey (Prod.mk.inj he).1, hp⟩⟩

lemma updateTracked_eq {t : LimboTargets} (h : t.Sound []) (hfull : t.Full) (path : ResourcePath)
    (change : LimboDocumentChange) : ∃ u, updateTrackedLimboDocument path t change = .ok u ∧
      u.Sound [] ∧ u.Full ∧ Frame t u ∧ u.limboDocumentRefs =
        match change with
        | .added key => insert (key, path) t.limboDocumentRefs
        | .removed key => t.limboDocumentRefs.erase (key, path) := by
  cases change with
  | added key =>
    obtain ⟨hsound, hroom, hframe, hrefs⟩ := track_eq h hfull key path
    exact ⟨_, rfl, hsound, hroom, hframe, hrefs⟩
  | removed key =>
    obtain ⟨u, hu, hsound, hroom, hframe, hrefs⟩ :=
      dropUnreferenced_eq (removeReference_sound h key path) hfull
    exact ⟨u, hu, hsound, hroom, ⟨hframe.capacity, hframe.queries⟩, hrefs⟩

lemma updateAllTracked_eq {t : LimboTargets} (h : t.Sound []) (hfull : t.Full)
    (path : ResourcePath) {changes : List LimboDocumentChange}
    (hdisjoint : ∀ k, .added k ∈ changes → .removed k ∉ changes) :
    ∃ u, updateTrackedLimboDocuments changes path t = .ok u ∧ u.Sound [] ∧ u.Full ∧ Frame t u ∧
      Follows changes path t u := by
  obtain ⟨u, hu, hsound, hroom, hframe, hfollows⟩ := foldlM_loop
    (f := updateTrackedLimboDocument path) (l := changes) (b := t)
    (I := fun done u => u.Sound [] ∧ u.Full ∧ Frame t u ∧ Follows done path t u)
    ⟨h, hfull, Frame.refl t, fun _ _ _ => Iff.rfl, nofun, nofun, fun _ _ _ => Iff.rfl⟩ (by
      rintro done change rest u hl ⟨hsound, hroom, hframe, hfollows⟩
      obtain ⟨w, hw, hsound', hroom', hframe', hrefs⟩ := updateTracked_eq hsound hroom path change
      have hmem : ∀ c, c ∈ done ++ [change] → c ∈ changes := fun c hc => by
        rw [hl, List.append_cons]
        exact List.mem_append_left _ hc
      refine ⟨w, hw, hsound', hroom', hframe.trans hframe', ⟨fun k p hp => ?_, fun k hk => ?_,
        fun k hk => ?_, fun k ha hr => ?_⟩⟩
      · rw [← hfollows.others k p hp, hrefs]
        cases change <;> simp [hp]
      · have hnot := hdisjoint k (hmem _ hk)
        rw [hrefs]
        rcases List.mem_append.mp hk with hdone | hlast
        · have hold := hfollows.added k hdone
          cases change with
          | added key => exact Finset.mem_insert_of_mem hold
          | removed key =>
            refine Finset.mem_erase.mpr ⟨fun he => hnot ?_, hold⟩
            rw [(Prod.mk.inj he).1]
            exact hmem _ (by simp)
        · obtain rfl := List.mem_singleton.mp hlast
          exact Finset.mem_insert_self _ _
      · rw [hrefs]
        rcases List.mem_append.mp hk with hdone | hlast
        · have hold := hfollows.removed k hdone
          cases change with
          | removed key => exact fun hm => hold (Finset.mem_of_mem_erase hm)
          | added key =>
            intro hm
            rcases Finset.mem_insert.mp hm with he | hm
            · exact hdisjoint key (hmem _ (by simp)) (hmem _ ((Prod.mk.inj he).1 ▸ hk))
            · exact hold hm
        · obtain rfl := List.mem_singleton.mp hlast
          exact Finset.notMem_erase _ _
      · simp only [List.mem_append, List.mem_singleton, not_or] at ha hr
        rw [← hfollows.kept k ha.1 hr.1, hrefs]
        cases change with
        | added key =>
          have hne : k ≠ key := fun he => ha.2 (he ▸ rfl)
          simp [hne]
        | removed key =>
          have hne : k ≠ key := fun he => hr.2 (he ▸ rfl)
          simp [hne])
  exact ⟨u, hu, hsound, hroom, hframe, hfollows⟩

lemma mem_referencedKeys {path k : ResourcePath} {t : LimboTargets} :
    k ∈ t.referencedKeys path ↔ (k, path) ∈ t.limboDocumentRefs := by
  simp only [referencedKeys, Finset.mem_sort, Finset.mem_image, Finset.mem_filter]
  constructor
  · rintro ⟨⟨k', path'⟩, ⟨hm, rfl⟩, rfl⟩
    exact hm
  · exact fun hm => ⟨(k, path), ⟨hm, rfl⟩, rfl⟩

lemma removeTarget_eq {t : LimboTargets} (h : t.Sound []) (hfull : t.Full) (path : ResourcePath) :
    ∃ u, t.removeTarget path = .ok u ∧ u.Sound [] ∧ u.Full ∧ Frame t u ∧
      ∀ k p, (k, p) ∈ u.limboDocumentRefs ↔ p ≠ path ∧ (k, p) ∈ t.limboDocumentRefs := by
  have hstart : (t.removeReferences path).Sound (t.referencedKeys path) := by
    refine ⟨h.inverse, h.fresh, h.listened, h.nodup, h.waiting, h.bounded, fun k hk => ?_,
      fun k p hp => h.tracked k p (Finset.mem_of_mem_filter _ hp)⟩
    rcases h.referenced k hk with hnil | ⟨p, hp⟩
    · cases hnil
    · by_cases hpath : p = path
      · exact Or.inl (mem_referencedKeys.mpr (hpath ▸ hp))
      · exact Or.inr ⟨p, Finset.mem_filter.mpr ⟨hp, hpath⟩⟩
  obtain ⟨u, hu, rest, hrest, hsound, hroom, hframe, hrefs⟩ := foldlM_loop
    (f := dropUnreferenced) (l := t.referencedKeys path) (b := t.removeReferences path)
    (I := fun done u => ∃ rest, t.referencedKeys path = done ++ rest ∧ u.Sound rest ∧ u.Full ∧
      Frame t u ∧ u.limboDocumentRefs = (t.removeReferences path).limboDocumentRefs)
    ⟨_, rfl, hstart, hfull, ⟨rfl, fun _ => Iff.rfl⟩, rfl⟩ (by
      rintro done key rest u hl ⟨rest', hl', hsound, hroom, hframe, hrefs⟩
      obtain rfl := List.append_cancel_left (hl'.symm.trans hl)
      obtain ⟨w, hw, hsound', hroom', hframe', hrefs'⟩ := dropUnreferenced_eq hsound hroom
      exact ⟨w, hw, rest, by rw [hl, List.append_assoc, List.singleton_append], hsound', hroom',
        hframe.trans hframe', hrefs'.trans hrefs⟩)
  obtain rfl : rest = [] := by simpa using hrest
  refine ⟨u, hu, hsound, hroom, hframe, fun k p => ?_⟩
  rw [hrefs, removeReferences, Finset.mem_filter, and_comm]

lemma Sound.weaken {t : LimboTargets} (h : t.Sound []) (key : ResourcePath) : t.Sound [key] :=
  { h with referenced := fun k hk => (h.referenced k hk).imp_left nofun }

lemma resolutionFailed_eq {t : LimboTargets} (h : t.Sound []) {id : ℕ}
    {resolution : LimboResolution}
    (hr : t.activeLimboResolutionsByTarget.lookup id = some resolution) :
    ((t.forget (.limbo id)).resolutionFailed id resolution).Sound [] ∧
      ((t.forget (.limbo id)).resolutionFailed id resolution).Full ∧
      Frame t ((t.forget (.limbo id)).resolutionFailed id resolution) ∧
      ((t.forget (.limbo id)).resolutionFailed id resolution).limboDocumentRefs =
        t.limboDocumentRefs := by
  have hnoted : Sound [resolution.key] { t with refused := insert resolution.key t.refused } :=
    { h.weaken resolution.key with
      tracked := fun k p hp =>
        (h.tracked k p hp).imp_right (Or.imp_right (Finset.mem_insert_of_mem ·)) }
  have hactive : resolution.key ∈ t.activeLimboTargetsByKey := by
    rw [← AList.lookup_isSome, (h.inverse resolution.key id).mpr ⟨_, hr⟩]
    rfl
  have hended := endResolution_sound hnoted hr (fun hq => h.waiting _ hq hactive)
    fun _ _ => Finset.mem_insert_self _ _
  obtain ⟨hsound, hroom, hframe, hrefs⟩ := pumpEnqueued_eq hended
  refine ⟨hsound, hroom, ⟨hframe.capacity, fun path => (hframe.queries path).trans ?_⟩, hrefs⟩
  simp

lemma noteReceived_sound {t : LimboTargets} (h : t.Sound []) {id : ℕ}
    {resolution : LimboResolution}
    (hr : t.activeLimboResolutionsByTarget.lookup id = some resolution) (received : Bool) :
    (t.noteReceived id resolution.key received).Sound [] := by
  have hmem : ∀ j, j ∈ (t.noteReceived id resolution.key received).activeLimboResolutionsByTarget ↔
      j ∈ t.activeLimboResolutionsByTarget := fun j => by
    have hid : id ∈ t.activeLimboResolutionsByTarget := AList.lookup_isSome.mp (by rw [hr]; rfl)
    simp only [noteReceived, AList.mem_insert]
    exact ⟨fun hj => hj.elim (fun he => he ▸ hid) fun hj => hj, Or.inr⟩
  refine { h with inverse := fun k j => ?_, fresh := fun j hj => h.fresh j ((hmem j).mp hj)
                  listened := fun j => (h.listened j).trans (hmem j).symm }
  refine (h.inverse k j).trans ?_
  by_cases hj : j = id
  · subst hj
    rw [hr, noteReceived, AList.lookup_insert]
    cases resolution
    simp
  · rw [noteReceived, AList.lookup_insert_ne hj]

structure Noted (t u : LimboTargets) : Prop where
  sound : u.Sound []
  full : u.Full
  frame : Frame t u
  refs : u.limboDocumentRefs = t.limboDocumentRefs

lemma noteTargetChange_eq {t : LimboTargets} (h : t.Sound []) (hfull : t.Full) {target : TargetId}
    {change : TargetChange} (hp : ∀ id, target = .limbo id → t.Promised id change) :
    ∃ u, t.noteTargetChange ⟨target, change⟩ = .ok u ∧ Noted t u ∧
      ∀ j, .limbo j ≠ target → u.activeLimboResolutionsByTarget.lookup j =
        t.activeLimboResolutionsByTarget.lookup j := by
  have hsame : Noted t t ∧ ∀ j, .limbo j ≠ target → t.activeLimboResolutionsByTarget.lookup j =
      t.activeLimboResolutionsByTarget.lookup j := ⟨⟨h, hfull, Frame.refl t, rfl⟩, fun _ _ => rfl⟩
  cases target with
  | query path => exact ⟨t, rfl, hsame⟩
  | limbo id =>
    cases hr : t.activeLimboResolutionsByTarget.lookup id with
    | none => exact ⟨t, by simp only [noteTargetChange, hr], hsame⟩
    | some resolution =>
      obtain ⟨hone, hreceived⟩ := hp id rfl resolution hr
      have hnoted : ∀ received, Noted t (t.noteReceived id resolution.key received) ∧
          ∀ j, TargetId.limbo j ≠ .limbo id →
            (t.noteReceived id resolution.key received).activeLimboResolutionsByTarget.lookup j =
              t.activeLimboResolutionsByTarget.lookup j := fun received =>
        ⟨⟨noteReceived_sound h hr received, hfull, ⟨rfl, fun _ => Iff.rfl⟩, rfl⟩, fun j hj =>
          AList.lookup_insert_ne fun he => hj (congrArg _ he)⟩
      simp only [noteTargetChange, hr, hardAssert, if_pos hone, bind, Except.bind]
      by_cases hadded : change.addedDocuments = []
      · by_cases hmodified : change.modifiedDocuments = []
        · by_cases hremoved : change.removedDocuments = []
          · exact ⟨t, by simp [hadded, hmodified, hremoved], hsame⟩
          · have hwas := hreceived (by simp [hremoved])
            exact ⟨_, by simp [hadded, hmodified, hremoved, hwas], hnoted false⟩
        · have hwas := hreceived (by simp [hmodified])
          exact ⟨t, by simp [hadded, hmodified, hwas], hsame⟩
      · exact ⟨_, by simp [hadded], hnoted true⟩

lemma noteTargetChanges_eq {t : LimboTargets} (h : t.Sound []) (hfull : t.Full)
    {changes : TargetChangeMap}
    (hp : ∀ id change, changes.lookup (.limbo id) = some change → t.Promised id change) :
    ∃ u, t.noteTargetChanges changes = .ok u ∧ Noted t u := by
  obtain ⟨u, hu, hnoted, _⟩ := foldlM_loop (f := noteTargetChange) (l := changes.entries) (b := t)
    (I := fun done u => Noted t u ∧ ∀ j, .limbo j ∉ done.keys →
      u.activeLimboResolutionsByTarget.lookup j = t.activeLimboResolutionsByTarget.lookup j)
    ⟨⟨h, hfull, Frame.refl t, rfl⟩, fun _ _ => rfl⟩ (by
      rintro done ⟨target, change⟩ rest u hl ⟨hnoted, hothers⟩
      -- the target has not come up before, so that what was promised still holds
      obtain ⟨hlookup, hfresh⟩ := split_entries hl
      have hpromised : ∀ id, target = .limbo id → u.Promised id change := by
        rintro id rfl resolution hr
        rw [hothers id hfresh] at hr
        exact hp id change hlookup resolution hr
      obtain ⟨w, hw, hnext, hrest⟩ := noteTargetChange_eq hnoted.sound hnoted.full hpromised
      refine ⟨w, hw, ⟨hnext.sound, hnext.full, hnoted.frame.trans hnext.frame,
        hnext.refs.trans hnoted.refs⟩, fun j hj => ?_⟩
      simp only [List.keys, List.map_append, List.map_cons, List.map_nil, List.mem_append,
        List.mem_singleton, not_or] at hj
      rw [hrest j hj.2, hothers j hj.1])
  exact ⟨u, hu, hnoted⟩

end LimboTargets

end MobileApps.Firestore

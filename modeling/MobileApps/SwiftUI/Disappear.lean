import MobileApps.SwiftUI.Loads

/-! The deletion query of a row is started by its `onDisappear`, so also when the row is only
scrolled away, covered or replaced. -/

namespace MobileApps.SwiftUI

open Firestore Library.Unicode Library.DocumentStore Library.Rows Library.Runs

def Fetch.keys : Fetch → List AutoId
  | .requested => []
  | .taken documents => documents.map Document.key

def MainView.removedBy (s : MainView) (q : Query) : List TaskDocument :=
  s.db.docs.filter fun e => e.key ∈ q.fetch.keys

/-- `submitted` are the values stored at first and those of every Save since, `answered` the
documents that the answered deletion queries had found. -/
structure Deletions where
  swiped : List Tasks := []
  removed : List (TaskDocument × Tasks) := []
  submitted : List TaskFields := []
  answered : List AutoId := []

def Deletions.track (h : Deletions) (s : MainView) : ViewEvent → Deletions
  | .swipe row => { h with swiped := s.Alltasks[row]?.toList ++ h.swiped }
  | .save _ _ fields => { h with submitted := fields :: h.submitted }
  | .queried i =>
      match s.queries[i]? with
      | some q => { h with
          removed := h.removed ++ (s.removedBy q).map fun e => (e, q.row)
          answered := q.fetch.keys ++ h.answered }
      | none => h
  | _ => h

def Deletions.Swiped (h : Deletions) (row : Tasks) : Prop :=
  ∃ t ∈ h.swiped, t.id = row.id ∧ t.fields = row.fields

namespace MainView

def stepDeletions : MainView × Deletions → ViewEvent → Option (MainView × Deletions) :=
  observe step Deletions.track

def started (db : UserCollection) : MainView × Deletions :=
  (created db, { submitted := db.docs.map Document.data })

/-- Documents are only deleted for rows of their name and time that were swiped away, and while
none was, no document is deleted and every listed task has its document. -/
def DeletesSwiped (s : MainView × Deletions) : Prop :=
  (∀ r ∈ s.2.removed, s.2.Swiped r.2 ∧ r.1.data = r.2.fields) ∧
    (s.2.swiped = [] →
      s.2.removed = [] ∧ ∀ t ∈ s.1.Alltasks, ∃ e ∈ s.1.db.docs, e.data = t.fields)

/-- When the query of a row that was not swiped away is answered, every document of the row's name
and time that was stored at its snapshot had been found by a query answered before. While no row was
swiped away, a completed save and a failed query read values that were submitted. -/
def SwipedOrGone (s : MainView × Deletions) : ViewEvent → Prop
  | .queried i => ∀ q ∈ s.1.queries[i]?, s.2.Swiped q.row ∨ q.fetch.keys ⊆ s.2.answered
  | .saved _ fields => s.2.swiped = [] → fields ∈ s.2.submitted
  | .queryFailed i taskName => s.2.swiped = [] → ∀ q ∈ s.1.queries[i]?, ∀ name ∈ taskName,
      ⟨name, q.row.fields.taskTime⟩ ∈ s.2.submitted
  | _ => True

structure Traced (s : MainView) : Prop where
  fresh : s.Fresh
  issued : ∀ q ∈ s.queries, ∀ k ∈ q.fetch.keys, k ∈ s.used
  fields : ∀ q ∈ s.queries, ∀ e ∈ s.removedBy q, e.data = q.row.fields

lemma mem_removedBy {s : MainView} {q : Query} {e : TaskDocument} :
    e ∈ s.removedBy q ↔ e ∈ s.db.docs ∧ e.key ∈ q.fetch.keys := by
  simp [removedBy]

lemma deleteAll_eq {s : MainView} {row : Tasks} {documents : List TaskDocument}
    (h : s.removedBy ⟨row, .taken documents⟩ = []) :
    s.db.deleteAll (documents.map Document.key) = s.db := by
  refine Collection.deleteAll_absent fun k hk hin => ?_
  obtain ⟨d, hd, rfl⟩ := Collection.mem_keys.mp hin
  have hm : d ∈ s.removedBy ⟨row, .taken documents⟩ := mem_removedBy.mpr ⟨hd, hk⟩
  rw [h] at hm
  exact List.not_mem_nil hm

lemma step_queries {s t : MainView} {e : ViewEvent} (hs : s.step e = some t) :
    ∀ q ∈ t.queries, q ∈ s.queries ∨
      ∀ k ∈ q.fetch.keys, ∃ d ∈ s.db.docs, d.key = k ∧ d.data = q.row.fields := by
  intro q hq
  cases step_iff.mp hs with
  | rowDisappear =>
    rcases List.mem_append.mp hq with hq | hq
    · exact Or.inl hq
    · obtain rfl := List.mem_singleton.mp hq
      exact Or.inr fun k hk => absurd hk List.not_mem_nil
  | querySnapshot _ hp =>
    rcases List.mem_or_eq_of_mem_set hq with hq | rfl
    · exact Or.inl hq
    · refine Or.inr fun k hk => ?_
      obtain ⟨d, hd, rfl⟩ := List.mem_map.mp hk
      obtain ⟨hd, hf⟩ := List.mem_filter.mp (hp.mem_iff.mp hd)
      exact ⟨d, hd, rfl, of_decide_eq_true hf⟩
  | queried | queryFailed => exact Or.inl (eraseIdx_subset _ _ hq)
  | _ => exact Or.inl hq

lemma step_docs {s t : MainView} {e : ViewEvent} (hs : s.step e = some t) :
    (∀ d ∈ t.db.docs, d ∈ s.db.docs ∨ d.key ∉ s.used) ∧ s.used ⊆ t.used := by
  rcases step_db hs with ⟨hdb, hu⟩ | ⟨v, id, fields, _, hid, hdb, hu⟩ | ⟨_, _, _, _, _, hdb, hu⟩
  · exact ⟨fun d hd => Or.inl (hdb ▸ hd), fun k hk => hu ▸ hk⟩
  · rw [hdb, hu]
    refine ⟨fun d hd => ?_, fun k hk => List.mem_cons_of_mem id hk⟩
    rcases Collection.mem_set.mp hd with ⟨hd, _⟩ | rfl
    · exact Or.inl hd
    · exact Or.inr hid
  · rw [hdb, hu]
    exact ⟨fun d hd => Or.inl (Collection.mem_deleteAll.mp hd).1, fun k hk => hk⟩

lemma traced_step {s t : MainView} {e : ViewEvent} (h : s.Traced) (hs : s.step e = some t) :
    t.Traced := by
  obtain ⟨hdocs, hused⟩ := step_docs hs
  refine ⟨fresh_step h.fresh hs, fun q hq k hk => ?_, fun q hq d hd => ?_⟩
  · rcases step_queries hs q hq with hq | hnew
    · exact hused (h.issued q hq k hk)
    · obtain ⟨d, hd, rfl, _⟩ := hnew k hk
      exact hused (h.fresh _ (Collection.mem_keys.mpr ⟨d, hd, rfl⟩))
  · obtain ⟨hd, hk⟩ := mem_removedBy.mp hd
    rcases step_queries hs q hq with hq | hnew
    · rcases hdocs d hd with hd | hn
      · exact h.fields q hq d (mem_removedBy.mpr ⟨hd, hk⟩)
      · exact absurd (h.issued q hq _ hk) hn
    · obtain ⟨d', hd', hk', hf⟩ := hnew _ hk
      rcases hdocs d hd with hd | hn
      · rw [Collection.eq_of_key hd hd' hk'.symm, hf]
      · exact absurd (hk' ▸ h.fresh _ (Collection.mem_keys.mpr ⟨d', hd', rfl⟩)) hn

structure Backed (s : MainView) : Prop where
  tasks : ∀ t ∈ s.Alltasks, ∃ e ∈ s.db.docs, e.data = t.fields
  visible : ∀ t ∈ s.visible, ∃ e ∈ s.db.docs, e.data = t.fields
  queries : ∀ q ∈ s.queries, ∃ e ∈ s.db.docs, e.data = q.row.fields
  loads : ∀ documents, Fetch.taken documents ∈ s.loads → ∀ e ∈ documents, e ∈ s.db.docs

lemma mem_append {s : MainView} {values : List TaskFields} {t : Tasks}
    (ht : t ∈ (s.append values).Alltasks) : t ∈ s.Alltasks ∨ t.fields ∈ values := by
  rcases List.mem_append.mp ht with ht | ht
  · exact Or.inl ht
  · obtain ⟨v, hv, rfl⟩ := List.mem_map.mp ht
    exact Or.inr (List.fst_mem_of_mem_zipIdx hv)

lemma Backed.append {s : MainView} (h : s.Backed) {values : List TaskFields}
    (hv : ∀ f ∈ values, ∃ e ∈ s.db.docs, e.data = f) : (s.append values).Backed where
  tasks := by
    intro t ht
    rcases mem_append ht with ht | ht
    · exact h.tasks t ht
    · exact hv t.fields ht
  visible := h.visible
  queries := h.queries
  loads := h.loads

lemma backed_step {s t : MainView} {e : ViewEvent} (hfresh : s.Fresh) (h : s.Backed)
    (hs : s.step e = some t) (hq : ∀ i, e = .queried i → ∀ q ∈ s.queries[i]?, s.removedBy q = [])
    (hf : ∀ i f, e = .saved i f → ∃ d ∈ s.db.docs, d.data = f)
    (hr : ∀ i name, e = .queryFailed i (some name) → ∀ q ∈ s.queries[i]?,
      ∃ d ∈ s.db.docs, d.data = ⟨name, q.row.fields.taskTime⟩) : t.Backed := by
  cases step_iff.mp hs with
  | onAppear => exact ⟨h.tasks, h.visible, h.queries, fun ds hd => h.loads ds (by simpa using hd)⟩
  | snapshot _ hp =>
    refine ⟨h.tasks, h.visible, h.queries, fun ds hd e he => ?_⟩
    rcases List.mem_or_eq_of_mem_set hd with hd | hd
    · exact h.loads ds hd e he
    · obtain rfl := Fetch.taken.inj hd
      exact hp.mem_iff.mp he
  | @loaded i documents hl =>
    have hb : Backed { s with loads := s.loads.eraseIdx i } :=
      ⟨h.tasks, h.visible, h.queries, fun ds hd => h.loads ds (eraseIdx_subset _ _ hd)⟩
    refine hb.append fun f hf => ?_
    obtain ⟨e, he, rfl⟩ := List.mem_map.mp hf
    exact ⟨e, h.loads _ (List.mem_of_getElem? hl) e he, rfl⟩
  | loadFailed =>
    exact ⟨h.tasks, h.visible, h.queries, fun ds hd => h.loads ds (eraseIdx_subset _ _ hd)⟩
  | addView | edit => exact ⟨h.tasks, h.visible, h.queries, h.loads⟩
  | @save v id fields _ _ hid =>
    have hkeep : ∀ d ∈ s.db.docs, d ∈ (s.db.set id fields).docs := fun d hd =>
      Collection.mem_set.mpr (Or.inl ⟨hd, fun hk =>
        hid (hk ▸ hfresh _ (Collection.mem_keys.mpr ⟨d, hd, rfl⟩))⟩)
    have hold : ∀ {f : TaskFields}, (∃ d ∈ s.db.docs, d.data = f) →
        ∃ d ∈ (s.db.set id fields).docs, d.data = f := fun ⟨d, hd, hf⟩ => ⟨d, hkeep d hd, hf⟩
    exact ⟨fun r hr => hold (h.tasks r hr), fun r hr => hold (h.visible r hr),
      fun q hq => hold (h.queries q hq), fun ds hd d he => hkeep d (h.loads ds hd d he)⟩
  | @saved i v fields =>
    have hb : Backed { s with saves := s.saves.eraseIdx i } :=
      ⟨h.tasks, h.visible, h.queries, h.loads⟩
    refine hb.append fun f hm => ?_
    obtain rfl := List.mem_singleton.mp hm
    exact hf _ f rfl
  | @toggle row r hget =>
    have hrow := h.tasks r (List.mem_of_getElem? hget)
    refine ⟨fun v hv => ?_, fun v hv => ?_, h.queries, h.loads⟩
    · rcases List.mem_or_eq_of_mem_set hv with hv | rfl
      · exact h.tasks v hv
      · exact hrow
    · obtain ⟨w, hw, rfl⟩ := List.mem_map.mp hv
      by_cases hid : w.id = r.id
      · rw [if_pos hid]
        exact hrow
      · rw [if_neg hid]
        exact h.visible w hw
  | move _ hd =>
    exact ⟨fun r hr => h.tasks r ((move_perm hd).mem_iff.mp hr), h.visible, h.queries, h.loads⟩
  | rowAppear hget =>
    refine ⟨h.tasks, fun v hv => ?_, h.queries, h.loads⟩
    rcases List.mem_append.mp hv with hv | hv
    · exact h.visible v hv
    · obtain rfl := List.mem_singleton.mp hv
      exact h.tasks _ (List.mem_of_getElem? hget)
  | rowDisappear hget =>
    refine ⟨h.tasks, fun v hv => h.visible v (eraseIdx_subset _ _ hv), fun q hq => ?_, h.loads⟩
    rcases List.mem_append.mp hq with hq | hq
    · exact h.queries q hq
    · obtain rfl := List.mem_singleton.mp hq
      exact h.visible _ (List.mem_of_getElem? hget)
  | swipe =>
    exact ⟨fun v hv => h.tasks v (eraseIdx_subset _ _ hv), h.visible, h.queries, h.loads⟩
  | @querySnapshot i row documents hget =>
    have hrow : ∃ d ∈ s.db.docs, d.data = row.fields := h.queries _ (List.mem_of_getElem? hget)
    refine ⟨h.tasks, h.visible, fun q hq => ?_, h.loads⟩
    rcases List.mem_or_eq_of_mem_set hq with hq | rfl
    · exact h.queries q hq
    · exact hrow
  | @queried i row documents hget =>
    rw [deleteAll_eq (hq i rfl _ hget)]
    exact ⟨h.tasks, h.visible, fun q hq => h.queries q (eraseIdx_subset _ i hq), h.loads⟩
  | @queryFailed i q name hget =>
    have hb : Backed { s with queries := s.queries.eraseIdx i } :=
      ⟨h.tasks, h.visible, fun q hq => h.queries q (eraseIdx_subset _ _ hq), h.loads⟩
    refine hb.append fun f hm => ?_
    obtain rfl := List.mem_singleton.mp hm
    exact hr _ _ rfl _ hget

structure Guarded (s : MainView × Deletions) : Prop where
  traced : s.1.Traced
  removed : ∀ r ∈ s.2.removed, s.2.Swiped r.2 ∧ r.1.data = r.2.fields
  untouched : s.2.swiped = [] → s.1.Backed
  answered : s.2.answered ⊆ s.1.used
  keys : ∀ k, k ∈ s.1.db.keys ↔ k ∈ s.1.used ∧ k ∉ s.2.answered
  submitted : s.2.swiped = [] → ∀ f, f ∈ s.2.submitted ↔ ∃ e ∈ s.1.db.docs, e.data = f

def SwipedOrNothing (s : MainView × Deletions) : ViewEvent → Prop
  | .queried i => ∀ q ∈ s.1.queries[i]?, s.2.Swiped q.row ∨ s.1.removedBy q = []
  | .saved _ fields => s.2.swiped = [] → ∃ e ∈ s.1.db.docs, e.data = fields
  | .queryFailed i taskName => s.2.swiped = [] → ∀ q ∈ s.1.queries[i]?, ∀ name ∈ taskName,
      ∃ e ∈ s.1.db.docs, e.data = ⟨name, q.row.fields.taskTime⟩
  | _ => True

lemma removedBy_nil {s : MainView × Deletions} (h : Guarded s) {q : Query} (hq : q ∈ s.1.queries) :
    s.1.removedBy q = [] ↔ q.fetch.keys ⊆ s.2.answered := by
  rw [List.eq_nil_iff_forall_not_mem]
  constructor
  · intro hnone k hk
    by_contra hn
    obtain ⟨e, he, rfl⟩ := Collection.mem_keys.mp ((h.keys k).mpr ⟨h.traced.issued q hq k hk, hn⟩)
    exact hnone e (mem_removedBy.mpr ⟨he, hk⟩)
  · intro hall e he
    obtain ⟨he, hk⟩ := mem_removedBy.mp he
    exact ((h.keys e.key).mp (Collection.mem_keys.mpr ⟨e, he, rfl⟩)).2 (hall hk)

lemma swipedOrGone_iff {s : MainView × Deletions} (h : Guarded s) (e : ViewEvent) :
    SwipedOrGone s e ↔ SwipedOrNothing s e := by
  cases e with
  | queried i =>
    refine forall_congr' fun q => forall_congr' fun hq => or_congr_right ?_
    exact (removedBy_nil h (List.mem_of_getElem? hq)).symm
  | saved i fields => exact forall_congr' fun hn => h.submitted hn fields
  | queryFailed i taskName =>
    refine forall_congr' fun hn => forall_congr' fun q => forall_congr' fun _ => ?_
    exact forall_congr' fun name => forall_congr' fun _ => h.submitted hn _
  | _ => exact Iff.rfl

lemma not_swiped {h : Deletions} (hn : h.swiped = []) (row : Tasks) : ¬ h.Swiped row := by
  rintro ⟨t, ht, _⟩
  exact absurd (hn ▸ ht) List.not_mem_nil

lemma deletesSwiped_of_guarded {s : MainView × Deletions} (h : Guarded s) : DeletesSwiped s := by
  refine ⟨h.removed, fun hn => ⟨?_, (h.untouched hn).tasks⟩⟩
  refine List.eq_nil_iff_forall_not_mem.mpr fun r hr => ?_
  exact not_swiped hn _ (h.removed r hr).1

lemma swiped_track (h : Deletions) (s : MainView) (e : ViewEvent) :
    h.swiped ⊆ (h.track s e).swiped := by
  intro k hk
  cases e with
  | swipe row => exact List.mem_append_right _ hk
  | queried i =>
    simp only [Deletions.track]
    split <;> exact hk
  | _ => exact hk

lemma still_swiped {h : Deletions} {row : Tasks} (hr : h.Swiped row) (s : MainView)
    (e : ViewEvent) : (h.track s e).Swiped row := by
  obtain ⟨t, ht, hrow⟩ := hr
  exact ⟨t, swiped_track h s e ht, hrow⟩

lemma mem_removed_track {h : Deletions} {s : MainView} {e : ViewEvent}
    {r : TaskDocument × Tasks} (hr : r ∈ (h.track s e).removed) :
    r ∈ h.removed ∨ ∃ i q, e = .queried i ∧ s.queries[i]? = some q ∧ r.1 ∈ s.removedBy q ∧
      r.2 = q.row := by
  cases e with
  | queried i =>
    simp only [Deletions.track] at hr
    split at hr
    · rename_i q hq
      rcases List.mem_append.mp hr with hr | hr
      · exact Or.inl hr
      · obtain ⟨d, hd, rfl⟩ := List.mem_map.mp hr
        exact Or.inr ⟨i, q, rfl, hq, hd, rfl⟩
    · exact Or.inl hr
  | _ => exact Or.inl hr

lemma track_keys {s t : MainView × Deletions} {e : ViewEvent} (h : Guarded s)
    (hs : stepDeletions s e = some t) :
    t.2.answered ⊆ t.1.used ∧ ∀ k, k ∈ t.1.db.keys ↔ k ∈ t.1.used ∧ k ∉ t.2.answered := by
  obtain ⟨t, k⟩ := t
  obtain ⟨hs, rfl⟩ := observe_some.mp hs
  cases step_iff.mp hs with
  | @save v id fields _ _ hid =>
    refine ⟨fun k hk => List.mem_cons_of_mem id (h.answered hk), fun k => ?_⟩
    have hset := mem_keys_apply (c := s.1.db) (k := k) (.set id fields)
    refine hset.trans ?_
    by_cases hk : id = k
    · subst hk
      have hnew : id ∉ s.2.answered := fun ha => hid (h.answered ha)
      simp [Write.key, Write.isSet, Deletions.track, hnew]
    · simp [Write.key, hk, Ne.symm hk, Deletions.track, ← h.keys k]
  | @queried i row documents hq =>
    have hissued := h.traced.issued _ (List.mem_of_getElem? hq)
    simp only [Deletions.track, hq]
    refine ⟨fun k hk => ?_, fun k => ?_⟩
    · rcases List.mem_append.mp hk with hk | hk
      · exact hissued k hk
      · exact h.answered hk
    · have hdel : k ∈ (s.1.db.deleteAll (documents.map Document.key)).keys ↔
          k ∈ s.1.db.keys ∧ k ∉ documents.map Document.key := by
        simp only [Collection.mem_keys, Collection.mem_deleteAll]
        constructor
        · rintro ⟨e, ⟨he, hk⟩, rfl⟩
          exact ⟨⟨e, he, rfl⟩, hk⟩
        · rintro ⟨⟨e, he, rfl⟩, hk⟩
          exact ⟨e, ⟨he, hk⟩, rfl⟩
      rw [hdel, h.keys k, List.mem_append, not_or, and_assoc]
      exact and_congr_right fun _ => and_comm
  | _ => exact ⟨h.answered, h.keys⟩

lemma track_submitted {s t : MainView × Deletions} {e : ViewEvent} (h : Guarded s)
    (hs : stepDeletions s e = some t) (hp : SwipedOrNothing s e) (hn : t.2.swiped = [])
    (f : TaskFields) : f ∈ t.2.submitted ↔ ∃ d ∈ t.1.db.docs, d.data = f := by
  obtain ⟨t, k⟩ := t
  obtain ⟨hs, rfl⟩ := observe_some.mp hs
  have hold : s.2.swiped = [] := List.subset_nil.mp (hn ▸ swiped_track s.2 s.1 e)
  have hsub := h.submitted hold f
  cases step_iff.mp hs with
  | @save v id fields _ _ hid =>
    have hkey : ∀ d ∈ s.1.db.docs, d.key ≠ id := fun d hd hk =>
      hid (hk ▸ h.traced.fresh _ (Collection.mem_keys.mpr ⟨d, hd, rfl⟩))
    simp only [Deletions.track, List.mem_cons, Collection.mem_set, hsub]
    constructor
    · rintro (rfl | ⟨d, hd, rfl⟩)
      · exact ⟨⟨id, f⟩, Or.inr rfl, rfl⟩
      · exact ⟨d, Or.inl ⟨hd, hkey d hd⟩, rfl⟩
    · rintro ⟨d, ⟨hd, _⟩ | rfl, rfl⟩
      · exact Or.inr ⟨d, hd, rfl⟩
      · exact Or.inl rfl
  | @queried i row documents hq =>
    have hnone := (hp _ hq).resolve_left (not_swiped hold _)
    simpa only [Deletions.track, hq, deleteAll_eq hnone] using hsub
  | _ => exact hsub

lemma guarded_step {s t : MainView × Deletions} {e : ViewEvent} (h : Guarded s)
    (hs : stepDeletions s e = some t) (hp : SwipedOrNothing s e) : Guarded t := by
  have hkeys := track_keys h hs
  have hsubmitted := track_submitted h hs hp
  obtain ⟨t, k⟩ := t
  obtain ⟨hs, rfl⟩ := observe_some.mp hs
  refine ⟨traced_step h.traced hs, fun r hr => ?_, fun hn => ?_, hkeys.1, hkeys.2, hsubmitted⟩
  · rcases mem_removed_track hr with hold | ⟨i, q, rfl, hq, hd, hrow⟩
    · obtain ⟨hm, hd⟩ := h.removed r hold
      exact ⟨still_swiped hm _ _, hd⟩
    · rw [hrow]
      have hsw : s.2.Swiped q.row :=
        (hp q hq).resolve_right fun hnone => absurd (hnone ▸ hd) List.not_mem_nil
      exact ⟨still_swiped hsw _ _, h.traced.fields q (List.mem_of_getElem? hq) _ hd⟩
  · have hn' : (s.2.track s.1 e).swiped = [] := hn
    have hold : s.2.swiped = [] := List.subset_nil.mp (hn' ▸ swiped_track s.2 s.1 e)
    refine backed_step h.traced.fresh (h.untouched hold) hs ?_ ?_ ?_
    · rintro i rfl q hq
      exact (hp q hq).resolve_left (not_swiped hold _)
    · rintro i f rfl
      exact hp hold
    · rintro i name rfl q hq
      exact hp hold q hq name rfl

lemma swipedOrNothing_of_deletes {s t : MainView × Deletions} {e : ViewEvent}
    (hs : stepDeletions s e = some t) (hq : DeletesSwiped t) : SwipedOrNothing s e := by
  obtain ⟨t, k⟩ := t
  obtain ⟨hs, rfl⟩ := observe_some.mp hs
  have last : ∀ {u : MainView} {f : TaskFields}, t = u.append [f] →
      (s.2.track s.1 e).swiped = [] → ∃ d ∈ t.db.docs, d.data = f := by
    rintro u f rfl hn
    have hlast : (⟨f, false, u.nextId⟩ : Tasks) ∈ (u.append [f]).Alltasks := by simp [append]
    exact (hq.2 hn).2 _ hlast
  cases e with
  | queried i =>
    intro q hq'
    have hq' : s.1.queries[i]? = some q := hq'
    by_cases hnone : s.1.removedBy q = []
    · exact Or.inr hnone
    · obtain ⟨d, hd⟩ := List.exists_mem_of_ne_nil _ hnone
      have hr : (d, q.row) ∈ (s.2.track s.1 (.queried i)).removed := by
        simp only [Deletions.track, hq']
        exact List.mem_append_right _ (List.mem_map.mpr ⟨d, hd, rfl⟩)
      have hsw := (hq.1 _ hr).1
      simp only [Deletions.track, hq'] at hsw
      exact Or.inl hsw
  | saved i fields =>
    intro hn
    cases step_iff.mp hs
    exact last rfl hn
  | queryFailed i taskName =>
    rintro hn q hrow name rfl
    cases step_iff.mp hs with
    | queryFailed hrow' =>
      obtain rfl := Option.some.inj (hrow.symm.trans hrow')
      exact last rfl hn
  | _ => trivial

lemma guarded_started (db : UserCollection) : Guarded (started db) := by
  refine ⟨⟨fun _ hk => hk, ?_, ?_⟩, ?_, fun _ => ?_, ?_, fun k => ?_, fun _ f => ?_⟩
  · simp [started, created]
  · simp [started, created]
  · simp [started]
  · constructor <;> simp [started, created]
  · simp [started]
  · simp [started, created]
  · simp [started, created]

/-- In a run of any loads, saves, appearances, disappearances and swipes, documents are deleted only
for swiped rows and, while there was no swipe, every listed task has its document, exactly when no
row that was not swiped away leaves the screen for a query that finds a document which no query
answered before it had found, and, while there was no swipe, completed saves and failed queries read
values that were submitted. -/
theorem deletesSwiped_iff (db : UserCollection) (es : List ViewEvent) :
    Always stepDeletions DeletesSwiped (started db) es ↔
      Along stepDeletions SwipedOrGone (started db) es :=
  always_iff_along (I := fun s _ => Guarded s)
    (fun _ _ h => deletesSwiped_of_guarded h)
    (fun _ e _ _ h hs hp => guarded_step h hs ((swipedOrGone_iff h e).mp hp))
    (fun _ e _ _ h hs hq => (swipedOrGone_iff h e).mpr (swipedOrNothing_of_deletes hs hq))
    (guarded_started db)

theorem scrolled_row_deletes : ∃ s,
    run stepDeletions (started oneStored) [.onAppear, .snapshot 0 [someTask], .loaded 0,
      .rowAppear 0, .rowDisappear 0, .querySnapshot 0 [someTask], .queried 0] = some s ∧
    s.2.swiped = [] ∧ s.1.db.docs = [] ∧ s.1.Alltasks.map Tasks.fields = [someTask.data] ∧
    ¬ DeletesSwiped s :=
  ⟨_, rfl, rfl, rfl, rfl, fun h => absurd (h.2 rfl).1 (by decide)⟩

end MainView

end MobileApps.SwiftUI

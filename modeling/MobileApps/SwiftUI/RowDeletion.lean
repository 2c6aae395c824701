import MobileApps.SwiftUI.Loads

/-! A row swiped away: what its query deletes, and what a failed query puts back. -/

namespace MobileApps.SwiftUI

open Firestore Library.Unicode Library.DocumentStore Library.Rows Library.Runs

def Tasks.shown (t : Tasks) : TaskFields × Bool := (t.fields, t.hide)

def ViewEvent.onlyAdds : ViewEvent → Bool
  | .toggle _ | .swipe _ | .queryFailed .. => false
  | _ => true

def deletion (row i query : ℕ) (documents : List TaskDocument) : List ViewEvent :=
  [.swipe row, .rowDisappear i, .querySnapshot query documents, .queried query]

namespace MainView

variable {s t u v : MainView} {row i j : ℕ} {r : Tasks}

lemma run_swiped {es : List ViewEvent} (hvis : s.visible[i]? = some r) :
    run step s (.swipe row :: .rowDisappear i :: es) = some t ↔ row < s.Alltasks.length ∧
      run step { s with
        Alltasks := s.Alltasks.eraseIdx row
        visible := s.visible.eraseIdx i
        queries := s.queries ++ [{ row := r }] } es = some t := by
  simp only [run_cons, step_iff]
  constructor
  · rintro ⟨_, hswipe, _, hgone, hr⟩
    cases hswipe with
    | swipe hrow =>
      cases hgone with
      | rowDisappear hget =>
        obtain rfl := Option.some.inj (hvis.symm.trans hget)
        exact ⟨hrow, hr⟩
  · rintro ⟨hrow, hr⟩
    exact ⟨_, .swipe hrow, _, .rowDisappear hvis, hr⟩

lemma run_deletion {documents : List TaskDocument} (hvis : s.visible[i]? = some r)
    (hr : run step s (deletion row i s.queries.length documents) = some t) :
    documents.Perm (s.found r.fields) ∧ t.Alltasks = s.Alltasks.eraseIdx row ∧
      t.db = s.db.deleteAll (documents.map Document.key) := by
  obtain ⟨_, hr⟩ := (run_swiped hvis).mp hr
  obtain ⟨u, hu, hr⟩ := run_cons.mp hr
  obtain ⟨w, hw, hr⟩ := run_cons.mp hr
  obtain rfl := Option.some.inj hr
  cases step_iff.mp hu with
  | querySnapshot hq hp =>
    cases step_iff.mp hw with
    | queried hq' =>
      -- the query appended last is the one that was answered
      rw [List.getElem?_concat_length] at hq
      obtain ⟨rfl, _⟩ := Query.mk.inj (Option.some.inj hq)
      rw [List.getElem?_set_self (by simp)] at hq'
      obtain ⟨_, htaken⟩ := Query.mk.inj (Option.some.inj hq')
      obtain rfl := Fetch.taken.inj htaken
      exact ⟨hp, rfl, rfl⟩

lemma deleteAll_found {f : TaskFields} {documents : List TaskDocument}
    (hp : documents.Perm (s.found f)) :
    (s.db.deleteAll (documents.map Document.key)).docs = s.db.docs.filter (·.data ≠ f) := by
  rw [Collection.deleteAll_docs]
  refine List.filter_congr fun e he => ?_
  simp only [decide_eq_decide, not_iff_not]
  constructor
  · intro hk
    obtain ⟨d, hd, hk⟩ := List.mem_map.mp hk
    obtain ⟨hd, hf⟩ := List.mem_filter.mp (hp.mem_iff.mp hd)
    rw [← Collection.eq_of_key hd he hk]
    exact of_decide_eq_true hf
  · intro hf
    have hfound : e ∈ s.found f := List.mem_filter.mpr ⟨he, decide_eq_true hf⟩
    exact List.mem_map_of_mem (hp.mem_iff.mpr hfound)

lemma stored_eq_map (s : MainView) : s.stored = Multiset.ofList (s.db.docs.map Document.data) := by
  rw [stored, Collection.tally, List.filterMap_eq_map']

lemma listed_swiped (hrow : s.Alltasks[row]? = some r) :
    s.listed = r.fields ::ₘ Multiset.ofList ((s.Alltasks.eraseIdx row).map Tasks.fields) :=
  Multiset.coe_eq_coe.mpr ((erase_perm hrow).map Tasks.fields)

/-- A row that is swiped away deletes one document, so that list and collection still agree,
exactly when no other task of the list has its name and time. -/
theorem one_document_iff {documents : List TaskDocument} (hc : s.Complete)
    (hrow : s.Alltasks[row]? = some r) (hvis : s.visible[i]? = some r)
    (hr : run step s (deletion row i s.queries.length documents) = some t) :
    t.Complete ∧ t.db.docs.length + 1 = s.db.docs.length ↔ s.listed.count r.fields = 1 := by
  obtain ⟨hp, htasks, hdb⟩ := run_deletion hvis hr
  have hdocs : t.db.docs = s.db.docs.filter (·.data ≠ r.fields) := hdb ▸ deleteAll_found hp
  have hstored : t.stored = s.stored.filter (· ≠ r.fields) := by
    rw [stored_eq_map, stored_eq_map, hdocs, Multiset.filter_coe, List.filter_map]
    rfl
  have hlisted : s.stored = r.fields ::ₘ t.listed := by
    rw [← hc, listed_swiped hrow, listed, htasks]
  have hcard : ∀ w : MainView, w.db.docs.length = Multiset.card w.stored := by
    simp [stored_eq_map]
  rw [Complete, hcard, hcard, hstored, hlisted, hc, hlisted, Multiset.count_cons_self]
  rw [Multiset.filter_cons_of_neg _ (by simp)]
  constructor
  · rintro ⟨h, _⟩
    rw [h, Nat.add_eq_right, Multiset.count_eq_zero]
    simp
  · intro h
    have hn : r.fields ∉ t.listed := Multiset.count_eq_zero.mp (Nat.add_eq_right.mp h)
    have hkeep : t.listed.filter (· ≠ r.fields) = t.listed :=
      Multiset.filter_eq_self.mpr fun f hf => by
        rintro rfl
        exact hn hf
    rw [hkeep]
    simp

def otherTask : TaskDocument := ⟨idB, otherFields⟩

def sameTask : TaskDocument := ⟨idB, someTask.data⟩

def twoStored : UserCollection := ⟨[someTask, otherTask], by decide⟩

def twiceStored : UserCollection := ⟨[someTask, sameTask], by decide⟩

def bothShown (documents : List TaskDocument) : List ViewEvent :=
  [.onAppear, .snapshot 0 documents, .loaded 0, .rowAppear 0, .rowAppear 1]

def bothListed : MainView where
  Alltasks := [⟨someTask.data, false, 0⟩, ⟨otherFields, false, 1⟩]
  visible := [⟨someTask.data, false, 0⟩, ⟨otherFields, false, 1⟩]
  db := twoStored
  used := [idA, idB]
  nextId := 2

theorem one_document_of_two :
    run step (created twoStored) (bothShown [someTask, otherTask]) = some bothListed ∧
    ∃ t, run step bothListed (deletion 0 0 bothListed.queries.length [someTask]) = some t ∧
      t.Complete ∧ t.db.docs.length + 1 = bothListed.db.docs.length := by
  obtain ⟨t, ht⟩ : ∃ t, run step bothListed
      (deletion 0 0 bothListed.queries.length [someTask]) = some t := ⟨_, rfl⟩
  have hrow : bothListed.Alltasks[0]? = some ⟨someTask.data, false, 0⟩ := rfl
  have hc : bothListed.Complete := rfl
  exact ⟨rfl, t, ht, (one_document_iff hc hrow rfl ht).mpr (by decide)⟩

theorem equal_tasks_deleted : ∃ s t, run step (created twiceStored)
    (bothShown [someTask, sameTask]) = some s ∧ s.Complete ∧
    run step s (deletion 0 0 s.queries.length [someTask, sameTask]) = some t ∧
    t.Alltasks.map Tasks.fields = [someTask.data] ∧ t.db.docs = [] ∧ ¬ t.Complete :=
  ⟨_, _, rfl, rfl, rfl, rfl, rfl, fun h => absurd (congrArg Multiset.card h) (by decide)⟩

def triples (s : MainView) : Multiset (TaskFields × Bool) :=
  Multiset.ofList (s.Alltasks.map Tasks.shown)

lemma step_onlyAdds {e : ViewEvent} (he : e.onlyAdds) (hs : s.step e = some t) :
    ∃ added, t.Alltasks.Perm (s.Alltasks ++ added) := by
  have same : t.Alltasks.Perm s.Alltasks → ∃ added, t.Alltasks.Perm (s.Alltasks ++ added) :=
    fun h => ⟨[], by simpa using h⟩
  cases step_iff.mp hs with
  | loaded | saved => exact ⟨_, List.Perm.refl _⟩
  | move _ hd => exact same (move_perm hd)
  | toggle | swipe | queryFailed => simp [ViewEvent.onlyAdds] at he
  | _ => exact same (List.Perm.refl _)

lemma run_onlyAdds {es : List ViewEvent} (hes : ∀ e ∈ es, e.onlyAdds)
    (hr : run step s es = some t) : ∃ added, t.Alltasks.Perm (s.Alltasks ++ added) := by
  induction es generalizing s with
  | nil =>
    obtain rfl := Option.some.inj hr
    exact ⟨[], by simp⟩
  | cons e es ih =>
    obtain ⟨u, hu, hr⟩ := run_cons.mp hr
    obtain ⟨before, hb⟩ := step_onlyAdds (hes e (by simp)) hu
    obtain ⟨after, ha⟩ := ih (fun e he => hes e (by simp [he])) hr
    refine ⟨before ++ after, ?_⟩
    rw [← List.append_assoc]
    exact ha.trans (hb.append_right after)

lemma triples_of_perm {added : List Tasks} (h : t.Alltasks.Perm (s.Alltasks ++ added)) :
    t.triples = s.triples + Multiset.ofList (added.map Tasks.shown) := by
  rw [triples, Multiset.coe_eq_coe.mpr (h.map Tasks.shown), List.map_append, ← Multiset.coe_add]
  rfl

lemma triples_swiped (hrow : s.Alltasks[row]? = some r)
    (ht : t.Alltasks = s.Alltasks.eraseIdx row) : s.triples = r.shown ::ₘ t.triples := by
  rw [triples, Multiset.coe_eq_coe.mpr ((erase_perm hrow).map Tasks.shown), triples, ht]
  rfl

lemma triples_queryFailed {q : Query} {name : Text} (hq : s.queries[j]? = some q)
    (ht : s.step (.queryFailed j (some name)) = some t) :
    t.triples = s.triples + {(⟨name, q.row.fields.taskTime⟩, false)} := by
  cases step_iff.mp ht with
  | queryFailed hq' =>
    obtain rfl := Option.some.inj (hq.symm.trans hq')
    have hlast : ({ s with queries := s.queries.eraseIdx j }.append
        [⟨name, q.row.fields.taskTime⟩]).Alltasks.Perm
          (s.Alltasks ++ [(⟨⟨name, q.row.fields.taskTime⟩, false, s.nextId⟩ : Tasks)]) :=
      List.Perm.refl _
    exact triples_of_perm hlast

/-- After the swipe of a row and any additions, the failure of the row's query restores its task
with its name, time and check mark, and nothing else, exactly when the task was not checked and
the binding of the row still reads its name. -/
theorem restored_iff {es : List ViewEvent} {q : Query} {taskName : Option Text}
    (hrow : s.Alltasks[row]? = some r) (hvis : s.visible[i]? = some r)
    (hu : run step s [.swipe row, .rowDisappear i] = some u) (hes : ∀ e ∈ es, e.onlyAdds)
    (hv : run step u es = some v) (hq : v.queries[j]? = some q) (hqr : q.row = r) :
    ∃ added, v.Alltasks.Perm (u.Alltasks ++ added) ∧
      ((∃ t, v.step (.queryFailed j taskName) = some t ∧
          t.triples = s.triples + Multiset.ofList (added.map Tasks.shown)) ↔
        r.hide = false ∧ taskName = some r.fields.taskName) := by
  obtain ⟨added, hadded⟩ := run_onlyAdds hes hv
  obtain ⟨_, hu⟩ := (run_swiped hvis).mp hu
  have hswiped : s.triples = r.shown ::ₘ u.triples := by
    apply triples_swiped hrow
    exact congrArg Alltasks (Option.some.inj hu).symm
  have hlater := triples_of_perm hadded
  refine ⟨added, hadded, ?_⟩
  constructor
  · rintro ⟨t, ht, h⟩
    obtain ⟨name, rfl⟩ : ∃ name, taskName = some name := by
      cases step_iff.mp ht
      exact ⟨_, rfl⟩
    rw [triples_queryFailed hq ht, hlater, hswiped, Multiset.cons_add, Multiset.add_comm _ {_},
      Multiset.singleton_add, Multiset.cons_inj_left, Tasks.shown, Prod.mk.injEq] at h
    rw [← h.1]
    exact ⟨h.2.symm, rfl⟩
  · rintro ⟨hhide, rfl⟩
    have ht : v.step (.queryFailed j (some r.fields.taskName)) = some _ :=
      step_iff.mpr (.queryFailed hq)
    refine ⟨_, ht, ?_⟩
    rw [triples_queryFailed hq ht, hlater, hswiped, hqr,
      Multiset.cons_add, Multiset.add_comm _ {_}, Multiset.singleton_add, Tasks.shown, hhide]

def addedMeanwhile : List ViewEvent :=
  [.addView, .edit 0 otherFields, .save 0 idC otherFields, .saved 0 otherFields]

theorem restored_beside_added : ∃ u v added,
    run step bothListed [.swipe 0, .rowDisappear 0] = some u ∧
    run step u addedMeanwhile = some v ∧ v.Alltasks.Perm (u.Alltasks ++ added) ∧
    ∃ t, v.step (.queryFailed 0 (some someTask.data.taskName)) = some t ∧
      t.triples = bothListed.triples + Multiset.ofList (added.map Tasks.shown) := by
  obtain ⟨u, hu⟩ : ∃ u, run step bothListed [.swipe 0, .rowDisappear 0] = some u ∧
    ∃ v, run step u addedMeanwhile = some v ∧
      v.queries[0]? = some ⟨⟨someTask.data, false, 0⟩, .requested⟩ := ⟨_, rfl, _, rfl, rfl⟩
  obtain ⟨hu, v, hv, hq⟩ := hu
  have hrow : bothListed.Alltasks[0]? = some ⟨someTask.data, false, 0⟩ := rfl
  obtain ⟨added, hadded, h⟩ := restored_iff hrow rfl hu (by decide) hv hq rfl
  exact ⟨u, v, added, hu, hv, hadded, h.mpr ⟨rfl, rfl⟩⟩

theorem checked_task_restored_unchecked : ∃ s u t,
    run step bothListed [.toggle 0] = some s ∧
    run step s [.swipe 0, .rowDisappear 0] = some u ∧
    u.step (.queryFailed 0 (some someTask.data.taskName)) = some t ∧
    s.triples = {(someTask.data, true), (otherFields, false)} ∧
    t.triples = {(otherFields, false), (someTask.data, false)} ∧ t.triples ≠ s.triples :=
  ⟨_, _, _, rfl, rfl, rfl, rfl, rfl, by decide⟩

end MainView

end MobileApps.SwiftUI

import Mathlib.Data.Finset.Sort
import Mathlib.Data.List.Induction

namespace MobileApps.Library.Ascending

variable {α κ : Type} [LinearOrder κ] {label : α → κ}

def Ascends (label : α → κ) (l : List α) : Prop := l.Pairwise fun a b => label a < label b

lemma ascends_map {l : List α} : (l.map label).Pairwise (· < ·) ↔ Ascends label l :=
  List.pairwise_map

lemma Ascends.filter {l : List α} (h : Ascends label l) (p : α → Bool) :
    Ascends label (l.filter p) :=
  List.Pairwise.filter p h

lemma Ascends.find_label {l : List α} (h : Ascends label l) {a : α} (ha : a ∈ l) :
    (l.find? fun b => label b = label a) = some a := by
  induction l with
  | nil => cases ha
  | cons b l ih =>
    obtain ⟨hb, hl⟩ := List.pairwise_cons.mp h
    rcases List.mem_cons.mp ha with rfl | ha
    · simp
    · have hne : label b ≠ label a := (hb a ha).ne
      rw [List.find?_cons_of_neg (by simpa using hne)]
      exact ih hl ha

lemma Ascends.find_next {front rest : List α} (h : Ascends label (front ++ rest)) {i : κ}
    (hi : ∀ a ∈ front ++ rest, i < label a) :
    ((front ++ rest).find? fun a => (front.getLast?.map label).getD i < label a) =
      rest.head? := by
  have hrest : ∀ j, (∀ a ∈ rest, j < label a) →
      (rest.find? fun a => j < label a) = rest.head? := by
    intro j hj
    cases rest with
    | nil => rfl
    | cons a rest => exact List.find?_cons_of_pos (by simpa using hj a List.mem_cons_self)
  induction front using List.reverseRecOn with
  | nil => exact hrest i hi
  | append_singleton front last _ =>
    obtain ⟨hfront, _, hcross⟩ := List.pairwise_append.mp h
    rw [List.getLast?_concat, Option.map_some, Option.getD_some, List.find?_append,
      List.find?_eq_none.mpr, Option.none_or]
    · exact hrest _ fun a ha => hcross last (by simp) a ha
    · intro a ha
      rcases List.mem_append.mp ha with ha | ha
      · simpa using ((List.pairwise_append.mp hfront).2.2 a ha last (by simp)).le
      · simp [List.mem_singleton.mp ha]

theorem Ascends.collect {l : List α} (h : Ascends label l) {p : α → Bool} {labels : Finset κ}
    (hl : ∀ i, i ∈ labels ↔ ∃ a ∈ l, p a ∧ label a = i) :
    labels.sort.filterMap (fun i => l.find? fun b => label b = i) = l.filter p := by
  have hsorted := ascends_map.mpr (h.filter p)
  have hlabels : labels = ((l.filter p).map label).toFinset := by
    ext i
    simp [hl i, and_assoc]
  have hsort : labels.sort = (l.filter p).map label := by
    rw [hlabels]
    exact (List.toFinset_sort _ (hsorted.imp fun h => h.ne)).mpr (hsorted.imp fun h => h.le)
  rw [hsort, List.filterMap_map]
  have hfind : ∀ a ∈ l.filter p, (l.find? fun b => label b = label a) = some a := fun a ha =>
    h.find_label (List.mem_filter.mp ha).1
  exact (List.filterMap_congr hfind).trans List.filterMap_some

end MobileApps.Library.Ascending

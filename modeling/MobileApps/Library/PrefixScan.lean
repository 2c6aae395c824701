import Mathlib.Data.List.Lex
import Mathlib.Data.List.Sort
import Mathlib.Data.List.TakeWhile
import Mathlib.Tactic.Lemma

/-! Scans of ordered keys: the keys below a path are met one after the other, from the first key
that is not less than the path with the least segment behind it. -/

namespace MobileApps.Library.PrefixScan

variable {α : Type} [LinearOrder α]

def prefixScan (bottom : α) (path : List α) (keys : List (List α)) : List (List α) :=
  (keys.mergeSort.dropWhile fun key => key < path ++ [bottom]).takeWhile fun key =>
    path.isPrefixOf key

omit [LinearOrder α] in
lemma mem_takeWhile {p : α → Bool} {l : List α} (h : l.Pairwise fun a b => p b = true → p a = true)
    {a : α} : a ∈ l.takeWhile p ↔ a ∈ l ∧ p a = true := by
  induction l with
  | nil => simp
  | cons b l ih =>
    obtain ⟨hb, hl⟩ := List.pairwise_cons.mp h
    by_cases hp : p b = true
    · rw [List.takeWhile_cons_of_pos hp, List.mem_cons, List.mem_cons, ih hl]
      constructor
      · rintro (rfl | ⟨ha, hpa⟩)
        · exact ⟨Or.inl rfl, hp⟩
        · exact ⟨Or.inr ha, hpa⟩
      · rintro ⟨rfl | ha, hpa⟩
        · exact Or.inl rfl
        · exact Or.inr ⟨ha, hpa⟩
    · rw [List.takeWhile_cons_of_neg hp]
      simp only [List.not_mem_nil, false_iff, List.mem_cons, not_and]
      rintro (rfl | ha)
      · exact hp
      · exact fun hpa => hp (hb a ha hpa)

omit [LinearOrder α] in
lemma mem_dropWhile {p : α → Bool} {l : List α} (h : l.Pairwise fun a b => p b = true → p a = true)
    {a : α} : a ∈ l.dropWhile p ↔ a ∈ l ∧ p a = false := by
  induction l with
  | nil => simp
  | cons b l ih =>
    obtain ⟨hb, hl⟩ := List.pairwise_cons.mp h
    by_cases hp : p b = true
    · rw [List.dropWhile_cons_of_pos hp, ih hl, List.mem_cons]
      constructor
      · exact fun ha => ⟨Or.inr ha.1, ha.2⟩
      · rintro ⟨rfl | ha, hpa⟩
        · rw [hp] at hpa
          cases hpa
        · exact ⟨ha, hpa⟩
    · rw [List.dropWhile_cons_of_neg hp]
      refine (and_iff_left_of_imp fun ha => ?_).symm
      rcases List.mem_cons.mp ha with rfl | ha
      · exact Bool.eq_false_iff.mpr hp
      · exact Bool.eq_false_iff.mpr fun hpa => hp (hb a ha hpa)

lemma prefix_of_between {bottom : α} {path a b : List α} (hstart : ¬ a < path ++ [bottom])
    (hab : ¬ b < a) (hb : path <+: b) : path <+: a := by
  induction path generalizing a b with
  | nil => exact List.nil_prefix
  | cons x path ih =>
    obtain ⟨rest, rfl⟩ := hb
    cases a with
    | nil => exact absurd (List.nil_lt_cons x (path ++ [bottom])) hstart
    | cons y a =>
      rw [List.cons_append, List.cons_lt_cons_iff, not_or, not_and] at hstart hab
      obtain rfl : x = y := le_antisymm (not_lt.mp hstart.1) (not_lt.mp hab.1)
      exact List.cons_prefix_cons.mpr
        ⟨rfl, ih (hstart.2 rfl) (hab.2 rfl) (List.prefix_append path rest)⟩

lemma not_lt_start {bottom : α} (hbottom : ∀ a, bottom ≤ a) {path key : List α}
    (h : path <+: key) : ¬ key < path ++ [bottom] ↔ key ≠ path := by
  obtain ⟨rest, rfl⟩ := h
  induction path with
  | nil =>
    cases rest with
    | nil => simp
    | cons a rest => simp [List.cons_lt_cons_iff, hbottom a]
  | cons x path ih => simpa [List.cons_lt_cons_iff] using ih

theorem mem_prefixScan {bottom : α} (hbottom : ∀ a, bottom ≤ a) {path : List α}
    {keys : List (List α)} {key : List α} :
    key ∈ prefixScan bottom path keys ↔ key ∈ keys ∧ path <+: key ∧ key ≠ path := by
  have hsorted : keys.mergeSort.Pairwise (· ≤ ·) := List.sortedLE_mergeSort.pairwise
  have hlower : keys.mergeSort.Pairwise fun a b =>
      decide (b < path ++ [bottom]) = true → decide (a < path ++ [bottom]) = true := by
    refine hsorted.imp fun {a b} hab hb => ?_
    simp only [decide_eq_true_eq] at hb ⊢
    exact hab.trans_lt hb
  have hconvex : (keys.mergeSort.dropWhile fun key => key < path ++ [bottom]).Pairwise
      fun a b => path.isPrefixOf b = true → path.isPrefixOf a = true := by
    refine (hsorted.sublist (List.dropWhile_sublist _)).imp_of_mem fun {a b} ha _ hab hb => ?_
    have hstart := ((mem_dropWhile hlower).mp ha).2
    exact List.isPrefixOf_iff_prefix.mpr (prefix_of_between (by simpa using hstart) (not_lt.mpr hab)
      (List.isPrefixOf_iff_prefix.mp hb))
  rw [prefixScan, mem_takeWhile hconvex, mem_dropWhile hlower, List.mem_mergeSort,
    List.isPrefixOf_iff_prefix, and_assoc, decide_eq_false_iff_not]
  refine and_congr_right fun _ => ?_
  rw [and_comm]
  exact and_congr_right fun h => not_lt_start hbottom h

end MobileApps.Library.PrefixScan

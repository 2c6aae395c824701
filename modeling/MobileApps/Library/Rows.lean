import Mathlib.Data.List.Basic
import Mathlib.Data.List.Perm.Basic
import Mathlib.Tactic.Lemma

/-! Rows of a list taken out, overwritten and moved, and moving a row against exchanging it with
the row at its destination. -/

namespace MobileApps.Library.Rows

variable {α : Type} {l : List α} {src dst : ℕ}

def move (src dst : ℕ) (l : List α) : List α :=
  match l[src]? with
  | some a => (l.eraseIdx src).insertIdx dst a
  | none => l

def Passed (src dst i : ℕ) : Prop := (src < i ∧ i ≤ dst) ∨ (dst ≤ i ∧ i < src)

lemma length_move (hs : src < l.length) (hd : dst < l.length) :
    (move src dst l).length = l.length := by
  rw [move, List.getElem?_eq_getElem hs]
  dsimp only
  rw [List.length_insertIdx_of_le_length, List.length_eraseIdx_of_lt hs]
  · omega
  · rw [List.length_eraseIdx_of_lt hs]
    omega

lemma getElem?_move (hs : src < l.length) (hd : dst < l.length) (i : ℕ) :
    (move src dst l)[i]? =
      if i = dst then l[src]? else if src ≤ i ∧ i < dst then l[i + 1]?
      else if dst < i ∧ i ≤ src then l[i - 1]? else l[i]? := by
  have hlen := List.length_eraseIdx_of_lt hs
  rw [move, List.getElem?_eq_getElem hs]
  dsimp only
  rw [List.getElem?_insertIdx]
  by_cases hi : i = dst
  · have : dst ≤ (l.eraseIdx src).length := by omega
    simp [hi, this]
  by_cases hlt : i < dst
  · rw [if_pos hlt, List.getElem?_eraseIdx]
    by_cases hsi : i < src
    · simp [hi, hsi, show ¬ src ≤ i by omega, show ¬ dst < i by omega]
    · simp [hi, hsi, show src ≤ i by omega, hlt]
  · rw [if_neg hlt, if_neg hi, List.getElem?_eraseIdx]
    by_cases hsi : i - 1 < src
    · simp [hi, hsi, hlt, show dst < i by omega, show i ≤ src by omega]
    · simp [hi, hsi, hlt, show ¬ i ≤ src by omega, show i - 1 + 1 = i by omega]

lemma eraseIdx_subset (l : List α) (i : ℕ) : l.eraseIdx i ⊆ l :=
  (List.eraseIdx_sublist l i).subset

lemma erase_perm {i : ℕ} {a : α} (h : l[i]? = some a) : l.Perm (a :: l.eraseIdx i) := by
  obtain ⟨hlt, rfl⟩ := List.getElem?_eq_some_iff.mp h
  exact (List.getElem_cons_eraseIdx_perm hlt).symm

lemma set_perm {i : ℕ} {a b : α} (h : l[i]? = some a) : (a :: l.set i b).Perm (b :: l) := by
  obtain ⟨hlt, _⟩ := List.getElem?_eq_some_iff.mp h
  refine ((List.set_perm_cons_eraseIdx hlt b).cons _).trans ((List.Perm.swap _ _ _).trans ?_)
  exact (erase_perm h).symm.cons b

lemma move_perm (hd : dst < l.length) : (move src dst l).Perm l := by
  by_cases hs : src < l.length
  · have hlen := List.length_eraseIdx_of_lt hs
    rw [move, List.getElem?_eq_getElem hs]
    exact (List.perm_insertIdx _ _ (by omega)).trans
      (erase_perm (List.getElem?_eq_getElem hs)).symm
  · rw [move, List.getElem?_eq_none (by omega)]

lemma getElem?_swap (hs : src < l.length) (hd : dst < l.length) (i : ℕ) :
    (l.swap src dst)[i]? =
      if i = dst then l[src]? else if i = src then l[dst]? else l[i]? := by
  rw [List.swap_eq, dif_pos ⟨hs, hd⟩, List.getElem?_set, List.getElem?_set]
  simp only [List.length_set]
  by_cases hi : i = dst
  · simp [hi, hd, List.getElem?_eq_getElem hs]
  · by_cases hi' : i = src
    · subst hi'
      simp [hi, Ne.symm hi, hs, List.getElem?_eq_getElem hd]
    · simp [hi, hi', Ne.symm hi, Ne.symm hi']

lemma swap_perm (l : List α) (i j : ℕ) : (l.swap i j).Perm l := by
  rw [List.swap_eq]
  split
  · rename_i h
    exact List.set_set_perm h.1 h.2
  · exact List.Perm.refl l

lemma passed_up {i : ℕ} (hp : ∀ j, src < j → j < dst → l[j]? = l[j + 1]?) (hi : src < i)
    (hd : i ≤ dst) : l[i]? = l[dst]? := by
  obtain ⟨n, rfl⟩ := Nat.exists_eq_add_of_le hd
  induction n generalizing i with
  | zero => rfl
  | succ n ih =>
    have hle : i + 1 ≤ i + (n + 1) := by omega
    rw [hp i hi (by omega), show i + (n + 1) = i + 1 + n by omega]
    exact ih (by omega) (fun j hj hj' => hp j hj (by omega)) (by omega)

lemma passed_down {i : ℕ} (hp : ∀ j, dst < j → j < src → l[j]? = l[j - 1]?) (hd : dst ≤ i)
    (hi : i < src) : l[i]? = l[dst]? := by
  obtain ⟨n, rfl⟩ := Nat.exists_eq_add_of_le hd
  induction n with
  | zero => rfl
  | succ n ih =>
    rw [hp (dst + (n + 1)) (by omega) hi]
    exact ih (by omega) (by omega)

theorem swap_eq_move_iff (hs : src < l.length) (hd : dst < l.length) :
    l.swap src dst = move src dst l ↔
      ∀ i j, Passed src dst i → Passed src dst j → l[i]? = l[j]? := by
  have hext : l.swap src dst = move src dst l ↔
      ∀ i, (l.swap src dst)[i]? = (move src dst l)[i]? :=
    ⟨fun h i => by rw [h], List.ext_getElem?⟩
  simp only [hext, getElem?_swap hs hd, getElem?_move hs hd]
  constructor
  · intro h
    have key : ∀ i, Passed src dst i → l[i]? = l[dst]? := by
      rintro i (⟨hi, hi'⟩ | ⟨hi, hi'⟩)
      · have hp : ∀ j, src < j → j < dst → l[j]? = l[j + 1]? := by
          intro j hj hj'
          simpa [show j ≠ dst by omega, show j ≠ src by omega, show src ≤ j by omega, hj']
            using h j
        exact passed_up hp hi hi'
      · have hp : ∀ j, dst < j → j < src → l[j]? = l[j - 1]? := by
          intro j hj hj'
          simpa [show j ≠ dst by omega, show j ≠ src by omega, show ¬ src ≤ j by omega, hj,
            show j ≤ src by omega] using h j
        exact passed_down hp hi hi'
    exact fun i j hi hj => (key i hi).trans (key j hj).symm
  · intro h i
    by_cases hid : i = dst
    · simp [hid]
    by_cases his : i = src
    · subst his
      by_cases hlt : i < dst
      · simp only [hid, hlt, if_false, if_true, Nat.le_refl, true_and]
        exact h _ _ (Or.inl ⟨hlt, Nat.le_refl _⟩) (Or.inl ⟨by omega, by omega⟩)
      · simp only [hid, hlt, if_false, if_true, Nat.le_refl, true_and,
          show dst < i by omega]
        exact h _ _ (Or.inr ⟨Nat.le_refl _, by omega⟩) (Or.inr ⟨by omega, by omega⟩)
    · simp only [hid, his, if_false]
      split_ifs with hup hdown
      · exact h _ _ (Or.inl ⟨by omega, by omega⟩) (Or.inl ⟨by omega, by omega⟩)
      · exact h _ _ (Or.inr ⟨by omega, by omega⟩) (Or.inr ⟨by omega, by omega⟩)
      · rfl

end MobileApps.Library.Rows

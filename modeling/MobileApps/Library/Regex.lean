import Mathlib.Computability.RegularExpressions

/-! Character classes, optional parts and the `^ … $` anchors over Mathlib's regular expressions. -/

namespace MobileApps.Library.Regex

open RegularExpression

variable {α : Type} [DecidableEq α]

def oneOf : List α → RegularExpression α
  | [] => 0
  | a :: as => char a + oneOf as

def optional (r : RegularExpression α) : RegularExpression α := 1 + r

def oneOrMore (r : RegularExpression α) : RegularExpression α := r * star r

def atMost (r : RegularExpression α) : ℕ → RegularExpression α
  | 0 => 1
  | n + 1 => optional (r * atMost r n)

def symbols : RegularExpression α → List α
  | .zero | .epsilon => []
  | .char a => [a]
  | .plus r s | .comp r s => symbols r ++ symbols s
  | .star r => symbols r

lemma oneOf_rmatch (as w : List α) : (oneOf as).rmatch w ↔ ∃ a ∈ as, w = [a] := by
  induction as with
  | nil => simp [oneOf]
  | cons a as ih =>
    rw [oneOf, add_rmatch_iff, char_rmatch_iff, ih]
    simp

lemma optional_rmatch (r : RegularExpression α) (w : List α) :
    (optional r).rmatch w ↔ w = [] ∨ r.rmatch w := by
  rw [optional, add_rmatch_iff, one_rmatch_iff]

lemma oneOrMore_rmatch (as w : List α) :
    (oneOrMore (oneOf as)).rmatch w ↔ w ≠ [] ∧ ∀ a ∈ w, a ∈ as := by
  have hstar : ∀ {w : List α}, (star (oneOf as)).rmatch w ↔ ∀ a ∈ w, a ∈ as := by
    intro w
    rw [star_rmatch_iff]
    constructor
    · rintro ⟨ws, rfl, h⟩ a ha
      obtain ⟨v, hv, ha⟩ := List.mem_flatten.mp ha
      obtain ⟨b, hb, rfl⟩ := (oneOf_rmatch as v).mp (h v hv).2
      exact List.mem_singleton.mp ha ▸ hb
    · intro h
      have hw : w = (w.map fun a => [a]).flatten := by
        rw [← List.flatMap_def, List.flatMap_singleton']
      refine ⟨w.map fun a => [a], hw, fun v hv => ?_⟩
      obtain ⟨a, ha, rfl⟩ := List.mem_map.mp hv
      exact ⟨List.cons_ne_nil a [], (oneOf_rmatch as [a]).mpr ⟨a, h a ha, rfl⟩⟩
  rw [oneOrMore, mul_rmatch_iff]
  constructor
  · rintro ⟨t, u, rfl, ht, hu⟩
    obtain ⟨a, ha, rfl⟩ := (oneOf_rmatch as t).mp ht
    exact ⟨List.cons_ne_nil a u, List.forall_mem_cons.mpr ⟨ha, hstar.mp hu⟩⟩
  · rintro ⟨hne, h⟩
    cases w with
    | nil => exact absurd rfl hne
    | cons a u =>
      obtain ⟨ha, hu⟩ := List.forall_mem_cons.mp h
      exact ⟨[a], u, rfl, (oneOf_rmatch as [a]).mpr ⟨a, ha, rfl⟩, hstar.mpr hu⟩

lemma atMost_rmatch (as : List α) (n : ℕ) (w : List α) :
    (atMost (oneOf as) n).rmatch w ↔ w.length ≤ n ∧ ∀ a ∈ w, a ∈ as := by
  induction n generalizing w with
  | zero =>
    rw [atMost, one_rmatch_iff, Nat.le_zero, List.length_eq_zero_iff]
    constructor
    · rintro rfl
      simp
    · exact And.left
  | succ n ih =>
    rw [atMost, optional_rmatch, mul_rmatch_iff]
    constructor
    · rintro (rfl | ⟨t, u, rfl, ht, hu⟩)
      · simp
      · obtain ⟨a, ha, rfl⟩ := (oneOf_rmatch as t).mp ht
        obtain ⟨hn, hu⟩ := (ih u).mp hu
        exact ⟨Nat.succ_le_succ hn, List.forall_mem_cons.mpr ⟨ha, hu⟩⟩
    · rintro ⟨hn, h⟩
      cases w with
      | nil => exact Or.inl rfl
      | cons a u =>
        obtain ⟨ha, hu⟩ := List.forall_mem_cons.mp h
        right
        refine ⟨[a], u, rfl, (oneOf_rmatch as [a]).mpr ⟨a, ha, rfl⟩, (ih u).mpr ⟨?_, hu⟩⟩
        exact Nat.succ_le_succ_iff.mp hn

lemma mem_symbols {r : RegularExpression α} {w : List α} (h : r.rmatch w) :
    ∀ a ∈ w, a ∈ symbols r := by
  induction r generalizing w with
  | zero => simp at h
  | epsilon => simp [(one_rmatch_iff w).mp h]
  | char b => simp [(char_rmatch_iff b w).mp h, symbols]
  | plus r s ihr ihs =>
    intro a ha
    rcases (add_rmatch_iff r s w).mp h with h | h
    · exact List.mem_append_left _ (ihr h a ha)
    · exact List.mem_append_right _ (ihs h a ha)
  | comp r s ihr ihs =>
    obtain ⟨t, u, rfl, ht, hu⟩ := (mul_rmatch_iff r s w).mp h
    intro a ha
    rcases List.mem_append.mp ha with ha | ha
    · exact List.mem_append_left _ (ihr ht a ha)
    · exact List.mem_append_right _ (ihs hu a ha)
  | star r ih =>
    obtain ⟨ws, rfl, hw⟩ := (star_rmatch_iff r w).mp h
    intro a ha
    obtain ⟨v, hv, ha⟩ := List.mem_flatten.mp ha
    exact ih (hw v hv).2 a ha

/-! ### Anchors: `$` matches at the end and before a line terminator that ends the input. -/

def terminators : List ℕ := [0x0A, 0x0B, 0x0C, 0x0D, 0x85, 0x2028, 0x2029]

def terminations : List (List ℕ) := [] :: [0x0D, 0x0A] :: terminators.map fun u => [u]

/-- `^r$` has a match in the code units. -/
def anchored (r : RegularExpression ℕ) (units : List ℕ) : Bool :=
  terminations.any fun e =>
    e.isSuffixOf units && r.rmatch (units.take (units.length - e.length)) &&
      !(e == [0x0A] && (units.take (units.length - 1)).getLast? == some 0x0D)

lemma anchored_iff {r : RegularExpression ℕ} {units : List ℕ} :
    anchored r units ↔ ∃ w, ∃ e ∈ terminations, units = w ++ e ∧ r.rmatch w ∧
      ¬ (e = [0x0A] ∧ w.getLast? = some 0x0D) := by
  simp only [anchored, List.any_eq_true, Bool.and_eq_true, List.isSuffixOf_iff_suffix,
    Bool.not_eq_true', Bool.and_eq_false_iff, beq_eq_false_iff_ne]
  constructor
  · rintro ⟨e, he, ⟨⟨w, rfl⟩, hr⟩, hn⟩
    refine ⟨w, e, he, rfl, by simpa using hr, ?_⟩
    rintro ⟨rfl, hw⟩
    simp_all
  · rintro ⟨w, e, he, rfl, hr, hn⟩
    refine ⟨e, he, ⟨List.suffix_append w e, by simpa using hr⟩, ?_⟩
    by_cases h : e = [0x0A]
    · subst h
      right
      simpa using hn
    · exact Or.inl h

end MobileApps.Library.Regex

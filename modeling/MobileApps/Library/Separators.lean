import Mathlib.Data.List.Basic
import Mathlib.Tactic.Lemma

namespace MobileApps.Library.Separators

variable {α : Type} [DecidableEq α]

def upTo (d : α) (s : List α) : List α := s.takeWhile (· ≠ d)

def behind (d : α) (s : List α) : Option (List α) := (s.dropWhile (· ≠ d)).tail?

def upToLast (d : α) (s : List α) : Option (List α) := (behind d s.reverse).map List.reverse

def behindLast (d : α) (s : List α) : List α := (upTo d s.reverse).reverse

variable {d : α} {s t a b : List α}

lemma upTo_append (h : d ∉ s) : upTo d (s ++ t) = s ++ upTo d t := by
  apply List.takeWhile_append_of_pos
  intro c hc
  exact decide_eq_true fun hd => h (hd ▸ hc)

lemma upTo_self (h : d ∉ s) : upTo d s = s := by
  simpa [upTo] using upTo_append (t := []) h

lemma upTo_stop (h : d ∉ s) : upTo d (s ++ d :: t) = s := by
  rw [upTo_append h, upTo, List.takeWhile_cons_of_neg (by simp), List.append_nil]

lemma behind_append (h : d ∉ s) : behind d (s ++ t) = behind d t := by
  rw [behind, List.dropWhile_append_of_pos]
  · rfl
  · intro c hc
    exact decide_eq_true fun hd => h (hd ▸ hc)

lemma behind_stop (h : d ∉ s) : behind d (s ++ d :: t) = some t := by
  rw [behind_append h, behind, List.dropWhile_cons_of_neg (by simp)]
  rfl

lemma behind_none (h : d ∉ s) : behind d s = none := by
  simpa [behind] using behind_append (t := []) h

lemma upTo_behind (h : behind d s = some b) : s = upTo d s ++ d :: b ∧ d ∉ upTo d s := by
  by_cases hd : d ∈ s
  · obtain ⟨x, y, rfl, hx⟩ := List.eq_append_cons_of_mem hd
    rw [behind_stop hx] at h
    obtain rfl := Option.some.inj h
    rw [upTo_stop hx]
    exact ⟨rfl, hx⟩
  · rw [behind_none hd] at h
    cases h

lemma upToLast_stop (h : d ∉ t) : upToLast d (s ++ d :: t) = some s := by
  have ht : d ∉ t.reverse := fun hm => h (List.mem_reverse.mp hm)
  rw [upToLast, List.reverse_append, List.reverse_cons, List.append_assoc, List.singleton_append,
    behind_stop ht, Option.map_some, List.reverse_reverse]

lemma behindLast_stop (h : d ∉ t) : behindLast d (s ++ d :: t) = t := by
  have ht : d ∉ t.reverse := fun hm => h (List.mem_reverse.mp hm)
  rw [behindLast, List.reverse_append, List.reverse_cons, List.append_assoc, List.singleton_append,
    upTo_stop ht, List.reverse_reverse]

lemma upToLast_behindLast (h : upToLast d s = some a) : s = a ++ d :: behindLast d s := by
  obtain ⟨b, hb, rfl⟩ := Option.map_eq_some_iff.mp h
  have hs := congrArg List.reverse (upTo_behind hb).1
  rwa [List.reverse_reverse, List.reverse_append, List.reverse_cons, List.append_assoc,
    List.singleton_append] at hs

omit [DecidableEq α] in
/-- Two lists that go on behind a separator are equal only when their parts are, unless one of them
repeats the separator and the end of the other. -/
theorem split_unique {a' b' : List α} (hb : ∀ z, b ≠ z ++ d :: b') (hb' : ∀ z, b' ≠ z ++ d :: b)
    (h : a ++ d :: b = a' ++ d :: b') : a = a' ∧ b = b' := by
  rcases List.append_eq_append_iff.mp h with ⟨m, ha, hm⟩ | ⟨m, ha, hm⟩
  · cases m with
    | nil => exact ⟨by simpa using ha.symm, by simpa using hm⟩
    | cons c m => exact absurd (List.cons.inj hm).2 (hb m)
  · cases m with
    | nil => exact ⟨by simpa using ha, by simpa using hm.symm⟩
    | cons c m => exact absurd (List.cons.inj hm).2 (hb' m)

end MobileApps.Library.Separators

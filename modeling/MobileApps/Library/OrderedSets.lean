import MobileApps.Library.Ascending

namespace MobileApps.Library.OrderedSets

open Ascending

variable {α κ : Type} [LinearOrder κ] {label : α → κ}

structure OrderedSet (label : α → κ) where
  members : List α
  ascends : Ascends label members

namespace OrderedSet

def empty : OrderedSet label := ⟨[], .nil⟩

def find (k : κ) (s : OrderedSet label) : Option α := s.members.find? fun a => label a = k

def insert (a : α) (s : OrderedSet label) : OrderedSet label where
  members := (s.members.filter fun b => label b < label a) ++
    a :: s.members.filter fun b => label a < label b
  ascends := by
    refine List.pairwise_append.mpr ⟨s.ascends.filter _, List.pairwise_cons.mpr
      ⟨fun b hb => by simpa using (List.mem_filter.mp hb).2, s.ascends.filter _⟩, ?_⟩
    intro b hb c hc
    have hlt : label b < label a := by simpa using (List.mem_filter.mp hb).2
    rcases List.mem_cons.mp hc with rfl | hc
    · exact hlt
    · exact hlt.trans (by simpa using (List.mem_filter.mp hc).2)

def erase (k : κ) (s : OrderedSet label) : OrderedSet label where
  members := s.members.filter fun a => label a ≠ k
  ascends := s.ascends.filter _

lemma find_eq_some {s : OrderedSet label} {k : κ} {a : α} :
    s.find k = some a ↔ a ∈ s.members ∧ label a = k := by
  constructor
  · intro h
    exact ⟨List.mem_of_find?_eq_some h, by simpa using List.find?_some h⟩
  · rintro ⟨ha, rfl⟩
    exact s.ascends.find_label ha

lemma find_label {s : OrderedSet label} {k : κ} {a : α} (h : s.find k = some a) : label a = k :=
  (find_eq_some.mp h).2

lemma mem_iff_find {s : OrderedSet label} {a : α} :
    a ∈ s.members ↔ s.find (label a) = some a := by
  simp [find_eq_some]

@[simp] lemma find_empty (k : κ) : (empty : OrderedSet label).find k = none := rfl

@[ext] theorem ext_find {s t : OrderedSet label} (h : ∀ k, s.find k = t.find k) : s = t := by
  have hmem : ∀ a, a ∈ s.members ↔ a ∈ t.members := fun a => by
    rw [mem_iff_find, mem_iff_find, h]
  have hnodup : ∀ u : OrderedSet label, u.members.Nodup := fun u =>
    u.ascends.imp fun hab he => (he ▸ hab).false
  have hperm := (List.perm_ext_iff_of_nodup (hnodup s) (hnodup t)).mpr hmem
  have hmembers : s.members = t.members :=
    hperm.eq_of_pairwise (fun _ _ _ _ hab hba => absurd hba hab.not_gt) s.ascends t.ascends
  cases s
  cases t
  cases hmembers
  rfl

@[simp] lemma find_insert_self (a : α) (s : OrderedSet label) :
    (s.insert a).find (label a) = some a :=
  find_eq_some.mpr ⟨by simp [insert], rfl⟩

lemma find_insert_ne {a : α} {k : κ} (h : k ≠ label a) (s : OrderedSet label) :
    (s.insert a).find k = s.find k := by
  refine Option.ext fun b => ?_
  rw [find_eq_some, find_eq_some]
  simp only [insert, List.mem_append, List.mem_cons, List.mem_filter, decide_eq_true_eq]
  constructor
  · rintro ⟨(⟨hb, _⟩ | rfl | ⟨hb, _⟩), rfl⟩
    · exact ⟨hb, rfl⟩
    · exact absurd rfl h
    · exact ⟨hb, rfl⟩
  · rintro ⟨hb, rfl⟩
    rcases lt_or_gt_of_ne h with hlt | hgt
    · exact ⟨Or.inl ⟨hb, hlt⟩, rfl⟩
    · exact ⟨Or.inr (Or.inr ⟨hb, hgt⟩), rfl⟩

@[simp] lemma find_erase_self (k : κ) (s : OrderedSet label) : (s.erase k).find k = none := by
  refine Option.ext fun b => ?_
  simp [find_eq_some, erase]

lemma find_erase_ne {j k : κ} (h : k ≠ j) (s : OrderedSet label) :
    (s.erase j).find k = s.find k := by
  refine Option.ext fun b => ?_
  rw [find_eq_some, find_eq_some]
  simp only [erase, List.mem_filter, decide_eq_true_eq]
  constructor
  · rintro ⟨⟨hb, _⟩, rfl⟩
    exact ⟨hb, rfl⟩
  · rintro ⟨hb, rfl⟩
    exact ⟨⟨hb, h⟩, rfl⟩

end OrderedSet

end MobileApps.Library.OrderedSets

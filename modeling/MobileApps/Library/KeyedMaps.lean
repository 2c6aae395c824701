import Mathlib.Data.List.AList
import Mathlib.Tactic.Lemma

namespace MobileApps.Library.KeyedMaps

variable {α β γ : Type} [DecidableEq α]

lemma length_keys_insert {a : α} {b : β} {s : AList fun _ : α => β} (h : a ∉ s) :
    (s.insert a b).keys.length = s.keys.length + 1 := by
  rw [AList.keys_insert, List.erase_of_not_mem fun hm => h (AList.mem_keys.mpr hm),
    List.length_cons]

lemma length_keys_erase {a : α} {s : AList fun _ : α => β} (h : a ∈ s) :
    (s.erase a).keys.length + 1 = s.keys.length := by
  have hm : a ∈ s.keys := AList.mem_keys.mp h
  rw [AList.keys_erase, List.length_erase_of_mem hm]
  have := List.length_pos_of_mem hm
  omega

lemma mem_lookup_of_erase {a k : α} {b : β} {s : AList fun _ : α => β}
    (h : b ∈ (s.erase a).lookup k) : b ∈ s.lookup k := by
  by_cases hk : k = a
  · subst hk
    rw [AList.lookup_erase] at h
    cases h
  · rwa [AList.lookup_erase_ne hk] at h

lemma split_entries {s : AList fun _ : α => β} {done rest : List ((_ : α) × β)} {a : α} {b : β}
    (h : s.entries = done ++ ⟨a, b⟩ :: rest) : s.lookup a = some b ∧ a ∉ done.keys := by
  refine ⟨AList.mem_lookup_iff.mpr (by rw [h]; simp), fun hm => ?_⟩
  have hnodup := s.nodupKeys
  rw [h, List.NodupKeys, List.keys, List.map_append, List.map_cons] at hnodup
  exact List.disjoint_of_nodup_append hnodup hm List.mem_cons_self

lemma dlookup_concat {l : List ((_ : α) × β)} {a : α} {b : β} (h : a ∉ l.keys) (k : α) :
    (l ++ [(⟨a, b⟩ : (_ : α) × β)]).dlookup k = if k = a then some b else l.dlookup k := by
  rw [List.dlookup_append]
  by_cases hk : k = a
  · subst hk
    simp [List.dlookup_eq_none.mpr h]
  · have hone : List.dlookup k [(⟨a, b⟩ : (_ : α) × β)] = none :=
      List.dlookup_cons_ne [] (⟨a, b⟩ : (_ : α) × β) hk
    rw [hone, Option.or_none, if_neg hk]

def mapValues (f : β → γ) (s : AList fun _ : α => β) : AList fun _ : α => γ where
  entries := s.entries.map fun entry => ⟨entry.1, f entry.2⟩
  nodupKeys := by
    rw [List.NodupKeys, List.keys, List.map_map]
    exact s.nodupKeys

lemma lookup_mapValues (f : β → γ) (s : AList fun _ : α => β) (k : α) :
    (mapValues f s).lookup k = (s.lookup k).map f := by
  refine Option.ext fun c => ?_
  rw [Option.map_eq_some_iff]
  constructor
  · intro h
    obtain ⟨⟨a, b⟩, hb, he⟩ := List.mem_map.mp (AList.mem_lookup_iff.mp h)
    cases he
    exact ⟨b, AList.mem_lookup_iff.mpr hb, rfl⟩
  · rintro ⟨b, hb, rfl⟩
    exact AList.mem_lookup_iff.mpr (List.mem_map.mpr ⟨⟨k, b⟩, AList.mem_lookup_iff.mp hb, rfl⟩)

end MobileApps.Library.KeyedMaps

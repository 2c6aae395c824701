import MobileApps.Storyboard.Device

namespace MobileApps.Storyboard

open Firestore Library.Unicode

variable (U : Tables)

lemma saved_paths {email : Option Email} {id : AutoId} {n t : Text} {s : Screen}
    {r : Screen × List Request} (h : saveDataInDtabase U email id n t s = .ok r) :
    ∃ path, r.1.paths = Function.update s.paths (pathKey U n t) (some path) := by
  simp only [saveDataInDtabase, bind_ok] at h
  obtain ⟨_, _, path, _, _, _, hr⟩ := h
  obtain rfl := Except.ok.inj hr
  exact ⟨path, rfl⟩

lemma insertRows_paths {row : ℕ} {s s' : Screen} (h : insertRows row s = .ok s') :
    s'.paths = s.paths := by
  rw [insertRows] at h
  split at h
  · obtain ⟨_, _, hs⟩ := bind_ok.mp h
    obtain rfl := Except.ok.inj hs
    rfl
  · cases h

lemma inserted_paths {email : Email} {n t : Text} {fields : List Text} {s s' : Screen}
    {entry : Entry} (he : entry.data.lookup email = some (.strings (n :: t :: fields)))
    (h : insertEntry U (some email) s entry = .ok s') :
    ∃ path, s'.paths = Function.update s.paths (pathKey U n t) (some path) := by
  simp only [insertEntry, unwrap_some, ok_bind, he, List.getElem?_cons_zero,
    List.getElem?_cons_succ, bind_ok] at h
  obtain ⟨u, hu, path, _, hs⟩ := h
  obtain rfl := Except.ok.inj hs
  exact ⟨path, by rw [insertRows_paths hu]⟩

/-- The key of a task determines its name and its accepted time, as texts and as strings, so the
entry of a task is left alone when another task is stored or loaded. -/
theorem createString_injective {n t n' t' : Text} (ht : checkDate U t) (ht' : checkDate U t') :
    (createString n t = createString n' t' → n = n' ∧ t = t') ∧
    (U.same (createString n t) (createString n' t') → U.same n n' ∧ U.same t t') ∧
    (¬ (U.same n n' ∧ U.same t t') →
      (∀ email id s r, saveDataInDtabase U email id n t s = .ok r →
        r.1.paths (pathKey U n' t') = s.paths (pathKey U n' t')) ∧
      ∀ (email : Email) fields (entry : Entry) s s',
        entry.data.lookup email = some (.strings (n :: t :: fields)) →
        insertEntry U (some email) s entry = .ok s' →
        s'.paths (pathKey U n' t') = s.paths (pathKey U n' t')) := by
  have hkey : pathKey U n t = pathKey U n' t' → U.same n n' ∧ U.same t t' :=
    timeKey_injective U ht ht'
  refine ⟨fun h => ?_, hkey, fun hne => ?_⟩
  · obtain ⟨d, b, rfl, hd, hb⟩ := checkDate_shape U ht
    obtain ⟨d', b', rfl, hd', hb'⟩ := checkDate_shape U ht'
    exact comma_split_text hd hd' hb hb' h
  · have hother : pathKey U n' t' ≠ pathKey U n t := fun hk => hne (hkey hk.symm)
    constructor
    · intro email id s r hr
      obtain ⟨path, hp⟩ := saved_paths U hr
      rw [hp, Function.update_of_ne hother]
    · intro email fields entry s s' he hs
      obtain ⟨path, hp⟩ := inserted_paths U he hs
      rw [hp, Function.update_of_ne hother]

theorem comma_in_name : createString "run, 9:30".toList ten ≠ createString "run".toList ten ∧
    ∀ s r, saveDataInDtabase .ascii (some someMail) idA "run, 9:30".toList ten s = .ok r →
      r.1.paths (pathKey .ascii "run".toList ten) = s.paths (pathKey .ascii "run".toList ten) := by
  have hten : checkDate .ascii ten := by decide
  constructor
  · intro h
    exact absurd ((createString_injective .ascii hten hten).1 h).1 (by decide)
  · intro s r hr
    exact ((createString_injective .ascii hten hten).2.2 (by decide)).1 _ _ s r hr

end MobileApps.Storyboard

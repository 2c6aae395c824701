import MobileApps.Storyboard.DeviceInvariant

/-! When the user's edits keep the list and the stored tasks in step: `paths` has one entry for
all rows of a pair, so a second deletion of the pair finds the path of a deleted document. -/

namespace MobileApps.Storyboard

open Firestore Library.Unicode Library.DocumentStore Library.Rows Library.Runs

def Event.isEdit : Event → Bool
  | .add .. | .delete _ | .move .. => true
  | .snapshot _ | .reply => false

lemma step_load {U : Tables} {email : Email} {d d' : Device} {e : Event} (he : e.isEdit)
    (hs : d.step U email e = some d') : d'.load = d.load := by
  cases e with
  | snapshot ds => exact absurd he (by simp [Event.isEdit])
  | reply => exact absurd he (by simp [Event.isEdit])
  | add id n t =>
    obtain ⟨_, hs⟩ := Option.ite_none_right_eq_some.mp hs
    obtain ⟨r, _, rfl⟩ := Option.map_eq_some_iff.mp hs
    rfl
  | delete row =>
    obtain ⟨r, _, rfl⟩ := Option.map_eq_some_iff.mp hs
    rfl
  | move src dst =>
    obtain ⟨s, _, rfl⟩ := Option.map_eq_some_iff.mp hs
    rfl

variable (U : Tables) (email : Email)

def rowKey (m : ToDoElementsModel) : Text := pathKey U m.name m.time

/-- The keys of `paths` of which a row was deleted since the key was last added or loaded. -/
def spend (spent : List Text) (d : Device) : Event → List Text
  | .add _ n t => spent.filter (· ≠ pathKey U n t)
  | .delete row => ((d.screen.array[row]?).map (rowKey U)).toList ++ spent
  | .reply =>
      match d.load with
      | .taken documents =>
          spent.filter (· ∉ documents.filterMap fun e => (storedModel email e).map (rowKey U))
      | _ => spent
  | .snapshot _ | .move .. => spent

/-- No row of the same pair was deleted before without the pair being added or loaded since. -/
def Unspent (s : Device × List Text) : Event → Prop
  | .delete row => ∀ m, s.1.screen.array[row]? = some m → rowKey U m ∉ s.2
  | _ => True

instance (s : Device × List Text) : ∀ e, Decidable (Unspent U s e)
  | .delete row =>
      decidable_of_iff (∀ m ∈ s.1.screen.array[row]?, rowKey U m ∉ s.2) Iff.rfl
  | .snapshot _ | .reply | .add .. | .move .. => isTrue trivial

def Device.stepSpent : Device × List Text → Event → Option (Device × List Text) :=
  observe (Device.step U email) (spend U email)

structure Tracked (base : Multiset (Text × Text)) (s : Device × List Text) : Prop where
  sound : s.1.Sound U email
  balance : stored U email s.1.db = base + listed U s.1.screen
  live : ∀ m ∈ s.1.screen.array, rowKey U m ∉ s.2 → s.1.Live (rowKey U m)
  dead : ∀ k ∈ s.2, ¬ s.1.Live k

variable {U email}

lemma live_added {d : Device} (h : d.Sound U email) {id : AutoId} (hid : id ∉ d.used)
    (n t k : Text) : (d.added U email id n t).Live k ↔ k = pathKey U n t ∨ d.Live k := by
  have hmem : ∀ {j : AutoId}, documentKey j ∈ (d.added U email id n t).db.keys ↔
      j = id ∨ documentKey j ∈ d.db.keys := by
    intro j
    simp only [Collection.mem_keys, mem_added]
    constructor
    · rintro ⟨e, ⟨he, _⟩ | rfl, hk⟩
      · exact Or.inr ⟨e, he, hk⟩
      · exact Or.inl (documentKey_injective hk).symm
    · rintro (rfl | ⟨e, he, hk⟩)
      · exact ⟨_, Or.inr rfl, rfl⟩
      · by_cases hj : j = id
        · exact ⟨_, Or.inr rfl, congrArg documentKey hj.symm⟩
        · exact ⟨e, Or.inl ⟨he, fun hn => hj (documentKey_injective (hk.symm.trans hn))⟩, hk⟩
  by_cases hk : k = pathKey U n t
  · subst hk
    exact iff_of_true ⟨id, by simp [Device.added, Screen.added], hmem.mpr (Or.inl rfl)⟩
      (Or.inl rfl)
  · have hp : (d.added U email id n t).screen.paths k = d.screen.paths k := by
      simp [Device.added, Screen.added, Function.update_of_ne hk]
    simp only [Device.Live, hp, hmem, hk, false_or]
    constructor
    · rintro ⟨j, hj, rfl | hd⟩
      · obtain ⟨i, hi, hpe, _⟩ := h.paths k _ hj
        exact absurd (ownPath_injective hpe ▸ hi) hid
      · exact ⟨j, hj, hd⟩
    · rintro ⟨j, hj, hd⟩
      exact ⟨j, hj, Or.inr hd⟩

lemma live_deleted {d : Device} (h : d.Sound U email) {m : ToDoElementsModel} {id : AutoId}
    (hp : d.screen.paths (rowKey U m) = some (ownPath id)) (row : ℕ) (k : Text) :
    Device.Live { d with screen := d.screen.removed row, db := d.db.delete (documentKey id) } k ↔
      d.Live k ∧ k ≠ rowKey U m := by
  change (∃ j, d.screen.paths k = some (ownPath j) ∧ _) ↔ _
  constructor
  · rintro ⟨j, hj, hd⟩
    obtain ⟨e, he, hek⟩ := Collection.mem_keys.mp hd
    obtain ⟨he, hne⟩ := Collection.mem_delete.mp he
    refine ⟨⟨j, hj, Collection.mem_keys.mpr ⟨e, he, hek⟩⟩, ?_⟩
    rintro rfl
    obtain rfl := ownPath_injective (Option.some.inj (hp.symm.trans hj))
    exact hne hek
  · rintro ⟨⟨j, hj, hd⟩, hk⟩
    obtain ⟨e, he, hek⟩ := Collection.mem_keys.mp hd
    refine ⟨j, hj, Collection.mem_keys.mpr ⟨e, Collection.mem_delete.mpr ⟨he, ?_⟩, hek⟩⟩
    -- a document with the path of both keys would hold one task with two keys
    intro hei
    obtain ⟨i, _, hi, hdoc⟩ := h.paths _ _ hp
    obtain ⟨i', _, hi', hdoc'⟩ := h.paths _ _ hj
    obtain rfl := ownPath_injective hi
    obtain rfl := ownPath_injective hi'
    obtain ⟨m₁, hm₁, hk₁⟩ := hdoc e he hei
    obtain ⟨m₂, hm₂, hk₂⟩ := hdoc' e he hek
    obtain rfl := Option.some.inj (hm₁.symm.trans hm₂)
    exact hk (hk₂.symm.trans hk₁)

variable {base : Multiset (Text × Text)}

lemma tracked_add {d : Device} {spent : List Text} (h : Tracked U email base (d, spent))
    {id : AutoId} {n t : Text} (hacc : Accepted U n t) (hid : id ∉ d.used) :
    Tracked U email base (d.added U email id n t, spent.filter (· ≠ pathKey U n t)) where
  sound := added_sound h.sound hacc hid
  balance := by
    have hb := h.balance
    simp only at hb ⊢
    rw [stored_added (h.sound.fresh_key hid), hb, Device.added, listed_added, Multiset.add_cons]
  live := by
    intro m hm hk
    rw [live_added h.sound hid]
    by_cases he : rowKey U m = pathKey U n t
    · exact Or.inl he
    · refine Or.inr (h.live m ?_ fun hs => hk (by simp [hs, he]))
      rcases List.mem_append.mp hm with hm | hm
      · exact hm
      · rw [List.mem_singleton] at hm
        exact absurd (by rw [hm]; rfl) he
  dead := by
    intro k hk hl
    simp only [List.mem_filter, decide_eq_true_eq] at hk
    rcases (live_added h.sound hid n t k).mp hl with he | hl
    · exact hk.2 he
    · exact h.dead k hk.1 hl

lemma tracked_delete {d : Device} {spent : List Text} (h : Tracked U email base (d, spent))
    {row : ℕ} {m : ToDoElementsModel} {id : AutoId} (hm : d.screen.array[row]? = some m)
    (hp : d.screen.paths (rowKey U m) = some (ownPath id)) (hk : rowKey U m ∉ spent) :
    Tracked U email base
      ({ d with screen := d.screen.removed row, db := d.db.delete (documentKey id) },
        rowKey U m :: spent) where
  sound := removed_sound h.sound (List.getElem?_eq_some_iff.mp hm).1 _
  balance := by
    obtain ⟨i, hi, hd⟩ := h.live m (List.mem_of_getElem? hm) hk
    obtain rfl := ownPath_injective (Option.some.inj (hp.symm.trans hi))
    have hs := stored_deleted h.sound (h.sound.accepted m (List.mem_of_getElem? hm)) hp
    rw [if_pos hd] at hs
    have hb := h.balance
    simp only at hb ⊢
    rw [hs, listed_removed U hm, Multiset.add_cons] at hb
    exact Multiset.cons_inj_right _ |>.mp hb
  live := by
    intro m' hm' hk'
    rw [List.mem_cons, not_or] at hk'
    refine (live_deleted h.sound hp row _).mpr ⟨h.live m' ?_ hk'.2, hk'.1⟩
    exact eraseIdx_subset _ _ hm'
  dead := by
    intro k hk' hl
    obtain ⟨hl, hne⟩ := (live_deleted h.sound hp row k).mp hl
    rcases List.mem_cons.mp hk' with rfl | hk'
    · exact hne rfl
    · exact h.dead k hk' hl

lemma tracked_move {d : Device} {spent : List Text} (h : Tracked U email base (d, spent))
    {src dst : ℕ} (hs : src < d.screen.array.length) (hd : dst < d.screen.array.length) :
    Tracked U email base ({ d with screen := { d.screen with
      array := d.screen.array.swap src dst, shown := move src dst d.screen.shown } },
      spent) where
  sound := moved_sound h.sound hs hd
  balance := h.balance.trans (by rw [listed_moved])
  live m hm hk := h.live m ((swap_perm _ _ _).mem_iff.mp hm) hk
  dead := h.dead

lemma stepSpent_delete {s t : Device × List Text} (h : s.1.Sound U email) {row : ℕ} :
    Device.stepSpent U email s (.delete row) = some t ↔ ∃ m id,
      s.1.screen.array[row]? = some m ∧ s.1.screen.paths (rowKey U m) = some (ownPath id) ∧
      t = ({ s.1 with screen := s.1.screen.removed row, db := s.1.db.delete (documentKey id) },
        rowKey U m :: s.2) := by
  rw [Device.stepSpent, observe_some, sound_delete h]
  constructor
  · rintro ⟨⟨m, id, hm, hp, ht⟩, hk⟩
    exact ⟨m, id, hm, hp, Prod.ext ht (by rw [← hk]; simp [spend, hm])⟩
  · rintro ⟨m, id, hm, hp, rfl⟩
    exact ⟨⟨m, id, hm, hp, rfl⟩, by simp [spend, hm]⟩

theorem tracked_edit {s t : Device × List Text} (h : Tracked U email base s) {e : Event}
    (he : e.isEdit) (hs : Device.stepSpent U email s e = some t) (hu : Unspent U s e) :
    Tracked U email base t := by
  obtain ⟨d, spent⟩ := s
  obtain ⟨d', spent'⟩ := t
  cases e with
  | snapshot ds => exact absurd he (by simp [Event.isEdit])
  | reply => exact absurd he (by simp [Event.isEdit])
  | add id n t =>
    obtain ⟨hd, rfl⟩ := observe_some.mp hs
    obtain ⟨⟨hacc, hid⟩, rfl⟩ := (step_add U h.sound.consistent).mp hd
    exact tracked_add h hacc hid
  | delete row =>
    obtain ⟨m, id, hm, hp, ht⟩ := (stepSpent_delete h.sound).mp hs
    rw [ht]
    exact tracked_delete h hm hp (hu m hm)
  | move src dst =>
    obtain ⟨hd, rfl⟩ := observe_some.mp hs
    obtain ⟨⟨hsrc, hdst⟩, rfl⟩ := (step_move U).mp hd
    exact tracked_move h hsrc hdst

theorem unspent_of_balance {s t : Device × List Text} (h : Tracked U email base s) {e : Event}
    (hs : Device.stepSpent U email s e = some t)
    (hb : stored U email t.1.db = base + listed U t.1.screen) : Unspent U s e := by
  cases e with
  | delete row =>
    obtain ⟨m, id, hm, hp, rfl⟩ := (stepSpent_delete h.sound).mp hs
    intro m' hm' hk
    obtain rfl := Option.some.inj (hm.symm.trans hm')
    have hn : documentKey id ∉ s.1.db.keys := fun hd => h.dead _ hk ⟨id, hp, hd⟩
    have hd := stored_deleted h.sound (h.sound.accepted m (List.mem_of_getElem? hm)) hp
    rw [if_neg hn] at hd
    have hb' := h.balance
    simp only [hd] at hb
    rw [hb, listed_removed U hm] at hb'
    exact absurd (congrArg Multiset.card hb') (by simp)
  | _ => trivial

lemma live_loaded {d : Device} (h : d.Sound U email) {ds : List Entry} (hl : d.load = .taken ds)
    (hds : ∀ e ∈ ds, e ∈ d.db.docs) (k : Text) :
    Device.Live { d with screen := d.screen.loaded U email ds, load := .answered } k ↔
      k ∈ ds.filterMap (fun e => (storedModel email e).map (rowKey U)) ∨ d.Live k := by
  have hkey : k ∈ ds.filterMap (fun e => (storedModel email e).map (rowKey U)) ↔
      ∃ e ∈ ds, ∃ m p, storedTask email e = some (m, p) ∧ pathKey U m.name m.time = k := by
    simp [storedModel, rowKey]
  rw [hkey]
  change (∃ j, (d.screen.loaded U email ds).paths k = some (ownPath j) ∧ _) ↔ _
  rcases loaded_paths U d.screen email ds k with ⟨e, he, m, q, hs, hk, hq⟩ | ⟨hnone, hq⟩
  · obtain ⟨id, _, hek, rfl, _⟩ := (h.snapshot ds hl e he).1.storedTask hs
    exact iff_of_true ⟨id, hq, Collection.mem_keys.mpr ⟨e, hds e he, hek⟩⟩
      (Or.inl ⟨e, he, m, _, hs, hk⟩)
  · rw [hq]
    constructor
    · exact Or.inr
    · rintro (⟨e, he, m, p, hs, hk⟩ | hl)
      · exact absurd hk (hnone e he m p hs)
      · exact hl

end MobileApps.Storyboard

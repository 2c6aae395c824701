import MobileApps.Storyboard.Device
import Mathlib.Data.List.Perm.Basic

/-! What holds of the dictionary, the list and the collection in every run on one device,
whatever the user adds, deletes and moves and whenever the load is answered. -/

namespace MobileApps.Storyboard

open Firestore Library.Unicode Library.DocumentStore Library.Rows Library.Runs

variable (U : Tables) (email : Email)

def OwnEntry (used : List AutoId) (e : Entry) : Prop :=
  ∃ id ∈ used, e.key = documentKey id ∧ (e.data.lookup email = none ∨
    ∃ n t, Accepted U n t ∧ e.data.lookup email = some (.strings [n, t, ownPath id]))

structure Device.Sound (d : Device) : Prop where
  consistent : d.screen.Consistent U
  accepted : ∀ m ∈ d.screen.array, Accepted U m.name m.time
  kept : ∀ e ∈ d.db.docs, OwnEntry U email d.used e
  snapshot : ∀ ds, d.load = .taken ds → ∀ e ∈ ds, OwnEntry U email d.used e ∧
    ∀ e' ∈ d.db.docs, e'.key = e.key → e' = e
  paths : ∀ k p, d.screen.paths k = some p → ∃ id ∈ d.used, p = ownPath id ∧
    ∀ e ∈ d.db.docs, e.key = documentKey id →
      ∃ m, storedModel email e = some m ∧ pathKey U m.name m.time = k

def Device.Live (d : Device) (k : Text) : Prop :=
  ∃ id, d.screen.paths k = some (ownPath id) ∧ documentKey id ∈ d.db.keys

variable {U email}

lemma ownPath_injective {id id' : AutoId} (h : ownPath id = ownPath id') : id = id' :=
  Subtype.ext (List.cons.inj h).2

lemma OwnEntry.wellStored {used : List AutoId} {e : Entry} (h : OwnEntry U email used e) :
    WellStored email e := by
  obtain ⟨id, _, _, h | ⟨n, t, _, h⟩⟩ := h
  · exact Or.inl h
  · exact Or.inr ⟨n, t, _, h⟩

lemma OwnEntry.mono {used used' : List AutoId} {e : Entry} (h : OwnEntry U email used e)
    (hu : ∀ id ∈ used, id ∈ used') : OwnEntry U email used' e := by
  obtain ⟨id, hid, hk, hd⟩ := h
  exact ⟨id, hu id hid, hk, hd⟩

lemma OwnEntry.storedTask {used : List AutoId} {e : Entry} (h : OwnEntry U email used e)
    {m : ToDoElementsModel} {p : Text} (hs : storedTask email e = some (m, p)) :
    ∃ id ∈ used, e.key = documentKey id ∧ p = ownPath id ∧ Accepted U m.name m.time := by
  obtain ⟨id, hid, hk, hl | ⟨n, t, hacc, hl⟩⟩ := h
  · simp [Storyboard.storedTask, hl] at hs
  · simp only [Storyboard.storedTask, hl, Option.some.injEq, Prod.mk.injEq] at hs
    obtain ⟨rfl, rfl⟩ := hs
    exact ⟨id, hid, hk, rfl, hacc⟩

lemma storedModel_some {e : Entry} {m : ToDoElementsModel} :
    storedModel email e = some m ↔ ∃ p, storedTask email e = some (m, p) := by
  simp [storedModel, Option.map_eq_some_iff]

lemma OwnEntry.accepted {used : List AutoId} {e : Entry} (h : OwnEntry U email used e)
    {m : ToDoElementsModel} (hs : storedModel email e = some m) : Accepted U m.name m.time := by
  obtain ⟨p, hp⟩ := storedModel_some.mp hs
  obtain ⟨_, _, _, _, hacc⟩ := h.storedTask hp
  exact hacc

lemma opened_sound {db : TaskCollection} {used : List AutoId} (h : Kept U email used db) :
    (Device.opened db used).Sound U email where
  consistent := viewDidLoad_consistent U
  accepted := by simp [Device.opened, viewDidLoad, loadTasks]
  kept := h
  snapshot := by simp [Device.opened]
  paths := by simp [Device.opened, viewDidLoad, loadTasks]

lemma mem_added {d : Device} {id : AutoId} {n t : Text} {e : Entry} :
    e ∈ (d.added U email id n t).db.docs ↔ (e ∈ d.db.docs ∧ e.key ≠ documentKey id) ∨
      e = ⟨documentKey id, [(email, .strings [n, t, ownPath id])]⟩ := by
  simp only [Device.added, Collection.mem_set]
  constructor
  · rintro (⟨h | rfl, hk⟩ | h)
    · exact Or.inl h
    · exact absurd rfl hk
    · exact Or.inr h
  · rintro (h | h)
    · exact Or.inl ⟨Or.inl h, h.2⟩
    · exact Or.inr h

lemma snapshot_sound {d : Device} (h : d.Sound U email) {ds : List Entry}
    (hp : ds.Perm d.db.docs) : Device.Sound U email { d with load := .taken ds } where
  consistent := h.consistent
  accepted := h.accepted
  kept := h.kept
  snapshot := by
    rintro _ ⟨⟩ e he
    have he' := hp.mem_iff.mp he
    exact ⟨h.kept e he', fun e' hm hk => Collection.eq_of_key hm he' hk⟩
  paths := h.paths

lemma loaded_sound {d : Device} (h : d.Sound U email) {ds : List Entry} (hl : d.load = .taken ds) :
    Device.Sound U email
      { d with screen := d.screen.loaded U email ds, load := .answered } where
  consistent := loaded_consistent U h.consistent email ds
  accepted := by
    intro m hm
    rw [loaded_array] at hm
    rcases List.mem_append.mp hm with hm | hm
    · exact h.accepted m hm
    · obtain ⟨e, he, hem⟩ := List.mem_filterMap.mp hm
      exact (h.snapshot ds hl e he).1.accepted hem
  kept := h.kept
  snapshot := by simp
  paths := by
    intro k p hp
    rcases loaded_paths U d.screen email ds k with ⟨e, he, m, q, hs, hk, hq⟩ | ⟨_, hq⟩
    · obtain rfl : q = p := Option.some.inj (hq.symm.trans hp)
      obtain ⟨id, hid, hek, rfl, _⟩ := (h.snapshot ds hl e he).1.storedTask hs
      refine ⟨id, hid, rfl, fun e' he' hk' => ?_⟩
      obtain rfl := (h.snapshot ds hl e he).2 e' he' (hk'.trans hek.symm)
      exact ⟨m, storedModel_some.mpr ⟨_, hs⟩, hk⟩
    · exact h.paths k p (hq.symm.trans hp)

lemma added_sound {d : Device} (h : d.Sound U email) {id : AutoId} {n t : Text}
    (hacc : Accepted U n t) (hid : id ∉ d.used) : (d.added U email id n t).Sound U email where
  consistent := added_consistent U h.consistent id n t
  accepted := by
    intro m hm
    rcases List.mem_append.mp hm with hm | hm
    · exact h.accepted m hm
    · rw [List.mem_singleton] at hm
      exact hm ▸ hacc
  kept := by
    intro e he
    rcases mem_added.mp he with ⟨he, _⟩ | rfl
    · exact (h.kept e he).mono fun _ hm => List.mem_cons_of_mem _ hm
    · exact ⟨id, List.mem_cons_self, rfl, Or.inr ⟨n, t, hacc, by simp⟩⟩
  snapshot := by
    intro ds hl e he
    obtain ⟨hown, huniq⟩ := h.snapshot ds hl e he
    refine ⟨hown.mono fun _ hm => List.mem_cons_of_mem _ hm, fun e' he' hk => ?_⟩
    rcases mem_added.mp he' with ⟨he', _⟩ | rfl
    · exact huniq e' he' hk
    · obtain ⟨id', hid', hk', _⟩ := hown
      exact absurd (documentKey_injective (hk.trans hk') ▸ hid') hid
  paths := by
    intro k p hp
    by_cases hk : k = pathKey U n t
    · subst hk
      obtain rfl : ownPath id = p := by simpa [Device.added, Screen.added] using hp
      refine ⟨id, List.mem_cons_self, rfl, fun e he hek => ?_⟩
      rcases mem_added.mp he with ⟨_, hne⟩ | rfl
      · exact absurd hek hne
      · exact ⟨⟨n, t⟩, by simp [storedModel, storedTask], rfl⟩
    · have hp' : d.screen.paths k = some p := by
        simpa [Device.added, Screen.added, Function.update_of_ne hk] using hp
      obtain ⟨id', hid', rfl, hdoc⟩ := h.paths k p hp'
      refine ⟨id', List.mem_cons_of_mem _ hid', rfl, fun e he hek => ?_⟩
      rcases mem_added.mp he with ⟨he, _⟩ | rfl
      · exact hdoc e he hek
      · exact absurd (documentKey_injective hek ▸ hid') hid

lemma removed_sound {d : Device} (h : d.Sound U email) {row : ℕ}
    (hrow : row < d.screen.array.length) (key : ResourcePath) :
    Device.Sound U email
      { d with screen := d.screen.removed row, db := d.db.delete key } where
  consistent := removed_consistent U h.consistent hrow
  accepted m hm := h.accepted m (eraseIdx_subset _ _ hm)
  kept e he := h.kept e (Collection.mem_delete.mp he).1
  snapshot ds hl e he :=
    ⟨(h.snapshot ds hl e he).1, fun e' he' => (h.snapshot ds hl e he).2 e'
      (Collection.mem_delete.mp he').1⟩
  paths k p hp := by
    obtain ⟨id, hid, hpe, hdoc⟩ := h.paths k p hp
    exact ⟨id, hid, hpe, fun e he => hdoc e (Collection.mem_delete.mp he).1⟩

lemma moved_sound {d : Device} (h : d.Sound U email) {src dst : ℕ}
    (hs : src < d.screen.array.length) (hd : dst < d.screen.array.length) :
    Device.Sound U email { d with screen := { d.screen with
      array := d.screen.array.swap src dst, shown := move src dst d.screen.shown } } where
  consistent := moved_consistent U h.consistent hs hd
  accepted m hm := h.accepted m ((swap_perm _ _ _).mem_iff.mp hm)
  kept := h.kept
  snapshot := h.snapshot
  paths := h.paths

theorem step_sound {d d' : Device} {e : Event} (h : d.Sound U email)
    (hs : d.step U email e = some d') : d'.Sound U email := by
  cases e with
  | snapshot ds =>
    obtain ⟨⟨_, hp⟩, rfl⟩ := (step_snapshot U).mp hs
    exact snapshot_sound h hp
  | reply =>
    have hw : ∀ ds, d.load = .taken ds → ∀ e ∈ ds, WellStored email e :=
      fun ds hl e he => (h.snapshot ds hl e he).1.wellStored
    obtain ⟨ds, hl, rfl⟩ := (step_reply U h.consistent hw).mp hs
    exact loaded_sound h hl
  | add id n t =>
    obtain ⟨⟨hacc, hid⟩, rfl⟩ := (step_add U h.consistent).mp hs
    exact added_sound h hacc hid
  | delete row =>
    obtain ⟨m, path, key, hm, _, _, rfl⟩ := (step_delete U h.consistent).mp hs
    exact removed_sound h (List.getElem?_eq_some_iff.mp hm).1 key
  | move src dst =>
    obtain ⟨⟨hsrc, hdst⟩, rfl⟩ := (step_move U).mp hs
    exact moved_sound h hsrc hdst

lemma sound_reply {d d' : Device} (h : d.Sound U email) :
    d.step U email .reply = some d' ↔ ∃ ds, d.load = .taken ds ∧
      d' = { d with screen := d.screen.loaded U email ds, load := .answered } :=
  step_reply U h.consistent fun ds hl e he => (h.snapshot ds hl e he).1.wellStored

lemma sound_delete {d d' : Device} (h : d.Sound U email) {row : ℕ} :
    d.step U email (.delete row) = some d' ↔ ∃ m id, d.screen.array[row]? = some m ∧
      d.screen.paths (pathKey U m.name m.time) = some (ownPath id) ∧
      d' = { d with screen := d.screen.removed row, db := d.db.delete (documentKey id) } := by
  rw [step_delete U h.consistent]
  constructor
  · rintro ⟨m, path, key, hm, hp, hd, rfl⟩
    obtain ⟨id, _, rfl, _⟩ := h.paths _ path hp
    rw [documentWithPath_ownPath] at hd
    obtain rfl := Except.ok.inj hd
    exact ⟨m, id, hm, hp, rfl⟩
  · rintro ⟨m, id, hm, hp, rfl⟩
    exact ⟨m, _, _, hm, hp, documentWithPath_ownPath id, rfl⟩

variable (U)

lemma listed_added (s : Screen) (id : AutoId) (n t : Text) :
    listed U (s.added U id n t) = pair U ⟨n, t⟩ ::ₘ listed U s := by
  simp only [listed, Screen.added, List.map_append, List.map_singleton]
  exact Multiset.coe_eq_coe.mpr List.perm_append_comm

lemma listed_removed {s : Screen} {row : ℕ} {m : ToDoElementsModel}
    (hm : s.array[row]? = some m) : listed U s = pair U m ::ₘ listed U (s.removed row) := by
  obtain ⟨hlt, rfl⟩ := List.getElem?_eq_some_iff.mp hm
  have hp := (List.getElem_cons_eraseIdx_perm hlt).map (pair U)
  exact (Multiset.coe_eq_coe.mpr hp).symm

lemma listed_moved (s : Screen) (src dst : ℕ) (rows : List ToDoElementsModel) :
    listed U { s with array := s.array.swap src dst, shown := rows } = listed U s :=
  Multiset.coe_eq_coe.mpr ((swap_perm _ _ _).map _)

lemma listed_loaded (s : Screen) (ds : List Entry) :
    listed U (s.loaded U email ds) = listed U s + (ds.filterMap (storedPair U email) : List _) := by
  simp only [listed, loaded_array, List.map_append, List.map_filterMap, ← Multiset.coe_add]
  rfl

variable {U}

lemma stored_added {d : Device} {id : AutoId} {n t : Text} (hid : documentKey id ∉ d.db.keys) :
    stored U email (d.added U email id n t).db = pair U ⟨n, t⟩ ::ₘ stored U email d.db := by
  have hf : ∀ p, storedPair U email ⟨documentKey id, [(email, .strings [n, t, p])]⟩
      = some (pair U ⟨n, t⟩) := fun p => by simp [storedPair, storedModel, storedTask]
  have hmem : (⟨documentKey id, [(email, .strings [n, t, []])]⟩ : Entry) ∈
      (d.db.set (documentKey id) [(email, .strings [n, t, []])]).docs := by simp
  unfold stored Device.added
  rw [Collection.tally_set_same _ hmem (by rw [hf, hf]), Collection.tally_set_fresh _ hid, hf]
  simp [Multiset.add_comm, Multiset.singleton_add]

lemma Device.Sound.fresh_key {d : Device} (h : d.Sound U email) {id : AutoId}
    (hid : id ∉ d.used) : documentKey id ∉ d.db.keys := by
  intro hm
  obtain ⟨e, he, hk⟩ := Collection.mem_keys.mp hm
  obtain ⟨id', hid', hk', _⟩ := h.kept e he
  exact hid (documentKey_injective (hk.symm.trans hk') ▸ hid')

lemma stored_deleted {d : Device} (h : d.Sound U email) {m : ToDoElementsModel} {id : AutoId}
    (hacc : Accepted U m.name m.time)
    (hp : d.screen.paths (pathKey U m.name m.time) = some (ownPath id)) :
    if documentKey id ∈ d.db.keys then
      stored U email d.db = pair U m ::ₘ stored U email (d.db.delete (documentKey id))
    else d.db.delete (documentKey id) = d.db := by
  split
  · rename_i hmem
    obtain ⟨e, he, hk⟩ := Collection.mem_keys.mp hmem
    obtain ⟨id', _, hid', hdoc⟩ := h.paths _ _ hp
    obtain rfl := ownPath_injective hid'
    obtain ⟨m', hm', hkey⟩ := hdoc e he hk
    have hpair := (pair_eq_iff U ((h.kept e he).accepted hm') hacc).mp hkey
    rw [stored, Collection.tally_delete _ he, hk]
    simp [storedPair, hm', hpair, stored]
  · exact Collection.delete_absent ‹_›

end MobileApps.Storyboard

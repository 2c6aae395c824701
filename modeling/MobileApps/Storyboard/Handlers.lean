import MobileApps.Storyboard.ViewController
import MobileApps.Storyboard.AddTask

namespace MobileApps.Storyboard

open Firestore Library.Unicode Library.Decimal Library.DocumentStore Library.Rows

def documentKey (id : AutoId) : ResourcePath := task ++ [id.val]

def ownPath (id : AutoId) : Text := '/' :: id.val

lemma documentKey_injective {id id' : AutoId} (h : documentKey id = documentKey id') :
    id = id' := by
  simpa [documentKey, Subtype.ext_iff] using h

lemma createpath_documentKey (id : AutoId) :
    createpath (canonicalString (documentKey id)) = .ok (ownPath id) := by
  have hc : canonicalString (documentKey id) = "task".toList ++ '/' :: id.val := by
    simp [canonicalString, documentKey, task, List.intercalate, List.intersperse]
  rw [hc]
  rfl

theorem documentWithPath_ownPath (id : AutoId) :
    documentWithPath task (ownPath id) = .ok (documentKey id) :=
  documentWithPath_slash _ id

lemma documentWithPath_nil : documentWithPath task [] = .error .emptyDocumentPath := rfl

structure Screen.Consistent (U : Tables) (s : Screen) : Prop where
  count : parseInt s.tasksCount = some s.array.length
  rows : s.shown.length = s.array.length
  entries : ∀ t ∈ s.array, ∃ path, s.paths (pathKey U t.name t.time) = some path

@[simp] lemma unwrap_some {α : Type} (trap : Trap) (a : α) : unwrap trap (some a) = .ok a := rfl

@[simp] lemma ok_bind {ε α β : Type} (a : α) (f : α → Except ε β) :
    ((Except.ok a : Except ε α) >>= f) = f a := rfl

lemma bind_ok {ε α β : Type} {x : Except ε α} {f : α → Except ε β} {b : β} :
    (x >>= f) = .ok b ↔ ∃ a, x = .ok a ∧ f a = .ok b := by
  cases x with
  | error e => exact ⟨nofun, fun ⟨_, h, _⟩ => nomatch h⟩
  | ok a => exact ⟨fun h => ⟨a, rfl, h⟩, fun ⟨_, ha, h⟩ => Except.ok.inj ha ▸ h⟩

lemma toOption_eq_some {ε α : Type} {x : Except ε α} {a : α} :
    x.toOption = some a ↔ x = .ok a := by
  cases x <;> simp [Except.toOption]

variable (U : Tables)

def savedRequests (email : Email) (id : AutoId) (n t : Text) : List Request :=
  [.addDocument (documentKey id) [(email, .strings [n, t, []])],
    .setData (documentKey id) [(email, .strings [n, t, ownPath id])]]

def Screen.added (s : Screen) (id : AutoId) (n t : Text) : Screen :=
  { s with
    array := s.array ++ [⟨n, t⟩]
    paths := Function.update s.paths (pathKey U n t) (some (ownPath id))
    newTaskName := some n
    newTaskTime := some t
    tasksCount := intText (s.array.length + 1)
    shown := s.array ++ [⟨n, t⟩] }

lemma saveDataInDtabase_eq (email : Email) (id : AutoId) (n t : Text) (s : Screen) :
    saveDataInDtabase U (some email) id n t s =
      .ok ({ s with paths := Function.update s.paths (pathKey U n t) (some (ownPath id)) },
        savedRequests email id n t) := by
  have hp := createpath_documentKey id
  have hd := documentWithPath_ownPath id
  unfold documentKey at hp
  simp only [saveDataInDtabase, unwrap, hp, hd, orTrap, Except.mapError, Except.bind, bind,
    savedRequests, documentKey]

lemma passBackData_eq {s : Screen} (hs : s.Consistent U) (email : Email) (id : AutoId)
    (n t : Text) :
    passBackData U (some email) id n t s =
      .ok (s.added U id n t, savedRequests email id n t) := by
  simp [passBackData, insertRows, numberOfRowsInSection, cellForRowAt, unwrap, hs.rows, bind,
    Except.bind, reloadData, hs.count, saveDataInDtabase_eq, Screen.added]

lemma added_consistent {s : Screen} (hs : s.Consistent U) (id : AutoId) (n t : Text) :
    (s.added U id n t).Consistent U where
  count := by simp [Screen.added, parseInt_intText]
  rows := rfl
  entries := by
    intro m hm
    by_cases hk : pathKey U m.name m.time = pathKey U n t
    · exact ⟨ownPath id, by simp [Screen.added, hk]⟩
    · have hm' : m ∈ s.array := by
        rcases List.mem_append.mp hm with hm | hm
        · exact hm
        · rw [List.mem_singleton] at hm
          exact absurd (by rw [hm]) hk
      obtain ⟨path, hp⟩ := hs.entries m hm'
      exact ⟨path, by simpa [Screen.added, Function.update_of_ne hk] using hp⟩

def Screen.removed (s : Screen) (row : ℕ) : Screen :=
  { s with
    array := s.array.eraseIdx row
    tasksCount := intText (s.array.length - 1)
    shown := s.array.eraseIdx row }

lemma deleteFromDb_eq {s : Screen} {n t path : Text}
    (hp : s.paths (pathKey U n t) = some path) :
    deleteFromDb U n t s =
      (orTrap (documentWithPath task path)).bind fun key => .ok (.delete key) := by
  rw [deleteFromDb, hp]
  rfl

lemma commitDelete_eq {s : Screen} (hs : s.Consistent U) {row : ℕ} {m : ToDoElementsModel}
    (hm : s.array[row]? = some m) :
    ∃ path, s.paths (pathKey U m.name m.time) = some path ∧
      commitDelete U row s = (orTrap (documentWithPath task path)).bind fun key =>
        .ok (s.removed row, [.delete key]) := by
  obtain ⟨hlt, _⟩ := List.getElem?_eq_some_iff.mp hm
  obtain ⟨path, hp⟩ := hs.entries m (List.mem_of_getElem? hm)
  refine ⟨path, hp, ?_⟩
  have hlen : (s.array.eraseIdx row).length + 1 = s.array.length := by
    rw [List.length_eraseIdx_of_lt hlt]
    omega
  rw [commitDelete, hm, unwrap_some, ok_bind, deleteFromDb_eq U hp]
  cases documentWithPath task path with
  | error e => rfl
  | ok key =>
    simp [orTrap, Except.mapError, bind, Except.bind, deleteRows, numberOfRowsInSection, hs.rows,
      hlen, hlt, reloadData, hs.count, Screen.removed]

lemma commitDelete_ok {s : Screen} (hs : s.Consistent U) {row : ℕ} {r : Screen × List Request} :
    commitDelete U row s = .ok r ↔ ∃ m path key, s.array[row]? = some m ∧
      s.paths (pathKey U m.name m.time) = some path ∧ documentWithPath task path = .ok key ∧
      r = (s.removed row, [.delete key]) := by
  constructor
  · intro h
    cases hm : s.array[row]? with
    | none => simp [commitDelete, hm, unwrap, bind, Except.bind] at h
    | some m =>
      obtain ⟨path, hp, he⟩ := commitDelete_eq U hs hm
      cases hd : documentWithPath task path with
      | error e => simp [he, hd, orTrap, Except.mapError, Except.bind] at h
      | ok key =>
        simp only [he, hd, orTrap, Except.mapError, Except.bind, Except.ok.injEq] at h
        exact ⟨m, path, key, rfl, hp, hd, h.symm⟩
  · rintro ⟨m, path, key, hm, hp, hd, rfl⟩
    obtain ⟨path', hp', he⟩ := commitDelete_eq U hs hm
    obtain rfl : path = path' := Option.some.inj (hp.symm.trans hp')
    rw [he, hd]
    rfl

lemma removed_consistent {s : Screen} (hs : s.Consistent U) {row : ℕ}
    (hrow : row < s.array.length) : (s.removed row).Consistent U where
  count := by
    have hlen := List.length_eraseIdx_of_lt hrow
    simp only [Screen.removed, parseInt_intText, hlen]
    congr 1
    omega
  rows := rfl
  entries m hm := hs.entries m (eraseIdx_subset _ _ hm)

lemma moveRowAt_ok {s t : Screen} {src dst : ℕ} :
    moveRowAt src dst s = .ok t ↔ (src < s.array.length ∧ dst < s.array.length) ∧
      t = { s with array := s.array.swap src dst, shown := move src dst s.shown } := by
  unfold moveRowAt
  split <;> simp_all [eq_comm]

lemma moved_consistent {s : Screen} (hs : s.Consistent U) {src dst : ℕ}
    (h : src < s.array.length) (h' : dst < s.array.length) :
    Screen.Consistent U
      { s with array := s.array.swap src dst, shown := move src dst s.shown } where
  count := by simpa using hs.count
  rows := by simp [length_move (hs.rows ▸ h) (hs.rows ▸ h'), hs.rows]
  entries m hm := hs.entries m ((swap_perm _ _ _).mem_iff.mp hm)

def storedTask (email : Email) (d : Entry) : Option (ToDoElementsModel × Text) :=
  match d.data.lookup email with
  | some (.strings [n, t, p]) => some (⟨n, t⟩, p)
  | _ => none

def storedModel (email : Email) (d : Entry) : Option ToDoElementsModel :=
  (storedTask email d).map Prod.fst

def WellStored (email : Email) (d : Entry) : Prop :=
  d.data.lookup email = none ∨ ∃ n t p, d.data.lookup email = some (.strings [n, t, p])

def Screen.loadEntry (email : Email) (s : Screen) (d : Entry) : Screen :=
  match storedTask email d with
  | none => s
  | some (m, p) =>
      { s with
        array := s.array ++ [m]
        paths := Function.update s.paths (pathKey U m.name m.time) (some p)
        shown := s.shown ++ [m] }

lemma insertRows_append {s : Screen} (hs : s.shown.length = s.array.length)
    (m : ToDoElementsModel) :
    insertRows ((s.array ++ [m]).length - 1) { s with array := s.array ++ [m] } =
      .ok { s with array := s.array ++ [m], shown := s.shown ++ [m] } := by
  have hc : (s.array ++ [m])[s.shown.length]? = some m := by simp [hs]
  simp only [insertRows, numberOfRowsInSection, cellForRowAt, List.length_append,
    List.length_singleton, Nat.add_sub_cancel, ← hs, if_true, hc, unwrap_some, ok_bind,
    List.insertIdx_length_self]

lemma insertEntry_eq {s : Screen} (hs : s.shown.length = s.array.length) {email : Email}
    {d : Entry} (hd : WellStored email d) :
    insertEntry U (some email) s d = .ok (s.loadEntry U email d) := by
  rcases hd with hd | ⟨n, t, p, hd⟩
  · simp [insertEntry, unwrap, bind, Except.bind, hd, Screen.loadEntry, storedTask]
  · have hi := insertRows_append hs ⟨n, t⟩
    simp only [insertEntry, unwrap_some, ok_bind, hd, List.getElem?_cons_zero,
      List.getElem?_cons_succ, hi, Screen.loadEntry, storedTask]

lemma loadEntry_rows {s : Screen} (hs : s.shown.length = s.array.length) (email : Email)
    (d : Entry) : (s.loadEntry U email d).shown.length = (s.loadEntry U email d).array.length := by
  unfold Screen.loadEntry
  split <;> simp [hs]

lemma insertEntries_eq {s : Screen} (hs : s.shown.length = s.array.length) {email : Email}
    {ds : List Entry} (hd : ∀ d ∈ ds, WellStored email d) :
    ds.foldlM (insertEntry U (some email)) s = .ok (ds.foldl (Screen.loadEntry U email) s) := by
  induction ds generalizing s with
  | nil => rfl
  | cons d ds ih =>
    rw [List.foldlM_cons, insertEntry_eq U hs (hd d (by simp))]
    exact ih (loadEntry_rows U hs email d) fun e he => hd e (by simp [he])

def Screen.loaded (s : Screen) (email : Email) (ds : List Entry) : Screen :=
  showCount (ds.foldl (Screen.loadEntry U email) s)

lemma loadReply_eq {s : Screen} (hs : s.shown.length = s.array.length) {email : Email}
    {ds : List Entry} (hd : ∀ d ∈ ds, WellStored email d) :
    loadReply U (some email) (.success ds) s = .ok (s.loaded U email ds) := by
  simp only [loadReply, insertEntries_eq U hs hd, bind, Except.bind, Screen.loaded]

lemma loadEntries_array (s : Screen) (email : Email) (ds : List Entry) :
    (ds.foldl (Screen.loadEntry U email) s).array =
      s.array ++ ds.filterMap (storedModel email) := by
  induction ds generalizing s with
  | nil => simp
  | cons d ds ih =>
    rw [List.foldl_cons, ih]
    cases hd : storedTask email d <;> simp [Screen.loadEntry, storedModel, hd]

@[simp] lemma loaded_array (s : Screen) (email : Email) (ds : List Entry) :
    (s.loaded U email ds).array = s.array ++ ds.filterMap (storedModel email) :=
  loadEntries_array U s email ds

lemma loaded_paths (s : Screen) (email : Email) (ds : List Entry) (k : Text) :
    (∃ d ∈ ds, ∃ m p, storedTask email d = some (m, p) ∧ pathKey U m.name m.time = k ∧
      (s.loaded U email ds).paths k = some p) ∨
    ((∀ d ∈ ds, ∀ m p, storedTask email d = some (m, p) → pathKey U m.name m.time ≠ k) ∧
      (s.loaded U email ds).paths k = s.paths k) := by
  change _ ∨ (_ ∧ (ds.foldl (Screen.loadEntry U email) s).paths k = s.paths k)
  change (∃ d ∈ ds, ∃ m p, _ ∧ _ ∧ (ds.foldl (Screen.loadEntry U email) s).paths k = some p) ∨ _
  induction ds generalizing s with
  | nil => simp
  | cons d ds ih =>
    rw [List.foldl_cons]
    rcases ih (s.loadEntry U email d) with ⟨e, he, m, p, hs, hk, hp⟩ | ⟨hnone, hp⟩
    · exact Or.inl ⟨e, by simp [he], m, p, hs, hk, hp⟩
    · cases hd : storedTask email d with
      | none =>
        right
        refine ⟨?_, by rw [hp, Screen.loadEntry, hd]⟩
        intro e he m p hs
        rcases List.mem_cons.mp he with rfl | he
        · simp [hd] at hs
        · exact hnone e he m p hs
      | some mp =>
        obtain ⟨m, p⟩ := mp
        rw [Screen.loadEntry, hd] at hp
        by_cases hk : pathKey U m.name m.time = k
        · left
          exact ⟨d, by simp, m, p, hd, hk, by rw [Screen.loadEntry, hd, hp]; simp [hk]⟩
        · right
          refine ⟨?_, by rw [Screen.loadEntry, hd, hp]; simp [Function.update_of_ne (Ne.symm hk)]⟩
          intro e he m' p' hs
          rcases List.mem_cons.mp he with rfl | he
          · rw [hd] at hs
            obtain ⟨rfl, rfl⟩ := Prod.mk.inj (Option.some.inj hs)
            exact hk
          · exact hnone e he m' p' hs

lemma loaded_consistent {s : Screen} (hs : s.Consistent U) (email : Email) (ds : List Entry) :
    (s.loaded U email ds).Consistent U where
  count := by simp [Screen.loaded, showCount, reloadData, parseInt_intText]
  rows := rfl
  entries := by
    intro m hm
    rcases loaded_paths U s email ds (pathKey U m.name m.time) with
      ⟨_, _, _, p, _, _, hp⟩ | ⟨hnone, hp⟩
    · exact ⟨p, hp⟩
    · rw [loaded_array] at hm
      rcases List.mem_append.mp hm with hm | hm
      · rw [hp]
        exact hs.entries m hm
      · obtain ⟨d, hd, hdm⟩ := List.mem_filterMap.mp hm
        obtain ⟨⟨m', p⟩, hst, rfl⟩ := Option.map_eq_some_iff.mp hdm
        exact absurd rfl (hnone d hd m' p hst)

lemma viewDidLoad_consistent : viewDidLoad.Consistent U where
  count := rfl
  rows := rfl
  entries := by simp [viewDidLoad, loadTasks]

end MobileApps.Storyboard

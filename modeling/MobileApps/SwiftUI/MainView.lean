import MobileApps.Firestore.Paths
import MobileApps.Library.DocumentStore
import MobileApps.Library.Rows
import MobileApps.Library.Runs

/-! `MainView.swift` with the functions of `DBCore.swift` and `Helper.swift` that it calls: the
list, its rows on the screen, the signed-in user's collection and the requests on their way. -/

namespace MobileApps.SwiftUI

open Firestore Library.Unicode Library.DocumentStore Library.Rows Library.Runs

structure TaskFields where
  taskName : Text
  taskTime : Text
  deriving DecidableEq

structure Tasks where
  fields : TaskFields
  hide : Bool := false
  id : ℕ
  deriving DecidableEq

def Tasks.toggled (t : Tasks) : Tasks := { t with hide := !t.hide }

abbrev UserCollection := Collection AutoId TaskFields
abbrev TaskDocument := Document AutoId TaskFields

inductive Fetch
  | requested
  | taken (documents : List TaskDocument)
  deriving DecidableEq

structure Query where
  row : Tasks
  fetch : Fetch := .requested
  deriving DecidableEq

/-- `addViews` are the text fields of every `AddView` presented so far; `loads`, `saves` and
`queries` are the requests whose completion is still to be called, a save being known by its
`AddView`. -/
structure MainView where
  Alltasks : List Tasks := []
  visible : List Tasks := []
  addViews : List TaskFields := []
  db : UserCollection
  used : List AutoId
  loads : List Fetch := []
  saves : List ℕ := []
  queries : List Query := []
  nextId : ℕ := 0

/-- A press of Save and the completion of a save are labelled with what the text fields of their
`AddView` hold at that moment, a failed query with the name that the binding of its row reads: the
row's element need not be in the list any more, and reading a binding without one traps. -/
inductive ViewEvent
  | onAppear
  | snapshot (load : ℕ) (documents : List TaskDocument)
  | loaded (load : ℕ)
  | loadFailed (load : ℕ)
  | addView
  | edit (view : ℕ) (fields : TaskFields)
  | save (view : ℕ) (id : AutoId) (fields : TaskFields)
  | saved (save : ℕ) (fields : TaskFields)
  | toggle (row : ℕ)
  | move (src dst : ℕ)
  | rowAppear (row : ℕ)
  | rowDisappear (i : ℕ)
  | swipe (row : ℕ)
  | querySnapshot (query : ℕ) (documents : List TaskDocument)
  | queried (query : ℕ)
  | queryFailed (query : ℕ) (taskName : Option Text)
  deriving DecidableEq

def validateTask (name time : Text) : Bool := name != [] && time != []

namespace MainView

def created (db : UserCollection) : MainView := { db := db, used := db.keys }

def append (s : MainView) (values : List TaskFields) : MainView :=
  { s with
    Alltasks := s.Alltasks ++ values.zipIdx.map fun v => { fields := v.1, id := s.nextId + v.2 }
    nextId := s.nextId + values.length }

def found (s : MainView) (f : TaskFields) : List TaskDocument := s.db.docs.filter (·.data = f)

/-- A row that leaves the screen starts its query whether or not its element is still in the
list. -/
def step (s : MainView) : ViewEvent → Option MainView
  | .onAppear => some { s with loads := s.loads ++ [.requested] }
  | .snapshot i documents =>
      if s.loads[i]? = some .requested ∧ documents.Perm s.db.docs then
        some { s with loads := s.loads.set i (.taken documents) }
      else none
  | .loaded i =>
      match s.loads[i]? with
      | some (.taken documents) =>
          some ({ s with loads := s.loads.eraseIdx i }.append (documents.map Document.data))
      | _ => none
  | .loadFailed i =>
      if i < s.loads.length then some { s with loads := s.loads.eraseIdx i } else none
  | .addView => some { s with addViews := s.addViews ++ [⟨[], []⟩] }
  | .edit v fields =>
      if v < s.addViews.length then some { s with addViews := s.addViews.set v fields } else none
  | .save v id fields =>
      if s.addViews[v]? = some fields ∧ validateTask fields.taskName fields.taskTime ∧
          id ∉ s.used then
        some { s with db := s.db.set id fields, used := id :: s.used, saves := s.saves ++ [v] }
      else none
  | .saved i fields =>
      if s.saves[i]?.bind (s.addViews[·]?) = some fields then
        some ({ s with saves := s.saves.eraseIdx i }.append [fields])
      else none
  | .toggle row => s.Alltasks[row]?.map fun t => { s with
      Alltasks := s.Alltasks.set row t.toggled
      visible := s.visible.map fun v => if v.id = t.id then t.toggled else v }
  | .move src dst =>
      if src < s.Alltasks.length ∧ dst < s.Alltasks.length then
        some { s with Alltasks := Library.Rows.move src dst s.Alltasks }
      else none
  | .rowAppear row =>
      s.Alltasks[row]?.bind fun t =>
        if t ∉ s.visible then some { s with visible := s.visible ++ [t] } else none
  | .rowDisappear i => s.visible[i]?.map fun t =>
      { s with visible := s.visible.eraseIdx i, queries := s.queries ++ [{ row := t }] }
  | .swipe row =>
      if row < s.Alltasks.length then some { s with Alltasks := s.Alltasks.eraseIdx row } else none
  | .querySnapshot i documents => s.queries[i]?.bind fun q =>
      if q.fetch = .requested ∧ documents.Perm (s.found q.row.fields) then
        some { s with queries := s.queries.set i { q with fetch := .taken documents } }
      else none
  | .queried i => s.queries[i]?.bind fun q =>
      match q.fetch with
      | .requested => none
      | .taken documents => some { s with
          db := s.db.deleteAll (documents.map Document.key)
          queries := s.queries.eraseIdx i }
  | .queryFailed i taskName => s.queries[i]?.bind fun q => taskName.map fun taskName =>
      { s with queries := s.queries.eraseIdx i }.append [⟨taskName, q.row.fields.taskTime⟩]

variable {s t : MainView}

inductive Steps (s : MainView) : ViewEvent → MainView → Prop
  | onAppear : Steps s .onAppear { s with loads := s.loads ++ [.requested] }
  | snapshot {i documents} (hl : s.loads[i]? = some .requested) (hp : documents.Perm s.db.docs) :
      Steps s (.snapshot i documents) { s with loads := s.loads.set i (.taken documents) }
  | loaded {i documents} (hl : s.loads[i]? = some (.taken documents)) :
      Steps s (.loaded i)
        ({ s with loads := s.loads.eraseIdx i }.append (documents.map Document.data))
  | loadFailed {i} (hi : i < s.loads.length) :
      Steps s (.loadFailed i) { s with loads := s.loads.eraseIdx i }
  | addView : Steps s .addView { s with addViews := s.addViews ++ [⟨[], []⟩] }
  | edit {v fields} (hv : v < s.addViews.length) :
      Steps s (.edit v fields) { s with addViews := s.addViews.set v fields }
  | save {v id fields} (hf : s.addViews[v]? = some fields)
      (hv : validateTask fields.taskName fields.taskTime) (hid : id ∉ s.used) :
      Steps s (.save v id fields)
        { s with db := s.db.set id fields, used := id :: s.used, saves := s.saves ++ [v] }
  | saved {i v fields} (hi : s.saves[i]? = some v) (hf : s.addViews[v]? = some fields) :
      Steps s (.saved i fields) ({ s with saves := s.saves.eraseIdx i }.append [fields])
  | toggle {row r} (hr : s.Alltasks[row]? = some r) :
      Steps s (.toggle row) { s with
        Alltasks := s.Alltasks.set row r.toggled
        visible := s.visible.map fun v => if v.id = r.id then r.toggled else v }
  | move {src dst} (hs : src < s.Alltasks.length) (hd : dst < s.Alltasks.length) :
      Steps s (.move src dst) { s with Alltasks := Library.Rows.move src dst s.Alltasks }
  | rowAppear {row r} (hr : s.Alltasks[row]? = some r) (hn : r ∉ s.visible) :
      Steps s (.rowAppear row) { s with visible := s.visible ++ [r] }
  | rowDisappear {i r} (hr : s.visible[i]? = some r) :
      Steps s (.rowDisappear i)
        { s with visible := s.visible.eraseIdx i, queries := s.queries ++ [{ row := r }] }
  | swipe {row} (hr : row < s.Alltasks.length) :
      Steps s (.swipe row) { s with Alltasks := s.Alltasks.eraseIdx row }
  | querySnapshot {i row documents} (hq : s.queries[i]? = some ⟨row, .requested⟩)
      (hp : documents.Perm (s.found row.fields)) :
      Steps s (.querySnapshot i documents)
        { s with queries := s.queries.set i ⟨row, .taken documents⟩ }
  | queried {i row documents} (hq : s.queries[i]? = some ⟨row, .taken documents⟩) :
      Steps s (.queried i) { s with
        db := s.db.deleteAll (documents.map Document.key)
        queries := s.queries.eraseIdx i }
  | queryFailed {i q name} (hq : s.queries[i]? = some q) :
      Steps s (.queryFailed i (some name))
        ({ s with queries := s.queries.eraseIdx i }.append [⟨name, q.row.fields.taskTime⟩])

lemma step_iff {e : ViewEvent} : s.step e = some t ↔ Steps s e t := by
  constructor
  · intro h
    cases e with
    | onAppear =>
      obtain rfl := Option.some.inj h
      exact .onAppear
    | snapshot =>
      obtain ⟨⟨hl, hp⟩, rfl⟩ := guarded_some.mp h
      exact .snapshot hl hp
    | loaded =>
      simp only [step] at h
      split at h
      · obtain rfl := Option.some.inj h
        exact .loaded ‹_›
      · cases h
    | loadFailed =>
      obtain ⟨hi, rfl⟩ := guarded_some.mp h
      exact .loadFailed hi
    | addView =>
      obtain rfl := Option.some.inj h
      exact .addView
    | edit =>
      obtain ⟨hv, rfl⟩ := guarded_some.mp h
      exact .edit hv
    | save =>
      obtain ⟨⟨hf, hv, hid⟩, rfl⟩ := guarded_some.mp h
      exact .save hf hv hid
    | saved =>
      obtain ⟨hf, rfl⟩ := guarded_some.mp h
      obtain ⟨v, hi, hf⟩ := Option.bind_eq_some_iff.mp hf
      exact .saved hi hf
    | toggle =>
      obtain ⟨r, hr, rfl⟩ := Option.map_eq_some_iff.mp h
      exact .toggle hr
    | move =>
      obtain ⟨⟨hs, hd⟩, rfl⟩ := guarded_some.mp h
      exact .move hs hd
    | rowAppear =>
      obtain ⟨r, hr, h⟩ := Option.bind_eq_some_iff.mp h
      obtain ⟨hn, rfl⟩ := guarded_some.mp h
      exact .rowAppear hr hn
    | rowDisappear =>
      obtain ⟨r, hr, rfl⟩ := Option.map_eq_some_iff.mp h
      exact .rowDisappear hr
    | swipe =>
      obtain ⟨hr, rfl⟩ := guarded_some.mp h
      exact .swipe hr
    | querySnapshot =>
      obtain ⟨⟨row, fetch⟩, hq, h⟩ := Option.bind_eq_some_iff.mp h
      obtain ⟨⟨rfl, hp⟩, rfl⟩ := guarded_some.mp h
      exact .querySnapshot hq hp
    | queried =>
      obtain ⟨⟨row, fetch⟩, hq, h⟩ := Option.bind_eq_some_iff.mp h
      cases fetch with
      | requested => cases h
      | taken documents =>
        obtain rfl := Option.some.inj h
        exact .queried hq
    | queryFailed =>
      obtain ⟨q, hq, h⟩ := Option.bind_eq_some_iff.mp h
      obtain ⟨name, rfl, rfl⟩ := Option.map_eq_some_iff.mp h
      exact .queryFailed hq
  · intro h
    cases h <;> simp [step, *]

lemma step_db {e : ViewEvent} (hs : s.step e = some t) :
    (t.db = s.db ∧ t.used = s.used) ∨
    (∃ v id fields, e = .save v id fields ∧ id ∉ s.used ∧ t.db = s.db.set id fields ∧
      t.used = id :: s.used) ∨
    (∃ i row documents, e = .queried i ∧ s.queries[i]? = some ⟨row, .taken documents⟩ ∧
      t.db = s.db.deleteAll (documents.map Document.key) ∧ t.used = s.used) := by
  cases step_iff.mp hs with
  | save _ _ hid => exact Or.inr (Or.inl ⟨_, _, _, rfl, hid, rfl, rfl⟩)
  | queried hq => exact Or.inr (Or.inr ⟨_, _, _, rfl, hq, rfl, rfl⟩)
  | _ => exact Or.inl ⟨rfl, rfl⟩

def Fresh (s : MainView) : Prop := ∀ k ∈ s.db.keys, k ∈ s.used

lemma fresh_step {e : ViewEvent} (h : s.Fresh) (hs : s.step e = some t) : t.Fresh := by
  intro k hk
  obtain ⟨d, hd, rfl⟩ := Collection.mem_keys.mp hk
  have hold : d ∈ s.db.docs → d.key ∈ s.used := fun hd => h _ (Collection.mem_keys.mpr ⟨d, hd, rfl⟩)
  rcases step_db hs with ⟨hdb, hu⟩ | ⟨v, id, fields, _, _, hdb, hu⟩ | ⟨i, row, ds, _, _, hdb, hu⟩
  · exact hu ▸ hold (hdb ▸ hd)
  · rw [hu]
    rw [hdb] at hd
    rcases Collection.mem_set.mp hd with ⟨hd, _⟩ | rfl
    · exact List.mem_cons_of_mem id (hold hd)
    · exact List.mem_cons_self
  · rw [hu]
    rw [hdb] at hd
    exact hold (Collection.mem_deleteAll.mp hd).1

end MainView

end MobileApps.SwiftUI

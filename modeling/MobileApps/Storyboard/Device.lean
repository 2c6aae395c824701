import MobileApps.Storyboard.Handlers
import MobileApps.Storyboard.TimeOfDay
import MobileApps.Library.Runs

/-! One signed-in user on one device: the task screen, the collection as the device reads it (its
own accepted writes included) and the request that `viewDidLoad` issues. -/

namespace MobileApps.Storyboard

open Firestore Library.Unicode Library.DocumentStore Library.Rows Library.Runs

inductive Load
  | requested
  | taken (documents : List Entry)
  | answered
  deriving DecidableEq

structure Device where
  screen : Screen
  db : TaskCollection
  used : List AutoId
  load : Load

def Device.opened (db : TaskCollection) (used : List AutoId) : Device :=
  ⟨viewDidLoad, db, used, .requested⟩

inductive Event
  | snapshot (documents : List Entry)
  | reply
  | add (id : AutoId) (name time : Text)
  | delete (row : ℕ)
  | move (src dst : ℕ)

variable (U : Tables)

def Device.perform (d : Device) : Screen × List Request → Device
  -- every write is accepted, and applied in the order issued
  | (s, requests) => { d with screen := s, db := d.db.applyAll (requests.map Request.write) }

def Device.step (email : Email) (d : Device) : Event → Option Device
  | .snapshot documents =>
      if d.load = .requested ∧ documents.Perm d.db.docs then
        some { d with load := .taken documents }
      else none
  | .reply =>
      match d.load with
      | .taken documents =>
          (loadReply U (some email) (.success documents) d.screen).toOption.map fun s =>
            { d with screen := s, load := .answered }
      | _ => none
  | .add id name time =>
      if Accepted U name time ∧ id ∉ d.used then
        (passBackData U (some email) id name time d.screen).toOption.map fun r =>
          { d.perform r with used := id :: d.used }
      else none
  | .delete row => (commitDelete U row d.screen).toOption.map d.perform
  | .move src dst => (moveRowAt src dst d.screen).toOption.map fun s => { d with screen := s }

/-! ### What is compared: pairs of strings, up to the equality of strings -/

def pair (m : ToDoElementsModel) : Text × Text := (U.nfd m.name, U.nfd m.time)

def listed (s : Screen) : Multiset (Text × Text) := (s.array.map (pair U) : List (Text × Text))

def storedPair (email : Email) (e : Entry) : Option (Text × Text) :=
  (storedModel email e).map (pair U)

def stored (email : Email) (db : TaskCollection) : Multiset (Text × Text) :=
  db.tally (storedPair U email)

def Agrees (email : Email) (d : Device) : Prop := listed U d.screen = stored U email d.db

instance (email : Email) (d : Device) : Decidable (Agrees U email d) :=
  inferInstanceAs (Decidable (_ = _))

/-- The user's documents are as the app leaves them: accepted tasks with their own path. -/
def Kept (email : Email) (used : List AutoId) (db : TaskCollection) : Prop :=
  ∀ e ∈ db.docs, ∃ id ∈ used, e.key = documentKey id ∧
    (e.data.lookup email = none ∨
      ∃ n t, Accepted U n t ∧ e.data.lookup email = some (.strings [n, t, ownPath id]))

lemma timeKey_injective {n t n' t' : Text} (ht : checkDate U t) (ht' : checkDate U t')
    (hk : pathKey U n t = pathKey U n' t') : U.same n n' ∧ U.same t t' := by
  obtain ⟨d, b, rfl, hd, hc⟩ := checkDate_shape U ht
  obtain ⟨d', b', rfl, hd', hc'⟩ := checkDate_shape U ht'
  exact comma_split U hd hd' hc hc' hk

theorem pathKey_injective {n t n' t' : Text} (h : Accepted U n t) (h' : Accepted U n' t')
    (hk : pathKey U n t = pathKey U n' t') : U.same n n' ∧ U.same t t' :=
  timeKey_injective U ((accepted_iff U).mp h).2.2 ((accepted_iff U).mp h').2.2 hk

lemma pair_eq_iff {m m' : ToDoElementsModel} (h : Accepted U m.name m.time)
    (h' : Accepted U m'.name m'.time) :
    pathKey U m.name m.time = pathKey U m'.name m'.time ↔ pair U m = pair U m' := by
  constructor
  · intro hk
    obtain ⟨hn, ht⟩ := pathKey_injective U h h' hk
    exact Prod.ext hn ht
  · intro hp
    obtain ⟨hn, ht⟩ := Prod.mk.inj hp
    unfold pathKey createString
    rw [nfd_append U plain_comma, nfd_append U plain_comma, hn, ht]

def Device.added (d : Device) (email : Email) (id : AutoId) (n t : Text) : Device where
  screen := d.screen.added U id n t
  db := (d.db.set (documentKey id) [(email, .strings [n, t, []])]).set (documentKey id)
    [(email, .strings [n, t, ownPath id])]
  used := id :: d.used
  load := d.load

lemma step_snapshot {email : Email} {d d' : Device} {documents : List Entry} :
    d.step U email (.snapshot documents) = some d' ↔
      (d.load = .requested ∧ documents.Perm d.db.docs) ∧
        d' = { d with load := .taken documents } :=
  guarded_some

lemma step_reply {email : Email} {d d' : Device} (hs : d.screen.Consistent U)
    (hw : ∀ documents, d.load = .taken documents → ∀ e ∈ documents, WellStored email e) :
    d.step U email .reply = some d' ↔ ∃ documents, d.load = .taken documents ∧
      d' = { d with screen := d.screen.loaded U email documents, load := .answered } := by
  cases hl : d.load with
  | requested => simp [Device.step, hl]
  | answered => simp [Device.step, hl]
  | taken documents =>
    simp [Device.step, hl, loadReply_eq U hs.rows (hw documents hl), Except.toOption, eq_comm]

lemma step_add {email : Email} {d d' : Device} (hs : d.screen.Consistent U) {id : AutoId}
    {n t : Text} :
    d.step U email (.add id n t) = some d' ↔
      (Accepted U n t ∧ id ∉ d.used) ∧ d' = d.added U email id n t := by
  simp only [Device.step, passBackData_eq U hs]
  exact guarded_some

lemma step_delete {email : Email} {d d' : Device} (hs : d.screen.Consistent U) {row : ℕ} :
    d.step U email (.delete row) = some d' ↔ ∃ m path key, d.screen.array[row]? = some m ∧
      d.screen.paths (pathKey U m.name m.time) = some path ∧
      documentWithPath task path = .ok key ∧
      d' = { d with screen := d.screen.removed row, db := d.db.delete key } := by
  simp only [Device.step, Option.map_eq_some_iff, toOption_eq_some, commitDelete_ok U hs]
  constructor
  · rintro ⟨_, ⟨m, path, key, hm, hp, hd, rfl⟩, rfl⟩
    exact ⟨m, path, key, hm, hp, hd, rfl⟩
  · rintro ⟨m, path, key, hm, hp, hd, rfl⟩
    exact ⟨_, ⟨m, path, key, hm, hp, hd, rfl⟩, rfl⟩

lemma step_move {email : Email} {d d' : Device} {src dst : ℕ} :
    d.step U email (.move src dst) = some d' ↔
      (src < d.screen.array.length ∧ dst < d.screen.array.length) ∧
      d' = { d with screen := { d.screen with
        array := d.screen.array.swap src dst, shown := move src dst d.screen.shown } } := by
  simp only [Device.step, Option.map_eq_some_iff, toOption_eq_some, moveRowAt_ok]
  constructor
  · rintro ⟨_, ⟨h, rfl⟩, rfl⟩
    exact ⟨h, rfl⟩
  · rintro ⟨h, rfl⟩
    exact ⟨_, ⟨h, rfl⟩, rfl⟩

def someMail : Email := "a@x.io".toList
def otherMail : Email := "b@x.io".toList
def ten : Text := "10:00".toList

def someEntry (id : AutoId) (n : Text) : Entry :=
  ⟨documentKey id, [(someMail, .strings [n, ten, ownPath id])]⟩

def oneTask : TaskCollection := ⟨[someEntry idA "run".toList], by decide⟩

lemma oneTask_kept : Kept .ascii someMail [idA] oneTask := by
  intro e he
  obtain rfl := List.mem_singleton.mp he
  exact ⟨idA, by simp, rfl, Or.inr ⟨"run".toList, ten, by decide, by decide⟩⟩

end MobileApps.Storyboard

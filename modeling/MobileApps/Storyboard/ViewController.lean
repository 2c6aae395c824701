import MobileApps.Firestore.Paths
import MobileApps.Library.Canonical
import MobileApps.Library.Decimal
import MobileApps.Library.DocumentStore
import MobileApps.Library.Rows
import Mathlib.Logic.Function.Basic
import Mathlib.Data.List.Basic

/-! `ViewController.swift`, the task screen: its handlers as functions of its fields, of what its
table shows and of the signed-in user, returning the writes they send to Firestore. -/

namespace MobileApps.Storyboard

open Firestore Library.Unicode Library.Decimal Library.DocumentStore Library.Rows

abbrev Email := Text

structure ToDoElementsModel where
  name : Text
  time : Text
  deriving DecidableEq

/-- A field of a document: `as! [String]` succeeds on `strings` only. -/
inductive FieldValue
  | strings (values : List Text)
  | other
  deriving DecidableEq

abbrev Fields := List (Email × FieldValue)
abbrev Entry := Document ResourcePath Fields
abbrev TaskCollection := Collection ResourcePath Fields

inductive Request
  | addDocument (key : ResourcePath) (data : Fields)
  | setData (key : ResourcePath) (data : Fields)
  | delete (key : ResourcePath)
  deriving DecidableEq

def Request.write : Request → Write ResourcePath Fields
  | addDocument key data | setData key data => .set key data
  | delete key => .delete key

inductive Trap
  | emailMissing
  | wrongCast
  | indexOutOfRange
  | countNotInteger
  | pathMissing
  | noSlash
  | rowsInconsistent
  | invalidArgument (error : InvalidArgument)
  deriving DecidableEq

/-- The screen. `paths` is indexed by the canonical form of its keys, because equal strings are
equal keys; `shown` is what the table displays, row by row. -/
structure Screen where
  array : List ToDoElementsModel := []
  paths : Text → Option Text := fun _ => none
  newTaskName : Option Text := none
  newTaskTime : Option Text := none
  tasksCount : Text := ['0']
  shown : List ToDoElementsModel := []
  alert : Option String := none
  popped : Bool := false

def unwrap {α : Type} (trap : Trap) : Option α → Except Trap α
  | some a => .ok a
  | none => .error trap

def orTrap {α : Type} : Except InvalidArgument α → Except Trap α :=
  Except.mapError Trap.invalidArgument

def task : ResourcePath := ["task".toList]

def createpath (path : Text) : Except Trap Text :=
  match path.dropWhile (· ≠ '/') with
  | [] => .error .noSlash
  | str => .ok str

def createString (n t : Text) : Text := n ++ ',' :: t

variable (U : Tables)

def pathKey (n t : Text) : Text := U.nfd (createString n t)

/-! ### The table view -/

def cellForRowAt (row : ℕ) (s : Screen) : Except Trap ToDoElementsModel :=
  unwrap .indexOutOfRange s.array[row]?

def numberOfRowsInSection (s : Screen) : ℕ := s.array.length

def insertRows (row : ℕ) (s : Screen) : Except Trap Screen :=
  -- UIKit asserts that the data source has one row more than the table
  if numberOfRowsInSection s = s.shown.length + 1 then do
    let cell ← cellForRowAt row s
    .ok { s with shown := s.shown.insertIdx row cell }
  else .error .rowsInconsistent

def deleteRows (row : ℕ) (s : Screen) : Except Trap Screen :=
  if numberOfRowsInSection s + 1 = s.shown.length ∧ row < s.shown.length then
    .ok { s with shown := s.shown.eraseIdx row }
  else .error .rowsInconsistent

def reloadData (s : Screen) : Screen := { s with shown := s.array }

def saveDataInDtabase (email : Option Email) (id : AutoId) (Name Time : Text) (s : Screen) :
    Except Trap (Screen × List Request) := do
  let email ← unwrap .emailMissing email
  let a := task ++ [id.val]
  let path ← createpath (canonicalString a)
  let key ← orTrap (documentWithPath task path)
  .ok ({ s with paths := Function.update s.paths (pathKey U Name Time) (some path) },
    [.addDocument a [(email, .strings [Name, Time, []])],
      .setData key [(email, .strings [Name, Time, path])]])

def storingFailed (s : Screen) : Screen :=
  { s with alert := some "Error with database storing", popped := true }

def deleteFromDb (name time : Text) (s : Screen) : Except Trap Request := do
  let path ← unwrap .pathMissing (s.paths (pathKey U name time))
  let key ← orTrap (documentWithPath task path)
  .ok (.delete key)

def loadTasks (s : Screen) : Screen := { s with array := [] }

def viewDidLoad : Screen := loadTasks {}

inductive Reply
  | failure
  | success (documents : List Entry)

def insertEntry (email : Option Email) (s : Screen) (entry : Entry) : Except Trap Screen := do
  let email ← unwrap .emailMissing email
  match entry.data.lookup email with
  | none => .ok s
  | some .other => .error .wrongCast
  | some (.strings task) => do
    let name ← unwrap .indexOutOfRange task[0]?
    let time ← unwrap .indexOutOfRange task[1]?
    let s := { s with array := s.array ++ [⟨name, time⟩] }
    let s ← insertRows (s.array.length - 1) s
    let path ← unwrap .indexOutOfRange task[2]?
    .ok { s with paths := Function.update s.paths (pathKey U name time) (some path) }

def showCount (s : Screen) : Screen :=
  { reloadData s with tasksCount := intText s.array.length }

def loadReply (email : Option Email) : Reply → Screen → Except Trap Screen
  | .failure, s => .ok (showCount { s with alert := some "Error with database fetch" })
  | .success documents, s => do
    let s ← documents.foldlM (insertEntry U email) s
    .ok (showCount s)

def passBackData (email : Option Email) (id : AutoId) (taskName taskTime : Text) (s : Screen) :
    Except Trap (Screen × List Request) := do
  let s := { s with newTaskName := some taskName, newTaskTime := some taskTime }
  let s := { s with array := s.array ++ [⟨taskName, taskTime⟩] }
  let s ← insertRows (s.array.length - 1) s
  let s := reloadData s
  let count ← unwrap .countNotInteger (parseInt s.tasksCount)
  let s := { s with tasksCount := intText (count + 1) }
  saveDataInDtabase U email id taskName taskTime s

def commitDelete (row : ℕ) (s : Screen) : Except Trap (Screen × List Request) := do
  let t ← unwrap .indexOutOfRange s.array[row]?
  let request ← deleteFromDb U t.name t.time s
  let s := { s with array := s.array.eraseIdx row }
  let s ← deleteRows row s
  let s := reloadData s
  let count ← unwrap .countNotInteger (parseInt s.tasksCount)
  .ok ({ s with tasksCount := intText (count - 1) }, [request])

def moveRowAt (src dst : ℕ) (s : Screen) : Except Trap Screen :=
  -- the table has moved its own row, the handler exchanges two elements
  if src < s.array.length ∧ dst < s.array.length then
    .ok { s with array := s.array.swap src dst, shown := move src dst s.shown }
  else .error .indexOutOfRange

end MobileApps.Storyboard

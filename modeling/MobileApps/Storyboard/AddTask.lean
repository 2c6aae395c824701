import MobileApps.Library.Canonical
import MobileApps.Storyboard.Helper

/-! `AddTaskViewController.swift`: what the save button lets through. -/

namespace MobileApps.Storyboard

open RegularExpression
open Library.Unicode Library.Regex

inductive Field
  | taskField | timeField
  deriving DecidableEq

inductive SaveAction
  | warn (field : Field) (placeholder : String)
  | alert (message : String)
  | passBackData (taskName taskTime : Text)
  deriving DecidableEq

def hourPattern : RegularExpression ℕ :=
  optional (oneOf (unitsOf "01")) * oneOf (unitsOf "0123456789")
    + char (unit '2') * oneOf (unitsOf "0123")

/-- `([0-1]?[0-9]|2[0-3]):[0-5][0-9]`; ignoring case changes nothing for its characters. -/
def datePattern : RegularExpression ℕ :=
  hourPattern * (char (unit ':') * (oneOf (unitsOf "012345") * oneOf (unitsOf "0123456789")))

variable (U : Tables)

def checkDate (text : Text) : Bool :=
  -- the range searched has as many code units as the text has clusters
  anchored datePattern ((utf16 text).take (U.count text))

def save (taskField timeField : Text) : SaveAction :=
  if taskField = [] then .warn .taskField "Can not be empty"
  else if timeField = [] then .warn .timeField "Can not be empty"
  else if !checkDate U timeField then .alert "Invalid date enter in format [HH:MM]"
  else .passBackData taskField timeField

def Accepted (taskName taskTime : Text) : Prop :=
  save U taskName taskTime = .passBackData taskName taskTime

instance (taskName taskTime : Text) : Decidable (Accepted U taskName taskTime) :=
  inferInstanceAs (Decidable (_ = _))

lemma accepted_iff {taskName taskTime : Text} :
    Accepted U taskName taskTime ↔ taskName ≠ [] ∧ taskTime ≠ [] ∧ checkDate U taskTime := by
  unfold Accepted save
  split_ifs <;> simp_all

end MobileApps.Storyboard

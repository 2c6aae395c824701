import MobileApps.Storyboard.Helper

/-! `Helper.swift`: the checks of the sign-up and login screens. The expressions are those of the
storyboard app, letter for letter. -/

namespace MobileApps.SwiftUI

open Library.Unicode

def isvalidEmail (enteredEmail : Text) : Bool := Storyboard.emailFormat.rmatch (utf16 enteredEmail)

def isValidPassword (enteredPassword : Text) : Bool :=
  Storyboard.passwordRegex.matchesWhole enteredPassword

def validateInput (email password : Text) (checked : Bool) : String × Bool :=
  if !checked then ("Please accept licences and agreement", true)
  else if !isvalidEmail email then ("Invalid email", true)
  else if !isValidPassword password then ("Invalid password", true)
  else ("", false)

def validateInputLogin (email password : Text) : Bool :=
  if !isvalidEmail email then false
  else if !isValidPassword password then false
  else true

lemma validateInput_code (email password : Text) (checked : Bool) :
    (validateInput email password checked).2 = false ↔
      isvalidEmail email ∧ isValidPassword password ∧ checked := by
  simp only [validateInput]
  split_ifs <;> simp_all

end MobileApps.SwiftUI

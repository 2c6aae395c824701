import MobileApps.Storyboard.Login

/-! `SignupViewController.swift` up to the request that its sign-up button sends. -/

namespace MobileApps.Storyboard

open Library.Unicode

structure SignupViewController where
  accepted : Bool := false
  emailField : Text := []
  passwordField : Text := []
  loading : Bool := false

inductive SignupAction
  | warn (field : LoginField) (placeholder : String)
  | alert (message : String)
  | createUser (email password : Text)
  deriving DecidableEq

def SignupAction.request : SignupAction → Option (Text × Text)
  | .createUser email password => some (email, password)
  | .warn .. | .alert _ => none

namespace SignupViewController

def signUp (c : SignupViewController) : SignupViewController × SignupAction :=
  if c.emailField = [] then (c, .warn .emailField "Can not be empty")
  else if c.passwordField = [] then (c, .warn .passwordField "Can not be empty")
  else if !isvalidEmail c.emailField then
    ({ c with emailField := [] }, .alert "Email is not valid")
  else if !isValidPassword c.passwordField then
    ({ c with passwordField := [] }, .alert
      "Password is not valid.Must contain >6 characters,upper case,lower case and number")
  else if !c.accepted then (c, .alert "You must accept license and agreemnt")
  else ({ c with loading := true }, .createUser c.emailField c.passwordField)

lemma request_signUp (c : SignupViewController) : c.signUp.2.request =
    if isvalidEmail c.emailField ∧ isValidPassword c.passwordField ∧ c.accepted then
      some (c.emailField, c.passwordField) else none := by
  have he : isvalidEmail c.emailField → c.emailField ≠ [] := by
    rintro h hn
    rw [hn] at h
    exact absurd h (by decide +kernel)
  have hp : isValidPassword c.passwordField → c.passwordField ≠ [] := by
    rintro h hn
    rw [hn] at h
    exact absurd h (by decide)
  simp only [signUp]
  split_ifs <;> simp_all [SignupAction.request]

end SignupViewController

end MobileApps.Storyboard

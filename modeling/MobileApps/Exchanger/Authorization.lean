import MobileApps.Exchanger.AuthentificationManager

/-! `SignUpViewModel.swift` and `LoginViewModel.swift`; `completion` is the closure that they pass
to the manager. -/

namespace MobileApps.Exchanger

open Library.Unicode

structure SignUpViewModel where
  email : Text := []
  password : Text := []
  checked : Bool := false
  presented : Bool := false
  clicked : Bool := false
  message : String := "Please wait..."
  showMessage : ℕ := 0
  AuthManager : AuthentificationManager Unit := {}

inductive SignUpEvent
  | editEmail (email : Text)
  | editPassword (password : Text)
  | toggleChecked
  | signUpUser
  | reply (i : ℕ) (r : AuthReply)
  deriving DecidableEq

namespace SignUpViewModel

def completion (m : SignUpViewModel) (done : Bool) : SignUpViewModel :=
  let m := if !done then { m with message := "Error with registration" } else m
  { m with presented := done, clicked := !done }

def SignUpUser (m : SignUpViewModel) : SignUpViewModel :=
  let m := { m with message := "Please wait...", showMessage := 1 }
  let (manager, answers) := m.AuthManager.createNewUser m.email m.password ()
  answers.foldl completion { m with AuthManager := manager }

def step (m : SignUpViewModel) : SignUpEvent → Option SignUpViewModel
  | .editEmail email => some { m with email := email }
  | .editPassword password => some { m with password := password }
  | .toggleChecked => some { m with checked := !m.checked }
  | .signUpUser => some m.SignUpUser
  | .reply i r => (m.AuthManager.reply i r).map fun a =>
      { m with AuthManager := a.1 }.completion a.2.2

end SignUpViewModel

structure LoginViewModel where
  email : Text := []
  password : Text := []
  clicked : Bool := false
  message : String := "Please wait..."
  showMessage : ℕ := 0
  presentable : Bool := false
  AuthManager : AuthentificationManager Unit := {}

inductive LoginEvent
  | editEmail (email : Text)
  | editPassword (password : Text)
  | logUser
  | reply (i : ℕ) (r : AuthReply)
  deriving DecidableEq

namespace LoginViewModel

def completion (m : LoginViewModel) (done : Bool) : LoginViewModel :=
  if !done then { m with showMessage := 1, message := "Error with authentification!" }
  else { m with presentable := done, clicked := !done }

def logUser (m : LoginViewModel) : LoginViewModel :=
  let m := { m with clicked := true, message := "Please wait", showMessage := 1 }
  let (manager, answers) := m.AuthManager.logInUser m.email m.password ()
  answers.foldl completion { m with AuthManager := manager }

def step (m : LoginViewModel) : LoginEvent → Option LoginViewModel
  | .editEmail email => some { m with email := email }
  | .editPassword password => some { m with password := password }
  | .logUser => some m.logUser
  | .reply i r => (m.AuthManager.reply i r).map fun a =>
      { m with AuthManager := a.1 }.completion a.2.2

end LoginViewModel

end MobileApps.Exchanger

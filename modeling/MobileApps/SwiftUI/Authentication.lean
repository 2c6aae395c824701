import MobileApps.SwiftUI.Helper
import MobileApps.Library.Runs

/-! `SignupView.swift`, `LoginView.swift` and the functions of `DBCore.swift` behind their buttons.
A reply of FirebaseAuth is labelled with `Auth.auth().currentUser` as it is then; `done` is the
closure that a button passes on. -/

namespace MobileApps.SwiftUI

open Library.Unicode Library.Runs

structure CreateRequest (κ : Type) where
  email : Text
  password : Text
  completion : κ

structure MailRequest (κ : Type) where
  user : Text
  completion : κ

/-- The requests of `createUser` and of `sendEmailVerification` that are still to be answered, the
latter with the completion of the sign-up that sent them. -/
structure Signups (κ : Type) where
  creating : List (CreateRequest κ) := []
  mailing : List (MailRequest κ) := []

namespace Signups

variable {κ : Type}

def createUser (d : Signups κ) (emailField passwordField : Text) (completion : κ) : Signups κ :=
  { d with creating := d.creating ++ [⟨emailField, passwordField, completion⟩] }

-- The reply to the mail sets `confirmation` only after the function has returned it. The second
-- value is the user whose mail is requested.
def sendEmailForVer (user : Option Text) : Bool × Option Text := (true, user)

def created (d : Signups κ) (i : ℕ) (currentUser : Option Text) : Option (Signups κ × κ × Bool) :=
  d.creating[i]?.map fun r =>
    let (confirmation, mailed) := sendEmailForVer currentUser
    ({ creating := d.creating.eraseIdx i
       mailing := d.mailing ++ mailed.toList.map fun user => ⟨user, r.completion⟩ },
      r.completion, confirmation)

def createFailed (d : Signups κ) (i : ℕ) : Option (Signups κ × κ × Bool) :=
  d.creating[i]?.map fun r =>
    ({ d with creating := d.creating.eraseIdx i }, r.completion, false)

end Signups

structure SignupView where
  checked : Bool := false
  email : Text := []
  pass : Text := []
  errorMess : String := ""
  errorCode : Bool := false
  errorCreation : Bool := false
  presentMain : Bool := false
  requests : Signups Unit := {}

inductive SignupEvent
  | editEmail (email : Text)
  | editPass (pass : Text)
  | toggleChecked
  | signUp
  | created (i : ℕ) (currentUser : Option Text)
  | createFailed (i : ℕ)
  | mailReply (i : ℕ)
  deriving DecidableEq

namespace SignupView

def signButton (s : SignupView) : SignupView :=
  let (errorMess, errorCode) := validateInput s.email s.pass s.checked
  let s := { s with errorMess := errorMess, errorCode := errorCode }
  if s.errorCode then { s with presentMain := false }
  else { s with requests := s.requests.createUser s.email s.pass () }

def done (s : SignupView) (done : Bool) : SignupView :=
  { s with errorCreation := !done, presentMain := done }

def step (s : SignupView) : SignupEvent → Option SignupView
  | .editEmail email => some { s with email := email }
  | .editPass pass => some { s with pass := pass }
  | .toggleChecked => some { s with checked := !s.checked }
  | .signUp => some s.signButton
  | .created i currentUser => (s.requests.created i currentUser).map fun r =>
      { s with requests := r.1 }.done r.2.2
  | .createFailed i => (s.requests.createFailed i).map fun r =>
      { s with requests := r.1 }.done r.2.2
  | .mailReply i =>
      if i < s.requests.mailing.length then
        some { s with requests := { s.requests with mailing := s.requests.mailing.eraseIdx i } }
      else none

end SignupView

structure LoginView where
  email : Text := []
  pass : Text := []
  errorVerification : Bool := false
  errorLogin : Bool := false
  presentMain : Bool := false
  signingIn : List (Text × Text) := []

/-- On success the current user is labelled with its `isEmailVerified`. -/
inductive LoginEvent
  | editEmail (email : Text)
  | editPass (pass : Text)
  | login
  | signedIn (i : ℕ) (isEmailVerified : Option Bool)
  | signInFailed (i : ℕ)
  deriving DecidableEq

namespace LoginView

def loginButton (s : LoginView) : LoginView :=
  if validateInputLogin s.email s.pass then
    { s with signingIn := s.signingIn ++ [(s.email, s.pass)] }
  else { s with errorVerification := !s.errorVerification }

def done (s : LoginView) (done : Bool) : LoginView :=
  { s with errorLogin := !done, presentMain := done }

def step (s : LoginView) : LoginEvent → Option LoginView
  | .editEmail email => some { s with email := email }
  | .editPass pass => some { s with pass := pass }
  | .login => some s.loginButton
  -- `user!` traps when nobody is signed in any more
  | .signedIn i isEmailVerified => s.signingIn[i]?.bind fun _ => isEmailVerified.map fun verified =>
      { s with signingIn := s.signingIn.eraseIdx i }.done verified
  | .signInFailed i => s.signingIn[i]?.map fun _ =>
      { s with signingIn := s.signingIn.eraseIdx i }.done false

end LoginView

end MobileApps.SwiftUI

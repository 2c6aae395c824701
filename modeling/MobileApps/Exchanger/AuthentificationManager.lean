import MobileApps.Storyboard.Helper
import MobileApps.Library.Runs

/-! `AuthentificationManager.swift` and `Validators.swift`. The expressions are those of the TODO
apps, letter for letter. -/

namespace MobileApps.Exchanger

open Library.Unicode Library.Runs

def validateEmail (email : Text) : Bool := Storyboard.emailFormat.rmatch (utf16 email)

def validatePassword (password : Text) : Bool := Storyboard.passwordRegex.matchesWhole password

inductive AuthRequest
  | createUser (email password : Text)
  | signIn (email password : Text)
  | sendPasswordReset (email : Text)
  deriving DecidableEq

/-- A success of `createUser` and `signIn` is labelled with `authResult?.user.email`. -/
inductive AuthReply
  | error
  | success (email : Option Text)
  deriving DecidableEq

def AuthReply.done : AuthReply → Bool
  | .error => false
  | .success _ => true

structure AuthentificationManager (κ : Type) where
  currentEmail : Option Text := none
  inFlight : List (AuthRequest × κ) := []

namespace AuthentificationManager

variable {κ : Type} (m : AuthentificationManager κ)

def send (request : AuthRequest) (completion : κ) : AuthentificationManager κ :=
  { m with inFlight := m.inFlight ++ [(request, completion)] }

def createNewUser (email password : Text) (completion : κ) :
    AuthentificationManager κ × List Bool :=
  if !validateEmail email then (m, [false])
  else if !validatePassword password then (m, [false])
  else (m.send (.createUser email password) completion, [])

def logInUser (email password : Text) (completion : κ) : AuthentificationManager κ × List Bool :=
  -- neither refusal returns: the request is sent all the same
  let refused := if email = [] then [false] else if password = [] then [false] else []
  (m.send (.signIn email password) completion, refused)

def resetPass (email : Text) (completion : κ) : AuthentificationManager κ × List Bool :=
  if email = [] then (m, [false]) else (m.send (.sendPasswordReset email) completion, [])

def replied (request : AuthRequest) : AuthReply → AuthentificationManager κ
  | .error => m
  | .success email =>
      match request with
      | .createUser .. | .signIn .. => { m with currentEmail := email }
      | .sendPasswordReset _ => m

lemma replied_inFlight (request : AuthRequest) (r : AuthReply) :
    (m.replied request r).inFlight = m.inFlight := by
  cases r with
  | error => rfl
  | success => cases request <;> rfl

def reply (i : ℕ) (r : AuthReply) : Option (AuthentificationManager κ × κ × Bool) :=
  m.inFlight[i]?.map fun c =>
    ({ m with inFlight := m.inFlight.eraseIdx i }.replied c.1 r, c.2, r.done)

end AuthentificationManager

end MobileApps.Exchanger

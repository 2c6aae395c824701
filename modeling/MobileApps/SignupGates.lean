import MobileApps.Exchanger.Authorization
import MobileApps.Storyboard.Signup
import MobileApps.SwiftUI.Authentication

/-! The sign-up buttons of the three apps: which of them asks FirebaseAuth for an account. -/

namespace MobileApps

open Library.Unicode

def Storyboard.SignupViewController.sends (c : SignupViewController) : List (Text × Text) :=
  c.signUp.2.request.toList

def SwiftUI.SignupView.sends (s : SignupView) : List (Text × Text) :=
  (s.signButton.requests.creating.drop s.requests.creating.length).map fun r =>
    (r.email, r.password)

def Exchanger.AuthRequest.signUp : AuthRequest → Option (Text × Text)
  | .createUser email password => some (email, password)
  | .signIn .. | .sendPasswordReset _ => none

def Exchanger.SignUpViewModel.sends (m : SignUpViewModel) : List (Text × Text) :=
  (m.SignUpUser.AuthManager.inFlight.drop m.AuthManager.inFlight.length).filterMap fun r =>
    r.1.signUp

namespace SignupGates

open Storyboard SwiftUI Exchanger

def accountFor (email password : Text) (accepted : Bool) : List (Text × Text) :=
  if Storyboard.isvalidEmail email ∧ Storyboard.isValidPassword password ∧ accepted then
    [(email, password)]
  else []

structure Agree (c : SignupViewController) (s : SignupView) (m : SignUpViewModel)
    (email password : Text) (accepted : Bool) : Prop where
  storyboard : { c with
    emailField := email
    passwordField := password
    accepted := accepted }.sends = accountFor email password accepted
  swiftUI : { s with
    email := email
    pass := password
    checked := accepted }.sends = accountFor email password accepted
  exchanger : { m with
    email := email
    password := password
    checked := accepted }.sends = accountFor email password accepted

lemma storyboard_sends (c : SignupViewController) :
    c.sends = accountFor c.emailField c.passwordField c.accepted := by
  rw [SignupViewController.sends, SignupViewController.request_signUp, accountFor]
  split_ifs <;> rfl

lemma swiftUI_sends (s : SignupView) : s.sends = accountFor s.email s.pass s.checked := by
  have hv : (validateInput s.email s.pass s.checked).2 = false ↔ Storyboard.isvalidEmail s.email ∧
      Storyboard.isValidPassword s.pass ∧ s.checked := validateInput_code _ _ _
  rw [SignupView.sends, accountFor]
  by_cases h : (validateInput s.email s.pass s.checked).2 = false
  · rw [if_pos (hv.mp h)]
    simp [SignupView.signButton, h, Signups.createUser]
  · rw [if_neg fun hn => h (hv.mpr hn)]
    simp [SignupView.signButton, h]

lemma exchanger_sends (m : SignUpViewModel) : m.sends = accountFor m.email m.password true := by
  have he : validateEmail m.email = Storyboard.isvalidEmail m.email := rfl
  have hp : validatePassword m.password = Storyboard.isValidPassword m.password := rfl
  simp only [SignUpViewModel.sends, SignUpViewModel.SignUpUser, accountFor,
    AuthentificationManager.createNewUser, he, hp]
  split_ifs <;>
    simp_all [AuthentificationManager.send, AuthRequest.signUp, SignUpViewModel.completion]

/-- For every email, password and state of the switch, the three buttons ask for the same account,
the entered one if it is valid and the licence is accepted, exactly when the licence is accepted or
the email or the password is invalid. -/
theorem agree_iff (c : SignupViewController) (s : SignupView) (m : SignUpViewModel)
    (email password : Text) (accepted : Bool) :
    Agree c s m email password accepted ↔ accepted ∨
      ¬ Storyboard.isvalidEmail email ∨ ¬ Storyboard.isValidPassword password := by
  have hm : accountFor email password true = accountFor email password accepted ↔ accepted ∨
      ¬ Storyboard.isvalidEmail email ∨ ¬ Storyboard.isValidPassword password := by
    cases accepted with
    | true => simp
    | false =>
      by_cases he : Storyboard.isvalidEmail email <;>
        by_cases hp : Storyboard.isValidPassword password <;> simp [accountFor, he, hp]
  rw [← hm]
  constructor
  · intro h
    rw [← h.exchanger, exchanger_sends]
  · intro h
    exact ⟨storyboard_sends _, swiftUI_sends _, (exchanger_sends _).trans h⟩

theorem licence_declined :
    ({ email := "a@b.co".toList, password := "Abcdef1".toList } : SignUpViewModel).sends =
      [("a@b.co".toList, "Abcdef1".toList)] ∧
    ({ email := "a@b.co".toList, pass := "Abcdef1".toList } : SignupView).sends = [] ∧
    ({ emailField := "a@b.co".toList, passwordField := "Abcdef1".toList } :
      SignupViewController).sends = [] ∧
    ¬ Agree {} {} {} "a@b.co".toList "Abcdef1".toList false := by
  have hsent : ({ email := "a@b.co".toList, password := "Abcdef1".toList } :
      SignUpViewModel).sends = [("a@b.co".toList, "Abcdef1".toList)] := by decide +kernel
  have hnone : accountFor "a@b.co".toList "Abcdef1".toList false = [] := by decide +kernel
  refine ⟨hsent, by decide +kernel, by decide +kernel, fun h => ?_⟩
  have hm := h.exchanger
  rw [hnone] at hm
  exact List.cons_ne_nil _ _ (hsent.symm.trans hm)

end SignupGates

end MobileApps

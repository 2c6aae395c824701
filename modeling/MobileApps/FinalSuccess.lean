import MobileApps.Exchanger.Authorization
import MobileApps.Library.Latch
import MobileApps.SwiftUI.Authentication

/-! The flags that present the next screen after a login or a sign-up: all but one are assigned by
every answer, whichever attempt it answers. -/

namespace MobileApps

open Library.Unicode Library.Runs Library.Latch

def Exchanger.LoginEvent.answers : LoginEvent → Bool
  | .reply .. => true
  | .editEmail _ | .editPassword _ | .logUser => false

def Exchanger.SignUpEvent.answers : SignUpEvent → Bool
  | .reply .. => true
  | .editEmail _ | .editPassword _ | .toggleChecked | .signUpUser => false

def SwiftUI.LoginEvent.answers : LoginEvent → Bool
  | .signedIn .. | .signInFailed _ => true
  | .editEmail _ | .editPass _ | .login => false

def SwiftUI.SignupEvent.answers : SignupEvent → Bool
  | .created .. | .createFailed _ | .mailReply _ => true
  | .editEmail _ | .editPass _ | .toggleChecked | .signUp => false

def Exchanger.SignUpViewModel.outcome (m : SignUpViewModel) : SignUpEvent → Option Outcome
  | .signUpUser =>
      -- a refusal calls the completion, which resets the flag
      if validateEmail m.email ∧ validatePassword m.password then none else some .refused
  | .reply _ (.success _) => some .accepted
  | .reply _ .error => some .rejected
  | .editEmail _ | .editPassword _ | .toggleChecked => none

def SwiftUI.LoginView.outcome (_ : LoginView) : LoginEvent → Option Outcome
  | .signedIn _ (some true) => some .accepted
  | .signedIn _ _ | .signInFailed _ => some .rejected
  | .editEmail _ | .editPass _ | .login => none

def SwiftUI.SignupView.outcome (s : SignupView) : SignupEvent → Option Outcome
  | .signUp => if (validateInput s.email s.pass s.checked).2 then some .refused else none
  | .created .. => some .accepted
  | .createFailed _ => some .rejected
  | .editEmail _ | .editPass _ | .toggleChecked | .mailReply _ => none

namespace FinalSuccess

section Exchanger

open Exchanger

lemma loginViewModel_completed (m : LoginViewModel) (answers : List Bool) (h : m.presentable) :
    (answers.foldl LoginViewModel.completion m).presentable := by
  induction answers generalizing m with
  | nil => exact h
  | cons done answers ih =>
    apply ih
    cases done <;> simp [LoginViewModel.completion, h]

lemma loginViewModel_keeps (m : LoginViewModel) (e : LoginEvent) (n : LoginViewModel)
    (hs : m.step e = some n) (hf : m.presentable) : n.presentable := by
  cases e with
  | editEmail | editPassword =>
    obtain rfl := Option.some.inj hs
    exact hf
  | logUser =>
    obtain rfl := Option.some.inj hs
    exact loginViewModel_completed _ _ hf
  | reply i r =>
    obtain ⟨a, _, rfl⟩ := Option.map_eq_some_iff.mp hs
    exact loginViewModel_completed { m with AuthManager := a.1 } [a.2.2] hf

lemma signUpViewModel_pressed (m : SignUpViewModel) : m.SignUpUser.presented =
    if validateEmail m.email ∧ validatePassword m.password then m.presented else false := by
  simp only [SignUpViewModel.SignUpUser, AuthentificationManager.createNewUser]
  split_ifs <;> simp_all [SignUpViewModel.completion]

lemma signUpViewModel_replied {m n : SignUpViewModel} {i : ℕ} {r : AuthReply}
    (hs : m.step (.reply i r) = some n) : n.presented = r.done := by
  obtain ⟨a, ha, rfl⟩ := Option.map_eq_some_iff.mp hs
  obtain ⟨_, _, rfl⟩ := Option.map_eq_some_iff.mp ha
  rfl

lemma signUpViewModel_latches : Latches SignUpViewModel.step SignUpViewModel.presented
    SignUpEvent.answers SignUpViewModel.outcome := by
  refine .of_assigned (fun m e n hs => ?_) (fun m e ho => ?_) fun m e ho => ?_
  · cases e with
    | reply i r =>
      rw [signUpViewModel_replied hs]
      cases r <;> rfl
    | signUpUser =>
      obtain rfl := Option.some.inj hs
      rw [signUpViewModel_pressed, SignUpViewModel.outcome]
      split_ifs <;> rfl
    | editEmail | editPassword | toggleChecked =>
      obtain rfl := Option.some.inj hs
      rfl
  · cases e with
    | reply => rfl
    | signUpUser => exact absurd ho (by simp [SignUpViewModel.outcome])
    | editEmail | editPassword | toggleChecked => cases ho
  · cases e with
    | reply i r => cases r <;> cases ho
    | signUpUser | editEmail | editPassword | toggleChecked => exact Bool.false_ne_true

end Exchanger

section SwiftUI

open SwiftUI

lemma loginView_answered {s t : LoginView} {i : ℕ} {verified : Option Bool}
    (hs : s.step (.signedIn i verified) = some t) : some t.presentMain = verified := by
  obtain ⟨_, _, hs⟩ := Option.bind_eq_some_iff.mp hs
  obtain ⟨_, rfl, rfl⟩ := Option.map_eq_some_iff.mp hs
  rfl

lemma loginView_latches : Latches LoginView.step LoginView.presentMain LoginEvent.answers
    LoginView.outcome := by
  refine .of_assigned (fun s e t hs => ?_) (fun s e ho => ?_) fun s e ho => ?_
  · cases e with
    | signedIn i verified =>
      obtain rfl := loginView_answered hs
      cases ht : t.presentMain <;> simp [LoginView.outcome, assigned]
    | signInFailed =>
      obtain ⟨_, _, rfl⟩ := Option.map_eq_some_iff.mp hs
      rfl
    | editEmail | editPass =>
      obtain rfl := Option.some.inj hs
      rfl
    | login =>
      obtain rfl := Option.some.inj hs
      simp only [LoginView.loginButton]
      split_ifs <;> rfl
  · cases e with
    | signedIn | signInFailed => rfl
    | editEmail | editPass | login => cases ho
  · cases e with
    | signedIn i verified => rcases verified with _ | _ | _ <;> cases ho
    | signInFailed | editEmail | editPass | login => cases ho

lemma signupView_pressed (s : SignupView) : s.signButton.presentMain =
    if (validateInput s.email s.pass s.checked).2 then false else s.presentMain := by
  simp only [SignupView.signButton]
  split_ifs <;> rfl

lemma signupView_latches : Latches SignupView.step SignupView.presentMain SignupEvent.answers
    SignupView.outcome := by
  refine .of_assigned (fun s e t hs => ?_) (fun s e ho => ?_) fun s e ho => ?_
  · cases e with
    | signUp =>
      obtain rfl := Option.some.inj hs
      rw [signupView_pressed, SignupView.outcome]
      split_ifs <;> rfl
    | created | createFailed =>
      obtain ⟨_, hr, rfl⟩ := Option.map_eq_some_iff.mp hs
      obtain ⟨_, _, rfl⟩ := Option.map_eq_some_iff.mp hr
      rfl
    | mailReply =>
      obtain ⟨_, rfl⟩ := guarded_some.mp hs
      rfl
    | editEmail | editPass | toggleChecked =>
      obtain rfl := Option.some.inj hs
      rfl
  · cases e with
    | created | createFailed | mailReply => rfl
    | signUp => exact absurd ho (by simp [SignupView.outcome])
    | editEmail | editPass | toggleChecked => cases ho
  · cases e with
    | signUp | editEmail | editPass | toggleChecked => exact Bool.false_ne_true
    | created | createFailed | mailReply => cases ho

end SwiftUI

/-- The success of an attempt is final on all four screens exactly when, on the sign-up screens and
on the login screen of the SwiftUI app, no failure is answered after a success without a refused
press in between. `LoginViewModel` needs no condition. -/
theorem final_success_iff (ls : List Exchanger.LoginEvent) (us : List Exchanger.SignUpEvent)
    (ks : List SwiftUI.LoginEvent) (vs : List SwiftUI.SignupEvent) :
    (Final Exchanger.LoginViewModel.step (·.presentable) Exchanger.LoginEvent.answers {} ls ∧
      Final Exchanger.SignUpViewModel.step (·.presented) Exchanger.SignUpEvent.answers {} us ∧
      Final SwiftUI.LoginView.step (·.presentMain) SwiftUI.LoginEvent.answers {} ks ∧
      Final SwiftUI.SignupView.step (·.presentMain) SwiftUI.SignupEvent.answers {} vs) ↔
    (outcomes Exchanger.SignUpViewModel.step Exchanger.SignUpViewModel.outcome {} us).IsChain
        Outcome.keeps ∧
      (outcomes SwiftUI.LoginView.step SwiftUI.LoginView.outcome {} ks).IsChain Outcome.keeps ∧
      (outcomes SwiftUI.SignupView.step SwiftUI.SignupView.outcome {} vs).IsChain
        Outcome.keeps := by
  have hu := final_iff signUpViewModel_latches (s := {}) Bool.false_ne_true us
  have hk := final_iff loginView_latches (s := {}) Bool.false_ne_true ks
  have hv := final_iff signupView_latches (s := {}) Bool.false_ne_true vs
  rw [← hu, ← hk, ← hv]
  exact and_iff_right (final_of_kept loginViewModel_keeps {} ls)

def email : Text := "a@b.co".toList

def password : Text := "Abcdef1".toList

theorem repeated_press_hides_screen :
    ¬ Final SwiftUI.SignupView.step (·.presentMain) SwiftUI.SignupEvent.answers {}
      [.editEmail email, .editPass password, .toggleChecked, .signUp, .signUp,
        .created 0 (some email), .createFailed 0] ∧
    ¬ Final SwiftUI.LoginView.step (·.presentMain) SwiftUI.LoginEvent.answers {}
      [.editEmail email, .editPass password, .login, .login, .signedIn 0 (some true),
        .signInFailed 0] ∧
    ¬ Final Exchanger.SignUpViewModel.step (·.presented) Exchanger.SignUpEvent.answers {}
      [.editEmail email, .editPassword password, .signUpUser, .signUpUser,
        .reply 0 (.success (some email)), .reply 0 .error] := by
  rw [final_iff signupView_latches Bool.false_ne_true, final_iff loginView_latches
    Bool.false_ne_true, final_iff signUpViewModel_latches Bool.false_ne_true]
  decide +kernel

end FinalSuccess

end MobileApps

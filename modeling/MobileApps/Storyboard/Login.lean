import MobileApps.Storyboard.Helper
import MobileApps.Storyboard.Session

/-! `LoginViewController.swift` and the task screens that its segue "goToMain" opens. Who is
signed in is a global of FirebaseAuth: every handler that needs the email reads it when it runs. -/

namespace MobileApps.Storyboard

open Firestore Library.Unicode Library.Decimal Library.DocumentStore Library.Runs

structure User where
  email : Email
  isEmailVerified : Bool
  deriving DecidableEq

inductive LoginField
  | emailField | passwordField
  deriving DecidableEq

inductive LoginAction
  | warn (field : LoginField) (placeholder : String)
  | alert (message : String)
  | signIn (email password : Text)
  deriving DecidableEq

def loginPressed (emailField passwordField : Text) : LoginAction :=
  if emailField = [] then .warn .emailField "Can not be empty"
  else if passwordField = [] then .warn .passwordField "Can not be empty"
  else if !isvalidEmail emailField then .alert "Email is not valid"
  else .signIn emailField passwordField

/-- A task screen: the user whose reply opened it, the email that `loadTasks` read, if it is
still to be answered, and the emails under which the documents are stored that it loaded and
saved. -/
structure TaskScreen where
  opener : User
  screen : Screen := {}
  viewLoaded : Bool := false
  loading : Option Email := none
  touched : List Email := []

structure App where
  currentUser : Option User := none
  attempts : List Email := []
  present : Bool := true
  alert : Option String := none
  screens : List TaskScreen := []
  replies : List User := []

inductive AppEvent
  | loginPressed (emailField passwordField : Text)
  | signInFailed (attempt : ℕ)
  | signedIn (attempt : ℕ) (isEmailVerified : Bool)
  | goToHome
  | viewDidLoad (i : ℕ)
  | act (i : ℕ) (action : Action)

def App.signedIn (a : App) (user : User) : App :=
  -- FirebaseAuth has made the account the current user before it calls the completion
  let a := { a with currentUser := some user, replies := user :: a.replies }
  -- `[weak self]` is gone when the login screen is
  if !a.present then a
  else if !user.isEmailVerified then { a with alert := some "Verify your email to log in" }
  else { a with screens := a.screens ++ [{ opener := user }] }

def App.signInFailed (a : App) : App :=
  if !a.present then a else { a with alert := some "You entered invalid information" }

variable (U : Tables)

def requestEmails : Request → List Email
  | .addDocument _ data | .setData _ data => data.map Prod.fst
  | .delete _ => []

def touchedBy (email : Email) (s : Screen) : Action → List Email
  | .reply (.success documents) =>
      (documents.filter fun e => (e.data.lookup email).isSome).map fun _ => email
  | .passBackData id taskName taskTime =>
      match passBackData U (some email) id taskName taskTime s with
      | .ok (_, requests) => requests.flatMap requestEmails
      | .error _ => []
  | .reply .failure | .commitDelete _ | .moveRowAt .. | .storingFailed => []

def TaskScreen.act (email : Email) (t : TaskScreen) (action : Action) : Option TaskScreen :=
  -- a handler that traps ends the app
  (t.screen.handle U email action).toOption.map fun s =>
    { t with screen := s, touched := t.touched ++ touchedBy U email t.screen action }

def TaskScreen.viewDidLoad (current : Option User) (t : TaskScreen) : Option TaskScreen :=
  if t.viewLoaded then none
  else current.map fun user =>
    { t with screen := Storyboard.viewDidLoad, viewLoaded := true, loading := some user.email }

def TaskScreen.handle (current : Option User) (t : TaskScreen) : Action → Option TaskScreen
  | .reply r => t.loading.bind fun email =>
      ({ t with loading := none } : TaskScreen).act U email (.reply r)
  | action => if t.viewLoaded then current.bind fun user => t.act U user.email action else none

def App.step (a : App) : AppEvent → Option App
  | .loginPressed emailField passwordField =>
      some <| match loginPressed emailField passwordField with
        | .signIn email _ => { a with attempts := a.attempts ++ [email] }
        | .alert message => { a with alert := some message }
        | .warn .. => a
  | .signInFailed i =>
      a.attempts[i]?.map fun _ =>
        ({ a with attempts := a.attempts.eraseIdx i } : App).signInFailed
  | .signedIn i isEmailVerified =>
      a.attempts[i]?.map fun email =>
        ({ a with attempts := a.attempts.eraseIdx i } : App).signedIn ⟨email, isEmailVerified⟩
  | .goToHome => some { a with present := false }
  | .viewDidLoad i =>
      a.screens[i]?.bind fun t => (t.viewDidLoad a.currentUser).map fun t' =>
        { a with screens := a.screens.set i t' }
  | .act i action =>
      a.screens[i]?.bind fun t => (t.handle U a.currentUser action).map fun t' =>
        { a with screens := a.screens.set i t' }

def OneAccount (a : App) : Prop :=
  ∀ t ∈ a.screens, ∃ user ∈ a.replies, user.isEmailVerified ∧
    ∀ email ∈ t.touched, email = user.email

def SameUser (a : App) : AppEvent → Prop
  | .viewDidLoad i | .act i (.passBackData ..) =>
      ∀ t ∈ a.screens[i]?, ∀ user ∈ a.currentUser, user.email = t.opener.email
  | _ => True

instance (a : App) : ∀ e, Decidable (SameUser a e)
  | .viewDidLoad i | .act i (.passBackData ..) =>
      inferInstanceAs (Decidable (∀ t ∈ a.screens[i]?, ∀ user ∈ a.currentUser,
        user.email = t.opener.email))
  | .loginPressed .. | .signInFailed _ | .signedIn .. | .goToHome | .act _ (.reply _)
  | .act _ (.commitDelete _) | .act _ (.moveRowAt ..) | .act _ .storingFailed => isTrue trivial

structure TaskScreen.Bound (replies : List User) (t : TaskScreen) : Prop where
  replied : t.opener ∈ replies
  verified : t.opener.isEmailVerified
  loading : ∀ email, t.loading = some email → email = t.opener.email
  touched : ∀ email ∈ t.touched, email = t.opener.email

variable {U}

lemma saved_emails {email : Email} {id : AutoId} {n t : Text} {s : Screen}
    {r : Screen × List Request} (h : passBackData U (some email) id n t s = .ok r) :
    ∀ e ∈ r.2.flatMap requestEmails, e = email := by
  have saved : ∀ {s : Screen} {r : Screen × List Request},
      saveDataInDtabase U (some email) id n t s = .ok r →
        ∀ e ∈ r.2.flatMap requestEmails, e = email := by
    intro s r h
    rw [saveDataInDtabase_eq] at h
    obtain rfl := Except.ok.inj h
    simp [savedRequests, requestEmails]
  simp only [passBackData] at h
  generalize insertRows _ _ = x at h
  cases x with
  | error e => cases h
  | ok s' =>
    simp only [ok_bind] at h
    generalize parseInt _ = y at h
    cases y with
    | none => cases h
    | some count => exact saved h

lemma touchedBy_eq {email : Email} {s : Screen} {action : Action} :
    ∀ e ∈ touchedBy U email s action, e = email := by
  intro e he
  cases action with
  | reply r =>
    cases r with
    | failure => cases he
    | success documents =>
      obtain ⟨_, _, rfl⟩ := List.mem_map.mp he
      rfl
  | passBackData id n t =>
    simp only [touchedBy] at he
    split at he
    · exact saved_emails ‹_› e he
    · cases he
  | commitDelete row => cases he
  | moveRowAt src dst => cases he
  | storingFailed => cases he

lemma bound_act {replies : List User} {t t' : TaskScreen} (h : t.Bound replies) {email : Email}
    {action : Action} (ht : t.act U email action = some t')
    (he : ∀ e ∈ touchedBy U email t.screen action, e = t.opener.email) : t'.Bound replies := by
  obtain ⟨s, _, rfl⟩ := Option.map_eq_some_iff.mp ht
  refine ⟨h.replied, h.verified, h.loading, fun e hm => ?_⟩
  rcases List.mem_append.mp hm with hm | hm
  · exact h.touched e hm
  · exact he e hm

lemma bound_handle {replies : List User} {t t' : TaskScreen} (h : t.Bound replies)
    {current : Option User} {action : Action} (ht : t.handle U current action = some t')
    (hu : ∀ id n m, action = .passBackData id n m →
      ∀ user ∈ current, user.email = t.opener.email) : t'.Bound replies := by
  have act : ∀ {action : Action}, (if t.viewLoaded then
      current.bind fun user => t.act U user.email action else none) = some t' →
      (∀ user ∈ current, ∀ e ∈ touchedBy U user.email t.screen action, e = t.opener.email) →
      t'.Bound replies := by
    intro action ht he
    obtain ⟨_, ht⟩ := Option.ite_none_right_eq_some.mp ht
    obtain ⟨user, huser, ht⟩ := Option.bind_eq_some_iff.mp ht
    exact bound_act h ht (he user huser)
  cases action with
  | reply r =>
    obtain ⟨email, hl, ht⟩ := Option.bind_eq_some_iff.mp ht
    have hb : TaskScreen.Bound replies { t with loading := none } :=
      ⟨h.replied, h.verified, by simp, h.touched⟩
    exact bound_act hb ht fun e he => (touchedBy_eq e he).trans (h.loading email hl)
  | passBackData id n m =>
    exact act ht fun user huser e he => (touchedBy_eq e he).trans (hu id n m rfl user huser)
  | commitDelete row => exact act ht fun _ _ e he => by cases he
  | moveRowAt src dst => exact act ht fun _ _ e he => by cases he
  | storingFailed => exact act ht fun _ _ e he => by cases he

lemma TaskScreen.Bound.mono {replies : List User} {t : TaskScreen} (h : t.Bound replies)
    (user : User) : t.Bound (user :: replies) :=
  ⟨List.mem_cons_of_mem _ h.replied, h.verified, h.loading, h.touched⟩

def App.Bound (a : App) : Prop := ∀ t ∈ a.screens, t.Bound a.replies

lemma bound_signedIn {a : App} (h : a.Bound) (user : User) : (a.signedIn user).Bound := by
  have hmono : ∀ t ∈ a.screens, t.Bound (user :: a.replies) := fun t ht => (h t ht).mono user
  simp only [App.signedIn]
  split
  · exact hmono
  · split
    · exact hmono
    · rename_i hv
      intro t ht
      rcases List.mem_append.mp ht with ht | ht
      · exact hmono t ht
      · obtain rfl := List.mem_singleton.mp ht
        exact ⟨List.mem_cons_self, by simpa using hv, by simp, by simp⟩

lemma bound_set {a : App} (h : a.Bound) {i : ℕ} {t : TaskScreen} (ht : t.Bound a.replies) :
    App.Bound { a with screens := a.screens.set i t } := by
  intro u hu
  rcases List.mem_or_eq_of_mem_set hu with hu | rfl
  · exact h u hu
  · exact ht

lemma bound_step {a a' : App} {e : AppEvent} (h : a.Bound) (hs : a.step U e = some a')
    (hu : SameUser a e) : a'.Bound := by
  cases e with
  | loginPressed emailField passwordField =>
    obtain rfl := Option.some.inj hs
    split <;> exact h
  | signInFailed i =>
    obtain ⟨email, _, rfl⟩ := Option.map_eq_some_iff.mp hs
    unfold App.signInFailed
    split <;> exact h
  | signedIn i verified =>
    obtain ⟨email, _, rfl⟩ := Option.map_eq_some_iff.mp hs
    exact bound_signedIn (a := { a with attempts := a.attempts.eraseIdx i }) h _
  | goToHome =>
    obtain rfl := Option.some.inj hs
    exact h
  | viewDidLoad i =>
    obtain ⟨t, ht, hs⟩ := Option.bind_eq_some_iff.mp hs
    obtain ⟨t', ht', rfl⟩ := Option.map_eq_some_iff.mp hs
    have hb := h t (List.mem_of_getElem? ht)
    refine bound_set h ?_
    obtain ⟨_, ht'⟩ := Option.ite_none_left_eq_some.mp ht'
    obtain ⟨user, huser, rfl⟩ := Option.map_eq_some_iff.mp ht'
    refine ⟨hb.replied, hb.verified, ?_, hb.touched⟩
    rintro _ ⟨⟩
    exact hu t ht user huser
  | act i action =>
    obtain ⟨t, ht, hs⟩ := Option.bind_eq_some_iff.mp hs
    obtain ⟨t', ht', rfl⟩ := Option.map_eq_some_iff.mp hs
    refine bound_set h (bound_handle (h t (List.mem_of_getElem? ht)) ht' ?_)
    rintro id n m rfl
    exact hu t ht

/-- A screen that only asks for its tasks and saves while the user of its own reply is signed in
stays with that one account. -/
theorem oneAccount_of_sameUser {es : List AppEvent} (hu : Along (App.step U) SameUser {} es) :
    Always (App.step U) OneAccount {} es := by
  refine always_of_along (I := fun a _ => a.Bound) (fun a _ h t ht => ?_)
    (fun _ _ _ _ h hs hp => bound_step h hs hp) (by simp [App.Bound]) hu
  have hb := h t ht
  exact ⟨t.opener, hb.replied, hb.verified, hb.touched⟩

theorem oneAccount_in_turn : Always (App.step .ascii) OneAccount {}
    [.loginPressed someMail "pw".toList, .loginPressed otherMail "pw".toList, .signedIn 0 true,
      .viewDidLoad 0, .act 0 (.passBackData idA "run".toList ten), .signedIn 0 true,
      .act 0 (.reply (.success [])), .viewDidLoad 1,
      .act 1 (.passBackData idB "read".toList ten)] :=
  oneAccount_of_sameUser (by decide +kernel)

/-- A second attempt is answered while the task screen of the first is open: the account is not
verified, yet the screen saves under its email. -/
theorem screen_changes_account : ∃ a,
    run (App.step .ascii) {} [.loginPressed someMail "pw".toList,
      .loginPressed otherMail "pw".toList, .signedIn 0 true, .viewDidLoad 0,
      .act 0 (.reply (.success [someEntry idA "run".toList])), .signedIn 0 false,
      .act 0 (.passBackData idB "read".toList ten)] = some a ∧ ¬ OneAccount a := by
  obtain ⟨a, ha, ht⟩ := Option.map_eq_some_iff.mp (show (run (App.step .ascii) {}
    [.loginPressed someMail "pw".toList,
      .loginPressed otherMail "pw".toList, .signedIn 0 true, .viewDidLoad 0,
      .act 0 (.reply (.success [someEntry idA "run".toList])), .signedIn 0 false,
      .act 0 (.passBackData idB "read".toList ten)]).map
        (fun a => a.screens.map TaskScreen.touched) =
        some [[someMail, otherMail, otherMail]] by decide +kernel)
  refine ⟨a, ha, fun h => ?_⟩
  obtain ⟨t, htm, hte⟩ := List.mem_map.mp (ht ▸ List.mem_cons_self :
    [someMail, otherMail, otherMail] ∈ a.screens.map TaskScreen.touched)
  obtain ⟨user, _, _, hall⟩ := h t htm
  have h₁ := hall someMail (by simp [hte])
  have h₂ := hall otherMail (by simp [hte])
  exact absurd (h₁.trans h₂.symm) (by decide)

end MobileApps.Storyboard

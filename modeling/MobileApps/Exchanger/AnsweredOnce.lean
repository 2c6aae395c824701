import MobileApps.Exchanger.AuthentificationManager
import MobileApps.Library.Rows

/-! How often the completions of the authentication calls are called: `logInUser` refuses an empty
field and signs in all the same. -/

namespace MobileApps.Exchanger

open Library.Unicode Library.Rows Library.Runs

inductive AuthCall
  | createNewUser (email password : Text)
  | logInUser (email password : Text)
  | resetPass (email : Text)
  deriving DecidableEq

namespace AuthCall

def valid : AuthCall → Bool
  | createNewUser email password => validateEmail email && validatePassword password
  | logInUser email password => email != [] && password != []
  | resetPass email => email != []

def perform {κ : Type} (m : AuthentificationManager κ) (completion : κ) :
    AuthCall → AuthentificationManager κ × List Bool
  | createNewUser email password => m.createNewUser email password completion
  | logInUser email password => m.logInUser email password completion
  | resetPass email => m.resetPass email completion

def request : AuthCall → AuthRequest
  | createNewUser email password => .createUser email password
  | logInUser email password => .signIn email password
  | resetPass email => .sendPasswordReset email

def passes : AuthCall → Bool
  | logInUser email password => email != [] && password != []
  | createNewUser .. | resetPass _ => true

lemma perform_valid {κ : Type} (m : AuthentificationManager κ) (k : κ) {c : AuthCall}
    (h : c.valid) : c.perform m k = (m.send c.request k, []) := by
  cases c with
  | createNewUser | logInUser =>
    obtain ⟨he, hp⟩ := Bool.and_eq_true_iff.mp h
    simp_all [perform, AuthentificationManager.createNewUser, AuthentificationManager.logInUser,
      request]
  | resetPass => simp_all [perform, AuthentificationManager.resetPass, request, valid]

lemma perform_invalid {κ : Type} (m : AuthentificationManager κ) (k : κ) {c : AuthCall}
    (h : c.valid = false) (hp : c.passes) : c.perform m k = (m, [false]) := by
  cases c with
  | createNewUser email password =>
    simp only [valid, Bool.and_eq_false_iff] at h
    simp only [perform, AuthentificationManager.createNewUser]
    split_ifs <;> simp_all
  | logInUser => exact absurd (h.symm.trans hp) Bool.false_ne_true
  | resetPass => simp_all [perform, AuthentificationManager.resetPass, valid]

lemma perform_unless_passes {κ : Type} (m : AuthentificationManager κ) (k : κ) {c : AuthCall}
    (h : c.passes = false) : c.valid = false ∧ c.perform m k = (m.send c.request k, [false]) := by
  cases c with
  | createNewUser | resetPass => cases h
  | logInUser email password =>
    refine ⟨h, ?_⟩
    simp only [passes, Bool.and_eq_false_iff, bne_eq_false_iff_eq] at h
    simp only [perform, AuthentificationManager.logInUser, request]
    split_ifs <;> simp_all

end AuthCall

/-- Calls by number. `completions` are the calls of completions, `refused` the calls whose local
validation failed, `sent` those that sent a request, and `assigned` those that changed
`currentEmail`, then or with their reply. -/
structure AuthCalls where
  manager : AuthentificationManager ℕ := {}
  calls : ℕ := 0
  completions : List (ℕ × Bool) := []
  refused : List ℕ := []
  sent : List ℕ := []
  assigned : List ℕ := []

inductive AuthEvent
  | call (c : AuthCall)
  | reply (i : ℕ) (r : AuthReply)
  deriving DecidableEq

def AuthEvent.passes : AuthEvent → Bool
  | .call c => c.passes
  | .reply .. => true

namespace AuthCalls

def assignedBy (s : AuthCalls) (m : AuthentificationManager ℕ) (k : ℕ) : List ℕ :=
  if m.currentEmail = s.manager.currentEmail then s.assigned else s.assigned ++ [k]

def step (s : AuthCalls) : AuthEvent → Option AuthCalls
  | .call c =>
      let (m, answers) := c.perform s.manager s.calls
      some {
        manager := m
        calls := s.calls + 1
        completions := s.completions ++ answers.map fun done => (s.calls, done)
        refused := if c.valid then s.refused else s.refused ++ [s.calls]
        sent := s.sent ++ (m.inFlight.drop s.manager.inFlight.length).map Prod.snd
        assigned := s.assignedBy m s.calls }
  | .reply i r => (s.manager.reply i r).map fun a => { s with
      manager := a.1
      completions := s.completions ++ [a.2]
      assigned := s.assignedBy a.1 a.2.1 }

def waiting (s : AuthCalls) : List ℕ := s.manager.inFlight.map Prod.snd

structure AnsweredOnce (s : AuthCalls) : Prop where
  once : ∀ k < s.calls, (s.completions.map Prod.fst).count k = if k ∈ s.waiting then 0 else 1
  refused : ∀ k ∈ s.refused, k ∉ s.sent ∧ k ∉ s.assigned

structure Booked (s : AuthCalls) : Prop where
  once : ∀ k, (s.completions.map Prod.fst).count k + s.waiting.count k =
    if k < s.calls then 1 else 0
  waiting : ∀ k ∈ s.waiting, k ∈ s.sent
  called : ∀ k, k ∈ s.refused ∨ k ∈ s.sent ∨ k ∈ s.assigned → k < s.calls
  refused : ∀ k ∈ s.refused, k ∉ s.sent ∧ k ∉ s.assigned

variable {s t : AuthCalls}

lemma step_valid {c : AuthCall} (hv : c.valid) : s.step (.call c) = some { s with
    manager := s.manager.send c.request s.calls
    calls := s.calls + 1
    sent := s.sent ++ [s.calls] } := by
  simp [step, AuthCall.perform_valid _ _ hv, hv, AuthentificationManager.send, assignedBy]

lemma step_invalid {c : AuthCall} (hv : c.valid = false) (hp : c.passes) :
    s.step (.call c) = some { s with
      calls := s.calls + 1
      completions := s.completions ++ [(s.calls, false)]
      refused := s.refused ++ [s.calls] } := by
  simp [step, AuthCall.perform_invalid _ _ hv hp, hv, assignedBy]

lemma step_unless_passes {c : AuthCall} (hp : c.passes = false) :
    s.step (.call c) = some {
      manager := s.manager.send c.request s.calls
      calls := s.calls + 1
      completions := s.completions ++ [(s.calls, false)]
      refused := s.refused ++ [s.calls]
      sent := s.sent ++ [s.calls]
      assigned := s.assigned } := by
  obtain ⟨hv, hc⟩ := AuthCall.perform_unless_passes s.manager s.calls hp
  simp [step, hc, hv, AuthentificationManager.send, assignedBy]

lemma step_reply {i : ℕ} {r : AuthReply} : s.step (.reply i r) = some t ↔
    ∃ c, s.manager.inFlight[i]? = some c ∧ t = { s with
      manager := { s.manager with inFlight := s.manager.inFlight.eraseIdx i }.replied c.1 r
      completions := s.completions ++ [(c.2, r.done)]
      assigned := s.assignedBy
        ({ s.manager with inFlight := s.manager.inFlight.eraseIdx i }.replied c.1 r) c.2 } := by
  rw [step, AuthentificationManager.reply, Option.map_map]
  exact mapped_some

lemma booked_valid (h : Booked s) (q : AuthRequest) : Booked { s with
    manager := s.manager.send q s.calls
    calls := s.calls + 1
    sent := s.sent ++ [s.calls] } where
  once k := by
    have hk := h.once k
    by_cases hc : k = s.calls
    · subst hc
      simp_all [AuthCalls.waiting, AuthentificationManager.send, List.count_append]
    · have hlt : k < s.calls + 1 ↔ k < s.calls := by omega
      simp_all [AuthCalls.waiting, AuthentificationManager.send, List.count_append,
        Ne.symm hc]
  waiting k hk := by
    simp only [AuthCalls.waiting, AuthentificationManager.send, List.map_append, List.map_cons,
      List.map_nil] at hk
    rcases List.mem_append.mp hk with hk | hk
    · exact List.mem_append_left _ (h.waiting k hk)
    · exact List.mem_append_right _ hk
  called k hk := by
    have hk : k ∈ s.refused ∨ k ∈ s.sent ∨ k ∈ s.assigned ∨ k = s.calls := by
      simpa [or_assoc, or_comm, or_left_comm] using hk
    rcases hk with hk | hk | hk | rfl
    · exact Nat.lt_succ_of_lt (h.called k (Or.inl hk))
    · exact Nat.lt_succ_of_lt (h.called k (Or.inr (Or.inl hk)))
    · exact Nat.lt_succ_of_lt (h.called k (Or.inr (Or.inr hk)))
    · exact Nat.lt_succ_self _
  refused k hk := by
    have hlt := h.called k (Or.inl hk)
    refine ⟨fun hs => ?_, (h.refused k hk).2⟩
    rcases List.mem_append.mp hs with hs | hs
    · exact (h.refused k hk).1 hs
    · exact absurd (List.mem_singleton.mp hs) (Nat.ne_of_lt hlt)

lemma booked_invalid (h : Booked s) : Booked { s with
    calls := s.calls + 1
    completions := s.completions ++ [(s.calls, false)]
    refused := s.refused ++ [s.calls] } where
  once k := by
    have hk := h.once k
    by_cases hc : k = s.calls
    · subst hc
      simp_all [AuthCalls.waiting, List.count_append]
    · have hlt : k < s.calls + 1 ↔ k < s.calls := by omega
      simp_all [AuthCalls.waiting, List.count_append, Ne.symm hc]
  waiting := h.waiting
  called k hk := by
    simp only [List.mem_append, List.mem_singleton] at hk
    rcases hk with (hk | rfl) | hk
    · exact Nat.lt_succ_of_lt (h.called k (Or.inl hk))
    · exact Nat.lt_succ_self _
    · exact Nat.lt_succ_of_lt (h.called k (Or.inr hk))
  refused k hk := by
    rcases List.mem_append.mp hk with hk | hk
    · exact h.refused k hk
    · obtain rfl := List.mem_singleton.mp hk
      constructor
      · exact fun hs => Nat.lt_irrefl _ (h.called _ (Or.inr (Or.inl hs)))
      · exact fun ha => Nat.lt_irrefl _ (h.called _ (Or.inr (Or.inr ha)))

lemma booked_reply {i : ℕ} {r : AuthReply} (h : Booked s) (hs : s.step (.reply i r) = some t) :
    Booked t := by
  obtain ⟨c, hc, rfl⟩ := step_reply.mp hs
  have hp := (erase_perm hc).map Prod.snd
  have hw : s.waiting.Perm (c.2 :: (s.manager.inFlight.eraseIdx i).map Prod.snd) := hp
  have hsent : c.2 ∈ s.sent := h.waiting c.2 (hw.mem_iff.mpr List.mem_cons_self)
  have hassigned : ∀ {m : AuthentificationManager ℕ} {k : ℕ}, k ∈ s.assignedBy m c.2 →
      k ∈ s.assigned ∨ k = c.2 := by
    intro m k hk
    rw [assignedBy] at hk
    split at hk
    · exact Or.inl hk
    · simpa using hk
  refine ⟨fun k => ?_, fun k hk => ?_, fun k hk => ?_, fun k hk => ⟨(h.refused k hk).1, ?_⟩⟩
  · rw [← h.once k, hw.count_eq, List.count_cons, AuthCalls.waiting,
      AuthentificationManager.replied_inFlight, List.map_append, List.count_append,
      List.map_singleton, List.count_singleton]
    dsimp only
    omega
  · rw [AuthCalls.waiting, AuthentificationManager.replied_inFlight] at hk
    exact h.waiting k (hw.mem_iff.mpr (List.mem_cons_of_mem _ hk))
  · rcases hk with hk | hk | hk
    · exact h.called k (Or.inl hk)
    · exact h.called k (Or.inr (Or.inl hk))
    · rcases hassigned hk with hk | rfl
      · exact h.called k (Or.inr (Or.inr hk))
      · exact h.called _ (Or.inr (Or.inl hsent))
  · intro ha
    rcases hassigned ha with ha | rfl
    · exact (h.refused k hk).2 ha
    · exact (h.refused _ hk).1 hsent

lemma booked_step {e : AuthEvent} (h : Booked s) (he : e.passes) (hs : s.step e = some t) :
    Booked t := by
  cases e with
  | call c =>
    cases hv : c.valid with
    | true =>
      obtain rfl := Option.some.inj ((step_valid hv).symm.trans hs)
      exact booked_valid h _
    | false =>
      obtain rfl := Option.some.inj ((step_invalid hv he).symm.trans hs)
      exact booked_invalid h
  | reply i r => exact booked_reply h hs

lemma run_booked {es : List AuthEvent} (h : Booked s) (hes : ∀ e ∈ es, e.passes)
    (hr : run step s es = some t) : Booked t := by
  refine (run_invariant (I := fun s es => Booked s ∧ ∀ e ∈ es, e.passes) ?_ ⟨h, hes⟩ hr).1
  rintro s e es t ⟨h, hes⟩ hs
  obtain ⟨he, hes⟩ := List.forall_mem_cons.mp hes
  exact ⟨booked_step h he hs, hes⟩

lemma step_grows {e : AuthEvent} (hs : s.step e = some t) :
    s.refused ⊆ t.refused ∧ s.sent ⊆ t.sent := by
  cases e with
  | call c =>
    obtain rfl := Option.some.inj hs
    refine ⟨?_, List.subset_append_left _ _⟩
    cases hv : c.valid <;> simp
  | reply i r =>
    obtain ⟨_, _, rfl⟩ := step_reply.mp hs
    exact ⟨List.Subset.refl _, List.Subset.refl _⟩

lemma run_refused_sent {es : List AuthEvent} (hr : run step s es = some t)
    (h : (∃ k ∈ s.refused, k ∈ s.sent) ∨ ∃ e ∈ es, e.passes = false) :
    ∃ k ∈ t.refused, k ∈ t.sent := by
  induction es generalizing s with
  | nil =>
    obtain rfl := Option.some.inj hr
    simpa using h
  | cons e es ih =>
    obtain ⟨u, hu, hr⟩ := run_cons.mp hr
    apply ih hr
    rcases h with ⟨k, hk, hs⟩ | ⟨e', he', hp⟩
    · exact Or.inl ⟨k, (step_grows hu).1 hk, (step_grows hu).2 hs⟩
    · rcases List.mem_cons.mp he' with rfl | he'
      · left
        cases e' with
        | call c =>
          obtain rfl := Option.some.inj ((step_unless_passes hp).symm.trans hu)
          exact ⟨s.calls, by simp, by simp⟩
        | reply => cases hp
      · exact Or.inr ⟨e', he', hp⟩

lemma answeredOnce_of_booked (h : Booked s) : s.AnsweredOnce := by
  refine ⟨fun k hk => ?_, h.refused⟩
  have honce := h.once k
  rw [if_pos hk] at honce
  by_cases hw : k ∈ s.waiting
  · rw [if_pos hw]
    have hpos := List.count_pos_iff.mpr hw
    omega
  · rw [if_neg hw]
    rwa [List.count_eq_zero.mpr hw] at honce

/-- After every run each answered call has called its completion once, and refused calls have sent
nothing and left `currentEmail` alone, exactly when no login was called with an empty email or
password. -/
theorem answeredOnce_iff {es : List AuthEvent} (hr : run step {} es = some s) :
    s.AnsweredOnce ↔ ∀ e ∈ es, e.passes := by
  constructor
  · intro h e he
    by_contra hp
    obtain ⟨k, hk, hs⟩ := run_refused_sent hr (Or.inr ⟨e, he, Bool.not_eq_true _ ▸ hp⟩)
    exact (h.refused k hk).1 hs
  · intro hes
    apply answeredOnce_of_booked
    refine run_booked ?_ hes hr
    constructor <;> simp [AuthCalls.waiting]

def resetThenLogin : List AuthEvent :=
  [.call (.resetPass []), .call (.logInUser "a@b.co".toList "Abcdef1".toList),
    .reply 0 (.success (some "a@b.co".toList))]

theorem answered_reset_and_login : ∃ s, run step {} resetThenLogin = some s ∧
    s.AnsweredOnce := by
  obtain ⟨s, hs⟩ : ∃ s, run step {} resetThenLogin = some s := ⟨_, rfl⟩
  exact ⟨s, hs, (answeredOnce_iff hs).mpr (by decide)⟩

theorem empty_login_answered_twice : ∃ s,
    run step {} [.call (.logInUser [] "Abcdef1".toList), .reply 0 .error] = some s ∧
    s.manager.inFlight = [] ∧ s.completions = [(0, false), (0, false)] ∧ s.refused = [0] ∧
    s.sent = [0] ∧ ¬ s.AnsweredOnce :=
  ⟨_, rfl, rfl, rfl, rfl, rfl, fun h => absurd (h.once 0 (by decide)) (by decide)⟩

end AuthCalls

end MobileApps.Exchanger

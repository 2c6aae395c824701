import MobileApps.Library.Rows
import MobileApps.SwiftUI.Authentication

/-! `createUser` answers before the reply of the verification mail that it requests. -/

namespace MobileApps.SwiftUI

open Library.Unicode Library.Rows Library.Runs

/-- Calls of `createUser` by number. `created` are the calls whose account exists, with the account,
and `accepted` those whose verification mail was accepted, with the user that it goes to. -/
structure Verification where
  requests : Signups ℕ := {}
  screen : SignupView := {}
  calls : ℕ := 0
  answered : List (ℕ × Bool) := []
  created : List (ℕ × Text) := []
  accepted : List (ℕ × Text) := []

/-- A success is labelled with the account that now exists and with the current user, who may be
another one or nobody. -/
inductive VerificationEvent
  | createUser (emailField passwordField : Text)
  | created (k : ℕ) (account : Text) (currentUser : Option Text)
  | createFailed (k : ℕ)
  | mailAccepted (k : ℕ)
  | mailRefused (k : ℕ)
  deriving DecidableEq

def VerificationEvent.succeeds : VerificationEvent → Bool
  | .created .. => true
  | .createUser .. | .createFailed _ | .mailAccepted _ | .mailRefused _ => false

namespace Verification

def creatingAt (s : Verification) (k : ℕ) : ℕ :=
  s.requests.creating.findIdx fun r => r.completion == k

def mailingAt (s : Verification) (k : ℕ) : ℕ :=
  s.requests.mailing.findIdx fun r => r.completion == k

def mailed (s : Verification) (k : ℕ) : Verification :=
  { s with requests := { s.requests with mailing := s.requests.mailing.eraseIdx (s.mailingAt k) } }

def step (s : Verification) : VerificationEvent → Option Verification
  | .createUser emailField passwordField => some { s with
      requests := s.requests.createUser emailField passwordField s.calls
      calls := s.calls + 1 }
  | .created k account currentUser =>
      (s.requests.created (s.creatingAt k) currentUser).map fun r => { s with
        requests := r.1
        screen := s.screen.done r.2.2
        answered := s.answered ++ [r.2]
        created := s.created ++ [(r.2.1, account)] }
  | .createFailed k => (s.requests.createFailed (s.creatingAt k)).map fun r => { s with
      requests := r.1
      screen := s.screen.done r.2.2
      answered := s.answered ++ [r.2] }
  | .mailAccepted k => s.requests.mailing[s.mailingAt k]?.map fun r =>
      { s.mailed k with accepted := s.accepted ++ [(r.completion, r.user)] }
  | .mailRefused k => s.requests.mailing[s.mailingAt k]?.map fun _ => s.mailed k

def Mailed (s : Verification) (k : ℕ) : Prop :=
  ∃ account, (k, account) ∈ s.created ∧ (k, account) ∈ s.accepted

structure ReportsMail (s : Verification) : Prop where
  answered : ∀ k, (k, true) ∈ s.answered → s.Mailed k
  presented : s.screen.presentMain → ∃ k, (k, true) ∈ s.answered ∧ s.Mailed k

def waiting (s : Verification) : List ℕ := s.requests.creating.map CreateRequest.completion

structure Counted (s : Verification) : Prop where
  calls : ∀ k ∈ s.waiting ++ s.created.map Prod.fst, k < s.calls
  nodup : (s.waiting ++ s.created.map Prod.fst).Nodup
  mailing : ∀ r ∈ s.requests.mailing, r.completion ∈ s.created.map Prod.fst
  accepted : ∀ m ∈ s.accepted, m.1 ∈ s.created.map Prod.fst
  answered : ∀ k, (k, true) ∈ s.answered ↔ k ∈ s.created.map Prod.fst
  presented : s.screen.presentMain → s.created ≠ []

variable {s t : Verification} {k : ℕ}

lemma creatingAt_completion {r : CreateRequest ℕ}
    (hr : s.requests.creating[s.creatingAt k]? = some r) : r.completion = k := by
  obtain ⟨hlt, rfl⟩ := List.getElem?_eq_some_iff.mp hr
  exact eq_of_beq (List.findIdx_getElem (w := hlt))

lemma mailingAt_completion {r : MailRequest ℕ}
    (hr : s.requests.mailing[s.mailingAt k]? = some r) : r.completion = k := by
  obtain ⟨hlt, rfl⟩ := List.getElem?_eq_some_iff.mp hr
  exact eq_of_beq (List.findIdx_getElem (w := hlt))

lemma step_created {account : Text} {currentUser : Option Text} :
    s.step (.created k account currentUser) = some t ↔
      ∃ r, s.requests.creating[s.creatingAt k]? = some r ∧ t = { s with
        requests := {
          creating := s.requests.creating.eraseIdx (s.creatingAt k)
          mailing := s.requests.mailing ++
            currentUser.toList.map fun user => ⟨user, r.completion⟩ }
        screen := s.screen.done true
        answered := s.answered ++ [(r.completion, true)]
        created := s.created ++ [(r.completion, account)] } := by
  rw [step, Signups.created, Option.map_map]
  exact mapped_some

lemma step_createFailed :
    s.step (.createFailed k) = some t ↔
      ∃ r, s.requests.creating[s.creatingAt k]? = some r ∧ t = { s with
        requests := { s.requests with creating := s.requests.creating.eraseIdx (s.creatingAt k) }
        screen := s.screen.done false
        answered := s.answered ++ [(r.completion, false)] } := by
  rw [step, Signups.createFailed, Option.map_map]
  exact mapped_some

lemma waiting_perm {i : ℕ} {r : CreateRequest ℕ} (hr : s.requests.creating[i]? = some r) :
    s.waiting.Perm
      (r.completion :: (s.requests.creating.eraseIdx i).map CreateRequest.completion) :=
  (erase_perm hr).map CreateRequest.completion

lemma not_created (h : Counted s) {i : ℕ} {r : CreateRequest ℕ}
    (hr : s.requests.creating[i]? = some r) : r.completion ∉ s.created.map Prod.fst :=
  fun hk => (List.nodup_append.mp h.nodup).2.2 _ (List.mem_map_of_mem (List.mem_of_getElem? hr)) _
    hk rfl

lemma counted_step {e : VerificationEvent} (h : Counted s) (hs : s.step e = some t) :
    Counted t := by
  cases e with
  | createUser emailField passwordField =>
    obtain rfl := Option.some.inj hs
    have hw : ({ s with
        requests := s.requests.createUser emailField passwordField s.calls
        calls := s.calls + 1 } : Verification).waiting = s.waiting ++ [s.calls] := by
      simp [waiting, Signups.createUser]
    have hp : ((s.waiting ++ [s.calls]) ++ s.created.map Prod.fst).Perm
        (s.calls :: (s.waiting ++ s.created.map Prod.fst)) := by
      rw [List.append_assoc]
      exact List.perm_middle
    refine ⟨fun k hk => ?_, ?_, h.mailing, h.accepted, h.answered, h.presented⟩
    · rw [hw] at hk
      rcases List.mem_cons.mp (hp.mem_iff.mp hk) with rfl | hk
      · exact Nat.lt_succ_self _
      · exact Nat.lt_succ_of_lt (h.calls k hk)
    · rw [hw, hp.nodup_iff, List.nodup_cons]
      exact ⟨fun hk => Nat.lt_irrefl _ (h.calls _ hk), h.nodup⟩
  | created k account currentUser =>
    obtain ⟨r, hr, rfl⟩ := step_created.mp hs
    have hp : ((s.requests.creating.eraseIdx (s.creatingAt k)).map CreateRequest.completion ++
        (s.created ++ [(r.completion, account)]).map Prod.fst).Perm
        (s.waiting ++ s.created.map Prod.fst) := by
      refine List.Perm.trans ?_ ((waiting_perm hr).append_right (s.created.map Prod.fst)).symm
      rw [List.map_append, ← List.append_assoc]
      exact List.perm_append_singleton _ _
    refine ⟨fun k hk => h.calls k (hp.mem_iff.mp hk), hp.nodup_iff.mpr h.nodup, fun m hm => ?_,
      fun m hm => ?_, fun k => ?_, fun _ => by simp⟩
    · rw [List.map_append, List.mem_append]
      rcases List.mem_append.mp hm with hm | hm
      · exact Or.inl (h.mailing m hm)
      · obtain ⟨user, _, rfl⟩ := List.mem_map.mp hm
        exact Or.inr List.mem_cons_self
    · rw [List.map_append]
      exact List.mem_append_left _ (h.accepted m hm)
    · simp [h.answered]
  | createFailed k =>
    obtain ⟨r, hr, rfl⟩ := step_createFailed.mp hs
    have hsub : ((s.requests.creating.eraseIdx (s.creatingAt k)).map CreateRequest.completion ++
        s.created.map Prod.fst).Sublist (s.waiting ++ s.created.map Prod.fst) :=
      ((List.eraseIdx_sublist _ _).map CreateRequest.completion).append_right _
    refine ⟨fun k hk => h.calls k (hsub.subset hk), h.nodup.sublist hsub, h.mailing, h.accepted,
      fun k => ?_, fun hp => absurd hp Bool.false_ne_true⟩
    simp [h.answered]
  | mailAccepted k =>
    obtain ⟨r, hr, rfl⟩ := Option.map_eq_some_iff.mp hs
    refine ⟨h.calls, h.nodup, fun m hm => h.mailing m (eraseIdx_subset _ _ hm), fun m hm => ?_,
      h.answered, h.presented⟩
    rcases List.mem_append.mp hm with hm | hm
    · exact h.accepted m hm
    · obtain rfl := List.mem_singleton.mp hm
      exact h.mailing r (List.mem_of_getElem? hr)
  | mailRefused k =>
    obtain ⟨r, hr, rfl⟩ := Option.map_eq_some_iff.mp hs
    exact ⟨h.calls, h.nodup, fun m hm => h.mailing m (eraseIdx_subset _ _ hm), h.accepted,
      h.answered, h.presented⟩

lemma counted_init : Counted {} := by
  constructor <;> simp [waiting]

structure Traced (past : List VerificationEvent) (s : Verification) : Prop where
  counted : Counted s
  created : ∀ k account, (k, account) ∈ s.created ↔ ∃ user, .created k account user ∈ past
  unique : ∀ k account user account' user', .created k account user ∈ past →
    .created k account' user' ∈ past → account = account' ∧ user = user'
  mailing : ∀ r ∈ s.requests.mailing, ∃ account, .created r.completion account (some r.user) ∈ past
  replied : ∀ k, .mailAccepted k ∈ past → k ∈ s.created.map Prod.fst
  accepted : ∀ k user, (k, user) ∈ s.accepted ↔
    (∃ account, .created k account (some user) ∈ past) ∧ .mailAccepted k ∈ past

lemma mem_past {past : List VerificationEvent} {e f : VerificationEvent} (h : f ≠ e) :
    f ∈ past ++ [e] ↔ f ∈ past := by
  rw [List.mem_append, List.mem_singleton, or_iff_left h]

lemma traced_other {past : List VerificationEvent} {e : VerificationEvent} (h : Traced past s)
    (hs : s.step e = some t) (hc : e.succeeds = false) (hm : ∀ k, e ≠ .mailAccepted k)
    (hcreated : t.created = s.created) (haccepted : t.accepted = s.accepted)
    (hmailing : t.requests.mailing ⊆ s.requests.mailing) : Traced (past ++ [e]) t := by
  have hne : ∀ k account user, .created k account user ≠ e := by
    rintro k account user rfl
    exact Bool.noConfusion hc
  have hcm : ∀ k account user, .created k account user ∈ past ++ [e] ↔
      .created k account user ∈ past := fun k account user => mem_past (hne k account user)
  have hmm : ∀ k, .mailAccepted k ∈ past ++ [e] ↔ .mailAccepted k ∈ past :=
    fun k => mem_past (hm k).symm
  refine ⟨counted_step h.counted hs, ?_, ?_, fun r hr => ?_, ?_, ?_⟩
  · simpa only [hcm, hcreated] using h.created
  · simpa only [hcm] using h.unique
  · simpa only [hcm] using h.mailing r (hmailing hr)
  · simpa only [hmm, hcreated] using h.replied
  · simpa only [hcm, hmm, haccepted] using h.accepted

lemma traced_created {past : List VerificationEvent} {account : Text} {currentUser : Option Text}
    (h : Traced past s) (hs : s.step (.created k account currentUser) = some t) :
    Traced (past ++ [.created k account currentUser]) t := by
  have hcounted := counted_step h.counted hs
  obtain ⟨r, hr, rfl⟩ := step_created.mp hs
  have hnew := not_created h.counted hr
  obtain rfl := creatingAt_completion hr
  -- the call was not answered before
  have hfresh : ∀ account user, .created r.completion account user ∉ past := fun account user hp =>
    hnew (List.mem_map.mpr ⟨_, (h.created _ account).mpr ⟨user, hp⟩, rfl⟩)
  have hunanswered : .mailAccepted r.completion ∉ past := fun hp => hnew (h.replied _ hp)
  have hmem : ∀ k account' user', .created k account' user' ∈
      past ++ [.created r.completion account currentUser] ↔ .created k account' user' ∈ past ∨
        k = r.completion ∧ account' = account ∧ user' = currentUser := by
    intro k account' user'
    rw [List.mem_append, List.mem_singleton, VerificationEvent.created.injEq]
  have hmail : ∀ k, .mailAccepted k ∈ past ++ [.created r.completion account currentUser] ↔
      .mailAccepted k ∈ past := fun k => mem_past VerificationEvent.noConfusion
  refine ⟨hcounted, fun k account' => ?_, fun k a u a' u' hk hk' => ?_, fun m hm => ?_,
    fun k hk => ?_, fun k user => ?_⟩
  · simp only [List.mem_append, List.mem_singleton, Prod.mk.injEq, h.created, hmem, exists_or]
    exact or_congr_right ⟨fun hk => ⟨currentUser, hk.1, hk.2, rfl⟩,
      fun ⟨_, hk, ha, _⟩ => ⟨hk, ha⟩⟩
  · rcases (hmem ..).mp hk with hk | ⟨rfl, rfl, rfl⟩ <;>
      rcases (hmem ..).mp hk' with hk' | ⟨heq, ha, hu⟩
    · exact h.unique k a u a' u' hk hk'
    · rw [heq] at hk
      exact absurd hk (hfresh a u)
    · exact absurd hk' (hfresh a' u')
    · exact ⟨ha.symm, hu.symm⟩
  · rcases List.mem_append.mp hm with hm | hm
    · obtain ⟨a, ha⟩ := h.mailing m hm
      exact ⟨a, List.mem_append_left _ ha⟩
    · obtain ⟨user, hu, rfl⟩ := List.mem_map.mp hm
      rw [Option.mem_toList.mp hu]
      exact ⟨account, List.mem_append_right _ List.mem_cons_self⟩
  · rw [List.map_append]
    exact List.mem_append_left _ (h.replied k ((hmail k).mp hk))
  · rw [hmail, h.accepted]
    refine and_congr_left fun hk => exists_congr fun a => ?_
    rw [hmem, or_iff_left]
    rintro ⟨rfl, -⟩
    exact hunanswered hk

lemma traced_mailAccepted {past : List VerificationEvent} (h : Traced past s)
    (hs : s.step (.mailAccepted k) = some t) : Traced (past ++ [.mailAccepted k]) t := by
  have hcounted := counted_step h.counted hs
  obtain ⟨r, hr, rfl⟩ := Option.map_eq_some_iff.mp hs
  obtain ⟨account, ha⟩ := h.mailing r (List.mem_of_getElem? hr)
  obtain rfl := mailingAt_completion hr
  have hmem : ∀ k a u, .created k a u ∈ past ++ [.mailAccepted r.completion] ↔
      .created k a u ∈ past := fun k a u => mem_past VerificationEvent.noConfusion
  have hmail : ∀ k, .mailAccepted k ∈ past ++ [.mailAccepted r.completion] ↔
      .mailAccepted k ∈ past ∨ k = r.completion := by
    intro k
    rw [List.mem_append, List.mem_singleton, VerificationEvent.mailAccepted.injEq]
  refine ⟨hcounted, ?_, ?_, fun m hm => ?_, fun k hk => ?_, fun k user => ?_⟩
  · simpa only [hmem, mailed] using h.created
  · simpa only [hmem] using h.unique
  · simpa only [hmem] using h.mailing m (eraseIdx_subset _ _ hm)
  · rcases (hmail k).mp hk with hk | rfl
    · exact h.replied k hk
    · exact List.mem_map.mpr ⟨_, (h.created _ account).mpr ⟨_, ha⟩, rfl⟩
  · simp only [hmem, hmail, List.mem_append, List.mem_singleton, Prod.mk.injEq, h.accepted]
    constructor
    · rintro (⟨hc, hk⟩ | ⟨rfl, rfl⟩)
      · exact ⟨hc, Or.inl hk⟩
      · exact ⟨⟨account, ha⟩, Or.inr rfl⟩
    · rintro ⟨⟨a, hc⟩, hk | rfl⟩
      · exact Or.inl ⟨⟨a, hc⟩, hk⟩
      · exact Or.inr ⟨rfl, Option.some.inj (h.unique _ a _ account _ hc ha).2⟩

lemma traced_step {past : List VerificationEvent} {e : VerificationEvent} (h : Traced past s)
    (hs : s.step e = some t) : Traced (past ++ [e]) t := by
  cases e with
  | createUser emailField passwordField =>
    refine traced_other h hs rfl (fun _ => VerificationEvent.noConfusion) ?_ ?_ ?_ <;>
      obtain rfl := Option.some.inj hs
    · rfl
    · rfl
    · exact List.Subset.refl _
  | created => exact traced_created h hs
  | createFailed k =>
    refine traced_other h hs rfl (fun _ => VerificationEvent.noConfusion) ?_ ?_ ?_ <;>
      obtain ⟨r, _, rfl⟩ := step_createFailed.mp hs
    · rfl
    · rfl
    · exact List.Subset.refl _
  | mailAccepted => exact traced_mailAccepted h hs
  | mailRefused k =>
    refine traced_other h hs rfl (fun _ => VerificationEvent.noConfusion) ?_ ?_ ?_ <;>
      obtain ⟨r, _, rfl⟩ := Option.map_eq_some_iff.mp hs
    · rfl
    · rfl
    · exact eraseIdx_subset _ _

lemma run_traced {es : List VerificationEvent} (hr : run step {} es = some t) : Traced es t := by
  have hinit : Traced [] {} := by
    constructor <;> simp [counted_init]
  simpa using run_past (fun _ _ _ _ h hs => traced_step h hs) hinit hr

def AllMailed (es : List VerificationEvent) : Prop :=
  ∀ k account currentUser, .created k account currentUser ∈ es →
    currentUser = some account ∧ .mailAccepted k ∈ es

lemma reportsMail_of_traced {es : List VerificationEvent} (h : Traced es s) :
    s.ReportsMail ↔ AllMailed es := by
  constructor
  · intro hm k account currentUser hk
    have hc : (k, account) ∈ s.created := (h.created k account).mpr ⟨currentUser, hk⟩
    obtain ⟨user, hu, ha⟩ := hm.answered k
      ((h.counted.answered k).mpr (List.mem_map.mpr ⟨_, hc, rfl⟩))
    obtain ⟨_, hu⟩ := (h.created k user).mp hu
    obtain ⟨⟨_, hs⟩, hk'⟩ := (h.accepted k user).mp ha
    rw [(h.unique k _ _ _ _ hk hs).2, (h.unique k _ _ _ _ hk hu).1]
    exact ⟨rfl, hk'⟩
  · intro hall
    have hmailed : ∀ k account, (k, account) ∈ s.created → s.Mailed k := by
      intro k account hc
      obtain ⟨currentUser, hk⟩ := (h.created k account).mp hc
      obtain ⟨rfl, hm⟩ := hall k account currentUser hk
      exact ⟨account, hc, (h.accepted k account).mpr ⟨⟨account, hk⟩, hm⟩⟩
    refine ⟨fun k hk => ?_, fun hp => ?_⟩
    · obtain ⟨⟨k, account⟩, hc, rfl⟩ := List.mem_map.mp ((h.counted.answered k).mp hk)
      exact hmailed k account hc
    · obtain ⟨⟨k, account⟩, hc⟩ := List.exists_mem_of_ne_nil _ (h.counted.presented hp)
      exact ⟨k, (h.counted.answered k).mpr (List.mem_map.mpr ⟨_, hc, rfl⟩), hmailed k account hc⟩

lemma reportsMail_step {e : VerificationEvent} (h : s.ReportsMail) (hs : s.step e = some t)
    (he : e.succeeds = false) : t.ReportsMail := by
  cases e with
  | createUser emailField passwordField =>
    obtain rfl := Option.some.inj hs
    exact ⟨h.answered, h.presented⟩
  | created => exact Bool.noConfusion he
  | createFailed k =>
    obtain ⟨r, _, rfl⟩ := step_createFailed.mp hs
    refine ⟨fun k hk => ?_, fun hp => absurd hp Bool.false_ne_true⟩
    simp only [List.mem_append, List.mem_singleton, Prod.mk.injEq] at hk
    exact h.answered k (hk.resolve_right fun hf => Bool.noConfusion hf.2)
  | mailAccepted k =>
    obtain ⟨r, _, rfl⟩ := Option.map_eq_some_iff.mp hs
    have hmailed : ∀ k, s.Mailed k → Mailed { s.mailed k with
        accepted := s.accepted ++ [(r.completion, r.user)] } k := by
      rintro k ⟨account, hc, ha⟩
      exact ⟨account, hc, List.mem_append_left _ ha⟩
    refine ⟨fun k hk => hmailed k (h.answered k hk), fun hp => ?_⟩
    obtain ⟨k, hk, hm⟩ := h.presented hp
    exact ⟨k, hk, hmailed k hm⟩
  | mailRefused k =>
    obtain ⟨r, _, rfl⟩ := Option.map_eq_some_iff.mp hs
    exact ⟨h.answered, h.presented⟩

lemma reported_early {account : Text} {currentUser : Option Text} (h : Counted s)
    (hs : s.step (.created k account currentUser) = some t) : ¬ t.ReportsMail := by
  obtain ⟨r, hr, rfl⟩ := step_created.mp hs
  intro hm
  obtain ⟨user, _, ha⟩ := hm.answered r.completion (List.mem_append_right _ List.mem_cons_self)
  exact not_created h hr (h.accepted _ ha)

/-- When `createUser` reports a success, its mail is never answered yet: the reports are right at
every moment exactly when no call succeeds. Judged by the answers that came later, they are right
exactly when each success found its own account signed in and its mail was accepted. -/
theorem reportsMail_iff (es : List VerificationEvent) :
    (Always step ReportsMail {} es ↔ Along step (fun _ e => e.succeeds = false) {} es) ∧
    ∀ s, run step {} es = some s → (s.ReportsMail ↔ AllMailed es) := by
  constructor
  · refine always_iff_along (I := fun s _ => Counted s ∧ s.ReportsMail) (fun _ _ h => h.2)
      (fun _ _ _ _ h hs he => ⟨counted_step h.1 hs, reportsMail_step h.2 hs he⟩)
      (fun s e _ t h hs hq => ?_) ⟨counted_init, ?_⟩
    · cases e with
      | created k account currentUser => exact absurd hq (reported_early h.1 hs)
      | createUser | createFailed | mailAccepted | mailRefused => rfl
    · constructor <;> simp
  · exact fun s hr => reportsMail_of_traced (run_traced hr)

def annEmail : Text := "a@b.co".toList

theorem refused_mail_presents : ∃ s,
    run step {} [.createUser annEmail "Abcdef1".toList, .created 0 annEmail (some annEmail),
      .mailRefused 0] = some s ∧
    s.answered = [(0, true)] ∧ s.screen.presentMain ∧ s.accepted = [] ∧ ¬ s.ReportsMail := by
  refine ⟨_, rfl, rfl, rfl, rfl, fun h => ?_⟩
  obtain ⟨_, _, ha⟩ := h.answered 0 (by decide)
  exact List.not_mem_nil ha

end Verification

end MobileApps.SwiftUI

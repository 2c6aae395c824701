import MobileApps.Exchanger.AuthentificationManager
import MobileApps.Library.Rows

/-! `PasswordResetUI.swift` with `PasswordResetViewModel.swift`: the button reads the flag right
after it started the request, so the flag is that of an earlier answer. -/

namespace MobileApps.Exchanger

open Library.Unicode Library.Rows Library.Runs

structure PasswordResetViewModel (κ : Type) where
  email : Text := []
  clicked : Bool := false
  dissmis : Bool := false
  AuthManager : AuthentificationManager κ := {}

namespace PasswordResetViewModel

variable {κ : Type}

def completion (m : PasswordResetViewModel κ) (error : Bool) : PasswordResetViewModel κ :=
  { m with dissmis := error }

def resetPassword (m : PasswordResetViewModel κ) (k : κ) : PasswordResetViewModel κ :=
  let m := { m with clicked := true }
  let (manager, answers) := m.AuthManager.resetPass m.email k
  answers.foldl completion { m with AuthManager := manager }

def reply (m : PasswordResetViewModel κ) (i : ℕ) (r : AuthReply) :
    Option (PasswordResetViewModel κ × κ) :=
  (m.AuthManager.reply i r).map fun a => ({ m with AuthManager := a.1 }.completion a.2.2, a.2.1)

end PasswordResetViewModel

inductive ResetEntry
  | refused (k : ℕ)
  | sent (k : ℕ)
  | replied (k : ℕ) (done : Bool)
  deriving DecidableEq

def ResetEntry.press : ResetEntry → ℕ
  | .refused k | .sent k | .replied k _ => k

def ResetEntry.answer : ResetEntry → Option Bool
  | .refused _ => some false
  | .sent _ => none
  | .replied _ done => some done

/-- The outcome of the last answer, a refusal being one; `false` as long as there is none. -/
def lastAnswer (log : List ResetEntry) : Bool :=
  (log.filterMap ResetEntry.answer).getLast?.getD false

def SentAfter (b : Bool) (k : ℕ) (log : List ResetEntry) : Prop :=
  ∃ pre post, log = pre ++ .sent k :: post ∧ lastAnswer pre = b

structure PasswordResetUI where
  PasswordResetVM : PasswordResetViewModel ℕ := {}
  presses : ℕ := 0
  dismissedBy : List ℕ := []
  clearedBy : List ℕ := []
  log : List ResetEntry := []

inductive ResetEvent
  | edit (email : Text)
  | send
  | reply (i : ℕ) (r : AuthReply)
  deriving DecidableEq

namespace PasswordResetUI

def send (s : PasswordResetUI) : PasswordResetUI :=
  let k := s.presses
  let entry := if s.PasswordResetVM.email = [] then .refused k else .sent k
  let m := s.PasswordResetVM.resetPassword k
  let s := { s with presses := k + 1, log := s.log ++ [entry] }
  if m.dissmis then { s with PasswordResetVM := m, dismissedBy := s.dismissedBy ++ [k] }
  else { s with PasswordResetVM := { m with email := [] }, clearedBy := s.clearedBy ++ [k] }

def step (s : PasswordResetUI) : ResetEvent → Option PasswordResetUI
  | .edit email => some { s with PasswordResetVM := { s.PasswordResetVM with email := email } }
  | .send => some s.send
  | .reply i r => (s.PasswordResetVM.reply i r).map fun a =>
      { s with PasswordResetVM := a.1, log := s.log ++ [.replied a.2 r.done] }

structure OwnAnswers (s : PasswordResetUI) : Prop where
  dismissed : ∀ k ∈ s.dismissedBy, .replied k true ∈ s.log
  cleared : ∀ k ∈ s.clearedBy, .refused k ∈ s.log ∨ .replied k false ∈ s.log

def Refused (s : PasswordResetUI) : ResetEvent → Prop
  | .send => s.PasswordResetVM.email = []
  | .edit _ | .reply .. => True

lemma lastAnswer_append (l : List ResetEntry) (e : ResetEntry) :
    lastAnswer (l ++ [e]) = e.answer.getD (lastAnswer l) := by
  rw [lastAnswer, lastAnswer, List.filterMap_append]
  cases he : e.answer <;> simp [he]

lemma sentAfter_append {b : Bool} {k : ℕ} {l : List ResetEntry} {e : ResetEntry} :
    SentAfter b k (l ++ [e]) ↔ SentAfter b k l ∨ (e = .sent k ∧ lastAnswer l = b) := by
  constructor
  · rintro ⟨pre, post, h, hb⟩
    rcases List.eq_nil_or_concat post with rfl | ⟨post, f, rfl⟩
    · obtain ⟨rfl, he⟩ := List.append_inj' h rfl
      exact Or.inr ⟨(List.singleton_inj.mp he), hb⟩
    · rw [List.concat_eq_append, ← List.cons_append, ← List.append_assoc] at h
      obtain ⟨rfl, _⟩ := List.append_inj' h rfl
      exact Or.inl ⟨pre, post, rfl, hb⟩
  · rintro (⟨pre, post, rfl, hb⟩ | ⟨rfl, hb⟩)
    · exact ⟨pre, post ++ [e], by simp, hb⟩
    · exact ⟨l, [], rfl, hb⟩

structure Sound (s : PasswordResetUI) : Prop where
  flag : s.PasswordResetVM.dissmis = lastAnswer s.log
  dismissed : ∀ k, k ∈ s.dismissedBy ↔ SentAfter true k s.log
  cleared : ∀ k, k ∈ s.clearedBy ↔ .refused k ∈ s.log ∨ SentAfter false k s.log
  numbers : ∀ e ∈ s.log, e.press < s.presses
  waiting : ∀ c ∈ s.PasswordResetVM.AuthManager.inFlight, c.2 < s.presses
  once : ∀ k, .sent k ∈ s.log → .refused k ∉ s.log

variable {s t : PasswordResetUI}

lemma send_refused (h : s.PasswordResetVM.email = []) : s.send = { s with
    PasswordResetVM := { s.PasswordResetVM with clicked := true, dissmis := false, email := [] }
    presses := s.presses + 1
    clearedBy := s.clearedBy ++ [s.presses]
    log := s.log ++ [.refused s.presses] } := by
  simp [send, PasswordResetViewModel.resetPassword, AuthentificationManager.resetPass, h,
    PasswordResetViewModel.completion]

def requested (s : PasswordResetUI) : PasswordResetViewModel ℕ :=
  { s.PasswordResetVM with
    clicked := true
    AuthManager := s.PasswordResetVM.AuthManager.send
      (.sendPasswordReset s.PasswordResetVM.email) s.presses }

lemma send_dismisses (h : s.PasswordResetVM.email ≠ []) (hd : s.PasswordResetVM.dissmis) :
    s.send = { s with
      PasswordResetVM := s.requested
      presses := s.presses + 1
      dismissedBy := s.dismissedBy ++ [s.presses]
      log := s.log ++ [.sent s.presses] } := by
  simp [send, PasswordResetViewModel.resetPassword, AuthentificationManager.resetPass, h, hd,
    requested]

lemma send_clears (h : s.PasswordResetVM.email ≠ []) (hd : s.PasswordResetVM.dissmis = false) :
    s.send = { s with
      PasswordResetVM := { s.requested with email := [] }
      presses := s.presses + 1
      clearedBy := s.clearedBy ++ [s.presses]
      log := s.log ++ [.sent s.presses] } := by
  simp [send, PasswordResetViewModel.resetPassword, AuthentificationManager.resetPass, h, hd,
    requested]

lemma step_reply {i : ℕ} {r : AuthReply} : s.step (.reply i r) = some t ↔
    ∃ c, s.PasswordResetVM.AuthManager.inFlight[i]? = some c ∧ t = { s with
      PasswordResetVM := { s.PasswordResetVM with
        dissmis := r.done
        AuthManager := { s.PasswordResetVM.AuthManager with
          inFlight := s.PasswordResetVM.AuthManager.inFlight.eraseIdx i }.replied c.1 r }
      log := s.log ++ [.replied c.2 r.done] } := by
  simp only [step, PasswordResetViewModel.reply, AuthentificationManager.reply, Option.map_map]
  exact mapped_some

lemma sent_append {b : Bool} {k n : ℕ} {l : List ResetEntry} :
    SentAfter b k (l ++ [.sent n]) ↔ SentAfter b k l ∨ (k = n ∧ lastAnswer l = b) := by
  rw [sentAfter_append, ResetEntry.sent.injEq, eq_comm (a := n)]

lemma answered_append {b : Bool} {k : ℕ} {l : List ResetEntry} {e : ResetEntry}
    (he : ∀ k, e ≠ .sent k) : SentAfter b k (l ++ [e]) ↔ SentAfter b k l := by
  simp [sentAfter_append, he]

lemma Sound.fresh (h : Sound s) {e : ResetEntry} (he : e ∈ s.log) : e.press ≠ s.presses :=
  (h.numbers e he).ne

lemma Sound.logged (h : Sound s) {e : ResetEntry} (he : e.press = s.presses) :
    (∀ f ∈ s.log ++ [e], f.press < s.presses + 1) ∧
    ∀ k, .sent k ∈ s.log ++ [e] → .refused k ∉ s.log ++ [e] := by
  constructor
  · intro f hf
    rcases List.mem_append.mp hf with hf | hf
    · exact Nat.lt_succ_of_lt (h.numbers f hf)
    · rw [List.mem_singleton.mp hf, he]
      exact Nat.lt_succ_self _
  · intro k hs hr
    rcases List.mem_append.mp hs with hs | hs <;> rcases List.mem_append.mp hr with hr | hr
    · exact h.once k hs hr
    · rw [← List.mem_singleton.mp hr] at he
      exact h.fresh hs he
    · rw [← List.mem_singleton.mp hs] at he
      exact h.fresh hr he
    · exact absurd ((List.mem_singleton.mp hs).trans (List.mem_singleton.mp hr).symm) nofun

lemma Sound.sent (h : Sound s) (c : AuthRequest × ℕ)
    (hc : c ∈ s.requested.AuthManager.inFlight) : c.2 < s.presses + 1 := by
  rcases List.mem_append.mp hc with hc | hc
  · exact Nat.lt_succ_of_lt (h.waiting c hc)
  · rw [List.mem_singleton.mp hc]
    exact Nat.lt_succ_self _

lemma sound_send (h : Sound s) : Sound s.send := by
  by_cases he : s.PasswordResetVM.email = []
  · rw [send_refused he]
    have hlogged := h.logged (e := .refused s.presses) rfl
    refine ⟨?_, fun k => ?_, fun k => ?_, hlogged.1,
      fun c hc => Nat.lt_succ_of_lt (h.waiting c hc), hlogged.2⟩
    · rw [lastAnswer_append]
      rfl
    · rw [answered_append (e := .refused s.presses) nofun]
      exact h.dismissed k
    · rw [answered_append (e := .refused s.presses) nofun, List.mem_append, h.cleared k]
      simp only [List.mem_append, List.mem_singleton, ResetEntry.refused.injEq]
      tauto
  · have hlogged := h.logged (e := .sent s.presses) rfl
    have hflag : ∀ b, s.PasswordResetVM.dissmis = b →
        lastAnswer (s.log ++ [.sent s.presses]) = b ∧ lastAnswer s.log = b := by
      intro b hb
      rw [lastAnswer_append]
      exact ⟨h.flag ▸ hb, h.flag ▸ hb⟩
    cases hd : s.PasswordResetVM.dissmis with
    | true =>
      rw [send_dismisses he hd]
      obtain ⟨hlast, hbefore⟩ := hflag true hd
      refine ⟨hd.trans hlast.symm, fun k => ?_, fun k => ?_, hlogged.1, h.sent, hlogged.2⟩
      · rw [sent_append, List.mem_append, List.mem_singleton, h.dismissed k]
        simp [hbefore]
      · rw [sent_append, h.cleared k]
        simp [hbefore]
    | false =>
      rw [send_clears he hd]
      obtain ⟨hlast, hbefore⟩ := hflag false hd
      refine ⟨hd.trans hlast.symm, fun k => ?_, fun k => ?_, hlogged.1, h.sent, hlogged.2⟩
      · rw [sent_append, h.dismissed k]
        simp [hbefore]
      · rw [sent_append, List.mem_append, List.mem_singleton, h.cleared k]
        simp [hbefore, or_assoc]

lemma sound_step {e : ResetEvent} (h : Sound s) (hs : s.step e = some t) : Sound t := by
  cases e with
  | edit email =>
    obtain rfl := Option.some.inj hs
    exact ⟨h.flag, h.dismissed, h.cleared, h.numbers, h.waiting, h.once⟩
  | send =>
    obtain rfl := Option.some.inj hs
    exact sound_send h
  | reply i r =>
    obtain ⟨c, hc, rfl⟩ := step_reply.mp hs
    refine ⟨?_, fun k => ?_, fun k => ?_, fun e he => ?_, fun d hd => ?_, fun k hk => ?_⟩
    · rw [lastAnswer_append]
      rfl
    · rw [answered_append (e := .replied c.2 r.done) nofun]
      exact h.dismissed k
    · rw [answered_append (e := .replied c.2 r.done) nofun, h.cleared k]
      simp
    · rcases List.mem_append.mp he with he | he
      · exact h.numbers e he
      · rw [List.mem_singleton.mp he]
        exact h.waiting c (List.mem_of_getElem? hc)
    · rw [AuthentificationManager.replied_inFlight] at hd
      exact h.waiting d (eraseIdx_subset _ _ hd)
    · simp only [List.mem_append, List.mem_singleton, reduceCtorEq, or_false] at hk ⊢
      exact h.once k hk

lemma ownAnswers_iff (h : Sound s) : OwnAnswers s ↔
    ∀ pre k post, s.log = pre ++ .sent k :: post → .replied k (lastAnswer pre) ∈ s.log := by
  constructor
  · intro hown pre k post hl
    have hsent : ResetEntry.sent k ∈ s.log := by simp [hl]
    cases hb : lastAnswer pre with
    | true => exact hown.dismissed k ((h.dismissed k).mpr ⟨pre, post, hl, hb⟩)
    | false =>
      have hcleared := (h.cleared k).mpr (Or.inr ⟨pre, post, hl, hb⟩)
      exact (hown.cleared k hcleared).resolve_left (h.once k hsent)
  · intro hlog
    have hsent : ∀ b k, SentAfter b k s.log → .replied k b ∈ s.log := by
      rintro b k ⟨pre, post, hl, rfl⟩
      exact hlog pre k post hl
    constructor
    · intro k hk
      exact hsent true k ((h.dismissed k).mp hk)
    · intro k hk
      exact ((h.cleared k).mp hk).imp_right (hsent false k)

lemma refused_of_own (h : Sound s) (hown : OwnAnswers s.send) : s.PasswordResetVM.email = [] := by
  by_contra he
  have hlog : s.send.log = s.log ++ .sent s.presses :: [] := by
    cases hd : s.PasswordResetVM.dissmis with
    | true => rw [send_dismisses he hd]
    | false => rw [send_clears he hd]
  -- the press is the first of its number, so the log holds no answer to it
  have hmem := (ownAnswers_iff (sound_send h)).mp hown _ _ _ hlog
  rw [hlog] at hmem
  rcases List.mem_append.mp hmem with hmem | hmem
  · exact h.fresh hmem rfl
  · exact absurd (List.mem_singleton.mp hmem) nofun

lemma ownAnswers_step {e : ResetEvent} (h : Sound s) (hown : OwnAnswers s)
    (hs : s.step e = some t) (hp : Refused s e) : OwnAnswers t := by
  cases e with
  | edit email =>
    obtain rfl := Option.some.inj hs
    exact ⟨hown.dismissed, hown.cleared⟩
  | send =>
    obtain rfl := Option.some.inj hs
    rw [ownAnswers_iff (sound_send h), send_refused hp]
    intro pre k post hl
    rcases List.eq_nil_or_concat post with rfl | ⟨post, f, rfl⟩
    · exact absurd (List.append_inj' hl rfl).2 (by simp)
    · rw [List.concat_eq_append, ← List.cons_append, ← List.append_assoc] at hl
      obtain ⟨hl, _⟩ := List.append_inj' hl rfl
      exact List.mem_append_left _ ((ownAnswers_iff h).mp hown pre k post hl)
  | reply i r =>
    obtain ⟨c, _, rfl⟩ := step_reply.mp hs
    refine ⟨fun k hk => List.mem_append_left _ (hown.dismissed k hk), fun k hk => ?_⟩
    exact (hown.cleared k hk).imp (List.mem_append_left _) (List.mem_append_left _)

lemma sound_init : Sound {} :=
  ⟨rfl, fun _ => ⟨nofun, fun ⟨pre, _, h, _⟩ => by simp at h⟩,
    fun _ => ⟨nofun, fun h => h.elim nofun fun ⟨pre, _, h, _⟩ => by simp at h⟩, nofun, nofun, nofun⟩

/-- No press has its own answer when it returns: a run in which the presses act on their own answers
at every moment is one in which none had an email to send. Judged by the answers that came later,
the presses were right exactly when each request was answered as the last one before its press. -/
theorem ownAnswers_runs (es : List ResetEvent) :
    (Always step OwnAnswers {} es ↔ Along step Refused {} es) ∧
    ∀ s, run step {} es = some s → (OwnAnswers s ↔ ∀ pre k post,
      s.log = pre ++ .sent k :: post → .replied k (lastAnswer pre) ∈ s.log) := by
  constructor
  · refine always_iff_along (I := fun s _ => Sound s ∧ OwnAnswers s) (fun _ _ h => h.2)
      (fun _ _ _ _ h hs hp => ⟨sound_step h.1 hs, ownAnswers_step h.1 h.2 hs hp⟩)
      (fun s e _ t h hs hq => ?_) ⟨sound_init, nofun, nofun⟩
    cases e with
    | edit | reply => trivial
    | send =>
      obtain rfl := Option.some.inj hs
      exact refused_of_own h.1 hq
  · intro s hr
    apply ownAnswers_iff
    exact run_invariant (I := fun s _ => Sound s) (fun _ _ _ _ => sound_step) sound_init hr

theorem dismissed_before_answer : ∃ s,
    run step {} [.edit "a@b.co".toList, .send, .reply 0 (.success none), .edit "c@d.co".toList,
      .send] = some s ∧
    s.dismissedBy = [1] ∧ s.clearedBy = [0] ∧
    s.log = [.sent 0, .replied 0 true, .sent 1] ∧ ¬ OwnAnswers s := by
  refine ⟨_, rfl, rfl, rfl, rfl, fun h => ?_⟩
  exact absurd (h.dismissed 1 (List.mem_singleton.mpr rfl)) (by decide)

end PasswordResetUI

end MobileApps.Exchanger

import MobileApps.Library.Runs
import Mathlib.Data.List.Chain

/-! A flag that the outcomes of attempts set and reset: which runs never reset it by an answer. -/

namespace MobileApps.Library.Latch

open Runs

inductive Outcome
  | accepted | rejected | refused
  deriving DecidableEq

def Outcome.keeps (a b : Outcome) : Prop := ¬ (a = .accepted ∧ b = .rejected)

instance (a b : Outcome) : Decidable (a.keeps b) := inferInstanceAs (Decidable (¬ _))

variable {S E : Type} (step : S → E → Option S)

def outcomes (outcome : S → E → Option Outcome) : S → List E → List Outcome
  | _, [] => []
  | s, e :: es =>
      match step s e with
      | some t => (outcome s e).toList ++ outcomes outcome t es
      | none => []

def Final (flag : S → Bool) (answers : E → Bool) : S → List E → Prop :=
  Along step fun s e => answers e → flag s → ∀ t, step s e = some t → flag t

structure Latches (flag : S → Bool) (answers : E → Bool) (outcome : S → E → Option Outcome) :
    Prop where
  accepted : ∀ s e t, step s e = some t → outcome s e = some .accepted → flag t
  rejected : ∀ s e t, step s e = some t → outcome s e = some .rejected → answers e ∧ ¬ flag t
  refused : ∀ s e t, step s e = some t → outcome s e = some .refused → ¬ answers e ∧ ¬ flag t
  other : ∀ s e t, step s e = some t → outcome s e = none → flag t = flag s

variable {step} {flag : S → Bool} {answers : E → Bool} {outcome : S → E → Option Outcome}

def assigned (b : Bool) : Option Outcome → Bool
  | none => b
  | some o => o = .accepted

lemma Latches.of_assigned
    (hf : ∀ s e t, step s e = some t → flag t = assigned (flag s) (outcome s e))
    (hrejected : ∀ s e, outcome s e = some .rejected → answers e)
    (hrefused : ∀ s e, outcome s e = some .refused → ¬ answers e) :
    Latches step flag answers outcome where
  accepted s e t hs ho := by simp [hf s e t hs, ho, assigned]
  rejected s e t hs ho := ⟨hrejected s e ho, by simp [hf s e t hs, ho, assigned]⟩
  refused s e t hs ho := ⟨hrefused s e ho, by simp [hf s e t hs, ho, assigned]⟩
  other s e t hs ho := by rw [hf s e t hs, ho, assigned]

def last (flag : S → Bool) (s : S) : Outcome := if flag s then .accepted else .refused

lemma last_keeps {s : S} {b : Outcome} : (last flag s).keeps b ↔ (b = .rejected → ¬ flag s) := by
  rw [last]
  split <;> simp_all [Outcome.keeps]

lemma chain_last {s : S} {l : List Outcome} :
    (last flag s :: l).IsChain Outcome.keeps ↔
      (∀ b ∈ l.head?, (last flag s).keeps b) ∧ l.IsChain Outcome.keeps := by
  rw [List.isChain_cons]

lemma final_iff_last (h : Latches step flag answers outcome) {s : S} {es : List E} :
    Final step flag answers s es ↔
      (last flag s :: outcomes step outcome s es).IsChain Outcome.keeps := by
  induction es generalizing s with
  | nil => simp [Final, Along, outcomes]
  | cons e es ih =>
    rw [Final, Along, outcomes]
    cases hs : step s e with
    | none => simp
    | some t =>
      have hstep : (∀ u, some t = some u → (answers e → flag s → ∀ v, some t = some v → flag v) ∧
          Along step (fun s e => answers e → flag s → ∀ t, step s e = some t → flag t) u es) ↔
          (answers e → flag s → flag t) ∧
            (last flag t :: outcomes step outcome t es).IsChain Outcome.keeps := by
        rw [← ih]
        simp [Final]
      rw [hstep]
      cases ho : outcome s e with
      | none =>
        have hf := h.other s e t hs ho
        have hl : last flag t = last flag s := by rw [last, last, hf]
        simp [hl, hf]
      | some o =>
        have hkeep : (last flag t :: outcomes step outcome t es).IsChain Outcome.keeps ↔
            (o :: outcomes step outcome t es).IsChain Outcome.keeps := by
          cases o with
          | accepted => rw [last, if_pos (h.accepted s e t hs ho)]
          | rejected =>
            rw [last, if_neg (h.rejected s e t hs ho).2, List.isChain_cons, List.isChain_cons]
            simp [Outcome.keeps]
          | refused => rw [last, if_neg (h.refused s e t hs ho).2]
        simp only [Option.toList_some, List.singleton_append, List.isChain_cons_cons, hkeep]
        refine and_congr_left fun _ => ?_
        rw [last_keeps]
        cases o with
        | accepted => simp [h.accepted s e t hs ho]
        | rejected => simp [h.rejected s e t hs ho]
        | refused => simp [h.refused s e t hs ho]

/-- From a state whose flag is not set, the answers of a run never reset it exactly when no failure
comes directly after a success. -/
theorem final_iff (h : Latches step flag answers outcome) {s : S} (hs : ¬ flag s) (es : List E) :
    Final step flag answers s es ↔ (outcomes step outcome s es).IsChain Outcome.keeps := by
  rw [final_iff_last h, chain_last, and_iff_right]
  intro b _
  simp [last, hs, Outcome.keeps]

lemma final_of_kept (h : ∀ s e t, step s e = some t → flag s → flag t) (s : S) (es : List E) :
    Final step flag answers s es := by
  induction es generalizing s with
  | nil => trivial
  | cons e es ih =>
    intro t ht
    exact ⟨fun _ hf u hu => h s e u hu hf, ih t⟩

end MobileApps.Library.Latch

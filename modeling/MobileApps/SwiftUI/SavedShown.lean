import MobileApps.SwiftUI.Loads

/-! What a press of Save stores against what its completion shows: the press passes the text fields
by value, the completion reads them again. -/

namespace MobileApps.SwiftUI

open Firestore Library.Unicode Library.DocumentStore Library.Rows Library.Runs

/-- The tasks stored by the presses that wait for their reply, in the order of the presses, those
of the answered presses, and those that the replies appended to the list. -/
structure Ledger where
  waiting : List TaskFields := []
  answered : Multiset TaskFields := 0
  appended : Multiset TaskFields := 0

def Ledger.track (h : Ledger) (_ : MainView) : ViewEvent → Ledger
  | .save _ _ fields => { h with waiting := h.waiting ++ [fields] }
  | .saved i fields => {
      waiting := h.waiting.eraseIdx i
      answered := h.answered + Multiset.ofList h.waiting[i]?.toList
      appended := h.appended + {fields} }
  | _ => h

namespace MainView

def stepLedger : MainView × Ledger → ViewEvent → Option (MainView × Ledger) :=
  observe step Ledger.track

def SavedShown (s : MainView × Ledger) : Prop :=
  s.2.appended = s.2.answered ∧ ∀ f ∈ s.2.appended, validateTask f.taskName f.taskTime

def ReadsStored (s : MainView × Ledger) : ViewEvent → Prop
  | .saved i fields => s.2.waiting[i]? = some fields
  | _ => True

instance (s : MainView × Ledger) : ∀ e, Decidable (ReadsStored s e)
  | .saved i fields => inferInstanceAs (Decidable (s.2.waiting[i]? = some fields))
  | .onAppear | .snapshot .. | .loaded _ | .loadFailed _ | .addView | .edit .. | .save ..
  | .toggle _ | .move .. | .rowAppear _ | .rowDisappear _ | .swipe _ | .querySnapshot ..
  | .queried _ | .queryFailed .. => isTrue trivial

structure Booked (s : MainView × Ledger) : Prop where
  agree : s.2.appended = s.2.answered
  waiting : s.2.waiting.length = s.1.saves.length
  valid : ∀ f ∈ Multiset.ofList s.2.waiting + s.2.answered, validateTask f.taskName f.taskTime

lemma step_saves {s t : MainView} {e : ViewEvent} (hs : s.step e = some t) :
    (t.saves = s.saves ∧ ∀ h : Ledger, h.track s e = h) ∨
    (∃ v id fields, e = .save v id fields ∧ validateTask fields.taskName fields.taskTime ∧
      t.saves = s.saves ++ [v]) ∨
    ∃ i fields, e = .saved i fields ∧ i < s.saves.length ∧ t.saves = s.saves.eraseIdx i := by
  cases step_iff.mp hs with
  | save _ hv => exact Or.inr (Or.inl ⟨_, _, _, rfl, hv, rfl⟩)
  | saved hi => exact Or.inr (Or.inr ⟨_, _, rfl, (List.getElem?_eq_some_iff.mp hi).1, rfl⟩)
  | _ => exact Or.inl ⟨rfl, fun _ => rfl⟩

lemma savedShown_of_booked {s : MainView × Ledger} (h : Booked s) : SavedShown s :=
  ⟨h.agree, fun f hf => h.valid f (Multiset.mem_add.mpr (Or.inr (h.agree ▸ hf)))⟩

lemma booked_step {s t : MainView × Ledger} {e : ViewEvent} (h : Booked s)
    (hs : stepLedger s e = some t) (hp : ReadsStored s e) : Booked t := by
  obtain ⟨t, k⟩ := t
  obtain ⟨hs, rfl⟩ := observe_some.mp hs
  rcases step_saves (t := t) hs with ⟨hsaves, hk⟩ | ⟨v, id, fields, rfl, hv, hsaves⟩ |
    ⟨i, fields, rfl, hi, hsaves⟩
  · rw [hk]
    exact ⟨h.agree, hsaves ▸ h.waiting, h.valid⟩
  · refine ⟨h.agree, ?_, fun f hf => ?_⟩
    · simp only [Ledger.track, hsaves, List.length_append, h.waiting, List.length_singleton]
    · simp only [Ledger.track, ← Multiset.coe_add, Multiset.mem_add, Multiset.coe_singleton,
        Multiset.mem_singleton] at hf
      rcases hf with (hf | rfl) | hf
      · exact h.valid f (Multiset.mem_add.mpr (Or.inl hf))
      · exact hv
      · exact h.valid f (Multiset.mem_add.mpr (Or.inr hf))
  · have hw : s.2.waiting[i]? = some fields := hp
    refine ⟨?_, ?_, fun f hf => ?_⟩
    · simp only [Ledger.track, hw, Option.toList_some, Multiset.coe_singleton, h.agree]
    · have hi' : i < s.2.waiting.length := h.waiting ▸ hi
      simp only [Ledger.track, hsaves, List.length_eraseIdx_of_lt hi,
        List.length_eraseIdx_of_lt hi', h.waiting]
    · apply h.valid f
      have hperm := Multiset.coe_eq_coe.mpr (erase_perm hw)
      rw [hperm, ← Multiset.cons_coe, Multiset.cons_add, ← Multiset.singleton_add]
      simp only [Ledger.track, hw, Option.toList_some, Multiset.coe_singleton] at hf
      rwa [← Multiset.add_assoc, Multiset.add_comm] at hf

lemma readsStored_of_shown {s t : MainView × Ledger} {e : ViewEvent} (h : Booked s)
    (hs : stepLedger s e = some t) (hq : SavedShown t) : ReadsStored s e := by
  obtain ⟨t, k⟩ := t
  obtain ⟨hs, rfl⟩ := observe_some.mp hs
  cases e with
  | saved i fields =>
    have hi : i < s.1.saves.length := by
      cases step_iff.mp hs with
      | saved hi => exact (List.getElem?_eq_some_iff.mp hi).1
    rw [← h.waiting] at hi
    have hw := List.getElem?_eq_getElem hi
    have heq : s.2.appended + {fields} =
        s.2.answered + Multiset.ofList s.2.waiting[i]?.toList := hq.1
    rw [h.agree, hw, Option.toList_some, Multiset.coe_singleton, Multiset.add_right_inj,
      Multiset.singleton_inj] at heq
    exact heq ▸ hw
  | _ => trivial

/-- In every run of edits, presses of Save and their replies, the replies append what their presses
stored, and only valid tasks, exactly when each reply finds in the text fields what its press
stored. -/
theorem savedShown_iff (db : UserCollection) (es : List ViewEvent) :
    Always stepLedger SavedShown (created db, {}) es ↔
      Along stepLedger ReadsStored (created db, {}) es := by
  refine always_iff_along (I := fun s _ => Booked s)
    (fun _ _ h => savedShown_of_booked h) (fun _ _ _ _ h hs hp => booked_step h hs hp)
    (fun _ _ _ _ h hs hq => readsStored_of_shown h hs hq) ?_
  constructor <;> simp [created]

theorem edited_before_reply : ∃ s,
    run stepLedger (created ⟨[], by decide⟩, {}) [.addView, .edit 0 someTask.data,
      .save 0 idA someTask.data, .edit 0 ⟨[], []⟩, .saved 0 ⟨[], []⟩] = some s ∧
    s.1.db.docs = [someTask] ∧ s.1.Alltasks.map Tasks.fields = [⟨[], []⟩] ∧ ¬ SavedShown s :=
  ⟨_, rfl, rfl, rfl, fun h => absurd h.1 (by decide)⟩

end MainView

end MobileApps.SwiftUI

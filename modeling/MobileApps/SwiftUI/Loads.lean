import MobileApps.SwiftUI.MainView
import Mathlib.Algebra.Order.Group.Multiset

/-! Loads against saves: every reply is appended to the list, whatever the list already holds. -/

namespace MobileApps.SwiftUI

open Firestore Library.Unicode Library.DocumentStore Library.Rows Library.Runs

def ViewEvent.isAppear : ViewEvent → Bool
  | .onAppear => true
  | _ => false

def ViewEvent.isSnapshot : ViewEvent → Bool
  | .snapshot .. => true
  | _ => false

def ViewEvent.isSave : ViewEvent → Bool
  | .save .. => true
  | _ => false

def ViewEvent.isAdding : ViewEvent → Bool
  | .loadFailed _ | .rowDisappear _ | .swipe _ | .querySnapshot .. | .queried _
  | .queryFailed .. => false
  | _ => true

def ViewEvent.savedFields : ViewEvent → Multiset TaskFields
  | .save _ _ fields => {fields}
  | _ => 0

def ViewEvent.shownFields : ViewEvent → Multiset TaskFields
  | .saved _ fields => {fields}
  | _ => 0

def savedIn (es : List ViewEvent) : Multiset TaskFields := (es.map ViewEvent.savedFields).sum

def shownIn (es : List ViewEvent) : Multiset TaskFields := (es.map ViewEvent.shownFields).sum

def Fetch.fields : Fetch → List TaskFields
  | .requested => []
  | .taken documents => documents.map Document.data

namespace MainView

def stored (s : MainView) : Multiset TaskFields := s.db.tally fun e => some e.data

def listed (s : MainView) : Multiset TaskFields := Multiset.ofList (s.Alltasks.map Tasks.fields)

def coming (s : MainView) : Multiset TaskFields :=
  s.listed + Multiset.ofList (s.loads.flatMap Fetch.fields)

def requests (s : MainView) : ℕ := s.loads.count .requested

def Quiet (s : MainView) : Prop := s.loads = [] ∧ s.saves = []

def Complete (s : MainView) : Prop := s.listed = s.stored

lemma listed_append (s : MainView) (values : List TaskFields) :
    (s.append values).listed = s.listed + Multiset.ofList values := by
  have hv : (values.zipIdx.map fun v =>
      ({ fields := v.1, id := s.nextId + v.2 } : Tasks)).map Tasks.fields = values := by
    rw [List.map_map]
    exact List.zipIdx_map_fst 0 values
  simp only [listed, append, List.map_append, hv, Multiset.coe_add]

structure Adds (s t : MainView) (e : ViewEvent) : Prop where
  coming : t.coming = s.coming + e.shownFields + if e.isSnapshot then s.stored else 0
  stored : t.stored = s.stored + e.savedFields
  requests : t.requests + (if e.isSnapshot then 1 else 0) =
    s.requests + if e.isAppear then 1 else 0
  saves : t.saves.length + Multiset.card e.shownFields =
    s.saves.length + Multiset.card e.savedFields

lemma adds_nothing {s t : MainView} {e : ViewEvent} (hlist : t.listed = s.listed)
    (hloads : t.loads = s.loads) (hdb : t.db = s.db) (hsaves : t.saves = s.saves)
    (he : e.isSnapshot = false ∧ e.isAppear = false ∧ e.savedFields = 0 ∧ e.shownFields = 0) :
    Adds s t e := by
  obtain ⟨hn, ha, hs, hc⟩ := he
  constructor
  · simp [MainView.coming, hlist, hloads, hn, hc]
  · simp [MainView.stored, hdb, hs]
  · simp [MainView.requests, hloads, hn, ha]
  · simp [hsaves, hs, hc]

lemma adds_snapshot {s : MainView} {i : ℕ} {documents : List TaskDocument}
    (hl : s.loads[i]? = some .requested) (hp : documents.Perm s.db.docs) :
    Adds s { s with loads := s.loads.set i (.taken documents) } (.snapshot i documents) := by
  have hperm := set_perm (b := Fetch.taken documents) hl
  have hstored : Multiset.ofList (documents.map Document.data) = s.stored := by
    rw [MainView.stored, Collection.tally, List.filterMap_eq_map']
    exact Multiset.coe_eq_coe.mpr (hp.map _)
  constructor
  · have hf := Multiset.coe_eq_coe.mpr (hperm.flatMap_right Fetch.fields)
    simp only [List.flatMap_cons, Fetch.fields, List.nil_append, ← Multiset.coe_add,
      hstored] at hf
    simp only [MainView.coming, ViewEvent.shownFields, ViewEvent.isSnapshot, if_true, hf,
      MainView.listed, Multiset.add_zero]
    ac_rfl
  · exact (Multiset.add_zero _).symm
  · have hc := hperm.count_eq Fetch.requested
    simp only [List.count_cons, beq_self_eq_true, if_true] at hc
    simpa [MainView.requests, ViewEvent.isSnapshot, ViewEvent.isAppear] using hc
  · rfl

lemma adds_loaded {s : MainView} {i : ℕ} {documents : List TaskDocument}
    (hl : s.loads[i]? = some (.taken documents)) :
    Adds s ({ s with loads := s.loads.eraseIdx i }.append (documents.map Document.data))
      (.loaded i) := by
  have hperm := erase_perm hl
  constructor
  · have hf := Multiset.coe_eq_coe.mpr (hperm.flatMap_right Fetch.fields)
    simp only [List.flatMap_cons, Fetch.fields, ← Multiset.coe_add] at hf
    rw [MainView.coming, listed_append, MainView.coming, hf]
    simp only [MainView.listed, append, ViewEvent.shownFields, ViewEvent.isSnapshot,
      Multiset.add_zero, Bool.false_eq_true, if_false]
    ac_rfl
  · exact (Multiset.add_zero _).symm
  · have hc := hperm.count_eq Fetch.requested
    simp only [List.count_cons] at hc
    simpa [MainView.requests, append, ViewEvent.isSnapshot, ViewEvent.isAppear] using hc.symm
  · rfl

lemma adds_saved {s : MainView} {i : ℕ} {fields : TaskFields} (hi : i < s.saves.length) :
    Adds s ({ s with saves := s.saves.eraseIdx i }.append [fields]) (.saved i fields) := by
  constructor
  · rw [MainView.coming, listed_append, MainView.coming]
    simp only [MainView.listed, append, ViewEvent.shownFields, ViewEvent.isSnapshot,
      Multiset.add_zero, Bool.false_eq_true, if_false, Multiset.coe_singleton]
    ac_rfl
  · exact (Multiset.add_zero _).symm
  · simp [MainView.requests, append, ViewEvent.isSnapshot, ViewEvent.isAppear]
  · simp only [append, ViewEvent.shownFields, ViewEvent.savedFields, Multiset.card_singleton,
      Multiset.card_zero, List.length_eraseIdx_of_lt hi]
    omega

lemma adds_save {s : MainView} {v : ℕ} {id : AutoId} {fields : TaskFields}
    (hid : id ∉ s.db.keys) :
    Adds s { s with db := s.db.set id fields, used := id :: s.used, saves := s.saves ++ [v] }
      (.save v id fields) := by
  constructor
  · simp [MainView.coming, MainView.listed, ViewEvent.shownFields, ViewEvent.isSnapshot]
  · rw [MainView.stored, Collection.tally_set_fresh _ hid]
    rfl
  · simp [MainView.requests, ViewEvent.isSnapshot, ViewEvent.isAppear]
  · simp [ViewEvent.shownFields, ViewEvent.savedFields]

lemma listed_toggle {s : MainView} {row : ℕ} {r : Tasks} (hr : s.Alltasks[row]? = some r) :
    Multiset.ofList ((s.Alltasks.set row r.toggled).map Tasks.fields) = s.listed := by
  obtain ⟨hlt, rfl⟩ := List.getElem?_eq_some_iff.mp hr
  rw [listed, List.map_set]
  have hlt' : row < (s.Alltasks.map Tasks.fields).length := by simpa using hlt
  have hself : s.Alltasks[row].toggled.fields = (s.Alltasks.map Tasks.fields)[row] := by
    simp [Tasks.toggled]
  rw [hself, List.set_getElem_self]

theorem step_adds {s t : MainView} {e : ViewEvent} (h : s.Fresh) (he : e.isAdding)
    (hs : s.step e = some t) : Adds s t e := by
  cases step_iff.mp hs with
  | onAppear =>
    constructor <;> simp [MainView.coming, MainView.listed, MainView.stored, MainView.requests,
      Fetch.fields, ViewEvent.savedFields, ViewEvent.shownFields, ViewEvent.isSnapshot,
      ViewEvent.isAppear]
  | snapshot hl hp => exact adds_snapshot hl hp
  | loaded hl => exact adds_loaded hl
  | save _ _ hid => exact adds_save fun hk => hid (h _ hk)
  | saved hi => exact adds_saved (List.getElem?_eq_some_iff.mp hi).1
  | toggle hr => exact adds_nothing (listed_toggle hr) rfl rfl rfl ⟨rfl, rfl, rfl, rfl⟩
  | move _ hd =>
    exact adds_nothing (Multiset.coe_eq_coe.mpr ((move_perm hd).map _)) rfl rfl rfl
      ⟨rfl, rfl, rfl, rfl⟩
  | addView | edit | rowAppear => exact adds_nothing rfl rfl rfl rfl ⟨rfl, rfl, rfl, rfl⟩
  | _ => simp [ViewEvent.isAdding] at he

def read (b : Multiset TaskFields) : List ViewEvent → Multiset TaskFields
  | [] => 0
  | e :: es => (if e.isSnapshot then b else 0) + read (b + e.savedFields) es

lemma run_adds {s t : MainView} {es : List ViewEvent} (h : s.Fresh)
    (hes : ∀ e ∈ es, e.isAdding) (hr : run step s es = some t) :
    t.coming = s.coming + shownIn es + read s.stored es ∧ t.stored = s.stored + savedIn es ∧
      t.requests + es.countP ViewEvent.isSnapshot = s.requests + es.countP ViewEvent.isAppear ∧
      t.saves.length + Multiset.card (shownIn es) =
        s.saves.length + Multiset.card (savedIn es) := by
  induction es generalizing s with
  | nil =>
    obtain rfl := Option.some.inj hr
    simp [savedIn, shownIn, read]
  | cons e es ih =>
    obtain ⟨u, hu, hr⟩ := run_cons.mp hr
    have ha := step_adds h (hes e (by simp)) hu
    obtain ⟨hc, hs, hq, hn⟩ := ih (fresh_step h hu) (fun e he => hes e (by simp [he])) hr
    have hsaved : savedIn (e :: es) = e.savedFields + savedIn es := by simp [savedIn]
    have hshown : shownIn (e :: es) = e.shownFields + shownIn es := by simp [shownIn]
    refine ⟨?_, ?_, ?_, ?_⟩
    · rw [hc, ha.coming, ha.stored, hshown, read]
      ac_rfl
    · rw [hs, ha.stored, hsaved]
      ac_rfl
    · have hreq := ha.requests
      simp only [List.countP_cons]
      omega
    · have hsaves := ha.saves
      rw [hshown, hsaved, Multiset.card_add, Multiset.card_add]
      omega

lemma read_add (b c : Multiset TaskFields) (es : List ViewEvent) :
    read (b + c) es = es.countP ViewEvent.isSnapshot • b + read c es := by
  induction es generalizing c with
  | nil => simp [read]
  | cons e es ih =>
    rw [read, read, Multiset.add_assoc, ih, List.countP_cons]
    by_cases he : e.isSnapshot
    · simp only [he, if_true, succ_nsmul]
      ac_rfl
    · simp [he]

lemma read_zero_iff (es : List ViewEvent) :
    read 0 es = 0 ↔ es.Pairwise fun e e' => e.isSave → ¬ e'.isSnapshot := by
  induction es with
  | nil => simp [read]
  | cons e es ih =>
    have hread : read 0 (e :: es) =
        es.countP ViewEvent.isSnapshot • e.savedFields + read 0 es := by
      rw [read, ite_self, Multiset.zero_add, Multiset.zero_add, ← read_add, Multiset.add_zero]
    rw [hread, ← Multiset.card_eq_zero, Multiset.card_add, Nat.add_eq_zero_iff,
      Multiset.card_eq_zero (s := read 0 es), ih, List.pairwise_cons, Multiset.card_nsmul,
      Nat.mul_eq_zero, List.countP_eq_zero]
    refine and_congr ?_ Iff.rfl
    cases e <;> simp [ViewEvent.savedFields, ViewEvent.isSave]

lemma read_eq_iff (b : Multiset TaskFields) {es : List ViewEvent}
    (hn : 0 < es.countP ViewEvent.isSnapshot) :
    read b es = b ↔ (es.countP ViewEvent.isSnapshot = 1 ∨ b = 0) ∧
      es.Pairwise fun e e' => e.isSave → ¬ e'.isSnapshot := by
  have hread := read_add b 0 es
  rw [Multiset.add_zero] at hread
  rw [← read_zero_iff, hread]
  constructor
  · intro h
    -- the stored tasks are read once for each snapshot, so only the numbers need comparing
    have hc := congrArg Multiset.card h
    rw [Multiset.card_add, Multiset.card_nsmul] at hc
    obtain ⟨n, hk⟩ := Nat.exists_eq_add_of_lt hn
    rw [hk, Nat.zero_add, Nat.add_mul, Nat.one_mul] at hc
    have hz : n * Multiset.card b = 0 ∧ Multiset.card (read 0 es) = 0 := by omega
    refine ⟨?_, Multiset.card_eq_zero.mp hz.2⟩
    rcases Nat.mul_eq_zero.mp hz.1 with hn | hb
    · exact Or.inl (by omega)
    · exact Or.inr (Multiset.card_eq_zero.mp hb)
  · rintro ⟨hk | rfl, h⟩
    · rw [hk, h, one_nsmul, Multiset.add_zero]
    · rw [h, nsmul_zero, Multiset.add_zero]

lemma le_read (b : Multiset TaskFields) {es : List ViewEvent}
    (hn : 0 < es.countP ViewEvent.isSnapshot) : b ≤ read b es := by
  have hread := read_add b 0 es
  rw [Multiset.add_zero] at hread
  obtain ⟨n, hk⟩ := Nat.exists_eq_add_of_lt hn
  rw [hread, hk, Nat.zero_add, succ_nsmul, Multiset.add_assoc]
  exact (Multiset.le_add_right _ _).trans (Multiset.le_add_left _ _)

lemma shown_read_iff {b shown saved : Multiset TaskFields} {es : List ViewEvent}
    (hn : 0 < es.countP ViewEvent.isSnapshot) (hc : Multiset.card shown = Multiset.card saved) :
    shown + read b es = b + saved ↔ read b es = b ∧ shown = saved := by
  constructor
  · intro h
    have hcard := congrArg Multiset.card h
    rw [Multiset.card_add, Multiset.card_add] at hcard
    have hb : read b es = b := (Multiset.eq_of_le_of_card_le (le_read b hn) (by omega)).symm
    rw [hb, Multiset.add_comm b] at h
    exact ⟨hb, Multiset.add_left_inj.mp h⟩
  · rintro ⟨hb, rfl⟩
    rw [hb, Multiset.add_comm]

/-- When all loads and saves of a run were completed, the list shows every document once exactly
when the view appeared once, or found nothing stored at first, no snapshot was taken after a save,
and the saves that were completed found in the text fields what they had stored. -/
theorem complete_iff_read_once {db : UserCollection} {es : List ViewEvent} {s : MainView}
    (hes : ∀ e ∈ es, e.isAdding) (hr : run step (created db) es = some s) (hq : s.Quiet)
    (ha : 0 < es.countP ViewEvent.isAppear) :
    s.Complete ↔ ((es.countP ViewEvent.isAppear = 1 ∨ db.docs = []) ∧
      es.Pairwise fun e e' => e.isSave → ¬ e'.isSnapshot) ∧ shownIn es = savedIn es := by
  obtain ⟨hc, hs, hn, hl⟩ := run_adds (fun _ hk => hk) hes hr
  have hcount : es.countP ViewEvent.isSnapshot = es.countP ViewEvent.isAppear := by
    simpa [requests, hq.1, created] using hn
  have hcard : Multiset.card (shownIn es) = Multiset.card (savedIn es) := by
    simpa [hq.2, created] using hl
  have hlisted : s.listed = shownIn es + read (created db).stored es := by
    simpa [coming, hq.1, created, listed] using hc
  have hempty : (created db).stored = 0 ↔ db.docs = [] := by
    simp [stored, created, Collection.tally, List.filterMap_eq_map']
  rw [Complete, hlisted, hs, shown_read_iff (hcount ▸ ha) hcard, ← hcount, ← hempty,
    read_eq_iff _ (hcount ▸ ha)]

def someTask : TaskDocument := ⟨idA, "run".toList, "10:00".toList⟩

def oneStored : UserCollection := ⟨[someTask], by decide⟩

def otherFields : TaskFields := ⟨"read".toList, "11:00".toList⟩

def overlappedLoad : List ViewEvent :=
  [.onAppear, .snapshot 0 [someTask], .addView, .edit 0 otherFields, .save 0 idB otherFields,
    .saved 0 otherFields, .loaded 0]

theorem complete_after_overlap : ∃ s, run step (created oneStored) overlappedLoad = some s ∧
    s.Complete := by
  obtain ⟨s, hs, hq⟩ : ∃ s, run step (created oneStored) overlappedLoad = some s ∧
      s.loads = [] ∧ s.saves = [] := ⟨_, rfl, rfl, rfl⟩
  exact ⟨s, hs, (complete_iff_read_once (by decide) hs hq (by decide)).mpr (by decide)⟩

theorem second_appearance_doubles : ∃ s,
    run step (created oneStored) [.onAppear, .snapshot 0 [someTask], .loaded 0, .onAppear,
      .snapshot 0 [someTask], .loaded 0] = some s ∧
    s.Quiet ∧ s.Alltasks.map Tasks.fields = [someTask.data, someTask.data] ∧ ¬ s.Complete :=
  ⟨_, rfl, ⟨rfl, rfl⟩, rfl, fun h => absurd (congrArg Multiset.card h) (by decide)⟩

end MainView

end MobileApps.SwiftUI

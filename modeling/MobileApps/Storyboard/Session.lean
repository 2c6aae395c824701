import MobileApps.Storyboard.Device

/-! The task screen on its own: whatever the load is answered with and whatever becomes of the
writes, which handlers can trap and what the table shows. -/

namespace MobileApps.Storyboard

open Firestore Library.Unicode Library.Decimal Library.DocumentStore Library.Rows Library.Runs

inductive Action
  | reply (reply : Reply)
  | passBackData (id : AutoId) (taskName taskTime : Text)
  | commitDelete (row : ℕ)
  | moveRowAt (src dst : ℕ)
  | storingFailed

variable (U : Tables) (email : Email)

def loadable (e : Entry) : Bool :=
  match e.data.lookup email with
  | none => true
  | some (.strings [_, _, path]) => path != []
  | some _ => false

/-- What can happen: the user only touches displayed rows. -/
def Offered (s : Screen) : Action → Prop
  | .reply (.success documents) => ∀ e ∈ documents, loadable email e
  | .commitDelete row => row < s.shown.length
  | .moveRowAt src dst => src < s.shown.length ∧ dst < s.shown.length
  | .reply .failure | .passBackData .. | .storingFailed => True

instance (s : Screen) : ∀ a, Decidable (Offered email s a)
  | .reply (.success documents) => inferInstanceAs (Decidable (∀ e ∈ documents, loadable email e))
  | .commitDelete row => inferInstanceAs (Decidable (row < s.shown.length))
  | .moveRowAt src dst =>
      inferInstanceAs (Decidable (src < s.shown.length ∧ dst < s.shown.length))
  | .reply .failure | .passBackData .. | .storingFailed => isTrue trivial

def Screen.handle (s : Screen) : Action → Except Trap Screen
  | .reply reply => loadReply U (some email) reply s
  | .passBackData id taskName taskTime =>
      (passBackData U (some email) id taskName taskTime s).map Prod.fst
  | .commitDelete row => (commitDelete U row s).map Prod.fst
  | .moveRowAt src dst => moveRowAt src dst s
  | .storingFailed => .ok (storingFailed s)

def Screen.step (s : Screen) (a : Action) : Option Screen :=
  if Offered email s a then (s.handle U email a).toOption else none

variable {U email}

lemma loadable_iff {e : Entry} : loadable email e ↔ e.data.lookup email = none ∨
    ∃ n t p, e.data.lookup email = some (.strings [n, t, p]) ∧ p ≠ [] := by
  unfold loadable
  rcases e.data.lookup email with _ | ⟨_ | ⟨a, _ | ⟨b, _ | ⟨c, _ | _⟩⟩⟩⟩ | _ <;> simp

lemma wellStored_of_loadable {e : Entry} (h : loadable email e) : WellStored email e := by
  rcases loadable_iff.mp h with h | ⟨n, t, p, h, _⟩
  · exact Or.inl h
  · exact Or.inr ⟨n, t, p, h⟩

lemma path_of_loadable {e : Entry} (h : loadable email e) {m : ToDoElementsModel} {p : Text}
    (hs : storedTask email e = some (m, p)) : p ≠ [] := by
  rcases loadable_iff.mp h with h | ⟨n, t, q, h, hq⟩
  · simp [storedTask, h] at hs
  · simp only [storedTask, h, Option.some.injEq, Prod.mk.injEq] at hs
    exact hs.2 ▸ hq

lemma step_some {s t : Screen} {a : Action} :
    s.step U email a = some t ↔ Offered email s a ∧ s.handle U email a = .ok t := by
  unfold Screen.step
  split <;> simp_all [toOption_eq_some]

lemma consistent_failure {s : Screen} (hs : s.Consistent U) (message : String) :
    (showCount { s with alert := some message }).Consistent U where
  count := by simp [showCount, reloadData, parseInt_intText]
  rows := rfl
  entries := hs.entries

/-! ### No trap -/

variable (U) in
structure Safe (s : Screen) : Prop where
  consistent : s.Consistent U
  paths : ∀ k p, s.paths k = some p → p ≠ []

lemma ownPath_ne_nil (id : AutoId) : ownPath id ≠ [] := List.cons_ne_nil _ _

lemma safe_loaded {s : Screen} (h : Safe U s) {ds : List Entry}
    (hd : ∀ e ∈ ds, loadable email e) : Safe U (s.loaded U email ds) where
  consistent := loaded_consistent U h.consistent email ds
  paths := by
    intro k p hp
    rcases loaded_paths U s email ds k with ⟨e, he, m, q, hs, _, hq⟩ | ⟨_, hq⟩
    · rw [hq] at hp
      exact Option.some.inj hp ▸ path_of_loadable (hd e he) hs
    · exact h.paths k p (hq ▸ hp)

lemma safe_added {s : Screen} (h : Safe U s) (id : AutoId) (n t : Text) :
    Safe U (s.added U id n t) where
  consistent := added_consistent U h.consistent id n t
  paths := by
    intro k p hp
    by_cases hk : k = pathKey U n t
    · subst hk
      obtain rfl : ownPath id = p := by simpa [Screen.added] using hp
      exact ownPath_ne_nil id
    · exact h.paths k p (by simpa [Screen.added, Function.update_of_ne hk] using hp)

lemma handle_safe {s : Screen} (h : Safe U s) {a : Action} (ha : Offered email s a) :
    (∃ t, s.handle U email a = .ok t ∧ Safe U t) ∨ ∃ row e, a = .commitDelete row ∧
      s.handle U email a = .error (.invalidArgument e) ∧ e ≠ .emptyDocumentPath := by
  cases a with
  | reply r =>
    cases r with
    | failure => exact Or.inl ⟨_, rfl, consistent_failure h.consistent _, h.paths⟩
    | success ds =>
      have hl := loadReply_eq U h.consistent.rows fun e he => wellStored_of_loadable (ha e he)
      exact Or.inl ⟨_, hl, safe_loaded h ha⟩
  | passBackData id n t =>
    refine Or.inl ⟨s.added U id n t, ?_, safe_added h id n t⟩
    rw [Screen.handle, passBackData_eq U h.consistent]
    rfl
  | commitDelete row =>
    have hrow : row < s.array.length := h.consistent.rows ▸ ha
    obtain ⟨path, hp, hc⟩ := commitDelete_eq U h.consistent (List.getElem?_eq_getElem hrow)
    rw [Screen.handle, hc]
    cases hd : documentWithPath task path with
    | error e =>
      refine Or.inr ⟨row, e, rfl, rfl, ?_⟩
      rintro rfl
      rw [documentWithPath, if_neg (h.paths _ _ hp)] at hd
      cases hf : fromString path with
      | error e =>
        have hne : e = .doubleSlash path := by
          unfold fromString at hf
          split at hf <;> simp_all
        simp [hf, Except.bind, hne] at hd
      | ok sub =>
        simp only [hf, Except.bind, documentReference] at hd
        split at hd <;> simp at hd
    | ok key =>
      exact Or.inl ⟨s.removed row, rfl, removed_consistent U h.consistent hrow, h.paths⟩
  | moveRowAt src dst =>
    obtain ⟨hsrc, hdst⟩ := ha
    rw [h.consistent.rows] at hsrc hdst
    exact Or.inl ⟨_, moveRowAt_ok.mpr ⟨⟨hsrc, hdst⟩, rfl⟩,
      moved_consistent U h.consistent hsrc hdst, h.paths⟩
  | storingFailed =>
    exact Or.inl ⟨_, rfl, ⟨h.consistent.1, h.consistent.2, h.consistent.3⟩, h.paths⟩

/-- In every state of a run the label shows the length of the list, the table has as many rows
and each row has its entry in `paths`; so no handler traps, whatever happens next, except that
Firestore may refuse a path, other than the empty one, that was loaded. -/
theorem handlers_never_trap {es : List Action} {s : Screen}
    (h : run (Screen.step U email) viewDidLoad es = some s) :
    s.Consistent U ∧ ∀ a, Offered email s a → (∃ t, s.handle U email a = .ok t) ∨
      ∃ row e, a = .commitDelete row ∧ s.handle U email a = .error (.invalidArgument e) ∧
        e ≠ .emptyDocumentPath := by
  have hstart : Safe U viewDidLoad :=
    ⟨viewDidLoad_consistent U, by simp [viewDidLoad, loadTasks]⟩
  have hs : Safe U s := by
    refine run_invariant (I := fun s _ => Safe U s) (fun s a _ t hs ht => ?_) hstart h
    obtain ⟨ha, ht⟩ := step_some.mp ht
    rcases handle_safe hs ha with ⟨t', ht', hsafe⟩ | ⟨_, _, _, he, _⟩
    · rw [ht] at ht'
      exact Except.ok.inj ht' ▸ hsafe
    · rw [ht] at he
      cases he
  refine ⟨hs.consistent, fun a ha => ?_⟩
  rcases handle_safe hs ha with ⟨t, ht, _⟩ | he
  · exact Or.inl ⟨t, ht⟩
  · exact Or.inr he

theorem handlers_after_move : ∃ s,
    run (Screen.step .ascii someMail) viewDidLoad
      [.passBackData idB "read".toList ten, .reply (.success [someEntry idA "run".toList]),
        .moveRowAt 0 1, .commitDelete 0] = some s ∧
    parseInt s.tasksCount = some 1 ∧ s.shown.length = 1 := by
  obtain ⟨s, hs, hn⟩ : ∃ s, run (Screen.step .ascii someMail) viewDidLoad
      [.passBackData idB "read".toList ten, .reply (.success [someEntry idA "run".toList]),
        .moveRowAt 0 1, .commitDelete 0] = some s ∧ s.array.length = 1 := ⟨_, rfl, by decide⟩
  have hc := (handlers_never_trap hs).1
  exact ⟨s, hs, by rw [hc.count, hn]; rfl, hc.rows.trans hn⟩

/-! ### What the table shows -/

variable (U) in
def ShowsArray (s : Screen) : Prop :=
  (∀ i : ℕ, s.shown[i]? = s.array[i]?) ∧
    ∀ row t requests, commitDelete U row s = .ok (t, requests) → ∃ m request,
      s.shown[row]? = some m ∧ deleteFromDb U m.name m.time s = .ok request ∧
        requests = [request]

/-- The rows that a moved row passes over all show the same task. -/
def PassesEqual (s : Screen) : Action → Prop
  | .moveRowAt src dst => ∀ i j, Passed src dst i → Passed src dst j → s.array[i]? = s.array[j]?
  | _ => True

lemma showsArray_of_eq {s : Screen} (hs : s.Consistent U) (h : s.shown = s.array) :
    ShowsArray U s := by
  refine ⟨fun i => by rw [h], fun row t requests hd => ?_⟩
  obtain ⟨m, path, key, hm, hp, hk, ht⟩ := (commitDelete_ok U hs).mp hd
  obtain ⟨_, rfl⟩ := Prod.mk.inj ht
  refine ⟨m, .delete key, h ▸ hm, ?_, rfl⟩
  rw [deleteFromDb_eq U hp, hk]
  rfl

lemma handle_shown {s t : Screen} (hs : s.Consistent U) (h : s.shown = s.array) {a : Action}
    (ha : Offered email s a) (ht : s.handle U email a = .ok t) :
    t.Consistent U ∧ (t.shown = t.array ↔ PassesEqual s a) := by
  cases a with
  | reply r =>
    cases r with
    | failure =>
      obtain rfl := Except.ok.inj ht
      exact ⟨consistent_failure hs _, iff_of_true rfl trivial⟩
    | success ds =>
      rw [Screen.handle, loadReply_eq U hs.rows fun e he => wellStored_of_loadable (ha e he)] at ht
      obtain rfl := Except.ok.inj ht
      exact ⟨loaded_consistent U hs email ds, iff_of_true rfl trivial⟩
  | passBackData id n t =>
    rw [Screen.handle, passBackData_eq U hs] at ht
    obtain rfl := Except.ok.inj ht
    exact ⟨added_consistent U hs id n t, iff_of_true rfl trivial⟩
  | commitDelete row =>
    cases hd : commitDelete U row s with
    | error e => simp [Screen.handle, hd, Except.map] at ht
    | ok r =>
      obtain ⟨m, path, key, hm, _, _, rfl⟩ := (commitDelete_ok U hs).mp hd
      rw [Screen.handle, hd] at ht
      obtain rfl := Except.ok.inj ht
      exact ⟨removed_consistent U hs (List.getElem?_eq_some_iff.mp hm).1, iff_of_true rfl trivial⟩
  | moveRowAt src dst =>
    obtain ⟨⟨hsrc, hdst⟩, rfl⟩ := moveRowAt_ok.mp ht
    refine ⟨moved_consistent U hs hsrc hdst, ?_⟩
    simp only [h]
    exact eq_comm.trans (swap_eq_move_iff hsrc hdst)
  | storingFailed =>
    obtain rfl := Except.ok.inj ht
    exact ⟨⟨hs.1, hs.2, hs.3⟩, iff_of_true h trivial⟩

/-- The table shows the list, row by row, along a run exactly when every moved row passes over
equal tasks only: `swapAt` exchanges two rows where the table moves one. -/
theorem showsArray_iff_passesEqual {s : Screen} (hs : s.Consistent U) (h : s.shown = s.array)
    (es : List Action) :
    Always (Screen.step U email) (ShowsArray U) s es ↔
      Along (Screen.step U email) PassesEqual s es := by
  refine always_iff_along (I := fun s _ => s.Consistent U ∧ s.shown = s.array)
    (fun s _ h => showsArray_of_eq h.1 h.2) ?_ ?_ ⟨hs, h⟩
  · rintro s a _ t ⟨hs, h⟩ ht hp
    obtain ⟨ha, ht⟩ := step_some.mp ht
    obtain ⟨hc, hiff⟩ := handle_shown hs h ha ht
    exact ⟨hc, hiff.mpr hp⟩
  · rintro s a _ t ⟨hs, h⟩ ht ⟨hq, _⟩
    obtain ⟨ha, ht⟩ := step_some.mp ht
    exact (handle_shown hs h ha ht).2.mp (List.ext_getElem? hq)

theorem showsArray_neighbours :
    Always (Screen.step .ascii someMail) (ShowsArray .ascii) viewDidLoad
      [.passBackData idA "run".toList ten, .passBackData idB "read".toList ten,
        .moveRowAt 1 0, .commitDelete 0] := by
  refine (showsArray_iff_passesEqual (viewDidLoad_consistent _) rfl _).mpr ?_
  refine fun _ _ => ⟨trivial, fun _ _ => ⟨trivial, fun s _ => ⟨?_, fun _ _ => ⟨trivial, trivial⟩⟩⟩⟩
  rintro i j (hi | hi) (hj | hj)
  all_goals first | omega | rw [show i = j by omega]

theorem moved_row_misplaced : ∃ s,
    run (Screen.step .ascii someMail) viewDidLoad
      [.passBackData idA "run".toList ten, .passBackData idB "read".toList ten,
        .passBackData idC "rest".toList ten, .moveRowAt 0 2] = some s ∧
    s.shown[0]? = some ⟨"read".toList, ten⟩ ∧ s.array[0]? = some ⟨"rest".toList, ten⟩ ∧
    (commitDelete .ascii 0 s).toOption.map Prod.snd = some [.delete (documentKey idC)] :=
  ⟨_, rfl, by decide, by decide, by decide⟩

end MobileApps.Storyboard

import MobileApps.Library.Runs
import MobileApps.Storyboard.ViewController
import Mathlib.Algebra.Ring.Parity

/-! `CustomCell.swift` and the reuse of its cells by the table of the task screen. -/

namespace MobileApps.Storyboard

open Library.Unicode Library.Rows Library.Runs

/-- The texts of the labels and the alphas of the views. The strike-through of the name is left
out. -/
structure CustomCell where
  CellName : Text := "Task name".toList
  CellTime : Text := "8:00".toList
  CellTimeAlpha : ℕ := 1
  CheckedBox : ℕ := 0
  Box : ℕ := 1
  deriving DecidableEq

namespace CustomCell

def button (c : CustomCell) : CustomCell :=
  if c.Box = 1 then { c with CheckedBox := 1, Box := 0, CellTimeAlpha := 0 }
  else { c with CellTimeAlpha := 1, Box := 1, CheckedBox := 0 }

def Checked (c : CustomCell) : Prop := c.CheckedBox = 1 ∧ c.Box = 0 ∧ c.CellTimeAlpha = 0

def Unchecked (c : CustomCell) : Prop := c.CheckedBox = 0 ∧ c.Box = 1 ∧ c.CellTimeAlpha = 1

instance (c : CustomCell) : Decidable c.Checked := inferInstanceAs (Decidable (_ ∧ _))

def bound (c : CustomCell) (t : ToDoElementsModel) : CustomCell :=
  { c with CellName := t.name, CellTime := t.time }

end CustomCell

structure TableCell where
  cell : CustomCell := {}
  presses : ℕ := 0
  deriving DecidableEq

structure TableRow where
  task : ToDoElementsModel
  presses : ℕ := 0
  cell : Option TableCell := none
  deriving DecidableEq

structure TableView where
  rows : List TableRow
  pool : List TableCell := []

/-- `appear` names the pooled cell that `dequeueReusableCell` hands out, if it is not a new one. -/
inductive TableEvent
  | button (row : ℕ)
  | appear (row : ℕ) (pooled : Option ℕ)
  | disappear (row : ℕ)
  | passBackData (taskName taskTime : Text)
  | commitDelete (row : ℕ)
  | reloadData
  deriving DecidableEq

namespace TableView

def dequeueReusableCell (s : TableView) : Option ℕ → Option (TableCell × List TableCell)
  | none => some ({}, s.pool)
  | some i => s.pool[i]?.map fun c => (c, s.pool.eraseIdx i)

def reload (s : TableView) : TableView where
  rows := s.rows.map fun r => { r with cell := none }
  pool := s.pool ++ s.rows.filterMap TableRow.cell

def step (s : TableView) : TableEvent → Option TableView
  | .button row => s.rows[row]?.bind fun r => r.cell.map fun c => { s with
      rows := s.rows.set row { r with
        presses := r.presses + 1
        cell := some { cell := c.cell.button, presses := c.presses + 1 } } }
  | .appear row pooled => s.rows[row]?.bind fun r =>
      if r.cell = none then (s.dequeueReusableCell pooled).map fun c => {
        rows := s.rows.set row { r with cell := some { c.1 with cell := c.1.cell.bound r.task } }
        pool := c.2 }
      else none
  | .disappear row => s.rows[row]?.bind fun r => r.cell.map fun c => {
      rows := s.rows.set row { r with cell := none }
      pool := s.pool ++ [c] }
  | .passBackData taskName taskTime =>
      some ({ s with rows := s.rows ++ [{ task := ⟨taskName, taskTime⟩ }] } : TableView).reload
  | .commitDelete row =>
      if row < s.rows.length then
        some { s.reload with rows := s.reload.rows.eraseIdx row }
      else none
  | .reloadData => some s.reload

def Marked (s : TableView) : Prop :=
  ∀ r ∈ s.rows, ∀ c ∈ r.cell, c.cell.Checked ↔ Odd r.presses

def HandsOutMarked (s : TableView) : TableEvent → Prop
  | .appear row pooled => ∀ r ∈ s.rows[row]?, ∀ c ∈ s.dequeueReusableCell pooled,
      (Odd c.1.presses ↔ Odd r.presses)
  | .button _ | .disappear _ | .passBackData .. | .commitDelete _ | .reloadData => True

end TableView

def TableCell.Toggled (c : TableCell) : Prop :=
  (Odd c.presses → c.cell.Checked) ∧ (¬ Odd c.presses → c.cell.Unchecked)

lemma TableCell.Toggled.checked_iff {c : TableCell} (h : c.Toggled) :
    c.cell.Checked ↔ Odd c.presses := by
  refine ⟨fun hc => ?_, h.1⟩
  by_contra hn
  exact absurd ((h.2 hn).1.symm.trans hc.1) (by decide)

lemma TableCell.toggled_new : TableCell.Toggled {} := ⟨by simp, fun _ => ⟨rfl, rfl, rfl⟩⟩

lemma TableCell.Toggled.bound {c : TableCell} (h : c.Toggled) (t : ToDoElementsModel) :
    TableCell.Toggled { c with cell := c.cell.bound t } := h

lemma TableCell.Toggled.button {c : TableCell} (h : c.Toggled) :
    TableCell.Toggled { cell := c.cell.button, presses := c.presses + 1 } := by
  refine ⟨fun ho => ?_, fun hn => ?_⟩
  · have hb : c.cell.Box = 1 := (h.2 fun hc => Nat.odd_add_one.mp ho hc).2.1
    rw [CustomCell.button, if_pos hb]
    exact ⟨rfl, rfl, rfl⟩
  · have hc : Odd c.presses := not_not.mp fun hc => hn (Nat.odd_add_one.mpr hc)
    have hb : c.cell.Box = 0 := (h.1 hc).2.1
    rw [CustomCell.button, if_neg (by simp [hb])]
    exact ⟨rfl, rfl, rfl⟩

namespace TableView

structure Sound (s : TableView) : Prop where
  pool : ∀ c ∈ s.pool, c.Toggled
  cells : ∀ r ∈ s.rows, ∀ c ∈ r.cell, c.Toggled ∧ (Odd c.presses ↔ Odd r.presses)

variable {s t : TableView}

lemma marked_of_sound (h : s.Sound) : s.Marked := by
  intro r hr c hc
  obtain ⟨ht, hp⟩ := h.cells r hr c hc
  exact ht.checked_iff.trans hp

lemma dequeued_toggled (h : s.Sound) {pooled : Option ℕ} {c : TableCell × List TableCell}
    (hc : s.dequeueReusableCell pooled = some c) :
    c.1.Toggled ∧ ∀ d ∈ c.2, d.Toggled := by
  cases pooled with
  | none =>
    obtain rfl := Option.some.inj hc
    exact ⟨TableCell.toggled_new, h.pool⟩
  | some i =>
    obtain ⟨d, hd, rfl⟩ := Option.map_eq_some_iff.mp hc
    exact ⟨h.pool d (List.mem_of_getElem? hd), fun x hx => h.pool x (eraseIdx_subset _ i hx)⟩

lemma sound_reload (h : s.Sound) : s.reload.Sound where
  pool c hc := by
    rcases List.mem_append.mp hc with hc | hc
    · exact h.pool c hc
    · obtain ⟨r, hr, hc⟩ := List.mem_filterMap.mp hc
      exact (h.cells r hr c hc).1
  cells r hr c hc := by
    obtain ⟨_, _, rfl⟩ := List.mem_map.mp hr
    cases hc

lemma step_button {row : ℕ} : s.step (.button row) = some t ↔
    ∃ r c, s.rows[row]? = some r ∧ r.cell = some c ∧ t = { s with
      rows := s.rows.set row { r with
        presses := r.presses + 1
        cell := some { cell := c.cell.button, presses := c.presses + 1 } } } := by
  simp only [step, Option.bind_eq_some_iff, Option.map_eq_some_iff]
  constructor
  · rintro ⟨r, hr, c, hc, rfl⟩
    exact ⟨r, c, hr, hc, rfl⟩
  · rintro ⟨r, c, hr, hc, rfl⟩
    exact ⟨r, hr, c, hc, rfl⟩

lemma step_disappear {row : ℕ} : s.step (.disappear row) = some t ↔
    ∃ r c, s.rows[row]? = some r ∧ r.cell = some c ∧ t = {
      rows := s.rows.set row { r with cell := none }
      pool := s.pool ++ [c] } := by
  simp only [step, Option.bind_eq_some_iff, Option.map_eq_some_iff]
  constructor
  · rintro ⟨r, hr, c, hc, rfl⟩
    exact ⟨r, c, hr, hc, rfl⟩
  · rintro ⟨r, c, hr, hc, rfl⟩
    exact ⟨r, hr, c, hc, rfl⟩

lemma step_appear {row : ℕ} {pooled : Option ℕ} : s.step (.appear row pooled) = some t ↔
    ∃ r c, s.rows[row]? = some r ∧ r.cell = none ∧ s.dequeueReusableCell pooled = some c ∧ t = {
      rows := s.rows.set row { r with cell := some { c.1 with cell := c.1.cell.bound r.task } }
      pool := c.2 } := by
  simp only [step, Option.bind_eq_some_iff]
  constructor
  · rintro ⟨r, hr, hs⟩
    split_ifs at hs with hn
    obtain ⟨c, hc, rfl⟩ := Option.map_eq_some_iff.mp hs
    exact ⟨r, c, hr, hn, hc, rfl⟩
  · rintro ⟨r, c, hr, hn, hc, rfl⟩
    exact ⟨r, hr, by simp [hn, hc]⟩

lemma sound_set {row : ℕ} {r : TableRow} {pool : List TableCell} (h : s.Sound)
    (hp : ∀ c ∈ pool, c.Toggled) (hr : ∀ c ∈ r.cell, c.Toggled ∧ (Odd c.presses ↔ Odd r.presses)) :
    Sound { rows := s.rows.set row r, pool := pool } where
  pool := hp
  cells q hq := by
    rcases List.mem_or_eq_of_mem_set hq with hq | rfl
    · exact h.cells q hq
    · exact hr

lemma sound_step {e : TableEvent} (h : s.Sound) (hs : s.step e = some t)
    (hp : s.HandsOutMarked e) : t.Sound := by
  cases e with
  | button row =>
    obtain ⟨r, c, hr, hc, rfl⟩ := step_button.mp hs
    obtain ⟨ht, hodd⟩ := h.cells r (List.mem_of_getElem? hr) c hc
    refine sound_set h h.pool fun d hd => ?_
    obtain rfl := Option.some.inj hd
    exact ⟨ht.button, by rw [Nat.odd_add_one, Nat.odd_add_one, hodd]⟩
  | appear row pooled =>
    obtain ⟨r, c, hr, _, hc, rfl⟩ := step_appear.mp hs
    obtain ⟨ht, hpool⟩ := dequeued_toggled h hc
    refine sound_set h hpool fun d hd => ?_
    obtain rfl := Option.some.inj hd
    exact ⟨ht.bound r.task, hp r hr c hc⟩
  | disappear row =>
    obtain ⟨r, c, hr, hc, rfl⟩ := step_disappear.mp hs
    refine sound_set h (fun d hd => ?_) nofun
    rcases List.mem_append.mp hd with hd | hd
    · exact h.pool d hd
    · exact List.mem_singleton.mp hd ▸ (h.cells r (List.mem_of_getElem? hr) c hc).1
  | passBackData taskName taskTime =>
    obtain rfl := Option.some.inj hs
    apply sound_reload
    refine ⟨h.pool, fun r hr => ?_⟩
    rcases List.mem_append.mp hr with hr | hr
    · exact h.cells r hr
    · rw [List.mem_singleton.mp hr]
      exact nofun
  | commitDelete row =>
    obtain ⟨_, rfl⟩ := guarded_some.mp hs
    have hreload := sound_reload h
    exact ⟨hreload.pool, fun r hr => hreload.cells r (eraseIdx_subset _ row hr)⟩
  | reloadData =>
    obtain rfl := Option.some.inj hs
    exact sound_reload h

lemma handsOutMarked_of_marked {e : TableEvent} (h : s.Sound) (hs : s.step e = some t)
    (hq : t.Marked) : s.HandsOutMarked e := by
  cases e with
  | appear row pooled =>
    intro r hr c hc
    obtain ⟨r', c', hr', _, hc', rfl⟩ := step_appear.mp hs
    obtain rfl := Option.some.inj (hr.symm.trans hr')
    obtain rfl := Option.some.inj (hc.symm.trans hc')
    have hlt := (List.getElem?_eq_some_iff.mp hr').1
    have hm := hq _ (List.mem_set hlt _) _ rfl
    exact ((dequeued_toggled h hc').1.bound r.task).checked_iff.symm.trans hm
  | _ => trivial

/-- In every run over any task list, the check marks belong to the tasks exactly when every cell
that is handed out for a row was pressed an odd number of times just if the row's task was. -/
theorem marked_iff (tasks : List ToDoElementsModel) (es : List TableEvent) :
    Always step Marked { rows := tasks.map fun t => { task := t } } es ↔
      Along step HandsOutMarked { rows := tasks.map fun t => { task := t } } es := by
  refine always_iff_along (I := fun s _ => Sound s) (fun _ _ h => marked_of_sound h)
    (fun _ _ _ _ h hs hp => sound_step h hs hp)
    (fun _ _ _ _ h hs hq => handsOutMarked_of_marked h hs hq) ⟨nofun, fun r hr => ?_⟩
  obtain ⟨_, _, rfl⟩ := List.mem_map.mp hr
  exact nofun

theorem recycled_cell_checked : ∃ s,
    run step { rows := [{ task := ⟨"run".toList, "10:00".toList⟩ },
        { task := ⟨"read".toList, "11:00".toList⟩ }] }
      [.appear 0 none, .button 0, .disappear 0, .appear 1 (some 0)] = some s ∧
    s.rows.map TableRow.presses = [1, 0] ∧
    s.rows.map (fun r => r.cell.map fun c => decide c.cell.Checked) = [none, some true] ∧
    ¬ s.Marked := by
  refine ⟨_, rfl, rfl, rfl, fun h => ?_⟩
  have hm := h _ (List.mem_cons_of_mem _ List.mem_cons_self) _ rfl
  exact absurd (hm.mp (by decide)) (by decide)

end TableView

end MobileApps.Storyboard

import Mathlib.Logic.Basic
import Mathlib.Data.List.Basic

/-! Runs of a guarded executable step: `step s e` is `none` when `e` is disabled in `s`; loops whose
body may fail. -/

namespace MobileApps.Library.Runs

variable {S E H : Type} (step : S → E → Option S)

def run : S → List E → Option S
  | s, [] => some s
  | s, e :: es => (step s e).bind fun t => run t es

/-- `Q` holds in every state of the run, as far as its events are enabled. -/
def Always (Q : S → Prop) : S → List E → Prop
  | s, [] => Q s
  | s, e :: es => Q s ∧ ∀ t, step s e = some t → Always Q t es

/-- `P` holds before every event that the run performs. -/
def Along (P : S → E → Prop) : S → List E → Prop
  | _, [] => True
  | s, e :: es => ∀ t, step s e = some t → P s e ∧ Along P t es

variable {step}

instance decidableAlong {P : S → E → Prop} [∀ s e, Decidable (P s e)] :
    ∀ s es, Decidable (Along step P s es)
  | _, [] => isTrue trivial
  | s, e :: es =>
      match hs : step s e with
      | none => isTrue fun t ht => by simp [hs] at ht
      | some u =>
          have : Decidable (Along step P u es) := decidableAlong u es
          decidable_of_iff (P s e ∧ Along step P u es)
            ⟨fun h _ ht => Option.some.inj (hs.symm.trans ht) ▸ h, fun h => h u hs⟩

lemma guarded_some {p : Prop} [Decidable p] {s t : S} :
    (if p then some s else none) = some t ↔ p ∧ t = s := by
  split <;> simp [*, eq_comm]

lemma mapped_some {α : Type} {o : Option α} {f : α → S} {t : S} :
    o.map f = some t ↔ ∃ a, o = some a ∧ t = f a := by
  rw [Option.map_eq_some_iff]
  exact exists_congr fun _ => and_congr_right fun _ => eq_comm

@[simp] lemma run_nil (s : S) : run step s [] = some s := rfl

lemma run_cons {s t : S} {e : E} {es : List E} :
    run step s (e :: es) = some t ↔ ∃ u, step s e = some u ∧ run step u es = some t := by
  simp [run, Option.bind_eq_some_iff]

lemma run_invariant {I : S → List E → Prop}
    (keep : ∀ s e es t, I s (e :: es) → step s e = some t → I t es) {s t : S} {es : List E}
    (hs : I s es) (hr : run step s es = some t) : I t [] := by
  induction es generalizing s with
  | nil => exact Option.some.inj hr ▸ hs
  | cons e es ih =>
    obtain ⟨u, hu, hr⟩ := run_cons.mp hr
    exact ih (keep s e es u hs hu) hr

lemma run_past {I : List E → S → Prop}
    (keep : ∀ past s e t, I past s → step s e = some t → I (past ++ [e]) t)
    {past : List E} {s t : S} {es : List E} (hs : I past s) (hr : run step s es = some t) :
    I (past ++ es) t := by
  induction es generalizing past s with
  | nil =>
    rw [List.append_nil]
    exact Option.some.inj hr ▸ hs
  | cons e es ih =>
    obtain ⟨u, hu, hr⟩ := run_cons.mp hr
    rw [← List.singleton_append, ← List.append_assoc]
    exact ih (keep past s e u hs hu) hr

lemma always_prefix {Q : S → Prop} {s : S} {es : List E} :
    Always step Q s es ↔ ∀ fs t, fs <+: es → run step s fs = some t → Q t := by
  induction es generalizing s with
  | nil =>
    constructor
    · intro h fs t hf hr
      rw [List.prefix_nil.mp hf] at hr
      exact Option.some.inj hr ▸ h
    · intro h
      exact h [] s (List.prefix_refl _) rfl
  | cons e es ih =>
    constructor
    · rintro ⟨hs, h⟩ fs t hf hr
      rcases List.prefix_cons_iff.mp hf with rfl | ⟨gs, rfl, hg⟩
      · exact Option.some.inj hr ▸ hs
      · obtain ⟨u, hu, hr⟩ := run_cons.mp hr
        exact ih.mp (h u hu) gs t hg hr
    · intro h
      refine ⟨h [] s List.nil_prefix rfl, fun u hu => ih.mpr fun gs t hg hr => ?_⟩
      exact h (e :: gs) t (List.prefix_cons_inj e |>.mpr hg) (run_cons.mpr ⟨u, hu, hr⟩)

lemma always_of_along {I : S → List E → Prop} {Q : S → Prop} {P : S → E → Prop}
    (law : ∀ s es, I s es → Q s)
    (keep : ∀ s e es t, I s (e :: es) → step s e = some t → P s e → I t es)
    {s : S} {es : List E} (hs : I s es) (h : Along step P s es) : Always step Q s es := by
  induction es generalizing s with
  | nil => exact law s _ hs
  | cons e es ih =>
    exact ⟨law s _ hs, fun t ht => ih (keep s e es t hs ht (h t ht).1) (h t ht).2⟩

lemma along_of_invariant {I : S → Prop} {P : S → E → Prop}
    (keep : ∀ s e t, I s → step s e = some t → P s e ∧ I t) {s : S} {es : List E} (hs : I s) :
    Along step P s es := by
  induction es generalizing s with
  | nil => trivial
  | cons e es ih => exact fun t ht => ⟨(keep s e t hs ht).1, ih (keep s e t hs ht).2⟩

lemma always_of_invariant {I Q : S → Prop} (law : ∀ s, I s → Q s)
    (keep : ∀ s e t, I s → step s e = some t → I t) {s : S} {es : List E} (hs : I s) :
    Always step Q s es := by
  induction es generalizing s with
  | nil => exact law s hs
  | cons e es ih => exact ⟨law s hs, fun t ht => ih (keep s e t hs ht)⟩

/-- A law that each step keeps exactly when it meets `P` holds along a run exactly when
every step of the run meets `P`. -/
theorem always_iff_along {I : S → List E → Prop} {Q : S → Prop} {P : S → E → Prop}
    (law : ∀ s es, I s es → Q s)
    (keep : ∀ s e es t, I s (e :: es) → step s e = some t → P s e → I t es)
    (exact_ : ∀ s e es t, I s (e :: es) → step s e = some t → Q t → P s e)
    {s : S} {es : List E} (hs : I s es) : Always step Q s es ↔ Along step P s es := by
  refine ⟨fun h => ?_, always_of_along law keep hs⟩
  induction es generalizing s with
  | nil => trivial
  | cons e es ih =>
    intro t ht
    -- the law after the step shows that the step met `P`
    have hq : Q t := always_prefix.mp (h.2 t ht) [] t List.nil_prefix rfl
    have hp := exact_ s e es t hs ht hq
    exact ⟨hp, ih (keep s e es t hs ht hp) (h.2 t ht)⟩

/-- A history variable: `f` records what happened, and never disables a step. -/
def observe (step : S → E → Option S) (f : H → S → E → H) : S × H → E → Option (S × H) :=
  fun s e => (step s.1 e).map fun t => (t, f s.2 s.1 e)

lemma observe_some {f : H → S → E → H} {s t : S × H} {e : E} :
    observe step f s e = some t ↔ step s.1 e = some t.1 ∧ f s.2 s.1 e = t.2 := by
  cases t
  simp [observe, Option.map_eq_some_iff]

lemma run_append {s t : S} {es fs : List E} :
    run step s (es ++ fs) = some t ↔ ∃ u, run step s es = some u ∧ run step u fs = some t := by
  induction es generalizing s with
  | nil => simp
  | cons e es ih =>
    rw [List.cons_append, run_cons]
    constructor
    · rintro ⟨u, hu, h⟩
      obtain ⟨v, hv, h⟩ := ih.mp h
      exact ⟨v, run_cons.mpr ⟨u, hu, hv⟩, h⟩
    · rintro ⟨v, hv, h⟩
      obtain ⟨u, hu, hv⟩ := run_cons.mp hv
      exact ⟨u, hu, ih.mpr ⟨v, hv, h⟩⟩

lemma always_observe {f : H → S → E → H} {Q : S → Prop} {s : S} {h : H} {es : List E} :
    Always (observe step f) (fun t => Q t.1) (s, h) es ↔ Always step Q s es := by
  induction es generalizing s h with
  | nil => exact Iff.rfl
  | cons e es ih =>
    constructor
    · rintro ⟨hs, ha⟩
      exact ⟨hs, fun t ht => ih.mp (ha (t, f h s e) (observe_some.mpr ⟨ht, rfl⟩))⟩
    · rintro ⟨hs, ha⟩
      refine ⟨hs, fun t ht => ?_⟩
      obtain ⟨ht, _⟩ := observe_some.mp ht
      exact ih.mpr (ha t.1 ht)

/-- A loop completes with `I`, which tells what holds after each prefix of the list, when no round
fails from there. -/
theorem foldlM_loop {ε α β : Type} {f : β → α → Except ε β} {I : List α → β → Prop}
    {l : List α} {b : β}
    (start : I [] b)
    (step : ∀ done a rest b, l = done ++ a :: rest → I done b →
      ∃ c, f b a = .ok c ∧ I (done ++ [a]) c) :
    ∃ c, l.foldlM f b = .ok c ∧ I l c := by
  have rounds : ∀ rest done b, l = done ++ rest → I done b →
      ∃ c, rest.foldlM f b = .ok c ∧ I l c := by
    intro rest
    induction rest with
    | nil =>
      intro done b hl hi
      rw [List.append_nil] at hl
      exact ⟨b, rfl, hl ▸ hi⟩
    | cons a rest ih =>
      intro done b hl hi
      obtain ⟨c, hc, hi⟩ := step done a rest b hl hi
      rw [List.foldlM_cons, hc]
      exact ih (done ++ [a]) c (by rw [hl, List.append_assoc]; rfl) hi
  exact rounds l [] b rfl start

end MobileApps.Library.Runs

import MobileApps.Exchanger.NetworkAnswers

/-! `ExchangeRatesUI.swift` with `ExchangeRatesViewModel.swift`: a reply does not say which press of
"Get rates!" it answers, and every reply fills the table. -/

namespace MobileApps.Exchanger

open Library.Unicode Library.Runs

structure ExchangeRatesUI (D : Type) where
  source : Text := []
  exchange : Exchange D := {}

inductive RatesEvent
  | select (symbol : Text)
  | getRates
  | reply (k : ℕ) (data : Option Data)
  deriving DecidableEq

structure RatesRequest (D : Type) where
  base : Text
  answer : Option (RateTable D) := none

abbrev RatesHistory (D : Type) := List (RatesRequest D)

variable {D : Type} (F : Foundation D)

namespace ExchangeRatesUI

def step (s : ExchangeRatesUI D) : RatesEvent → Option (ExchangeRatesUI D)
  | .select symbol => some { s with source := symbol }
  | .getRates => (s.exchange.step F (.getRates s.source)).map fun e => { s with exchange := e }
  | .reply k data => (s.exchange.step F (.gotRates k data)).map fun e => { s with exchange := e }

def track (h : RatesHistory D) (s : ExchangeRatesUI D) : RatesEvent → RatesHistory D
  | .select _ | .reply _ none => h
  | .getRates => h ++ [{ base := s.source }]
  | .reply k (some body) =>
      match h[k]? with
      | some r => h.set k { r with answer := some (JSONRatesParser F body) }
      | none => h

def stepRates : ExchangeRatesUI D × RatesHistory D → RatesEvent →
    Option (ExchangeRatesUI D × RatesHistory D) :=
  observe (step F) (track F)

structure Shown (s : ExchangeRatesUI D × RatesHistory D) : Prop where
  arr : s.1.exchange.arr = [] ∨ ∃ latest ∈ s.2.getLast?, ∃ r ∈ s.2,
    r.base = latest.base ∧ r.answer = some s.1.exchange.arr
  loading : s.1.exchange.loading = 1 ↔ ∃ latest ∈ s.2.getLast?, latest.answer = none

/-- A reply answers the last press, or comes after its answer and brings no rates or rates that were
returned for the same currency. -/
def InTurn (s : ExchangeRatesUI D × RatesHistory D) : RatesEvent → Prop
  | .reply k (some body) => k + 1 = s.2.length ∨ ∃ latest ∈ s.2.getLast?,
      latest.answer.isSome ∧ (JSONRatesParser F body = [] ∨
        (∃ r ∈ s.2[k]?, r.base = latest.base) ∨
        ∃ r ∈ s.2, r.base = latest.base ∧ r.answer = some (JSONRatesParser F body))
  | .select _ | .getRates | .reply _ none => True

structure Sound (s : ExchangeRatesUI D × RatesHistory D) : Prop where
  shown : Shown s
  length : s.2.length = s.1.exchange.rates.length
  waiting : ∀ (k : ℕ) (c : RatesCall D) (r : RatesRequest D), s.1.exchange.rates[k]? = some c →
    c.delivered = false → s.2[k]? = some r → r.answer = none

variable {F} {s t : ExchangeRatesUI D × RatesHistory D}

lemma step_reply {u v : ExchangeRatesUI D} {k : ℕ} {data : Option Data} :
    u.step F (.reply k data) = some v ↔ ∃ e, u.exchange.step F (.gotRates k data) = some e ∧
      v = { u with exchange := e } :=
  mapped_some

lemma step_answered {k : ℕ} {body : Data} (h : Sound s)
    (hs : stepRates F s (.reply k (some body)) = some t) :
    ∃ r c c', s.2[k]? = some r ∧ r.answer = none ∧ s.1.exchange.rates[k]? = some c ∧
      c'.delivered = true ∧ t.2 = s.2.set k { r with answer := some (JSONRatesParser F body) } ∧
      t.1.exchange.rates = s.1.exchange.rates.set k c' ∧
      t.1.exchange.arr = JSONRatesParser F body ∧ t.1.exchange.loading = 0 := by
  obtain ⟨t, h'⟩ := t
  obtain ⟨hs, rfl⟩ := observe_some.mp hs
  obtain ⟨e, he, rfl⟩ := step_reply.mp hs
  obtain ⟨c, hc, hd, rfl⟩ := Exchange.step_gotRates.mp he
  have hk : k < s.2.length := h.length ▸ (List.getElem?_eq_some_iff.mp hc).1
  have hr := List.getElem?_eq_getElem hk
  refine ⟨s.2[k], c, _, hr, h.waiting k c _ hc hd hr, hc, ?_, ?_, rfl, rfl, rfl⟩
  · rfl
  · simp only [track, hr]

lemma returned_iff (base : Text) (table : RateTable D) {l : RatesHistory D} {k : ℕ}
    {r : RatesRequest D} (hr : l[k]? = some r) (hn : r.answer = none) :
    (∃ x ∈ l.set k { r with answer := some table }, x.base = base ∧ x.answer = some table) ↔
      r.base = base ∨ ∃ x ∈ l, x.base = base ∧ x.answer = some table := by
  have hk := (List.getElem?_eq_some_iff.mp hr).1
  constructor
  · rintro ⟨x, hx, hb, ha⟩
    rcases List.mem_or_eq_of_mem_set hx with hx | rfl
    · exact Or.inr ⟨x, hx, hb, ha⟩
    · exact Or.inl hb
  · rintro (hb | ⟨x, hx, hb, ha⟩)
    · exact ⟨_, List.mem_set hk _, hb, rfl⟩
    · obtain ⟨j, hj⟩ := List.mem_iff_getElem?.mp hx
      have hne : k ≠ j := by
        rintro rfl
        obtain rfl := Option.some.inj (hr.symm.trans hj)
        exact absurd (hn.symm.trans ha) nofun
      refine ⟨x, List.mem_of_getElem? (i := j) ?_, hb, ha⟩
      rw [List.getElem?_set_ne hne, hj]

lemma shown_answered {k : ℕ} {body : Data} (h : Sound s)
    (hs : stepRates F s (.reply k (some body)) = some t) :
    Shown t ↔ InTurn F s (.reply k (some body)) := by
  obtain ⟨r, _, _, hr, hnone, _, _, ht, _, harr, hload⟩ := step_answered h hs
  have hk := (List.getElem?_eq_some_iff.mp hr).1
  by_cases hlast : k + 1 = s.2.length
  · refine ⟨fun _ => Or.inl hlast, fun _ => ?_⟩
    have hlatest : t.2.getLast? = some { r with answer := some (JSONRatesParser F body) } := by
      rw [ht, List.getLast?_eq_getElem?, List.length_set, ← hlast, Nat.add_sub_cancel,
        List.getElem?_set_self hk]
    constructor
    · rw [harr, hlatest]
      exact Or.inr ⟨_, rfl, _, List.mem_of_getLast? hlatest, rfl, rfl⟩
    · simp [hlatest, hload]
  · -- an earlier press is answered: the last one is what it was
    have hlatest : t.2.getLast? = s.2.getLast? := by
      rw [ht, List.getLast?_eq_getElem?, List.getLast?_eq_getElem?, List.length_set,
        List.getElem?_set_ne (by omega)]
    obtain ⟨latest, hget⟩ : ∃ latest, s.2.getLast? = some latest := by
      rw [List.getLast?_eq_getElem?]
      exact ⟨_, List.getElem?_eq_getElem (by omega)⟩
    have hreturned := returned_iff latest.base (JSONRatesParser F body) hr hnone
    rw [← ht] at hreturned
    have hshown : Shown t ↔ (JSONRatesParser F body = [] ∨
        ∃ x ∈ t.2, x.base = latest.base ∧ x.answer = some (JSONRatesParser F body)) ∧
          latest.answer.isSome := by
      constructor
      · rintro ⟨ha, hl⟩
        rw [harr, hlatest, hget] at ha
        rw [hload, hlatest, hget] at hl
        refine ⟨by simpa using ha, ?_⟩
        simpa [Option.isSome_iff_ne_none] using hl
      · rintro ⟨ha, hl⟩
        constructor
        · rw [harr, hlatest, hget]
          simpa using ha
        · rw [hload, hlatest, hget]
          simpa [Option.isSome_iff_ne_none] using hl
    rw [hshown, hreturned]
    simp only [InTurn, hlast, false_or, hget, hr, Option.mem_def, Option.some.injEq,
      exists_eq_left']
    exact and_comm

lemma waiting_set {k : ℕ} {c' : RatesCall D} {l : RatesHistory D} (h : Sound s)
    (hd : c'.delivered = true) (hl : ∀ j, k ≠ j → l[j]? = s.2[j]?) (j : ℕ) (c : RatesCall D)
    (r : RatesRequest D) (hc : (s.1.exchange.rates.set k c')[j]? = some c)
    (hn : c.delivered = false) (hr : l[j]? = some r) : r.answer = none := by
  by_cases hjk : k = j
  · subst hjk
    have hlt := (List.getElem?_eq_some_iff.mp hc).1
    rw [List.length_set] at hlt
    rw [List.getElem?_set_self hlt] at hc
    obtain rfl := Option.some.inj hc
    exact absurd (hd.symm.trans hn) nofun
  · rw [List.getElem?_set_ne hjk] at hc
    rw [hl j hjk] at hr
    exact h.waiting j c r hc hn hr

lemma sound_step {e : RatesEvent} (h : Sound s) (hs : stepRates F s e = some t)
    (hp : InTurn F s e) : Sound t := by
  obtain ⟨t, h'⟩ := t
  obtain ⟨hu, rfl⟩ := observe_some.mp hs
  cases e with
  | select symbol =>
    obtain rfl := Option.some.inj hu
    exact ⟨⟨h.shown.arr, h.shown.loading⟩, h.length, h.waiting⟩
  | getRates =>
    obtain ⟨e, he, rfl⟩ := Option.map_eq_some_iff.mp hu
    obtain ⟨_, rfl⟩ := guarded_some.mp he
    refine ⟨⟨Or.inl rfl, ?_⟩, ?_, fun k c r hc hd hr => ?_⟩
    · simp [track]
    · simp [track, h.length]
    · rcases Nat.lt_trichotomy k s.2.length with hk | rfl | hk
      · rw [List.getElem?_append_left (h.length ▸ hk)] at hc
        rw [track, List.getElem?_append_left hk] at hr
        exact h.waiting k c r hc hd hr
      · rw [track, List.getElem?_concat_length] at hr
        exact Option.some.inj hr ▸ rfl
      · have hlt := (List.getElem?_eq_some_iff.mp hr).1
        rw [track, List.length_append, List.length_singleton] at hlt
        omega
  | reply k data =>
    cases data with
    | none =>
      obtain ⟨e, he, rfl⟩ := step_reply.mp hu
      obtain ⟨c, hc, hd, rfl⟩ := Exchange.step_gotRates.mp he
      refine ⟨⟨h.shown.arr, h.shown.loading⟩, ?_, waiting_set h rfl fun _ _ => rfl⟩
      simp [track, h.length]
    | some body =>
      obtain ⟨r, c, c', hr, _, hc, hd, ht, hrates, _, _⟩ := step_answered h hs
      refine ⟨(shown_answered h hs).mpr hp, ?_, ?_⟩
      · rw [ht, hrates, List.length_set, List.length_set, h.length]
      · rw [ht, hrates]
        exact waiting_set h hd fun j hj => List.getElem?_set_ne hj

variable (F)

/-- In every run of selections, presses and replies in any order, the table shown is empty or was
returned for the currency of the last press, and it loads just while that press is unanswered,
exactly when every reply comes in turn. -/
theorem shown_iff (es : List RatesEvent) :
    Always (stepRates F) Shown ({}, []) es ↔ Along (stepRates F) (InTurn F) ({}, []) es := by
  refine always_iff_along (I := fun s _ => Sound s) (fun _ _ h => h.shown)
    (fun _ _ _ _ h hs hp => sound_step h hs hp) (fun s e _ t h hs hq => ?_) ?_
  · cases e with
    | select | getRates => trivial
    | reply k data =>
      cases data with
      | none => trivial
      | some body => exact (shown_answered h hs).mp hq
  · refine ⟨⟨Or.inl rfl, by simp⟩, rfl, nofun⟩

variable {F}

def firstByte : Foundation ℕ where
  zero := 0
  isURL _ := true
  decodeConvertData _ := none
  decodeRates body := body.head?.map fun b => [("GBP".toList, b.toNat)]

theorem late_rates_shown : ∃ s,
    run (stepRates firstByte) ({}, []) [.select "EUR".toList, .getRates, .select "USD".toList,
      .getRates, .reply 1 (some [7]), .reply 0 (some [9])] = some s ∧
    s.1.source = "USD".toList ∧ s.1.exchange.arr = [("GBP".toList, 9)] ∧
    s.2.map RatesRequest.answer = [some [("GBP".toList, 9)], some [("GBP".toList, 7)]] ∧
    ¬ Shown s := by
  refine ⟨_, rfl, rfl, rfl, rfl, fun h => ?_⟩
  rcases h.arr with hnil | ⟨latest, hl, r, hr, hb, ha⟩
  · cases hnil
  · obtain rfl := Option.some.inj hl
    rcases List.mem_cons.mp hr with rfl | hr
    · exact absurd hb (by decide)
    · obtain rfl := List.mem_singleton.mp hr
      exact absurd (Option.some.inj ha) (by decide)

end ExchangeRatesUI

end MobileApps.Exchanger

import MobileApps.Exchanger.NetworkManager

/-! Whether every call of `NetworkManager` is answered: a request that ends without data leaves the
closure by its early return. -/

namespace MobileApps.Exchanger

open Library.Unicode Library.Runs

variable {D : Type} {F : Foundation D}

namespace ConvertCall

structure Answered (c : ConvertCall D) : Prop where
  signals : c.signals = if c.delivered then 1 else 0
  resumes : c.delivered → c.caller ≠ .waiting

structure Sound (c : ConvertCall D) : Prop where
  answered : c.Answered
  ready : c.delivered → c.caller = .calling → 0 < c.semaphore
  blocks : ¬ c.delivered → c.semaphore = 0 ∧ c.caller ≠ .resumed

lemma sound_wait {c c' : ConvertCall D} (h : c.Sound) (hw : c.wait = some c') : c'.Sound := by
  simp only [wait] at hw
  split_ifs at hw with hcalling hpos
  · obtain rfl := Option.some.inj hw
    refine ⟨⟨h.answered.signals, fun _ => by simp⟩, fun _ => nofun, fun hn => ?_⟩
    exact absurd hpos (by simp [(h.blocks hn).1])
  · obtain rfl := Option.some.inj hw
    refine ⟨⟨h.answered.signals, fun hdel => ?_⟩, fun _ => nofun, fun hn => ?_⟩
    · exact absurd (h.ready hdel hcalling) hpos
    · exact ⟨(h.blocks hn).1, by simp⟩

lemma sound_deliver {c c' : ConvertCall D} {data : Option Data} (h : c.Sound)
    (hd : c.deliver F data = some c') (hdata : data.isSome) : c'.Sound := by
  obtain ⟨body, rfl⟩ := Option.isSome_iff_exists.mp hdata
  have hs := h.answered.signals
  simp only [deliver] at hd
  split_ifs at hd with hdel
  obtain rfl := Option.some.inj hd
  rw [if_neg hdel] at hs
  simp only [signal]
  split_ifs with hw
  · exact ⟨⟨by simp [hs], fun _ => by simp⟩, fun _ => nofun, fun hn => absurd rfl hn⟩
  · exact ⟨⟨by simp [hs], fun _ => hw⟩, fun _ _ => Nat.succ_pos _, fun hn => absurd rfl hn⟩

end ConvertCall

def RatesCall.Answered (c : RatesCall D) : Prop :=
  c.completions.length = if c.delivered then 1 else 0

namespace Exchange

structure Answered (s : Exchange D) : Prop where
  converts : ∀ c ∈ s.converts, c.Answered
  rates : ∀ c ∈ s.rates, c.Answered
  loading : (∀ c ∈ s.rates, c.delivered) → s.loading = 0

def HasData (_ : Exchange D) : ExchangeEvent → Prop
  | .converted _ data | .gotRates _ data => data.isSome
  | .convert .. | .wait _ | .getRates _ => True

structure Sound (s : Exchange D) : Prop where
  converts : ∀ c ∈ s.converts, c.Sound
  rates : ∀ c ∈ s.rates, c.Answered
  loading : s.loading = 0 ∨ ∃ c ∈ s.rates, ¬ c.delivered

variable {s t : Exchange D}

lemma answered_of_sound (h : s.Sound) : s.Answered where
  converts c hc := (h.converts c hc).answered
  rates := h.rates
  loading hall := h.loading.resolve_right fun ⟨c, hc, hn⟩ => hn (hall c hc)

lemma step_wait {k : ℕ} : s.step F (.wait k) = some t ↔
    ∃ c c', s.converts[k]? = some c ∧ c.wait = some c' ∧
      t = { s with converts := s.converts.set k c' } := by
  simp only [step, Option.bind_eq_some_iff, Option.map_eq_some_iff]
  constructor
  · rintro ⟨c, hc, c', hc', rfl⟩
    exact ⟨c, c', hc, hc', rfl⟩
  · rintro ⟨c, c', hc, hc', rfl⟩
    exact ⟨c, hc, c', hc', rfl⟩

lemma step_converted {k : ℕ} {data : Option Data} : s.step F (.converted k data) = some t ↔
    ∃ c c', s.converts[k]? = some c ∧ c.deliver F data = some c' ∧
      t = { s with converts := s.converts.set k c' } := by
  simp only [step, Option.bind_eq_some_iff, Option.map_eq_some_iff]
  constructor
  · rintro ⟨c, hc, c', hc', rfl⟩
    exact ⟨c, c', hc, hc', rfl⟩
  · rintro ⟨c, c', hc, hc', rfl⟩
    exact ⟨c, hc, c', hc', rfl⟩

lemma step_gotRates {k : ℕ} {data : Option Data} : s.step F (.gotRates k data) = some t ↔
    ∃ c, s.rates[k]? = some c ∧ c.delivered = false ∧ t = match data with
      | none => { s with rates := s.rates.set k { c with delivered := true } }
      | some body => { s with
          rates := s.rates.set k { c with
            delivered := true
            completions := c.completions ++ [JSONRatesParser F body] }
          loading := 0
          arr := JSONRatesParser F body } := by
  simp only [step, Option.bind_eq_some_iff, Option.map_eq_some_iff, RatesCall.deliver]
  constructor
  · rintro ⟨c, hc, c', hc', rfl⟩
    split_ifs at hc' with hd
    refine ⟨c, hc, by simpa using hd, ?_⟩
    cases data <;> obtain rfl := Option.some.inj hc' <;> simp [completed]
  · rintro ⟨c, hc, hd, rfl⟩
    refine ⟨c, hc, ?_⟩
    cases data <;> simp [hd, completed]

lemma sound_step {e : ExchangeEvent} (h : s.Sound) (hs : s.step F e = some t) (hp : s.HasData e) :
    t.Sound := by
  have replaced : ∀ {k : ℕ} {c' : ConvertCall D}, c'.Sound →
      Sound { s with converts := s.converts.set k c' } := by
    intro k c' hc'
    refine ⟨fun d hd => ?_, h.rates, h.loading⟩
    rcases List.mem_or_eq_of_mem_set hd with hd | rfl
    · exact h.converts d hd
    · exact hc'
  cases e with
  | convert from' to' amount =>
    obtain ⟨_, rfl⟩ := guarded_some.mp hs
    refine ⟨fun c hc => ?_, h.rates, h.loading⟩
    rcases List.mem_append.mp hc with hc | hc
    · exact h.converts c hc
    · obtain rfl := List.mem_singleton.mp hc
      exact ⟨⟨rfl, nofun⟩, nofun, fun _ => ⟨rfl, nofun⟩⟩
  | wait k =>
    obtain ⟨c, c', hc, hw, rfl⟩ := step_wait.mp hs
    exact replaced (ConvertCall.sound_wait (h.converts c (List.mem_of_getElem? hc)) hw)
  | converted k data =>
    obtain ⟨c, c', hc, hd, rfl⟩ := step_converted.mp hs
    exact replaced (ConvertCall.sound_deliver (h.converts c (List.mem_of_getElem? hc)) hd hp)
  | getRates base =>
    obtain ⟨_, rfl⟩ := guarded_some.mp hs
    refine ⟨h.converts, fun c hc => ?_,
      Or.inr ⟨_, List.mem_append_right _ List.mem_cons_self, by simp⟩⟩
    rcases List.mem_append.mp hc with hc | hc
    · exact h.rates c hc
    · obtain rfl := List.mem_singleton.mp hc
      rfl
  | gotRates k data =>
    obtain ⟨c, hc, hd, rfl⟩ := step_gotRates.mp hs
    obtain ⟨body, rfl⟩ := Option.isSome_iff_exists.mp hp
    refine ⟨h.converts, fun d hm => ?_, Or.inl rfl⟩
    rcases List.mem_or_eq_of_mem_set hm with hm | rfl
    · exact h.rates d hm
    · have hlen := h.rates c (List.mem_of_getElem? hc)
      simp_all [RatesCall.Answered]

lemma hasData_of_answered {e : ExchangeEvent} (h : s.Sound) (hs : s.step F e = some t)
    (hq : t.Answered) : s.HasData e := by
  cases e with
  | converted k data =>
    obtain ⟨c, c', hc, hd, rfl⟩ := step_converted.mp hs
    have hlt := (List.getElem?_eq_some_iff.mp hc).1
    have hc' : c'.Answered := hq.converts c' (List.mem_set hlt c')
    cases data with
    | some body => rfl
    | none =>
      have hsound := h.converts c (List.mem_of_getElem? hc)
      simp only [ConvertCall.deliver] at hd
      split_ifs at hd with hdel
      obtain rfl := Option.some.inj hd
      have hsig : c.signals = 0 := by simpa [hdel] using hsound.answered.signals
      exact absurd (hsig.symm.trans hc'.signals) (by simp)
  | gotRates k data =>
    obtain ⟨c, hc, hdel, rfl⟩ := step_gotRates.mp hs
    cases data with
    | some body => rfl
    | none =>
      have hlt := (List.getElem?_eq_some_iff.mp hc).1
      have hc' : RatesCall.Answered { c with delivered := true } :=
        hq.rates _ (List.mem_set hlt _)
      have hlen : c.completions.length = 0 := by
        simpa [RatesCall.Answered, hdel] using h.rates c (List.mem_of_getElem? hc)
      exact absurd (hlen.symm.trans hc') (by simp)
  | convert | wait | getRates => trivial

variable (F)

/-- In every run of calls and outcomes, each outcome answers its call once, and no caller waits or
loads after its outcome, exactly when every outcome delivered carries data. -/
theorem answered_iff (es : List ExchangeEvent) :
    Always (step F) Answered {} es ↔ Along (step F) HasData {} es := by
  refine always_iff_along (I := fun s _ => Sound s) (fun _ _ h => answered_of_sound h)
    (fun _ _ _ _ h hs hp => sound_step h hs hp)
    (fun _ _ _ _ h hs hq => hasData_of_answered h hs hq) ?_
  constructor <;> simp

variable {F}

def anyText : Foundation ℕ where
  zero := 0
  isURL _ := true
  decodeConvertData body := body.head?.map UInt8.toNat
  decodeRates _ := none

theorem transport_error_unanswered : ∃ s,
    run (step anyText) {} [.convert "EUR".toList "USD".toList "1".toList, .wait 0,
      .converted 0 none, .getRates "EUR".toList, .gotRates 0 none] = some s ∧
    s.converts.map ConvertCall.caller = [.waiting] ∧ s.converts.map ConvertCall.delivered = [true] ∧
    s.rates.map RatesCall.completions = [[]] ∧ s.loading = 1 ∧ ¬ s.Answered := by
  refine ⟨_, rfl, rfl, rfl, rfl, rfl, fun h => ?_⟩
  exact absurd (h.loading (by decide)) (by decide)

end Exchange

end MobileApps.Exchanger

import MobileApps.Exchanger.NetworkManager

namespace MobileApps.Exchanger

open Library.Unicode Library.Runs

variable {D : Type} (F : Foundation D)

-- The caller waits before the outcome comes; without data nothing ever signals it.
def NetworkManager.convert (from' to' amount : Text) (data : Option Data) : Option D :=
  if F.isURL (convertURL from' to' amount) then do
    let c ← ConvertCall.wait { url := convertURL from' to' amount, result := F.zero }
    let c ← c.deliver F data
    if c.caller = .resumed then some c.result else none
  else none

structure CalculatorViewModel where
  from' : Text := []
  to' : Text := []
  amount : Text := []
  result : Text := []
  clicked : Bool := false

inductive CalculatorEvent
  | editFrom (symbol : Text)
  | editTo (symbol : Text)
  | editAmount (amount : Text)
  | convert (data : Option Data)
  deriving DecidableEq

namespace CalculatorViewModel

def missing (m : CalculatorViewModel) : Bool := m.amount = [] ∨ m.from' = [] ∨ m.to' = []

variable (string : D → Text)

def convert (m : CalculatorViewModel) (data : Option Data) : Option CalculatorViewModel :=
  let m := { m with clicked := true }
  if m.missing then some m
  else (NetworkManager.convert F m.from' m.to' m.amount data).map fun x =>
    { m with result := string x }

def step (m : CalculatorViewModel) : CalculatorEvent → Option CalculatorViewModel
  | .editFrom symbol => some { m with from' := symbol }
  | .editTo symbol => some { m with to' := symbol }
  | .editAmount amount => some { m with amount := amount }
  | .convert data => m.convert F string data

def track (last : Option Data) (m : CalculatorViewModel) : CalculatorEvent → Option Data
  | .convert data => if m.missing then last else data
  | .editFrom _ | .editTo _ | .editAmount _ => last

def stepBodies : CalculatorViewModel × Option Data → CalculatorEvent →
    Option (CalculatorViewModel × Option Data) :=
  observe (step F string) track

def Honest (s : CalculatorViewModel × Option Data) : Prop :=
  ∀ body ∈ s.2, ∀ x, s.1.result = string x →
    ∃ y, F.decodeConvertData body = some y ∧ s.1.result = string y

def Decodes (s : CalculatorViewModel × Option Data) : CalculatorEvent → Prop
  | .convert data => s.1.missing = false → ∀ body ∈ data, (F.decodeConvertData body).isSome
  | .editFrom _ | .editTo _ | .editAmount _ => True

variable {F string} {s t : CalculatorViewModel × Option Data}

lemma convert_some {from' to' amount : Text} {data : Option Data} {x : D} :
    NetworkManager.convert F from' to' amount data = some x ↔
      F.isURL (convertURL from' to' amount) ∧ ∃ body ∈ data, JSONConvertParser F body = x := by
  rw [NetworkManager.convert]
  split
  case isTrue h =>
    cases data <;> simp [ConvertCall.wait, ConvertCall.deliver, ConvertCall.signal, h]
  case isFalse h => simp [h]

lemma step_missing {m n : CalculatorViewModel} {data : Option Data} (hm : m.missing) :
    m.step F string (.convert data) = some n ↔ n = { m with clicked := true } := by
  have hm' : ({ m with clicked := true } : CalculatorViewModel).missing := hm
  rw [step, convert, if_pos hm', Option.some_inj, eq_comm]

lemma step_pressed {m n : CalculatorViewModel} {data : Option Data} (hm : m.missing = false) :
    m.step F string (.convert data) = some n ↔
      F.isURL (convertURL m.from' m.to' m.amount) ∧ ∃ body ∈ data,
        n = { m with clicked := true, result := string (JSONConvertParser F body) } := by
  have hm' : ¬ ({ m with clicked := true } : CalculatorViewModel).missing := by
    rw [Bool.not_eq_true]
    exact hm
  rw [step, convert, if_neg hm', Option.map_eq_some_iff]
  simp only [convert_some]
  constructor
  · rintro ⟨_, ⟨hurl, body, hb, rfl⟩, rfl⟩
    exact ⟨hurl, body, hb, rfl⟩
  · rintro ⟨hurl, body, hb, rfl⟩
    exact ⟨_, ⟨hurl, body, hb, rfl⟩, rfl⟩

lemma step_bodies {data : Option Data} (hm : s.1.missing = false)
    (hs : stepBodies F string s (.convert data) = some t) :
    ∃ body, data = some body ∧ t.2 = some body ∧
      t.1.result = string (JSONConvertParser F body) := by
  obtain ⟨t, last⟩ := t
  obtain ⟨hs, rfl⟩ := observe_some.mp hs
  obtain ⟨_, body, rfl, rfl⟩ := (step_pressed hm).mp hs
  exact ⟨body, rfl, by simp [track, hm], rfl⟩

lemma honest_step {e : CalculatorEvent} (h : Honest F string s)
    (hs : stepBodies F string s e = some t) (hp : Decodes F s e) : Honest F string t := by
  cases e with
  | editFrom | editTo | editAmount =>
    obtain rfl := Option.some.inj hs
    exact h
  | convert data =>
    cases hm : s.1.missing with
    | true =>
      obtain ⟨t, last⟩ := t
      obtain ⟨hs, rfl⟩ := observe_some.mp hs
      obtain rfl := (step_missing hm).mp hs
      simpa only [Honest, track, hm, if_true] using h
    | false =>
      obtain ⟨body, rfl, hlast, hresult⟩ := step_bodies hm hs
      obtain ⟨y, hy⟩ := Option.isSome_iff_exists.mp (hp hm body rfl)
      intro b hb x _
      rw [hlast] at hb
      obtain rfl := Option.some.inj hb
      exact ⟨y, hy, by rw [hresult, JSONConvertParser, hy, Option.getD_some]⟩

lemma decodes_of_honest {e : CalculatorEvent} (hs : stepBodies F string s e = some t)
    (hq : Honest F string t) : Decodes F s e := by
  cases e with
  | editFrom | editTo | editAmount => trivial
  | convert data =>
    intro hm body hb
    obtain ⟨body', rfl, hlast, hresult⟩ := step_bodies hm hs
    obtain rfl := Option.some.inj hb
    obtain ⟨y, hy, _⟩ := hq body' hlast _ hresult
    exact Option.isSome_iff_exists.mpr ⟨y, hy⟩

variable (F string)

/-- In every run of edits and presses, whatever bodies are returned, a number is shown only when the
body of the last request decodes to it, exactly when every body returned decodes. -/
theorem honest_iff (es : List CalculatorEvent) :
    Always (stepBodies F string) (Honest F string) ({}, none) es ↔
      Along (stepBodies F string) (Decodes F) ({}, none) es :=
  always_iff_along (I := fun s _ => Honest F string s) (fun _ _ h => h)
    (fun _ _ _ _ h hs hp => honest_step h hs hp) (fun _ _ _ _ _ hs hq => decodes_of_honest hs hq)
    nofun

variable {F string}

def firstOctet : Foundation ℕ where
  zero := 0
  isURL _ := true
  decodeConvertData body := body.head?.map UInt8.toNat
  decodeRates _ := none

theorem undecoded_body_shown : ∃ s,
    run (stepBodies firstOctet fun x => (toString x).toList) ({}, none)
      [.editFrom "EUR".toList, .editTo "USD".toList, .editAmount "5".toList, .convert (some [])] =
        some s ∧
    s.1.result = ['0'] ∧ firstOctet.decodeConvertData [] = none ∧
    ¬ Honest firstOctet (fun x => (toString x).toList) s := by
  refine ⟨_, rfl, by decide, rfl, fun h => ?_⟩
  obtain ⟨y, hy, _⟩ := h [] rfl 0 rfl
  cases hy

end CalculatorViewModel

end MobileApps.Exchanger

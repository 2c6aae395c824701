import MobileApps.Library.Pattern
import MobileApps.Library.Regex
import MobileApps.Library.Unicode

/-! `Brain.swift`: the expressions that emails and passwords have to match as a whole. -/

namespace MobileApps.Storyboard

open RegularExpression
open Library Library.Unicode Library.Regex

def unit (c : Char) : ℕ := c.toNat

def unitsOf (s : String) : List ℕ := s.toList.map unit

def letters : List ℕ := unitsOf "ABCDEFGHIJKLMNOPQRSTUVWXYZabcdefghijklmnopqrstuvwxyz"

def digits : List ℕ := unitsOf "0123456789"

/-- `[A-Z0-9a-z._%+-]+@[A-Za-z0-9.-]+\.[A-Za-z]{2,64}` -/
def emailFormat : RegularExpression ℕ :=
  oneOrMore (oneOf (letters ++ digits ++ unitsOf "._%+-")) * (char (unit '@') *
    (oneOrMore (oneOf (letters ++ digits ++ unitsOf ".-")) * (char (unit '.') *
      (oneOf letters * (oneOf letters * atMost (oneOf letters) 62)))))

def isvalidEmail (enteredEmail : Text) : Bool := emailFormat.rmatch (utf16 enteredEmail)

lemma isvalidEmail_units (enteredEmail : Text) : isvalidEmail enteredEmail ↔
    ∃ a b c, utf16 enteredEmail = a ++ unit '@' :: (b ++ unit '.' :: c) ∧
      (a ≠ [] ∧ ∀ u ∈ a, u ∈ letters ++ digits ++ unitsOf "._%+-") ∧
      (b ≠ [] ∧ ∀ u ∈ b, u ∈ letters ++ digits ++ unitsOf ".-") ∧
      2 ≤ c.length ∧ c.length ≤ 64 ∧ ∀ u ∈ c, u ∈ letters := by
  have top : ∀ c, (oneOf letters * (oneOf letters * atMost (oneOf letters) 62)).rmatch c ↔
      2 ≤ c.length ∧ c.length ≤ 64 ∧ ∀ u ∈ c, u ∈ letters := by
    intro c
    simp only [mul_rmatch_iff, oneOf_rmatch, atMost_rmatch]
    constructor
    · rintro ⟨_, _, rfl, ⟨x, hx, rfl⟩, _, z, rfl, ⟨y, hy, rfl⟩, hn, hz⟩
      simp only [List.singleton_append, List.length_cons, List.forall_mem_cons]
      exact ⟨by omega, by omega, hx, hy, hz⟩
    · rintro ⟨h2, h64, h⟩
      obtain ⟨x, y, z, rfl⟩ : ∃ x y z, c = x :: y :: z := by
        match c, h2 with
        | x :: y :: z, _ => exact ⟨x, y, z, rfl⟩
      simp only [List.length_cons, List.forall_mem_cons] at h64 h
      exact ⟨[x], y :: z, rfl, ⟨x, h.1, rfl⟩, [y], z, rfl, ⟨y, h.2.1, rfl⟩, by omega, h.2.2⟩
  rw [isvalidEmail, emailFormat]
  simp only [mul_rmatch_iff _ (char _ * _), mul_rmatch_iff (char _),
    char_rmatch_iff, oneOrMore_rmatch, top]
  constructor
  · rintro ⟨a, _, h, ha, _, _, rfl, rfl, b, _, rfl, hb, _, c, rfl, rfl, hc⟩
    exact ⟨a, b, c, h, ha, hb, hc⟩
  · rintro ⟨a, b, c, h, ha, hb, hc⟩
    exact ⟨a, _, h, ha, [unit '@'], _, rfl, rfl, b, _, rfl, hb, [unit '.'], c, rfl, rfl, hc⟩

def nameChar (c : Char) : Bool := c.isAlphanum || c ∈ "._%+-".toList

def hostChar (c : Char) : Bool := c.isAlphanum || c ∈ ".-".toList

lemma unit_mem {c : Char} {s : String} : unit c ∈ unitsOf s ↔ c ∈ s.toList :=
  List.mem_map_of_injective fun _ _ h => Char.toNat_inj.mp h

lemma unit_alpha {c : Char} : unit c ∈ letters ↔ c.isAlpha := by
  have hl : ∀ u ∈ letters, (65 ≤ u ∧ u ≤ 90) ∨ (97 ≤ u ∧ u ≤ 122) := by decide
  have hn : ∀ u < 123, (65 ≤ u ∧ u ≤ 90) ∨ (97 ≤ u ∧ u ≤ 122) → u ∈ letters := by decide
  rw [isAlpha_iff, ← unit]
  exact ⟨hl _, fun h => hn _ (by omega) h⟩

lemma mem_digits {u : ℕ} : u ∈ digits ↔ 48 ≤ u ∧ u ≤ 57 := by
  have hl : ∀ u ∈ digits, 48 ≤ u ∧ u ≤ 57 := by decide
  have hn : ∀ u < 58, 48 ≤ u ∧ u ≤ 57 → u ∈ digits := by decide
  exact ⟨hl u, fun h => hn u (by omega) h⟩

lemma unit_digit {c : Char} : unit c ∈ digits ↔ c.isDigit :=
  mem_digits.trans Char.isDigit_iff_toNat.symm

lemma unit_class {c : Char} {s : String} :
    unit c ∈ letters ++ digits ++ unitsOf s ↔ c.isAlphanum || c ∈ s.toList := by
  rw [List.mem_append, List.mem_append, unit_alpha, unit_digit, unit_mem, ← Bool.or_eq_true,
    Bool.or_eq_true (c.isAlphanum), decide_eq_true_iff]
  rfl

def AddressUnits (a b c : List ℕ) : Prop :=
  (a ≠ [] ∧ ∀ u ∈ a, u ∈ letters ++ digits ++ unitsOf "._%+-") ∧
  (b ≠ [] ∧ ∀ u ∈ b, u ∈ letters ++ digits ++ unitsOf ".-") ∧
  2 ≤ c.length ∧ c.length ≤ 64 ∧ ∀ u ∈ c, u ∈ letters

lemma AddressUnits.ascii {a b c : List ℕ} (h : AddressUnits a b c) :
    ∀ u ∈ a ++ unit '@' :: (b ++ unit '.' :: c), u < 0x80 := by
  have hname : ∀ u ∈ letters ++ digits ++ unitsOf "._%+-", u < 0x80 := by decide
  have hhost : ∀ u ∈ letters ++ digits ++ unitsOf ".-", u < 0x80 := by decide
  have hletter : ∀ u ∈ letters, u < 0x80 := by decide
  obtain ⟨⟨_, ha⟩, ⟨_, hb⟩, _, _, hc⟩ := h
  intro u hu
  rcases List.mem_append.mp hu with hu | hu
  · exact hname u (ha u hu)
  rcases List.mem_cons.mp hu with rfl | hu
  · decide
  rcases List.mem_append.mp hu with hu | hu
  · exact hhost u (hb u hu)
  rcases List.mem_cons.mp hu with rfl | hu
  · decide
  · exact hletter u (hc u hu)

lemma addressUnits_map {a b c : Text} : AddressUnits (a.map unit) (b.map unit) (c.map unit) ↔
    (a ≠ [] ∧ ∀ d ∈ a, nameChar d) ∧ (b ≠ [] ∧ ∀ d ∈ b, hostChar d) ∧
      2 ≤ c.length ∧ c.length ≤ 64 ∧ ∀ d ∈ c, d.isAlpha := by
  simp only [AddressUnits, List.forall_mem_map, unit_class, unit_alpha, List.length_map, ne_eq,
    List.map_eq_nil_iff, nameChar, hostChar]

lemma isvalidEmail_parts (enteredEmail : Text) : isvalidEmail enteredEmail ↔
    ∃ a b c, enteredEmail = a ++ '@' :: (b ++ '.' :: c) ∧
      (a ≠ [] ∧ ∀ d ∈ a, nameChar d) ∧ (b ≠ [] ∧ ∀ d ∈ b, hostChar d) ∧
      2 ≤ c.length ∧ c.length ≤ 64 ∧ ∀ d ∈ c, d.isAlpha := by
  rw [isvalidEmail_units]
  constructor
  · rintro ⟨a, b, c, hu, h⟩
    -- no unit is half of a surrogate pair, so the units are the characters
    have hmap : enteredEmail.map unit = a ++ unit '@' :: (b ++ unit '.' :: c) := by
      rw [← hu]
      exact utf16_ascii (hu ▸ AddressUnits.ascii h)
    obtain ⟨a, _, rfl, rfl, hat⟩ := List.map_eq_append_iff.mp hmap
    obtain ⟨d, _, rfl, hd, hdomain⟩ := List.map_eq_cons_iff.mp hat
    obtain ⟨b, _, rfl, rfl, hdot⟩ := List.map_eq_append_iff.mp hdomain
    obtain ⟨e, c, rfl, he, rfl⟩ := List.map_eq_cons_iff.mp hdot
    obtain rfl : d = '@' := Char.toNat_inj.mp hd
    obtain rfl : e = '.' := Char.toNat_inj.mp he
    exact ⟨a, b, c, rfl, addressUnits_map.mp h⟩
  · rintro ⟨a, b, c, rfl, h⟩
    have hunits : AddressUnits (a.map unit) (b.map unit) (c.map unit) := addressUnits_map.mpr h
    have hmap : (a ++ '@' :: (b ++ '.' :: c)).map unit =
        a.map unit ++ unit '@' :: (b.map unit ++ unit '.' :: c.map unit) := by
      simp only [List.map_append, List.map_cons]
    refine ⟨a.map unit, b.map unit, c.map unit, ?_, hunits⟩
    rw [utf16_map]
    · exact hmap
    · intro d hd
      have hu := hunits.ascii (unit d) (hmap ▸ List.mem_map_of_mem hd)
      exact Nat.lt_trans hu (by decide)

lemma isvalidEmail_of_parts {a b c : Text} (ha : a ≠ [] ∧ a.all nameChar)
    (hb : b ≠ [] ∧ b.all hostChar) (hc : 2 ≤ c.length ∧ c.length ≤ 64 ∧ c.all Char.isAlpha) :
    isvalidEmail (a ++ '@' :: (b ++ '.' :: c)) :=
  (isvalidEmail_parts _).mpr ⟨a, b, c, rfl, ⟨ha.1, List.all_eq_true.mp ha.2⟩,
    ⟨hb.1, List.all_eq_true.mp hb.2⟩, hc.1, hc.2.1, List.all_eq_true.mp hc.2.2⟩

def dot (c : Char) : Bool := c.toNat ∉ terminators

def range (a b c : Char) : Bool := a ≤ c && c ≤ b

/-- `^(?=.*?[A-Z])(?=.*?[a-z])(?=.*?[0-7]).{7,}$`; the anchors hold wherever a match of the whole
string starts and ends. -/
def passwordRegex : Pattern Char :=
  .seq (.ahead (.seq (.many dot) (.one (range 'A' 'Z'))))
    (.seq (.ahead (.seq (.many dot) (.one (range 'a' 'z'))))
      (.seq (.ahead (.seq (.many dot) (.one (range '0' '7')))) (.atLeast dot 7)))

def isValidPassword (enteredPassword : Text) : Bool := passwordRegex.matchesWhole enteredPassword

theorem isValidPassword_iff (enteredPassword : Text) :
    isValidPassword enteredPassword ↔ 7 ≤ enteredPassword.length ∧
      (∀ c ∈ enteredPassword, dot c) ∧ (∃ c ∈ enteredPassword, range 'A' 'Z' c) ∧
      (∃ c ∈ enteredPassword, range 'a' 'z' c) ∧ ∃ c ∈ enteredPassword, range '0' '7' c := by
  have whole : [] ∈ (Pattern.atLeast dot 7).rests enteredPassword ↔
      7 ≤ enteredPassword.length ∧ ∀ c ∈ enteredPassword, dot c := by
    rw [Pattern.mem_atLeast]
    simp
  rw [isValidPassword, Pattern.matchesWhole_iff, passwordRegex, Pattern.mem_seq_ahead,
    Pattern.mem_seq_ahead, Pattern.mem_seq_ahead, whole]
  constructor
  · rintro ⟨hu, hl, hd, hn, hw⟩
    rw [Pattern.ahead_many_one hw] at hu hl hd
    exact ⟨hn, hw, hu, hl, hd⟩
  · rintro ⟨hn, hw, hu, hl, hd⟩
    rw [← Pattern.ahead_many_one hw] at hu hl hd
    exact ⟨hu, hl, hd, hn, hw⟩

end MobileApps.Storyboard

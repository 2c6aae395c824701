import MobileApps.Library.Unicode
import Mathlib.Data.Int.Notation

namespace MobileApps.Library.Decimal

open Unicode

def intText : ℤ → Text
  | .ofNat n => Nat.toDigits 10 n
  | .negSucc n => '-' :: Nat.toDigits 10 (n + 1)

def parseNat (s : Text) : Option ℕ :=
  if s ≠ [] ∧ s.all Char.isDigit then some (Nat.ofDigitChars 10 s 0) else none

def parseInt : Text → Option ℤ
  | '-' :: s => (parseNat s).map fun n => -(n : ℤ)
  | '+' :: s => (parseNat s).map fun n => (n : ℤ)
  | s => (parseNat s).map fun n => (n : ℤ)

lemma digits_of_parseNat {s : Text} {n : ℕ} (h : n ∈ parseNat s) :
    s ≠ [] ∧ ∀ c ∈ s, c.isDigit := by
  rw [parseNat] at h
  split at h
  · rename_i hs
    exact ⟨hs.1, List.all_eq_true.mp hs.2⟩
  · cases h

lemma parseNat_toDigits (n : ℕ) : parseNat (Nat.toDigits 10 n) = some n := by
  have hd : (Nat.toDigits 10 n).all Char.isDigit := by
    rw [List.all_eq_true]
    exact fun c hc => Nat.isDigit_of_mem_toDigits (by decide) (by decide) hc
  rw [parseNat, if_pos ⟨Nat.toDigits_ne_nil, hd⟩, Nat.ofDigitChars_ten_toDigits]

lemma parseInt_digits {c : Char} {s : Text} (h : c.isDigit) :
    parseInt (c :: s) = (parseNat (c :: s)).map fun n => (n : ℤ) := by
  unfold parseInt
  split
  · simp_all
  · simp_all
  · rfl

theorem parseInt_intText (n : ℤ) : parseInt (intText n) = some n := by
  cases n with
  | ofNat n =>
    have hp := parseNat_toDigits n
    cases hd : Nat.toDigits 10 n with
    | nil => exact absurd hd Nat.toDigits_ne_nil
    | cons c s =>
      have hc : c.isDigit :=
        Nat.isDigit_of_mem_toDigits (b := 10) (n := n) (by decide) (by decide) (by simp [hd])
      rw [intText, hd, parseInt_digits hc, ← hd, hp]
      rfl
  | negSucc n =>
    have hm : parseInt ('-' :: Nat.toDigits 10 (n + 1))
        = (parseNat (Nat.toDigits 10 (n + 1))).map fun n => -(n : ℤ) := by simp [parseInt]
    rw [intText, hm, parseNat_toDigits]
    rfl

end MobileApps.Library.Decimal

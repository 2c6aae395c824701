import Mathlib.Logic.Basic
import Mathlib.Data.List.Basic
import Mathlib.Tactic.Lemma

/-! Unicode text: code units, extended grapheme clusters and canonical equivalence, over any
version of the character tables. -/

namespace MobileApps.Library.Unicode

abbrev Text := List Char

/-- Grapheme break classes. `pictographic` and `consonant` are the members of `Other` that the
emoji and conjunct rules single out, `linker` and `conjunctExtend` those of `Extend`. -/
inductive BreakClass
  | other | pictographic | consonant | cr | lf | control
  | extend | conjunctExtend | linker | zwj | spacingMark | prepend | regional
  | hangulL | hangulV | hangulT | hangulLV | hangulLVT
  deriving DecidableEq

def BreakClass.isControl : BreakClass → Bool
  | cr | lf | control => true
  | _ => false

def BreakClass.isExtend : BreakClass → Bool
  | extend | conjunctExtend | linker => true
  | _ => false

inductive Conjunct
  | none | base | linked
  deriving DecidableEq

structure Context where
  prev : BreakClass
  emoji : Bool := false
  emojiJoin : Bool := false
  conjunct : Conjunct := .none
  oddRegional : Bool := false

def Context.start : Context := { prev := .control }

def hangulJoins : BreakClass → BreakClass → Bool
  | .hangulL, .hangulL | .hangulL, .hangulV | .hangulL, .hangulLV | .hangulL, .hangulLVT => true
  | .hangulLV, .hangulV | .hangulLV, .hangulT | .hangulV, .hangulV | .hangulV, .hangulT => true
  | .hangulLVT, .hangulT | .hangulT, .hangulT => true
  | _, _ => false

/-- No cluster boundary between the text read in context `x` and a scalar of class `c`:
rules GB3 to GB13 in their order. -/
def joins (x : Context) (c : BreakClass) : Bool :=
  if x.prev = .cr ∧ c = .lf then true
  else if x.prev.isControl || c.isControl then false
  else hangulJoins x.prev c
    || c.isExtend || c == .zwj || c == .spacingMark || x.prev == .prepend
    || (x.conjunct == .linked && c == .consonant)
    || (x.emojiJoin && c == .pictographic)
    || (x.oddRegional && c == .regional)

def Context.next (x : Context) (c : BreakClass) : Context where
  prev := c
  emoji := c == .pictographic || (x.emoji && c.isExtend)
  emojiJoin := x.emoji && c == .zwj
  conjunct :=
    if c = .consonant then .base
    else if x.conjunct = .none then .none
    else if c = .linker then .linked
    else if c = .conjunctExtend ∨ c = .zwj then x.conjunct
    else .none
  oddRegional := c == .regional && !x.oddRegional

def Plain (c : Char) : Prop := c.isDigit ∨ c = ','

def otherTerminators : List Char :=
  [Char.ofNat 0x0B, Char.ofNat 0x0C, Char.ofNat 0x85, Char.ofNat 0x2028, Char.ofNat 0x2029]

/-- The character tables of a Unicode version, with the entries that no version changes. -/
structure Tables where
  breakClass : Char → BreakClass
  decompose : Char → List Char
  combining : Char → Nat
  printable_other : ∀ c : Char, 0x20 ≤ c.toNat → c.toNat < 0x7F → breakClass c = .other
  cr_class : breakClass '\r' = .cr
  lf_class : breakClass '\n' = .lf
  terminator_class : ∀ c ∈ otherTerminators, breakClass c = .control
  decompose_plain : ∀ c, Plain c → decompose c = [c]
  combining_plain : ∀ c, Plain c → combining c = 0
  plain_of_decompose : ∀ c d, Plain c → c ∈ decompose d → d = c

def Tables.ascii : Tables where
  breakClass c :=
    if c = '\r' then .cr else if c = '\n' then .lf
    else if c.toNat < 0x20 ∨ c = Char.ofNat 0x7F ∨ c ∈ otherTerminators then .control else .other
  decompose c := [c]
  combining _ := 0
  printable_other c h h' := by
    have hn : ∀ d : Char, d.toNat < 0x20 ∨ 0x7F ≤ d.toNat → c ≠ d := by
      rintro d hd rfl
      omega
    have hd : ∀ d ∈ otherTerminators, d.toNat < 0x20 ∨ 0x7F ≤ d.toNat :=
      List.forall_iff_forall_mem.mp (by decide)
    have ht : c ∉ otherTerminators := fun hm => absurd rfl (hn c (hd c hm))
    rw [if_neg (hn _ (by decide)), if_neg (hn _ (by decide)), if_neg]
    rintro (h0 | rfl | hm)
    · omega
    · exact absurd h' (by decide)
    · exact ht hm
  cr_class := rfl
  lf_class := rfl
  terminator_class := List.forall_iff_forall_mem.mp (by decide)
  decompose_plain _ _ := rfl
  combining_plain _ _ := rfl
  plain_of_decompose _ _ _ h := (List.mem_singleton.mp h).symm

variable (U : Tables)

def Tables.breaks : Context → Text → ℕ
  | _, [] => 0
  | x, c :: cs =>
      (if joins x (U.breakClass c) then 0 else 1) + Tables.breaks (x.next (U.breakClass c)) cs

def Tables.count (s : Text) : ℕ := U.breaks .start s

def Tables.after (x : Context) (s : Text) : Context :=
  s.foldl (fun y c => y.next (U.breakClass c)) x

lemma breaks_append (x : Context) (s t : Text) :
    U.breaks x (s ++ t) = U.breaks x s + U.breaks (U.after x s) t := by
  induction s generalizing x with
  | nil => simp [Tables.breaks, Tables.after]
  | cons c s ih => simp [Tables.breaks, ih, Tables.after, Nat.add_assoc]

lemma breaks_le_length (x : Context) (s : Text) : U.breaks x s ≤ s.length := by
  induction s generalizing x with
  | nil => simp [Tables.breaks]
  | cons c s ih =>
    have h := ih (x.next (U.breakClass c))
    simp only [Tables.breaks, List.length_cons]
    split <;> omega

@[simp] lemma after_concat (x : Context) (s : Text) (c : Char) :
    (U.after x (s ++ [c])).prev = U.breakClass c := by
  simp [Tables.after, Context.next]

lemma next_control (x : Context) {k : BreakClass} (hk : k.isControl) :
    x.next k = { prev := k } := by
  cases k <;> simp_all [Context.next, BreakClass.isControl, BreakClass.isExtend]

lemma joins_other {x : Context} (h : x.prev ≠ .prepend) : joins x .other = false := by
  cases hp : x.prev <;> simp_all [joins, hangulJoins, BreakClass.isExtend, BreakClass.isControl]

lemma joins_prepend {x : Context} (h : x.prev ≠ .prepend) : joins x .prepend = false := by
  cases hp : x.prev <;> simp_all [joins, hangulJoins, BreakClass.isExtend, BreakClass.isControl]

lemma no_other_of_joined {x : Context} {s : Text} (hx : x.prev ≠ .prepend)
    (hs : U.breaks x s = 0) : ∀ c ∈ s, U.breakClass c ≠ .other := by
  induction s generalizing x with
  | nil => simp
  | cons c s ih =>
    simp only [Tables.breaks, Nat.add_eq_zero_iff, ite_eq_left_iff, Nat.one_ne_zero, imp_false,
      not_not] at hs
    have hc : U.breakClass c ≠ .other := by
      intro hc
      rw [hc, joins_other hx] at hs
      exact absurd hs.1 (by simp)
    have hp : U.breakClass c ≠ .prepend := by
      intro hp
      rw [hp, joins_prepend hx] at hs
      exact absurd hs.1 (by simp)
    intro d hd
    rcases List.mem_cons.mp hd with rfl | hd
    · exact hc
    · exact ih (x := x.next (U.breakClass c)) hp hs.2 d hd

lemma breaks_others {x : Context} {s : Text} (hx : x.prev ≠ .prepend)
    (hs : ∀ c ∈ s, U.breakClass c = .other) : U.breaks x s = s.length := by
  induction s generalizing x with
  | nil => rfl
  | cons c s ih =>
    have hc := hs c (by simp)
    have hn : (x.next (U.breakClass c)).prev ≠ .prepend := by simp [Context.next, hc]
    rw [Tables.breaks, ih hn fun d hd => hs d (by simp [hd]), hc, joins_other hx]
    simp [Nat.add_comm]

def codeUnits (c : Char) : List ℕ :=
  if c.toNat < 0x10000 then [c.toNat]
  else [0xD800 + (c.toNat - 0x10000) / 0x400, 0xDC00 + (c.toNat - 0x10000) % 0x400]

def utf16 (s : Text) : List ℕ := s.flatMap codeUnits

@[simp] lemma utf16_cons (c : Char) (s : Text) : utf16 (c :: s) = codeUnits c ++ utf16 s := rfl

lemma length_le_utf16 (s : Text) : s.length ≤ (utf16 s).length := by
  induction s with
  | nil => simp [utf16]
  | cons c s ih =>
    have hc : 1 ≤ (codeUnits c).length := by unfold codeUnits; split <;> simp
    simp only [List.length_cons, utf16_cons, List.length_append]
    omega

lemma utf16_take {s : Text} {n : ℕ} (hn : n ≤ (utf16 s).length)
    (hu : ∀ u ∈ (utf16 s).take n, u < 0xD800 ∨ 0xE000 ≤ u) :
    n ≤ s.length ∧ (s.take n).map Char.toNat = (utf16 s).take n := by
  induction s generalizing n with
  | nil => simpa [utf16] using hn
  | cons c s ih =>
    cases n with
    | zero => simp
    | succ n =>
      have hb : codeUnits c = [c.toNat] := by
        by_contra hc
        have hbig : ¬ c.toNat < 0x10000 := fun h => hc (if_pos h)
        have hmem := hu (0xD800 + (c.toNat - 0x10000) / 0x400) (by simp [codeUnits, hbig])
        have hmax : c.toNat < 0x110000 := by
          have := c.valid
          unfold UInt32.isValidChar Nat.isValidChar at this
          change c.val.toNat < _
          omega
        omega
      simp only [utf16_cons, hb, List.singleton_append, List.length_cons,
        Nat.add_le_add_iff_right, List.take_succ_cons, List.mem_cons, forall_eq_or_imp,
        List.map_cons] at hn hu ⊢
      obtain ⟨hl, he⟩ := ih hn hu.2
      exact ⟨hl, by rw [he]⟩

lemma utf16_ascii {s : Text} (h : ∀ u ∈ utf16 s, u < 0x80) : s.map Char.toNat = utf16 s := by
  have hsmall : ∀ u ∈ (utf16 s).take (utf16 s).length, u < 0xD800 ∨ 0xE000 ≤ u := by
    intro u hu
    have hlt := h u (List.mem_of_mem_take hu)
    omega
  obtain ⟨_, ht⟩ := utf16_take (Nat.le_refl _) hsmall
  rwa [List.take_of_length_le (length_le_utf16 s), List.take_length] at ht

lemma utf16_map {s : Text} (h : ∀ c ∈ s, c.toNat < 0x10000) : utf16 s = s.map Char.toNat := by
  induction s with
  | nil => rfl
  | cons c s ih =>
    obtain ⟨hc, h⟩ := List.forall_mem_cons.mp h
    rw [utf16_cons, codeUnits, if_pos hc, ih h]
    rfl

lemma isAlpha_iff {c : Char} :
    c.isAlpha ↔ (65 ≤ c.toNat ∧ c.toNat ≤ 90) ∨ (97 ≤ c.toNat ∧ c.toNat ≤ 122) := by
  have hupper : c.isUpper ↔ 65 ≤ c.toNat ∧ c.toNat ≤ 90 := by
    change decide (c.val ≥ 'A'.val ∧ c.val ≤ 'Z'.val) = true ↔ _
    rw [decide_eq_true_iff]
    exact and_congr UInt32.le_iff_toNat_le UInt32.le_iff_toNat_le
  have hlower : c.isLower ↔ 97 ≤ c.toNat ∧ c.toNat ≤ 122 := by
    change (decide (c.val ≥ 'a'.val) && decide (c.val ≤ 'z'.val)) = true ↔ _
    rw [Bool.and_eq_true, decide_eq_true_iff, decide_eq_true_iff]
    exact and_congr UInt32.le_iff_toNat_le UInt32.le_iff_toNat_le
  rw [← hupper, ← hlower, ← Bool.or_eq_true]
  rfl

lemma ascii_of_alphanum {c : Char} (h : c.isAlphanum) : c.toNat < 0x80 := by
  rcases Bool.or_eq_true_iff.mp h with h | h
  · have ha := isAlpha_iff.mp h
    omega
  · have hd := Char.isDigit_iff_toNat.mp h
    exact Nat.lt_of_le_of_lt hd.2 (by decide)

end MobileApps.Library.Unicode

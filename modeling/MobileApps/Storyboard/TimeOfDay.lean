import MobileApps.Library.Decimal
import MobileApps.Library.Separators
import MobileApps.Storyboard.AddTask

/-! The times that `checkDate` lets through: times of day, and what its range leaves out behind
them. -/

namespace MobileApps.Storyboard

open RegularExpression
open Library.Unicode Library.Regex Library.Decimal Library.Separators

/-- One or two digits up to 23, a colon, two digits up to 59. -/
def IsTime (text : Text) : Prop :=
  ∃ hours minutes, text = hours ++ ':' :: minutes ∧
    (hours.length ≤ 2 ∧ ∃ h ∈ parseNat hours, h ≤ 23) ∧
    minutes.length = 2 ∧ ∃ m ∈ parseNat minutes, m ≤ 59

lemma parseNat_one {a : Char} {n : ℕ} :
    (∃ h ∈ parseNat [a], h ≤ n) ↔ unit a ∈ digits ∧ unit a - 48 ≤ n := by
  rw [unit_digit]
  by_cases ha : a.isDigit
  · simp [parseNat, ha, Nat.ofDigitChars_cons, unit]
  · simp [parseNat, ha]

lemma parseNat_two {a b : Char} {n : ℕ} : (∃ h ∈ parseNat [a, b], h ≤ n) ↔
    (unit a ∈ digits ∧ unit b ∈ digits) ∧ 10 * (unit a - 48) + (unit b - 48) ≤ n := by
  rw [unit_digit, unit_digit]
  by_cases ha : a.isDigit
  · by_cases hb : b.isDigit
    · simp [parseNat, ha, hb, Nat.ofDigitChars_cons, unit]
    · simp [parseNat, hb]
  · simp [parseNat, ha]

lemma hourPattern_rmatch (w : List ℕ) : hourPattern.rmatch w ↔
    (∃ y ∈ digits, w = [y]) ∨ (∃ x ∈ unitsOf "01", ∃ y ∈ digits, w = [x, y]) ∨
      ∃ y ∈ unitsOf "0123", w = [unit '2', y] := by
  rw [hourPattern, add_rmatch_iff, mul_rmatch_iff, mul_rmatch_iff]
  simp only [optional_rmatch, oneOf_rmatch, char_rmatch_iff]
  constructor
  · rintro (⟨_, _, rfl, rfl | ⟨x, hx, rfl⟩, y, hy, rfl⟩ | ⟨_, _, rfl, rfl, y, hy, rfl⟩)
    · exact Or.inl ⟨y, hy, rfl⟩
    · exact Or.inr (Or.inl ⟨x, hx, y, hy, rfl⟩)
    · exact Or.inr (Or.inr ⟨y, hy, rfl⟩)
  · rintro (⟨y, hy, rfl⟩ | ⟨x, hx, y, hy, rfl⟩ | ⟨y, hy, rfl⟩)
    · exact Or.inl ⟨[], [y], rfl, Or.inl rfl, y, hy, rfl⟩
    · exact Or.inl ⟨[x], [y], rfl, Or.inr ⟨x, hx, rfl⟩, y, hy, rfl⟩
    · exact Or.inr ⟨[unit '2'], [y], rfl, rfl, y, hy, rfl⟩

lemma hours_iff (v : Text) : hourPattern.rmatch (v.map unit) ↔
    v.length ≤ 2 ∧ ∃ h ∈ parseNat v, h ≤ 23 := by
  have tens : ∀ u, u ∈ unitsOf "01" ↔ 48 ≤ u ∧ u ≤ 49 := by
    intro u
    simp [unitsOf, unit]
    omega
  have ones : ∀ u, u ∈ unitsOf "0123" ↔ 48 ≤ u ∧ u ≤ 51 := by
    intro u
    simp [unitsOf, unit]
    omega
  have two : unit '2' = 50 := rfl
  rw [hourPattern_rmatch]
  rcases v with _ | ⟨a, _ | ⟨b, _ | ⟨c, v⟩⟩⟩
  · simp [parseNat]
  · rw [parseNat_one]
    simp [mem_digits]
    omega
  · rw [parseNat_two]
    simp [mem_digits, tens, ones, two]
    omega
  · simp

lemma minutes_iff (v : Text) :
    (oneOf (unitsOf "012345") * oneOf (unitsOf "0123456789")).rmatch (v.map unit) ↔
      v.length = 2 ∧ ∃ m ∈ parseNat v, m ≤ 59 := by
  have tens : ∀ u, u ∈ unitsOf "012345" ↔ 48 ≤ u ∧ u ≤ 53 := by
    intro u
    simp [unitsOf, unit]
    omega
  have hmatch : ∀ w, (oneOf (unitsOf "012345") * oneOf digits).rmatch w ↔
      ∃ x ∈ unitsOf "012345", ∃ y ∈ digits, w = [x, y] := by
    intro w
    rw [mul_rmatch_iff]
    simp only [oneOf_rmatch]
    constructor
    · rintro ⟨_, _, rfl, ⟨x, hx, rfl⟩, y, hy, rfl⟩
      exact ⟨x, hx, y, hy, rfl⟩
    · rintro ⟨x, hx, y, hy, rfl⟩
      exact ⟨[x], [y], rfl, ⟨x, hx, rfl⟩, y, hy, rfl⟩
  rw [← digits, hmatch]
  rcases v with _ | ⟨a, _ | ⟨b, _ | ⟨c, v⟩⟩⟩
  · simp
  · simp
  · rw [parseNat_two]
    simp [mem_digits, tens]
    omega
  · simp

lemma datePattern_iff (w : Text) : datePattern.rmatch (w.map unit) ↔ IsTime w := by
  rw [datePattern, mul_rmatch_iff]
  simp only [mul_rmatch_iff (char (unit ':')), char_rmatch_iff]
  constructor
  · rintro ⟨_, _, hw, hh, _, _, rfl, rfl, hm⟩
    obtain ⟨hours, _, rfl, rfl, hcolon⟩ := List.map_eq_append_iff.mp hw
    obtain ⟨c, minutes, rfl, hc, rfl⟩ := List.map_eq_cons_iff.mp hcolon
    obtain rfl : c = ':' := Char.toNat_inj.mp hc
    exact ⟨hours, minutes, rfl, (hours_iff hours).mp hh, (minutes_iff minutes).mp hm⟩
  · rintro ⟨hours, minutes, rfl, hh, hm⟩
    refine ⟨hours.map unit, _, List.map_append, (hours_iff hours).mpr hh, [unit ':'],
      minutes.map unit, ?_, rfl, (minutes_iff minutes).mpr hm⟩
    rfl

variable (U : Tables)

lemma datePattern_symbols : ∀ u ∈ symbols datePattern, (48 ≤ u ∧ u ≤ 57) ∨ u = 58 := by decide

lemma eq_ofNat {c : Char} {u : ℕ} (h : c.toNat = u) : c = Char.ofNat u := by
  rw [← h, Char.ofNat_toNat]

lemma terminator_control {c : Char} (h : c.toNat ∈ terminators) :
    (U.breakClass c).isControl = true := by
  have other : ∀ d ∈ otherTerminators, (U.breakClass d).isControl = true := fun d hd => by
    rw [U.terminator_class d hd]
    rfl
  simp only [terminators, List.mem_cons, List.not_mem_nil, or_false] at h
  rcases h with h | h | h | h | h | h | h <;> rw [eq_ofNat h]
  · exact congrArg BreakClass.isControl U.lf_class
  · exact other _ (by decide)
  · exact other _ (by decide)
  · exact congrArg BreakClass.isControl U.cr_class
  · exact other _ (by decide)
  · exact other _ (by decide)
  · exact other _ (by decide)

lemma class_digit {c : Char} (h : c.isDigit) : U.breakClass c = .other := by
  have hr : 48 ≤ c.toNat ∧ c.toNat ≤ 57 := Char.isDigit_iff_toNat.mp h
  exact U.printable_other c (by omega) (by omega)

lemma checkDate_parts {text : Text} (h : checkDate U text) :
    ∃ w e q, text = w ++ e ++ q ∧ datePattern.rmatch (w.map Char.toNat) ∧
      e.map Char.toNat ∈ terminations ∧ U.count text = w.length + e.length := by
  obtain ⟨w, e, he, hw, hr, _⟩ := anchored_iff.mp h
  have hn : U.count text ≤ (utf16 text).length :=
    (breaks_le_length U _ text).trans (length_le_utf16 text)
  -- no surrogate is matched, so the matched code units are scalars
  have hsmall : ∀ u ∈ (utf16 text).take (U.count text), u < 0xD800 ∨ 0xE000 ≤ u := by
    intro u hu
    rw [hw] at hu
    rcases List.mem_append.mp hu with hu | hu
    · have := datePattern_symbols u (mem_symbols hr u hu)
      omega
    · have : ∀ e ∈ terminations, ∀ u ∈ e, u < 0xD800 := by decide
      exact Or.inl (this e he u hu)
  obtain ⟨hl, ht⟩ := utf16_take hn hsmall
  rw [hw] at ht
  obtain ⟨p, r, hpr, rfl, rfl⟩ := List.map_eq_append_iff.mp ht
  refine ⟨p, r, text.drop (U.count text), ?_, hr, he, ?_⟩
  · rw [← hpr, List.take_append_drop]
  · have := congrArg List.length hpr
    simpa [Nat.min_eq_left hl] using this

variable {U}

lemma time_chars {time : Text} (h : IsTime time) : ∀ c ∈ time, c.isDigit ∨ c = ':' := by
  obtain ⟨hours, minutes, rfl, ⟨_, _, hh, _⟩, _, _, hm, _⟩ := h
  intro c hc
  rcases List.mem_append.mp hc with hc | hc
  · exact Or.inl ((digits_of_parseNat hh).2 c hc)
  rcases List.mem_cons.mp hc with rfl | hc
  · exact Or.inr rfl
  · exact Or.inl ((digits_of_parseNat hm).2 c hc)

lemma time_head {time : Text} (h : IsTime time) : ∃ d b, time = d :: b ∧ d.isDigit := by
  obtain ⟨hours, minutes, rfl, ⟨_, _, hh, _⟩, _⟩ := h
  obtain ⟨hne, hdigits⟩ := digits_of_parseNat hh
  cases hours with
  | nil => exact absurd rfl hne
  | cons d b => exact ⟨d, b ++ ':' :: minutes, rfl, hdigits d List.mem_cons_self⟩

lemma time_length {time : Text} (h : IsTime time) : time.length ≤ 5 := by
  obtain ⟨hours, minutes, rfl, ⟨hh, _⟩, hm, _⟩ := h
  rw [List.length_append, List.length_cons]
  omega

lemma time_complete {time rest : Text} (h : IsTime time) (h' : IsTime (time ++ rest)) :
    rest = [] := by
  obtain ⟨hours, minutes, rfl, ⟨_, _, hh, _⟩, hm, _⟩ := h
  obtain ⟨hours', minutes', heq, ⟨_, _, hh', _⟩, hm', _⟩ := h'
  have hcolon : ∀ {s : Text} {n : ℕ}, n ∈ parseNat s → ':' ∉ s := fun hn hc =>
    absurd ((digits_of_parseNat hn).2 ':' hc) (by decide)
  rw [List.append_assoc, List.cons_append] at heq
  have hbehind := congrArg (behind ':') heq
  rw [behind_stop (hcolon hh), behind_stop (hcolon hh')] at hbehind
  have hlen := congrArg List.length (Option.some.inj hbehind)
  rw [List.length_append] at hlen
  exact List.length_eq_zero_iff.mp (by omega)

variable (U)

lemma class_time {time : Text} (h : IsTime time) : ∀ c ∈ time, U.breakClass c = .other := by
  intro c hc
  rcases time_chars h c hc with hd | rfl
  · exact class_digit U hd
  · exact U.printable_other _ (by decide) (by decide)

lemma after_time {time : Text} (h : IsTime time) : (U.after .start time).prev = .other := by
  rcases List.eq_nil_or_concat time with rfl | ⟨s, c, rfl⟩
  · obtain ⟨d, b, hnil, _⟩ := time_head h
    cases hnil
  · rw [List.concat_eq_append, after_concat]
    exact class_time U h c (by simp)

lemma count_time {time : Text} (h : IsTime time) (rest : Text) :
    U.count (time ++ rest) = time.length + U.breaks (U.after .start time) rest := by
  rw [Tables.count, breaks_append, breaks_others U (by simp [Context.start])
    (class_time U h)]

lemma breaks_terminator {x : Context} {c : Char} (hx : x.prev ≠ .cr)
    (hc : c.toNat ∈ terminators) (q : Text) :
    U.breaks x (c :: q) = 1 + U.breaks { prev := U.breakClass c } q := by
  have hctl := terminator_control U hc
  have hjoin : joins x (U.breakClass c) = false := by simp [joins, hx, hctl]
  rw [Tables.breaks, hjoin, next_control x hctl]
  rfl

lemma count_terminator {time : Text} {c : Char} (h : IsTime time) (hc : c.toNat ∈ terminators)
    (q : Text) : U.count (time ++ c :: q) = time.length + U.count (c :: q) := by
  rw [count_time U h, Tables.count, breaks_terminator U (by simp [after_time U h]) hc,
    breaks_terminator U (by simp [Context.start]) hc]

/-- Marks that join the last digit, one line terminator, or CR LF and one more character. -/
def Unseen (time rest : Text) : Prop :=
  U.count (time ++ rest) = time.length ∨
    ((∃ c ∈ rest.head?, c.toNat ∈ terminators) ∧ U.count rest = 1) ∨
    (['\r', '\n'] <+: rest ∧ U.count rest = 2)

lemma checkDate_of_units {time rest : Text} {e q : List ℕ} (h : IsTime time)
    (he : e ∈ terminations) (hu : utf16 rest = e ++ q)
    (hn : U.count (time ++ rest) = time.length + e.length) : checkDate U (time ++ rest) := by
  have small : ∀ {c : Char}, c.isDigit ∨ c = ':' → 0x30 ≤ c.toNat ∧ c.toNat < 0x10000 := by
    rintro c (hc | rfl)
    · have hd := mem_digits.mp (unit_digit.mpr hc)
      rw [unit] at hd
      omega
    · decide
  have hunits : utf16 (time ++ rest) = time.map unit ++ e ++ q := by
    have htime : utf16 time = time.map unit :=
      utf16_map fun c hc => (small (time_chars h c hc)).2
    rw [List.append_assoc, ← hu, ← htime]
    exact List.flatMap_append
  rw [checkDate, anchored_iff]
  refine ⟨time.map unit, e, he, ?_, (datePattern_iff time).mpr h, ?_⟩
  · rw [hunits, List.take_left' (by simp [hn])]
  · rintro ⟨_, hlast⟩
    obtain ⟨c, hc, hcr⟩ := List.mem_map.mp (List.mem_of_getLast? hlast)
    have hge := (small (time_chars h c hc)).1
    rw [unit] at hcr
    omega

lemma checkDate_time (text : Text) :
    checkDate U text ↔ ∃ time rest, text = time ++ rest ∧ IsTime time ∧ Unseen U time rest := by
  constructor
  · intro h
    obtain ⟨w, e, q, rfl, hr, he, hcount⟩ := checkDate_parts U h
    have hw : IsTime w := (datePattern_iff w).mp hr
    refine ⟨w, e ++ q, List.append_assoc w e q, hw, ?_⟩
    rw [List.append_assoc] at hcount
    simp only [terminations, List.mem_cons, List.mem_map] at he
    rcases he with he | he | ⟨t, ht, he⟩
    · obtain rfl := List.map_eq_nil_iff.mp he
      exact Or.inl hcount
    · obtain ⟨c, r, rfl, hc, hr'⟩ := List.map_eq_cons_iff.mp he
      obtain ⟨c', r', rfl, hc', hr''⟩ := List.map_eq_cons_iff.mp hr'
      obtain rfl := List.map_eq_nil_iff.mp hr''
      obtain rfl : c = '\r' := eq_ofNat hc
      obtain rfl : c' = '\n' := eq_ofNat hc'
      rw [List.cons_append, count_terminator U hw (by decide)] at hcount
      exact Or.inr (Or.inr ⟨List.prefix_append _ _, Nat.add_left_cancel hcount⟩)
    · obtain ⟨c, r, rfl, hc, hr'⟩ := List.map_eq_cons_iff.mp he.symm
      obtain rfl := List.map_eq_nil_iff.mp hr'
      rw [List.cons_append, count_terminator U hw (hc ▸ ht)] at hcount
      exact Or.inr (Or.inl ⟨⟨c, rfl, hc ▸ ht⟩, Nat.add_left_cancel hcount⟩)
  · rintro ⟨time, rest, rfl, ht, hjoin | ⟨⟨c, hc, hterm⟩, hone⟩ | ⟨⟨q, rfl⟩, htwo⟩⟩
    · exact checkDate_of_units U (e := []) (q := utf16 rest) ht (by decide) rfl hjoin
    · cases rest with
      | nil => cases hc
      | cons d q =>
        obtain rfl := Option.some.inj hc
        have hsmall : ∀ u ∈ terminators, u < 0x10000 := by decide
        apply checkDate_of_units U (e := [d.toNat]) (q := utf16 q) ht
        · simp [terminations, hterm]
        · rw [utf16_cons, codeUnits, if_pos (hsmall _ hterm)]
        · rw [count_terminator U ht hterm, hone]
          rfl
    · apply checkDate_of_units U (e := [0x0D, 0x0A]) (q := utf16 q) ht (by decide)
      · rfl
      · exact (count_terminator U ht (by decide) _).trans (congrArg _ htwo)

/-- For every string, `checkDate` says whether it is a time of day exactly when it is not one with
something behind it that the range leaves out. -/
theorem checkDate_iff (text : Text) : (checkDate U text ↔ IsTime text) ↔
    ¬ ∃ time rest, text = time ++ rest ∧ IsTime time ∧ rest ≠ [] ∧ Unseen U time rest := by
  constructor
  · rintro h ⟨time, rest, rfl, ht, hne, hu⟩
    have haccepted := (checkDate_time U _).mpr ⟨time, rest, rfl, ht, hu⟩
    exact hne (time_complete ht (h.mp haccepted))
  · intro h
    constructor
    · intro haccepted
      obtain ⟨time, rest, rfl, ht, hu⟩ := (checkDate_time U text).mp haccepted
      by_cases hne : rest = []
      · rwa [hne, List.append_nil]
      · exact absurd ⟨time, rest, rfl, ht, hne, hu⟩ h
    · intro ht
      refine (checkDate_time U text).mpr ⟨text, [], (List.append_nil text).symm, ht, Or.inl ?_⟩
      rw [count_time U ht]
      rfl

theorem newline_accepted : checkDate .ascii "10:00\n".toList ∧ ¬ IsTime "10:00\n".toList :=
  ⟨by decide, fun h => absurd (time_length h) (by decide)⟩

lemma class_comma : U.breakClass ',' = .other := U.printable_other _ (by decide) (by decide)

lemma comma_notMem_of_joined {x : Context} {s : Text} (hx : x.prev ≠ .prepend)
    (hs : U.breaks x s = 0) : ',' ∉ s :=
  fun h => no_other_of_joined U hx hs ',' h (class_comma U)

lemma closed_cluster {x : Context} {s : Text} (hx : x.prev = .lf) (hs : U.breaks x s = 1) :
    Closed s := by
  rintro p q rfl d hd hdig
  have hsplit : p ++ ',' :: q = (p ++ [',']) ++ q := by simp
  rw [hsplit, breaks_append] at hs
  have hfirst : 1 ≤ U.breaks x (p ++ [',']) := by
    cases hp : p ++ [','] with
    | nil => simp at hp
    | cons c r =>
      have hc : joins x (U.breakClass c) = false := by simp [joins, hx, BreakClass.isControl]
      simp [Tables.breaks, hc]
  have hq : U.breaks (U.after x (p ++ [','])) q = 0 := by omega
  have hprev : (U.after x (p ++ [','])).prev ≠ .prepend := by simp [class_comma]
  exact no_other_of_joined U hprev hq d hd (class_digit U hdig)

lemma closed_of_notMem {s : Text} (h : ',' ∉ s) : Closed s := by
  rintro p q rfl
  simp at h

lemma closed_append {s t : Text} (hs : ',' ∉ s) (ht : Closed t) : Closed (s ++ t) := by
  rintro p q h e he
  rcases List.append_eq_append_iff.mp h with ⟨m, rfl, hm⟩ | ⟨m, rfl, hm⟩
  · exact ht m q hm e he
  · cases m with
    | nil => exact ht [] q hm.symm e he
    | cons c m =>
      obtain ⟨rfl, _⟩ := List.cons.inj hm
      exact absurd (by simp) hs

theorem checkDate_shape {text : Text} (h : checkDate U text) :
    ∃ d b, text = d :: b ∧ d.isDigit ∧ Closed text := by
  obtain ⟨time, rest, rfl, ht, hu⟩ := (checkDate_time U text).mp h
  obtain ⟨d, b, hhead, hd⟩ := time_head ht
  have hcomma : ',' ∉ time := fun hm => absurd (time_chars ht ',' hm) (by decide)
  refine ⟨d, b ++ rest, by rw [hhead, List.cons_append], hd, closed_append hcomma ?_⟩
  rcases hu with hjoin | ⟨⟨c, hc, hterm⟩, hone⟩ | ⟨⟨q, rfl⟩, htwo⟩
  · -- the rest extends the last digit
    rw [count_time U ht] at hjoin
    have hprev : (U.after .start time).prev ≠ .prepend := by simp [after_time U ht]
    exact closed_of_notMem (comma_notMem_of_joined U hprev (by omega))
  · cases rest with
    | nil => cases hc
    | cons c' q =>
      obtain rfl := Option.some.inj hc
      have hctl := terminator_control U hterm
      have hprev : U.breakClass c' ≠ .prepend := fun hp => by
        simp [hp, BreakClass.isControl] at hctl
      have hc' : ',' ∉ [c'] := by
        intro hm
        obtain rfl := List.mem_singleton.mp hm
        exact absurd hterm (by decide)
      rw [Tables.count, breaks_terminator U (by simp [Context.start]) hterm] at hone
      have hq : U.breaks { prev := U.breakClass c' } q = 0 := by omega
      exact closed_append hc' (closed_of_notMem (comma_notMem_of_joined U hprev hq))
  · -- one more cluster: a comma can only be its first character
    have hlf : U.breaks { prev := .cr } ('\n' :: q) =
        U.breaks (Context.next { prev := .cr } .lf) q := by
      simp [Tables.breaks, joins, U.lf_class]
    have hq : U.breaks (Context.next { prev := .cr } .lf) q = 1 := by
      change U.count ('\r' :: '\n' :: q) = 2 at htwo
      rw [Tables.count, breaks_terminator U (by simp [Context.start]) (by decide), U.cr_class,
        hlf] at htwo
      omega
    exact closed_append (by decide) (closed_cluster U rfl hq)

end MobileApps.Storyboard

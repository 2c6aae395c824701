import MobileApps.Exchanger.AuthentificationManager
import MobileApps.Library.Separators
import MobileApps.SwiftUI.Helper

/-! The two expressions that the three apps share, against the rules in words: the password rule of
the sign-up alert, and the language of emails. -/

namespace MobileApps.CredentialRules

open Storyboard Library.Separators Library.Unicode

def Has (a b : Char) (w : Text) : Prop := ∃ c ∈ w, range a b c

instance (a b : Char) (w : Text) : Decidable (Has a b w) :=
  List.decidableBEx _ w

/-- "Must contain >6 characters,upper case,lower case and number", for a way to count characters. -/
structure StatedRule (characters : Text → ℕ) (password : Text) : Prop where
  long : 6 < characters password
  upper : Has 'A' 'Z' password
  lower : Has 'a' 'z' password
  number : Has '0' '9' password

/-- The expression counts code points, and knows no digits but `0` to `7`. -/
def Misjudged (characters : Text → ℕ) (password : Text) : Prop :=
  Has 'A' 'Z' password ∧ Has 'a' 'z' password ∧
    ((Has '0' '7' password ∧ ¬ (6 < password.length ↔ 6 < characters password)) ∨
      (¬ Has '0' '7' password ∧ Has '0' '9' password ∧ 6 < characters password))

instance (characters : Text → ℕ) (password : Text) : Decidable (Misjudged characters password) :=
  inferInstanceAs (Decidable (_ ∧ _))

lemma Has.mono {a b a' b' : Char} {w : Text} (ha : a' ≤ a) (hb : b ≤ b') (h : Has a b w) :
    Has a' b' w := by
  obtain ⟨c, hc, hr⟩ := h
  rw [range, Bool.and_eq_true, decide_eq_true_eq, decide_eq_true_eq] at hr
  refine ⟨c, hc, ?_⟩
  rw [range, Bool.and_eq_true, decide_eq_true_eq, decide_eq_true_eq]
  exact ⟨Char.le_trans ha hr.1, Char.le_trans hr.2 hb⟩

variable {characters : Text → ℕ} {password : Text}

lemma judged_iff (h : ∀ c ∈ password, dot c) :
    (isValidPassword password ↔ StatedRule characters password) ↔
      ¬ Misjudged characters password := by
  have hcode : isValidPassword password ↔ 6 < password.length ∧
      Has 'A' 'Z' password ∧ Has 'a' 'z' password ∧ Has '0' '7' password := by
    rw [isValidPassword_iff]
    exact and_congr_right fun _ => and_iff_right h
  have hrule : StatedRule characters password ↔ 6 < characters password ∧
      Has 'A' 'Z' password ∧ Has 'a' 'z' password ∧ Has '0' '9' password :=
    ⟨fun ⟨hn, hu, hl, hd⟩ => ⟨hn, hu, hl, hd⟩, fun ⟨hn, hu, hl, hd⟩ => ⟨hn, hu, hl, hd⟩⟩
  rw [hcode, hrule, Misjudged]
  by_cases hu : Has 'A' 'Z' password
  · by_cases hl : Has 'a' 'z' password
    · by_cases ho : Has '0' '7' password
      · have hd : Has '0' '9' password := ho.mono (by decide) (by decide)
        simp [hu, hl, ho, hd]
      · simp [hu, hl, ho, and_comm]
    · simp [hl]
  · simp [hu]

/-- For a password in one line, in whatever way its characters are counted, the expression of the
three apps says what the alert says, exactly when the password is not misjudged. -/
theorem passwordRule_iff (characters : Text → ℕ) {password : Text}
    (h : ∀ c ∈ password, dot c) :
    ((isValidPassword password ↔ StatedRule characters password) ∧
      (SwiftUI.isValidPassword password ↔ StatedRule characters password) ∧
      (Exchanger.validatePassword password ↔ StatedRule characters password)) ↔
    ¬ Misjudged characters password := by
  rw [← judged_iff h]
  exact ⟨And.left, fun hr => ⟨hr, hr, hr⟩⟩

theorem passwordRule_octal :
    (isValidPassword "Abcdef7".toList ↔ StatedRule List.length "Abcdef7".toList) ∧
    (SwiftUI.isValidPassword "Abcdef7".toList ↔ StatedRule List.length "Abcdef7".toList) ∧
    (Exchanger.validatePassword "Abcdef7".toList ↔ StatedRule List.length "Abcdef7".toList) :=
  (passwordRule_iff List.length (List.all_eq_true.mp (by decide))).mpr (by decide)

theorem only_eight_refused : (∀ c ∈ "Abcdefg8".toList, dot c) ∧
    StatedRule List.length "Abcdefg8".toList ∧ StatedRule Tables.ascii.count "Abcdefg8".toList ∧
    isValidPassword "Abcdefg8".toList = false ∧ SwiftUI.isValidPassword "Abcdefg8".toList = false ∧
    Exchanger.validatePassword "Abcdefg8".toList = false := by
  refine ⟨List.all_eq_true.mp (by decide), ?_, ?_, by decide, by decide, by decide⟩ <;>
    exact ⟨by decide, by decide, by decide, by decide⟩

/-- One `@`, in front of it a name, behind it a host up to the last dot and a label behind that. -/
structure EmailLanguage (s : Text) : Prop where
  one : s.count '@' = 1
  name : upTo '@' s ≠ [] ∧ ∀ c ∈ upTo '@' s, nameChar c
  domain : ∃ domain ∈ behind '@' s, ∃ host ∈ upToLast '.' domain,
    (host ≠ [] ∧ ∀ c ∈ host, hostChar c) ∧ 2 ≤ (behindLast '.' domain).length ∧
      (behindLast '.' domain).length ≤ 64 ∧ ∀ c ∈ behindLast '.' domain, c.isAlpha

lemma notMem_of_class {p : Char → Bool} {d : Char} {w : Text} (hw : ∀ c ∈ w, p c)
    (hd : p d = false) : d ∉ w :=
  fun hm => Bool.false_ne_true (hd.symm.trans (hw d hm))

lemma emailLanguage (s : Text) : isvalidEmail s ↔ EmailLanguage s := by
  rw [isvalidEmail_parts]
  constructor
  · rintro ⟨a, b, c, rfl, ha, hb, h2, h64, hc⟩
    -- whatever split the match found, it is the one at the only `@` and at the last dot
    have hname : '@' ∉ a := notMem_of_class ha.2 (by decide)
    have hhost : '@' ∉ b := notMem_of_class hb.2 (by decide)
    have hlabel : '@' ∉ c := notMem_of_class hc (by decide)
    have hdot : '.' ∉ c := notMem_of_class hc (by decide)
    refine ⟨?_, ?_, ⟨_, behind_stop hname, b, upToLast_stop hdot, hb, ?_⟩⟩
    · simp [List.count_append, List.count_eq_zero_of_not_mem, hname, hhost, hlabel]
    · rwa [upTo_stop hname]
    · rw [behindLast_stop hdot]
      exact ⟨h2, h64, hc⟩
  · rintro ⟨_, hname, domain, hdomain, host, hhost, hb, hc⟩
    refine ⟨upTo '@' s, host, behindLast '.' domain, ?_, hname, hb, hc⟩
    rw [← upToLast_behindLast hhost]
    exact (upTo_behind hdomain).1

theorem emailLanguage_iff (s : Text) : (isvalidEmail s ↔ EmailLanguage s) ∧
    (SwiftUI.isvalidEmail s ↔ EmailLanguage s) ∧
    (Exchanger.validateEmail s ↔ EmailLanguage s) :=
  ⟨emailLanguage s, emailLanguage s, emailLanguage s⟩

end MobileApps.CredentialRules

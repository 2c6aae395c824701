import MobileApps.Library.Separators
import MobileApps.Library.Unicode

namespace MobileApps.Library.Unicode

open Separators

variable (U : Tables)

def Tables.insertMark (c : Char) : Text → Text
  | [] => [c]
  | d :: s =>
      if U.combining c ≠ 0 ∧ U.combining d ≠ 0 ∧ U.combining d < U.combining c then
        d :: Tables.insertMark c s
      else c :: d :: s

def Tables.order (s : Text) : Text := s.foldr U.insertMark []

def Tables.nfd (s : Text) : Text := U.order (s.flatMap U.decompose)

def Tables.same (s t : Text) : Prop := U.nfd s = U.nfd t

instance (s t : Text) : Decidable (U.same s t) := inferInstanceAs (Decidable (U.nfd s = U.nfd t))

lemma insertMark_perm (c : Char) (s : Text) : (U.insertMark c s).Perm (c :: s) := by
  induction s with
  | nil => exact List.Perm.refl _
  | cons d s ih =>
    unfold Tables.insertMark
    split
    · exact (ih.cons d).trans (List.Perm.swap c d s)
    · exact List.Perm.refl _

lemma order_perm (s : Text) : (U.order s).Perm s := by
  induction s with
  | nil => exact List.Perm.refl _
  | cons c s ih => exact (insertMark_perm U c _).trans (ih.cons c)

lemma insertMark_starter {c : Char} (hc : U.combining c = 0) (s : Text) :
    U.insertMark c s = c :: s := by
  cases s <;> simp [Tables.insertMark, hc]

lemma insertMark_append {d : Char} (hd : U.combining d = 0) (c : Char) (s t : Text) :
    U.insertMark c (s ++ d :: t) = U.insertMark c s ++ d :: t := by
  induction s with
  | nil => simp [Tables.insertMark, hd]
  | cons e s ih =>
    simp only [List.cons_append, Tables.insertMark, ih]
    split <;> rfl

lemma order_append {d : Char} (hd : U.combining d = 0) (s t : Text) :
    U.order (s ++ d :: t) = U.order s ++ d :: U.order t := by
  induction s with
  | nil => exact insertMark_starter U hd _
  | cons c s ih =>
    change U.insertMark c (U.order (s ++ d :: t)) = _
    rw [ih, insertMark_append U hd]
    rfl

@[simp] lemma nfd_nil : U.nfd [] = [] := rfl

lemma nfd_append {d : Char} (hd : Plain d) (s t : Text) :
    U.nfd (s ++ d :: t) = U.nfd s ++ d :: U.nfd t := by
  unfold Tables.nfd
  rw [List.flatMap_append, List.flatMap_cons, U.decompose_plain d hd]
  exact order_append U (U.combining_plain d hd) _ _

lemma nfd_cons {d : Char} (hd : Plain d) (t : Text) : U.nfd (d :: t) = d :: U.nfd t := by
  simpa using nfd_append U hd [] t

lemma mem_nfd {d : Char} (hd : Plain d) (s : Text) : d ∈ U.nfd s ↔ d ∈ s := by
  rw [Tables.nfd, (order_perm U _).mem_iff, List.mem_flatMap]
  constructor
  · rintro ⟨c, hc, h⟩
    exact U.plain_of_decompose d c hd h ▸ hc
  · intro h
    exact ⟨d, h, by simp [U.decompose_plain d hd]⟩

lemma plain_comma : Plain ',' := Or.inr rfl

lemma plain_digit {c : Char} (h : c.isDigit) : Plain c := Or.inl h

lemma mem_after_first {c e : Char} {p q z w : Text} (hp : c ∉ p)
    (h : p ++ c :: q = z ++ c :: w) (he : e ∈ w) : e ∈ q := by
  induction p generalizing z with
  | nil =>
    cases z with
    | nil => simp_all
    | cons f z => simp_all
  | cons f p ih =>
    cases z with
    | nil => simp_all
    | cons g z => exact ih (fun hm => hp (by simp [hm])) (List.cons.inj h).2

def Closed (s : Text) : Prop := ∀ p q, s = p ++ ',' :: q → ∀ e ∈ q, ¬ e.isDigit

lemma nfd_closed {s t z : Text} {e : Char} (he : e.isDigit) (hs : Closed s) :
    U.nfd s ≠ z ++ ',' :: U.nfd (e :: t) := by
  intro h
  have hmem : ',' ∈ s := (mem_nfd U plain_comma s).mp (by simp [h])
  obtain ⟨p, q, rfl, hp⟩ := List.eq_append_cons_of_mem hmem
  rw [nfd_append U plain_comma, nfd_cons U (plain_digit he)] at h
  have hpn : ',' ∉ U.nfd p := fun hm => hp ((mem_nfd U plain_comma p).mp hm)
  have hq : e ∈ U.nfd q := mem_after_first hpn h (by simp)
  exact hs p q rfl e ((mem_nfd U (plain_digit he) q).mp hq) he

theorem comma_split {a b a' b' : Text} {d d' : Char} (hd : d.isDigit) (hd' : d'.isDigit)
    (hb : Closed (d :: b)) (hb' : Closed (d' :: b'))
    (h : U.same (a ++ ',' :: d :: b) (a' ++ ',' :: d' :: b')) :
    U.same a a' ∧ U.same (d :: b) (d' :: b') := by
  unfold Tables.same at *
  rw [nfd_append U plain_comma, nfd_append U plain_comma] at h
  exact split_unique (fun _ => nfd_closed U hd' hb) (fun _ => nfd_closed U hd hb') h

lemma comma_split_text {a b a' b' : Text} {d d' : Char} (hd : d.isDigit) (hd' : d'.isDigit)
    (hb : Closed (d :: b)) (hb' : Closed (d' :: b'))
    (h : a ++ ',' :: d :: b = a' ++ ',' :: d' :: b') : a = a' ∧ d :: b = d' :: b' :=
  split_unique (fun z hz => hb z _ hz d' List.mem_cons_self hd')
    (fun z hz => hb' z _ hz d List.mem_cons_self hd) h

end MobileApps.Library.Unicode

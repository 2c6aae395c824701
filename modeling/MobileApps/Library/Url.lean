import MobileApps.Library.Separators
import MobileApps.Library.Unicode
import Mathlib.Data.List.Basic

/-! URLs and their queries after RFC 3986: a host given by name, the query split at `&` and the
first `=` and decoded to octets. -/

namespace MobileApps.Library.Url

open Separators Unicode

abbrev Octets := List UInt8

def octets (s : Text) : Octets := s.flatMap String.utf8EncodeChar

def unreserved (c : Char) : Bool := c.isAlphanum || c ∈ ['-', '.', '_', '~']

def subDelim (c : Char) : Bool := c ∈ ['!', '$', '&', '\'', '(', ')', '*', '+', ',', ';', '=']

def pchar (c : Char) : Bool := unreserved c || subDelim c || c == ':' || c == '@'

def queryChar (c : Char) : Bool := pchar c || c == '/' || c == '?'

def verbatim (c : Char) : Bool := queryChar c && c != '&'

def hexDigit (c : Char) : Option ℕ :=
  if '0' ≤ c ∧ c ≤ '9' then some (c.toNat - '0'.toNat)
  else if 'A' ≤ c ∧ c ≤ 'F' then some (c.toNat - 'A'.toNat + 10)
  else if 'a' ≤ c ∧ c ≤ 'f' then some (c.toNat - 'a'.toNat + 10)
  else none

def escaped (p : Char → Bool) : Text → Bool
  | [] => true
  | '%' :: a :: b :: s => (hexDigit a).isSome && (hexDigit b).isSome && escaped p s
  | c :: s => p c && escaped p s

def percentDecode : Text → Option Octets
  | [] => some []
  | '%' :: a :: b :: s => do
      let high ← hexDigit a
      let low ← hexDigit b
      let rest ← percentDecode s
      some (UInt8.ofNat (16 * high + low) :: rest)
  | c :: s => if c = '%' then none else (percentDecode s).map (String.utf8EncodeChar c ++ ·)

def query (url : Text) : Option Text := behind '?' (upTo '#' url)

def scheme (s : Text) : Bool :=
  match s with
  | [] => false
  | c :: s => c.isAlpha && s.all fun d => d.isAlphanum || d ∈ ['+', '-', '.']

def hierarchy (s : Text) : Bool :=
  match s with
  | '/' :: '/' :: s =>
      escaped (fun c => unreserved c || subDelim c || c == ':' || c == '@') (upTo '/' s) &&
        escaped (fun c => pchar c || c == '/') (s.dropWhile (· ≠ '/'))
  | _ => false

def wellFormed (url : Text) : Bool :=
  let front := upTo '?' (upTo '#' url)
  scheme (upTo ':' front) && ((behind ':' front).any hierarchy) &&
    (query url).all (escaped queryChar) && (behind '#' url).all (escaped queryChar)

def piece (name value : Text) : Text := name ++ '=' :: value

def parameter (piece : Text) : Option (Octets × Octets) := do
  let name ← percentDecode (upTo '=' piece)
  let value ← percentDecode ((behind '=' piece).getD [])
  some (name, value)

def parameters (url : Text) : Option (List (Octets × Octets)) :=
  (((query url).getD []).splitOn '&').mapM parameter

variable {d : Char} {s t : Text} {p : Char → Bool}

lemma octets_cons (c : Char) (s : Text) : octets (c :: s) = String.utf8EncodeChar c ++ octets s :=
  rfl

lemma length_le_octets (s : Text) : s.length ≤ (octets s).length := by
  induction s with
  | nil => exact Nat.le_refl 0
  | cons c s ih =>
    have hc : 0 < (String.utf8EncodeChar c).length :=
      List.length_pos_iff.mpr String.utf8EncodeChar_ne_nil
    rw [octets_cons, List.length_append, List.length_cons]
    omega

lemma escaped_cons {c : Char} (hc : c ≠ '%') : escaped p (c :: s) = (p c && escaped p s) := by
  simp [escaped, hc]

lemma percentDecode_cons {c : Char} (hc : c ≠ '%') :
    percentDecode (c :: s) = (percentDecode s).map (String.utf8EncodeChar c ++ ·) := by
  simp [percentDecode, hc]

lemma notMem_cons {c : Char} (h : d ∉ c :: s) : c ≠ d ∧ d ∉ s :=
  ⟨fun hc => h (hc ▸ List.mem_cons_self), fun hm => h (List.mem_cons_of_mem c hm)⟩

lemma escaped_append (h : ∀ c ∈ s, p c) (hs : '%' ∉ s) : escaped p (s ++ t) = escaped p t := by
  induction s with
  | nil => rfl
  | cons c s ih =>
    obtain ⟨hc, hs⟩ := notMem_cons hs
    obtain ⟨hp, h⟩ := List.forall_mem_cons.mp h
    rw [List.cons_append, escaped_cons hc, hp, ih h hs]
    rfl

lemma escaped_of_forall (h : ∀ c ∈ s, p c) (hs : '%' ∉ s) : escaped p s := by
  simpa [escaped] using escaped_append (t := []) h hs

lemma forall_of_escaped (h : escaped p s) (hs : '%' ∉ s) : ∀ c ∈ s, p c := by
  induction s with
  | nil => exact nofun
  | cons c s ih =>
    obtain ⟨hc, hs⟩ := notMem_cons hs
    rw [escaped_cons hc, Bool.and_eq_true] at h
    exact List.forall_mem_cons.mpr ⟨h.1, ih h.2 hs⟩

lemma percentDecode_self (hs : '%' ∉ s) : percentDecode s = some (octets s) := by
  induction s with
  | nil => rfl
  | cons c s ih =>
    obtain ⟨hc, hs⟩ := notMem_cons hs
    rw [percentDecode_cons hc, ih hs]
    rfl

lemma parameter_self {name value : Text} (hn : '=' ∉ name) (hnp : '%' ∉ name)
    (hvp : '%' ∉ value) :
    parameter (piece name value) = some (octets name, octets value) := by
  simp [parameter, piece, upTo_stop hn, behind_stop hn, percentDecode_self hnp,
    percentDecode_self hvp]

lemma verbatim_of_alpha {c : Char} (h : c.isAlpha) : verbatim c := by
  have hc : c ≠ '&' := by
    rintro rfl
    exact absurd h (by decide)
  simp [verbatim, queryChar, pchar, unreserved, Char.isAlphanum, h, hc]

lemma verbatim_piece {name value : Text} (hn : ∀ c ∈ name, verbatim c)
    (hv : ∀ c ∈ value, verbatim c) : ∀ c ∈ piece name value, verbatim c := by
  intro c hc
  rcases List.mem_append.mp hc with hc | hc
  · exact hn c hc
  · rcases List.mem_cons.mp hc with rfl | hc
    · decide
    · exact hv c hc

lemma notMem_of_verbatim (h : ∀ c ∈ s, verbatim c) (hd : verbatim d = false) : d ∉ s :=
  fun hm => Bool.false_ne_true (hd.symm.trans (h d hm))

lemma percentDecode_broken (h : ∀ a b t, s ≠ a :: b :: t) : percentDecode ('%' :: s) = none := by
  cases s with
  | nil => rfl
  | cons a s =>
    cases s with
    | nil => rfl
    | cons b s => exact absurd rfl (h a b s)

lemma queryChar_ascii {c : Char} (h : queryChar c) : c.toNat < 0x80 := by
  have listed : ∀ {l : List Char}, l.all (·.toNat < 0x80) → c ∈ l → c.toNat < 0x80 :=
    fun hl hc => of_decide_eq_true (List.all_eq_true.mp hl c hc)
  simp only [queryChar, pchar, unreserved, subDelim, Bool.or_eq_true, decide_eq_true_eq,
    beq_iff_eq] at h
  rcases h with (((((h | h) | h) | rfl) | rfl) | rfl) | rfl
  · exact ascii_of_alphanum h
  · exact listed (by decide) h
  · exact listed (by decide) h
  · decide
  · decide
  · decide
  · decide

lemma percentDecode_length {bs : Octets} (hp : ∀ c, p c → c.toNat < 0x80) (h : escaped p s)
    (hd : percentDecode s = some bs) : bs.length + 2 * s.count '%' = s.length := by
  induction s using escaped.induct generalizing bs with
  | case1 =>
    obtain rfl := Option.some.inj hd
    rfl
  | case2 a b s ih =>
    simp only [escaped, Bool.and_eq_true] at h
    have digit : ∀ {c : Char}, (hexDigit c).isSome → c ≠ '%' := by
      rintro c hc rfl
      exact absurd hc (by decide)
    simp only [percentDecode, Option.bind_eq_bind, Option.bind_eq_some_iff] at hd
    obtain ⟨x, _, y, _, rest, hr, hbs⟩ := hd
    obtain rfl := Option.some.inj hbs
    have hrest := ih h.2 hr
    rw [List.count_cons_self, List.count_cons_of_ne (digit h.1.1),
      List.count_cons_of_ne (digit h.1.2)]
    simp only [List.length_cons]
    omega
  | case3 c s hne ih =>
    by_cases hc : c = '%'
    · subst hc
      rw [percentDecode_broken fun a b t => hne a b t rfl] at hd
      cases hd
    · rw [escaped_cons hc, Bool.and_eq_true] at h
      rw [percentDecode_cons hc, Option.map_eq_some_iff] at hd
      obtain ⟨rest, hr, rfl⟩ := hd
      have hrest := ih h.2 hr
      have hone : (String.utf8EncodeChar c).length = 1 := by
        rw [String.length_utf8EncodeChar, Char.utf8Size_eq_one_iff, UInt32.le_iff_toNat_le]
        exact Nat.le_of_lt_succ (hp c h.1)
      rw [List.count_cons_of_ne hc, List.length_append, List.length_cons, hone]
      omega

lemma length_of_mapM {α β : Type} {f : α → Option β} {l : List α} {r : List β}
    (h : l.mapM f = some r) : r.length = l.length := by
  induction l generalizing r with
  | nil =>
    obtain rfl := Option.some.inj h
    rfl
  | cons a l ih =>
    simp only [List.mapM_cons, Option.bind_eq_bind, Option.bind_eq_some_iff] at h
    obtain ⟨b, _, bs, hl, hr⟩ := h
    obtain rfl := Option.some.inj hr
    exact congrArg Nat.succ (ih hl)

lemma notMem_of_splitOn (h : (s.splitOn d).length = 1) : d ∉ s := by
  intro hd
  obtain ⟨x, y, rfl⟩ := List.append_of_mem hd
  rw [List.splitOn_append_cons_self, List.length_append] at h
  have hx := List.length_pos_iff.mpr (List.splitOn_ne_nil d x)
  have hy := List.length_pos_iff.mpr (List.splitOn_ne_nil d y)
  omega

/-- A value put into the query as it is can be read back only when all of it stands for itself. -/
theorem verbatim_of_readBack {name value : Text} (hname : ∀ c ∈ name, verbatim c) (hn : '=' ∉ name)
    (hesc : escaped queryChar (upTo '#' value))
    (hread : ((piece name (upTo '#' value)).splitOn '&').mapM parameter =
      some [(octets name, octets value)]) : ∀ c ∈ value, verbatim c := by
  have hamp : '&' ∉ piece name (upTo '#' value) := notMem_of_splitOn (length_of_mapM hread).symm
  have hpercent : '%' ∉ name := notMem_of_verbatim hname (by decide)
  rw [List.splitOn_eq_singleton hamp, List.mapM_cons, List.mapM_nil] at hread
  have hdecode : percentDecode (upTo '#' value) = some (octets value) := by
    simp only [parameter, piece, upTo_stop hn, behind_stop hn, percentDecode_self hpercent,
      Option.getD_some] at hread
    cases hd : percentDecode (upTo '#' value) with
    | none => simp [hd] at hread
    | some bs => simpa [hd] using hread
  have hlen := percentDecode_length (fun _ => queryChar_ascii) hesc hdecode
  have hle := length_le_octets value
  -- escapes and a fragment would both make the octets fewer than the characters
  have hwhole : upTo '#' value = value := by
    apply (List.takeWhile_prefix _).eq_of_length_le
    rw [← upTo]
    omega
  rw [hwhole] at hlen hesc hamp
  have hnone : '%' ∉ value := List.count_eq_zero.mp (by omega)
  intro c hc
  have hc' : c ≠ '&' := by
    rintro rfl
    exact hamp (List.mem_append_right _ (List.mem_cons_of_mem _ hc))
  rw [verbatim, forall_of_escaped hesc hnone c hc]
  simpa using hc'

end MobileApps.Library.Url

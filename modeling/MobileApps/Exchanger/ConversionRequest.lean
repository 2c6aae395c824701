import MobileApps.Exchanger.NetworkManager
import MobileApps.Library.Url

/-! The query of the conversion request against what the user chose and typed: `convert` puts the
amount into the URL as it is. -/

namespace MobileApps.Exchanger

open Library.Separators Library.Unicode Library.Url

def symbols : List Text :=
  (["AED", "AFN", "ALL", "AMD", "ANG", "AOA", "ARS", "AUD", "AWG", "AZN", "BAM", "BBD", "BDT",
    "BGN", "BHD", "BIF", "BMD", "BND", "BOB", "BRL", "BSD", "BTC", "BTN", "BWP", "BYN", "BYR",
    "BZD", "CAD", "CDF", "CHF", "CLF", "CLP", "CNY", "COP", "CRC", "CUC", "CUP", "CVE", "CZK",
    "DJF", "DKK", "DOP", "DZD", "EGP", "ERN", "ETB", "EUR", "FJD", "FKP", "GBP", "GEL", "GGP",
    "GHS", "GIP", "GMD", "GNF", "GTQ", "GYD", "HKD", "HNL", "HRK", "HTG", "HUF", "IDR", "ILS",
    "IMP", "INR", "IQD", "IRR", "ISK", "JEP", "JMD", "JOD", "JPY", "KES", "KGS", "KHR", "KMF",
    "KPW", "KRW", "KWD", "KYD", "KZT", "LAK", "LBP", "LKR", "LRD", "LSL", "LTL", "LVL", "LYD",
    "MAD", "MDL", "MGA", "MKD", "MMK", "MNT", "MOP", "MRO", "MUR", "MVR", "MWK", "MXN", "MYR",
    "MZN", "NAD", "NGN", "NIO", "NOK", "NPR", "NZD", "OMR", "PAB", "PEN", "PGK", "PHP", "PKR",
    "PLN", "PYG", "QAR", "RON", "RSD", "RUB", "RWF", "SAR", "SBD", "SCR", "SDG", "SEK", "SGD",
    "SHP", "SLE", "SLL", "SOS", "SRD", "STD", "SVC", "SYP", "SZL", "THB", "TJS", "TMT", "TND",
    "TOP", "TRY", "TTD", "TWD", "TZS", "UAH", "UGX", "USD", "UYU", "UZS", "VEF", "VES", "VND",
    "VUV", "WST", "XAF", "XAG", "XAU", "XCD", "XDR", "XOF", "XPF", "YER", "ZAR", "ZMK", "ZMW",
    "ZWL"] : List String).map String.toList

structure Carries (url from' to' amount : Text) : Prop where
  wellFormed : wellFormed url
  parameters : parameters url = some [(octets "to".toList, octets to'),
    (octets "from".toList, octets from'), (octets "amount".toList, octets amount)]

namespace ConversionRequest

def host : Text := "https://api.apilayer.com/exchangerates_data/convert".toList

def queryOf (from' to' amount : Text) : Text :=
  piece "to".toList to' ++ '&' :: (piece "from".toList from' ++ '&' :: piece "amount".toList amount)

lemma convertURL_eq (from' to' amount : Text) :
    convertURL from' to' amount = host ++ '?' :: queryOf from' to' amount := by
  have hto : "https://api.apilayer.com/exchangerates_data/convert?to=".toList =
      host ++ '?' :: ("to".toList ++ ['=']) := by decide +kernel
  have hfrom : "&from=".toList = '&' :: ("from".toList ++ ['=']) := by decide
  have hamount : "&amount=".toList = '&' :: ("amount".toList ++ ['=']) := by decide
  unfold convertURL queryOf piece
  simp only [hto, hfrom, hamount, List.append_assoc, List.cons_append, List.nil_append]

lemma symbols_upper : symbols.all (·.all Char.isUpper) = true := by decide +kernel

lemma verbatim_symbol {s : Text} (hs : s ∈ symbols) : ∀ c ∈ s, verbatim c := by
  intro c hc
  apply verbatim_of_alpha
  have hupper : c.isUpper := List.all_eq_true.mp (List.all_eq_true.mp symbols_upper s hs) c hc
  exact Bool.or_eq_true_iff.mpr (Or.inl hupper)

variable {from' to' amount : Text}

def front (from' to' : Text) : Text :=
  piece "to".toList to' ++ '&' :: (piece "from".toList from' ++ '&' :: ("amount".toList ++ ['=']))

lemma queryOf_eq : queryOf from' to' amount = front from' to' ++ amount := by
  simp only [queryOf, front, piece, List.append_assoc, List.cons_append, List.nil_append]

lemma convertURL_split :
    convertURL from' to' amount = (host ++ '?' :: front from' to') ++ amount := by
  rw [convertURL_eq, queryOf_eq, List.append_assoc, List.cons_append]

section Symbols

variable (hf : from' ∈ symbols) (ht : to' ∈ symbols)

include ht in
lemma verbatim_to : ∀ c ∈ piece "to".toList to', verbatim c :=
  verbatim_piece (List.all_eq_true.mp (by decide)) (verbatim_symbol ht)

include hf in
lemma verbatim_from : ∀ c ∈ piece "from".toList from', verbatim c :=
  verbatim_piece (List.all_eq_true.mp (by decide)) (verbatim_symbol hf)

include hf ht in
lemma queryChar_front : ∀ c ∈ front from' to', queryChar c := by
  intro c hc
  have inside : verbatim c → queryChar c := fun h => (Bool.and_eq_true_iff.mp h).1
  rcases List.mem_append.mp hc with hc | hc
  · exact inside (verbatim_to ht c hc)
  rcases List.mem_cons.mp hc with rfl | hc
  · decide
  rcases List.mem_append.mp hc with hc | hc
  · exact inside (verbatim_from hf c hc)
  rcases List.mem_cons.mp hc with rfl | hc
  · decide
  · have hname : ("amount".toList ++ ['=']).all queryChar := by decide
    exact List.all_eq_true.mp hname c hc

include hf ht in
lemma notMem_front {d : Char} (hd : queryChar d = false) : d ∉ front from' to' :=
  fun hm => Bool.false_ne_true (hd.symm.trans (queryChar_front hf ht d hm))

include hf ht in
lemma hash_notMem : '#' ∉ host ++ '?' :: front from' to' := by
  have hhost : '#' ∉ host := by decide +kernel
  have hfront : '#' ∉ front from' to' := notMem_front hf ht (by decide)
  simp [hhost, hfront]

include hf ht in
lemma upTo_convertURL : upTo '#' (convertURL from' to' amount) =
    host ++ '?' :: queryOf from' to' (upTo '#' amount) := by
  rw [convertURL_split, upTo_append (hash_notMem hf ht), queryOf_eq, List.append_assoc,
    List.cons_append]

include hf ht in
lemma query_convertURL : query (convertURL from' to' amount) =
    some (queryOf from' to' (upTo '#' amount)) := by
  rw [query, upTo_convertURL hf ht, behind_stop (by decide +kernel)]

include hf ht in
lemma fragment_convertURL : behind '#' (convertURL from' to' amount) = behind '#' amount := by
  rw [convertURL_split, behind_append (hash_notMem hf ht)]

include hf ht in
lemma wellFormed_convertURL : wellFormed (convertURL from' to' amount) =
    (escaped queryChar (upTo '#' amount) && (behind '#' amount).all (escaped queryChar)) := by
  have hhost : (scheme (upTo ':' host) && (behind ':' host).any hierarchy) = true := by
    decide +kernel
  have hstop : upTo '?' (upTo '#' (convertURL from' to' amount)) = host := by
    rw [upTo_convertURL hf ht, upTo_stop (by decide +kernel)]
  rw [wellFormed]
  simp only [hstop, hhost, query_convertURL hf ht, fragment_convertURL hf ht, Option.all_some,
    Bool.true_and]
  rw [queryOf_eq, escaped_append (queryChar_front hf ht) (notMem_front hf ht (by decide))]

include hf ht in
lemma parameters_convertURL : parameters (convertURL from' to' amount) =
    (((piece "amount".toList (upTo '#' amount)).splitOn '&').mapM parameter).map fun rest =>
      (octets "to".toList, octets to') :: (octets "from".toList, octets from') :: rest := by
  have hto : '&' ∉ piece "to".toList to' := notMem_of_verbatim (verbatim_to ht) (by decide)
  have hfrom : '&' ∉ piece "from".toList from' := notMem_of_verbatim (verbatim_from hf) (by decide)
  have hvalue : ∀ {s : Text}, s ∈ symbols → '%' ∉ s := fun hs =>
    notMem_of_verbatim (verbatim_symbol hs) (by decide)
  rw [parameters, query_convertURL hf ht, Option.getD_some, queryOf,
    List.splitOn_append_cons_self_of_not_mem hto, List.splitOn_append_cons_self_of_not_mem hfrom,
    List.mapM_cons, List.mapM_cons, parameter_self (by decide) (by decide) (hvalue ht),
    parameter_self (by decide) (by decide) (hvalue hf)]
  cases ((piece "amount".toList (upTo '#' amount)).splitOn '&').mapM parameter <;> rfl

end Symbols

end ConversionRequest

open ConversionRequest

/-- For symbols of the list and a typed amount, the conversion request carries just the three
values, in a well-formed URL, exactly when every character of the amount stands for itself in a
query. -/
theorem carries_iff {from' to' amount : Text} (hf : from' ∈ symbols) (ht : to' ∈ symbols) :
    Carries (convertURL from' to' amount) from' to' amount ↔ ∀ c ∈ amount, verbatim c := by
  have hname : ∀ c ∈ "amount".toList, verbatim c := List.all_eq_true.mp (by decide)
  constructor
  · rintro ⟨hwell, hparameters⟩
    rw [wellFormed_convertURL hf ht, Bool.and_eq_true] at hwell
    rw [parameters_convertURL hf ht, Option.map_eq_some_iff] at hparameters
    obtain ⟨rest, hread, hrest⟩ := hparameters
    obtain rfl := List.tail_eq_of_cons_eq (List.tail_eq_of_cons_eq hrest)
    exact verbatim_of_readBack hname (by decide) hwell.1 hread
  · intro h
    have hhash : '#' ∉ amount := notMem_of_verbatim h (by decide)
    have hpercent : '%' ∉ amount := notMem_of_verbatim h (by decide)
    have hamp : '&' ∉ piece "amount".toList amount :=
      notMem_of_verbatim (verbatim_piece hname h) (by decide)
    constructor
    · rw [wellFormed_convertURL hf ht, upTo_self hhash, behind_none hhash, Bool.and_eq_true]
      refine ⟨escaped_of_forall (fun c hc => ?_) hpercent, rfl⟩
      exact (Bool.and_eq_true_iff.mp (h c hc)).1
    · rw [parameters_convertURL hf ht, upTo_self hhash, List.splitOn_eq_singleton hamp,
        List.mapM_cons, parameter_self (by decide) (by decide) hpercent]
      rfl

theorem carries_decimal : Carries (convertURL "EUR".toList "USD".toList "12.50".toList)
    "EUR".toList "USD".toList "12.50".toList := by
  have hf : "EUR".toList ∈ symbols := by decide +kernel
  have ht : "USD".toList ∈ symbols := by decide +kernel
  exact (carries_iff hf ht).mpr (List.all_eq_true.mp (by decide))

theorem spaced_amount_not_carried :
    wellFormed (convertURL "EUR".toList "USD".toList "1 000".toList) = false ∧
    ¬ Carries (convertURL "EUR".toList "USD".toList "1 000".toList)
      "EUR".toList "USD".toList "1 000".toList ∧
    ¬ Carries (convertURL "EUR".toList "USD".toList "5&to=JPY".toList)
      "EUR".toList "USD".toList "5&to=JPY".toList := by
  have hwell : wellFormed (convertURL "EUR".toList "USD".toList "1 000".toList) = false := by
    decide +kernel
  have hcount : (parameters (convertURL "EUR".toList "USD".toList "5&to=JPY".toList)).map
      List.length = some 4 := by decide +kernel
  refine ⟨hwell, fun h => ?_, fun h => ?_⟩
  · exact Bool.false_ne_true (hwell.symm.trans h.wellFormed)
  · rw [h.parameters] at hcount
    cases hcount

end MobileApps.Exchanger

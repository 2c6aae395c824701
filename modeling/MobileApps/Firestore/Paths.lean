import MobileApps.Library.Unicode

/-! Resource paths of the Firestore SDK under Pods, as far as the apps use them: `resource_path.cc`,
`collection_reference.cc`, `document_reference.cc`, `FIRFirestore.mm`, `FIRCollectionReference.mm`,
`autoid.cc`. -/

namespace MobileApps.Firestore

open Library.Unicode

abbrev ResourcePath := List Text

-- named, so that a test for membership does not carry the proof
instance lawfulResourcePath : LawfulBEq ResourcePath := inferInstance

inductive InvalidArgument
  | emptyDocumentPath
  | doubleSlash (path : Text)
  | oddSegments (path : Text) (size : ℕ)
  | emptyCollectionPath
  | evenSegments (path : Text) (size : ℕ)
  deriving DecidableEq

def InvalidArgument.message : InvalidArgument → Text
  | emptyDocumentPath => "Document path cannot be empty.".toList
  | doubleSlash path =>
      "Invalid path (".toList ++ path ++ "). Paths must not contain // in them.".toList
  | oddSegments path size =>
      "Invalid document reference. Document references must have ".toList
        ++ "an even number of segments, but ".toList ++ path ++ " has ".toList
        ++ Nat.toDigits 10 size
  | emptyCollectionPath => "Collection path cannot be empty.".toList
  | evenSegments path size =>
      "Invalid collection reference. Collection references must have ".toList
        ++ "an odd number of segments, but ".toList ++ path ++ " has ".toList
        ++ Nat.toDigits 10 size

def containsDoubleSlash : Text → Bool
  | a :: b :: s => (a == '/' && b == '/') || containsDoubleSlash (b :: s)
  | _ => false

def canonicalString (path : ResourcePath) : Text := List.intercalate ['/'] path

def fromString (path : Text) : Except InvalidArgument ResourcePath :=
  if containsDoubleSlash path then .error (.doubleSlash path)
  else .ok ((path.splitOn '/').filter fun segment => !segment.isEmpty)

def documentReference (collection sub : ResourcePath) : Except InvalidArgument ResourcePath :=
  let path := collection ++ sub
  if path.length % 2 ≠ 0 then .error (.oddSegments (canonicalString path) path.length)
  else .ok path

def documentWithPath (collection : ResourcePath) (documentPath : Text) :
    Except InvalidArgument ResourcePath :=
  if documentPath = [] then .error .emptyDocumentPath
  else (fromString documentPath).bind (documentReference collection)

def collectionReference (path : ResourcePath) : Except InvalidArgument ResourcePath :=
  if path.length % 2 ≠ 1 then .error (.evenSegments (canonicalString path) path.length)
  else .ok path

def collectionWithPath (collectionPath : Text) : Except InvalidArgument ResourcePath :=
  if collectionPath = [] then .error .emptyCollectionPath
  else (fromString collectionPath).bind collectionReference

def autoIdAlphabet : Text :=
  "ABCDEFGHIJKLMNOPQRSTUVWXYZabcdefghijklmnopqrstuvwxyz0123456789".toList

def autoIdLength : ℕ := 20

abbrev AutoId := { id : Text // id.length = autoIdLength ∧ ∀ c ∈ id, c ∈ autoIdAlphabet }

instance (id : AutoId) (ids : List AutoId) : Decidable (id ∈ ids) := inferInstance

def AutoId.ofChar (c : Char) (h : c ∈ autoIdAlphabet) : AutoId :=
  ⟨List.replicate autoIdLength c, by simp, fun _ hd => List.eq_of_mem_replicate hd ▸ h⟩

def idA : AutoId := .ofChar 'A' (by decide)
def idB : AutoId := .ofChar 'B' (by decide)
def idC : AutoId := .ofChar 'C' (by decide)

lemma AutoId.ne_nil (id : AutoId) : id.val ≠ [] := by
  intro h
  have hl := id.property.1
  simp [h, autoIdLength] at hl

lemma AutoId.no_slash (id : AutoId) : '/' ∉ id.val := by
  intro h
  exact absurd (id.property.2 _ h) (by decide)

lemma containsDoubleSlash_slash {c : Char} {s : Text} (h : '/' ∉ s) :
    containsDoubleSlash (c :: s) = false := by
  induction s generalizing c with
  | nil => rfl
  | cons d s ih =>
    have hd : d ≠ '/' := fun he => h (by simp [he])
    simp [containsDoubleSlash, hd, ih fun hm => h (by simp [hm])]

lemma split_none {s : Text} (h : '/' ∉ s) : s.splitOn '/' = [s] :=
  List.splitOnP_eq_singleton fun c hc => by
    simp only [beq_eq_false_iff_ne]
    rintro rfl
    exact h hc

lemma split_slash {s : Text} (h : '/' ∉ s) : ('/' :: s).splitOn '/' = [[], s] := by
  have hs := split_none h
  simp [List.splitOn, List.splitOnP_cons_eq_if_modifyHead] at hs ⊢
  simp [hs]

theorem documentWithPath_slash (collection : Text) (id : AutoId) :
    documentWithPath [collection] ('/' :: id.val) = .ok [collection, id.val] := by
  have hid := id.no_slash
  have hne := id.ne_nil
  simp [documentWithPath, fromString, containsDoubleSlash_slash hid, split_slash hid,
    documentReference, Except.bind, hne]

theorem collectionWithPath_single {collectionPath : Text} (hne : collectionPath ≠ [])
    (h : '/' ∉ collectionPath) : collectionWithPath collectionPath = .ok [collectionPath] := by
  have hdouble : containsDoubleSlash collectionPath = false := by
    cases collectionPath with
    | nil => exact absurd rfl hne
    | cons c s => exact containsDoubleSlash_slash fun hs => h (List.mem_cons_of_mem c hs)
  simp [collectionWithPath, fromString, hdouble, split_none h, collectionReference, Except.bind,
    hne]

end MobileApps.Firestore

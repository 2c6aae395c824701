import MobileApps.Firestore.Paths
import MobileApps.Library.DocumentStore
import MobileApps.Library.Rows
import MobileApps.Library.Runs
import MobileApps.SwiftUI.Helper
import MobileApps.SwiftUI.MainView

namespace MobileApps.SwiftUI

open Firestore Library.Unicode Library.DocumentStore Library.Rows Library.Runs

/-- `__…__`, the ids that Firestore keeps to itself. -/
def ReservedId (id : Text) : Prop := ['_', '_'] <+: id ∧ ['_', '_'] <:+ id

lemma accepted_noSlash {email : Text} (h : isvalidEmail email) : '/' ∉ email := by
  obtain ⟨a, b, c, rfl, ⟨_, ha⟩, ⟨_, hb⟩, _, _, hc⟩ := (Storyboard.isvalidEmail_parts email).mp h
  intro hm
  rcases List.mem_append.mp hm with hm | hm
  · exact absurd (ha '/' hm) (by decide)
  have hm := List.mem_of_ne_of_mem (by decide) hm
  rcases List.mem_append.mp hm with hm | hm
  · exact absurd (hb '/' hm) (by decide)
  · exact absurd (hc '/' (List.mem_of_ne_of_mem (by decide) hm)) (by decide)

lemma accepted_at {email : Text} (h : isvalidEmail email) : '@' ∈ email := by
  obtain ⟨a, b, c, rfl, _⟩ := (Storyboard.isvalidEmail_parts email).mp h
  exact List.mem_append_right _ List.mem_cons_self

lemma accepted_notReserved {email : Text} (h : isvalidEmail email) : ¬ ReservedId email := by
  rintro ⟨_, p, hp⟩
  obtain ⟨a, b, c, rfl, _, _, hc, _, hletters⟩ := (Storyboard.isvalidEmail_parts email).mp h
  have hne : c ≠ [] := fun hn => by simp [hn] at hc
  -- the last character of the top-level domain would be an underscore
  have hsplit : a ++ '@' :: (b ++ '.' :: c) = (a ++ '@' :: (b ++ ['.'])) ++ c := by simp
  have hlast := congrArg List.getLast? (hp.trans hsplit)
  rw [List.getLast?_append_of_ne_nil _ hne,
    List.getLast?_append_of_ne_nil _ (List.cons_ne_nil _ _)] at hlast
  exact absurd (hletters '_' (List.mem_of_getLast? hlast.symm)) (by decide)

structure SingleSegment (email : Text) : Prop where
  path : collectionWithPath email = .ok [email]
  nonempty : email ≠ []
  noSlash : '/' ∉ email
  notDots : email ≠ ['.'] ∧ email ≠ ['.', '.']
  notReserved : ¬ ReservedId email

lemma accepted_singleSegment {email : Text} (h : isvalidEmail email) : SingleSegment email where
  path := collectionWithPath_single (List.ne_nil_of_mem (accepted_at h)) (accepted_noSlash h)
  nonempty := List.ne_nil_of_mem (accepted_at h)
  noSlash := accepted_noSlash h
  notDots := by
    have hat := accepted_at h
    constructor <;> rintro rfl <;> exact absurd hat (by decide)
  notReserved := accepted_notReserved h

/-! ### The operations of any number of accounts -/

/-- What is assumed of FirebaseAuth: `currentUser.email` is the registered email up to letter case,
and no two accounts have the same email up to letter case. -/
structure Accounts (ι : Type) where
  sameLetter : Char → Char → Prop
  same_refl : ∀ c, sameLetter c c
  same_slash : ∀ c, sameLetter c '/' → c = '/'
  registered : ι → Text
  email : ι → Text
  valid : ∀ i, isvalidEmail (registered i)
  same_email : ∀ i, List.Forall₂ sameLetter (registered i) (email i)
  distinct : ∀ i j, List.Forall₂ sameLetter (email i) (email j) → i = j

abbrev StoredTask := Document ResourcePath TaskFields

structure StorageRequest (ι : Type) where
  account : ι
  collection : ResourcePath
  deletes : Option TaskFields
  fetched : Option (List StoredTask) := none

structure Storage (ι : Type) where
  db : Collection ResourcePath TaskFields
  requests : List (StorageRequest ι) := []

inductive StorageEvent (ι : Type)
  | saveDataInDtabase (account : ι) (id : AutoId) (fields : TaskFields)
  | loadTasks (account : ι)
  | deleteFromDB (account : ι) (fields : TaskFields)
  | snapshot (request : ℕ) (documents : List StoredTask)
  | reply (request : ℕ)

def inCollection (collection path : ResourcePath) : Prop := path ≠ [] ∧ path.dropLast = collection

instance (collection path : ResourcePath) : Decidable (inCollection collection path) :=
  inferInstanceAs (Decidable (_ ∧ _))

namespace Storage

variable {ι : Type}

def matching (s : Storage ι) (q : StorageRequest ι) : List StoredTask :=
  s.db.docs.filter fun d => inCollection q.collection d.key ∧ ∀ f ∈ q.deletes, d.data = f

def issue (s : Storage ι) (account : ι) (email : Text) (deletes : Option TaskFields) :
    Option (Storage ι) :=
  match collectionWithPath email with
  | .error _ => none
  | .ok collection => some { s with requests := s.requests ++ [{ account, collection, deletes }] }

def step (A : Accounts ι) (s : Storage ι) : StorageEvent ι → Option (Storage ι)
  | .saveDataInDtabase i id fields =>
      match collectionWithPath (A.email i) with
      | .error _ => none
      | .ok collection => some { s with db := s.db.set (collection ++ [id.val]) fields }
  | .loadTasks i => s.issue i (A.email i) none
  | .deleteFromDB i fields => s.issue i (A.email i) (some fields)
  | .snapshot n documents => s.requests[n]?.bind fun q =>
      if q.fetched = none ∧ documents.Perm (s.matching q) then
        some { s with requests := s.requests.set n { q with fetched := some documents } }
      else none
  | .reply n => s.requests[n]?.bind fun q => q.fetched.map fun documents =>
      let s := { s with requests := s.requests.eraseIdx n }
      if q.deletes.isSome then
        { s with db := s.db.deleteAll (documents.map Document.key) }
      else s

def account (s : Storage ι) : StorageEvent ι → Option ι
  | .saveDataInDtabase i _ _ | .loadTasks i | .deleteFromDB i _ => some i
  | .snapshot n _ | .reply n => s.requests[n]?.map StorageRequest.account

def read (s : Storage ι) : StorageEvent ι → List StoredTask
  | .saveDataInDtabase .. | .loadTasks _ | .deleteFromDB .. => []
  | .snapshot _ documents => documents
  | .reply n => (s.requests[n]?.bind StorageRequest.fetched).getD []

def Owns (A : Accounts ι) (i : ι) (path : ResourcePath) : Prop :=
  ∃ collection, collectionWithPath (A.email i) = .ok collection ∧ inCollection collection path

/-- The event `e` of account `i` reads documents of that account alone, and leaves every document of
every other account as it was. -/
structure KeepsApart (A : Accounts ι) (s : Storage ι) (e : StorageEvent ι) (i : ι) : Prop where
  read : ∀ d ∈ s.read e, ∀ j, Owns A j d.key ↔ j = i
  kept : ∀ t, s.step A e = some t → ∀ j, j ≠ i → ∀ d : StoredTask, Owns A j d.key →
    (d ∈ t.db.docs ↔ d ∈ s.db.docs)

def Separated (A : Accounts ι) (s : Storage ι) (e : StorageEvent ι) : Prop :=
  ∃ i, s.account e = some i ∧ KeepsApart A s e i

variable {A : Accounts ι} {s t : Storage ι}

lemma email_path (i : ι) : collectionWithPath (A.email i) = .ok [A.email i] := by
  have hsame := A.same_email i
  apply collectionWithPath_single
  · intro hn
    rw [hn, List.forall₂_nil_right_iff] at hsame
    exact (accepted_singleSegment (A.valid i)).nonempty hsame
  · intro hs
    obtain ⟨k, hk, hget⟩ := List.mem_iff_getElem.mp hs
    have hk' : k < (A.registered i).length := hsame.length_eq ▸ hk
    have hsl := hsame.get hk' hk
    simp only [List.get_eq_getElem, hget] at hsl
    exact accepted_noSlash (A.valid i) (A.same_slash _ hsl ▸ List.getElem_mem hk')

lemma owns_iff {i : ι} {path : ResourcePath} :
    Owns A i path ↔ inCollection [A.email i] path := by
  rw [Owns, email_path]
  constructor
  · rintro ⟨collection, hc, h⟩
    obtain rfl := Except.ok.inj hc
    exact h
  · intro h
    exact ⟨_, rfl, h⟩

lemma owns_unique {i j : ι} {path : ResourcePath} (hi : Owns A i path) (hj : Owns A j path) :
    j = i := by
  have heq := (owns_iff.mp hj).2.symm.trans (owns_iff.mp hi).2
  apply A.distinct
  rw [List.singleton_inj.mp heq]
  exact List.forall₂_same.mpr fun c _ => A.same_refl c

structure Sound (A : Accounts ι) (s : Storage ι) : Prop where
  collection : ∀ q ∈ s.requests, q.collection = [A.email q.account]
  fetched : ∀ q ∈ s.requests, ∀ documents ∈ q.fetched, ∀ d ∈ documents, Owns A q.account d.key

lemma owns_iff_eq {i : ι} {path : ResourcePath} (hi : Owns A i path) (j : ι) :
    Owns A j path ↔ j = i := by
  constructor
  · intro hj
    exact owns_unique hi hj
  · rintro rfl
    exact hi

lemma step_save {i : ι} {id : AutoId} {fields : TaskFields} :
    s.step A (.saveDataInDtabase i id fields) =
      some { s with db := s.db.set [A.email i, id.val] fields } := by
  rw [step, email_path]
  rfl

lemma issue_eq {i : ι} {deletes : Option TaskFields} : s.issue i (A.email i) deletes =
    some { s with requests := s.requests ++ [⟨i, [A.email i], deletes, none⟩] } := by
  rw [issue, email_path]

lemma sound_issue {i : ι} {deletes : Option TaskFields} (h : Sound A s)
    (hs : s.issue i (A.email i) deletes = some t) : Sound A t := by
  obtain rfl := Option.some.inj (issue_eq.symm.trans hs)
  refine ⟨fun q hq => ?_, fun q hq => ?_⟩
  · rcases List.mem_append.mp hq with hq | hq
    · exact h.collection q hq
    · rw [List.mem_singleton.mp hq]
  · rcases List.mem_append.mp hq with hq | hq
    · exact h.fetched q hq
    · rw [List.mem_singleton.mp hq]
      exact fun _ hd => Option.some_ne_none _ hd.symm |>.elim

lemma matching_own {n : ℕ} {q : StorageRequest ι} (h : Sound A s) (hq : s.requests[n]? = some q)
    {documents : List StoredTask} (hp : documents.Perm (s.matching q)) :
    ∀ d ∈ documents, Owns A q.account d.key := by
  intro d hd
  obtain ⟨_, hd⟩ := List.mem_filter.mp (hp.mem_iff.mp hd)
  have hc := (of_decide_eq_true hd).1
  rw [h.collection q (List.mem_of_getElem? hq)] at hc
  exact owns_iff.mpr hc

lemma sound_step {e : StorageEvent ι} (h : Sound A s) (hs : s.step A e = some t) : Sound A t := by
  cases e with
  | saveDataInDtabase i id fields =>
    obtain rfl := Option.some.inj (step_save.symm.trans hs)
    exact ⟨h.collection, h.fetched⟩
  | loadTasks i => exact sound_issue h hs
  | deleteFromDB i fields => exact sound_issue h hs
  | snapshot n documents =>
    obtain ⟨q, hq, hs⟩ := Option.bind_eq_some_iff.mp hs
    obtain ⟨⟨_, hp⟩, rfl⟩ := guarded_some.mp hs
    refine ⟨fun r hr => ?_, fun r hr => ?_⟩
    · rcases List.mem_or_eq_of_mem_set hr with hr | rfl
      · exact h.collection r hr
      · exact h.collection q (List.mem_of_getElem? hq)
    · rcases List.mem_or_eq_of_mem_set hr with hr | rfl
      · exact h.fetched r hr
      · intro ds hds
        obtain rfl := Option.some.inj hds
        exact matching_own h hq hp
  | reply n =>
    obtain ⟨q, hq, hs⟩ := Option.bind_eq_some_iff.mp hs
    obtain ⟨documents, _, rfl⟩ := Option.map_eq_some_iff.mp hs
    have herase : Sound A { s with requests := s.requests.eraseIdx n } :=
      ⟨fun r hr => h.collection r (eraseIdx_subset _ n hr),
        fun r hr => h.fetched r (eraseIdx_subset _ n hr)⟩
    dsimp only
    split
    · exact ⟨herase.collection, herase.fetched⟩
    · exact herase

lemma kept_save {i j : ι} {id : AutoId} {fields : TaskFields} {d : StoredTask} (hj : Owns A j d.key)
    (hne : j ≠ i) : d ∈ (s.db.set [A.email i, id.val] fields).docs ↔ d ∈ s.db.docs := by
  have hk : d.key ≠ [A.email i, id.val] := by
    intro hk
    have hi : Owns A i d.key := owns_iff.mpr (hk ▸ ⟨List.cons_ne_nil _ _, rfl⟩)
    exact hne (owns_unique hi hj)
  rw [Collection.mem_set, and_iff_left hk, or_iff_left]
  rintro rfl
  exact hk rfl

lemma kept_deleteAll {i j : ι} {documents : List StoredTask} {d : StoredTask}
    (hown : ∀ d ∈ documents, Owns A i d.key) (hj : Owns A j d.key) (hne : j ≠ i) :
    d ∈ (s.db.deleteAll (documents.map Document.key)).docs ↔ d ∈ s.db.docs := by
  have hk : d.key ∉ documents.map Document.key := by
    intro hk
    obtain ⟨c, hc, hk⟩ := List.mem_map.mp hk
    exact hne (owns_unique (hk ▸ hown c hc) hj)
  simp only [Collection.mem_deleteAll, hk, not_false_eq_true, and_true]

lemma separated_step {e : StorageEvent ι} (h : Sound A s) (hs : s.step A e = some t) :
    Separated A s e := by
  cases e with
  | saveDataInDtabase i id fields =>
    refine ⟨i, rfl, fun _ hd => absurd hd List.not_mem_nil, fun u hu j hne d hj => ?_⟩
    obtain rfl := Option.some.inj (step_save.symm.trans hu)
    exact kept_save hj hne
  | loadTasks i | deleteFromDB i fields =>
    refine ⟨i, rfl, fun _ hd => absurd hd List.not_mem_nil, fun u hu j hne d hj => ?_⟩
    obtain rfl := Option.some.inj (issue_eq.symm.trans hu)
    exact Iff.rfl
  | snapshot n documents =>
    obtain ⟨q, hq, hs⟩ := Option.bind_eq_some_iff.mp hs
    obtain ⟨⟨_, hp⟩, _⟩ := guarded_some.mp hs
    refine ⟨q.account, by rw [account, hq]; rfl, fun d hd => ?_, fun u hu j hne d hj => ?_⟩
    · exact owns_iff_eq (matching_own h hq hp d hd)
    · obtain ⟨_, _, hu⟩ := Option.bind_eq_some_iff.mp hu
      obtain ⟨_, rfl⟩ := guarded_some.mp hu
      exact Iff.rfl
  | reply n =>
    obtain ⟨q, hq, hs⟩ := Option.bind_eq_some_iff.mp hs
    obtain ⟨documents, hf, _⟩ := Option.map_eq_some_iff.mp hs
    have hown := h.fetched q (List.mem_of_getElem? hq) documents hf
    refine ⟨q.account, by rw [account, hq]; rfl, fun d hd => ?_, fun u hu j hne d hj => ?_⟩
    · rw [read, hq, Option.bind_some, hf, Option.getD_some] at hd
      exact owns_iff_eq (hown d hd)
    · rw [step, hq, Option.bind_some, hf, Option.map_some] at hu
      obtain rfl := Option.some.inj hu
      dsimp only
      split
      · exact kept_deleteAll hown hj hne
      · exact Iff.rfl

lemma along_separated (db : Collection ResourcePath TaskFields) (es : List (StorageEvent ι)) :
    Along (step A) (Separated A) { db := db } es := by
  refine along_of_invariant (I := Sound A)
    (fun _ _ _ h hs => ⟨separated_step h hs, sound_step h hs⟩) ?_
  constructor <;> simp

/-- Accepted emails name top-level collections of their own, and in every run of any accounts'
operations no operation reads, creates or deletes a document of another account. -/
theorem accounts_separated :
    (∀ email, isvalidEmail email → SingleSegment email) ∧
    (∀ email email', isvalidEmail email → isvalidEmail email' →
      collectionWithPath email = collectionWithPath email' → email = email') ∧
    ∀ (ι : Type) (A : Accounts ι) (db : Collection ResourcePath TaskFields)
      (es : List (StorageEvent ι)), Along (step A) (Separated A) { db := db } es := by
  refine ⟨fun _ h => accepted_singleSegment h, fun email email' h h' heq => ?_,
    fun _ _ db es => along_separated db es⟩
  rw [(accepted_singleSegment h).path, (accepted_singleSegment h').path] at heq
  exact List.singleton_inj.mp (Except.ok.inj heq)

def asciiCase (a b : Char) : Prop := a = b ∨ (a.isAlpha ∧ b.isAlpha ∧ a.toLower = b.toLower)

instance (a b : Char) : Decidable (asciiCase a b) := inferInstanceAs (Decidable (_ ∨ _))

def registeredAnn : Text := "Ann@A.CO".toList

def ann : Text := "ann@a.co".toList

def bob : Text := "bob@b.org".toList

lemma registeredAnn_valid : isvalidEmail registeredAnn :=
  Storyboard.isvalidEmail_of_parts (a := "Ann".toList) (b := "A".toList) (c := "CO".toList)
    (by decide) (by decide) (by decide)

lemma ann_valid : isvalidEmail ann :=
  Storyboard.isvalidEmail_of_parts (a := "ann".toList) (b := "a".toList) (c := "co".toList)
    (by decide) (by decide) (by decide)

lemma bob_valid : isvalidEmail bob :=
  Storyboard.isvalidEmail_of_parts (a := "bob".toList) (b := "b".toList) (c := "org".toList)
    (by decide) (by decide) (by decide)

def twoAccounts : Accounts Bool where
  sameLetter := asciiCase
  same_refl _ := Or.inl rfl
  same_slash _ h := h.resolve_right fun ha => Bool.false_ne_true ha.2.1
  registered
    | true => registeredAnn
    | false => bob
  email
    | true => ann
    | false => bob
  valid
    | true => registeredAnn_valid
    | false => bob_valid
  same_email
    | true => by decide
    | false => List.forall₂_same.mpr fun _ _ => Or.inl rfl
  distinct
    | true, true, _ | false, false, _ => rfl
    | true, false, h | false, true, h => absurd h.length_eq (by decide)

theorem two_accounts_separated : SingleSegment ann ∧
    collectionWithPath ann ≠ collectionWithPath bob ∧
    Along (step twoAccounts) (Separated twoAccounts) { db := ⟨[], List.nodup_nil⟩ }
      [.saveDataInDtabase true idA ⟨"run".toList, "10:00".toList⟩, .deleteFromDB false
        ⟨"run".toList, "10:00".toList⟩, .snapshot 0 [], .reply 0] := by
  refine ⟨accounts_separated.1 ann ann_valid, fun h => ?_,
    accounts_separated.2.2 Bool twoAccounts _ _⟩
  exact absurd (accounts_separated.2.1 ann bob ann_valid bob_valid h) (by decide)

end Storage

end MobileApps.SwiftUI

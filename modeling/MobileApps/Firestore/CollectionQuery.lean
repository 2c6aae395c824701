import MobileApps.Firestore.LocalRuns
import MobileApps.Library.DocumentStore

/-! What a query of a collection finds on the device: the server's documents under the user's
pending writes. -/

namespace MobileApps.Firestore

open Library.Runs Library.PrefixScan Library.DocumentStore

variable {D : Type} [Inhabited D]

namespace LocalStore

lemma nil_le_text (a : Library.Unicode.Text) : [] ≤ a := not_lt.mp (List.not_lt_nil a)

omit [Inhabited D] in
lemma mem_keysAt {path key : ResourcePath} {c : RemoteDocumentCache D} :
    key ∈ RemoteDocumentCache.keysAt path c ↔
      (key ∈ c ∧ path <+: key ∧ key ≠ path) ∧ key.length ≤ path.length + 1 := by
  simp [RemoteDocumentCache.keysAt, mem_prefixScan nil_le_text, AList.mem_keys]

omit [Inhabited D] in
lemma mem_keysIn {path key : ResourcePath} {c : DocumentOverlayCache D} :
    key ∈ c.keysIn path ↔
      (key ∈ c.overlays ∧ path <+: key ∧ key ≠ path) ∧ key.length = path.length + 1 := by
  simp [DocumentOverlayCache.keysIn, mem_prefixScan nil_le_text, AList.mem_keys]

omit [Inhabited D] in
lemma matchesQuery_iff {path : ResourcePath} {d : MutableDocument D} :
    matchesQuery path d = true ↔
      d.isFoundDocument = true ∧ path <+: d.key ∧ d.key.length = path.length + 1 := by
  simp only [matchesQuery, Bool.and_eq_true, beq_iff_eq, List.isPrefixOf_iff_prefix]
  tauto

lemma view_key {s : LocalStore D} (h : s.Consistent) (k : ResourcePath) : (s.view k).key = k := by
  rw [view, replay_key, RemoteDocumentCache.get_key h.remote]

lemma queriedDocument_eq {s : LocalStore D} (h : s.Consistent) {path : ResourcePath}
    {doc : MutableDocument D}
    (hdoc : doc = RemoteDocumentCache.get doc.key s.remoteDocumentCache)
    (results : MutableDocumentMap D) :
    queriedDocument path (s.documentOverlayCache.keysIn path) s results doc =
      .ok (if matchesQuery path (s.view doc.key) then results.insert doc.key (s.view doc.key)
        else results) := by
  have hview := view_eq h.remote doc.key
  rw [← hdoc] at hview
  by_cases hin : doc.key ∈ s.documentOverlayCache.keysIn path
  · cases ho : overlayOf s.mutationQueue.queue doc.key with
    | none =>
      have hsome := AList.lookup_isSome.mpr (mem_keysIn.mp hin).1.1
      rw [h.overlays, ho] at hsome
      cases hsome
    | some o =>
      obtain ⟨hu, hk⟩ := h.of_overlay ho
      have happly := applyToLocalView_eq hu hk (some [])
      rw [ho] at hview
      simp only [queriedDocument, hin, if_true, DocumentOverlayCache.getOverlay, h.overlays, ho,
        happly, bind, Except.bind, hview, Option.elim_some]
  · have hplain : queriedDocument path (s.documentOverlayCache.keysIn path) s results doc =
        .ok (if matchesQuery path doc then results.insert doc.key doc else results) := by
      simp only [queriedDocument, hin, if_false, bind, Except.bind]
    rw [hplain]
    cases ho : overlayOf s.mutationQueue.queue doc.key with
    | none =>
      rw [ho] at hview
      rw [hview]
      rfl
    | some o =>
      -- the overlay is for a document elsewhere
      have hmem : doc.key ∈ s.documentOverlayCache.overlays := by
        rw [← AList.lookup_isSome, h.overlays, ho]
        rfl
      have hchild : ¬ (path <+: doc.key ∧ doc.key.length = path.length + 1) := by
        rintro ⟨hp, hl⟩
        refine hin (mem_keysIn.mpr ⟨⟨hmem, hp, fun he => ?_⟩, hl⟩)
        rw [he] at hl
        omega
      have hno : ∀ d : MutableDocument D, d.key = doc.key → matchesQuery path d = false := by
        intro d hd
        rw [Bool.eq_false_iff, ne_eq, matchesQuery_iff, hd]
        exact fun hm => hchild hm.2
      rw [hno doc rfl, hno _ (view_key h doc.key)]
      rfl

lemma getDocumentsMatchingCollectionQuery_eq {s : LocalStore D} (h : s.Consistent)
    (path : ResourcePath) : ∃ results,
      s.getDocumentsMatchingCollectionQuery path = .ok results ∧
      ∀ k, results.lookup k = if matchesQuery path (s.view k) then some (s.view k) else none := by
  generalize hdocuments :
    ((RemoteDocumentCache.keysAt path s.remoteDocumentCache).map fun key =>
      RemoteDocumentCache.get key s.remoteDocumentCache) ++
    ((s.documentOverlayCache.keysIn path).filter fun key =>
      key ∉ RemoteDocumentCache.keysAt path s.remoteDocumentCache).map .invalidDocument = documents
  have hcached : ∀ doc ∈ documents,
      doc = RemoteDocumentCache.get doc.key s.remoteDocumentCache := by
    intro doc hd
    rw [← hdocuments, List.mem_append, List.mem_map, List.mem_map] at hd
    rcases hd with ⟨k, _, rfl⟩ | ⟨k, hk, rfl⟩
    · rw [RemoteDocumentCache.get_key h.remote]
    · -- the document of an overlay that the cache has no document for
      obtain ⟨hin, hnot⟩ := List.mem_filter.mp hk
      obtain ⟨⟨_, hpath⟩, hlength⟩ := mem_keysIn.mp hin
      have habsent : k ∉ s.remoteDocumentCache := fun hc =>
        (by simpa using hnot : k ∉ _) (mem_keysAt.mpr ⟨⟨hc, hpath⟩, hlength.le⟩)
      have hkey : (MutableDocument.invalidDocument k : MutableDocument D).key = k := rfl
      rw [RemoteDocumentCache.get, hkey, AList.lookup_eq_none.mpr habsent]
      rfl
  have hcovered : ∀ k, matchesQuery path (s.view k) → ∃ doc ∈ documents, doc.key = k := by
    intro k hm
    obtain ⟨hfound, hp, hl⟩ := matchesQuery_iff.mp hm
    rw [view_key h] at hp hl
    have hne : k ≠ path := fun he => by simp [he] at hl
    simp only [← hdocuments, List.mem_append, List.mem_map]
    by_cases hc : k ∈ RemoteDocumentCache.keysAt path s.remoteDocumentCache
    · exact ⟨_, Or.inl ⟨k, hc, rfl⟩, RemoteDocumentCache.get_key h.remote k⟩
    · have habsent : k ∉ s.remoteDocumentCache := fun hk =>
        hc (mem_keysAt.mpr ⟨⟨hk, hp, hne⟩, hl.le⟩)
      refine ⟨.invalidDocument k,
        Or.inr ⟨k, List.mem_filter.mpr ⟨?_, by simpa using hc⟩, rfl⟩, rfl⟩
      refine mem_keysIn.mpr ⟨⟨?_, hp, hne⟩, hl⟩
      rw [← AList.lookup_isSome, h.overlays]
      cases ho : overlayOf s.mutationQueue.queue k with
      | some o => rfl
      | none =>
        rw [view_eq h.remote, ho, Option.elim_none, RemoteDocumentCache.get,
          AList.lookup_eq_none.mpr habsent] at hfound
        simp [MutableDocument.isFoundDocument, MutableDocument.invalidDocument] at hfound
  obtain ⟨results, hloop, hlookup⟩ := foldlM_loop
    (f := queriedDocument path (s.documentOverlayCache.keysIn path) s)
    (l := documents) (b := ∅)
    (I := fun done results => ∀ k, results.lookup k =
      if (∃ doc ∈ done, doc.key = k) ∧ matchesQuery path (s.view k) then some (s.view k) else none)
    (by simp) (by
      intro done doc rest results hl hi
      refine ⟨_, queriedDocument_eq h (hcached doc (by simp [hl])) results, fun k => ?_⟩
      by_cases hk : k = doc.key
      · subst hk
        by_cases hm : matchesQuery path (s.view doc.key) = true <;> simp [hm, hi doc.key]
      · have hk' : ¬ doc.key = k := fun he => hk he.symm
        have hrest : (if matchesQuery path (s.view doc.key) then
            results.insert doc.key (s.view doc.key) else results).lookup k = results.lookup k := by
          split
          · exact AList.lookup_insert_ne hk
          · rfl
        rw [hrest, hi k]
        simp [hk', or_and_right, exists_or])
  refine ⟨results, ?_, fun k => ?_⟩
  · simp only [getDocumentsMatchingCollectionQuery, hdocuments, hloop]
  · rw [hlookup]
    by_cases hm : matchesQuery path (s.view k) = true
    · rw [if_pos hm, if_pos ⟨hcovered k hm, hm⟩]
    · rw [if_neg hm, if_neg fun hn => hm hn.2]

end LocalStore

def Mutation.write : Mutation D → Write ResourcePath D
  | .set key value _ => .set key value
  | .delete key _ => .delete key

def contents (docs : MutableDocumentMap D) : Collection ResourcePath D where
  docs := docs.entries.map fun entry => ⟨entry.1, entry.2.value⟩
  nodup := by
    rw [List.map_map]
    exact docs.nodupKeys

namespace LocalStore

def known (path : ResourcePath) (s : LocalStore D) : Collection ResourcePath D where
  docs := (s.remoteDocumentCache.keys.filter fun key =>
    matchesQuery path (RemoteDocumentCache.get key s.remoteDocumentCache)).map fun key =>
      ⟨key, (RemoteDocumentCache.get key s.remoteDocumentCache).value⟩
  nodup := by
    rw [List.map_map]
    refine List.Nodup.map (fun _ _ h => h) (s.remoteDocumentCache.keys_nodup.filter _)

def writesOn (path : ResourcePath) (s : LocalStore D) : List (Write ResourcePath D) :=
  (s.pending.filter fun m => path.isPrefixOf m.key && m.key.length == path.length + 1).map
    Mutation.write

end LocalStore

omit [Inhabited D] in
lemma write_key (m : Mutation D) : m.write.key = m.key := by
  cases m <;> rfl

omit [Inhabited D] in
lemma mem_contents {docs : MutableDocumentMap D} {k : ResourcePath} {v : D} :
    (⟨k, v⟩ : Document ResourcePath D) ∈ (contents docs).docs ↔
      ∃ d, docs.lookup k = some d ∧ d.value = v := by
  simp only [contents, List.mem_map, Document.mk.injEq]
  constructor
  · rintro ⟨⟨k', d⟩, hd, rfl, rfl⟩
    exact ⟨d, AList.mem_lookup_iff.mpr hd, rfl⟩
  · rintro ⟨d, hd, rfl⟩
    exact ⟨⟨k, d⟩, AList.mem_lookup_iff.mp hd, rfl, rfl⟩

namespace LocalStore

lemma mem_known {s : LocalStore D} {path k : ResourcePath} {v : D} :
    (⟨k, v⟩ : Document ResourcePath D) ∈ (s.known path).docs ↔
      matchesQuery path (RemoteDocumentCache.get k s.remoteDocumentCache) = true ∧
        (RemoteDocumentCache.get k s.remoteDocumentCache).value = v := by
  simp only [known, List.mem_map, List.mem_filter, Document.mk.injEq]
  constructor
  · rintro ⟨k', ⟨_, hm⟩, rfl, rfl⟩
    exact ⟨hm, rfl⟩
  · rintro ⟨hm, rfl⟩
    refine ⟨k, ⟨?_, hm⟩, rfl, rfl⟩
    by_contra habsent
    have hno : RemoteDocumentCache.get k s.remoteDocumentCache = .invalidDocument k := by
      rw [RemoteDocumentCache.get, AList.lookup_eq_none.mpr habsent]
      rfl
    rw [hno] at hm
    simp [matchesQuery, MutableDocument.isFoundDocument, MutableDocument.invalidDocument] at hm

omit [Inhabited D] in
lemma onKey_writesOn {s : LocalStore D} {path k : ResourcePath}
    (hk : path <+: k ∧ k.length = path.length + 1) :
    (onKey k (s.writesOn path)).getLast? = (lastOn k s.pending).map Mutation.write := by
  have hfilter : onKey k (s.writesOn path) =
      (s.pending.filter fun m => m.key = k).map Mutation.write := by
    rw [onKey, writesOn, List.filter_map, List.filter_filter]
    refine congrArg _ (List.filter_congr fun m _ => ?_)
    by_cases hm : m.key = k
    · simp [write_key, hm, hk]
    · simp [write_key, hm]
  rw [hfilter, List.getLast?_map]
  rfl

lemma query_refines {s : LocalStore D} (h : s.Consistent) {path : ResourcePath}
    {results : MutableDocumentMap D} (hr : ∀ k, results.lookup k =
      if matchesQuery path (s.view k) then some (s.view k) else none) :
    (contents results).docs.Perm ((s.known path).applyAll (s.writesOn path)).docs := by
  refine (List.perm_ext_iff_of_nodup (List.Nodup.of_map _ (contents results).nodup)
    (List.Nodup.of_map _ ((s.known path).applyAll (s.writesOn path)).nodup)).mpr ?_
  rintro ⟨k, v⟩
  have hleft : (∃ d, results.lookup k = some d ∧ d.value = v) ↔
      matchesQuery path (s.view k) = true ∧ (s.view k).value = v := by
    rw [hr]
    split
    · rename_i hm
      simp [hm]
    · rename_i hm
      simp [hm]
  rw [mem_contents, hleft, Collection.mem_applyAll_iff, mem_known]
  have hkey := RemoteDocumentCache.get_key h.remote k
  have hviewkey := view_key h k
  by_cases hk : path <+: k ∧ k.length = path.length + 1
  · have hlast := onKey_writesOn (s := s) hk
    have hnil : onKey k (s.writesOn path) = [] ↔ lastOn k s.pending = none := by
      rw [← List.getLast?_eq_none_iff, hlast, Option.map_eq_none_iff]
    have hview : s.view k = (lastOn k s.pending).elim
        (RemoteDocumentCache.get k s.remoteDocumentCache) fun m =>
          m.outcome (RemoteDocumentCache.get k s.remoteDocumentCache) := by
      rw [view, replay, hkey]
      cases lastOn k s.pending <;> rfl
    simp only [hnil, hlast, matchesQuery_iff, hviewkey, hkey, hk, and_true]
    rw [hview]
    cases hl : lastOn k s.pending with
    | none => simp
    | some m =>
      obtain ⟨_, hmk⟩ := mem_of_lastOn hl
      cases m with
      | set key value p =>
        obtain rfl : key = k := hmk
        simp [Mutation.outcome, Mutation.write, MutableDocument.isFoundDocument,
          MutableDocument.convertToFoundDocument, MutableDocument.setHasLocalMutations]
      | delete key p =>
        simp [Mutation.outcome, Mutation.write, MutableDocument.isFoundDocument,
          MutableDocument.convertToNoDocument, MutableDocument.setHasLocalMutations]
  · -- a document elsewhere is in neither
    have hnone : onKey k (s.writesOn path) = [] := by
      refine onKey_eq_nil fun w hw he => hk ?_
      obtain ⟨m, hm, rfl⟩ := List.mem_map.mp hw
      have hpath := (List.mem_filter.mp hm).2
      rw [write_key] at he
      rw [he] at hpath
      simpa using hpath
    simp [matchesQuery_iff, hviewkey, hkey, hk, hnone]

end LocalStore

namespace MemoryPersistence

variable {U : Type} [DecidableEq U]

def Queried (p : MemoryPersistence U D) : Prop :=
  ∀ path, ∃ results, p.localStore.getDocumentsMatchingCollectionQuery path = .ok results ∧
    (∀ key d, p.localStore.getDocument key = .ok d →
      if LocalStore.matchesQuery path d then ∃ e, results.lookup key = some e ∧ e.Same d
      else results.lookup key = none) ∧
    (contents results).docs.Perm
      ((p.localStore.known path).applyAll (p.localStore.writesOn path)).docs

theorem queries_refine [DecidableEq D] (user : U) (es : List (Event U D)) :
    Always step Queried (empty user) es := by
  refine always_consistent (fun p h path => ?_) user es
  obtain ⟨results, hresults, hlookup⟩ :=
    LocalStore.getDocumentsMatchingCollectionQuery_eq h.current path
  refine ⟨results, hresults, fun key d hd => ?_, LocalStore.query_refines h.current hlookup⟩
  have hsame := LocalStore.same_view h.current hd
  have hmatches : LocalStore.matchesQuery path d =
      LocalStore.matchesQuery path (p.localStore.view key) := by
    simp only [LocalStore.matchesQuery, MutableDocument.isFoundDocument, hsame.1, hsame.2.1]
  rw [hlookup, hmatches]
  split
  · exact ⟨_, rfl, hsame.symm⟩
  · rfl

end MemoryPersistence

end MobileApps.Firestore

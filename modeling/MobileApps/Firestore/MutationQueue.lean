import MobileApps.Firestore.Mutations
import MobileApps.Library.Ascending
import MobileApps.Library.Runs

/-! The queue of a user's pending writes, `memory_mutation_queue.cc`: the batches in the order of
their ids, and an index from documents to the ids of their batches. -/

namespace MobileApps.Firestore

open Library.Ascending Library.Runs

structure MutationQueue (D : Type) where
  queue : List (MutationBatch D)
  nextBatchId : ℤ
  batchesByDocumentKey : Finset (ResourcePath × ℤ)

def kBatchIdUnknown : ℤ := -1

variable {D : Type}

namespace MutationQueue

def empty : MutationQueue D := ⟨[], 1, ∅⟩

def isEmpty (q : MutationQueue D) : Bool := q.queue.isEmpty

def start (q : MutationQueue D) : MutationQueue D :=
  if q.isEmpty then { q with nextBatchId := 1 } else q

def addMutationBatch (mutations : List (Mutation D)) (q : MutationQueue D) :
    Except Halt (MutationBatch D × MutationQueue D) :=
  if h : mutations = [] then .error (.hardAssert "Mutation batches should not be empty")
  else do
    let batchId := q.nextBatchId
    hardAssert (∀ prior ∈ q.queue.getLast?, prior.batchId < batchId)
      "Mutation batch_ids must be in monotonically increasing order"
    let batch : MutationBatch D := ⟨batchId, mutations, h⟩
    .ok (batch,
      { queue := q.queue ++ [batch]
        nextBatchId := batchId + 1
        batchesByDocumentKey := mutations.foldl (fun references m =>
          insert (m.key, batchId) references) q.batchesByDocumentKey })

def acknowledgeBatch (batch : MutationBatch D) (q : MutationQueue D) : Except Halt Unit :=
  match q.queue with
  | [] => .error (.hardAssert "Cannot acknowledge batch on an empty queue")
  | check :: _ =>
      hardAssert (batch.batchId = check.batchId) "Queue ordering failure"

def removeMutationBatch (batch : MutationBatch D) (q : MutationQueue D) :
    Except Halt (MutationQueue D) :=
  match q.queue with
  | [] => .error (.hardAssert "Trying to remove batch from empty queue")
  | head :: rest => do
    hardAssert (head.batchId = batch.batchId)
      "Can only remove the first entry of the mutation queue"
    .ok { q with
      queue := rest
      batchesByDocumentKey := batch.mutations.foldl (fun references m =>
        references.erase (m.key, batch.batchId)) q.batchesByDocumentKey }

def indexOfBatchId (batchId : ℤ) (q : MutationQueue D) : ℤ :=
  match q.queue with
  | [] => 0
  | firstBatch :: _ => batchId - firstBatch.batchId

def lookupMutationBatch (batchId : ℤ) (q : MutationQueue D) :
    Except Halt (Option (MutationBatch D)) :=
  let index := q.indexOfBatchId batchId
  if q.isEmpty || index < 0 then .ok none
  else
    match q.queue[index.toNat]? with
    | none => .ok none
    | some batch => do
      hardAssert (batch.batchId = batchId) "If found, batch must match"
      .ok (some batch)

/-- The ids in the index, from the reference with the key and the id zero on. -/
def referencedIds (keys : List ResourcePath) (q : MutationQueue D) : Finset ℤ :=
  (q.batchesByDocumentKey.filter fun reference => reference.1 ∈ keys ∧ 0 ≤ reference.2).image
    Prod.snd

def allMutationBatchesWithIds (batchIds : Finset ℤ) (q : MutationQueue D) :
    Except Halt (List (MutationBatch D)) :=
  batchIds.sort.foldlM (fun result batchId => do
    let batch ← q.lookupMutationBatch batchId
    .ok (result ++ batch.toList)) []

def allMutationBatchesAffectingDocumentKeys (keys : List ResourcePath) (q : MutationQueue D) :
    Except Halt (List (MutationBatch D)) :=
  q.allMutationBatchesWithIds (q.referencedIds keys)

def allMutationBatchesAffectingDocumentKey (key : ResourcePath) (q : MutationQueue D) :
    Except Halt (List (MutationBatch D)) :=
  (q.referencedIds [key]).sort.foldlM (fun result batchId => do
    match ← q.lookupMutationBatch batchId with
    | none => .error (.hardAssert "Batches in the index must exist in the main table")
    | some batch => .ok (result ++ [batch])) []

def nextMutationBatchAfterBatchId (batchId : ℤ) (q : MutationQueue D) :
    Option (MutationBatch D) :=
  let rawIndex := q.indexOfBatchId (batchId + 1)
  q.queue[if rawIndex < 0 then 0 else rawIndex.toNat]?

def getHighestUnacknowledgedBatchId (q : MutationQueue D) : ℤ :=
  if q.isEmpty then kBatchIdUnknown else q.nextBatchId - 1

def performConsistencyCheck (q : MutationQueue D) : Except Halt Unit :=
  if q.isEmpty then
    hardAssert (q.batchesByDocumentKey = ∅)
      "Document leak -- detected dangling mutation references when queue is empty."
  else .ok ()

def containsKey (key : ResourcePath) (q : MutationQueue D) : Bool :=
  (q.referencedIds [key]).Nonempty

structure Indexed (q : MutationQueue D) : Prop where
  ids : ∀ (i : ℕ) b, q.queue[i]? = some b → b.batchId = q.nextBatchId - q.queue.length + i
  positive : q.queue.length < q.nextBatchId
  references : ∀ k id, (k, id) ∈ q.batchesByDocumentKey ↔
    ∃ b ∈ q.queue, b.batchId = id ∧ k ∈ b.keys

lemma empty_indexed : (empty : MutationQueue D).Indexed where
  ids i b hb := by simp [empty] at hb
  positive := by simp [empty]
  references k id := by simp [empty]

lemma Indexed.ascends {q : MutationQueue D} (h : q.Indexed) :
    Ascends MutationBatch.batchId q.queue := by
  refine List.pairwise_iff_getElem.mpr fun i j hi hj hij => ?_
  have hids := h.ids i _ (List.getElem?_eq_getElem hi)
  have hjds := h.ids j _ (List.getElem?_eq_getElem hj)
  omega

lemma Indexed.bounds {q : MutationQueue D} (h : q.Indexed) {b : MutationBatch D}
    (hb : b ∈ q.queue) : 0 < b.batchId ∧ b.batchId < q.nextBatchId := by
  obtain ⟨i, hi, rfl⟩ := List.mem_iff_getElem.mp hb
  have hids := h.ids i _ (List.getElem?_eq_getElem hi)
  have hpos := h.positive
  omega

lemma start_indexed {q : MutationQueue D} (h : q.Indexed) : q.start.Indexed := by
  unfold start
  split
  · rename_i he
    have hq : q.queue = [] := List.isEmpty_iff.mp he
    refine ⟨fun i b hb => by simp [hq] at hb, by simp [hq], fun k id => ?_⟩
    rw [h.references]
  · exact h

lemma mem_insertions (ms : List (Mutation D)) (id : ℤ)
    (references : Finset (ResourcePath × ℤ)) (r : ResourcePath × ℤ) :
    r ∈ ms.foldl (fun references m => insert (m.key, id) references) references ↔
      r ∈ references ∨ r.2 = id ∧ ∃ m ∈ ms, m.key = r.1 := by
  induction ms generalizing references with
  | nil => simp
  | cons m ms ih =>
    rw [List.foldl_cons, ih, Finset.mem_insert, Prod.ext_iff]
    simp only [List.mem_cons, exists_eq_or_imp]
    tauto

lemma mem_erasures (ms : List (Mutation D)) (id : ℤ)
    (references : Finset (ResourcePath × ℤ)) (r : ResourcePath × ℤ) :
    r ∈ ms.foldl (fun references m => references.erase (m.key, id)) references ↔
      r ∈ references ∧ ¬ (r.2 = id ∧ ∃ m ∈ ms, m.key = r.1) := by
  induction ms generalizing references with
  | nil => simp
  | cons m ms ih =>
    rw [List.foldl_cons, ih, Finset.mem_erase, ne_eq, Prod.ext_iff]
    grind

lemma mem_batch_keys {b : MutationBatch D} {k : ResourcePath} :
    k ∈ b.keys ↔ ∃ m ∈ b.mutations, m.key = k := by
  simp [MutationBatch.keys]

lemma addMutationBatch_eq {q : MutationQueue D} (h : q.Indexed) {mutations : List (Mutation D)}
    (hne : mutations ≠ []) : ∃ q', q'.Indexed ∧
      q'.queue = q.queue ++ [⟨q.nextBatchId, mutations, hne⟩] ∧
      q'.nextBatchId = q.nextBatchId + 1 ∧
      q.addMutationBatch mutations = .ok (⟨q.nextBatchId, mutations, hne⟩, q') := by
  refine ⟨⟨q.queue ++ [⟨q.nextBatchId, mutations, hne⟩], q.nextBatchId + 1,
    mutations.foldl (fun references m => insert (m.key, q.nextBatchId) references)
      q.batchesByDocumentKey⟩, ⟨fun i b hb => ?_, ?_, fun k id => ?_⟩, rfl, rfl, ?_⟩
  · rw [List.getElem?_append] at hb
    split at hb
    · have hids := h.ids i b hb
      simp only [List.length_append, List.length_singleton]
      omega
    · rename_i hi
      obtain ⟨hlt, rfl⟩ := List.getElem?_eq_some_iff.mp hb
      simp only [List.length_singleton] at hlt
      simp only [List.getElem_singleton, List.length_append, List.length_singleton]
      omega
  · have hpos := h.positive
    simp only [List.length_append, List.length_singleton]
    omega
  · simp only [mem_insertions, h.references, List.mem_append, List.mem_singleton, or_and_right,
      exists_or, exists_eq_left, mem_batch_keys]
    exact or_congr Iff.rfl (and_congr_left fun _ => eq_comm)
  · have hprior : ∀ prior ∈ q.queue.getLast?, prior.batchId < q.nextBatchId := fun prior hp =>
      (h.bounds (List.mem_of_getLast? hp)).2
    have hassert : hardAssert (∀ prior ∈ q.queue.getLast?, prior.batchId < q.nextBatchId)
      "Mutation batch_ids must be in monotonically increasing order" = .ok () := if_pos hprior
    simp only [addMutationBatch, hne, dite_false, hassert]
    rfl

lemma removeMutationBatch_eq {q : MutationQueue D} (h : q.Indexed) {b : MutationBatch D}
    {rest : List (MutationBatch D)} (hq : q.queue = b :: rest) : ∃ q', q'.Indexed ∧
      q'.queue = rest ∧ q'.nextBatchId = q.nextBatchId ∧ q.removeMutationBatch b = .ok q' := by
  have hb : b ∈ q.queue := hq ▸ List.mem_cons_self
  refine ⟨⟨rest, q.nextBatchId, b.mutations.foldl (fun references m =>
    references.erase (m.key, b.batchId)) q.batchesByDocumentKey⟩,
    ⟨fun i b' hb' => ?_, ?_, fun k id => ?_⟩, rfl, rfl, ?_⟩
  · have hids := h.ids (i + 1) b' (by rw [hq, List.getElem?_cons_succ, hb'])
    simp only [hq, List.length_cons] at hids
    change b'.batchId = q.nextBatchId - rest.length + i
    omega
  · have hpos := h.positive
    simp only [hq, List.length_cons] at hpos
    change (rest.length : ℤ) < q.nextBatchId
    omega
  · simp only [mem_erasures, h.references, ← mem_batch_keys, hq, List.mem_cons,
      exists_eq_or_imp]
    constructor
    · rintro ⟨⟨rfl, hk⟩ | hr, hne⟩
      · exact absurd ⟨rfl, hk⟩ hne
      · exact hr
    · rintro ⟨b', hb', rfl, hk⟩
      refine ⟨Or.inr ⟨b', hb', rfl, hk⟩, fun hn => ?_⟩
      -- two batches of the queue have two ids
      have hlt := h.ascends
      rw [hq] at hlt
      have := (List.pairwise_cons.mp hlt).1 b' hb'
      omega
  · simp [removeMutationBatch, hq, hardAssert, bind, Except.bind]

/-! ### The lookups -/

lemma lookupMutationBatch_eq {q : MutationQueue D} (h : q.Indexed) (id : ℤ) :
    q.lookupMutationBatch id = .ok (q.queue.find? fun b => b.batchId = id) := by
  have absent : (∀ b ∈ q.queue, b.batchId ≠ id) →
      (q.queue.find? fun b => b.batchId = id) = none := fun hb =>
    List.find?_eq_none.mpr fun b hm => by simpa using hb b hm
  unfold lookupMutationBatch
  cases hq : q.queue with
  | nil => simp [isEmpty, hq]
  | cons first rest =>
    have hfirst := h.ids 0 first (by rw [hq]; rfl)
    have hindex : q.indexOfBatchId id = id - first.batchId := by rw [indexOfBatchId, hq]
    simp only [isEmpty, hq, List.isEmpty_cons, Bool.false_or, hindex, decide_eq_true_eq]
    rw [← hq]
    split
    · -- every id of the queue is at least that of its first batch
      rw [absent]
      intro b hb
      obtain ⟨i, hi, rfl⟩ := List.mem_iff_getElem.mp hb
      have hids := h.ids i _ (List.getElem?_eq_getElem hi)
      omega
    · cases hb : q.queue[(id - first.batchId).toNat]? with
      | none =>
        rw [absent]
        intro b hm
        obtain ⟨i, hi, rfl⟩ := List.mem_iff_getElem.mp hm
        have hids := h.ids i _ (List.getElem?_eq_getElem hi)
        have hlen := List.getElem?_eq_none_iff.mp hb
        omega
      | some b =>
        have hids := h.ids _ b hb
        have hid : b.batchId = id := by omega
        have hf := h.ascends.find_label (List.mem_of_getElem? hb)
        rw [hid] at hf
        simp only [hf, hid, hardAssert, if_true, bind, Except.bind]

lemma Indexed.mem_referencedIds {q : MutationQueue D} (h : q.Indexed) (keys : List ResourcePath)
    (id : ℤ) : id ∈ q.referencedIds keys ↔
      ∃ b ∈ q.queue, (b.keys.any fun k => k ∈ keys) = true ∧ b.batchId = id := by
  simp only [referencedIds, Finset.mem_image, Finset.mem_filter, Prod.exists, h.references,
    List.any_eq_true, decide_eq_true_eq]
  constructor
  · rintro ⟨k, _, ⟨⟨b, hb, hid, hk⟩, hkeys, _⟩, rfl⟩
    exact ⟨b, hb, ⟨k, hk, hkeys⟩, hid⟩
  · rintro ⟨b, hb, ⟨k, hk, hkeys⟩, rfl⟩
    exact ⟨k, b.batchId, ⟨⟨b, hb, rfl, hk⟩, hkeys, (h.bounds hb).1.le⟩, rfl⟩

lemma allMutationBatchesAffectingDocumentKeys_eq {q : MutationQueue D} (h : q.Indexed)
    (keys : List ResourcePath) : q.allMutationBatchesAffectingDocumentKeys keys =
      .ok (q.queue.filter fun b => b.keys.any fun k => k ∈ keys) := by
  have hloop : ∀ (ids : List ℤ) result, ids.foldlM (fun result id => do
      let batch ← q.lookupMutationBatch id
      .ok (result ++ batch.toList)) result =
      (.ok (result ++ ids.filterMap fun id => q.queue.find? fun b => b.batchId = id) :
        Except Halt (List (MutationBatch D))) := by
    intro ids
    induction ids with
    | nil => simp [pure, Except.pure]
    | cons id ids ih =>
      intro result
      rw [List.foldlM_cons, lookupMutationBatch_eq h id]
      refine (ih _).trans ?_
      cases hf : q.queue.find? fun b => b.batchId = id <;> simp [hf]
  rw [allMutationBatchesAffectingDocumentKeys, allMutationBatchesWithIds, hloop, List.nil_append,
    h.ascends.collect (h.mem_referencedIds keys)]

lemma allMutationBatchesAffectingDocumentKey_eq {q : MutationQueue D} (h : q.Indexed)
    (key : ResourcePath) : q.allMutationBatchesAffectingDocumentKey key =
      .ok (q.queue.filter fun b => key ∈ b.keys) := by
  have hmem := h.mem_referencedIds [key]
  have hloop : ∀ (ids : List ℤ) result, (∀ id ∈ ids, ∃ b ∈ q.queue, b.batchId = id) →
      ids.foldlM (fun result id => do
        match ← q.lookupMutationBatch id with
        | none => .error (.hardAssert "Batches in the index must exist in the main table")
        | some batch => .ok (result ++ [batch])) result =
      (.ok (result ++ ids.filterMap fun id => q.queue.find? fun b => b.batchId = id) :
        Except Halt (List (MutationBatch D))) := by
    intro ids
    induction ids with
    | nil => simp [pure, Except.pure]
    | cons id ids ih =>
      intro result hids
      obtain ⟨b, hb, rfl⟩ := hids id List.mem_cons_self
      have hf := h.ascends.find_label hb
      rw [List.foldlM_cons, lookupMutationBatch_eq h b.batchId, hf]
      refine (ih (result ++ [b]) fun id hid => hids id (List.mem_cons_of_mem _ hid)).trans ?_
      simp [hf]
  rw [allMutationBatchesAffectingDocumentKey, hloop, List.nil_append, h.ascends.collect hmem]
  · refine congrArg _ (List.filter_congr fun b _ => ?_)
    rw [Bool.eq_iff_iff]
    simp
  · intro id hid
    obtain ⟨b, hb, _, hid⟩ := (hmem id).mp ((Finset.mem_sort _).mp hid)
    exact ⟨b, hb, hid⟩

lemma nextMutationBatchAfterBatchId_eq {q : MutationQueue D} (h : q.Indexed) (id : ℤ) :
    q.nextMutationBatchAfterBatchId id = q.queue.find? fun b => id < b.batchId := by
  have hids := h.ids
  have hi : ∀ i : ℕ, (∀ first ∈ q.queue.head?, (i : ℤ) = max 0 (id + 1 - first.batchId)) →
      q.queue[i]? = q.queue.find? fun b => id < b.batchId := by
    intro i hfirst
    cases hb : q.queue[i]? with
    | none =>
      refine (List.find?_eq_none.mpr fun b hm => ?_).symm
      obtain ⟨j, hj, rfl⟩ := List.mem_iff_getElem.mp hm
      have hjds := hids j _ (List.getElem?_eq_getElem hj)
      have hlen := List.getElem?_eq_none_iff.mp hb
      have h0 : 0 < q.queue.length := by omega
      have h0ds := hids 0 _ (List.getElem?_eq_getElem h0)
      have hhead := hfirst q.queue[0] (by simp [List.head?_eq_getElem?, h0])
      simp only [decide_eq_true_eq]
      omega
    | some b =>
      obtain ⟨hlt, rfl⟩ := List.getElem?_eq_some_iff.mp hb
      have hbds := hids i _ hb
      have h0 : 0 < q.queue.length := by omega
      have h0ds := hids 0 _ (List.getElem?_eq_getElem h0)
      have hhead := hfirst q.queue[0] (by simp [List.head?_eq_getElem?, h0])
      refine (List.find?_eq_some_iff_getElem.mpr ⟨?_, i, hlt, rfl, fun j hj => ?_⟩).symm
      · simp only [decide_eq_true_eq]
        omega
      · have hjds := hids j _ (List.getElem?_eq_getElem (hj.trans hlt))
        simp only [Bool.not_eq_true', decide_eq_false_iff_not]
        omega
  refine hi _ fun first hf => ?_
  have hindex : q.indexOfBatchId (id + 1) = id + 1 - first.batchId := by
    cases hq : q.queue with
    | nil => simp [hq] at hf
    | cons first' rest =>
      obtain rfl : first' = first := by simpa [hq] using hf
      rw [indexOfBatchId, hq]
  simp only [hindex]
  split <;> omega

lemma getHighestUnacknowledgedBatchId_eq {q : MutationQueue D} (h : q.Indexed) :
    q.getHighestUnacknowledgedBatchId =
      (q.queue.getLast?.map MutationBatch.batchId).getD kBatchIdUnknown := by
  unfold getHighestUnacknowledgedBatchId
  cases hq : q.queue.getLast? with
  | none =>
    rw [List.getLast?_eq_none_iff] at hq
    simp [isEmpty, hq]
  | some b =>
    rw [List.getLast?_eq_getElem?] at hq
    have hids := h.ids _ b hq
    have hlen := (List.getElem?_eq_some_iff.mp hq).1
    have hne : q.queue.isEmpty = false := by
      rw [List.isEmpty_eq_false_iff]
      rintro he
      simp [he] at hlen
    simp only [isEmpty, hne, Bool.false_eq_true, if_false, Option.map_some, Option.getD_some]
    omega

lemma performConsistencyCheck_eq {q : MutationQueue D} (h : q.Indexed) :
    q.performConsistencyCheck = .ok () := by
  unfold performConsistencyCheck
  split
  · rename_i he
    have hq : q.queue = [] := List.isEmpty_iff.mp he
    refine if_pos (Finset.eq_empty_of_forall_notMem fun r hr => ?_)
    obtain ⟨b, hb, _⟩ := (h.references r.1 r.2).mp hr
    simp [hq] at hb
  · rfl

lemma containsKey_iff {q : MutationQueue D} (h : q.Indexed) (key : ResourcePath) :
    q.containsKey key = true ↔ ∃ b ∈ q.queue, key ∈ b.keys := by
  rw [containsKey, decide_eq_true_eq]
  constructor
  · rintro ⟨id, hid⟩
    obtain ⟨b, hb, hk, _⟩ := (h.mem_referencedIds [key] id).mp hid
    exact ⟨b, hb, by simpa using hk⟩
  · rintro ⟨b, hb, hk⟩
    exact ⟨b.batchId, (h.mem_referencedIds [key] _).mpr ⟨b, hb, by simpa using hk, rfl⟩⟩

inductive Event (D : Type)
  | start
  | add (mutations : List (Mutation D))
  | acknowledgeFirst

def step (q : MutationQueue D) : Event D → Option (MutationQueue D)
  | .start => some q.start
  | .add mutations => (q.addMutationBatch mutations).toOption.map Prod.snd
  | .acknowledgeFirst =>
      q.queue.head?.bind fun batch =>
        (do q.acknowledgeBatch batch; q.removeMutationBatch batch).toOption

structure Exact (q : MutationQueue D) : Prop where
  add : ∀ mutations, mutations ≠ [] → ∃ batch q',
    q.addMutationBatch mutations = .ok (batch, q') ∧ q'.queue = q.queue ++ [batch]
  remove : ∀ batch rest, q.queue = batch :: rest → q.acknowledgeBatch batch = .ok () ∧
    ∃ q', q.removeMutationBatch batch = .ok q' ∧ q'.queue = rest
  lookup : ∀ id, q.lookupMutationBatch id = .ok (q.queue.find? fun b => b.batchId = id)
  affectingKeys : ∀ keys, q.allMutationBatchesAffectingDocumentKeys keys =
    .ok (q.queue.filter fun b => b.keys.any fun k => k ∈ keys)
  affectingKey : ∀ key, q.allMutationBatchesAffectingDocumentKey key =
    .ok (q.queue.filter fun b => key ∈ b.keys)
  next : ∀ id, q.nextMutationBatchAfterBatchId id = q.queue.find? fun b => id < b.batchId
  highest : q.getHighestUnacknowledgedBatchId =
    (q.queue.getLast?.map MutationBatch.batchId).getD kBatchIdUnknown
  contains : ∀ key, q.containsKey key = true ↔ ∃ b ∈ q.queue, key ∈ b.keys
  check : q.performConsistencyCheck = .ok ()

lemma acknowledgeBatch_eq {q : MutationQueue D} {b : MutationBatch D}
    {rest : List (MutationBatch D)} (hq : q.queue = b :: rest) :
    q.acknowledgeBatch b = .ok () := by
  simp [acknowledgeBatch, hq, hardAssert]

lemma exact_of_indexed {q : MutationQueue D} (h : q.Indexed) : q.Exact where
  add mutations hne := by
    obtain ⟨q', _, hq, _, ha⟩ := addMutationBatch_eq h hne
    exact ⟨_, q', ha, hq⟩
  remove batch rest hq := by
    obtain ⟨q', _, hrest, _, hr⟩ := removeMutationBatch_eq h hq
    exact ⟨acknowledgeBatch_eq hq, q', hr, hrest⟩
  lookup := lookupMutationBatch_eq h
  affectingKeys := allMutationBatchesAffectingDocumentKeys_eq h
  affectingKey := allMutationBatchesAffectingDocumentKey_eq h
  next := nextMutationBatchAfterBatchId_eq h
  highest := getHighestUnacknowledgedBatchId_eq h
  contains := containsKey_iff h
  check := performConsistencyCheck_eq h

lemma step_indexed {q q' : MutationQueue D} {e : Event D} (h : q.Indexed)
    (hs : q.step e = some q') : q'.Indexed := by
  cases e with
  | start =>
    obtain rfl := Option.some.inj hs
    exact start_indexed h
  | add mutations =>
    obtain ⟨⟨batch, q''⟩, ha, rfl⟩ := mapped_some.mp hs
    by_cases hne : mutations = []
    · simp [addMutationBatch, hne, Except.toOption] at ha
    · obtain ⟨q₁, hq₁, _, _, he⟩ := addMutationBatch_eq h hne
      rw [he] at ha
      obtain rfl := (Prod.mk.inj (Option.some.inj ha)).2
      exact hq₁
  | acknowledgeFirst =>
    simp only [step] at hs
    cases hq : q.queue with
    | nil => simp [hq] at hs
    | cons batch rest =>
      obtain ⟨q₁, hq₁, _, _, hr⟩ := removeMutationBatch_eq h hq
      simp only [hq, List.head?_cons, Option.bind_some, acknowledgeBatch_eq hq, hr, bind,
        Except.bind, Except.toOption] at hs
      exact Option.some.inj hs ▸ hq₁

/-- In every run of the queue, each lookup through the index finds what a scan of the queue finds,
in the order of the queue, and no assertion of the operations fails. -/
theorem lookups_exact (es : List (Event D)) :
    Always step Exact (empty : MutationQueue D) es :=
  always_of_invariant (I := Indexed) (fun _ h => exact_of_indexed h)
    (fun _ _ _ h hs => step_indexed h hs) empty_indexed

end MutationQueue

end MobileApps.Firestore

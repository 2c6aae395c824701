import MobileApps.Firestore.StreamOrder

/-! The pipeline is the front of the user's queue. Each event leaves it as long as it may be, and
the stream running when there is something to send. -/

namespace MobileApps.Firestore

open Library.Ascending

variable {U C D : Type}

namespace SyncEngine

/-- The pipeline is the front of the user's queue, and the stream is in order for it. -/
structure Linked (prompt : Prop) (log answered : List (List (Mutation D) × Verdict))
    (s : SyncEngine U C D) : Prop where
  stores : s.persistence.Consistent
  front : s.writePipeline <+: s.persistence.localStore.mutationQueue.queue
  bounded : s.writePipeline.length ≤ kMaxPendingWrites
  offline : s.isNetworkEnabled = false →
    s.writePipeline = [] ∧ s.writeStream.isStarted = false
  stream : s.writeStream.Carries prompt s.writePipeline log answered

structure Frame (s s' : SyncEngine U C D) : Prop where
  persistence : s'.persistence = s.persistence
  callbacks : s'.mutationCallbacks = s.mutationCallbacks
  called : s'.called = s.called
  network : s'.isNetworkEnabled = s.isNetworkEnabled
  handshake : s'.writeStream.handshakeComplete = s.writeStream.handshakeComplete
  opened : s'.writeStream.state = .opened ↔ s.writeStream.state = .opened

lemma Frame.refl (s : SyncEngine U C D) : s.Frame s := ⟨rfl, rfl, rfl, rfl, rfl, .rfl⟩

lemma Frame.trans {s t u : SyncEngine U C D} (h : s.Frame t) (h' : t.Frame u) : s.Frame u where
  persistence := h'.persistence.trans h.persistence
  callbacks := h'.callbacks.trans h.callbacks
  called := h'.called.trans h.called
  network := h'.network.trans h.network
  handshake := h'.handshake.trans h.handshake
  opened := h'.opened.trans h.opened

variable {prompt : Prop} {log answered : List (List (Mutation D) × Verdict)} {s : SyncEngine U C D}

lemma startIfNeeded_eq (h : s.Linked prompt log answered) : ∃ s', s.startIfNeeded = .ok s' ∧
    s'.Linked prompt log answered ∧ s'.shouldStartWriteStream = false ∧ s.Frame s' ∧
    s'.writePipeline = s.writePipeline := by
  cases hn : s.shouldStartWriteStream with
  | false => exact ⟨s, by simp [startIfNeeded, hn], h, hn, .refl s, rfl⟩
  | true =>
    obtain ⟨⟨hnet, hs⟩, hp⟩ : (s.isNetworkEnabled = true ∧ s.writeStream.isStarted = false) ∧
        s.writePipeline ≠ [] := by
      simpa [shouldStartWriteStream, canUseNetwork] using hn
    obtain ⟨w, hw, hc, hstarted, ho, hh, _⟩ := WriteStream.start_eq h.stream hs hp
    refine ⟨{ s with writeStream := w }, ?_, ⟨h.stores, h.front, h.bounded, fun hoff => ?_, hc⟩,
      ?_, ⟨rfl, rfl, rfl, rfl, hh, iff_of_false ho fun he => ?_⟩, rfl⟩
    · simp [startIfNeeded, startWriteStream, hn, hardAssert, hw, bind, Except.bind]
    · cases hnet.symm.trans hoff
    · simp [shouldStartWriteStream, hstarted]
    · simp [WriteStream.isStarted, WriteStream.isOpen, he] at hs

lemma getNextMutationBatch_eq (h : s.persistence.Consistent) {rest : List (MutationBatch D)}
    (hq : s.persistence.localStore.mutationQueue.queue = s.writePipeline ++ rest) :
    s.getNextMutationBatch ((s.writePipeline.getLast?.map MutationBatch.batchId).getD
      kBatchIdUnknown) = rest.head? := by
  have hi := h.current.indexed
  rw [getNextMutationBatch, MutationQueue.nextMutationBatchAfterBatchId_eq hi, hq]
  apply Ascends.find_next (hq ▸ hi.ascends)
  intro b hb
  exact lt_trans (by decide) (hi.bounds (hq ▸ hb)).1

lemma addToWritePipeline_eq (h : s.Linked prompt log answered) (hn : s.isNetworkEnabled = true)
    (hlen : s.writePipeline.length < kMaxPendingWrites) {b : MutationBatch D}
    (hf : s.writePipeline ++ [b] <+: s.persistence.localStore.mutationQueue.queue) : ∃ s',
      s.addToWritePipeline b = .ok s' ∧ s'.Linked prompt log answered ∧ s.Frame s' ∧
      s'.writePipeline = s.writePipeline ++ [b] := by
  have hcan : s.canAddToWritePipeline = true := by
    simp [canAddToWritePipeline, canUseNetwork, hn, hlen]
  have hbounded : (s.writePipeline ++ [b]).length ≤ kMaxPendingWrites := by
    rwa [List.length_append]
  by_cases hready : s.writeStream.state = .opened ∧ s.writeStream.handshakeComplete = true
  · obtain ⟨ho, hh⟩ := hready
    obtain ⟨w, hw, hc, ho', hh'⟩ := WriteStream.writeMutations_eq h.stream ho hh b
    refine ⟨{ s with writePipeline := s.writePipeline ++ [b], writeStream := w }, ?_,
      ⟨h.stores, hf, hbounded, fun hoff => ?_, hc⟩,
      ⟨rfl, rfl, rfl, rfl, hh'.trans hh.symm, iff_of_true ho' ho⟩, rfl⟩
    · simp [addToWritePipeline, hardAssert, hcan, WriteStream.isOpen, ho, hh, hw, bind,
        Except.bind]
    · cases hn.symm.trans hoff
  · refine ⟨{ s with writePipeline := s.writePipeline ++ [b] }, ?_,
      ⟨h.stores, hf, hbounded, fun hoff => ?_, ?_⟩, ⟨rfl, rfl, rfl, rfl, rfl, .rfl⟩, rfl⟩
    · simp [addToWritePipeline, hardAssert, hcan, WriteStream.isOpen, hready, bind, Except.bind]
    · cases hn.symm.trans hoff
    · exact WriteStream.append_carries h.stream hready b

lemma fillLoop_eq (places : ℕ) {s : SyncEngine U C D} (h : s.Linked prompt log answered)
    (hn : s.isNetworkEnabled = true)
    (hplaces : places = kMaxPendingWrites - s.writePipeline.length) : ∃ s',
      s.fillLoop places ((s.writePipeline.getLast?.map MutationBatch.batchId).getD
        kBatchIdUnknown) = .ok s' ∧
      s'.Linked prompt log answered ∧ s.Frame s' ∧ s'.writePipeline =
        s.persistence.localStore.mutationQueue.queue.take kMaxPendingWrites := by
  obtain ⟨rest, hq⟩ := h.front
  induction places generalizing s rest with
  | zero =>
    refine ⟨s, rfl, h, .refl s, ?_⟩
    have hlen : s.writePipeline.length = kMaxPendingWrites := by
      have := h.bounded
      omega
    rw [← hq, ← hlen, List.take_left]
  | succ places ih =>
    have hlen : s.writePipeline.length < kMaxPendingWrites := by omega
    have hcan : s.canAddToWritePipeline = true := by
      simp [canAddToWritePipeline, canUseNetwork, hn, hlen]
    have hnext := getNextMutationBatch_eq h.stores hq.symm
    cases rest with
    | nil =>
      rw [List.append_nil] at hq
      have hfull : s.writePipeline =
          s.persistence.localStore.mutationQueue.queue.take kMaxPendingWrites := by
        rw [← hq, List.take_of_length_le hlen.le]
      by_cases he : s.writePipeline = []
      · refine ⟨{ s with writeStream := s.writeStream.markIdle }, ?_,
          ⟨h.stores, h.front, h.bounded, fun hoff => ?_, ?_⟩,
          ⟨rfl, rfl, rfl, rfl, s.writeStream.markIdle_frame.2,
            by rw [s.writeStream.markIdle_frame.1]⟩, hfull⟩
        · rw [fillLoop, if_neg (not_not.mpr hcan), hnext]
          simp [he]
        · cases hn.symm.trans hoff
        · have hc := h.stream
          rw [he] at hc ⊢
          exact WriteStream.markIdle_carries hc
      · refine ⟨s, ?_, h, .refl s, hfull⟩
        simp [fillLoop, hcan, hnext, he]
    | cons b rest =>
      have hq' : s.persistence.localStore.mutationQueue.queue =
          s.writePipeline ++ [b] ++ rest := by rw [List.append_assoc, ← hq]; rfl
      obtain ⟨s₁, hadd, h₁, hframe, hp⟩ := addToWritePipeline_eq h hn hlen ⟨rest, hq'.symm⟩
      obtain ⟨s₂, hloop, h₂, hframe₂, hp₂⟩ := ih h₁ (hframe.network.trans hn)
        (by rw [hp, List.length_append, List.length_singleton]; omega) rest
        (by rw [hp, hframe.persistence, hq'])
      refine ⟨s₂, ?_, h₂, hframe.trans hframe₂, hframe.persistence ▸ hp₂⟩
      rw [hp, List.getLast?_concat] at hloop
      simpa [fillLoop, hcan, hnext, hadd, bind, Except.bind] using hloop

structure Filled (prompt : Prop) (log answered : List (List (Mutation D) × Verdict))
    (s : SyncEngine U C D) : Prop extends Linked prompt log answered s where
  running : s.shouldStartWriteStream = false
  full : s.isNetworkEnabled = true → s.writePipeline =
    s.persistence.localStore.mutationQueue.queue.take kMaxPendingWrites

structure Settled (prompt : Prop) (log answered : List (List (Mutation D) × Verdict))
    (s : SyncEngine U C D) : Prop extends Filled prompt log answered s where
  shaken : s.writeStream.handshakeComplete = true → s.writeStream.state = .opened

lemma fillWritePipeline_eq (h : s.Linked prompt log answered) : ∃ s',
    s.fillWritePipeline = .ok s' ∧ s'.Filled prompt log answered ∧ s.Frame s' := by
  cases hn : s.isNetworkEnabled with
  | false =>
    obtain ⟨s', hs, h', hrunning, hframe, _⟩ := startIfNeeded_eq h
    refine ⟨s', ?_, ⟨h', hrunning, fun hon => ?_⟩, hframe⟩
    · have hloop : ∀ id, s.fillLoop kMaxPendingWrites id = .ok s := fun id => by
        simp [kMaxPendingWrites, fillLoop, canAddToWritePipeline, canUseNetwork, hn]
      simp [fillWritePipeline, (h.offline hn).1, hloop, hs, bind, Except.bind]
    · cases hn.symm.trans (hframe.network.symm.trans hon)
  | true =>
    obtain ⟨s₁, hloop, h₁, hframe₁, hp₁⟩ := fillLoop_eq _ h hn rfl
    obtain ⟨s', hs, h', hrunning, hframe, hp⟩ := startIfNeeded_eq h₁
    refine ⟨s', ?_, ⟨h', hrunning, fun _ => ?_⟩, hframe₁.trans hframe⟩
    · simp only [fillWritePipeline, hloop, hs, bind, Except.bind]
    · rw [hp, hp₁, hframe.persistence, hframe₁.persistence]

lemma Filled.reset (h : s.Filled prompt log answered) (ho : s.writeStream.state ≠ .opened) :
    ({ s with writeStream := { s.writeStream with handshakeComplete := false } } :
      SyncEngine U C D).Settled prompt log answered where
  stores := h.stores
  front := h.front
  bounded := h.bounded
  offline := h.offline
  stream := WriteStream.reset_carries h.stream ho
  running := h.running
  full := h.full
  shaken := by simp

lemma settle (h : s.Linked prompt log answered)
    (hsh : s.writeStream.handshakeComplete = true → s.writeStream.state = .opened) : ∃ s',
      s.fillWritePipeline = .ok s' ∧ s'.Settled prompt log answered ∧ s.Frame s' := by
  obtain ⟨s', hs, h', hframe⟩ := fillWritePipeline_eq h
  exact ⟨s', hs, ⟨h', fun hh => hframe.opened.mpr (hsh (hframe.handshake ▸ hh))⟩, hframe⟩

def pending (user : U) (s : SyncEngine U C D) : List (MutationBatch D) :=
  (s.persistence.mutationQueues user).queue

structure Unanswered (s s' : SyncEngine U C D) : Prop where
  pending : ∀ user, s'.pending user = s.pending user
  callbacks : s'.mutationCallbacks = s.mutationCallbacks
  called : s'.called = s.called

lemma Frame.unanswered {s' : SyncEngine U C D} (h : s.Frame s') : s.Unanswered s' where
  pending user := by rw [SyncEngine.pending, h.persistence, SyncEngine.pending]
  callbacks := h.callbacks
  called := h.called

variable [DecidableEq U] [Inhabited D]

lemma stop_eq (h : s.writeStream.Carries prompt s.writePipeline log answered)
    (hsh : s.writeStream.handshakeComplete = true → s.writeStream.state = .opened)
    (hoff : s.isNetworkEnabled = false ∨ s.writePipeline = []) : ∃ w,
      s.close none = .ok { s with writeStream := w } ∧
      (∀ pipeline, w.Carries prompt pipeline log answered) ∧ w.isStarted = false ∧
      w.handshakeComplete = false := by
  cases hs : s.writeStream.isStarted with
  | false =>
    refine ⟨s.writeStream, by simp [close, hs], WriteStream.stopped_carries h hs, hs, ?_⟩
    by_contra hh
    simp [WriteStream.isStarted, WriteStream.isOpen, hsh (Bool.eq_true_of_not_eq_false hh)] at hs
  | true =>
    refine ⟨{ s.writeStream.tearDown none with handshakeComplete := false }, ?_, fun pipeline => ?_,
      s.writeStream.tearDown_stopped none, rfl⟩
    · have hneeded : ∀ w : WriteStream D,
          ({ s with writeStream := w } : SyncEngine U C D).shouldStartWriteStream = false := by
        intro w
        rcases hoff with hoff | hoff <;> simp [shouldStartWriteStream, canUseNetwork, hoff]
      simp [close, hs, hardAssert, onWriteStreamClose, startIfNeeded, hneeded, bind, Except.bind]
    · exact WriteStream.reset_carries
        (WriteStream.tearDown_carries h.requested h.recorded none pipeline)
        (by simp [WriteStream.tearDown])

lemma disableNetworkInternal_eq (h : s.writeStream.Carries prompt s.writePipeline log answered)
    (hsh : s.writeStream.handshakeComplete = true → s.writeStream.state = .opened)
    (hoff : s.isNetworkEnabled = false) : ∃ w,
      s.disableNetworkInternal = .ok { s with writeStream := w, writePipeline := [] } ∧
      (∀ pipeline, w.Carries prompt pipeline log answered) ∧ w.isStarted = false ∧
      w.handshakeComplete = false := by
  obtain ⟨w, hw, hc, hs, hh⟩ := stop_eq h hsh (Or.inl hoff)
  exact ⟨w, by simp only [disableNetworkInternal, hw, bind, Except.bind], hc, hs, hh⟩

lemma idle_eq (h : s.Settled prompt log answered) (hp : s.writePipeline = []) : ∃ s',
    s.close none = .ok s' ∧ s'.Settled prompt log answered ∧ s.Unanswered s' := by
  obtain ⟨w, hw, hc, hs, hh⟩ := stop_eq h.stream h.shaken (Or.inr hp)
  refine ⟨_, hw, ⟨⟨⟨h.stores, h.front, h.bounded, fun _ => ⟨hp, hs⟩, hc _⟩, ?_, h.full⟩,
    by simp [hh]⟩, fun _ => rfl, rfl, rfl⟩
  simp [shouldStartWriteStream, hp]

omit [DecidableEq U] [Inhabited D] in
lemma enableNetwork_eq (h : s.Linked prompt log answered)
    (hsh : s.writeStream.handshakeComplete = true → s.writeStream.state = .opened) : ∃ s',
      s.enableNetwork = .ok s' ∧ s'.Settled prompt log answered ∧ s.Unanswered s' := by
  have hon : ({ s with isNetworkEnabled := true } : SyncEngine U C D).Linked prompt log answered :=
    ⟨h.stores, h.front, h.bounded, by simp, h.stream⟩
  obtain ⟨s', hs, h', hframe⟩ := settle hon hsh
  have hun := hframe.unanswered
  exact ⟨s', hs, h', hun.pending, hun.callbacks, hun.called⟩

lemma disableNetwork_eq (h : s.Settled prompt log answered) : ∃ s',
    s.disableNetwork = .ok s' ∧ s'.Settled prompt log answered ∧ s.Unanswered s' := by
  obtain ⟨w, hw, hc, hs, hh⟩ := disableNetworkInternal_eq
    (s := { s with isNetworkEnabled := false }) h.stream h.shaken rfl
  refine ⟨_, hw, ⟨⟨⟨h.stores, List.nil_prefix, Nat.zero_le _, fun _ => ⟨rfl, hs⟩, hc _⟩, ?_,
    by simp⟩, by simp [hh]⟩, fun _ => rfl, rfl, rfl⟩
  simp [shouldStartWriteStream]

lemma restartNetwork_eq (hstores : s.persistence.Consistent)
    (h : s.writeStream.Carries prompt s.writePipeline log answered)
    (hsh : s.writeStream.handshakeComplete = true → s.writeStream.state = .opened) : ∃ s',
      s.restartNetwork = .ok s' ∧ s'.Settled prompt log answered ∧ s.Unanswered s' := by
  obtain ⟨w, hw, hc, hs, hh⟩ := disableNetworkInternal_eq
    (s := { s with isNetworkEnabled := false }) h hsh rfl
  obtain ⟨w', hw', hc', hs', hh'⟩ := WriteStream.inhibitBackoff_eq (hc []) hs
  have hlinked : ({ s with isNetworkEnabled := false, writeStream := w', writePipeline := [] } :
      SyncEngine U C D).Linked prompt log answered :=
    ⟨hstores, List.nil_prefix, Nat.zero_le _, fun _ => ⟨rfl, hs'⟩, hc'⟩
  obtain ⟨s', hen, h', hun⟩ := enableNetwork_eq hlinked (by simp [hh', hh])
  refine ⟨s', ?_, h', hun.pending, hun.callbacks, hun.called⟩
  simp only [restartNetwork, hw, hw', hen, bind, Except.bind]

lemma close_error_eq (hs : s.writeStream.isStarted = true) {error : Error}
    {t u : SyncEngine U C D}
    (ht : (if s.writePipeline.isEmpty = false ∧ s.writeStream.handshakeComplete = true then
        ({ s with writeStream := s.writeStream.tearDown (some error) } :
          SyncEngine U C D).handleWriteError error
      else .ok { s with writeStream := s.writeStream.tearDown (some error) }) = .ok t)
    (hu : t.startIfNeeded = .ok u) : s.close (some error) =
      .ok { u with writeStream := { u.writeStream with handshakeComplete := false } } := by
  have hclose : ({ s with writeStream := s.writeStream.tearDown (some error) } :
      SyncEngine U C D).onWriteStreamClose (some error) = .ok u := by
    by_cases hc : s.writePipeline.isEmpty = false ∧ s.writeStream.handshakeComplete = true
    · rw [if_pos hc] at ht
      refine (if_pos hc).trans ?_
      simp only [ht, hu, bind, Except.bind]
    · rw [if_neg hc] at ht
      refine (if_neg hc).trans ?_
      obtain rfl := Except.ok.inj ht
      exact hu
  simp only [close, reduceCtorEq, false_and, if_false, hs, hardAssert, if_true, hclose, bind,
    Except.bind]

lemma fail_eq (h : s.Settled prompt log answered) {w : WriteStream D} (hs : w.isStarted = true)
    (hrequested : w.credentials.Nodup ∧ ∀ n ∈ w.credentials, n ≤ w.closeCount) {error : Error}
    (hno : error.isPermanentWriteError = false ∨ w.handshakeComplete = false ∨
      s.writePipeline = []) : ∃ s', ({ s with writeStream := w } : SyncEngine U C D).close
        (some error) = .ok s' ∧ s'.Settled prompt log answered ∧ s.Unanswered s' := by
  have htorn : ({ s with writeStream := w.tearDown (some error) } :
      SyncEngine U C D).Linked prompt log answered :=
    ⟨h.stores, h.front, h.bounded, fun hoff => ⟨(h.offline hoff).1, w.tearDown_stopped _⟩,
      WriteStream.tearDown_carries hrequested h.stream.recorded _ _⟩
  obtain ⟨t, ht, hlinked, hrunning, hframe, hp⟩ := startIfNeeded_eq htorn
  have hun := hframe.unanswered
  have hfull : t.Filled prompt log answered := ⟨hlinked, hrunning, fun hon => by
    rw [hp, hframe.persistence]
    exact h.full (hframe.network.symm.trans hon)⟩
  have ho : t.writeStream.state ≠ .opened := fun ho => by
    cases hframe.opened.mp ho
  refine ⟨_, ?_, hfull.reset ho, hun.pending, hun.callbacks, hun.called⟩
  apply close_error_eq hs _ ht
  rcases hno with hno | hno | hno
  · simp [handleWriteError, hno]
  · simp [hno]
  · simp [hno]

structure Answered (b : MutationBatch D) (status : Status) (s s' : SyncEngine U C D) :
    Prop where
  pending : s.pending s.persistence.user = b :: s'.pending s.persistence.user
  others : ∀ user, user ≠ s.persistence.user → s'.pending user = s.pending user
  callbacks : s'.mutationCallbacks = (s.notifyUser b.batchId status).mutationCallbacks
  called : s'.called = (s.notifyUser b.batchId status).called
  user : s'.persistence.user = s.persistence.user
  network : s'.isNetworkEnabled = s.isNetworkEnabled

omit [Inhabited D] in
lemma notifyUser_congr {s t : SyncEngine U C D} (hu : t.persistence.user = s.persistence.user)
    (hc : t.mutationCallbacks = s.mutationCallbacks) (hcalled : t.called = s.called)
    (batchId : ℤ) (status : Status) : t.notifyUser batchId status =
      { t with
        mutationCallbacks := (s.notifyUser batchId status).mutationCallbacks
        called := (s.notifyUser batchId status).called } := by
  simp only [notifyUser, hu, hc]
  cases (s.mutationCallbacks s.persistence.user).lookup batchId with
  | none => rw [← hc, ← hcalled]
  | some callback => simp only [hcalled]

omit [Inhabited D] in
lemma pending_withLocalStore (s : SyncEngine U C D) (store : LocalStore D) (user : U) :
    ((s.persistence.withLocalStore store).mutationQueues user).queue =
      if user = s.persistence.user then store.mutationQueue.queue else s.pending user := by
  by_cases hu : user = s.persistence.user <;>
    simp [MemoryPersistence.withLocalStore, SyncEngine.pending, hu]

omit [Inhabited D] in
lemma answered_linked (h : s.Linked prompt log answered) {b : MutationBatch D}
    {rest : List (MutationBatch D)} (hp : s.writePipeline = b :: rest) {store : LocalStore D}
    (hstore : store.Consistent)
    (hqueue : s.persistence.localStore.mutationQueue.queue = b :: store.mutationQueue.queue)
    {log' answered' : List (List (Mutation D) × Verdict)} {w : WriteStream D}
    (hw : w.Carries prompt rest log' answered') (status : Status) {t : SyncEngine U C D}
    (ht : t = { s with
      persistence := s.persistence.withLocalStore store
      mutationCallbacks := (s.notifyUser b.batchId status).mutationCallbacks
      called := (s.notifyUser b.batchId status).called
      writePipeline := rest
      writeStream := w }) : t.Linked prompt log' answered' ∧ s.Answered b status t := by
  subst ht
  have hpending := s.pending_withLocalStore store
  have hfront := h.front
  rw [hp, hqueue, List.cons_prefix_cons] at hfront
  have hbounded := h.bounded
  rw [hp, List.length_cons] at hbounded
  refine ⟨⟨h.stores.withLocalStore hstore, ?_, (Nat.le_succ _).trans hbounded, fun hoff => ?_, hw⟩,
    ?_, fun user hu => (hpending user).trans (if_neg hu), rfl, rfl, rfl, rfl⟩
  · change rest <+: ((s.persistence.withLocalStore store).mutationQueues s.persistence.user).queue
    rw [hpending, if_pos rfl]
    exact hfront.2
  · cases hp.symm.trans (h.offline hoff).1
  · refine hqueue.trans (congrArg _ ?_)
    exact ((hpending _).trans (if_pos rfl)).symm

omit [Inhabited D] in
lemma Answered.frame {b : MutationBatch D} {status : Status} {t u : SyncEngine U C D}
    (h : s.Answered b status t) (hf : t.Frame u) : s.Answered b status u where
  pending := by rw [hf.unanswered.pending, h.pending]
  others user hu := by rw [hf.unanswered.pending, h.others user hu]
  callbacks := hf.callbacks.trans h.callbacks
  called := hf.called.trans h.called
  user := by rw [hf.persistence, h.user]
  network := hf.network.trans h.network

lemma handleRejectedWrite_eq {b : MutationBatch D} {store : LocalStore D}
    {changes : OverlayedDocumentMap D}
    (hstore : s.persistence.localStore.rejectBatch b.batchId = .ok (store, changes)) (error : Error)
    (rest : List (MutationBatch D)) (w : WriteStream D) :
    ({ s with writePipeline := rest, writeStream := w } :
      SyncEngine U C D).handleRejectedWrite b.batchId error = .ok { s with
        persistence := s.persistence.withLocalStore store
        mutationCallbacks := (s.notifyUser b.batchId (some error)).mutationCallbacks
        called := (s.notifyUser b.batchId (some error)).called
        writePipeline := rest
        writeStream := w } := by
  simp only [handleRejectedWrite, hstore, bind, Except.bind]
  apply congrArg Except.ok
  apply notifyUser_congr <;> rfl

lemma handleWriteError_eq (b : MutationBatch D) (rest : List (MutationBatch D))
    (hp : s.writePipeline = b :: rest) {error : Error}
    (hperm : error.isPermanentWriteError = true) {w : WriteStream D}
    (hw : s.writeStream.inhibitBackoff = .ok w) {t u : SyncEngine U C D}
    (hreject : ({ s with writePipeline := rest, writeStream := w } :
      SyncEngine U C D).handleRejectedWrite b.batchId error = .ok t)
    (hfill : t.fillWritePipeline = .ok u) : s.handleWriteError error = .ok u := by
  simp only [handleWriteError, hperm, not_true, if_false, hp, hw, hreject, hfill, bind, Except.bind]

lemma refuse_eq (h : s.Settled prompt log answered) (hs : s.writeStream.isStarted = true)
    (hh : s.writeStream.handshakeComplete = true) {b : MutationBatch D}
    {rest : List (MutationBatch D)} (hp : s.writePipeline = b :: rest) {error : Error}
    (hperm : error.isPermanentWriteError = true) (stream : Option (GrpcStream D)) : ∃ s',
      ({ s with writeStream := { s.writeStream with grpcStream := stream } } :
        SyncEngine U C D).close (some error) = .ok s' ∧
      s'.Settled prompt (log ++ [(b.mutations, .refused error)])
        (answered ++ [(b.mutations, .refused error)]) ∧
      s.Answered b (some error) s' := by
  obtain ⟨qrest, hq⟩ := h.front
  rw [hp] at hq
  have hrecorded : (answered ++ [(b.mutations, Verdict.refused error)]).Sublist
      (log ++ [(b.mutations, .refused error)]) := h.stream.recorded.append (List.Sublist.refl _)
  obtain ⟨w, hw, hc, hstopped, hh'⟩ := WriteStream.inhibitBackoff_eq
    (WriteStream.tearDown_carries (w := { s.writeStream with grpcStream := stream })
      h.stream.requested hrecorded (some error) rest) (WriteStream.tearDown_stopped _ _)
  obtain ⟨store, changes, hstore, hconsistent, hqueue, _, _⟩ :=
    LocalStore.rejectBatch_eq h.stores.current hq.symm
  obtain ⟨hlinked, hanswered⟩ := answered_linked h.toLinked hp hconsistent
    (hqueue ▸ hq.symm) hc (some error) rfl
  obtain ⟨t, ht, hfilled, hframe⟩ := fillWritePipeline_eq hlinked
  have ho : t.writeStream.state ≠ .opened := fun ho => by
    have hopen : w.state = .opened := hframe.opened.mp ho
    simp [WriteStream.isStarted, WriteStream.isOpen, hopen] at hstopped
  have hanswered' := hanswered.frame hframe
  have hstarted : ({ s with writeStream := { s.writeStream with grpcStream := stream } } :
      SyncEngine U C D).writeStream.isStarted = true := hs
  refine ⟨_, close_error_eq hstarted (t := t) (u := t) ?_ ?_, hfilled.reset ho,
    hanswered'.pending, hanswered'.others, hanswered'.callbacks, hanswered'.called,
    hanswered'.user, hanswered'.network⟩
  · rw [if_pos ⟨by simp [hp], hh⟩]
    refine handleWriteError_eq b rest ?_ hperm hw ?_ ht
    · exact hp
    · exact handleRejectedWrite_eq hstore error rest w
  · simp [startIfNeeded, hfilled.running]

lemma open_eq (h : s.Settled prompt log answered) (hs : s.writeStream.state = .starting) : ∃ w,
    s.onCredentials s.writeStream.closeCount none = .ok { s with writeStream := w } ∧
      ({ s with writeStream := w } : SyncEngine U C D).Settled prompt log answered ∧
      w.state = .opened := by
  have hh : s.writeStream.handshakeComplete = false := by
    by_contra hh
    cases hs.symm.trans (h.shaken (Bool.eq_true_of_not_eq_false hh))
  obtain ⟨w, hw, hopened, ho, hh'⟩ := WriteStream.open_carries h.stream hs hh
  refine ⟨w, ?_, ⟨⟨⟨h.stores, h.front, h.bounded, fun hoff => ?_, hopened⟩, ?_, h.full⟩,
    by simp [hh']⟩, ho⟩
  · simp [onCredentials, resumeStartWithCredentials, hs, hardAssert, hw, bind, Except.bind]
  · have hstopped := (h.offline hoff).2
    simp [WriteStream.isStarted, hs] at hstopped
  · simp [shouldStartWriteStream, WriteStream.isStarted, WriteStream.isOpen, ho]

lemma credentials_eq (h : s.Settled prompt log answered) {request : ℕ}
    (hm : request ∈ s.writeStream.credentials) (auth : Status) : ∃ s',
      s.onCredentials request auth = .ok s' ∧ s'.Settled prompt log answered ∧ s.Unanswered s' := by
  by_cases hc : s.writeStream.closeCount = request
  · subst hc
    have hs := h.stream.starting.mp hm
    cases auth with
    | some error =>
      have hh : s.writeStream.handshakeComplete = false := by
        by_contra hh
        cases hs.symm.trans (h.shaken (Bool.eq_true_of_not_eq_false hh))
      have hrequested := h.stream.requested
      obtain ⟨s', hclose, h', hun⟩ := fail_eq h (w := { s.writeStream with
        credentials := s.writeStream.credentials.erase s.writeStream.closeCount })
        (by simp [WriteStream.isStarted, hs])
        ⟨hrequested.1.erase _, fun n hn => hrequested.2 n (List.mem_of_mem_erase hn)⟩
        (Or.inr (Or.inl hh) : error.isPermanentWriteError = false ∨ _)
      refine ⟨s', ?_, h', hun⟩
      simpa [onCredentials, resumeStartWithCredentials, hs, hardAssert, bind, Except.bind]
        using hclose
    | none =>
      obtain ⟨w, hw, h', _⟩ := open_eq h hs
      exact ⟨_, hw, h', fun _ => rfl, rfl, rfl⟩
  · exact ⟨_, if_pos hc, ⟨⟨⟨h.stores, h.front, h.bounded, h.offline,
      WriteStream.lapsed_carries h.stream hc⟩, h.running, h.full⟩, h.shaken⟩, fun _ => rfl, rfl,
      rfl⟩

variable {requests : List (WriteRequest D)} {response : WriteResponse}
  {responses : List WriteResponse}

lemma handshake_eq (h : s.Settled prompt log answered)
    (hs : s.writeStream.grpcStream = some ⟨requests, response :: responses⟩)
    (hh : s.writeStream.handshakeComplete = false) : ∃ w,
      ({ s with writeStream := { s.writeStream with
        grpcStream := some ⟨requests, responses⟩ } } : SyncEngine U C D).onStreamRead response =
          .ok { s with writeStream := w } ∧
      ({ s with writeStream := w } : SyncEngine U C D).Settled prompt log answered ∧
      w.handshakeComplete = true := by
  have ho : s.writeStream.state = .opened := h.stream.channel.mp (by simp [hs])
  have hstarted : s.writeStream.isStarted = true := by
    simp [WriteStream.isStarted, WriteStream.isOpen, ho]
  obtain ⟨w, hw, hc, ho', hh'⟩ := WriteStream.sendPipeline_eq s.writePipeline []
    (WriteStream.shake_carries h.stream hs hh) ho rfl
  refine ⟨w, ?_, ⟨⟨⟨h.stores, h.front, h.bounded, fun hoff => ?_, hc⟩, ?_, h.full⟩,
    fun _ => ho'⟩, hh'⟩
  · rw [ho] at hw
    simp [onStreamRead, WriteStream.isStarted, WriteStream.isOpen, ho, hardAssert, hh,
      onWriteStreamHandshakeComplete, hw, bind, Except.bind]
  · cases hstarted.symm.trans (h.offline hoff).2
  · simp [shouldStartWriteStream, WriteStream.isStarted, WriteStream.isOpen, ho']

lemma handleSuccessfulWrite_eq {r : MutationBatchResult D} {store : LocalStore D}
    {changes : OverlayedDocumentMap D}
    (hstore : s.persistence.localStore.acknowledgeBatch r = .ok (store, changes))
    (rest : List (MutationBatch D)) (w : WriteStream D) :
    ({ s with writePipeline := rest, writeStream := w } :
      SyncEngine U C D).handleSuccessfulWrite r = .ok { s with
        persistence := s.persistence.withLocalStore store
        mutationCallbacks := (s.notifyUser r.batch.batchId none).mutationCallbacks
        called := (s.notifyUser r.batch.batchId none).called
        writePipeline := rest
        writeStream := w } := by
  have hnotify := notifyUser_congr (s := s)
    (t := { s with writePipeline := rest, writeStream := w }) rfl rfl rfl r.batch.batchId none
  simp only [handleSuccessfulWrite, hnotify, hstore, bind, Except.bind]

lemma onStreamRead_eq (b : MutationBatch D) (rest : List (MutationBatch D))
    (response : WriteResponse) (sizes : b.mutations.length = response.mutationResults.length)
    (hs : s.writeStream.isStarted = true) (hh : s.writeStream.handshakeComplete = true)
    (hp : s.writePipeline = b :: rest) {t u : SyncEngine U C D}
    (hsuccess : ({ s with writePipeline := rest } : SyncEngine U C D).handleSuccessfulWrite
      ⟨b, response.commitVersion, response.mutationResults, sizes⟩ = .ok t)
    (hfill : t.fillWritePipeline = .ok u) : s.onStreamRead response = .ok u := by
  simp only [onStreamRead, hs, hardAssert, if_true, hh, onWriteStreamMutationResult, hp, sizes,
    dite_true, hsuccess, hfill, bind, Except.bind]

lemma receive_eq (h : s.Settled prompt log answered)
    (hs : s.writeStream.grpcStream = some ⟨requests, response :: responses⟩)
    (hh : s.writeStream.handshakeComplete = true)
    (hlog : ∀ entry ∈ log, ∀ v results, entry.2 = .committed v results →
      results.length = entry.1.length) : ∃ b s',
      ({ s with writeStream := { s.writeStream with
        grpcStream := some ⟨requests, responses⟩ } } : SyncEngine U C D).onStreamRead response =
          .ok s' ∧ s'.Settled prompt log (answered ++ [(b.mutations, response.verdict)]) ∧
      s.Answered b none s' := by
  have ho : s.writeStream.state = .opened := h.stream.channel.mp (by simp [hs])
  obtain ⟨b, rest, hp, hmem, hc⟩ := WriteStream.receive_carries h.stream hs hh
  have hsizes : b.mutations.length = response.mutationResults.length :=
    (hlog _ hmem _ _ rfl).symm
  obtain ⟨qrest, hq⟩ := h.front
  rw [hp] at hq
  obtain ⟨store, changes, hstore, hconsistent, hqueue, _, _, _⟩ :=
    LocalStore.acknowledgeBatch_eq
      (r := ⟨b, response.commitVersion, response.mutationResults, hsizes⟩) h.stores.current hq.symm
  obtain ⟨hlinked, hanswered⟩ := answered_linked h.toLinked hp hconsistent
    (hqueue ▸ hq.symm) hc none rfl
  obtain ⟨s', hs', h', hframe⟩ := settle hlinked fun _ => ho
  refine ⟨b, s', ?_, h', hanswered.frame hframe⟩
  refine onStreamRead_eq b rest response hsizes ?_ ?_ ?_ ?_ hs'
  · simp [WriteStream.isStarted, WriteStream.isOpen, ho]
  · exact hh
  · exact hp
  · exact handleSuccessfulWrite_eq hstore rest _

lemma write_eq (h : s.Settled prompt log answered) {mutations : List (Mutation D)}
    (hne : mutations ≠ []) (hm : ∀ m ∈ mutations, m.precondition = .none) (callback : C)
    (hfresh : (s.mutationCallbacks s.persistence.user).lookup
      s.persistence.localStore.mutationQueue.nextBatchId = none) : ∃ b s',
      s.writeMutations mutations callback = .ok s' ∧ s'.Settled prompt log answered ∧
      b.mutations = mutations ∧
      b.batchId = s.persistence.localStore.mutationQueue.nextBatchId ∧
      s'.pending s.persistence.user = s.pending s.persistence.user ++ [b] ∧
      (∀ user, user ≠ s.persistence.user → s'.pending user = s.pending user) ∧
      s'.mutationCallbacks = Function.update s.mutationCallbacks s.persistence.user
        ((s.mutationCallbacks s.persistence.user).insert b.batchId callback) ∧
      s'.called = s.called := by
  obtain ⟨store, b, changes, hstore, hconsistent, hmutations, hqueue, _, hid, _⟩ :=
    LocalStore.writeLocally_eq h.stores.current hne hm
  have hpending := s.pending_withLocalStore store
  set t : SyncEngine U C D := { s with
    persistence := s.persistence.withLocalStore store
    mutationCallbacks := Function.update s.mutationCallbacks s.persistence.user
      ((s.mutationCallbacks s.persistence.user).insert b.batchId callback) } with ht
  have hlinked : t.Linked prompt log answered := by
    refine ⟨h.stores.withLocalStore hconsistent, ?_, h.bounded, h.offline, h.stream⟩
    refine h.front.trans ⟨[b], ?_⟩
    exact hqueue.symm.trans ((hpending _).trans (if_pos rfl)).symm
  obtain ⟨s', hs', h', hframe⟩ := settle hlinked h.shaken
  refine ⟨b, s', ?_, h', hmutations, hid, ?_, fun user hu => ?_, hframe.callbacks, hframe.called⟩
  · have hnone : (s.mutationCallbacks s.persistence.user).lookup b.batchId = none := hid ▸ hfresh
    simp only [writeMutations, hstore, hnone, Option.isSome_none, Bool.false_eq_true, if_false,
      bind, Except.bind]
    exact hs'
  · rw [hframe.unanswered.pending]
    exact (hpending _).trans ((if_pos rfl).trans hqueue)
  · rw [hframe.unanswered.pending]
    exact (hpending user).trans (if_neg hu)

lemma user_eq (h : s.Settled prompt log answered) (user : U) : ∃ s',
    s.handleCredentialChange user = .ok s' ∧ s'.Settled prompt log answered ∧ s.Unanswered s' := by
  have hrestart : ∀ p : MemoryPersistence U D, p.Consistent →
      (∀ u, (p.mutationQueues u).queue = (s.persistence.mutationQueues u).queue) → ∃ s',
      (if s.isNetworkEnabled = true then
          ({ s with persistence := p } : SyncEngine U C D).restartNetwork
        else .ok { s with persistence := p }) = .ok s' ∧
        s'.Settled prompt log answered ∧ s.Unanswered s' := by
    intro p hc hqueues
    cases hn : s.isNetworkEnabled with
    | true =>
      obtain ⟨s', hs', h', hun⟩ := restartNetwork_eq (s := { s with persistence := p }) hc h.stream
        h.shaken
      exact ⟨s', (if_pos rfl).trans (hn ▸ hs'), h', fun u => (hun.pending u).trans (hqueues u),
        hun.callbacks, hun.called⟩
    | false =>
      refine ⟨{ s with persistence := p }, by simp [hn], ⟨⟨⟨hc, ?_, h.bounded, h.offline,
        h.stream⟩, h.running, by simp [hn]⟩, h.shaken⟩, hqueues, rfl, rfl⟩
      rw [(h.offline hn).1]
      exact List.nil_prefix
  by_cases hu : s.persistence.user = user
  · obtain ⟨s', hs', h'⟩ := hrestart s.persistence h.stores fun _ => rfl
    refine ⟨s', ?_, h'⟩
    simp only [handleCredentialChange, hu, if_true, canUseNetwork, bind, Except.bind]
    exact hs'
  · obtain ⟨p, changes, hp, hc, _, hqueues, _⟩ :=
      MemoryPersistence.handleUserChange_eq h.stores user
    obtain ⟨s', hs', h'⟩ := hrestart p hc hqueues
    refine ⟨s', ?_, h'⟩
    simp only [handleCredentialChange, hu, if_false, hp, canUseNetwork, bind, Except.bind]
    exact hs'

omit [DecidableEq U] [Inhabited D] in
lemma backoff_eq (h : s.Settled prompt log answered) (ht : s.writeStream.backoffTimer = true) : ∃ w,
    s.writeStream.backoffElapsed = .ok w ∧
      ({ s with writeStream := w } : SyncEngine U C D).Settled prompt log answered ∧
      w.state = .starting := by
  obtain ⟨w, hw, hc, hs, hh⟩ := WriteStream.backoffElapsed_eq h.stream ht
  have hb := h.stream.timer.mp ht
  refine ⟨w, hw, ⟨⟨⟨h.stores, h.front, h.bounded, fun hoff => ?_, hc⟩, ?_, h.full⟩,
    fun hh' => ?_⟩, hs⟩
  · have hstopped := (h.offline hoff).2
    simp [WriteStream.isStarted, hb] at hstopped
  · simp [shouldStartWriteStream, WriteStream.isStarted, hs]
  · cases hb.symm.trans (h.shaken (hh.symm.trans hh'))

lemma connectivity_eq (h : s.Settled prompt log answered) : ∃ s',
    (if s.canUseNetwork then s.restartNetwork else .ok s) = .ok s' ∧
      s'.Settled prompt log answered ∧ s.Unanswered s' := by
  by_cases hn : s.canUseNetwork = true
  · rw [if_pos hn]
    exact restartNetwork_eq h.stores h.stream h.shaken
  · exact ⟨s, if_neg hn, h, (Frame.refl s).unanswered⟩

omit [DecidableEq U] [Inhabited D] in
lemma persistence_settled (h : s.Settled prompt log answered) {p : MemoryPersistence U D}
    (hc : p.Consistent) (hu : p.user = s.persistence.user)
    (hqueues : ∀ user, (p.mutationQueues user).queue = s.pending user) :
    ({ s with persistence := p } : SyncEngine U C D).Settled prompt log answered ∧
      s.Unanswered { s with persistence := p } := by
  have hqueue : p.localStore.mutationQueue.queue =
      s.persistence.localStore.mutationQueue.queue := by
    rw [MemoryPersistence.localStore, hu, hqueues]
    rfl
  exact ⟨⟨⟨⟨hc, hqueue ▸ h.front, h.bounded, h.offline, h.stream⟩, h.running, fun hn => by
    rw [hqueue]
    exact h.full hn⟩, h.shaken⟩, hqueues, rfl, rfl⟩

lemma remoteEvent_eq (h : s.Settled prompt log answered) {snapshotVersion : SnapshotVersion}
    (hv : snapshotVersion ≠ .none)
    (hlast : s.persistence.lastRemoteSnapshotVersion ≤ snapshotVersion)
    (updates : List (MutableDocument D)) : ∃ p changes,
      s.persistence.handle (.remoteEvent updates snapshotVersion) = .ok (p, changes) ∧
      ({ s with persistence := p } : SyncEngine U C D).Settled prompt log answered ∧
      s.Unanswered { s with persistence := p } := by
  obtain ⟨store, changes, hstore, hconsistent, hqueue, _⟩ :=
    LocalStore.applyRemoteEvent_eq h.stores.current updates (fun _ _ => Or.inl hv)
      (Or.inr hlast)
  refine ⟨_, changes, ?_, persistence_settled h (h.stores.withLocalStore hconsistent) rfl
    fun user => ?_⟩
  · simp only [MemoryPersistence.handle, hstore, bind, Except.bind]
  · rw [pending_withLocalStore]
    split
    · rename_i hu
      subst hu
      rw [hqueue]
      rfl
    · rfl

lemma remove_eq (h : s.Settled prompt log answered) (key : ResourcePath) : ∃ p changes,
    s.persistence.handle (.remove key) = .ok (p, changes) ∧
      ({ s with persistence := p } : SyncEngine U C D).Settled prompt log answered ∧
      s.Unanswered { s with persistence := p } := by
  obtain ⟨p, changes, hp, hc, _⟩ :=
    MemoryPersistence.handle_eq h.stores (e := .remove key) trivial
  obtain ⟨rfl, _⟩ := Prod.mk.inj (Except.ok.inj hp)
  exact ⟨_, changes, hp, persistence_settled h hc rfl fun _ => rfl⟩

end SyncEngine

end MobileApps.Firestore

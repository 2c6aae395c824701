import MobileApps.Firestore.ServerDocuments
import MobileApps.Firestore.WritePipeline

/-! Every run of a device and its server: the callback of a write is called at most once, in the
order of the user's writes, with what the server did to just that write. -/

namespace MobileApps.Firestore

open Library.Ascending Library.DocumentStore Library.Runs

variable {U C D : Type}

structure Answer (U C D : Type) where
  user : U
  callback : C
  mutations : List (Mutation D)
  verdict : Verdict

namespace Answer

def call (a : Answer U C D) : U × C × Status := (a.user, a.callback, a.verdict.status)

def write (a : Answer U C D) : C × List (Mutation D) := (a.callback, a.mutations)

def served (a : Answer U C D) : List (Mutation D) × Verdict := (a.mutations, a.verdict)

end Answer

def answersTo [DecidableEq U] (user : U) (answers : List (Answer U C D)) :
    List (C × List (Mutation D)) :=
  (answers.filter fun a => a.user = user).map Answer.write

lemma answersTo_append [DecidableEq U] (user : U) (answers : List (Answer U C D))
    (a : Answer U C D) : answersTo user (answers ++ [a]) =
      answersTo user answers ++ if a.user = user then [a.write] else [] := by
  by_cases hu : a.user = user <;> simp [answersTo, hu]

namespace WriteExchange

def Waiting (callbacks : AList fun _ : ℤ => C) (queue : List (MutationBatch D))
    (waiting : List (C × List (Mutation D))) : Prop :=
  queue.map (fun b => (callbacks.lookup b.batchId, b.mutations)) =
    waiting.map fun write => (some write.1, write.2)

def Complete (log : List (List (Mutation D) × Verdict)) : Prop :=
  ∀ entry ∈ log, ∀ v results, entry.2 = .committed v results → results.length = entry.1.length

variable [DecidableEq U]

structure Sound (prompt : Prop) (answers : List (Answer U C D)) (x : WriteExchange U C D) :
    Prop where
  settled : x.engine.Settled prompt x.log (answers.map Answer.served)
  called : x.engine.called = answers.map Answer.call
  complete : Complete x.log
  issued : ∀ user, ∃ waiting,
    Waiting (x.engine.mutationCallbacks user) (x.engine.pending user) waiting ∧
      x.issued user = answersTo user answers ++ waiting
  registered : ∀ user id callback,
    (x.engine.mutationCallbacks user).lookup id = some callback →
      ∃ b ∈ x.engine.pending user, b.batchId = id
  decided : prompt → ∀ key,
    Decided (x.engine.pending ·) x.log (answers.map Answer.served) key

lemma start_sound (prompt : Prop) (user : U) :
    Sound prompt [] (start user : WriteExchange U C D) where
  settled := by
    refine ⟨⟨⟨MemoryPersistence.empty_consistent user, List.nil_prefix, Nat.zero_le _, fun _ =>
      ⟨rfl, rfl⟩, WriteStream.fresh_carries⟩, rfl, fun _ => rfl⟩, fun hh => ?_⟩
    cases hh
  called := rfl
  complete := fun _ h => absurd h List.not_mem_nil
  issued _ := ⟨[], rfl, rfl⟩
  registered _ _ _ h := by simp [start, SyncEngine.start] at h
  decided _ _ := Or.inr rfl

variable {prompt : Prop} {answers : List (Answer U C D)} {x : WriteExchange U C D}
  {engine : SyncEngine U C D} {log : List (List (Mutation D) × Verdict)}

lemma Sound.logged (h : x.Sound prompt answers)
    (hs : engine.Settled prompt log (answers.map Answer.served)) (hlog : Complete log)
    (hdecided : prompt → ∀ key,
      Decided (x.engine.pending ·) log (answers.map Answer.served) key)
    (hun : x.engine.Unanswered engine) : Sound prompt answers ⟨engine, x.issued, log⟩ where
  settled := hs
  called := hun.called.trans h.called
  complete := hlog
  issued user := by
    change ∃ waiting, Waiting (engine.mutationCallbacks user) (engine.pending user) waiting ∧ _
    rw [hun.callbacks, hun.pending]
    exact h.issued user
  registered user id callback hc := by
    change (engine.mutationCallbacks user).lookup id = _ at hc
    rw [hun.callbacks] at hc
    obtain ⟨b, hb, hid⟩ := h.registered user id callback hc
    exact ⟨b, hun.pending user ▸ hb, hid⟩
  decided hp key := by
    have hpending : (engine.pending ·) = (x.engine.pending ·) := funext hun.pending
    change Decided (engine.pending ·) log _ key
    rw [hpending]
    exact hdecided hp key

lemma Sound.unanswered (h : x.Sound prompt answers)
    (hs : engine.Settled prompt x.log (answers.map Answer.served))
    (hun : x.engine.Unanswered engine) : Sound prompt answers ⟨engine, x.issued, x.log⟩ :=
  h.logged hs h.complete h.decided hun

lemma Sound.answered (h : x.Sound prompt answers) {b : MutationBatch D} {verdict : Verdict}
    (hs : engine.Settled prompt log (answers.map Answer.served ++ [(b.mutations, verdict)]))
    (hlog : Complete log) (ha : x.engine.Answered b verdict.status engine)
    (hdecided : prompt → ∀ key, Decided (engine.pending ·) log
      (answers.map Answer.served ++ [(b.mutations, verdict)]) key) : ∃ answers',
      Sound prompt answers' ⟨engine, x.issued, log⟩ := by
  obtain ⟨waiting, hw, hissued⟩ := h.issued x.engine.persistence.user
  rw [Waiting, ha.pending, List.map_cons] at hw
  obtain ⟨⟨callback, mutations⟩, waiting, rfl, hfirst, hrest⟩ := List.map_eq_cons_iff.mp hw.symm
  obtain ⟨hcallback, rfl⟩ := Prod.mk.inj hfirst
  have hascends : ∀ b' ∈ engine.pending x.engine.persistence.user, b'.batchId ≠ b.batchId := by
    intro b' hb'
    have hasc := (h.settled.stores x.engine.persistence.user).indexed.ascends
    change Ascends _ (x.engine.pending x.engine.persistence.user) at hasc
    rw [ha.pending] at hasc
    exact ((List.pairwise_cons.mp hasc).1 b' hb').ne'
  have hcallbacks : engine.mutationCallbacks = Function.update x.engine.mutationCallbacks
      x.engine.persistence.user
      ((x.engine.mutationCallbacks x.engine.persistence.user).erase b.batchId) := by
    rw [ha.callbacks, SyncEngine.notifyUser, ← hcallback]
  refine ⟨answers ++ [⟨x.engine.persistence.user, callback, b.mutations, verdict⟩],
    by simpa [Answer.served] using hs, ?_, hlog, fun user => ?_, fun user id c hc => ?_,
    fun hp key => by simpa [Answer.served] using hdecided hp key⟩
  · change engine.called = _
    rw [ha.called, SyncEngine.notifyUser, ← hcallback]
    simp [h.called, Answer.call]
  · change ∃ waiting, Waiting (engine.mutationCallbacks user) (engine.pending user) waiting ∧
      x.issued user = _
    by_cases hu : user = x.engine.persistence.user
    · subst hu
      refine ⟨waiting, ?_, ?_⟩
      · rw [hcallbacks, Function.update_self, Waiting, hrest]
        refine List.map_congr_left fun b' hb' => ?_
        rw [AList.lookup_erase_ne (hascends b' hb')]
      · rw [hissued, answersTo_append, if_pos rfl]
        simp [Answer.write]
    · obtain ⟨waiting', hw', hissued'⟩ := h.issued user
      refine ⟨waiting', ?_, ?_⟩
      · rwa [hcallbacks, Function.update_of_ne hu, ha.others user hu]
      · rw [hissued', answersTo_append, if_neg (Ne.symm hu), List.append_nil]
  · change (engine.mutationCallbacks user).lookup id = _ at hc
    change ∃ b ∈ engine.pending user, b.batchId = id
    by_cases hu : user = x.engine.persistence.user
    · subst hu
      rw [hcallbacks, Function.update_self] at hc
      have hid : id ≠ b.batchId := by
        rintro rfl
        rw [AList.lookup_erase] at hc
        cases hc
      rw [AList.lookup_erase_ne hid] at hc
      obtain ⟨b', hb', rfl⟩ := h.registered _ _ _ hc
      rw [ha.pending] at hb'
      rcases List.mem_cons.mp hb' with rfl | hb'
      · exact absurd rfl hid
      · exact ⟨b', hb', rfl⟩
    · rw [hcallbacks, Function.update_of_ne hu] at hc
      rw [ha.others user hu]
      exact h.registered user id c hc

lemma Sound.write (h : x.Sound prompt answers) {b : MutationBatch D} {callback : C}
    (hs : engine.Settled prompt x.log (answers.map Answer.served))
    (hnew : ∀ b' ∈ x.engine.pending x.engine.persistence.user, b'.batchId ≠ b.batchId)
    (hpending : engine.pending x.engine.persistence.user =
      x.engine.pending x.engine.persistence.user ++ [b])
    (hothers : ∀ user, user ≠ x.engine.persistence.user →
      engine.pending user = x.engine.pending user)
    (hcallbacks : engine.mutationCallbacks = Function.update x.engine.mutationCallbacks
      x.engine.persistence.user
      ((x.engine.mutationCallbacks x.engine.persistence.user).insert b.batchId callback))
    (hcalled : engine.called = x.engine.called) :
    Sound prompt answers ⟨engine, Function.update x.issued x.engine.persistence.user
      (x.issued x.engine.persistence.user ++ [(callback, b.mutations)]), x.log⟩ where
  settled := hs
  called := hcalled.trans h.called
  complete := h.complete
  issued user := by
    change ∃ waiting, Waiting (engine.mutationCallbacks user) (engine.pending user) waiting ∧
      Function.update x.issued _ _ user = _
    obtain ⟨waiting, hw, hissued⟩ := h.issued user
    by_cases hu : user = x.engine.persistence.user
    · subst hu
      refine ⟨waiting ++ [(callback, b.mutations)], ?_, ?_⟩
      · rw [hcallbacks, Function.update_self, hpending, Waiting, List.map_append, List.map_append,
          ← hw]
        congr 1
        · refine List.map_congr_left fun b' hb' => ?_
          rw [AList.lookup_insert_ne (hnew b' hb')]
        · simp
      · rw [Function.update_self, hissued, List.append_assoc]
    · exact ⟨waiting, by rwa [hcallbacks, Function.update_of_ne hu, hothers user hu],
        by rwa [Function.update_of_ne hu]⟩
  registered user id c hc := by
    change (engine.mutationCallbacks user).lookup id = _ at hc
    change ∃ b ∈ engine.pending user, b.batchId = id
    by_cases hu : user = x.engine.persistence.user
    · subst hu
      rw [hpending]
      by_cases hid : id = b.batchId
      · exact ⟨b, by simp, hid.symm⟩
      · rw [hcallbacks, Function.update_self, AList.lookup_insert_ne hid] at hc
        obtain ⟨b', hb', hid'⟩ := h.registered _ _ _ hc
        exact ⟨b', List.mem_append_left _ hb', hid'⟩
    · rw [hcallbacks, Function.update_of_ne hu] at hc
      rw [hothers user hu]
      exact h.registered user id c hc
  decided hp key := by
    refine (h.decided hp key).write fun user b' hb' => ?_
    change b' ∈ engine.pending user
    by_cases hu : user = x.engine.persistence.user
    · subst hu
      rw [hpending]
      exact List.mem_append_left _ hb'
    · rwa [hothers user hu]

omit [DecidableEq U] in
lemma takeRequest_eq {request : WriteRequest D} {requests : List (WriteRequest D)}
    {responses : List WriteResponse}
    (hs : x.engine.writeStream.grpcStream = some ⟨request :: requests, responses⟩)
    (answer : List WriteResponse) (record : WriteRequest D → List (List (Mutation D) × Verdict)) :
    x.takeRequest answer record = { x with
      engine := { x.engine with writeStream := { x.engine.writeStream with
        grpcStream := some ⟨requests, responses ++ answer⟩ } }
      log := x.log ++ record request } := by
  simp only [takeRequest, hs]

lemma complete_served (hlog : Complete log) {request : WriteRequest D}
    {results : List SnapshotVersion} (ha : Answers results request) (v : SnapshotVersion) :
    Complete (log ++ served request v results) := by
  intro entry he v' results' hverdict
  rcases List.mem_append.mp he with he | he
  · exact hlog entry he v' results' hverdict
  · cases request with
    | handshake => cases he
    | write mutations =>
      obtain rfl := List.mem_singleton.mp he
      obtain ⟨rfl, rfl⟩ := Verdict.committed.inj hverdict
      exact ha

lemma Sound.serve (h : x.Sound prompt answers) {request : WriteRequest D}
    {requests : List (WriteRequest D)} {responses : List WriteResponse}
    (hs : x.engine.writeStream.grpcStream = some ⟨request :: requests, responses⟩)
    {results : List SnapshotVersion} (ha : Answers results request) (v : SnapshotVersion) :
    Sound prompt answers { x with
      engine := { x.engine with writeStream := { x.engine.writeStream with
        grpcStream := some ⟨requests, responses ++ [⟨v, results⟩]⟩ } }
      log := x.log ++ served request v results } := by
  have hc := WriteStream.serve_carries h.settled.stream hs ⟨v, results⟩
  refine h.logged ?_ (complete_served h.complete ha v) (fun hp key => ?_) ⟨fun _ => rfl, rfl, rfl⟩
  · exact ⟨⟨⟨h.settled.stores, h.settled.front, h.settled.bounded, h.settled.offline, hc⟩,
      h.settled.running, h.settled.full⟩, h.settled.shaken⟩
  · cases request with
    | handshake =>
      rw [served, List.append_nil]
      exact h.decided hp key
    | write mutations =>
      obtain ⟨b, hb, rfl⟩ := h.settled.stream.request_mem hs
      exact (h.decided hp key).serve (h.settled.front.subset hb) _

lemma Sound.accept (h : x.Sound prompt answers) {requests : List (WriteRequest D)}
    {response : WriteResponse} {responses : List WriteResponse}
    (hs : x.engine.writeStream.grpcStream = some ⟨requests, response :: responses⟩)
    (hh : x.engine.writeStream.handshakeComplete = true) {b : MutationBatch D}
    (ha : x.engine.Answered b none engine) (hp : prompt) (key : ResourcePath) :
    Decided (engine.pending ·) x.log
      (answers.map Answer.served ++ [(b.mutations, response.verdict)]) key := by
  obtain ⟨_, _, hline⟩ := h.settled.stream.line _ hs hh
  obtain ⟨mutations, rest', old, since, hpipeline, hlog, hsince⟩ := hline.served_since hp
  obtain ⟨b', rest, hwrite, rfl, rfl⟩ := List.map_eq_cons_iff.mp hpipeline
  have hfront := h.settled.front
  change _ <+: x.engine.pending x.engine.persistence.user at hfront
  rw [hwrite, ha.pending, List.cons_prefix_cons] at hfront
  obtain ⟨rfl, hrest⟩ := hfront
  refine (h.decided hp key).accept ha.pending ha.others rfl hlog fun entry he => ?_
  obtain ⟨b₁, hb₁, hmutations⟩ := List.mem_map.mp (hsince entry he)
  exact ⟨b₁, hrest.subset hb₁, hmutations⟩

variable [Inhabited D]

def Event.late : Event U C D → Bool
  | .serveAbandoned .. => true
  | _ => false

lemma handle_sound (h : x.Sound prompt answers) {e : Event U C D} (he : x.Enabled e)
    (hprompt : prompt → ¬ e.late) :
    ∃ x' answers', x.handle e = .ok x' ∧ x'.Sound prompt answers' := by
  cases e with
  | write mutations callback =>
    have hids := fun b hb => ((h.settled.stores x.engine.persistence.user).indexed.bounds
      (b := b) hb).2
    obtain ⟨b, s', hs, h', rfl, hid, hpending, hothers, hcallbacks, hcalled⟩ :=
      SyncEngine.write_eq h.settled he.1 he.2 callback (by
        by_contra hne
        obtain ⟨c, hc⟩ := Option.ne_none_iff_exists'.mp hne
        obtain ⟨b, hb, hid⟩ := h.registered _ _ _ hc
        exact (hids b hb).ne hid)
    refine ⟨_, answers, ?_, h.write h' (fun b' hb' => ?_) hpending hothers hcallbacks hcalled⟩
    · simp only [handle, hs, bind, Except.bind]
    · rw [hid]
      exact (hids b' hb').ne
  | credentials request auth =>
    obtain ⟨s', hs, h', hun⟩ := SyncEngine.credentials_eq h.settled he auth
    exact ⟨_, answers, by simp only [handle, hs, bind, Except.bind],
      h.unanswered h' hun⟩
  | serve commitVersion results =>
    obtain ⟨⟨requests, responses⟩, hstream, request, hrequest, ha⟩ := he
    obtain ⟨requests, rfl⟩ := List.head?_eq_some_iff.mp hrequest
    exact ⟨_, answers, congrArg Except.ok (takeRequest_eq hstream _ _),
      h.serve hstream ha commitVersion⟩
  | serveAbandoned i commitVersion results =>
    obtain ⟨request, hrequest, ha⟩ := he
    have hi : x.engine.writeStream.abandoned[i]? = some request := hrequest
    have hnot : ¬ prompt := fun hp => hprompt hp rfl
    have hc := h.settled.stream.mono (List.sublist_append_left x.log
      (served request commitVersion results)) hnot
    refine ⟨_, answers, by simp only [handle, hi], h.logged ?_
      (complete_served h.complete ha commitVersion) (fun hp => absurd hp hnot)
      ⟨fun _ => rfl, rfl, rfl⟩⟩
    exact ⟨⟨⟨h.settled.stores, h.settled.front, h.settled.bounded, h.settled.offline, hc⟩,
      h.settled.running, h.settled.full⟩, h.settled.shaken⟩
  | read =>
    obtain ⟨⟨requests, responses⟩, hstream, hne⟩ := he
    obtain ⟨response, responses, rfl⟩ := List.exists_cons_of_ne_nil hne
    have hs : x.engine.writeStream.grpcStream = some ⟨requests, response :: responses⟩ := hstream
    cases hh : x.engine.writeStream.handshakeComplete with
    | false =>
      obtain ⟨w, hread, h', _⟩ := SyncEngine.handshake_eq h.settled hs hh
      exact ⟨_, answers, by simp only [handle, hs, hread, bind, Except.bind],
        h.unanswered h' ⟨fun _ => rfl, rfl, rfl⟩⟩
    | true =>
      obtain ⟨b, s', hread, h', ha⟩ := SyncEngine.receive_eq h.settled hs hh h.complete
      obtain ⟨answers', hsound⟩ := h.answered h' h.complete ha fun hp key =>
        h.accept hs hh ha hp key
      exact ⟨_, answers', by simp only [handle, hs, hread, bind, Except.bind], hsound⟩
  | refuse error =>
    obtain ⟨hperm, ⟨requests, responses⟩, hstream, hnone, request, hrequest, hne⟩ := he
    obtain ⟨requests, rfl⟩ := List.head?_eq_some_iff.mp hrequest
    obtain rfl : responses = [] := hnone
    obtain ⟨hh, b, rest, hp, rfl⟩ := WriteStream.refuse_carries h.settled.stream hstream hne
    obtain ⟨s', hs, h', ha⟩ := SyncEngine.refuse_eq h.settled
      (WriteStream.started_of_stream h.settled.stream hstream) hh hp hperm
      (some ⟨requests, []⟩)
    have hcomplete : Complete (x.log ++ [(b.mutations, Verdict.refused error)]) := by
      intro entry he v results hverdict
      rcases List.mem_append.mp he with he | he
      · exact h.complete entry he v results hverdict
      · obtain rfl := List.mem_singleton.mp he
        cases hverdict
    obtain ⟨answers', hsound⟩ := h.answered h' hcomplete ha fun hp key =>
      (h.decided hp key).refuse ha.pending ha.others error
    refine ⟨_, answers', ?_, hsound⟩
    simp only [handle, takeRequest_eq hstream, List.append_nil, hs, bind, Except.bind]
    rfl
  | finish status =>
    obtain ⟨⟨requests, responses⟩, hstream, hends⟩ := he
    obtain ⟨s', hs, h', hun⟩ : ∃ s', x.engine.close status = .ok s' ∧
        s'.Settled prompt x.log (answers.map Answer.served) ∧ x.engine.Unanswered s' := by
      cases status with
      | none => exact SyncEngine.idle_eq h.settled hends
      | some error =>
        refine SyncEngine.fail_eq h.settled
          (WriteStream.started_of_stream h.settled.stream hstream) h.settled.stream.requested ?_
        refine hends.imp_right fun hno => or_iff_not_imp_left.mpr fun hh => ?_
        obtain ⟨rfl, rfl⟩ := hno.resolve_left hh
        exact h.settled.stream.drained hstream (Bool.eq_true_of_not_eq_false hh)
    exact ⟨_, answers, by simp only [handle, hs, bind, Except.bind],
      h.unanswered h' hun⟩
  | backoffElapsed =>
    obtain ⟨w, hw, h', _⟩ := SyncEngine.backoff_eq h.settled he
    exact ⟨_, answers, by simp only [handle, hw, bind, Except.bind],
      h.unanswered h' ⟨fun _ => rfl, rfl, rfl⟩⟩
  | idle =>
    obtain ⟨s', hs, h', hun⟩ := SyncEngine.idle_eq h.settled (h.settled.stream.idle he).1
    exact ⟨_, answers, by simp only [handle, hs, bind, Except.bind],
      h.unanswered h' hun⟩
  | enableNetwork =>
    obtain ⟨s', hs, h', hun⟩ := SyncEngine.enableNetwork_eq h.settled.toLinked h.settled.shaken
    exact ⟨_, answers, by simp only [handle, hs, bind, Except.bind],
      h.unanswered h' hun⟩
  | disableNetwork =>
    obtain ⟨s', hs, h', hun⟩ := SyncEngine.disableNetwork_eq h.settled
    exact ⟨_, answers, by simp only [handle, hs, bind, Except.bind],
      h.unanswered h' hun⟩
  | connectivityChange =>
    obtain ⟨s', hs, h', hun⟩ := SyncEngine.connectivity_eq h.settled
    refine ⟨⟨s', x.issued, x.log⟩, answers, ?_, h.unanswered h' hun⟩
    by_cases hn : x.engine.canUseNetwork = true
    · rw [if_pos hn] at hs
      simp only [handle, hn, if_true, hs, bind, Except.bind]
    · rw [if_neg hn] at hs
      obtain rfl := Except.ok.inj hs
      simp only [handle, hn, Bool.false_eq_true, if_false, bind, Except.bind]
  | credentialChange user =>
    obtain ⟨s', hs, h', hun⟩ := SyncEngine.user_eq h.settled user
    exact ⟨_, answers, by simp only [handle, hs, bind, Except.bind],
      h.unanswered h' hun⟩
  | remoteEvent updates snapshotVersion =>
    obtain ⟨p, changes, hp, h', hun⟩ := SyncEngine.remoteEvent_eq h.settled he.1 he.2 updates
    exact ⟨_, answers, by simp only [handle, hp, bind, Except.bind],
      h.unanswered h' hun⟩
  | remove key =>
    obtain ⟨p, changes, hp, h', hun⟩ := SyncEngine.remove_eq h.settled key
    exact ⟨_, answers, by simp only [handle, hp, bind, Except.bind],
      h.unanswered h' hun⟩

lemma step_sound [DecidableEq D] {x' : WriteExchange U C D} {e : Event U C D}
    (hprompt : prompt → ¬ e.late) (h : ∃ answers, x.Sound prompt answers)
    (hs : x.step e = some x') : ∃ answers, x'.Sound prompt answers := by
  obtain ⟨answers, h⟩ := h
  unfold step at hs
  split at hs
  · rename_i he
    obtain ⟨x₁, answers', hx, h'⟩ := handle_sound h he hprompt
    rw [hx] at hs
    exact ⟨answers', Option.some.inj hs ▸ h'⟩
  · cases hs

lemma always_sound [DecidableEq D] {Q : WriteExchange U C D → Prop}
    (law : ∀ (x : WriteExchange U C D) answers, x.Sound False answers → Q x) (user : U)
    (es : List (Event U C D)) : Always step Q (start user) es :=
  always_of_invariant (I := fun x => ∃ answers, x.Sound False answers)
    (fun x ⟨answers, h⟩ => law x answers h) (fun _ _ _ h hs => step_sound False.elim h hs)
    ⟨[], start_sound False user⟩

/-- Every event that may come is handled. The device takes a stream that ends with the status OK for
one that it has stopped itself, which fails an assertion just when a write waits for its answer. -/
structure Handles (x : WriteExchange U C D) : Prop where
  enabled : ∀ e, x.Enabled e → ∃ x', x.handle e = .ok x'
  completed : x.engine.writeStream.grpcStream.isSome → x.engine.writePipeline ≠ [] →
    x.handle (.finish none) =
      .error (.hardAssert "Write stream was stopped gracefully while still needed.")

lemma Sound.finish_halts (h : x.Sound prompt answers) {stream : GrpcStream D}
    (hs : x.engine.writeStream.grpcStream = some stream) (hp : x.engine.writePipeline ≠ []) :
    x.handle (.finish none) =
      .error (.hardAssert "Write stream was stopped gracefully while still needed.") := by
  have hstarted := WriteStream.started_of_stream h.settled.stream hs
  have hon : x.engine.isNetworkEnabled = true := by
    by_contra hn
    exact hp (h.settled.offline (Bool.eq_false_of_not_eq_true hn)).1
  have hneeded : ({ x.engine with writeStream := x.engine.writeStream.tearDown none } :
      SyncEngine U C D).shouldStartWriteStream = true := by
    simp [SyncEngine.shouldStartWriteStream, SyncEngine.canUseNetwork, hon, hp,
      WriteStream.tearDown_stopped]
  simp [handle, SyncEngine.close, hstarted, hardAssert, SyncEngine.onWriteStreamClose, hneeded,
    bind, Except.bind]

/-- In every run, however the streams break and the users change, no assertion of the streams, the
pipeline and the local store fails, as long as the server ends no stream with the status OK on which
a write waits for its answer. -/
theorem exchange_never_halts [DecidableEq D] (user : U) (es : List (Event U C D)) :
    Always step Handles (start user) es := by
  refine always_sound (fun x answers h => ⟨fun e he => ?_, fun hs hp => ?_⟩) user es
  · obtain ⟨x', _, hx, _⟩ := handle_sound h he False.elim
    exact ⟨x', hx⟩
  · obtain ⟨stream, hs⟩ := Option.isSome_iff_exists.mp hs
    exact h.finish_halts hs hp

end WriteExchange

end MobileApps.Firestore

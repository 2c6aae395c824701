import MobileApps.Firestore.WriteRuns

/-! No write is stuck: with the network on, the server can always answer what is in the queue. -/

namespace MobileApps.Firestore.WriteExchange

open Library.Runs

variable {U C D : Type}

def Event.Serves : Event U C D → Prop
  | .backoffElapsed | .credentials _ none | .serve .. | .read => True
  | _ => False

variable [DecidableEq U] [DecidableEq D] [Inhabited D]

def Reaches (x y : WriteExchange U C D) : Prop :=
  ∃ fs : List (Event U C D), (∀ e ∈ fs, e.Serves) ∧ run step x fs = some y

lemma Reaches.refl (x : WriteExchange U C D) : x.Reaches x := ⟨[], by simp, rfl⟩

lemma Reaches.trans {x y z : WriteExchange U C D} (h : x.Reaches y) (h' : y.Reaches z) :
    x.Reaches z := by
  obtain ⟨fs, hfs, hrun⟩ := h
  obtain ⟨fs', hfs', hrun'⟩ := h'
  refine ⟨fs ++ fs', fun e he => ?_, run_append.mpr ⟨y, hrun, hrun'⟩⟩
  exact (List.mem_append.mp he).elim (hfs e) (hfs' e)

lemma reaches_of_handle {x y : WriteExchange U C D} {e : Event U C D} (hs : e.Serves)
    (he : x.Enabled e) (hx : x.handle e = .ok y) : x.Reaches y := by
  refine ⟨[e], by simpa using hs, run_cons.mpr ⟨y, ?_, rfl⟩⟩
  rw [step, if_pos he, hx]
  rfl

structure Advanced (answers : List (Answer U C D)) (x y : WriteExchange U C D) : Prop where
  reaches : x.Reaches y
  sound : y.Sound False answers
  persistence : y.engine.persistence = x.engine.persistence
  pipeline : y.engine.writePipeline = x.engine.writePipeline
  network : y.engine.isNetworkEnabled = x.engine.isNetworkEnabled

variable {answers : List (Answer U C D)} {x y z : WriteExchange U C D}

lemma Advanced.refl (h : x.Sound False answers) : Advanced answers x x :=
  ⟨.refl x, h, rfl, rfl, rfl⟩

lemma Advanced.trans (h : Advanced answers x y) (h' : Advanced answers y z) :
    Advanced answers x z where
  reaches := h.reaches.trans h'.reaches
  sound := h'.sound
  persistence := h'.persistence.trans h.persistence
  pipeline := h'.pipeline.trans h.pipeline
  network := h'.network.trans h.network

lemma elapse (h : x.Sound False answers) (hb : x.engine.writeStream.state = .backoff) :
    ∃ y, Advanced answers x y ∧ y.engine.writeStream.state = .starting := by
  have ht := h.settled.stream.timer.mpr hb
  obtain ⟨w, hw, h', hs⟩ := SyncEngine.backoff_eq h.settled ht
  refine ⟨{ x with engine := { x.engine with writeStream := w } },
    ⟨reaches_of_handle (e := .backoffElapsed) trivial ht ?_,
      h.unanswered h' ⟨fun _ => rfl, rfl, rfl⟩, rfl, rfl, rfl⟩, hs⟩
  simp only [handle, hw, bind, Except.bind]

lemma open_stream (h : x.Sound False answers) (hs : x.engine.writeStream.state = .starting) :
    ∃ y, Advanced answers x y ∧ y.engine.writeStream.state = .opened := by
  obtain ⟨w, hw, h', ho⟩ := SyncEngine.open_eq h.settled hs
  refine ⟨{ x with engine := { x.engine with writeStream := w } },
    ⟨reaches_of_handle (e := .credentials x.engine.writeStream.closeCount none) trivial
      (h.settled.stream.starting.mpr hs) ?_,
      h.unanswered h' ⟨fun _ => rfl, rfl, rfl⟩, rfl, rfl, rfl⟩, ho⟩
  simp only [handle, hw, bind, Except.bind]

lemma serve_first (h : x.Sound False answers) {request : WriteRequest D}
    {requests : List (WriteRequest D)} {responses : List WriteResponse}
    (hs : x.engine.writeStream.grpcStream = some ⟨request :: requests, responses⟩) :
    ∃ y response, Advanced answers x y ∧
      y.engine.writeStream.handshakeComplete = x.engine.writeStream.handshakeComplete ∧
      y.engine.writeStream.grpcStream = some ⟨requests, responses ++ [response]⟩ := by
  obtain ⟨results, ha⟩ : ∃ results, Answers results request := by
    cases request with
    | handshake => exact ⟨[], trivial⟩
    | write mutations =>
      exact ⟨List.replicate mutations.length .none, List.length_replicate⟩
  refine ⟨_, ⟨.none, results⟩, ⟨reaches_of_handle (e := .serve .none results) trivial
    ⟨_, hs, request, rfl, ha⟩ (congrArg Except.ok (takeRequest_eq hs _ _)),
    h.serve hs ha .none, rfl, rfl, rfl⟩, rfl, rfl⟩

lemma greet (h : x.Sound False answers) (ho : x.engine.writeStream.state = .opened) :
    ∃ y, Advanced answers x y ∧ y.engine.writeStream.handshakeComplete = true := by
  cases hh : x.engine.writeStream.handshakeComplete with
  | true => exact ⟨x, .refl h, hh⟩
  | false =>
    obtain ⟨stream, hs⟩ := Option.isSome_iff_exists.mp (h.settled.stream.channel.mpr ho)
    have hanswered : ∃ y response, Advanced answers x y ∧
        y.engine.writeStream.handshakeComplete = false ∧
        y.engine.writeStream.grpcStream = some ⟨[], [response]⟩ := by
      rcases h.settled.stream.shaking stream hs hh with rfl | ⟨response, rfl⟩
      · obtain ⟨y, response, hy, hh', hs'⟩ := serve_first h hs
        exact ⟨y, response, hy, hh'.trans hh, hs'⟩
      · exact ⟨x, response, .refl h, hh, hs⟩
    obtain ⟨y, response, hy, hh', hs'⟩ := hanswered
    obtain ⟨w, hread, h', hw⟩ := SyncEngine.handshake_eq hy.sound.settled hs' hh'
    refine ⟨{ y with engine := { y.engine with writeStream := w } }, hy.trans
      ⟨reaches_of_handle (e := .read) trivial ⟨_, hs', by simp⟩ ?_,
        hy.sound.unanswered h' ⟨fun _ => rfl, rfl, rfl⟩, rfl, rfl, rfl⟩, hw⟩
    simp only [handle, hs', hread, bind, Except.bind]

lemma get_ready (h : x.Sound False answers) (hs : x.engine.writeStream.isStarted = true) :
    ∃ y, Advanced answers x y ∧ y.engine.writeStream.handshakeComplete = true := by
  have hopened : ∃ y, Advanced answers x y ∧ y.engine.writeStream.state = .opened := by
    cases hst : x.engine.writeStream.state with
    | initial => simp [WriteStream.isStarted, WriteStream.isOpen, hst] at hs
    | error => simp [WriteStream.isStarted, WriteStream.isOpen, hst] at hs
    | opened => exact ⟨x, .refl h, hst⟩
    | starting => exact open_stream h hst
    | backoff =>
      obtain ⟨y, hy, hsy⟩ := elapse h hst
      obtain ⟨z, hz, hoz⟩ := open_stream hy.sound hsy
      exact ⟨z, hy.trans hz, hoz⟩
  obtain ⟨y, hy, ho⟩ := hopened
  obtain ⟨z, hz, hh⟩ := greet hy.sound ho
  exact ⟨z, hy.trans hz, hh⟩

lemma answer_first (h : x.Sound False answers) (hn : x.engine.isNetworkEnabled = true)
    (hne : x.engine.pending x.engine.persistence.user ≠ []) : ∃ y answers', x.Reaches y ∧
      y.Sound False answers' ∧ y.engine.isNetworkEnabled = true ∧
      y.engine.persistence.user = x.engine.persistence.user ∧
      ∃ b, x.engine.pending x.engine.persistence.user =
        b :: y.engine.pending x.engine.persistence.user := by
  have hp : x.engine.writePipeline ≠ [] := by
    have hqueue : x.engine.persistence.localStore.mutationQueue.queue ≠ [] := hne
    rw [h.settled.full hn]
    simpa [kMaxPendingWrites] using hqueue
  have hstarted : x.engine.writeStream.isStarted = true := by
    simpa [SyncEngine.shouldStartWriteStream, SyncEngine.canUseNetwork, hn, hp] using
      h.settled.running
  obtain ⟨y, hy, hh⟩ := get_ready h hstarted
  have ho := hy.sound.settled.shaken hh
  obtain ⟨⟨requests, responses⟩, hs⟩ :=
    Option.isSome_iff_exists.mp (hy.sound.settled.stream.channel.mpr ho)
  have hanswered : ∃ z requests response responses, Advanced answers y z ∧
      z.engine.writeStream.handshakeComplete = true ∧
      z.engine.writeStream.grpcStream = some ⟨requests, response :: responses⟩ := by
    cases responses with
    | cons response responses => exact ⟨y, requests, response, responses, .refl hy.sound, hh, hs⟩
    | nil =>
      cases requests with
      | nil => exact absurd (hy.pipeline ▸ hy.sound.settled.stream.drained hs hh) hp
      | cons request requests =>
        obtain ⟨z, response, hz, hhz, hsz⟩ := serve_first hy.sound hs
        exact ⟨z, requests, response, [], hz, hhz.trans hh, hsz⟩
  obtain ⟨z, requests, response, responses, hz, hhz, hsz⟩ := hanswered
  obtain ⟨b, s', hread, h', ha⟩ :=
    SyncEngine.receive_eq hz.sound.settled hsz hhz hz.sound.complete
  obtain ⟨answers', hsound⟩ := hz.sound.answered h' hz.sound.complete ha False.elim
  have hxz := hy.trans hz
  have huser : z.engine.persistence.user = x.engine.persistence.user := by rw [hxz.persistence]
  refine ⟨_, answers', hxz.reaches.trans (reaches_of_handle (e := .read) trivial
    ⟨_, hsz, by simp⟩ ?_), hsound, ha.network.trans (hxz.network.trans hn), ha.user.trans huser, b,
    ?_⟩
  · simp only [handle, hsz, hread, bind, Except.bind]
  · have hpending := ha.pending
    rw [SyncEngine.pending, hxz.persistence] at hpending
    exact hpending

lemma drain (h : x.Sound False answers) (hn : x.engine.isNetworkEnabled = true) : ∃ y, x.Reaches y ∧
    y.engine.persistence.user = x.engine.persistence.user ∧
    y.engine.pending x.engine.persistence.user = [] := by
  induction hq : x.engine.pending x.engine.persistence.user generalizing x answers with
  | nil => exact ⟨x, .refl x, rfl, hq⟩
  | cons b rest ih =>
    obtain ⟨y, answers', hy, hsound, hny, huser, b', hb⟩ :=
      answer_first h hn (by simp [hq])
    rw [hq] at hb
    obtain ⟨z, hz, huz, hempty⟩ := ih hsound hny (by rw [huser, (List.cons.inj hb).2])
    exact ⟨z, hy.trans hz, huz.trans huser, huser ▸ hempty⟩

/-- In every state of every run with the network on, whatever streams broke before, the server can
still answer all the writes of the user, without any step of the app. -/
theorem writes_never_stuck (user : U) (es : List (Event U C D)) :
    Always step (fun x => x.engine.isNetworkEnabled = true → ∃ fs y,
      (∀ e ∈ fs, e.Serves) ∧ run step x fs = some y ∧
      y.engine.persistence.user = x.engine.persistence.user ∧
      y.engine.pending x.engine.persistence.user = []) (start user) es := by
  refine always_sound (fun x answers h hn => ?_) user es
  obtain ⟨y, ⟨fs, hfs, hrun⟩, huser, hempty⟩ := drain h hn
  exact ⟨fs, y, hfs, hrun, huser, hempty⟩

end MobileApps.Firestore.WriteExchange

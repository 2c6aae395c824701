import MobileApps.Firestore.WriteExchange

/-! What is on the stream, in either direction, is for the batches of the pipeline in their
order. -/

namespace MobileApps.Firestore

open Library.Pipelining

variable {U C D : Type}

def WriteResponse.verdict (r : WriteResponse) : Verdict :=
  .committed r.commitVersion r.mutationResults

namespace WriteStream

structure Carries (prompt : Prop) (pipeline : List (MutationBatch D))
    (log answered : List (List (Mutation D) × Verdict)) (w : WriteStream D) : Prop where
  channel : w.grpcStream.isSome = true ↔ w.state = .opened
  timer : w.backoffTimer = true ↔ w.state = .backoff
  requested : w.credentials.Nodup ∧ ∀ n ∈ w.credentials, n ≤ w.closeCount
  starting : w.closeCount ∈ w.credentials ↔ w.state = .starting
  idle : w.idlenessTimer = true → pipeline = [] ∧ w.state = .opened
  needed : w.isStarted = true → (w.state = .opened → w.handshakeComplete = false) → pipeline ≠ []
  shaking : ∀ stream, w.grpcStream = some stream → w.handshakeComplete = false →
    stream = ⟨[.handshake], []⟩ ∨ ∃ response, stream = ⟨[], [response]⟩
  line : ∀ stream, w.grpcStream = some stream → w.handshakeComplete = true →
    ∃ requests, stream.requests = requests.map .write ∧
      Correlated prompt (pipeline.map MutationBatch.mutations) requests
        (stream.responses.map WriteResponse.verdict) log answered
  recorded : answered.Sublist log

variable {prompt : Prop} {pipeline : List (MutationBatch D)}
  {log answered : List (List (Mutation D) × Verdict)}
  {w : WriteStream D}

lemma closed_carries (hg : w.grpcStream = none) (ho : w.state ≠ .opened)
    (hidle : w.idlenessTimer = false) (timer : w.backoffTimer = true ↔ w.state = .backoff)
    (requested : w.credentials.Nodup ∧ ∀ n ∈ w.credentials, n ≤ w.closeCount)
    (starting : w.closeCount ∈ w.credentials ↔ w.state = .starting)
    (needed : w.isStarted = true → pipeline ≠ []) (recorded : answered.Sublist log) :
    w.Carries prompt pipeline log answered where
  channel := by simp [hg, ho]
  timer := timer
  requested := requested
  starting := starting
  idle := by simp [hidle]
  needed hs _ := needed hs
  shaking := by simp [hg]
  line := by simp [hg]
  recorded := recorded

lemma fresh_carries : (fresh : WriteStream D).Carries prompt pipeline log [] := by
  apply closed_carries <;> simp [fresh, isStarted, isOpen]

lemma stopped_iff : w.isStarted = false ↔ w.state = .initial ∨ w.state = .error := by
  cases hs : w.state <;> simp [isStarted, isOpen, hs]

lemma ne_of_stopped (hs : w.isStarted = false) :
    w.state ≠ .opened ∧ w.state ≠ .backoff ∧ w.state ≠ .starting := by
  rcases stopped_iff.mp hs with hi | he <;> simp [*]

namespace Carries

lemma mono (h : w.Carries prompt pipeline log answered) {log' : List (List (Mutation D) × Verdict)}
    (hl : log.Sublist log') (hp : ¬ prompt) : w.Carries prompt pipeline log' answered where
  __ := h
  line stream hs hh := by
    obtain ⟨requests, hrequests, hline⟩ := h.line stream hs hh
    exact ⟨requests, hrequests, hline.mono hl hp⟩
  recorded := h.recorded.trans hl

lemma closed (h : w.Carries prompt pipeline log answered) (ho : w.state ≠ .opened) :
    w.grpcStream = none := by
  simpa using mt h.channel.mp ho

lemma not_idle (h : w.Carries prompt pipeline log answered) (ho : w.state ≠ .opened) :
    w.idlenessTimer = false := by
  by_contra hi
  exact ho (h.idle (Bool.eq_true_of_not_eq_false hi)).2

lemma not_timer (h : w.Carries prompt pipeline log answered) (hb : w.state ≠ .backoff) :
    w.backoffTimer = false := by
  by_contra ht
  exact hb (h.timer.mp (Bool.eq_true_of_not_eq_false ht))

end Carries

lemma stopped_carries (h : w.Carries prompt pipeline log answered) (hs : w.isStarted = false)
    (pipeline' : List (MutationBatch D)) : w.Carries prompt pipeline' log answered := by
  have ho := (ne_of_stopped hs).1
  exact closed_carries (h.closed ho) ho (h.not_idle ho) h.timer h.requested h.starting
    (by simp [hs]) h.recorded

lemma tearDown_stopped (status : Status) (w : WriteStream D) :
    (w.tearDown status).isStarted = false := by
  by_cases hs : status = none <;> simp [tearDown, isStarted, isOpen, hs]

lemma tearDown_carries (h : w.credentials.Nodup ∧ ∀ n ∈ w.credentials, n ≤ w.closeCount)
    (hr : answered.Sublist log) (status : Status) (pipeline : List (MutationBatch D)) :
    (w.tearDown status).Carries prompt pipeline log answered := by
  have hs := w.tearDown_stopped status
  obtain ⟨ho, hb, hst⟩ := ne_of_stopped hs
  refine closed_carries rfl ho rfl (iff_of_false (by simp [tearDown]) hb)
    ⟨h.1, fun n hn => (h.2 n hn).trans (Nat.le_succ _)⟩ (iff_of_false (fun hm => ?_) hst)
    (by simp [hs]) hr
  -- every request is from before the end of the stream
  exact absurd (h.2 _ hm) (Nat.not_succ_le_self _)

lemma reset_carries (h : w.Carries prompt pipeline log answered) (ho : w.state ≠ .opened) :
    ({ w with handshakeComplete := false } : WriteStream D).Carries prompt pipeline log answered :=
  closed_carries (h.closed ho) ho (h.not_idle ho) h.timer h.requested h.starting
    (fun hs => h.needed hs fun he => absurd he ho) h.recorded

lemma start_eq (h : w.Carries prompt pipeline log answered) (hs : w.isStarted = false)
    (hp : pipeline ≠ []) : ∃ w', w.start = .ok w' ∧ w'.Carries prompt pipeline log answered ∧
      w'.isStarted = true ∧ w'.state ≠ .opened ∧
      w'.handshakeComplete = w.handshakeComplete ∧ (w.state = .initial → w'.state = .starting) := by
  obtain ⟨ho, hb, hst⟩ := ne_of_stopped hs
  have hfresh : w.closeCount ∉ w.credentials := mt h.starting.mp hst
  rcases stopped_iff.mp hs with hi | he
  · refine ⟨{ w with state := .starting, credentials := w.credentials ++ [w.closeCount] },
      ?_, closed_carries (h.closed ho) (by simp) (h.not_idle ho) (by simp [h.not_timer hb])
        ⟨?_, fun n hn => ?_⟩ (by simp) (fun _ => hp) h.recorded, rfl, by simp, rfl, fun _ => rfl⟩
    · simp only [start, hi, bind, Except.bind, reduceCtorEq, if_false]
      rfl
    · refine List.nodup_append.mpr ⟨h.requested.1, List.nodup_singleton _, fun a ha b hb => ?_⟩
      rintro rfl
      exact hfresh (List.mem_singleton.mp hb ▸ ha)
    · rcases List.mem_append.mp hn with hn | hn
      · exact h.requested.2 n hn
      · exact (List.mem_singleton.mp hn).le
  · exact ⟨{ w with state := .backoff, backoffTimer := true }, if_pos he,
      closed_carries (h.closed ho) (by simp) (h.not_idle ho) (by simp) h.requested
        (by simp [hfresh]) (fun _ => hp) h.recorded, rfl, by simp, rfl, by simp [he]⟩

lemma inhibitBackoff_eq (h : w.Carries prompt pipeline log answered) (hs : w.isStarted = false) :
    ∃ w', w.inhibitBackoff = .ok w' ∧ w'.Carries prompt pipeline log answered ∧
      w'.isStarted = false ∧ w'.handshakeComplete = w.handshakeComplete := by
  obtain ⟨ho, hb, hst⟩ := ne_of_stopped hs
  have hassert : hardAssert (¬ w.isStarted) "Can only cancel backoff in a stopped state" =
      .ok () := if_pos (by simp [hs])
  refine ⟨{ w with state := .initial }, ?_, closed_carries (h.closed ho) (by simp) (h.not_idle ho)
    (by simp [h.not_timer hb]) h.requested (by simp [mt h.starting.mp hst])
    (by simp [isStarted, isOpen]) h.recorded, rfl, rfl⟩
  simp only [inhibitBackoff, hassert, bind, Except.bind]

lemma backoffElapsed_eq (h : w.Carries prompt pipeline log answered) (ht : w.backoffTimer = true) :
    ∃ w', w.backoffElapsed = .ok w' ∧ w'.Carries prompt pipeline log answered ∧
      w'.state = .starting ∧ w'.handshakeComplete = w.handshakeComplete := by
  have hb := h.timer.mp ht
  have ho : w.state ≠ .opened := by simp [hb]
  have hassert : hardAssert (w.state = .backoff) "Backoff elapsed but the state is another" =
      .ok () := if_pos hb
  have hready : ({ w with state := .initial, backoffTimer := false } : WriteStream D).Carries prompt
      pipeline log answered :=
    closed_carries (h.closed ho) (by simp) (h.not_idle ho) (by simp) h.requested
      (by simp [mt h.starting.mp, hb]) (by simp [isStarted, isOpen]) h.recorded
  obtain ⟨w', hw, hc, hs, _, hh, hst⟩ := start_eq hready rfl
    (h.needed (by simp [isStarted, hb]) fun he => absurd he ho)
  refine ⟨w', ?_, hc, hst rfl, hh⟩
  simp only [backoffElapsed, hassert, hw, hs, bind, Except.bind]
  rfl

lemma markIdle_carries (h : w.Carries prompt [] log answered) :
    w.markIdle.Carries prompt [] log answered := by
  unfold markIdle
  split
  · rename_i ho
    have hopen : w.state = .opened := by simpa [isOpen] using (Bool.and_eq_true_iff.mp ho).1
    exact ⟨h.channel, h.timer, h.requested, h.starting, fun _ => ⟨rfl, hopen⟩, h.needed,
      h.shaking, h.line, h.recorded⟩
  · exact h

lemma markIdle_frame (w : WriteStream D) : w.markIdle.state = w.state ∧
    w.markIdle.handshakeComplete = w.handshakeComplete := by
  unfold markIdle
  split <;> exact ⟨rfl, rfl⟩

lemma writeMutations_eq (h : w.Carries prompt pipeline log answered) (ho : w.state = .opened)
    (hh : w.handshakeComplete = true) (b : MutationBatch D) : ∃ w',
      w.writeMutations b.mutations = .ok w' ∧ w'.Carries prompt (pipeline ++ [b]) log answered ∧
      w'.state = .opened ∧ w'.handshakeComplete = true := by
  obtain ⟨stream, hstream⟩ := Option.isSome_iff_exists.mp (h.channel.mpr ho)
  have hopen : w.isOpen = true := by simp [isOpen, ho]
  obtain ⟨requests, hrequests, hline⟩ := h.line stream hstream hh
  refine ⟨{ w with
    idlenessTimer := false
    grpcStream := some { stream with requests := stream.requests ++ [.write b.mutations] } }, ?_,
    ⟨by simp [ho], h.timer, h.requested, h.starting, by simp, fun _ hne => ?_, fun _ _ hne => ?_,
      fun stream' hs _ => ?_, h.recorded⟩, ho, hh⟩
  · simp [writeMutations, write, hardAssert, hopen, hh, hstream, bind, Except.bind]
  · cases (hne ho).symm.trans hh
  · cases hne.symm.trans hh
  · obtain rfl := Option.some.inj hs
    refine ⟨requests ++ [b.mutations], by simp [hrequests], ?_⟩
    rw [List.map_append, List.map_singleton]
    exact hline.send b.mutations

lemma append_carries (h : w.Carries prompt pipeline log answered)
    (hr : ¬ (w.state = .opened ∧ w.handshakeComplete = true)) (b : MutationBatch D) :
    w.Carries prompt (pipeline ++ [b]) log answered where
  channel := h.channel
  timer := h.timer
  requested := h.requested
  starting := h.starting
  idle hi := by
    obtain ⟨hp, ho⟩ := h.idle hi
    have hh : w.handshakeComplete ≠ true := fun hh => hr ⟨ho, hh⟩
    exact absurd hp (h.needed (by simp [isStarted, isOpen, ho]) fun _ => by simpa using hh)
  needed _ _ := by simp
  shaking := h.shaking
  line stream hs hh := by
    exact absurd ⟨h.channel.mp (by simp [hs]), hh⟩ hr
  recorded := h.recorded

lemma sendPipeline_eq {log answered : List (List (Mutation D) × Verdict)}
    (batches pipeline : List (MutationBatch D)) {w : WriteStream D}
    (h : w.Carries prompt pipeline log answered) (ho : w.state = .opened)
    (hh : w.handshakeComplete = true) : ∃ w',
      batches.foldlM (fun (w : WriteStream D) (batch : MutationBatch D) =>
        w.writeMutations batch.mutations) w = .ok w' ∧
      w'.Carries prompt (pipeline ++ batches) log answered ∧ w'.state = .opened ∧
      w'.handshakeComplete = true := by
  induction batches generalizing pipeline w with
  | nil => exact ⟨w, rfl, by rwa [List.append_nil], ho, hh⟩
  | cons b batches ih =>
    obtain ⟨w₁, hw₁, hc₁, ho₁, hh₁⟩ := writeMutations_eq h ho hh b
    obtain ⟨w₂, hw₂, hc₂, ho₂, hh₂⟩ := ih (pipeline ++ [b]) hc₁ ho₁ hh₁
    refine ⟨w₂, ?_, by rwa [List.append_assoc] at hc₂, ho₂, hh₂⟩
    rw [List.foldlM_cons, hw₁]
    exact hw₂

lemma started_of_stream (h : w.Carries prompt pipeline log answered) {stream : GrpcStream D}
    (hs : w.grpcStream = some stream) : w.isStarted = true := by
  have ho : w.state = .opened := h.channel.mp (by simp [hs])
  simp [isStarted, isOpen, ho]

lemma open_carries (h : w.Carries prompt pipeline log answered) (hs : w.state = .starting)
    (hh : w.handshakeComplete = false) : ∃ w',
      ({ w with
        credentials := w.credentials.erase w.closeCount
        state := .opened
        grpcStream := some ⟨[], []⟩ } : WriteStream D).writeHandshake = .ok w' ∧
      w'.Carries prompt pipeline log answered ∧ w'.state = .opened ∧
      w'.handshakeComplete = false := by
  have hne : pipeline ≠ [] := h.needed (by simp [isStarted, hs]) (by simp [hs])
  refine ⟨{ w with
    credentials := w.credentials.erase w.closeCount
    state := .opened
    idlenessTimer := false
    grpcStream := some ⟨[.handshake], []⟩ }, ?_, ⟨by simp, by simp [h.not_timer, hs],
      ⟨h.requested.1.erase _, fun n hn => h.requested.2 n (List.mem_of_mem_erase hn)⟩,
      by simp [h.requested.1.not_mem_erase], by simp, fun _ _ => hne, fun stream hst _ => ?_,
      by simp [hh], h.recorded⟩, rfl, hh⟩
  · simp [writeHandshake, write, hardAssert, isOpen, hh, bind, Except.bind]
  · exact Or.inl (Option.some.inj hst).symm

lemma lapsed_carries (h : w.Carries prompt pipeline log answered) {request : ℕ}
    (hne : w.closeCount ≠ request) :
    ({ w with credentials := w.credentials.erase request } : WriteStream D).Carries prompt
      pipeline log answered where
  __ := h
  requested := ⟨h.requested.1.erase _, fun n hn => h.requested.2 n (List.mem_of_mem_erase hn)⟩
  starting := (List.mem_erase_of_ne hne).trans h.starting

variable {requests : List (WriteRequest D)} {response : WriteResponse}
  {responses : List WriteResponse}

lemma shake_carries (h : w.Carries prompt pipeline log answered)
    (hs : w.grpcStream = some ⟨requests, response :: responses⟩)
    (hh : w.handshakeComplete = false) :
    ({ w with
      grpcStream := some ⟨requests, responses⟩
      handshakeComplete := true } : WriteStream D).Carries prompt [] log answered := by
  have ho : w.state = .opened := h.channel.mp (by simp [hs])
  obtain ⟨rfl, rfl⟩ : requests = [] ∧ responses = [] := by
    rcases h.shaking _ hs hh with he | ⟨response', he⟩
    · cases he
    · cases he
      exact ⟨rfl, rfl⟩
  refine ⟨by simp [ho], h.timer, h.requested, h.starting, fun hi => ⟨rfl, ho⟩, ?_, by simp, ?_,
    h.recorded⟩
  · intro _ hne
    cases hne ho
  · intro stream hst _
    obtain rfl := Option.some.inj hst
    exact ⟨[], rfl, correlated_start h.recorded⟩

lemma receive_carries (h : w.Carries prompt pipeline log answered)
    (hs : w.grpcStream = some ⟨requests, response :: responses⟩)
    (hh : w.handshakeComplete = true) : ∃ b rest, pipeline = b :: rest ∧
      (b.mutations, response.verdict) ∈ log ∧
      ({ w with grpcStream := some ⟨requests, responses⟩ } : WriteStream D).Carries prompt rest log
        (answered ++ [(b.mutations, response.verdict)]) := by
  have ho : w.state = .opened := h.channel.mp (by simp [hs])
  obtain ⟨writes, hwrites, hline⟩ := h.line _ hs hh
  obtain ⟨mutations, rest', hpipeline, hlog, hrest⟩ := hline.receive
  obtain ⟨b, rest, rfl, rfl, rfl⟩ := List.map_eq_cons_iff.mp hpipeline
  refine ⟨b, rest, rfl, hlog, by simp [ho], h.timer, h.requested, h.starting, ?_, ?_, ?_, ?_,
    hrest.cut⟩
  · intro hi
    cases (h.idle hi).1
  · intro _ hne
    cases (hne ho).symm.trans hh
  · intro _ _ hne
    cases hne.symm.trans hh
  · intro stream hst _
    obtain rfl := Option.some.inj hst
    exact ⟨writes, hwrites, hrest⟩

lemma serve_carries {request : WriteRequest D} (h : w.Carries prompt pipeline log answered)
    (hs : w.grpcStream = some ⟨request :: requests, responses⟩) (response : WriteResponse) :
    ({ w with grpcStream := some ⟨requests, responses ++ [response]⟩ } : WriteStream D).Carries
      prompt pipeline (log ++ WriteExchange.served request response.commitVersion
        response.mutationResults) answered := by
  have ho : w.state = .opened := h.channel.mp (by simp [hs])
  refine ⟨by simp [ho], h.timer, h.requested, h.starting, h.idle, h.needed, ?_, ?_,
    h.recorded.trans (List.sublist_append_left _ _)⟩
  · intro stream hst hh
    obtain rfl := Option.some.inj hst
    rcases h.shaking _ hs hh with he | ⟨response', he⟩
    · cases he
      exact Or.inr ⟨response, rfl⟩
    · cases he
  · intro stream hst hh
    obtain rfl := Option.some.inj hst
    obtain ⟨writes, hwrites, hline⟩ := h.line _ hs hh
    obtain ⟨mutations, writes, rfl, rfl, rfl⟩ := List.map_eq_cons_iff.mp hwrites.symm
    refine ⟨writes, rfl, ?_⟩
    rw [List.map_append]
    exact hline.serve response.verdict

lemma refuse_carries {request : WriteRequest D} (h : w.Carries prompt pipeline log answered)
    (hs : w.grpcStream = some ⟨request :: requests, []⟩) (hr : request ≠ .handshake) :
    w.handshakeComplete = true ∧ ∃ b rest, pipeline = b :: rest ∧ request = .write b.mutations := by
  have hh : w.handshakeComplete = true := by
    by_contra hh
    rcases h.shaking _ hs (by simpa using hh) with he | ⟨response', he⟩ <;> cases he
    exact hr rfl
  obtain ⟨writes, hwrites, hline⟩ := h.line _ hs hh
  obtain ⟨mutations, writes, rfl, rfl, rfl⟩ := List.map_eq_cons_iff.mp hwrites.symm
  obtain ⟨rest', hpipeline⟩ := hline.first_request
  obtain ⟨b, rest, rfl, rfl, rfl⟩ := List.map_eq_cons_iff.mp hpipeline
  exact ⟨hh, b, rest, rfl, rfl⟩

lemma Carries.request_mem (h : w.Carries prompt pipeline log answered)
    {mutations : List (Mutation D)}
    (hs : w.grpcStream = some ⟨.write mutations :: requests, responses⟩) :
    ∃ b ∈ pipeline, b.mutations = mutations := by
  have hh : w.handshakeComplete = true := by
    by_contra hh
    rcases h.shaking _ hs (by simpa using hh) with he | ⟨response', he⟩ <;> cases he
  obtain ⟨writes, hwrites, hline⟩ := h.line _ hs hh
  obtain ⟨mutations, writes, rfl, hwrite, rfl⟩ := List.map_eq_cons_iff.mp hwrites.symm
  obtain rfl := WriteRequest.write.inj hwrite
  exact List.mem_map.mp hline.request_mem

lemma Carries.drained (h : w.Carries prompt pipeline log answered)
    (hs : w.grpcStream = some ⟨[], []⟩) (hh : w.handshakeComplete = true) : pipeline = [] := by
  obtain ⟨writes, hwrites, hline⟩ := h.line _ hs hh
  obtain rfl := List.map_eq_nil_iff.mp hwrites.symm
  exact List.map_eq_nil_iff.mp hline.drained

end WriteStream

end MobileApps.Firestore

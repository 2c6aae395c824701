import MobileApps.Storyboard.World

/-! Between the two writes of a save the document stands without its path. A screen of the same
account on another client that takes its snapshot there loads the empty path. -/

namespace MobileApps.Storyboard

open Firestore Library.Unicode Library.DocumentStore Library.Rows Library.Runs

def firstWrite (s : Saved) : Request :=
  .addDocument (documentKey s.id) [(s.email, .strings [s.name, s.time, []])]

def secondWrite (s : Saved) : Request :=
  .setData (documentKey s.id) [(s.email, .strings [s.name, s.time, ownPath s.id])]

inductive Whole : List Call → Prop
  | nil : Whole []
  | save {a b : Call} {s : Saved} {q : List Call} (ha : a.request = firstWrite s)
      (hb : b.request = secondWrite s) (hq : Whole q) : Whole (a :: b :: q)
  | delete {a : Call} {key : ResourcePath} {q : List Call} (ha : a.request = .delete key)
      (hq : Whole q) : Whole (a :: q)

inductive Queued : List Call → Prop
  | whole {q : List Call} (hq : Whole q) : Queued q
  | half {b : Call} {s : Saved} {q : List Call} (hb : b.request = secondWrite s) (hq : Whole q) :
      Queued (b :: q)

lemma Whole.append {q r : List Call} (hq : Whole q) (hr : Whole r) : Whole (q ++ r) := by
  induction hq with
  | nil => exact hr
  | save ha hb _ ih => exact .save ha hb ih
  | delete ha _ ih => exact .delete ha ih

lemma Queued.append {q r : List Call} (hq : Queued q) (hr : Whole r) : Queued (q ++ r) := by
  cases hq with
  | whole hq => exact .whole (hq.append hr)
  | half hb hq => exact .half hb (hq.append hr)

lemma Queued.tail {a : Call} {q : List Call} (h : Queued (a :: q)) : Queued q := by
  cases h with
  | whole hq =>
    cases hq with
    | save _ hb hq => exact .half hb hq
    | delete _ hq => exact .whole hq
  | half _ hq => exact .whole hq

def Torn (e : Entry) : Prop := ∃ email n t, e.data = [(email, .strings [n, t, []])]

lemma not_torn_second (s : Saved) {e : Entry}
    (he : (secondWrite s).write = .set e.key e.data) : ¬ Torn e := by
  rintro ⟨email, n, t, hd⟩
  have hdata := (Write.set.inj he).2
  rw [hd] at hdata
  simp [ownPath] at hdata

lemma torn_of_whole {q : List Call} (hq : Whole q) {c : TaskCollection} {e : Entry}
    (he : e ∈ (c.applyAll (q.map fun call => call.request.write)).docs) (ht : Torn e) :
    e ∈ c.docs := by
  induction hq generalizing c with
  | nil => exact he
  | @save a b s q ha hb _ ih =>
    simp only [List.map_cons, Collection.applyAll_cons, ha, hb] at he
    rcases Collection.mem_apply.mp (ih he) with ⟨h, hk⟩ | h
    · rcases Collection.mem_apply.mp h with ⟨h, _⟩ | h
      · exact h
      · exact absurd (Write.set.inj h).1.symm hk
    · exact absurd ht (not_torn_second s h)
  | delete ha _ ih =>
    simp only [List.map_cons, Collection.applyAll_cons, ha] at he
    rcases Collection.mem_apply.mp (ih he) with ⟨h, _⟩ | h
    · exact h
    · cases h

lemma torn_of_queued {q : List Call} (hq : Queued q) {c : TaskCollection} {e : Entry}
    (he : e ∈ (c.applyAll (q.map fun call => call.request.write)).docs) (ht : Torn e) :
    e ∈ c.docs ∧ ∀ b r s, q = b :: r → b.request = secondWrite s → e.key ≠ documentKey s.id := by
  cases hq with
  | whole hq =>
    refine ⟨torn_of_whole hq he ht, fun b r s hbr hb => ?_⟩
    cases hq with
    | nil => cases hbr
    | save ha _ _ =>
      obtain ⟨rfl, _⟩ := List.cons.inj hbr
      simp [ha, firstWrite, secondWrite] at hb
    | delete ha _ =>
      obtain ⟨rfl, _⟩ := List.cons.inj hbr
      simp [ha, secondWrite] at hb
  | @half b s q hb hq =>
    rw [List.map_cons, Collection.applyAll_cons, hb] at he
    rcases Collection.mem_apply.mp (torn_of_whole hq he ht) with ⟨he, hk⟩ | hw
    · refine ⟨he, fun b' r s' hbr hb' hk' => hk ?_⟩
      obtain ⟨rfl, _⟩ := List.cons.inj hbr
      rw [hb'] at hb
      rw [hk', ← hb]
      rfl
    · exact absurd ht (not_torn_second s hw)

def halfSaved (email : Email) : List Call → Bool
  | ⟨_, _, _, .setData _ data⟩ :: _ => (data.lookup email).isSome
  | _ => false

/-- A snapshot is taken while no other client is between the two writes of a save of the
account. -/
def Undivided (w : World) : WorldEvent → Prop
  | .snapshot i _ => ∀ v ∈ w.windows[i]?, ∀ v' ∈ w.windows, v'.client ≠ v.client →
      halfSaved v.email (w.pending v'.client) = false
  | _ => True

instance (w : World) : ∀ e, Decidable (Undivided w e)
  | .snapshot i _ => inferInstanceAs (Decidable (∀ v ∈ w.windows[i]?, ∀ v' ∈ w.windows,
      v'.client ≠ v.client → halfSaved v.email (w.pending v'.client) = false))
  | .openScreen .. | .reply _ | .fail _ | .add .. | .delete .. | .move .. | .apply _ =>
      isTrue trivial

variable (U : Tables)

/-- What a load stores in `paths` leads to the document it was read from, and every row can be
deleted. -/
def Addressed (w : World) : Prop :=
  ∀ v ∈ w.windows,
    (∀ documents, v.load = .taken documents → ∀ e ∈ documents, ∀ m path,
      storedTask v.email e = some (m, path) → documentWithPath task path = .ok e.key) ∧
    ∀ m ∈ v.screen.array, ∃ key, deleteFromDb U m.name m.time v.screen = .ok (.delete key)

structure World.Orderly (w : World) : Prop where
  sound : w.Sound U
  queued : ∀ c, Queued (w.pending c)
  owner : ∀ c, w.pending c ≠ [] → ∃ v ∈ w.windows, v.client = c
  holder : ∀ e ∈ w.server.docs, Torn e → ∃ c b q s, w.pending c = b :: q ∧
    b.request = secondWrite s ∧ e.key = documentKey s.id
  taken : ∀ v ∈ w.windows, ∀ documents, v.load = .taken documents → ∀ e ∈ documents, ∀ m path,
    storedTask v.email e = some (m, path) → path ≠ []
  paths : ∀ v ∈ w.windows, ∀ k path, v.screen.paths k = some path → path ≠ []

variable {U}

lemma addressed_of_orderly {w : World} (h : w.Orderly U) : Addressed U w := by
  intro v hv
  have hs := h.sound.windows v hv
  constructor
  · intro documents hl e he m path hst
    obtain ⟨s, _, hk, _, _, _, rfl | rfl⟩ := (hs.taken documents hl e he).stored hst
    · exact absurd rfl (h.taken v hv documents hl e he m _ hst)
    · rw [documentWithPath_ownPath, hk]
  · intro m hm
    obtain ⟨path, hp⟩ := hs.consistent.entries m hm
    rw [deleteFromDb_eq U hp]
    rcases hs.paths _ path hp with rfl | ⟨s, _, rfl, _⟩
    · exact absurd rfl (h.paths v hv _ _ hp)
    · rw [documentWithPath_ownPath]
      exact ⟨_, rfl⟩

lemma torn_of_stored {saved : List Saved} {e : Entry} (h : Origin U saved e) {email : Email}
    {m : ToDoElementsModel} (hs : storedTask email e = some (m, [])) : Torn e := by
  obtain ⟨s, _, _, _, p, _, hd⟩ := h
  refine ⟨s.email, s.name, s.time, ?_⟩
  by_cases he : email = s.email
  · subst he
    simp only [storedTask, hd, List.lookup_cons, beq_self_eq_true, Option.some.injEq,
      Prod.mk.injEq] at hs
    rw [hd, hs.2]
  · have hl : e.data.lookup email = none := by simp [hd, he]
    simp [storedTask, hl] at hs

lemma view_complete {w : World} (h : w.Orderly U) {v : Window}
    (hu : ∀ v' ∈ w.windows, v'.client ≠ v.client →
      halfSaved v.email (w.pending v'.client) = false) {e : Entry}
    (he : e ∈ (w.view v.client).docs) {m : ToDoElementsModel} {path : Text}
    (hs : storedTask v.email e = some (m, path)) : path ≠ [] := by
  rintro rfl
  have ho := view_origin h.sound v.client e he
  have ht := torn_of_stored ho hs
  obtain ⟨hserver, hother⟩ := torn_of_queued (h.queued v.client) he ht
  obtain ⟨c, b, q, s, hp, hb, hk⟩ := h.holder e hserver ht
  -- the client's own second write would have completed the document in its view
  have hc : c ≠ v.client := by
    rintro rfl
    exact hother b q s hp hb hk
  -- the second write on its way is for the account that the document was saved under
  obtain ⟨s₁, hs₁, hk₁, hemail, _⟩ := ho.stored hs
  have hw : b.request.write = .set (documentKey s.id)
      [(s.email, .strings [s.name, s.time, ownPath s.id])] := by rw [hb]; rfl
  obtain ⟨s₂, hs₂, hk₂, _, p, _, hd₂⟩ :=
    (h.sound.pending c b (hp ▸ List.mem_cons_self)).set hw
  have hid : s₁.id = s₂.id := documentKey_injective (hk₁.symm.trans (hk.trans hk₂))
  obtain rfl := List.inj_on_of_nodup_map h.sound.ids hs₁ hs₂ hid
  have hse : s.email = v.email := by
    simp only [List.cons.injEq, Prod.mk.injEq] at hd₂
    exact hd₂.1.1.trans hemail
  obtain ⟨v', hv', rfl⟩ := h.owner c (by rw [hp]; exact List.cons_ne_nil _ _)
  have hhalf := hu v' hv' hc
  obtain ⟨_, _, _, r⟩ := b
  simp only at hb
  simp [hp, halfSaved, hb, secondWrite, hse] at hhalf

lemma start_orderly : World.start.Orderly U where
  sound := start_sound
  queued c := .whole .nil
  owner c hc := absurd rfl hc
  holder e he := by cases he
  taken v hv := by cases hv
  paths v hv := by cases hv

lemma client_set {ws : List Window} {i : ℕ} {v v' u : Window} (hv : ws[i]? = some v)
    (hc : v'.client = v.client) (hu : u ∈ ws) : ∃ u' ∈ ws.set i v', u'.client = u.client := by
  obtain ⟨j, hj⟩ := List.getElem?_of_mem hu
  by_cases hij : i = j
  · subst hij
    obtain rfl := Option.some.inj (hv.symm.trans hj)
    exact ⟨v', List.mem_set (List.getElem?_eq_some_iff.mp hv).1 v', hc⟩
  · refine ⟨u, List.mem_of_getElem? (i := j) ?_, rfl⟩
    rw [List.getElem?_set_ne hij]
    exact hj

lemma orderly_setWindow {w : World} (h : w.Orderly U) {i : ℕ} {v v' : Window}
    (hv : w.windows[i]? = some v) (hsound : v'.Sound U w.saved) (hclient : v'.client = v.client)
    (htaken : ∀ documents, v'.load = .taken documents → ∀ e ∈ documents, ∀ m path,
      storedTask v'.email e = some (m, path) → path ≠ [])
    (hpaths : ∀ k path, v'.screen.paths k = some path → path ≠ []) :
    (w.setWindow i v').Orderly U where
  sound := sound_setWindow h.sound i hsound
  queued := h.queued
  owner := by
    intro c hc
    obtain ⟨u, hu, rfl⟩ := h.owner c hc
    exact client_set hv hclient hu
  holder := h.holder
  taken := by
    intro u hu
    rcases List.mem_or_eq_of_mem_set hu with hu | rfl
    · exact h.taken u hu
    · exact htaken
  paths := by
    intro u hu
    rcases List.mem_or_eq_of_mem_set hu with hu | rfl
    · exact h.paths u hu
    · exact hpaths

lemma orderly_issue {w : World} (h : w.Orderly U) {i : ℕ} {v : Window} {name time : Text}
    {r : Screen × List Request} {saved' : List Saved} (hv : w.windows[i]? = some v)
    (hsound : World.Sound U { w.issue i v name time r with saved := saved' })
    (hwhole : Whole (r.2.map (Call.mk v.email name time)))
    (hpaths : ∀ k path, r.1.paths k = some path → path ≠ []) :
    World.Orderly U { w.issue i v name time r with saved := saved' } where
  sound := hsound
  queued := by
    intro c
    by_cases hc : c = v.client
    · subst hc
      simp only [World.issue, Function.update_self]
      exact (h.queued _).append hwhole
    · simp only [World.issue, Function.update_of_ne hc]
      exact h.queued c
  owner := by
    intro c hc
    by_cases hcv : c = v.client
    · subst hcv
      exact client_set hv rfl (List.mem_of_getElem? hv)
    · simp only [World.issue, Function.update_of_ne hcv] at hc
      obtain ⟨u, hu, rfl⟩ := h.owner c hc
      exact client_set hv rfl hu
  holder := by
    intro e he ht
    obtain ⟨c, b, q, s, hp, hb, hk⟩ := h.holder e he ht
    by_cases hc : c = v.client
    · subst hc
      exact ⟨v.client, b, q ++ r.2.map (Call.mk v.email name time), s,
        by simp only [World.issue, Function.update_self, hp, List.cons_append], hb, hk⟩
    · exact ⟨c, b, q, s, by simp only [World.issue, Function.update_of_ne hc, hp], hb, hk⟩
  taken := by
    intro u hu
    rcases List.mem_or_eq_of_mem_set hu with hu | rfl
    · exact h.taken u hu
    · exact h.taken v (List.mem_of_getElem? hv)
  paths := by
    intro u hu
    rcases List.mem_or_eq_of_mem_set hu with hu | rfl
    · exact h.paths u hu
    · exact hpaths

lemma holder_apply {w : World} (h : w.Orderly U) {client : ℕ} {call : Call} {rest : List Call}
    (hc : w.pending client = call :: rest) {e : Entry}
    (he : e ∈ (w.server.apply call.request.write).docs) (ht : Torn e) :
    ∃ c b q s, Function.update w.pending client rest c = b :: q ∧
      b.request = secondWrite s ∧ e.key = documentKey s.id := by
  have hq := h.queued client
  rw [hc] at hq
  have other : e ∈ w.server.docs → (∀ s, call.request = secondWrite s → e.key ≠ documentKey s.id) →
      ∃ c b q s, Function.update w.pending client rest c = b :: q ∧
        b.request = secondWrite s ∧ e.key = documentKey s.id := by
    intro hmem hne
    obtain ⟨c, b, q, s, hp, hb, hk⟩ := h.holder e hmem ht
    refine ⟨c, b, q, s, ?_, hb, hk⟩
    have hcc : c ≠ client := by
      rintro rfl
      obtain ⟨rfl, _⟩ := List.cons.inj (hc.symm.trans hp)
      exact hne s hb hk
    rw [Function.update_of_ne hcc, hp]
  cases hq with
  | @half _ s _ hb _ =>
    rcases Collection.mem_apply.mp he with ⟨hmem, hk⟩ | hw
    · refine other hmem fun s' hs' hk' => hk ?_
      rw [hk', hs']
      rfl
    · rw [hb] at hw
      exact absurd ht (not_torn_second s hw)
  | whole hq =>
    cases hq with
    | @save _ b s q ha hb _ =>
      rcases Collection.mem_apply.mp he with ⟨hmem, _⟩ | hw
      · refine other hmem fun s' hs' => ?_
        rw [ha] at hs'
        cases hs'
      · rw [ha] at hw
        exact ⟨client, b, q, s, Function.update_self .., hb, (Write.set.inj hw).1.symm⟩
    | delete ha _ =>
      rcases Collection.mem_apply.mp he with ⟨hmem, _⟩ | hw
      · refine other hmem fun s' hs' => ?_
        rw [ha] at hs'
        cases hs'
      · rw [ha] at hw
        cases hw

lemma orderly_apply {w : World} (h : w.Orderly U) {client : ℕ} {call : Call} {rest : List Call}
    (hc : w.pending client = call :: rest)
    (hsound : World.Sound U { w with
      server := w.server.apply call.request.write
      pending := Function.update w.pending client rest }) :
    World.Orderly U { w with
      server := w.server.apply call.request.write
      pending := Function.update w.pending client rest } where
  sound := hsound
  queued := by
    intro c
    by_cases hcc : c = client
    · subst hcc
      simp only [Function.update_self]
      exact Queued.tail (hc ▸ h.queued c)
    · simp only [Function.update_of_ne hcc]
      exact h.queued c
  owner := by
    intro c hp
    by_cases hcc : c = client
    · subst hcc
      exact h.owner c (by rw [hc]; exact List.cons_ne_nil _ _)
    · simp only [Function.update_of_ne hcc] at hp
      exact h.owner c hp
  holder e he ht := holder_apply h hc he ht
  taken := h.taken
  paths := h.paths

theorem orderly_step {w w' : World} {e : WorldEvent} (h : w.Orderly U)
    (hs : w.step U e = some w') (hu : Undivided w e) : w'.Orderly U := by
  have hsound := world_step_sound h.sound hs
  have sound : ∀ {i : ℕ} {v : Window}, w.windows[i]? = some v → v.Sound U w.saved :=
    fun hv => h.sound.windows _ (List.mem_of_getElem? hv)
  cases stepped h.sound hs with
  | openScreen client email =>
    refine ⟨hsound, h.queued, fun c hc => ?_, h.holder, fun v hv => ?_, fun v hv => ?_⟩
    · obtain ⟨v, hv, hvc⟩ := h.owner c hc
      exact ⟨v, List.mem_append_left _ hv, hvc⟩
    · rcases List.mem_append.mp hv with hv | hv
      · exact h.taken v hv
      · obtain rfl := List.mem_singleton.mp hv
        rintro _ ⟨⟩
    · rcases List.mem_append.mp hv with hv | hv
      · exact h.paths v hv
      · obtain rfl := List.mem_singleton.mp hv
        simp [viewDidLoad, loadTasks]
  | @snapshot i v documents hv hp =>
    have hvs := sound hv
    refine orderly_setWindow h hv ⟨hvs.consistent, hvs.accepted, ?_, hvs.paths⟩ rfl ?_
      (h.paths v (List.mem_of_getElem? hv))
    · rintro _ ⟨⟩ e he
      exact view_origin h.sound _ e (hp.mem_iff.mp he)
    · rintro _ ⟨⟩ e he m path hst
      exact view_complete h (hu v hv) (hp.mem_iff.mp he) hst
  | @reply i v documents hv hl =>
    refine orderly_setWindow h hv (sound_loaded (sound hv) hl) rfl (by rintro _ ⟨⟩) ?_
    intro k path hp
    rcases loaded_paths U v.screen v.email documents k with ⟨e, he, m, q, hst, _, hq⟩ | ⟨_, hq⟩
    · obtain rfl := Option.some.inj (hq.symm.trans hp)
      exact h.taken v (List.mem_of_getElem? hv) documents hl e he m _ hst
    · exact h.paths v (List.mem_of_getElem? hv) k path (hq.symm.trans hp)
  | @fail i v message hv =>
    exact orderly_setWindow h hv (sound_failed (sound hv)) rfl (by rintro _ ⟨⟩)
      (h.paths v (List.mem_of_getElem? hv))
  | @add i v id n t hv _ _ =>
    refine orderly_issue h hv hsound (.save (s := ⟨id, v.email, n, t⟩) rfl rfl .nil) ?_
    intro k path hp
    by_cases hk : k = pathKey U n t
    · subst hk
      obtain rfl : ownPath id = path := by simpa [Screen.added] using hp
      exact List.cons_ne_nil _ _
    · exact h.paths v (List.mem_of_getElem? hv) k path
        (by simpa [Screen.added, Function.update_of_ne hk] using hp)
  | @delete i row v m path key hv _ _ _ =>
    exact orderly_issue h hv hsound (.delete rfl .nil) (h.paths v (List.mem_of_getElem? hv))
  | @move i src dst v hv hsrc hdst =>
    exact orderly_setWindow h hv (sound_moved (sound hv) hsrc hdst) rfl
      (h.taken v (List.mem_of_getElem? hv)) (h.paths v (List.mem_of_getElem? hv))
  | apply hc => exact orderly_apply h hc hsound

/-- When no snapshot falls between the two writes of a save that another client makes for the
account, every path a load stores leads to its document and every row can be deleted, in every
state of the run. -/
theorem addressed_of_undivided {es : List WorldEvent}
    (hu : Along (World.step U) Undivided World.start es) :
    Always (World.step U) (Addressed U) World.start es :=
  always_of_along (I := fun w _ => w.Orderly U) (fun _ _ h => addressed_of_orderly h)
    (fun _ _ _ _ h hs hp => orderly_step h hs hp) start_orderly hu

theorem addressed_after_save : Always (World.step .ascii) (Addressed .ascii) World.start
    [.openScreen 0 someMail, .openScreen 1 someMail, .add 0 idA "run".toList ten, .apply 0,
      .apply 0, .snapshot 1 [someEntry idA "run".toList], .reply 1, .delete 1 0] :=
  addressed_of_undivided (by decide)

theorem half_saved_row_has_no_path : ∃ w v,
    run (World.step .ascii) World.start
      [.openScreen 0 someMail, .openScreen 1 someMail, .add 0 idA "run".toList ten, .apply 0,
        .snapshot 1 [⟨documentKey idA, [(someMail, .strings ["run".toList, ten, []])]⟩],
        .reply 1] = some w ∧
    w.windows[1]? = some v ∧ v.screen.array = [⟨"run".toList, ten⟩] ∧
    deleteFromDb .ascii "run".toList ten v.screen =
      .error (.invalidArgument .emptyDocumentPath) ∧ ¬ Addressed .ascii w := by
  refine ⟨_, _, rfl, rfl, rfl, rfl, fun h => ?_⟩
  obtain ⟨key, hk⟩ := (h _ (List.mem_of_getElem? (i := 1) rfl)).2 _ List.mem_cons_self
  cases hk

end MobileApps.Storyboard

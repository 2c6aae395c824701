import MobileApps.Storyboard.FirstLoad

/-! Writes that the server may reject: it decides them in the order of their issue and reports
the errors in any order. Only an error of `addDocument` is listened to. -/

namespace MobileApps.Storyboard

open Firestore Library.Unicode Library.Decimal Library.DocumentStore Library.Rows Library.Runs

structure Online where
  screen : Screen
  used : List AutoId
  server : TaskCollection
  pending : List Request := []
  failed : List Request := []

inductive OnlineEvent
  | add (id : AutoId) (name time : Text)
  | delete (row : ℕ)
  | move (src dst : ℕ)
  | accept
  | reject
  | report (i : ℕ)

structure Log where
  issued : List (Write ResourcePath Fields) := []
  accepted : List (Write ResourcePath Fields) := []

variable (U : Tables) (email : Email)

def Online.issue (o : Online) : Screen × List Request → Online
  | (s, requests) => { o with screen := s, pending := o.pending ++ requests }

def reportError : Request → Screen → Screen
  | .addDocument .. => storingFailed
  | .setData .. | .delete _ => id

def Online.step (o : Online) : OnlineEvent → Option Online
  | .add id name time =>
      if Accepted U name time ∧ id ∉ o.used then
        (passBackData U (some email) id name time o.screen).toOption.map fun r =>
          { o.issue r with used := id :: o.used }
      else none
  | .delete row => (commitDelete U row o.screen).toOption.map o.issue
  | .move src dst => (moveRowAt src dst o.screen).toOption.map fun s => { o with screen := s }
  | .accept =>
      match o.pending with
      | [] => none
      | r :: rs => some { o with server := o.server.apply r.write, pending := rs }
  | .reject =>
      match o.pending with
      | [] => none
      | r :: rs => some { o with pending := rs, failed := o.failed ++ [r] }
  | .report i => o.failed[i]?.map fun r =>
      { o with screen := reportError r o.screen, failed := o.failed.eraseIdx i }

def sentWrites (x : Except Trap (Screen × List Request)) : List (Write ResourcePath Fields) :=
  (x.toOption.elim [] Prod.snd).map Request.write

def Log.track (l : Log) (o : Online) : OnlineEvent → Log
  | .add id name time => { l with
      issued := l.issued ++ sentWrites (passBackData U (some email) id name time o.screen) }
  | .delete row => { l with issued := l.issued ++ sentWrites (commitDelete U row o.screen) }
  | .accept => { l with accepted := l.accepted ++ (o.pending.take 1).map Request.write }
  | .move .. | .reject | .report _ => l

def Online.stepLog : Online × Log → OnlineEvent → Option (Online × Log) :=
  observe (Online.step U email) (Log.track U email)

def OnlineEvent.pair : OnlineEvent → Option (Text × Text)
  | .add _ n t => some (Storyboard.pair U ⟨n, t⟩)
  | _ => none

def Online.Quiet (o : Online) : Prop := o.pending = [] ∧ o.failed = []

def Reconciled (o : Online) : Prop :=
  listed U o.screen = stored U email o.server ∧
    parseInt o.screen.tasksCount = some (Multiset.card (stored U email o.server) : ℤ)

def Online.ideal (db : TaskCollection) (s : Online × Log) : Device :=
  ⟨s.1.screen, db.applyAll s.2.issued, s.1.used, .answered⟩

structure Assigns (value : ResourcePath → Option (Text × Text)) (db : TaskCollection)
    (s : Online × Log) (es : List OnlineEvent) : Prop where
  inj : ∀ k k' p, value k = some p → value k' = some p → k = k'
  used : ∀ k p, value k = some p → ∃ id ∈ s.1.used, k = documentKey id
  ahead : ∀ k p, value k = some p → p ∉ es.filterMap (OnlineEvent.pair U)
  todo : (es.filterMap (OnlineEvent.pair U)).Nodup
  server : ∀ e ∈ s.1.server.docs, storedPair U email e = value e.key
  issued : ∀ e ∈ (db.applyAll s.2.issued).docs, storedPair U email e = value e.key
  pending : ∀ r ∈ s.1.pending, (value r.write.key).isSome ∧
    ∀ k d, r.write = .set k d → storedPair U email ⟨k, d⟩ = value k
  same : ∀ k, value k = none → (k ∈ s.1.server.keys ↔ k ∈ (db.applyAll s.2.issued).keys)

structure Run (db : TaskCollection) (value : ResourcePath → Option (Text × Text))
    (spent : List Text) (s : Online × Log) (es : List OnlineEvent) : Prop where
  loading : Loading U email 0 ((Online.ideal db s, spent), [])
  assigns : Assigns U email value db s es
  server : s.1.server = db.applyAll s.2.accepted

variable {U email} {db : TaskCollection} {value : ResourcePath → Option (Text × Text)}
  {spent : List Text}

lemma Assigns.tail {s : Online × Log} {e : OnlineEvent} {es : List OnlineEvent}
    (h : Assigns U email value db s (e :: es)) : Assigns U email value db s es where
  inj := h.inj
  used := h.used
  ahead k p hp hm := h.ahead k p hp (((List.sublist_cons_self e es).filterMap _).subset hm)
  todo := h.todo.sublist ((List.sublist_cons_self e es).filterMap _)
  server := h.server
  issued := h.issued
  pending := h.pending
  same := h.same

lemma Assigns.congr {s t : Online × Log} {es : List OnlineEvent}
    (h : Assigns U email value db s es) (hu : t.1.used = s.1.used)
    (hserver : t.1.server = s.1.server) (hissued : t.2.issued = s.2.issued)
    (hp : ∀ r ∈ t.1.pending, r ∈ s.1.pending) : Assigns U email value db t es where
  inj := h.inj
  used := hu ▸ h.used
  ahead := h.ahead
  todo := h.todo
  server := hserver ▸ h.server
  issued := hissued ▸ h.issued
  pending r hr := h.pending r (hp r hr)
  same := hserver ▸ hissued ▸ h.same

def Online.added (U : Tables) (email : Email) (s : Online × Log) (id : AutoId) (n t : Text) :
    Online × Log :=
  ({ s.1 with
      screen := s.1.screen.added U id n t
      used := id :: s.1.used
      pending := s.1.pending ++ savedRequests email id n t },
    { s.2 with issued := s.2.issued ++ (savedRequests email id n t).map Request.write })

def Online.deleted (s : Online × Log) (row : ℕ) (key : ResourcePath) : Online × Log :=
  ({ s.1 with screen := s.1.screen.removed row, pending := s.1.pending ++ [.delete key] },
    { s.2 with issued := s.2.issued ++ [.delete key] })

lemma stepLog_add {s t : Online × Log} (hs : s.1.screen.Consistent U) {id : AutoId} {n t' : Text}
    (h : Online.stepLog U email s (.add id n t') = some t) :
    (Accepted U n t' ∧ id ∉ s.1.used) ∧ t = Online.added U email s id n t' := by
  obtain ⟨ht, hl⟩ := observe_some.mp h
  simp only [Online.step, Log.track, passBackData_eq U hs] at ht hl
  obtain ⟨hg, ht⟩ := guarded_some.mp ht
  refine ⟨hg, Prod.ext ht ?_⟩
  rw [← hl]
  rfl

lemma stepLog_delete {s t : Online × Log} (hs : (Online.ideal db s).Sound U email) {row : ℕ}
    (h : Online.stepLog U email s (.delete row) = some t) :
    ∃ m id, s.1.screen.array[row]? = some m ∧
      s.1.screen.paths (rowKey U m) = some (ownPath id) ∧
      t = Online.deleted s row (documentKey id) := by
  obtain ⟨ht, hl⟩ := observe_some.mp h
  obtain ⟨r, hr, ht⟩ := Option.map_eq_some_iff.mp ht
  obtain ⟨m, path, key, hm, hp, hd, rfl⟩ :=
    (commitDelete_ok U hs.consistent).mp (toOption_eq_some.mp hr)
  obtain ⟨id, _, rfl, _⟩ := hs.paths _ path hp
  rw [documentWithPath_ownPath] at hd
  obtain rfl := Except.ok.inj hd
  refine ⟨m, id, hm, hp, Prod.ext ht.symm ?_⟩
  rw [← hl]
  simp only [Log.track, sentWrites]
  have hr' : (commitDelete U row s.1.screen).toOption =
      some (s.1.screen.removed row, [.delete (documentKey id)]) := hr
  rw [hr']
  rfl

lemma loading_reportError {s : Online × Log} (r : Request)
    (h : Loading U email 0 ((Online.ideal db s, spent), [])) :
    Loading U email 0 ((Online.ideal db
      ({ s.1 with screen := reportError r s.1.screen }, s.2), spent), []) := by
  have hsound := h.tracked.sound
  have hcons := hsound.consistent
  cases r with
  | setData key data => exact h
  | delete key => exact h
  | addDocument key data =>
    exact
      { tracked :=
          { sound :=
              { consistent := ⟨hcons.count, hcons.rows, hcons.entries⟩
                accepted := hsound.accepted
                kept := hsound.kept
                snapshot := hsound.snapshot
                paths := hsound.paths }
            balance := h.tracked.balance
            live := h.tracked.live
            dead := h.tracked.dead }
        fresh := h.fresh
        nodup := h.nodup
        apart := h.apart
        taken := h.taken }

lemma applyAll_saved (c : TaskCollection) (id : AutoId) (n t : Text) :
    c.applyAll ((savedRequests email id n t).map Request.write) =
      (c.set (documentKey id) [(email, .strings [n, t, []])]).set (documentKey id)
        [(email, .strings [n, t, ownPath id])] := rfl

lemma storedPair_saved (id : AutoId) (n t p : Text) :
    storedPair U email ⟨documentKey id, [(email, .strings [n, t, p])]⟩ = some (pair U ⟨n, t⟩) := by
  simp [storedPair, storedModel, storedTask]

lemma Run.value_fresh {s : Online × Log} {es : List OnlineEvent}
    (h : Run U email db value spent s es) {id : AutoId} (hid : id ∉ s.1.used) :
    value (documentKey id) = none := by
  cases hv : value (documentKey id) with
  | none => rfl
  | some p =>
    obtain ⟨id', hid', hk⟩ := h.assigns.used _ p hv
    exact absurd (documentKey_injective hk ▸ hid') hid

lemma Run.server_fresh {s : Online × Log} {es : List OnlineEvent}
    (h : Run U email db value spent s es) {id : AutoId} (hid : id ∉ s.1.used) :
    documentKey id ∉ s.1.server.keys := fun hm =>
  h.loading.tracked.sound.fresh_key hid ((h.assigns.same _ (h.value_fresh hid)).mp hm)

lemma mem_listed_assigned {s : Online × Log} {es : List OnlineEvent}
    (h : Run U email db value spent s es) {p : Text × Text} (hp : p ∈ listed U s.1.screen) :
    ∃ k, value k = some p := by
  have hb := h.loading.tracked.balance
  rw [Multiset.zero_add] at hb
  have hp' : p ∈ stored U email (db.applyAll s.2.issued) := hb ▸ hp
  obtain ⟨e, he, hs⟩ := (Collection.mem_tally _).mp hp'
  exact ⟨e.key, (h.assigns.issued e he).symm.trans hs⟩

lemma run_add {s : Online × Log} {es : List OnlineEvent} {id : AutoId} {n t : Text}
    (h : Run U email db value spent s (.add id n t :: es)) (hacc : Accepted U n t)
    (hid : id ∉ s.1.used) :
    Run U email db (Function.update value (documentKey id) (some (pair U ⟨n, t⟩)))
      (spent.filter (· ≠ pathKey U n t)) (Online.added U email s id n t) es where
  loading := by
    have hl : pair U ⟨n, t⟩ ∉ listed U s.1.screen := by
      intro hm
      obtain ⟨k, hk⟩ := mem_listed_assigned h hm
      exact h.assigns.ahead k _ hk (by simp [OnlineEvent.pair])
    have ha := loading_add h.loading hacc hid (Multiset.notMem_zero _) hl
    have he : Online.ideal db (Online.added U email s id n t) =
        (Online.ideal db s).added U email id n t := by
      simp only [Online.ideal, Online.added, Device.added, Collection.applyAll_append,
        applyAll_saved]
    rw [he]
    exact ha
  assigns := by
    -- neither the key nor the pair was assigned before, so `value` stays injective
    have hnone := h.value_fresh hid
    have hne : ∀ k, (value k).isSome → k ≠ documentKey id := by
      rintro k hk rfl
      simp [hnone] at hk
    have hval : ∀ k p, Function.update value (documentKey id) (some (pair U ⟨n, t⟩)) k = some p →
        (k = documentKey id ∧ p = pair U ⟨n, t⟩) ∨ value k = some p := by
      intro k p hk
      by_cases he : k = documentKey id
      · subst he
        simp only [Function.update_self, Option.some.injEq] at hk
        exact Or.inl ⟨rfl, hk.symm⟩
      · exact Or.inr (by rwa [Function.update_of_ne he] at hk)
    have hfresh : ∀ k, value k ≠ some (pair U ⟨n, t⟩) := fun k hk =>
      h.assigns.ahead k _ hk (by simp [OnlineEvent.pair])
    have htail := h.assigns.tail
    refine
      { inj := ?_, used := ?_, ahead := ?_, todo := htail.todo, server := ?_, issued := ?_,
        pending := ?_, same := ?_ }
    · intro k k' p hk hk'
      rcases hval k p hk with ⟨rfl, rfl⟩ | hk
      · rcases hval k' _ hk' with ⟨rfl, _⟩ | hk'
        · rfl
        · exact absurd hk' (hfresh k')
      · rcases hval k' p hk' with ⟨rfl, rfl⟩ | hk'
        · exact absurd hk (hfresh k)
        · exact h.assigns.inj k k' p hk hk'
    · intro k p hk
      rcases hval k p hk with ⟨rfl, _⟩ | hk
      · exact ⟨id, List.mem_cons_self, rfl⟩
      · obtain ⟨id', hid', hk'⟩ := h.assigns.used k p hk
        exact ⟨id', List.mem_cons_of_mem _ hid', hk'⟩
    · intro k p hk
      rcases hval k p hk with ⟨rfl, rfl⟩ | hk
      · exact (List.nodup_cons.mp (by simpa [OnlineEvent.pair] using h.assigns.todo)).1
      · exact htail.ahead k p hk
    · intro e he
      have hk : e.key ≠ documentKey id := fun hk =>
        h.server_fresh hid (Collection.mem_keys.mpr ⟨e, he, hk⟩)
      rw [Function.update_of_ne hk]
      exact h.assigns.server e he
    · intro e he
      simp only [Online.added, Collection.applyAll_append, applyAll_saved] at he
      have he' : e ∈ ((Online.ideal db s).added U email id n t).db.docs := he
      rcases mem_added.mp he' with ⟨he, hk⟩ | rfl
      · rw [Function.update_of_ne hk]
        exact h.assigns.issued e he
      · rw [storedPair_saved, Function.update_self]
    · intro r hr
      rcases List.mem_append.mp hr with hr | hr
      · obtain ⟨hsome, hset⟩ := h.assigns.pending r hr
        refine ⟨by rwa [Function.update_of_ne (hne _ hsome)], fun k d hw => ?_⟩
        have hk : k ≠ documentKey id := hne k (by simpa [hw, Write.key] using hsome)
        rw [Function.update_of_ne hk]
        exact hset k d hw
      · simp only [savedRequests, List.mem_cons, List.not_mem_nil, or_false] at hr
        rcases hr with rfl | rfl
        all_goals
          refine ⟨by simp [Request.write, Write.key], ?_⟩
          rintro _ _ ⟨⟩
          rw [storedPair_saved, Function.update_self]
    · intro k hk
      have hne : k ≠ documentKey id := by
        rintro rfl
        simp at hk
      rw [Function.update_of_ne hne] at hk
      refine (h.assigns.same k hk).trans ?_
      simp only [Online.added, Collection.applyAll_append, savedRequests, Request.write,
        List.map_cons, List.map_nil, Collection.applyAll_cons, Collection.applyAll_nil,
        mem_keys_apply, Write.key, Ne.symm hne, if_false]
  server := h.server

lemma run_delete {s : Online × Log} {es : List OnlineEvent} {row : ℕ} {m : ToDoElementsModel}
    {id : AutoId} (h : Run U email db value spent s (.delete row :: es))
    (hm : s.1.screen.array[row]? = some m)
    (hp : s.1.screen.paths (rowKey U m) = some (ownPath id)) :
    Run U email db value (rowKey U m :: spent) (Online.deleted s row (documentKey id)) es where
  loading := by
    have hd := loading_delete h.loading hm hp
    have he : Online.ideal db (Online.deleted s row (documentKey id)) =
        { Online.ideal db s with
          screen := s.1.screen.removed row
          db := (Online.ideal db s).db.delete (documentKey id) } := by
      simp only [Online.ideal, Online.deleted, Collection.applyAll_append,
        Collection.applyAll_cons, Collection.applyAll_nil, Collection.apply]
    rw [he]
    exact hd
  assigns := by
    have htail := h.assigns.tail
    have hmem := List.mem_of_getElem? hm
    -- the row is live, so the key holds a document with a pair
    obtain ⟨id', hp', hd⟩ := h.loading.tracked.live m hmem (h.loading.fresh m hmem)
    obtain rfl := ownPath_injective (Option.some.inj (hp.symm.trans hp'))
    obtain ⟨e, he, hek⟩ := Collection.mem_keys.mp hd
    obtain ⟨i, _, hi, hdoc⟩ := h.loading.tracked.sound.paths _ _ hp
    obtain rfl := ownPath_injective hi
    obtain ⟨m', hm', _⟩ := hdoc e he hek
    have hval : value (documentKey id) = some (pair U m') := by
      rw [← hek, ← h.assigns.issued e he]
      simp [storedPair, hm']
    refine
      { inj := htail.inj, used := htail.used, ahead := htail.ahead, todo := htail.todo,
        server := htail.server, issued := ?_, pending := ?_, same := ?_ }
    · intro e he
      simp only [Online.deleted, Collection.applyAll_append, Collection.applyAll_cons,
        Collection.applyAll_nil, Collection.apply] at he
      exact h.assigns.issued e (Collection.mem_delete.mp he).1
    · intro r hr
      rcases List.mem_append.mp hr with hr | hr
      · exact h.assigns.pending r hr
      · rw [List.mem_singleton] at hr
        subst hr
        exact ⟨by simp [Request.write, Write.key, hval], by rintro k d ⟨⟩⟩
    · intro k hk
      have hne : documentKey id ≠ k := by
        rintro rfl
        simp [hval] at hk
      refine (h.assigns.same k hk).trans ?_
      simp only [Online.deleted, Collection.applyAll_append, Collection.applyAll_cons,
        Collection.applyAll_nil, mem_keys_apply, Write.key, hne, if_false]
  server := h.server

lemma run_accept {s : Online × Log} {es : List OnlineEvent} {r : Request} {rs : List Request}
    (h : Run U email db value spent s (.accept :: es)) (hp : s.1.pending = r :: rs) :
    Run U email db value spent
      ({ s.1 with server := s.1.server.apply r.write, pending := rs },
        { s.2 with accepted := s.2.accepted ++ [r.write] }) es where
  loading := h.loading
  assigns := by
    have htail := h.assigns.tail
    obtain ⟨hsome, hset⟩ := h.assigns.pending r (by simp [hp])
    refine
      { inj := htail.inj, used := htail.used, ahead := htail.ahead, todo := htail.todo,
        server := ?_, issued := htail.issued,
        pending := fun q hq => h.assigns.pending q (by simp [hp, hq]), same := ?_ }
    · intro e he
      cases hw : r.write with
      | set k d =>
        simp only [hw, Collection.apply, Collection.mem_set] at he
        rcases he with ⟨he, _⟩ | rfl
        · exact h.assigns.server e he
        · exact hset k d hw
      | delete k =>
        simp only [hw, Collection.apply, Collection.mem_delete] at he
        exact h.assigns.server e he.1
    · intro k hk
      refine Iff.trans ?_ (h.assigns.same k hk)
      have hne : r.write.key ≠ k := by
        rintro rfl
        simp [hk] at hsome
      simp only [mem_keys_apply, hne, if_false]
  server := by
    simp only [Collection.applyAll_append, ← h.server, Collection.applyAll_cons,
      Collection.applyAll_nil]

lemma run_step {s t : Online × Log} {e : OnlineEvent} {es : List OnlineEvent}
    (h : Run U email db value spent s (e :: es)) (hs : Online.stepLog U email s e = some t) :
    ∃ value spent, Run U email db value spent t es := by
  obtain ⟨o', l'⟩ := t
  cases e with
  | add id n t' =>
    obtain ⟨⟨hacc, hid⟩, ht⟩ := stepLog_add h.loading.tracked.sound.consistent hs
    exact ⟨_, _, ht ▸ run_add h hacc hid⟩
  | delete row =>
    obtain ⟨m, id, hm, hp, ht⟩ := stepLog_delete h.loading.tracked.sound hs
    exact ⟨_, _, ht ▸ run_delete h hm hp⟩
  | move src dst =>
    obtain ⟨ht, rfl⟩ := observe_some.mp hs
    obtain ⟨s', hs', rfl⟩ := Option.map_eq_some_iff.mp ht
    obtain ⟨⟨hsrc, hdst⟩, rfl⟩ := moveRowAt_ok.mp (toOption_eq_some.mp hs')
    exact ⟨value, spent, ⟨loading_move h.loading hsrc hdst,
      h.assigns.tail.congr rfl rfl rfl fun _ hr => hr, h.server⟩⟩
  | accept =>
    obtain ⟨ht, hl⟩ := observe_some.mp hs
    cases hp : s.1.pending with
    | nil => simp [Online.step, hp] at ht
    | cons r rs =>
      simp only [Online.step, Log.track, hp, Option.some.injEq] at ht hl
      subst ht hl
      exact ⟨value, spent, run_accept h hp⟩
  | reject =>
    obtain ⟨ht, hl⟩ := observe_some.mp hs
    cases hp : s.1.pending with
    | nil => simp [Online.step, hp] at ht
    | cons r rs =>
      simp only [Online.step, Log.track, hp, Option.some.injEq] at ht hl
      subst ht hl
      refine ⟨value, spent, ⟨h.loading, h.assigns.tail.congr rfl rfl rfl ?_, h.server⟩⟩
      exact fun q hq => by simp [hp, show q ∈ rs from hq]
  | report i =>
    obtain ⟨ht, rfl⟩ := observe_some.mp hs
    obtain ⟨r, _, rfl⟩ := Option.map_eq_some_iff.mp ht
    exact ⟨value, spent, ⟨loading_reportError r h.loading,
      h.assigns.tail.congr rfl rfl rfl fun _ hr => hr, h.server⟩⟩

def Online.of (d : Device) : Online := { screen := d.screen, used := d.used, server := d.db }

lemma run_loaded {used : List AutoId} {ds : List Entry} {es : List OnlineEvent}
    (hk : Kept U email used db) (hp : ds.Perm db.docs) (hnodup : (stored U email db).Nodup)
    (hnew : (es.filterMap (OnlineEvent.pair U)).Nodup)
    (hold : ∀ p ∈ es.filterMap (OnlineEvent.pair U), p ∉ stored U email db) :
    Run U email db (fun k => (db.docs.find? (·.key = k)).bind (storedPair U email)) []
      (Online.of ⟨viewDidLoad.loaded U email ds, db, used, .answered⟩, {}) es := by
  have htr := tracked_loaded hk hp
  have hval : ∀ e ∈ db.docs,
      (db.docs.find? (·.key = e.key)).bind (storedPair U email) = storedPair U email e := by
    intro e he
    obtain ⟨e', he'⟩ : ∃ e', db.docs.find? (·.key = e.key) = some e' :=
      Option.isSome_iff_exists.mp (List.find?_isSome.mpr ⟨e, he, by simp⟩)
    have hkey : e'.key = e.key := by simpa using List.find?_some he'
    rw [he', Collection.eq_of_key (List.mem_of_find?_eq_some he') he hkey]
    rfl
  have hinv : ∀ {k p}, (db.docs.find? (·.key = k)).bind (storedPair U email) = some p →
      ∃ e ∈ db.docs, e.key = k ∧ storedPair U email e = some p := by
    intro k p h
    obtain ⟨e, he, hs⟩ := Option.bind_eq_some_iff.mp h
    exact ⟨e, List.mem_of_find?_eq_some he, by simpa using List.find?_some he, hs⟩
  refine
    { loading :=
        { tracked := htr
          fresh := fun _ _ => by simp
          nodup := ?_
          apart := fun _ _ => Multiset.notMem_zero _
          taken := by rintro _ ⟨⟩ }
      assigns :=
        { inj := ?_
          used := ?_
          ahead := ?_
          todo := hnew
          server := fun e he => (hval e he).symm
          issued := fun e he => (hval e he).symm
          pending := by simp [Online.of]
          same := fun _ _ => Iff.rfl }
      server := rfl }
  · have hb := htr.balance
    rw [Multiset.zero_add] at hb
    exact hb ▸ hnodup
  · intro k k' p h h'
    obtain ⟨e, he, rfl, hs⟩ := hinv h
    obtain ⟨e', he', rfl, hs'⟩ := hinv h'
    exact congrArg Document.key (Collection.eq_of_tally_nodup _ hnodup he he' hs hs')
  · intro k p h
    obtain ⟨e, he, rfl, _⟩ := hinv h
    obtain ⟨id, hid, hk', _⟩ := hk e he
    exact ⟨id, hid, hk'⟩
  · intro k p h hm
    obtain ⟨e, he, rfl, hs⟩ := hinv h
    exact hold p hm ((Collection.mem_tally _).mpr ⟨e, he, hs⟩)

lemma reconciled_iff_balance {s : Online × Log} {es : List OnlineEvent}
    (h : Run U email db value spent s es) :
    Reconciled U email s.1 ↔
      stored U email (db.applyAll s.2.issued) = stored U email s.1.server := by
  have hb : stored U email (db.applyAll s.2.issued) = listed U s.1.screen :=
    h.loading.tracked.balance.trans (Multiset.zero_add _)
  have hc : parseInt s.1.screen.tasksCount = some (s.1.screen.array.length : ℤ) :=
    h.loading.tracked.sound.consistent.count
  rw [hb]
  refine ⟨fun h => h.1, fun h => ⟨h, ?_⟩⟩
  rw [hc, ← h]
  simp [listed]

/-- In every state, so also when all writes are decided and all errors reported, list, label and
collection agree exactly when each document has met, by the accepted writes, the fate that the
issued ones meant for it: no handler takes anything back. -/
theorem reconciled_iff_sameFate {used : List AutoId} {documents : List Entry} {d : Device}
    {es : List OnlineEvent} {s : Online × Log} (hk : Kept U email used db)
    (hd : run (Device.step U email) (Device.opened db used) [.snapshot documents, .reply] = some d)
    (hnodup : (stored U email db).Nodup) (hnew : (es.filterMap (OnlineEvent.pair U)).Nodup)
    (hold : ∀ p ∈ es.filterMap (OnlineEvent.pair U), p ∉ stored U email db)
    (hr : run (Online.stepLog U email) (Online.of d, {}) es = some s) :
    Reconciled U email s.1 ↔ db.SameFate s.2.accepted s.2.issued := by
  obtain ⟨hp, rfl⟩ := (run_load hk).mp hd
  obtain ⟨value, spent, h⟩ := run_invariant
    (I := fun s es => ∃ value spent, Run U email db value spent s es)
    (fun s e es t ⟨_, _, h⟩ ht => run_step h ht)
    ⟨_, _, run_loaded hk hp hnodup hnew hold⟩ hr
  rw [reconciled_iff_balance h, Collection.sameFate_iff, ← h.server]
  exact Collection.tally_eq_iff h.assigns.issued h.assigns.server h.assigns.inj
    fun k hk => (h.assigns.same k hk).symm

theorem reconciled_after_rejections : ∃ d s,
    run (Device.step .ascii someMail) (Device.opened oneTask [idA])
      [.snapshot [someEntry idA "run".toList], .reply] = some d ∧
    run (Online.stepLog .ascii someMail) (Online.of d, {})
      [.add idB "read".toList ten, .add idC "rest".toList ten, .delete 2, .reject, .accept,
        .reject, .reject, .reject, .report 3, .report 0, .report 0, .report 0] = some s ∧
    Reconciled .ascii someMail s.1 := by
  have hd := (run_load oneTask_kept).mpr ⟨List.Perm.refl _, rfl⟩
  obtain ⟨s, hs, hf⟩ : ∃ s, run (Online.stepLog .ascii someMail)
      (Online.of ⟨viewDidLoad.loaded .ascii someMail oneTask.docs, oneTask, [idA], .answered⟩, {})
      [.add idB "read".toList ten, .add idC "rest".toList ten, .delete 2, .reject, .accept,
        .reject, .reject, .reject, .report 3, .report 0, .report 0, .report 0] = some s ∧
      oneTask.SameFate s.2.accepted s.2.issued := ⟨_, rfl, by decide⟩
  exact ⟨_, s, hd, hs, (reconciled_iff_sameFate oneTask_kept hd (by decide) (by decide) (by decide)
    hs).mpr hf⟩

theorem rejected_save_stays_listed : ∃ d s,
    run (Device.step .ascii someMail) (Device.opened .empty []) [.snapshot [], .reply] = some d ∧
    run (Online.step .ascii someMail) (Online.of d)
      [.add idA "run".toList ten, .reject, .reject, .report 1, .report 0] = some s ∧
    s.Quiet ∧ s.server.docs = [] ∧ s.screen.array = [⟨"run".toList, ten⟩] ∧
    ¬ Reconciled .ascii someMail s :=
  ⟨_, _, rfl, rfl, ⟨rfl, rfl⟩, rfl, rfl, fun h => absurd h.1 (by decide)⟩

end MobileApps.Storyboard

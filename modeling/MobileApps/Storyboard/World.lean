import MobileApps.Storyboard.Device

/-! Any number of task screens of any accounts over the one collection "task". Every client sends
its writes in the order of their issue, and the server carries out all of them; a snapshot shows the
server's documents under the client's own writes still on their way. -/

namespace MobileApps.Storyboard

open Firestore Library.Unicode Library.DocumentStore Library.Rows Library.Runs

structure Call where
  email : Email
  name : Text
  time : Text
  request : Request

structure Window where
  client : ℕ
  email : Email
  screen : Screen
  load : Load

structure Saved where
  id : AutoId
  email : Email
  name : Text
  time : Text

structure World where
  server : TaskCollection
  pending : ℕ → List Call
  windows : List Window
  saved : List Saved

def World.start : World := ⟨.empty, fun _ => [], [], []⟩

inductive WorldEvent
  | openScreen (client : ℕ) (email : Email)
  | snapshot (i : ℕ) (documents : List Entry)
  | reply (i : ℕ)
  | fail (i : ℕ)
  | add (i : ℕ) (id : AutoId) (name time : Text)
  | delete (i row : ℕ)
  | move (i src dst : ℕ)
  | apply (client : ℕ)

def World.view (w : World) (client : ℕ) : TaskCollection :=
  w.server.applyAll ((w.pending client).map fun call => call.request.write)

def World.setWindow (w : World) (i : ℕ) (v : Window) : World :=
  { w with windows := w.windows.set i v }

def World.issue (w : World) (i : ℕ) (v : Window) (name time : Text)
    (r : Screen × List Request) : World where
  server := w.server
  pending := Function.update w.pending v.client
    (w.pending v.client ++ r.2.map (Call.mk v.email name time))
  windows := w.windows.set i { v with screen := r.1 }
  saved := w.saved

variable (U : Tables)

def Window.step (w : World) (i : ℕ) (v : Window) : WorldEvent → Option World
  | .snapshot _ documents =>
      if v.load = .requested ∧ documents.Perm (w.view v.client).docs then
        some (w.setWindow i { v with load := .taken documents })
      else none
  | .reply _ =>
      match v.load with
      | .taken documents =>
          (loadReply U (some v.email) (.success documents) v.screen).toOption.map fun s =>
            w.setWindow i { v with screen := s, load := .answered }
      | _ => none
  | .fail _ =>
      if v.load = .requested then
        (loadReply U (some v.email) .failure v.screen).toOption.map fun s =>
          w.setWindow i { v with screen := s, load := .answered }
      else none
  | .add _ id name time =>
      if Accepted U name time ∧ id ∉ w.saved.map Saved.id then
        (passBackData U (some v.email) id name time v.screen).toOption.map fun r =>
          { w.issue i v name time r with saved := ⟨id, v.email, name, time⟩ :: w.saved }
      else none
  | .delete _ row =>
      v.screen.array[row]?.bind fun t =>
        (commitDelete U row v.screen).toOption.map (w.issue i v t.name t.time)
  | .move _ src dst => (moveRowAt src dst v.screen).toOption.map fun s =>
      w.setWindow i { v with screen := s }
  | .openScreen .. | .apply _ => none

def World.applyNext (w : World) (client : ℕ) : Option World :=
  match w.pending client with
  | [] => none
  | call :: rest => some { w with
      server := w.server.apply call.request.write
      pending := Function.update w.pending client rest }

def World.step (w : World) (e : WorldEvent) : Option World :=
  match e with
  | .openScreen client email => some { w with
      windows := w.windows ++ [⟨client, email, viewDidLoad, .requested⟩] }
  | .apply client => w.applyNext client
  | .snapshot i _ | .reply i | .fail i | .add i .. | .delete i _ | .move i .. =>
      w.windows[i]?.bind fun v => Window.step U w i v e

inductive Stepped (w : World) : WorldEvent → World → Prop
  | openScreen (client : ℕ) (email : Email) : Stepped w (.openScreen client email)
      { w with windows := w.windows ++ [⟨client, email, viewDidLoad, .requested⟩] }
  | snapshot {i : ℕ} {v : Window} {documents : List Entry} (hv : w.windows[i]? = some v)
      (hp : documents.Perm (w.view v.client).docs) :
      Stepped w (.snapshot i documents) (w.setWindow i { v with load := .taken documents })
  | reply {i : ℕ} {v : Window} {documents : List Entry} (hv : w.windows[i]? = some v)
      (hl : v.load = .taken documents) : Stepped w (.reply i) (w.setWindow i
        { v with screen := v.screen.loaded U v.email documents, load := .answered })
  | fail {i : ℕ} {v : Window} (message : String) (hv : w.windows[i]? = some v) :
      Stepped w (.fail i) (w.setWindow i { v with
        screen := showCount { v.screen with alert := some message }, load := .answered })
  | add {i : ℕ} {v : Window} {id : AutoId} {n t : Text} (hv : w.windows[i]? = some v)
      (hacc : Accepted U n t) (hid : id ∉ w.saved.map Saved.id) : Stepped w (.add i id n t)
        { w.issue i v n t (v.screen.added U id n t, savedRequests v.email id n t) with
          saved := ⟨id, v.email, n, t⟩ :: w.saved }
  | delete {i row : ℕ} {v : Window} {m : ToDoElementsModel} {path : Text} {key : ResourcePath}
      (hv : w.windows[i]? = some v) (hm : v.screen.array[row]? = some m)
      (hp : v.screen.paths (pathKey U m.name m.time) = some path)
      (hk : documentWithPath task path = .ok key) : Stepped w (.delete i row)
        (w.issue i v m.name m.time (v.screen.removed row, [.delete key]))
  | move {i src dst : ℕ} {v : Window} (hv : w.windows[i]? = some v)
      (hs : src < v.screen.array.length) (hd : dst < v.screen.array.length) :
      Stepped w (.move i src dst) (w.setWindow i { v with screen := { v.screen with
        array := v.screen.array.swap src dst, shown := move src dst v.screen.shown } })
  | apply {client : ℕ} {call : Call} {rest : List Call} (hc : w.pending client = call :: rest) :
      Stepped w (.apply client) { w with
        server := w.server.apply call.request.write
        pending := Function.update w.pending client rest }

def Origin (saved : List Saved) (e : Entry) : Prop :=
  ∃ s ∈ saved, e.key = documentKey s.id ∧ Accepted U s.name s.time ∧
    ∃ p, (p = [] ∨ p = ownPath s.id) ∧ e.data = [(s.email, .strings [s.name, s.time, p])]

def Aimed (saved : List Saved) (call : Call) (key : ResourcePath) : Prop :=
  ∃ s ∈ saved, key = documentKey s.id ∧ s.email = call.email ∧ U.same s.name call.name ∧
    U.same s.time call.time

def Call.Fits (saved : List Saved) (call : Call) : Prop :=
  match call.request with
  | .addDocument key data | .setData key data => Origin U saved ⟨key, data⟩
  | .delete key => Aimed U saved call key

structure Window.Sound (saved : List Saved) (v : Window) : Prop where
  consistent : v.screen.Consistent U
  accepted : ∀ m ∈ v.screen.array, Accepted U m.name m.time
  taken : ∀ documents, v.load = .taken documents → ∀ e ∈ documents, Origin U saved e
  paths : ∀ k p, v.screen.paths k = some p → p = [] ∨ ∃ s ∈ saved, p = ownPath s.id ∧
    s.email = v.email ∧ Accepted U s.name s.time ∧ pathKey U s.name s.time = k

structure World.Sound (w : World) : Prop where
  ids : (w.saved.map Saved.id).Nodup
  server : ∀ e ∈ w.server.docs, Origin U w.saved e
  pending : ∀ c, ∀ call ∈ w.pending c, call.Fits U w.saved
  windows : ∀ v ∈ w.windows, v.Sound U w.saved

variable {U} {saved saved' : List Saved}

lemma Origin.mono {e : Entry} (h : Origin U saved e) (hs : ∀ s ∈ saved, s ∈ saved') :
    Origin U saved' e := by
  obtain ⟨s, hm, h⟩ := h
  exact ⟨s, hs s hm, h⟩

lemma Call.Fits.mono {call : Call} (h : call.Fits U saved) (hs : ∀ s ∈ saved, s ∈ saved') :
    call.Fits U saved' := by
  unfold Call.Fits at *
  split at h
  · exact h.mono hs
  · exact h.mono hs
  · obtain ⟨s, hm, h⟩ := h
    exact ⟨s, hs s hm, h⟩

lemma Window.Sound.mono {v : Window} (h : v.Sound U saved) (hs : ∀ s ∈ saved, s ∈ saved') :
    v.Sound U saved' where
  consistent := h.consistent
  accepted := h.accepted
  taken documents hl e he := (h.taken documents hl e he).mono hs
  paths := by
    intro k p hp
    rcases h.paths k p hp with rfl | ⟨s, hm, h⟩
    · exact Or.inl rfl
    · exact Or.inr ⟨s, hs s hm, h⟩

lemma Origin.stored {e : Entry} (h : Origin U saved e) {email : Email} {m : ToDoElementsModel}
    {p : Text} (hs : storedTask email e = some (m, p)) : ∃ s ∈ saved, e.key = documentKey s.id ∧
      s.email = email ∧ m = ⟨s.name, s.time⟩ ∧ Accepted U s.name s.time ∧
      (p = [] ∨ p = ownPath s.id) := by
  obtain ⟨s, hm, hk, hacc, q, hq, hd⟩ := h
  by_cases he : email = s.email
  · subst he
    simp only [storedTask, hd, List.lookup_cons, beq_self_eq_true, Option.some.injEq,
      Prod.mk.injEq] at hs
    obtain ⟨rfl, rfl⟩ := hs
    exact ⟨s, hm, hk, rfl, rfl, hacc, hq⟩
  · have hl : e.data.lookup email = none := by simp [hd, he]
    simp [storedTask, hl] at hs

lemma Origin.wellStored {e : Entry} (h : Origin U saved e) (email : Email) :
    WellStored email e := by
  obtain ⟨s, _, _, _, p, _, hd⟩ := h
  by_cases he : email = s.email
  · exact Or.inr ⟨s.name, s.time, p, by simp [hd, he]⟩
  · exact Or.inl (by simp [hd, he])

lemma Call.Fits.set {call : Call} (h : call.Fits U saved) {key : ResourcePath} {data : Fields}
    (hw : call.request.write = .set key data) : Origin U saved ⟨key, data⟩ := by
  unfold Call.Fits at h
  cases hr : call.request with
  | addDocument k d =>
    rw [hr] at h hw
    obtain ⟨rfl, rfl⟩ := Write.set.inj hw
    exact h
  | setData k d =>
    rw [hr] at h hw
    obtain ⟨rfl, rfl⟩ := Write.set.inj hw
    exact h
  | delete k =>
    rw [hr] at hw
    cases hw

lemma view_origin {w : World} (h : w.Sound U) (c : ℕ) :
    ∀ e ∈ (w.view c).docs, Origin U w.saved e := by
  intro e he
  rcases Collection.mem_applyAll he with he | he
  · exact h.server e he
  · obtain ⟨call, hc, hw⟩ := List.mem_map.mp he
    exact (h.pending c call hc).set hw

lemma start_sound : World.start.Sound U where
  ids := List.nodup_nil
  server e he := by cases he
  pending c call hc := by cases hc
  windows v hv := by cases hv

lemma sound_setWindow {w : World} (h : w.Sound U) (i : ℕ) {v : Window} (hv : v.Sound U w.saved) :
    (w.setWindow i v).Sound U where
  ids := h.ids
  server := h.server
  pending := h.pending
  windows := by
    intro v' hv'
    rcases List.mem_or_eq_of_mem_set hv' with hv' | rfl
    · exact h.windows v' hv'
    · exact hv

lemma sound_issue {w : World} (h : w.Sound U) (i : ℕ) {v : Window} {name time : Text}
    {r : Screen × List Request} (hs : ∀ s ∈ w.saved, s ∈ saved')
    (hids : (saved'.map Saved.id).Nodup) (hv : Window.Sound U saved' { v with screen := r.1 })
    (hr : ∀ q ∈ r.2, (Call.mk v.email name time q).Fits U saved') :
    World.Sound U { w.issue i v name time r with saved := saved' } where
  ids := hids
  server e he := (h.server e he).mono hs
  pending := by
    intro c call hc
    by_cases hcv : c = v.client
    · subst hcv
      simp only [World.issue, Function.update_self, List.mem_append] at hc
      rcases hc with hc | hc
      · exact (h.pending _ call hc).mono hs
      · obtain ⟨q, hq, rfl⟩ := List.mem_map.mp hc
        exact hr q hq
    · simp only [World.issue, Function.update_of_ne hcv] at hc
      exact (h.pending c call hc).mono hs
  windows := by
    intro v' hv'
    rcases List.mem_or_eq_of_mem_set hv' with hv' | rfl
    · exact (h.windows v' hv').mono hs
    · exact hv

lemma sound_loaded {v : Window} (h : v.Sound U saved) {documents : List Entry}
    (hl : v.load = .taken documents) : Window.Sound U saved
      { v with screen := v.screen.loaded U v.email documents, load := .answered } where
  consistent := loaded_consistent U h.consistent _ _
  accepted := by
    intro m hm
    rw [loaded_array] at hm
    rcases List.mem_append.mp hm with hm | hm
    · exact h.accepted m hm
    · obtain ⟨e, he, hem⟩ := List.mem_filterMap.mp hm
      obtain ⟨⟨m', p⟩, hs, rfl⟩ := Option.map_eq_some_iff.mp hem
      obtain ⟨s, _, _, _, rfl, hacc, _⟩ := (h.taken documents hl e he).stored hs
      exact hacc
  taken := by rintro _ ⟨⟩
  paths := by
    intro k p hp
    rcases loaded_paths U v.screen v.email documents k with ⟨e, he, m, q, hs, hk, hq⟩ | ⟨_, hq⟩
    · obtain rfl : q = p := Option.some.inj (hq.symm.trans hp)
      obtain ⟨s, hsaved, _, hse, rfl, hacc, hp'⟩ := (h.taken documents hl e he).stored hs
      rcases hp' with rfl | rfl
      · exact Or.inl rfl
      · exact Or.inr ⟨s, hsaved, rfl, hse, hacc, hk⟩
    · exact h.paths k p (hq.symm.trans hp)

lemma sound_failed {v : Window} (h : v.Sound U saved) {message : String} : Window.Sound U saved
    { v with
      screen := showCount { v.screen with alert := some message }, load := .answered } where
  consistent :=
    { count := by simp [showCount, reloadData, Library.Decimal.parseInt_intText]
      rows := rfl
      entries := h.consistent.entries }
  accepted := h.accepted
  taken := by rintro _ ⟨⟩
  paths := h.paths

lemma sound_added {v : Window} (h : v.Sound U saved) {s : Saved} (he : s.email = v.email)
    (hacc : Accepted U s.name s.time) : Window.Sound U (s :: saved)
      { v with screen := v.screen.added U s.id s.name s.time } where
  consistent := added_consistent U h.consistent s.id s.name s.time
  accepted := by
    intro m hm
    rcases List.mem_append.mp hm with hm | hm
    · exact h.accepted m hm
    · rw [List.mem_singleton] at hm
      exact hm ▸ hacc
  taken documents hl e hm := (h.taken documents hl e hm).mono fun _ hs => List.mem_cons_of_mem _ hs
  paths := by
    intro k p hp
    by_cases hk : k = pathKey U s.name s.time
    · subst hk
      obtain rfl : ownPath s.id = p := by simpa [Screen.added] using hp
      exact Or.inr ⟨s, List.mem_cons_self, rfl, he, hacc, rfl⟩
    · rcases h.paths k p (by simpa [Screen.added, Function.update_of_ne hk] using hp) with
        rfl | ⟨s', hs', h'⟩
      · exact Or.inl rfl
      · exact Or.inr ⟨s', List.mem_cons_of_mem _ hs', h'⟩

lemma sound_removed {v : Window} (h : v.Sound U saved) {row : ℕ}
    (hrow : row < v.screen.array.length) :
    Window.Sound U saved { v with screen := v.screen.removed row } where
  consistent := removed_consistent U h.consistent hrow
  accepted m hm := h.accepted m (eraseIdx_subset _ _ hm)
  taken := h.taken
  paths := h.paths

lemma sound_moved {v : Window} (h : v.Sound U saved) {src dst : ℕ}
    (hs : src < v.screen.array.length) (hd : dst < v.screen.array.length) :
    Window.Sound U saved { v with screen := { v.screen with
      array := v.screen.array.swap src dst, shown := move src dst v.screen.shown } } where
  consistent := moved_consistent U h.consistent hs hd
  accepted m hm := h.accepted m ((swap_perm _ _ _).mem_iff.mp hm)
  taken := h.taken
  paths := h.paths

lemma aimed_deletion {v : Window} (h : v.Sound U saved) {row : ℕ} {m : ToDoElementsModel}
    {path : Text} {key : ResourcePath} (hm : v.screen.array[row]? = some m)
    (hp : v.screen.paths (pathKey U m.name m.time) = some path)
    (hk : documentWithPath task path = .ok key) :
    Aimed U saved ⟨v.email, m.name, m.time, .delete key⟩ key := by
  rcases h.paths _ path hp with rfl | ⟨s, hs, rfl, he, hacc, hkey⟩
  · -- loaded between the two writes of a save: no deletion is sent
    rw [documentWithPath_nil] at hk
    cases hk
  · rw [documentWithPath_ownPath] at hk
    obtain rfl := Except.ok.inj hk
    obtain ⟨hn, ht⟩ := pathKey_injective U hacc (h.accepted m (List.mem_of_getElem? hm)) hkey
    exact ⟨s, hs, rfl, he, hn, ht⟩

theorem stepped {w w' : World} {e : WorldEvent} (h : w.Sound U) (hs : w.step U e = some w') :
    Stepped U w e w' := by
  have window : ∀ {i : ℕ}, (w.windows[i]?.bind fun v => Window.step U w i v e) = some w' →
      ∃ v, w.windows[i]? = some v ∧ v.Sound U w.saved ∧ Window.step U w i v e = some w' := by
    intro i hb
    obtain ⟨v, hv, hs⟩ := Option.bind_eq_some_iff.mp hb
    exact ⟨v, hv, h.windows v (List.mem_of_getElem? hv), hs⟩
  cases e with
  | openScreen client email =>
    obtain rfl := Option.some.inj hs
    exact .openScreen client email
  | snapshot i documents =>
    obtain ⟨v, hv, _, hs⟩ := window hs
    obtain ⟨⟨_, hp⟩, rfl⟩ := guarded_some.mp hs
    exact .snapshot hv hp
  | reply i =>
    obtain ⟨v, hv, hsound, hs⟩ := window hs
    cases hl : v.load with
    | requested => simp [Window.step, hl] at hs
    | answered => simp [Window.step, hl] at hs
    | taken documents =>
      have hw := fun e he => (hsound.taken documents hl e he).wellStored v.email
      simp only [Window.step, hl, loadReply_eq U hsound.consistent.rows hw] at hs
      obtain rfl := Option.some.inj hs
      exact .reply hv hl
  | fail i =>
    obtain ⟨v, hv, _, hs⟩ := window hs
    obtain ⟨_, rfl⟩ := guarded_some.mp hs
    exact .fail _ hv
  | add i id n t =>
    obtain ⟨v, hv, hsound, hs⟩ := window hs
    simp only [Window.step, passBackData_eq U hsound.consistent] at hs
    obtain ⟨⟨hacc, hid⟩, rfl⟩ := guarded_some.mp hs
    exact .add hv hacc hid
  | delete i row =>
    obtain ⟨v, hv, hsound, hs⟩ := window hs
    obtain ⟨m', hm', hs⟩ := Option.bind_eq_some_iff.mp hs
    obtain ⟨r, hr, rfl⟩ := Option.map_eq_some_iff.mp hs
    obtain ⟨m, path, key, hm, hp, hk, rfl⟩ :=
      (commitDelete_ok U hsound.consistent).mp (toOption_eq_some.mp hr)
    obtain rfl := Option.some.inj (hm.symm.trans hm')
    exact .delete hv hm hp hk
  | move i src dst =>
    obtain ⟨v, hv, _, hs⟩ := window hs
    obtain ⟨s, hm, rfl⟩ := Option.map_eq_some_iff.mp hs
    obtain ⟨⟨hsrc, hdst⟩, rfl⟩ := moveRowAt_ok.mp (toOption_eq_some.mp hm)
    exact .move hv hsrc hdst
  | apply client =>
    simp only [World.step, World.applyNext] at hs
    split at hs
    · cases hs
    · rename_i hc
      obtain rfl := Option.some.inj hs
      exact .apply hc

lemma savedRequests_fit {s : Saved} (hs : s ∈ saved) (hacc : Accepted U s.name s.time) :
    ∀ q ∈ savedRequests s.email s.id s.name s.time,
      (Call.mk s.email s.name s.time q).Fits U saved := by
  intro q hq
  simp only [savedRequests, List.mem_cons, List.not_mem_nil, or_false] at hq
  rcases hq with rfl | rfl
  · exact ⟨s, hs, rfl, hacc, [], Or.inl rfl, rfl⟩
  · exact ⟨s, hs, rfl, hacc, _, Or.inr rfl, rfl⟩

theorem world_step_sound {w w' : World} {e : WorldEvent} (h : w.Sound U)
    (hs : w.step U e = some w') : w'.Sound U := by
  have sound : ∀ {i : ℕ} {v : Window}, w.windows[i]? = some v → v.Sound U w.saved :=
    fun hv => h.windows _ (List.mem_of_getElem? hv)
  cases stepped h hs with
  | openScreen client email =>
    refine ⟨h.ids, h.server, h.pending, fun v hv => ?_⟩
    rcases List.mem_append.mp hv with hv | hv
    · exact h.windows v hv
    · rw [List.mem_singleton] at hv
      subst hv
      exact
        { consistent := viewDidLoad_consistent U
          accepted := by simp [viewDidLoad, loadTasks]
          taken := by rintro _ ⟨⟩
          paths := by simp [viewDidLoad, loadTasks] }
  | snapshot hv hp =>
    have hv := sound hv
    refine sound_setWindow h _ ⟨hv.consistent, hv.accepted, ?_, hv.paths⟩
    rintro _ ⟨⟩ e he
    exact view_origin h _ e (hp.mem_iff.mp he)
  | reply hv hl => exact sound_setWindow h _ (sound_loaded (sound hv) hl)
  | fail message hv => exact sound_setWindow h _ (sound_failed (sound hv))
  | add hv hacc hid =>
    refine sound_issue h _ (fun s hs => List.mem_cons_of_mem _ hs)
      (List.nodup_cons.mpr ⟨hid, h.ids⟩) ?_ ?_
    · exact sound_added (s := ⟨_, _, _, _⟩) (sound hv) rfl hacc
    · exact savedRequests_fit (s := ⟨_, _, _, _⟩) List.mem_cons_self hacc
  | delete hv hm hp hk =>
    refine sound_issue h _ (fun s hs => hs) h.ids
      (sound_removed (sound hv) (List.getElem?_eq_some_iff.mp hm).1) fun q hq => ?_
    obtain rfl := List.mem_singleton.mp hq
    exact aimed_deletion (sound hv) hm hp hk
  | move hv hsrc hdst => exact sound_setWindow h _ (sound_moved (sound hv) hsrc hdst)
  | @apply client _ _ hc =>
    refine ⟨h.ids, fun e he => ?_, fun c call hcall => ?_, h.windows⟩
    · rcases Collection.mem_apply.mp he with ⟨he, _⟩ | hw
      · exact h.server e he
      · exact (h.pending _ _ (hc ▸ List.mem_cons_self)).set hw
    · by_cases hcc : c = client
      · subst hcc
        simp only [Function.update_self] at hcall
        exact h.pending _ call (hc ▸ List.mem_cons_of_mem _ hcall)
      · simp only [Function.update_of_ne hcc] at hcall
        exact h.pending c call hcall

lemma reachable_sound {w : World} {es : List WorldEvent}
    (h : run (World.step U) World.start es = some w) : w.Sound U :=
  run_invariant (I := fun w _ => w.Sound U) (fun _ _ _ _ h hs => world_step_sound h hs)
    start_sound h

/-- Whatever the screens of all accounts do: a document that a deletion removes was created by a
save under the email of the screen, and holds the name and the time that were to be deleted. -/
theorem deletion_removes_own {es : List WorldEvent} {w : World}
    (h : run (World.step U) World.start es = some w) {client : ℕ} {call : Call}
    {rest : List Call} {key : ResourcePath} (hc : w.pending client = call :: rest)
    (hd : call.request = .delete key) :
    ∀ e ∈ w.server.docs, e.key = key → ∃ s ∈ w.saved, e.key = documentKey s.id ∧
      s.email = call.email ∧ (∃ p, e.data = [(s.email, .strings [s.name, s.time, p])]) ∧
      U.same s.name call.name ∧ U.same s.time call.time := by
  intro e he hek
  have hw := reachable_sound h
  have hf := hw.pending client call (hc ▸ List.mem_cons_self)
  simp only [Call.Fits, hd] at hf
  obtain ⟨s, hs, hk, hemail, hn, ht⟩ := hf
  obtain ⟨s', hs', hk', _, p, _, hdata⟩ := hw.server e he
  have hid : s'.id = s.id := documentKey_injective (hk'.symm.trans (hek.trans hk))
  obtain rfl := List.inj_on_of_nodup_map hw.ids hs' hs hid
  exact ⟨s', hs', hk', hemail, ⟨p, hdata⟩, hn, ht⟩

theorem deletion_beside_other : ∃ w call rest,
    run (World.step .ascii) World.start
      [.openScreen 0 someMail, .openScreen 1 otherMail, .add 0 idA "run".toList ten,
        .add 1 idB "run".toList ten, .apply 1, .apply 0, .apply 1, .apply 0, .delete 0 0] = some w ∧
    w.pending 0 = call :: rest ∧ call.request = .delete (documentKey idA) ∧
    ∀ e ∈ w.server.docs, e.key = documentKey idA → ∃ s ∈ w.saved, s.email = someMail := by
  obtain ⟨w, hw, call, rest, hc, hd, he⟩ : ∃ w, run (World.step .ascii) World.start
      [.openScreen 0 someMail, .openScreen 1 otherMail, .add 0 idA "run".toList ten,
        .add 1 idB "run".toList ten, .apply 1, .apply 0, .apply 1, .apply 0, .delete 0 0] = some w ∧
      ∃ call rest, w.pending 0 = call :: rest ∧ call.request = .delete (documentKey idA) ∧
        call.email = someMail := ⟨_, rfl, _, _, rfl, rfl, rfl⟩
  refine ⟨w, call, rest, hw, hc, hd, fun e hm hk => ?_⟩
  obtain ⟨s, hs, _, hemail, _⟩ := deletion_removes_own hw hc hd e hm hk
  exact ⟨s, hs, hemail.trans he⟩

end MobileApps.Storyboard

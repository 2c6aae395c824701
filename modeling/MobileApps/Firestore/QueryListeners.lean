import MobileApps.Firestore.LiveRuns

/-! Which snapshots of its view a listener passes on, and when it passes on the first: with that a
read of a collection is answered. `query_listener.cc`, and what `event_manager.cc` and
`query_core.cc` do about one listener. -/

namespace MobileApps.Firestore

open Library.Runs Library.OrderedSets

variable {U D : Type} {n : ℕ}

structure ListenOptions where
  includeQueryMetadataChanges : Bool
  includeDocumentMetadataChanges : Bool
  waitForSyncWhenOnline : Bool

def ListenOptions.getDocuments : ListenOptions := ⟨true, true, true⟩

structure QueryListener (D : Type) where
  options : ListenOptions
  onlineState : OnlineState
  raisedInitialEvent : Bool
  snapshot : Option (ViewSnapshot D)

def ViewSnapshot.withoutMetadataChanges (s : ViewSnapshot D) : ViewSnapshot D :=
  { s with
    documentChanges := s.documentChanges.filter fun change => change.type ≠ .metadata
    excludesMetadataChanges := true }

namespace QueryListener

def start (options : ListenOptions) (onlineState : OnlineState) : QueryListener D :=
  ⟨options, onlineState, false, none⟩

def shouldRaiseInitialEvent (snapshot : ViewSnapshot D) (onlineState : OnlineState)
    (l : QueryListener D) : Except Halt Bool := do
  hardAssert (l.raisedInitialEvent = false)
    "Determining whether to raise initial event, but already had first event."
  if snapshot.fromCache = false then .ok true
  else if l.options.waitForSyncWhenOnline = true ∧ onlineState ≠ .offline then do
    hardAssert (snapshot.fromCache = true) "Waiting for sync, but snapshot is not from cache."
    .ok false
  else .ok (!snapshot.documents.members.isEmpty || snapshot.hasCachedResults ||
    onlineState = .offline)

def shouldRaiseEvent (snapshot : ViewSnapshot D) (l : QueryListener D) : Bool :=
  if ¬ snapshot.documentChanges.isEmpty then true
  else
    let hasPendingWritesChanged :=
      l.snapshot.elim false fun old => old.hasPendingWrites != snapshot.hasPendingWrites
    if snapshot.syncStateChanged || hasPendingWritesChanged then
      l.options.includeQueryMetadataChanges
    else false

def raiseInitialEvent (snapshot : ViewSnapshot D) (l : QueryListener D) :
    Except Halt (QueryListener D × ViewSnapshot D) := do
  hardAssert (l.raisedInitialEvent = false) "Trying to raise initial events for second time"
  .ok ({ l with raisedInitialEvent := true },
    .fromInitialDocuments snapshot.query snapshot.documents snapshot.mutatedKeys snapshot.fromCache
      snapshot.excludesMetadataChanges snapshot.hasCachedResults)

def tryInitialEvent (snapshot : ViewSnapshot D) (l : QueryListener D) :
    Except Halt (QueryListener D × Option (ViewSnapshot D)) := do
  let raise ← l.shouldRaiseInitialEvent snapshot l.onlineState
  if raise then do
    let (l, event) ← l.raiseInitialEvent snapshot
    .ok (l, some event)
  else .ok (l, none)

def onViewSnapshot (snapshot : ViewSnapshot D) (l : QueryListener D) :
    Except Halt (QueryListener D × Option (ViewSnapshot D)) := do
  hardAssert (snapshot.documentChanges.isEmpty = false ∨ snapshot.syncStateChanged = true)
    "We got a new snapshot with no changes?"
  let snapshot :=
    if l.options.includeDocumentMetadataChanges then snapshot else snapshot.withoutMetadataChanges
  let (l, event) ←
    if l.raisedInitialEvent = false then l.tryInitialEvent snapshot
    else .ok (l, if l.shouldRaiseEvent snapshot then some snapshot else none)
  .ok ({ l with snapshot := some snapshot }, event)

def onOnlineStateChanged (onlineState : OnlineState) (l : QueryListener D) :
    Except Halt (QueryListener D × Option (ViewSnapshot D)) :=
  let l := { l with onlineState }
  match l.snapshot with
  | none => .ok (l, none)
  | some snapshot =>
      if l.raisedInitialEvent = false then l.tryInitialEvent snapshot else .ok (l, none)

end QueryListener

lemma QueryListener.shouldRaiseInitialEvent_eq {l : QueryListener D}
    (h : l.raisedInitialEvent = false) (s : ViewSnapshot D) (onlineState : OnlineState) : ∃ raise,
      l.shouldRaiseInitialEvent s onlineState = .ok raise ∧
      (raise = false → s.fromCache = true ∧ onlineState ≠ .offline) ∧
      (raise = true → l.options.waitForSyncWhenOnline = true →
        s.fromCache = false ∨ onlineState = .offline) := by
  cases hcache : s.fromCache with
  | false =>
    exact ⟨true, by simp [shouldRaiseInitialEvent, hardAssert, h, hcache, bind, Except.bind],
      fun h => Bool.noConfusion h, fun _ _ => Or.inl rfl⟩
  | true =>
    by_cases hwait : l.options.waitForSyncWhenOnline = true ∧ onlineState ≠ .offline
    · refine ⟨false, ?_, fun _ => ⟨rfl, hwait.2⟩, fun h => Bool.noConfusion h⟩
      simp [shouldRaiseInitialEvent, hardAssert, h, hcache, hwait, bind, Except.bind]
    · refine ⟨!s.documents.members.isEmpty || s.hasCachedResults || onlineState = .offline, ?_,
        fun hfalse => ⟨rfl, fun ho => ?_⟩, fun _ hw => Or.inr ?_⟩
      · simp only [shouldRaiseInitialEvent, hardAssert, h, hcache, hwait, if_true, if_false,
          Bool.true_eq_false, bind, Except.bind]
      · simp [ho] at hfalse
      · exact not_not.mp fun ho => hwait ⟨hw, ho⟩

lemma QueryListener.tryInitialEvent_eq {l : QueryListener D} (h : l.raisedInitialEvent = false)
    (s : ViewSnapshot D) : ∃ event,
      l.tryInitialEvent s = .ok ({ l with raisedInitialEvent := event.isSome }, event) ∧
      (event = none → s.fromCache = true ∧ l.onlineState ≠ .offline) ∧
      ∀ e ∈ event, e.documentChanges = s.documents.members.map (fun doc => ⟨doc, .added⟩) ∧
        (l.options.waitForSyncWhenOnline = true →
          e.fromCache = false ∨ l.onlineState = .offline) := by
  obtain ⟨raise, hraise, hfalse, htrue⟩ := shouldRaiseInitialEvent_eq h s l.onlineState
  cases raise with
  | false =>
    have hsame : { l with raisedInitialEvent := false } = l := by rw [← h]
    refine ⟨none, ?_, fun _ => hfalse rfl, nofun⟩
    simp [tryInitialEvent, hraise, hsame, bind, Except.bind]
  | true =>
    refine ⟨some (.fromInitialDocuments s.query s.documents s.mutatedKeys s.fromCache
      s.excludesMetadataChanges s.hasCachedResults), ?_, nofun, fun e he => ?_⟩
    · simp [tryInitialEvent, hraise, raiseInitialEvent, h, hardAssert, bind, Except.bind]
    · obtain rfl := Option.some.inj he
      exact ⟨rfl, htrue rfl⟩

lemma follow_initial (documents : DocumentSet D) :
    (documents.members.map fun doc => (⟨doc, .added⟩ : DocumentViewChange D)).foldl
      DocumentViewChange.follow .empty = documents := by
  have hnodup : ((documents.members.map fun doc => (⟨doc, .added⟩ : DocumentViewChange D)).map
      fun change => change.document.key).Nodup := by
    rw [List.map_map]
    exact List.pairwise_map.mpr (documents.ascends.imp fun hlt => hlt.ne)
  obtain ⟨hothers, hall⟩ := View.follow_all hnodup (.empty : DocumentSet D)
  refine OrderedSet.ext_find fun k => ?_
  cases hd : documents.find k with
  | none =>
    refine hothers k fun change hc he => ?_
    obtain ⟨doc, hdoc, rfl⟩ := List.mem_map.mp hc
    have hfind := OrderedSet.find_eq_some.mpr ⟨hdoc, he⟩
    rw [hd] at hfind
    cases hfind
  | some doc =>
    obtain ⟨hdoc, rfl⟩ := OrderedSet.find_eq_some.mp hd
    exact hall ⟨doc, .added⟩ (List.mem_map.mpr ⟨doc, hdoc, rfl⟩)

/-- A listener with the documents that it has from its events, and the first of these with the
online state that it came in. -/
structure Reader (D : Type) where
  listener : QueryListener D
  shown : DocumentSet D
  answer : Option (ViewSnapshot D × OnlineState)

namespace Reader

def start (options : ListenOptions) (onlineState : OnlineState) : Reader D :=
  ⟨.start options onlineState, .empty, none⟩

def raise (r : Reader D) (raised : QueryListener D × Option (ViewSnapshot D)) : Reader D where
  listener := raised.1
  shown := raised.2.elim r.shown fun event =>
    event.documentChanges.foldl DocumentViewChange.follow r.shown
  answer := r.answer.or (raised.2.map fun event => (event, raised.1.onlineState))

def onViewSnapshot (r : Reader D) (snapshot : ViewSnapshot D) : Except Halt (Reader D) := do
  let raised ← r.listener.onViewSnapshot snapshot
  .ok (r.raise raised)

def onOnlineStateChanged (onlineState : OnlineState) (r : Reader D) : Except Halt (Reader D) := do
  let raised ← r.listener.onOnlineStateChanged onlineState
  .ok (r.raise raised)

structure Follows (options : ListenOptions) (onlineState : OnlineState) (r : Reader D) : Prop where
  configured : r.listener.options = options
  online : r.listener.onlineState = onlineState
  raised : r.listener.raisedInitialEvent = r.answer.isSome
  fresh : r.answer = none → r.shown = .empty
  waited : ∀ answer ∈ r.answer, options.waitForSyncWhenOnline = true →
    answer.1.fromCache = false ∨ answer.2 = .offline

structure Answered (options : ListenOptions) (onlineState : OnlineState) (v : View D)
    (r : Reader D) : Prop extends r.Follows options onlineState where
  last : ∃ s, r.listener.snapshot = some s ∧ s.documents = v.documentSet ∧
    (s.fromCache = false ↔ v.syncState = .synced)
  pending : r.answer = none → v.syncState ≠ .synced ∧ onlineState ≠ .offline
  shown : options.includeDocumentMetadataChanges = true → r.answer ≠ none →
    r.shown = v.documentSet

lemma raise_initial {options : ListenOptions} {onlineState : OnlineState} {r : Reader D}
    (h : r.Follows options onlineState) (hnone : r.answer = none) {s : ViewSnapshot D}
    {v : View D} (hdocuments : s.documents = v.documentSet)
    (hsynced : s.fromCache = false ↔ v.syncState = .synced)
    {l : QueryListener D} {event : Option (ViewSnapshot D)}
    (hconfigured : l.options = options) (honline : l.onlineState = onlineState)
    (hraised : l.raisedInitialEvent = event.isSome) (hlast : l.snapshot = some s)
    (hsilent : event = none → s.fromCache = true ∧ onlineState ≠ .offline)
    (hevent : ∀ e ∈ event, e.documentChanges = s.documents.members.map (fun doc => ⟨doc, .added⟩) ∧
      (options.waitForSyncWhenOnline = true → e.fromCache = false ∨ onlineState = .offline)) :
    (r.raise (l, event)).Answered options onlineState v := by
  have hempty := h.fresh hnone
  cases event with
  | none =>
    refine ⟨⟨hconfigured, honline, ?_, fun _ => hempty, ?_⟩, ⟨s, hlast, hdocuments, hsynced⟩,
      fun _ => ?_, fun _ hsome => ?_⟩
    · simp [raise, hnone, hraised]
    · simp [raise, hnone]
    · obtain ⟨hcache, hoffline⟩ := hsilent rfl
      exact ⟨fun hs => by simp [hsynced.mpr hs] at hcache, hoffline⟩
    · simp [raise, hnone] at hsome
  | some event =>
    obtain ⟨hchanges, hfrom⟩ := hevent event rfl
    refine ⟨⟨hconfigured, honline, ?_, ?_, ?_⟩, ⟨s, hlast, hdocuments, hsynced⟩, ?_,
      fun _ _ => ?_⟩
    · simp [raise, hnone, hraised]
    · simp [raise, hnone]
    · simpa [raise, hnone, honline] using hfrom
    · simp [raise, hnone]
    · rw [raise, Option.elim_some, hempty, hchanges, follow_initial, hdocuments]

lemma raise_next {options : ListenOptions} {onlineState : OnlineState} {r : Reader D}
    (h : r.Follows options onlineState) {answer : ViewSnapshot D × OnlineState}
    (hanswer : r.answer = some answer) {s : ViewSnapshot D} {v w : View D}
    (hdocuments : s.documents = w.documentSet)
    (hsynced : s.fromCache = false ↔ w.syncState = .synced)
    (hshown : options.includeDocumentMetadataChanges = true → r.shown = v.documentSet)
    (hfollow : options.includeDocumentMetadataChanges = true →
      s.documentChanges.foldl DocumentViewChange.follow v.documentSet = w.documentSet) :
    (r.raise ({ r.listener with snapshot := some s },
      if r.listener.shouldRaiseEvent s then some s else none)).Answered options onlineState w := by
  have hraised : r.listener.raisedInitialEvent = true := by rw [h.raised, hanswer]; rfl
  refine ⟨⟨h.configured, h.online, ?_, ?_, ?_⟩, ⟨s, rfl, hdocuments, hsynced⟩, ?_, fun hall _ => ?_⟩
  · simp [raise, hanswer, hraised]
  · simp [raise, hanswer]
  · simpa [raise, hanswer] using h.waited
  · simp [raise, hanswer]
  · rw [← hfollow hall, ← hshown hall, raise]
    cases hchanged : s.documentChanges.isEmpty with
    | true =>
      have hnone : s.documentChanges = [] := List.isEmpty_iff.mp hchanged
      split <;> simp [hnone]
    | false =>
      have hraise : r.listener.shouldRaiseEvent s = true := by
        simp [QueryListener.shouldRaiseEvent, hchanged]
      rw [hraise, if_pos rfl, Option.elim_some]

lemma onViewSnapshot_eq {options : ListenOptions} {onlineState : OnlineState} {r : Reader D}
    (h : r.Follows options onlineState) {v w : View D}
    (hshown : options.includeDocumentMetadataChanges = true → r.answer ≠ none →
      r.shown = v.documentSet)
    {s : ViewSnapshot D} (htold : v.Told w (some s)) :
    ∃ r', r.onViewSnapshot s = .ok r' ∧ r'.Answered options onlineState w := by
  obtain ⟨hof, hold, hfollow, htells⟩ := htold.told s rfl
  have hassert : s.documentChanges.isEmpty = false ∨ s.syncStateChanged = true :=
    htells.imp_left fun hne => by simpa using hne
  generalize hpassed : (if r.listener.options.includeDocumentMetadataChanges then s
    else s.withoutMetadataChanges) = t
  have hdocuments : t.documents = w.documentSet := by
    rw [← hof.2.1, ← hpassed]
    split <;> rfl
  have hsynced : t.fromCache = false ↔ w.syncState = .synced := by
    rw [← hof.2.2.2, ← hpassed]
    split <;> rfl
  cases hanswer : r.answer with
  | none =>
    have hfirst : r.listener.raisedInitialEvent = false := by rw [h.raised, hanswer]; rfl
    obtain ⟨event, hevent, hsilent, hinitial⟩ :=
      QueryListener.tryInitialEvent_eq hfirst t
    rw [h.online] at hsilent hinitial
    rw [h.configured] at hinitial
    refine ⟨r.raise ({ r.listener with
      raisedInitialEvent := event.isSome
      snapshot := some t }, event), ?_, raise_initial h hanswer hdocuments hsynced h.configured
        h.online rfl rfl hsilent hinitial⟩
    simp only [onViewSnapshot, QueryListener.onViewSnapshot, hardAssert, if_pos hassert, hpassed,
      hfirst, if_true, hevent, bind, Except.bind]
  | some answer =>
    have hsome : r.answer ≠ none := hanswer ▸ Option.some_ne_none answer
    have hraised : r.listener.raisedInitialEvent = true := by rw [h.raised, hanswer]; rfl
    refine ⟨_, ?_, raise_next h hanswer hdocuments hsynced (fun hall => hshown hall hsome)
      fun hall => ?_⟩
    · simp only [onViewSnapshot, QueryListener.onViewSnapshot, hardAssert, if_pos hassert, hpassed,
        hraised, Bool.true_eq_false, if_false, bind, Except.bind]
    · -- nothing is left out, so the changes lead from the old documents to the new ones
      rw [h.configured, if_pos hall] at hpassed
      rw [← hpassed, ← hold, hfollow, hof.2.1]

lemma onOnlineStateChanged_eq {options : ListenOptions} {onlineState : OnlineState} {r : Reader D}
    {v : View D} (h : r.Answered options onlineState v) (changed : OnlineState) :
    ∃ r', r.onOnlineStateChanged changed = .ok r' ∧ r'.Answered options changed v := by
  obtain ⟨s, hlast, hdocuments, hsynced⟩ := h.last
  have hfollows : Follows options changed { r with
      listener := { r.listener with onlineState := changed } } :=
    ⟨h.configured, rfl, h.raised, h.fresh, h.waited⟩
  cases hanswer : r.answer with
  | none =>
    have hfirst : r.listener.raisedInitialEvent = false := by rw [h.raised, hanswer]; rfl
    generalize hl : ({ r.listener with onlineState := changed } : QueryListener D) = l at hfollows
    have hcall : r.listener.onOnlineStateChanged changed = l.tryInitialEvent s := by
      subst hl
      simp only [QueryListener.onOnlineStateChanged, hlast, hfirst, if_true]
    have hunraised : l.raisedInitialEvent = false := hl ▸ hfirst
    have hsaved : l.snapshot = some s := hl ▸ hlast
    obtain ⟨event, hevent, hsilent, hinitial⟩ := QueryListener.tryInitialEvent_eq hunraised s
    have honline : l.onlineState = changed := hfollows.online
    have hconfigured : l.options = options := hfollows.configured
    rw [honline] at hsilent hinitial
    rw [hconfigured] at hinitial
    refine ⟨r.raise ({ l with raisedInitialEvent := event.isSome }, event), ?_, ?_⟩
    · simp only [onOnlineStateChanged, hcall, hevent, bind, Except.bind]
    · exact raise_initial hfollows hanswer hdocuments hsynced hconfigured honline rfl hsaved hsilent
        hinitial
  | some answer =>
    have hraised : r.listener.raisedInitialEvent = true := by rw [h.raised, hanswer]; rfl
    have hsome : r.answer ≠ none := hanswer ▸ Option.some_ne_none answer
    refine ⟨r.raise ({ r.listener with onlineState := changed }, none), ?_,
      ⟨⟨h.configured, rfl, ?_, ?_, ?_⟩, ⟨s, hlast, hdocuments, hsynced⟩, ?_,
        fun hall _ => h.shown hall hsome⟩⟩
    · simp only [onOnlineStateChanged, QueryListener.onOnlineStateChanged, hlast, hraised,
        Bool.true_eq_false, if_false, bind, Except.bind]
    · simp [raise, hraised, hanswer]
    · simp [raise, hanswer]
    · simpa [raise, hanswer] using h.waited
    · simp [raise, hanswer]

end Reader

namespace LiveQueries

def Event.changedOnlineState : Event U D → Option OnlineState
  | .onlineState changed => some changed
  | _ => none

variable [DecidableEq D] [Inhabited D] [DecidableEq U]

/-- What the listener of a query hears of an event, and the online state that the event manager
knows of. The listener starts with its query. -/
def hear (options : ListenOptions) (path : ResourcePath)
    (heard : OnlineState × Except Halt (Reader D)) (s : LiveQueries U D) (e : Event U D) :
    OnlineState × Except Halt (Reader D) :=
  match s.handle e with
  | .error _ => heard
  | .ok (s', snapshots) =>
      (e.changedOnlineState.getD heard.1,
        if path ∈ s'.queryViews then do
          let r ← (if path ∈ s.queryViews then heard.2 else .ok (.start options heard.1))
          let r ← (snapshots.filter fun snapshot => snapshot.query = path).foldlM
            Reader.onViewSnapshot r
          match e.changedOnlineState with
          | none => .ok r
          | some onlineState => r.onOnlineStateChanged onlineState
        else heard.2)

def Heard (options : ListenOptions) (path : ResourcePath) (s : LiveQueries U D)
    (heard : OnlineState × Except Halt (Reader D)) : Prop :=
  ∀ v ∈ s.queryViews.lookup path, ∃ r, heard.2 = .ok r ∧ r.Answered options heard.1 v

omit [DecidableEq D] [Inhabited D] [DecidableEq U] in
lemma heard_snapshot {options : ListenOptions} {path : ResourcePath} {s : LiveQueries U D}
    {heard : OnlineState × Except Halt (Reader D)} (h : s.Heard options path heard) {v w : View D}
    {snapshot : Option (ViewSnapshot D)}
    (hv : (s.queryViews.lookup path).elim (v.documentSet = .empty ∧ snapshot ≠ none) (· = v))
    (htold : v.Told w snapshot) : ∃ r r',
      (if path ∈ s.queryViews then heard.2 else .ok (.start options heard.1)) = .ok r ∧
      snapshot.toList.foldlM Reader.onViewSnapshot r = .ok r' ∧
      r'.Answered options heard.1 w := by
  cases hl : s.queryViews.lookup path with
  | none =>
    rw [hl] at hv
    rw [if_neg (AList.lookup_eq_none.mp hl)]
    obtain ⟨t, rfl⟩ := Option.ne_none_iff_exists'.mp hv.2
    have hstart : (Reader.start options heard.1 : Reader D).Follows options heard.1 :=
      ⟨rfl, rfl, rfl, fun _ => rfl, nofun⟩
    obtain ⟨r', hr', hanswered⟩ := Reader.onViewSnapshot_eq hstart
      (fun _ hne => absurd rfl hne) htold
    exact ⟨_, r', rfl, by simp [hr'], hanswered⟩
  | some u =>
    rw [hl] at hv
    obtain rfl : u = v := hv
    obtain ⟨r, hr, hbefore⟩ := h u hl
    rw [if_pos (AList.lookup_isSome.mp (by rw [hl]; rfl))]
    cases snapshot with
    | none =>
      obtain ⟨hdocuments, hsync⟩ := htold.silent rfl
      refine ⟨r, r, hr, rfl, hbefore.toFollows, ?_, ?_, ?_⟩
      · rw [hdocuments, hsync]
        exact hbefore.last
      · rw [hsync]
        exact hbefore.pending
      · rw [hdocuments]
        exact hbefore.shown
    | some t =>
      obtain ⟨r', hr', hanswered⟩ :=
        Reader.onViewSnapshot_eq hbefore.toFollows hbefore.shown htold
      exact ⟨r, r', hr, by simp [hr'], hanswered⟩

lemma heard_step {options : ListenOptions} {path : ResourcePath} {s s' : LiveQueries U D}
    {e : Event U D} {heard : OnlineState × Except Halt (Reader D)}
    {snapshots : List (ViewSnapshot D)} (h : s.Heard options path heard)
    (hs : s.handle e = .ok (s', snapshots)) (hhandled : Handled n e s s' snapshots) :
    s'.Heard options path (hear options path heard s e) := by
  intro w hw
  obtain ⟨v, snapshot, hv, htold, hfilter⟩ := hhandled.delivered path w hw
  obtain ⟨r, r', hr, hr', hanswered⟩ := heard_snapshot h hv htold
  have hafter : path ∈ s'.queryViews := AList.lookup_isSome.mp (by rw [hw]; rfl)
  simp only [hear, hs, if_pos hafter, hr, hfilter, hr', bind, Except.bind]
  cases he : e.changedOnlineState with
  | none => exact ⟨r', rfl, hanswered⟩
  | some onlineState => exact Reader.onOnlineStateChanged_eq hanswered onlineState

/-- A read waits no longer than until the view is synced or the device is offline. When it waits
for the server, its answer is not from the cache unless the device is offline. From then on it
shows the document as it is stored. -/
def Reads (options : ListenOptions) (path key : ResourcePath)
    (t : LiveQueries U D × OnlineState × Except Halt (Reader D)) : Prop :=
  ∀ v ∈ t.1.queryViews.lookup path, ∃ r, t.2.2 = .ok r ∧
    (r.answer = none → v.syncState ≠ .synced ∧ t.2.1 ≠ .offline) ∧
    (∀ answer ∈ r.answer, options.waitForSyncWhenOnline = true →
      answer.1.fromCache = false ∨ answer.2 = .offline) ∧
    (options.includeDocumentMetadataChanges = true → r.answer ≠ none →
      ∀ d, t.1.persistence.localStore.getDocument key = .ok d →
        ShownAs path d (r.shown.find key))

theorem reads_answered (user : U) (n : ℕ) (options : ListenOptions) (path : ResourcePath)
    {key : ResourcePath} {es : List (Event U D)} (hkept : ∀ e ∈ es, e ≠ .remove key) :
    Always (observe step (hear options path)) (Reads options path key)
      (start user n, .unknown, .ok (.start options .unknown)) es := by
  have hnone : (start user n : LiveQueries U D).Heard options path
      (.unknown, .ok (.start options .unknown)) := by
    intro v hv
    simp [start] at hv
  refine always_kept (fun s heard hlive hstored hheard v hv => ?_) (fun _ _ _ _ _ => heard_step)
    hkept (start_live user n) (start_stored user n key) hnone
  obtain ⟨r, hr, hanswered⟩ := hheard v hv
  refine ⟨r, hr, hanswered.pending, hanswered.waited, fun hall hsome d hd => ?_⟩
  rw [hanswered.shown hall hsome]
  exact shownAs_of_same (LocalStore.same_view hlive.stores.current hd) (hstored path v hv)

theorem offline_read_answered :
    Always (observe step (hear .getDocuments [['t']]))
      (Reads .getDocuments [['t']] [['t'], ['1']])
      (start () 1, .unknown, .ok (.start .getDocuments .unknown))
      [.listen [['t']] ∅ [], .write [.set [['t'], ['1']] (5 : ℕ) .none], .onlineState .offline] :=
  reads_answered () 1 .getDocuments [['t']] (by simp)

end LiveQueries

end MobileApps.Firestore

import MobileApps.Storyboard.Edits

/-! The reply of `loadTasks` against edits made while it is outstanding: it appends every document
of its snapshot, also those of tasks that the list already holds. -/

namespace MobileApps.Storyboard

open Firestore Library.Unicode Library.DocumentStore Library.Rows Library.Runs

variable (U : Tables) (email : Email)

def addedPair : Event → Option (Text × Text)
  | .add _ n t => some (pair U ⟨n, t⟩)
  | _ => none

def early (rows : List ToDoElementsModel) (s : Device × List Text) :
    Event → List ToDoElementsModel
  | .snapshot _ => s.1.screen.array
  | _ => rows

abbrev LoadState := (Device × List Text) × List ToDoElementsModel

def Device.stepEarly : LoadState → Event → Option LoadState :=
  observe (Device.stepSpent U email) early

/-- The list was empty when the snapshot was taken, and no deletion goes to a spent path. -/
def Untouched (s : LoadState) : Event → Prop
  | .reply => s.2 = []
  | e => Unspent U s.1 e

instance (s : LoadState) : ∀ e, Decidable (Untouched U s e)
  | .reply => inferInstanceAs (Decidable (s.2 = []))
  | .delete row => inferInstanceAs (Decidable (Unspent U s.1 (.delete row)))
  | .snapshot _ | .add .. | .move .. => isTrue trivial

structure Loading (base : Multiset (Text × Text)) (s : LoadState) : Prop where
  tracked : Tracked U email base s.1
  fresh : ∀ m ∈ s.1.1.screen.array, rowKey U m ∉ s.1.2
  nodup : (listed U s.1.1.screen).Nodup
  apart : ∀ p ∈ listed U s.1.1.screen, p ∉ base
  taken : ∀ ds, s.1.1.load = .taken ds →
    Multiset.ofList (ds.filterMap (storedPair U email)) =
      base + Multiset.ofList (s.2.map (pair U)) ∧
    (s.2 = [] → ∀ e ∈ ds, e ∈ s.1.1.db.docs)

variable {U email} {base : Multiset (Text × Text)}

lemma mem_listed {s : Screen} {p : Text × Text} :
    p ∈ listed U s ↔ ∃ m ∈ s.array, pair U m = p := by
  simp [listed]

lemma loading_opened {db : TaskCollection} {used : List AutoId} (hk : Kept U email used db) :
    Loading U email (stored U email db) ((Device.opened db used, []), []) where
  tracked :=
    { sound := opened_sound hk
      balance := (Multiset.add_zero _).symm
      live := by simp [Device.opened, viewDidLoad, loadTasks]
      dead := by simp }
  fresh := by simp [Device.opened, viewDidLoad, loadTasks]
  nodup := Multiset.nodup_zero
  apart := by simp [Device.opened, viewDidLoad, loadTasks, listed]
  taken := by simp [Device.opened]

lemma loading_snapshot {d : Device} {spent : List Text} {rows : List ToDoElementsModel}
    (h : Loading U email base ((d, spent), rows)) {ds : List Entry} (hp : ds.Perm d.db.docs) :
    Loading U email base (({ d with load := .taken ds }, spent), d.screen.array) where
  tracked :=
    { sound := snapshot_sound h.tracked.sound hp
      balance := h.tracked.balance
      live := h.tracked.live
      dead := h.tracked.dead }
  fresh := h.fresh
  nodup := h.nodup
  apart := h.apart
  taken := by
    rintro _ ⟨⟩
    refine ⟨?_, fun _ e he => hp.mem_iff.mp he⟩
    have hf := Multiset.coe_eq_coe.mpr (hp.filterMap (storedPair U email))
    exact hf.trans h.tracked.balance

lemma loading_add {d : Device} {spent : List Text} {rows : List ToDoElementsModel}
    (h : Loading U email base ((d, spent), rows)) {id : AutoId} {n t : Text}
    (hacc : Accepted U n t) (hid : id ∉ d.used) (hb : pair U ⟨n, t⟩ ∉ base)
    (hl : pair U ⟨n, t⟩ ∉ listed U d.screen) :
    Loading U email base
      ((d.added U email id n t, spent.filter (· ≠ pathKey U n t)), rows) where
  tracked := tracked_add h.tracked hacc hid
  fresh := by
    intro m hm hk
    simp only [List.mem_filter, decide_eq_true_eq] at hk
    rcases List.mem_append.mp hm with hm | hm
    · exact h.fresh m hm hk.1
    · rw [List.mem_singleton] at hm
      exact hk.2 (by rw [hm]; rfl)
  nodup := by
    rw [Device.added, listed_added]
    exact Multiset.nodup_cons.mpr ⟨hl, h.nodup⟩
  apart := by
    intro p hp
    rw [Device.added, listed_added] at hp
    rcases Multiset.mem_cons.mp hp with rfl | hp
    · exact hb
    · exact h.apart p hp
  taken := by
    intro ds hds
    obtain ⟨hf, hd⟩ := h.taken ds hds
    refine ⟨hf, fun hr e he => mem_added.mpr (Or.inl ⟨hd hr e he, fun hk => ?_⟩)⟩
    exact h.tracked.sound.fresh_key hid (Collection.mem_keys.mpr ⟨e, hd hr e he, hk⟩)

lemma loading_delete {d : Device} {spent : List Text} {rows : List ToDoElementsModel}
    (h : Loading U email base ((d, spent), rows)) {row : ℕ} {m : ToDoElementsModel} {id : AutoId}
    (hm : d.screen.array[row]? = some m)
    (hp : d.screen.paths (rowKey U m) = some (ownPath id)) :
    Loading U email base
      (({ d with screen := d.screen.removed row, db := d.db.delete (documentKey id) },
        rowKey U m :: spent), rows) := by
  have hmem := List.mem_of_getElem? hm
  have hlist : listed U d.screen = pair U m ::ₘ listed U (d.screen.removed row) :=
    listed_removed U hm
  have hnodup := h.nodup
  rw [hlist] at hnodup
  have hsub : ∀ m' ∈ (d.screen.removed row).array, m' ∈ d.screen.array := fun m' hm' =>
    eraseIdx_subset _ _ hm'
  refine
    { tracked := tracked_delete h.tracked hm hp (h.fresh m hmem)
      fresh := ?_
      nodup := (Multiset.nodup_cons.mp hnodup).2
      apart := fun p hp => h.apart p (by rw [hlist]; exact Multiset.mem_cons_of_mem hp)
      taken := ?_ }
  · intro m' hm' hk
    rcases List.mem_cons.mp hk with hk | hk
    · have he := (pair_eq_iff U (h.tracked.sound.accepted m' (hsub m' hm'))
        (h.tracked.sound.accepted m hmem)).mp hk
      exact (Multiset.nodup_cons.mp hnodup).1 (mem_listed.mpr ⟨m', hm', he⟩)
    · exact h.fresh m' (hsub m' hm') hk
  · intro ds hds
    obtain ⟨hf, hd⟩ := h.taken ds hds
    refine ⟨hf, fun hr e he => Collection.mem_delete.mpr ⟨hd hr e he, fun hek => ?_⟩⟩
    -- the deleted document holds a listed pair, those of the snapshot hold pairs of `base`
    obtain ⟨i, _, hi, hdoc⟩ := h.tracked.sound.paths _ _ hp
    obtain rfl := ownPath_injective hi
    obtain ⟨m', hm', hk⟩ := hdoc e (hd hr e he) hek
    have hacc := (h.tracked.sound.kept e (hd hr e he)).accepted hm'
    have hpair := (pair_eq_iff U hacc (h.tracked.sound.accepted m hmem)).mp hk
    have hb : pair U m' ∈ base := by
      have hin : pair U m' ∈ Multiset.ofList (ds.filterMap (storedPair U email)) :=
        List.mem_filterMap.mpr ⟨e, he, by simp [storedPair, hm']⟩
      simp only at hr
      rwa [hf, hr, List.map_nil, Multiset.coe_nil, Multiset.add_zero] at hin
    exact h.apart _ (mem_listed.mpr ⟨m, hmem, rfl⟩) (hpair ▸ hb)

lemma loading_move {d : Device} {spent : List Text} {rows : List ToDoElementsModel}
    (h : Loading U email base ((d, spent), rows)) {src dst : ℕ}
    (hs : src < d.screen.array.length) (hd : dst < d.screen.array.length) :
    Loading U email base (({ d with screen := { d.screen with
      array := d.screen.array.swap src dst, shown := move src dst d.screen.shown } },
      spent), rows) where
  tracked := tracked_move h.tracked hs hd
  fresh m hm := h.fresh m ((swap_perm _ _ _).mem_iff.mp hm)
  nodup := by
    rw [listed_moved]
    exact h.nodup
  apart := by
    rw [listed_moved]
    exact h.apart
  taken := h.taken

lemma loading_reply {d : Device} {spent : List Text} {rows : List ToDoElementsModel}
    (h : Loading U email base ((d, spent), rows)) {ds : List Entry} (hl : d.load = .taken ds) :
    listed U (d.screen.loaded U email ds) =
      stored U email d.db + Multiset.ofList (rows.map (pair U)) := by
  have hb := h.tracked.balance
  simp only at hb
  rw [listed_loaded, (h.taken ds hl).1, hb, ← Multiset.add_assoc,
    Multiset.add_comm (listed U d.screen)]

lemma loaded_tracked {d : Device} {spent : List Text}
    (h : Loading U email base ((d, spent), [])) {ds : List Entry} (hl : d.load = .taken ds) :
    Tracked U email 0
      ({ d with screen := d.screen.loaded U email ds, load := .answered },
        spent.filter (· ∉ ds.filterMap fun e => (storedModel email e).map (rowKey U))) where
  sound := loaded_sound h.tracked.sound hl
  balance := by
    have hr := loading_reply h hl
    simp only [List.map_nil, Multiset.coe_nil, Multiset.add_zero] at hr
    rw [Multiset.zero_add, hr]
  live := by
    intro m hm _
    have hd := (h.taken ds hl).2 rfl
    refine (live_loaded h.tracked.sound hl hd _).mpr ?_
    simp only [loaded_array, List.mem_append] at hm
    rcases hm with hm | hm
    · exact Or.inr (h.tracked.live m hm (h.fresh m hm))
    · obtain ⟨e, he, hem⟩ := List.mem_filterMap.mp hm
      exact Or.inl (List.mem_filterMap.mpr ⟨e, he, by rw [hem]; rfl⟩)
  dead := by
    intro k hk hlive
    simp only [List.mem_filter, decide_eq_true_eq] at hk
    rcases (live_loaded h.tracked.sound hl ((h.taken ds hl).2 rfl) k).mp hlive with hin | hlive
    · exact hk.2 hin
    · exact h.tracked.dead k hk.1 hlive

variable (U) in
structure Distinct (base : Multiset (Text × Text)) (s : Screen) (es : List Event) : Prop where
  nodup : (es.filterMap (addedPair U)).Nodup
  base : ∀ p ∈ es.filterMap (addedPair U), p ∉ base
  listed : ∀ p ∈ es.filterMap (addedPair U), p ∉ listed U s

lemma Distinct.tail {s t : Screen} {e : Event} {es : List Event}
    (h : Distinct U base s (e :: es))
    (ht : ∀ p ∈ Storyboard.listed U t, p ∈ Storyboard.listed U s ∨ addedPair U e = some p) :
    Distinct U base t es where
  nodup := h.nodup.sublist ((List.sublist_cons_self e es).filterMap _)
  base p hp := h.base p (((List.sublist_cons_self e es).filterMap _).subset hp)
  listed p hp hl := by
    rcases ht p hl with hl | he
    · exact h.listed p (((List.sublist_cons_self e es).filterMap _).subset hp) hl
    · have hn := h.nodup
      rw [List.filterMap_cons, he] at hn
      exact (List.nodup_cons.mp hn).1 hp

variable (U email) in
inductive Phase (base : Multiset (Text × Text)) (s : LoadState) (es : List Event) : Prop
  | before (pending : s.1.1.load ≠ .answered) (loading : Loading U email base s)
      (distinct : Distinct U base s.1.1.screen es)
  | after (answered : s.1.1.load = .answered) (tracked : Tracked U email 0 s.1)

lemma stepEarly_some {s t : LoadState} {e : Event} :
    Device.stepEarly U email s e = some t ↔
      s.1.1.step U email e = some t.1.1 ∧ t.1.2 = spend U email s.1.2 s.1.1 e ∧
        t.2 = early s.2 s.1 e := by
  rw [Device.stepEarly, observe_some, Device.stepSpent, observe_some]
  constructor
  · rintro ⟨⟨hs, hk⟩, hr⟩
    exact ⟨hs, hk.symm, hr.symm⟩
  · rintro ⟨hs, hk, hr⟩
    exact ⟨⟨hs, hk.symm⟩, hr.symm⟩

lemma phase_step {s t : LoadState} {e : Event} {es : List Event}
    (h : Phase U email base s (e :: es)) (hs : Device.stepEarly U email s e = some t)
    (hu : Untouched U s e) : Phase U email base t es := by
  have hspent := (observe_some.mp hs).1
  have hstep := stepEarly_some.mp hs
  clear hs
  obtain ⟨⟨d, spent⟩, rows⟩ := s
  obtain ⟨⟨d', spent'⟩, rows'⟩ := t
  obtain ⟨hs, hk, hr⟩ := hstep
  simp only at hs hk hr
  subst hk hr
  rcases h with ⟨hp, hl, hd⟩ | ⟨ha, htr⟩
  · cases e with
    | snapshot ds =>
      obtain ⟨⟨_, hperm⟩, rfl⟩ := (step_snapshot U).mp hs
      exact .before (by simp) (loading_snapshot hl hperm) (hd.tail fun p hp => Or.inl hp)
    | reply =>
      obtain ⟨ds, hds, rfl⟩ := (sound_reply hl.tracked.sound).mp hs
      obtain rfl : rows = [] := hu
      have hl' : d.load = .taken ds := hds
      have hsp : spend U email spent d .reply = spent.filter
          (· ∉ ds.filterMap fun e => (storedModel email e).map (rowKey U)) := by simp [spend, hl']
      rw [hsp]
      exact .after rfl (loaded_tracked hl hds)
    | add id n t =>
      obtain ⟨⟨hacc, hid⟩, rfl⟩ := (step_add U hl.tracked.sound.consistent).mp hs
      have hmem : pair U ⟨n, t⟩ ∈ (Event.add id n t :: es).filterMap (addedPair U) := by
        simp [addedPair]
      refine .before hp (loading_add hl hacc hid (hd.base _ hmem) (hd.listed _ hmem))
        (hd.tail fun p hp => ?_)
      simp only [Device.added, listed_added, Multiset.mem_cons] at hp
      rcases hp with rfl | hp
      · exact Or.inr rfl
      · exact Or.inl hp
    | delete row =>
      obtain ⟨m, id, hm, hpath, rfl⟩ := (sound_delete hl.tracked.sound).mp hs
      have hlist := listed_removed U hm
      refine .before hp ?_ (hd.tail fun p hp => ?_)
      · have hk : spend U email spent d (.delete row) = rowKey U m :: spent := by
          simp [spend, hm]
        rw [hk]
        exact loading_delete hl hm hpath
      · exact Or.inl (by rw [hlist]; exact Multiset.mem_cons_of_mem hp)
    | move src dst =>
      obtain ⟨⟨hsrc, hdst⟩, rfl⟩ := (step_move U).mp hs
      refine .before hp (loading_move hl hsrc hdst) (hd.tail fun p hp => ?_)
      exact Or.inl (by rwa [listed_moved] at hp)
  · have he : e.isEdit := by cases e <;> simp_all [Device.step, Event.isEdit]
    have hu' : Unspent U (d, spent) e := by
      cases e with
      | reply => trivial
      | _ => exact hu
    exact .after ((step_load he hs).trans ha) (tracked_edit htr he hspent hu')

lemma untouched_of_agrees {s t : LoadState} {e : Event} {es : List Event}
    (h : Phase U email base s (e :: es)) (hs : Device.stepEarly U email s e = some t)
    (hq : t.1.1.load = .answered → Agrees U email t.1.1) : Untouched U s e := by
  have hspent := (observe_some.mp hs).1
  obtain ⟨hs, _, _⟩ := stepEarly_some.mp hs
  rcases h with ⟨_, hl, _⟩ | ⟨ha, htr⟩
  · cases e with
    | reply =>
      obtain ⟨ds, hds, ht⟩ := (sound_reply hl.tracked.sound).mp hs
      have hr : listed U (s.1.1.screen.loaded U email ds) =
          stored U email s.1.1.db + Multiset.ofList (s.2.map (pair U)) := loading_reply hl hds
      have hq := hq (by rw [ht])
      rw [ht, Agrees, hr] at hq
      have hsame : stored U email s.1.1.db + Multiset.ofList (s.2.map (pair U)) =
          stored U email s.1.1.db := hq
      have hcard := congrArg Multiset.card hsame
      simp only [Multiset.card_add, Multiset.coe_card, List.length_map] at hcard
      exact List.length_eq_zero_iff.mp (by omega)
    | delete row =>
      intro m hm
      exact hl.fresh m (List.mem_of_getElem? hm)
    | _ => trivial
  · have he : e.isEdit := by cases e <;> simp_all [Device.step, Event.isEdit]
    have hu : Unspent U s.1 e := by
      refine unspent_of_balance htr hspent ?_
      rw [Multiset.zero_add]
      exact (hq ((step_load he hs).trans ha)).symm
    cases e with
    | reply => exact absurd he (by simp [Event.isEdit])
    | _ => exact hu

/-- Whatever is added, deleted and moved around the load: from the reply on, the list holds the
stored tasks exactly when nothing was listed when the snapshot was taken. (Two stored documents
may hold one pair; then its rows must also not both be deleted.) -/
theorem loaded_iff_untouched {db : TaskCollection} {used : List AutoId} {es : List Event}
    (hk : Kept U email used db) (hnew : (es.filterMap (addedPair U)).Nodup)
    (hold : ∀ p ∈ es.filterMap (addedPair U), p ∉ stored U email db) :
    Always (Device.step U email) (fun d => d.load = .answered → Agrees U email d)
        (Device.opened db used) es ↔
      Along (Device.stepEarly U email) (Untouched U) ((Device.opened db used, []), []) es := by
  rw [← always_observe (f := spend U email) (h := []),
    ← always_observe (f := early) (h := [])]
  refine always_iff_along (I := Phase U email (stored U email db)) ?_
    (fun s e es t h hs hu => phase_step h hs hu)
    (fun s e es t h hs hq => untouched_of_agrees h hs hq) ?_
  · rintro s es (⟨hp, _, _⟩ | ⟨_, ht⟩) ha
    · exact absurd ha hp
    · exact (ht.balance.trans (Multiset.zero_add _)).symm
  · refine .before (by simp [Device.opened]) (loading_opened hk) ⟨hnew, hold, ?_⟩
    simp [listed, Device.opened, viewDidLoad, loadTasks]

theorem loaded_during_edits :
    Always (Device.step .ascii someMail)
      (fun d => d.load = .answered → Agrees .ascii someMail d) (Device.opened oneTask [idA])
      [.snapshot [someEntry idA "run".toList], .add idB "read".toList ten,
        .add idC "rest".toList ten, .delete 0, .reply, .delete 1] :=
  (loaded_iff_untouched oneTask_kept (by decide) (by decide)).mpr (by decide)

theorem added_task_doubled : ∃ d,
    run (Device.step .ascii someMail) (Device.opened oneTask [idA])
      [.add idB "read".toList ten,
        .snapshot [someEntry idA "run".toList, someEntry idB "read".toList], .reply] = some d ∧
    d.screen.array = [⟨"read".toList, ten⟩, ⟨"run".toList, ten⟩, ⟨"read".toList, ten⟩] ∧
    ¬ Agrees .ascii someMail d :=
  ⟨_, rfl, by decide, by decide⟩

end MobileApps.Storyboard

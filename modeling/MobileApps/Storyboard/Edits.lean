import MobileApps.Storyboard.Tracking

namespace MobileApps.Storyboard

open Firestore Library.Unicode Library.DocumentStore Library.Runs

variable (U : Tables) (email : Email)

def Tracks (d : Device) : Prop :=
  Agrees U email d ∧ ∀ documents fresh,
    run (Device.step U email) (Device.opened d.db d.used) [.snapshot documents, .reply] =
      some fresh → listed U fresh.screen = listed U d.screen

variable {U email}

lemma run_load {db : TaskCollection} {used : List AutoId} (hk : Kept U email used db)
    {ds : List Entry} {d : Device} :
    run (Device.step U email) (Device.opened db used) [.snapshot ds, .reply] = some d ↔
      ds.Perm db.docs ∧ d = ⟨viewDidLoad.loaded U email ds, db, used, .answered⟩ := by
  simp only [run_cons, run_nil, step_snapshot, Option.some.injEq]
  constructor
  · rintro ⟨_, ⟨⟨_, hp⟩, rfl⟩, t, ht, rfl⟩
    obtain ⟨ds', hl, rfl⟩ := (sound_reply (snapshot_sound (opened_sound hk) hp)).mp ht
    obtain rfl := Load.taken.inj hl
    exact ⟨hp, rfl⟩
  · rintro ⟨hp, rfl⟩
    exact ⟨_, ⟨⟨rfl, hp⟩, rfl⟩, _,
      (sound_reply (snapshot_sound (opened_sound hk) hp)).mpr ⟨ds, rfl, rfl⟩, rfl⟩

lemma tracked_loaded {db : TaskCollection} {used : List AutoId} (hk : Kept U email used db)
    {ds : List Entry} (hp : ds.Perm db.docs) :
    Tracked U email 0 (⟨viewDidLoad.loaded U email ds, db, used, .answered⟩, []) where
  sound := loaded_sound (snapshot_sound (opened_sound hk) hp) rfl
  balance := by
    have hf := hp.filterMap (storedPair U email)
    rw [Multiset.zero_add]
    refine Eq.trans ?_ (listed_loaded U viewDidLoad ds).symm
    rw [show listed U viewDidLoad = 0 from rfl, Multiset.zero_add]
    exact (Multiset.coe_eq_coe.mpr hf).symm
  live := by
    intro m hm _
    have hs := snapshot_sound (opened_sound hk) hp
    refine (live_loaded hs rfl (fun e he => hp.mem_iff.mp he) _).mpr (Or.inl ?_)
    simp only [loaded_array, viewDidLoad, loadTasks, List.nil_append, List.mem_filterMap] at hm
    obtain ⟨e, he, hem⟩ := hm
    exact List.mem_filterMap.mpr ⟨e, he, by rw [hem]; rfl⟩
  dead := by simp

lemma tracks_of_tracked {s : Device × List Text} (h : Tracked U email 0 s) :
    Tracks U email s.1 := by
  have hb : stored U email s.1.db = listed U s.1.screen := by
    rw [h.balance, Multiset.zero_add]
  refine ⟨hb.symm, fun documents fresh hr => ?_⟩
  obtain ⟨hp, rfl⟩ := (run_load h.sound.kept).mp hr
  have hl := (tracked_loaded h.sound.kept hp).balance
  simp only [Multiset.zero_add] at hl
  rw [← hl, hb]

/-- Once the screen is loaded, list and collection hold the same tasks along a run exactly when
no row is deleted whose pair was deleted before and not added since: the second deletion goes
to the path of a document that is gone. -/
theorem tracks_iff_unspent {db : TaskCollection} {used : List AutoId} {documents : List Entry}
    {d : Device} (hk : Kept U email used db)
    (hd : run (Device.step U email) (Device.opened db used) [.snapshot documents, .reply] = some d)
    (es : List Event) :
    Always (Device.step U email) (Tracks U email) d es ↔
      Along (Device.stepSpent U email) (Unspent U) (d, []) es := by
  obtain ⟨hp, rfl⟩ := (run_load hk).mp hd
  rw [← always_observe (f := spend U email) (h := [])]
  refine always_iff_along (I := fun s _ => Tracked U email 0 s ∧ s.1.load = .answered)
    (fun _ _ h => tracks_of_tracked h.1) ?_ ?_ ⟨tracked_loaded hk hp, rfl⟩
  · rintro s e _ t ⟨h, hl⟩ hs hu
    have he : e.isEdit := by
      obtain ⟨hs, _⟩ := observe_some.mp hs
      cases e <;> simp_all [Device.step, Event.isEdit]
    refine ⟨tracked_edit h he hs hu, ?_⟩
    obtain ⟨hs, _⟩ := observe_some.mp hs
    exact (step_load he hs).trans hl
  · rintro s e _ t ⟨h, _⟩ hs ⟨hq, _⟩
    exact unspent_of_balance h hs (by rw [Multiset.zero_add]; exact hq.symm)

theorem tracks_readded : ∃ d,
    run (Device.step .ascii someMail) (Device.opened oneTask [idA])
      [.snapshot [someEntry idA "run".toList], .reply] = some d ∧
    Always (Device.step .ascii someMail) (Tracks .ascii someMail) d
      [.delete 0, .add idB "run".toList ten, .delete 0] :=
  have hd := (run_load oneTask_kept).mpr ⟨List.Perm.refl _, rfl⟩
  ⟨_, hd, (tracks_iff_unspent oneTask_kept hd _).mpr (by decide)⟩

theorem second_deletion_misses : ∃ d d',
    run (Device.step .ascii someMail) (Device.opened .empty []) [.snapshot [], .reply] = some d ∧
    run (Device.step .ascii someMail) d [.add idA "run".toList ten, .add idB "run".toList ten,
      .delete 0, .delete 0] = some d' ∧
    d'.screen.array = [] ∧ d'.db.keys = [documentKey idA] ∧ ¬ Agrees .ascii someMail d' :=
  ⟨_, _, rfl, rfl, by decide, by decide, by decide⟩

end MobileApps.Storyboard

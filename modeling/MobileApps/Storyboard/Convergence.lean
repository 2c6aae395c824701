import MobileApps.Storyboard.HalfSaved

/-! What becomes of a save, in whatever order the writes of the clients reach the server: it is
still on its way from the client that made it, or it is stored, or a deletion of it is on its way
or done. -/

namespace MobileApps.Storyboard

open Firestore Library.Unicode Library.DocumentStore Library.Rows Library.Runs

def Saved.key (s : Saved) : ResourcePath := documentKey s.id

def Saved.document (s : Saved) : Entry :=
  ⟨s.key, [(s.email, .strings [s.name, s.time, ownPath s.id])]⟩

def Request.deleted : Request → Option ResourcePath
  | .delete key => some key
  | .addDocument .. | .setData .. => none

def World.writes (w : World) (client : ℕ) : List (Write ResourcePath Fields) :=
  (w.pending client).map fun call => call.request.write

variable (U : Tables)

def Window.Knows (v : Window) (id : AutoId) : Prop :=
  (∃ k, v.screen.paths k = some (ownPath id)) ∨
    ∃ documents, v.load = .taken documents ∧ ∃ e ∈ documents, ∃ m,
      storedTask v.email e = some (m, ownPath id)

inductive Fate (w : World) (keys : List ResourcePath) (s : Saved) : Prop
  | sending (client : ℕ) (sets dels : List (Write ResourcePath Fields))
      (queue : onKey s.key (w.writes client) = sets ++ dels)
      (left : sets = [(firstWrite s).write, (secondWrite s).write] ∨
        sets = [(secondWrite s).write])
      (deletes : ∀ q ∈ dels, q = .delete s.key)
      (noted : s.key ∈ keys ↔ dels ≠ [])
      (torn : ∀ e ∈ w.server.docs, e.key = s.key → Torn e)
      (others : ∀ c, c ≠ client → onKey s.key (w.writes c) = [])
      (unknown : ∀ v ∈ w.windows, v.client ≠ client → ¬ v.Knows s.id) : Fate w keys s
  | settled (deletes : ∀ c, ∀ q ∈ onKey s.key (w.writes c), q = .delete s.key)
      (kept : s.key ∉ keys → s.document ∈ w.server.docs ∧ ∀ c, onKey s.key (w.writes c) = [])
      (gone : s.key ∈ keys → s.key ∉ w.server.keys ∨ ∃ c, onKey s.key (w.writes c) ≠ []) :
      Fate w keys s

variable {U}

lemma view_untouched {w : World} {c : ℕ} {e : Entry} (h : onKey e.key (w.writes c) = []) :
    e ∈ (w.view c).docs ↔ e ∈ w.server.docs := by
  have hv : w.view c = w.server.applyAll (w.writes c) := rfl
  rw [hv, Collection.mem_applyAll_iff, h]
  simp

lemma Call.Fits.key {saved : List Saved} {call : Call} (h : call.Fits U saved) :
    ∃ s ∈ saved, call.request.write.key = s.key := by
  unfold Call.Fits at h
  cases hr : call.request with
  | addDocument k d =>
    rw [hr] at h
    obtain ⟨s, hs, hk, _⟩ := h
    exact ⟨s, hs, hk⟩
  | setData k d =>
    rw [hr] at h
    obtain ⟨s, hs, hk, _⟩ := h
    exact ⟨s, hs, hk⟩
  | delete k =>
    rw [hr] at h
    obtain ⟨s, hs, hk, _⟩ := h
    exact ⟨s, hs, hk⟩

def Reached (w : World) (c : ℕ) (id : AutoId) : Prop :=
  (∃ v ∈ w.windows, v.client = c ∧ v.Knows id) ∨
    ∃ e ∈ (w.view c).docs, e.key = documentKey id ∧ ¬ Torn e

lemma Origin.complete {saved : List Saved} {e : Entry} (h : Origin U saved e) {email : Email}
    {m : ToDoElementsModel} {id : AutoId} (hs : storedTask email e = some (m, ownPath id)) :
    e.key = documentKey id ∧ ¬ Torn e := by
  obtain ⟨s, _, hk, he, _, _, hp⟩ := h.stored hs
  obtain rfl : s.id = id := by
    rcases hp with hp | hp
    · cases hp
    · exact Subtype.ext (List.cons.inj hp).2.symm
  refine ⟨hk, ?_⟩
  rintro ⟨email', n, t, hd⟩
  by_cases hne : email = email'
  · simp [storedTask, hd, hne, ownPath] at hs
  · have hl : e.data.lookup email = none := by simp [hd, hne]
    simp [storedTask, hl] at hs

lemma Fate.frame {w w' : World} {keys keys' : List ResourcePath} {s : Saved} (h : Fate w keys s)
    (hq : ∀ c, onKey s.key (w'.writes c) = onKey s.key (w.writes c))
    (hd : ∀ e, e.key = s.key → (e ∈ w'.server.docs ↔ e ∈ w.server.docs))
    (hk : s.key ∈ keys' ↔ s.key ∈ keys)
    (hv : ∀ v ∈ w'.windows, v.Knows s.id → Reached w v.client s.id) : Fate w' keys' s := by
  cases h with
  | sending client sets dels queue left deletes noted torn others unknown =>
    refine .sending client sets dels ((hq _).trans queue) left deletes (hk.trans noted)
      (fun e he hek => torn e ((hd e hek).mp he) hek) (fun c hc => (hq c).trans (others c hc)) ?_
    intro v hmem hc hknow
    rcases hv v hmem hknow with ⟨v', hv', hc', hk'⟩ | ⟨e, he, hek, ht⟩
    · exact unknown v' hv' (hc'.symm ▸ hc) hk'
    · -- the client has no write of its own on the key, so it sees what the server has
      have ho : onKey e.key (w.writes v.client) = [] := by
        rw [hek]
        exact others _ hc
      exact ht (torn e ((view_untouched ho).mp he) hek)
  | settled deletes kept gone =>
    refine .settled (fun c q hm => deletes c q (hq c ▸ hm)) ?_ ?_
    · intro hn
      obtain ⟨hdoc, hnone⟩ := kept (fun hm => hn (hk.mpr hm))
      exact ⟨(hd s.document rfl).mpr hdoc, fun c => (hq c).trans (hnone c)⟩
    · intro hm
      rcases gone (hk.mp hm) with hs | ⟨c, hc⟩
      · left
        intro hin
        obtain ⟨e, he, hek⟩ := Collection.mem_keys.mp hin
        exact hs (Collection.mem_keys.mpr ⟨e, (hd e hek).mp he, hek⟩)
      · exact Or.inr ⟨c, (hq c).symm ▸ hc⟩

lemma Fate.deleted {w w' : World} {keys : List ResourcePath} {s : Saved} (h : Fate w keys s)
    (client : ℕ) (hc : w'.writes client = w.writes client ++ [.delete s.key])
    (ho : ∀ c, c ≠ client → w'.writes c = w.writes c) (hd : w'.server = w.server)
    (hv : ∀ v ∈ w'.windows, v.Knows s.id → ∃ u ∈ w.windows, u.client = v.client ∧ u.Knows s.id)
    (hk : ∃ v ∈ w.windows, v.client = client ∧ v.Knows s.id) : Fate w' (s.key :: keys) s := by
  have hqueue : onKey s.key (w'.writes client) =
      onKey s.key (w.writes client) ++ [.delete s.key] := by
    rw [hc, onKey_append]
    exact congrArg _ (onKey_cons_self rfl [])
  cases h with
  | sending client' sets dels queue left deletes noted torn others unknown =>
    obtain ⟨v, hvm, rfl, hknow⟩ := hk
    obtain rfl : v.client = client' := by
      by_contra hne
      exact unknown v hvm hne hknow
    refine .sending v.client sets (dels ++ [.delete s.key]) ?_ left ?_ (by simp) ?_ ?_ ?_
    · rw [hqueue, queue, List.append_assoc]
    · intro q hq
      rcases List.mem_append.mp hq with hq | hq
      · exact deletes q hq
      · exact List.mem_singleton.mp hq
    · exact hd ▸ torn
    · intro c hne
      rw [ho c hne]
      exact others c hne
    · intro u hu hne hku
      obtain ⟨u', hu', hcu, hku'⟩ := hv u hu hku
      exact unknown u' hu' (hcu.symm ▸ hne) hku'
  | settled deletes kept gone =>
    refine .settled ?_ (fun hn => absurd List.mem_cons_self hn) fun _ => Or.inr ⟨client, ?_⟩
    · intro c q hq
      by_cases hcc : c = client
      · subst hcc
        rw [hqueue] at hq
        rcases List.mem_append.mp hq with hq | hq
        · exact deletes c q hq
        · exact List.mem_singleton.mp hq
      · exact deletes c q (ho c hcc ▸ hq)
    · simp [hqueue]

end MobileApps.Storyboard

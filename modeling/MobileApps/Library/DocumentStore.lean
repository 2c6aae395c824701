import Mathlib.Data.Multiset.Filter
import Mathlib.Tactic.Lemma
import Mathlib.Data.List.Induction

/-! Collections of keyed documents, the writes on them, and what they tally to. -/

namespace MobileApps.Library.DocumentStore

structure Document (κ D : Type) where
  key : κ
  data : D
  deriving DecidableEq

structure Collection (κ D : Type) where
  docs : List (Document κ D)
  nodup : (docs.map Document.key).Nodup

inductive Write (κ D : Type)
  | set (key : κ) (data : D)
  | delete (key : κ)
  deriving DecidableEq

variable {κ D β : Type}

def Write.key : Write κ D → κ
  | .set k _ | .delete k => k

def Write.isSet : Write κ D → Bool
  | .set _ _ => true
  | .delete _ => false

namespace Collection

def empty : Collection κ D := ⟨[], List.nodup_nil⟩

def keys (c : Collection κ D) : List κ := c.docs.map Document.key

def tally (f : Document κ D → Option β) (c : Collection κ D) : Multiset β := c.docs.filterMap f

lemma ext_docs {c c' : Collection κ D} (h : c.docs = c'.docs) : c = c' := by
  cases c
  cases c'
  simp_all

@[simp] lemma mem_keys {c : Collection κ D} {k : κ} : k ∈ c.keys ↔ ∃ e ∈ c.docs, e.key = k := by
  simp [keys]

lemma eq_of_key {c : Collection κ D} {e e' : Document κ D} (he : e ∈ c.docs) (he' : e' ∈ c.docs)
    (h : e.key = e'.key) : e = e' :=
  List.inj_on_of_nodup_map c.nodup he he' h

lemma mem_tally (f : Document κ D → Option β) {c : Collection κ D} {b : β} :
    b ∈ c.tally f ↔ ∃ e ∈ c.docs, f e = some b := by
  simp [tally]

lemma tally_keys {f : Document κ D → Option β} {value : κ → Option β} {c : Collection κ D}
    (hc : ∀ e ∈ c.docs, f e = value e.key) :
    c.tally f = Multiset.ofList (c.keys.filterMap value) := by
  rw [tally, keys, List.filterMap_map]
  exact congrArg _ (List.filterMap_congr hc)

lemma tally_eq_iff {f : Document κ D → Option β} {value : κ → Option β} {c c' : Collection κ D}
    (hc : ∀ e ∈ c.docs, f e = value e.key) (hc' : ∀ e ∈ c'.docs, f e = value e.key)
    (inj : ∀ k k' b, value k = some b → value k' = some b → k = k')
    (same : ∀ k, value k = none → (k ∈ c.keys ↔ k ∈ c'.keys)) :
    c.tally f = c'.tally f ↔ ∀ k, k ∈ c.keys ↔ k ∈ c'.keys := by
  constructor
  · intro h k
    -- a value comes from one key only, so its number shows whether that key is there
    have found : ∀ {c c' : Collection κ D}, (∀ e ∈ c.docs, f e = value e.key) →
        (∀ e ∈ c'.docs, f e = value e.key) → c.tally f = c'.tally f → ∀ b, value k = some b →
        k ∈ c.keys → k ∈ c'.keys := by
      intro c c' hc hc' h b hb hk
      obtain ⟨e, he, rfl⟩ := mem_keys.mp hk
      have hb' : b ∈ c'.tally f := h ▸ (mem_tally f).mpr ⟨e, he, (hc e he).trans hb⟩
      obtain ⟨e', he', hf⟩ := (mem_tally f).mp hb'
      exact mem_keys.mpr ⟨e', he', inj _ _ b ((hc' e' he').symm.trans hf) hb⟩
    cases hk : value k with
    | none => exact same k hk
    | some b => exact ⟨found hc hc' h b hk, found hc' hc h.symm b hk⟩
  · intro h
    have hp : c.keys.Perm c'.keys := (List.perm_ext_iff_of_nodup c.nodup c'.nodup).mpr h
    rw [tally_keys hc, tally_keys hc']
    exact Multiset.coe_eq_coe.mpr (hp.filterMap value)

variable [DecidableEq κ] (c : Collection κ D)

def delete (k : κ) : Collection κ D where
  docs := c.docs.filter fun e => e.key ≠ k
  nodup := c.nodup.sublist (List.filter_sublist.map _)

def set (k : κ) (d : D) : Collection κ D where
  docs := (c.delete k).docs ++ [⟨k, d⟩]
  nodup := by
    rw [List.map_append, List.nodup_append]
    refine ⟨(c.delete k).nodup, by simp, ?_⟩
    intro a ha b hb
    obtain ⟨e, he, rfl⟩ := List.mem_map.mp ha
    rw [List.map_singleton, List.mem_singleton] at hb
    exact hb ▸ (by simpa [delete] using he : e ∈ c.docs ∧ e.key ≠ k).2

def apply : Write κ D → Collection κ D
  | .set k d => c.set k d
  | .delete k => c.delete k

def applyAll (ws : List (Write κ D)) : Collection κ D := ws.foldl apply c

def deleteAll (ks : List κ) : Collection κ D := c.applyAll (ks.map .delete)

variable {c}

@[simp] lemma mem_delete {k : κ} {e : Document κ D} :
    e ∈ (c.delete k).docs ↔ e ∈ c.docs ∧ e.key ≠ k := by
  simp [delete]

@[simp] lemma mem_set {k : κ} {d : D} {e : Document κ D} :
    e ∈ (c.set k d).docs ↔ (e ∈ c.docs ∧ e.key ≠ k) ∨ e = ⟨k, d⟩ := by
  simp [set]

@[simp] lemma applyAll_nil : c.applyAll [] = c := rfl

@[simp] lemma applyAll_cons (w : Write κ D) (ws : List (Write κ D)) :
    c.applyAll (w :: ws) = (c.apply w).applyAll ws := rfl

lemma mem_apply {w : Write κ D} {e : Document κ D} :
    e ∈ (c.apply w).docs ↔ (e ∈ c.docs ∧ e.key ≠ w.key) ∨ w = .set e.key e.data := by
  cases w with
  | set k d =>
    rw [apply, mem_set]
    refine or_congr Iff.rfl ⟨by rintro rfl; rfl, fun h => ?_⟩
    obtain ⟨rfl, rfl⟩ := Write.set.inj h
    rfl
  | delete k => simp [apply, Write.key]

lemma mem_applyAll {ws : List (Write κ D)} {e : Document κ D} (h : e ∈ (c.applyAll ws).docs) :
    e ∈ c.docs ∨ .set e.key e.data ∈ ws := by
  induction ws generalizing c with
  | nil => exact Or.inl h
  | cons w ws ih =>
    rcases ih (c := c.apply w) h with h | h
    · rcases mem_apply.mp h with ⟨h, _⟩ | rfl
      · exact Or.inl h
      · exact Or.inr List.mem_cons_self
    · exact Or.inr (List.mem_cons_of_mem _ h)

lemma delete_absent {k : κ} (h : k ∉ c.keys) : c.delete k = c := by
  apply ext_docs
  refine List.filter_eq_self.mpr fun e he => ?_
  simp only [decide_eq_true_eq]
  rintro rfl
  exact h (mem_keys.mpr ⟨e, he, rfl⟩)

lemma deleteAll_docs (ks : List κ) :
    (c.deleteAll ks).docs = c.docs.filter fun e => e.key ∉ ks := by
  induction ks generalizing c with
  | nil => simp [deleteAll]
  | cons k ks ih =>
    have hd : c.deleteAll (k :: ks) = (c.delete k).deleteAll ks := rfl
    rw [hd, ih, delete, List.filter_filter]
    refine List.filter_congr fun e _ => ?_
    simp [not_or, Bool.and_comm]

lemma mem_deleteAll {ks : List κ} {e : Document κ D} :
    e ∈ (c.deleteAll ks).docs ↔ e ∈ c.docs ∧ e.key ∉ ks := by
  simp [deleteAll_docs]

lemma deleteAll_absent {ks : List κ} (h : ∀ k ∈ ks, k ∉ c.keys) : c.deleteAll ks = c := by
  induction ks with
  | nil => rfl
  | cons k ks ih =>
    have hd : c.deleteAll (k :: ks) = (c.delete k).deleteAll ks := rfl
    rw [hd, delete_absent (h k List.mem_cons_self)]
    exact ih fun j hj => h j (List.mem_cons_of_mem k hj)

lemma delete_perm {e : Document κ D} (he : e ∈ c.docs) :
    c.docs.Perm (e :: (c.delete e.key).docs) := by
  have hn : (e :: (c.delete e.key).docs).Nodup :=
    List.nodup_cons.mpr ⟨by simp, (c.delete e.key).nodup.of_map⟩
  refine (List.perm_ext_iff_of_nodup c.nodup.of_map hn).mpr fun x => ?_
  simp only [List.mem_cons, mem_delete]
  constructor
  · intro hx
    by_cases hk : x.key = e.key
    · exact Or.inl (eq_of_key hx he hk)
    · exact Or.inr ⟨hx, hk⟩
  · rintro (rfl | ⟨hx, _⟩)
    · exact he
    · exact hx

variable (f : Document κ D → Option β)

lemma tally_delete {e : Document κ D} (he : e ∈ c.docs) :
    c.tally f = (f e).toList + (c.delete e.key).tally f := by
  have hp := (delete_perm he).filterMap f
  refine (Multiset.coe_eq_coe.mpr hp).trans ?_
  cases hf : f e <;> simp [tally, hf]

lemma eq_of_tally_nodup (h : (c.tally f).Nodup) {e e' : Document κ D} {b : β} (he : e ∈ c.docs)
    (he' : e' ∈ c.docs) (hb : f e = some b) (hb' : f e' = some b) : e = e' := by
  by_contra hne
  have hk : e'.key ≠ e.key := fun hk => hne (eq_of_key he he' hk.symm)
  have hin : b ∈ (c.delete e.key).tally f :=
    (mem_tally f).mpr ⟨e', mem_delete.mpr ⟨he', hk⟩, hb'⟩
  have hs : c.tally f = b ::ₘ (c.delete e.key).tally f := by simp [tally_delete f he, hb]
  exact (Multiset.nodup_cons.mp (hs ▸ h)).1 hin

lemma tally_set (k : κ) (d : D) :
    (c.set k d).tally f = (c.delete k).tally f + (f ⟨k, d⟩).toList := by
  have hs : (c.set k d).docs = (c.delete k).docs ++ [⟨k, d⟩] := rfl
  rw [tally, hs, List.filterMap_append, ← Multiset.coe_add]
  cases hf : f ⟨k, d⟩ <;> simp [tally, hf]

lemma tally_set_fresh {k : κ} (h : k ∉ c.keys) (d : D) :
    (c.set k d).tally f = c.tally f + (f ⟨k, d⟩).toList := by
  rw [tally_set, delete_absent h]

lemma tally_set_same {e : Document κ D} (he : e ∈ c.docs) {d : D} (h : f ⟨e.key, d⟩ = f e) :
    (c.set e.key d).tally f = c.tally f := by
  rw [tally_set, tally_delete f he, h, Multiset.add_comm]

lemma applyAll_append (ws vs : List (Write κ D)) :
    c.applyAll (ws ++ vs) = (c.applyAll ws).applyAll vs := List.foldl_append

end Collection

variable [DecidableEq κ]

def settles (k : κ) (b : Bool) (ws : List (Write κ D)) : Bool :=
  ws.foldl (fun b w => if w.key = k then w.isSet else b) b

lemma mem_keys_apply {c : Collection κ D} {k : κ} (w : Write κ D) :
    k ∈ (c.apply w).keys ↔ if w.key = k then w.isSet = true else k ∈ c.keys := by
  cases w with
  | set j d =>
    by_cases h : j = k
    · simp [Collection.apply, Write.key, Write.isSet, h]
    · simp only [Collection.apply, Write.key, h, if_false, Collection.mem_keys,
        Collection.mem_set]
      constructor
      · rintro ⟨e, ⟨he, _⟩ | rfl, hk⟩
        · exact ⟨e, he, hk⟩
        · exact absurd hk h
      · rintro ⟨e, he, rfl⟩
        exact ⟨e, Or.inl ⟨he, Ne.symm h⟩, rfl⟩
  | delete j =>
    by_cases h : j = k
    · subst h
      simp [Collection.apply, Write.key, Write.isSet]
    · simp only [Collection.apply, Write.key, h, if_false, Collection.mem_keys,
        Collection.mem_delete]
      constructor
      · rintro ⟨e, ⟨he, _⟩, hk⟩
        exact ⟨e, he, hk⟩
      · rintro ⟨e, he, rfl⟩
        exact ⟨e, ⟨he, Ne.symm h⟩, rfl⟩

theorem mem_keys_applyAll {c : Collection κ D} {k : κ} (ws : List (Write κ D)) :
    k ∈ (c.applyAll ws).keys ↔ settles k (decide (k ∈ c.keys)) ws = true := by
  induction ws generalizing c with
  | nil => simp [settles]
  | cons w ws ih =>
    rw [Collection.applyAll_cons, ih]
    simp only [settles, List.foldl_cons, mem_keys_apply]
    by_cases h : w.key = k <;> simp [h]

lemma settles_absent {k : κ} {b : Bool} {ws : List (Write κ D)} (h : ∀ w ∈ ws, w.key ≠ k) :
    settles k b ws = b := by
  induction ws with
  | nil => rfl
  | cons w ws ih =>
    rw [settles, List.foldl_cons, if_neg (h w (by simp))]
    exact ih fun v hv => h v (by simp [hv])

def onKey (k : κ) (ws : List (Write κ D)) : List (Write κ D) := ws.filter fun w => w.key = k

@[simp] lemma onKey_append (k : κ) (ws vs : List (Write κ D)) :
    onKey k (ws ++ vs) = onKey k ws ++ onKey k vs :=
  List.filter_append ws vs

lemma onKey_cons_self {k : κ} {w : Write κ D} (h : w.key = k) (ws : List (Write κ D)) :
    onKey k (w :: ws) = w :: onKey k ws := by
  simp [onKey, h]

lemma onKey_cons_ne {k : κ} {w : Write κ D} (h : w.key ≠ k) (ws : List (Write κ D)) :
    onKey k (w :: ws) = onKey k ws := by
  simp [onKey, h]

lemma onKey_eq_nil {k : κ} {ws : List (Write κ D)} (h : ∀ w ∈ ws, w.key ≠ k) :
    onKey k ws = [] :=
  List.filter_eq_nil_iff.mpr fun w hw => by simpa using h w hw

theorem Collection.mem_applyAll_iff {c : Collection κ D} (ws : List (Write κ D))
    {e : Document κ D} : e ∈ (c.applyAll ws).docs ↔
      (onKey e.key ws = [] ∧ e ∈ c.docs) ∨
        (onKey e.key ws).getLast? = some (.set e.key e.data) := by
  induction ws using List.reverseRecOn with
  | nil => simp [onKey]
  | append_singleton ws w ih =>
    have hw : (c.applyAll (ws ++ [w])).docs = ((c.applyAll ws).apply w).docs := by
      rw [applyAll_append]
      rfl
    rw [hw, mem_apply, onKey_append]
    by_cases hk : w.key = e.key
    · rw [onKey_cons_self hk]
      simp [hk, onKey]
    · rw [onKey_cons_ne hk, ih]
      have hne : w ≠ .set e.key e.data := fun h => hk (by rw [h]; rfl)
      simp [hne, Ne.symm hk, onKey]

def Collection.SameFate (c : Collection κ D) (ws vs : List (Write κ D)) : Prop :=
  ∀ k, settles k (decide (k ∈ c.keys)) ws = settles k (decide (k ∈ c.keys)) vs

instance (c : Collection κ D) (ws vs : List (Write κ D)) : Decidable (c.SameFate ws vs) :=
  decidable_of_iff (∀ w ∈ ws ++ vs,
      settles w.key (decide (w.key ∈ c.keys)) ws = settles w.key (decide (w.key ∈ c.keys)) vs) <| by
    constructor
    · intro h k
      by_cases hk : ∃ w ∈ ws ++ vs, w.key = k
      · obtain ⟨w, hw, rfl⟩ := hk
        exact h w hw
      · have hn : ∀ w ∈ ws ++ vs, w.key ≠ k := fun w hw he => hk ⟨w, hw, he⟩
        rw [settles_absent fun w hw => hn w (by simp [hw]),
          settles_absent fun w hw => hn w (by simp [hw])]
    · exact fun h w _ => h w.key

lemma Collection.sameFate_iff {c : Collection κ D} {ws vs : List (Write κ D)} :
    c.SameFate ws vs ↔ ∀ k, k ∈ (c.applyAll vs).keys ↔ k ∈ (c.applyAll ws).keys := by
  simp only [mem_keys_applyAll, SameFate]
  exact forall_congr' fun k => eq_comm.trans Bool.eq_iff_iff

end MobileApps.Library.DocumentStore

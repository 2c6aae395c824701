import MobileApps.Firestore.CollectionQuery
import MobileApps.Firestore.WriteExchange

/-! The documents of the server: what it carried out, some of it more than once, and what the
answers say of it. -/

namespace MobileApps.Firestore

open Library.DocumentStore

variable {U C D : Type}

def carriedOut (log : List (List (Mutation D) × Verdict)) : List (Mutation D) :=
  log.flatMap fun entry => if entry.2.status = none then entry.1 else []

def WriteExchange.server (first : Collection ResourcePath D) (x : WriteExchange U C D) :
    Collection ResourcePath D :=
  first.applyAll ((carriedOut x.log).map Mutation.write)

lemma carriedOut_append (log log' : List (List (Mutation D) × Verdict)) :
    carriedOut (log ++ log') = carriedOut log ++ carriedOut log' :=
  List.flatMap_append

lemma carriedOut_singleton (entry : List (Mutation D) × Verdict) :
    carriedOut [entry] = if entry.2.status = none then entry.1 else [] :=
  List.flatMap_singleton _ _

def lastAnswer (k : ResourcePath) (answered : List (List (Mutation D) × Verdict)) :
    Option (List (Mutation D) × Verdict) :=
  (answered.filter fun entry => lastOn k entry.1 ≠ none).getLast?

lemma lastAnswer_append (k : ResourcePath) (answered : List (List (Mutation D) × Verdict))
    (entry : List (Mutation D) × Verdict) : lastAnswer k (answered ++ [entry]) =
      if lastOn k entry.1 = none then lastAnswer k answered else some entry := by
  by_cases hk : lastOn k entry.1 = none <;> simp [lastAnswer, hk]

def InFlight (pending : U → List (MutationBatch D)) (log : List (List (Mutation D) × Verdict))
    (k : ResourcePath) : Prop :=
  ∃ user, ∃ b ∈ pending user, k ∈ b.keys ∧ lastOn k (carriedOut log) = lastOn k b.mutations

def Told (answered log : List (List (Mutation D) × Verdict)) (k : ResourcePath) : Prop :=
  match lastAnswer k answered with
  | none => lastOn k (carriedOut log) = none
  | some entry => entry.2.status = none → lastOn k (carriedOut log) = lastOn k entry.1

def Decided (pending : U → List (MutationBatch D))
    (log answered : List (List (Mutation D) × Verdict)) (k : ResourcePath) : Prop :=
  InFlight pending log k ∨ Told answered log k

variable {pending pending' : U → List (MutationBatch D)}
  {log answered : List (List (Mutation D) × Verdict)} {k : ResourcePath}

lemma Decided.write (h : Decided pending log answered k)
    (hp : ∀ user, ∀ b ∈ pending user, b ∈ pending' user) : Decided pending' log answered k := by
  refine h.imp_left ?_
  rintro ⟨user, b, hb, hk⟩
  exact ⟨user, b, hp user b hb, hk⟩

lemma Decided.serve (h : Decided pending log answered k) {user : U} {b : MutationBatch D}
    (hb : b ∈ pending user) (verdict : Verdict) :
    Decided pending (log ++ [(b.mutations, verdict)]) answered k := by
  have hcarried : carriedOut (log ++ [(b.mutations, verdict)]) =
      carriedOut log ++ if verdict.status = none then b.mutations else [] := by
    rw [carriedOut_append, carriedOut_singleton]
  by_cases hk : k ∈ b.keys ∧ verdict.status = none
  · refine Or.inl ⟨user, b, hb, hk.1, ?_⟩
    obtain ⟨m, hm⟩ := Option.ne_none_iff_exists'.mp (MutationBatch.mem_keys.mp hk.1)
    rw [hcarried, if_pos hk.2, lastOn_append, hm]
    rfl
  · have hsame : lastOn k (carriedOut (log ++ [(b.mutations, verdict)])) =
        lastOn k (carriedOut log) := by
      rw [hcarried, lastOn_append]
      split
      · rename_i hv
        have hnone : lastOn k b.mutations = none := by
          by_contra hne
          exact hk ⟨MutationBatch.mem_keys.mpr hne, hv⟩
        rw [hnone, Option.none_or]
      · rfl
    rwa [Decided, InFlight, Told, hsame]

lemma Decided.skip (h : Decided pending log answered k) {user : U} {b : MutationBatch D}
    (hp : pending user = b :: pending' user)
    (hothers : ∀ u, u ≠ user → pending' u = pending u) (hk : k ∉ b.keys) (verdict : Verdict) :
    Decided pending' log (answered ++ [(b.mutations, verdict)]) k := by
  have hnone : lastOn k b.mutations = none := by
    by_contra hne
    exact hk (MutationBatch.mem_keys.mpr hne)
  rcases h with ⟨u, b', hb', hk', hlast⟩ | h
  · refine Or.inl ⟨u, b', ?_, hk', hlast⟩
    by_cases hu : u = user
    · subst hu
      rw [hp] at hb'
      rcases List.mem_cons.mp hb' with rfl | hb'
      · exact absurd hk' hk
      · exact hb'
    · rwa [hothers u hu]
  · refine Or.inr ?_
    rwa [Told, lastAnswer_append, if_pos hnone]

lemma since_inFlight {rest : List (MutationBatch D)} {since : List (List (Mutation D) × Verdict)}
    (hsince : ∀ entry ∈ since, ∃ b ∈ rest, b.mutations = entry.1)
    (hne : lastOn k (carriedOut since) ≠ none) :
    ∃ b ∈ rest, k ∈ b.keys ∧ lastOn k (carriedOut since) = lastOn k b.mutations := by
  induction since using List.reverseRecOn with
  | nil => exact absurd rfl hne
  | append_singleton since entry ih =>
    obtain ⟨b, hb, hmutations⟩ := hsince entry (by simp)
    rw [carriedOut_append, carriedOut_singleton, lastOn_append] at hne ⊢
    by_cases hk : entry.2.status = none ∧ lastOn k entry.1 ≠ none
    · obtain ⟨m, hm⟩ := Option.ne_none_iff_exists'.mp hk.2
      refine ⟨b, hb, MutationBatch.mem_keys.mpr (hmutations ▸ hk.2), ?_⟩
      rw [if_pos hk.1, hm, Option.some_or, hmutations, hm]
    · have hnone : lastOn k (if entry.2.status = none then entry.1 else []) = none := by
        split
        · rename_i hv
          exact not_not.mp fun hne => hk ⟨hv, hne⟩
        · rfl
      rw [hnone, Option.none_or] at hne ⊢
      exact ih (fun entry he => hsince entry (List.mem_append_left _ he)) hne

lemma Decided.accept (h : Decided pending log answered k) {user : U} {b : MutationBatch D}
    (hp : pending user = b :: pending' user)
    (hothers : ∀ u, u ≠ user → pending' u = pending u) {verdict : Verdict}
    (hv : verdict.status = none) {old since : List (List (Mutation D) × Verdict)}
    (hlog : log = old ++ (b.mutations, verdict) :: since)
    (hsince : ∀ entry ∈ since, ∃ b' ∈ pending' user, b'.mutations = entry.1) :
    Decided pending' log (answered ++ [(b.mutations, verdict)]) k := by
  by_cases hk : k ∈ b.keys
  · obtain ⟨m, hm⟩ := Option.ne_none_iff_exists'.mp (MutationBatch.mem_keys.mp hk)
    have hcarried : carriedOut log = carriedOut old ++ b.mutations ++ carriedOut since := by
      rw [hlog, List.append_cons, carriedOut_append, carriedOut_append, carriedOut_singleton,
        if_pos hv]
    have hlast : lastOn k (carriedOut log) =
        (lastOn k (carriedOut since)).or (lastOn k b.mutations) := by
      rw [hcarried, lastOn_append, lastOn_append, hm, Option.some_or]
    cases hs : lastOn k (carriedOut since) with
    | none =>
      refine Or.inr ?_
      rw [Told, lastAnswer_append, if_neg (by simp [hm])]
      exact fun _ => by rw [hlast, hs, Option.none_or]
    | some m' =>
      obtain ⟨b', hb', hk', hb'last⟩ := since_inFlight (k := k) hsince (by simp [hs])
      refine Or.inl ⟨user, b', hb', hk', ?_⟩
      rw [hlast, hs, Option.some_or, ← hs, hb'last]
  · exact h.skip hp hothers hk verdict

/-- After a refusal nothing is said of the documents of the write: the server may have carried it
out before, on a stream that broke. -/
lemma Decided.refuse (h : Decided pending log answered k) {user : U} {b : MutationBatch D}
    (hp : pending user = b :: pending' user)
    (hothers : ∀ u, u ≠ user → pending' u = pending u) (error : Error) :
    Decided pending' (log ++ [(b.mutations, .refused error)])
      (answered ++ [(b.mutations, .refused error)]) k := by
  have hcarried : carriedOut (log ++ [(b.mutations, .refused error)]) = carriedOut log := by
    rw [carriedOut_append, carriedOut_singleton, if_neg (by simp [Verdict.status]),
      List.append_nil]
  by_cases hk : k ∈ b.keys
  · refine Or.inr ?_
    rw [Told, lastAnswer_append, if_neg (MutationBatch.mem_keys.mp hk)]
    simp [Verdict.status]
  · have hskip := h.skip hp hothers hk (.refused error)
    rwa [Decided, InFlight, Told, hcarried]

end MobileApps.Firestore

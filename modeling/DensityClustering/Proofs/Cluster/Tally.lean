import DensityClustering.Proofs.Cluster.Survey
import DensityClustering.Proofs.Cluster.Wiring

/-!
Clusters that do not merge. Each holds the one id it was created for, and its count is what that id
counts for by itself and with its contacts, since a contact becomes a link once and is counted then.
Nothing is said of an id that counts for more than 64 bits can hold.
-/

namespace DensityClustering

namespace ClusterIndex

variable {S : Type} [Scalar S]

/-- Clusters that do not merge, given the contacts `R` made so far and the ids that are done. -/
structure Tally (v : Survey) (x : ClusterIndex S) (R : ItemId → ItemId → Bool)
    (done : ItemId → Prop) : Prop where
  wired : Wired x
  apart : x.config.kind = .preProcess
  alone : ∀ p c, x.clusterOf p = some c → x.members c = [p] ∧
    (v.mass R p ≤ largestCount → x.isLive c = true ∧ x.size c = v.mass R p)
  linked : ∀ p c t, x.clusterOf p = some c → x.links.contains c t = true → R p t = true
  noise : ∀ q, done q → x.clusterOf q = none → v.mass R q ≤ largestCount →
    v.mass R q < v.threshold

/-- Where clusters do not merge every pass is called off. -/
theorem mergeReachable_of_apart {x : ClusterIndex S} (h : x.config.kind = .preProcess)
    (c : ClusterId) (prune : Bool) : x.mergeReachable c prune = x := by
  unfold mergeReachable pass
  rw [if_pos (Or.inl h)]
  rfl

theorem addLink_of_apart {x : ClusterIndex S} (h : x.config.kind = .preProcess) (c : ClusterId)
    (contact : Contact S) (id : ItemId) : x.addLink c contact id = x.recordLink c contact id := by
  have hgrown : (x.recordLink c contact id).1.config.kind = .preProcess :=
    (x.config_recordLink c contact id).symm ▸ h
  unfold addLink
  dsimp only
  rw [mergeReachable_of_apart hgrown, ite_self]

theorem finish_of_apart {x : ClusterIndex S} (h : x.config.kind = .preProcess) (c : ClusterId) :
    x.finish c = x.modify c fun cluster => { cluster with finished := true } := by
  rw [finish, mergeReachable_of_apart h]

/-- A link to an id that is not the cluster's own counts one, if there is room for it. -/
theorem counted_recordLink {x : ClusterIndex S} {c : ClusterId} {id : ItemId}
    (hlive : x.isLive c = true) (hfresh : x.links.contains c id = false)
    (hforeign : x.clusterOf id ≠ some c) (hroom : x.size c < largestCount) (contact : Contact S) :
    (x.recordLink c contact id).1.isLive c = true ∧
      (x.recordLink c contact id).1.size c = x.size c + 1 := by
  rcases x.recordLink_cases c contact id with ⟨hno, -⟩ | ⟨k, hk, hkl, -, ⟨hown, -⟩ | ⟨-, he⟩⟩
  · rcases hno with hdead | hlinked
    · rw [hlive] at hdead
      cases hdead
    · rw [hfresh] at hlinked
      cases hlinked
  · exact absurd hown hforeign
  have hrec : (x.recordLink c contact id).1.cluster? c =
      some (k.reach x.config.compressionThreshold id contact) := by
    rw [he, x.cluster?_relink hk, if_pos rfl]
  rw [x.size_of_cluster? hk, Cluster.size_eq] at hroom
  have hcount : 0 ≤ k.count.toInt := k.isLive_iff.mp hkl
  have hfits : Cluster.fits (k.count.toInt + 1) = true := by
    rw [Cluster.fits_iff]
    unfold largestCount at hroom
    omega
  have hsum := Cluster.toInt_count_reach x.config.compressionThreshold k id contact hfits
  rw [isLive_of_cluster? _ hrec, size_of_cluster? _ hrec, x.size_of_cluster? hk, Cluster.isLive_iff,
    Cluster.size_eq, Cluster.size_eq, hsum]
  omega

namespace Tally

variable {v : Survey} {x : ClusterIndex S} {R : ItemId → ItemId → Bool} {done : ItemId → Prop}
  {a b : ItemId} {c : ClusterId}

theorem empty (v : Survey) (config : ClusterConfig) (hkind : config.kind = .preProcess)
    (hdone : ∀ p, ¬done p) : Tally v (.empty config : ClusterIndex S) R done := by
  have hnone : ∀ p, (.empty config : ClusterIndex S).clusterOf p = none :=
    clusterOf_empty config
  refine ⟨Wired.empty config, hkind, fun p c hp => ?_, fun p c t hp => ?_,
    fun q hq => absurd hq (hdone q)⟩
  · rw [hnone] at hp
    cases hp
  · rw [hnone] at hp
    cases hp

/-- No two ids own one cluster. -/
theorem owner_unique (h : Tally v x R done) (ha : x.clusterOf a = some c)
    (hb : x.clusterOf b = some c) : b = a := by
  have hin : b ∈ x.members c := h.wired.own.listed b c hb
  rw [(h.alone a c ha).1, List.mem_singleton] at hin
  exact hin

/-- A cluster is created for an id that made no contact yet. -/
theorem create (h : Tally v x R done) {id : ItemId} {item : ClusterItem S}
    (hnone : x.clusterOf id = none) (hcount : v.weight id = min item.count largestCount)
    (hR : ∀ t, R id t = false) : Tally v (x.getOrCreate id item).1 R done := by
  have hown := x.clusterOf_getOrCreate item hnone
  have hrec := x.cluster?_getOrCreate item hnone
  have hconfig := x.config_getOrCreate id item
  have hunowned : ∀ p, x.clusterOf p ≠ some ⟨x.slots.size⟩ :=
    h.wired.own.unowned_of_none (x.cluster?_eq_none_of_not_issued (Nat.lt_irrefl _))
  have hold : ∀ p d, x.clusterOf p = some d →
      (x.getOrCreate id item).1.cluster? d = x.cluster? d := by
    intro p d hp
    have hne : d ≠ ⟨x.slots.size⟩ := fun e => hunowned p (e ▸ hp)
    rw [hrec, if_neg hne]
  refine ⟨h.wired.getOrCreate id item, hconfig ▸ h.apart, fun p d hp => ?_, fun p d t hp ht => ?_,
    fun q hq hqn => ?_⟩
  · rw [hown] at hp
    by_cases hpid : p = id
    · rw [if_pos hpid, Option.some.injEq] at hp
      subst hp
      subst hpid
      refine ⟨?_, fun _ => ⟨?_, ?_⟩⟩
      · rw [x.members_getOrCreate item hnone, if_pos rfl]
      · rw [isLive, hrec, if_pos rfl]
        exact Cluster.isLive_ofItem p item
      · rw [size, hrec, if_pos rfl, v.mass_of_no_contact R hR, hcount]
        exact Cluster.size_ofItem p item
    · rw [if_neg hpid] at hp
      have hsame := hold p d hp
      rw [members_congr hsame, isLive_congr hsame, size_congr hsame]
      exact h.alone p d hp
  · rw [x.links_getOrCreate] at ht
    rw [hown] at hp
    by_cases hpid : p = id
    · rw [if_pos hpid, Option.some.injEq] at hp
      subst hp
      obtain ⟨q, hq⟩ := h.wired.held _ t ht
      exact absurd hq (hunowned q)
    · rw [if_neg hpid] at hp
      exact h.linked p d t hp ht
  · rw [hown] at hqn
    split at hqn
    · cases hqn
    · exact h.noise q hq hqn

/-- A contact that is new becomes a link, and counts. -/
theorem addLink (h : Tally v x R done) (ha : x.clusterOf a = some c) (hne : b ≠ a)
    (hnew : R a b = false) (hb : b ∈ v.ids) (contact : Contact S) :
    Tally v (x.addLink c contact b).1 (meet R a b) done ∧
      ∀ p, (x.addLink c contact b).1.clusterOf p = x.clusterOf p := by
  have hforeign : x.clusterOf b ≠ some c := fun hb => hne (h.owner_unique ha hb)
  have hfresh : x.links.contains c b = false := by
    rw [← Bool.not_eq_true]
    intro hlinked
    rw [h.linked a c b ha hlinked] at hnew
    cases hnew
  have howner := x.clusterOf_recordLink c contact b
  have hgain : v.mass (meet R a b) a = v.mass R a + 1 := v.mass_meet_self R hnew hb
  rw [addLink_of_apart h.apart]
  refine ⟨⟨h.wired.recordLink c contact b, (x.config_recordLink c contact b).symm ▸ h.apart,
    fun p d hp => ?_, fun p d t hp ht => ?_, fun q hq hqn => ?_⟩, howner⟩
  · rw [howner] at hp
    obtain ⟨hpmem, hpcount⟩ := h.alone p d hp
    refine ⟨(x.members_recordLink c contact b d).trans hpmem, fun hfits => ?_⟩
    by_cases hd : d = c
    · subst hd
      obtain rfl := h.owner_unique ha hp
      rw [hgain] at hfits ⊢
      obtain ⟨hlive, hsize⟩ := hpcount (by omega)
      rw [← hsize] at hfits ⊢
      exact counted_recordLink hlive hfresh hforeign hfits contact
    · have hpa : p ≠ a := by
        rintro rfl
        rw [ha, Option.some.injEq] at hp
        exact hd hp.symm
      have hrec := x.cluster?_recordLink_of_ne contact b hd
      rw [v.mass_meet_of_ne R hpa] at hfits ⊢
      rw [isLive_congr hrec, size_congr hrec]
      exact hpcount hfits
  · rw [howner] at hp
    rcases x.contains_recordLink ht with ⟨rfl, rfl⟩ | ht
    · rw [h.owner_unique ha hp]
      exact Survey.meet_self R
    · exact Survey.meet_of_contact R (h.linked p d t hp ht)
  · rw [howner] at hqn
    have hqa : q ≠ a := by
      rintro rfl
      rw [ha] at hqn
      cases hqn
    rw [v.mass_meet_of_ne R hqa]
    exact h.noise q hq hqn

/-- Finishing a cluster changes no more than its flag. -/
theorem finish (h : Tally v x R done) (ha : x.clusterOf a = some c) :
    Tally v (x.finish c) R (fun q => done q ∨ q = a) ∧
      ∀ p, (x.finish c).clusterOf p = x.clusterOf p := by
  have hself : x.finish c = x.modify c fun cluster => { cluster with finished := true } :=
    finish_of_apart h.apart c
  have howner : ∀ p, (x.finish c).clusterOf p = x.clusterOf p := by
    rw [hself]
    exact x.clusterOf_modify c _
  refine ⟨⟨h.wired.finish c, ?_, fun p d hp => ?_, fun p d t hp ht => ?_, fun q hq hqn => ?_⟩,
    howner⟩
  · rw [hself, config_modify]
    exact h.apart
  · rw [howner] at hp
    have hmembers : (x.finish c).members d = x.members d := by
      rw [hself]
      apply members_modify
      exact fun _ => rfl
    have hlive : (x.finish c).isLive d = x.isLive d := by
      rw [hself]
      apply isLive_modify
      exact fun _ => rfl
    have hsize : (x.finish c).size d = x.size d := by
      rw [hself]
      apply size_modify
      exact fun _ => rfl
    rw [hmembers, hlive, hsize]
    exact h.alone p d hp
  · rw [howner] at hp
    rw [hself, links_modify] at ht
    exact h.linked p d t hp ht
  · rw [howner] at hqn
    refine h.noise q (hq.resolve_right ?_) hqn
    rintro rfl
    rw [ha] at hqn
    cases hqn

/-- An id whose cluster is too small is noise. -/
theorem invalidate (h : Tally v x R done) (ha : x.clusterOf a = some c)
    (hsize : x.size c < v.threshold) :
    Tally v (x.invalidate c) R (fun q => done q ∨ q = a) ∧
      ∀ p, p ≠ a → (x.invalidate c).clusterOf p = x.clusterOf p := by
  obtain ⟨k, hk, -, -⟩ := h.wired.own.record_of_owner ha
  have hother : ∀ p d, (x.invalidate c).clusterOf p = some d ↔ x.clusterOf p = some d ∧ d ≠ c :=
    fun p d => h.wired.own.clusterOf_invalidate_eq_some c
  have hkept : ∀ p, p ≠ a → (x.invalidate c).clusterOf p = x.clusterOf p := by
    intro p hp
    refine Option.ext fun d => (hother p d).trans (and_iff_left_of_imp fun hpd => ?_)
    rintro rfl
    exact hp (h.owner_unique ha hpd)
  refine ⟨⟨h.wired.invalidate c, (x.config_invalidate c).symm ▸ h.apart, fun p d hp => ?_,
    fun p d t hp ht => ?_, fun q hq hqn => ?_⟩, hkept⟩
  · obtain ⟨hp, hd⟩ := (hother p d).mp hp
    have hrec : (x.invalidate c).cluster? d = x.cluster? d := by
      rw [x.cluster?_invalidate hk, if_neg hd]
    rw [members_congr hrec, isLive_congr hrec, size_congr hrec]
    exact h.alone p d hp
  · have hp : x.clusterOf p = some d := ((hother p d).mp hp).1
    exact h.linked p d t hp (x.contains_of_contains_invalidate ht)
  · by_cases hqa : q = a
    · intro hfits
      rw [hqa] at hfits ⊢
      rw [← ((h.alone a c ha).2 hfits).2]
      exact hsize
    · rw [hkept q hqa] at hqn
      exact h.noise q (hq.resolve_right hqa) hqn

end Tally

end ClusterIndex

end DensityClustering

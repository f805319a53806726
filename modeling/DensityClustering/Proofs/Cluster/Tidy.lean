import DensityClustering.Proofs.Cluster.Accord
import DensityClustering.Proofs.Cluster.Wiring

/-!
What is still to be done in the middle of a run of merging clusters. Ids are open while their lists
may link on, and closed once these were handed over. Links hang from clusters that own an open id
only, and a closed id that is owned at all is owned by a finished cluster that is large enough; so
when no id is open any more, nothing is left to do.
-/

namespace DensityClustering

namespace ClusterIndex

variable {S : Type} [Scalar S]

/-- Every link starts at the cluster of an open id, and the clusters of closed ids are finished and
large enough. -/
structure Tidy (x : ClusterIndex S) (opened closed : ItemId → Prop) : Prop where
  wired : Wired x
  merging : x.config.kind = .merging
  positive : 0 < x.config.mergeSize
  linked : ∀ c t, x.links.contains c t = true → ∃ p, opened p ∧ x.clusterOf p = some c
  settled : ∀ p c, closed p → x.clusterOf p = some c →
    x.isFinished c = true ∧ x.config.mergeSize ≤ x.size c

theorem isFinished_congr {x y : ClusterIndex S} {c d : ClusterId}
    (h : y.cluster? d = x.cluster? c) : y.isFinished d = x.isFinished c := by
  rw [isFinished, isFinished, h]

theorem size_le_size_recordLink {x : ClusterIndex S} {c : ClusterId} {contact : Contact S}
    {id : ItemId} (hroom : x.hasRoom (.link c contact id) = true) (d : ClusterId) :
    x.size d ≤ (x.recordLink c contact id).1.size d := by
  rcases x.recordLink_cases c contact id with ⟨-, he⟩ | ⟨k, hk, -, -, ⟨-, he⟩ | ⟨-, he⟩⟩
  · rw [he]
  · rw [he]
    exact Nat.le_refl _
  · have hfits : Cluster.fits (k.count.toInt + 1) = true :=
      fits_of_hasRoom hroom hk (by rw [he])
    rw [he]
    have hrec := x.cluster?_relink hk (x.links.link c id).1
      (k.reach x.config.compressionThreshold id contact) d
    unfold size
    rw [hrec]
    split
    · next hd =>
      rw [hd, hk, Option.elim_some, Option.elim_some]
      rw [Cluster.size_eq, Cluster.size_eq, Cluster.toInt_count_reach _ _ _ _ hfits]
      omega
    · exact Nat.le_refl _

namespace Tidy

variable {x y : ClusterIndex S} {opened closed : ItemId → Prop} {c : ClusterId} {p : ItemId}

theorem empty (config : ClusterConfig) (hkind : config.kind = .merging)
    (hpos : 0 < config.mergeSize) : Tidy (.empty config : ClusterIndex S) opened closed := by
  refine ⟨Wired.empty config, hkind, hpos, fun c t ht => ?_, fun p c _ hp => ?_⟩
  · have hno : LinkGraph.empty.contains c t = true := ht
    rw [LinkGraph.contains_empty] at hno
    cases hno
  · rw [clusterOf_empty] at hp
    cases hp

theorem mono (h : Tidy x opened closed) {opened' closed' : ItemId → Prop}
    (hopened : ∀ p, opened p → opened' p) (hclosed : ∀ p, closed' p → closed p) :
    Tidy x opened' closed' :=
  ⟨h.wired, h.merging, h.positive,
    fun c t ht => (h.linked c t ht).imp fun p hp => ⟨hopened p hp.1, hp.2⟩,
    fun p c hp => h.settled p c (hclosed p hp)⟩

theorem create (h : Tidy x opened closed) {id : ItemId} (item : ClusterItem S)
    (hid : ¬closed id) : Tidy (x.getOrCreate id item).1 opened closed := by
  cases hnone : x.clusterOf id with
  | some d => exact (x.getOrCreate_eq_self item hnone).symm ▸ h
  | none =>
    have hown := x.clusterOf_getOrCreate item hnone
    have hconfig := x.config_getOrCreate id item
    refine ⟨h.wired.getOrCreate id item, hconfig ▸ h.merging, hconfig ▸ h.positive,
      fun c t ht => ?_, fun p c hp hpc => ?_⟩
    · rw [x.links_getOrCreate] at ht
      obtain ⟨p, hp, hpc⟩ := h.linked c t ht
      have hne : p ≠ id := by
        rintro rfl
        rw [hnone] at hpc
        cases hpc
      exact ⟨p, hp, by rw [hown, if_neg hne, hpc]⟩
    · have hne : p ≠ id := fun e => hid (e ▸ hp)
      rw [hown, if_neg hne] at hpc
      have hsettled := h.settled p c hp hpc
      -- The new handle owned nothing before.
      have hold : c ≠ ⟨x.slots.size⟩ := by
        rintro rfl
        exact h.wired.own.unowned_of_none (x.cluster?_eq_none_of_not_issued (Nat.lt_irrefl _)) p hpc
      have hrec : (x.getOrCreate id item).1.cluster? c = x.cluster? c := by
        rw [x.cluster?_getOrCreate item hnone, if_neg hold]
      rw [isFinished_congr hrec, size_congr hrec, hconfig]
      exact hsettled

theorem recordLink (h : Tidy x opened closed) (hp : opened p) (hc : x.clusterOf p = some c)
    {contact : Contact S} {t : ItemId} (hroom : x.hasRoom (.link c contact t) = true) :
    Tidy (x.recordLink c contact t).1 opened closed := by
  have howner : ∀ q, (x.recordLink c contact t).1.clusterOf q = x.clusterOf q :=
    x.clusterOf_recordLink c contact t
  have hconfig := x.config_recordLink c contact t
  refine ⟨h.wired.recordLink c contact t, hconfig ▸ h.merging, hconfig ▸ h.positive,
    fun s u hu => ?_, fun q d hq hqd => ?_⟩
  · rcases x.contains_recordLink hu with ⟨rfl, -⟩ | hu
    · exact ⟨p, hp, (howner p).trans hc⟩
    · obtain ⟨q, hq, hqs⟩ := h.linked s u hu
      exact ⟨q, hq, (howner q).trans hqs⟩
  · rw [howner] at hqd
    rw [isFinished_recordLink, hconfig]
    exact (h.settled q d hq hqd).imp_right fun hsize =>
      Nat.le_trans hsize (size_le_size_recordLink hroom d)

/-- What a calm pass leaves: a link comes from the cluster of an open id, and not from the root if
the pass pruned that one's links; and closed ids are with the root or where they were. -/
theorem swept (h : Tidy x opened closed) {prune : Bool} {home : ClusterId → ClusterId}
    (hs : Swept x c prune home y) :
    (∀ s t, y.links.contains s t = true →
      ∃ p a, opened p ∧ x.clusterOf p = some a ∧ y.clusterOf p = some s ∧ (a = c → prune = false)) ∧
    ∀ p e, closed p → y.clusterOf p = some e →
      x.config.mergeSize ≤ y.size e ∧ (e ≠ c → y.isFinished e = true) := by
  refine ⟨fun s t ht => ?_, fun p e hp hpe => ?_⟩
  · obtain ⟨a, rfl, hat, hprune⟩ := hs.origin s t ht
    obtain ⟨p, hp, hpa⟩ := h.linked a t hat
    exact ⟨p, a, hp, hpa, by rw [hs.owner, hpa, Option.map_some], hprune⟩
  · rw [hs.owner] at hpe
    obtain ⟨a, hpa, rfl⟩ := Option.map_eq_some_iff.mp hpe
    by_cases hac : home a = c
    · rw [hac]
      exact ⟨Nat.le_trans (hs.large c hs.root) hs.grown, fun hne => absurd rfl hne⟩
    · obtain ⟨he, hrec⟩ := hs.fixed a hac
      rw [he, size_congr hrec, isFinished_congr hrec]
      exact ⟨(h.settled p a hp hpa).2, fun _ => (h.settled p a hp hpa).1⟩

theorem addLink (h : Tidy x opened closed) (hp : opened p) (hc : x.clusterOf p = some c)
    (contact : Contact S) (t : ItemId) (hcalm : x.calmStep (.link c contact t) = true) :
    Tidy (x.addLink c contact t).1 opened closed := by
  have hr := h.recordLink hp hc (hasRoom_of_calmStep hcalm)
  unfold ClusterIndex.addLink
  dsimp only
  split
  · next hmerge =>
    replace hcalm := calmPass_of_calmStep hcalm hmerge
    rw [Bool.and_eq_true] at hmerge
    generalize (x.recordLink c contact t).1 = grown at hr hmerge hcalm
    by_cases hsize : grown.config.mergeSize ≤ grown.size c
    · obtain ⟨-, hg, -, -⟩ :=
        grown.gathered_mergeReachable_of_calm hr.positive hsize hr.merging hcalm
      obtain ⟨home, hs⟩ :=
        grown.swept_mergeReachable hr.wired.own hr.positive hsize hr.merging hcalm
      obtain ⟨hlinked, hsettled⟩ := hr.swept hs
      have hconfig := grown.config_mergeReachable c false
      refine ⟨hr.wired.mergeReachable c false, hconfig ▸ hr.merging, hconfig ▸ hr.positive,
        fun s u hu => ?_, fun q e hq hqe => ?_⟩
      · obtain ⟨q, -, hq, -, hqs, -⟩ := hlinked s u hu
        exact ⟨q, hq, hqs⟩
      · obtain ⟨hlarge, hfinished⟩ := hsettled q e hq hqe
        refine ⟨?_, hconfig ▸ hlarge⟩
        -- The root was finished before its pass.
        by_cases hec : e = c
        · rw [hec, hg.finished]
          exact hmerge.2
        · exact hfinished hec
    · rw [Accord.mergeReachable_eq_self (Nat.lt_of_not_le hsize)]
      exact hr
  · exact hr

/-- A list whose cluster is large enough is closed by finishing it. -/
theorem finish (h : Tidy x opened closed) (hc : x.clusterOf p = some c)
    (hsize : x.config.mergeSize ≤ x.size c) (hcalm : x.calmStep (.finish c) = true) :
    Tidy (x.finish c) (fun q => opened q ∧ q ≠ p) fun q => closed q ∨ q = p := by
  have hcalm : x.calmPass c true = true := hcalm
  obtain ⟨home, hs⟩ := x.swept_mergeReachable h.wired.own h.positive hsize h.merging hcalm
  obtain ⟨hlinked, hsettled⟩ := h.swept hs
  obtain ⟨-, -, hlive, -⟩ := x.gathered_mergeReachable_of_calm h.positive hsize h.merging hcalm
  have hconfig : (x.finish c).config = x.config :=
    (config_modify _ c _).trans (x.config_mergeReachable c true)
  have howner : ∀ q, (x.finish c).clusterOf q = (x.mergeReachable c true).clusterOf q :=
    clusterOf_modify (x.mergeReachable c true) c _
  have hfinished : ∀ e, (x.finish c).isFinished e =
      if e = c then true else (x.mergeReachable c true).isFinished e := by
    intro e
    obtain ⟨k, hk, -⟩ := (isLive_iff _).mp hlive
    unfold ClusterIndex.finish isFinished
    rw [cluster?_modify, hk]
    split
    · rfl
    · rfl
  refine ⟨h.wired.finish c, hconfig ▸ h.merging, hconfig ▸ h.positive, fun s t ht => ?_,
    fun q e hq hqe => ?_⟩
  · rw [ClusterIndex.finish, links_modify] at ht
    obtain ⟨q, a, hq, hqa, hqs, hkept⟩ := hlinked s t ht
    refine ⟨q, ⟨hq, ?_⟩, (howner q).trans hqs⟩
    -- The root keeps none of its own links, and `p` was in the root.
    rintro rfl
    rw [hc, Option.some.injEq] at hqa
    cases hkept hqa.symm
  · rw [howner] at hqe
    have hlarge : x.config.mergeSize ≤ (x.mergeReachable c true).size e ∧
        (e ≠ c → (x.mergeReachable c true).isFinished e = true) := by
      rcases hq with hq | rfl
      · exact hsettled q e hq hqe
      · rw [hs.owner, hc, Option.map_some, hs.root, Option.some.injEq] at hqe
        rw [← hqe]
        exact ⟨Nat.le_trans hsize hs.grown, fun hne => absurd rfl hne⟩
    refine ⟨?_, ?_⟩
    · rw [hfinished]
      split
      · rfl
      · next hne => exact hlarge.2 hne
    · rw [hconfig, ClusterIndex.finish, size_modify]
      · exact hlarge.1
      · exact fun _ => rfl

/-- A list whose cluster is too small is closed by taking everything from the cluster. -/
theorem invalidate (h : Tidy x opened closed) (hc : x.clusterOf p = some c) :
    Tidy (x.invalidate c) (fun q => opened q ∧ q ≠ p) fun q => closed q ∨ q = p := by
  obtain ⟨k, hk, -, -⟩ := h.wired.own.record_of_owner hc
  have hconfig := x.config_invalidate c
  have hother : ∀ q d, (x.invalidate c).clusterOf q = some d ↔ x.clusterOf q = some d ∧ d ≠ c :=
    fun q d => h.wired.own.clusterOf_invalidate_eq_some c
  refine ⟨h.wired.invalidate c, hconfig ▸ h.merging, hconfig ▸ h.positive, fun s t ht => ?_,
    fun q d hq hqd => ?_⟩
  · obtain ⟨hst, -, hs⟩ := (contains_invalidate h.wired.mirrored hk s t).mp ht
    obtain ⟨q, hq, hqs⟩ := h.linked s t hst
    refine ⟨q, ⟨hq, ?_⟩, (hother q s).mpr ⟨hqs, hs⟩⟩
    rintro rfl
    rw [hc, Option.some.injEq] at hqs
    exact hs hqs.symm
  · obtain ⟨hqd, hdc⟩ := (hother q d).mp hqd
    have hrec : (x.invalidate c).cluster? d = x.cluster? d := by
      rw [x.cluster?_invalidate hk, if_neg hdc]
    rw [isFinished_congr hrec, size_congr hrec, hconfig]
    refine h.settled q d (hq.resolve_right ?_) hqd
    rintro rfl
    rw [hc, Option.some.injEq] at hqd
    exact hdc hqd.symm

end Tidy

end ClusterIndex

end DensityClustering

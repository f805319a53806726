import DensityClustering.Proofs.Run.Rounds
import DensityClustering.Proofs.Run.Soundness

/-!
What a run of merging clusters finds: the connected components of the core primaries.
-/

namespace DensityClustering

open ClusterIndex (Operation Ownership)
open Relation (ReflTransGen)

namespace Clustering

variable {S : Type} [Scalar S]

instance (config : RunConfig) (place : ClusterItem S → Placement)
    (items : List (ClusterItem S × Bool)) (visits : List ItemId) (a : ClusterItem S) :
    Decidable (IsCore config place items visits a) :=
  inferInstanceAs (Decidable (_ ≤ _))

/-- Two core primaries are adjacent. -/
def CoreStep (config : RunConfig) (place : ClusterItem S → Placement)
    (items : List (ClusterItem S × Bool)) (visits : List ItemId) (a b : ClusterItem S) : Prop :=
  (a, true) ∈ items ∧ (b, true) ∈ items ∧ IsCore config place items visits a ∧
    IsCore config place items visits b ∧ adjacent config place visits a b = true

namespace Setting

variable {e : Setting S} {order : List ItemId} {w : Walk (List (Operation S)) ClusterList}
  {a b : ClusterItem S}

namespace Between

theorem mem_order (h : e.Between order w) (hend : ∀ id, id ∉ w.pending) {id : ItemId} :
    id ∈ order ↔ IsPrimary e.items id := by
  rw [h.primary]
  exact ⟨Or.inl, fun hid => hid.resolve_right (hend id)⟩

/-- A core primary is one that owns a cluster in the end, which is large. -/
theorem isCore_iff (h : e.Between order w) (hend : ∀ id, id ∉ w.pending)
    (ha : (a, true) ∈ e.items) : IsCore e.config e.place e.items order a ↔
      ∃ c, (e.clusters w.lists.shared).clusterOf a.id = some c := by
  have hin : a.id ∈ order := (h.mem_order hend).mpr ⟨a, ha, rfl⟩
  have hmass : e.survey.mass (contact e.config e.place e.items order) a.id =
      a.count + adjacentCount e.config e.place e.items order a :=
    mass_survey e.distinct e.positive ha hin
  unfold IsCore
  rw [← hmass]
  constructor
  · intro hcore
    refine Option.ne_none_iff_exists'.mp fun hnone => ?_
    -- Without a cluster in the end it was found to be noise.
    have hnoise := h.accord.noise a.id hin hnone
    exact absurd hcore (Nat.not_le_of_lt hnoise)
  · rintro ⟨c, hc⟩
    exact (h.accord.standing a.id c hc).threshold_le_mass (h.accord.large a.id c hin hc)

/-- The cluster that a primary owns in the end has a summary. -/
theorem mem_summary_iff (h : e.Between order w) (hend : ∀ id, id ∉ w.pending)
    (ha : (a, true) ∈ e.items) :
    (∃ s ∈ (e.clusters w.lists.shared).summaries e.config.minOwners, a.id ∈ s.members) ↔
      ∃ c, (e.clusters w.lists.shared).clusterOf a.id = some c := by
  constructor
  · rintro ⟨s, hs, hin⟩
    obtain ⟨c, hlive, -, hmem, -⟩ := ClusterIndex.exists_cluster_of_mem_summaries hs
    exact ⟨c, h.accord.own.clusterOf_of_mem_members hlive (hmem ▸ hin)⟩
  · rintro ⟨c, hc⟩
    have hin : a.id ∈ order := (h.mem_order hend).mpr ⟨a, ha, rfl⟩
    obtain ⟨s, hs, hmem⟩ := ClusterIndex.exists_summary_of_isLive h.accord.own
      (h.accord.standing a.id c hc).isLive (h.accord.large a.id c hin hc)
    exact ⟨s, hs, hmem ▸ h.accord.own.listed a.id c hc⟩

/-- Adjacent core primaries own the same cluster. -/
theorem clusterOf_eq_of_coreStep (h : e.Between order w) (hend : ∀ id, id ∉ w.pending)
    (hstep : CoreStep e.config e.place e.items order a b) :
    (e.clusters w.lists.shared).clusterOf a.id = (e.clusters w.lists.shared).clusterOf b.id := by
  obtain ⟨ha, hb, hca, hcb, hadj⟩ := hstep
  obtain ⟨c, hc⟩ := (h.isCore_iff hend ha).mp hca
  obtain ⟨d, hd⟩ := (h.isCore_iff hend hb).mp hcb
  have hin : a.id ∈ order := (h.mem_order hend).mpr ⟨a, ha, rfl⟩
  have hin' : b.id ∈ order := (h.mem_order hend).mpr ⟨b, hb, rfl⟩
  have hcontact : contact e.config e.place e.items order a.id b.id = true :=
    (contact_eq_adjacent e.distinct ha hb hin).trans hadj
  rw [hc, hd, h.accord.together a.id b.id c d hin hin' hcontact hc hd]

/-- Members of a cluster are joined by core primaries. -/
theorem chain_of_members (h : e.Between order w) (hend : ∀ id, id ∉ w.pending) {c : ClusterId}
    (hlive : (e.clusters w.lists.shared).isLive c = true)
    (hprimary : ∀ m ∈ (e.clusters w.lists.shared).members c, IsPrimary e.items m)
    (ha : (a, true) ∈ e.items) (hb : (b, true) ∈ e.items)
    (hac : a.id ∈ (e.clusters w.lists.shared).members c)
    (hbc : b.id ∈ (e.clusters w.lists.shared).members c) :
    ReflTransGen (CoreStep e.config e.place e.items order) a b := by
  have hcore : ∀ u, (u, true) ∈ e.items → u.id ∈ (e.clusters w.lists.shared).members c →
      IsCore e.config e.place e.items order u := fun u hu huc =>
    (h.isCore_iff hend hu).mpr ⟨c, h.accord.own.clusterOf_of_mem_members hlive huc⟩
  -- The bonds of the cluster are between ids, which name one primary each.
  suffices hall : ∀ id, ReflTransGen (Bond (fun p q => contact e.config e.place e.items order p q =
      true) ((e.clusters w.lists.shared).members c)) a.id id → ∀ u, (u, true) ∈ e.items →
        u.id = id → ReflTransGen (CoreStep e.config e.place e.items order) a u from
    hall b.id (h.accord.chained.joined c a.id hac b.id hbc) b hb rfl
  intro id hchain
  induction hchain with
  | refl =>
    intro u hu hid
    cases eq_of_mem_of_id_eq e.distinct hu ha hid
    exact ReflTransGen.refl
  | tail _ hbond ih =>
    rintro u hu rfl
    obtain ⟨hcontact, hmc, huc⟩ := hbond
    obtain ⟨m, hm, rfl⟩ := hprimary _ hmc
    have hmu : contact e.config e.place e.items order m.id u.id = true :=
      hcontact.elim (fun hmu => hmu) (contact_symm ⟨m, hm, rfl⟩)
    rw [contact_eq_adjacent e.distinct hm hu ((h.mem_order hend).mpr ⟨m, hm, rfl⟩)] at hmu
    exact (ih m hm rfl).tail ⟨hm, hu, hcore m hm hmc, hcore u hu huc, hmu⟩

/-- Core primaries are in one summary when a chain of them joins them. -/
theorem same_summary_iff (h : e.Between order w) (hend : ∀ id, id ∉ w.pending)
    (hprimary : ∀ c, ∀ m ∈ (e.clusters w.lists.shared).members c, IsPrimary e.items m)
    (ha : (a, true) ∈ e.items) (hb : (b, true) ∈ e.items)
    (hcore : IsCore e.config e.place e.items order a) :
    (∃ s ∈ (e.clusters w.lists.shared).summaries e.config.minOwners,
        a.id ∈ s.members ∧ b.id ∈ s.members) ↔
      ReflTransGen (CoreStep e.config e.place e.items order) a b := by
  constructor
  · rintro ⟨s, hs, has, hbs⟩
    obtain ⟨c, hlive, -, hmem, -⟩ := ClusterIndex.exists_cluster_of_mem_summaries hs
    rw [hmem] at has hbs
    exact h.chain_of_members hend hlive (hprimary c) ha hb has hbs
  · intro hchain
    -- Along the chain the owner does not change.
    have howner : (e.clusters w.lists.shared).clusterOf a.id =
        (e.clusters w.lists.shared).clusterOf b.id := by
      clear hb
      induction hchain with
      | refl => rfl
      | tail _ hstep ih => exact ih.trans (h.clusterOf_eq_of_coreStep hend hstep)
    obtain ⟨c, hc⟩ := (h.isCore_iff hend ha).mp hcore
    have hin : a.id ∈ order := (h.mem_order hend).mpr ⟨a, ha, rfl⟩
    obtain ⟨s, hs, hmem⟩ := ClusterIndex.exists_summary_of_isLive h.accord.own
      (h.accord.standing a.id c hc).isLive (h.accord.large a.id c hin hc)
    refine ⟨s, hs, ?_, ?_⟩
    · rw [hmem]
      exact h.accord.own.listed a.id c hc
    · rw [hmem]
      exact h.accord.own.listed b.id c (howner.symm.trans hc)

end Between

end Setting

/-- The summaries of a calm run are the connected components of the core primaries: a primary is in
a summary, and then exactly once, when it counts for enough with the stored items adjacent to it, and
two of these are in one summary when a chain of them joins them. -/
theorem summaries_are_core_components (config : RunConfig) (hvalid : config.fault? = none)
    (hkind : config.kind = .merging) (parent : Descriptor) (place : ClusterItem S → Placement)
    (items : List (ClusterItem S × Bool)) (hids : (items.map fun i => i.1.id).Nodup)
    (hcounts : ∀ i ∈ items, i.1.count ≤ largestCount) (summaries : List (ClusterSummary S))
    (hrun : run config parent place items = .ok summaries)
    (hcalm : IsCalm config parent place items) :
    let order := visits (journal config parent place items)
    (order.Nodup ∧ ∀ id, id ∈ order ↔ IsPrimary items id) ∧
    (∀ s ∈ summaries, s.members ≠ [] ∧ ∀ m ∈ s.members, IsPrimary items m) ∧
    (∀ a, (a, true) ∈ items →
      ((∃ s ∈ summaries, a.id ∈ s.members) ↔ IsCore config place items order a) ∧
      (IsCore config place items order a →
        (summaries.flatMap ClusterSummary.members).count a.id = 1)) ∧
    ∀ a b, (a, true) ∈ items → (b, true) ∈ items → IsCore config place items order a →
      IsCore config place items order b →
        ((∃ s ∈ summaries, a.id ∈ s.members ∧ b.id ∈ s.members) ↔
          ReflTransGen (CoreStep config place items order) a b) := by
  intro order
  obtain ⟨g, hstore, hst, hmax, hok, hsummaries⟩ := exists_group_of_run hids hrun
  have hpos := minOwners_pos hvalid
  have horder : order = visits (traversal config g).journal := by
    show visits (journal config parent place items) = _
    unfold journal
    rw [hstore]
  unfold IsCalm operations at hcalm
  rw [hstore] at hcalm
  -- The run as a setting, in which all the invariants are stated.
  let e : Setting S := ⟨config, place, items, g, hkind, hpos, hids, hcounts, hst, hmax⟩
  obtain ⟨w, h, hend, hshared⟩ := Setting.between_traversal (e := e) hok hcalm
  obtain ⟨hwarranted, hops⟩ := warranted_traversal hst hids hmax hok
  have hprimaries := hwarranted.isPrimary_of_mem hpos
  rw [← hops, hshared] at hprimaries
  rw [hshared] at hsummaries
  rw [← horder] at h
  subst hsummaries
  have hcore : ∀ a, (a, true) ∈ items →
      ((∃ s ∈ (e.clusters w.lists.shared).summaries config.minOwners, a.id ∈ s.members) ↔
        IsCore config place items order a) := fun a ha =>
    (h.mem_summary_iff hend ha).trans (h.isCore_iff hend ha).symm
  refine ⟨⟨h.nodup, fun id => h.mem_order hend⟩, fun s hs => ?_,
    fun a ha => ⟨hcore a ha, fun hca => ?_⟩,
    fun a b ha hb hca _ => h.same_summary_iff hend hprimaries ha hb hca⟩
  · obtain ⟨c, hlive, -, hmem, -⟩ := ClusterIndex.exists_cluster_of_mem_summaries hs
    refine ⟨?_, fun m hm => hprimaries c m (hmem ▸ hm)⟩
    obtain ⟨k, hk, -⟩ := (ClusterIndex.isLive_iff _).mp hlive
    rw [hmem, ClusterIndex.members_of_cluster? _ hk]
    exact h.accord.own.nonempty c k hk
  · obtain ⟨s, hs, has⟩ := (hcore a ha).mpr hca
    rw [(ClusterIndex.nodup_flatMap_members h.accord.own).count,
      if_pos (List.mem_flatMap.mpr ⟨s, hs, has⟩)]

/-- Of three points the two in range of each other are core and share a summary; the third one is
noise. -/
theorem core_components_on_line : ∃ summaries,
    run RunConfig.default ⟨⟨[]⟩, true⟩ oneCell (onLine [(0, true), (1, true), (5, true)]) =
      .ok summaries ∧
    (summaries.flatMap ClusterSummary.members).count ⟨[0]⟩ = 1 ∧
    ¬∃ s ∈ summaries, (⟨[2]⟩ : ItemId) ∈ s.members := by
  have hok : (run RunConfig.default ⟨⟨[]⟩, true⟩ oneCell
      (onLine [(0, true), (1, true), (5, true)])).isOk = true := by
    decide +kernel
  have hcalm : IsCalm RunConfig.default ⟨⟨[]⟩, true⟩ oneCell
      (onLine [(0, true), (1, true), (5, true)]) := by
    unfold IsCalm
    decide +kernel
  cases hrun : run RunConfig.default ⟨⟨[]⟩, true⟩ oneCell
      (onLine [(0, true), (1, true), (5, true)]) with
  | error e =>
    rw [hrun] at hok
    cases hok
  | ok summaries =>
    have h := (summaries_are_core_components RunConfig.default (by decide +kernel) rfl
      ⟨⟨[]⟩, true⟩ oneCell (onLine [(0, true), (1, true), (5, true)]) (by decide)
      (by decide +kernel) summaries hrun hcalm).2.2.1
    have hfirst := h (.ofPoint ⟨[0]⟩ ⟨0, 0⟩) (.head _)
    have hlast := h (.ofPoint ⟨[2]⟩ ⟨5, 0⟩) (.tail _ (.tail _ (.head _)))
    refine ⟨summaries, rfl, hfirst.2 (by decide +kernel), fun hin => ?_⟩
    exact absurd (hlast.1.mp hin) (by decide +kernel)

end Clustering

end DensityClustering

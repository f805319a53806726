import DensityClustering.Proofs.Cluster.Calm
import DensityClustering.Proofs.Cluster.Chained
import DensityClustering.Proofs.Cluster.Survey

/-!
The clusters in the middle of a run of merging clusters. The invariant relates them to the contacts
made so far: what a cluster counts, which links it still needs, and which primaries it must share
with others. Each step of a visit preserves it.
-/

namespace DensityClustering

/-- Which primaries were visited, which still wait, and which one is visited now. -/
structure Stage where
  done : ItemId → Prop
  pending : ItemId → Prop
  center : Option ItemId

namespace ClusterIndex

variable {S : Type} [Scalar S]

/-- The cluster of an id holds it alone and counts it with its contacts, or both are large. -/
def Standing (v : Survey) (x : ClusterIndex S) (R : ItemId → ItemId → Bool) (p : ItemId)
    (c : ClusterId) : Prop :=
  (x.members c = [p] ∧ x.isLive c = true ∧ x.size c = v.mass R p) ∨
    (v.threshold ≤ x.size c ∧ v.threshold ≤ v.mass R p)

/-- The clusters agree with the contacts `R` made up to a stage. -/
structure Accord (v : Survey) (x : ClusterIndex S) (R : ItemId → ItemId → Bool) (stage : Stage) :
    Prop where
  own : Ownership x
  chained : x.Chained fun a b => R a b = true
  merging : x.config.kind = .merging
  mergeSize : x.config.mergeSize = v.threshold
  standing : ∀ p c, x.clusterOf p = some c → Standing v x R p c
  /-- Only the center's cluster links to ids that still wait, those it met. -/
  waiting : ∀ c t, x.links.contains c t = true → stage.pending t →
    ∃ p, stage.center = some p ∧ x.clusterOf p = some c ∧ R p t = true
  /-- A contact with a visited id is kept as a link until both are in one cluster. -/
  reaching : ∀ p q c d, stage.pending p ∨ stage.center = some p →
    stage.done q ∨ stage.center = some q → R p q = true →
    x.clusterOf p = some c → x.clusterOf q = some d → c = d ∨ x.links.contains c q = true
  large : ∀ q c, stage.done q → x.clusterOf q = some c → v.threshold ≤ x.size c
  noise : ∀ q, stage.done q → x.clusterOf q = none → v.mass R q < v.threshold
  together : ∀ p q c d, stage.done p → stage.done q → R p q = true →
    x.clusterOf p = some c → x.clusterOf q = some d → c = d

namespace Standing

variable {v : Survey} {x : ClusterIndex S} {R : ItemId → ItemId → Bool} {p : ItemId} {c : ClusterId}

theorem isLive (h : Standing v x R p c) : x.isLive c = true := by
  rcases h with ⟨-, hlive, -⟩ | ⟨hsize, -⟩
  · exact hlive
  · exact x.isLive_of_size_pos (Nat.lt_of_lt_of_le v.positive hsize)

/-- Only the record of the cluster and what its id counts for matter. -/
theorem congr (h : Standing v x R p c) {y : ClusterIndex S}
    (hrec : y.cluster? c = x.cluster? c) : Standing v y R p c := by
  rw [Standing, members_congr hrec, isLive_congr hrec, size_congr hrec]
  exact h

theorem of_mass_eq (h : Standing v x R p c) {R' : ItemId → ItemId → Bool}
    (hmass : v.mass R' p = v.mass R p) : Standing v x R' p c := by
  rw [Standing, hmass]
  exact h

theorem threshold_le_mass (h : Standing v x R p c) (hsize : v.threshold ≤ x.size c) :
    v.threshold ≤ v.mass R p := by
  rcases h with ⟨-, -, hmass⟩ | ⟨-, hmass⟩
  · rwa [← hmass]
  · exact hmass

/-- A cluster with another member is large. -/
theorem of_other_member (h : Standing v x R p c) {q : ItemId} (hq : q ∈ x.members c)
    (hne : q ≠ p) : v.threshold ≤ x.size c ∧ v.threshold ≤ v.mass R p := by
  rcases h with ⟨hmem, -, -⟩ | hlarge
  · rw [hmem, List.mem_singleton] at hq
    exact absurd hq hne
  · exact hlarge

/-- A cluster with a link that its only member never asked for is large. -/
theorem of_link (h : Standing v x R p c) (hch : x.Chained fun a b => R a b = true) {t : ItemId}
    (ht : x.links.contains c t = true) (hno : R p t = false) :
    v.threshold ≤ x.size c ∧ v.threshold ≤ v.mass R p := by
  rcases h with ⟨hmem, -, -⟩ | hlarge
  · obtain ⟨m, hm, hR⟩ := hch.linked c t ht
    rw [hmem, List.mem_singleton] at hm
    rw [hm, hno] at hR
    cases hR
  · exact hlarge

end Standing

namespace Accord

variable {v : Survey} {x y : ClusterIndex S} {R : ItemId → ItemId → Bool} {stage : Stage}
  {a b : ItemId} {c : ClusterId}

theorem hpos (h : Accord v x R stage) : 0 < x.config.mergeSize := by
  rw [h.mergeSize]
  exact v.positive

theorem empty (v : Survey) (config : ClusterConfig) (hkind : config.kind = .merging)
    (hsize : config.mergeSize = v.threshold) (hdone : ∀ p, ¬stage.done p) :
    Accord v (.empty config : ClusterIndex S) R stage := by
  refine ⟨Ownership.empty config, Chained.empty config, hkind, hsize, fun p c hp => ?_,
    fun c t ht => ?_, fun p q c d _ _ _ hp => ?_, fun q c hq => absurd hq (hdone q),
    fun q hq => absurd hq (hdone q), fun p q c d hp => absurd hp (hdone p)⟩
  · rw [clusterOf_empty] at hp
    cases hp
  · have hno : LinkGraph.empty.contains c t = true := ht
    rw [LinkGraph.contains_empty] at hno
    cases hno
  · rw [clusterOf_empty] at hp
    cases hp

/-- A contact of an id whose cluster is large changes nothing, if the other id is not to be reached
or is in that cluster. -/
theorem meet_large (h : Accord v x R stage) (ha : x.clusterOf a = some c)
    (hlarge : v.threshold ≤ x.size c ∧ v.threshold ≤ v.mass R a) (hdone : ¬stage.done a)
    (hb : ¬(stage.done b ∨ stage.center = some b) ∨ x.clusterOf b = some c) :
    Accord v x (meet R a b) stage := by
  have hgrow : ∀ p q, R p q = true → meet R a b p q = true := fun p q =>
    Survey.meet_of_contact R
  refine ⟨h.own, h.chained.mono hgrow, h.merging, h.mergeSize, fun p d hp => ?_, fun d t ht hw => ?_,
    fun p q d e hp hq hR hpd hqe => ?_, h.large, fun q hq hqn => ?_,
    fun p q d e hp hq hR hpd hqe => ?_⟩
  · by_cases hpa : p = a
    · subst hpa
      rw [ha, Option.some.injEq] at hp
      subst hp
      exact Or.inr ⟨hlarge.1, Nat.le_trans hlarge.2 (v.mass_le_mass_meet R)⟩
    · exact (h.standing p d hp).of_mass_eq (v.mass_meet_of_ne R hpa)
  · obtain ⟨p, hp, hpd, hR⟩ := h.waiting d t ht hw
    exact ⟨p, hp, hpd, hgrow p t hR⟩
  · rcases (Survey.meet_eq_true R).mp hR with hR | ⟨rfl, rfl⟩
    · exact h.reaching p q d e hp hq hR hpd hqe
    · rcases hb with hb | hb
      · exact absurd hq hb
      · rw [ha, Option.some.injEq] at hpd
        rw [hb, Option.some.injEq] at hqe
        exact Or.inl (hpd.symm.trans hqe)
  · have hqa : q ≠ a := by
      rintro rfl
      rw [ha] at hqn
      cases hqn
    rw [v.mass_meet_of_ne R hqa]
    exact h.noise q hq hqn
  · rcases (Survey.meet_eq_true R).mp hR with hR | ⟨rfl, -⟩
    · exact h.together p q d e hp hq hR hpd hqe
    · exact absurd hp hdone

/-- The cluster of a new center. -/
theorem create (h : Accord v x R stage) {id : ItemId} {item : ClusterItem S}
    (hnone : x.clusterOf id = none) (hcount : v.weight id = min item.count largestCount)
    (hR : ∀ t, R id t = false) (hin : stage.center = some id → ∀ p, R p id = false)
    (hdone : ¬stage.done id) : Accord v (x.getOrCreate id item).1 R stage := by
  have hrec := x.cluster?_getOrCreate item hnone
  have hown := x.clusterOf_getOrCreate item hnone
  have hlinks := x.links_getOrCreate id item
  have hfresh : ∀ p d, x.clusterOf p = some d → d ≠ ⟨x.slots.size⟩ := by
    rintro p d hp rfl
    exact h.own.unowned_of_none (x.cluster?_eq_none_of_not_issued (Nat.lt_irrefl _)) p hp
  have hsame : ∀ p d, x.clusterOf p = some d →
      (x.getOrCreate id item).1.cluster? d = x.cluster? d := fun p d hp => by
    rw [hrec, if_neg (hfresh p d hp)]
  have hsize : ∀ p d, x.clusterOf p = some d →
      (x.getOrCreate id item).1.size d = x.size d := fun p d hp =>
    size_congr (hsame p d hp)
  have hback : ∀ p d, p ≠ id → (x.getOrCreate id item).1.clusterOf p = some d →
      x.clusterOf p = some d := fun p d hp hd => by
    rwa [hown, if_neg hp] at hd
  have hforth : ∀ p d, x.clusterOf p = some d →
      (x.getOrCreate id item).1.clusterOf p = some d := by
    intro p d hp
    rw [hown, if_neg, hp]
    rintro rfl
    rw [hnone] at hp
    cases hp
  refine ⟨h.own.getOrCreate id item, h.chained.getOrCreate id item,
    (x.config_getOrCreate id item).symm ▸ h.merging,
    (x.config_getOrCreate id item).symm ▸ h.mergeSize, fun p d hp => ?_, fun d t ht hw => ?_,
    fun p q d e hp hq hR' hpd hqe => ?_, fun q d hq hqd => ?_, fun q hq hqn => ?_,
    fun p q d e hp hq hR' hpd hqe => ?_⟩
  · by_cases hpid : p = id
    · rw [hpid, hown, if_pos rfl, Option.some.injEq] at hp
      subst hp
      rw [hpid]
      refine Or.inl ⟨?_, ?_, ?_⟩
      · rw [x.members_getOrCreate item hnone, if_pos rfl]
      · unfold isLive
        rw [hrec, if_pos rfl]
        exact Cluster.isLive_ofItem id item
      · unfold size
        rw [hrec, if_pos rfl, v.mass_of_no_contact R hR, hcount]
        exact Cluster.size_ofItem id item
    · have hpd := hback p d hpid hp
      exact (h.standing p d hpd).congr (hsame p d hpd)
  · rw [hlinks] at ht
    obtain ⟨p, hp, hpd, hRt⟩ := h.waiting d t ht hw
    exact ⟨p, hp, hforth p d hpd, hRt⟩
  · have hpid : p ≠ id := by
      rintro rfl
      rw [hR q] at hR'
      cases hR'
    have hqid : q ≠ id := by
      rintro rfl
      rcases hq with hq | hq
      · exact hdone hq
      · rw [hin hq p] at hR'
        cases hR'
    rw [hlinks]
    exact h.reaching p q d e hp hq hR' (hback p d hpid hpd) (hback q e hqid hqe)
  · have hqid : q ≠ id := fun e => hdone (e ▸ hq)
    have hqd' := hback q d hqid hqd
    rw [hsize q d hqd']
    exact h.large q d hq hqd'
  · refine h.noise q hq ?_
    have hqid : q ≠ id := fun e => hdone (e ▸ hq)
    rwa [hown, if_neg hqid] at hqn
  · exact h.together p q d e hp hq hR' (hback p d (fun e => hdone (e ▸ hp)) hpd)
      (hback q e (fun e => hdone (e ▸ hq)) hqe)

/-- A cluster links to a contact of one of its members, and counts it unless it is large anyway. -/
theorem linked (h : Accord v x R stage) (ha : x.clusterOf a = some c) (hnew : R a b = false)
    (hb : b ∈ v.ids) (hdone : ¬stage.done a) (hwait : stage.pending b → stage.center = some a)
    (hown : Ownership y) (hconfig : y.config = x.config)
    (howner : ∀ p, y.clusterOf p = x.clusterOf p) (hmem : ∀ d, y.members d = x.members d)
    (hlive : ∀ d, y.isLive d = x.isLive d)
    (hlinks : ∀ s t, y.links.contains s t = true ↔ (s = c ∧ t = b) ∨ x.links.contains s t = true)
    (hother : ∀ d, d ≠ c → y.size d = x.size d)
    (hsize : y.size c = x.size c + 1 ∨
      (y.size c = x.size c ∧ v.threshold ≤ x.size c ∧ v.threshold ≤ v.mass R a)) :
    Accord v y (meet R a b) stage := by
  have hgrow : ∀ p q, R p q = true → meet R a b p q = true := fun p q =>
    Survey.meet_of_contact R
  have hle : ∀ d, x.size d ≤ y.size d := by
    intro d
    by_cases hd : d = c
    · rw [hd]
      omega
    · exact Nat.le_of_eq (hother d hd).symm
  have hain : a ∈ x.members c := h.own.listed a c ha
  refine ⟨hown, ⟨fun s t ht => ?_, fun d => ?_⟩, hconfig ▸ h.merging, hconfig ▸ h.mergeSize,
    fun p d hp => ?_, fun d t ht hw => ?_, fun p q d e hp hq hR hpd hqe => ?_, fun q d hq hqd => ?_,
    fun q hq hqn => ?_, fun p q d e hp hq hR hpd hqe => ?_⟩
  · rw [hmem]
    rcases (hlinks s t).mp ht with ⟨rfl, rfl⟩ | ht
    · exact ⟨a, hain, Survey.meet_self R⟩
    · obtain ⟨m, hm, hR⟩ := h.chained.linked s t ht
      exact ⟨m, hm, hgrow m t hR⟩
  · rw [hmem]
    exact (h.chained.joined d).mono hgrow
  -- The size of `c` keeps up with what `a` counts for, or is large anyway.
  · rw [howner] at hp
    have hst := h.standing p d hp
    have hmass := v.mass_le_mass_meet R (a := a) (b := b) (p := p)
    by_cases hpa : p = a
    · subst hpa
      rw [ha, Option.some.injEq] at hp
      subst hp
      have hone := v.mass_meet_self R hnew hb
      rcases hst with ⟨hm, hl, hs⟩ | ⟨hs, hms⟩
      · rcases hsize with hsize | ⟨-, hs', hms⟩
        · refine Or.inl ⟨(hmem c).trans hm, (hlive c).trans hl, ?_⟩
          omega
        · exact Or.inr ⟨Nat.le_trans hs' (hle c), Nat.le_trans hms hmass⟩
      · exact Or.inr ⟨Nat.le_trans hs (hle c), Nat.le_trans hms hmass⟩
    · by_cases hdc : d = c
      · subst hdc
        have hlarge := hst.of_other_member hain fun e => hpa e.symm
        exact Or.inr ⟨Nat.le_trans hlarge.1 (hle d), Nat.le_trans hlarge.2 hmass⟩
      · unfold Standing
        rw [hmem, hlive, hother d hdc, v.mass_meet_of_ne R hpa]
        exact hst
  · rcases (hlinks d t).mp ht with ⟨rfl, rfl⟩ | ht
    · exact ⟨a, hwait hw, (howner a).trans ha, Survey.meet_self R⟩
    · obtain ⟨p, hp, hpd, hR⟩ := h.waiting d t ht hw
      exact ⟨p, hp, (howner p).trans hpd, hgrow p t hR⟩
  · rw [howner] at hpd hqe
    rcases (Survey.meet_eq_true R).mp hR with hR | ⟨rfl, rfl⟩
    · rcases h.reaching p q d e hp hq hR hpd hqe with he | hl
      · exact Or.inl he
      · exact Or.inr ((hlinks d q).mpr (Or.inr hl))
    · rw [ha, Option.some.injEq] at hpd
      exact Or.inr ((hlinks d q).mpr (Or.inl ⟨hpd.symm, rfl⟩))
  · rw [howner] at hqd
    exact Nat.le_trans (h.large q d hq hqd) (hle d)
  · rw [howner] at hqn
    have hqa : q ≠ a := fun e => hdone (e ▸ hq)
    rw [v.mass_meet_of_ne R hqa]
    exact h.noise q hq hqn
  · rw [howner] at hpd hqe
    rcases (Survey.meet_eq_true R).mp hR with hR | ⟨rfl, -⟩
    · exact h.together p q d e hp hq hR hpd hqe
    · exact absurd hp hdone

theorem recordLink (h : Accord v x R stage) (ha : x.clusterOf a = some c) (hne : b ≠ a)
    (hnew : R a b = false) (hb : b ∈ v.ids) (hdone : ¬stage.done a)
    (hwait : stage.pending b → stage.center = some a) (contact : Contact S)
    (hroom : x.hasRoom (.link c contact b) = true) :
    Accord v (x.recordLink c contact b).1 (meet R a b) stage := by
  have hst := h.standing a c ha
  have hown := h.own.recordLink c contact b
  rcases x.recordLink_cases c contact b with ⟨hno, he⟩ | ⟨k, hk, hkl, hfresh, ⟨hin, he⟩ | ⟨-, he⟩⟩
  -- A link that `c` had was asked for by another member, so `c` is large.
  · have hcontains : x.links.contains c b = true := hno.resolve_left fun hdead => by
      rw [hst.isLive] at hdead
      cases hdead
    rw [he]
    refine h.linked ha hnew hb hdone hwait h.own rfl (fun _ => rfl) (fun _ => rfl) (fun _ => rfl)
      (fun s t => ⟨Or.inr, ?_⟩) (fun _ _ => rfl)
      (Or.inr ⟨rfl, hst.of_link h.chained hcontains hnew⟩)
    rintro (⟨rfl, rfl⟩ | ht)
    · exact hcontains
    · exact ht
  · rw [he] at hown ⊢
    exact h.linked ha hnew hb hdone hwait hown rfl (fun _ => rfl) (fun _ => rfl) (fun _ => rfl)
      (fun _ _ => LinkGraph.contains_link ..) (fun _ _ => rfl)
      (Or.inr ⟨rfl, hst.of_other_member (h.own.listed b c hin) hne⟩)
  · have hmem := x.members_recordLink c contact b
    have hfits : Cluster.fits (k.count.toInt + 1) = true :=
      fits_of_hasRoom hroom hk (by rw [he])
    rw [he] at hown hmem ⊢
    have hrec := x.cluster?_relink hk (x.links.link c b).1
      (k.reach x.config.compressionThreshold b contact)
    have hcount := Cluster.toInt_count_reach x.config.compressionThreshold k b contact hfits
    have hlive : (k.reach x.config.compressionThreshold b contact).isLive = true := by
      rw [Cluster.isLive_iff, hcount]
      have := k.isLive_iff.mp hkl
      omega
    refine h.linked ha hnew hb hdone hwait hown rfl (fun _ => rfl) hmem (fun d => ?_)
      (fun _ _ => LinkGraph.contains_link ..) (fun d hd => ?_) (Or.inl ?_)
    · unfold isLive
      rw [hrec]
      split
      · next hd => rw [hd, hk, Option.any_some, Option.any_some, hlive, hkl]
      · rfl
    · unfold size
      rw [hrec, if_neg hd]
    · unfold size
      rw [hrec, if_pos rfl, hk, Option.elim_some, Option.elim_some]
      rw [Cluster.size_eq, Cluster.size_eq, hcount]
      have := k.isLive_iff.mp hkl
      omega

/-- A calm pass of a large cluster, which prunes only the links of the center's. -/
theorem swept (h : Accord v x R stage) {prune : Bool} {home : ClusterId → ClusterId}
    (hs : Swept x c prune home y) (hown : Ownership y) (hchained : y.Chained fun a b => R a b = true)
    (hconfig : y.config = x.config)
    (hprune : prune = true → ∃ p, stage.center = some p ∧ x.clusterOf p = some c) :
    Accord v y R stage := by
  have hback : ∀ p e, y.clusterOf p = some e → ∃ a, x.clusterOf p = some a ∧ home a = e := by
    intro p e hp
    rw [hs.owner] at hp
    exact Option.map_eq_some_iff.mp hp
  have hforth : ∀ p a, x.clusterOf p = some a → y.clusterOf p = some (home a) := by
    intro p a hp
    rw [hs.owner, hp, Option.map_some]
  have hlarge : ∀ a, home a = c → v.threshold ≤ x.size a ∧ v.threshold ≤ y.size c := by
    intro a ha
    have h₁ := hs.large a ha
    have h₂ := hs.large c hs.root
    rw [h.mergeSize] at h₁ h₂
    exact ⟨h₁, Nat.le_trans h₂ hs.grown⟩
  have hsize : ∀ a, v.threshold ≤ x.size a → v.threshold ≤ y.size (home a) := by
    intro a ha
    by_cases hac : home a = c
    · rw [hac]
      exact (hlarge a hac).2
    · obtain ⟨he, hrec⟩ := hs.fixed a hac
      rw [he, size_congr hrec]
      exact ha
  refine ⟨hown, hchained, hconfig ▸ h.merging, hconfig ▸ h.mergeSize, fun p e hp => ?_,
    fun s t ht hw => ?_, fun p q e f hp hq hR hpe hqf => ?_, fun q e hq hqe => ?_,
    fun q hq hqn => ?_, fun p q e f hp hq hR hpe hqf => ?_⟩
  · obtain ⟨a, hpa, rfl⟩ := hback p e hp
    have hst := h.standing p a hpa
    by_cases hac : home a = c
    · have hl := hlarge a hac
      exact Or.inr ⟨hac ▸ hl.2, hst.threshold_le_mass hl.1⟩
    · obtain ⟨he, hrec⟩ := hs.fixed a hac
      rw [he]
      exact hst.congr hrec
  · obtain ⟨a, rfl, hat, -⟩ := hs.origin s t ht
    obtain ⟨p, hp, hpa, hR⟩ := h.waiting a t hat hw
    exact ⟨p, hp, hforth p a hpa, hR⟩
  · obtain ⟨a, hpa, rfl⟩ := hback p e hpe
    obtain ⟨d, hqd, rfl⟩ := hback q f hqf
    rcases h.reaching p q a d hp hq hR hpa hqd with rfl | hl
    · exact Or.inl rfl
    rcases hs.kept a q hl with hk | ⟨rfl, hp'⟩ | ⟨hac, d', hqd', hd'⟩
    · exact Or.inr hk
    · -- A link of the center is pruned only if it leads to no cluster that has to be reached.
      have hdc : home d = a := by
        rcases hq with hq | hq
        · refine hs.closed a q d hs.root hl hqd ?_
          rw [h.mergeSize]
          exact h.large q d hq hqd
        · obtain ⟨p', hp'', hpc⟩ := hprune hp'
          rw [hq, Option.some.injEq] at hp''
          rw [← hp'', hqd, Option.some.injEq] at hpc
          rw [hpc, hs.root]
      exact Or.inl (hs.root.trans hdc.symm)
    · rw [hqd, Option.some.injEq] at hqd'
      rw [hqd'] 
      exact Or.inl (hac.trans hd'.symm)
  · obtain ⟨d, hqd, rfl⟩ := hback q e hqe
    exact hsize d (h.large q d hq hqd)
  · refine h.noise q hq ?_
    rw [hs.owner, Option.map_eq_none_iff] at hqn
    exact hqn
  · obtain ⟨a, hpa, rfl⟩ := hback p e hpe
    obtain ⟨d, hqd, rfl⟩ := hback q f hqf
    rw [h.together p q a d hp hq hR hpa hqd]

theorem mergeReachable (h : Accord v x R stage) (hsize : v.threshold ≤ x.size c)
    (hcalm : x.calmPass c false = true) : Accord v (x.mergeReachable c false) R stage := by
  obtain ⟨home, hs⟩ := x.swept_mergeReachable h.own h.hpos (h.mergeSize ▸ hsize) h.merging hcalm
  exact h.swept hs (h.own.mergeReachable c false) (h.chained.mergeReachable h.own h.hpos c false)
    (x.config_mergeReachable c false) Bool.noConfusion

/-- A cluster that is too small calls its pass off. -/
theorem mergeReachable_eq_self (hsize : x.size c < x.config.mergeSize) (prune : Bool) :
    x.mergeReachable c prune = x := by
  unfold ClusterIndex.mergeReachable pass
  rw [if_pos (Or.inr (Or.inl hsize))]
  rfl

/-- Offering a contact to the cluster of an id. -/
theorem addLink (h : Accord v x R stage) (ha : x.clusterOf a = some c) (hne : b ≠ a)
    (hnew : R a b = false) (hb : b ∈ v.ids) (hdone : ¬stage.done a)
    (hwait : stage.pending b → stage.center = some a) (contact : Contact S)
    (hcalm : x.calmStep (.link c contact b) = true) :
    Accord v (x.addLink c contact b).1 (meet R a b) stage := by
  have hr := h.recordLink ha hne hnew hb hdone hwait contact (hasRoom_of_calmStep hcalm)
  unfold ClusterIndex.addLink
  dsimp only
  split
  · next hmerge =>
    by_cases hsize : v.threshold ≤ (x.recordLink c contact b).1.size c
    · exact hr.mergeReachable hsize (calmPass_of_calmStep hcalm hmerge)
    · rw [mergeReachable_eq_self]
      · exact hr
      · rw [hr.mergeSize]
        omega
  · exact hr

theorem of_same (h : Accord v x R stage) (hown : Ownership y)
    (hconfig : y.config = x.config) (howner : ∀ p, y.clusterOf p = x.clusterOf p)
    (hmem : ∀ d, y.members d = x.members d) (hlive : ∀ d, y.isLive d = x.isLive d)
    (hsize : ∀ d, y.size d = x.size d) (hlinks : y.links = x.links) : Accord v y R stage := by
  refine ⟨hown, h.chained.of_fewer_links hmem fun s t ht => hlinks ▸ ht, hconfig ▸ h.merging,
    hconfig ▸ h.mergeSize, fun p c hp => ?_, fun c t ht hw => ?_,
    fun p q c d hp hq hR hpc hqd => ?_, fun q c hq hqc => ?_, fun q hq hqn => ?_,
    fun p q c d hp hq hR hpc hqd => ?_⟩
  · rw [howner] at hp
    unfold Standing
    rw [hmem, hlive, hsize]
    exact h.standing p c hp
  · rw [hlinks] at ht
    obtain ⟨p, hp, hpc, hR⟩ := h.waiting c t ht hw
    exact ⟨p, hp, (howner p).trans hpc, hR⟩
  · rw [howner] at hpc hqd
    rw [hlinks]
    exact h.reaching p q c d hp hq hR hpc hqd
  · rw [howner] at hqc
    rw [hsize]
    exact h.large q c hq hqc
  · rw [howner] at hqn
    exact h.noise q hq hqn
  · rw [howner] at hpc hqd
    exact h.together p q c d hp hq hR hpc hqd

/-- The final pass of a large cluster puts what its center met into it. -/
theorem finalPass (h : Accord v x R stage) (hcenter : stage.center = some a)
    (ha : x.clusterOf a = some c) (hsize : v.threshold ≤ x.size c)
    (hcalm : x.calmPass c true = true) (hsymm : ∀ p, stage.done p → R p a = true → R a p = true) :
    Accord v (x.mergeReachable c true) R
      ⟨fun q => stage.done q ∨ q = a, stage.pending, none⟩ := by
  obtain ⟨home, hs⟩ := x.swept_mergeReachable h.own h.hpos (h.mergeSize ▸ hsize) h.merging hcalm
  have hy := h.swept hs (h.own.mergeReachable c true) (h.chained.mergeReachable h.own h.hpos c true)
    (x.config_mergeReachable c true) fun _ => ⟨a, hcenter, ha⟩
  have hya : (x.mergeReachable c true).clusterOf a = some c := by
    rw [hs.owner, ha, Option.map_some, hs.root]
  have hmet : ∀ q d, stage.done q → R a q = true →
      (x.mergeReachable c true).clusterOf q = some d → d = c := by
    intro q d hq hR hqd
    rw [hs.owner] at hqd
    obtain ⟨e, hqe, rfl⟩ := Option.map_eq_some_iff.mp hqd
    rcases h.reaching a q c e (Or.inr hcenter) (Or.inl hq) hR ha hqe with rfl | hl
    · exact hs.root
    · refine hs.closed c q e hs.root hl hqe ?_
      rw [h.mergeSize]
      exact h.large q e hq hqe
  refine ⟨hy.own, hy.chained, hy.merging, hy.mergeSize, hy.standing, fun s t ht hw => ?_,
    fun p q d e hp hq hR hpd hqe => ?_, fun q d hq hqd => ?_, fun q hq hqn => ?_,
    fun p q d e hp hq hR hpd hqe => ?_⟩
  · obtain ⟨d, -, hd, hdc⟩ := hs.origin s t ht
    obtain ⟨p, hp, hpd, -⟩ := h.waiting d t hd hw
    rw [hcenter, Option.some.injEq] at hp
    rw [← hp, ha, Option.some.injEq] at hpd
    cases hdc hpd.symm
  · have hp' : stage.pending p := hp.resolve_right nofun
    refine hy.reaching p q d e (Or.inl hp') ?_ hR hpd hqe
    rcases hq with (hq | rfl) | hq
    · exact Or.inl hq
    · exact Or.inr hcenter
    · cases hq
  · rcases hq with hq | rfl
    · exact hy.large q d hq hqd
    · rw [hya, Option.some.injEq] at hqd
      rw [← hqd]
      exact Nat.le_trans hsize hs.grown
  · rcases hq with hq | rfl
    · exact hy.noise q hq hqn
    · rw [hya] at hqn
      cases hqn
  · rcases hp with hp | rfl
    · rcases hq with hq | rfl
      · exact hy.together p q d e hp hq hR hpd hqe
      · rw [hya, Option.some.injEq] at hqe
        rw [hmet p d hp (hsymm p hp hR) hpd, hqe]
    · rw [hya, Option.some.injEq] at hpd
      rcases hq with hq | rfl
      · rw [hmet q e hq hR hqe, hpd]
      · rw [hya, Option.some.injEq] at hqe
        exact hpd.symm.trans hqe

/-- A center whose cluster is large enough is done once the cluster is finished. -/
theorem finish (h : Accord v x R stage) (hcenter : stage.center = some a)
    (ha : x.clusterOf a = some c) (hsize : v.threshold ≤ x.size c)
    (hcalm : x.calmStep (.finish c) = true)
    (hsymm : ∀ p, stage.done p → R p a = true → R a p = true) :
    Accord v (x.finish c) R ⟨fun q => stage.done q ∨ q = a, stage.pending, none⟩ := by
  have hpass := h.finalPass hcenter ha hsize hcalm hsymm
  refine hpass.of_same (h.own.finish c) (config_modify _ c _) (fun p => ?_)
    (members_modify _ c _ fun _ => rfl) (isLive_modify _ c _ fun _ => rfl)
    (size_modify _ c _ fun _ => rfl) (links_modify _ c _)
  rw [clusterOf, clusterOf, ClusterIndex.finish, owners_modify]

/-- The next center starts its visit without contacts that wait. -/
theorem turn {done pending : ItemId → Prop} (h : Accord v x R ⟨done, pending, none⟩)
    {pending' : ItemId → Prop} (hless : ∀ t, pending' t → pending t) (ha : pending a)
    (hno : ∀ p, pending p → R p a = false) : Accord v x R ⟨done, pending', some a⟩ := by
  refine ⟨h.own, h.chained, h.merging, h.mergeSize, h.standing, fun c t ht hw => ?_,
    fun p q c d hp hq hR hpc hqd => ?_, h.large, h.noise, h.together⟩
  · obtain ⟨p, hp, -⟩ := h.waiting c t ht (hless t hw)
    cases hp
  · have hp' : pending p := by
      rcases hp with hp | hp
      · exact hless p hp
      · cases hp
        exact ha
    rcases hq with hq | hq
    · exact h.reaching p q c d (Or.inl hp') (Or.inl hq) hR hpc hqd
    · cases hq
      rw [hno p hp'] at hR
      cases hR

/-- A cluster that is too small holds its center only. -/
theorem members_of_size_lt (h : Accord v x R stage) (ha : x.clusterOf a = some c)
    (hsize : x.size c < v.threshold) : x.members c = [a] ∧ v.mass R a < v.threshold := by
  rcases h.standing a c ha with ⟨hmem, -, hmass⟩ | ⟨hlarge, -⟩
  · exact ⟨hmem, hmass ▸ hsize⟩
  · omega

theorem clusterOf_invalidate (h : Accord v x R stage) (ha : x.clusterOf a = some c)
    (hsize : x.size c < v.threshold) (p : ItemId) :
    (x.invalidate c).clusterOf p = if p = a then none else x.clusterOf p := by
  obtain ⟨k, hk, -⟩ := x.isLive_iff.mp (h.standing a c ha).isLive
  have hkmem : k.members = [a] :=
    (x.members_of_cluster? hk).symm.trans (h.members_of_size_lt ha hsize).1
  rw [ClusterIndex.clusterOf_invalidate _ hk]
  by_cases hp : p = a
  · simp only [hkmem, hp, ha, List.mem_singleton, true_and, if_true]
  · simp only [hkmem, hp, List.mem_singleton, false_and, if_false]

/-- A center whose cluster is too small is noise. -/
theorem invalidate (h : Accord v x R stage) (hcenter : stage.center = some a)
    (ha : x.clusterOf a = some c) (hsize : x.size c < v.threshold) :
    Accord v (x.invalidate c) R ⟨fun q => stage.done q ∨ q = a, stage.pending, none⟩ := by
  obtain ⟨hmem, hmass⟩ := h.members_of_size_lt ha hsize
  have howner := h.clusterOf_invalidate ha hsize
  obtain ⟨k, hk, -⟩ := x.isLive_iff.mp (h.standing a c ha).isLive
  have hrec := x.cluster?_invalidate hk
  have hkmem : k.members = [a] := (x.members_of_cluster? hk).symm.trans hmem
  have hown : ∀ p d, (x.invalidate c).clusterOf p = some d → p ≠ a ∧ x.clusterOf p = some d := by
    intro p d hp
    rw [howner] at hp
    split at hp
    · cases hp
    · next hpa => exact ⟨hpa, hp⟩
  have hne : ∀ p d, p ≠ a → x.clusterOf p = some d → d ≠ c := by
    rintro p d hp hpd rfl
    have hin := h.own.listed p d hpd
    rw [hmem, List.mem_singleton] at hin
    exact hp hin
  have hlinks : ∀ d t, d ≠ c → t ≠ a → x.links.contains d t = true →
      (x.invalidate c).links.contains d t = true := by
    intro d t hd ht hl
    unfold ClusterIndex.invalidate
    rw [hk]
    refine (LinkGraph.contains_removeCluster ..).mpr ⟨?_, hd⟩
    refine LinkGraph.contains_foldl_detach_of_not_mem _ _ _ _ hl ?_
    rw [hkmem, List.mem_singleton]
    exact ht
  have hgone : ∀ d t, (x.invalidate c).links.contains d t = true →
      x.links.contains d t = true ∧ d ≠ c := by
    intro d t hl
    refine ⟨x.contains_of_contains_invalidate hl, ?_⟩
    unfold ClusterIndex.invalidate at hl
    rw [hk] at hl
    exact ((LinkGraph.contains_removeCluster ..).mp hl).2
  have hsame : ∀ d, d ≠ c → (x.invalidate c).cluster? d = x.cluster? d := fun d hd => by
    rw [hrec, if_neg hd]
  refine ⟨h.own.invalidate c, h.chained.invalidate c, (x.config_invalidate c).symm ▸ h.merging,
    (x.config_invalidate c).symm ▸ h.mergeSize, fun p d hp => ?_, fun d t ht hw => ?_,
    fun p q d e hp hq hR hpd hqe => ?_, fun q d hq hqd => ?_, fun q hq hqn => ?_,
    fun p q d e hp hq hR hpd hqe => ?_⟩
  · obtain ⟨hpa, hpd⟩ := hown p d hp
    exact (h.standing p d hpd).congr (hsame d (hne p d hpa hpd))
  · obtain ⟨hl, hd⟩ := hgone d t ht
    obtain ⟨p, hp, hpd, -⟩ := h.waiting d t hl hw
    rw [hcenter, Option.some.injEq] at hp
    rw [← hp, ha, Option.some.injEq] at hpd
    exact absurd hpd.symm hd
  · obtain ⟨hpa, hpd⟩ := hown p d hpd
    obtain ⟨hqa, hqe⟩ := hown q e hqe
    have hp' : stage.pending p := hp.resolve_right nofun
    have hq' : stage.done q := (hq.resolve_right nofun).resolve_right hqa
    rcases h.reaching p q d e (Or.inl hp') (Or.inl hq') hR hpd hqe with he | hl
    · exact Or.inl he
    · exact Or.inr (hlinks d q (hne p d hpa hpd) hqa hl)
  · obtain ⟨hqa, hqd⟩ := hown q d hqd
    rw [size_congr (hsame d (hne q d hqa hqd))]
    exact h.large q d (hq.resolve_right hqa) hqd
  · by_cases hqa : q = a
    · rw [hqa]
      exact hmass
    · rw [howner, if_neg hqa] at hqn
      exact h.noise q (hq.resolve_right hqa) hqn
  · obtain ⟨hpa, hpd⟩ := hown p d hpd
    obtain ⟨hqa, hqe⟩ := hown q e hqe
    exact h.together p q d e (hp.resolve_right hpa) (hq.resolve_right hqa) hR hpd hqe

end Accord

end ClusterIndex

end DensityClustering

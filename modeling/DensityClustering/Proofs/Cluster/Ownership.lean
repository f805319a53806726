import DensityClustering.Proofs.Cluster.Operation

/-!
Who owns which id. In every state that operations lead to, the clusters that own anything own exactly
their members, and a cluster that was invalidated owns nothing for good.
-/

namespace DensityClustering

namespace ClusterIndex

variable {S : Type} [Scalar S]

/-- The owner map and the member lists agree, but for clusters that are not live and lost all ids. -/
structure Ownership (x : ClusterIndex S) : Prop where
  listed : ∀ id c, x.clusterOf id = some c → id ∈ x.members c
  nonempty : ∀ c k, x.cluster? c = some k → k.members ≠ []
  nodup : ∀ c k, x.cluster? c = some k → k.members.Nodup
  possession : ∀ c k, x.cluster? c = some k →
    (∀ m ∈ k.members, x.clusterOf m = some c) ∨ (k.isLive = false ∧ ∀ id, x.clusterOf id ≠ some c)

namespace Ownership

variable {x y : ClusterIndex S}

theorem owner_of_live (h : Ownership x) {c : ClusterId} {k : Cluster S}
    (hk : x.cluster? c = some k) (hlive : k.isLive = true) :
    ∀ m ∈ k.members, x.clusterOf m = some c := by
  rcases h.possession c k hk with hp | ⟨hdead, -⟩
  · exact hp
  · rw [hdead] at hlive
    cases hlive

/-- The members of a live cluster are its own. -/
theorem clusterOf_of_mem_members (h : Ownership x) {c : ClusterId} (hc : x.isLive c = true)
    {m : ItemId} (hm : m ∈ x.members c) : x.clusterOf m = some c := by
  obtain ⟨k, hk, hlive⟩ := x.isLive_iff.mp hc
  rw [x.members_of_cluster? hk] at hm
  exact h.owner_of_live hk hlive m hm

theorem exists_owned_of_live (h : Ownership x) {c : ClusterId} (hc : x.isLive c = true) :
    ∃ id, x.clusterOf id = some c := by
  obtain ⟨k, hk, hlive⟩ := x.isLive_iff.mp hc
  obtain ⟨m, hm⟩ := List.exists_mem_of_ne_nil _ (h.nonempty c k hk)
  exact ⟨m, h.owner_of_live hk hlive m hm⟩

theorem record_of_owner (h : Ownership x) {id : ItemId} {c : ClusterId}
    (hid : x.clusterOf id = some c) :
    ∃ k, x.cluster? c = some k ∧ id ∈ k.members ∧ ∀ m ∈ k.members, x.clusterOf m = some c := by
  obtain ⟨k, hk, hm⟩ := x.exists_cluster_of_mem (h.listed id c hid)
  rcases h.possession c k hk with hp | ⟨-, hnone⟩
  · exact ⟨k, hk, hm, hp⟩
  · exact absurd hid (hnone id)

theorem unowned_of_none (h : Ownership x) {c : ClusterId} (hc : x.cluster? c = none)
    (id : ItemId) : x.clusterOf id ≠ some c := by
  intro hid
  obtain ⟨k, hk, -⟩ := h.record_of_owner hid
  rw [hc] at hk
  cases hk

/-- Changes that keep owners and members and revive nothing. -/
theorem of_same_members (h : Ownership x) (hown : ∀ id, y.clusterOf id = x.clusterOf id)
    (hmem : ∀ c, (y.cluster? c).map Cluster.members = (x.cluster? c).map Cluster.members)
    (hdead : ∀ c, x.isLive c = false → y.isLive c = false) : Ownership y := by
  -- No record of `y` is new: one of `x` has the same handle and members.
  have hback : ∀ c k, y.cluster? c = some k →
      ∃ k', x.cluster? c = some k' ∧ k'.members = k.members := by
    intro c k hk
    have hm := hmem c
    rw [hk] at hm
    exact Option.map_eq_some_iff.mp hm.symm
  refine ⟨fun id c hid => ?_, fun c k hk => ?_, fun c k hk => ?_, fun c k hk => ?_⟩
  · rw [hown] at hid
    obtain ⟨k, hk, hin⟩ := x.exists_cluster_of_mem (h.listed id c hid)
    have hm := hmem c
    rw [hk] at hm
    obtain ⟨k', hk', he⟩ := Option.map_eq_some_iff.mp hm
    rw [y.members_of_cluster? hk', he]
    exact hin
  · obtain ⟨k', hk', he⟩ := hback c k hk
    exact he ▸ h.nonempty c k' hk'
  · obtain ⟨k', hk', he⟩ := hback c k hk
    exact he ▸ h.nodup c k' hk'
  · obtain ⟨k', hk', he⟩ := hback c k hk
    rcases h.possession c k' hk' with hp | ⟨hl, hnone⟩
    · exact Or.inl fun m hm => (hown m).trans (hp m (he ▸ hm))
    -- Nothing is revived, so what lost its ids in `x` is not live in `y` either.
    · refine Or.inr ⟨?_, fun id => (hown id).symm ▸ hnone id⟩
      rw [← y.isLive_of_cluster? hk]
      exact hdead c ((x.isLive_of_cluster? hk').trans hl)

theorem empty (config : ClusterConfig) : Ownership (.empty config : ClusterIndex S) := by
  refine ⟨fun id c hid => ?_, fun c k hk => ?_, fun c k hk => ?_, fun c k hk => ?_⟩
  · rw [clusterOf_empty] at hid
    cases hid
  all_goals
    rw [cluster?_empty] at hk
    cases hk

theorem getOrCreate (h : Ownership x) (id : ItemId) (item : ClusterItem S) :
    Ownership (x.getOrCreate id item).1 := by
  cases hid : x.clusterOf id with
  | some c =>
    rw [x.getOrCreate_eq_self item hid]
    exact h
  | none =>
    have hrec := x.cluster?_getOrCreate item hid
    have hown := x.clusterOf_getOrCreate item hid
    have hfresh : ∀ id', x.clusterOf id' ≠ some ⟨x.slots.size⟩ :=
      h.unowned_of_none (x.cluster?_eq_none_of_not_issued (Nat.lt_irrefl _))
    refine ⟨fun id' c hc => ?_, fun c k hk => ?_, fun c k hk => ?_, fun c k hk => ?_⟩
    · rw [hown] at hc
      unfold ClusterIndex.members
      rw [hrec]
      split at hc
      · next he =>
        cases hc
        rw [if_pos rfl, he]
        exact List.mem_singleton.mpr rfl
      · have hne : c ≠ ⟨x.slots.size⟩ := fun e => hfresh id' (e ▸ hc)
        rw [if_neg hne]
        exact h.listed id' c hc
    · rw [hrec] at hk
      split at hk
      · cases hk
        exact List.cons_ne_nil _ _
      · exact h.nonempty c k hk
    · rw [hrec] at hk
      split at hk
      · cases hk
        exact List.pairwise_singleton _ id
      · exact h.nodup c k hk
    · rw [hrec] at hk
      split at hk
      · next hc =>
        cases hk
        refine Or.inl fun m hm => ?_
        have hm' : m = id := List.mem_singleton.mp hm
        rw [hown, if_pos hm', hc]
      · next hc =>
        rcases h.possession c k hk with hp | ⟨hl, hnone⟩
        · refine Or.inl fun m hm => ?_
          have hm' : m ≠ id := by
            intro e
            have := hp m hm
            rw [e, hid] at this
            cases this
          rw [hown, if_neg hm']
          exact hp m hm
        · refine Or.inr ⟨hl, fun id' hid' => ?_⟩
          rw [hown] at hid'
          split at hid'
          · cases hid'
            exact hc rfl
          · exact hnone id' hid'

theorem merge (h : Ownership x) (into other : ClusterId) : Ownership (x.merge into other) := by
  rcases x.merge_cases into other with he | ⟨k, a, hne, hk, hkl, ha, hal, hm⟩
  · exact he.symm ▸ h
  have hown := hm.owner
  have hrec := hm.record
  have hkown := h.owner_of_live hk hkl
  have haown := h.owner_of_live ha hal
  -- Only members of `a` change their owner, and these are all that `other` owned.
  have hmem_a : ∀ id, x.clusterOf id = some other → id ∈ a.members := fun id hid =>
    x.members_of_cluster? ha ▸ h.listed id other hid
  refine ⟨fun id c hid => ?_, fun c r hr => ?_, fun c r hr => ?_, fun c r hr => ?_⟩
  · rw [hown] at hid
    unfold ClusterIndex.members
    rw [hrec]
    by_cases hin : id ∈ a.members
    · rw [if_pos hin] at hid
      cases hid
      rw [if_pos rfl]
      simp [hin]
    · rw [if_neg hin] at hid
      have hco : c ≠ other := fun e => hin (hmem_a id (e ▸ hid))
      by_cases hci : c = into
      · have hin' : id ∈ k.members := x.members_of_cluster? hk ▸ h.listed id into (hci ▸ hid)
        rw [if_pos hci]
        simp [hin']
      · rw [if_neg hci, if_neg hco]
        exact h.listed id c hid
  · rw [hrec] at hr
    split at hr
    · cases hr
      simp [h.nonempty into k hk]
    · split at hr
      · cases hr
      · exact h.nonempty c r hr
  · rw [hrec] at hr
    split at hr
    · cases hr
      rw [Cluster.members_absorb, List.nodup_append]
      refine ⟨h.nodup into k hk, h.nodup other a ha, fun m hm₁ m' hm₂ e => hne ?_⟩
      have h₁ := hkown m hm₁
      rw [e, haown m' hm₂] at h₁
      cases h₁
      rfl
    · split at hr
      · cases hr
      · exact h.nodup c r hr
  · rw [hrec] at hr
    split at hr
    · next hc =>
      cases hr
      refine Or.inl fun m hm' => ?_
      rw [hown]
      split
      · rw [hc]
      · next hna =>
        rw [Cluster.members_absorb, List.mem_append] at hm'
        rcases hm' with hm' | hm'
        · rw [hkown m hm', hc]
        · exact absurd hm' hna
    · next hci =>
      split at hr
      · cases hr
      · next hco =>
        rcases h.possession c r hr with hp | ⟨hl, hnone⟩
        · refine Or.inl fun m hm' => ?_
          have hna : m ∉ a.members := by
            intro hin
            have h₁ := haown m hin
            rw [hp m hm'] at h₁
            cases h₁
            exact hco rfl
          rw [hown, if_neg hna]
          exact hp m hm'
        · refine Or.inr ⟨hl, fun id hid => ?_⟩
          rw [hown] at hid
          split at hid
          · cases hid
            exact hci rfl
          · exact hnone id hid

theorem mergeAll (h : Ownership x) (c : ClusterId) (others : List ClusterId) :
    Ownership (x.mergeAll c others) := by
  unfold ClusterIndex.mergeAll
  induction others generalizing x with
  | nil => exact h
  | cons d others ih => exact ih (h.merge c d)

theorem of_links (h : Ownership x) (links : LinkGraph) : Ownership { x with links := links } :=
  h.of_same_members (fun _ => rfl) (fun _ => rfl) fun _ hc => hc

theorem mergeReachable (h : Ownership x) (c : ClusterId) (prune : Bool) :
    Ownership (x.mergeReachable c prune) :=
  (h.of_links _).mergeAll c _

theorem modify (h : Ownership x) (c : ClusterId) (f : Cluster S → Cluster S)
    (hmem : ∀ k, (f k).members = k.members) (hcount : ∀ k, (f k).count = k.count) :
    Ownership (x.modify c f) := by
  have hrec := x.cluster?_modify c f
  refine h.of_same_members (fun id => ?_) (fun d => ?_) fun d hd => ?_
  · unfold ClusterIndex.clusterOf
    rw [owners_modify]
  · rw [hrec]
    split
    · next he =>
      rw [he, Option.map_map]
      exact congrFun (congrArg Option.map (funext hmem)) _
    · rfl
  · rw [x.isLive_modify c f hcount]
    exact hd

theorem recordLink (h : Ownership x) (c : ClusterId) (contact : Contact S) (id : ItemId) :
    Ownership (x.recordLink c contact id).1 := by
  rcases x.recordLink_cases c contact id with ⟨-, he⟩ | ⟨k, hk, hlive, -, ⟨-, he⟩ | ⟨-, he⟩⟩
  · exact he.symm ▸ h
  · exact he.symm ▸ h.of_links _
  · rw [he]
    have hrec := x.cluster?_relink hk (x.links.link c id).1
      (k.reach x.config.compressionThreshold id contact)
    refine h.of_same_members (fun _ => rfl) (fun d => ?_) fun d hd => ?_
    · rw [hrec]
      split
      · next hd => simp [hd, hk]
      · rfl
    · have hdead := x.isLive_recordLink c contact id hd
      rwa [he] at hdead

theorem addLink (h : Ownership x) (c : ClusterId) (contact : Contact S) (id : ItemId) :
    Ownership (x.addLink c contact id).1 := by
  have hr := h.recordLink c contact id
  unfold ClusterIndex.addLink
  dsimp only
  split
  · exact hr.mergeReachable c false
  · exact hr

theorem finish (h : Ownership x) (c : ClusterId) : Ownership (x.finish c) :=
  (h.mergeReachable c true).modify c _ (fun _ => rfl) fun _ => rfl

theorem clear (h : Ownership x) (c : ClusterId) : Ownership (x.clear c) :=
  (h.of_links _).modify c _ (fun _ => rfl) fun _ => rfl

/-- What is owned once a handle was invalidated was owned before, by another cluster. -/
theorem clusterOf_invalidate_eq_some (h : Ownership x) (c : ClusterId) {id : ItemId}
    {d : ClusterId} :
    (x.invalidate c).clusterOf id = some d ↔ x.clusterOf id = some d ∧ d ≠ c := by
  cases hk : x.cluster? c with
  | none =>
    rw [x.invalidate_eq_self hk]
    refine (and_iff_left_of_imp fun hid => ?_).symm
    rintro rfl
    exact h.unowned_of_none hk id hid
  | some k =>
    rw [x.clusterOf_invalidate hk]
    split
    · next hgone =>
      rw [hgone.2]
      simp [eq_comm]
    · next hkept =>
      refine (and_iff_left_of_imp fun hid => ?_).symm
      rintro rfl
      exact hkept ⟨x.members_of_cluster? hk ▸ h.listed id d hid, hid⟩

theorem invalidate (h : Ownership x) (c : ClusterId) : Ownership (x.invalidate c) := by
  cases hk : x.cluster? c with
  | none => exact (x.invalidate_eq_self hk).symm ▸ h
  | some k =>
    have hrec := x.cluster?_invalidate hk
    have hown : ∀ id d, (x.invalidate c).clusterOf id = some d ↔
        x.clusterOf id = some d ∧ d ≠ c := fun id d => h.clusterOf_invalidate_eq_some c
    refine ⟨fun id d hid => ?_, fun d r hr => ?_, fun d r hr => ?_, fun d r hr => ?_⟩
    · obtain ⟨hid, hd⟩ := (hown id d).mp hid
      unfold ClusterIndex.members
      rw [hrec, if_neg hd]
      exact h.listed id d hid
    · rw [hrec] at hr
      split at hr
      · cases hr
        exact h.nonempty c k hk
      · exact h.nonempty d r hr
    · rw [hrec] at hr
      split at hr
      · cases hr
        exact h.nodup c k hk
      · exact h.nodup d r hr
    · rw [hrec] at hr
      split at hr
      · next hd =>
        cases hr
        exact Or.inr ⟨rfl, fun id hid => ((hown id d).mp hid).2 hd⟩
      · next hd =>
        rcases h.possession d r hr with hp | ⟨hl, hno⟩
        · exact Or.inl fun m hm => (hown m d).mpr ⟨hp m hm, hd⟩
        · exact Or.inr ⟨hl, fun id hid => hno id ((hown id d).mp hid).1⟩

theorem apply (h : Ownership x) (op : Operation S) : Ownership (x.apply op) := by
  cases op with
  | create id item => exact h.getOrCreate id item
  | link c contact id => exact h.addLink c contact id
  | finish c => exact h.finish c
  | invalidate c => exact h.invalidate c
  | clear c => exact h.clear c
  | merge into other => exact h.merge into other

theorem foldl_apply (h : Ownership x) (ops : List (Operation S)) :
    Ownership (ops.foldl ClusterIndex.apply x) := by
  induction ops generalizing x with
  | nil => exact h
  | cons op ops ih => exact ih (h.apply op)

theorem after (config : ClusterConfig) (ops : List (Operation S)) :
    Ownership (ClusterIndex.after config ops) :=
  (Ownership.empty config).foldl_apply ops

/-- A merge hands ids over, and neither takes nor gives any. -/
theorem clusterOf_merge_eq_none (h : Ownership x) (into other : ClusterId) (id : ItemId) :
    (x.merge into other).clusterOf id = none ↔ x.clusterOf id = none := by
  rcases x.merge_cases into other with he | ⟨k, a, -, -, -, ha, hal, hm⟩
  · rw [he]
  rw [hm.owner]
  split
  -- The ids that change hands had an owner before: the cluster that is taken over.
  · next hin => simp [h.owner_of_live ha hal id hin]
  · rfl

theorem clusterOf_mergeAll_eq_none (h : Ownership x) (c : ClusterId) (others : List ClusterId)
    (id : ItemId) : (x.mergeAll c others).clusterOf id = none ↔ x.clusterOf id = none := by
  induction others generalizing x with
  | nil => rfl
  | cons d others ih =>
    exact (ih (h.merge c d)).trans (h.clusterOf_merge_eq_none c d id)

theorem clusterOf_mergeReachable_eq_none (h : Ownership x) (c : ClusterId) (prune : Bool)
    (id : ItemId) : (x.mergeReachable c prune).clusterOf id = none ↔ x.clusterOf id = none :=
  (h.of_links (x.pass c prune).links).clusterOf_mergeAll_eq_none c _ id

theorem clusterOf_addLink_eq_none (h : Ownership x) (c : ClusterId) (contact : Contact S)
    (t id : ItemId) : (x.addLink c contact t).1.clusterOf id = none ↔ x.clusterOf id = none := by
  have hsame : (x.recordLink c contact t).1.clusterOf id = x.clusterOf id := by
    unfold ClusterIndex.clusterOf
    rw [x.owners_recordLink]
  unfold ClusterIndex.addLink
  dsimp only
  split
  · rw [(h.recordLink c contact t).clusterOf_mergeReachable_eq_none, hsame]
  · rw [hsame]

theorem clusterOf_finish_eq_none (h : Ownership x) (c : ClusterId) (id : ItemId) :
    (x.finish c).clusterOf id = none ↔ x.clusterOf id = none := by
  rw [← h.clusterOf_mergeReachable_eq_none c true]
  unfold ClusterIndex.finish ClusterIndex.clusterOf
  rw [owners_modify]

end Ownership

/-- `c` was issued, is not live, and owns nothing. -/
structure Spent (x : ClusterIndex S) (c : ClusterId) : Prop where
  issued : c.number < x.slots.size
  dead : x.isLive c = false
  unowned : ∀ id, x.clusterOf id ≠ some c

namespace Spent

variable {x : ClusterIndex S} {c : ClusterId}

theorem getOrCreate (h : Spent x c) (id : ItemId) (item : ClusterItem S) :
    Spent (x.getOrCreate id item).1 c := by
  cases hid : x.clusterOf id with
  | some d =>
    rw [x.getOrCreate_eq_self item hid]
    exact h
  | none =>
    have hne : c ≠ ⟨x.slots.size⟩ := fun e => Nat.lt_irrefl _ (e ▸ h.issued)
    refine ⟨Nat.lt_of_lt_of_le h.issued (x.slots_size_getOrCreate id item), ?_, fun id' hc => ?_⟩
    · unfold ClusterIndex.isLive
      rw [x.cluster?_getOrCreate item hid, if_neg hne]
      exact h.dead
    · rw [x.clusterOf_getOrCreate item hid] at hc
      split at hc
      · cases hc
        exact hne rfl
      · exact h.unowned id' hc

theorem merge (h : Spent x c) (into other : ClusterId) : Spent (x.merge into other) c := by
  rcases x.merge_cases into other with he | ⟨k, a, -, hk, hkl, ha, hal, hm⟩
  · exact he.symm ▸ h
  have hci : c ≠ into := by
    intro e
    have := h.dead
    rw [e, x.isLive_of_cluster? hk, hkl] at this
    cases this
  have hco : c ≠ other := by
    intro e
    have := h.dead
    rw [e, x.isLive_of_cluster? ha, hal] at this
    cases this
  refine ⟨hm.issued ▸ h.issued, ?_, fun id hid => ?_⟩
  · unfold ClusterIndex.isLive
    rw [hm.record_of_ne hci hco]
    exact h.dead
  · rw [hm.owner] at hid
    split at hid
    · cases hid
      exact hci rfl
    · exact h.unowned id hid

theorem mergeReachable (h : Spent x c) (d : ClusterId) (prune : Bool) :
    Spent (x.mergeReachable d prune) c := by
  unfold ClusterIndex.mergeReachable ClusterIndex.mergeAll
  have hlinks : Spent { x with links := (x.pass d prune).links } c :=
    ⟨h.issued, h.dead, h.unowned⟩
  dsimp only
  generalize (x.pass d prune).reached = others
  revert hlinks
  generalize ({ x with links := (x.pass d prune).links } : ClusterIndex S) = y
  intro hy
  induction others generalizing y with
  | nil => exact hy
  | cons e others ih => exact ih (y.merge d e) (hy.merge d e)

theorem modify (h : Spent x c) (d : ClusterId) (f : Cluster S → Cluster S)
    (hcount : ∀ k, (f k).count = k.count) : Spent (x.modify d f) c := by
  refine ⟨(x.slots_size_modify d f).symm ▸ h.issued, ?_, fun id hid => ?_⟩
  · rw [x.isLive_modify d f hcount]
    exact h.dead
  · unfold ClusterIndex.clusterOf at hid
    rw [x.owners_modify] at hid
    exact h.unowned id hid

theorem recordLink (h : Spent x c) (d : ClusterId) (contact : Contact S) (id : ItemId) :
    Spent (x.recordLink d contact id).1 c := by
  refine ⟨?_, x.isLive_recordLink d contact id h.dead, fun id' hid => ?_⟩
  · rw [x.slots_size_recordLink]
    exact h.issued
  · unfold ClusterIndex.clusterOf at hid
    rw [x.owners_recordLink] at hid
    exact h.unowned id' hid

theorem addLink (h : Spent x c) (d : ClusterId) (contact : Contact S) (id : ItemId) :
    Spent (x.addLink d contact id).1 c := by
  have hr := h.recordLink d contact id
  unfold ClusterIndex.addLink
  dsimp only
  split
  · exact hr.mergeReachable d false
  · exact hr

theorem finish (h : Spent x c) (d : ClusterId) : Spent (x.finish d) c :=
  (h.mergeReachable d true).modify d _ fun _ => rfl

theorem clear (h : Spent x c) (d : ClusterId) : Spent (x.clear d) c := by
  have hlinks : Spent { x with links := (x.links.removeCluster d).1 } c :=
    ⟨h.issued, h.dead, h.unowned⟩
  exact hlinks.modify d _ fun _ => rfl

theorem invalidate (h : Spent x c) (d : ClusterId) : Spent (x.invalidate d) c := by
  cases hk : x.cluster? d with
  | none => exact (x.invalidate_eq_self hk).symm ▸ h
  | some k =>
    refine ⟨(x.slots_size_invalidate d).symm ▸ h.issued, ?_, fun id hid => ?_⟩
    · unfold ClusterIndex.isLive
      rw [x.cluster?_invalidate hk]
      split
      · rfl
      · exact h.dead
    · rw [x.clusterOf_invalidate hk] at hid
      split at hid
      · cases hid
      · exact h.unowned id hid

theorem apply (h : Spent x c) (op : Operation S) : Spent (x.apply op) c := by
  cases op with
  | create id item => exact h.getOrCreate id item
  | link d contact id => exact h.addLink d contact id
  | finish d => exact h.finish d
  | invalidate d => exact h.invalidate d
  | clear d => exact h.clear d
  | merge into other => exact h.merge into other

theorem foldl_apply (h : Spent x c) (ops : List (Operation S)) :
    Spent (ops.foldl ClusterIndex.apply x) c := by
  induction ops generalizing x with
  | nil => exact h
  | cons op ops ih => exact ih (h.apply op)

end Spent

/-- An issued handle is spent once it is invalidated, whether it was live, invalid or merged away. -/
theorem spent_invalidate {x : ClusterIndex S} (h : Ownership x) {c : ClusterId}
    (hc : c.number < x.slots.size) : Spent (x.invalidate c) c := by
  cases hk : x.cluster? c with
  | none =>
    rw [x.invalidate_eq_self hk]
    refine ⟨hc, ?_, h.unowned_of_none hk⟩
    unfold isLive
    rw [hk]
    rfl
  | some k =>
    refine ⟨(x.slots_size_invalidate c).symm ▸ hc, ?_, fun id hid => ?_⟩
    · unfold isLive
      rw [x.cluster?_invalidate hk, if_pos rfl]
      rfl
    · exact ((h.clusterOf_invalidate_eq_some c).mp hid).2 rfl

/-- The members of live clusters are theirs alone, and an owner has its record, has never been
invalidated, and lists the id once. -/
theorem owners_agree_with_members (config : ClusterConfig) (ops : List (Operation S)) :
    (∀ c, (after config ops).isLive c = true →
      (after config ops).members c ≠ [] ∧ ((after config ops).members c).Nodup ∧
      ∀ m ∈ (after config ops).members c, (after config ops).clusterOf m = some c) ∧
    (∀ c d, (after config ops).isLive c = true → (after config ops).isLive d = true → c ≠ d →
      ∀ m ∈ (after config ops).members c, m ∉ (after config ops).members d) ∧
    (∀ id c, (after config ops).clusterOf id = some c →
      ((after config ops).cluster? c).isSome = true ∧
      ((after config ops).members c).count id = 1 ∧
      ∀ before rest, ops = before ++ .invalidate c :: rest →
        c ∉ (after config before).handles) := by
  have h := Ownership.after config ops
  have hown : ∀ c, (after config ops).isLive c = true →
      ∀ m ∈ (after config ops).members c, (after config ops).clusterOf m = some c := by
    intro c hc m hm
    obtain ⟨k, hk, hlive⟩ := (isLive_iff _).mp hc
    rw [members_of_cluster? _ hk] at hm
    exact h.owner_of_live hk hlive m hm
  refine ⟨fun c hc => ?_, fun c d hc hd hne m hm hm' => ?_, fun id c hid => ?_⟩
  · obtain ⟨k, hk, -⟩ := (isLive_iff _).mp hc
    refine ⟨?_, ?_, hown c hc⟩
    · rw [members_of_cluster? _ hk]
      exact h.nonempty c k hk
    · rw [members_of_cluster? _ hk]
      exact h.nodup c k hk
  · have h₁ := hown c hc m hm
    rw [hown d hd m hm'] at h₁
    cases h₁
    exact hne rfl
  · obtain ⟨k, hk, hm, -⟩ := h.record_of_owner hid
    refine ⟨by rw [hk]; rfl, ?_, fun before rest hops hissued => ?_⟩
    · rw [members_of_cluster? _ hk]
      rw [(h.nodup c k hk).count, if_pos hm]
    · have hspent := spent_invalidate (Ownership.after config before) ((mem_handles _).mp hissued)
      have hend : Spent (after config ops) c := by
        rw [hops, after_append]
        exact hspent.foldl_apply rest
      exact hend.unowned id hid

end ClusterIndex

end DensityClustering

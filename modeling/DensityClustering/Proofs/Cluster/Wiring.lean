import DensityClustering.Proofs.Cluster.Ownership
import DensityClustering.Proofs.Cluster.Reach

/-!
Where links can start. The rows by cluster and by id hold the same links after every operation, and
only clusters that own an id have any: a cluster that loses its ids loses its links with them.
-/

namespace DensityClustering

namespace ClusterIndex

namespace Search

variable {owner : ItemId → Option ClusterId} {current : ClusterId} {prune : Bool}

theorem mirrored_foldl_follow (targets : List ItemId) {s : Search} (h : s.links.Mirrored) :
    (targets.foldl (follow owner current prune) s).links.Mirrored := by
  induction targets generalizing s with
  | nil => exact h
  | cons t targets ih =>
    refine ih ?_
    have hunlink := LinkGraph.mirrored_unlink s.links current t h
    unfold follow
    split
    · exact hunlink
    · split
      · exact hunlink
      · exact h

theorem mirrored_run {s : Search} (h : s.links.Mirrored) : (s.run owner).links.Mirrored := by
  induction s using Search.run.induct owner with
  | case1 s hempty =>
    rw [Search.run.eq_def, hempty]
    exact h
  | case2 s current pruning rest hfrontier ih =>
    rw [Search.run.eq_def, hfrontier]
    exact ih (mirrored_foldl_follow _ h)

end Search

variable {S : Type} [Scalar S]

/-- Invalidating a handle takes its own links and every link to one of its members. -/
theorem contains_invalidate {x : ClusterIndex S} (h : x.links.Mirrored) {c : ClusterId}
    {k : Cluster S} (hk : x.cluster? c = some k) (s : ClusterId) (t : ItemId) :
    (x.invalidate c).links.contains s t = true ↔
      x.links.contains s t = true ∧ t ∉ k.members ∧ s ≠ c := by
  unfold invalidate
  rw [hk]
  dsimp only
  rw [LinkGraph.contains_removeCluster, LinkGraph.contains_foldl_detach _ _ _ k.members h,
    and_assoc]

/-- The links are the same by cluster and by id, and only clusters that own ids have any. -/
structure Wired (x : ClusterIndex S) : Prop where
  own : Ownership x
  mirrored : x.links.Mirrored
  held : ∀ c t, x.links.contains c t = true → ∃ id, x.clusterOf id = some c

namespace Wired

variable {x : ClusterIndex S}

theorem empty (config : ClusterConfig) : Wired (.empty config : ClusterIndex S) := by
  refine ⟨Ownership.empty config, LinkGraph.mirrored_empty, fun c t ht => ?_⟩
  have hno : LinkGraph.empty.contains c t = true := ht
  rw [LinkGraph.contains_empty] at hno
  cases hno

theorem of_links (h : Wired x) {links : LinkGraph} (hmirrored : links.Mirrored)
    (hfewer : ∀ c t, links.contains c t = true → x.links.contains c t = true) :
    Wired { x with links := links } :=
  ⟨h.own.of_links links, hmirrored, fun c t ht => h.held c t (hfewer c t ht)⟩

theorem getOrCreate (h : Wired x) (id : ItemId) (item : ClusterItem S) :
    Wired (x.getOrCreate id item).1 := by
  have hlinks := x.links_getOrCreate id item
  refine ⟨h.own.getOrCreate id item, hlinks ▸ h.mirrored, fun c t ht => ?_⟩
  rw [hlinks] at ht
  obtain ⟨id', hid'⟩ := h.held c t ht
  cases hid : x.clusterOf id with
  | some d => exact ⟨id', by rw [x.getOrCreate_eq_self item hid, hid']⟩
  | none =>
    have hne : id' ≠ id := by
      rintro rfl
      rw [hid] at hid'
      cases hid'
    exact ⟨id', by rw [x.clusterOf_getOrCreate item hid, if_neg hne, hid']⟩

theorem modify (h : Wired x) (c : ClusterId) (f : Cluster S → Cluster S)
    (hmem : ∀ k, (f k).members = k.members) (hcount : ∀ k, (f k).count = k.count) :
    Wired (x.modify c f) := by
  refine ⟨h.own.modify c f hmem hcount, (x.links_modify c f).symm ▸ h.mirrored, fun d t ht => ?_⟩
  rw [x.links_modify] at ht
  obtain ⟨id, hid⟩ := h.held d t ht
  exact ⟨id, (x.clusterOf_modify c f id).trans hid⟩

theorem recordLink (h : Wired x) (c : ClusterId) (contact : Contact S) (id : ItemId) :
    Wired (x.recordLink c contact id).1 := by
  have hown := h.own.recordLink c contact id
  have howner := x.clusterOf_recordLink c contact id
  rcases x.recordLink_cases c contact id with ⟨-, he⟩ | ⟨k, hk, hlive, -, hcase⟩
  · exact he.symm ▸ h
  · have hlinks : (x.recordLink c contact id).1.links = (x.links.link c id).1 := by
      rcases hcase with ⟨-, he⟩ | ⟨-, he⟩
      all_goals rw [he]
      rfl
    refine ⟨hown, hlinks ▸ LinkGraph.mirrored_link _ _ _ h.mirrored, fun s t ht => ?_⟩
    simp only [howner]
    -- The link that is new starts at a live cluster.
    rw [hlinks] at ht
    rcases (LinkGraph.contains_link ..).mp ht with ⟨rfl, -⟩ | ht
    · exact h.own.exists_owned_of_live ((x.isLive_of_cluster? hk).trans hlive)
    · exact h.held s t ht

theorem merge (h : Wired x) (into other : ClusterId) : Wired (x.merge into other) := by
  have hown := h.own.merge into other
  rcases x.merge_cases into other with he | ⟨k, a, -, hk, hkl, ha, hal, hm⟩
  · exact he.symm ▸ h
  have hkeep : ∀ id c, c ≠ other → x.clusterOf id = some c →
      (x.merge into other).clusterOf id = some c := by
    intro id c hc hid
    rw [hm.owner, if_neg, hid]
    intro hin
    rw [h.own.owner_of_live ha hal id hin] at hid
    cases hid
    exact hc rfl
  refine ⟨hown, hm.links ▸ LinkGraph.mirrored_absorb _ _ _ h.mirrored, fun s t ht => ?_⟩
  rw [hm.links, LinkGraph.contains_absorb] at ht
  rcases ht with ⟨rfl, -⟩ | ⟨ht, hs⟩
  -- What takes links over is live, and keeps its ids.
  · obtain ⟨id, hid⟩ := h.own.exists_owned_of_live ((x.isLive_of_cluster? hk).trans hkl)
    refine ⟨id, ?_⟩
    rw [hm.owner]
    split
    · rfl
    · exact hid
  · obtain ⟨id, hid⟩ := h.held s t ht
    exact ⟨id, hkeep id s hs hid⟩

theorem mergeAll (h : Wired x) (c : ClusterId) (others : List ClusterId) :
    Wired (x.mergeAll c others) := by
  unfold ClusterIndex.mergeAll
  induction others generalizing x with
  | nil => exact h
  | cons d others ih => exact ih (h.merge c d)

theorem mergeReachable (h : Wired x) (c : ClusterId) (prune : Bool) :
    Wired (x.mergeReachable c prune) := by
  refine (h.of_links ?_ fun a t ht => ?_).mergeAll c _
  · unfold pass
    split
    · exact h.mirrored
    · exact Search.mirrored_run h.mirrored
  · rcases x.pass_cases c prune with ⟨hlinks, -⟩ | hfound
    · rwa [hlinks] at ht
    · exact hfound.fewer a t ht

theorem addLink (h : Wired x) (c : ClusterId) (contact : Contact S) (id : ItemId) :
    Wired (x.addLink c contact id).1 := by
  have hr := h.recordLink c contact id
  unfold ClusterIndex.addLink
  dsimp only
  split
  · exact hr.mergeReachable c false
  · exact hr

theorem finish (h : Wired x) (c : ClusterId) : Wired (x.finish c) :=
  (h.mergeReachable c true).modify c _ (fun _ => rfl) fun _ => rfl

theorem clear (h : Wired x) (c : ClusterId) : Wired (x.clear c) := by
  have hlinks : Wired { x with links := (x.links.removeCluster c).1 } :=
    h.of_links (LinkGraph.mirrored_removeCluster _ _ h.mirrored) fun d t ht =>
      ((LinkGraph.contains_removeCluster ..).mp ht).1
  exact hlinks.modify c _ (fun _ => rfl) fun _ => rfl

theorem invalidate (h : Wired x) (c : ClusterId) : Wired (x.invalidate c) := by
  cases hk : x.cluster? c with
  | none => exact (x.invalidate_eq_self hk).symm ▸ h
  | some k =>
    refine ⟨h.own.invalidate c, ?_, fun s t ht => ?_⟩
    · unfold ClusterIndex.invalidate
      rw [hk]
      exact LinkGraph.mirrored_removeCluster _ _ (LinkGraph.mirrored_foldl_detach _ _ h.mirrored)
    · obtain ⟨ht, -, hs⟩ := (contains_invalidate h.mirrored hk s t).mp ht
      obtain ⟨id, hid⟩ := h.held s t ht
      exact ⟨id, (h.own.clusterOf_invalidate_eq_some c).mpr ⟨hid, hs⟩⟩

theorem apply (h : Wired x) (op : Operation S) : Wired (x.apply op) := by
  cases op with
  | create id item => exact h.getOrCreate id item
  | link c contact id => exact h.addLink c contact id
  | finish c => exact h.finish c
  | invalidate c => exact h.invalidate c
  | clear c => exact h.clear c
  | merge into other => exact h.merge into other

theorem after (config : ClusterConfig) (ops : List (Operation S)) :
    Wired (ClusterIndex.after config ops) := by
  induction ops using List.reverseRecOn with
  | nil => exact Wired.empty config
  | append_singleton ops op ih =>
    rw [after_concat]
    exact ih.apply op

theorem contains_of_spent (h : Wired x) {c : ClusterId} (hc : Spent x c) (t : ItemId) :
    x.links.contains c t = false := by
  rw [← Bool.not_eq_true]
  intro ht
  obtain ⟨id, hid⟩ := h.held c t ht
  exact hc.unowned id hid

end Wired

end ClusterIndex

end DensityClustering

import Mathlib.Data.List.Induction
import Mathlib.Logic.Relation
import DensityClustering.Proofs.Cluster.MergePass
import DensityClustering.Proofs.Cluster.Ownership

/-!
Clusters hold together. Given a relation `N` that holds between a center and every id it was linked
to, each link starts at a member, and the members of a cluster are joined by chains of `N` that do
not leave the cluster.
-/

namespace DensityClustering

open Relation (ReflTransGen)

section Chains

variable (N : ItemId → ItemId → Prop)

/-- Two ids of a list of which one contacted the other. -/
def Bond (ids : List ItemId) (a b : ItemId) : Prop := (N a b ∨ N b a) ∧ a ∈ ids ∧ b ∈ ids

/-- Any two ids of a list are joined by a chain of bonds within the list. -/
def Joined (ids : List ItemId) : Prop := ∀ a ∈ ids, ∀ b ∈ ids, ReflTransGen (Bond N ids) a b

variable {N} {N' : ItemId → ItemId → Prop} {ids ids' : List ItemId}

theorem Bond.symm {a b : ItemId} (h : Bond N ids a b) : Bond N ids b a :=
  ⟨h.1.symm, h.2.2, h.2.1⟩

theorem Bond.mono (hN : ∀ a b, N a b → N' a b) (hids : ∀ a ∈ ids, a ∈ ids') {a b : ItemId}
    (h : Bond N ids a b) : Bond N' ids' a b :=
  ⟨h.1.imp (hN a b) (hN b a), hids a h.2.1, hids b h.2.2⟩

theorem Joined.mono (h : Joined N ids) (hN : ∀ a b, N a b → N' a b) : Joined N' ids :=
  fun a ha b hb => ReflTransGen.mono (fun _ _ => Bond.mono hN fun _ h => h) a b (h a ha b hb)

theorem joined_singleton (id : ItemId) : Joined N [id] := by
  intro a ha b hb
  rw [List.mem_singleton.mp ha, List.mem_singleton.mp hb]

/-- One bond joins two joined lists. -/
theorem Joined.append (h : Joined N ids) (h' : Joined N ids') {u v : ItemId} (hu : u ∈ ids)
    (hv : v ∈ ids') (huv : N u v) : Joined N (ids ++ ids') := by
  -- Chains within either list are chains within both together.
  have hleft : ∀ a ∈ ids, ∀ b ∈ ids, ReflTransGen (Bond N (ids ++ ids')) a b :=
    fun a ha b hb => ReflTransGen.mono
      (fun _ _ => Bond.mono (fun _ _ h => h) fun _ => List.mem_append_left _) a b (h a ha b hb)
  have hright : ∀ a ∈ ids', ∀ b ∈ ids', ReflTransGen (Bond N (ids ++ ids')) a b :=
    fun a ha b hb => ReflTransGen.mono
      (fun _ _ => Bond.mono (fun _ _ h => h) fun _ => List.mem_append_right _) a b (h' a ha b hb)
  have hbond : Bond N (ids ++ ids') u v :=
    ⟨Or.inl huv, List.mem_append_left _ hu, List.mem_append_right _ hv⟩
  intro a ha b hb
  -- A chain from one list to the other goes through the bond of `u` and `v`.
  rcases List.mem_append.mp ha with ha | ha
  · rcases List.mem_append.mp hb with hb | hb
    · exact hleft a ha b hb
    · exact ((hleft a ha u hu).tail hbond).trans (hright v hv b hb)
  · rcases List.mem_append.mp hb with hb | hb
    · exact ((hright a ha v hv).tail hbond.symm).trans (hleft u hu b hb)
    · exact hright a ha b hb

/-- Lists each of which has a bond to an earlier one, put together. -/
theorem joined_flatMap (M : ClusterId → List ItemId) (hM : ∀ d, Joined N (M d)) (c : ClusterId)
    (ds : List ClusterId)
    (hpath : ∀ pre d post, ds = pre ++ d :: post →
      ∃ a ∈ c :: pre, ∃ u ∈ M a, ∃ v ∈ M d, N u v) :
    Joined N (M c ++ ds.flatMap M) := by
  -- The induction takes the last list off, as its bond may start at any earlier one.
  induction ds using List.reverseRecOn with
  | nil =>
    rw [List.flatMap_nil, List.append_nil]
    exact hM c
  | append_singleton ds d ih =>
    obtain ⟨a, ha, u, hu, v, hv, huv⟩ := hpath ds d [] rfl
    have hfirst : Joined N (M c ++ ds.flatMap M) := ih fun pre e post hsplit =>
      hpath pre e (post ++ [d]) (by rw [hsplit, List.append_assoc, List.cons_append])
    rw [List.flatMap_append, List.flatMap_singleton, ← List.append_assoc]
    refine hfirst.append (hM d) ?_ hv huv
    rcases List.mem_cons.mp ha with rfl | ha
    · exact List.mem_append_left _ hu
    · exact List.mem_append_right _ (List.mem_flatMap.mpr ⟨a, ha, hu⟩)

end Chains

namespace ClusterIndex

variable {S : Type} [Scalar S]

/-- Links start at members, and members are joined. -/
structure Chained (N : ItemId → ItemId → Prop) (x : ClusterIndex S) : Prop where
  linked : ∀ c t, x.links.contains c t = true → ∃ m ∈ x.members c, N m t
  joined : ∀ c, Joined N (x.members c)

namespace Chained

variable {N N' : ItemId → ItemId → Prop} {x y : ClusterIndex S}

theorem mono (h : Chained N x) (hN : ∀ a b, N a b → N' a b) : Chained N' x := by
  refine ⟨fun c t ht => ?_, fun c => (h.joined c).mono hN⟩
  obtain ⟨m, hm, hN₁⟩ := h.linked c t ht
  exact ⟨m, hm, hN m t hN₁⟩

/-- Fewer links between the same members. -/
theorem of_fewer_links (h : Chained N x) (hmem : ∀ c, y.members c = x.members c)
    (hlinks : ∀ c t, y.links.contains c t = true → x.links.contains c t = true) :
    Chained N y := by
  refine ⟨fun c t ht => ?_, fun c => ?_⟩
  · rw [hmem]
    exact h.linked c t (hlinks c t ht)
  · rw [hmem]
    exact h.joined c

theorem empty (config : ClusterConfig) : Chained N (.empty config : ClusterIndex S) := by
  refine ⟨fun c t ht => ?_, fun c => ?_⟩
  · have hno : LinkGraph.empty.contains c t = true := ht
    rw [LinkGraph.contains_empty] at hno
    cases hno
  · rw [members_empty]
    intro a ha
    cases ha

theorem getOrCreate (h : Chained N x) (id : ItemId) (item : ClusterItem S) :
    Chained N (x.getOrCreate id item).1 := by
  cases hid : x.clusterOf id with
  | some c =>
    rw [x.getOrCreate_eq_self item hid]
    exact h
  | none =>
    have hmem := x.members_getOrCreate item hid
    have hfresh : x.members ⟨x.slots.size⟩ = [] :=
      x.members_eq_nil (x.cluster?_eq_none_of_not_issued (Nat.lt_irrefl _))
    refine ⟨fun c t ht => ?_, fun c => ?_⟩
    · rw [x.links_getOrCreate] at ht
      obtain ⟨m, hm, hN⟩ := h.linked c t ht
      have hc : c ≠ ⟨x.slots.size⟩ := by
        rintro rfl
        rw [hfresh] at hm
        cases hm
      rw [hmem, if_neg hc]
      exact ⟨m, hm, hN⟩
    · rw [hmem]
      split
      · exact joined_singleton id
      · exact h.joined c

theorem recordLink (h : Chained N x) {c : ClusterId} {id : ItemId} (contact : Contact S)
    (hnew : ∃ m ∈ x.members c, N m id) : Chained N (x.recordLink c contact id).1 := by
  refine ⟨fun s t ht => ?_, fun s => ?_⟩
  · rw [x.members_recordLink]
    rcases x.contains_recordLink ht with ⟨rfl, rfl⟩ | ht
    · exact hnew
    · exact h.linked s t ht
  · rw [x.members_recordLink]
    exact h.joined s

theorem gathered (h : Chained N x) {c : ClusterId} {ds : List ClusterId} (hc : c ∉ ds)
    (hpath : ∀ pre d post, ds = pre ++ d :: post →
      ∃ a ∈ c :: pre, ∃ u ∈ x.members a, ∃ v ∈ x.members d, N u v)
    (hg : Gathered x c ds y) : Chained N y := by
  refine ⟨fun s t ht => ?_, fun s => ?_⟩
  -- A link of the root came from a cluster it took over, with the member that it starts at.
  · rcases (hg.links s t).mp ht with ⟨rfl, a, ha, ht⟩ | ⟨hs, hds, ht⟩
    · obtain ⟨m, hm, hN⟩ := h.linked a t ht
      refine ⟨m, ?_, hN⟩
      rw [hg.members]
      rcases List.mem_cons.mp ha with rfl | ha
      · exact List.mem_append_left _ hm
      · exact List.mem_append_right _ (List.mem_flatMap.mpr ⟨a, ha, hm⟩)
    · rw [hg.members_of_not_mem hs hds]
      exact h.linked s t ht
  -- The root gathered the members, a cluster that it took over has none left.
  · by_cases hs : s = c
    · rw [hs, hg.members]
      exact joined_flatMap x.members h.joined c ds hpath
    · by_cases hds : s ∈ ds
      · rw [y.members_eq_nil (hg.gone s hds)]
        intro a ha
        cases ha
      · rw [hg.members_of_not_mem hs hds]
        exact h.joined s

theorem mergeReachable (h : Chained N x) (hown : Ownership x) (hpos : 0 < x.config.mergeSize)
    (c : ClusterId) (prune : Bool) : Chained N (x.mergeReachable c prune) := by
  obtain ⟨links, ds, hfewer, hc, hpath, hg⟩ := x.gathered_mergeReachable hpos c prune
  -- Pruning comes first, and only removes links.
  have hlinks : Chained N { x with links := links } :=
    h.of_fewer_links (fun _ => rfl) hfewer
  refine hlinks.gathered hc (fun pre d post hsplit => ?_) hg
  obtain ⟨a, ha, t, ht, ho⟩ := hpath pre d post hsplit
  obtain ⟨m, hm, hN⟩ := h.linked a t ht
  -- The link that led to `d` starts at a member of `a` and ends at one of `d`.
  exact ⟨a, ha, m, hm, t, hown.listed t d ho, hN⟩

theorem modify (h : Chained N x) (c : ClusterId) (f : Cluster S → Cluster S)
    (hmem : ∀ k, (f k).members = k.members) : Chained N (x.modify c f) := by
  refine h.of_fewer_links (x.members_modify c f hmem) fun s t ht => ?_
  rwa [x.links_modify] at ht

theorem finish (h : Chained N x) (hown : Ownership x) (hpos : 0 < x.config.mergeSize)
    (c : ClusterId) : Chained N (x.finish c) :=
  (h.mergeReachable hown hpos c true).modify c _ fun _ => rfl

theorem invalidate (h : Chained N x) (c : ClusterId) : Chained N (x.invalidate c) :=
  h.of_fewer_links (x.members_invalidate c) fun _ _ => x.contains_of_contains_invalidate

theorem addLink (h : Chained N x) (hown : Ownership x) (hpos : 0 < x.config.mergeSize)
    {c : ClusterId} {id : ItemId} (contact : Contact S) (hnew : ∃ m ∈ x.members c, N m id) :
    Chained N (x.addLink c contact id).1 := by
  have hr := h.recordLink contact hnew
  have hpos' : 0 < (x.recordLink c contact id).1.config.mergeSize := by
    rwa [x.config_recordLink]
  unfold ClusterIndex.addLink
  dsimp only
  split
  · exact hr.mergeReachable (hown.recordLink c contact id) hpos' c false
  · exact hr

end Chained

end ClusterIndex

end DensityClustering

import DensityClustering.Proofs.Cluster.Footprint

/-!
Clusters that do not merge, under two thresholds. When raw points are folded is all that the
thresholds decide, and only geometries, raw points and one flag tell it: owners, links and everything
else in the records stay the same.
-/

namespace DensityClustering

namespace Cluster

variable {S : Type} [Scalar S] (threshold : Nat) (k : Cluster S)

/-- The record without what folding changes. -/
def core : Cluster S := { k with geometry := none, points := ∅, compressed := false }

theorem core_compress : (k.compress threshold).core = k.core := by
  unfold compress
  split <;> rfl

theorem core_reach (id : ItemId) (contact : Contact S) :
    (k.reach threshold id contact).core = { k.core with count := k.core.count + 1 } := by
  unfold reach
  dsimp only
  split
  · rfl
  · have hfolded := core_compress threshold
      { k with points := k.points.addAll (k.contactPoints id contact) }
    exact congrArg (fun r : Cluster S => { r with count := r.count + 1 }) hfolded

end Cluster

namespace ClusterIndex

variable {S : Type} [Scalar S]

/-- Two states of clusters that do not merge, with the same owners and links, and with records that
differ in what folding changes only. -/
structure Alike (x y : ClusterIndex S) : Prop where
  apart_left : x.config.kind = .preProcess
  apart_right : y.config.kind = .preProcess
  issued : y.slots.size = x.slots.size
  owners : y.owners = x.owners
  links : y.links = x.links
  core : ∀ c, (y.cluster? c).map Cluster.core = (x.cluster? c).map Cluster.core

namespace Alike

variable {x y : ClusterIndex S} {c : ClusterId}

theorem clusterOf_eq (h : Alike x y) (id : ItemId) : y.clusterOf id = x.clusterOf id := by
  rw [clusterOf, clusterOf, h.owners]

/-- The records behind a handle, if there are any, have the same core. -/
theorem record_cases (h : Alike x y) (c : ClusterId) :
    (x.cluster? c = none ∧ y.cluster? c = none) ∨
      ∃ k k', x.cluster? c = some k ∧ y.cluster? c = some k' ∧ k'.core = k.core := by
  have hcore := h.core c
  cases hx : x.cluster? c with
  | none =>
    rw [hx] at hcore
    exact Or.inl ⟨rfl, Option.map_eq_none_iff.mp hcore⟩
  | some k =>
    rw [hx] at hcore
    obtain ⟨k', hk', he⟩ := Option.map_eq_some_iff.mp hcore
    exact Or.inr ⟨k, k', rfl, hk', he⟩

theorem isLive_eq (h : Alike x y) (c : ClusterId) : y.isLive c = x.isLive c := by
  rcases h.record_cases c with ⟨hx, hy⟩ | ⟨k, k', hx, hy, he⟩
  · rw [isLive, isLive, hx, hy]
  · rw [x.isLive_of_cluster? hx, y.isLive_of_cluster? hy]
    have hcore : k'.core.isLive = k.core.isLive := by rw [he]
    exact hcore

/-- What is read off a record without what folding changes is the same. -/
theorem elim_eq {α : Type} (h : Alike x y) (c : ClusterId) (d : α) (f : Cluster S → α)
    (hf : ∀ k : Cluster S, f k.core = f k) : (y.cluster? c).elim d f = (x.cluster? c).elim d f := by
  rcases h.record_cases c with ⟨hx, hy⟩ | ⟨k, k', hx, hy, he⟩
  · rw [hx, hy]
  · rw [hx, hy, Option.elim_some, Option.elim_some, ← hf k', he, hf]

theorem size_eq (h : Alike x y) (c : ClusterId) : y.size c = x.size c :=
  h.elim_eq c 0 Cluster.size fun _ => rfl

theorem members_eq (h : Alike x y) (c : ClusterId) : y.members c = x.members c :=
  h.elim_eq c [] Cluster.members fun _ => rfl

/-- The points that a contact adds depend on what folding leaves alone. -/
theorem contactPoints_eq (h : Alike x y) (c : ClusterId) (id : ItemId) (contact : Contact S) :
    ((y.cluster? c).elim [] fun k => k.contactPoints id contact) =
      (x.cluster? c).elim [] fun k => k.contactPoints id contact :=
  h.elim_eq c [] _ fun _ => rfl

theorem empty (config config' : ClusterConfig) (hkind : config.kind = .preProcess)
    (hkind' : config'.kind = .preProcess) :
    Alike (empty config : ClusterIndex S) (.empty config') :=
  ⟨hkind, hkind', rfl, rfl, rfl, fun c => by rw [cluster?_empty, cluster?_empty]⟩

theorem getOrCreate (h : Alike x y) (id : ItemId) (item : ClusterItem S) :
    Alike (x.getOrCreate id item).1 (y.getOrCreate id item).1 := by
  cases hid : x.clusterOf id with
  | some d =>
    rw [x.getOrCreate_eq_self item hid, y.getOrCreate_eq_self item ((h.clusterOf_eq id).trans hid)]
    exact h
  | none =>
    have hid' : y.clusterOf id = none := (h.clusterOf_eq id).trans hid
    have howner : (y.getOrCreate id item).1.owners = (x.getOrCreate id item).1.owners := by
      unfold ClusterIndex.getOrCreate
      rw [hid, hid', h.owners, h.issued]
    have hissued : (y.getOrCreate id item).1.slots.size = (x.getOrCreate id item).1.slots.size := by
      unfold ClusterIndex.getOrCreate
      rw [hid, hid']
      dsimp only
      rw [Array.size_push, Array.size_push, h.issued]
    refine ⟨(x.config_getOrCreate id item).symm ▸ h.apart_left,
      (y.config_getOrCreate id item).symm ▸ h.apart_right, hissued, howner, ?_, fun c => ?_⟩
    · rw [links_getOrCreate, links_getOrCreate, h.links]
    · rw [x.cluster?_getOrCreate item hid, y.cluster?_getOrCreate item hid', h.issued]
      split
      · rfl
      · exact h.core c

/-- Records that change alike stay alike. -/
theorem modify (h : Alike x y) (c : ClusterId) {f g : Cluster S → Cluster S}
    (hfg : ∀ k k' : Cluster S, k'.core = k.core → (g k').core = (f k).core) :
    Alike (x.modify c f) (y.modify c g) := by
  refine ⟨(x.config_modify c f).symm ▸ h.apart_left, (y.config_modify c g).symm ▸ h.apart_right,
    ?_, ?_, ?_, fun d => ?_⟩
  · rw [slots_size_modify, slots_size_modify, h.issued]
  · rw [owners_modify, owners_modify, h.owners]
  · rw [links_modify, links_modify, h.links]
  · rw [cluster?_modify, cluster?_modify]
    split
    · rcases h.record_cases c with ⟨hx, hy⟩ | ⟨k, k', hx, hy, he⟩
      · rw [hx, hy]
        rfl
      · rw [hx, hy]
        exact congrArg some (hfg k k' he)
    · exact h.core d

theorem update (h : Alike x y) (hc : c.number < x.slots.size) {k k' : Cluster S}
    (hcore : k'.core = k.core) : Alike (x.update c k) (y.update c k') := by
  refine ⟨h.apart_left, h.apart_right, ?_, h.owners, h.links, fun d => ?_⟩
  · exact Array.size_setIfInBounds.trans (h.issued.trans Array.size_setIfInBounds.symm)
  · rw [x.cluster?_update hc, y.cluster?_update (h.issued.symm ▸ hc)]
    split
    · exact congrArg some hcore
    · exact h.core d

/-- A link is accepted under both thresholds or under none. -/
theorem recordLink (h : Alike x y) (c : ClusterId) (contact : Contact S) (id : ItemId) :
    (y.recordLink c contact id).2 = (x.recordLink c contact id).2 ∧
      Alike (x.recordLink c contact id).1 (y.recordLink c contact id).1 := by
  have hlinks : ∀ links, Alike { x with links := links } { y with links := links } :=
    fun links => ⟨h.apart_left, h.apart_right, h.issued, h.owners, rfl, h.core⟩
  unfold ClusterIndex.recordLink
  rcases h.record_cases c with ⟨hx, hy⟩ | ⟨k, k', hx, hy, he⟩
  · rw [hx, hy]
    exact ⟨rfl, h⟩
  have hlive : k'.isLive = k.isLive := by
    rw [← x.isLive_of_cluster? hx, ← y.isLive_of_cluster? hy, h.isLive_eq]
  rw [hx, hy, Option.filter_some, Option.filter_some, hlive]
  cases k.isLive with
  | false => exact ⟨rfl, h⟩
  | true =>
    simp only [if_true, h.links]
    cases x.links.link c id with
    | mk links fresh =>
      cases fresh with
      | false => exact ⟨rfl, h⟩
      | true =>
        dsimp only
        rw [h.clusterOf_eq id]
        split
        · exact ⟨rfl, hlinks links⟩
        · refine ⟨rfl, (hlinks links).update (x.issued_of_cluster? hx) ?_⟩
          rw [Cluster.core_reach, Cluster.core_reach, he]

theorem addLink (h : Alike x y) (c : ClusterId) (contact : Contact S) (id : ItemId) :
    (y.addLink c contact id).2 = (x.addLink c contact id).2 ∧
      Alike (x.addLink c contact id).1 (y.addLink c contact id).1 := by
  rw [addLink_of_apart h.apart_left, addLink_of_apart h.apart_right]
  exact h.recordLink c contact id

theorem finish (h : Alike x y) (c : ClusterId) : Alike (x.finish c) (y.finish c) := by
  rw [finish_of_apart h.apart_left, finish_of_apart h.apart_right]
  exact h.modify c fun _ _ he => congrArg (fun k : Cluster S => { k with finished := true }) he

theorem invalidate (h : Alike x y) (c : ClusterId) : Alike (x.invalidate c) (y.invalidate c) := by
  rcases h.record_cases c with ⟨hx, hy⟩ | ⟨k, k', hx, hy, he⟩
  · rw [x.invalidate_eq_self hx, y.invalidate_eq_self hy]
    exact h
  have hmembers : k'.members = k.members := by
    rw [← x.members_of_cluster? hx, ← y.members_of_cluster? hy, h.members_eq]
  refine ⟨(x.config_invalidate c).symm ▸ h.apart_left, (y.config_invalidate c).symm ▸ h.apart_right,
    ?_, ?_, ?_, fun d => ?_⟩
  · rw [slots_size_invalidate, slots_size_invalidate, h.issued]
  · unfold ClusterIndex.invalidate
    rw [hx, hy]
    dsimp only
    rw [hmembers, h.owners]
  · unfold ClusterIndex.invalidate
    rw [hx, hy]
    dsimp only
    rw [hmembers, h.links]
  · rw [x.cluster?_invalidate hx, y.cluster?_invalidate hy]
    split
    · exact congrArg some (congrArg (fun k : Cluster S => { k with count := -1 }) he)
    · exact h.core d

/-- Whatever a run does to the clusters, it keeps them alike. -/
theorem apply (h : Alike x y) {op : Operation S} (hop : op.isOfRun = true) :
    Alike (x.apply op) (y.apply op) := by
  cases op with
  | create id item => exact h.getOrCreate id item
  | link c contact id => exact (h.addLink c contact id).2
  | finish c => exact h.finish c
  | invalidate c => exact h.invalidate c
  | clear c => cases hop
  | merge into other => cases hop

theorem supplyStep_eq (h : Alike x y) (c : ClusterId) (s : Supply S) (op : Operation S) :
    y.supplyStep c s op = x.supplyStep c s op := by
  cases op with
  | create id item =>
    unfold supplyStep
    dsimp only
    rw [h.clusterOf_eq, h.issued]
  | link d contact id =>
    unfold supplyStep
    dsimp only
    rw [(h.addLink d contact id).1, h.contactPoints_eq]
  | finish | invalidate | clear | merge => rfl

end Alike

section After

variable {config config' : ClusterConfig} {ops : List (Operation S)}

theorem alike_after (hkind : config.kind = .preProcess) (hkind' : config'.kind = .preProcess)
    (hops : OfRun ops) : Alike (after config ops) (after config' ops) := by
  induction ops using List.reverseRecOn with
  | nil => exact .empty config config' hkind hkind'
  | append_singleton ops op ih =>
    obtain ⟨hprior, hop⟩ := ofRun_concat.mp hops
    rw [after_concat, after_concat]
    exact (ih hprior).apply hop

/-- The threshold decides nothing about what a cluster is fed. -/
theorem supply_eq (hkind : config.kind = .preProcess) (hkind' : config'.kind = .preProcess)
    (hops : OfRun ops) (c : ClusterId) :
    supply config' ops c = supply config ops c := by
  induction ops using List.reverseRecOn with
  | nil => rfl
  | append_singleton ops op ih =>
    obtain ⟨hprior, -⟩ := ofRun_concat.mp hops
    rw [supply_concat, supply_concat, ih hprior]
    exact (alike_after hkind hkind' hprior).supplyStep_eq c _ op

end After

end ClusterIndex

end DensityClustering

import DensityClustering.Proofs.Geometry.Boundary
import DensityClustering.Proofs.Neighbor.Failure
import DensityClustering.Proofs.Run.Storage

/-!
What makes a distance fail, and with it a run: only an item without a vertex, and only when it is
measured.
-/

namespace DensityClustering

variable {S : Type}

/-- Two items have a distance unless one of them has no vertex. -/
theorem ClusterItem.profile_eq_error_iff [Scalar S] (d : CoordDistance) (a b : ClusterItem S) :
    (∃ e, a.profile d b = .error e) ↔ a.geometry.coords = [] ∨ b.geometry.coords = [] := by
  rw [← Geometry.nearestPair_eq_none_iff, profile]
  split
  · next hnone => exact iff_of_true ⟨_, rfl⟩ hnone
  · next pair hpair =>
    rw [hpair]
    exact iff_of_false (fun ⟨_, he⟩ => nomatch he) nofun

namespace Clustering

variable {config : RunConfig} {parent : Descriptor} {place : ClusterItem S → Placement}
  {items : List (ClusterItem S × Bool)} {g g' : Group (ClusterItem S)}

theorem parent_store (h : store place g items = .ok g') : g'.parent = g.parent := by
  induction items generalizing g with
  | nil =>
    cases h
    rfl
  | cons i items ih =>
    unfold store at h
    split at h
    · cases h
    · next between hadd => exact (ih h).trans (add_eq_ok hadd).2.2

/-- What is stored was stored before or is one of the items. -/
theorem mem_items_of_stored (h : store place g items = .ok g') {primary : Bool} {id : ItemId}
    {v : ClusterItem S} (hv : g'.index.stored primary id = some v) :
    g.index.stored primary id = some v ∨ (v, primary) ∈ items := by
  induction items generalizing g with
  | nil =>
    cases h
    exact Or.inl hv
  | cons i items ih =>
    obtain ⟨item, primary'⟩ := i
    unfold store at h
    split at h
    · cases h
    · next between hadd =>
      rcases ih h with hbetween | hmem
      · rw [(add_eq_ok hadd).1, PartitionIndex.stored_insert] at hbetween
        split at hbetween
        · split at hbetween
          · next hprimary =>
            cases hbetween
            exact Or.inr (hprimary ▸ List.mem_cons_self)
          · cases hbetween
        · exact Or.inl hbetween
      · exact Or.inr (List.mem_cons_of_mem _ hmem)

theorem stored_empty_eq_none (maxDistance : Float) (parent : Descriptor) (primary : Bool)
    (id : ItemId) :
    (Group.empty maxDistance parent : Group (ClusterItem S)).index.stored primary id = none := by
  cases primary with
  | true => simp [Group.empty, PartitionIndex.empty, PartitionIndex.stored, PartitionIndex.primary]
  | false => simp [Group.empty, PartitionIndex.empty, PartitionIndex.stored, PartitionIndex.other]

/-- Storing an item never fails in the way a traversal does. -/
theorem store_ne_traversal {key : PartitionKey} {center : ItemId} {cause : TraversalCause} :
    store place g items ≠ .error (.traversal key center cause) := by
  induction items generalizing g with
  | nil => exact nofun
  | cons i items ih =>
    unfold store
    split
    · next error hadd =>
      unfold Group.add intake at hadd
      simp only at hadd
      split at hadd
      · cases hadd
        exact nofun
      · cases hadd
    · exact ih

variable [Scalar S]

/-- A run fails like its traversal, once the items are stored. -/
theorem run_eq_traversal_iff {key : PartitionKey} {center : ItemId} {cause : TraversalCause} :
    run config parent place items = .error (.traversal key center cause) ↔
      ∃ g, store place (.empty config.maxDistance parent) items = .ok g ∧
        (traversal config g).failure = some (.traversal key center cause) := by
  unfold run
  split
  · next error hstore =>
    refine iff_of_false (fun he => ?_) (fun ⟨g, hg, _⟩ => by rw [hstore] at hg; cases hg)
    cases he
    exact store_ne_traversal hstore
  · next g hstore =>
    rw [hstore]
    simp only [Except.ok.injEq, exists_eq_left']
    split
    · next error heq =>
      rw [heq]
      simp only [Except.error.injEq, Option.some.injEq]
    · next heq =>
      rw [heq]
      exact iff_of_false nofun nofun

/-- The vertices of a geometry are the ends of its segments, so that two geometries have a closest
pair, and two items a distance, unless one of them has no vertex. A run stops for a distance exactly
when it measures a primary item and another one of which one has no vertex; the error names the
primary, and what the distance said. -/
theorem only_empty_items_stop_runs :
    (∀ (g : Geometry S) (p : Coord S),
      p ∈ g.coords ↔ ∃ s ∈ g.segments, p = s.start ∨ p = s.finish) ∧
    (∀ a b : Geometry S, a.nearestPair b = none ↔ a.coords = [] ∨ b.coords = []) ∧
    (∀ (d : CoordDistance) (a b : ClusterItem S), (∃ e, a.profile d b = .error e) ↔
      a.geometry.coords = [] ∨ b.geometry.coords = []) ∧
    ∀ (config : RunConfig) (parent : Descriptor) (place : ClusterItem S → Placement)
      (items : List (ClusterItem S × Bool)) (key : PartitionKey) (center : ItemId) (e : String),
      run config parent place items = .error (.traversal key center (.distance e)) ↔
        key = parent.key ∧ ∃ g, store place (.empty config.maxDistance parent) items = .ok g ∧
          ∃ neighbor u v, (center, neighbor) ∈ (traversal config g).calls ∧
            g.index.primary center = some u ∧ g.value neighbor = some v ∧
            (u, true) ∈ items ∧ (∃ primary, (v, primary) ∈ items) ∧
            (u.geometry.coords = [] ∨ v.geometry.coords = []) ∧
            u.profile config.coordDistance v = .error e := by
  refine ⟨Geometry.endAt_segments, Geometry.nearestPair_eq_none_iff,
    ClusterItem.profile_eq_error_iff, fun config parent place items key center e => ?_⟩
  have hmeasure : ∀ u v (x : ClusterIndex S), ((collaborators config).measure u v x).1 =
      u.profile config.coordDistance v := fun _ _ _ => rfl
  -- Whatever the group holds is one of the items.
  have hitem {g : Group (ClusterItem S)}
      (hstore : store place (.empty config.maxDistance parent) items = .ok g) {primary : Bool}
      {id : ItemId} {v : ClusterItem S} (hv : g.index.stored primary id = some v) :
      (v, primary) ∈ items := by
    refine (mem_items_of_stored hstore hv).resolve_left fun hbefore => ?_
    rw [stored_empty_eq_none] at hbefore
    cases hbefore
  rw [run_eq_traversal_iff]
  constructor
  · rintro ⟨g, hstore, hfailure⟩
    obtain ⟨hkey, neighbor, hcall, hanswer⟩ :=
      (Group.distance_failure_iff hmeasure (.empty config.cluster)).mp hfailure
    obtain ⟨u, v, hu, hv, herror⟩ := g.answer_eq_some.mp hanswer
    have hprimary : (u, true) ∈ items := hitem hstore hu
    have hother : ∃ primary, (v, primary) ∈ items := by
      rcases Option.or_eq_some_iff.mp hv with hv | ⟨-, hv⟩
      · exact ⟨true, hitem hstore hv⟩
      · exact ⟨false, hitem hstore hv⟩
    rw [parent_store hstore] at hkey
    exact ⟨hkey, g, hstore, neighbor, u, v, hcall, hu, hv, hprimary, hother,
      (ClusterItem.profile_eq_error_iff config.coordDistance u v).mp ⟨e, herror⟩, herror⟩
  · rintro ⟨hkey, g, hstore, neighbor, u, v, hcall, hu, hv, -, -, -, herror⟩
    refine ⟨g, hstore, (Group.distance_failure_iff hmeasure (.empty config.cluster)).mpr
      ⟨?_, neighbor, hcall, g.answer_eq_some.mpr ⟨u, v, hu, hv, herror⟩⟩⟩
    rw [parent_store hstore]
    exact hkey

end Clustering

end DensityClustering

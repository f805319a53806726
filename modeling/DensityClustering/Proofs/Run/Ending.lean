import DensityClustering.Proofs.Cluster.Tidy
import DensityClustering.Proofs.Run.Soundness
import DensityClustering.Proofs.Run.Steps

/-!
How a run of merging clusters ends: with finished clusters that are large enough and link to nothing
any more, and with noise that no cluster took back. Within the run the lists that are still live are
the ones that links can hang from, so that none is left when all of them are gone; and a cluster is
created for an id only once, so that what was taken from an id does not return.
-/

namespace DensityClustering

open ClusterIndex (Operation after Ownership Tidy)
open Relation (ReflTransGen)

namespace Clustering

variable {S : Type} [Scalar S]

section Creation

variable {x : ClusterIndex S} {id : ItemId}

omit [Scalar S] in
theorem mem_creations {ops : List (Operation S)} :
    id ∈ creations ops ↔ ∃ item, .create id item ∈ ops := by
  unfold creations
  rw [List.mem_filterMap]
  constructor
  · rintro ⟨op, hop, he⟩
    cases op with
    | create id' item =>
      have hid : id' = id := Option.some.inj he
      exact ⟨item, hid ▸ hop⟩
    | _ => cases he
  · rintro ⟨item, hop⟩
    exact ⟨_, hop, rfl⟩

/-- An id without an owner gets one only by being created. -/
theorem clusterOf_apply_eq_none (h : Ownership x) (hid : x.clusterOf id = none)
    {op : Operation S} (hop : ∀ item, op ≠ .create id item) :
    (x.apply op).clusterOf id = none := by
  cases op with
  | create id' item =>
    have hne : id ≠ id' := fun e => hop item (e ▸ rfl)
    cases hid' : x.clusterOf id' with
    | some c => rwa [ClusterIndex.apply, x.getOrCreate_eq_self item hid']
    | none => rwa [ClusterIndex.apply, x.clusterOf_getOrCreate item hid', if_neg hne]
  | link c contact t => exact (h.clusterOf_addLink_eq_none c contact t id).mpr hid
  | finish c => exact (h.clusterOf_finish_eq_none c id).mpr hid
  | invalidate c =>
    cases hk : x.cluster? c with
    | none => rwa [ClusterIndex.apply, x.invalidate_eq_self hk]
    | some k =>
      rw [ClusterIndex.apply, x.clusterOf_invalidate hk, hid]
      exact ite_self _
  | clear c =>
    rw [ClusterIndex.apply, ClusterIndex.clear, ClusterIndex.clusterOf_modify]
    exact hid
  | merge into other => exact (h.clusterOf_merge_eq_none into other id).mpr hid

theorem clusterOf_foldl_apply_eq_none (h : Ownership x) (hid : x.clusterOf id = none)
    {ops : List (Operation S)} (hops : id ∉ creations ops) :
    (ops.foldl ClusterIndex.apply x).clusterOf id = none := by
  induction ops generalizing x with
  | nil => exact hid
  | cons op ops ih =>
    rw [mem_creations] at hops
    have hop : ∀ item, op ≠ .create id item := by
      rintro item rfl
      exact hops ⟨item, List.mem_cons_self⟩
    have hrest : id ∉ creations ops := by
      rw [mem_creations]
      rintro ⟨item, hin⟩
      exact hops ⟨item, List.mem_cons_of_mem _ hin⟩
    exact ih (h.apply op) (clusterOf_apply_eq_none h hid hop) hrest

/-- What a cluster owns was created. -/
theorem mem_creations_of_clusterOf {config : ClusterConfig} {ops : List (Operation S)}
    {c : ClusterId} (hc : (after config ops).clusterOf id = some c) : id ∈ creations ops := by
  by_contra hno
  have hnone : (after config ops).clusterOf id = none :=
    clusterOf_foldl_apply_eq_none (Ownership.empty config) (ClusterIndex.clusterOf_empty config id)
      hno
  rw [hnone] at hc
  cases hc

end Creation

variable {config : RunConfig} {items : List (ClusterItem S × Bool)}
  {index index' : NeighborIndex (List (Operation S)) ClusterList}

/-- The clusters between the steps of a run: what is open are the live lists, what is closed are the
lists that are gone. -/
def InOrder (config : RunConfig) (index : NeighborIndex (List (Operation S)) ClusterList) : Prop :=
  Tidy (after config.cluster index.shared)
    (fun id => index.slots[id]? = some (.live ⟨id⟩)) fun id => index.slots[id]? = some .emptied

namespace InOrder

theorem build {v : ClusterItem S} (h : InOrder config index)
    (hfresh : index.slots[v.id]? = none) : InOrder config (Clustering.build index v) := by
  have hclosed : ¬index.slots[v.id]? = some .emptied := by
    rw [hfresh]
    simp
  have hcreated := Tidy.create h v hclosed
  rw [InOrder, show (Clustering.build index v).shared = index.shared ++ [.create v.id v] from rfl,
    ClusterIndex.after_concat]
  refine hcreated.mono (fun id hid => ?_) fun id hid => ?_
  · rw [slots_build]
    split
    · next he => rw [he]
    · exact hid
  · rw [slots_build] at hid
    split at hid
    · cases hid
    · exact hid

theorem link {id : ItemId} {c : ClusterId} (h : InOrder config index)
    (hlive : index.slots[id]? = some (.live ⟨id⟩))
    (howned : (after config.cluster index.shared).clusterOf id = some c) (contact : Contact S)
    (t : ItemId)
    (hcalm : (after config.cluster index.shared).calmStep (.link c contact t) = true) :
    InOrder config (perform index (.link c contact t)) := by
  have hlinked := Tidy.addLink h hlive howned contact t hcalm
  rw [InOrder, show (perform index (.link c contact t)).shared =
    index.shared ++ [.link c contact t] from rfl, ClusterIndex.after_concat]
  exact hlinked

/-- A list is settled and closed, be its cluster finished or taken apart. -/
theorem conclude {id : ItemId} (h : InOrder config index)
    (hcalm : (ClusterIndex.empty config.cluster).calm (conclude config id index).shared = true) :
    InOrder config (Clustering.conclude config id index) := by
  have hconfig : (after config.cluster index.shared : ClusterIndex S).config = config.cluster :=
    ClusterIndex.config_after ..
  have hshared : (Clustering.conclude config id index).shared =
      settlement config ⟨id⟩ index.shared := rfl
  -- It is enough to have the list of `id` closed, and no longer open.
  have hclose : Tidy (after config.cluster (settlement config ⟨id⟩ index.shared))
      (fun q => index.slots[q]? = some (.live ⟨q⟩) ∧ q ≠ id)
      (fun q => index.slots[q]? = some .emptied ∨ q = id) := by
    rw [hshared] at hcalm
    rcases settlement_cases config ⟨id⟩ index.shared with ⟨hnone, he⟩ | ⟨c, hc, hcase⟩
    · rw [he]
      have hnone : (after config.cluster index.shared).clusterOf id = none := hnone
      refine ⟨h.wired, h.merging, h.positive, fun c t ht => ?_, fun q c hq hqc => ?_⟩
      · obtain ⟨q, hq, hqc⟩ := h.linked c t ht
        refine ⟨q, ⟨hq, ?_⟩, hqc⟩
        rintro rfl
        rw [hnone] at hqc
        cases hqc
      · refine h.settled q c (hq.resolve_right ?_) hqc
        rintro rfl
        rw [hnone] at hqc
        cases hqc
    · rcases hcase with ⟨-, he⟩ | ⟨hsize, he⟩
      · rw [he, ClusterIndex.after_concat]
        exact Tidy.invalidate h hc
      · rw [he] at hcalm ⊢
        rw [ClusterIndex.after_concat]
        have hlarge : (after config.cluster index.shared).config.mergeSize ≤
            (after config.cluster index.shared).size c := by
          rw [hconfig]
          exact hsize
        exact Tidy.finish h hc hlarge ((ClusterIndex.calm_concat ..).mp hcalm).2
  rw [InOrder, hshared]
  refine hclose.mono (fun q hq => ?_) fun q hq => ?_
  · rw [slots_conclude, if_neg hq.2]
    exact hq.1
  · rw [slots_conclude] at hq
    split at hq
    · next he => exact Or.inr he
    · exact Or.inl hq

theorem step (h : InOrder config index) (hstep : Step config items index index')
    (hcalm : (ClusterIndex.empty config.cluster).calm index'.shared = true) :
    InOrder config index' := by
  cases hstep with
  | measure a b => exact h
  | build primary fresh => exact h.build fresh
  | link live owned contact t =>
    exact h.link live owned contact t ((ClusterIndex.calm_concat ..).mp hcalm).2
  | conclude live => exact h.conclude hcalm

end InOrder

theorem Reachable.inOrder (h : Reachable config items index) (hkind : config.kind = .merging)
    (hpos : 0 < config.minOwners)
    (hcalm : (ClusterIndex.empty config.cluster).calm index.shared = true) :
    InOrder config index := by
  induction h with
  | refl => exact Tidy.empty config.cluster hkind hpos
  | tail _ hstep ih =>
    exact (ih (ClusterIndex.calm_of_longer _ hstep.prefix_shared hcalm)).step hstep hcalm

/-- What stands in a list with one more entry is that entry, or stood there before. -/
theorem split_concat {α : Type} {l before rest : List α} {last a : α}
    (h : l ++ [last] = before ++ a :: rest) :
    (l = before ∧ last = a) ∨ ∃ rest', l = before ++ a :: rest' := by
  rcases List.eq_nil_or_concat rest with rfl | ⟨rest', b, rfl⟩
  · obtain ⟨hl, hlast⟩ := List.append_inj' h rfl
    exact Or.inl ⟨hl, (List.cons.inj hlast).1⟩
  · have hsplit : l ++ [last] = (before ++ a :: rest') ++ [b] := by
      rw [h, List.concat_eq_append, List.append_assoc, List.cons_append]
    exact Or.inr ⟨rest', (List.append_inj' hsplit rfl).1⟩

/-- A run invalidates the cluster of a primary whose list it settles, when that is too small. -/
theorem Reachable.invalidated (h : Reachable config items index) {before : List (Operation S)}
    {c : ClusterId} {rest : List (Operation S)}
    (hsplit : index.shared = before ++ .invalidate c :: rest) :
    ∃ p, IsPrimary items p ∧ (after config.cluster before).clusterOf p = some c ∧
      (after config.cluster before).size c < config.minOwners := by
  induction h generalizing rest with
  | refl => exact absurd hsplit (by simp [NeighborIndex.start])
  | @tail index index' hindex hstep ih =>
    -- An operation that was added last is of interest only if it is the invalidation itself.
    have hconcat : ∀ op, index'.shared = index.shared ++ [op] → op ≠ .invalidate c →
        ∃ rest', index.shared = before ++ .invalidate c :: rest' := by
      intro op hop hne
      rw [hop] at hsplit
      exact (split_concat hsplit).resolve_left fun hlast => hne hlast.2
    cases hstep with
    | measure a b => exact ih hsplit
    | build primary fresh =>
      obtain ⟨rest', hrest⟩ := hconcat _ rfl (by simp)
      exact ih hrest
    | link live owned contact t =>
      obtain ⟨rest', hrest⟩ := hconcat _ rfl (by simp)
      exact ih hrest
    | @conclude id live =>
      have hshared : (Clustering.conclude config id index).shared =
          settlement config ⟨id⟩ index.shared := rfl
      rcases settlement_cases config ⟨id⟩ index.shared with
        ⟨-, he⟩ | ⟨d, hd, ⟨hsize, he⟩ | ⟨-, he⟩⟩
      · rw [hshared, he] at hsplit
        exact ih hsplit
      · rw [hshared, he] at hsplit
        rcases split_concat hsplit with ⟨rfl, hop⟩ | ⟨rest', hrest⟩
        · cases hop
          have hprimary : IsPrimary items id := by
            apply (Reachable.kept hindex).primary
            rw [live]
            simp
          exact ⟨id, hprimary, hd, hsize⟩
        · exact ih hrest
      · obtain ⟨rest', hrest⟩ := hconcat _ (hshared.trans he) (by simp)
        exact ih hrest

end Clustering

end DensityClustering

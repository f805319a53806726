import DensityClustering.Proofs.Cluster.Wiring

/-!
Handles that outlived their cluster. A handle that was merged away or invalidated owns nothing, and
only clusters that own something have links, so calling an operation on it changes no owner and no
live cluster. The one thing such a call can still touch are links of other clusters: an invalidated
handle keeps its members, and invalidating it again detaches them once more.
-/

namespace DensityClustering

namespace ClusterIndex

variable {S : Type} [Scalar S]

/-- The handle was issued, and its cluster was merged away or invalidated since. -/
def Retired (config : ClusterConfig) (ops : List (Operation S)) (c : ClusterId) : Prop :=
  (c ∈ (after config ops).handles ∧ (after config ops).cluster? c = none) ∨
    ∃ before rest, ops = before ++ .invalidate c :: rest ∧ c ∈ (after config before).handles

theorem Retired.spent {config : ClusterConfig} {ops : List (Operation S)} {c : ClusterId}
    (h : Retired config ops c) : Spent (after config ops) c := by
  rcases h with ⟨hissued, hgone⟩ | ⟨before, rest, hops, hissued⟩
  · refine ⟨(mem_handles _).mp hissued, ?_, (Ownership.after config ops).unowned_of_none hgone⟩
    unfold isLive
    rw [hgone]
    rfl
  · have hspent : Spent ((after config before).invalidate c) c :=
      spent_invalidate (Ownership.after config before) ((mem_handles _).mp hissued)
    rw [hops, after_append]
    exact hspent.foldl_apply rest

/-- The operations that are called on a handle. -/
inductive Operation.Addresses (c : ClusterId) : Operation S → Prop
  | link (contact : Contact S) (id : ItemId) : Addresses c (.link c contact id)
  | finish : Addresses c (.finish c)
  | invalidate : Addresses c (.invalidate c)
  | clear : Addresses c (.clear c)
  | merge (d : ClusterId) : Addresses c (.merge c d)
  | mergeInto (d : ClusterId) : Addresses c (.merge d c)

/-- The owners are the same, and so are the live clusters with their records. -/
structure Undisturbed (x y : ClusterIndex S) : Prop where
  owner : ∀ id, y.clusterOf id = x.clusterOf id
  live : ∀ d, y.isLive d = x.isLive d
  record : ∀ d, x.isLive d = true → y.cluster? d = x.cluster? d

namespace Undisturbed

variable {x : ClusterIndex S}

theorem refl (x : ClusterIndex S) : Undisturbed x x := ⟨fun _ => rfl, fun _ => rfl, fun _ _ => rfl⟩

/-- Changing the record of a dead handle. -/
theorem modify {c : ClusterId} (hc : x.isLive c = false) (links : LinkGraph)
    (f : Cluster S → Cluster S) (hcount : ∀ k, (f k).count = k.count) :
    Undisturbed x ({ x with links := links }.modify c f) := by
  refine ⟨fun id => clusterOf_modify { x with links := links } c f id,
    fun d => isLive_modify { x with links := links } c f hcount d, fun d hd => ?_⟩
  · have hne : d ≠ c := by
      rintro rfl
      rw [hc] at hd
      cases hd
    rw [cluster?_modify, if_neg hne]
    rfl

/-- Invalidating a handle that is dead and owns nothing. -/
theorem invalidate {c : ClusterId} (hc : Spent x c) : Undisturbed x (x.invalidate c) := by
  cases hk : x.cluster? c with
  | none =>
    rw [x.invalidate_eq_self hk]
    exact refl x
  | some k =>
    refine ⟨fun id => ?_, fun d => ?_, fun d hd => ?_⟩
    · rw [x.clusterOf_invalidate hk, if_neg]
      exact fun h => hc.unowned id h.2
    · by_cases hd : d = c
      · rw [hd, hc.dead]
        unfold isLive
        rw [x.cluster?_invalidate hk, if_pos rfl]
        rfl
      · apply isLive_congr
        rw [x.cluster?_invalidate hk, if_neg hd]
    · have hne : d ≠ c := by
        rintro rfl
        rw [hc.dead] at hd
        cases hd
      rw [x.cluster?_invalidate hk, if_neg hne]

end Undisturbed

/-- A cluster without links calls its pass off. -/
theorem mergeReachable_of_unlinked {x : ClusterIndex S} {c : ClusterId}
    (h : ∀ t, x.links.contains c t = false) (prune : Bool) : x.mergeReachable c prune = x := by
  have hcount : x.linkCount c = 0 := (LinkGraph.count_eq_zero_iff _ _).mpr h
  unfold mergeReachable pass
  rw [if_pos (Or.inr (Or.inr hcount))]
  rfl

/-- What an operation on a dead handle that owns nothing does: of the links, only its invalidation
takes some, and these lead to the members that it keeps. -/
theorem apply_addressed_of_spent {x : ClusterIndex S} (h : Wired x) {c : ClusterId}
    (hc : Spent x c) {op : Operation S} (hop : Operation.Addresses c op) :
    Undisturbed x (x.apply op) ∧ ∀ d t, (x.apply op).links.contains d t = true ↔
      x.links.contains d t = true ∧ (op = .invalidate c → t ∉ x.members c) := by
  have hunlinked := h.contains_of_spent hc
  -- Every operation but the invalidation leaves the links alone.
  have hsame : ∀ {y : ClusterIndex S} (op : Operation S), op ≠ .invalidate c →
      (∀ d t, y.links.contains d t = x.links.contains d t) → ∀ d t,
      y.links.contains d t = true ↔
        x.links.contains d t = true ∧ (op = .invalidate c → t ∉ x.members c) := by
    intro y op hne hy d t
    rw [hy]
    exact (and_iff_left fun he => absurd he hne).symm
  have hnothing : ∀ op, op ≠ .invalidate c → x.apply op = x → Undisturbed x (x.apply op) ∧
      ∀ d t, (x.apply op).links.contains d t = true ↔
        x.links.contains d t = true ∧ (op = .invalidate c → t ∉ x.members c) := by
    intro op hne hself
    rw [hself]
    exact ⟨Undisturbed.refl x, hsame op hne fun _ _ => rfl⟩
  cases hop with
  | link contact id =>
    refine hnothing _ (by simp) ?_
    show (x.addLink c contact id).1 = x
    unfold addLink recordLink
    rw [x.filter_isLive_eq_none.mpr hc.dead]
    rfl
  | finish =>
    have hself : x.apply (.finish c) = x.modify c fun k => { k with finished := true } := by
      show (x.mergeReachable c true).modify c _ = _
      rw [mergeReachable_of_unlinked hunlinked]
    rw [hself]
    exact ⟨Undisturbed.modify hc.dead x.links _ fun _ => rfl,
      hsame _ (by simp) fun d t => by rw [links_modify]⟩
  | clear =>
    refine ⟨Undisturbed.modify hc.dead _ _ fun _ => rfl, hsame _ (by simp) fun d t => ?_⟩
    unfold apply clear
    rw [links_modify, Bool.eq_iff_iff, LinkGraph.contains_removeCluster]
    refine and_iff_left_of_imp fun ht => ?_
    rintro rfl
    rw [hunlinked t] at ht
    cases ht
  | merge d => exact hnothing _ (by simp) (x.merge_eq_self (Or.inr (Or.inl hc.dead)))
  | mergeInto d => exact hnothing _ (by simp) (x.merge_eq_self (Or.inr (Or.inr hc.dead)))
  | invalidate =>
    refine ⟨Undisturbed.invalidate hc, fun d t => ?_⟩
    simp only [apply, forall_const]
    cases hk : x.cluster? c with
    | none => simp [x.invalidate_eq_self hk, x.members_eq_nil hk]
    | some k =>
      rw [contains_invalidate h.mirrored hk, x.members_of_cluster? hk]
      refine and_congr_right fun ht => and_iff_left ?_
      -- The handle itself has no link to lose.
      rintro rfl
      rw [hunlinked t] at ht
      cases ht

/-- An operation on a handle that was merged away or invalidated changes no owner and no live
cluster. It changes no links either unless it invalidates the handle, which takes the links to the
members that the handle keeps; so nothing at all changes exactly if no cluster links to them. -/
theorem retired_handle_inert (config : ClusterConfig) (ops : List (Operation S)) (c : ClusterId)
    (h : Retired config ops c) :
    (∀ op, Operation.Addresses c op →
      Undisturbed (after config ops) ((after config ops).apply op) ∧
      ∀ d t, t ∈ ((after config ops).apply op).linksOf d ↔
        t ∈ (after config ops).linksOf d ∧
          (op = .invalidate c → t ∉ (after config ops).members c)) ∧
    ((∀ op, Operation.Addresses c op → ∀ d,
        ((after config ops).apply op).linksOf d = (after config ops).linksOf d) ↔
      ∀ d, ∀ t ∈ (after config ops).linksOf d, t ∉ (after config ops).members c) := by
  have hspent := h.spent
  have hwired := Wired.after config ops
  generalize (after config ops : ClusterIndex S) = x at hspent hwired
  have hlinks : ∀ op, Operation.Addresses c op → ∀ d t, t ∈ (x.apply op).linksOf d ↔
      t ∈ x.linksOf d ∧ (op = .invalidate c → t ∉ x.members c) := by
    intro op hop d t
    rw [mem_linksOf, mem_linksOf]
    exact (apply_addressed_of_spent hwired hspent hop).2 d t
  refine ⟨fun op hop => ⟨(apply_addressed_of_spent hwired hspent hop).1, hlinks op hop⟩,
    fun hall d t ht => ?_, fun hfree op hop d => ?_⟩
  · have hkept : t ∈ (x.apply (.invalidate c)).linksOf d := by
      rw [hall _ .invalidate d]
      exact ht
    exact ((hlinks _ .invalidate d t).mp hkept).2 rfl
  · refine LinkGraph.targets_congr fun t => ?_
    rw [← mem_linksOf, hlinks op hop d t, ← mem_linksOf]
    exact and_iff_left_of_imp fun ht _ => hfree d t ht

/-- A point that was invalidated, and two others that are linked. -/
def linkedPair : List (Operation Rat) :=
  [pointAt 0, .invalidate ⟨0⟩, pointAt 1, pointAt 2, .link ⟨1⟩ (contactAt 1 2) ⟨[2]⟩]

theorem stale_invalidation_keeps_pair :
    Retired ⟨2, 200, .merging⟩ linkedPair ⟨0⟩ ∧
    Undisturbed (after ⟨2, 200, .merging⟩ linkedPair)
      ((after ⟨2, 200, .merging⟩ linkedPair).apply (.invalidate ⟨0⟩)) ∧
    ⟨[2]⟩ ∈ ((after ⟨2, 200, .merging⟩ linkedPair).apply (.invalidate ⟨0⟩)).linksOf ⟨1⟩ := by
  have hretired : Retired ⟨2, 200, .merging⟩ linkedPair ⟨0⟩ :=
    Or.inr ⟨[pointAt 0], _, rfl, by decide +kernel⟩
  obtain ⟨hsame, hlinks⟩ :=
    (retired_handle_inert ⟨2, 200, .merging⟩ linkedPair ⟨0⟩ hretired).1 _ .invalidate
  have hlinked : ⟨[2]⟩ ∈ (after ⟨2, 200, .merging⟩ linkedPair).linksOf ⟨1⟩ := by decide +kernel
  have hforeign : ⟨[2]⟩ ∉ (after ⟨2, 200, .merging⟩ linkedPair).members ⟨0⟩ := by decide +kernel
  exact ⟨hretired, hsame, (hlinks ⟨1⟩ ⟨[2]⟩).mpr ⟨hlinked, fun _ => hforeign⟩⟩

/-- A point that was invalidated and clustered again, and another one that links to it since. -/
def revivedPoint : List (Operation Rat) :=
  [pointAt 0, .invalidate ⟨0⟩, pointAt 0, pointAt 1, .link ⟨2⟩ (contactAt 1 0) ⟨[0]⟩]

/-- Invalidating the first cluster of the point again cuts the link to its second one. -/
theorem stale_invalidation_cuts_link :
    Retired ⟨2, 200, .merging⟩ revivedPoint ⟨0⟩ ∧
    (after ⟨2, 200, .merging⟩ revivedPoint).isLive ⟨2⟩ = true ∧
    (after ⟨2, 200, .merging⟩ revivedPoint).clusterOf ⟨[0]⟩ = some ⟨1⟩ ∧
    (after ⟨2, 200, .merging⟩ revivedPoint).linksOf ⟨2⟩ = [⟨[0]⟩] ∧
    ((after ⟨2, 200, .merging⟩ revivedPoint).apply (.invalidate ⟨0⟩)).linksOf ⟨2⟩ = [] :=
  ⟨Or.inr ⟨[pointAt 0], _, rfl, by decide +kernel⟩, by decide +kernel, by decide +kernel,
    by decide +kernel, by decide +kernel⟩

end ClusterIndex

end DensityClustering

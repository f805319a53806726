import DensityClustering.Proofs.Cluster.Growth

/-!
The life of a handle. Handles are issued one after the other; the record behind one only grows, and
is lost for good when the cluster is merged away; and a cluster that is not live stays so.
-/

namespace DensityClustering

namespace Cluster

variable {S : Type} [Scalar S]

/-- What the operations make of a record: members are appended, no flag is taken back, and a cluster
that is not live stays so. -/
structure Grows (k k' : Cluster S) : Prop where
  members : k.members <+: k'.members
  compressed : k.compressed = true → k'.compressed = true
  finished : k.finished = true → k'.finished = true
  dead : k.isLive = false → k'.isLive = false

namespace Grows

variable {k k' k'' : Cluster S}

theorem refl (k : Cluster S) : k.Grows k := ⟨List.prefix_refl _, id, id, id⟩

theorem trans (h : k.Grows k') (h' : k'.Grows k'') : k.Grows k'' where
  members := h.members.trans h'.members
  compressed := h'.compressed ∘ h.compressed
  finished := h'.finished ∘ h.finished
  dead := h'.dead ∘ h.dead

end Grows

variable (threshold : Nat) (k a : Cluster S)

theorem compressed_compress (h : k.compressed = true) :
    (k.compress threshold).compressed = true := by
  unfold compress
  split
  · exact h
  · rfl

theorem compressed_reach (id : ItemId) (contact : Contact S) (h : k.compressed = true) :
    (k.reach threshold id contact).compressed = true := by
  unfold reach
  dsimp only
  split
  · exact h
  · exact compressed_compress threshold _ h

/-- A live cluster that counts one item more has grown. -/
theorem grows_reach (id : ItemId) (contact : Contact S) (hlive : k.isLive = true) :
    k.Grows (k.reach threshold id contact) where
  members := by rw [members_reach]
  compressed := k.compressed_reach threshold id contact
  finished := by rw [finished_reach]; exact fun h => h
  dead := fun h => absurd hlive (by rw [h]; exact Bool.false_ne_true)

/-- A live cluster that takes over another one has grown. -/
theorem grows_absorb (hlive : k.isLive = true) : k.Grows (k.absorb threshold a) where
  members := by rw [members_absorb]; exact List.prefix_append ..
  compressed := fun h => compressed_compress threshold _ h
  finished := by rw [finished_absorb]; exact fun h => h
  dead := fun h => absurd hlive (by rw [h]; exact Bool.false_ne_true)

variable {threshold k} {k' : Cluster S}

/-- Whatever feeds a record makes it grow. -/
theorem Steps.grows (h : k.Steps threshold k') : k.Grows k' := by
  refine h.keeps (P := k.Grows) (fun r r' hstep hr => hr.trans ?_) (.refl k)
  cases hstep with
  | reach id contact hlive => exact r.grows_reach threshold id contact hlive
  | absorb hlive halive => exact r.grows_absorb threshold _ hlive
  | finish => exact ⟨List.prefix_refl _, id, fun _ => rfl, id⟩

end Cluster

namespace ClusterIndex

variable {S : Type} [Scalar S]

/-- What operations make of the clusters: handles stay issued, the records behind them have grown,
and none comes back that was merged away. -/
structure Ages (x y : ClusterIndex S) : Prop where
  issued : x.slots.size ≤ y.slots.size
  record : ∀ c k', c.number < x.slots.size → y.cluster? c = some k' →
    ∃ k, x.cluster? c = some k ∧ k.Grows k'

namespace Ages

variable {x y z : ClusterIndex S} {c : ClusterId}

theorem refl (x : ClusterIndex S) : Ages x x := ⟨Nat.le_refl _, fun _ k _ hk => ⟨k, hk, .refl k⟩⟩

theorem trans (h : Ages x y) (h' : Ages y z) : Ages x z := by
  refine ⟨h.issued.trans h'.issued, fun c k'' hc hk'' => ?_⟩
  obtain ⟨k', hk', hgrows'⟩ := h'.record c k'' (hc.trans_le h.issued) hk''
  obtain ⟨k, hk, hgrows⟩ := h.record c k' hc hk'
  exact ⟨k, hk, hgrows.trans hgrows'⟩

variable (x)

/-- An invalidated record keeps its members and loses its count for good. -/
theorem apply (op : Operation S) : Ages x (x.apply op) := by
  refine ⟨slots_size_le_apply x op, fun c k' hc hk' => ?_⟩
  obtain ⟨k, hk, hsteps | ⟨-, rfl⟩ | ⟨-, rfl⟩⟩ := record_apply hc hk'
  · exact ⟨k, hk, hsteps.grows⟩
  · exact ⟨k, hk, ⟨List.prefix_refl _, id, id, fun _ => rfl⟩⟩
  · exact ⟨k, hk, ⟨List.prefix_refl _, id, id, id⟩⟩

theorem foldl_apply (ops : List (Operation S)) : Ages x (ops.foldl ClusterIndex.apply x) := by
  induction ops generalizing x with
  | nil => exact refl x
  | cons op ops ih => exact (apply x op).trans (ih (x.apply op))

variable {x}

/-- What is not live does not come to life again. -/
theorem isLive_eq_false (h : Ages x y) (hc : c.number < x.slots.size) (hdead : x.isLive c = false) :
    y.isLive c = false := by
  cases hk' : y.cluster? c with
  | none =>
    unfold isLive
    rw [hk']
    rfl
  | some k' =>
    obtain ⟨k, hk, hgrows⟩ := h.record c k' hc hk'
    rw [x.isLive_of_cluster? hk] at hdead
    rw [y.isLive_of_cluster? hk']
    exact hgrows.dead hdead

end Ages

/-- The handle that an operation issues, if any. -/
def issue (x : ClusterIndex S) : Operation S → Option ClusterId
  | .create id item => if x.clusterOf id = none then some (x.getOrCreate id item).2 else none
  | _ => none

/-- The handles that operations issue, in order. -/
def issues (x : ClusterIndex S) : List (Operation S) → List ClusterId
  | [] => []
  | op :: ops => (x.issue op).toList ++ issues (x.apply op) ops

variable {x : ClusterIndex S}

theorem getOrCreate_of_none {id : ItemId} (item : ClusterItem S) (h : x.clusterOf id = none) :
    (x.getOrCreate id item).2 = ⟨x.slots.size⟩ ∧
      (x.getOrCreate id item).1.handles = x.handles ++ [⟨x.slots.size⟩] := by
  unfold getOrCreate
  rw [h]
  refine ⟨rfl, ?_⟩
  simp only [handles, Array.size_push, List.range_succ, List.map_append, List.map_singleton]

theorem getOrCreate_of_some {id : ItemId} {c : ClusterId} (item : ClusterItem S)
    (h : x.clusterOf id = some c) : x.getOrCreate id item = (x, c) := by
  unfold getOrCreate
  rw [h]

/-- Every operation issues the next handle or none. -/
theorem handles_apply (x : ClusterIndex S) (op : Operation S) :
    (x.apply op).handles = x.handles ++ (x.issue op).toList := by
  by_cases hop : ∃ id item, op = .create id item
  · obtain ⟨id, item, rfl⟩ := hop
    cases hid : x.clusterOf id with
    | none =>
      obtain ⟨hanswer, hhandles⟩ := getOrCreate_of_none item hid
      rw [apply, issue, if_pos hid, hanswer]
      exact hhandles
    | some c =>
      have hissue : x.issue (.create id item) = none := if_neg (by simp [hid])
      rw [hissue, apply, getOrCreate_of_some item hid]
      exact (List.append_nil _).symm
  · have hissue : x.issue op = none := by
      cases op with
      | create id item => exact absurd ⟨id, item, rfl⟩ hop
      | _ => rfl
    rw [hissue, handles, slots_size_apply fun id item he => hop ⟨id, item, he⟩]
    exact (List.append_nil _).symm

theorem handles_foldl_apply (x : ClusterIndex S) (ops : List (Operation S)) :
    (ops.foldl apply x).handles = x.handles ++ x.issues ops := by
  induction ops generalizing x with
  | nil => exact (List.append_nil _).symm
  | cons op ops ih => rw [List.foldl_cons, ih, handles_apply, List.append_assoc, issues]

/-- The handles are those that were issued, in the order in which they were. -/
theorem handles_after (config : ClusterConfig) (ops : List (Operation S)) :
    (after config ops).handles = (empty config : ClusterIndex S).issues ops :=
  handles_foldl_apply (.empty config) ops

/-- A record that is there has been there since its handle was issued, with the same first member,
and with no flag that was taken back; what is not live never comes to life again; the live clusters
are listed in the order in which their handles were issued; and asking for the cluster of an id
brings up its owner, or a handle that was never issued before. -/
theorem handles_age_monotonically (config : ClusterConfig) (ops rest : List (Operation S)) :
    let x := after config ops
    let y := after config (ops ++ rest)
    (∀ c ∈ x.handles, y.cluster? c ≠ none →
      x.cluster? c ≠ none ∧ x.members c <+: y.members c ∧
      (x.representative c).isSome = true ∧ y.representative c = x.representative c ∧
      (x.isCompressed c = true → y.isCompressed c = true) ∧
      (x.isFinished c = true → y.isFinished c = true)) ∧
    (∀ c ∈ x.handles, x.isLive c = false → y.isLive c = false) ∧
    (x.clusters = ((empty config : ClusterIndex S).issues ops).filter x.isLive ∧
      ((empty config : ClusterIndex S).issues ops).Nodup) ∧
    ∀ id item,
      (x.clusterOf id = some (x.getOrCreate id item).2 ∧ (x.getOrCreate id item).1 = x) ∨
      (x.clusterOf id = none ∧
        (x.getOrCreate id item).2 ∉ (empty config : ClusterIndex S).issues ops ∧
        (x.getOrCreate id item).1.clusterOf id = some (x.getOrCreate id item).2) := by
  intro x y
  have hages : Ages x y := by
    show Ages x (after config (ops ++ rest))
    rw [after_append]
    exact Ages.foldl_apply x rest
  have hissues : x.handles = (empty config : ClusterIndex S).issues ops := handles_after config ops
  refine ⟨fun c hc hk' => ?_, fun c hc hdead => ?_, ⟨?_, ?_⟩, fun id item => ?_⟩
  · obtain ⟨k', hk'⟩ := Option.ne_none_iff_exists'.mp hk'
    obtain ⟨k, hk, hgrows⟩ := hages.record c k' (x.mem_handles.mp hc) hk'
    obtain ⟨m, ms, hm⟩ := List.exists_cons_of_ne_nil ((Ownership.after config ops).nonempty c k hk)
    obtain ⟨later, hlater⟩ := hgrows.members
    have hx : x.members c = m :: ms := (x.members_of_cluster? hk).trans hm
    have hy : y.members c = m :: (ms ++ later) := by
      rw [y.members_of_cluster? hk', ← hlater, hm, List.cons_append]
    refine ⟨?_, ?_, ?_, ?_, ?_, ?_⟩
    · rw [hk]
      exact Option.some_ne_none k
    · rw [hx, hy]
      exact ⟨later, rfl⟩
    · rw [representative, hx]
      rfl
    · rw [representative, representative, hx, hy]
      rfl
    · rw [isCompressed, isCompressed, hk, hk']
      exact hgrows.compressed
    · rw [isFinished, isFinished, hk, hk']
      exact hgrows.finished
  · exact hages.isLive_eq_false (x.mem_handles.mp hc) hdead
  · rw [← hissues]
    rfl
  · rw [← hissues]
    exact x.handles_nodup
  · cases hid : x.clusterOf id with
    | some c =>
      rw [getOrCreate_of_some item hid]
      exact Or.inl ⟨rfl, rfl⟩
    | none =>
      refine Or.inr ⟨rfl, ?_, ?_⟩
      · rw [← hissues, (getOrCreate_of_none item hid).1, x.mem_handles]
        exact Nat.lt_irrefl _
      · rw [x.clusterOf_getOrCreate item hid, if_pos rfl, (getOrCreate_of_none item hid).1]

end ClusterIndex

end DensityClustering

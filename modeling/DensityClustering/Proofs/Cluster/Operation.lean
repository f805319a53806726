import DensityClustering.Proofs.Cluster.LinkRelation
import DensityClustering.Proofs.Cluster.Record
import DensityClustering.Cluster.Index

/-!
The operations of the clusters, and the states they lead to. Below the definitions stand the facts by
which every other module reads an operation: the record behind each handle and the owner of each id
afterwards.
-/

namespace DensityClustering

open Std (ExtTreeMap)

namespace ClusterIndex

variable {S : Type} [Scalar S]

/-- What can be done to the clusters of a run. -/
inductive Operation (S : Type) where
  | create (id : ItemId) (item : ClusterItem S)
  | link (c : ClusterId) (contact : Contact S) (id : ItemId)
  | finish (c : ClusterId)
  | invalidate (c : ClusterId)
  | clear (c : ClusterId)
  | merge (into other : ClusterId)

/-- The clusters after an operation. -/
def apply (x : ClusterIndex S) : Operation S → ClusterIndex S
  | .create id item => (x.getOrCreate id item).1
  | .link c contact id => (x.addLink c contact id).1
  | .finish c => x.finish c
  | .invalidate c => x.invalidate c
  | .clear c => x.clear c
  | .merge into other => x.merge into other

/-- The clusters after a sequence of operations on no clusters. -/
def after (config : ClusterConfig) (ops : List (Operation S)) : ClusterIndex S :=
  ops.foldl apply (.empty config)

theorem after_append (config : ClusterConfig) (ops rest : List (Operation S)) :
    after config (ops ++ rest) = rest.foldl apply (after config ops) :=
  List.foldl_append

theorem after_concat (config : ClusterConfig) (ops : List (Operation S)) (op : Operation S) :
    after config (ops ++ [op]) = (after config ops).apply op :=
  after_append config ops [op]

variable (x : ClusterIndex S)

theorem cluster?_eq_some {c : ClusterId} {k : Cluster S} :
    x.cluster? c = some k ↔ x.slots[c.number]? = some (some k) :=
  Option.join_eq_some_iff

theorem issued_of_cluster? {c : ClusterId} {k : Cluster S} (h : x.cluster? c = some k) :
    c.number < x.slots.size :=
  (Array.getElem?_eq_some_iff.mp (x.cluster?_eq_some.mp h)).1

theorem mem_handles {c : ClusterId} : c ∈ x.handles ↔ c.number < x.slots.size := by
  simp only [handles, List.mem_map, List.mem_range]
  constructor
  · rintro ⟨n, hn, rfl⟩
    exact hn
  · exact fun h => ⟨c.number, h, rfl⟩

theorem cluster?_eq_none_of_not_issued {c : ClusterId} (h : ¬c.number < x.slots.size) :
    x.cluster? c = none := by
  unfold cluster?
  rw [Array.getElem?_eq_none (by omega)]
  rfl

theorem isLive_iff {c : ClusterId} :
    x.isLive c = true ↔ ∃ k, x.cluster? c = some k ∧ k.isLive = true := by
  unfold isLive
  exact Option.any_eq_true ..

theorem isLive_of_cluster? {c : ClusterId} {k : Cluster S} (h : x.cluster? c = some k) :
    x.isLive c = k.isLive := by
  rw [isLive, h, Option.any_some]

theorem members_of_cluster? {c : ClusterId} {k : Cluster S} (h : x.cluster? c = some k) :
    x.members c = k.members := by
  rw [members, h, Option.elim_some]

theorem size_of_cluster? {c : ClusterId} {k : Cluster S} (h : x.cluster? c = some k) :
    x.size c = k.size := by
  rw [size, h, Option.elim_some]

section Congr

variable {x} {y : ClusterIndex S} {c d : ClusterId}

theorem members_congr (h : y.cluster? d = x.cluster? c) : y.members d = x.members c := by
  rw [members, members, h]

theorem isLive_congr (h : y.cluster? d = x.cluster? c) : y.isLive d = x.isLive c := by
  rw [isLive, isLive, h]

theorem size_congr (h : y.cluster? d = x.cluster? c) : y.size d = x.size c := by
  rw [size, size, h]

end Congr

theorem exists_cluster_of_mem {c : ClusterId} {id : ItemId} (h : id ∈ x.members c) :
    ∃ k, x.cluster? c = some k ∧ id ∈ k.members := by
  cases hk : x.cluster? c with
  | none => simp [members, hk] at h
  | some k => exact ⟨k, rfl, by rwa [x.members_of_cluster? hk] at h⟩

theorem filter_isLive_eq_some {c : ClusterId} {k : Cluster S} :
    (x.cluster? c).filter Cluster.isLive = some k ↔ x.cluster? c = some k ∧ k.isLive = true :=
  Option.filter_eq_some_iff

theorem filter_isLive_eq_none {c : ClusterId} :
    (x.cluster? c).filter Cluster.isLive = none ↔ x.isLive c = false := by
  rw [Option.filter_eq_none_iff, ← Bool.not_eq_true, isLive_iff]
  constructor
  · rintro h ⟨k, hk, hl⟩
    exact h k hk hl
  · exact fun h k hk hl => h ⟨k, hk, hl⟩

theorem clusterId_eq {c d : ClusterId} (h : c.number = d.number) : c = d := by
  obtain ⟨c⟩ := c
  obtain ⟨d⟩ := d
  exact congrArg ClusterId.mk h

/-- The record behind a handle once a slot was set. -/
theorem join_getElem?_setIfInBounds (slots : Array (Option (Cluster S))) (c d : ClusterId)
    (k : Option (Cluster S)) (h : c.number < slots.size) :
    ((slots.setIfInBounds c.number k)[d.number]?).join =
      if d = c then k else (slots[d.number]?).join := by
  rw [Array.getElem?_setIfInBounds]
  by_cases hd : d = c
  · subst hd
    simp [h]
  · have hn : ¬c.number = d.number := fun e => hd (clusterId_eq e.symm)
    simp [hd, hn]

theorem cluster?_update {c : ClusterId} (h : c.number < x.slots.size) (k : Cluster S)
    (d : ClusterId) : (x.update c k).cluster? d = if d = c then some k else x.cluster? d :=
  join_getElem?_setIfInBounds x.slots c d (some k) h

/-- Nor do other records change when the links do. -/
theorem cluster?_relink {c : ClusterId} {k : Cluster S} (h : x.cluster? c = some k)
    (links : LinkGraph) (k' : Cluster S) (d : ClusterId) :
    (update { x with links := links } c k').cluster? d = if d = c then some k' else x.cluster? d :=
  cluster?_update { x with links := links } (x.issued_of_cluster? h) k' d

theorem cluster?_modify (c : ClusterId) (f : Cluster S → Cluster S) (d : ClusterId) :
    (x.modify c f).cluster? d = if d = c then (x.cluster? c).map f else x.cluster? d := by
  unfold modify
  cases hk : x.cluster? c with
  | none =>
    by_cases hd : d = c
    · simp [hd, hk]
    · simp [hd]
  | some k => exact x.cluster?_update (x.issued_of_cluster? hk) (f k) d

theorem owners_modify (c : ClusterId) (f : Cluster S → Cluster S) :
    (x.modify c f).owners = x.owners := by
  unfold modify
  split <;> rfl

theorem clusterOf_modify (c : ClusterId) (f : Cluster S → Cluster S) (id : ItemId) :
    (x.modify c f).clusterOf id = x.clusterOf id := by
  rw [clusterOf, clusterOf, owners_modify]

theorem links_modify (c : ClusterId) (f : Cluster S → Cluster S) :
    (x.modify c f).links = x.links := by
  unfold modify
  split <;> rfl

theorem config_modify (c : ClusterId) (f : Cluster S → Cluster S) :
    (x.modify c f).config = x.config := by
  unfold modify
  split <;> rfl

theorem slots_size_modify (c : ClusterId) (f : Cluster S → Cluster S) :
    (x.modify c f).slots.size = x.slots.size := by
  unfold modify
  split
  · exact Array.size_setIfInBounds
  · rfl

theorem getElem?_insert_id (owners : ExtTreeMap ItemId ClusterId) (a id : ItemId) (c : ClusterId) :
    (owners.insert a c)[id]? = if id = a then some c else owners[id]? := by
  rw [ExtTreeMap.getElem?_insert]
  simp only [Std.LawfulEqCmp.compare_eq_iff_eq, eq_comm (a := id)]

theorem getElem?_erase_id (owners : ExtTreeMap ItemId ClusterId) (a id : ItemId) :
    (owners.erase a)[id]? = if id = a then none else owners[id]? := by
  rw [ExtTreeMap.getElem?_erase]
  simp only [Std.LawfulEqCmp.compare_eq_iff_eq, eq_comm (a := id)]

/-- A fold that hands every listed id to one cluster. -/
theorem getElem?_foldl_insert (ids : List ItemId) (c : ClusterId)
    (owners : ExtTreeMap ItemId ClusterId) (id : ItemId) :
    (ids.foldl (fun owners id => owners.insert id c) owners)[id]? =
      if id ∈ ids then some c else owners[id]? := by
  induction ids generalizing owners with
  | nil => rfl
  | cons a ids ih =>
    rw [List.foldl_cons, ih, getElem?_insert_id]
    by_cases h : id ∈ ids
    · simp [h]
    · by_cases ha : id = a <;> simp [h, ha]

/-- A fold that takes every listed id from one cluster, and from no other. -/
theorem getElem?_foldl_erase (ids : List ItemId) (c : ClusterId)
    (owners : ExtTreeMap ItemId ClusterId) (id : ItemId) :
    (ids.foldl (fun owners id => if owners[id]? = some c then owners.erase id else owners)
      owners)[id]? = if id ∈ ids ∧ owners[id]? = some c then none else owners[id]? := by
  induction ids generalizing owners with
  | nil => simp
  | cons a ids ih =>
    have hstep : (if owners[a]? = some c then owners.erase a else owners)[id]? =
        if id = a ∧ owners[id]? = some c then none else owners[id]? := by
      by_cases ha : id = a
      · subst ha
        by_cases hc : owners[id]? = some c
        · rw [if_pos hc, getElem?_erase_id]
          simp [hc]
        · simp [hc]
      · split
        · simp [ha, getElem?_erase_id]
        · simp [ha]
    rw [List.foldl_cons, ih, hstep]
    by_cases hc : owners[id]? = some c
    · by_cases ha : id = a <;> simp [hc, ha]
    · simp [hc]

/-- A created cluster has the next handle and the item alone. -/
theorem cluster?_getOrCreate {id : ItemId} (item : ClusterItem S) (h : x.clusterOf id = none)
    (d : ClusterId) :
    (x.getOrCreate id item).1.cluster? d =
      if d = ⟨x.slots.size⟩ then some (.ofItem id item) else x.cluster? d := by
  unfold getOrCreate
  rw [h]
  show ((x.slots.push (some (Cluster.ofItem id item)))[d.number]?).join = _
  rw [Array.getElem?_push]
  by_cases hd : d = ⟨x.slots.size⟩
  · simp [hd]
  · have hn : ¬d.number = x.slots.size := fun e => hd (clusterId_eq e)
    rw [if_neg hn, if_neg hd]
    rfl

theorem clusterOf_getOrCreate {id : ItemId} (item : ClusterItem S) (h : x.clusterOf id = none)
    (id' : ItemId) :
    (x.getOrCreate id item).1.clusterOf id' =
      if id' = id then some ⟨x.slots.size⟩ else x.clusterOf id' := by
  unfold getOrCreate
  rw [h]
  show (x.owners.insert id ⟨x.slots.size⟩)[id']? = _
  exact getElem?_insert_id ..

section Infer

variable {x} {c : ClusterId} {id : ItemId}

theorem infer_eq_skip_iff :
    x.infer c id = .skip ↔ x.clusterOf id = some c ∨ x.links.contains c id = true := by
  unfold infer
  split
  · next h => exact iff_of_true rfl h
  · next h => exact iff_of_false nofun h

end Infer

/-- A merge that does nothing: of a cluster with itself, or with one that is not live. -/
theorem merge_eq_self {into other : ClusterId}
    (h : into = other ∨ x.isLive into = false ∨ x.isLive other = false) :
    x.merge into other = x := by
  unfold merge
  split
  · rfl
  · next hne =>
    rcases h with h | h | h
    · exact absurd h hne
    · rw [x.filter_isLive_eq_none.mpr h]
    · rw [x.filter_isLive_eq_none.mpr h]
      split
      · next heq => cases heq
      · rfl

/-- A merge of two live clusters: `k` takes over `a`. -/
theorem merge_eq {into other : ClusterId} {k a : Cluster S} (hne : into ≠ other)
    (hk : x.cluster? into = some k) (hkl : k.isLive = true)
    (ha : x.cluster? other = some a) (hal : a.isLive = true) :
    x.merge into other =
      { x with
        slots := (x.slots.setIfInBounds other.number none).setIfInBounds into.number
          (some (k.absorb x.config.compressionThreshold a))
        owners := a.members.foldl (fun owners id => owners.insert id into) x.owners
        links := x.links.absorb into other } := by
  unfold merge
  rw [if_neg hne, x.filter_isLive_eq_some.mpr ⟨hk, hkl⟩, x.filter_isLive_eq_some.mpr ⟨ha, hal⟩]

/-- What a merge of two live clusters leaves. -/
structure Merged (x : ClusterIndex S) (into other : ClusterId) (k a : Cluster S)
    (y : ClusterIndex S) : Prop where
  config : y.config = x.config
  issued : y.slots.size = x.slots.size
  record : ∀ d, y.cluster? d =
    if d = into then some (k.absorb x.config.compressionThreshold a)
    else if d = other then none else x.cluster? d
  owner : ∀ id, y.clusterOf id = if id ∈ a.members then some into else x.clusterOf id
  links : y.links = x.links.absorb into other

theorem merged_merge {into other : ClusterId} {k a : Cluster S} (hne : into ≠ other)
    (hk : x.cluster? into = some k) (hkl : k.isLive = true)
    (ha : x.cluster? other = some a) (hal : a.isLive = true) :
    Merged x into other k a (x.merge into other) := by
  rw [x.merge_eq hne hk hkl ha hal]
  refine ⟨rfl, by simp, fun d => ?_, fun id => getElem?_foldl_insert .., rfl⟩
  show ((((x.slots.setIfInBounds other.number none).setIfInBounds into.number
    (some (k.absorb x.config.compressionThreshold a))))[d.number]?).join = _
  have hi : into.number < (x.slots.setIfInBounds other.number none).size := by
    rw [Array.size_setIfInBounds]
    exact x.issued_of_cluster? hk
  -- Both handles were issued, so both slots are within bounds.
  rw [join_getElem?_setIfInBounds _ into d _ hi,
    join_getElem?_setIfInBounds x.slots other d none (x.issued_of_cluster? ha)]
  rfl

namespace Merged

variable {x} {y : ClusterIndex S} {into other d : ClusterId} {k a : Cluster S}

theorem record_into (h : Merged x into other k a y) :
    y.cluster? into = some (k.absorb x.config.compressionThreshold a) := by
  rw [h.record, if_pos rfl]

theorem record_other (h : Merged x into other k a y) (hne : into ≠ other) :
    y.cluster? other = none := by
  rw [h.record, if_neg hne.symm, if_pos rfl]

theorem record_of_ne (h : Merged x into other k a y) (hi : d ≠ into) (ho : d ≠ other) :
    y.cluster? d = x.cluster? d := by
  rw [h.record, if_neg hi, if_neg ho]

end Merged

/-- A merge either does nothing or merges two live clusters. -/
theorem merge_cases (into other : ClusterId) :
    x.merge into other = x ∨ ∃ k a, into ≠ other ∧ x.cluster? into = some k ∧ k.isLive = true ∧
      x.cluster? other = some a ∧ a.isLive = true ∧
      Merged x into other k a (x.merge into other) := by
  by_cases hne : into = other
  · exact Or.inl (x.merge_eq_self (Or.inl hne))
  cases hi : x.isLive into with
  | false => exact Or.inl (x.merge_eq_self (Or.inr (Or.inl hi)))
  | true =>
    cases ho : x.isLive other with
    | false => exact Or.inl (x.merge_eq_self (Or.inr (Or.inr ho)))
    | true =>
      obtain ⟨k, hk, hkl⟩ := x.isLive_iff.mp hi
      obtain ⟨a, ha, hal⟩ := x.isLive_iff.mp ho
      exact Or.inr ⟨k, a, hne, hk, hkl, ha, hal, x.merged_merge hne hk hkl ha hal⟩

theorem isLive_modify (c : ClusterId) (f : Cluster S → Cluster S)
    (hcount : ∀ k, (f k).count = k.count) (d : ClusterId) :
    (x.modify c f).isLive d = x.isLive d := by
  unfold isLive
  rw [x.cluster?_modify]
  split
  · next hd =>
    rw [hd]
    cases hk : x.cluster? c with
    | none => rfl
    | some k => simp [Cluster.isLive, hcount]
  · rfl

theorem size_modify (c : ClusterId) (f : Cluster S → Cluster S)
    (hcount : ∀ k, (f k).count = k.count) (d : ClusterId) :
    (x.modify c f).size d = x.size d := by
  unfold size
  rw [x.cluster?_modify]
  split
  · next hd =>
    rw [hd]
    cases hk : x.cluster? c with
    | none => rfl
    | some k => simp [Cluster.size, hcount]
  · rfl

/-- What recording a link can do: nothing, keep a link to an owned id, or link and count. -/
theorem recordLink_cases (c : ClusterId) (contact : Contact S) (id : ItemId) :
    ((x.isLive c = false ∨ x.links.contains c id = true) ∧
      x.recordLink c contact id = (x, false)) ∨
    ∃ k, x.cluster? c = some k ∧ k.isLive = true ∧ x.links.contains c id = false ∧
      ((x.clusterOf id = some c ∧
          x.recordLink c contact id = ({ x with links := (x.links.link c id).1 }, false)) ∨
        (x.clusterOf id ≠ some c ∧ x.recordLink c contact id =
          ({ x with links := (x.links.link c id).1 }.update c
            (k.reach x.config.compressionThreshold id contact), true))) := by
  unfold recordLink
  split
  · next hdead => exact Or.inl ⟨Or.inl (x.filter_isLive_eq_none.mp hdead), rfl⟩
  · next k hk =>
    obtain ⟨hk, hlive⟩ := x.filter_isLive_eq_some.mp hk
    have hnew := x.links.link_snd c id
    split
    · next heq =>
      rw [heq] at hnew
      exact Or.inl ⟨Or.inr (by simpa using hnew.symm), rfl⟩
    · next links heq =>
      have hnew : x.links.contains c id = false := by
        rw [heq] at hnew
        simpa using hnew
      have hlinks : links = (x.links.link c id).1 := by rw [heq]
      refine Or.inr ⟨k, hk, hlive, hnew, ?_⟩
      subst hlinks
      by_cases hown : x.clusterOf id = some c
      · exact Or.inl ⟨hown, by rw [if_pos hown]⟩
      · exact Or.inr ⟨hown, by rw [if_neg hown]⟩

theorem owners_recordLink (c : ClusterId) (contact : Contact S) (id : ItemId) :
    (x.recordLink c contact id).1.owners = x.owners := by
  rcases x.recordLink_cases c contact id with ⟨-, he⟩ | ⟨k, -, -, -, ⟨-, he⟩ | ⟨-, he⟩⟩
  all_goals rw [he]
  rfl

theorem clusterOf_recordLink (c : ClusterId) (contact : Contact S) (t id : ItemId) :
    (x.recordLink c contact t).1.clusterOf id = x.clusterOf id := by
  rw [clusterOf, clusterOf, owners_recordLink]

/-- Recording a link leaves every other record alone. -/
theorem cluster?_recordLink_of_ne {c d : ClusterId} (contact : Contact S) (id : ItemId)
    (hd : d ≠ c) : (x.recordLink c contact id).1.cluster? d = x.cluster? d := by
  rcases x.recordLink_cases c contact id with ⟨-, he⟩ | ⟨k, hk, -, -, ⟨-, he⟩ | ⟨-, he⟩⟩
  · rw [he]
  · rw [he]
    rfl
  · rw [he, x.cluster?_relink hk, if_neg hd]

theorem slots_size_recordLink (c : ClusterId) (contact : Contact S) (id : ItemId) :
    (x.recordLink c contact id).1.slots.size = x.slots.size := by
  rcases x.recordLink_cases c contact id with ⟨-, he⟩ | ⟨k, -, -, -, ⟨-, he⟩ | ⟨-, he⟩⟩
  all_goals rw [he]
  exact Array.size_setIfInBounds

theorem config_recordLink (c : ClusterId) (contact : Contact S) (id : ItemId) :
    (x.recordLink c contact id).1.config = x.config := by
  rcases x.recordLink_cases c contact id with ⟨-, he⟩ | ⟨k, -, -, -, ⟨-, he⟩ | ⟨-, he⟩⟩
  all_goals rw [he]
  rfl

/-- Recording a link revives no cluster. -/
theorem isLive_recordLink (c : ClusterId) (contact : Contact S) (id : ItemId) {d : ClusterId}
    (hd : x.isLive d = false) : (x.recordLink c contact id).1.isLive d = false := by
  rcases x.recordLink_cases c contact id with ⟨-, he⟩ | ⟨k, hk, hlive, -, ⟨-, he⟩ | ⟨-, he⟩⟩
  · exact he.symm ▸ hd
  · exact he.symm ▸ hd
  -- Only a live cluster is changed, and `d` is not live.
  · have hdc : d ≠ c := by
      intro e
      rw [e, x.isLive_of_cluster? hk, hlive] at hd
      cases hd
    rw [he]
    unfold isLive
    rw [x.cluster?_relink hk, if_neg hdc]
    exact hd

theorem cluster?_invalidate {c : ClusterId} {k : Cluster S} (h : x.cluster? c = some k)
    (d : ClusterId) :
    (x.invalidate c).cluster? d =
      if d = c then some { k with count := -1, geometry := none, points := ∅ }
      else x.cluster? d := by
  unfold invalidate
  rw [h]
  exact join_getElem?_setIfInBounds x.slots c d _ (x.issued_of_cluster? h)

theorem clusterOf_invalidate {c : ClusterId} {k : Cluster S} (h : x.cluster? c = some k)
    (id : ItemId) :
    (x.invalidate c).clusterOf id =
      if id ∈ k.members ∧ x.clusterOf id = some c then none else x.clusterOf id := by
  unfold invalidate
  rw [h]
  exact getElem?_foldl_erase ..

theorem invalidate_eq_self {c : ClusterId} (h : x.cluster? c = none) : x.invalidate c = x := by
  unfold invalidate
  rw [h]

theorem slots_size_invalidate (c : ClusterId) :
    (x.invalidate c).slots.size = x.slots.size := by
  unfold invalidate
  split
  · rfl
  · exact Array.size_setIfInBounds

theorem slots_size_getOrCreate (id : ItemId) (item : ClusterItem S) :
    x.slots.size ≤ (x.getOrCreate id item).1.slots.size := by
  unfold getOrCreate
  split
  · exact Nat.le_refl _
  · simp

theorem members_eq_nil {c : ClusterId} (h : x.cluster? c = none) : x.members c = [] := by
  rw [members, h]
  rfl

theorem cluster?_empty (config : ClusterConfig) (c : ClusterId) :
    (empty config : ClusterIndex S).cluster? c = none :=
  cluster?_eq_none_of_not_issued _ (Nat.not_lt_zero _)

theorem clusterOf_empty (config : ClusterConfig) (id : ItemId) :
    (empty config : ClusterIndex S).clusterOf id = none := by
  show (∅ : ExtTreeMap ItemId ClusterId)[id]? = none
  exact ExtTreeMap.getElem?_empty

theorem members_empty (config : ClusterConfig) (c : ClusterId) :
    (empty config : ClusterIndex S).members c = [] :=
  members_eq_nil _ (cluster?_empty config c)

theorem members_modify (c : ClusterId) (f : Cluster S → Cluster S)
    (hmem : ∀ k, (f k).members = k.members) (d : ClusterId) :
    (x.modify c f).members d = x.members d := by
  unfold members
  rw [x.cluster?_modify]
  split
  · next hd =>
    rw [hd]
    cases x.cluster? c with
    | none => rfl
    | some k => exact hmem k
  · rfl

theorem members_recordLink (c : ClusterId) (contact : Contact S) (id : ItemId) (d : ClusterId) :
    (x.recordLink c contact id).1.members d = x.members d := by
  rcases x.recordLink_cases c contact id with ⟨-, he⟩ | ⟨k, hk, -, -, ⟨-, he⟩ | ⟨-, he⟩⟩
  all_goals rw [he]
  · rfl
  · unfold members
    rw [x.cluster?_relink hk]
    split
    · next hd => rw [hd, hk, Option.elim_some, Option.elim_some, Cluster.members_reach]
    · rfl

theorem contains_recordLink {c : ClusterId} {contact : Contact S} {id : ItemId} {s : ClusterId}
    {t : ItemId} (h : (x.recordLink c contact id).1.links.contains s t = true) :
    (s = c ∧ t = id) ∨ x.links.contains s t = true := by
  rcases x.recordLink_cases c contact id with ⟨-, he⟩ | ⟨k, -, -, -, ⟨-, he⟩ | ⟨-, he⟩⟩
  · rw [he] at h
    exact Or.inr h
  all_goals
    rw [he] at h
    exact (LinkGraph.contains_link ..).mp h

theorem members_invalidate (c d : ClusterId) : (x.invalidate c).members d = x.members d := by
  cases hk : x.cluster? c with
  | none => rw [x.invalidate_eq_self hk]
  | some k =>
    unfold members
    rw [x.cluster?_invalidate hk]
    split
    · next hd => rw [hd, hk, Option.elim_some, Option.elim_some]
    · rfl

theorem contains_of_contains_invalidate {c s : ClusterId} {t : ItemId}
    (h : (x.invalidate c).links.contains s t = true) : x.links.contains s t = true := by
  unfold invalidate at h
  split at h
  · exact h
  · rw [LinkGraph.contains_removeCluster] at h
    exact LinkGraph.contains_of_contains_foldl_detach _ _ _ _ h.1

theorem links_getOrCreate (id : ItemId) (item : ClusterItem S) :
    (x.getOrCreate id item).1.links = x.links := by
  unfold getOrCreate
  split <;> rfl

theorem getOrCreate_eq_self {id : ItemId} (item : ClusterItem S) {c : ClusterId}
    (h : x.clusterOf id = some c) : (x.getOrCreate id item).1 = x := by
  unfold getOrCreate
  rw [h]

theorem members_getOrCreate {id : ItemId} (item : ClusterItem S) (h : x.clusterOf id = none)
    (d : ClusterId) : (x.getOrCreate id item).1.members d =
      if d = ⟨x.slots.size⟩ then [id] else x.members d := by
  unfold members
  rw [x.cluster?_getOrCreate item h]
  split <;> rfl

theorem config_getOrCreate (id : ItemId) (item : ClusterItem S) :
    (x.getOrCreate id item).1.config = x.config := by
  unfold getOrCreate
  split <;> rfl

theorem config_merge (into other : ClusterId) : (x.merge into other).config = x.config := by
  rcases x.merge_cases into other with he | ⟨k, a, -, -, -, -, -, hm⟩
  · rw [he]
  · exact hm.config

theorem config_mergeReachable (c : ClusterId) (prune : Bool) :
    (x.mergeReachable c prune).config = x.config := by
  -- Links do not matter, so it holds for merges from any state.
  have hall : ∀ (ds : List ClusterId) (y : ClusterIndex S), (y.mergeAll c ds).config = y.config := by
    intro ds
    induction ds with
    | nil => exact fun _ => rfl
    | cons d ds ih => exact fun y => (ih (y.merge c d)).trans (y.config_merge c d)
  exact hall _ _

theorem config_addLink (c : ClusterId) (contact : Contact S) (id : ItemId) :
    (x.addLink c contact id).1.config = x.config := by
  have hr := x.config_recordLink c contact id
  unfold addLink
  dsimp only
  split
  · exact (config_mergeReachable _ c false).trans hr
  · exact hr

theorem config_invalidate (c : ClusterId) : (x.invalidate c).config = x.config := by
  unfold invalidate
  split <;> rfl

/-- The settings never change. -/
theorem config_apply (op : Operation S) : (x.apply op).config = x.config := by
  cases op with
  | create id item => exact x.config_getOrCreate id item
  | link c contact id => exact x.config_addLink c contact id
  | finish c => exact (config_modify _ c _).trans (x.config_mergeReachable c true)
  | invalidate c => exact x.config_invalidate c
  | clear c => exact config_modify _ c _
  | merge into other => exact x.config_merge into other

theorem config_after (config : ClusterConfig) (ops : List (Operation S)) :
    (after config ops).config = config := by
  have hfold : ∀ (ops : List (Operation S)) (x : ClusterIndex S),
      (ops.foldl apply x).config = x.config := by
    intro ops
    induction ops with
    | nil => exact fun _ => rfl
    | cons op ops ih => exact fun x => (ih (x.apply op)).trans (x.config_apply op)
  exact hfold ops _

end ClusterIndex

end DensityClustering

import Mathlib.Logic.Relation
import DensityClustering.Proofs.Cluster.Overdraft

/-!
How the record behind a handle comes from the one that was there before. It is fed by links and by
clusters that it takes over, in any number and order, and it is finished; only invalidating and
clearing its own handle take anything from it.
-/

namespace DensityClustering

open Relation (ReflTransGen)

namespace Cluster

variable {S : Type} [Scalar S]

/-- One change of a record that takes nothing back. -/
inductive Step (threshold : Nat) : Cluster S → Cluster S → Prop
  | reach {k : Cluster S} (id : ItemId) (contact : Contact S) (hlive : k.isLive = true) :
      Step threshold k (k.reach threshold id contact)
  | absorb {k a : Cluster S} (hlive : k.isLive = true) (halive : a.isLive = true) :
      Step threshold k (k.absorb threshold a)
  | finish (k : Cluster S) : Step threshold k { k with finished := true }

/-- Any number of changes, one after the other. -/
abbrev Steps (threshold : Nat) : Cluster S → Cluster S → Prop := ReflTransGen (Step threshold)

/-- What every change keeps, any number of them keep. -/
theorem Steps.keeps {threshold : Nat} {P : Cluster S → Prop}
    (hstep : ∀ k k' : Cluster S, k.Step threshold k' → P k → P k') {k k' : Cluster S}
    (h : k.Steps threshold k') (hk : P k) : P k' := by
  induction h with
  | refl => exact hk
  | tail _ hlast ih => exact hstep _ _ hlast ih

/-- The record of a cleared handle. -/
def cleared (k : Cluster S) : Cluster S := { k with geometry := none, points := ∅ }

/-- The record of an invalidated handle. -/
def invalidated (k : Cluster S) : Cluster S :=
  { k with count := -1, geometry := none, points := ∅ }

end Cluster

namespace ClusterIndex

variable {S : Type} [Scalar S]

/-- Every record that is left comes from the one before it by such changes. -/
structure Evolves (x y : ClusterIndex S) : Prop where
  config : y.config = x.config
  issued : x.slots.size ≤ y.slots.size
  record : ∀ c k', c.number < x.slots.size → y.cluster? c = some k' →
    ∃ k, x.cluster? c = some k ∧ k.Steps x.config.compressionThreshold k'

namespace Evolves

variable {x y z : ClusterIndex S} {c : ClusterId}

/-- The records are the same. -/
theorem of_same (hconfig : y.config = x.config) (hsize : y.slots.size = x.slots.size)
    (h : ∀ c, y.cluster? c = x.cluster? c) : Evolves x y :=
  ⟨hconfig, hsize.ge, fun c k' _ hk => ⟨k', by rw [← h, hk], .refl⟩⟩

theorem refl (x : ClusterIndex S) : Evolves x x := of_same rfl rfl fun _ => rfl

theorem trans (h : Evolves x y) (h' : Evolves y z) : Evolves x z := by
  refine ⟨h'.config.trans h.config, h.issued.trans h'.issued, fun c k'' hc hk'' => ?_⟩
  obtain ⟨k', hk', hlater⟩ := h'.record c k'' (hc.trans_le h.issued) hk''
  obtain ⟨k, hk, hfirst⟩ := h.record c k' hc hk'
  rw [h.config] at hlater
  exact ⟨k, hk, hfirst.trans hlater⟩

variable (x)

/-- One record is changed. -/
theorem update {k k' : Cluster S} (hk : x.cluster? c = some k)
    (hstep : k.Step x.config.compressionThreshold k') : Evolves x (x.update c k') := by
  refine ⟨rfl, Array.size_setIfInBounds.ge, fun d r _ hr => ?_⟩
  rw [x.cluster?_update (x.issued_of_cluster? hk)] at hr
  split at hr
  · next hd =>
    cases hr
    exact ⟨k, by rw [hd, hk], .single hstep⟩
  · exact ⟨r, hr, .refl⟩

theorem getOrCreate (id : ItemId) (item : ClusterItem S) :
    Evolves x (x.getOrCreate id item).1 := by
  cases hid : x.clusterOf id with
  | some c =>
    rw [x.getOrCreate_eq_self item hid]
    exact refl x
  | none =>
    refine ⟨x.config_getOrCreate id item, x.slots_size_getOrCreate id item, fun c k hc hk => ?_⟩
    have hne : c ≠ ⟨x.slots.size⟩ := fun e => Nat.lt_irrefl _ (e ▸ hc)
    rw [x.cluster?_getOrCreate item hid, if_neg hne] at hk
    exact ⟨k, hk, .refl⟩

theorem merge (into other : ClusterId) : Evolves x (x.merge into other) := by
  rcases x.merge_cases into other with he | ⟨k, a, -, hk, hkl, -, hal, hm⟩
  · rw [he]
    exact refl x
  · refine ⟨hm.config, hm.issued.ge, fun c r _ hr => ?_⟩
    rw [hm.record] at hr
    split at hr
    · next hc =>
      cases hr
      exact ⟨k, by rw [hc, hk], .single (.absorb hkl hal)⟩
    · split at hr
      · cases hr
      · exact ⟨r, hr, .refl⟩

theorem mergeAll (c : ClusterId) (others : List ClusterId) : Evolves x (x.mergeAll c others) := by
  unfold ClusterIndex.mergeAll
  induction others generalizing x with
  | nil => exact refl x
  | cons d others ih => exact (merge x c d).trans (ih (x.merge c d))

theorem mergeReachable (c : ClusterId) (prune : Bool) : Evolves x (x.mergeReachable c prune) :=
  have hlinks : Evolves x { x with links := (x.pass c prune).links } :=
    of_same rfl rfl fun _ => rfl
  hlinks.trans (mergeAll _ c _)

theorem recordLink (c : ClusterId) (contact : Contact S) (id : ItemId) :
    Evolves x (x.recordLink c contact id).1 := by
  have hlinks : Evolves x { x with links := (x.links.link c id).1 } :=
    of_same rfl rfl fun _ => rfl
  rcases x.recordLink_cases c contact id with ⟨-, he⟩ | ⟨k, hk, hlive, -, ⟨-, he⟩ | ⟨-, he⟩⟩
  all_goals rw [he]
  · exact refl x
  · exact hlinks
  · exact hlinks.trans (update _ hk (.reach id contact hlive))

theorem addLink (c : ClusterId) (contact : Contact S) (id : ItemId) :
    Evolves x (x.addLink c contact id).1 := by
  have hrecord := recordLink x c contact id
  unfold ClusterIndex.addLink
  dsimp only
  split
  · exact hrecord.trans (mergeReachable _ c false)
  · exact hrecord

theorem finish (c : ClusterId) : Evolves x (x.finish c) := by
  refine (mergeReachable x c true).trans ?_
  unfold ClusterIndex.finish ClusterIndex.modify
  split
  · next k hk => exact update _ hk (.finish k)
  · exact refl _

end Evolves

variable {x : ClusterIndex S} {op : Operation S} {c : ClusterId} {k k' : Cluster S}

/-- A record behind a handle that was issued before comes from the one that was there, by changes
that take nothing back unless the operation is on that very handle and does. -/
theorem record_apply (hc : c.number < x.slots.size) (hk' : (x.apply op).cluster? c = some k') :
    ∃ k, x.cluster? c = some k ∧ (k.Steps x.config.compressionThreshold k' ∨
      (op = .invalidate c ∧ k' = k.invalidated) ∨ (op = .clear c ∧ k' = k.cleared)) := by
  have hkeep (h : Evolves x (x.apply op)) :
      ∃ k, x.cluster? c = some k ∧ (k.Steps x.config.compressionThreshold k' ∨
        (op = .invalidate c ∧ k' = k.invalidated) ∨ (op = .clear c ∧ k' = k.cleared)) := by
    obtain ⟨k, hk, hsteps⟩ := h.record c k' hc hk'
    exact ⟨k, hk, Or.inl hsteps⟩
  cases op with
  | create id item => exact hkeep (.getOrCreate x id item)
  | link d contact id => exact hkeep (.addLink x d contact id)
  | finish d => exact hkeep (.finish x d)
  | merge into other => exact hkeep (.merge x into other)
  | invalidate d =>
    cases hd : x.cluster? d with
    | none => exact hkeep (by rw [apply, x.invalidate_eq_self hd]; exact .refl x)
    | some r =>
      rw [apply, x.cluster?_invalidate hd] at hk'
      split at hk'
      · next hcd =>
        cases hk'
        exact ⟨r, by rw [hcd, hd], Or.inr (Or.inl ⟨by rw [hcd], rfl⟩)⟩
      · exact ⟨k', hk', Or.inl .refl⟩
  | clear d =>
    rw [apply, clear, cluster?_modify] at hk'
    split at hk'
    · next hcd =>
      obtain ⟨k, hk, he⟩ := Option.map_eq_some_iff.mp hk'
      exact ⟨k, by rw [hcd]; exact hk, Or.inr (Or.inr ⟨by rw [hcd], he.symm⟩)⟩
    · exact ⟨k', hk', Or.inl .refl⟩

/-- No handle is taken back. -/
theorem slots_size_le_apply (x : ClusterIndex S) (op : Operation S) :
    x.slots.size ≤ (x.apply op).slots.size := by
  by_cases hop : ∃ id item, op = .create id item
  · obtain ⟨id, item, rfl⟩ := hop
    exact x.slots_size_getOrCreate id item
  · exact (slots_size_apply fun id item he => hop ⟨id, item, he⟩).ge

/-- What created records have and every change keeps, every record has. -/
theorem record_after {P : Cluster S → Prop} (config : ClusterConfig)
    (hcreated : ∀ id item, P (.ofItem id item))
    (hstep : ∀ k k' : Cluster S, k.Step config.compressionThreshold k' → P k → P k')
    (hinvalid : ∀ k : Cluster S, P k → P k.invalidated)
    (hclear : ∀ k : Cluster S, P k → P k.cleared) (ops : List (Operation S)) :
    ∀ c k, (after config ops).cluster? c = some k → P k := by
  induction ops using List.reverseRecOn with
  | nil =>
    intro c k hk
    rw [after, List.foldl_nil, cluster?_empty] at hk
    cases hk
  | append_singleton ops op ih =>
    intro c k' hk'
    rw [after_concat] at hk'
    by_cases hc : c.number < (after config ops : ClusterIndex S).slots.size
    · obtain ⟨k, hk, hsteps | ⟨-, rfl⟩ | ⟨-, rfl⟩⟩ := record_apply hc hk'
      · rw [config_after] at hsteps
        exact hsteps.keeps hstep (ih c k hk)
      · exact hinvalid k (ih c k hk)
      · exact hclear k (ih c k hk)
    · obtain ⟨id, item, -, rfl⟩ := record_apply_of_fresh hc hk'
      exact hcreated id item

end ClusterIndex

end DensityClustering

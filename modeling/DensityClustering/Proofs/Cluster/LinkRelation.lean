import Mathlib.Tactic.Tauto
import DensityClustering.Cluster.Links

/-!
The link graph as a relation between clusters and ids. `contains` reads the rows by cluster, and each
operation is described by what it does to `contains`; `Mirrored` says that the rows by id hold the
same pairs, which is what deleting the links to an id relies on.
-/

namespace DensityClustering

open Std (ExtTreeMap ExtTreeSet)

namespace Rows

variable {α β : Type} [Ord α] [Std.TransOrd α] [Ord β] [Std.TransOrd β]

theorem mem_row_empty (a : α) (b : β) : b ∉ row (∅ : Rows α β) a := by
  simp [row]

variable [Std.LawfulEqOrd α]

theorem mem_row_erase (rows : Rows α β) (a a' : α) (b : β) :
    b ∈ row (rows.erase a) a' ↔ b ∈ row rows a' ∧ a' ≠ a := by
  unfold row
  rw [ExtTreeMap.getD_erase]
  by_cases h : a = a'
  · subst h
    simp
  · have h' : a' ≠ a := fun e => h e.symm
    simp [h, h']

variable [Std.LawfulEqOrd β]

theorem mem_row_add (rows : Rows α β) (a a' : α) (b b' : β) :
    b' ∈ row (add rows a b) a' ↔ (a' = a ∧ b' = b) ∨ b' ∈ row rows a' := by
  unfold row add
  rw [ExtTreeMap.getD_insert]
  by_cases h : a = a'
  · subst h
    simp only [Std.LawfulEqCmp.compare_eq_iff_eq, if_true, ExtTreeSet.mem_insert, true_and]
    exact or_congr_left eq_comm
  · have h' : a' ≠ a := fun e => h e.symm
    simp [h, h']

theorem mem_row_delete (rows : Rows α β) (a a' : α) (b b' : β) :
    b' ∈ row (delete rows a b) a' ↔ b' ∈ row rows a' ∧ ¬(a' = a ∧ b' = b) := by
  have hrest : ∀ c, c ∈ (row rows a).erase b ↔ c ∈ row rows a ∧ c ≠ b := fun c => by
    rw [ExtTreeSet.mem_erase, Ne, Std.LawfulEqCmp.compare_eq_iff_eq, and_comm, eq_comm]
  unfold delete
  by_cases hempty : ((row rows a).erase b).isEmpty = true
  -- An empty row is erased, which loses nothing but `b`.
  · have hnone : ∀ c, c ∉ (row rows a).erase b := fun c => by
      rw [ExtTreeSet.isEmpty_iff.mp hempty]
      exact ExtTreeSet.not_mem_empty
    simp only [hempty, if_true]
    rw [mem_row_erase]
    constructor
    · rintro ⟨h, hne⟩
      exact ⟨h, fun hc => hne hc.1⟩
    · rintro ⟨h, hc⟩
      refine ⟨h, fun ha => ?_⟩
      subst ha
      exact hnone b' ((hrest b').mpr ⟨h, fun hb => hc ⟨rfl, hb⟩⟩)
  · simp only [hempty]
    unfold row
    rw [if_neg (by simp), ExtTreeMap.getD_insert]
    by_cases h : a = a'
    · subst h
      simpa [row] using hrest b'
    · have h' : a' ≠ a := fun e => h e.symm
      simp [h, h']

/-- Deleting `b` from the rows of a list of keys. -/
theorem mem_row_foldl_delete (keys : List α) (rows : Rows α β) (b b' : β) (a : α) :
    b' ∈ row (keys.foldl (fun rows k => delete rows k b) rows) a ↔
      b' ∈ row rows a ∧ ¬(a ∈ keys ∧ b' = b) := by
  induction keys generalizing rows with
  | nil => simp
  | cons k keys ih =>
    rw [List.foldl_cons, ih, mem_row_delete, List.mem_cons]
    tauto

end Rows

namespace LinkGraph

variable (g : LinkGraph) (s s' into other : ClusterId) (t t' : ItemId)

/-- The rows by id hold the same pairs as the rows by cluster. -/
def Mirrored (g : LinkGraph) : Prop :=
  ∀ s t, t ∈ Rows.row g.forward s ↔ s ∈ Rows.row g.reverse t

theorem contains_iff_mem_row : g.contains s t = true ↔ t ∈ Rows.row g.forward s := Iff.rfl

theorem contains_empty : LinkGraph.empty.contains s t = false :=
  Bool.eq_false_iff.mpr (Rows.mem_row_empty s t)

theorem mem_targets : t ∈ g.targets s ↔ g.contains s t = true := by
  rw [targets, ExtTreeSet.mem_toList, contains_iff_mem_row]

theorem count_eq_zero_iff : g.count s = 0 ↔ ∀ t, g.contains s t = false := by
  rw [count, ← ExtTreeSet.eq_empty_iff_size_eq_zero, ExtTreeSet.eq_empty_iff_forall_contains]
  rfl

theorem link_snd : (g.link s t).2 = !g.contains s t := by
  unfold link
  split <;> simp_all

theorem unlink_snd : (g.unlink s t).2 = g.contains s t := by
  unfold unlink
  split <;> simp_all

theorem contains_link :
    (g.link s t).1.contains s' t' = true ↔ (s' = s ∧ t' = t) ∨ g.contains s' t' = true := by
  unfold link
  split
  · next h =>
    constructor
    · exact Or.inr
    · rintro (⟨rfl, rfl⟩ | h')
      · exact h
      · exact h'
  · exact Rows.mem_row_add ..

theorem contains_unlink :
    (g.unlink s t).1.contains s' t' = true ↔ g.contains s' t' = true ∧ ¬(s' = s ∧ t' = t) := by
  unfold unlink
  split
  · exact Rows.mem_row_delete ..
  · next h =>
    refine ⟨fun h' => ⟨h', ?_⟩, And.left⟩
    rintro ⟨rfl, rfl⟩
    exact h h'

theorem contains_unlink_of_ne {g : LinkGraph} {s s' : ClusterId} {t t' : ItemId}
    (h : ¬(s' = s ∧ t' = t)) : (g.unlink s t).1.contains s' t' = g.contains s' t' := by
  rw [Bool.eq_iff_iff, contains_unlink]
  exact and_iff_left h

theorem contains_unlink_self : (g.unlink s t).1.contains s t = false := by
  rw [← Bool.not_eq_true, contains_unlink]
  exact fun h => h.2 ⟨rfl, rfl⟩

theorem contains_removeCluster :
    (g.removeCluster s).1.contains s' t = true ↔ g.contains s' t = true ∧ s' ≠ s :=
  Rows.mem_row_erase ..

theorem contains_foldl_link (targets : List ItemId) :
    (targets.foldl (fun g target => (g.link into target).1) g).contains s t = true ↔
      (s = into ∧ t ∈ targets) ∨ g.contains s t = true := by
  induction targets generalizing g with
  | nil => simp
  | cons u targets ih =>
    rw [List.foldl_cons, ih, contains_link, List.mem_cons]
    tauto

/-- The links of `other` go to `into`, all others stay. -/
theorem contains_absorb :
    (g.absorb into other).contains s t = true ↔
      (s = into ∧ g.contains other t = true) ∨ (g.contains s t = true ∧ s ≠ other) := by
  unfold absorb
  simp only
  rw [contains_foldl_link, contains_removeCluster]
  show (s = into ∧ t ∈ g.targets other) ∨ _ ↔ _
  rw [mem_targets]

/-- Only links to `t` go; this needs both views, since the clusters are read from the rows by id. -/
theorem contains_detach (h : Mirrored g) :
    (g.detach t).contains s t' = true ↔ g.contains s t' = true ∧ t' ≠ t := by
  rw [contains_iff_mem_row, detach, Rows.mem_row_foldl_delete, ExtTreeSet.mem_toList,
    contains_iff_mem_row]
  constructor
  · rintro ⟨h₁, h₂⟩
    -- A link to `t` is in the rows by id too, so its cluster is among the keys.
    refine ⟨h₁, fun e => h₂ ⟨?_, e⟩⟩
    subst e
    exact (h s t').mp h₁
  · rintro ⟨h₁, h₂⟩
    exact ⟨h₁, fun h₃ => h₂ h₃.2⟩

theorem contains_of_contains_detach (h : (g.detach t).contains s t' = true) :
    g.contains s t' = true :=
  ((Rows.mem_row_foldl_delete ..).mp h).1

theorem contains_detach_of_ne (h : g.contains s t' = true) (hne : t' ≠ t) :
    (g.detach t).contains s t' = true :=
  (Rows.mem_row_foldl_delete ..).mpr ⟨h, fun e => hne e.2⟩

theorem contains_of_contains_foldl_detach (ids : List ItemId)
    (h : (ids.foldl detach g).contains s t = true) : g.contains s t = true := by
  induction ids generalizing g with
  | nil => exact h
  | cons id ids ih => exact contains_of_contains_detach g s id t (ih _ h)

theorem contains_foldl_detach_of_not_mem (ids : List ItemId) (h : g.contains s t = true)
    (hid : t ∉ ids) : (ids.foldl detach g).contains s t = true := by
  induction ids generalizing g with
  | nil => exact h
  | cons id ids ih =>
    rw [List.mem_cons, not_or] at hid
    exact ih _ (contains_detach_of_ne g s id t h hid.1) hid.2

theorem mirrored_empty : Mirrored .empty := fun s t =>
  iff_of_false (Rows.mem_row_empty s t) (Rows.mem_row_empty t s)

theorem mirrored_link (h : Mirrored g) : Mirrored (g.link s t).1 := by
  unfold link
  split
  · exact h
  · intro a b
    rw [Rows.mem_row_add, Rows.mem_row_add, h a b, and_comm (a := a = s)]

theorem mirrored_unlink (h : Mirrored g) : Mirrored (g.unlink s t).1 := by
  unfold unlink
  split
  · intro a b
    rw [Rows.mem_row_delete, Rows.mem_row_delete, h a b, and_comm (a := a = s)]
  · exact h

theorem mirrored_detach (h : Mirrored g) : Mirrored (g.detach t) := by
  intro a b
  rw [← contains_iff_mem_row, contains_detach g a t b h, detach, Rows.mem_row_erase,
    contains_iff_mem_row, h a b]

theorem mirrored_foldl_detach (ids : List ItemId) (h : Mirrored g) :
    Mirrored (ids.foldl detach g) := by
  induction ids generalizing g with
  | nil => exact h
  | cons id ids ih => exact ih _ (mirrored_detach g id h)

theorem contains_foldl_detach (ids : List ItemId) (h : Mirrored g) :
    (ids.foldl detach g).contains s t = true ↔ g.contains s t = true ∧ t ∉ ids := by
  induction ids generalizing g with
  | nil => simp
  | cons id ids ih =>
    rw [List.foldl_cons, ih _ (mirrored_detach g id h), contains_detach _ _ _ _ h,
      List.mem_cons, not_or, and_assoc]

theorem mirrored_removeCluster (h : Mirrored g) : Mirrored (g.removeCluster s).1 := by
  intro a b
  rw [← contains_iff_mem_row, contains_removeCluster, contains_iff_mem_row, h a b]
  show _ ↔ a ∈ Rows.row ((g.targets s).foldl (fun rows target => Rows.delete rows target s)
    g.reverse) b
  rw [Rows.mem_row_foldl_delete, mem_targets, contains_iff_mem_row, h s b]
  constructor
  · rintro ⟨h₁, h₂⟩
    exact ⟨h₁, fun h₃ => h₂ h₃.2⟩
  · rintro ⟨h₁, h₂⟩
    -- The rows by id lose the cluster at each of its targets, and it has no others.
    refine ⟨h₁, fun e => h₂ ⟨?_, e⟩⟩
    exact e ▸ h₁

theorem mirrored_absorb (h : Mirrored g) : Mirrored (g.absorb into other) := by
  have hfold : ∀ (targets : List ItemId) (g : LinkGraph), Mirrored g →
      Mirrored (targets.foldl (fun g target => (g.link into target).1) g) := by
    intro targets
    induction targets with
    | nil => exact fun _ h => h
    | cons t targets ih => exact fun g h => ih _ (mirrored_link g into t h)
  exact hfold _ _ (mirrored_removeCluster g other h)

end LinkGraph

end DensityClustering

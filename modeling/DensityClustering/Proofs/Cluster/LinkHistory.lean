import Mathlib.Data.Finset.Prod
import Mathlib.Data.Finset.Sort
import DensityClustering.Proofs.Cluster.LinkRelation
import DensityClustering.Proofs.Neighbor.Chronicle

/-!
The link graph beside a bare set of pairs. Both serve the same calls; whatever the calls, the answers
are the same, and the two maps of the graph are the two ways to read the set, with nothing stored
for a cluster or an id that no link touches.
-/

namespace DensityClustering

open Std (ExtTreeMap ExtTreeSet)

namespace Rows

variable {α β : Type} [Ord α] [Std.TransOrd α] [Ord β] {rows : Rows α β}

theorem row_of_getElem? {a : α} {stored : ExtTreeSet β} (h : rows[a]? = some stored) :
    row rows a = stored := by
  rw [row, ExtTreeMap.getD_eq_getD_getElem?, h, Option.getD_some]

theorem row_of_getElem?_eq_none {a : α} (h : rows[a]? = none) : row rows a = ∅ := by
  rw [row, ExtTreeMap.getD_eq_getD_getElem?, h, Option.getD_none]

/-- No empty row is stored. -/
def Full (rows : Rows α β) : Prop := ∀ (a : α) (row : ExtTreeSet β), rows[a]? = some row → row ≠ ∅

theorem full_empty : Full (∅ : Rows α β) := by
  intro a row h
  simp at h

theorem full_insert (h : Full rows) (a : α) {row : ExtTreeSet β} (hrow : row ≠ ∅) :
    Full (rows.insert a row) := by
  intro a' row' ha'
  rw [ExtTreeMap.getElem?_insert] at ha'
  split at ha'
  · rw [← Option.some.inj ha']
    exact hrow
  · exact h a' row' ha'

theorem full_erase (h : Full rows) (a : α) : Full (rows.erase a) := by
  intro a' row ha'
  rw [ExtTreeMap.getElem?_erase] at ha'
  split at ha'
  · cases ha'
  · exact h a' row ha'

variable [Std.TransOrd β]

theorem full_add (h : Full rows) (a : α) (b : β) : Full (add rows a b) := by
  apply full_insert h
  intro hempty
  have hb : b ∈ (row rows a).insert b := ExtTreeSet.mem_insert_self
  rw [hempty] at hb
  exact ExtTreeSet.not_mem_empty hb

/-- The row goes with its last pair. -/
theorem full_delete (h : Full rows) (a : α) (b : β) : Full (delete rows a b) := by
  unfold delete
  dsimp only
  split
  · exact full_erase h a
  · next hrest => exact full_insert h a fun hempty => hrest (ExtTreeSet.isEmpty_iff.mpr hempty)

theorem full_foldl_delete (h : Full rows) (keys : List α) (b : β) :
    Full (keys.foldl (fun rows a => delete rows a b) rows) := by
  induction keys generalizing rows with
  | nil => exact h
  | cons a keys ih => exact ih (full_delete h a b)

/-- The rows of a relation are stored, and those that hold nothing are not. -/
def Show (rows : Rows α β) (r : α → β → Prop) : Prop :=
  ∀ (a : α) (row : ExtTreeSet β), rows[a]? = some row ↔ row ≠ ∅ ∧ ∀ b, b ∈ row ↔ r a b

/-- What can be looked up tells which rows are stored, if none of them is empty. -/
theorem show_of_full [Std.LawfulEqOrd β] {r : α → β → Prop} (h : Full rows)
    (hrow : ∀ a b, b ∈ row rows a ↔ r a b) : Show rows r := by
  intro a stored
  constructor
  · intro ha
    refine ⟨h a stored ha, fun b => ?_⟩
    rw [← hrow, row_of_getElem? ha]
  · rintro ⟨hne, hmem⟩
    cases ha : rows[a]? with
    | none =>
      -- Then the relation pairs `a` with nothing, and the row would be empty.
      refine absurd (ExtTreeSet.eq_empty_iff_forall_not_mem.mpr fun b hb => ?_) hne
      rw [hmem, ← hrow, row_of_getElem?_eq_none ha] at hb
      exact ExtTreeSet.not_mem_empty hb
    | some row =>
      congr 1
      apply ExtTreeSet.ext_mem
      intro b
      rw [hmem, ← hrow, row_of_getElem? ha]

/-- A test of every stored pair is a test of every pair that can be looked up. -/
theorem all_rows_iff [Std.LawfulEqOrd α] [Std.LawfulEqOrd β] (rows : Rows α β)
    (p : α → β → Bool) :
    (rows.all fun a row => row.toList.all (p a)) = true ↔
      ∀ a b, b ∈ row rows a → p a b = true := by
  rw [all_eq_true_iff]
  simp only [List.all_eq_true, ExtTreeSet.mem_toList]
  constructor
  · intro h a b hb
    cases ha : rows[a]? with
    | none =>
      rw [row_of_getElem?_eq_none ha] at hb
      exact absurd hb ExtTreeSet.not_mem_empty
    | some row =>
      rw [row_of_getElem? ha] at hb
      exact h a row ha b hb
  · intro h a row ha b hb
    rw [← row_of_getElem? ha] at hb
    exact h a b hb

end Rows

namespace ItemId

/-- The order of names, as a relation. -/
def AtMost (a b : ItemId) : Prop := (compare a b).isLE = true

instance : DecidableRel AtMost := fun a b => inferInstanceAs (Decidable ((compare a b).isLE = true))

instance : IsTrans ItemId AtMost := ⟨fun _ _ _ => Std.TransCmp.isLE_trans⟩

instance : Std.Antisymm AtMost :=
  ⟨fun _ _ h h' => Std.LawfulEqCmp.eq_of_compare (Std.OrientedCmp.isLE_antisymm h h')⟩

instance : Std.Total AtMost := by
  refine ⟨fun a b => ?_⟩
  have hswap : compare b a = (compare a b).swap := Std.OrientedCmp.eq_swap
  unfold AtMost
  rw [hswap]
  cases compare a b
  all_goals decide

/-- The names of a set from the least on. -/
def ascending (ids : Finset ItemId) : List ItemId := ids.sort AtMost

/-- A tree lists its names as the set of them does. -/
theorem toList_eq_ascending (tree : ExtTreeSet ItemId) :
    tree.toList = ascending tree.toList.toFinset := by
  have hsorted : tree.toList.Pairwise AtMost := ExtTreeSet.ordered_toList.imp fun hlt => by
    rw [AtMost, hlt]
    rfl
  exact ((List.toFinset_sort AtMost (nodup_toList tree)).mpr hsorted).symm

end ItemId

/-- A call on the links. -/
inductive LinkCall where
  | link (source : ClusterId) (target : ItemId)
  | unlink (source : ClusterId) (target : ItemId)
  | detach (target : ItemId)
  | absorb (into other : ClusterId)
  | removeCluster (source : ClusterId)
  deriving DecidableEq, Repr

/-- What a call answers: nothing, whether it changed anything, or the ids of a row. -/
inductive LinkAnswer where
  | done
  | changed (b : Bool)
  | row (targets : List ItemId)
  deriving DecidableEq, Repr

/-- What a sequence of calls leads to, and the answers to them in turn. -/
def serveAll {σ : Type} (serve : σ → LinkCall → σ × LinkAnswer) (start : σ) :
    List LinkCall → σ × List LinkAnswer
  | [] => (start, [])
  | call :: calls =>
    let (next, answer) := serve start call
    let (last, answers) := serveAll serve next calls
    (last, answer :: answers)

/-- The links as a set of pairs. -/
abbrev Links := Finset (ClusterId × ItemId)

namespace Links

variable (r : Links) (s s' into other : ClusterId) (t : ItemId)

/-- The ids that a cluster links to. -/
def row (r : Links) (s : ClusterId) : Finset ItemId := (r.filter fun p => p.1 = s).image Prod.snd

theorem mem_row : t ∈ r.row s ↔ (s, t) ∈ r := by
  unfold row
  rw [Finset.mem_image]
  constructor
  · rintro ⟨⟨s', t'⟩, hp, rfl⟩
    obtain ⟨hmem, rfl⟩ := Finset.mem_filter.mp hp
    exact hmem
  · exact fun h => ⟨(s, t), Finset.mem_filter.mpr ⟨h, rfl⟩, rfl⟩

/-- What a call does to the pairs, and its answer. -/
def serve (r : Links) : LinkCall → Links × LinkAnswer
  | .link source target =>
    (insert (source, target) r, .changed (decide ((source, target) ∉ r)))
  | .unlink source target =>
    (r.erase (source, target), .changed (decide ((source, target) ∈ r)))
  | .detach target => (r.filter fun p => p.2 ≠ target, .done)
  | .absorb into other =>
    ((r.filter fun p => p.1 ≠ into ∧ p.1 ≠ other) ∪ {into} ×ˢ (r.row into ∪ r.row other), .done)
  | .removeCluster source =>
    (r.filter fun p => p.1 ≠ source, .row (ItemId.ascending (r.row source)))

theorem mem_absorb : (s, t) ∈ (r.serve (.absorb into other)).1 ↔
    (s = into ∧ (other, t) ∈ r) ∨ ((s, t) ∈ r ∧ s ≠ other) := by
  simp only [serve, Finset.mem_union, Finset.mem_filter, Finset.mem_product, Finset.mem_singleton,
    mem_row]
  by_cases hs : s = into
  · subst hs
    -- A cluster that absorbs itself keeps its row.
    by_cases ho : s = other
    · subst ho
      tauto
    · tauto
  · tauto

end Links

namespace LinkGraph

variable (g : LinkGraph) (s s' into other : ClusterId) (t t' : ItemId)

/-- The check of both maps finds a graph in order exactly if they hold the same pairs. -/
theorem isConsistent_iff : g.isConsistent = true ↔ g.Mirrored := by
  unfold isConsistent
  rw [Bool.and_eq_true, Rows.all_rows_iff, Rows.all_rows_iff]
  constructor
  · rintro ⟨hforward, hreverse⟩ s t
    exact ⟨hforward s t, hreverse t s⟩
  · intro h
    exact ⟨fun s t => (h s t).mp, fun t s => (h s t).mpr⟩

/-- Neither map stores an empty row. -/
structure Full (g : LinkGraph) : Prop where
  forward : Rows.Full g.forward
  reverse : Rows.Full g.reverse

namespace Full

variable {g}

theorem empty : Full .empty := ⟨Rows.full_empty, Rows.full_empty⟩

theorem link (h : Full g) : Full (g.link s t).1 := by
  unfold LinkGraph.link
  split
  · exact h
  · exact ⟨Rows.full_add h.forward s t, Rows.full_add h.reverse t s⟩

theorem unlink (h : Full g) : Full (g.unlink s t).1 := by
  unfold LinkGraph.unlink
  split
  · exact ⟨Rows.full_delete h.forward s t, Rows.full_delete h.reverse t s⟩
  · exact h

theorem detach (h : Full g) : Full (g.detach t) :=
  ⟨Rows.full_foldl_delete h.forward _ t, Rows.full_erase h.reverse t⟩

theorem removeCluster (h : Full g) : Full (g.removeCluster s).1 :=
  ⟨Rows.full_erase h.forward s, Rows.full_foldl_delete h.reverse _ s⟩

theorem absorb (h : Full g) : Full (g.absorb into other) := by
  have hfold (targets : List ItemId) {g : LinkGraph} (hg : Full g) :
      Full (targets.foldl (fun g target => (g.link into target).1) g) := by
    induction targets generalizing g with
    | nil => exact hg
    | cons t targets ih => exact ih (hg.link into t)
  exact hfold _ (h.removeCluster other)

end Full

/-- What a call does to the graph, and its answer. -/
def serve (g : LinkGraph) : LinkCall → LinkGraph × LinkAnswer
  | .link source target => (g.link source target).map id .changed
  | .unlink source target => (g.unlink source target).map id .changed
  | .detach target => (g.detach target, .done)
  | .absorb into other => (g.absorb into other, .done)
  | .removeCluster source => (g.removeCluster source).map id .row

/-- The graph stores a set of pairs, by cluster and by id. -/
structure Holds (g : LinkGraph) (r : Links) : Prop where
  contains : ∀ s t, g.contains s t = true ↔ (s, t) ∈ r
  mirrored : g.Mirrored
  full : g.Full

namespace Holds

variable {g} {r : Links}

theorem empty : Holds .empty ∅ := by
  refine ⟨fun s t => ?_, mirrored_empty, Full.empty⟩
  rw [contains_empty]
  simp

theorem contains_eq (h : Holds g r) : g.contains s t = decide ((s, t) ∈ r) := by
  rw [Bool.eq_iff_iff, h.contains, decide_eq_true_iff]

theorem toFinset_targets (h : Holds g r) : (g.targets s).toFinset = r.row s := by
  ext t
  rw [List.mem_toFinset, mem_targets, h.contains, Links.mem_row]

theorem targets_eq (h : Holds g r) : g.targets s = ItemId.ascending (r.row s) := by
  rw [← h.toFinset_targets]
  exact ItemId.toList_eq_ascending _

theorem count_eq (h : Holds g r) : g.count s = (r.row s).card := by
  rw [← Finset.length_sort ItemId.AtMost]
  show _ = (ItemId.ascending (r.row s)).length
  rw [← h.targets_eq]
  exact ExtTreeSet.length_toList.symm

/-- A call finds and leaves in the graph what it finds and leaves in the set. -/
theorem serve (h : Holds g r) (call : LinkCall) :
    (g.serve call).1.Holds (r.serve call).1 ∧ (g.serve call).2 = (r.serve call).2 := by
  cases call with
  | link s t =>
    refine ⟨⟨fun s' t' => ?_, mirrored_link g s t h.mirrored, h.full.link s t⟩, ?_⟩
    · show (g.link s t).1.contains s' t' = true ↔ (s', t') ∈ insert (s, t) r
      rw [contains_link, h.contains, Finset.mem_insert, Prod.mk.injEq]
    · show LinkAnswer.changed (g.link s t).2 = .changed (decide ((s, t) ∉ r))
      rw [link_snd, h.contains_eq, decide_not]
  | unlink s t =>
    refine ⟨⟨fun s' t' => ?_, mirrored_unlink g s t h.mirrored, h.full.unlink s t⟩, ?_⟩
    · show (g.unlink s t).1.contains s' t' = true ↔ (s', t') ∈ r.erase (s, t)
      rw [contains_unlink, h.contains, Finset.mem_erase, ne_eq, Prod.mk.injEq, and_comm]
    · show LinkAnswer.changed (g.unlink s t).2 = .changed (decide ((s, t) ∈ r))
      rw [unlink_snd, h.contains_eq]
  | detach t =>
    refine ⟨⟨fun s' t' => ?_, mirrored_detach g t h.mirrored, h.full.detach t⟩, rfl⟩
    show (g.detach t).contains s' t' = true ↔ (s', t') ∈ r.filter fun p => p.2 ≠ t
    rw [contains_detach g s' t t' h.mirrored, h.contains, Finset.mem_filter]
  | absorb into other =>
    refine ⟨⟨fun s' t' => ?_, mirrored_absorb g into other h.mirrored, h.full.absorb into other⟩,
      rfl⟩
    show (g.absorb into other).contains s' t' = true ↔ _
    rw [contains_absorb, Links.mem_absorb, h.contains, h.contains]
  | removeCluster s =>
    refine ⟨⟨fun s' t' => ?_, mirrored_removeCluster g s h.mirrored, h.full.removeCluster s⟩, ?_⟩
    · show (g.removeCluster s).1.contains s' t' = true ↔ (s', t') ∈ r.filter fun p => p.1 ≠ s
      rw [contains_removeCluster, h.contains, Finset.mem_filter]
    · exact congrArg LinkAnswer.row (h.targets_eq s)

theorem serveAll (h : Holds g r) (calls : List LinkCall) :
    (DensityClustering.serveAll LinkGraph.serve g calls).1.Holds
        (DensityClustering.serveAll Links.serve r calls).1 ∧
      (DensityClustering.serveAll LinkGraph.serve g calls).2 =
        (DensityClustering.serveAll Links.serve r calls).2 := by
  induction calls generalizing g r with
  | nil => exact ⟨h, rfl⟩
  | cons call calls ih =>
    obtain ⟨hnext, hanswer⟩ := h.serve call
    obtain ⟨hlast, hanswers⟩ := ih hnext
    exact ⟨hlast, congrArg₂ List.cons hanswer hanswers⟩

end Holds

/-- Whatever is asked of a link graph, it answers as a single set of pairs does. Afterwards its two
maps are the rows and the columns of that set, each stored exactly if it is not empty, and whatever
can be read off the graph is read off the set. -/
theorem links_form_one_relation (calls : List LinkCall) :
    let graph := (serveAll serve .empty calls).1
    let links := (serveAll Links.serve ∅ calls).1
    (serveAll serve .empty calls).2 = (serveAll Links.serve ∅ calls).2 ∧
    Rows.Show graph.forward (fun s t => (s, t) ∈ links) ∧
    Rows.Show graph.reverse (fun t s => (s, t) ∈ links) ∧
    (∀ s t, graph.contains s t = decide ((s, t) ∈ links)) ∧
    (∀ s, graph.targets s = ItemId.ascending (links.row s)) ∧
    (∀ s, graph.count s = (links.row s).card) ∧
    graph.isConsistent = true := by
  intro graph links
  obtain ⟨h, hanswers⟩ := Holds.empty.serveAll calls
  refine ⟨hanswers, ?_, ?_, h.contains_eq, h.targets_eq, h.count_eq, ?_⟩
  · exact Rows.show_of_full h.full.forward h.contains
  · exact Rows.show_of_full h.full.reverse fun t s => (h.mirrored s t).symm.trans (h.contains s t)
  · exact (isConsistent_iff graph).mpr h.mirrored

/-- The first of two clusters takes over the links of the second, and then its own. -/
example : let x : ItemId := ⟨[120]⟩; let y : ItemId := ⟨[121]⟩
    (serveAll serve .empty [.link ⟨0⟩ x, .link ⟨1⟩ x, .link ⟨1⟩ y, .absorb ⟨0⟩ ⟨1⟩,
      .absorb ⟨0⟩ ⟨0⟩, .link ⟨0⟩ x, .detach x, .removeCluster ⟨0⟩]).2 =
    [.changed true, .changed true, .changed true, .done, .done, .changed false, .done,
      .row [y]] := by
  decide

end LinkGraph

end DensityClustering

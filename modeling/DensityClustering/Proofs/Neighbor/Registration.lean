import Mathlib.Data.List.Perm.Basic
import DensityClustering.Proofs.Neighbor.Tour

/-!
The order in which points are stored. Storing two points in either order makes the same group, but
for the primary that came first, so that points stored in another order are traversed alike when
their first primary is the same.
-/

namespace DensityClustering

open Std (ExtTreeMap ExtTreeSet)

namespace PartitionIndex

variable {V : Type}

/-- Changes of two entries of a map, of one entry in either order or of different ones. -/
theorem insert_getD_comm {α β : Type} {cmp : α → α → Ordering} [Std.TransCmp cmp]
    [Std.LawfulEqCmp cmp] (t : ExtTreeMap α β cmp) (initial : β) (k l : α) (f g : β → β)
    (hcomm : ∀ b, f (g b) = g (f b)) :
    (t.insert k (f (t.getD k initial))).insert l
        (g ((t.insert k (f (t.getD k initial))).getD l initial)) =
      (t.insert l (g (t.getD l initial))).insert k
        (f ((t.insert l (g (t.getD l initial))).getD k initial)) := by
  have heq (x y : α) : cmp x y = .eq ↔ x = y := Std.LawfulEqCmp.compare_eq_iff_eq
  apply ExtTreeMap.ext_getElem?
  intro m
  rw [ExtTreeMap.getElem?_insert, ExtTreeMap.getElem?_insert, ExtTreeMap.getElem?_insert,
    ExtTreeMap.getElem?_insert, ExtTreeMap.getD_insert, ExtTreeMap.getD_insert]
  by_cases hkl : k = l
  · by_cases hl : l = m
    · simp [hkl, hl, hcomm]
    · simp [hkl, hl, heq]
  · by_cases hl : l = m
    · simp [hkl, ← hl, heq]
    · simp [hl, Ne.symm hkl, heq]

/-- Cells are joined in any order. -/
theorem link_comm (index : PartitionIndex V) (a b : ItemId) (d e : Descriptor) :
    (index.link a d).link b e = (index.link b e).link a d := by
  have hsets {α : Type} {cmp : α → α → Ordering} [Std.TransCmp cmp] [Std.LawfulEqCmp cmp]
      (t : ExtTreeSet α cmp) (x y : α) : (t.insert x).insert y = (t.insert y).insert x := by
    apply ExtTreeSet.ext_mem
    intro z
    simp only [ExtTreeSet.mem_insert]
    exact or_left_comm
  have hcells := insert_getD_comm index.cells Cell.fresh d.key e.key
    (fun cell => ⟨cell.primary || d.primary, cell.members.insert a⟩)
    (fun cell => ⟨cell.primary || e.primary, cell.members.insert b⟩)
    (fun cell => by rw [Bool.or_right_comm, hsets])
  have hkeys := insert_getD_comm index.keysOf ∅ a b (fun keys => keys.insert d.key)
    (fun keys => keys.insert e.key) (fun keys => hsets keys e.key d.key)
  have hboth := congrArg₂ (fun cells keys => PartitionIndex.mk cells keys index.primaries
    index.others) hcells hkeys
  exact hboth

/-- Replaces the value of an id, and leaves its cells alone. -/
def put (index : PartitionIndex V) (id : ItemId) (primary : Bool) (value : V) : PartitionIndex V :=
  { index with
    primaries := if primary then index.primaries.insert id value else index.primaries.erase id
    others := if primary then index.others.erase id else index.others.insert id value }

variable (index : PartitionIndex V) {a b : ItemId} (p q : Bool) (u v : V)

theorem insert_eq (id : ItemId) (cells : List Descriptor) : index.insert id p v cells =
    (cells.foldl (fun index d => index.link id d) index).put id p v := by
  cases p
  all_goals rfl

theorem getElem?_primaries_put (id id' : ItemId) : (index.put id p v).primaries[id']? =
    if id' = id then (if p then some v else none) else index.primaries[id']? := by
  cases p
  all_goals simp [put, ExtTreeMap.getElem?_insert, ExtTreeMap.getElem?_erase, eq_comm (a := id')]

theorem getElem?_others_put (id id' : ItemId) : (index.put id p v).others[id']? =
    if id' = id then (if p then none else some v) else index.others[id']? := by
  cases p
  all_goals simp [put, ExtTreeMap.getElem?_insert, ExtTreeMap.getElem?_erase, eq_comm (a := id')]

theorem put_comm (hne : a ≠ b) :
    (index.put a p u).put b q v = (index.put b q v).put a p u := by
  have hprimaries : ((index.put a p u).put b q v).primaries =
      ((index.put b q v).put a p u).primaries := by
    apply ExtTreeMap.ext_getElem?
    intro id
    simp only [getElem?_primaries_put]
    by_cases ha : id = a
    · simp [ha, hne]
    · simp [ha]
  have hothers : ((index.put a p u).put b q v).others = ((index.put b q v).put a p u).others := by
    apply ExtTreeMap.ext_getElem?
    intro id
    simp only [getElem?_others_put]
    by_cases ha : id = a
    · simp [ha, hne]
    · simp [ha]
  exact congrArg₂ (PartitionIndex.mk index.cells index.keysOf) hprimaries hothers

theorem foldl_link_comm (ds es : List Descriptor) :
    es.foldl (fun index d => index.link b d) (ds.foldl (fun index d => index.link a d) index) =
      ds.foldl (fun index d => index.link a d) (es.foldl (fun index d => index.link b d) index) := by
  have hone (e : Descriptor) (ds : List Descriptor) (index : PartitionIndex V) :
      (ds.foldl (fun index d => index.link a d) index).link b e =
        ds.foldl (fun index d => index.link a d) (index.link b e) := by
    induction ds generalizing index with
    | nil => rfl
    | cons d ds ih => rw [List.foldl_cons, ih, link_comm, List.foldl_cons]
  induction es generalizing index with
  | nil => rfl
  | cons e es ih => rw [List.foldl_cons, hone, ih, List.foldl_cons]

/-- Points with different ids may be stored in either order. -/
theorem insert_comm (hne : a ≠ b) (ds es : List Descriptor) :
    (index.insert a p u ds).insert b q v es = (index.insert b q v es).insert a p u ds := by
  have hput (id id' : ItemId) (p : Bool) (v : V) (cells : List Descriptor)
      (index : PartitionIndex V) :
      cells.foldl (fun index d => index.link id' d) (index.put id p v) =
        (cells.foldl (fun index d => index.link id' d) index).put id p v := by
    induction cells generalizing index with
    | nil => rfl
    | cons d cells ih => exact ih (index.link id' d)
  rw [insert_eq, insert_eq, insert_eq, insert_eq, hput, hput, foldl_link_comm,
    put_comm _ _ _ _ _ hne]

end PartitionIndex

/-- A point to be stored. -/
structure Arrival (P : Type) where
  id : ItemId
  primary : Bool
  raw : P
  deriving DecidableEq

namespace Group

variable {P V : Type} {intake : Intake P V}

/-- Stores points in order, up to the first that cannot be converted or placed. -/
def addAll (intake : Intake P V) (g : Group V) : List (Arrival P) → Except NeighborError (Group V)
  | [] => .ok g
  | a :: rest =>
    match g.add intake a.id a.primary a.raw with
    | .error e => .error e
    | .ok g => addAll intake g rest

/-- The point can be converted and placed. -/
def Admits (intake : Intake P V) (a : Arrival P) (value : V) (cells : List Descriptor) : Prop :=
  intake.convert a.id a.raw = .ok value ∧ intake.place a.raw = ⟨cells, none⟩

/-- The group with one more point. -/
def joined (g : Group V) (a : Arrival P) (value : V) (cells : List Descriptor) : Group V :=
  { g with
    index := g.index.insert a.id a.primary value cells
    first := if a.primary then g.first.or (some a.id) else g.first }

/-- Whether a point can be stored does not depend on the group. -/
theorem addAll_cons_eq_ok_iff {g g' : Group V} {a : Arrival P} {rest : List (Arrival P)} :
    addAll intake g (a :: rest) = .ok g' ↔
      ∃ value cells, Admits intake a value cells ∧
        addAll intake (g.joined a value cells) rest = .ok g' := by
  rw [addAll]
  unfold add Admits
  cases hconvert : intake.convert a.id a.raw with
  | error e => simp
  | ok value =>
    obtain ⟨cells, failure⟩ := intake.place a.raw
    cases failure with
    | some e => simp
    | none =>
      constructor
      · intro h
        exact ⟨value, cells, ⟨rfl, rfl⟩, h⟩
      · intro h
        obtain ⟨_, _, ⟨hvalue, hcells⟩, hrest⟩ := h
        cases hvalue
        cases hcells
        exact hrest

/-- The first primary that is stored stays the first one. -/
theorem first_addAll {g g' : Group V} {arrivals : List (Arrival P)}
    (h : addAll intake g arrivals = .ok g') :
    g'.first = g.first.or ((arrivals.find? Arrival.primary).map Arrival.id) ∧
      g'.maxDistance = g.maxDistance ∧ g'.parent = g.parent := by
  induction arrivals generalizing g with
  | nil =>
    cases h
    exact ⟨(Option.or_none ..).symm, rfl, rfl⟩
  | cons a rest ih =>
    obtain ⟨value, cells, -, hrest⟩ := addAll_cons_eq_ok_iff.mp h
    obtain ⟨hfirst, hmax, hparent⟩ := ih hrest
    refine ⟨?_, hmax, hparent⟩
    rw [hfirst]
    unfold joined
    cases hprimary : a.primary with
    | true =>
      rw [List.find?_cons_of_pos hprimary, if_pos rfl, Option.or_assoc]
      rfl
    | false =>
      rw [List.find?_cons_of_neg (by simp [hprimary]), if_neg Bool.false_ne_true]

/-- What becomes of the index depends on the index alone. -/
theorem exists_addAll_of_index {g h g' : Group V} {arrivals : List (Arrival P)}
    (hindex : h.index = g.index) (hadded : addAll intake g arrivals = .ok g') :
    ∃ h', addAll intake h arrivals = .ok h' ∧ h'.index = g'.index := by
  induction arrivals generalizing g h with
  | nil =>
    cases hadded
    exact ⟨h, rfl, hindex⟩
  | cons a rest ih =>
    obtain ⟨value, cells, hadmits, hrest⟩ := addAll_cons_eq_ok_iff.mp hadded
    have hjoined : (h.joined a value cells).index = (g.joined a value cells).index :=
      congrArg (fun index => index.insert a.id a.primary value cells) hindex
    obtain ⟨h', hrest', hend⟩ := ih hjoined hrest
    exact ⟨h', addAll_cons_eq_ok_iff.mpr ⟨value, cells, hadmits, hrest'⟩, hend⟩

/-- Points stored in another order make the same index. -/
theorem exists_addAll_of_perm {arrivals arrivals' : List (Arrival P)}
    (hperm : arrivals.Perm arrivals') (hids : (arrivals.map Arrival.id).Nodup) {g g' : Group V}
    (hadded : addAll intake g arrivals = .ok g') :
    ∃ h', addAll intake g arrivals' = .ok h' ∧ h'.index = g'.index := by
  induction hperm generalizing g g' with
  | nil => exact ⟨g', hadded, rfl⟩
  | cons a _ ih =>
    obtain ⟨value, cells, hadmits, hrest⟩ := addAll_cons_eq_ok_iff.mp hadded
    obtain ⟨h', hrest', hend⟩ := ih (List.nodup_cons.mp hids).2 hrest
    exact ⟨h', addAll_cons_eq_ok_iff.mpr ⟨value, cells, hadmits, hrest'⟩, hend⟩
  | swap a b rest =>
    -- Only here the ids matter: of two points with one id the later one stays.
    have hne : b.id ≠ a.id := by
      intro he
      apply (List.nodup_cons.mp hids).1
      rw [List.map_cons, he]
      exact List.mem_cons_self
    obtain ⟨v, ds, hb, hrest⟩ := addAll_cons_eq_ok_iff.mp hadded
    obtain ⟨u, es, ha, hrest⟩ := addAll_cons_eq_ok_iff.mp hrest
    have hjoined : ((g.joined a u es).joined b v ds).index =
        ((g.joined b v ds).joined a u es).index :=
      PartitionIndex.insert_comm g.index a.primary b.primary u v hne.symm es ds
    obtain ⟨h', hrest', hend⟩ := exists_addAll_of_index hjoined hrest
    exact ⟨h', addAll_cons_eq_ok_iff.mpr ⟨u, es, ha, addAll_cons_eq_ok_iff.mpr
      ⟨v, ds, hb, hrest'⟩⟩, hend⟩
  | trans hperm _ ih ih' =>
    obtain ⟨k, hk, hsame⟩ := ih hids hadded
    obtain ⟨h', hh', hsame'⟩ := ih' ((hperm.map Arrival.id).nodup_iff.mp hids) hk
    exact ⟨h', hh', hsame'.trans hsame⟩

/-- A walk starts from the primaries, in whatever order they are listed. -/
theorem departure_eq_of_listing (g : Group V) {σ L : Type} (shared : σ) {ids : List ItemId}
    (hids : ∀ id, id ∈ ids ↔ (g.index.primary id).isSome = true) :
    (g.departure shared : Walk σ L) = ⟨.start shared, .ofList ids⟩ := by
  have hpending : (g.departure shared : Walk σ L).pending = .ofList ids := by
    apply ExtTreeSet.ext_mem
    intro id
    rw [mem_departure, ← hids, ExtTreeSet.mem_ofList, List.contains_iff_mem]
  rw [← hpending]
  rfl

/-- Points that are stored in another order can be stored just as well. If the first primary among
them is the same, a traversal does the same whoever is asked: it builds, measures and hands over the
same lists in the same order, and it ends alike. Nor does it matter in which order the primaries are
listed when it starts. -/
theorem traverse_of_reordered (intake : Intake P V) (maxDistance : Float) (parent : Descriptor)
    {arrivals arrivals' : List (Arrival P)} (hperm : arrivals.Perm arrivals')
    (hids : (arrivals.map Arrival.id).Nodup)
    (hfirst : (arrivals.find? Arrival.primary).map Arrival.id =
      (arrivals'.find? Arrival.primary).map Arrival.id)
    {g : Group V} (hadded : addAll intake (.empty maxDistance parent) arrivals = .ok g) :
    ∃ g', addAll intake (.empty maxDistance parent) arrivals' = .ok g' ∧
      ∀ {σ C L : Type} (c : Collaborators σ V C L) (shared : σ),
        g'.traverse c shared = g.traverse c shared ∧
        ∀ ids : List ItemId, (∀ id, id ∈ ids ↔ (g'.index.primary id).isSome = true) →
          (g'.departure shared : Walk σ L) = ⟨.start shared, .ofList ids⟩ := by
  obtain ⟨g', hadded', hindex⟩ := exists_addAll_of_perm hperm hids hadded
  obtain ⟨hf, hm, hp⟩ := first_addAll hadded
  obtain ⟨hf', hm', hp'⟩ := first_addAll hadded'
  have hsame : g' = g := by
    obtain ⟨index, first, max, parent⟩ := g
    obtain ⟨index', first', max', parent'⟩ := g'
    dsimp only at hindex hf hf' hm hm' hp hp'
    rw [hindex, hf, hf', hm, hm', hp, hp', hfirst]
  refine ⟨g', hadded', fun c shared => ⟨?_, fun ids hlisted => ?_⟩⟩
  · rw [hsame]
  · exact departure_eq_of_listing g' shared hlisted

/-- Numbers are placed with the numbers next to them. -/
def adjoining : Intake Nat Nat where
  convert _ n := .ok n
  place n := ⟨[⟨⟨[n]⟩, true⟩, ⟨⟨[n + 1]⟩, false⟩], none⟩

/-- Two primaries and a third point, the smaller id in the middle. -/
def threeNumbers : List (Arrival Nat) :=
  [⟨⟨[2]⟩, true, 5⟩, ⟨⟨[1]⟩, true, 6⟩, ⟨⟨[3]⟩, false, 7⟩]

/-- The same points, the third one first. -/
def threeNumbersLate : List (Arrival Nat) :=
  [⟨⟨[3]⟩, false, 7⟩, ⟨⟨[2]⟩, true, 5⟩, ⟨⟨[1]⟩, true, 6⟩]

theorem three_numbers_traversed_alike :
    threeNumbers.Perm threeNumbersLate ∧ threeNumbers ≠ threeNumbersLate ∧
    ∃ g g', addAll adjoining (.empty 1 ⟨⟨[0]⟩, true⟩) threeNumbers = .ok g ∧
      addAll adjoining (.empty 1 ⟨⟨[0]⟩, true⟩) threeNumbersLate = .ok g' ∧
      ∀ c : Collaborators Unit Nat Float (PlainList Nat), g'.traverse c () = g.traverse c () := by
  have hperm : threeNumbers.Perm threeNumbersLate := by decide
  obtain ⟨g, hg⟩ : ∃ g, addAll adjoining (.empty 1 ⟨⟨[0]⟩, true⟩) threeNumbers = .ok g := ⟨_, rfl⟩
  obtain ⟨g', hg', hsame⟩ :=
    traverse_of_reordered adjoining 1 ⟨⟨[0]⟩, true⟩ hperm (by decide) (by decide) hg
  exact ⟨hperm, by decide, g, g', hg, hg', fun c => (hsame c ()).1⟩

end Group

end DensityClustering

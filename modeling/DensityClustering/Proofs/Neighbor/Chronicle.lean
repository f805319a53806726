import Mathlib.Data.Finset.Card
import Mathlib.Data.List.Induction
import DensityClustering.Proofs.Neighbor.History

/-!
The partition index as a record of the calls that made it. Whatever can be asked of an index is a
question about those calls: which of them placed an id in a cell, what they said of a cell, and what
they stored last.
-/

namespace DensityClustering

open Std (ExtTreeMap ExtTreeSet)

/-- `P` held at some entry of a history, and `Q` at every later one. -/
def Since {α : Type} (P Q : α → Prop) (history : List α) : Prop :=
  ∃ before a rest, history = before ++ a :: rest ∧ P a ∧ ∀ b ∈ rest, Q b

theorem not_since_nil {α : Type} (P Q : α → Prop) : ¬Since P Q [] := by
  intro h
  obtain ⟨before, a, rest, hsplit, -⟩ := h
  simp at hsplit

/-- One more entry is the one that counts, or else leaves an earlier one in force. -/
theorem since_concat {α : Type} (P Q : α → Prop) (history : List α) (last : α) :
    Since P Q (history ++ [last]) ↔ P last ∨ (Q last ∧ Since P Q history) := by
  constructor
  · intro h
    obtain ⟨before, a, rest, hsplit, ha, hrest⟩ := h
    rcases List.eq_nil_or_concat rest with hnil | ⟨rest', b, hconcat⟩
    · rw [hnil] at hsplit
      rw [(List.append_inj' hsplit rfl).2 |> List.cons.inj |>.1]
      exact Or.inl ha
    · rw [hconcat, List.concat_eq_append, ← List.cons_append, ← List.append_assoc] at hsplit
      obtain ⟨hearlier, hlast⟩ := List.append_inj' hsplit rfl
      rw [hconcat, List.concat_eq_append] at hrest
      have hb : Q b := hrest b (List.mem_append_right _ List.mem_cons_self)
      refine Or.inr ⟨(List.cons.inj hlast).1 ▸ hb, before, a, rest', hearlier, ha, fun c hc => ?_⟩
      exact hrest c (List.mem_append_left _ hc)
  · intro h
    rcases h with hlast | ⟨hlast, before, a, rest, hsplit, ha, hrest⟩
    · exact ⟨history, last, [], rfl, hlast, by simp⟩
    · refine ⟨before, a, rest ++ [last], ?_, ha, fun c hc => ?_⟩
      · rw [hsplit, List.append_assoc, List.cons_append]
      · rcases List.mem_append.mp hc with hc | hc
        · exact hrest c hc
        · rw [List.mem_singleton.mp hc]
          exact hlast

/-- A map passes a test when each of its entries does. -/
theorem all_eq_true_iff {α β : Type} {cmp : α → α → Ordering} [Std.TransCmp cmp]
    [Std.LawfulEqCmp cmp] (t : ExtTreeMap α β cmp) (p : α → β → Bool) :
    t.all p = true ↔ ∀ k v, t[k]? = some v → p k v = true := by
  have hloop (entries : List (α × β)) : (Id.run do
      for e in entries do
        if p e.1 e.2 = false then return false
      return true) = entries.all fun e => p e.1 e.2 := by
    induction entries with
    | nil => rfl
    | cons e entries ih =>
      cases he : p e.1 e.2 with
      | true =>
        rw [List.all_cons, he, ← ih]
        simp [he]
      | false => simp [he]
  have hall : t.all p = t.toList.all fun e => p e.1 e.2 := by
    rw [← hloop, ← ExtTreeMap.forIn_eq_forIn_toList]
    obtain ⟨⟨m⟩⟩ := t
    induction m using Quotient.ind
    rfl
  rw [hall, List.all_eq_true]
  simp [ExtTreeMap.mem_toList_iff_getElem?_eq_some]

/-- A set lists each of its entries once. -/
theorem nodup_toList {α : Type} {cmp : α → α → Ordering} [Std.TransCmp cmp]
    (set : ExtTreeSet α cmp) : set.toList.Nodup := by
  apply List.Pairwise.imp _ ExtTreeSet.distinct_toList
  intro a b hne he
  exact hne (he ▸ Std.ReflCmp.compare_self)

namespace PartitionIndex

variable {V : Type}

/-- A call that changes an index. -/
inductive Change (V : Type) where
  | insert (id : ItemId) (primary : Bool) (value : V) (cells : List Descriptor)
  | remove (id : ItemId)

namespace Change

/-- The id that is stored or forgotten. -/
def subject : Change V → ItemId
  | insert id _ _ _ => id
  | remove id => id

/-- What is said of cells. -/
def emitted : Change V → List Descriptor
  | insert _ _ _ cells => cells
  | remove _ => []

/-- It stores the id. -/
def Inserts (id : ItemId) (c : Change V) : Prop :=
  ∃ primary value cells, c = insert id primary value cells

/-- It puts the id into the cell. -/
def Places (id : ItemId) (key : PartitionKey) (c : Change V) : Prop :=
  c.Inserts id ∧ ∃ d ∈ c.emitted, d.key = key

/-- It stores the value for the id, as a primary or as one of the others. -/
def Stores (id : ItemId) (primary : Bool) (value : V) (c : Change V) : Prop :=
  ∃ cells, c = insert id primary value cells

variable {id id' : ItemId} {primary : Bool} {value : V} {cells : List Descriptor}

@[simp] theorem inserts_insert : (insert id' primary value cells).Inserts id ↔ id = id' := by
  simp [Inserts, eq_comm]

@[simp] theorem inserts_remove : ¬(remove id' : Change V).Inserts id := by
  simp [Inserts]

@[simp] theorem places_insert {key : PartitionKey} :
    (insert id' primary value cells).Places id key ↔ id = id' ∧ ∃ d ∈ cells, d.key = key := by
  rw [Places, inserts_insert]
  rfl

@[simp] theorem places_remove {key : PartitionKey} : ¬(remove id' : Change V).Places id key := by
  simp [Places]

@[simp] theorem stores_insert {primary' : Bool} {value' : V} :
    (insert id' primary' value' cells).Stores id primary value ↔
      id = id' ∧ primary = primary' ∧ value = value' := by
  simp [Stores, eq_comm]

@[simp] theorem stores_remove : ¬(remove id' : Change V).Stores id primary value := by
  simp [Stores]

end Change

def apply (index : PartitionIndex V) : Change V → PartitionIndex V
  | .insert id primary value cells => index.insert id primary value cells
  | .remove id => index.remove id

/-- The index after a sequence of calls on the empty one. -/
def after (changes : List (Change V)) : PartitionIndex V := changes.foldl apply .empty

theorem after_concat (changes : List (Change V)) (last : Change V) :
    after (changes ++ [last]) = (after changes).apply last :=
  List.foldl_concat ..

/-- What a list of descriptors says of a cell: nothing if none is about it, and that it is primary
if any of them does. -/
def canonical (descriptors : List Descriptor) (key : PartitionKey) : Option Descriptor :=
  let about := descriptors.filter fun d => decide (d.key = key)
  if about.isEmpty then none else some ⟨key, about.any Descriptor.primary⟩

theorem canonical_concat (descriptors : List Descriptor) (d : Descriptor) (key : PartitionKey) :
    canonical (descriptors ++ [d]) key =
      if d.key = key then
        some ⟨key, (canonical descriptors key).any Descriptor.primary || d.primary⟩
      else canonical descriptors key := by
  by_cases hkey : d.key = key
  · cases habout : descriptors.filter fun e => decide (e.key = key) with
    | nil => simp [canonical, habout, hkey]
    | cons e rest => simp [canonical, habout, hkey, Bool.or_assoc]
  · simp [canonical, hkey]

section Cells

variable (index : PartitionIndex V) (id : ItemId) (key : PartitionKey)

/-- The flags that are said of a cell add up. -/
theorem partition_link (d : Descriptor) : (index.link id d).partition key =
    if d.key = key then some ⟨key, (index.partition key).any Descriptor.primary || d.primary⟩
    else index.partition key := by
  unfold partition link
  dsimp only
  rw [ExtTreeMap.getElem?_insert]
  by_cases hkey : d.key = key
  · rw [if_pos (Std.LawfulEqCmp.compare_eq_iff_eq.mpr hkey), if_pos hkey, hkey,
      ExtTreeMap.getD_eq_getD_getElem?]
    cases index.cells[key]? with
    | none => rfl
    | some cell => rfl
  · rw [if_neg (fun he => hkey (Std.LawfulEqCmp.compare_eq_iff_eq.mp he)), if_neg hkey]

/-- If an index knows of a cell what some descriptors say, it knows in the end what these and the
new ones say. -/
theorem partition_foldl_link {index : PartitionIndex V} {descriptors : List Descriptor}
    (h : index.partition key = canonical descriptors key) (cells : List Descriptor) :
    (cells.foldl (fun index d => index.link id d) index).partition key =
      canonical (descriptors ++ cells) key := by
  induction cells generalizing index descriptors with
  | nil => rw [List.append_nil, List.foldl_nil, h]
  | cons d cells ih =>
    rw [List.foldl_cons, List.append_cons]
    apply ih
    rw [partition_link, canonical_concat, h]

theorem partition_insert (primary : Bool) (value : V) (cells : List Descriptor) :
    (index.insert id primary value cells).partition key =
      (cells.foldl (fun index d => index.link id d) index).partition key := by
  cases primary
  all_goals rfl

/-- A removal leaves every cell known, with its flag. -/
theorem partition_remove : (index.remove id).partition key = index.partition key := by
  have hleave (cells : ExtTreeMap PartitionKey Cell) (key' : PartitionKey) :
      (leave cells id key')[key]?.map Cell.primary = cells[key]?.map Cell.primary := by
    unfold leave
    cases hcell : cells[key']? with
    | none => rfl
    | some cell =>
      dsimp only
      rw [ExtTreeMap.getElem?_insert]
      split
      · next hkey =>
        rw [← Std.LawfulEqCmp.compare_eq_iff_eq.mp hkey, hcell]
        rfl
      · rfl
  have hfold (keys : List PartitionKey) (cells : ExtTreeMap PartitionKey Cell) :
      (keys.foldl (fun cells key => leave cells id key) cells)[key]?.map Cell.primary =
        cells[key]?.map Cell.primary := by
    induction keys generalizing cells with
    | nil => rfl
    | cons key' keys ih => rw [List.foldl_cons, ih, hleave]
  have hflag (cells : ExtTreeMap PartitionKey Cell) :
      (cells[key]?.map fun cell : Cell => (⟨key, cell.primary⟩ : Descriptor)) =
        (cells[key]?.map Cell.primary).map (Descriptor.mk key) := (Option.map_map ..).symm
  unfold partition remove
  rw [hflag, hfold, ← hflag]

end Cells

section Knows

variable (index : PartitionIndex V) (id id' : ItemId)

theorem knows_iff : index.knows id = true ↔
    id ∈ index.keysOf ∨ ∃ primary value, index.stored primary id = some value := by
  have hvalue (values : ExtTreeMap ItemId V) :
      values.contains id = true ↔ ∃ value, values[id]? = some value := by
    rw [ExtTreeMap.contains_iff_mem, ← ExtTreeMap.isSome_getElem?_iff_mem,
      Option.isSome_iff_exists]
  rw [knows, Bool.or_eq_true, Bool.or_eq_true, hvalue, hvalue, ExtTreeMap.contains_iff_mem,
    or_assoc, Bool.exists_bool, or_comm (a := ∃ value, index.primaries[id]? = some value)]
  rfl

theorem mem_keysOf_foldl_link (cells : List Descriptor) :
    id' ∈ (cells.foldl (fun index d => index.link id d) index).keysOf ↔
      (id' = id ∧ cells ≠ []) ∨ id' ∈ index.keysOf := by
  induction cells generalizing index with
  | nil => simp
  | cons d cells ih =>
    have hone : id' ∈ (index.link id d).keysOf ↔ id' = id ∨ id' ∈ index.keysOf := by
      unfold link
      dsimp only
      rw [ExtTreeMap.mem_insert, Std.LawfulEqCmp.compare_eq_iff_eq, eq_comm]
    rw [List.foldl_cons, ih, hone]
    simp only [ne_eq, reduceCtorEq, not_false_eq_true, and_true]
    constructor
    · rintro (⟨hid, -⟩ | h)
      · exact Or.inl hid
      · exact h
    · exact Or.inr

/-- A stored id is known, in however many cells it lies. -/
theorem knows_insert (primary : Bool) (value : V) (cells : List Descriptor) :
    (index.insert id primary value cells).knows id' = true ↔ id' = id ∨ index.knows id' = true := by
  have hkeys : (index.insert id primary value cells).keysOf =
      (cells.foldl (fun index d => index.link id d) index).keysOf := by
    cases primary
    all_goals rfl
  rw [knows_iff, knows_iff, hkeys, mem_keysOf_foldl_link]
  simp only [stored_insert]
  by_cases hid : id' = id
  · refine iff_of_true (Or.inr ⟨primary, value, ?_⟩) (Or.inl hid)
    rw [if_pos hid, if_pos rfl]
  · simp only [hid, false_and, false_or, if_false]

theorem knows_remove : (index.remove id).knows id' = true ↔ id' ≠ id ∧ index.knows id' = true := by
  have hkeys : id' ∈ (index.remove id).keysOf ↔ id' ≠ id ∧ id' ∈ index.keysOf := by
    show id' ∈ index.keysOf.erase id ↔ _
    rw [ExtTreeMap.mem_erase, ne_eq, Std.LawfulEqCmp.compare_eq_iff_eq, eq_comm]
  rw [knows_iff, knows_iff, hkeys]
  simp only [stored_remove]
  by_cases hid : id' = id
  · simp [hid]
  · simp [hid]

end Knows

section Nodup

variable (index : PartitionIndex V)

theorem nodup_partitionsOf (id : ItemId) : (index.partitionsOf id).Nodup := nodup_toList _

theorem nodup_members (key : PartitionKey) : (index.members key).Nodup := nodup_toList _

end Nodup

namespace Sound

variable {index : PartitionIndex V}

/-- An id comes up once for each cell that it shares. -/
theorem count_coMembers (h : Sound index) (a b : ItemId) : (index.coMembers a).count b =
    ((index.partitionsOf a).toFinset ∩ (index.partitionsOf b).toFinset).card := by
  have hone (key : PartitionKey) : (index.members key).count b =
      if key ∈ index.partitionsOf b then 1 else 0 := by
    rw [(index.nodup_members key).count]
    exact if_congr (h.mirrored b key) rfl rfl
  have hshared : (index.partitionsOf a).toFinset ∩ (index.partitionsOf b).toFinset =
      ((index.partitionsOf a).filter fun key => decide (key ∈ index.partitionsOf b)).toFinset := by
    ext key
    simp
  have hcells (keys : List PartitionKey) : (keys.flatMap index.members).count b =
      (keys.filter fun key => decide (key ∈ index.partitionsOf b)).length := by
    induction keys with
    | nil => rfl
    | cons key keys ih =>
      rw [List.flatMap_cons, List.count_append, hone, ih]
      by_cases hkey : key ∈ index.partitionsOf b
      · rw [if_pos hkey, List.filter_cons_of_pos (by simpa using hkey), List.length_cons,
          Nat.add_comm]
      · rw [if_neg hkey, List.filter_cons_of_neg (by simpa using hkey), Nat.zero_add]
  rw [coMembers, hcells, hshared,
    List.toFinset_card_of_nodup ((index.nodup_partitionsOf a).filter _)]

theorem isConsistent (h : Sound index) : index.isConsistent = true := by
  have hkeys {id : ItemId} {keys : ExtTreeSet PartitionKey} (hid : index.keysOf[id]? = some keys) :
      index.partitionsOf id = keys.toList := by
    rw [partitionsOf, ExtTreeMap.getD_eq_getD_getElem?, hid]
    rfl
  have hmembers {key : PartitionKey} {cell : Cell} (hkey : index.cells[key]? = some cell) :
      index.members key = cell.members.toList := by
    rw [members, ExtTreeMap.getD_eq_getD_getElem?, hkey]
    rfl
  unfold PartitionIndex.isConsistent
  simp only [Bool.and_eq_true, all_eq_true_iff, List.all_eq_true, List.contains_iff_mem]
  refine ⟨⟨fun id keys hid key hkey => ?_, fun key cell hcell id hid => ?_⟩, fun id v hv => ?_⟩
  · rw [h.mirrored, hkeys hid]
    exact hkey
  · rw [← h.mirrored, hmembers hcell]
    exact hid
  · rcases h.exclusive id with hno | hno
    · rw [stored, if_pos rfl, PartitionIndex.primary, hv] at hno
      cases hno
    · rw [Bool.not_eq_true', ← Bool.not_eq_true, ExtTreeMap.contains_iff_mem,
        ← ExtTreeMap.isSome_getElem?_iff_mem]
      rw [stored, if_neg Bool.false_ne_true, other] at hno
      rw [hno]
      exact Bool.false_ne_true

end Sound

theorem sound_after (changes : List (Change V)) : Sound (after changes) := by
  induction changes using List.reverseRecOn with
  | nil => exact sound_empty
  | append_singleton changes last ih =>
    rw [after_concat]
    cases last with
    | insert id primary value cells => exact ih.insert id primary value cells
    | remove id => exact ih.remove id

variable (changes : List (Change V)) (id : ItemId)

/-- An id lies in the cells that it was put into since it was last forgotten. -/
theorem mem_partitionsOf_after (key : PartitionKey) :
    key ∈ (after changes).partitionsOf id ↔
      Since (Change.Places id key) (· ≠ .remove id) changes := by
  induction changes using List.reverseRecOn with
  | nil => exact iff_of_false (by simp [after, empty, partitionsOf]) (not_since_nil _ _)
  | append_singleton changes last ih =>
    rw [after_concat, since_concat, ← ih]
    cases last with
    | insert id' primary value cells =>
      show key ∈ ((after changes).insert id' primary value cells).partitionsOf id ↔ _
      rw [mem_partitionsOf_insert]
      simp
    | remove id' =>
      show key ∈ ((after changes).remove id').partitionsOf id ↔ _
      rw [mem_partitionsOf_remove, and_comm]
      simp [eq_comm (a := id)]

/-- What is known of a cell is what was said of it, by calls that were undone since included. -/
theorem partition_after (key : PartitionKey) :
    (after changes).partition key = canonical (changes.flatMap Change.emitted) key := by
  induction changes using List.reverseRecOn with
  | nil => simp [after, empty, partition, canonical]
  | append_singleton changes last ih =>
    rw [after_concat, List.flatMap_append, List.flatMap_singleton]
    cases last with
    | insert id' primary value cells =>
      show ((after changes).insert id' primary value cells).partition key = _
      rw [partition_insert, partition_foldl_link id' key ih]
      rfl
    | remove id' =>
      show ((after changes).remove id').partition key = _
      rw [partition_remove, ih]
      exact congrArg (canonical · key) (List.append_nil _).symm

/-- The value of an id is what the last call about it stored. -/
theorem stored_after (primary : Bool) (value : V) :
    (after changes).stored primary id = some value ↔
      Since (Change.Stores id primary value) (fun c => c.subject ≠ id) changes := by
  induction changes using List.reverseRecOn with
  | nil =>
    apply iff_of_false _ (not_since_nil _ _)
    cases primary
    all_goals simp [after, empty, stored, PartitionIndex.primary, other]
  | append_singleton changes last ih =>
    rw [after_concat, since_concat, ← ih]
    cases last with
    | insert id' primary' value' cells =>
      show ((after changes).insert id' primary' value' cells).stored primary id = some value ↔ _
      rw [stored_insert]
      by_cases hid : id = id'
      · by_cases hprimary : primary = primary'
        · simp [hid, hprimary, Change.subject, eq_comm]
        · simp [hid, hprimary, Change.subject]
      · simp [hid, Change.subject, Ne.symm hid]
    | remove id' =>
      show ((after changes).remove id').stored primary id = some value ↔ _
      rw [stored_remove]
      by_cases hid : id = id'
      · simp [hid, Change.subject]
      · simp [hid, Change.subject, Ne.symm hid]

/-- A removal finds an id that was stored since it was last forgotten. -/
theorem knows_after : (after changes).knows id = true ↔
    Since (Change.Inserts id) (· ≠ .remove id) changes := by
  induction changes using List.reverseRecOn with
  | nil => exact iff_of_false (by simp [after, empty, knows]) (not_since_nil _ _)
  | append_singleton changes last ih =>
    rw [after_concat, since_concat, ← ih]
    cases last with
    | insert id' primary value cells =>
      show ((after changes).insert id' primary value cells).knows id = true ↔ _
      rw [knows_insert]
      simp
    | remove id' =>
      show ((after changes).remove id').knows id = true ↔ _
      rw [knows_remove]
      simp [eq_comm (a := id)]

/-- An index is the record of the calls that made it. An id and a cell know each other if the id was
put into the cell since it was last forgotten. A cell is known for good once anything was said of
it, and it is primary if it ever was called so. The value of an id is what the last call about it
stored, and a removal finds what was stored since the last one. Ids come up once for each cell that
they share, and the index is consistent throughout. -/
theorem index_tells_its_history :
    (∀ id key, (id ∈ (after changes).members key ↔ key ∈ (after changes).partitionsOf id) ∧
      (key ∈ (after changes).partitionsOf id ↔
        Since (Change.Places id key) (· ≠ .remove id) changes)) ∧
    (∀ key, (after changes).partition key = canonical (changes.flatMap Change.emitted) key) ∧
    (∀ id value, ((after changes).primary id = some value ↔
        Since (Change.Stores id true value) (fun c => c.subject ≠ id) changes) ∧
      ((after changes).other id = some value ↔
        Since (Change.Stores id false value) (fun c => c.subject ≠ id) changes)) ∧
    (∀ id, (after changes).knows id = true ↔
      Since (Change.Inserts id) (· ≠ .remove id) changes) ∧
    (∀ a b, ((after changes).coMembers a).count b =
      (((after changes).partitionsOf a).toFinset ∩
        ((after changes).partitionsOf b).toFinset).card) ∧
    (after changes).isConsistent = true := by
  have hsound := sound_after changes
  refine ⟨fun id key => ⟨hsound.mirrored id key, mem_partitionsOf_after changes id key⟩,
    partition_after changes, fun id value => ⟨?_, ?_⟩, knows_after changes,
    hsound.count_coMembers, hsound.isConsistent⟩
  · exact stored_after changes id true value
  · exact stored_after changes id false value

end PartitionIndex

end DensityClustering

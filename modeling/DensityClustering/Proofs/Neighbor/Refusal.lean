import DensityClustering.Proofs.Neighbor.Chronicle

/-!
Additions that fail. Whether one fails is settled by its value alone, before anything is stored: the
value is not converted, or its placement fails, whatever cells were named until then. So a group is a
record of the other calls, and so is all that can be learned from it later.
-/

namespace DensityClustering

namespace Edit

variable {P V : Type}

/-- What a call changes, or why it fails. -/
def verdict : Edit P V → Except NeighborError (PartitionIndex.Change V)
  | .add intake id primary raw =>
    match intake.convert id raw with
    | .error e => .error (.conversion id e)
    | .ok value =>
      match intake.place raw with
      | ⟨_, some e⟩ => .error (.placement id e)
      | ⟨cells, none⟩ => .ok (.insert id primary value cells)
  | .remove id => .ok (.remove id)

def change (e : Edit P V) : Option (PartitionIndex.Change V) := e.verdict.toOption

def isAccepted (e : Edit P V) : Bool := e.change.isSome

section Add

variable (intake : Intake P V) (id : ItemId) (primary : Bool) (raw : P)

/-- The three things that can come of an addition. -/
theorem verdict_add_cases :
    (∃ e, intake.convert id raw = .error e ∧
      (add intake id primary raw).verdict = .error (.conversion id e)) ∨
    (∃ value cells e, intake.convert id raw = .ok value ∧ intake.place raw = ⟨cells, some e⟩ ∧
      (add intake id primary raw).verdict = .error (.placement id e)) ∨
    (∃ value cells, intake.convert id raw = .ok value ∧ intake.place raw = ⟨cells, none⟩ ∧
      (add intake id primary raw).verdict = .ok (.insert id primary value cells)) := by
  cases hconvert : intake.convert id raw with
  | error e => exact Or.inl ⟨e, rfl, by simp only [verdict, hconvert]⟩
  | ok value =>
    rcases hplace : intake.place raw with ⟨cells, _ | e⟩
    · exact Or.inr (Or.inr ⟨value, cells, rfl, rfl, by simp only [verdict, hconvert, hplace]⟩)
    · exact Or.inr (Or.inl ⟨value, cells, e, rfl, rfl, by simp only [verdict, hconvert, hplace]⟩)

/-- An addition fails exactly if the value is not converted, or is converted and its placement then
fails, after any cells. -/
theorem isAccepted_add_eq_false : (add intake id primary raw).isAccepted = false ↔
    (∃ e, intake.convert id raw = .error e) ∨
    ∃ value cells e, intake.convert id raw = .ok value ∧ intake.place raw = ⟨cells, some e⟩ := by
  unfold isAccepted change
  rcases verdict_add_cases intake id primary raw with
    ⟨e, hconvert, he⟩ | ⟨value, cells, e, hconvert, hplace, he⟩ | ⟨value, cells, hconvert, hplace, he⟩
  · simp [he, hconvert, Except.toOption]
  · simp [he, hconvert, hplace, Except.toOption]
  · simp [he, hconvert, hplace, Except.toOption]

end Add

/-- The calls that do not fail make the changes. -/
theorem filterMap_change_filter_isAccepted (edits : List (Edit P V)) :
    (edits.filter isAccepted).filterMap change = edits.filterMap change := by
  rw [List.filterMap_filter]
  refine List.filterMap_congr fun e _ => ?_
  unfold isAccepted
  cases e.change with
  | none => rfl
  | some c => rfl

end Edit

/-- The id that a change offers as the first primary. -/
def PartitionIndex.Change.starter {V : Type} : PartitionIndex.Change V → Option ItemId
  | .insert id true _ _ => some id
  | _ => none

namespace Group

variable {P V : Type} (g : Group V)

/-- A group after a change of its index. The first id that was offered stays the first primary. -/
def change (c : PartitionIndex.Change V) : Group V :=
  { g with index := g.index.apply c, first := g.first.or c.starter }

/-- The answer of an addition does not depend on what is stored already. -/
theorem add_eq (intake : Intake P V) (id : ItemId) (primary : Bool) (raw : P) :
    g.add intake id primary raw = (Edit.add intake id primary raw).verdict.map g.change := by
  unfold add
  rcases Edit.verdict_add_cases intake id primary raw with
    ⟨e, hconvert, he⟩ | ⟨value, cells, e, hconvert, hplace, he⟩ | ⟨value, cells, hconvert, hplace, he⟩
  · rw [he, hconvert]
    rfl
  · rw [he, hconvert, hplace]
    rfl
  · rw [he, hconvert, hplace]
    cases primary with
    | true => rfl
    | false =>
      show _ = Except.ok { g with index := g.index.insert id false value cells,
                                  first := g.first.or none }
      rw [Option.or_none]
      rfl

/-- A call makes its change, if it has one. -/
theorem edit_eq (e : Edit P V) : g.edit e = e.change.elim g g.change := by
  cases e with
  | remove id =>
    show g.remove id = { g with index := g.index.remove id, first := g.first.or none }
    rw [Option.or_none]
    rfl
  | add intake id primary raw =>
    rw [edit, tryAdd, add_eq, Edit.change]
    cases (Edit.add intake id primary raw).verdict with
    | error e => rfl
    | ok c => rfl

/-- A group is made by the changes alone. -/
theorem foldl_edit (edits : List (Edit P V)) :
    edits.foldl edit g = (edits.filterMap Edit.change).foldl change g := by
  induction edits generalizing g with
  | nil => rfl
  | cons e edits ih =>
    rw [List.foldl_cons, ih, edit_eq]
    cases hchange : e.change with
    | none => rw [List.filterMap_cons_none hchange, Option.elim_none]
    | some c => rw [List.filterMap_cons_some hchange, Option.elim_some, List.foldl_cons]

theorem index_foldl_change (changes : List (PartitionIndex.Change V)) :
    (changes.foldl change g).index = changes.foldl PartitionIndex.apply g.index := by
  induction changes generalizing g with
  | nil => rfl
  | cons c changes ih => exact ih (g.change c)

theorem first_foldl_change (changes : List (PartitionIndex.Change V)) :
    (changes.foldl change g).first =
      g.first.or (changes.findSome? PartitionIndex.Change.starter) := by
  induction changes generalizing g with
  | nil => exact Option.or_none.symm
  | cons c changes ih =>
    have hfirst : (g.change c).first = g.first.or c.starter := rfl
    rw [List.foldl_cons, ih, hfirst, Option.or_assoc, List.findSome?_cons]
    cases c.starter with
    | none => rfl
    | some id => rfl

variable (maxDistance : Float) (parent : Descriptor) (edits edits' : List (Edit P V))

/-- The index is the record of the changes. -/
theorem index_edited : (edited maxDistance parent edits).index =
    PartitionIndex.after (edits.filterMap Edit.change) := by
  rw [edited, foldl_edit, index_foldl_change]
  rfl

/-- In every group that calls lead to, ids and cells know each other in both directions, and no id is
stored twice. -/
theorem sound_edited : (edited maxDistance parent edits).index.Sound := by
  rw [index_edited]
  exact PartitionIndex.sound_after _

/-- The first primary is the one that was stored first, whatever became of it. -/
theorem first_edited : (edited maxDistance parent edits).first =
    (edits.filterMap Edit.change).findSome? PartitionIndex.Change.starter := by
  rw [edited, foldl_edit, first_foldl_change]
  exact Option.none_or

/-- Calls with the same changes make the same group. -/
theorem edited_congr (h : edits.filterMap Edit.change = edits'.filterMap Edit.change) :
    edited maxDistance parent edits = edited maxDistance parent edits' := by
  rw [edited, edited, foldl_edit, foldl_edit, h]

/-- An addition fails when its value is not converted or not placed, whatever was stored and named
before. Without the calls that fail, some calls lead to the same group, and so do any later calls
after them; every traversal of it goes alike; its first primary is the first one that was stored,
and its index tells of the accepted calls only. -/
theorem refused_additions_leave_no_trace (later : List (Edit P V)) :
    let kept := edits.filter Edit.isAccepted
    let g := edited maxDistance parent (edits ++ later)
    let g' := edited maxDistance parent (kept ++ later)
    (∀ (intake : Intake P V) (id : ItemId) (primary : Bool) (raw : P),
      ((Edit.add intake id primary raw).isAccepted = false ↔
        (∃ e, intake.convert id raw = .error e) ∨
        ∃ value cells e, intake.convert id raw = .ok value ∧ intake.place raw = ⟨cells, some e⟩) ∧
      ∀ before : Group V, (Edit.add intake id primary raw).isAccepted = false ↔
        ∃ e, before.add intake id primary raw = .error e) ∧
    g = g' ∧
    (∀ {σ C L : Type} (c : Collaborators σ V C L) (shared : σ),
      g.traverse c shared = g'.traverse c shared) ∧
    (edited maxDistance parent edits).first =
      (kept.filterMap Edit.change).findSome? PartitionIndex.Change.starter ∧
    (edited maxDistance parent edits).index =
      PartitionIndex.after (kept.filterMap Edit.change) := by
  intro kept g g'
  have hkept : kept.filterMap Edit.change = edits.filterMap Edit.change :=
    Edit.filterMap_change_filter_isAccepted edits
  have hgroup : g = g' := by
    apply edited_congr
    rw [List.filterMap_append, List.filterMap_append, hkept]
  refine ⟨fun intake id primary raw => ⟨?_, fun before => ?_⟩, hgroup, fun c shared => ?_, ?_, ?_⟩
  · exact Edit.isAccepted_add_eq_false intake id primary raw
  · rw [add_eq, Edit.isAccepted, Edit.change]
    cases (Edit.add intake id primary raw).verdict with
    | error e => exact iff_of_true rfl ⟨e, rfl⟩
    | ok c => exact iff_of_false Bool.false_ne_true.symm nofun
  · rw [hgroup]
  · rw [hkept, first_edited]
  · rw [hkept, index_edited]

end Group

end DensityClustering

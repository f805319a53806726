import DensityClustering.Proofs.Neighbor.SharedState

/-!
Collaborators that differ only on states that never come up. Where the states that do come up stay
among those on which both answer alike, the traversals are the same.
-/

namespace DensityClustering

variable {V σ C L : Type} {I : σ → Prop} {c c' : Collaborators σ V C L}

/-- Whatever the collaborators do in a state with the property leads to one with the property. -/
structure Keeps (I : σ → Prop) (c : Collaborators σ V C L) : Prop where
  build : ∀ id v s, I s → I (c.lists.build id v s).2
  add : ∀ l p id v s, I s → I (c.lists.add l p id v s).2.2
  measure : ∀ a b s, I s → I (c.measure a b s).2
  complete : ∀ id v l s, I s → I (c.complete id v l s).2

/-- Both collaborators answer alike in states with the property. -/
structure Agree (I : σ → Prop) (c c' : Collaborators σ V C L) : Prop where
  build : ∀ id v s, I s → c'.lists.build id v s = c.lists.build id v s
  add : ∀ l p id v s, I s → c'.lists.add l p id v s = c.lists.add l p id v s
  infer : ∀ l id v s, I s → c'.lists.infer l id v s = c.lists.infer l id v s
  measure : ∀ a b s, I s → c'.measure a b s = c.measure a b s
  complete : ∀ id v l s, I s → c'.complete id v l s = c.complete id v l s

theorem Agree.refl (I : σ → Prop) (c : Collaborators σ V C L) : Agree I c c :=
  ⟨fun _ _ _ _ => rfl, fun _ _ _ _ _ _ => rfl, fun _ _ _ _ _ => rfl, fun _ _ _ _ => rfl,
    fun _ _ _ _ _ => rfl⟩

/-- The collaborators, with no other states than those that have the property. -/
def Collaborators.restrict (c : Collaborators σ V C L) (h : Keeps I c) :
    Collaborators { s // I s } V C L where
  lists := {
    build := fun id v s => ((c.lists.build id v s).1, ⟨_, h.build id v s s.2⟩)
    add := fun l p id v s =>
      ((c.lists.add l p id v s).1, (c.lists.add l p id v s).2.1, ⟨_, h.add l p id v s s.2⟩)
    infer := fun l id v s => c.lists.infer l id v s }
  measure a b s := ((c.measure a b s).1, ⟨_, h.measure a b s s.2⟩)
  complete id v l s := ((c.complete id v l s).1, ⟨_, h.complete id v l s s.2⟩)

theorem Agree.simulates (h : Keeps I c) (hagree : Agree I c c') :
    Simulates Subtype.val (c.restrict h) c' where
  build id v s := hagree.build id v s s.2
  add l p id v s := hagree.add l p id v s s.2
  infer l id v s := hagree.infer l id v s s.2
  measure a b s := hagree.measure a b s s.2
  complete id v l s := hagree.complete id v l s s.2

/-- Collaborators that agree where it matters make the same traversal. -/
theorem Agree.traverse_eq (h : Keeps I c) (hagree : Agree I c c') (g : Group V) {s : σ}
    (hs : I s) : g.traverse c' s = g.traverse c s :=
  ((hagree.simulates h).traverse g ⟨s, hs⟩).trans
    (((Agree.refl I c).simulates h).traverse g ⟨s, hs⟩).symm

/-- What the collaborators keep, a traversal keeps. -/
theorem Keeps.traverse (h : Keeps I c) (g : Group V) {s : σ} (hs : I s) :
    I (g.traverse c s).shared := by
  have himage := ((Agree.refl I c).simulates h).traverse g ⟨s, hs⟩
  rw [show g.traverse c s = _ from himage]
  exact (g.traverse (c.restrict h) ⟨s, hs⟩).shared.2

end DensityClustering

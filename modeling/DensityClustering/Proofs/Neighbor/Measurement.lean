import Mathlib.Data.List.Basic
import DensityClustering.Proofs.Neighbor.Exactness

/-!
Which distances a traversal asks for. A visit measures some of its center's neighbours, each once,
and of the primaries only those that still wait. So no two visits measure the same pair, whatever
the lists answer and wherever the traversal stops.
-/

namespace DensityClustering

open Std (ExtTreeSet)

/-- The center and the neighbour whose distance was asked for. -/
def Event.pair {L : Type} : Event L → Option (ItemId × ItemId)
  | built _ => none
  | measured center neighbor => some (center, neighbor)
  | completed _ _ => none

theorem filterMap_pair_dealings {L : Type} (journal : List (Event L)) :
    (dealings journal).filterMap Event.pair = journal.filterMap Event.pair := by
  induction journal with
  | nil => rfl
  | cons e journal ih =>
    cases e with
    | built center => exact ih
    | measured center neighbor => exact congrArg ((center, neighbor) :: ·) ih
    | completed center list => exact ih

/-- The distances that were asked for, in order. -/
def Outcome.calls {σ L : Type} (o : Outcome σ L) : List (ItemId × ItemId) :=
  o.journal.filterMap Event.pair

namespace NeighborIndex

variable {σ V C L : Type} (kind : ListKind σ V C L) (index : NeighborIndex σ L)

/-- The distances that were asked for so far. -/
def calls : List (ItemId × ItemId) := index.journal.reverse.filterMap Event.pair

theorem calls_eq_of_dealings {index index' : NeighborIndex σ L}
    (h : dealings index'.journal.reverse = dealings index.journal.reverse) :
    index'.calls = index.calls := by
  unfold calls
  rw [← filterMap_pair_dealings, ← filterMap_pair_dealings index.journal.reverse, h]

theorem calls_note (event : Event L) :
    (index.note event).calls = index.calls ++ event.pair.toList := by
  show (event :: index.journal).reverse.filterMap Event.pair = _
  rw [List.reverse_cons, List.filterMap_append]
  cases event with
  | built center => rfl
  | measured center neighbor => rfl
  | completed center list => rfl

theorem calls_init (id : ItemId) (v : V) : (index.init kind id v).1.calls = index.calls :=
  calls_eq_of_dealings (dealings_init kind index id v)

theorem calls_add (profile : DistanceProfile C) (id : ItemId) (v : V) (t : ItemId) (u : V)
    (primary : Bool) : (index.add kind profile id v t u primary).1.calls = index.calls :=
  add_of_offer kind (I := fun index' => index'.calls = index.calls)
    (fun index' id v t u h =>
      (calls_eq_of_dealings (dealings_offer kind index' profile id v t u)).trans h) primary rfl

end NeighborIndex

namespace Group

variable {V σ C L : Type} {g : Group V} {c : Collaborators σ V C L} {center n : ItemId}
  {value : V}

/-- From one walk to the next a center asked for its distances to some neighbours, each of which is
one of the others or a primary that waited. -/
structure Asks (g : Group V) (center : ItemId) (asked : List ItemId) (w after : Walk σ L) :
    Prop where
  calls : after.lists.calls = w.lists.calls ++ asked.map fun n => (center, n)
  waiting : ∀ n ∈ asked, (g.index.primary n).isSome = true → n ∈ w.pending
  other : ∀ n ∈ asked, g.index.primary n = none → (g.index.other n).isSome = true
  fewer : ∀ id ∈ after.pending, id ∈ w.pending

namespace Asks

variable {asked asked' : List ItemId} {w between after : Walk σ L}

theorem nothing (hcalls : after.lists.calls = w.lists.calls)
    (hfewer : ∀ id ∈ after.pending, id ∈ w.pending) : Asks g center [] w after :=
  ⟨hcalls.trans (List.append_nil _).symm, by simp, by simp, hfewer⟩

theorem trans (h : Asks g center asked w between) (h' : Asks g center asked' between after) :
    Asks g center (asked ++ asked') w after := by
  refine ⟨?_, fun n hn hprimary => ?_, fun n hn hnone => ?_, fun id hid => ?_⟩
  · rw [h'.calls, h.calls, List.map_append, List.append_assoc]
  · rcases List.mem_append.mp hn with hn | hn
    · exact h.waiting n hn hprimary
    · exact h.fewer n (h'.waiting n hn hprimary)
  · rcases List.mem_append.mp hn with hn | hn
    · exact h.other n hn hnone
    · exact h'.other n hn hnone
  · exact h.fewer id (h'.fewer id hid)

/-- The last step may be one that asks for nothing. -/
theorem of_same (h : Asks g center asked w between)
    (hcalls : after.lists.calls = between.lists.calls)
    (hpending : after.pending = between.pending) : Asks g center asked w after :=
  ⟨hcalls.trans h.calls, h.waiting, h.other, fun id hid => h.fewer id (hpending ▸ hid)⟩

end Asks

/-- Whatever comes of a measurement, it is in the journal, and nobody is dropped. -/
theorem calls_consider_of_infer {s : Scan σ L} (value : V) {v : V} {primary : Bool}
    (hcandidate : g.candidate s.walk.pending n = some (v, primary))
    (hanswer : s.walk.lists.infer c.lists center n v = .none) :
    (g.consider c center value n s).1.walk.lists.calls = s.walk.lists.calls ++ [(center, n)] ∧
      (g.consider c center value n s).1.walk.pending = s.walk.pending := by
  cases hmeasure : c.measure value v s.walk.lists.shared with
  | mk outcome shared =>
    have hnoted : ({ s.walk.lists with shared := shared }.note (.measured center n)).calls =
        s.walk.lists.calls ++ [(center, n)] := NeighborIndex.calls_note ..
    cases outcome with
    | error e =>
      simp only [consider, hcandidate, hanswer, hmeasure, and_true]
      exact hnoted
    | ok profile =>
      have hwalk : (g.consider c center value n s).1.walk =
          ⟨if profile.distance ≤ g.maxDistance then
              (({ s.walk.lists with shared := shared }.note (.measured center n)).add c.lists
                profile center value n v primary).1
            else { s.walk.lists with shared := shared }.note (.measured center n),
            s.walk.pending⟩ := by
        simp only [consider, hcandidate, hanswer, hmeasure]
        split
        · rfl
        · rfl
      rw [hwalk]
      refine ⟨?_, rfl⟩
      dsimp only
      split
      · exact (NeighborIndex.calls_add ..).trans hnoted
      · exact hnoted

/-- A neighbour is measured at most once when it is dealt with, even if that fails. -/
theorem exists_asks_consider (s : Scan σ L) : ∃ asked, List.Sublist asked [n] ∧
    Asks g center asked s.walk (g.consider c center value n s).1.walk := by
  cases hcandidate : g.candidate s.walk.pending n with
  | none =>
    refine ⟨[], List.nil_sublist _, .nothing ?_ ?_⟩
    · simp only [consider, hcandidate]
    · simp only [consider, hcandidate]
      exact fun _ hid => hid
  | some found =>
    obtain ⟨v, primary⟩ := found
    cases hanswer : s.walk.lists.infer c.lists center n v with
    | skip =>
      refine ⟨[], List.nil_sublist _, .nothing ?_ ?_⟩
      · simp only [consider, hcandidate, hanswer]
      · simp only [consider, hcandidate, hanswer]
        exact fun _ hid => hid
    | remove =>
      refine ⟨[], List.nil_sublist _, .nothing ?_ ?_⟩
      · simp only [consider, hcandidate, hanswer]
      · simp only [consider, hcandidate, hanswer]
        exact fun _ hid => ExtTreeSet.mem_of_mem_erase hid
    | none =>
      obtain ⟨hcalls, hpending⟩ := calls_consider_of_infer value hcandidate hanswer
      refine ⟨[n], List.Sublist.refl _, hcalls, fun m hm hprimary => ?_, fun m hm hnone => ?_,
        fun id hid => hpending ▸ hid⟩
      · rw [List.mem_singleton.mp hm] at hprimary ⊢
        rcases candidate_eq_some.mp hcandidate with ⟨-, -, hmem⟩ | ⟨-, hnone, -⟩
        · exact hmem
        · rw [hnone] at hprimary
          cases hprimary
      · rw [List.mem_singleton.mp hm] at hnone ⊢
        rcases candidate_eq_some.mp hcandidate with ⟨-, hsome, -⟩ | ⟨-, -, hother⟩
        · rw [hnone] at hsome
          cases hsome
        · rw [hother]
          rfl

theorem exists_asks_scan (neighbors : List ItemId) (s : Scan σ L) :
    ∃ asked, List.Sublist asked neighbors ∧
      Asks g center asked s.walk (g.scan c center value neighbors s).1.walk := by
  induction neighbors generalizing s with
  | nil => exact ⟨[], List.Sublist.refl _, .nothing rfl fun _ hid => hid⟩
  | cons n rest ih =>
    obtain ⟨first, hfirst, hone⟩ : ∃ asked, List.Sublist asked [n] ∧
        Asks g center asked s.walk (g.consider c center value n s).1.walk :=
      exists_asks_consider s
    unfold scan
    cases hstep : g.consider c center value n s with
    | mk between failure =>
      rw [hstep] at hone
      cases failure with
      | some e =>
        exact ⟨first, hfirst.trans (List.cons_sublist_cons.mpr (List.nil_sublist _)), hone⟩
      | none =>
        obtain ⟨later, hlater, hrest⟩ := ih between
        exact ⟨first ++ later, hfirst.append hlater, hone.trans hrest⟩

/-- A center is handed over without a measurement. -/
theorem calls_finish (w : Walk σ L) :
    (finish c center value w).1.lists.calls = w.lists.calls := by
  unfold finish
  split
  · rfl
  · next list _ =>
    have hnoted (shared : σ) : ({ w.lists with shared := shared }.note
        (.completed center list)).calls = w.lists.calls :=
      (NeighborIndex.calls_note ..).trans (List.append_nil _)
    dsimp only
    split
    · exact hnoted _
    · exact hnoted _

/-- A visit measures some of its center's neighbours, if that one is a primary, even if it fails. -/
theorem exists_asks_visit (w : Walk σ L) : ∃ asked, List.Sublist asked (g.neighbors center) ∧
    (asked ≠ [] → (g.index.primary center).isSome = true) ∧
    Asks g center asked ⟨w.lists, w.pending.erase center⟩ (g.visit c w center).1 := by
  unfold visit
  dsimp only
  split
  · exact ⟨[], List.nil_sublist _, fun h => absurd rfl h, .nothing rfl fun _ hid => hid⟩
  · next value hvalue =>
    have hcalls : (w.lists.init c.lists center value).1.calls = w.lists.calls :=
      NeighborIndex.calls_init ..
    split
    · next lists hinit =>
      rw [hinit] at hcalls
      exact ⟨[], List.nil_sublist _, fun h => absurd rfl h, .nothing hcalls fun _ hid => hid⟩
    · next lists list hinit =>
      rw [hinit] at hcalls
      obtain ⟨asked, hsub, hasks⟩ : ∃ asked, List.Sublist asked (g.neighbors center) ∧
          Asks g center asked ⟨lists, w.pending.erase center⟩ (g.scan c center value
            (g.neighbors center) ⟨⟨lists, w.pending.erase center⟩, 0, none⟩).1.walk :=
        exists_asks_scan (g.neighbors center) ⟨⟨lists, w.pending.erase center⟩, 0, none⟩
      have hstart : Asks g center asked ⟨w.lists, w.pending.erase center⟩ (g.scan c center value
          (g.neighbors center) ⟨⟨lists, w.pending.erase center⟩, 0, none⟩).1.walk := by
        refine ⟨?_, hasks.waiting, hasks.other, hasks.fewer⟩
        rw [hasks.calls]
        exact congrArg (· ++ _) hcalls
      refine ⟨asked, hsub, fun _ => by rw [hvalue]; rfl, ?_⟩
      split
      · next s e hscan =>
        rw [hscan] at hstart
        exact hstart
      · next s hscan =>
        rw [hscan] at hstart
        have hsame : (finish c center value s.walk).1.lists.calls = s.walk.lists.calls :=
          calls_finish s.walk
        have hpending := finish_pending c center value s.walk
        split
        · next heq =>
          rw [heq] at hsame hpending
          exact hstart.of_same hsame hpending
        · next heq =>
          rw [heq] at hsame hpending
          exact hstart.of_same hsame hpending

/-- Two distance calls are about different pairs, whichever of two ids was the center. -/
def Unlike (p q : ItemId × ItemId) : Prop := p ≠ q ∧ p ≠ q.swap

/-- What a tour through the centers `visited` asks for. -/
structure Toured (g : Group V) (w : Walk σ L) (visited : List ItemId)
    (asked : List (ItemId × ItemId)) : Prop where
  distinct : visited.Nodup
  waited : ∀ id ∈ visited, id ∈ w.pending
  center : ∀ a b, (a, b) ∈ asked → a ∈ visited ∧ (g.index.primary a).isSome = true
  neighbor : ∀ a b, (a, b) ∈ asked → b ∈ g.neighbors a
  primary : ∀ a b, (a, b) ∈ asked → (g.index.primary b).isSome = true →
    b ∈ w.pending ∧ visited.idxOf a < visited.idxOf b
  other : ∀ a b, (a, b) ∈ asked → g.index.primary b = none → (g.index.other b).isSome = true
  unlike : asked.Pairwise Unlike

namespace Toured

variable {w between : Walk σ L} {visited : List ItemId} {asked : List (ItemId × ItemId)}
  {first : List ItemId}

theorem nil (w : Walk σ L) : Toured g w [] [] := by
  refine ⟨List.nodup_nil, ?_, ?_, ?_, ?_, ?_, List.Pairwise.nil⟩
  all_goals simp

/-- One more visit in front. -/
theorem cons (h : Toured g between visited asked) (hmem : center ∈ w.pending)
    (hsub : List.Sublist first (g.neighbors center))
    (hprimary : first ≠ [] → (g.index.primary center).isSome = true)
    (hasks : Asks g center first ⟨w.lists, w.pending.erase center⟩ between) :
    Toured g w (center :: visited) (first.map (fun n => (center, n)) ++ asked) := by
  have hwaits (id : ItemId) (hid : id ∈ w.pending.erase center) : id ≠ center ∧ id ∈ w.pending := by
    rw [ExtTreeSet.mem_erase, ne_eq, Std.LawfulEqCmp.compare_eq_iff_eq, eq_comm] at hid
    exact hid
  have hlater (id : ItemId) (hid : id ∈ between.pending) : id ≠ center ∧ id ∈ w.pending :=
    hwaits id (hasks.fewer id hid)
  have hsplit {a b : ItemId} (hab : (a, b) ∈ first.map (fun n => (center, n)) ++ asked) :
      (a = center ∧ b ∈ first) ∨ (a, b) ∈ asked := by
    rcases List.mem_append.mp hab with hab | hab
    · obtain ⟨n, hn, he⟩ := List.mem_map.mp hab
      cases he
      exact Or.inl ⟨rfl, hn⟩
    · exact Or.inr hab
  refine ⟨List.nodup_cons.mpr ⟨fun hin => (hlater center (h.waited center hin)).1 rfl, h.distinct⟩,
    fun id hid => ?_, fun a b hab => ?_, fun a b hab => ?_, fun a b hab hb => ?_,
    fun a b hab hb => ?_, ?_⟩
  · rcases List.mem_cons.mp hid with hid | hid
    · rw [hid]
      exact hmem
    · exact (hlater id (h.waited id hid)).2
  · rcases hsplit hab with ⟨ha, hb⟩ | hab
    · rw [ha]
      exact ⟨List.mem_cons_self, hprimary (List.ne_nil_of_mem hb)⟩
    · exact ⟨List.mem_cons_of_mem _ (h.center a b hab).1, (h.center a b hab).2⟩
  · rcases hsplit hab with ⟨ha, hb⟩ | hab
    · rw [ha]
      exact hsub.subset hb
    · exact h.neighbor a b hab
  -- primary: the center comes first, and what the later visits measure still waits then
  · rcases hsplit hab with ⟨ha, hn⟩ | hab
    · obtain ⟨hne, hin⟩ := hwaits b (hasks.waiting b hn hb)
      refine ⟨hin, ?_⟩
      rw [ha, List.idxOf_cons_self, List.idxOf_cons_ne _ hne.symm]
      exact Nat.succ_pos _
    · obtain ⟨hin, hlt⟩ := h.primary a b hab hb
      have hne : a ≠ center := (hlater a (h.waited a (h.center a b hab).1)).1
      refine ⟨(hlater b hin).2, ?_⟩
      rw [List.idxOf_cons_ne _ hne.symm, List.idxOf_cons_ne _ (hlater b hin).1.symm]
      exact Nat.succ_lt_succ hlt
  · rcases hsplit hab with ⟨-, hn⟩ | hab
    · exact hasks.other b hn hb
    · exact h.other a b hab hb
  · refine List.pairwise_append.mpr ⟨?_, h.unlike, fun p hp q hq => ?_⟩
    · rw [List.pairwise_map]
      have hnodup : first.Nodup := hsub.nodup (g.neighbors_nodup center)
      refine hnodup.imp_of_mem fun {m n} hm _ hne => ⟨fun he => hne (congrArg Prod.snd he), ?_⟩
      intro he
      exact (g.mem_neighbors.mp (hsub.subset hm)).1 (congrArg Prod.snd he)
    · obtain ⟨n, hn, rfl⟩ := List.mem_map.mp hp
      obtain ⟨a, b⟩ := q
      have hne : a ≠ center := (hlater a (h.waited a (h.center a b hq).1)).1
      refine ⟨fun he => hne (congrArg Prod.fst he).symm, fun he => ?_⟩
      -- As a neighbour the center would be a primary that waits, which it no longer is.
      have hb : b = center := (congrArg Prod.fst he).symm
      have hcenter : (g.index.primary b).isSome = true := by
        rw [hb]
        exact hprimary (List.ne_nil_of_mem hn)
      exact (hlater b (h.primary a b hq hcenter).1).1 hb

end Toured

/-- Tours that fail on the way included. -/
theorem Tour.toured {w after : Walk σ L} {next : Option ItemId} {stops : List (Walk σ L × ItemId)}
    {failure : Option (ItemId × TraversalCause)} (h : Tour g c w next stops after failure)
    (hnext : ∀ id, next = some id → id ∈ w.pending) :
    ∃ asked, after.lists.calls = w.lists.calls ++ asked ∧
      Toured g w (stops.map Prod.snd) asked := by
  induction h with
  | @arrived w next hnothing => exact ⟨[], (List.append_nil _).symm, .nil w⟩
  | @stopped w after next center cause hchosen hvisited =>
    obtain ⟨first, hsub, hprimary, hasks⟩ : ∃ asked, _ ∧ _ ∧
        Asks g center asked ⟨w.lists, w.pending.erase center⟩ (g.visit c w center).1 :=
      exists_asks_visit w
    rw [hvisited] at hasks
    refine ⟨first.map (fun n => (center, n)) ++ [], ?_,
      (Toured.nil after).cons (mem_of_next hnext hchosen) hsub hprimary hasks⟩
    rw [List.append_nil]
    exact hasks.calls
  | @onward w between after next farthest center stops failure hchosen hvisited _ ih =>
    obtain ⟨first, hsub, hprimary, hasks⟩ : ∃ asked, _ ∧ _ ∧
        Asks g center asked ⟨w.lists, w.pending.erase center⟩ (g.visit c w center).1 :=
      exists_asks_visit w
    rw [hvisited] at hasks
    obtain ⟨asked, hcalls, htoured⟩ := ih (g.farthest_waits c hvisited)
    refine ⟨first.map (fun n => (center, n)) ++ asked, ?_,
      htoured.cons (mem_of_next hnext hchosen) hsub hprimary hasks⟩
    rw [hcalls, hasks.calls, List.append_assoc]

/-- No pair is measured twice, be the traversal completed or not and whatever lists, distances and
receivers answer. The center of a call is a primary that is visited, and not one of the others; the
other id differs from it, shares a cell with it, and is one of the others or a primary that is not
visited before. -/
theorem pairs_measured_once {P : Type} (maxDistance : Float) (parent : Descriptor)
    (edits : List (Edit P V)) (c : Collaborators σ V C L) (shared : σ) :
    let g : Group V := edited maxDistance parent edits
    let outcome := g.traverse c shared
    ∃ stops after failure, Tour g c (g.departure shared) g.startingPoint stops after failure ∧
      outcome = ⟨after.lists.shared, after.lists.journal.reverse,
        failure.map fun (id, cause) => .traversal g.parent.key id cause⟩ ∧
      (stops.map Prod.snd).Nodup ∧
      outcome.calls.Pairwise Unlike ∧
      ∀ a b, (a, b) ∈ outcome.calls →
        a ≠ b ∧ g.sharesCell a b = true ∧ a ∈ stops.map Prod.snd ∧
        (g.index.primary a).isSome = true ∧ g.index.other a = none ∧
        ((g.index.primary b).isSome = true →
          (stops.map Prod.snd).idxOf a < (stops.map Prod.snd).idxOf b) ∧
        (g.index.primary b = none → (g.index.other b).isSome = true) := by
  intro g outcome
  have hsound : g.index.Sound := sound_edited maxDistance parent edits
  obtain ⟨stops, after, failure, htour, houtcome⟩ :=
    exists_tour_of_traverse (g := g) (c := c) shared
  obtain ⟨asked, hasked, htoured⟩ := htour.toured (g.startingPoint_waits shared)
  have hcalls : outcome.calls = asked := by
    show (g.traverse c shared).calls = asked
    rw [houtcome]
    exact hasked
  refine ⟨stops, after, failure, htour, houtcome, htoured.distinct, ?_, fun a b hab => ?_⟩
  · rw [hcalls]
    exact htoured.unlike
  · rw [hcalls] at hab
    obtain ⟨ha, hprimary⟩ := htoured.center a b hab
    obtain ⟨hne, hcell⟩ := (mem_neighbors_iff_sharesCell hsound).mp (htoured.neighbor a b hab)
    have hother : g.index.other a = none := by
      apply (hsound.exclusive a).resolve_left
      show ¬g.index.primary a = none
      rw [← Option.not_isSome_iff_eq_none]
      exact fun hno => hno hprimary
    exact ⟨hne.symm, hcell, ha, hprimary, hother, fun hb => (htoured.primary a b hab hb).2,
      htoured.other a b hab⟩

end Group

end DensityClustering

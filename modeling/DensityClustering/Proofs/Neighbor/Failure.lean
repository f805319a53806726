import DensityClustering.Proofs.Neighbor.Measurement

/-!
Which distance stops a traversal. Where the distance of two values depends on nothing but the values,
every call up to the last one got a distance, and the traversal stops for a distance exactly when the
last call did not get one.
-/

namespace DensityClustering

open Std (ExtTreeSet)

namespace Group

variable {V σ C L : Type} (g : Group V) (profile : V → V → Except String (DistanceProfile C))

/-- What is said to a call for a distance, if both ids are stored. -/
def answer (call : ItemId × ItemId) : Option (Except String (DistanceProfile C)) :=
  (g.index.primary call.1).bind fun u => (g.value call.2).map fun v => profile u v

variable {profile} in
theorem answer_eq_some {center neighbor : ItemId} {said : Except String (DistanceProfile C)} :
    g.answer profile (center, neighbor) = some said ↔
      ∃ u v, g.index.primary center = some u ∧ g.value neighbor = some v ∧ profile u v = said := by
  simp only [answer, Option.bind_eq_some_iff, Option.map_eq_some_iff]
  constructor
  · rintro ⟨u, hu, v, hv, hsaid⟩
    exact ⟨u, v, hu, hv, hsaid⟩
  · rintro ⟨u, v, hu, hv, hsaid⟩
    exact ⟨u, hu, v, hv, hsaid⟩

/-- All calls got a distance. -/
def AllMeasured (calls : List (ItemId × ItemId)) : Prop :=
  ∀ call ∈ calls, ∃ d, g.answer profile call = some (.ok d)

/-- The calls of a walk, and why it stopped: each call got a distance, and no distance was the
reason; or the last one did not get a distance, and that was the reason. -/
inductive Ended : List (ItemId × ItemId) → Option (ItemId × TraversalCause) → Prop
  | measured {calls : List (ItemId × ItemId)} {failure : Option (ItemId × TraversalCause)}
      (all : g.AllMeasured profile calls)
      (other : ∀ center e, failure ≠ some (center, .distance e)) : Ended calls failure
  | failed {before : List (ItemId × ItemId)} {center neighbor : ItemId} {e : String}
      (all : g.AllMeasured profile before)
      (last : g.answer profile (center, neighbor) = some (.error e)) :
      Ended (before ++ [(center, neighbor)]) (some (center, .distance e))

namespace Ended

variable {g profile} {calls : List (ItemId × ItemId)} {failure : Option (ItemId × TraversalCause)}
  {center : ItemId} {e : String}

theorem of_none (all : g.AllMeasured profile calls) : Ended g profile calls none :=
  .measured all fun _ _ => nofun

theorem allMeasured (h : Ended g profile calls none) : g.AllMeasured profile calls := by
  cases h with
  | measured all _ => exact all

/-- The walk stopped for a distance exactly when a call did not get one. -/
theorem failure_iff (h : Ended g profile calls failure) :
    failure = some (center, .distance e) ↔
      ∃ neighbor, (center, neighbor) ∈ calls ∧
        g.answer profile (center, neighbor) = some (.error e) := by
  have hclash {before : List (ItemId × ItemId)} (all : g.AllMeasured profile before)
      {neighbor : ItemId} (hmem : (center, neighbor) ∈ before)
      (herror : g.answer profile (center, neighbor) = some (.error e)) : False := by
    obtain ⟨d, hd⟩ := all _ hmem
    rw [herror] at hd
    cases hd
  cases h with
  | measured all other =>
    refine iff_of_false (other center e) ?_
    rintro ⟨neighbor, hmem, herror⟩
    exact hclash all hmem herror
  | @failed before center' neighbor' e' all last =>
    constructor
    · intro hfailure
      cases hfailure
      exact ⟨neighbor', List.mem_append_right _ (List.mem_singleton_self _), last⟩
    · rintro ⟨neighbor, hmem, herror⟩
      rcases List.mem_append.mp hmem with hmem | hmem
      · exact (hclash all hmem herror).elim
      · cases List.mem_singleton.mp hmem
        rw [last] at herror
        cases herror
        rfl

end Ended

variable (c : Collaborators σ V C L) (hmeasure : ∀ u v s, (c.measure u v s).1 = profile u v)
include hmeasure

variable {g profile c} {center : ItemId} {value : V}

theorem ended_consider (hcenter : g.index.primary center = some value) (neighbor : ItemId)
    {s : Scan σ L} (h : g.AllMeasured profile s.walk.lists.calls) :
    Ended g profile (g.consider c center value neighbor s).1.walk.lists.calls
      ((g.consider c center value neighbor s).2.map fun e => (center, .distance e)) := by
  rcases g.consider_unasked_or_asked c s with ⟨s', hlists, hs'⟩ | ⟨v, primary, hcandidate, hinfer⟩
  · rw [hs' c rfl]
    dsimp only
    rw [hlists]
    exact .of_none h
  · have hsaid : g.answer profile (center, neighbor) = some (profile value v) :=
      g.answer_eq_some.mpr ⟨value, v, hcenter, value_of_candidate hcandidate, rfl⟩
    rw [(calls_consider_of_infer value hcandidate hinfer).1]
    have hprofile := hmeasure value v s.walk.lists.shared
    cases hm : c.measure value v s.walk.lists.shared with
    | mk outcome shared =>
      rw [hm] at hprofile
      cases hprofile
      cases houtcome : profile value v with
      | error e =>
        have hstop : (g.consider c center value neighbor s).2 = some e := by
          simp only [consider, hcandidate, hinfer, hm, houtcome]
        rw [hstop]
        exact .failed h (hsaid.trans (congrArg some houtcome))
      | ok d =>
        have hgo : (g.consider c center value neighbor s).2 = none := by
          simp only [consider, hcandidate, hinfer, hm, houtcome]
          split
          · rfl
          · rfl
        rw [hgo]
        refine .of_none fun call hcall => ?_
        rcases List.mem_append.mp hcall with hcall | hcall
        · exact h call hcall
        · rw [List.mem_singleton.mp hcall]
          exact ⟨d, hsaid.trans (congrArg some houtcome)⟩

theorem ended_scan (hcenter : g.index.primary center = some value) (neighbors : List ItemId)
    {s : Scan σ L} (h : g.AllMeasured profile s.walk.lists.calls) :
    Ended g profile (g.scan c center value neighbors s).1.walk.lists.calls
      ((g.scan c center value neighbors s).2.map fun e => (center, .distance e)) := by
  induction neighbors generalizing s with
  | nil => exact .of_none h
  | cons n rest ih =>
    have hone := ended_consider hmeasure hcenter n h
    unfold scan
    cases hn : g.consider c center value n s with
    | mk between failure =>
      rw [hn] at hone
      cases failure with
      | some e => exact hone
      | none => exact ih hone.allMeasured

/-- A visit stops for a distance in its scan only. -/
theorem ended_visit {w after : Walk σ L} (h : g.AllMeasured profile w.lists.calls)
    {result : Except TraversalCause (Option ItemId)} (hvisit : g.visit c w center = (after, result)) :
    Ended g profile after.lists.calls (match result with
      | .error cause => some (center, cause)
      | .ok _ => none) := by
  cases hcenter : g.index.primary center with
  | none =>
    simp only [visit, hcenter] at hvisit
    cases hvisit
    exact .of_none h
  | some value =>
    have hcalls : (w.lists.init c.lists center value).1.calls = w.lists.calls :=
      NeighborIndex.calls_init ..
    cases hinit : w.lists.init c.lists center value with
    | mk lists list =>
      rw [hinit] at hcalls
      cases list with
      | none =>
        simp only [visit, hcenter, hinit] at hvisit
        cases hvisit
        exact .of_none fun call hcall => h call (hcalls ▸ hcall)
      | some list =>
        have hscanned := ended_scan hmeasure hcenter (g.neighbors center)
          (s := ⟨⟨lists, w.pending.erase center⟩, 0, none⟩) fun call hcall => h call (hcalls ▸ hcall)
        cases hscan : g.scan c center value (g.neighbors center)
            ⟨⟨lists, w.pending.erase center⟩, 0, none⟩ with
        | mk s failure =>
          rw [hscan] at hscanned
          cases failure with
          | some e =>
            rw [g.visit_of_scan_error c hcenter hinit hscan] at hvisit
            cases hvisit
            exact hscanned
          | none =>
            have hsame : (finish c center value s.walk).1.lists.calls = s.walk.lists.calls :=
              calls_finish s.walk
            rw [g.visit_of_scan c hcenter hinit hscan] at hvisit
            cases hfinish : finish c center value s.walk with
            | mk w' failure =>
              rw [hfinish] at hvisit hsame
              have hall : g.AllMeasured profile w'.lists.calls := fun call hcall =>
                hscanned.allMeasured call (hsame ▸ hcall)
              cases failure with
              | some e =>
                cases hvisit
                refine .measured hall fun center' e' hfailure => ?_
                cases hfailure
              | none =>
                cases hvisit
                exact .of_none hall

theorem ended_roam (w : Walk σ L) (next : Option ItemId) (h : g.AllMeasured profile w.lists.calls) :
    Ended g profile (g.roam c w next).1.lists.calls (g.roam c w next).2 := by
  induction w, next using roam.induct g c with
  | case1 w next hnone =>
    rw [g.roam_of_none c hnone]
    exact .of_none h
  | case2 w next center hnext hmem after cause hvisit =>
    rw [g.roam_of_error c hnext hmem hvisit]
    exact ended_visit hmeasure h hvisit
  | case3 w next center hnext hmem after farthest hvisit ih =>
    rw [g.roam_of_ok c hnext hmem hvisit]
    exact ih (ended_visit hmeasure h hvisit).allMeasured
  | case4 w next center hnext hmem =>
    rw [g.roam_of_not_mem c hnext hmem]
    exact .of_none h

/-- A traversal stops for a distance exactly when it asked for one that it did not get. -/
theorem distance_failure_iff (shared : σ) {key : PartitionKey} {e : String} :
    (g.traverse c shared).failure = some (.traversal key center (.distance e)) ↔
      key = g.parent.key ∧ ∃ neighbor, (center, neighbor) ∈ (g.traverse c shared).calls ∧
        g.answer profile (center, neighbor) = some (.error e) := by
  have hstart : g.AllMeasured profile (g.departure shared : Walk σ L).lists.calls :=
    fun _ hcall => absurd hcall List.not_mem_nil
  have hended := ended_roam hmeasure (g.departure shared) g.startingPoint hstart
  have hfailure : (g.traverse c shared).failure = some (.traversal key center (.distance e)) ↔
      key = g.parent.key ∧
        (g.roam c (g.departure shared) g.startingPoint).2 = some (center, .distance e) := by
    rw [traverse_eq]
    dsimp only
    rw [Option.map_eq_some_iff]
    constructor
    · rintro ⟨⟨center', cause⟩, hroam, he⟩
      cases he
      exact ⟨rfl, hroam⟩
    · rintro ⟨rfl, hroam⟩
      exact ⟨_, hroam, rfl⟩
  rw [hfailure, hended.failure_iff]
  rfl

end Group

end DensityClustering

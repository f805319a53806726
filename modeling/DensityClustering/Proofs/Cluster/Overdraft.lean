import Mathlib
import DensityClustering.Proofs.Cluster.MergePass
import DensityClustering.Proofs.Cluster.Ownership
import DensityClustering.Proofs.Cluster.Takeover

/-!
Merges that take more from a count than there is. Of two compressed clusters only a share counts,
less the raw points of the second one, and a cluster may have more raw points than it counts. As long
as counts fit in their 64 bits, the count of a cluster is negative only once it was invalidated or
took over more debt than it could pay; and as long as no merge does that, every owner is live.
-/

namespace DensityClustering

namespace Cluster

variable {S : Type} [Scalar S] (threshold : Nat) (k a : Cluster S)

/-- Both clusters are compressed, and what comes over takes the count of the first one below zero. -/
def overdraws (k a : Cluster S) : Bool :=
  k.compressed && a.compressed && decide (k.joinedCount a < 0)

/-- A cluster survives a merge unless the sum of the counts comes out negative. -/
theorem isLive_absorb :
    (k.absorb threshold a).isLive = !decide (Int64.ofInt (k.joinedCount a) < 0) := by
  rw [isLive, count_absorb, ← decide_not]
  exact decide_eq_decide.mpr Int64.not_lt.symm

/-- A sum that fits comes out negative only if it is one of two compressed clusters. -/
theorem joinedCount_lt_zero (h : k.isLive = true) (hfits : fits (k.joinedCount a) = true) :
    decide (Int64.ofInt (k.joinedCount a) < 0) = k.overdraws a := by
  obtain ⟨hlow, hhigh⟩ := fits_iff.mp hfits
  have hexact : decide (Int64.ofInt (k.joinedCount a) < 0) = decide (k.joinedCount a < 0) := by
    rw [decide_eq_decide, Int64.lt_iff_toInt_lt, Int64.toInt_ofInt_of_le hlow hhigh,
      Int64.toInt_zero]
  rw [hexact, overdraws]
  cases hboth : k.compressed && a.compressed with
  | true => rw [Bool.true_and]
  | false =>
    have hgrow := k.count_le_joinedCount a hboth
    have hk := k.isLive_iff.mp h
    rw [Bool.false_and, decide_eq_false_iff_not]
    omega

end Cluster

namespace ClusterIndex

variable {S : Type} [Scalar S]

/-- The merge joins two live clusters, and overdraws the first one. -/
def Takeover.overdraws (m : Takeover S) : Bool := m.parties.any fun p => p.1.overdraws p.2

/-- The cluster was not merged away, and its count is negative. -/
def InDebt (x : ClusterIndex S) (c : ClusterId) : Prop := ∃ n, x.count c = some n ∧ n < 0

variable {x y : ClusterIndex S} {c d : ClusterId}

/-- A merge whose count fits leaves it below zero exactly if it overdraws the first cluster. -/
theorem Takeover.sinks_eq_overdraws {m : Takeover S} (h : m.fits = true) :
    m.sinks = m.overdraws := by
  rw [Takeover.sinks, Takeover.overdraws]
  rw [Takeover.fits] at h
  cases hp : m.parties with
  | none => rfl
  | some p =>
    obtain ⟨-, ⟨-, hkl⟩, -⟩ := parties_eq_some_iff.mp hp
    rw [hp, Option.all_some] at h
    exact p.1.joinedCount_lt_zero p.2 hkl h

theorem inDebt_congr (h : y.count c = x.count c) : y.InDebt c ↔ x.InDebt c := by
  unfold InDebt
  rw [h]

theorem inDebt_iff : x.InDebt c ↔ ∃ k, x.cluster? c = some k ∧ k.isLive = false := by
  have hneg (k : Cluster S) : k.count.toInt < 0 ↔ k.isLive = false := by
    rw [← Bool.not_eq_true, k.isLive_iff, Int.not_le]
  constructor
  · intro h
    obtain ⟨n, hn, hlt⟩ := h
    obtain ⟨k, hk, hcount⟩ := Option.map_eq_some_iff.mp hn
    rw [← hcount] at hlt
    exact ⟨k, hk, (hneg k).mp hlt⟩
  · intro h
    obtain ⟨k, hk, hdead⟩ := h
    exact ⟨k.count.toInt, Option.map_eq_some_iff.mpr ⟨k, hk, rfl⟩, (hneg k).mpr hdead⟩

/-- What was issued is live, in debt or invalid, or merged away. -/
theorem isLive_or_gone_iff :
    (x.isLive c = true ∨ x.cluster? c = none) ↔ ¬x.InDebt c := by
  rw [inDebt_iff]
  cases hk : x.cluster? c with
  | none => simp
  | some k =>
    rw [x.isLive_of_cluster? hk]
    simp

theorem not_inDebt_of_isLive (h : x.isLive c = true) : ¬x.InDebt c :=
  isLive_or_gone_iff.mp (Or.inl h)

/-- A merge sinks a live cluster exactly if it leaves it in debt. -/
theorem inDebt_merge (h : x.isLive c = true) :
    (x.merge c d).InDebt c ↔ (⟨x, c, d⟩ : Takeover S).sinks = true := by
  unfold Takeover.sinks
  rcases x.merge_parties c d with ⟨hp, hself⟩ | ⟨k, a, hp, -, -, -, hm⟩
  · rw [hself, hp, Option.any_none]
    exact iff_of_false (not_inDebt_of_isLive h) Bool.false_ne_true
  · rw [inDebt_iff, hm.record_into, hp, Option.any_some]
    have hsurvives := k.isLive_absorb x.config.compressionThreshold a
    simp [hsurvives]

/-- A merge leaves the count of every other cluster alone, unless it is the one merged away. -/
theorem count_merge_of_ne {e : ClusterId} (h : e ≠ c) :
    (x.merge c d).count e = x.count e ∨ (x.merge c d).count e = none := by
  rcases x.merge_cases c d with hself | ⟨k, a, -, -, -, -, -, hm⟩
  · exact Or.inl (by rw [hself])
  · unfold count
    rw [hm.record, if_neg h]
    by_cases hd : e = d
    · exact Or.inr (by rw [if_pos hd]; rfl)
    · exact Or.inl (by rw [if_neg hd])

theorem count_mergeAll_of_ne {e : ClusterId} (ds : List ClusterId) (h : e ≠ c) :
    (x.mergeAll c ds).count e = x.count e ∨ (x.mergeAll c ds).count e = none := by
  induction ds generalizing x with
  | nil => exact Or.inl rfl
  | cons d ds ih =>
    have hrest : ((x.merge c d).mergeAll c ds).count e = (x.merge c d).count e ∨
        ((x.merge c d).mergeAll c ds).count e = none := ih
    have hone : (x.merge c d).count e = x.count e ∨ (x.merge c d).count e = none :=
      count_merge_of_ne h
    change ((x.merge c d).mergeAll c ds).count e = x.count e ∨
      ((x.merge c d).mergeAll c ds).count e = none
    rcases hrest with hrest | hrest
    · rw [hrest]
      exact hone
    · exact Or.inr hrest

/-- Nothing sinks what is not live. -/
theorem sinks_eq_false {m : Takeover S} (h : m.clusters.isLive m.into = false) :
    m.sinks = false := by
  rw [Takeover.sinks, parties_eq_none_of_dead h, Option.any_none]

theorem sinks_of_mem_takeovers_of_dead {ds : List ClusterId} {m : Takeover S}
    (hdead : x.isLive c = false) (h : m ∈ x.takeovers c ds) : m.sinks = false := by
  induction ds generalizing x with
  | nil => cases h
  | cons d ds ih =>
    have hself : x.merge c d = x := x.merge_eq_self (Or.inr (Or.inl hdead))
    rcases List.mem_cons.mp h with hm | hm
    · subst hm
      exact sinks_eq_false hdead
    · rw [hself] at hm
      exact ih hdead hm

/-- A root keeps its record. -/
theorem cluster?_merge_ne_none (h : x.cluster? c ≠ none) : (x.merge c d).cluster? c ≠ none := by
  rcases x.merge_cases c d with hself | ⟨k, a, -, -, -, -, -, hm⟩
  · rw [hself]
    exact h
  · rw [hm.record_into]
    exact Option.some_ne_none _

theorem cluster?_mergeAll_ne_none (ds : List ClusterId) (h : x.cluster? c ≠ none) :
    (x.mergeAll c ds).cluster? c ≠ none := by
  induction ds generalizing x with
  | nil => exact h
  | cons d ds ih => exact ih (x := x.merge c d) (cluster?_merge_ne_none h)

theorem cluster?_ne_none_of_isLive (h : x.isLive c = true) : x.cluster? c ≠ none := by
  obtain ⟨k, hk, -⟩ := x.isLive_iff.mp h
  rw [hk]
  exact Option.some_ne_none k

/-- Merges into a live cluster leave it in debt exactly if one of them sinks it. -/
theorem inDebt_mergeAll (ds : List ClusterId) (h : x.isLive c = true) :
    (x.mergeAll c ds).InDebt c ↔ ∃ m ∈ x.takeovers c ds, m.sinks = true := by
  induction ds generalizing x with
  | nil =>
    refine iff_of_false (not_inDebt_of_isLive h) ?_
    intro hm
    obtain ⟨m, hmem, -⟩ := hm
    cases hmem
  | cons d ds ih =>
    change ((x.merge c d).mergeAll c ds).InDebt c ↔
      ∃ m ∈ (⟨x, c, d⟩ : Takeover S) :: (x.merge c d).takeovers c ds, m.sinks = true
    rw [List.exists_mem_cons_iff, ← inDebt_merge h]
    cases hlive : (x.merge c d).isLive c with
    | true =>
      have hno : ¬(x.merge c d).InDebt c := not_inDebt_of_isLive hlive
      rw [ih hlive]
      exact (or_iff_right hno).symm
    | false =>
      -- The cluster went into debt, and the merges that follow do nothing.
      have hdebt : (x.merge c d).InDebt c := by
        by_contra hno
        rcases isLive_or_gone_iff.mpr hno with hl | hgone
        · rw [hlive] at hl
          cases hl
        · exact cluster?_merge_ne_none (cluster?_ne_none_of_isLive h) hgone
      rw [mergeAll_of_dead _ hlive]
      exact iff_of_true hdebt (Or.inl hdebt)

/-- The same for every cluster that was live before merges into a root. -/
theorem inDebt_mergeAll_iff (ds : List ClusterId) (root : ClusterId) (h : x.isLive c = true) :
    (x.mergeAll root ds).InDebt c ↔
      ∃ m ∈ x.takeovers root ds, m.into = c ∧ m.sinks = true := by
  by_cases hroot : c = root
  · subst hroot
    rw [inDebt_mergeAll ds h]
    refine exists_congr fun m => and_congr_right fun hm => ?_
    exact (and_iff_right (into_of_mem_takeovers hm)).symm
  · refine iff_of_false ?_ ?_
    · rcases count_mergeAll_of_ne (x := x) ds hroot with hsame | hgone
      · rw [inDebt_congr hsame]
        exact not_inDebt_of_isLive h
      · intro hdebt
        obtain ⟨n, hn, -⟩ := hdebt
        rw [hgone] at hn
        cases hn
    · intro hm
      obtain ⟨m, hmem, hinto, -⟩ := hm
      exact hroot (hinto.symm.trans (into_of_mem_takeovers hmem))

theorem count_modify (c : ClusterId) (f : Cluster S → Cluster S)
    (hcount : ∀ k, (f k).count = k.count) (d : ClusterId) :
    (x.modify c f).count d = x.count d := by
  unfold count
  rw [x.cluster?_modify]
  by_cases hd : d = c
  · rw [if_pos hd, hd, Option.map_map]
    exact Option.map_congr fun k _ => congrArg Int64.toInt (hcount k)
  · rw [if_neg hd]

/-- Recording a link kills nothing if there is room to count it. -/
theorem isLive_recordLink_of_isLive {contact : Contact S} {id : ItemId}
    (hroom : x.hasRoom (.link c contact id) = true) (h : x.isLive d = true) :
    (x.recordLink c contact id).1.isLive d = true := by
  rcases x.recordLink_cases c contact id with ⟨-, he⟩ | ⟨k, hk, hlive, -, ⟨-, he⟩ | ⟨-, he⟩⟩
  · rw [he]
    exact h
  · rw [he]
    exact h
  · have hfits : Cluster.fits (k.count.toInt + 1) = true :=
      fits_of_hasRoom hroom hk (by rw [he])
    rw [he]
    by_cases hd : d = c
    · have hrec := x.cluster?_relink hk (x.links.link c id).1
        (k.reach x.config.compressionThreshold id contact) d
      rw [if_pos hd] at hrec
      rw [isLive_of_cluster? _ hrec, Cluster.isLive_iff, Cluster.toInt_count_reach _ _ _ _ hfits]
      have hk := k.isLive_iff.mp hlive
      omega
    · unfold isLive
      rw [x.cluster?_relink hk, if_neg hd]
      exact h

/-- The links do not matter to the counts. -/
theorem inDebt_pass (root : ClusterId) (prune : Bool) (h : x.isLive c = true) :
    (x.mergeReachable root prune).InDebt c ↔
      ∃ m ∈ x.passTakeovers root prune, m.into = c ∧ m.sinks = true :=
  inDebt_mergeAll_iff (x := { x with links := (x.pass root prune).links }) _ root h

/-- An operation other than its invalidation leaves a live cluster in debt exactly if one of the
operation's merges sinks it. -/
theorem inDebt_apply {op : Operation S} (hroom : x.hasRoom op = true) (h : x.isLive c = true)
    (hop : op ≠ .invalidate c) :
    (x.apply op).InDebt c ↔ ∃ m ∈ x.takeoversOf op, m.into = c ∧ m.sinks = true := by
  have hquiet : ¬x.InDebt c := not_inDebt_of_isLive h
  -- An operation without merges sinks nothing.
  have hnone : ¬∃ m ∈ ([] : List (Takeover S)), m.into = c ∧ m.sinks = true := by simp
  cases op with
  | create id item =>
    refine iff_of_false ?_ hnone
    cases hid : x.clusterOf id with
    | some d =>
      rw [apply, x.getOrCreate_eq_self item hid]
      exact hquiet
    | none =>
      have hne : c ≠ ⟨x.slots.size⟩ := by
        intro he
        obtain ⟨k, hk, -⟩ := x.isLive_iff.mp h
        have hlt := x.issued_of_cluster? hk
        rw [he] at hlt
        exact Nat.lt_irrefl _ hlt
      have hsame : (x.apply (.create id item)).count c = x.count c := by
        unfold count apply
        rw [x.cluster?_getOrCreate item hid, if_neg hne]
      rw [inDebt_congr hsame]
      exact hquiet
  | link d contact id =>
    have hgrown : (x.recordLink d contact id).1.isLive c = true :=
      isLive_recordLink_of_isLive hroom h
    unfold apply addLink takeoversOf
    dsimp only
    cases hlate : (x.recordLink d contact id).2 && (x.recordLink d contact id).1.isFinished d with
    | true => exact inDebt_pass d false hgrown
    | false => exact iff_of_false (not_inDebt_of_isLive hgrown) hnone
  | finish d =>
    have hsame : (x.finish d).count c = (x.mergeReachable d true).count c :=
      count_modify d (fun k => { k with finished := true }) (fun _ => rfl) c
    rw [apply, inDebt_congr hsame]
    exact inDebt_pass d true h
  | invalidate d =>
    have hcd : c ≠ d := by
      intro he
      exact hop (congrArg Operation.invalidate he.symm)
    refine iff_of_false ?_ hnone
    have hsame : (x.invalidate d).count c = x.count c := by
      cases hk : x.cluster? d with
      | none => rw [x.invalidate_eq_self hk]
      | some k =>
        unfold count
        rw [x.cluster?_invalidate hk, if_neg hcd]
    rw [apply, inDebt_congr hsame]
    exact hquiet
  | clear d =>
    refine iff_of_false ?_ hnone
    have hsame : (x.clear d).count c = x.count c :=
      count_modify (x := { x with links := (x.links.removeCluster d).1 }) d
        (fun k => { k with geometry := none, points := ∅ }) (fun _ => rfl) c
    rw [apply, inDebt_congr hsame]
    exact hquiet
  | merge into other => exact inDebt_mergeAll_iff [other] into h

theorem isLive_of_mem_takeovers {ds : List ClusterId} {m : Takeover S}
    (h : m ∈ x.takeovers c ds) (hsink : m.sinks = true) : x.isLive c = true := by
  cases hlive : x.isLive c with
  | true => rfl
  | false =>
    rw [sinks_of_mem_takeovers_of_dead hlive h] at hsink
    exact absurd hsink Bool.false_ne_true

/-- Only what was live before an operation is sunk by it, and it keeps the ids it owned. -/
theorem of_sinks {op : Operation S} {m : Takeover S} (h : m ∈ x.takeoversOf op)
    (hsink : m.sinks = true) : x.isLive m.into = true ∧
      ∀ id, x.clusterOf id = some m.into → (x.apply op).clusterOf id = some m.into := by
  have hmerge (z : ClusterIndex S) (r d : ClusterId) (id : ItemId)
      (hid : z.clusterOf id = some r) : (z.merge r d).clusterOf id = some r := by
    rcases z.merge_cases r d with hself | ⟨k, a, -, -, -, -, -, hm⟩
    · rw [hself]
      exact hid
    · rw [hm.owner, hid]
      exact ite_self _
  have hall (ds : List ClusterId) (z : ClusterIndex S) (r : ClusterId) (id : ItemId)
      (hid : z.clusterOf id = some r) : (z.mergeAll r ds).clusterOf id = some r := by
    induction ds generalizing z with
    | nil => exact hid
    | cons d ds ih => exact ih (z.merge r d) (hmerge z r d id hid)
  have hpass (z : ClusterIndex S) (r : ClusterId) (prune : Bool)
      (hm : m ∈ z.passTakeovers r prune) : z.isLive m.into = true ∧
        ∀ id, z.clusterOf id = some m.into →
          (z.mergeReachable r prune).clusterOf id = some m.into := by
    have hinto : m.into = r := into_of_mem_takeovers hm
    rw [hinto]
    exact ⟨isLive_of_mem_takeovers (x := { z with links := (z.pass r prune).links }) hm hsink,
      fun id hid => hall _ _ r id hid⟩
  cases op with
  | create id item => cases h
  | link d contact id =>
    unfold takeoversOf at h
    unfold apply addLink
    dsimp only at h ⊢
    cases hlate : (x.recordLink d contact id).2 && (x.recordLink d contact id).1.isFinished d with
    | false =>
      rw [hlate] at h
      cases h
    | true =>
      rw [hlate, if_pos rfl] at h
      obtain ⟨hlive, hkept⟩ := hpass _ d false h
      refine ⟨?_, fun id' hid' => ?_⟩
      · -- A link that was recorded is one of a live cluster, and revives none.
        cases hx : x.isLive m.into with
        | true => rfl
        | false =>
          rw [x.isLive_recordLink d contact id hx] at hlive
          exact absurd hlive Bool.false_ne_true
      · rw [if_pos rfl]
        apply hkept
        unfold clusterOf
        rw [x.owners_recordLink]
        exact hid'
  | finish d =>
    obtain ⟨hlive, hkept⟩ := hpass x d true h
    refine ⟨hlive, fun id hid => ?_⟩
    have hsame : (x.finish d).clusterOf id = (x.mergeReachable d true).clusterOf id := by
      unfold finish clusterOf
      rw [owners_modify]
    rw [apply, hsame]
    exact hkept id hid
  | invalidate d => cases h
  | clear d => cases h
  | merge into other =>
    have hm : m = ⟨x, into, other⟩ := List.mem_singleton.mp h
    subst hm
    have hlive : x.isLive into = true := by
      cases hlive : x.isLive into with
      | true => rfl
      | false => exact absurd hsink (by rw [sinks_eq_false hlive]; exact Bool.false_ne_true)
    exact ⟨hlive, fun id hid => hmerge x into other id hid⟩

theorem slots_size_mergeAll (ds : List ClusterId) :
    (x.mergeAll c ds).slots.size = x.slots.size := by
  induction ds generalizing x with
  | nil => rfl
  | cons d ds ih =>
    have hone : (x.merge c d).slots.size = x.slots.size := by
      rcases x.merge_cases c d with hself | ⟨k, a, -, -, -, -, -, hm⟩
      · rw [hself]
      · exact hm.issued
    exact (ih (x := x.merge c d)).trans hone

/-- Only a creation issues a handle. -/
theorem slots_size_apply {op : Operation S} (h : ∀ id item, op ≠ .create id item) :
    (x.apply op).slots.size = x.slots.size := by
  have hpass (z : ClusterIndex S) (r : ClusterId) (prune : Bool) :
      (z.mergeReachable r prune).slots.size = z.slots.size :=
    slots_size_mergeAll (x := { z with links := (z.pass r prune).links }) _
  cases op with
  | create id item => exact absurd rfl (h id item)
  | link d contact id =>
    have hgrown := x.slots_size_recordLink d contact id
    unfold apply addLink
    dsimp only
    split
    · rw [hpass, hgrown]
    · exact hgrown
  | finish d => exact (slots_size_modify _ d _).trans (hpass x d true)
  | invalidate d => exact x.slots_size_invalidate d
  | clear d => exact slots_size_modify _ d _
  | merge into other => exact slots_size_mergeAll [other]

/-- A record behind a handle that was not issued before is that of a created item. -/
theorem record_apply_of_fresh {op : Operation S} {c : ClusterId} {k' : Cluster S}
    (hc : ¬c.number < x.slots.size) (hk' : (x.apply op).cluster? c = some k') :
    ∃ id item, op = .create id item ∧ k' = .ofItem id item := by
  have hfresh : x.cluster? c = none := x.cluster?_eq_none_of_not_issued hc
  by_cases hop : ∃ id item, op = .create id item
  · obtain ⟨id, item, rfl⟩ := hop
    refine ⟨id, item, rfl, ?_⟩
    cases hid : x.clusterOf id with
    | some d =>
      rw [apply, x.getOrCreate_eq_self item hid, hfresh] at hk'
      cases hk'
    | none =>
      rw [apply, x.cluster?_getOrCreate item hid, hfresh] at hk'
      split at hk'
      · exact (Option.some.inj hk').symm
      · cases hk'
  · -- No other operation issues a handle.
    have hsize : (x.apply op).slots.size = x.slots.size :=
      slots_size_apply fun id item he => hop ⟨id, item, he⟩
    rw [cluster?_eq_none_of_not_issued _ (hsize.symm ▸ hc)] at hk'
    cases hk'

/-- Every owner is a live cluster. -/
def OwnersLive (x : ClusterIndex S) : Prop := ∀ id c, x.clusterOf id = some c → x.isLive c = true

/-- Operations that sink nothing keep every owner live. -/
theorem OwnersLive.apply (hown : Ownership x) (h : OwnersLive x) {op : Operation S}
    (hroom : x.hasRoom op = true) (hpaid : ∀ m ∈ x.takeoversOf op, m.sinks = false) :
    OwnersLive (x.apply op) := by
  intro id c hid
  obtain ⟨k, hk, -, -⟩ := (hown.apply op).record_of_owner hid
  by_cases hissued : c.number < x.slots.size
  · cases hlive : x.isLive c with
    | false =>
      -- What was not live before owned nothing, and never will.
      have hspent : Spent x c := by
        refine ⟨hissued, hlive, fun id' hid' => ?_⟩
        rw [h id' c hid'] at hlive
        cases hlive
      exact absurd hid ((hspent.apply op).unowned id)
    | true =>
      by_cases hop : op = .invalidate c
      · subst hop
        exact absurd hid ((spent_invalidate hown hissued).unowned id)
      · have hno : ¬(x.apply op).InDebt c := by
          rw [inDebt_apply hroom hlive hop]
          intro hm
          obtain ⟨m, hmem, -, hsink⟩ := hm
          rw [hpaid m hmem] at hsink
          cases hsink
        apply (isLive_or_gone_iff.mpr hno).resolve_right
        rw [hk]
        exact Option.some_ne_none k
  · obtain ⟨id', item, -, rfl⟩ := record_apply_of_fresh hissued hk
    rw [isLive_of_cluster? _ hk]
    exact Cluster.isLive_ofItem ..

/-- A cluster that an operation sinks is left as the owner of its ids. -/
theorem not_ownersLive_of_sinks (hown : Ownership x) {op : Operation S} {m : Takeover S}
    (hroom : x.hasRoom op = true) (h : m ∈ x.takeoversOf op) (hsink : m.sinks = true) :
    ¬OwnersLive (x.apply op) := by
  intro hall
  obtain ⟨hlive, hkept⟩ := of_sinks h hsink
  have hop : op ≠ .invalidate m.into := by
    intro he
    subst he
    cases h
  have hdebt : (x.apply op).InDebt m.into := (inDebt_apply hroom hlive hop).mpr ⟨m, h, rfl, hsink⟩
  obtain ⟨k, hk, hkl⟩ := x.isLive_iff.mp hlive
  obtain ⟨id, hid⟩ := List.exists_mem_of_ne_nil _ (hown.nonempty m.into k hk)
  have howner : (x.apply op).clusterOf id = some m.into :=
    hkept id (hown.owner_of_live hk hkl id hid)
  exact not_inDebt_of_isLive (hall id m.into howner) hdebt

theorem hasRoom_of_fits {op : Operation S} (h : x.fits op = true) : x.hasRoom op = true :=
  (Bool.and_eq_true_iff.mp h).1

theorem sinks_of_mem_takeoversOf {op : Operation S} {m : Takeover S} (h : x.fits op = true)
    (hm : m ∈ x.takeoversOf op) : m.sinks = m.overdraws :=
  Takeover.sinks_eq_overdraws (List.all_eq_true.mp (Bool.and_eq_true_iff.mp h).2 m hm)

/-- As long as counts fit in 64 bits, a live cluster stays live until it is invalidated or absorbed,
unless a merge overdraws it; and every owner is live at all times exactly if no merge overdraws
anything. -/
theorem inDebt_iff_overdrawn (config : ClusterConfig) (ops : List (Operation S)) :
    (∀ op c, (after config ops).fits op = true → (after config ops).isLive c = true →
      op ≠ .invalidate c →
      ((∃ n, ((after config ops).apply op).count c = some n ∧ n < 0) ↔
        ∃ m ∈ (after config ops).takeoversOf op, m.into = c ∧ m.overdraws = true) ∧
      (((after config ops).apply op).isLive c = true ∨
        ((after config ops).apply op).cluster? c = none ∨
        ∃ m ∈ (after config ops).takeoversOf op, m.into = c ∧ m.overdraws = true)) ∧
    ((∀ before op rest, ops = before ++ op :: rest → (after config before).fits op = true) →
      ((∀ before op rest, ops = before ++ op :: rest →
          ∀ m ∈ (after config before).takeoversOf op, m.overdraws = false) ↔
        ∀ before rest, ops = before ++ rest → ∀ id c,
          (after config before).clusterOf id = some c →
            (after config before).isLive c = true)) := by
  refine ⟨fun op c hfits hlive hop => ?_, fun hfits => ⟨?_, ?_⟩⟩
  · have hdebt : ((after config ops).apply op).InDebt c ↔
        ∃ m ∈ (after config ops).takeoversOf op, m.into = c ∧ m.overdraws = true := by
      rw [inDebt_apply (hasRoom_of_fits hfits) hlive hop]
      refine exists_congr fun m => and_congr_right fun hm => ?_
      rw [sinks_of_mem_takeoversOf hfits hm]
    refine ⟨hdebt, ?_⟩
    by_cases hover : ∃ m ∈ (after config ops).takeoversOf op, m.into = c ∧ m.overdraws = true
    · exact Or.inr (Or.inr hover)
    · rcases isLive_or_gone_iff.mpr fun h => hover (hdebt.mp h) with hl | hgone
      · exact Or.inl hl
      · exact Or.inr (Or.inl hgone)
  · intro hpaid before
    induction before using List.reverseRecOn with
    | nil =>
      intro rest hops id c hid
      rw [show after config [] = (empty config : ClusterIndex S) from rfl, clusterOf_empty] at hid
      cases hid
    | append_singleton before op ih =>
      intro rest hops
      rw [List.append_assoc, List.singleton_append] at hops
      have hstep := hfits before op rest hops
      rw [after_concat]
      refine OwnersLive.apply (Ownership.after config before) (ih (op :: rest) hops)
        (hasRoom_of_fits hstep) fun m hm => ?_
      rw [sinks_of_mem_takeoversOf hstep hm]
      exact hpaid before op rest hops m hm
  · intro hall before op rest hops m hm
    have hstep := hfits before op rest hops
    have hlive : OwnersLive ((after config before).apply op) := by
      rw [← after_concat]
      exact hall (before ++ [op]) rest (by rw [hops, List.append_assoc, List.singleton_append])
    rw [← sinks_of_mem_takeoversOf hstep hm, Bool.eq_false_iff]
    intro hsink
    exact not_ownersLive_of_sinks (Ownership.after config before) (hasRoom_of_fits hstep) hm hsink
      hlive

/-- Three summaries of one point each that cross in their centers, each linked to the same two ids
by the same contact points, and the second one merged into the first. -/
def crossingBars : List (Operation Rat) :=
  let bar (n : UInt8) (p q : Coord Rat) : Operation Rat := .create ⟨[n]⟩ ⟨⟨[n]⟩, .line p q, 1, true⟩
  let reach (c n : UInt8) (own theirs : Coord Rat) : Operation Rat :=
    .link ⟨c.toNat⟩ ⟨own, ⟨[c]⟩, theirs, ⟨[n]⟩⟩ ⟨[n]⟩
  [bar 0 ⟨-1, 0⟩ ⟨1, 0⟩, bar 1 ⟨0, -1⟩ ⟨0, 1⟩, bar 2 ⟨-1, -1⟩ ⟨1, 1⟩,
    reach 0 3 ⟨2, 0⟩ ⟨3, 0⟩, reach 0 4 ⟨0, 2⟩ ⟨0, 3⟩,
    reach 1 3 ⟨2, 0⟩ ⟨3, 0⟩, reach 1 4 ⟨0, 2⟩ ⟨0, 3⟩,
    reach 2 3 ⟨2, 0⟩ ⟨3, 0⟩, reach 2 4 ⟨0, 2⟩ ⟨0, 3⟩,
    .merge ⟨0⟩ ⟨1⟩]

/-- The first of these clusters is live, and merging the third one into it as well leaves it with a
count of `-1` and with its ids. -/
theorem merge_of_crossing_bars_into_debt :
    (after ⟨2, 200, .merging⟩ crossingBars).isLive ⟨0⟩ = true ∧
    ((after ⟨2, 200, .merging⟩ crossingBars).apply (.merge ⟨0⟩ ⟨2⟩)).count ⟨0⟩ = some (-1) ∧
    ((after ⟨2, 200, .merging⟩ crossingBars).apply (.merge ⟨0⟩ ⟨2⟩)).clusterOf ⟨[0]⟩ = some ⟨0⟩ ∧
    ((after ⟨2, 200, .merging⟩ crossingBars).apply (.merge ⟨0⟩ ⟨2⟩)).isLive ⟨0⟩ = false := by
  refine ⟨?_, ?_, ?_, ?_⟩
  · cbv
  · cbv
  · cbv
  · cbv

end ClusterIndex

end DensityClustering

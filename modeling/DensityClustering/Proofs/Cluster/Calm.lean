import Mathlib.Data.List.Induction
import DensityClustering.Proofs.Cluster.MergePass
import DensityClustering.Proofs.Cluster.Ownership
import DensityClustering.Proofs.Cluster.Takeover

/-!
Operations under which no two compressed clusters are joined and no count outgrows its 64 bits. The
count of two compressed clusters is estimated from their areas and may drop, and one that does not
fit is lost; all other merges keep the root alive and as large as it was, so that a merge pass joins
everything it reached.
-/

namespace DensityClustering

namespace ClusterIndex

variable {S : Type} [Scalar S] (x : ClusterIndex S)

/-- The merge joins no two compressed clusters, and the count it forms fits. -/
def Takeover.isCalm (m : Takeover S) : Bool := !m.clashes && m.fits

/-- The merges of a pass join no two compressed clusters, and their counts fit. -/
def calmPass (c : ClusterId) (prune : Bool) : Bool :=
  (x.passTakeovers c prune).all Takeover.isCalm

/-- An operation joins no two compressed clusters, and the counts it forms fit. -/
def calmStep (op : Operation S) : Bool := x.hasRoom op && (x.takeoversOf op).all Takeover.isCalm

/-- A sequence of operations joins no two compressed clusters, and all counts fit. -/
def calm (x : ClusterIndex S) : List (Operation S) → Bool
  | [] => true
  | op :: ops => x.calmStep op && calm (x.apply op) ops

theorem calm_append (ops rest : List (Operation S)) :
    x.calm (ops ++ rest) = (x.calm ops && (ops.foldl apply x).calm rest) := by
  induction ops generalizing x with
  | nil => rfl
  | cons op ops ih =>
    rw [List.cons_append, calm, calm, ih, List.foldl_cons, Bool.and_assoc]

/-- What is calm is calm on the way. -/
theorem calm_of_longer {ops ops' : List (Operation S)} (hpre : ops <+: ops')
    (h : x.calm ops' = true) : x.calm ops = true := by
  obtain ⟨rest, rfl⟩ := hpre
  rw [calm_append, Bool.and_eq_true] at h
  exact h.1

theorem calm_concat (config : ClusterConfig) (ops : List (Operation S)) (op : Operation S) :
    (empty config).calm (ops ++ [op]) = true ↔
      (empty config).calm ops = true ∧ (after config ops).calmStep op = true := by
  rw [calm_append, Bool.and_eq_true, calm, calm, Bool.and_true]
  rfl

theorem Takeover.isCalm_iff {m : Takeover S} :
    m.isCalm = true ↔ m.clashes = false ∧ m.fits = true := by
  rw [Takeover.isCalm, Bool.and_eq_true, Bool.not_eq_true']

section Link

variable {x} {c : ClusterId} {contact : Contact S} {id : ItemId}

theorem hasRoom_of_calmStep {op : Operation S} (h : x.calmStep op = true) : x.hasRoom op = true :=
  (Bool.and_eq_true_iff.mp h).1

/-- The late pass that a calm link starts is calm. -/
theorem calmPass_of_calmStep (h : x.calmStep (.link c contact id) = true)
    (hlate : (x.recordLink c contact id).2 && (x.recordLink c contact id).1.isFinished c) :
    (x.recordLink c contact id).1.calmPass c false = true := by
  have hall := (Bool.and_eq_true_iff.mp h).2
  unfold takeoversOf at hall
  dsimp only at hall
  rw [if_pos hlate] at hall
  exact hall

end Link

/-- Merges into `c` join no two compressed clusters where no other cluster is compressed. -/
theorem clashes_of_isCompressed_eq_false {c : ClusterId} (ds : List ClusterId)
    (h : ∀ d, d ≠ c → x.isCompressed d = false) {m : Takeover S} (hm : m ∈ x.takeovers c ds) :
    m.clashes = false := by
  induction ds generalizing x with
  | nil => cases hm
  | cons d ds ih =>
    rcases List.mem_cons.mp hm with rfl | hm
    · unfold Takeover.clashes
      rcases x.merge_parties c d with ⟨hp, -⟩ | ⟨k, a, hp, -, -, ha, -⟩
      · rw [hp, Option.any_none]
      · have hother := h d (parties_eq_some_iff.mp hp).1.symm
        rw [isCompressed, ha, Option.any_some] at hother
        rw [hp, Option.any_some, hother, Bool.and_false]
    -- Merging may compress the root, but no other cluster.
    · refine ih (x.merge c d) (fun s hs => ?_) hm
      rcases x.merge_cases c d with he | ⟨k, a, -, -, -, -, -, hm⟩
      · rw [he]
        exact h s hs
      · unfold isCompressed
        rw [hm.record, if_neg hs]
        split
        · rfl
        · exact h s hs

/-- Where no cluster is compressed an operation is calm as soon as its counts fit. -/
theorem calmStep_of_isCompressed_eq_false (h : ∀ c, x.isCompressed c = false)
    {op : Operation S} (hfits : x.fits op = true) : x.calmStep op = true := by
  obtain ⟨hroom, hall⟩ := Bool.and_eq_true_iff.mp hfits
  refine Bool.and_eq_true_iff.mpr ⟨hroom, List.all_eq_true.mpr fun m hm => ?_⟩
  refine Takeover.isCalm_iff.mpr ⟨?_, List.all_eq_true.mp hall m hm⟩
  have hpass (z : ClusterIndex S) (c : ClusterId) (prune : Bool)
      (hz : ∀ d, d ≠ c → z.isCompressed d = false) (hm : m ∈ z.passTakeovers c prune) :
      m.clashes = false :=
    clashes_of_isCompressed_eq_false { z with links := (z.pass c prune).links } _ hz hm
  cases op with
  | create id item => cases hm
  | link c contact id =>
    have hgrown : ∀ d, d ≠ c → (x.recordLink c contact id).1.isCompressed d = false := by
      intro d hd
      rcases x.recordLink_cases c contact id with ⟨-, he⟩ | ⟨k, hk, -, -, ⟨-, he⟩ | ⟨-, he⟩⟩
      · rw [he]
        exact h d
      · rw [he]
        exact h d
      · rw [he]
        unfold isCompressed
        rw [x.cluster?_relink hk, if_neg hd]
        exact h d
    unfold takeoversOf at hm
    dsimp only at hm
    split at hm
    · exact hpass _ c false hgrown hm
    · cases hm
  | finish c => exact hpass x c true (fun d _ => h d) hm
  | invalidate c => cases hm
  | clear c => cases hm
  | merge into other => exact clashes_of_isCompressed_eq_false x [other] (fun d _ => h d) hm

theorem calm_of_isCompressed_eq_false (config : ClusterConfig) (ops : List (Operation S))
    (h : ∀ pre, pre <+: ops → ∀ c, (after config pre).isCompressed c = false)
    (hfits : ∀ pre op, pre ++ [op] <+: ops → (after config pre).fits op = true) :
    (empty config).calm ops = true := by
  induction ops using List.reverseRecOn with
  | nil => rfl
  | append_singleton ops op ih =>
    have hpre : ops <+: ops ++ [op] := List.prefix_append ..
    refine (calm_concat config ops op).mpr ⟨?_, ?_⟩
    · exact ih (fun pre hp => h pre (hp.trans hpre)) fun pre op hp => hfits pre op (hp.trans hpre)
    · exact calmStep_of_isCompressed_eq_false _ (h ops hpre) (hfits ops op (List.prefix_refl _))

/-- In a calm merge the root stays live and loses no count. -/
theorem size_le_size_merge {c d : ClusterId} (hcalm : (⟨x, c, d⟩ : Takeover S).isCalm = true)
    (hlive : x.isLive c = true) :
    (x.merge c d).isLive c = true ∧ x.size c ≤ (x.merge c d).size c := by
  obtain ⟨hclash, hfits⟩ := Takeover.isCalm_iff.mp hcalm
  rcases x.merge_parties c d with ⟨-, he⟩ | ⟨k, a, hp, hkl, hk, -, hm⟩
  · rw [he]
    exact ⟨hlive, Nat.le_refl _⟩
  have hrec : (x.merge c d).cluster? c = some (k.absorb x.config.compressionThreshold a) :=
    hm.record_into
  rw [Takeover.clashes, hp, Option.any_some] at hclash
  rw [Takeover.fits, hp, Option.all_some] at hfits
  -- Without an estimate a merge adds the fresh points, and takes nothing away.
  have hgrow := k.count_le_joinedCount a hclash
  have hsum := Cluster.toInt_count_absorb x.config.compressionThreshold k a hfits
  rw [isLive_of_cluster? _ hrec, size_of_cluster? _ hrec, x.size_of_cluster? hk]
  rw [Cluster.isLive_iff] at hkl ⊢
  rw [Cluster.size_eq, Cluster.size_eq, hsum]
  omega

/-- Calm merges of live clusters all happen. -/
theorem gathered_mergeAll_of_calm {c : ClusterId} {ds : List ClusterId} (hnodup : ds.Nodup)
    (hc : c ∉ ds) (hlive : ∀ d ∈ ds, x.isLive d = true) (hroot : x.isLive c = true)
    (hcalm : (x.takeovers c ds).all Takeover.isCalm = true) :
    Gathered x c ds (x.mergeAll c ds) ∧ (x.mergeAll c ds).isLive c = true ∧
      x.size c ≤ (x.mergeAll c ds).size c := by
  -- The root is live after every merge, so none of them is left out.
  have hend : (x.mergeAll c ds).isLive c = true ∧ x.size c ≤ (x.mergeAll c ds).size c := by
    -- What is known of the remaining clusters would not survive a merge, and is not needed here.
    clear hnodup hc hlive
    induction ds generalizing x with
    | nil => exact ⟨hroot, Nat.le_refl _⟩
    | cons d ds ih =>
      rw [takeovers, List.all_cons, Bool.and_eq_true] at hcalm
      obtain ⟨hl, hs⟩ := x.size_le_size_merge hcalm.1 hroot
      obtain ⟨hl', hs'⟩ := ih (x.merge c d) hl hcalm.2
      exact ⟨hl', Nat.le_trans hs hs'⟩
  obtain ⟨pre, post, hsplit, hg, hpost⟩ := x.gathered_mergeAll hnodup hc hlive
  have hall : post = [] := hpost.resolve_right fun h => by
    rw [hend.1] at h
    cases h
  rw [hall, List.append_nil] at hsplit
  rw [← hsplit] at hg
  exact ⟨hg, hend⟩

/-- A calm pass of a merging cluster that is large enough gathers all that links reach. -/
theorem gathered_mergeReachable_of_calm (hpos : 0 < x.config.mergeSize) {c : ClusterId}
    (hsize : x.config.mergeSize ≤ x.size c) (hkind : x.config.kind = .merging) {prune : Bool}
    (hcalm : x.calmPass c prune = true) :
    Search.Explored x.clusterOf c prune (x.mergeable c) x.links (x.pass c prune) ∧
    Gathered { x with links := (x.pass c prune).links } c (x.pass c prune).reached
      (x.mergeReachable c prune) ∧
    (x.mergeReachable c prune).isLive c = true ∧ x.size c ≤ (x.mergeReachable c prune).size c := by
  have hfound := x.explored_pass hkind hsize prune
  have hc : c ∉ (x.pass c prune).reached := fun h =>
    (x.mem_mergeable.mp (hfound.candidate c h)).2.1 rfl
  refine ⟨hfound, gathered_mergeAll_of_calm { x with links := (x.pass c prune).links } hfound.nodup
    hc (fun d hd => ?_) (x.isLive_of_size_pos (Nat.lt_of_lt_of_le hpos hsize)) hcalm⟩
  have hd := (x.mem_mergeable.mp (hfound.candidate d hd)).2.2
  exact x.isLive_of_size_pos (Nat.lt_of_lt_of_le hpos hd)

/-- What a calm pass of `c` leaves: every cluster has a home, its own or `c`, where its members are
found, and with it the links that were not used up. -/
structure Swept (x : ClusterIndex S) (c : ClusterId) (prune : Bool) (home : ClusterId → ClusterId)
    (y : ClusterIndex S) : Prop where
  owner : ∀ id, y.clusterOf id = (x.clusterOf id).map home
  root : home c = c
  large : ∀ d, home d = c → x.config.mergeSize ≤ x.size d
  grown : x.size c ≤ y.size c
  fixed : ∀ d, home d ≠ c → home d = d ∧ y.cluster? d = x.cluster? d
  closed : ∀ a t d, home a = c → x.links.contains a t = true → x.clusterOf t = some d →
    x.config.mergeSize ≤ x.size d → home d = c
  kept : ∀ a t, x.links.contains a t = true → y.links.contains (home a) t = true ∨
    (a = c ∧ prune = true) ∨ (home a = c ∧ ∃ d, x.clusterOf t = some d ∧ home d = c)
  origin : ∀ s t, y.links.contains s t = true →
    ∃ a, home a = s ∧ x.links.contains a t = true ∧ (a = c → prune = false)

theorem swept_mergeReachable (hown : Ownership x) (hpos : 0 < x.config.mergeSize) {c : ClusterId}
    (hsize : x.config.mergeSize ≤ x.size c) (hkind : x.config.kind = .merging) {prune : Bool}
    (hcalm : x.calmPass c prune = true) :
    ∃ home, Swept x c prune home (x.mergeReachable c prune) := by
  obtain ⟨hfound, hg, -, hgrown⟩ := x.gathered_mergeReachable_of_calm hpos hsize hkind hcalm
  generalize x.mergeReachable c prune = y at hg hgrown
  generalize x.pass c prune = found at hfound hg
  have hc : c ∉ found.reached := fun h => (x.mem_mergeable.mp (hfound.candidate c h)).2.1 rfl
  have hlarge : ∀ d ∈ found.reached, x.config.mergeSize ≤ x.size d := fun d hd =>
    (x.mem_mergeable.mp (hfound.candidate d hd)).2.2
  have hlive : ∀ d ∈ found.reached, x.isLive d = true := fun d hd =>
    x.isLive_of_size_pos (Nat.lt_of_lt_of_le hpos (hlarge d hd))
  -- The home of what was reached is the root, and every other cluster is its own.
  have hhome : ∀ d, (if d ∈ found.reached then c else d) = c ↔ d ∈ c :: found.reached := by
    intro d
    rw [List.mem_cons]
    by_cases hd : d ∈ found.reached
    · simp [hd]
    · simp [hd]
  refine ⟨fun d => if d ∈ found.reached then c else d, fun id => ?_, if_neg hc, fun d hd => ?_,
    hgrown, fun d hd => ?_, fun a t d ha ht ho hd => ?_, fun a t ht => ?_, fun s t ht => ?_⟩
  · have howner : y.clusterOf id =
        if id ∈ found.reached.flatMap x.members then some c else x.clusterOf id := hg.owner id
    rw [howner]
    by_cases hid : id ∈ found.reached.flatMap x.members
    · obtain ⟨d, hd, hm⟩ := List.mem_flatMap.mp hid
      obtain ⟨k, hk, hkl⟩ := x.isLive_iff.mp (hlive d hd)
      rw [x.members_of_cluster? hk] at hm
      rw [if_pos (List.mem_flatMap.mpr ⟨d, hd, x.members_of_cluster? hk ▸ hm⟩),
        hown.owner_of_live hk hkl id hm, Option.map_some, if_pos hd]
    · rw [if_neg hid]
      cases ho : x.clusterOf id with
      | none => rfl
      | some d =>
        have hd : d ∉ found.reached := fun hd =>
          hid (List.mem_flatMap.mpr ⟨d, hd, hown.listed id d ho⟩)
        rw [Option.map_some, if_neg hd]
  · rcases List.mem_cons.mp ((hhome d).mp hd) with rfl | hd
    · exact hsize
    · exact hlarge d hd
  · have hno : d ∉ c :: found.reached := fun h => hd ((hhome d).mpr h)
    rw [List.mem_cons, not_or] at hno
    exact ⟨if_neg hno.2, hg.other d hno.1 hno.2⟩
  · refine (hhome d).mpr (List.mem_cons.mpr ?_)
    by_cases hdc : d = c
    · exact Or.inl hdc
    · refine Or.inr (hfound.closed a ((hhome a).mp ha) t ht d ho (x.mem_mergeable.mpr ⟨?_, hdc, hd⟩))
      obtain ⟨k, hk, -⟩ := x.isLive_iff.mp (x.isLive_of_size_pos (Nat.lt_of_lt_of_le hpos hd))
      exact x.issued_of_cluster? hk
  · cases hm : found.links.contains a t with
    | true =>
      refine Or.inl ((hg.links _ t).mpr ?_)
      by_cases ha : a ∈ c :: found.reached
      · exact Or.inl ⟨(hhome a).mpr ha, a, ha, hm⟩
      · rw [List.mem_cons, not_or] at ha
        exact Or.inr ⟨(if_neg ha.2).symm ▸ ha.1, (if_neg ha.2).symm ▸ ha.2,
          (if_neg ha.2).symm ▸ hm⟩
    | false =>
      rcases hfound.used a t ht hm with hp | ⟨ha, d, hd, ho⟩
      · exact Or.inr (Or.inl hp)
      · exact Or.inr (Or.inr ⟨(hhome a).mpr ha, d, ho, if_pos hd⟩)
  · rcases (hg.links s t).mp ht with ⟨rfl, a, ha, hm⟩ | ⟨hs, hds, hm⟩
    · refine ⟨a, (hhome a).mpr ha, hfound.fewer a t hm, ?_⟩
      rintro rfl
      cases prune with
      | false => rfl
      | true =>
        -- A final pass leaves the root no links.
        replace hm : found.links.contains a t = true := hm
        rw [hfound.pruned rfl t] at hm
        cases hm
    · exact ⟨s, if_neg hds, hfound.fewer s t hm, fun e => absurd e hs⟩

end ClusterIndex

end DensityClustering

import DensityClustering.Scalar.Instances
import DensityClustering.Proofs.Cluster.Overdraft

/-!
What a merge pass does to the clusters. A root reaches the large enough clusters that its links lead
to, those that theirs lead to, and so on; a pass that takes no count below zero puts exactly these
together and touches no other cluster. Links that lead out of them are carried over, while of its own
links a finishing root keeps none, and another one all but the first to each cluster.
-/

namespace DensityClustering

namespace LinkGraph

theorem targets_congr {g g' : LinkGraph} {s : ClusterId}
    (h : ∀ t, g'.contains s t = true ↔ g.contains s t = true) : g'.targets s = g.targets s := by
  have hrow : Rows.row g'.forward s = Rows.row g.forward s := by
    apply Std.ExtTreeSet.ext_mem
    intro t
    exact h t
  unfold targets
  rw [hrow]

theorem targets_nodup (g : LinkGraph) (s : ClusterId) : (g.targets s).Nodup := by
  refine List.Pairwise.imp ?_ Std.ExtTreeSet.distinct_toList
  intro a b hne he
  exact hne (he ▸ Std.ReflCmp.compare_self)

end LinkGraph

namespace ClusterIndex

namespace Search

variable {owner : ItemId → Option ClusterId} {current root : ClusterId} {prune : Bool}

/-- Links to other ids are left alone. -/
theorem contains_foldl_follow_of_not_mem (targets : List ItemId) (s : Search) (a : ClusterId)
    {t : ItemId} (ht : t ∉ targets) :
    (targets.foldl (follow owner current prune) s).links.contains a t = s.links.contains a t := by
  induction targets generalizing s with
  | nil => rfl
  | cons u targets ih =>
    rw [List.mem_cons, not_or] at ht
    have hone : (s.follow owner current prune u).links.contains a t = s.links.contains a t := by
      have hunlink : (s.links.unlink current u).1.contains a t = s.links.contains a t :=
        LinkGraph.contains_unlink_of_ne fun he => ht.1 he.2
      unfold follow
      split
      · exact hunlink
      · split
        · exact hunlink
        · rfl
    rw [List.foldl_cons, ih _ ht.2, hone]

/-- Without pruning, of the links to a cluster that was not reached yet the first one is used up. -/
theorem contains_foldl_follow (pre post : List ItemId) (t : ItemId) {s : Search}
    (hdistinct : s.unreached.Nodup) (hpost : t ∉ post) (hpre : t ∉ pre) :
    ((pre ++ t :: post).foldl (follow owner current false) s).links.contains current t = true ↔
      s.links.contains current t = true ∧
        ∀ d, owner t = some d → d ∈ s.unreached → ∃ u ∈ pre, owner u = some d := by
  obtain ⟨found, hf⟩ : ∃ found, Followed owner current false pre s found
      (pre.foldl (follow owner current false) s) := exists_followed pre hdistinct
  have hbefore : (pre.foldl (follow owner current false) s).links.contains current t =
      s.links.contains current t := contains_foldl_follow_of_not_mem pre s current hpre
  rw [List.foldl_append, List.foldl_cons, contains_foldl_follow_of_not_mem post _ current hpost]
  generalize pre.foldl (follow owner current false) s = s' at hf hbefore
  -- A cluster was found before exactly if an earlier id is its own.
  have hearlier (d : ClusterId) (hd : d ∈ s.unreached) :
      d ∈ found ↔ ∃ u ∈ pre, owner u = some d := by
    constructor
    · exact hf.led d
    · intro hu
      obtain ⟨u, hu, ho⟩ := hu
      exact hf.missed u hu d ho hd
  unfold follow
  cases hc : (owner t).filter fun c => decide (c ∈ s'.unreached) with
  | some d =>
    obtain ⟨ho, hmem⟩ := Option.filter_eq_some_iff.mp hc
    obtain ⟨hin, hnew⟩ := (hf.unreached d).mp (of_decide_eq_true hmem)
    have hused : (s'.links.unlink current t).1.contains current t = false :=
      LinkGraph.contains_unlink_self ..
    refine iff_of_false ?_ ?_
    · rw [Bool.not_eq_true]
      exact hused
    · intro h
      exact hnew ((hearlier d hin).mpr (h.2 d ho hin))
  | none =>
    have hkept : ∀ d, owner t = some d → d ∈ s.unreached → ∃ u ∈ pre, owner u = some d := by
      intro d ho hd
      apply (hearlier d hd).mp
      by_contra hnew
      have hmem : d ∈ s'.unreached := (hf.unreached d).mpr ⟨hd, hnew⟩
      exact Option.filter_eq_none_iff.mp hc d ho (decide_eq_true hmem)
    rw [if_neg Bool.false_ne_true, hbefore]
    exact (and_iff_left hkept).symm

/-- A search that is done with its root leaves the links of the root alone. -/
theorem contains_run {s : Search} (hdistinct : s.unreached.Nodup)
    (hwaiting : root ∉ s.frontier.map Prod.fst) (hroot : root ∉ s.unreached) (t : ItemId) :
    (s.run owner).links.contains root t = s.links.contains root t := by
  induction s using Search.run.induct owner with
  | case1 s hempty =>
    rw [Search.run.eq_def, hempty]
  | case2 s current pruning rest hfrontier ih =>
    rw [Search.run.eq_def, hfrontier]
    rw [hfrontier, List.map_cons, List.mem_cons, not_or] at hwaiting
    obtain ⟨found, hf⟩ : ∃ found, Followed owner current pruning (s.links.targets current)
        { s with frontier := rest } found ((s.links.targets current).foldl
          (follow owner current pruning) { s with frontier := rest }) :=
      exists_followed _ hdistinct
    have hnew : root ∉ found := fun h => hroot (hf.fresh root h)
    refine (ih hf.distinct ?_ ?_).trans (hf.elsewhere root t hwaiting.1)
    · rw [hf.frontier, List.map_append, List.mem_append, not_or]
      refine ⟨?_, hwaiting.2⟩
      simpa using hnew
    · intro h
      exact hroot ((hf.unreached root).mp h).1

end Search

variable {S : Type} [Scalar S]

/-- The clusters that links lead to from `c`: itself, and of the ids that one of them links to, the
owners that are large enough to merge. -/
inductive Reaches (x : ClusterIndex S) (c : ClusterId) : ClusterId → Prop
  | root : Reaches x c c
  | link {d e : ClusterId} {t : ItemId} (reached : Reaches x c d) (linked : t ∈ x.linksOf d)
    (owned : x.clusterOf t = some e) (large : x.config.mergeSize ≤ x.size e) : Reaches x c e

/-- All clusters that `c` reaches went into it, and every other one is as it was; of their links
those of `c` are left over, among them all that led from another one to an id that none of them
owns. -/
structure Assembled (x : ClusterIndex S) (c : ClusterId) (y : ClusterIndex S) : Prop where
  owner : ∀ d, x.Reaches c d → ∀ m ∈ x.members d, y.clusterOf m = some c
  stale : ∀ d, x.Reaches c d → d ≠ c → y.cluster? d = none
  outside : ∀ d, ¬x.Reaches c d → y.cluster? d = x.cluster? d ∧ y.linksOf d = x.linksOf d
  origin : ∀ t ∈ y.linksOf c, ∃ d, x.Reaches c d ∧ t ∈ x.linksOf d
  carried : ∀ d t, x.Reaches c d → d ≠ c → t ∈ x.linksOf d →
    (∀ e, x.clusterOf t = some e → ¬x.Reaches c e) → t ∈ y.linksOf c

variable {x y : ClusterIndex S} {c d : ClusterId} {t : ItemId}

theorem mem_linksOf : t ∈ x.linksOf c ↔ x.links.contains c t = true :=
  LinkGraph.mem_targets ..

theorem linksOf_modify (e : ClusterId) (f : Cluster S → Cluster S) :
    (x.modify e f).linksOf c = x.linksOf c := by
  unfold linksOf
  rw [x.links_modify]

/-- What a pass reaches is what links lead to. -/
theorem reaches_iff (hpos : 0 < x.config.mergeSize) {prune : Bool} {found : Search}
    (h : Search.Explored x.clusterOf c prune (x.mergeable c) x.links found) :
    x.Reaches c d ↔ d ∈ c :: found.reached := by
  constructor
  · intro hd
    induction hd with
    | root => exact List.mem_cons_self
    | @link a e t _ hlink howned hlarge ih =>
      by_cases hec : e = c
      · rw [hec]
        exact List.mem_cons_self
      · obtain ⟨k, hk, -⟩ := x.isLive_iff.mp (x.isLive_of_size_pos (Nat.lt_of_lt_of_le hpos hlarge))
        have hcandidate : e ∈ x.mergeable c :=
          x.mem_mergeable.mpr ⟨x.issued_of_cluster? hk, hec, hlarge⟩
        exact List.mem_cons_of_mem _ (h.closed a ih t (mem_linksOf.mp hlink) e howned hcandidate)
  · -- By induction on the clusters that were reached before `d`.
    have hpre (n : ℕ) : ∀ pre e post, pre.length ≤ n → found.reached = pre ++ e :: post →
        x.Reaches c e := by
      induction n with
      | zero =>
        intro pre e post hlen hsplit
        obtain ⟨a, ha, t, hlink, howned⟩ := h.path pre e post hsplit
        have hnil : pre = [] := List.length_eq_zero_iff.mp (by omega)
        have hac : a = c := by
          rw [hnil] at ha
          exact List.mem_singleton.mp ha
        have hmem : e ∈ found.reached := by
          rw [hsplit]
          exact List.mem_append_right _ List.mem_cons_self
        rw [hac] at hlink
        exact .link .root (mem_linksOf.mpr hlink) howned
          (x.mem_mergeable.mp (h.candidate e hmem)).2.2
      | succ n ih =>
        intro pre e post hlen hsplit
        obtain ⟨a, ha, t, hlink, howned⟩ := h.path pre e post hsplit
        have hmem : e ∈ found.reached := by
          rw [hsplit]
          exact List.mem_append_right _ List.mem_cons_self
        have hreached : x.Reaches c a := by
          rcases List.mem_cons.mp ha with hac | ha
          · rw [hac]
            exact .root
          · obtain ⟨early, late, hearly⟩ := List.append_of_mem ha
            have hshort : early.length ≤ n := by
              rw [hearly, List.length_append, List.length_cons] at hlen
              omega
            refine ih early a (late ++ e :: post) hshort ?_
            rw [hsplit, hearly, List.append_assoc, List.cons_append]
        exact .link hreached (mem_linksOf.mpr hlink) howned
          (x.mem_mergeable.mp (h.candidate e hmem)).2.2
    intro hd
    rcases List.mem_cons.mp hd with hd | hd
    · rw [hd]
      exact .root
    · obtain ⟨pre, post, hsplit⟩ := List.append_of_mem hd
      exact hpre pre.length pre d post (Nat.le_refl _) hsplit

/-- A pass that sinks nothing gathers everything it found. -/
theorem gathered_of_paid (hkind : x.config.kind = .merging) (hpos : 0 < x.config.mergeSize)
    (hsize : x.config.mergeSize ≤ x.size c) {prune : Bool}
    (hpaid : ∀ m ∈ x.passTakeovers c prune, m.sinks = false) :
    Search.Explored x.clusterOf c prune (x.mergeable c) x.links (x.pass c prune) ∧
    Gathered { x with links := (x.pass c prune).links } c (x.pass c prune).reached
      (x.mergeReachable c prune) := by
  have hlive : x.isLive c = true := x.isLive_of_size_pos (Nat.lt_of_lt_of_le hpos hsize)
  have hfound := x.explored_pass hkind hsize prune
  have hc : c ∉ (x.pass c prune).reached := by
    intro h
    exact (x.mem_mergeable.mp (hfound.candidate c h)).2.1 rfl
  have halive : ∀ d ∈ (x.pass c prune).reached, x.isLive d = true := by
    intro d hd
    have hlarge := (x.mem_mergeable.mp (hfound.candidate d hd)).2.2
    exact x.isLive_of_size_pos (Nat.lt_of_lt_of_le hpos hlarge)
  obtain ⟨pre, post, hsplit, hg, hend⟩ :=
    gathered_mergeAll { x with links := (x.pass c prune).links } hfound.nodup hc halive
  -- The root keeps its record, and is not in debt at the end.
  have hlast : (x.mergeReachable c prune).isLive c = true := by
    have hquiet : ¬(x.mergeReachable c prune).InDebt c := by
      rw [inDebt_pass c prune hlive]
      intro hm
      obtain ⟨m, hmem, -, hsink⟩ := hm
      rw [hpaid m hmem] at hsink
      cases hsink
    apply (isLive_or_gone_iff.mpr hquiet).resolve_right
    exact cluster?_mergeAll_ne_none (x := { x with links := (x.pass c prune).links }) _
      (cluster?_ne_none_of_isLive hlive)
  have hall : post = [] := by
    apply hend.resolve_right
    intro hdead
    change (x.mergeReachable c prune).isLive c = false at hdead
    rw [hlast] at hdead
    cases hdead
  rw [hall, List.append_nil] at hsplit
  rw [← hsplit] at hg
  exact ⟨hfound, hg⟩

/-- A pass leaves what it did not reach alone, and carries the links over that lead out. -/
theorem assembled_of_gathered (hown : Ownership x) (hpos : 0 < x.config.mergeSize)
    (hsize : x.config.mergeSize ≤ x.size c) {prune : Bool} {found : Search}
    (hfound : Search.Explored x.clusterOf c prune (x.mergeable c) x.links found)
    (hg : Gathered { x with links := found.links } c found.reached y) : Assembled x c y := by
  have hreach (d : ClusterId) : x.Reaches c d ↔ d = c ∨ d ∈ found.reached := by
    rw [reaches_iff hpos hfound, List.mem_cons]
  refine ⟨?_, ?_, ?_, ?_, ?_⟩
  · intro d hd m hm
    have howner : y.clusterOf m =
        if m ∈ found.reached.flatMap x.members then some c else x.clusterOf m := hg.owner m
    rw [howner]
    rcases (hreach d).mp hd with hdc | hd
    · obtain ⟨k, hk, hkl⟩ := x.isLive_iff.mp (x.isLive_of_size_pos (Nat.lt_of_lt_of_le hpos hsize))
      rw [hdc, x.members_of_cluster? hk] at hm
      rw [hown.owner_of_live hk hkl m hm]
      exact ite_self _
    · rw [if_pos (List.mem_flatMap.mpr ⟨d, hd, hm⟩)]
  · intro d hd hne
    exact hg.gone d (((hreach d).mp hd).resolve_left hne)
  · intro d hd
    rw [hreach, not_or] at hd
    refine ⟨hg.other d hd.1 hd.2, LinkGraph.targets_congr fun t => ?_⟩
    have hkept : y.links.contains d t = true ↔ found.links.contains d t = true := by
      rw [hg.links]
      constructor
      · intro h
        rcases h with ⟨he, -⟩ | ⟨-, -, ht⟩
        · exact absurd he hd.1
        · exact ht
      · intro ht
        exact Or.inr ⟨hd.1, hd.2, ht⟩
    rw [hkept]
    refine ⟨hfound.fewer d t, fun ht => ?_⟩
    by_contra hno
    rcases hfound.used d t ht (Bool.eq_false_iff.mpr hno) with ⟨he, -⟩ | ⟨hmem, -⟩
    · exact hd.1 he
    · rcases List.mem_cons.mp hmem with he | hmem
      · exact hd.1 he
      · exact hd.2 hmem
  · intro t ht
    rcases (hg.links c t).mp (mem_linksOf.mp ht) with ⟨-, a, ha, hat⟩ | ⟨hne, -⟩
    · exact ⟨a, (reaches_iff hpos hfound).mpr ha, mem_linksOf.mpr (hfound.fewer a t hat)⟩
    · exact absurd rfl hne
  · intro d t hd hne ht hout
    have hmem : d ∈ found.reached := ((hreach d).mp hd).resolve_left hne
    apply mem_linksOf.mpr
    refine (hg.links c t).mpr (Or.inl ⟨rfl, d, List.mem_cons_of_mem _ hmem, ?_⟩)
    by_contra hno
    rcases hfound.used d t (mem_linksOf.mp ht) (Bool.eq_false_iff.mpr hno) with
      ⟨he, -⟩ | ⟨-, e, he, howned⟩
    · exact hne he
    · exact hout e howned ((hreach e).mpr (Or.inr he))

theorem Assembled.modify (h : Assembled x c y) (f : Cluster S → Cluster S) :
    Assembled x c (y.modify c f) := by
  have hother (d : ClusterId) (hne : d ≠ c) : (y.modify c f).cluster? d = y.cluster? d := by
    rw [y.cluster?_modify, if_neg hne]
  refine ⟨fun d hd m hm => ?_, fun d hd hne => ?_, fun d hd => ?_, fun t ht => ?_,
    fun d t hd hne ht hout => ?_⟩
  · have hown : (y.modify c f).clusterOf m = y.clusterOf m := by
      unfold clusterOf
      rw [y.owners_modify]
    rw [hown]
    exact h.owner d hd m hm
  · rw [hother d hne]
    exact h.stale d hd hne
  · have hne : d ≠ c := by
      intro he
      exact hd (he ▸ .root)
    rw [hother d hne, linksOf_modify]
    exact h.outside d hd
  · rw [linksOf_modify] at ht
    exact h.origin t ht
  · rw [linksOf_modify]
    exact h.carried d t hd hne ht hout

/-- Which of the root's own links are still there when the search ends without pruning. -/
theorem contains_pass_root (hkind : x.config.kind = .merging) (hpos : 0 < x.config.mergeSize)
    (hsize : x.config.mergeSize ≤ x.size c) {pre post : List ItemId}
    (hsplit : x.linksOf c = pre ++ t :: post) :
    (x.pass c false).links.contains c t = true ↔
      ∀ e, x.clusterOf t = some e → x.Reaches c e → e ≠ c → ∃ u ∈ pre, x.clusterOf u = some e := by
  have hmem : t ∈ x.linksOf c := by
    rw [hsplit]
    exact List.mem_append_right _ List.mem_cons_self
  have hlinked : x.links.contains c t = true := mem_linksOf.mp hmem
  have hgo : ¬(x.config.kind = .preProcess ∨ x.size c < x.config.mergeSize ∨
      x.linkCount c = 0) := by
    rw [not_or, not_or]
    refine ⟨?_, Nat.not_lt.mpr hsize, ?_⟩
    · rw [hkind]
      exact fun h => nomatch h
    · intro hcount
      rw [(LinkGraph.count_eq_zero_iff _ _).mp hcount t] at hlinked
      cases hlinked
  -- The links of the root come first, in order, and no later step touches them.
  obtain ⟨hpre, hpost⟩ : t ∉ pre ∧ t ∉ post := by
    have hnodup : (pre ++ t :: post).Nodup := hsplit ▸ x.links.targets_nodup c
    obtain ⟨-, hcons, hapart⟩ := List.nodup_append.mp hnodup
    exact ⟨fun h => hapart t h t List.mem_cons_self rfl, (List.nodup_cons.mp hcons).1⟩
  have hdistinct : (x.mergeable c).Nodup := x.handles_nodup.filter _
  have hroot : c ∉ x.mergeable c := fun h => (x.mem_mergeable.mp h).2.1 rfl
  have hfirst : ((pre ++ t :: post).foldl (Search.follow x.clusterOf c false)
      ⟨x.links, x.mergeable c, [], []⟩).links.contains c t = true ↔
      x.links.contains c t = true ∧
        ∀ e, x.clusterOf t = some e → e ∈ x.mergeable c → ∃ u ∈ pre, x.clusterOf u = some e :=
    Search.contains_foldl_follow pre post t hdistinct hpost hpre
  obtain ⟨led, hf⟩ : ∃ led, Search.Followed x.clusterOf c false (x.linksOf c)
      ⟨x.links, x.mergeable c, [], []⟩ led ((x.linksOf c).foldl
        (Search.follow x.clusterOf c false) ⟨x.links, x.mergeable c, [], []⟩) :=
    Search.exists_followed _ hdistinct
  have hpass : (x.pass c false).links.contains c t = ((x.linksOf c).foldl
      (Search.follow x.clusterOf c false) ⟨x.links, x.mergeable c, [], []⟩).links.contains c t := by
    unfold pass
    rw [if_neg hgo, Search.run.eq_def]
    apply Search.contains_run hf.distinct
    · intro h
      rw [hf.frontier, List.append_nil] at h
      have hled : c ∈ led := by simpa using h
      exact hroot (hf.fresh c hled)
    · intro h
      exact hroot ((hf.unreached c).mp h).1
  rw [hpass, hsplit, hfirst, and_iff_right hlinked]
  refine forall_congr' fun e => forall_congr' fun howned => ?_
  have hcandidate : e ∈ x.mergeable c ↔ x.Reaches c e ∧ e ≠ c := by
    have hfound := x.explored_pass hkind hsize false
    constructor
    · intro he
      obtain ⟨-, hne, hlarge⟩ := x.mem_mergeable.mp he
      exact ⟨.link .root hmem howned hlarge, hne⟩
    · intro he
      rcases List.mem_cons.mp ((reaches_iff hpos hfound).mp he.1) with h | h
      · exact absurd h he.2
      · exact hfound.candidate e h
  rw [hcandidate, and_imp]

theorem isFinished_recordLink (contact : Contact S) (id : ItemId) :
    (x.recordLink c contact id).1.isFinished d = x.isFinished d := by
  rcases x.recordLink_cases c contact id with ⟨-, he⟩ | ⟨k, hk, -, -, ⟨-, he⟩ | ⟨-, he⟩⟩
  · rw [he]
  · rw [he]
    rfl
  · rw [he]
    unfold isFinished
    rw [x.cluster?_relink hk]
    by_cases hd : d = c
    · rw [if_pos hd, hd, hk, Option.any_some, Option.any_some, Cluster.finished_reach]
    · rw [if_neg hd]

/-- The links that a root has once it gathered what its search found. -/
theorem mem_linksOf_gathered (hpos : 0 < x.config.mergeSize) {prune : Bool} {found : Search}
    (hfound : Search.Explored x.clusterOf c prune (x.mergeable c) x.links found)
    (hg : Gathered { x with links := found.links } c found.reached y) (h : t ∈ y.linksOf c) :
    found.links.contains c t = true ∨ ∃ d, x.Reaches c d ∧ d ≠ c ∧ t ∈ x.linksOf d := by
  rcases (hg.links c t).mp (mem_linksOf.mp h) with ⟨-, a, ha, hat⟩ | ⟨hne, -⟩
  · rcases List.mem_cons.mp ha with hac | ha
    · rw [hac] at hat
      exact Or.inl hat
    · have hne : a ≠ c := (x.mem_mergeable.mp (hfound.candidate a ha)).2.1
      have hreached : x.Reaches c a := (reaches_iff hpos hfound).mpr (List.mem_cons_of_mem _ ha)
      exact Or.inr ⟨a, hreached, hne, mem_linksOf.mpr (hfound.fewer a t hat)⟩
  · exact absurd rfl hne

/-- A pass that sinks nothing gathers exactly what its root reaches. Of its own links a root
that finishes keeps those that came with others, and one that was finished before also those that
lead out, and all but the first one to each cluster it reaches. -/
theorem pass_gathers_reached (config : ClusterConfig) (hkind : config.kind = .merging)
    (hpos : 0 < config.mergeSize) (ops : List (Operation S)) (c : ClusterId) :
    (config.mergeSize ≤ (after config ops).size c →
      (∀ m ∈ (after config ops).passTakeovers c true, m.sinks = false) →
      Assembled (after config ops) c ((after config ops).finish c) ∧
      ∀ t ∈ ((after config ops).finish c).linksOf c,
        ∃ d, (after config ops).Reaches c d ∧ d ≠ c ∧ t ∈ (after config ops).linksOf d) ∧
    ∀ contact id grown, (after config ops).recordLink c contact id = (grown, true) →
      (after config ops).isFinished c = true → config.mergeSize ≤ grown.size c →
      (∀ m ∈ grown.passTakeovers c false, m.sinks = false) →
      Assembled grown c ((after config ops).addLink c contact id).1 ∧
      ∀ pre t post, grown.linksOf c = pre ++ t :: post →
        ((∀ e, grown.clusterOf t = some e → grown.Reaches c e → e ≠ c →
            ∃ u ∈ pre, grown.clusterOf u = some e) →
          t ∈ ((after config ops).addLink c contact id).1.linksOf c) ∧
        (t ∈ ((after config ops).addLink c contact id).1.linksOf c →
          (∀ e, grown.clusterOf t = some e → grown.Reaches c e → e ≠ c →
            ∃ u ∈ pre, grown.clusterOf u = some e) ∨
          ∃ d, grown.Reaches c d ∧ d ≠ c ∧ t ∈ grown.linksOf d) := by
  have hconfig : (after config ops : ClusterIndex S).config = config := config_after config ops
  have hown : Ownership (after config ops : ClusterIndex S) := Ownership.after config ops
  generalize (after config ops : ClusterIndex S) = x at hconfig hown
  rw [← hconfig] at hkind hpos
  refine ⟨fun hsize hpaid => ?_, fun contact id grown hrecord hfinished hsize hpaid => ?_⟩
  · rw [← hconfig] at hsize
    obtain ⟨hfound, hg⟩ := gathered_of_paid hkind hpos hsize hpaid
    refine ⟨(assembled_of_gathered hown hpos hsize hfound hg).modify _, fun t ht => ?_⟩
    unfold finish at ht
    rw [linksOf_modify] at ht
    apply (mem_linksOf_gathered hpos hfound hg ht).resolve_left
    rw [hfound.pruned rfl t]
    exact Bool.false_ne_true
  · have hgrown : grown = (x.recordLink c contact id).1 := by rw [hrecord]
    have hsame : grown.config = x.config := by rw [hgrown, config_recordLink]
    rw [← hsame] at hkind hpos hconfig
    rw [← hconfig] at hsize
    have hlate : (x.addLink c contact id).1 = grown.mergeReachable c false := by
      have hstill : grown.isFinished c = true := by
        rw [hgrown, isFinished_recordLink]
        exact hfinished
      unfold addLink
      rw [hrecord]
      simp [hstill]
    have hown : Ownership grown := by
      rw [hgrown]
      exact hown.recordLink c contact id
    obtain ⟨hfound, hg⟩ := gathered_of_paid hkind hpos hsize hpaid
    rw [hlate]
    refine ⟨assembled_of_gathered hown hpos hsize hfound hg, fun pre t post hsplit => ?_⟩
    rw [← contains_pass_root hkind hpos hsize hsplit]
    refine ⟨fun hkept => ?_, fun ht => mem_linksOf_gathered hpos hfound hg ht⟩
    exact mem_linksOf.mpr ((hg.links c t).mpr (Or.inl ⟨rfl, c, List.mem_cons_self, hkept⟩))

/-- A point on a line, named by its place. -/
def pointAt (n : UInt8) : Operation Rat :=
  .create ⟨[n]⟩ ⟨⟨[n]⟩, .point ⟨n.toNat, 0⟩, 1, false⟩

/-- The contact of the points at `m` and `n`. -/
def contactAt (m n : UInt8) : Contact Rat := ⟨⟨m.toNat, 0⟩, ⟨[m]⟩, ⟨n.toNat, 0⟩, ⟨[n]⟩⟩

/-- Three points, each linked to the next one around, and two of them to an id that is not
clustered. -/
def linkedRing : List (Operation Rat) :=
  [pointAt 0, pointAt 1, pointAt 2, .link ⟨0⟩ (contactAt 0 1) ⟨[1]⟩,
    .link ⟨1⟩ (contactAt 1 2) ⟨[2]⟩, .link ⟨2⟩ (contactAt 2 0) ⟨[0]⟩,
    .link ⟨0⟩ (contactAt 0 9) ⟨[9]⟩, .link ⟨1⟩ (contactAt 1 9) ⟨[9]⟩]

theorem finish_gathers_ring :
    Assembled (after ⟨2, 200, .merging⟩ linkedRing) ⟨0⟩
      ((after ⟨2, 200, .merging⟩ linkedRing).finish ⟨0⟩) ∧
    ((after ⟨2, 200, .merging⟩ linkedRing).finish ⟨0⟩).linksOf ⟨0⟩ = [⟨[0]⟩, ⟨[9]⟩] := by
  have hgathers := (pass_gathers_reached ⟨2, 200, .merging⟩ rfl (by decide) linkedRing ⟨0⟩).1
  have hlarge : 2 ≤ (after ⟨2, 200, .merging⟩ linkedRing).size ⟨0⟩ := by decide +kernel
  have hpaid : ∀ m ∈ (after ⟨2, 200, .merging⟩ linkedRing).passTakeovers ⟨0⟩ true,
      m.sinks = false := by decide +kernel
  exact ⟨(hgathers hlarge hpaid).1, by decide +kernel⟩

/-- A finished point that is linked to two more, which were clustered together since. -/
def twinLinks : ClusterIndex Rat :=
  after ⟨1, 200, .merging⟩ [pointAt 0, .finish ⟨0⟩, .link ⟨0⟩ (contactAt 0 1) ⟨[1]⟩,
    .link ⟨0⟩ (contactAt 0 2) ⟨[2]⟩, pointAt 1, pointAt 2, .merge ⟨1⟩ ⟨2⟩]

/-- These clusters when the link that starts the late pass is recorded. -/
def grownTwinLinks : ClusterIndex Rat := (twinLinks.recordLink ⟨0⟩ (contactAt 0 3) ⟨[3]⟩).1

/-- The second of two links to one cluster outlasts the merge with that cluster, which had no such
link itself. -/
theorem late_pass_keeps_second_link :
    twinLinks.isFinished ⟨0⟩ = true ∧
    (twinLinks.recordLink ⟨0⟩ (contactAt 0 3) ⟨[3]⟩).2 = true ∧
    1 ≤ grownTwinLinks.size ⟨0⟩ ∧
    (∀ m ∈ grownTwinLinks.passTakeovers ⟨0⟩ false, m.sinks = false) ∧
    ⟨[2]⟩ ∈ grownTwinLinks.linksOf ⟨0⟩ ∧
    grownTwinLinks.clusterOf ⟨[2]⟩ = some ⟨1⟩ ∧ grownTwinLinks.Reaches ⟨0⟩ ⟨1⟩ ∧
    (∀ d, grownTwinLinks.Reaches ⟨0⟩ d → d ≠ ⟨0⟩ → ⟨[2]⟩ ∉ grownTwinLinks.linksOf d) ∧
    ⟨[2]⟩ ∈ (twinLinks.addLink ⟨0⟩ (contactAt 0 3) ⟨[3]⟩).1.linksOf ⟨0⟩ := by
  have hfound := grownTwinLinks.explored_pass (by decide +kernel) (c := ⟨0⟩) (by decide +kernel) false
  have hreach (d : ClusterId) :
      grownTwinLinks.Reaches ⟨0⟩ d ↔ d ∈ ⟨0⟩ :: (grownTwinLinks.pass ⟨0⟩ false).reached :=
    reaches_iff (by decide +kernel) hfound
  have hreached : (grownTwinLinks.pass ⟨0⟩ false).reached = [⟨1⟩] := by decide +kernel
  refine ⟨by decide +kernel, by decide +kernel, by decide +kernel, by decide +kernel,
    by decide +kernel, by decide +kernel, ?_, ?_, by decide +kernel⟩
  · rw [hreach, hreached]
    decide
  · intro d hd hne
    rw [hreach, hreached] at hd
    rw [List.eq_of_mem_singleton ((List.mem_cons.mp hd).resolve_left hne)]
    decide +kernel

end ClusterIndex

end DensityClustering

import Mathlib.Data.List.Nodup
import DensityClustering.Proofs.Cluster.Operation

/-!
What a merge pass finds and what it leaves. The search along links reaches, in order, clusters that a
link of an earlier one leads to; it misses none, and it uses up no other links than those that lead
to clusters it reached, but for the links of the root when they are pruned.
-/

namespace DensityClustering

namespace ClusterIndex

namespace Search

variable {owner : ItemId → Option ClusterId} {current root : ClusterId} {prune : Bool}

/-- Links of `current` were followed, and led to the clusters `found`. -/
structure Followed (owner : ItemId → Option ClusterId) (current : ClusterId) (prune : Bool)
    (targets : List ItemId) (s : Search) (found : List ClusterId) (s' : Search) : Prop where
  reached : s'.reached = s.reached ++ found
  frontier : s'.frontier = (found.reverse.map fun d => (d, false)) ++ s.frontier
  unreached : ∀ d, d ∈ s'.unreached ↔ d ∈ s.unreached ∧ d ∉ found
  distinct : s'.unreached.Nodup
  nodup : found.Nodup
  fresh : ∀ d ∈ found, d ∈ s.unreached
  led : ∀ d ∈ found, ∃ t ∈ targets, owner t = some d
  missed : ∀ t ∈ targets, ∀ d, owner t = some d → d ∈ s.unreached → d ∈ found
  elsewhere : ∀ a t, a ≠ current → s'.links.contains a t = s.links.contains a t
  fewer : ∀ t, s'.links.contains current t = true → s.links.contains current t = true
  used : ∀ t, s.links.contains current t = true → s'.links.contains current t = false →
    prune = true ∨ ∃ d ∈ found, owner t = some d
  pruned : prune = true → ∀ t ∈ targets, s'.links.contains current t = false

theorem Followed.nil {s : Search} (h : s.unreached.Nodup) :
    Followed owner current prune [] s [] s := by
  refine ⟨by simp, by simp, by simp, h, List.nodup_nil, by simp, by simp, by simp, fun _ _ _ => rfl,
    fun _ ht => ht, fun t h₁ h₂ => ?_, by simp⟩
  rw [h₁] at h₂
  cases h₂

/-- One link leads to at most one new cluster. -/
theorem exists_followed_one {s : Search} (h : s.unreached.Nodup) (t : ItemId) :
    ∃ found, Followed owner current prune [t] s found (s.follow owner current prune t) := by
  have hused : ∀ t', s.links.contains current t' = true →
      (s.links.unlink current t).1.contains current t' = false → t' = t := by
    intro t' h₁ h₂
    by_contra hne
    rw [LinkGraph.contains_unlink_of_ne fun e => hne e.2, h₁] at h₂
    cases h₂
  have hfewer : ∀ t', (s.links.unlink current t).1.contains current t' = true →
      s.links.contains current t' = true := fun t' ht =>
    ((LinkGraph.contains_unlink ..).mp ht).1
  unfold follow
  cases hc : (owner t).filter fun c => decide (c ∈ s.unreached) with
  | some c =>
    obtain ⟨ho, hmem⟩ := Option.filter_eq_some_iff.mp hc
    have hmem : c ∈ s.unreached := of_decide_eq_true hmem
    refine ⟨[c], rfl, rfl, fun d => ?_, h.erase c, List.pairwise_singleton .., ?_, ?_, ?_,
      fun a t' ha => LinkGraph.contains_unlink_of_ne fun e => ha e.1, hfewer,
      fun t' h₁ h₂ => Or.inr ?_, fun _ t' ht' => ?_⟩
    · rw [h.mem_erase_iff, List.mem_singleton, and_comm]
    · intro d hd
      rw [List.mem_singleton.mp hd]
      exact hmem
    · intro d hd
      rw [List.mem_singleton.mp hd]
      exact ⟨t, List.mem_singleton.mpr rfl, ho⟩
    · intro t' ht' d hd hu
      rw [List.mem_singleton.mp ht', ho] at hd
      cases hd
      exact List.mem_singleton.mpr rfl
    · exact ⟨c, List.mem_singleton.mpr rfl, hused t' h₁ h₂ ▸ ho⟩
    · rw [List.mem_singleton.mp ht']
      exact LinkGraph.contains_unlink_self ..
  | none =>
    have hmissed : ∀ t' ∈ [t], ∀ d, owner t' = some d → d ∈ s.unreached →
        d ∈ ([] : List ClusterId) := by
      intro t' ht' d hd hu
      rw [List.mem_singleton.mp ht'] at hd
      exact absurd (decide_eq_true hu) (Option.filter_eq_none_iff.mp hc d hd)
    cases prune with
    | true =>
      refine ⟨[], by simp, by simp, by simp, h, List.nodup_nil, by simp, by simp, hmissed,
        fun a t' ha => LinkGraph.contains_unlink_of_ne fun e => ha e.1, hfewer,
        fun _ _ _ => Or.inl rfl, fun _ t' ht' => ?_⟩
      rw [List.mem_singleton.mp ht']
      exact LinkGraph.contains_unlink_self ..
    | false =>
      have hnil : Followed owner current false [] s [] s := Followed.nil h
      exact ⟨[], hnil.reached, hnil.frontier, hnil.unreached, h, hnil.nodup, hnil.fresh, by simp,
        hmissed, hnil.elsewhere, hnil.fewer, hnil.used, by simp⟩

theorem Followed.trans {targets targets' : List ItemId} {s s' s'' : Search}
    {found found' : List ClusterId} (h : Followed owner current prune targets s found s')
    (h' : Followed owner current prune targets' s' found' s'') :
    Followed owner current prune (targets ++ targets') s (found ++ found') s'' := by
  refine ⟨?_, ?_, fun d => ?_, h'.distinct, ?_, fun d hd => ?_, fun d hd => ?_,
    fun t ht d hd hu => ?_, fun a t ha => (h'.elsewhere a t ha).trans (h.elsewhere a t ha),
    fun t ht => h.fewer t (h'.fewer t ht), fun t h₁ h₂ => ?_, fun hp t ht => ?_⟩
  · rw [h'.reached, h.reached, List.append_assoc]
  · rw [h'.frontier, h.frontier, List.reverse_append, List.map_append, List.append_assoc]
  · rw [h'.unreached, h.unreached, List.mem_append, not_or, and_assoc]
  · refine List.nodup_append.mpr ⟨h.nodup, h'.nodup, fun d hd d' hd' e => ?_⟩
    exact ((h.unreached d').mp (h'.fresh d' hd')).2 (e ▸ hd)
  · rcases List.mem_append.mp hd with hd | hd
    · exact h.fresh d hd
    · exact ((h.unreached d).mp (h'.fresh d hd)).1
  · rcases List.mem_append.mp hd with hd | hd
    · obtain ⟨t, ht, ho⟩ := h.led d hd
      exact ⟨t, List.mem_append_left _ ht, ho⟩
    · obtain ⟨t, ht, ho⟩ := h'.led d hd
      exact ⟨t, List.mem_append_right _ ht, ho⟩
  · rcases List.mem_append.mp ht with ht | ht
    · exact List.mem_append_left _ (h.missed t ht d hd hu)
    · by_cases hf : d ∈ found
      · exact List.mem_append_left _ hf
      · exact List.mem_append_right _ (h'.missed t ht d hd ((h.unreached d).mpr ⟨hu, hf⟩))
  · cases hm : s'.links.contains current t with
    | true =>
      rcases h'.used t hm h₂ with hp | ⟨d, hd, ho⟩
      · exact Or.inl hp
      · exact Or.inr ⟨d, List.mem_append_right _ hd, ho⟩
    | false =>
      rcases h.used t h₁ hm with hp | ⟨d, hd, ho⟩
      · exact Or.inl hp
      · exact Or.inr ⟨d, List.mem_append_left _ hd, ho⟩
  · rcases List.mem_append.mp ht with ht | ht
    · have hm := h.pruned hp t ht
      rw [← Bool.not_eq_true] at hm ⊢
      exact fun hc => hm (h'.fewer t hc)
    · exact h'.pruned hp t ht

theorem exists_followed (targets : List ItemId) {s : Search} (h : s.unreached.Nodup) :
    ∃ found, Followed owner current prune targets s found
      (targets.foldl (follow owner current prune) s) := by
  induction targets generalizing s with
  | nil => exact ⟨[], Followed.nil h⟩
  | cons t targets ih =>
    obtain ⟨found, hone⟩ : ∃ found, Followed owner current prune [t] s found
        (s.follow owner current prune t) := exists_followed_one h t
    obtain ⟨found', hrest⟩ := ih hone.distinct
    exact ⟨found ++ found', hone.trans hrest⟩

/-- A search from `root` along the links `before`, while it goes on. -/
structure Exploring (owner : ItemId → Option ClusterId) (root : ClusterId) (prune : Bool)
    (candidates : List ClusterId) (before : LinkGraph) (s : Search) : Prop where
  fewer : ∀ a t, s.links.contains a t = true → before.contains a t = true
  used : ∀ a t, before.contains a t = true → s.links.contains a t = false →
    (a = root ∧ prune = true) ∨ (a ∈ root :: s.reached ∧ ∃ d ∈ s.reached, owner t = some d)
  unreached : ∀ d, d ∈ s.unreached ↔ d ∈ candidates ∧ d ∉ s.reached
  distinct : s.unreached.Nodup
  nodup : s.reached.Nodup
  candidate : ∀ d ∈ s.reached, d ∈ candidates
  path : ∀ pre d post, s.reached = pre ++ d :: post →
    ∃ a ∈ root :: pre, ∃ t, before.contains a t = true ∧ owner t = some d
  waiting : ∀ a ∈ s.frontier.map Prod.fst, a ∈ root :: s.reached
  waitingNodup : (s.frontier.map Prod.fst).Nodup
  flag : ∀ a b, (a, b) ∈ s.frontier → (b = true ↔ a = root ∧ prune = true)
  intact : ∀ a ∈ s.frontier.map Prod.fst, ∀ t, s.links.contains a t = before.contains a t
  closed : ∀ a ∈ root :: s.reached, a ∉ s.frontier.map Prod.fst → ∀ t,
    before.contains a t = true → ∀ d, owner t = some d → d ∈ candidates → d ∈ s.reached
  pruned : prune = true → root ∉ s.frontier.map Prod.fst → ∀ t, s.links.contains root t = false

theorem exploring_start {candidates : List ClusterId} (hnodup : candidates.Nodup)
    (before : LinkGraph) :
    Exploring owner root prune candidates before ⟨before, candidates, [], [(root, prune)]⟩ := by
  refine ⟨fun _ _ h => h, fun a t h₁ h₂ => ?_, by simp, hnodup, List.nodup_nil, by simp, by simp,
    by simp, by simp, by simp, fun _ _ _ => rfl, by simp, by simp⟩
  rw [h₁] at h₂
  cases h₂

section Step

variable {candidates : List ClusterId} {before : LinkGraph} {s s' : Search}
  {rest : List (ClusterId × Bool)} {pruning : Bool} {found : List ClusterId}

/-- What is known when the links of the cluster in front were followed. -/
structure Exploring.Advance (owner : ItemId → Option ClusterId) (root : ClusterId) (prune : Bool)
    (candidates : List ClusterId) (before : LinkGraph) (s : Search) (current : ClusterId)
    (pruning : Bool) (rest : List (ClusterId × Bool)) (found : List ClusterId) (s' : Search) :
    Prop where
  exploring : Exploring owner root prune candidates before s
  root : root ∉ candidates
  front : s.frontier = (current, pruning) :: rest
  followed : Followed owner current pruning (s.links.targets current)
    { s with frontier := rest } found s'

namespace Exploring.Advance

variable (h : Advance owner root prune candidates before s current pruning rest found s')

include h

theorem reached : s'.reached = s.reached ++ found := h.followed.reached

theorem mem_reached {a : ClusterId} :
    a ∈ root :: s'.reached ↔ a ∈ root :: s.reached ∨ a ∈ found := by
  rw [h.reached, ← List.cons_append, List.mem_append]

theorem frontier : s'.frontier.map Prod.fst = found.reverse ++ rest.map Prod.fst := by
  rw [h.followed.frontier, List.map_append, List.map_map]
  simp [Function.comp_def]

theorem waiting_of_mem_rest {a : ClusterId} (ha : a ∈ rest.map Prod.fst) :
    a ∈ s.frontier.map Prod.fst := by
  rw [h.front, List.map_cons]
  exact List.mem_cons_of_mem _ ha

theorem current_mem : current ∈ s.frontier.map Prod.fst := by
  rw [h.front, List.map_cons]
  exact List.mem_cons_self

theorem current_reached : current ∈ root :: s.reached :=
  h.exploring.waiting current h.current_mem

theorem pruning_iff : pruning = true ↔ current = root ∧ prune = true :=
  h.exploring.flag current pruning (h.front ▸ List.mem_cons_self)

/-- The links of the current cluster were whole. -/
theorem mem_targets {t : ItemId} :
    t ∈ s.links.targets current ↔ before.contains current t = true := by
  rw [LinkGraph.mem_targets, h.exploring.intact current h.current_mem]

theorem rest_nodup : current ∉ rest.map Prod.fst ∧ (rest.map Prod.fst).Nodup := by
  have hnodup := h.exploring.waitingNodup
  rwa [h.front, List.map_cons, List.nodup_cons] at hnodup

/-- A cluster found now was not waiting, and it is neither the root nor the current one. -/
theorem fresh : ∀ d ∈ found, d ∈ candidates ∧ d ∉ root :: s.reached := by
  intro d hd
  obtain ⟨hc, hr⟩ := (h.exploring.unreached d).mp (h.followed.fresh d hd)
  refine ⟨hc, fun hm => ?_⟩
  rcases List.mem_cons.mp hm with rfl | hm
  · exact h.root hc
  · exact hr hm

theorem used (a : ClusterId) (t : ItemId) (h₁ : before.contains a t = true)
    (h₂ : s'.links.contains a t = false) : (a = root ∧ prune = true) ∨
      (a ∈ root :: s'.reached ∧ ∃ d ∈ s'.reached, owner t = some d) := by
  cases hm : s.links.contains a t with
  | false =>
    rcases h.exploring.used a t h₁ hm with hp | ⟨ha, d, hd, ho⟩
    · exact Or.inl hp
    · exact Or.inr ⟨h.mem_reached.mpr (Or.inl ha), d, h.reached ▸ List.mem_append_left _ hd, ho⟩
  | true =>
    have ha : a = current := by
      by_contra hne
      rw [h.followed.elsewhere a t hne, hm] at h₂
      cases h₂
    subst ha
    rcases h.followed.used t hm h₂ with hp | ⟨d, hd, ho⟩
    · exact Or.inl (h.pruning_iff.mp hp)
    · exact Or.inr ⟨h.mem_reached.mpr (Or.inl h.current_reached), d,
        h.reached ▸ List.mem_append_right _ hd, ho⟩

/-- What was found now is reached by a link of the current cluster. -/
theorem led {d : ClusterId} (hd : d ∈ found) :
    ∃ t, before.contains current t = true ∧ owner t = some d := by
  obtain ⟨t, ht, ho⟩ := h.followed.led d hd
  exact ⟨t, h.mem_targets.mp ht, ho⟩

theorem path (pre : List ClusterId) (d : ClusterId) (post : List ClusterId)
    (hsplit : s'.reached = pre ++ d :: post) :
    ∃ a ∈ root :: pre, ∃ t, before.contains a t = true ∧ owner t = some d := by
  rw [h.reached] at hsplit
  rcases List.append_eq_append_iff.mp hsplit with ⟨late, hpre, hfound⟩ | ⟨early, hs, hpost⟩
  · have hd : d ∈ found := by
      rw [hfound]
      exact List.mem_append_right _ List.mem_cons_self
    refine ⟨current, ?_, h.led hd⟩
    rw [hpre, ← List.cons_append]
    exact List.mem_append_left _ h.current_reached
  · cases early with
    | nil =>
      have hd : d ∈ found := by
        rw [← List.nil_append found, ← hpost]
        exact List.mem_cons_self
      refine ⟨current, ?_, h.led hd⟩
      rw [← List.append_nil pre, ← hs]
      exact h.current_reached
    | cons e early =>
      rw [List.cons_append, List.cons.injEq] at hpost
      exact h.exploring.path pre d early (hpost.1 ▸ hs)

theorem flag (a : ClusterId) (b : Bool) (hab : (a, b) ∈ s'.frontier) :
    b = true ↔ a = root ∧ prune = true := by
  rw [h.followed.frontier] at hab
  rcases List.mem_append.mp hab with hab | hab
  · obtain ⟨d, hd, he⟩ := List.mem_map.mp hab
    cases he
    have hne := (h.fresh a (List.mem_reverse.mp hd)).2
    refine ⟨fun e => absurd e Bool.false_ne_true, fun e => ?_⟩
    exact absurd (e.1 ▸ List.mem_cons_self) hne
  · exact h.exploring.flag a b (h.front ▸ List.mem_cons_of_mem _ hab)

/-- The links of what still waits are whole. -/
theorem intact (a : ClusterId) (ha : a ∈ s'.frontier.map Prod.fst) (t : ItemId) :
    s'.links.contains a t = before.contains a t := by
  rw [h.frontier] at ha
  have hne : a ≠ current := by
    rintro rfl
    rcases List.mem_append.mp ha with ha | ha
    · exact (h.fresh a (List.mem_reverse.mp ha)).2 h.current_reached
    · exact h.rest_nodup.1 ha
  rw [h.followed.elsewhere a t hne]
  rcases List.mem_append.mp ha with ha | ha
  · -- Its links were never followed, so none of them was used up.
    have hnew := (h.fresh a (List.mem_reverse.mp ha)).2
    rw [Bool.eq_iff_iff]
    refine ⟨h.exploring.fewer a t, fun hb => ?_⟩
    by_contra hno
    rcases h.exploring.used a t hb (Bool.eq_false_iff.mpr hno) with ⟨rfl, -⟩ | ⟨hm, -⟩
    · exact hnew List.mem_cons_self
    · exact hnew hm
  · exact h.exploring.intact a (h.waiting_of_mem_rest ha) t

/-- Clusters that no longer wait had all their links followed. -/
theorem not_waiting {a : ClusterId} (hne : a ≠ current) (ha : a ∉ s'.frontier.map Prod.fst) :
    a ∉ s.frontier.map Prod.fst := by
  rw [h.frontier] at ha
  rw [h.front, List.map_cons, List.mem_cons, not_or]
  exact ⟨hne, fun hm => ha (List.mem_append_right _ hm)⟩

theorem closed (a : ClusterId) (ha : a ∈ root :: s'.reached)
    (hna : a ∉ s'.frontier.map Prod.fst) (t : ItemId) (ht : before.contains a t = true)
    (d : ClusterId) (hd : owner t = some d) (hc : d ∈ candidates) : d ∈ s'.reached := by
  rw [h.reached]
  by_cases hac : a = current
  · subst hac
    by_cases hin : d ∈ s.reached
    · exact List.mem_append_left _ hin
    · refine List.mem_append_right _ (h.followed.missed t (h.mem_targets.mpr ht) d hd ?_)
      exact (h.exploring.unreached d).mpr ⟨hc, hin⟩
  · rcases h.mem_reached.mp ha with ha | ha
    · exact List.mem_append_left _ (h.exploring.closed a ha (h.not_waiting hac hna) t ht d hd hc)
    · refine absurd ?_ hna
      rw [h.frontier]
      exact List.mem_append_left _ (List.mem_reverse.mpr ha)

theorem pruned (hp : prune = true) (hna : root ∉ s'.frontier.map Prod.fst) (t : ItemId) :
    s'.links.contains root t = false := by
  by_cases hr : root = current
  · subst hr
    by_cases ht : t ∈ s.links.targets root
    · exact h.followed.pruned (h.pruning_iff.mpr ⟨rfl, hp⟩) t ht
    · rw [LinkGraph.mem_targets] at ht
      rw [← Bool.not_eq_true]
      exact fun hm => ht (h.followed.fewer t hm)
  · rw [h.followed.elsewhere root t hr]
    exact h.exploring.pruned hp (h.not_waiting hr hna) t

end Exploring.Advance

/-- Following the links of one cluster goes on with the search. -/
theorem Exploring.step (h : Exploring owner root prune candidates before s)
    (hroot : root ∉ candidates) (hfrontier : s.frontier = (current, pruning) :: rest) :
    Exploring owner root prune candidates before
      ((s.links.targets current).foldl (follow owner current pruning)
        { s with frontier := rest }) := by
  obtain ⟨found, hf⟩ : ∃ found, Followed owner current pruning (s.links.targets current)
      { s with frontier := rest } found ((s.links.targets current).foldl
        (follow owner current pruning) { s with frontier := rest }) :=
    exists_followed _ h.distinct
  generalize (s.links.targets current).foldl (follow owner current pruning)
    { s with frontier := rest } = s' at hf
  have hadv : Advance owner root prune candidates before s current pruning rest found s' :=
    ⟨h, hroot, hfrontier, hf⟩
  refine ⟨fun a t ht => ?_, hadv.used, fun d => ?_, hf.distinct, ?_, fun d hd => ?_, hadv.path,
    fun a ha => ?_, ?_, hadv.flag, hadv.intact, hadv.closed, hadv.pruned⟩
  · by_cases ha : a = current
    · subst ha
      exact h.fewer a t (hf.fewer t ht)
    · rw [hf.elsewhere a t ha] at ht
      exact h.fewer a t ht
  · rw [hf.unreached, hadv.reached, List.mem_append, not_or, ← and_assoc]
    exact and_congr_left fun _ => h.unreached d
  · rw [hadv.reached]
    refine List.nodup_append.mpr ⟨h.nodup, hf.nodup, fun d hd d' hd' e => ?_⟩
    exact (hadv.fresh d' hd').2 (e ▸ List.mem_cons_of_mem _ hd)
  · rw [hadv.reached] at hd
    rcases List.mem_append.mp hd with hd | hd
    · exact h.candidate d hd
    · exact (hadv.fresh d hd).1
  · rw [hadv.frontier] at ha
    rcases List.mem_append.mp ha with ha | ha
    · exact hadv.mem_reached.mpr (Or.inr (List.mem_reverse.mp ha))
    · exact hadv.mem_reached.mpr (Or.inl (h.waiting a (hadv.waiting_of_mem_rest ha)))
  · rw [hadv.frontier]
    refine List.nodup_append.mpr
      ⟨List.nodup_reverse.mpr hf.nodup, hadv.rest_nodup.2, fun d hd d' hd' e => ?_⟩
    have hw := h.waiting d' (hadv.waiting_of_mem_rest hd')
    exact (hadv.fresh d (List.mem_reverse.mp hd)).2 (e ▸ hw)

end Step

/-- What a search from `root` along the links `before` found. -/
structure Explored (owner : ItemId → Option ClusterId) (root : ClusterId) (prune : Bool)
    (candidates : List ClusterId) (before : LinkGraph) (found : Search) : Prop where
  fewer : ∀ a t, found.links.contains a t = true → before.contains a t = true
  used : ∀ a t, before.contains a t = true → found.links.contains a t = false →
    (a = root ∧ prune = true) ∨
      (a ∈ root :: found.reached ∧ ∃ d ∈ found.reached, owner t = some d)
  nodup : found.reached.Nodup
  candidate : ∀ d ∈ found.reached, d ∈ candidates
  path : ∀ pre d post, found.reached = pre ++ d :: post →
    ∃ a ∈ root :: pre, ∃ t, before.contains a t = true ∧ owner t = some d
  closed : ∀ a ∈ root :: found.reached, ∀ t, before.contains a t = true →
    ∀ d, owner t = some d → d ∈ candidates → d ∈ found.reached
  pruned : prune = true → ∀ t, found.links.contains root t = false

theorem Exploring.run {candidates : List ClusterId} {before : LinkGraph} {s : Search}
    (h : Exploring owner root prune candidates before s) (hroot : root ∉ candidates) :
    Explored owner root prune candidates before (s.run owner) := by
  induction s using Search.run.induct owner with
  | case1 s hempty =>
    rw [Search.run.eq_def, hempty]
    have hno : ∀ a, a ∉ s.frontier.map Prod.fst := by simp [hempty]
    exact ⟨h.fewer, h.used, h.nodup, h.candidate, h.path, fun a ha => h.closed a ha (hno a),
      fun hp => h.pruned hp (hno root)⟩
  | case2 s current pruning rest hfrontier ih =>
    rw [Search.run.eq_def, hfrontier]
    exact ih (h.step hroot hfrontier)

end Search

variable {S : Type} [Scalar S] (x : ClusterIndex S)

theorem handles_nodup : x.handles.Nodup :=
  List.Nodup.map (fun _ _ h => ClusterId.mk.inj h) List.nodup_range

theorem mem_mergeable {c d : ClusterId} :
    d ∈ x.mergeable c ↔
      d.number < x.slots.size ∧ d ≠ c ∧ x.config.mergeSize ≤ x.size d := by
  simp only [mergeable, List.mem_filter, mem_handles, Bool.and_eq_true, decide_eq_true_eq]

theorem isLive_of_size_pos {c : ClusterId} (h : 0 < x.size c) : x.isLive c = true := by
  unfold size at h
  cases hk : x.cluster? c with
  | none => simp [hk] at h
  | some k =>
    rw [hk, Option.elim_some] at h
    rw [x.isLive_of_cluster? hk]
    exact k.isLive_of_size h (Nat.le_refl _)

/-- A pass that is not called off is a search. -/
theorem pass_cases (c : ClusterId) (prune : Bool) :
    ((x.pass c prune).links = x.links ∧ (x.pass c prune).reached = []) ∨
    Search.Explored x.clusterOf c prune (x.mergeable c) x.links (x.pass c prune) := by
  unfold pass
  split
  · exact Or.inl ⟨rfl, rfl⟩
  · refine Or.inr (Search.Exploring.run (Search.exploring_start ?_ x.links) ?_)
    · exact x.handles_nodup.filter _
    · rw [mem_mergeable]
      exact fun h => h.2.1 rfl

/-- Among merging clusters a pass of one that is large enough misses nothing. -/
theorem explored_pass (hkind : x.config.kind = .merging) {c : ClusterId}
    (hsize : x.config.mergeSize ≤ x.size c) (prune : Bool) :
    Search.Explored x.clusterOf c prune (x.mergeable c) x.links (x.pass c prune) := by
  by_cases hcount : x.linkCount c = 0
  · have hnone := (LinkGraph.count_eq_zero_iff _ _).mp hcount
    unfold pass
    rw [if_pos (Or.inr (Or.inr hcount))]
    refine ⟨fun _ _ h => h, fun a t h₁ h₂ => ?_, List.nodup_nil, by simp, by simp,
      fun a ha t ht => ?_, fun _ => hnone⟩
    · rw [h₁] at h₂
      cases h₂
    · rw [List.mem_singleton.mp ha, hnone] at ht
      cases ht
  · have hgo : ¬(x.config.kind = .preProcess ∨ x.size c < x.config.mergeSize ∨
        x.linkCount c = 0) := by
      rw [hkind]
      rintro (h | h | h)
      · cases h
      · omega
      · exact hcount h
    unfold pass
    rw [if_neg hgo]
    refine Search.Exploring.run (Search.exploring_start ?_ x.links) ?_
    · exact x.handles_nodup.filter _
    · rw [mem_mergeable]
      exact fun h => h.2.1 rfl

/-- The clusters `ds` went into `c`, in this order. -/
structure Gathered (x : ClusterIndex S) (c : ClusterId) (ds : List ClusterId)
    (y : ClusterIndex S) : Prop where
  config : y.config = x.config
  issued : y.slots.size = x.slots.size
  members : y.members c = x.members c ++ ds.flatMap x.members
  finished : y.isFinished c = x.isFinished c
  gone : ∀ d ∈ ds, y.cluster? d = none
  other : ∀ d, d ≠ c → d ∉ ds → y.cluster? d = x.cluster? d
  owner : ∀ id, y.clusterOf id = if id ∈ ds.flatMap x.members then some c else x.clusterOf id
  links : ∀ s t, y.links.contains s t = true ↔
    (s = c ∧ ∃ a ∈ c :: ds, x.links.contains a t = true) ∨
      (s ≠ c ∧ s ∉ ds ∧ x.links.contains s t = true)

namespace Gathered

variable {x} {y z : ClusterIndex S} {c : ClusterId} {ds ds' : List ClusterId}

theorem refl (x : ClusterIndex S) (c : ClusterId) : Gathered x c [] x := by
  refine ⟨rfl, rfl, by simp, rfl, by simp, fun _ _ _ => rfl, by simp, fun s t => ?_⟩
  by_cases hs : s = c
  · simp [hs]
  · simp [hs]

theorem members_of_not_mem (h : Gathered x c ds y) {d : ClusterId} (hc : d ≠ c) (hd : d ∉ ds) :
    y.members d = x.members d := by
  unfold ClusterIndex.members
  rw [h.other d hc hd]

theorem trans (h : Gathered x c ds y) (h' : Gathered y c ds' z) (hc : c ∉ ds) (hc' : c ∉ ds')
    (hdisjoint : ∀ d ∈ ds', d ∉ ds) : Gathered x c (ds ++ ds') z := by
  have hsame : ds'.flatMap y.members = ds'.flatMap x.members := by
    refine List.flatMap_congr fun d hd => ?_
    exact h.members_of_not_mem (fun e => hc' (e ▸ hd)) (hdisjoint d hd)
  refine ⟨h'.config.trans h.config, h'.issued.trans h.issued, ?_, h'.finished.trans h.finished,
    fun d hd => ?_, fun d hdc hd => ?_, fun id => ?_, fun s t => ?_⟩
  · rw [h'.members, h.members, hsame, List.flatMap_append, List.append_assoc]
  · by_cases hd' : d ∈ ds'
    · exact h'.gone d hd'
    · have hm := (List.mem_append.mp hd).resolve_right hd'
      rw [h'.other d (fun e => hc (e ▸ hm)) hd']
      exact h.gone d hm
  · rw [List.mem_append, not_or] at hd
    rw [h'.other d hdc hd.2, h.other d hdc hd.1]
  · rw [h'.owner, h.owner, hsame, List.flatMap_append]
    by_cases h₁ : id ∈ ds'.flatMap x.members
    · simp only [h₁, List.mem_append, or_true, if_true]
    · simp only [h₁, List.mem_append, or_false, if_false]
  · rw [h'.links]
    constructor
    · rintro (⟨rfl, a, ha, ht⟩ | ⟨hs, hs', ht⟩)
      · refine Or.inl ⟨rfl, ?_⟩
        rcases (h.links a t).mp ht with ⟨-, b, hb, ht⟩ | ⟨hac, hads, ht⟩
        · refine ⟨b, ?_, ht⟩
          rw [← List.cons_append]
          exact List.mem_append_left _ hb
        · refine ⟨a, ?_, ht⟩
          rw [← List.cons_append]
          rcases List.mem_cons.mp ha with e | ha
          · exact absurd e hac
          · exact List.mem_append_right _ ha
      · rcases (h.links s t).mp ht with ⟨e, -⟩ | ⟨-, hds, ht⟩
        · exact absurd e hs
        · exact Or.inr ⟨hs, fun hm => (List.mem_append.mp hm).elim hds hs', ht⟩
    · rintro (⟨rfl, a, ha, ht⟩ | ⟨hs, hm, ht⟩)
      · refine Or.inl ⟨rfl, ?_⟩
        rw [← List.cons_append] at ha
        rcases List.mem_append.mp ha with ha | ha
        · exact ⟨s, List.mem_cons_self, (h.links s t).mpr (Or.inl ⟨rfl, a, ha, ht⟩)⟩
        · refine ⟨a, List.mem_cons_of_mem _ ha, (h.links a t).mpr (Or.inr ⟨?_, ?_, ht⟩)⟩
          · exact fun e => hc' (e ▸ ha)
          · exact hdisjoint a ha
      · rw [List.mem_append, not_or] at hm
        exact Or.inr ⟨hs, hm.2, (h.links s t).mpr (Or.inr ⟨hs, hm.1, ht⟩)⟩

theorem merge {d : ClusterId} (hne : c ≠ d) (hc : x.isLive c = true) (hd : x.isLive d = true) :
    Gathered x c [d] (x.merge c d) := by
  obtain ⟨k, hk, hkl⟩ := x.isLive_iff.mp hc
  obtain ⟨a, ha, hal⟩ := x.isLive_iff.mp hd
  have hm := x.merged_merge hne hk hkl ha hal
  have hown : [d].flatMap x.members = a.members := by
    rw [List.flatMap_singleton, x.members_of_cluster? ha]
  have hrec : (x.merge c d).cluster? c = some (k.absorb x.config.compressionThreshold a) :=
    hm.record_into
  refine ⟨hm.config, hm.issued, ?_, ?_, fun e he => ?_, fun e hec hed => ?_, fun id => ?_,
    fun s t => ?_⟩
  · rw [hown, members_of_cluster? _ hrec, x.members_of_cluster? hk, Cluster.members_absorb]
  · unfold isFinished
    rw [hrec, hk, Option.any_some, Option.any_some, Cluster.finished_absorb]
  · rw [List.mem_singleton.mp he]
    exact hm.record_other hne
  · exact hm.record_of_ne hec fun e' => hed (List.mem_singleton.mpr e')
  · rw [hm.owner, hown]
  · rw [hm.links, LinkGraph.contains_absorb]
    simp only [List.mem_cons, List.not_mem_nil, or_false, exists_eq_or_imp, exists_eq_left]
    by_cases hs : s = c
    · subst hs
      simp [hne, or_comm]
    · simp [hs, and_comm]

theorem exists_of_mem_members (h : Gathered x c ds y) {d : ClusterId} {id : ItemId}
    (hid : id ∈ y.members d) : ∃ a, id ∈ x.members a := by
  by_cases hdc : d = c
  · rw [hdc, h.members] at hid
    rcases List.mem_append.mp hid with hid | hid
    · exact ⟨c, hid⟩
    · obtain ⟨a, -, ha⟩ := List.mem_flatMap.mp hid
      exact ⟨a, ha⟩
  · by_cases hd : d ∈ ds
    · rw [y.members_eq_nil (h.gone d hd)] at hid
      cases hid
    · rw [h.members_of_not_mem hdc hd] at hid
      exact ⟨d, hid⟩

end Gathered

theorem mergeAll_of_dead {c : ClusterId} (h : x.isLive c = false) (ds : List ClusterId) :
    x.mergeAll c ds = x := by
  induction ds with
  | nil => rfl
  | cons d ds ih =>
    show (x.merge c d).mergeAll c ds = x
    rw [x.merge_eq_self (Or.inr (Or.inl h)), ih]

/-- Merging a list of live clusters: all of them go into `c`, or `c` dies on the way. -/
theorem gathered_mergeAll {c : ClusterId} {ds : List ClusterId} (hnodup : ds.Nodup) (hc : c ∉ ds)
    (hlive : ∀ d ∈ ds, x.isLive d = true) :
    ∃ pre post, ds = pre ++ post ∧ Gathered x c pre (x.mergeAll c ds) ∧
      (post = [] ∨ (x.mergeAll c ds).isLive c = false) := by
  induction ds generalizing x with
  | nil => exact ⟨[], [], rfl, Gathered.refl x c, Or.inl rfl⟩
  | cons d ds ih =>
    cases hcl : x.isLive c with
    | false =>
      rw [x.mergeAll_of_dead hcl]
      exact ⟨[], d :: ds, rfl, Gathered.refl x c, Or.inr hcl⟩
    | true =>
      rw [List.mem_cons, not_or] at hc
      rw [List.nodup_cons] at hnodup
      have hone := Gathered.merge hc.1 hcl (hlive d List.mem_cons_self)
      obtain ⟨pre, post, hsplit, hg, hend⟩ := ih (x.merge c d) hnodup.2 hc.2 fun e he => by
        have hec : e ≠ c := fun h => hc.2 (h ▸ he)
        have hed : e ∉ [d] := fun h => hnodup.1 (List.mem_singleton.mp h ▸ he)
        rw [isLive_congr (hone.other e hec hed)]
        exact hlive e (List.mem_cons_of_mem _ he)
      have hpre : ∀ e ∈ pre, e ∈ ds := fun e he => hsplit ▸ List.mem_append_left _ he
      refine ⟨d :: pre, post, by rw [hsplit, List.cons_append], ?_, hend⟩
      refine hone.trans hg (fun h => hc.1 (List.mem_singleton.mp h)) (fun h => hc.2 (hpre c h)) ?_
      exact fun e he h => hnodup.1 (List.mem_singleton.mp h ▸ hpre e he)

/-- What a merge pass leaves in any case: no link that was not there, and clusters each of which an
earlier one linked to went into the root. -/
theorem gathered_mergeReachable (hpos : 0 < x.config.mergeSize) (c : ClusterId) (prune : Bool) :
    ∃ links ds, (∀ a t, links.contains a t = true → x.links.contains a t = true) ∧ c ∉ ds ∧
      (∀ pre d post, ds = pre ++ d :: post →
        ∃ a ∈ c :: pre, ∃ t, x.links.contains a t = true ∧ x.clusterOf t = some d) ∧
      Gathered { x with links := links } c ds (x.mergeReachable c prune) := by
  unfold mergeReachable
  dsimp only
  rcases x.pass_cases c prune with ⟨hlinks, hreached⟩ | hfound
  · rw [hlinks, hreached]
    exact ⟨x.links, [], fun _ _ h => h, by simp, by simp, Gathered.refl x c⟩
  · have hc : c ∉ (x.pass c prune).reached := fun h =>
      (x.mem_mergeable.mp (hfound.candidate c h)).2.1 rfl
    obtain ⟨ds, rest, hsplit, hg, -⟩ :=
      gathered_mergeAll { x with links := (x.pass c prune).links } hfound.nodup hc fun d hd => by
        have hsize := (x.mem_mergeable.mp (hfound.candidate d hd)).2.2
        exact x.isLive_of_size_pos (Nat.lt_of_lt_of_le hpos hsize)
    refine ⟨_, ds, hfound.fewer, fun h => hc (hsplit ▸ List.mem_append_left _ h),
      fun pre d post hds => ?_, hg⟩
    refine hfound.path pre d (post ++ rest) ?_
    rw [hsplit, hds, List.append_assoc, List.cons_append]

/-- A merge pass brings in no ids. -/
theorem exists_of_mem_members_mergeReachable (hpos : 0 < x.config.mergeSize) {c : ClusterId}
    {prune : Bool} {d : ClusterId} {id : ItemId} (hid : id ∈ (x.mergeReachable c prune).members d) :
    ∃ a, id ∈ x.members a := by
  obtain ⟨links, ds, -, -, -, hg⟩ := x.gathered_mergeReachable hpos c prune
  exact hg.exists_of_mem_members hid

/-- Operations bring in no ids but those of created clusters. -/
theorem exists_of_mem_members_apply (hpos : 0 < x.config.mergeSize) (op : Operation S)
    {d : ClusterId} {id : ItemId} (hid : id ∈ (x.apply op).members d) :
    (∃ a, id ∈ x.members a) ∨ ∃ item, op = .create id item := by
  cases op with
  | create id' item =>
    cases ho : x.clusterOf id' with
    | some c =>
      rw [apply, x.getOrCreate_eq_self item ho] at hid
      exact Or.inl ⟨d, hid⟩
    | none =>
      rw [apply, x.members_getOrCreate item ho] at hid
      split at hid
      · rw [List.mem_singleton.mp hid]
        exact Or.inr ⟨item, rfl⟩
      · exact Or.inl ⟨d, hid⟩
  | link c contact t =>
    have hpos' : 0 < (x.recordLink c contact t).1.config.mergeSize := by
      rwa [x.config_recordLink]
    have hback : ∀ a, id ∈ (x.recordLink c contact t).1.members a → id ∈ x.members a := by
      intro a ha
      rwa [x.members_recordLink] at ha
    unfold apply addLink at hid
    dsimp only at hid
    split at hid
    · obtain ⟨a, ha⟩ := exists_of_mem_members_mergeReachable _ hpos' hid
      exact Or.inl ⟨a, hback a ha⟩
    · exact Or.inl ⟨d, hback d hid⟩
  | finish c =>
    unfold apply finish at hid
    rw [members_modify] at hid
    · exact Or.inl (x.exists_of_mem_members_mergeReachable hpos hid)
    · exact fun _ => rfl
  | invalidate c =>
    rw [apply, x.members_invalidate] at hid
    exact Or.inl ⟨d, hid⟩
  | clear c =>
    unfold apply clear at hid
    rw [members_modify] at hid
    · exact Or.inl ⟨d, hid⟩
    · exact fun _ => rfl
  | merge into other =>
    rcases x.merge_cases into other with he | ⟨k, a, hne, hk, hkl, ha, hal, -⟩
    · rw [apply, he] at hid
      exact Or.inl ⟨d, hid⟩
    · have hc : x.isLive into = true := (x.isLive_of_cluster? hk).trans hkl
      have hd : x.isLive other = true := (x.isLive_of_cluster? ha).trans hal
      exact Or.inl ((Gathered.merge hne hc hd).exists_of_mem_members hid)

end ClusterIndex

end DensityClustering

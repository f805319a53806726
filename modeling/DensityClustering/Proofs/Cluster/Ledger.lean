import Mathlib.Logic.Function.Basic
import DensityClustering.Proofs.Cluster.Calm

/-!
A ledger of what the clusters count. It is kept beside the clusters: every cluster has an account of
the ids it counted, in order, and of the id that brought each of its raw points. As long as single
items come in, no two compressed clusters are joined and counts fit in their 64 bits, counts are the
lengths of accounts.
-/

namespace DensityClustering

open Std (ExtTreeSet)

/-- What a cluster counted, and whom its raw points are credited to. -/
structure Account (S : Type) where
  counted : List ItemId
  credit : Coord S → ItemId

namespace Account

variable {S : Type} [Scalar S]

/-- The account of a new cluster. -/
def opened (id : ItemId) : Account S := ⟨[id], fun _ => id⟩

/-- An accepted link counts its id, which brings the points of the contact. -/
def reach (A : Account S) (k : Cluster S) (id : ItemId) : Account S :=
  ⟨A.counted ++ [id], fun p => if p ∈ k.points then A.credit p else id⟩

/-- The raw points of a cluster that count when another one takes it over. -/
def fresh (k other : Cluster S) : PointSet S := other.points \ k.corners other

/-- A merge counts the ids that brought fresh points. -/
def absorb (A : Account S) (k other : Cluster S) (B : Account S) : Account S :=
  ⟨A.counted ++ (fresh k other).toList.map B.credit,
    fun p => if p ∈ k.points then A.credit p else B.credit p⟩

/-- A member, or an id that a member touches. -/
def Known (N : ItemId → ItemId → Prop) (members : List ItemId) (id : ItemId) : Prop :=
  id ∈ members ∨ ∃ m ∈ members, N m id

/-- The account accounts for the count of a cluster. -/
structure Fits (N : ItemId → ItemId → Prop) (k : Cluster S) (A : Account S) : Prop where
  count : k.count.toInt = A.counted.length
  counted : ∀ id ∈ A.counted, Known N k.members id
  credited : ∀ p, Known N k.members (A.credit p)

variable {N : ItemId → ItemId → Prop} {k other : Cluster S} {A B : Account S} {id : ItemId}

theorem Known.mono {members members' : List ItemId} (h : Known N members id)
    (hmem : ∀ m ∈ members, m ∈ members') : Known N members' id := by
  rcases h with h | ⟨m, hm, hN⟩
  · exact Or.inl (hmem id h)
  · exact Or.inr ⟨m, hmem m hm, hN⟩

theorem size_fresh : ((k.corners other ∪ other.points).size - (k.corners other).size : Int) =
    (fresh k other).size := by
  -- The union counts every fresh point once: inclusion and exclusion.
  have hinter : other.points ∩ k.corners other = k.corners other ∩ other.points := by
    apply ExtTreeSet.ext_mem
    intro p
    rw [ExtTreeSet.mem_inter_iff, ExtTreeSet.mem_inter_iff, and_comm]
  have hunion : (k.corners other).size + other.points.size =
      (k.corners other ∪ other.points).size + (k.corners other ∩ other.points).size :=
    ExtTreeSet.size_add_size_eq_size_union_add_size_inter
  have hdiff : (other.points \ k.corners other).size + (other.points ∩ k.corners other).size =
      other.points.size := ExtTreeSet.size_diff_add_size_inter_eq_size_left
  rw [hinter] at hdiff
  unfold fresh
  omega

namespace Fits

theorem opened {item : ClusterItem S} (hone : item.count = 1) :
    Fits N (Cluster.ofItem id item) (Account.opened id) := by
  have hin : Known N (Cluster.ofItem id item).members id := Or.inl List.mem_cons_self
  refine ⟨?_, fun t ht => ?_, fun _ => hin⟩
  · rw [Cluster.count_ofItem, hone]
    rfl
  · rw [List.mem_singleton.mp ht]
    exact hin

theorem reach (h : Fits N k A) (threshold : Nat) (contact : Contact S)
    (hfits : Cluster.fits (k.count.toInt + 1) = true) (hnew : ∃ m ∈ k.members, N m id) :
    Fits N (k.reach threshold id contact) (A.reach k id) := by
  have hid : Known N k.members id := Or.inr hnew
  refine ⟨?_, fun t ht => ?_, fun p => ?_⟩
  · have hlen : (A.reach k id).counted.length = A.counted.length + 1 := List.length_append
    rw [Cluster.toInt_count_reach _ _ _ _ hfits, h.count, hlen]
    omega
  · rw [Cluster.members_reach]
    rcases List.mem_append.mp ht with ht | ht
    · exact h.counted t ht
    · rw [List.mem_singleton.mp ht]
      exact hid
  · rw [Cluster.members_reach]
    show Known N k.members (if p ∈ k.points then A.credit p else id)
    split
    · exact h.credited p
    · exact hid

theorem absorb (h : Fits N k A) (h' : Fits N other B) (threshold : Nat)
    (hmixed : (k.compressed && other.compressed) = false)
    (hfits : Cluster.fits (k.joinedCount other) = true) :
    Fits N (k.absorb threshold other) (A.absorb k other B) := by
  have hleft : ∀ t, Known N k.members t → Known N (k.members ++ other.members) t :=
    fun t ht => ht.mono fun m => List.mem_append_left _
  have hright : ∀ t, Known N other.members t → Known N (k.members ++ other.members) t :=
    fun t ht => ht.mono fun m => List.mem_append_right _
  refine ⟨?_, fun t ht => ?_, fun p => ?_⟩
  -- Nothing is estimated, since the two clusters are not both compressed.
  · have hlen : (A.absorb k other B).counted.length = A.counted.length + (fresh k other).size := by
      show (A.counted ++ (fresh k other).toList.map B.credit).length = _
      rw [List.length_append, List.length_map, ExtTreeSet.length_toList]
    rw [Cluster.toInt_count_absorb _ _ _ hfits, k.joinedCount_of_mixed other hmixed, h.count,
      size_fresh, hlen]
    omega
  · rw [Cluster.members_absorb]
    rcases List.mem_append.mp ht with ht | ht
    · exact hleft t (h.counted t ht)
    · obtain ⟨p, -, rfl⟩ := List.mem_map.mp ht
      exact hright _ (h'.credited p)
  · rw [Cluster.members_absorb]
    show Known N (k.members ++ other.members) (if p ∈ k.points then A.credit p else B.credit p)
    split
    · exact hleft _ (h.credited p)
    · exact hright _ (h'.credited p)

end Fits

end Account

/-- The accounts of all clusters. -/
abbrev Ledger (S : Type) := ClusterId → Account S

namespace ClusterIndex

variable {S : Type} [Scalar S]

/-- The ledger after a merge. -/
def bookMerge (x : ClusterIndex S) (L : Ledger S) (into other : ClusterId) : Ledger S :=
  if into = other then L
  else
    match (x.cluster? into).filter Cluster.isLive, (x.cluster? other).filter Cluster.isLive with
    | some cluster, some absorbed =>
      Function.update L into ((L into).absorb cluster absorbed (L other))
    | _, _ => L

/-- The ledger after several merges. -/
def bookAll (x : ClusterIndex S) (L : Ledger S) (c : ClusterId) : List ClusterId → Ledger S
  | [] => L
  | d :: ds => bookAll (x.merge c d) (x.bookMerge L c d) c ds

/-- The ledger after a merge pass. -/
def bookPass (x : ClusterIndex S) (L : Ledger S) (c : ClusterId) (prune : Bool) : Ledger S :=
  let found := x.pass c prune
  bookAll { x with links := found.links } L c found.reached

/-- The ledger after a link was offered. -/
def bookLink (x : ClusterIndex S) (L : Ledger S) (c : ClusterId) (contact : Contact S)
    (id : ItemId) : Ledger S :=
  match x.cluster? c with
  | some cluster =>
    if (x.recordLink c contact id).2 then Function.update L c ((L c).reach cluster id) else L
  | none => L

/-- The ledger after an operation. -/
def bookStep (x : ClusterIndex S) (L : Ledger S) : Operation S → Ledger S
  | .create id _ =>
    match x.clusterOf id with
    | some _ => L
    | none => Function.update L ⟨x.slots.size⟩ (.opened id)
  | .link c contact id =>
    let (grown, accepted) := x.recordLink c contact id
    let booked := x.bookLink L c contact id
    if accepted && grown.isFinished c then grown.bookPass booked c false else booked
  | .finish c => x.bookPass L c true
  | .invalidate _ => L
  | .clear _ => L
  | .merge into other => x.bookMerge L into other

/-- The ledger after a sequence of operations. -/
def bookOps (x : ClusterIndex S) (L : Ledger S) : List (Operation S) → Ledger S
  | [] => L
  | op :: ops => bookOps (x.apply op) (x.bookStep L op) ops

/-- The ledger after operations on no clusters. -/
def book (config : ClusterConfig) (ops : List (Operation S)) : Ledger S :=
  (empty config).bookOps (fun _ => .opened ⟨[]⟩) ops

/-- The accounts of live clusters account for their counts. -/
def Booked (N : ItemId → ItemId → Prop) (x : ClusterIndex S) (L : Ledger S) : Prop :=
  ∀ c k, x.cluster? c = some k → k.isLive = true → (L c).Fits N k

theorem bookOps_append (x : ClusterIndex S) (L : Ledger S) (ops rest : List (Operation S)) :
    x.bookOps L (ops ++ rest) = (ops.foldl apply x).bookOps (x.bookOps L ops) rest := by
  induction ops generalizing x L with
  | nil => rfl
  | cons op ops ih => rw [List.cons_append, bookOps, bookOps, ih, List.foldl_cons]

theorem book_concat (config : ClusterConfig) (ops : List (Operation S)) (op : Operation S) :
    book config (ops ++ [op]) = (after config ops).bookStep (book config ops) op := by
  unfold book
  rw [bookOps_append]
  rfl

variable {N : ItemId → ItemId → Prop} {x : ClusterIndex S} {L : Ledger S} {c d : ClusterId}

/-- A merge of two live clusters books what it counts, and any other merge nothing. -/
theorem bookMerge_cases (x : ClusterIndex S) (L : Ledger S) (c d : ClusterId) :
    (x.merge c d = x ∧ x.bookMerge L c d = L) ∨
    ∃ k a, c ≠ d ∧ x.cluster? c = some k ∧ k.isLive = true ∧ x.cluster? d = some a ∧
      a.isLive = true ∧ Merged x c d k a (x.merge c d) ∧
      x.bookMerge L c d = Function.update L c ((L c).absorb k a (L d)) := by
  unfold bookMerge
  by_cases hne : c = d
  · exact Or.inl ⟨x.merge_eq_self (Or.inl hne), if_pos hne⟩
  rw [if_neg hne]
  cases hk : (x.cluster? c).filter Cluster.isLive with
  | none =>
    exact Or.inl ⟨x.merge_eq_self (Or.inr (Or.inl (x.filter_isLive_eq_none.mp hk))), rfl⟩
  | some k =>
    cases ha : (x.cluster? d).filter Cluster.isLive with
    | none =>
      exact Or.inl ⟨x.merge_eq_self (Or.inr (Or.inr (x.filter_isLive_eq_none.mp ha))), rfl⟩
    | some a =>
      obtain ⟨hk, hkl⟩ := x.filter_isLive_eq_some.mp hk
      obtain ⟨ha, hal⟩ := x.filter_isLive_eq_some.mp ha
      exact Or.inr ⟨k, a, hne, hk, hkl, ha, hal, x.merged_merge hne hk hkl ha hal, rfl⟩

namespace Booked

theorem merge (h : Booked N x L) (hcalm : (⟨x, c, d⟩ : Takeover S).isCalm = true) :
    Booked N (x.merge c d) (x.bookMerge L c d) := by
  rcases x.bookMerge_cases L c d with ⟨he, hL⟩ | ⟨k, a, hne, hk, hkl, ha, hal, hm, hL⟩
  · rw [he, hL]
    exact h
  · have hparties : (⟨x, c, d⟩ : Takeover S).parties = some (k, a) :=
      parties_eq_some_iff.mpr ⟨hne, ⟨hk, hkl⟩, ha, hal⟩
    obtain ⟨hmixed, hfits⟩ := Takeover.isCalm_iff.mp hcalm
    rw [Takeover.clashes, hparties, Option.any_some] at hmixed
    rw [Takeover.fits, hparties, Option.all_some] at hfits
    rw [hL]
    intro s m hs hsl
    rw [hm.record] at hs
    by_cases hsc : s = c
    · rw [if_pos hsc, Option.some.injEq] at hs
      subst hsc hs
      rw [Function.update_self]
      exact (h s k hk hkl).absorb (h d a ha hal) _ hmixed hfits
    · rw [if_neg hsc] at hs
      rw [Function.update_of_ne hsc]
      -- Any other cluster keeps its record and its account.
      split at hs
      · cases hs
      · exact h s m hs hsl

theorem mergeAll (h : Booked N x L) (ds : List ClusterId)
    (hcalm : (x.takeovers c ds).all Takeover.isCalm = true) :
    Booked N (x.mergeAll c ds) (x.bookAll L c ds) := by
  induction ds generalizing x L with
  | nil => exact h
  | cons d ds ih =>
    rw [takeovers, List.all_cons, Bool.and_eq_true] at hcalm
    exact ih (h.merge hcalm.1) hcalm.2

theorem mergeReachable (h : Booked N x L) (prune : Bool) (hcalm : x.calmPass c prune = true) :
    Booked N (x.mergeReachable c prune) (x.bookPass L c prune) := by
  have hlinks : Booked N { x with links := (x.pass c prune).links } L := h
  exact hlinks.mergeAll _ hcalm

/-- Changes that touch neither the members nor the count of a cluster. -/
theorem modify (h : Booked N x L) (f : Cluster S → Cluster S)
    (hmem : ∀ k, (f k).members = k.members) (hcount : ∀ k, (f k).count = k.count) :
    Booked N (x.modify c f) L := by
  intro s m hs hsl
  rw [x.cluster?_modify] at hs
  split at hs
  · next hsc =>
    obtain ⟨k, hk, rfl⟩ := Option.map_eq_some_iff.mp hs
    subst hsc
    have hkl : k.isLive = true := by
      rw [Cluster.isLive_iff] at hsl ⊢
      rwa [hcount] at hsl
    obtain ⟨h₁, h₂, h₃⟩ := h s k hk hkl
    exact ⟨(congrArg Int64.toInt (hcount k)).trans h₁, (hmem k).symm ▸ h₂, (hmem k).symm ▸ h₃⟩
  · exact h s m hs hsl

theorem finish (h : Booked N x L) (hcalm : x.calmPass c true = true) :
    Booked N (x.finish c) (x.bookPass L c true) :=
  (h.mergeReachable true hcalm).modify _ (fun _ => rfl) fun _ => rfl

theorem getOrCreate (h : Booked N x L) {id : ItemId} {item : ClusterItem S}
    (hone : item.count = 1) :
    Booked N (x.getOrCreate id item).1 (x.bookStep L (.create id item)) := by
  cases hid : x.clusterOf id with
  | some c =>
    rw [x.getOrCreate_eq_self item hid]
    simpa [bookStep, hid] using h
  | none =>
    have hbook : x.bookStep L (.create id item) =
        Function.update L ⟨x.slots.size⟩ (.opened id) := by
      simp [bookStep, hid]
    rw [hbook]
    intro s m hs hsl
    rw [x.cluster?_getOrCreate item hid] at hs
    by_cases hsc : s = ⟨x.slots.size⟩
    · rw [if_pos hsc, Option.some.injEq] at hs
      subst hsc hs
      rw [Function.update_self]
      exact Account.Fits.opened hone
    · rw [if_neg hsc] at hs
      rw [Function.update_of_ne hsc]
      exact h s m hs hsl

theorem recordLink (h : Booked N x L) (contact : Contact S) {id : ItemId}
    (hroom : x.hasRoom (.link c contact id) = true) (hnew : ∃ m ∈ x.members c, N m id) :
    Booked N (x.recordLink c contact id).1 (x.bookLink L c contact id) := by
  rcases x.recordLink_cases c contact id with ⟨-, he⟩ | ⟨k, hk, hkl, -, ⟨-, he⟩ | ⟨-, he⟩⟩
  · have hbook : x.bookLink L c contact id = L := by
      unfold bookLink
      rw [he]
      split <;> rfl
    rw [he, hbook]
    exact h
  · have hbook : x.bookLink L c contact id = L := by
      unfold bookLink
      rw [he, hk]
      rfl
    rw [he, hbook]
    exact h
  · have hbook : x.bookLink L c contact id = Function.update L c ((L c).reach k id) := by
      unfold bookLink
      rw [he, hk]
      rfl
    have hfits : Cluster.fits (k.count.toInt + 1) = true :=
      fits_of_hasRoom hroom hk (by rw [he])
    rw [he, hbook]
    intro s m hs hsl
    rw [x.cluster?_relink hk] at hs
    by_cases hsc : s = c
    · rw [if_pos hsc, Option.some.injEq] at hs
      subst hsc hs
      rw [Function.update_self]
      rw [x.members_of_cluster? hk] at hnew
      exact (h s k hk hkl).reach _ contact hfits hnew
    · rw [if_neg hsc] at hs
      rw [Function.update_of_ne hsc]
      exact h s m hs hsl

theorem addLink (h : Booked N x L) (contact : Contact S) {id : ItemId}
    (hnew : ∃ m ∈ x.members c, N m id) (hcalm : x.calmStep (.link c contact id) = true) :
    Booked N (x.addLink c contact id).1 (x.bookStep L (.link c contact id)) := by
  have hr := h.recordLink contact (hasRoom_of_calmStep hcalm) hnew
  unfold ClusterIndex.addLink bookStep
  dsimp only
  split
  · next hmerge => exact hr.mergeReachable false (calmPass_of_calmStep hcalm hmerge)
  · exact hr

theorem invalidate (h : Booked N x L) : Booked N (x.invalidate c) L := by
  cases hk : x.cluster? c with
  | none =>
    rw [x.invalidate_eq_self hk]
    exact h
  | some k =>
    intro s m hs hsl
    rw [x.cluster?_invalidate hk] at hs
    split at hs
    · cases hs
      -- What was invalidated is not live, and needs no account.
      rw [Cluster.isLive_iff] at hsl
      have hneg : (0 : Int) ≤ -1 := hsl
      omega
    · exact h s m hs hsl

end Booked

end ClusterIndex

end DensityClustering

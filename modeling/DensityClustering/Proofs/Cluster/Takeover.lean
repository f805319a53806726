import DensityClustering.Proofs.Cluster.Operation
import DensityClustering.Proofs.Cluster.Record

/-!
The merges of an operation, one after the other, each with the clusters that it meets; and the counts
that an operation forms. A count is a sum in 64 bits: it is exact as long as it fits, and a sum that
does not fit may come out negative, as if the cluster had been invalidated.
-/

namespace DensityClustering

namespace ClusterIndex

variable {S : Type} [Scalar S]

/-- A merge, together with the clusters that it meets. -/
structure Takeover (S : Type) [Scalar S] where
  clusters : ClusterIndex S
  into : ClusterId
  other : ClusterId

namespace Takeover

variable (m : Takeover S)

/-- The two clusters that the merge joins, which are live and differ. -/
def parties : Option (Cluster S × Cluster S) :=
  match (m.clusters.cluster? m.into).filter Cluster.isLive,
    (m.clusters.cluster? m.other).filter Cluster.isLive with
  | some k, some a => if m.into = m.other then none else some (k, a)
  | _, _ => none

/-- The merge joins two compressed clusters. -/
def clashes : Bool := m.parties.any fun p => p.1.compressed && p.2.compressed

/-- The count that the merge forms fits in 64 bits. -/
def fits : Bool := m.parties.all fun p => Cluster.fits (p.1.joinedCount p.2)

/-- The merge leaves the first cluster with a count below zero. -/
def sinks : Bool := m.parties.any fun p => decide (Int64.ofInt (p.1.joinedCount p.2) < 0)

end Takeover

/-- The merges of the listed clusters into `c`, one after the other. -/
def takeovers (x : ClusterIndex S) (c : ClusterId) : List ClusterId → List (Takeover S)
  | [] => []
  | d :: ds => ⟨x, c, d⟩ :: takeovers (x.merge c d) c ds

/-- The merges of a pass. -/
def passTakeovers (x : ClusterIndex S) (c : ClusterId) (prune : Bool) : List (Takeover S) :=
  let found := x.pass c prune
  takeovers { x with links := found.links } c found.reached

/-- The merges of an operation. -/
def takeoversOf (x : ClusterIndex S) : Operation S → List (Takeover S)
  | .create _ _ => []
  | .link c contact id =>
    let (grown, accepted) := x.recordLink c contact id
    if accepted && grown.isFinished c then grown.passTakeovers c false else []
  | .finish c => x.passTakeovers c true
  | .invalidate _ => []
  | .clear _ => []
  | .merge into other => [⟨x, into, other⟩]

/-- A link that is counted finds room in the count of its cluster. -/
def hasRoom (x : ClusterIndex S) : Operation S → Bool
  | .link c contact id =>
    !(x.recordLink c contact id).2 ||
      (x.cluster? c).all fun k => Cluster.fits (k.count.toInt + 1)
  | _ => true

/-- All counts that an operation forms fit in 64 bits. -/
def fits (x : ClusterIndex S) (op : Operation S) : Bool :=
  x.hasRoom op && (x.takeoversOf op).all Takeover.fits

variable {x : ClusterIndex S} {c d : ClusterId} {k a : Cluster S}

theorem parties_eq_some_iff : (⟨x, c, d⟩ : Takeover S).parties = some (k, a) ↔
    c ≠ d ∧ (x.cluster? c = some k ∧ k.isLive = true) ∧
      x.cluster? d = some a ∧ a.isLive = true := by
  rw [← x.filter_isLive_eq_some, ← x.filter_isLive_eq_some]
  unfold Takeover.parties
  dsimp only
  cases (x.cluster? c).filter Cluster.isLive with
  | none => simp
  | some k' =>
    cases (x.cluster? d).filter Cluster.isLive with
    | none => simp
    | some a' => simp

/-- A merge without two live clusters to join does nothing, and any other one joins them. -/
theorem merge_parties (x : ClusterIndex S) (c d : ClusterId) :
    ((⟨x, c, d⟩ : Takeover S).parties = none ∧ x.merge c d = x) ∨
      ∃ k a, (⟨x, c, d⟩ : Takeover S).parties = some (k, a) ∧ k.isLive = true ∧
        x.cluster? c = some k ∧ x.cluster? d = some a ∧ Merged x c d k a (x.merge c d) := by
  cases hp : (⟨x, c, d⟩ : Takeover S).parties with
  | none =>
    refine Or.inl ⟨rfl, ?_⟩
    rcases x.merge_cases c d with hself | ⟨k, a, hne, hk, hkl, ha, hal, -⟩
    · exact hself
    · rw [parties_eq_some_iff.mpr ⟨hne, ⟨hk, hkl⟩, ha, hal⟩] at hp
      cases hp
  | some p =>
    obtain ⟨k, a⟩ := p
    obtain ⟨hne, ⟨hk, hkl⟩, ha, hal⟩ := parties_eq_some_iff.mp hp
    exact Or.inr ⟨k, a, rfl, hkl, hk, ha, x.merged_merge hne hk hkl ha hal⟩

theorem parties_eq_none_of_dead (h : x.isLive c = false) :
    (⟨x, c, d⟩ : Takeover S).parties = none := by
  rw [Option.eq_none_iff_forall_ne_some]
  intro p hp
  obtain ⟨-, ⟨hk, hkl⟩, -⟩ := parties_eq_some_iff.mp hp
  rw [x.isLive_of_cluster? hk, hkl] at h
  cases h

theorem fits_of_hasRoom {contact : Contact S} {id : ItemId}
    (h : x.hasRoom (.link c contact id) = true) (hk : x.cluster? c = some k)
    (haccepted : (x.recordLink c contact id).2 = true) :
    Cluster.fits (k.count.toInt + 1) = true := by
  unfold hasRoom at h
  dsimp only at h
  rw [haccepted, Bool.not_true, Bool.false_or, hk, Option.all_some] at h
  exact h

theorem into_of_mem_takeovers {ds : List ClusterId} {m : Takeover S}
    (h : m ∈ x.takeovers c ds) : m.into = c := by
  induction ds generalizing x with
  | nil => cases h
  | cons d ds ih =>
    rcases List.mem_cons.mp h with hm | hm
    · rw [hm]
    · exact ih hm

end ClusterIndex

end DensityClustering

import Mathlib.Data.List.Forall2
import DensityClustering.Proofs.Neighbor.Coverage
import DensityClustering.Proofs.Neighbor.Exactness
import DensityClustering.Proofs.Neighbor.SharedState

/-!
Traversals that a collaborator stops. The calls of a traversal are logged, each with the shared
state it met. When the distance or the receiver of completed centers fails at one of its calls, the
log and the journal are those of the traversal in which it does not fail, cut off after that call.
-/

namespace DensityClustering

variable {σ V C L : Type}

/-- The collaborators that may fail. -/
inductive Role where
  | distance
  | completion
  deriving DecidableEq

def Role.cause : Role → String → TraversalCause
  | distance => .distance
  | completion => .completion

/-- A call of a collaborator, with the shared state that it met. -/
inductive Call (σ V L : Type) where
  | build (id : ItemId) (value : V) (state : σ)
  | measure (a b : V) (state : σ)
  | complete (id : ItemId) (value : V) (list : L) (state : σ)

namespace Call

def state : Call σ V L → σ
  | build _ _ s => s
  | measure _ _ s => s
  | complete _ _ _ s => s

def role : Call σ V L → Option Role
  | build .. => none
  | measure .. => some .distance
  | complete .. => some .completion

end Call

/-- The id whose list was built, whose neighbour was measured, or whose list was handed over. -/
def Event.center : Event L → ItemId
  | built id => id
  | measured id _ => id
  | completed id _ => id

/-- A shared state, and the calls that led to it. -/
structure Logged (σ V L : Type) where
  state : σ
  log : List (Call σ V L)

/-- The state that a call leaves. -/
def Logged.after (s : Logged σ V L) (call : Call σ V L) (state : σ) : Logged σ V L :=
  ⟨state, s.log ++ [call]⟩

namespace Role

/-- How often a role is called in a log. -/
def calls (role : Role) (log : List (Call σ V L)) : Nat :=
  log.countP fun call => decide (call.role = some role)

theorem calls_after (role : Role) (s : Logged σ V L) (call : Call σ V L) (state : σ) :
    role.calls (s.after call state).log =
      role.calls s.log + if call.role = some role then 1 else 0 := by
  unfold calls Logged.after
  rw [List.countP_append, List.countP_singleton]
  simp only [decide_eq_true_eq]

theorem lt_calls {role : Role} {log before rest : List (Call σ V L)} {call : Call σ V L} {n : Nat}
    (hlog : log = before ++ call :: rest) (hrole : call.role = some role)
    (hn : role.calls before = n) : n < role.calls log := by
  unfold calls at hn ⊢
  rw [hlog, List.countP_append, List.countP_cons_of_pos (by simpa using hrole)]
  omega

end Role

namespace Collaborators

/-- The same collaborators, with their calls logged. -/
def logged (c : Collaborators σ V C L) : Collaborators (Logged σ V L) V C L where
  lists := {
    build := fun id v s =>
      ((c.lists.build id v s.state).1,
        s.after (.build id v s.state) (c.lists.build id v s.state).2)
    add := fun l profile id v s =>
      ((c.lists.add l profile id v s.state).1, (c.lists.add l profile id v s.state).2.1,
        { s with state := (c.lists.add l profile id v s.state).2.2 })
    infer := fun l id v s => c.lists.infer l id v s.state }
  measure a b s :=
    ((c.measure a b s.state).1, s.after (.measure a b s.state) (c.measure a b s.state).2)
  complete id v l s :=
    ((c.complete id v l s.state).1,
      s.after (.complete id v l s.state) (c.complete id v l s.state).2)

/-- The logged collaborators, but that the call of a role that comes after `n` others of it fails,
and changes nothing. -/
def failing (c : Collaborators σ V C L) (role : Role) (n : Nat) (error : String) :
    Collaborators (Logged σ V L) V C L where
  lists := c.logged.lists
  measure a b s :=
    if role = .distance ∧ role.calls s.log = n then
      (.error error, s.after (.measure a b s.state) s.state)
    else c.logged.measure a b s
  complete id v l s :=
    if role = .completion ∧ role.calls s.log = n then
      (.error error, s.after (.complete id v l s.state) s.state)
    else c.logged.complete id v l s

section Failing

variable (c : Collaborators σ V C L) {role : Role} {n : Nat} (error : String)

theorem failing_lists : (c.failing role n error).lists = c.logged.lists := rfl

theorem failing_measure (a b : V) (s : Logged σ V L)
    (h : ¬(role = .distance ∧ role.calls s.log = n)) :
    (c.failing role n error).measure a b s = c.logged.measure a b s := if_neg h

theorem failing_complete (id : ItemId) (v : V) (l : L) (s : Logged σ V L)
    (h : ¬(role = .completion ∧ role.calls s.log = n)) :
    (c.failing role n error).complete id v l s = c.logged.complete id v l s := if_neg h

end Failing

theorem simulates_logged (c : Collaborators σ V C L) : Simulates Logged.state c.logged c where
  build _ _ _ := rfl
  add _ _ _ _ _ := rfl
  infer _ _ _ _ := rfl
  measure _ _ _ := rfl
  complete _ _ _ _ := rfl

end Collaborators

/-- The event that tells of a call. Lists are built with the value of their center; distances are
asked for from a primary to one of its neighbours; and it is primaries that are handed over. -/
inductive Call.ToldBy (g : Group V) : Call σ V L → Event L → Prop where
  | build {id : ItemId} {value : V} (s : σ) (hvalue : g.value id = some value) :
      Call.ToldBy g (.build id value s) (.built id)
  | measure {center neighbor : ItemId} {a b : V} (s : σ)
      (hcenter : g.index.primary center = some a) (hneighbor : neighbor ∈ g.neighbors center)
      (hvalue : g.value neighbor = some b) :
      Call.ToldBy g (.measure a b s) (.measured center neighbor)
  | complete {center : ItemId} {value : V} (list : L) (s : σ)
      (hcenter : g.index.primary center = some value) :
      Call.ToldBy g (.complete center value list s) (.completed center list)

/-- What was logged and noted between two states of the lists: call by call, an event for each. -/
def Continues (g : Group V) (index index' : NeighborIndex (Logged σ V L) L) : Prop :=
  ∃ calls events, index'.shared.log = index.shared.log ++ calls ∧
    index'.journal = events.reverse ++ index.journal ∧ List.Forall₂ (Call.ToldBy g) calls events

namespace Continues

variable {g : Group V} {index index' index'' : NeighborIndex (Logged σ V L) L}

/-- Nothing was logged or noted. -/
theorem of_same (hlog : index'.shared.log = index.shared.log)
    (hjournal : index'.journal = index.journal) : Continues g index index' :=
  ⟨[], [], by rw [hlog, List.append_nil], by rw [hjournal]; rfl, .nil⟩

theorem refl (index : NeighborIndex (Logged σ V L) L) : Continues g index index :=
  of_same rfl rfl

theorem trans (h : Continues g index index') (h' : Continues g index' index'') :
    Continues g index index'' := by
  obtain ⟨calls, events, hlog, hjournal, htold⟩ := h
  obtain ⟨calls', events', hlog', hjournal', htold'⟩ := h'
  refine ⟨calls ++ calls', events ++ events', ?_, ?_, List.rel_append htold htold'⟩
  · rw [hlog', hlog, List.append_assoc]
  · rw [hjournal', hjournal, List.reverse_append, List.append_assoc]

/-- Since the start, there is an event for each call. -/
theorem told_of_start {s : σ} (h : Continues g (.start ⟨s, []⟩) index) :
    List.Forall₂ (Call.ToldBy g) index.shared.log index.journal.reverse := by
  obtain ⟨calls, events, hlog, hjournal, htold⟩ := h
  have hcalls : index.shared.log = calls := hlog
  have hevents : index.journal.reverse = events := by
    rw [hjournal]
    simp [NeighborIndex.start]
  rw [hcalls, hevents]
  exact htold

/-- One call was logged and noted. -/
theorem of_call {call : Call σ V L} {event : Event L} {s : σ} (htold : Call.ToldBy g call event) :
    Continues g index ({ index with shared := index.shared.after call s }.note event) :=
  ⟨[call], [event], rfl, rfl, .cons htold .nil⟩

end Continues

namespace NeighborIndex

variable (g : Group V) (c : Collaborators σ V C L) {index : NeighborIndex (Logged σ V L) L}
  {id neighbor : ItemId} {v u : V}

theorem continues_init (hvalue : g.value id = some v) :
    Continues g index (index.init c.logged.lists id v).1 := by
  cases hslot : index.slots[id]? with
  | none =>
    rw [init_of_none c.logged.lists index v hslot]
    exact (Continues.of_call (.build index.shared.state hvalue)).trans (.of_same rfl rfl)
  | some slot =>
    cases slot with
    | live list =>
      rw [init_of_live c.logged.lists v hslot]
      exact .refl index
    | emptied =>
      rw [init_of_emptied c.logged.lists v hslot]
      exact .refl index

/-- Building a list is no call of a role. -/
theorem role_calls_init (index : NeighborIndex (Logged σ V L) L) (id : ItemId) (v : V)
    (role : Role) :
    role.calls (index.init c.logged.lists id v).1.shared.log = role.calls index.shared.log := by
  cases hslot : index.slots[id]? with
  | none =>
    rw [init_of_none c.logged.lists index v hslot]
    exact role.calls_after index.shared (.build id v index.shared.state) _
  | some slot =>
    cases slot with
    | live list => rw [init_of_live c.logged.lists v hslot]
    | emptied => rw [init_of_emptied c.logged.lists v hslot]

/-- An offer logs and notes what asking for the list does. -/
theorem log_offer (index : NeighborIndex (Logged σ V L) L) (id : ItemId) (v : V) (neighbor : ItemId)
    (u : V) (profile : DistanceProfile C) :
    (index.offer c.logged.lists profile id v neighbor u).1.shared.log =
      (index.init c.logged.lists id v).1.shared.log ∧
    (index.offer c.logged.lists profile id v neighbor u).1.journal =
      (index.init c.logged.lists id v).1.journal := by
  unfold offer
  cases index.init c.logged.lists id v with
  | mk index list =>
    cases list with
    | none => exact ⟨rfl, rfl⟩
    | some list => exact ⟨rfl, rfl⟩

theorem continues_offer (profile : DistanceProfile C) (hvalue : g.value id = some v) :
    Continues g index (index.offer c.logged.lists profile id v neighbor u).1 := by
  have hsame := log_offer c index id v neighbor u profile
  exact (continues_init g c hvalue).trans (.of_same hsame.1 hsame.2)

theorem continues_add (profile : DistanceProfile C) (primary : Bool)
    (hvalue : g.value id = some v) (hneighbor : g.value neighbor = some u) :
    Continues g index (index.add c.logged.lists profile id v neighbor u primary).1 := by
  have hoffer : Continues g index (index.offer c.logged.lists profile id v neighbor u).1 :=
    continues_offer g c profile hvalue
  cases primary with
  | false =>
    rw [add_false]
    exact hoffer
  | true =>
    rw [add_true]
    exact hoffer.trans (continues_offer g c profile hneighbor)

theorem role_calls_add (profile : DistanceProfile C) (primary : Bool) (role : Role) :
    role.calls (index.add c.logged.lists profile id v neighbor u primary).1.shared.log =
      role.calls index.shared.log := by
  refine add_of_offer c.logged.lists (I := fun index' => role.calls index'.shared.log =
    role.calls index.shared.log) (fun index' id v t u h => ?_) primary rfl
  rw [(log_offer c index' id v t u profile).1, role_calls_init, h]

end NeighborIndex

/-- Two splits of a list at an entry of a kind, with equally many entries of that kind in front, are
the same. -/
theorem split_unique {α : Type} {p : α → Bool} {before before' rest rest' : List α} {a a' : α}
    (h : before ++ a :: rest = before' ++ a' :: rest') (ha : p a = true) (ha' : p a' = true)
    (hcount : before.countP p = before'.countP p) : before = before' ∧ a = a' := by
  induction before generalizing before' with
  | nil =>
    cases before' with
    | nil => exact ⟨rfl, (List.cons.inj h).1⟩
    | cons b before' =>
      obtain ⟨rfl, -⟩ := List.cons.inj h
      rw [List.countP_nil, List.countP_cons_of_pos ha] at hcount
      omega
  | cons b before ih =>
    cases before' with
    | nil =>
      obtain ⟨rfl, -⟩ := List.cons.inj h
      rw [List.countP_nil, List.countP_cons_of_pos ha'] at hcount
      omega
    | cons b' before' =>
      obtain ⟨rfl, hrest⟩ := List.cons.inj h
      rw [List.countP_cons, List.countP_cons] at hcount
      obtain ⟨hbefore, heq⟩ := ih hrest (Nat.add_right_cancel hcount)
      exact ⟨by rw [hbefore], heq⟩

/-- A run of the lists that a call stops: what was logged and noted before that call, the call
itself, as the last thing the state remembers and the journal tells, and what is logged and noted
after it when it does not fail. -/
structure Stops (g : Group V) (role : Role) (n : Nat) (center : ItemId)
    (start stopped full : NeighborIndex (Logged σ V L) L) : Prop where
  call : ∃ before call event earlier, stopped.shared = ⟨call.state, before ++ [call]⟩ ∧
    stopped.journal = event :: earlier ∧ call.role = some role ∧ event.center = center ∧
    role.calls before = n
  start : Continues g start stopped
  rest : Continues g stopped full

namespace Stops

variable {g : Group V} {role : Role} {n : Nat} {center : ItemId}
  {index start stopped full full' : NeighborIndex (Logged σ V L) L}

/-- A call that fails stops the run; had it not failed, it would have left another state. -/
theorem of_call {call : Call σ V L} {event : Event L} {s : σ} (htold : Call.ToldBy g call event)
    (hrole : call.role = some role) (hn : role.calls index.shared.log = n)
    (hrest : Continues g ({ index with shared := index.shared.after call s }.note event) full) :
    Stops g role n event.center index
      ({ index with shared := index.shared.after call call.state }.note event) full where
  call := ⟨index.shared.log, call, event, index.journal, rfl, rfl, hrole, rfl, hn⟩
  start := .of_call htold
  rest := .trans (.of_same rfl rfl) hrest

theorem of_start (h : Continues g index start) (hstops : Stops g role n center start stopped full) :
    Stops g role n center index stopped full :=
  { hstops with start := h.trans hstops.start }

theorem to_full (hstops : Stops g role n center start stopped full)
    (h : Continues g full full') : Stops g role n center start stopped full' :=
  { hstops with rest := hstops.rest.trans h }

theorem lt_calls (hstops : Stops g role n center start stopped full) :
    n < role.calls full.shared.log := by
  obtain ⟨before, call, event, earlier, hshared, -, hrole, -, hn⟩ := hstops.call
  obtain ⟨calls, events, hcalls, -⟩ := hstops.rest
  have hlog : full.shared.log = before ++ call :: calls := by
    rw [hcalls, hshared, List.append_assoc, List.singleton_append]
  exact Role.lt_calls hlog hrole hn

end Stops

namespace Group

variable (g : Group V) (c : Collaborators σ V C L) {center neighbor : ItemId} {value : V}

section Consider

/-- Where no call fails, dealing with a neighbour is the same with the failing collaborators. -/
theorem consider_failing_eq {role : Role} {n : Nat} (error : String) (s : Scan (Logged σ V L) L)
    (h : ¬(role = .distance ∧ role.calls s.walk.lists.shared.log = n)) :
    g.consider (c.failing role n error) center value neighbor s =
      g.consider c.logged center value neighbor s := by
  unfold consider
  simp only [c.failing_measure error _ _ _ h, c.failing_lists]

variable {s : Scan (Logged σ V L) L} {v : V} {primary : Bool}

/-- What comes after the measurement of a neighbour. -/
theorem continues_measured (hcenter : g.index.primary center = some value)
    (hc : g.candidate s.walk.pending neighbor = some (v, primary))
    (hi : s.walk.lists.infer c.logged.lists center neighbor v = .none) :
    Continues g ({ s.walk.lists with
        shared := (c.logged.measure value v s.walk.lists.shared).2 }.note
          (.measured center neighbor))
      (g.consider c.logged center value neighbor s).1.walk.lists := by
  rcases g.lists_consider c.logged value hc hi with h | ⟨profile, h⟩
  · rw [h]
    exact .refl _
  · rw [h]
    exact NeighborIndex.continues_add g c profile primary (value_of_primary hcenter)
      (value_of_candidate hc)

theorem calls_measured (role : Role)
    (hc : g.candidate s.walk.pending neighbor = some (v, primary))
    (hi : s.walk.lists.infer c.logged.lists center neighbor v = .none) :
    role.calls (g.consider c.logged center value neighbor s).1.walk.lists.shared.log =
      role.calls s.walk.lists.shared.log + if Role.distance = role then 1 else 0 := by
  have hcall : role.calls (c.logged.measure value v s.walk.lists.shared).2.log =
      role.calls s.walk.lists.shared.log + if Role.distance = role then 1 else 0 := by
    rw [Collaborators.logged, Role.calls_after, Call.role]
    simp only [Option.some.injEq]
  rcases g.lists_consider c.logged value hc hi with h | ⟨profile, h⟩
  · rw [h, ← hcall]
    rfl
  · rw [h, NeighborIndex.role_calls_add, ← hcall]
    rfl

variable (s)

theorem continues_consider (hcenter : g.index.primary center = some value)
    (hneighbor : neighbor ∈ g.neighbors center) :
    Continues g s.walk.lists (g.consider c.logged center value neighbor s).1.walk.lists := by
  rcases g.consider_unasked_or_asked c.logged s with ⟨s', hlists, h⟩ | ⟨v, primary, hc, hi⟩
  · rw [h c.logged rfl, hlists]
    exact .refl _
  · exact (Continues.of_call (.measure s.walk.lists.shared.state hcenter hneighbor
      (value_of_candidate hc))).trans (g.continues_measured c hcenter hc hi)

/-- The failing collaborators deal with a neighbour as the others do, unless it is now that the
distance fails. -/
theorem consider_failing {role : Role} {n : Nat} (error : String)
    (hcenter : g.index.primary center = some value) (hneighbor : neighbor ∈ g.neighbors center)
    (hcalls : role.calls s.walk.lists.shared.log ≤ n) :
    (g.consider (c.failing role n error) center value neighbor s =
        g.consider c.logged center value neighbor s ∧
      role.calls (g.consider c.logged center value neighbor s).1.walk.lists.shared.log ≤ n) ∨
    (role = .distance ∧
      (g.consider (c.failing role n error) center value neighbor s).2 = some error ∧
      Stops g role n center s.walk.lists
        (g.consider (c.failing role n error) center value neighbor s).1.walk.lists
        (g.consider c.logged center value neighbor s).1.walk.lists) := by
  rcases g.consider_unasked_or_asked c.logged s with ⟨s', hlists, h⟩ | ⟨v, primary, hc, hi⟩
  · refine Or.inl ⟨?_, ?_⟩
    · rw [h c.logged rfl, h (c.failing role n error) rfl]
    · rw [h c.logged rfl, hlists]
      exact hcalls
  · by_cases hdue : role = .distance ∧ role.calls s.walk.lists.shared.log = n
    · obtain ⟨rfl, hn⟩ := hdue
      have htold : Call.ToldBy g (.measure value v s.walk.lists.shared.state)
          (.measured center neighbor : Event L) :=
        .measure _ hcenter hneighbor (value_of_candidate hc)
      have hfails : (c.failing .distance n error).measure value v s.walk.lists.shared =
          (.error error, s.walk.lists.shared.after (.measure value v s.walk.lists.shared.state)
            s.walk.lists.shared.state) := if_pos ⟨rfl, hn⟩
      have hstop : g.consider (c.failing .distance n error) center value neighbor s =
          ({ s with walk.lists := { s.walk.lists with
              shared := s.walk.lists.shared.after (.measure value v s.walk.lists.shared.state)
                s.walk.lists.shared.state }.note (.measured center neighbor) }, some error) := by
        simp only [consider, hc, c.failing_lists, hi, hfails]
      refine Or.inr ⟨rfl, ?_, ?_⟩
      · rw [hstop]
      · rw [hstop]
        exact .of_call htold rfl hn (g.continues_measured c hcenter hc hi)
    · refine Or.inl ⟨g.consider_failing_eq c error s hdue, ?_⟩
      rw [g.calls_measured c role hc hi]
      by_cases hrole : Role.distance = role
      · rw [if_pos hrole]
        have hne : role.calls s.walk.lists.shared.log ≠ n := fun hn => hdue ⟨hrole.symm, hn⟩
        omega
      · rw [if_neg hrole]
        exact hcalls

end Consider

section Scan

variable (neighbors : List ItemId) (s : Scan (Logged σ V L) L)

theorem continues_scan (hcenter : g.index.primary center = some value)
    (hneighbors : ∀ n ∈ neighbors, n ∈ g.neighbors center) :
    Continues g s.walk.lists (g.scan c.logged center value neighbors s).1.walk.lists := by
  induction neighbors generalizing s with
  | nil => exact .refl _
  | cons m rest ih =>
    have hfirst := g.continues_consider c s hcenter (hneighbors m List.mem_cons_self)
    unfold scan
    cases hc : g.consider c.logged center value m s with
    | mk between failure =>
      rw [hc] at hfirst
      cases failure with
      | some e => exact hfirst
      | none => exact hfirst.trans (ih between fun n hn => hneighbors n (List.mem_cons_of_mem m hn))

theorem scan_failing {role : Role} {n : Nat} (error : String)
    (hcenter : g.index.primary center = some value)
    (hneighbors : ∀ n ∈ neighbors, n ∈ g.neighbors center)
    (hcalls : role.calls s.walk.lists.shared.log ≤ n) :
    (g.scan (c.failing role n error) center value neighbors s =
        g.scan c.logged center value neighbors s ∧
      role.calls (g.scan c.logged center value neighbors s).1.walk.lists.shared.log ≤ n) ∨
    (role = .distance ∧
      (g.scan (c.failing role n error) center value neighbors s).2 = some error ∧
      Stops g role n center s.walk.lists
        (g.scan (c.failing role n error) center value neighbors s).1.walk.lists
        (g.scan c.logged center value neighbors s).1.walk.lists) := by
  induction neighbors generalizing s with
  | nil => exact Or.inl ⟨rfl, hcalls⟩
  | cons m rest ih =>
    have hm : m ∈ g.neighbors center := hneighbors m List.mem_cons_self
    have hrest (n : ItemId) (hn : n ∈ rest) : n ∈ g.neighbors center :=
      hneighbors n (List.mem_cons_of_mem m hn)
    have hfirst := g.continues_consider c s hcenter hm
    unfold scan
    cases hc : g.consider c.logged center value m s with
    | mk between failure =>
      rcases g.consider_failing c s error hcenter hm hcalls with ⟨heq, hle⟩ | ⟨hrole, hfail, hstops⟩
      · rw [hc] at hfirst hle
        rw [heq, hc]
        cases failure with
        | some e => exact Or.inl ⟨rfl, hle⟩
        | none =>
          rcases ih between hrest hle with hsame | ⟨hrole, hfail, hstops⟩
          · exact Or.inl hsame
          · exact Or.inr ⟨hrole, hfail, hstops.of_start hfirst⟩
      · refine Or.inr ⟨hrole, ?_⟩
        cases hf : g.consider (c.failing role n error) center value m s with
        | mk stopped failure' =>
          rw [hf] at hfail hstops
          rw [hc] at hstops
          cases hfail
          cases failure with
          | some e => exact ⟨rfl, hstops⟩
          | none => exact ⟨rfl, hstops.to_full (g.continues_scan c rest between hcenter hrest)⟩

end Scan

section Finish

variable (w : Walk (Logged σ V L) L)

theorem calls_finish_le {role : Role} {n : Nat} (hcalls : role.calls w.lists.shared.log ≤ n)
    (h : ¬(role = .completion ∧ role.calls w.lists.shared.log = n)) :
    role.calls (finish c.logged center value w).1.lists.shared.log ≤ n := by
  cases hfind : w.lists.find center with
  | none =>
    simp only [finish, hfind]
    exact hcalls
  | some list =>
    rw [shared_finish c.logged hfind, Collaborators.logged, Role.calls_after, Call.role]
    by_cases hrole : some Role.completion = some role
    · cases hrole
      have hne : Role.completion.calls w.lists.shared.log ≠ n := fun hn => h ⟨rfl, hn⟩
      rw [if_pos rfl]
      omega
    · rw [if_neg hrole]
      exact hcalls

theorem continues_finish (hcenter : g.index.primary center = some value) :
    Continues g w.lists (finish c.logged center value w).1.lists := by
  cases hfind : w.lists.find center with
  | none =>
    simp only [finish, hfind]
    exact .of_same rfl rfl
  | some list =>
    exact (Continues.of_call (.complete list w.lists.shared.state hcenter)).trans
      (.of_same (by rw [shared_finish c.logged hfind]; rfl) (journal_finish c.logged hfind))

theorem finish_failing {role : Role} {n : Nat} (error : String)
    (hcenter : g.index.primary center = some value) (hcalls : role.calls w.lists.shared.log ≤ n) :
    (finish (c.failing role n error) center value w = finish c.logged center value w ∧
      role.calls (finish c.logged center value w).1.lists.shared.log ≤ n) ∨
    (role = .completion ∧ (finish (c.failing role n error) center value w).2 = some error ∧
      Stops g role n center w.lists (finish (c.failing role n error) center value w).1.lists
        (finish c.logged center value w).1.lists) := by
  by_cases hdue : role = .completion ∧ role.calls w.lists.shared.log = n
  · obtain ⟨rfl, hn⟩ := hdue
    cases hfind : w.lists.find center with
    | none =>
      have hsame (c' : Collaborators (Logged σ V L) V C L) : finish c' center value w =
          ({ w with lists := w.lists.empty center }, none) := by
        simp only [finish, hfind]
      rw [hsame, hsame]
      exact Or.inl ⟨rfl, hcalls⟩
    | some list =>
      have hfails : (c.failing .completion n error).complete center value list w.lists.shared =
          (.error error, w.lists.shared.after (.complete center value list w.lists.shared.state)
            w.lists.shared.state) := if_pos ⟨rfl, hn⟩
      have hstop : finish (c.failing .completion n error) center value w =
          ({ w with lists := { w.lists with
              shared := w.lists.shared.after (.complete center value list w.lists.shared.state)
                w.lists.shared.state }.note (.completed center list) }, some error) := by
        simp only [finish, hfind, hfails]
      refine Or.inr ⟨rfl, by rw [hstop], ?_⟩
      rw [hstop]
      exact .of_call (.complete list w.lists.shared.state hcenter) rfl hn
        (.of_same (by rw [shared_finish c.logged hfind]; rfl) (journal_finish c.logged hfind))
  · refine Or.inl ⟨?_, calls_finish_le c w hcalls hdue⟩
    unfold finish
    simp only [c.failing_complete error _ _ _ _ hdue]

end Finish

section Visit

variable (w : Walk (Logged σ V L) L)

theorem continues_visit (center : ItemId) :
    Continues g w.lists (g.visit c.logged w center).1.lists := by
  cases hcenter : g.index.primary center with
  | none =>
    simp only [visit, hcenter]
    exact .refl _
  | some value =>
    have hinit : Continues g w.lists (w.lists.init c.logged.lists center value).1 :=
      NeighborIndex.continues_init g c (value_of_primary hcenter)
    cases hi : w.lists.init c.logged.lists center value with
    | mk lists list =>
      rw [hi] at hinit
      cases list with
      | none =>
        simp only [visit, hcenter, hi]
        exact hinit
      | some list =>
        have hscan := g.continues_scan c (g.neighbors center)
          ⟨⟨lists, w.pending.erase center⟩, 0, none⟩ hcenter fun _ hn => hn
        cases hs : g.scan c.logged center value (g.neighbors center)
            ⟨⟨lists, w.pending.erase center⟩, 0, none⟩ with
        | mk s failure =>
          rw [hs] at hscan
          cases failure with
          | some e =>
            rw [g.visit_of_scan_error c.logged hcenter hi hs]
            exact hinit.trans hscan
          | none =>
            rw [g.walk_of_scan c.logged hcenter hi hs]
            exact (hinit.trans hscan).trans (g.continues_finish c s.walk hcenter)

theorem visit_failing {role : Role} {n : Nat} (error : String) (center : ItemId)
    (hcalls : role.calls w.lists.shared.log ≤ n) :
    (g.visit (c.failing role n error) w center = g.visit c.logged w center ∧
      role.calls (g.visit c.logged w center).1.lists.shared.log ≤ n) ∨
    ((g.visit (c.failing role n error) w center).2 = .error (role.cause error) ∧
      Stops g role n center w.lists (g.visit (c.failing role n error) w center).1.lists
        (g.visit c.logged w center).1.lists) := by
  cases hcenter : g.index.primary center with
  | none =>
    simp only [visit, hcenter]
    exact Or.inl ⟨trivial, hcalls⟩
  | some value =>
    have hinit : Continues g w.lists (w.lists.init c.logged.lists center value).1 :=
      NeighborIndex.continues_init g c (value_of_primary hcenter)
    have hbuilt := NeighborIndex.role_calls_init c w.lists center value role
    cases hi : w.lists.init c.logged.lists center value with
    | mk lists list =>
      have hi' : w.lists.init (c.failing role n error).lists center value = (lists, list) := hi
      rw [hi] at hinit hbuilt
      rw [← hbuilt] at hcalls
      cases list with
      | none =>
        simp only [visit, hcenter, hi, hi']
        exact Or.inl ⟨trivial, hcalls⟩
      | some list =>
        have hgrows := g.continues_scan c (g.neighbors center)
          ⟨⟨lists, w.pending.erase center⟩, 0, none⟩ hcenter fun _ hn => hn
        have hscan := g.scan_failing c (g.neighbors center)
          ⟨⟨lists, w.pending.erase center⟩, 0, none⟩ error hcenter (fun _ hn => hn) hcalls
        cases hs : g.scan c.logged center value (g.neighbors center)
            ⟨⟨lists, w.pending.erase center⟩, 0, none⟩ with
        | mk s failure =>
          rw [hs] at hgrows hscan
          rcases hscan with ⟨hsame, hle⟩ | ⟨hrole, hfail, hstops⟩
          · cases failure with
            | some e =>
              rw [g.visit_of_scan_error c.logged hcenter hi hs,
                g.visit_of_scan_error _ hcenter hi' hsame]
              exact Or.inl ⟨rfl, hle⟩
            | none =>
              rw [g.walk_of_scan c.logged hcenter hi hs, g.walk_of_scan _ hcenter hi' hsame]
              rcases g.finish_failing c s.walk error hcenter hle with
                ⟨hequal, hle⟩ | ⟨rfl, hfail, hstops⟩
              · refine Or.inl ⟨?_, hle⟩
                rw [g.visit_of_scan c.logged hcenter hi hs, g.visit_of_scan _ hcenter hi' hsame,
                  hequal]
              · refine Or.inr ⟨?_, hstops.of_start (hinit.trans hgrows)⟩
                rw [g.visit_of_scan _ hcenter hi' hsame]
                cases hf : finish (c.failing .completion n error) center value s.walk with
                | mk after failure =>
                  rw [hf] at hfail
                  cases hfail
                  rfl
          · subst hrole
            cases hf : g.scan (c.failing .distance n error) center value (g.neighbors center)
                ⟨⟨lists, w.pending.erase center⟩, 0, none⟩ with
            | mk stopped failure' =>
              rw [hf] at hfail hstops
              cases hfail
              rw [g.visit_of_scan_error _ hcenter hi' hf]
              refine Or.inr ⟨rfl, hstops.of_start hinit |>.to_full ?_⟩
              cases failure with
              | some e =>
                rw [g.visit_of_scan_error c.logged hcenter hi hs]
                exact .refl _
              | none =>
                rw [g.walk_of_scan c.logged hcenter hi hs]
                exact g.continues_finish c s.walk hcenter

end Visit

section Roam

variable (w : Walk (Logged σ V L) L) (next : Option ItemId)

theorem continues_roam : Continues g w.lists (g.roam c.logged w next).1.lists := by
  induction w, next using roam.induct g c.logged with
  | case1 w next hnone =>
    rw [g.roam_of_none c.logged hnone]
    exact .refl _
  | case2 w next center hnext hmem after cause hvisit =>
    have hgrows := g.continues_visit c w center
    rw [hvisit] at hgrows
    rw [g.roam_of_error c.logged hnext hmem hvisit]
    exact hgrows
  | case3 w next center hnext hmem after farthest hvisit ih =>
    have hgrows := g.continues_visit c w center
    rw [hvisit] at hgrows
    rw [g.roam_of_ok c.logged hnext hmem hvisit]
    exact hgrows.trans ih
  | case4 w next center hnext hmem =>
    rw [g.roam_of_not_mem c.logged hnext hmem]
    exact .refl _

theorem roam_failing (role : Role) (n : Nat) (error : String)
    (hcalls : role.calls w.lists.shared.log ≤ n) :
    (g.roam (c.failing role n error) w next = g.roam c.logged w next ∧
      role.calls (g.roam c.logged w next).1.lists.shared.log ≤ n) ∨
    ∃ center, (g.roam (c.failing role n error) w next).2 = some (center, role.cause error) ∧
      Stops g role n center w.lists (g.roam (c.failing role n error) w next).1.lists
        (g.roam c.logged w next).1.lists := by
  -- The two walks go the same way, up to the visit in which a call fails.
  induction w, next using roam.induct g c.logged with
  | case1 w next hnone =>
    rw [g.roam_of_none _ hnone, g.roam_of_none _ hnone]
    exact Or.inl ⟨rfl, hcalls⟩
  | case2 w next center hnext hmem after cause hvisit =>
    have hstep := g.visit_failing c w error center hcalls
    rw [hvisit] at hstep
    rw [g.roam_of_error c.logged hnext hmem hvisit]
    rcases hstep with ⟨hsame, hle⟩ | ⟨hfail, hstops⟩
    · rw [g.roam_of_error _ hnext hmem hsame]
      exact Or.inl ⟨rfl, hle⟩
    · cases hf : g.visit (c.failing role n error) w center with
      | mk stopped answer =>
        rw [hf] at hfail hstops
        cases hfail
        rw [g.roam_of_error _ hnext hmem hf]
        exact Or.inr ⟨center, rfl, hstops⟩
  | case3 w next center hnext hmem after farthest hvisit ih =>
    have hstep := g.visit_failing c w error center hcalls
    have hgrows := g.continues_visit c w center
    rw [hvisit] at hstep hgrows
    rw [g.roam_of_ok c.logged hnext hmem hvisit]
    rcases hstep with ⟨hsame, hle⟩ | ⟨hfail, hstops⟩
    · rw [g.roam_of_ok _ hnext hmem hsame]
      rcases ih hle with hequal | ⟨center', hfail, hstops⟩
      · exact Or.inl hequal
      · exact Or.inr ⟨center', hfail, hstops.of_start hgrows⟩
    · cases hf : g.visit (c.failing role n error) w center with
      | mk stopped answer =>
        rw [hf] at hfail hstops
        cases hfail
        rw [g.roam_of_error _ hnext hmem hf]
        exact Or.inr ⟨center, rfl, hstops.to_full (g.continues_roam c after farthest)⟩
  | case4 w next center hnext hmem =>
    rw [g.roam_of_not_mem _ hnext hmem, g.roam_of_not_mem _ hnext hmem]
    exact Or.inl ⟨rfl, hcalls⟩

end Roam

/-- Logging the calls of a traversal does not change it, and its journal tells of them one by one.
When the call of a role that comes after `n` others of it fails, the log ends with this call and the
journal with the event that tells of it, the state is the one that the call met, and the error names
the center of that event. When there is no such call, nothing changes. -/
theorem stopped_traversal_is_prefix (shared : σ) (role : Role) (n : Nat) (error : String) :
    let full := g.traverse c.logged ⟨shared, []⟩
    let stopped := g.traverse (c.failing role n error) ⟨shared, []⟩
    full.image Logged.state = g.traverse c shared ∧
    List.Forall₂ (Call.ToldBy g) full.shared.log full.journal ∧
    (∀ before call rest, full.shared.log = before ++ call :: rest → call.role = some role →
      role.calls before = n →
      ∃ told event later, full.journal = told ++ event :: later ∧ told.length = before.length ∧
        Call.ToldBy g call event ∧
        stopped = ⟨⟨call.state, before ++ [call]⟩, told ++ [event],
          some (.traversal g.parent.key event.center (role.cause error))⟩) ∧
    (role.calls full.shared.log ≤ n → stopped = full) := by
  intro full stopped
  have hpart := g.roam_failing c (g.departure ⟨shared, []⟩) g.startingPoint role n error
    (Nat.zero_le n)
  have htold := (g.continues_roam c (g.departure ⟨shared, []⟩) g.startingPoint).told_of_start
  refine ⟨(c.simulates_logged.traverse g ⟨shared, []⟩).symm, htold, ?_, ?_⟩
  · intro before call rest hlog hrole hn
    rcases hpart with ⟨-, hle⟩ | ⟨center, hfail, hstops⟩
    · exact absurd (Role.lt_calls hlog hrole hn) (Nat.not_lt.mpr hle)
    · obtain ⟨before', call', event, earlier, hshared, hjournal, hrole', hcenter, hn'⟩ :=
        hstops.call
      obtain ⟨calls, events, hcalls, hevents, -⟩ := hstops.rest
      have hsplit : before ++ call :: rest = before' ++ call' :: calls := by
        rw [← hlog, ← List.singleton_append, ← List.append_assoc]
        rw [hshared] at hcalls
        exact hcalls
      obtain ⟨rfl, rfl⟩ := split_unique hsplit (by simpa using hrole) (by simpa using hrole')
        (hn.trans hn'.symm)
      have htold := hstops.start.told_of_start
      rw [hshared, hjournal, ← List.forall₂_reverse_iff, List.reverse_reverse,
        List.reverse_append] at htold
      obtain ⟨hevent, hearlier⟩ := List.forall₂_cons.mp htold
      refine ⟨earlier.reverse, event, events, ?_, ?_, hevent, ?_⟩
      · show (g.roam c.logged (g.departure ⟨shared, []⟩)
          g.startingPoint).1.lists.journal.reverse = _
        rw [hevents, hjournal, List.reverse_append, List.reverse_reverse, List.reverse_cons,
          List.append_assoc, List.singleton_append]
      · simpa using hearlier.length_eq.symm
      · show g.traverse _ _ = _
        rw [traverse_eq, hshared, hjournal, hfail, hcenter, List.reverse_cons]
        rfl
  · intro hle
    rcases hpart with ⟨hsame, -⟩ | ⟨center, -, hstops⟩
    · show g.traverse _ _ = g.traverse _ _
      rw [traverse_eq, hsame]
      rfl
    · exact absurd hstops.lt_calls (Nat.not_lt.mpr hle)

example : ((huddle [⟨[0]⟩, ⟨[1]⟩, ⟨[2]⟩]).traverse
    ((dropping ⟨[2]⟩).failing .completion 1 "closed") ⟨(), []⟩).failure =
      some (.traversal ⟨[0]⟩ ⟨[1]⟩ (.completion "closed")) := by
  decide +kernel

end Group

end DensityClustering

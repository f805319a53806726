import DensityClustering.Config.Document

/-!
What is read of an object and of a list. Of an object with at most one value for each field these
are the values by their names, wherever they stand and whatever else stands there; a list of the
first values is read like the object that gives the same fields their values.
-/

namespace DensityClustering.Json

/-- The entry has the name, however it is escaped. -/
def isNamed (name : String) (e : JsonText × Json) : Bool := e.1.toString? == some name

def lookup (entries : List (JsonText × Json)) (name : String) : Option Json :=
  (entries.find? (isNamed name)).map (·.2)

/-- No surrogate stands alone in a name. -/
def Legible (entries : List (JsonText × Json)) : Prop := ∀ e ∈ entries, e.1.toString? ≠ none

def AtMostOnce (entries : List (JsonText × Json)) (name : String) : Prop :=
  (entries.filter (isNamed name)).length ≤ 1

theorem isNamed_iff {name : String} {e : JsonText × Json} :
    isNamed name e = true ↔ e.1.toString? = some name := beq_iff_eq

theorem named_cons (e : JsonText × Json) (entries : List (JsonText × Json)) :
    named (e :: entries) = e.1.toString?.bind fun name =>
      (named entries).map fun es => (name, e.2) :: es := by
  simp only [named, List.mapM_cons, Option.bind_eq_bind, Option.pure_def]
  cases e.1.toString? with
  | none => rfl
  | some name => cases List.mapM (fun e : JsonText × Json =>
      e.1.toString?.map fun name => (name, e.2)) entries <;> rfl

/-- The entries of an object by their names keep the values of each name, in their order. -/
theorem exists_named {entries : List (JsonText × Json)} (h : Legible entries) :
    ∃ es, named entries = some es ∧ ∀ name, (es.filter fun e => e.1 == name).map (·.2) =
      (entries.filter (isNamed name)).map (·.2) := by
  induction entries with
  | nil => exact ⟨[], rfl, fun _ => rfl⟩
  | cons e entries ih =>
    obtain ⟨es, hes, hvalues⟩ := ih fun f hf => h f (List.mem_cons_of_mem e hf)
    obtain ⟨own, hown⟩ := Option.ne_none_iff_exists'.mp (h e List.mem_cons_self)
    refine ⟨(own, e.2) :: es, by rw [named_cons, hown, hes]; rfl, fun name => ?_⟩
    by_cases hname : own = name
    · have hhead : isNamed name e = true := isNamed_iff.mpr (by rw [hown, hname])
      rw [List.filter_cons_of_pos (by simpa using hname), List.filter_cons_of_pos hhead,
        List.map_cons, List.map_cons, hvalues]
    · have hhead : ¬ isNamed name e = true := by
        rw [isNamed_iff, hown, Option.some.injEq]
        exact hname
      rw [List.filter_cons_of_neg (by simpa using hname), List.filter_cons_of_neg hhead, hvalues]

theorem named_of_not_legible {entries : List (JsonText × Json)} (h : ¬ Legible entries) :
    named entries = none := by
  induction entries with
  | nil => exact absurd nofun h
  | cons e entries ih =>
    rw [named_cons]
    cases hown : e.1.toString? with
    | none => rfl
    | some own =>
      have htail : ¬ Legible entries := by
        intro htail
        refine h fun f hf => ?_
        obtain rfl | hf := List.mem_cons.mp hf
        · rw [hown]; exact Option.some_ne_none own
        · exact htail f hf
      rw [ih htail]
      rfl

theorem lookup_eq_head? (entries : List (JsonText × Json)) (name : String) :
    lookup entries name = ((entries.filter (isNamed name)).map (·.2)).head? := by
  rw [lookup, List.head?_map, List.head?_filter]

theorem mapM_eq_some_map {α β : Type} {f : α → Option β} {g : α → β} {l : List α}
    (h : ∀ a ∈ l, f a = some (g a)) : l.mapM f = some (l.map g) := by
  induction l with
  | nil => rfl
  | cons a l ih =>
    rw [List.mapM_cons, h a List.mem_cons_self, ih fun b hb => h b (List.mem_cons_of_mem a hb)]
    rfl

theorem fields?_object {names : List String} {entries : List (JsonText × Json)}
    (hlegible : Legible entries) (honce : ∀ name ∈ names, AtMostOnce entries name) :
    fields? names (object entries) = some (names.map (lookup entries)) := by
  obtain ⟨es, hes, hvalues⟩ := exists_named hlegible
  have hfield : ∀ name ∈ names, field? es name = some (lookup entries name) := by
    intro name hname
    have hlength : (es.filter fun e => e.1 == name).length ≤ 1 := by
      have := congrArg List.length (hvalues name)
      rw [List.length_map, List.length_map] at this
      exact this ▸ honce name hname
    rw [lookup_eq_head?, ← hvalues name, field?]
    cases hfilter : es.filter fun e => e.1 == name with
    | nil => rfl
    | cons e rest =>
      rw [hfilter, List.length_cons] at hlength
      obtain rfl : rest = [] := List.eq_nil_of_length_eq_zero (by omega)
      rfl
  simp only [fields?, hes, Option.bind_eq_bind, Option.bind_some]
  exact mapM_eq_some_map hfield

theorem fields?_of_not_legible {entries : List (JsonText × Json)} (h : ¬ Legible entries)
    (names : List String) : fields? names (object entries) = none := by
  simp only [fields?, named_of_not_legible h, Option.bind_eq_bind, Option.bind_none]

/-! ### Entries that come and go -/

theorem lookup_perm {entries entries' : List (JsonText × Json)} (h : entries.Perm entries')
    {name : String} (honce : AtMostOnce entries name) :
    lookup entries name = lookup entries' name := by
  have hfilter := h.filter (isNamed name)
  rw [lookup_eq_head?, lookup_eq_head?]
  unfold AtMostOnce at honce
  cases hentries : entries.filter (isNamed name) with
  | nil =>
    rw [hentries] at hfilter
    rw [hfilter.symm.eq_nil]
  | cons e rest =>
    rw [hentries, List.length_cons] at honce
    obtain rfl : rest = [] := List.eq_nil_of_length_eq_zero (by omega)
    rw [hentries] at hfilter
    rw [List.perm_singleton.mp hfilter.symm]

theorem atMostOnce_perm {entries entries' : List (JsonText × Json)} (h : entries.Perm entries')
    {name : String} (honce : AtMostOnce entries name) : AtMostOnce entries' name := by
  unfold AtMostOnce at honce ⊢
  rwa [← (h.filter (isNamed name)).length_eq]

theorem legible_perm {entries entries' : List (JsonText × Json)} (h : entries.Perm entries')
    (hlegible : Legible entries) : Legible entries' :=
  fun e he => hlegible e (h.mem_iff.mpr he)

/-! ### Lists -/

/-- Names that are not repeated stand before one value each. -/
theorem atMostOnce_of_nodup {names : List String} (hnodup : names.Nodup)
    {entries : List (JsonText × Json)} (hnames : entries.map (·.1.toString?) = names.map some)
    (name : String) : AtMostOnce entries name := by
  unfold AtMostOnce
  induction entries generalizing names with
  | nil => exact Nat.zero_le 1
  | cons e entries ih =>
    cases names with
    | nil => cases hnames
    | cons own names =>
      obtain ⟨hfresh, hnodup⟩ := List.nodup_cons.mp hnodup
      simp only [List.map_cons, List.cons.injEq] at hnames
      by_cases hname : isNamed name e = true
      · have htail : entries.filter (isNamed name) = [] := by
          refine List.filter_eq_nil_iff.mpr fun f hf hfname => hfresh ?_
          have hmem : f.1.toString? ∈ entries.map (·.1.toString?) := List.mem_map_of_mem hf
          rw [hnames.2, isNamed_iff.mp hfname, ← isNamed_iff.mp hname, hnames.1] at hmem
          obtain ⟨other, hother, heq⟩ := List.mem_map.mp hmem
          rwa [← Option.some.inj heq]
        rw [List.filter_cons_of_pos hname, htail]
        exact Nat.le_refl 1
      · rw [List.filter_cons_of_neg hname]
        exact ih hnodup hnames.2

/-- The first values of a list belong to the first names. -/
theorem map_lookup_of_names {names : List String} (hnodup : names.Nodup)
    {entries : List (JsonText × Json)}
    (hnames : entries.map (·.1.toString?) = (names.take entries.length).map some) :
    names.map (lookup entries) = (entries.map (·.2)).map some ++
      List.replicate (names.length - entries.length) none := by
  induction names generalizing entries with
  | nil =>
    cases entries with
    | nil => rfl
    | cons e entries => cases hnames
  | cons name names ih =>
    obtain ⟨hfresh, hnodup⟩ := List.nodup_cons.mp hnodup
    cases entries with
    | nil =>
      have hnone : ∀ names : List String,
          names.map (lookup []) = List.replicate names.length none := fun names =>
        List.map_eq_replicate_iff.mpr fun _ _ => rfl
      exact hnone (name :: names)
    | cons e entries =>
      simp only [List.map_cons, List.length_cons, List.take_succ_cons, List.cons.injEq] at hnames
      have hhead : lookup (e :: entries) name = some e.2 := by
        rw [lookup, List.find?_cons_of_pos (isNamed_iff.mpr hnames.1)]
        rfl
      have htail : names.map (lookup (e :: entries)) = names.map (lookup entries) := by
        refine List.map_congr_left fun other hother => ?_
        have hne : ¬ isNamed other e = true := by
          rw [isNamed_iff, hnames.1, Option.some.injEq]
          rintro rfl
          exact hfresh hother
        rw [lookup, List.find?_cons_of_neg hne]
        rfl
      simp only [List.map_cons, List.length_cons, Nat.add_sub_add_right, List.cons_append, hhead,
        htail, ih hnodup hnames.2]

end DensityClustering.Json

import SparqlViews.Proofs.Steps
import SparqlViews.Proofs.View.Names
import SparqlViews.Query.Builder

/-! # Dotted paths as addresses

The dotted form of a path is an address of its entry: looked up in any way it gives this path, and it can be
sorted on and filtered on (`View.resolve_toDotted_iff`, `dotted_paths_are_addresses`). There is one exception.
An entry at the top has no dotted form but its bare name, and the unambiguous search refuses a name that
stands at a lower level too (`View.resolve_of_comesBelow`, `View.top_entry_without_address`).

* `View.ComesBelow`: a name that stands below the top.
* `View.IsListing`: all paths of a kind in their order, which the candidates of an error are.
* `View.Addressed`: the paths that a way of looking up reaches by their dotted forms.
-/

namespace SparqlViews

namespace View

variable {v : View} {name : String} {p q : Path} {lookup : Lookup}

/-- **An entry below the top has this name.** -/
def ComesBelow (v : View) (name : String) : Prop := ∃ q ∈ v.paths, 1 < q.length ∧ q.getLast? = some name

/-- **The dotted form of a path is its address**: in the unambiguous search, the name of an entry at the
top must not come again below. -/
def Addressed (v : View) (lookup : Lookup) (p : Path) : Prop :=
  lookup = .unambiguous → ∀ name, p = [name] → ¬ v.ComesBelow name

/-- **All paths of a kind**, each once: by their levels, and on one level as in the document. -/
structure IsListing (v : View) (kind : Path → Prop) (listed : List Path) : Prop where
  mem_iff : ∀ q, q ∈ listed ↔ q ∈ v.paths ∧ kind q
  ordered : listed.Pairwise v.Precedes

theorem IsListing.ne_nil_iff {kind : Path → Prop} {listed : List Path}
    (h : v.IsListing kind listed) : listed ≠ [] ↔ ∃ q ∈ v.paths, kind q := by
  rw [ne_eq, List.eq_nil_iff_forall_not_mem, not_forall_not]
  exact exists_congr h.mem_iff

theorem IsListing.map_ofDotted {kind : Path → Prop} {listed : List Path} (hv : v.WellFormed)
    (h : v.IsListing kind listed) : (listed.map Path.toDotted).map Path.ofDotted = listed := by
  have hpath : ∀ q ∈ listed, Path.ofDotted q.toDotted = q := fun q hq =>
    Path.ofDotted_toDotted (legal_of_mem_paths hv ((h.mem_iff q).1 hq).1)
  rw [List.map_map]
  exact (List.map_congr_left hpath).trans (List.map_id _)

theorem isListing_positions (hv : v.WellFormed) (name : String) :
    v.IsListing (fun q => q.getLast? = some name) (v.positions name) where
  ordered := pairwise_positions hv name
  mem_iff q := by
    rw [mem_positions_iff hv, mem_paths_iff hv]
    constructor
    · rintro ⟨e, he, rfl⟩
      exact ⟨by rw [he, Option.isSome_some], getLast?_of_find? he⟩
    · rintro ⟨hsome, hlast⟩
      obtain ⟨e, he⟩ := Option.isSome_iff_exists.1 hsome
      rw [getLast?_of_find? he] at hlast
      exact ⟨e, he, Option.some.inj hlast⟩

/-- The positions of the name of an entry at the top: this entry, and all those below. -/
theorem exists_positions (hv : v.WellFormed) (h : name ∈ v.names) : ∃ below,
    v.positions name = [name] :: below ∧
      v.IsListing (fun q => 1 < q.length ∧ q.getLast? = some name) below := by
  obtain ⟨below, hbelow⟩ := List.head?_eq_some_iff.1 (head?_positions hv h)
  have hall := isListing_positions hv name
  rw [hbelow] at hall
  obtain ⟨hfirst, hordered⟩ := List.pairwise_cons.1 hall.ordered
  refine ⟨below, hbelow, fun q => ⟨fun hq => ?_, ?_⟩, hordered⟩
  · obtain ⟨hmem, hlast⟩ := (hall.mem_iff q).1 (List.mem_cons_of_mem _ hq)
    refine ⟨hmem, ?_, hlast⟩
    -- another path of one name would be that of the entry at the top
    have hpos := List.length_pos_iff.2 (ne_nil_of_mem_paths hmem)
    by_contra hshort
    obtain ⟨other, rfl⟩ := List.length_eq_one_iff.1 (by omega : q.length = 1)
    obtain rfl : other = name := by simpa using hlast
    exact not_precedes_self v [other] (hfirst _ hq)
  · rintro ⟨hmem, hlong, hlast⟩
    refine (List.mem_cons.1 ((hall.mem_iff q).2 ⟨hmem, hlast⟩)).resolve_left ?_
    rintro rfl
    simp at hlong

theorem resolve_toDotted_of_long (hv : v.WellFormed) (hp : p ∈ v.paths) (hlong : 1 < p.length)
    (lookup : Lookup) : v.resolve lookup p.toDotted = .ok p := by
  have hlegal := legal_of_mem_paths hv hp
  rw [resolve_dotted lookup ((Path.dot_mem_toDotted_iff hlegal).2 hlong),
    Path.ofDotted_toDotted hlegal, if_pos ((mem_paths_iff hv).1 hp)]

/-- **An entry at the top whose name comes again below** has no address in the unambiguous search. -/
theorem resolve_of_comesBelow (hv : v.WellFormed) (hname : name ∈ v.names)
    (hdot : '.' ∉ name.toList) (h : v.ComesBelow name) : ∃ below,
      v.IsListing (fun q => 1 < q.length ∧ q.getLast? = some name) below ∧
      v.resolve .unambiguous name =
        .error (.ambiguousName name (name :: below.map Path.toDotted)) := by
  obtain ⟨below, hpositions, hbelow⟩ := exists_positions hv hname
  refine ⟨below, hbelow, ?_⟩
  obtain ⟨q, more, rfl⟩ := List.exists_cons_of_ne_nil (hbelow.ne_nil_iff.2 h)
  rw [resolve_unambiguous hdot, hpositions]
  rfl

theorem resolve_toDotted_iff (hv : v.WellFormed) (hp : p ∈ v.paths) :
    v.resolve lookup p.toDotted = .ok p ↔ v.Addressed lookup p := by
  have hlegal := legal_of_mem_paths hv hp
  have hpos := List.length_pos_iff.2 (ne_nil_of_mem_paths hp)
  by_cases hlong : 1 < p.length
  · refine ⟨fun _ _ name hname => ?_, fun _ => resolve_toDotted_of_long hv hp hlong lookup⟩
    simp [hname] at hlong
  · obtain ⟨name, rfl⟩ := List.length_eq_one_iff.1 (by omega : p.length = 1)
    have hname := (singleton_mem_paths_iff hv).1 hp
    have hdot : '.' ∉ name.toList := Naming.dot_not_mem (hlegal name List.mem_cons_self)
    have hdotted : Path.toDotted [name] = name := by simp [Path.toDotted]
    obtain ⟨below, hpositions, hbelow⟩ := exists_positions hv hname
    rw [hdotted]
    cases lookup with
    | breadthFirst =>
      rw [resolve_breadthFirst hdot, hpositions]
      simp [Addressed]
    | qualified =>
      rw [resolve_qualified hdot, if_pos hname]
      simp [Addressed]
    | unambiguous =>
      have haddressed : v.Addressed .unambiguous [name] ↔ ¬ v.ComesBelow name := by
        constructor
        · exact fun h => h rfl name rfl
        · intro h _ other hother
          rwa [← (List.cons.inj hother).1]
      rw [haddressed]
      constructor
      · intro h hcomes
        obtain ⟨below, -, herror⟩ := resolve_of_comesBelow hv hname hdot hcomes
        rw [herror] at h
        cases h
      · intro h
        obtain rfl : below = [] := by
          by_contra hne
          exact h (hbelow.ne_nil_iff.1 hne)
        rw [resolve_unambiguous hdot, hpositions]

/-- The name in an error is the one that was looked up, and the candidates are its positions. -/
theorem eq_of_ambiguousName {other : String} {candidates : List String}
    (h : v.resolve lookup name = .error (.ambiguousName other candidates)) :
    other = name ∧ candidates = (v.positions name).map Path.toDotted := by
  by_cases hdot : '.' ∈ name.toList
  · rw [resolve_dotted lookup hdot] at h
    split at h <;> cases h
  · cases lookup with
    | breadthFirst =>
      rw [resolve_breadthFirst hdot] at h
      split at h <;> cases h
    | qualified =>
      rw [resolve_qualified hdot] at h
      split at h <;> cases h
    | unambiguous =>
      rw [resolve_unambiguous hdot] at h
      split at h
      · cases h
      · cases h
      · cases h
        exact ⟨rfl, rfl⟩

/-- **A candidate other than the bare name is an address** in every way of looking up. -/
theorem resolve_candidate (hv : v.WellFormed) (hp : p ∈ v.positions name) (hne : p.toDotted ≠ name)
    (lookup : Lookup) : v.resolve lookup p.toDotted = .ok p := by
  have hmem := mem_paths_of_mem_positions hp
  refine (resolve_toDotted_iff hv hmem).2 fun _ own hown => ?_
  obtain ⟨e, he, hname⟩ := (mem_positions_iff hv).1 hp
  have hlast := getLast?_of_find? he
  subst hown
  obtain rfl : own = name := by
    rw [← hname]
    exact Option.some.inj hlast
  exact absurd (by simp [Path.toDotted]) hne

end View

/-! ### Addresses in queries -/

namespace ViewQuery

variable {q : ViewQuery} {p : Path} {e : Entry} {name : String}

theorem sortBy_of_resolve (h : q.resolve name = .ok p) (descending : Bool) :
    q.sortBy name descending =
      .ok { q with shape := { q.shape with sort := q.shape.sort ++ [⟨p, descending⟩] } } := by
  rw [sortBy, h]
  rfl

theorem filter_of_resolve (h : q.resolve name = .ok p) (he : q.view.find? p = some e)
    (hfilterable : e.property.filterable = true) (values : List Term) :
    q.filter name values = .ok (q.withFilter (.equals p values)) := by
  have hpath : q.filterablePath name = .ok p := by
    refine Steps.bind_eq_ok.2 ⟨p, h, ?_⟩
    rw [he]
    exact if_pos hfilterable
  rw [filter, hpath]
  rfl

end ViewQuery

/-- **Dotted paths are addresses.** Looked up in any way, the dotted form of a path of a view gives this
path, unless the search is the unambiguous one and an entry at the top has a name that comes again below:
then the error lists this entry and all those below. The candidates of such an error are the dotted forms of
all entries of the name, and each of them but the bare name gives its path in every way of looking up. And
what is an address can be sorted on, and filtered on if its entry allows it. -/
theorem dotted_paths_are_addresses {v : View} (hv : v.WellFormed) :
    (∀ p ∈ v.paths, ∀ lookup, v.resolve lookup p.toDotted = .ok p ↔ v.Addressed lookup p) ∧
    (∀ name ∈ v.names, v.ComesBelow name → ∃ below,
      v.IsListing (fun q => 1 < q.length ∧ q.getLast? = some name) below ∧
      v.resolve .unambiguous name =
        .error (.ambiguousName name (name :: below.map Path.toDotted))) ∧
    (∀ lookup name other candidates,
      v.resolve lookup name = .error (.ambiguousName other candidates) → other = name ∧
        ∃ listed, v.IsListing (fun q => q.getLast? = some name) listed ∧
          candidates = listed.map Path.toDotted ∧
          ∀ p ∈ listed, p.toDotted ≠ name → ∀ lookup, v.resolve lookup p.toDotted = .ok p) ∧
    ∀ q : ViewQuery, q.view = v → ∀ p e, v.find? p = some e → v.Addressed q.lookup p →
      (∀ descending, q.sortBy p.toDotted descending =
        .ok { q with shape := { q.shape with sort := q.shape.sort ++ [⟨p, descending⟩] } }) ∧
      (e.property.filterable = true → ∀ values,
        q.filter p.toDotted values = .ok (q.withFilter (.equals p values))) := by
  refine ⟨fun p hp lookup => View.resolve_toDotted_iff hv hp, fun name hname hbelow => ?_,
    fun lookup name other candidates h => ?_, fun q hq p e he haddressed => ?_⟩
  · obtain ⟨e, he⟩ := Option.isSome_iff_exists.1 (View.get?_isSome.2 hname)
    exact View.resolve_of_comesBelow hv hname (Naming.dot_not_mem (hv.of_get? he).1) hbelow
  · obtain ⟨rfl, hcandidates⟩ := View.eq_of_ambiguousName h
    exact ⟨rfl, _, View.isListing_positions hv _, hcandidates,
      fun p hp => View.resolve_candidate hv hp⟩
  · subst hq
    have hp : p ∈ q.view.paths := (View.mem_paths_iff hv).2 (by rw [he, Option.isSome_some])
    have hresolve : q.resolve p.toDotted = .ok p := (View.resolve_toDotted_iff hv hp).2 haddressed
    exact ⟨ViewQuery.sortBy_of_resolve hresolve,
      fun hfilterable => ViewQuery.filter_of_resolve hresolve he hfilterable⟩

/-- A label two levels below is reached by its dotted form in every search, and so is each candidate that the
unambiguous search lists for the bare name, but for the label at the top; sorting on it adds its path. -/
theorem dotted_paths_are_addresses_of_label :
    let v := View.labelledView
    let q : ViewQuery := { view := v, strategy := .flat, lookup := .unambiguous }
    v.WellFormed ∧ ["part", "unit", "label"] ∈ v.paths ∧
    (∀ lookup, v.resolve lookup "part.unit.label" = .ok ["part", "unit", "label"]) ∧
    v.resolve .qualified "label" = .ok ["label"] ∧ v.ComesBelow "label" ∧
    v.resolve .unambiguous "label" =
      .error (.ambiguousName "label" ["label", "area.label", "part.unit.label"]) ∧
    v.IsListing (fun q => q.getLast? = some "label")
      [["label"], ["area", "label"], ["part", "unit", "label"]] ∧
    v.IsListing (fun q => 1 < q.length ∧ q.getLast? = some "label")
      [["area", "label"], ["part", "unit", "label"]] ∧
    (∀ lookup, v.resolve lookup "area.label" = .ok ["area", "label"]) ∧
    ∃ q', q.sortBy "area.label" true = .ok q' ∧ q'.shape.sort = [⟨["area", "label"], true⟩] := by
  intro v q
  have hv : v.WellFormed := by decide
  have hunit : ["part", "unit", "label"] ∈ v.paths := by decide
  have hcomes : v.ComesBelow "label" := ⟨_, hunit, by decide, by decide⟩
  have hlong : ∀ {p : Path} {lookup : Lookup}, 1 < p.length → v.Addressed lookup p := by
    rintro p lookup hlength - name rfl
    exact absurd hlength (by simp)
  have herror : v.resolve .unambiguous "label" =
      .error (.ambiguousName "label" ["label", "area.label", "part.unit.label"]) := by decide
  obtain ⟨hpaths, hambiguous, hcandidates, hqueries⟩ := dotted_paths_are_addresses hv
  obtain ⟨below, hbelow, hagain⟩ := hambiguous "label" (by decide) hcomes
  obtain ⟨-, listed, hlisted, hdotted, hresolve⟩ := hcandidates _ _ _ _ herror
  have hbelowdotted : ["area.label", "part.unit.label"] = below.map Path.toDotted := by
    rw [herror] at hagain
    injection hagain with hagain
    injection hagain with _ hagain
    exact (List.cons.inj hagain).2
  have hbeloweq := hbelow.map_ofDotted hv
  have hlistedeq := hlisted.map_ofDotted hv
  rw [← hbelowdotted] at hbeloweq
  rw [← hdotted] at hlistedeq
  subst hbeloweq hlistedeq
  obtain ⟨hsort, -⟩ := hqueries q rfl ["area", "label"]
    ⟨{ name := "label", iri := "http://e/label" }, none⟩ (by decide) (hlong (by decide))
  exact ⟨hv, hunit, fun lookup => (hpaths _ hunit lookup).2 (hlong (by decide)),
    (hpaths ["label"] (by decide) .qualified).2 (fun h => by cases h), hcomes, herror, hlisted, hbelow,
    hresolve ["area", "label"] (by decide) (by decide), _, hsort true, rfl⟩

/-- **The label at the top has no address** in the unambiguous search: its dotted form is refused, and is
the first candidate of the error. -/
theorem View.top_entry_without_address :
    labelledView.WellFormed ∧ ["label"] ∈ labelledView.paths ∧
    labelledView.resolve .unambiguous (Path.toDotted ["label"]) =
      .error (.ambiguousName "label" ["label", "area.label", "part.unit.label"]) := by
  decide

end SparqlViews

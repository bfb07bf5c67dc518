import SparqlViews.Proofs.Document.Building
import SparqlViews.Proofs.Endpoint.RootVariable
import SparqlViews.Proofs.View.Names
import SparqlViews.Proofs.View.Projection

/-! # Views as they are made

A view is made by pushing entries, by building it from definitions, and by projecting another one
(`View.Made`). An entry may be given any settings before it is pushed, a name that is none included, and a view
of its own as a whole (`Entry.Made`). The names are checked when the entry is pushed and at no other place, and
that is enough: every view that can be made has legal and distinct names at every depth
(`View.Made.wellFormed`), so that each of its paths leads to one entry (`made_views_identify_entries`).

* `pushInto`: a push onto the view at hand, which is kept as it was if the entry is refused.
* `depthFirst`: every entry with its path, in the order of the paths.
* `IsSiblingList`: the view itself and the views of its entries, at every depth.
-/

namespace SparqlViews

namespace View

open Naming

variable {v w sub : View} {e : Entry} {p : Path}

/-! ### Lists of siblings -/

/-- **A list of siblings in a view**: its own entries, or a list of siblings in the view of one of them. -/
inductive IsSiblingList : View → View → Prop
  | top {v : View} : IsSiblingList v v
  | inner {v sub w : View} {e : Entry} (mem : e ∈ v.entries) (nested : e.sub = some sub)
    (below : IsSiblingList sub w) : IsSiblingList v w

theorem wellFormed_iff : ∀ {v : View}, v.WellFormed ↔
    (∀ name ∈ v.names, isShortName name = true) ∧ v.names.Nodup ∧
      ∀ e ∈ v.entries, ∀ sub, e.sub = some sub → sub.WellFormed
  | empty => by simp [WellFormed, names, entries]
  | leaf p rest => by
    rw [WellFormed, wellFormed_iff (v := rest), names, entries, List.forall_mem_cons,
      List.forall_mem_cons, List.nodup_cons]
    simp only [reduceCtorEq, false_implies, implies_true, true_and]
    constructor
    · rintro ⟨hp, hnew, hlegal, hnodup, hsub⟩
      exact ⟨⟨hp, hlegal⟩, ⟨hnew, hnodup⟩, hsub⟩
    · rintro ⟨⟨hp, hlegal⟩, ⟨hnew, hnodup⟩, hsub⟩
      exact ⟨hp, hnew, hlegal, hnodup, hsub⟩
  | nested p sub rest => by
    rw [WellFormed, wellFormed_iff (v := rest), names, entries, List.forall_mem_cons,
      List.forall_mem_cons, List.nodup_cons]
    simp only [Option.some.injEq, forall_eq']
    constructor
    · rintro ⟨hp, hnew, hown, hlegal, hnodup, hsub⟩
      exact ⟨⟨hp, hlegal⟩, ⟨hnew, hnodup⟩, hown, hsub⟩
    · rintro ⟨⟨hp, hlegal⟩, ⟨hnew, hnodup⟩, hown, hsub⟩
      exact ⟨hp, hnew, hown, hlegal, hnodup, hsub⟩

/-- **Siblings at any depth of a well-formed view** have legal and distinct names. -/
theorem WellFormed.of_isSiblingList (hv : v.WellFormed) (h : v.IsSiblingList w) :
    (∀ name ∈ w.names, isShortName name = true) ∧ w.names.Nodup := by
  induction h with
  | top => exact ⟨(wellFormed_iff.1 hv).1, (wellFormed_iff.1 hv).2.1⟩
  | inner hmem hnested _ ih => exact ih ((wellFormed_iff.1 hv).2.2 _ hmem _ hnested)

/-! ### Pushes -/

/-- **An entry pushed onto the view at hand**, after the checks of its name. -/
def pushInto (e : Entry) : EStateM ViewError View Unit := do
  if !isShortName e.name then throw (.malformed (.illegalName e.name))
  if ((← get).get? e.name).isSome then throw (.malformed (.duplicateName e.name))
  modify (·.concat e)

/-- **A push either gives a new view, or an error and the view at hand as it was.** -/
theorem run_pushInto (e : Entry) (v : View) : (pushInto e).run v =
    match v.push e with
    | .ok w => .ok () w
    | .error error => .error error v := by
  unfold push pushInto
  cases isShortName e.name with
  | false => rfl
  | true =>
    by_cases h : e.name ∈ v.names
    · simp [h]
    · simp [h]

theorem push_of_run (h : (pushInto e).run v = .ok () w) : v.push e = .ok w := by
  rw [run_pushInto] at h
  split at h
  · rename_i hpush
    cases h
    exact hpush
  · cases h

theorem run_of_push_error {error : ViewError} (h : v.push e = .error error) :
    (pushInto e).run v = .error error v := by
  rw [run_pushInto, h]

theorem eq_of_run_error {error : ViewError} (h : (pushInto e).run v = .error error w) : w = v := by
  rw [run_pushInto] at h
  split at h
  · cases h
  · cases h
    rfl

@[simp] theorem wellFormed_empty : empty.WellFormed := trivial

theorem wellFormed_of_push (hv : v.WellFormed) (he : ∀ sub, e.sub = some sub → sub.WellFormed)
    (h : v.push e = .ok w) : w.WellFormed := by
  obtain ⟨hlegal, hnew, rfl⟩ := push_eq_ok_iff.1 h
  obtain ⟨hnames, hnodup, hsubs⟩ := wellFormed_iff.1 hv
  rw [wellFormed_iff, names_concat, entries_concat]
  refine ⟨?_, ?_, ?_⟩
  · exact List.forall_mem_append.2 ⟨hnames, List.forall_mem_singleton.2 hlegal⟩
  · rw [← List.concat_eq_append, List.nodup_concat]
    exact ⟨hnew, hnodup⟩
  · exact List.forall_mem_append.2 ⟨hsubs, List.forall_mem_singleton.2 he⟩

theorem wellFormed_of_ofEntries {es : List Entry}
    (hes : ∀ e ∈ es, ∀ sub, e.sub = some sub → sub.WellFormed) (h : ofEntries es = .ok w) :
    w.WellFormed :=
  Steps.foldlM_induction (P := fun _ v => v.WellFormed) wellFormed_empty
    (fun _ e _ _ hmem hv hpush => wellFormed_of_push hv (hes e hmem) hpush) h

/-! ### Definitions -/

section Built

variable {labels : Prefixes} {place : Place}

/-- Entries that are built are pushed, so names are checked here too. -/
theorem wellFormed_of_buildFrom : ∀ {ds : List Definition} {position : ℕ} {v : View},
    (∀ d ∈ ds, ∀ place e, d.entry labels place = .ok e → ∀ sub, e.sub = some sub → sub.WellFormed) →
    v.WellFormed → buildFrom labels place position v ds = .ok w → w.WellFormed
  | [], _, v, _, hv, h => by
    rw [buildFrom] at h
    cases h
    exact hv
  | d :: ds, position, v, hsubs, hv, h => by
    obtain ⟨e, he, hlegal, hnew, hrest⟩ := buildFrom_cons_eq_ok.1 h
    have hconcat : (v.concat e).WellFormed :=
      wellFormed_of_push hv (hsubs d List.mem_cons_self _ e he) (push_eq_ok_iff.2 ⟨hlegal, hnew, rfl⟩)
    exact wellFormed_of_buildFrom (fun c hc => hsubs c (List.mem_cons_of_mem _ hc)) hconcat hrest

theorem wellFormed_of_entry (d : Definition) : ∀ place e, d.entry labels place = .ok e →
    ∀ sub, e.sub = some sub → sub.WellFormed := by
  induction d using Definition.induction with
  | step d ih =>
    rintro place ⟨p, nested⟩ h sub rfl
    obtain ⟨-, hnone⟩ | ⟨raw, below, v, hnested, hsome, hv⟩ :=
      view_eq_ok_iff.1 (entry_eq_ok_iff.1 h).2.2
    · cases hnone
    · cases hsome
      exact wellFormed_of_buildFrom (ih raw below hnested) wellFormed_empty hv

theorem wellFormed_of_buildView {ds : List Definition} (h : buildView labels place ds = .ok w) :
    w.WellFormed :=
  wellFormed_of_buildFrom (fun d _ => wellFormed_of_entry d) wellFormed_empty h

end Built

/-! ### Every entry with its path -/

/-- The entries below a path with their paths, each before those below it. -/
def depthFirstUnder (base : Path) : View → List (Path × Entry)
  | empty => []
  | leaf p rest => (base ++ [p.name], ⟨p, none⟩) :: rest.depthFirstUnder base
  | nested p sub rest =>
    (base ++ [p.name], ⟨p, some sub⟩) ::
      (sub.depthFirstUnder (base ++ [p.name]) ++ rest.depthFirstUnder base)

/-- **Every entry with its path**, in document order. -/
def depthFirst (v : View) : List (Path × Entry) := v.depthFirstUnder []

theorem map_depthFirstUnder : ∀ (v : View) (base : Path),
    (v.depthFirstUnder base).map Prod.fst = v.pathsUnder base
  | empty, _ => rfl
  | leaf p rest, base => by
    rw [depthFirstUnder, pathsUnder, List.map_cons, map_depthFirstUnder rest]
  | nested p sub rest, base => by
    rw [depthFirstUnder, pathsUnder, List.map_cons, List.map_append, map_depthFirstUnder sub,
      map_depthFirstUnder rest]

theorem perm_depthFirstUnder : ∀ (v : View) (base : Path),
    (v.depthFirstUnder base).Perm (v.levelsUnder base).flatten
  | empty, _ => .refl _
  | leaf p rest, base => by
    rw [depthFirstUnder, levelsUnder]
    refine List.Perm.trans ?_ (perm_zipLevels _ _).symm
    exact (perm_depthFirstUnder rest base).cons _
  | nested p sub rest, base => by
    rw [depthFirstUnder, levelsUnder]
    refine List.Perm.trans ?_ (perm_zipLevels _ _).symm
    rw [List.flatten_cons]
    exact ((perm_depthFirstUnder sub _).append (perm_depthFirstUnder rest base)).cons _

/-- **The entry at a path is the one that stands there.** -/
theorem mem_depthFirst_iff (hv : v.WellFormed) : (p, e) ∈ v.depthFirst ↔ v.find? p = some e := by
  rw [← mem_breadthFirst_iff hv]
  exact (perm_depthFirstUnder v []).mem_iff

theorem subtree?_of_find? (h : v.find? p = some e) : v.subtree? p = e.sub := by
  rw [subtree?, if_neg (by simpa using ne_nil_of_find? h), h, Option.bind_some]

/-! ### Views that are made -/

theorem WellFormed.of_project {keep : List Path} (hv : v.WellFormed) (h : v.project keep = .ok w) :
    w.WellFormed := by
  obtain ⟨-, rfl⟩ := (project_eq_ok_iff hv).1 h
  exact hv.projectUnder keep []

mutual

/-- **The views that can be made.** Pushes act on the view at hand or give a new one; a view may be taken from
an entry. -/
inductive Made : View → Prop
  | new : Made .empty
  | pushed {v w : View} {e : Entry} (hv : Made v) (he : MadeEntry e) (h : (pushInto e).run v = .ok () w) :
    Made w
  | refused {v w : View} {e : Entry} {error : ViewError} (hv : Made v) (he : MadeEntry e)
    (h : (pushInto e).run v = .error error w) : Made w
  | withEntry {v w : View} {e : Entry} (hv : Made v) (he : MadeEntry e) (h : v.push e = .ok w) : Made w
  | ofEntries {es : List Entry} {w : View} (hes : ∀ e ∈ es, MadeEntry e) (h : ofEntries es = .ok w) :
    Made w
  | projected {v w : View} {keep : List Path} (hv : Made v) (h : v.project keep = .ok w) : Made w
  | built {labels : Prefixes} {place : Place} {ds : List Definition} {w : View}
    (h : buildView labels place ds = .ok w) : Made w
  | taken {e : Entry} {w : View} (he : MadeEntry e) (h : e.sub = some w) : Made w

/-- **The entries that can be made.** The name is checked at the start, but then all settings can be
overwritten. -/
inductive MadeEntry : Entry → Prop
  | new {name iri : String} {p : Property} (h : Property.make name iri = .ok p) : MadeEntry ⟨p, none⟩
  | overwritten {p q : Property} {sub : Option View} (he : MadeEntry ⟨p, sub⟩) : MadeEntry ⟨q, sub⟩
  | withNested {p : Property} {sub : Option View} {v : View} (he : MadeEntry ⟨p, sub⟩) (hv : Made v) :
    MadeEntry ⟨p, some v⟩
  | withoutNested {p : Property} {sub : Option View} (he : MadeEntry ⟨p, sub⟩) : MadeEntry ⟨p, none⟩
  | copied {v : View} {e : Entry} (hv : Made v) (mem : e ∈ v.entries) : MadeEntry e

end

mutual

theorem Made.wellFormed : ∀ {v : View}, Made v → v.WellFormed
  | _, .new => wellFormed_empty
  | _, .pushed hv he h => wellFormed_of_push hv.wellFormed he.wellFormed (push_of_run h)
  | _, .refused hv _ h => (eq_of_run_error h).symm ▸ hv.wellFormed
  | _, .withEntry hv he h => wellFormed_of_push hv.wellFormed he.wellFormed h
  | _, .ofEntries hes h => wellFormed_of_ofEntries (fun e he => (hes e he).wellFormed) h
  | _, .projected hv h => hv.wellFormed.of_project h
  | _, .built h => wellFormed_of_buildView h
  | _, .taken he h => he.wellFormed _ h

/-- The view of an entry that can be made is well-formed, whatever became of the name of the entry. -/
theorem MadeEntry.wellFormed : ∀ {e : Entry}, MadeEntry e → ∀ sub, e.sub = some sub → sub.WellFormed
  | _, .new _ => fun _ hsub => nomatch hsub
  | _, .overwritten he => he.wellFormed
  | _, .withNested _ hv => fun _ hsub => Option.some.inj hsub ▸ hv.wellFormed
  | _, .withoutNested _ => fun _ hsub => nomatch hsub
  | _, .copied hv mem => (wellFormed_iff.1 hv.wellFormed).2.2 _ mem

end

/-- **Every view that can be made identifies its entries by their paths.** Whatever was pushed, the names of
siblings are legal and distinct at every depth, and a refused push leaves the view as it was. The paths
are distinct; an entry is found at each path of the view, and at no other, and it is the one that stands there;
it has the last name of the path, and the view below it is its own one. And each path is read back from its
dotted form. -/
theorem made_views_identify_entries (h : Made v) :
    (v.WellFormed ∧
      (∀ w, v.IsSiblingList w → (∀ name ∈ w.names, isShortName name = true) ∧ w.names.Nodup) ∧
      ∀ e error w, (pushInto e).run v = .error error w → w = v) ∧
    (v.paths.Nodup ∧ v.depthFirst.map Prod.fst = v.paths) ∧
    ((∀ p, (v.find? p).isSome ↔ p ∈ v.paths) ∧ ∀ p e, v.find? p = some e ↔ (p, e) ∈ v.depthFirst) ∧
    (∀ p e, v.find? p = some e → p.getLast? = some e.name ∧ v.subtree? p = e.sub) ∧
    (v.subtree? [] = some v ∧ ∀ p, p ≠ [] → p ∉ v.paths → v.subtree? p = none) ∧
    ∀ p ∈ v.paths, Path.ofDotted p.toDotted = p := by
  have hv := h.wellFormed
  refine ⟨⟨hv, fun w hw => hv.of_isSiblingList hw, fun e error w => eq_of_run_error⟩,
    ⟨nodup_paths hv, map_depthFirstUnder v []⟩,
    ⟨fun p => (mem_paths_iff hv).symm, fun p e => (mem_depthFirst_iff hv).symm⟩,
    fun p e he => ⟨getLast?_of_find? he, subtree?_of_find? he⟩, ⟨rfl, fun p hne hp => ?_⟩,
    fun p hp => Path.ofDotted_toDotted (legal_of_mem_paths hv hp)⟩
  · rw [mem_paths_iff hv, Bool.not_eq_true, Option.isSome_eq_false_iff, Option.isNone_iff_eq_none] at hp
    rw [subtree?, if_neg (by simpa using hne), hp, Option.bind_none]

/-- A home with a city in its address, and the name of who lives there. -/
def homeView : View :=
  .nested { name := "address", iri := "http://e/address" }
    (.leaf { name := "city", iri := "http://e/city" } .empty)
    (.leaf { name := "name", iri := "http://e/name" } .empty)

/-- A home whose entries had other names when they were made; one that was given an illegal name and one that
was given the name of another are refused. -/
theorem made_views_identify_entries_of_home :
    let name : Property := { name := "name", iri := "http://e/name" }
    let city : Entry := ⟨{ name := "city", iri := "http://e/city" }, none⟩
    homeView.Made ∧ MadeEntry ⟨{ name with name := "2nd" }, none⟩ ∧
    (pushInto ⟨{ name with name := "2nd" }, none⟩).run homeView =
      .error (.malformed (.illegalName "2nd")) homeView ∧
    (pushInto ⟨{ name with name := "address" }, none⟩).run homeView =
      .error (.malformed (.duplicateName "address")) homeView ∧
    homeView.WellFormed ∧ homeView.paths.Nodup ∧
    (["address", "city"], city) ∈ homeView.depthFirst ∧
    homeView.subtree? ["address"] = some (.leaf city.property .empty) ∧
    homeView.subtree? ["city"] = none ∧ Path.ofDotted "address.city" = ["address", "city"] := by
  intro name city
  have hmake : Property.make "name" "http://e/name" = .ok name := by rfl
  have hname : MadeEntry ⟨name, none⟩ := .new hmake
  have hcity : MadeEntry city := hname.overwritten
  have hinner : Made (.leaf city.property .empty) :=
    .withEntry .new hcity (push_eq_ok_iff.2 ⟨by decide, by decide, rfl⟩)
  have haddress : MadeEntry ⟨{ name := "address", iri := "http://e/address" },
      some (.leaf city.property .empty)⟩ := hcity.overwritten.withNested hinner
  have hhome : homeView.Made :=
    .ofEntries (List.forall_mem_cons.2 ⟨haddress, List.forall_mem_singleton.2 hname⟩) (by decide)
  obtain ⟨⟨hv, -, -⟩, ⟨hnodup, -⟩, ⟨-, hfind⟩, hfound, ⟨-, hnone⟩, hdotted⟩ :=
    made_views_identify_entries hhome
  refine ⟨hhome, hname.overwritten, run_of_push_error (by decide), run_of_push_error (by decide), hv, hnodup,
    (hfind ["address", "city"] city).1 (by decide), ?_, ?_, ?_⟩
  · exact (hfound ["address"] _ (by rfl)).2
  · exact hnone _ (by decide) (by decide)
  · exact hdotted ["address", "city"] (by decide)

end View

end SparqlViews

import Mathlib.Data.List.Forall2
import SparqlViews.Proofs.Steps
import SparqlViews.Proofs.Table
import SparqlViews.Result.Document

/-! # The rows of a result set

A text that is a result set writes the variables of a head and one object for each solution, with its
terms under names (`Writes`). If every term is of a known kind, there is one row for each object, which
has its names and terms in an order of its own (`IsRowOf`); otherwise there is no row at all. In which
order an object writes its terms does not matter, as long as their names are distinct.

* `WrittenTerm.Denotes`: the term that is written, of a known kind.
* `ResultSet.read_eq`: a result set is read as it is written, but for the order within an object.
* `row_eq`: the terms of a row are those of the ordered solution, each converted for itself.
* `results_are_read_losslessly`: the main result.
-/

namespace SparqlViews

/-! ### Terms -/

namespace WrittenTerm

variable {w : WrittenTerm} {t : Term}

/-- The kind of a literal. -/
def IsLiteral (w : WrittenTerm) : Prop := w.kind = "literal" ∨ w.kind = "typed-literal"

/-- **A kind that is known.** -/
def IsKnown (w : WrittenTerm) : Prop := w.kind = "uri" ∨ w.kind = "bnode" ∨ w.IsLiteral

instance : Decidable w.IsLiteral := inferInstanceAs (Decidable (_ ∨ _))

instance : Decidable w.IsKnown := inferInstanceAs (Decidable (_ ∨ _ ∨ _))

/-- **The term that is written.** A literal with a language is in it, in lower case, whatever its
datatype is; one without is of its datatype, unless that is the datatype string; and any other literal
is plain. -/
inductive Denotes (w : WrittenTerm) : Term → Prop
  | iri (kind : w.kind = "uri") : Denotes w (.iri w.value)
  | blank (kind : w.kind = "bnode") : Denotes w (.blank w.value)
  | inLanguage {tag : String} (kind : w.IsLiteral) (language : w.language = some tag) :
    Denotes w (.literal w.value (.language (Text.lower tag)))
  | ofDatatype {datatype : String} (kind : w.IsLiteral) (language : w.language = none)
    (given : w.datatype = some datatype) (proper : datatype ≠ xsdString) :
    Denotes w (.literal w.value (.datatype datatype))
  | plain (kind : w.IsLiteral) (language : w.language = none)
    (datatype : ∀ d ∈ w.datatype, d = xsdString) : Denotes w (.literal w.value .plain)

theorem toTerm?_eq_none_iff : w.toTerm? = none ↔ ¬ w.IsKnown := by
  rw [toTerm?, IsKnown, IsLiteral]
  split
  · simp_all
  · split
    · simp_all
    · split
      · split <;> simp_all
      · simp_all

theorem denotes_ofDatatype {datatype : String} (hkind : w.IsLiteral) (hlanguage : w.language = none)
    (hdatatype : w.datatype = some datatype) : w.Denotes (.ofDatatype w.value datatype) := by
  unfold Term.ofDatatype
  split
  · rename_i hstring
    exact .plain hkind hlanguage fun d hd => Option.some.inj (hdatatype.symm.trans hd) ▸ hstring
  · rename_i hproper
    exact .ofDatatype hkind hlanguage hdatatype hproper

theorem denotes_of_toTerm? (h : w.toTerm? = some t) : w.Denotes t := by
  unfold toTerm? at h
  split at h
  · rename_i hkind
    exact Option.some.inj h ▸ .iri hkind
  split at h
  · rename_i hkind
    exact Option.some.inj h ▸ .blank hkind
  split at h
  · rename_i hkind
    split at h
    · rename_i hlanguage
      exact Option.some.inj h ▸ .inLanguage hkind hlanguage
    · rename_i hlanguage hdatatype
      exact Option.some.inj h ▸ denotes_ofDatatype hkind hlanguage hdatatype
    · rename_i hlanguage hdatatype
      refine Option.some.inj h ▸ .plain hkind hlanguage fun d hd => ?_
      rw [hdatatype] at hd
      cases hd
  · cases h

theorem Denotes.isKnown (h : w.Denotes t) : w.IsKnown := by
  cases h with
  | iri kind => exact .inl kind
  | blank kind => exact .inr (.inl kind)
  | inLanguage kind => exact .inr (.inr kind)
  | ofDatatype kind => exact .inr (.inr kind)
  | plain kind => exact .inr (.inr kind)

theorem Denotes.unique {s : Term} (h : w.Denotes s) (h' : w.Denotes t) : s = t := by
  cases h <;> cases h' <;> simp_all [IsLiteral]

theorem toTerm?_eq_some_iff : w.toTerm? = some t ↔ w.Denotes t := by
  refine ⟨denotes_of_toTerm?, fun h => ?_⟩
  cases hterm : w.toTerm? with
  | none => exact absurd h.isKnown (toTerm?_eq_none_iff.1 hterm)
  | some s => rw [(denotes_of_toTerm? hterm).unique h]

end WrittenTerm

namespace ResultSet

variable {vars : List String} {position : ℕ} {solution : Table WrittenTerm} {name : String}
  {w : WrittenTerm} {row : Row} {error : SourceError} {object : List (String × WrittenTerm)}

/-! ### The order of a row -/

/-- **A name stands in front of another one**: the head lists it, and the other one later or not at
all; or the head lists neither of them, and it is the smaller one. -/
def Precedes (vars : List String) (a b : String) : Prop :=
  vars.idxOf a < vars.idxOf b ∨ a ∉ vars ∧ b ∉ vars ∧ a < b

@[simp] theorem not_precedes_self (vars : List String) (a : String) : ¬ Precedes vars a a := by
  rintro (h | ⟨-, -, h⟩)
  · exact lt_irrefl _ h
  · exact lt_irrefl _ h

theorem pairwise_ordered (vars : List String) (position : ℕ) (solution : Table WrittenTerm) :
    ((ordered vars position solution).map (·.1)).Pairwise (Precedes vars) := by
  rw [List.pairwise_map, ordered, List.pairwise_append]
  refine ⟨?_, ?_, ?_⟩
  · rw [List.pairwise_filterMap]
    refine (pairwise_eraseDups vars).imp fun hlt x hx y hy => .inl ?_
    obtain ⟨_, -, rfl⟩ := Option.map_eq_some_iff.1 hx
    obtain ⟨_, -, rfl⟩ := Option.map_eq_some_iff.1 hy
    exact hlt
  · rw [List.pairwise_map]
    refine (solution.ascending.filter _).imp_of_mem fun hx hy hlt => .inr ⟨?_, ?_, hlt⟩
    · simpa using (List.mem_filter.1 hx).2
    · simpa using (List.mem_filter.1 hy).2
  · -- a listed name comes before its end in the head, where one that is not listed would stand
    intro x hx y hy
    obtain ⟨a, ha, hx⟩ := List.mem_filterMap.1 hx
    obtain ⟨_, -, rfl⟩ := Option.map_eq_some_iff.1 hx
    obtain ⟨e, he, rfl⟩ := List.mem_map.1 hy
    have hlisted : a ∈ vars := List.mem_eraseDups.1 ha
    have hother : e.1 ∉ vars := by simpa using (List.mem_filter.1 he).2
    exact .inl (List.idxOf_eq_length_iff.2 hother ▸ List.idxOf_lt_length_iff.2 hlisted)

theorem nodup_of_pairwise {names : List String} (h : names.Pairwise (Precedes vars)) : names.Nodup :=
  h.imp fun hlt heq => by
    rw [heq] at hlt
    exact not_precedes_self _ _ hlt

theorem exists_mem_ordered_iff (vars : List String) (position : ℕ) :
    (∃ place, (name, w, place) ∈ ordered vars position solution) ↔ (name, w) ∈ solution.entries := by
  simp only [ordered, List.mem_append, List.mem_filterMap, List.mem_map, List.mem_filter]
  constructor
  · rintro ⟨place, ⟨a, -, ha⟩ | ⟨e, ⟨he, -⟩, heq⟩⟩
    · obtain ⟨t, ht, heq⟩ := Option.map_eq_some_iff.1 ha
      cases heq
      exact Table.mem_entries_of_get? ht
    · cases heq
      exact he
  · intro h
    by_cases hlisted : name ∈ vars
    · refine ⟨some position, .inl ⟨name, List.mem_eraseDups.2 hlisted, ?_⟩⟩
      rw [Table.get?_eq_some_iff.2 h, Option.map_some]
    · exact ⟨none, .inr ⟨(name, w), ⟨h, by simpa using hlisted⟩, rfl⟩⟩

/-! ### One row -/

/-- A name with the term under it. -/
def binding (e : String × WrittenTerm × Option ℕ) : Except SourceError (String × Term) :=
  match e.2.1.toTerm? with
  | some t => .ok (e.1, t)
  | none => .error (.unknownKind e.2.1.kind e.2.2)

theorem binding_eq_ok_iff {e : String × WrittenTerm × Option ℕ} {b : String × Term} :
    binding e = .ok b ↔ b.1 = e.1 ∧ e.2.1.Denotes b.2 := by
  rw [binding, ← WrittenTerm.toTerm?_eq_some_iff]
  cases e.2.1.toTerm? with
  | none => simp
  | some t => simp [Prod.ext_iff, eq_comm]

theorem binding_eq_error_iff {e : String × WrittenTerm × Option ℕ} :
    binding e = .error error ↔ ¬ e.2.1.IsKnown ∧ error = .unknownKind e.2.1.kind e.2.2 := by
  rw [binding, ← WrittenTerm.toTerm?_eq_none_iff]
  cases e.2.1.toTerm? with
  | none => simp [eq_comm]
  | some t => simp

theorem map_fst_of_mapM : ∀ {l : List (String × WrittenTerm × Option ℕ)} {bs : List (String × Term)},
    l.mapM binding = .ok bs → bs.map (·.1) = l.map (·.1)
  | [], _, h => by
    cases h
    rfl
  | e :: l, _, h => by
    obtain ⟨b, more, hb, hmore, rfl⟩ := Steps.mapM_cons_eq_ok.1 h
    rw [List.map_cons, List.map_cons, (binding_eq_ok_iff.1 hb).1, map_fst_of_mapM hmore]

theorem insertInto_of_not_mem {t : Term} : ∀ {bindings : List (String × Term)},
    name ∉ bindings.map Prod.fst → Row.insertInto name t bindings = bindings ++ [(name, t)]
  | [], _ => rfl
  | b :: rest, h => by
    rw [List.map_cons, List.mem_cons, not_or] at h
    rw [Row.insertInto, if_neg (Ne.symm h.1), insertInto_of_not_mem h.2, List.cons_append]

theorem foldlM_insert : ∀ {l : List (String × WrittenTerm × Option ℕ)} {r : Row},
    (r.bindings.map Prod.fst ++ l.map (·.1)).Nodup →
    l.foldlM (fun r (name, written, position) =>
        match written.toTerm? with
        | some term => .ok (r.insert name term)
        | none => .error (.unknownKind written.kind position)) r =
      (l.mapM binding).map fun bindings => ⟨r.bindings ++ bindings⟩
  | [], r, _ => by
    rw [List.foldlM_nil, List.mapM_nil]
    simp [pure, Except.pure, Except.map]
  | (name, w, place) :: l, r, h => by
    rw [List.foldlM_cons, List.mapM_cons, binding]
    dsimp only
    cases hterm : w.toTerm? with
    | none => rfl
    | some t =>
      have hnew : name ∉ r.bindings.map Prod.fst := fun hmem =>
        (List.nodup_append.1 h).2.2 _ hmem _ List.mem_cons_self rfl
      have hinsert : (r.insert name t).bindings = r.bindings ++ [(name, t)] := insertInto_of_not_mem hnew
      have hrest : ((r.insert name t).bindings.map Prod.fst ++ l.map (·.1)).Nodup := by
        rw [hinsert, List.map_append, List.append_assoc]
        exact h
      refine (foldlM_insert hrest).trans ?_
      rw [hinsert]
      cases l.mapM binding with
      | error e => rfl
      | ok bindings => simp [Except.map, bind, Except.bind, pure, Except.pure]

/-- **The row of a solution** has its ordered terms, each converted for itself. -/
theorem row_eq (vars : List String) (position : ℕ) (solution : Table WrittenTerm) :
    ResultSet.row vars position solution =
      ((ordered vars position solution).mapM binding).map fun bindings => ⟨bindings⟩ :=
  foldlM_insert (nodup_of_pairwise (pairwise_ordered vars position solution))

/-- **A row is that of an object**: it binds the names of the object, each once, to the terms that are
written under them, in the order of the head and then in ascending order. -/
structure IsRowOf (vars : List String) (object : List (String × WrittenTerm)) (row : Row) : Prop where
  nodup : (row.bindings.map (·.1)).Nodup
  mem_iff : ∀ name t, (name, t) ∈ row.bindings ↔ ∃ w, (name, w) ∈ object ∧ w.Denotes t
  ordered : (row.bindings.map (·.1)).Pairwise (Precedes vars)

theorem isRowOf_of_row_eq (hobject : ∀ e, e ∈ solution.entries ↔ e ∈ object)
    (h : ResultSet.row vars position solution = .ok row) : IsRowOf vars object row := by
  rw [row_eq] at h
  obtain ⟨bindings, hbindings, rfl⟩ := Steps.map_eq_ok.1 h
  have hpairwise : (bindings.map (·.1)).Pairwise (Precedes vars) := by
    rw [map_fst_of_mapM hbindings]
    exact pairwise_ordered vars position solution
  refine ⟨nodup_of_pairwise hpairwise, fun name t => ⟨fun hmem => ?_, ?_⟩, hpairwise⟩
  · obtain ⟨⟨_, w, place⟩, he, hb⟩ := Steps.mem_of_mapM hbindings hmem
    obtain ⟨rfl, hdenotes⟩ := binding_eq_ok_iff.1 hb
    exact ⟨w, (hobject _).1 ((exists_mem_ordered_iff _ _).1 ⟨place, he⟩), hdenotes⟩
  · rintro ⟨w, hw, hdenotes⟩
    obtain ⟨place, he⟩ := (exists_mem_ordered_iff vars position).2
      ((hobject _).2 hw)
    obtain ⟨⟨_, s⟩, hmem, hb⟩ := Steps.exists_mem_of_mapM hbindings he
    obtain ⟨rfl, hs⟩ := binding_eq_ok_iff.1 hb
    exact hs.unique hdenotes ▸ hmem

theorem exists_row (vars : List String) (position : ℕ)
    (hknown : ∀ e ∈ solution.entries, e.2.IsKnown) :
    ∃ row, ResultSet.row vars position solution = .ok row := by
  rw [row_eq]
  have hbound : ∃ bindings, (ordered vars position solution).mapM binding = .ok bindings :=
    Steps.exists_mapM fun ⟨name, w, place⟩ he => by
      have hw := hknown _ ((exists_mem_ordered_iff _ _).1 ⟨place, he⟩)
      cases hb : binding (name, w, place) with
      | ok b => exact ⟨b, rfl⟩
      | error e => exact absurd hw (binding_eq_error_iff.1 hb).1
  obtain ⟨bindings, hbindings⟩ := hbound
  exact ⟨⟨bindings⟩, Steps.map_eq_ok.2 ⟨bindings, hbindings, rfl⟩⟩

theorem isKnown_of_row_eq (h : ResultSet.row vars position solution = .ok row)
    (hw : (name, w) ∈ solution.entries) : w.IsKnown := by
  rw [row_eq] at h
  obtain ⟨bindings, hbindings, -⟩ := Steps.map_eq_ok.1 h
  obtain ⟨place, he⟩ := (exists_mem_ordered_iff vars position).2 hw
  obtain ⟨b, -, hb⟩ := Steps.exists_mem_of_mapM hbindings he
  exact (binding_eq_ok_iff.1 hb).2.isKnown

theorem exists_of_row_eq_error (h : ResultSet.row vars position solution = .error error) :
    ∃ e ∈ solution.entries, ¬ e.2.IsKnown ∧ ∃ place, error = .unknownKind e.2.kind place := by
  rw [row_eq] at h
  obtain ⟨⟨name, w, place⟩, he, hb⟩ := Steps.mapM_error (Steps.map_eq_error.1 h)
  obtain ⟨hunknown, rfl⟩ := binding_eq_error_iff.1 hb
  exact ⟨(name, w), (exists_mem_ordered_iff _ _).1 ⟨place, he⟩, hunknown, place, rfl⟩

/-! ### All rows -/

/-- The result set of a head and objects. -/
def ofObjects (vars : List String) (objects : List (List (String × WrittenTerm))) : ResultSet :=
  ⟨vars, objects.map Table.ofList⟩

variable {objects : List (List (String × WrittenTerm))} {rows : List Row}

theorem mem_entries_ofList (h : (object.map Prod.fst).Nodup) (e : String × WrittenTerm) :
    e ∈ (Table.ofList object).entries ↔ e ∈ object :=
  (Table.perm_entries_ofList h).mem_iff

/-- **There is one row for each object**, in their order. -/
theorem forall₂_rows (hdistinct : ∀ object ∈ objects, (object.map Prod.fst).Nodup)
    (h : (ofObjects vars objects).rows = .ok rows) : List.Forall₂ (IsRowOf vars) objects rows := by
  have hrows := Steps.forall₂_of_mapM h
  have hsolutions : List.Forall₂ (fun solution row =>
      ∃ position, ResultSet.row vars position solution = .ok row) (objects.map Table.ofList) rows := by
    rw [← List.zipIdx_map_fst 0 (objects.map Table.ofList), List.forall₂_map_left_iff]
    exact hrows.imp fun e row hrow => ⟨e.2, hrow⟩
  refine ((List.forall₂_and_left _ _).2 ⟨hdistinct, List.forall₂_map_left_iff.1 hsolutions⟩).imp ?_
  rintro object row ⟨hobject, position, hrow⟩
  exact isRowOf_of_row_eq (mem_entries_ofList hobject) hrow

theorem exists_rows (vars : List String)
    (hdistinct : ∀ object ∈ objects, (object.map Prod.fst).Nodup)
    (hknown : ∀ object ∈ objects, ∀ e ∈ object, e.2.IsKnown) :
    ∃ rows, (ofObjects vars objects).rows = .ok rows := by
  refine Steps.exists_mapM fun ⟨solution, position⟩ hmem => ?_
  obtain ⟨object, hobject, rfl⟩ := List.mem_map.1 (List.fst_mem_of_mem_zipIdx hmem)
  refine exists_row vars position fun e he => hknown object hobject e ?_
  exact (mem_entries_ofList (hdistinct object hobject) e).1 he

/-- **A term of an unknown kind spoils all rows.** The error names the kind of such a term. -/
theorem exists_unknownKind (vars : List String)
    (hdistinct : ∀ object ∈ objects, (object.map Prod.fst).Nodup)
    (hunknown : ∃ object ∈ objects, ∃ e ∈ object, ¬ e.2.IsKnown) :
    ∃ object ∈ objects, ∃ e ∈ object, ¬ e.2.IsKnown ∧
      ∃ place, (ofObjects vars objects).rows = .error (.unknownKind e.2.kind place) := by
  cases hrows : (ofObjects vars objects).rows with
  | ok rows =>
    obtain ⟨object, hobject, ⟨name, w⟩, he, hkind⟩ := hunknown
    have hmem : Table.ofList object ∈ ((objects.map Table.ofList).zipIdx 0).map Prod.fst := by
      rw [List.zipIdx_map_fst]
      exact List.mem_map_of_mem hobject
    obtain ⟨⟨_, position⟩, hsolution, rfl⟩ := List.mem_map.1 hmem
    obtain ⟨row, -, hrow⟩ := Steps.exists_mem_of_mapM hrows hsolution
    exact absurd (isKnown_of_row_eq hrow ((mem_entries_ofList (hdistinct object hobject) _).2 he)) hkind
  | error error =>
    obtain ⟨⟨solution, position⟩, hmem, hrow⟩ := Steps.mapM_error hrows
    obtain ⟨object, hobject, rfl⟩ := List.mem_map.1 (List.fst_mem_of_mem_zipIdx hmem)
    obtain ⟨e, he, hkind, place, rfl⟩ := exists_of_row_eq_error hrow
    exact ⟨object, hobject, e, (mem_entries_ofList (hdistinct object hobject) e).1 he, hkind, place, rfl⟩

theorem ofObjects_congr {objects' : List (List (String × WrittenTerm))}
    (hdistinct : ∀ object ∈ objects, (object.map Prod.fst).Nodup)
    (hperm : List.Forall₂ List.Perm objects objects') :
    ofObjects vars objects = ofObjects vars objects' := by
  unfold ofObjects
  congr 1
  induction hperm with
  | nil => rfl
  | cons hobject _ ih =>
    rw [List.map_cons, List.map_cons, Table.ofList_congr (hdistinct _ List.mem_cons_self) hobject,
      ih fun object h => hdistinct object (List.mem_cons_of_mem _ h)]

/-! ### What a text writes -/

/-- The objects of the results, each with its terms in the order in which it writes them. -/
def readObjects (results : Part) : Reading (List (List (String × WrittenTerm))) := do
  Part.slot (← results.slots [("bindings", [])] false) "bindings"
    (Part.listOf (Part.named WrittenTerm.read))

/-- The variables of the head and the objects of the results. -/
def readWritten (p : Part) : Reading (List String × List (List (String × WrittenTerm))) := do
  let slots ← p.slots [("head", []), ("results", [])] false
  return (← Part.slot slots "head" readVars, ← Part.slot slots "results" readObjects)

/-- **The text writes a head and objects.** -/
def Writes (text : String) (vars : List String) (objects : List (List (String × WrittenTerm))) : Prop :=
  ((Json.read? text).bind fun source => source.read? readWritten) = some (vars, objects)

theorem mapM_map {α β γ : Type} (f : α → Reading β) (g : β → γ) (l : List α) :
    l.mapM (fun a => g <$> f a) = List.map g <$> l.mapM f := by
  induction l with
  | nil => simp
  | cons a l ih => simp [ih]

theorem readSolutions_eq (results : Part) :
    readSolutions results = List.map Table.ofList <$> readObjects results := by
  have hsolution : readSolution = fun p => Table.ofList <$> p.named WrittenTerm.read := by
    funext p
    simp [readSolution]
  simp only [readSolutions, readObjects, Part.slot, Part.listOf, hsolution, mapM_map, map_bind]

/-- **A result set is read as it is written**, but for the order within an object. -/
theorem read_eq : read = fun p => (fun w => ofObjects w.1 w.2) <$> readWritten p := by
  funext p
  have hresults : readSolutions = fun p => List.map Table.ofList <$> readObjects p :=
    funext readSolutions_eq
  simp [read, readWritten, Part.slot, hresults, ofObjects]

theorem read?_map {α β : Type} (s : Source) (r : Part → Reading α) (g : α → β) :
    s.read? (fun p => g <$> r p) = (s.read? r).map g := by
  simp [Source.read?, Function.comp_def]

theorem source_of_writes {text : String} (h : Writes text vars objects) :
    source text = (ofObjects vars objects).rows.map RowSource.ofRows := by
  obtain ⟨s, hs, hw⟩ := Option.bind_eq_some_iff.1 h
  have hread : s.read? read = some (ofObjects vars objects) := by
    rw [read_eq, read?_map, hw, Option.map_some]
  rw [source, hs, Option.bind_some, hread]

/-! ### The whole result set -/

/-- A result set of one solution, whose terms are given as it writes them. -/
def solutionText (terms : String) : String :=
  "\x7b\"head\":\x7b\"vars\":[\"b\",\"b\"]\x7d,\"results\":\x7b\"bindings\":[\x7b" ++ terms ++ "\x7d]\x7d\x7d"

end ResultSet

end SparqlViews

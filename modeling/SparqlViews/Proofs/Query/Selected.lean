import SparqlViews.Proofs.Query.ConditionLines
import SparqlViews.Proofs.View.Columns

/-! # What a query selects

A query selects the variables of its view, in the order in which a stream reads them, then the further
ones that were asked for, and with an inner select the values to sort by. With an inner select the first
line is written after everything else, so that it is as it should be for every shape
(`Nested.selects_of_render`).

A flat query is its template with the markers replaced line by line, the first line and the group of the
pattern (`Flat.place_template`), and bound variables are replaced from the first opening brace on. Neither
stops at the end of the first line: a constant that has a marker or a brace in it takes part in both
(`header_rewritten_in_constant`). If no selected item has one, the first line stays as the template has it
(`Flat.selects_of_render`).

* `query_selects_columns`: the variables of the view, its pattern, its queries and its streams.
-/

namespace SparqlViews

/-! ### The first line -/

namespace Clause

/-- The start of the first line: the keyword and the items that are selected. -/
def header (distinct : Bool) (items : List (List Char)) : List Char :=
  selectKeyword distinct ++ spaced items

/-- **The query selects exactly these items**, in their order. -/
def Selects (distinct : Bool) (items : List (List Char)) (text : List Char) : Prop :=
  header distinct items ++ "\nWHERE \x7b".toList <+: text

instance (distinct : Bool) (items : List (List Char)) (text : List Char) :
    Decidable (Selects distinct items text) :=
  inferInstanceAs (Decidable (_ <+: _))

theorem mem_spaced_iff {c : Char} (hc : c ≠ ' ') {items : List (List Char)} :
    c ∈ spaced items ↔ ∃ item ∈ items, c ∈ item := by
  unfold spaced
  induction items with
  | nil => simp
  | cons item items ih =>
    cases items with
    | nil => simp
    | cons next items =>
      rw [List.intercalate_cons_cons, List.mem_append, List.mem_append, List.mem_singleton, ih,
        or_iff_left hc]
      exact (List.exists_mem_cons_iff (fun i => c ∈ i) item (next :: items)).symm

end Clause

/-! ### Queries with an inner select -/

namespace Nested

variable {v : View} {shape : Shape} {root : String} {text : List Char}

/-- What the query selects: the variables of the view, further ones, and the values to sort by. -/
def items (v : View) (shape : Shape) (root : String) : List (List Char) :=
  (Clause.selected (v.vars root) shape.projection).map (outerItem shape root) ++
    (sortColumns shape root).map fun c => Element.variableText c.carrier

theorem selects_of_render (h : render v shape root = .ok text) :
    Clause.Selects shape.distinct (items v shape root) text := by
  obtain ⟨inner, -, h⟩ := Steps.bind_eq_ok.1 h
  obtain ⟨rest, hrest⟩ : ∃ rest, text = Clause.selectKeyword shape.distinct ++ Clause.spaced
      ((Clause.selected (Pattern.compile .full root v).vars shape.projection).map
        (outerItem shape root) ++
          (sortColumns shape root).map fun c => Element.variableText c.carrier) ++
      ("\nWHERE \x7b".toList ++ rest) :=
    ⟨_, by rw [← Except.ok.inj h]; simp only [List.append_assoc]; rfl⟩
  rw [Pattern.vars_compile, ← List.append_assoc] at hrest
  exact ⟨rest, hrest.symm⟩

end Nested

/-! ### Flat queries -/

namespace Flat

open Text (Whole)
open Substitution (substituteBody)

variable {v : View} {shape : Shape} {root : String} {given : Marker → List (List Char)}
  {markers : List Marker} {m : Marker} {s t text : List Char}

/-- **A selected item that has no part in replacements**: it has no opening brace and no marker. -/
structure Lasts (item : List Char) : Prop where
  brace : '\x7b' ∉ item
  markers : ∀ m : Marker, m.isIn item = false

instance (item : List Char) : Decidable (Lasts item) :=
  decidable_of_iff ('\x7b' ∉ item ∧ ∀ m ∈ markersInTurn, m.isIn item = false)
    ⟨fun h => ⟨h.1, fun m => h.2 m (by cases m <;> decide)⟩, fun h => ⟨h.1, fun m _ => h.2 m⟩⟩

theorem place_append (hs : Whole s) (t : List Char) :
    place given markers (s ++ t) = place given markers s ++ place given markers t := by
  induction markers generalizing s t with
  | nil => rfl
  | cons m markers ih =>
    rw [place_cons, fill_append hs, ih (whole_fill (given m) hs), place_cons, place_cons]

theorem place_of_not_isIn (hm : ∀ m ∈ markers, m.isIn s = false) : place given markers s = s := by
  induction markers with
  | nil => rfl
  | cons m markers ih =>
    rw [place_cons, fill_of_not_isIn (given m) (hm m List.mem_cons_self),
      ih fun k hk => hm k (List.mem_cons_of_mem _ hk)]

theorem substituteBody_append_brace (bindings : Substitution.Bindings) (hs : '\x7b' ∉ s)
    (t : List Char) :
    substituteBody bindings (s ++ '\x7b' :: t) =
      s ++ '\x7b' :: Substitution.substitute bindings t := by
  have hfront : ∀ c ∈ s, decide (c ≠ '\x7b') = true := fun c hc =>
    decide_eq_true fun h => hs (h ▸ hc)
  rw [substituteBody, List.takeWhile_append_of_pos hfront,
    List.takeWhile_cons_of_neg (by decide), List.append_nil, List.dropWhile_append_of_pos hfront,
    List.dropWhile_cons_of_neg (by decide)]
  rfl

theorem not_isIn_header {distinct : Bool} {items : List (List Char)}
    (h : ∀ item ∈ items, m.isIn item = false) : m.isIn (Clause.header distinct items) = false := by
  have hp := Clause.foreign_marker m
  rw [Bool.eq_false_iff, ne_eq, Marker.isIn_iff]
  refine hp.not_infix_append (by cases distinct <;> decide) ?_
  refine hp.not_infix_intercalate (by decide) (by simp) fun item hitem => ?_
  rw [← Marker.isIn_iff, h item hitem]
  decide

theorem brace_mem_header {distinct : Bool} {items : List (List Char)} :
    '\x7b' ∈ Clause.header distinct items ↔ ∃ item ∈ items, '\x7b' ∈ item := by
  rw [Clause.header, List.mem_append, Clause.mem_spaced_iff (by decide)]
  exact or_iff_right (by cases distinct <;> decide)

/-- **The first line has a brace or a marker only in its items.** -/
theorem Lasts.header {distinct : Bool} {items : List (List Char)} (h : ∀ item ∈ items, Lasts item) :
    Lasts (Clause.header distinct items) where
  brace hmem := by
    obtain ⟨item, hitem, hbrace⟩ := brace_mem_header.1 hmem
    exact (h item hitem).brace hbrace
  markers m := not_isIn_header fun item hitem => (h item hitem).markers m

/-- What a flat query selects: the variables of the view, and further ones. -/
def items (v : View) (shape : Shape) (root : String) : List (List Char) :=
  (Clause.selected (v.vars root) shape.projection).map (Clause.selectItem shape.bindings)

theorem exists_template_header (v : View) (shape : Shape) (root : String) :
    ∃ rest, template v shape root =
      Clause.header shape.distinct (items v shape root) ++ "\nWHERE \x7b\n".toList ++ rest := by
  refine ⟨"  ".toList ++ Marker.inject.text.toList ++
    '\n' :: Element.renderAll 1 (Pattern.compile .full root v).elements ++ "  ".toList ++
    Marker.filter.text.toList ++ "\n\x7d\n".toList ++ Marker.sort.text.toList ++ '\n' ::
    Marker.modifiers.text.toList ++ ['\n'], ?_⟩
  have hopen : "\nWHERE \x7b\n  ".toList = "\nWHERE \x7b\n".toList ++ "  ".toList := rfl
  simp only [template, Clause.header, items, Pattern.vars_compile, hopen, List.append_assoc]

/-! ### The two parts of a filled template -/

/-- What stands in front of the group of the pattern: the first line, with its markers replaced. -/
def firstLine (given : Marker → List (List Char)) (v : View) (shape : Shape) (root : String) :
    List Char :=
  place given markersInTurn (Clause.header shape.distinct (items v shape root) ++ ['\n'])

/-- **A filled template has its group behind the first line.** -/
theorem place_template (given : Marker → List (List Char)) (v : View) (shape : Shape)
    (root : String) : ∃ body, place given markersInTurn (template v shape root) =
      firstLine given v shape root ++ "WHERE ".toList ++ '\x7b' :: body := by
  obtain ⟨rest, htemplate⟩ := exists_template_header v shape root
  have hopen : "\nWHERE \x7b\n".toList = ['\n'] ++ ("WHERE \x7b".toList ++ ['\n']) := rfl
  have hbrace : "WHERE \x7b".toList ++ ['\n'] = "WHERE ".toList ++ '\x7b' :: ['\n'] := rfl
  have hnone : ∀ m ∈ markersInTurn, m.isIn ("WHERE \x7b".toList ++ ['\n']) = false := by decide
  refine ⟨'\n' :: place given markersInTurn rest, ?_⟩
  rw [htemplate, hopen, ← List.append_assoc, List.append_assoc,
    place_append (Text.whole_append_newline _), place_append (Text.whole_append_newline _),
    place_of_not_isIn hnone, ← firstLine, hbrace]
  simp only [List.append_assoc, List.cons_append, List.nil_append]

theorem firstLine_of_not_isIn
    (h : ∀ item ∈ items v shape root, ∀ m : Marker, m.isIn item = false) :
    firstLine given v shape root =
      Clause.header shape.distinct (items v shape root) ++ ['\n'] :=
  place_of_not_isIn fun m _ => isIn_line.trans (not_isIn_header fun item hitem => h item hitem m)

/-- **A rendering fills the first line and the group**, and cuts the whole at its first brace. -/
theorem exists_group_of_render (h : render v shape root none = .ok text) :
    ∃ texts body, conditions v shape root = .ok texts ∧
      markersInTurn.foldlM (fun text m => splice m (filling shape root texts m) text)
          (template v shape root) =
        .ok (firstLine (filling shape root texts) v shape root ++ "WHERE ".toList ++
          '\x7b' :: body) ∧
      text = substituteBody shape.bindings (firstLine (filling shape root texts) v shape root ++
        "WHERE ".toList ++ '\x7b' :: body) := by
  obtain ⟨-, hobstacle, -, -⟩ := exists_of_render h
  rw [render_eq hobstacle] at h
  obtain ⟨texts, htexts, h⟩ := Steps.bind_eq_ok.1 h
  obtain ⟨filled, hfilled, h⟩ := Steps.bind_eq_ok.1 h
  have htext : text = substituteBody shape.bindings filled := (Except.ok.inj h).symm
  have hbase : base v shape root none = template v shape root := rfl
  obtain ⟨body, hbody⟩ := place_template (filling shape root texts) v shape root
  rw [hbase] at hfilled
  rw [← eq_place_of_splices hfilled] at hbody
  rw [hbody] at hfilled htext
  exact ⟨texts, body, Steps.mapError_eq_ok.1 htexts, hfilled, htext⟩

theorem selects_of_render (h : render v shape root none = .ok text)
    (hitems : ∀ item ∈ items v shape root, Lasts item) :
    Clause.Selects shape.distinct (items v shape root) text := by
  obtain ⟨texts, body, -, -, htext⟩ := exists_group_of_render h
  have hline : firstLine (filling shape root texts) v shape root = _ :=
    firstLine_of_not_isIn fun item hitem => (hitems item hitem).markers
  have hheader : Lasts (Clause.header shape.distinct (items v shape root)) := .header hitems
  have hfront : '\x7b' ∉ Clause.header shape.distinct (items v shape root) ++ ['\n'] ++
      "WHERE ".toList := by
    simp [hheader.brace]
  have hopen : "\nWHERE \x7b".toList = ['\n'] ++ ("WHERE ".toList ++ ['\x7b']) := rfl
  rw [hline, substituteBody_append_brace _ hfront] at htext
  refine ⟨Substitution.substitute shape.bindings body, ?_⟩
  rw [htext, hopen]
  simp only [List.append_assoc, List.cons_append, List.nil_append]

end Flat

/-! ### Views, queries and streams -/

/-- **A query selects what a stream reads.** The pattern of a view has the variables of the view. They
are distinct, and behind that of the root each stands for one path, which is the path that a stream reads
from it. These variables are selected first, in their order, then the further ones, and with an inner
select the values to sort by. In a flat query over the template of its view this needs that no selected
item has an opening brace or a marker in it. -/
theorem query_selects_columns {v : View} {root : String} (hv : v.WellFormed)
    (hroot : ∀ p ∈ v.paths, Path.toVariable root p ≠ root) :
    (Pattern.compile .full root v).vars = v.vars root ∧ (v.vars root).Nodup ∧
      v.vars root = root :: (v.columns root).map (·.1) ∧
      ((v.columns root).map (·.1)).Perm (v.paths.map (Path.toVariable root)) ∧
      ((v.columns root).map (·.2)).Perm v.paths ∧
      (∀ c ∈ v.columns root, c.1 = Path.toVariable root c.2) ∧
      ∀ (shape : Shape) (text : List Char),
        (Nested.render v shape root = .ok text →
          Clause.Selects shape.distinct (Nested.items v shape root) text) ∧
        (Flat.render v shape root none = .ok text →
          (∀ item ∈ Flat.items v shape root, Flat.Lasts item) →
            Clause.Selects shape.distinct (Flat.items v shape root) text) := by
  have hdistinct : (v.vars root).Nodup :=
    (View.nodup_vars_iff hv).2 fun ⟨p, hp, h⟩ => hroot p hp h
  have hread : ∀ c ∈ v.columns root, c.1 = Path.toVariable root c.2 := by
    intro c hc
    obtain ⟨p, -, rfl⟩ := (View.mem_columns hv hroot).1 hc
    rfl
  have hfirst := View.map_fst_columns hroot
  refine ⟨Pattern.vars_compile root v, hdistinct, ?_, ?_, View.perm_map_snd_columns hv hroot, hread,
    fun shape text => ⟨Nested.selects_of_render, Flat.selects_of_render⟩⟩
  · rw [hfirst]
    rfl
  · rw [hfirst]
    exact View.perm_tail_vars root v

/-- A view of dishes, each with a price; some belong to a menu, which has a name. -/
def dishView : View :=
  .nested { name := "menu", iri := "http://e/menu", optional := true }
    (.leaf { name := "name", iri := "http://e/name" } .empty)
    (.leaf { name := "price", iri := "http://e/price" } .empty)

/-- The dishes of one price. -/
def dishesAt (price : String) : Shape := { bindings := (∅ : Table Term).insert "price" (.plain price) }

/-- The price is selected first, since a dish need not be on a menu, and as the constant it is. -/
theorem query_selects_columns_of_dishes : dishView.WellFormed ∧
    (∀ p ∈ dishView.paths, Path.toVariable "id" p ≠ "id") ∧
    dishView.vars "id" = "id" :: (dishView.columns "id").map (·.1) ∧
    (dishView.columns "id").map (·.2) = [["price"], ["menu"], ["menu", "name"]] ∧
    ∃ text, Flat.render dishView (dishesAt "7") "id" none = .ok text ∧
      Clause.Selects false ["?id".toList, "(\"7\" AS ?price)".toList, "?menu".toList,
        "?menu_name".toList] text := by
  have hv : dishView.WellFormed := by decide
  have hroot : ∀ p ∈ dishView.paths, Path.toVariable "id" p ≠ "id" := by decide
  obtain ⟨text, htext⟩ : ∃ text, Flat.render dishView (dishesAt "7") "id" none = .ok text :=
    Flat.exists_render rfl (by decide)
  obtain ⟨-, -, hvars, -, -, -, hrendered⟩ := query_selects_columns hv hroot
  have hselects := (hrendered (dishesAt "7") text).2 htext
  have hitems : Flat.items dishView (dishesAt "7") "id" = ["?id".toList,
      "(\"7\" AS ?price)".toList, "?menu".toList, "?menu_name".toList] := by decide
  rw [hitems] at hselects
  exact ⟨hv, hroot, hvars, rfl, text, htext, hselects (by decide)⟩

/-- **A bound constant may be rewritten in the first line.** Bound variables are replaced from the first
opening brace on, and here this is in the constant. The marker of the order gives way to the order
wherever it stands. -/
theorem header_rewritten_in_constant : ViewQuery.noteView.WellFormed ∧
    (∀ p ∈ ViewQuery.noteView.paths, Path.toVariable "id" p ≠ "id") ∧
    (∃ shape text, shape.bindings = (∅ : Table Term).insert "note" (.plain "\x7b\"") ∧
      Flat.render ViewQuery.noteView shape "id" none = .ok text ∧
      ¬ Clause.Selects false ["?id".toList, "(\"\x7b\\\"\" AS ?note)".toList] text ∧
      Clause.Selects false ["?id".toList, "(\"\x7b\\\"\" AS \"\x7b\\\"\")".toList] text) ∧
    ∃ shape text, shape.bindings = (∅ : Table Term).insert "note" (.plain "#$SORT$") ∧
      Flat.render ViewQuery.noteView shape "id" none = .ok text ∧
      ¬ Clause.Selects false ["?id".toList, "(\"#$SORT$\" AS ?note)".toList] text ∧
      Clause.Selects false ["?id".toList, "(\"ORDER BY ?id\" AS ?note)".toList] text := by
  refine ⟨by decide, by decide, ⟨{ bindings := (∅ : Table Term).insert "note" (.plain "\x7b\"") },
    ("SELECT ?id (\"\x7b\\\"\" AS \"\x7b\\\"\")\nWHERE \x7b\n" ++
      "  ?id <http://e/note> \"\x7b\\\"\" .\n\x7d\nORDER BY ?id\n").toList,
    rfl, by decide +kernel, by decide, by decide⟩, ?_⟩
  exact ⟨{ bindings := (∅ : Table Term).insert "note" (.plain "#$SORT$") },
    ("SELECT ?id (\"ORDER BY ?id\" AS ?note)\nWHERE \x7b\n" ++
      "  ?id <http://e/note> \"#$SORT$\" .\n\x7d\nORDER BY ?id\n").toList,
    rfl, by decide +kernel, by decide, by decide⟩

end SparqlViews

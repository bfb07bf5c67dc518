import SparqlViews.Proofs.Query.OrderLines
import SparqlViews.Proofs.Query.Places

/-! # The limit of a query as it is written

A query with a limit has the modifier in its text. In a flat query it stands wherever the template has
the place of the page (`Flat.limitAtPlaces_of_render`); in one with an inner select it is a line of that
select, behind all but the offset and in front of the pattern of the view
(`Nested.limitInside_of_render`).

* `Clause.limitLine`: the modifier.
* `ViewQuery.LimitPlaced`: what each strategy does with it.
-/

namespace SparqlViews

open Text (Whole)

/-- **The modifier that cuts results off** after a number of them. -/
def Clause.limitLine (n : ℕ) : List Char := "LIMIT ".toList ++ (toString n).toList

theorem Clause.pageLines_some (n : ℕ) (offset : Option ℕ) :
    pageLines (some n) offset = limitLine n :: pageLines none offset := rfl

theorem Clause.isPageLine_limitLine (n : ℕ) : IsPageLine (limitLine n) := by
  have hmem : limitLine n ∈ pageLines (some n) none := List.mem_cons_self
  exact isPageLine_of_mem hmem

variable {v : View} {shape : Shape} {root : String} {n : ℕ} {text : List Char}

/-! ### In a template -/

namespace Flat

variable {given : Marker → List (List Char)} {template : List Char} {configured : Option String}

theorem exists_glued_page (n : ℕ) (offset : Option ℕ) (line : List Char) : ∃ more,
    glued (Clause.pageLines (some n) offset) line = Clause.limitLine n ++ more ∧
      (more = [] ∨ more.head? = some '\n') := by
  rw [glued, pieceLines_pageLines, Clause.pageLines_some]
  cases Clause.pageLines none offset with
  | nil => exact ⟨[], by simp, .inl rfl⟩
  | cons next pages =>
    rw [List.intercalate_cons_cons, List.append_assoc]
    exact ⟨_, rfl, .inr rfl⟩

/-- **A limit at the places of the page.** Wherever the template has the marker, the modifier stands
behind what becomes of the text in front of it, up to the sign that the marker begins with. Behind its
number comes the end of the line, or the character that came behind the marker, so that the number ends
there unless this is a digit, which runs on with it. Nothing is said of a marker with `#` at once behind
it, for that may be another place. -/
def LimitAtPlaces (given : Marker → List (List Char)) (n : ℕ) (template text : List Char) : Prop :=
  ∀ front back, template = front ++ (Marker.modifiers.text.toList ++ back) → ∃ before rest,
    place given markersInTurn (front ++ ['#']) = before ++ ['#'] ∧
      text = before ++ (Clause.limitLine n ++ rest) ∧
      (back.head? ≠ some '#' → rest.head? = some '\n' ∨ rest.head? = back.head?)

theorem limitAtPlaces_place {offset : Option ℕ}
    (hgiven : given .modifiers = Clause.pageLines (some n) offset) :
    LimitAtPlaces given n template (place given markersInTurn template) := by
  rintro front back rfl
  have hne : given .modifiers ≠ [] := by
    rw [hgiven]
    exact List.cons_ne_nil _ _
  have hearlier : Marker.modifiers ∉ [Marker.inject, .filter, .sort] := by decide
  obtain ⟨line, back', hplace, hback⟩ := exists_place_at hearlier hne front back
  obtain ⟨more, hglued, hmore⟩ := exists_glued_page n offset line
  rw [hgiven, hglued] at hplace
  refine ⟨placeBefore given markersInTurn front, more ++ back', place_append_hash _ _ _,
    hplace.trans (by rw [List.append_assoc]; rfl), fun hhead => ?_⟩
  rcases hmore with rfl | hmore
  · exact .inr (hback hhead)
  · refine .inl ?_
    rw [List.head?_append, hmore]
    rfl

theorem limitAtPlaces_of_render (h : render v shape root configured = .ok text)
    (hlimit : shape.limit = some n) (hbindings : shape.bindings = ∅) : ∃ texts,
    conditions v shape root = .ok texts ∧
      LimitAtPlaces (filling shape root texts) n (base v shape root configured) text := by
  obtain ⟨texts, -, htexts, htext⟩ := exists_of_render h
  rw [hbindings, Substitution.substituteBody_of_free (Substitution.free_empty _)] at htext
  rw [htext]
  exact ⟨texts, htexts, limitAtPlaces_place (by rw [filling, hlimit])⟩

end Flat

/-! ### In an inner select -/

namespace Nested

theorem indented_append {front : List Char} (hfront : Whole front) (rest : List Char) :
    indented (front ++ rest) = indented front ++ indented rest := by
  rw [indented, Text.lines_append hfront, List.flatMap_append, ← indented, ← indented]

theorem indented_limitLine (n : ℕ) (rest : List Char) :
    indented (Clause.limitLine n ++ '\n' :: rest) =
      "    ".toList ++ Clause.limitLine n ++ ['\n'] ++ indented rest := by
  have hline := Clause.isPageLine_limitLine n
  rw [indented, Text.lines_line hline.newline hline.last, List.flatMap_cons, ← indented]

/-- **A limit inside of the inner select**: the modifier is a line of it, with the offset alone behind,
and the group of the inner select comes before the pattern of the view. -/
def LimitInside (v : View) (shape : Shape) (root : String) (n : ℕ) (text : List Char) : Prop :=
  ∃ header front,
    let offset := (Clause.pageLines none shape.offset).flatMap (· ++ ['\n'])
    renderInner v shape root (sortColumns shape root) =
        .ok (front ++ (Clause.limitLine n ++ '\n' :: offset)) ∧
      text = header ++ ("\nWHERE \x7b\n  \x7b\n".toList ++ ((indented front ++
        ("    ".toList ++ Clause.limitLine n ++ ['\n'] ++ indented offset)) ++
          outerRest v shape root))

theorem limitInside_of_render (h : render v shape root = .ok text)
    (hlimit : shape.limit = some n) : LimitInside v shape root n text := by
  obtain ⟨header, inner, hinner, htext⟩ := exists_of_render h
  obtain ⟨body, before, after, -, -, hafter, hselect⟩ := exists_of_renderInner hinner
  let front := before ++ Substitution.substitute shape.bindings (Element.renderAll 1 body) ++
    ['\x7d'] ++ ['\n'] ++ after
  have hfront : Whole front := (Text.whole_append_newline _).append hafter
  have hpage : (Clause.pageLines shape.limit shape.offset).flatMap (· ++ ['\n']) =
      Clause.limitLine n ++ '\n' :: (Clause.pageLines none shape.offset).flatMap (· ++ ['\n']) := by
    rw [hlimit, Clause.pageLines_some, List.flatMap_cons, List.append_assoc, List.singleton_append]
  have hclose : "\x7d\n".toList = ['\x7d'] ++ ['\n'] := rfl
  have hinnereq : inner = front ++ (Clause.limitLine n ++
      '\n' :: (Clause.pageLines none shape.offset).flatMap (· ++ ['\n'])) := by
    rw [hselect, hpage, hclose]
    simp only [front, List.append_assoc]
  refine ⟨header, front, hinner.trans (congrArg _ hinnereq), ?_⟩
  rw [htext, hinnereq, indented_append hfront, indented_limitLine]

end Nested

/-! ### In a query -/

/-- **A limit in its place.** A flat query has it at every place of the page in its template, which
has one; a query with an inner select has it there. -/
def ViewQuery.LimitPlaced (q : ViewQuery) (n : ℕ) (text : List Char) : Prop :=
  match q.strategy with
  | .flat =>
    let template := Flat.base q.view q.renderedShape q.root q.template
    Marker.modifiers.text.toList <:+: template ∧
      ∃ texts, Flat.conditions q.view q.renderedShape q.root = .ok texts ∧
        Flat.LimitAtPlaces (Flat.filling q.renderedShape q.root texts) n template text
  | .nestedSelect => Nested.LimitInside q.view q.renderedShape q.root n text

/-- **A query has its limit in its place**, if no variable is bound and its template has a place for
the page. -/
theorem ViewQuery.limitPlaced_of_render {q : ViewQuery} (h : q.render = .ok text)
    (hlimit : q.effectiveLimit = some n) (hbindings : q.shape.bindings = ∅)
    (hplace : Marker.modifiers.isIn (Flat.base q.view q.renderedShape q.root q.template) = true) :
    q.LimitPlaced n text := by
  unfold render at h
  unfold LimitPlaced
  cases hstrategy : q.strategy with
  | flat =>
    rw [hstrategy] at h
    exact ⟨Marker.isIn_iff.1 hplace, Flat.limitAtPlaces_of_render h hlimit hbindings⟩
  | nestedSelect =>
    rw [hstrategy] at h
    exact Nested.limitInside_of_render (Steps.mapError_eq_ok.1 h) hlimit

end SparqlViews

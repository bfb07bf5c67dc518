import SparqlViews.Proofs.Query.Filling
import SparqlViews.Proofs.Query.Scanning

/-! # The text of a query with an inner select

Such a query is written line by line: the inner select, further indented, stands between the lines of
the outer one (`exists_of_render`), and its pattern between its own (`exists_of_renderInner`). So a line
of the inner pattern is one of the query (`hasLine_of_innerPattern`).
-/

namespace SparqlViews.Nested

open Text (Whole HasLine)

variable {v : View} {shape : Shape} {root : String} {columns : List SortColumn}
  {line text : List Char}

/-! ### Groups -/

theorem renderAll_append (depth : ℕ) (before after : List Element) :
    Element.renderAll depth (before ++ after) =
      Element.renderAll depth before ++ Element.renderAll depth after := by
  induction before with
  | nil => rfl
  | cons e before ih =>
    rw [List.cons_append, Element.renderAll, ih, ← List.append_assoc]
    rfl

theorem hasLine_renderAll (depth : ℕ) {elements : List Element}
    (hmem : Element.raw (String.ofList line) ∈ elements) (hline : '\n' ∉ line) (hne : line ≠ [])
    (htrim : Text.trim line = line) :
    HasLine (Element.indent depth ++ line) (Element.renderAll depth elements) := by
  obtain ⟨before, after, rfl⟩ := List.append_of_mem hmem
  have hindent : '\n' ∉ Element.indent depth := fun h => by
    cases (List.mem_replicate.1 h).2
  have hboth : '\n' ∉ Element.indent depth ++ line := by
    rw [List.mem_append]
    exact not_or.2 ⟨hindent, hline⟩
  have hraw : Element.render depth (.raw (String.ofList line)) =
      Element.indent depth ++ line ++ ['\n'] := by
    simp [Element.render, Element.rawText, Text.lines_of_not_mem hline hne, htrim, hne]
  refine ⟨hboth, Element.renderAll depth before, Element.renderAll depth after,
    Flat.whole_renderAll depth before, ?_⟩
  rw [renderAll_append, Element.renderAll, hraw, List.append_assoc (Element.indent depth ++ line)]
  rfl

/-! ### The inner and the outer select -/

theorem whole_optionalLine (line : Option (List Char)) : Whole (optionalLine line) := by
  cases line with
  | none => exact Text.whole_nil
  | some line => exact Text.whole_append_newline line

/-- **The inner select** has its pattern, with bound variables replaced, in a group between whole lines,
and its page at the end. -/
theorem exists_of_renderInner (h : renderInner v shape root columns = .ok text) :
    ∃ body front rest, innerPattern v shape root = .ok body ∧ Whole front ∧ Whole rest ∧
      text = front ++ (Substitution.substitute shape.bindings (Element.renderAll 1 body) ++
        ("\x7d\n".toList ++ (rest ++
          (Clause.pageLines shape.limit shape.offset).flatMap (· ++ ['\n'])))) := by
  obtain ⟨body, hbody, h⟩ := Steps.bind_eq_ok.1 h
  obtain ⟨header, group, htext⟩ : ∃ header group, text = header ++ "\nWHERE \x7b\n".toList ++
      Substitution.substitute shape.bindings (Element.renderAll 1 body) ++ "\x7d\n".toList ++
      optionalLine group ++ optionalLine (Clause.orderLine (orderKeys columns shape root)) ++
      (Clause.pageLines shape.limit shape.offset).flatMap (· ++ ['\n']) :=
    ⟨_, _, (Except.ok.inj h).symm⟩
  refine ⟨body, header ++ "\nWHERE \x7b".toList ++ ['\n'],
    optionalLine group ++ optionalLine (Clause.orderLine (orderKeys columns shape root)), hbody,
    Text.whole_append_newline _, (whole_optionalLine _).append (whole_optionalLine _), ?_⟩
  have hopen : "\nWHERE \x7b\n".toList = "\nWHERE \x7b".toList ++ ['\n'] := rfl
  rw [htext, hopen]
  simp only [List.append_assoc]

/-- The lines of an inner select in the outer query. -/
def indented (text : List Char) : List Char :=
  (Text.lines text).flatMap fun line => "    ".toList ++ line ++ ['\n']

/-- What comes behind the inner select: its end, the pattern of the view, and the order. -/
def outerRest (v : View) (shape : Shape) (root : String) : List Char :=
  "  \x7d\n".toList ++ (Substitution.substitute shape.bindings
    (Element.renderAll 1 (Pattern.compile .full root v).elements) ++ ("\x7d\n".toList ++
      optionalLine (Clause.orderLine (orderKeys (sortColumns shape root) shape root))))

/-- **The query** has the inner select in a group of its own, in front of the pattern of the view. -/
theorem exists_of_render (h : render v shape root = .ok text) :
    ∃ header inner, renderInner v shape root (sortColumns shape root) = .ok inner ∧
      text = header ++ ("\nWHERE \x7b\n  \x7b\n".toList ++
        (indented inner ++ outerRest v shape root)) := by
  obtain ⟨inner, hinner, h⟩ := Steps.bind_eq_ok.1 h
  obtain ⟨header, htext⟩ : ∃ header, text = header ++ "\nWHERE \x7b\n  \x7b\n".toList ++
      indented inner ++ "  \x7d\n".toList ++ Substitution.substitute shape.bindings
        (Element.renderAll 1 (Pattern.compile .full root v).elements) ++ "\x7d\n".toList ++
      optionalLine (Clause.orderLine (orderKeys (sortColumns shape root) shape root)) :=
    ⟨_, (Except.ok.inj h).symm⟩
  refine ⟨header, inner, hinner, ?_⟩
  rw [htext, outerRest]
  simp only [List.append_assoc]

/-- **A line of the inner pattern is one of the query**, if no variable is bound. -/
theorem hasLine_of_innerPattern (h : render v shape root = .ok text)
    (hbindings : shape.bindings = ∅)
    (hmem : ∀ body, innerPattern v shape root = .ok body →
      Element.raw (String.ofList line) ∈ body)
    (hline : '\n' ∉ line) (hne : line ≠ []) (htrim : Text.trim line = line)
    (hlast : ∀ c ∈ line.getLast?, c ≠ '\r') : HasLine ("      ".toList ++ line) text := by
  obtain ⟨header, inner, hinner, htext⟩ := exists_of_render h
  obtain ⟨body, before, after, hbody, hbefore, -, hinnertext⟩ := exists_of_renderInner hinner
  rw [hbindings, Substitution.substitute_of_free (Substitution.free_empty _)] at hinnertext
  have hin : HasLine ("  ".toList ++ line) inner := by
    rw [hinnertext]
    exact (hasLine_renderAll 1 (hmem body hbody) hline hne htrim).append hbefore _
  have hlines : "  ".toList ++ line ∈ Text.lines inner := hin.mem_lines fun c hc => by
    rw [List.getLast?_append_of_ne_nil _ hne] at hc
    exact hlast c hc
  have hboth : '\n' ∉ "    ".toList ++ ("  ".toList ++ line) := by
    rw [List.mem_append]
    exact not_or.2 ⟨by decide, hin.1⟩
  have hopen : "\nWHERE \x7b\n  \x7b\n".toList = "\nWHERE \x7b\n  \x7b".toList ++ ['\n'] := rfl
  rw [htext, hopen, ← List.append_assoc, ← List.append_assoc header]
  exact (Text.hasLine_flatMap hlines hboth).append (Text.whole_append_newline _) _

end SparqlViews.Nested

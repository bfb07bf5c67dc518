import SparqlViews.Proofs.Query.Selected

/-! # Where bound variables are replaced

Bound variables are replaced from the first opening brace of the filled text on. This is the brace of the
group of the pattern unless the first line has one, which it has from a selected constant
(`Flat.brace_mem_header_iff`) or from what is put in for a marker in one.

* `Flat.bindings_replaced_from_first_brace`: what is rendered, cut at the brace of the group.
-/

namespace SparqlViews

/-! ### Braces in a selected item -/

theorem brace_mem_escape_iff {s : List Char} : '\x7b' ∈ escape s ↔ '\x7b' ∈ s := by
  have hchar : ∀ c, '\x7b' ∈ escapeChar c ↔ c = '\x7b' := by
    intro c
    unfold escapeChar
    split_ifs with hback hquote hline hreturn htab <;> simp_all [eq_comm]
  rw [escape, List.mem_flatMap]
  simp only [hchar, exists_eq_right]

theorem Term.brace_mem_token_iff {t : Term} (h : t.WellFormed) :
    '\x7b' ∈ t.token ↔ '\x7b' ∈ t.lexicalForm.toList := by
  have hiri : ∀ {s : String}, isIri s = true → '\x7b' ∉ s.toList := fun hs hmem =>
    absurd (List.all_eq_true.1 hs _ hmem) (by decide)
  cases t with
  | iri s => simp [Term.token, lexicalForm]
  | blank label => simp [Term.token, lexicalForm]
  | literal lexical kind =>
    cases kind with
    | plain => simp [Term.token, lexicalForm, brace_mem_escape_iff]
    | language tag =>
      have htag : '\x7b' ∉ tag.toList := fun hmem =>
        absurd (isSmall_or_hyphen_of_isLanguageTag h _ hmem) (by decide)
      simp [Term.token, lexicalForm, brace_mem_escape_iff, htag]
    | datatype name => simp [Term.token, lexicalForm, brace_mem_escape_iff, hiri h.1]

theorem Clause.brace_mem_selectItem_iff {bindings : Substitution.Bindings} {name : String}
    (hterm : ∀ t ∈ bindings.get? name, t.WellFormed) (hname : '\x7b' ∉ name.toList) :
    '\x7b' ∈ selectItem bindings name ↔
      ∃ t ∈ bindings.get? name, '\x7b' ∈ t.lexicalForm.toList := by
  unfold selectItem
  cases hbound : bindings.get? name with
  | none => simp [Element.variableText, hname]
  | some t => simp [hname, Term.brace_mem_token_iff (hterm t hbound)]

namespace Flat

open Substitution (substitute substituteBody)

variable {v : View} {shape : Shape} {root : String} {s text : List Char}

/-! ### Rendered queries -/

/-- **The first line has a brace only where a selected constant has one.** -/
theorem brace_mem_header_iff {distinct : Bool}
    (hnames : ∀ name ∈ Clause.selected (v.vars root) shape.projection,
      '\x7b' ∉ name.toList ∧ ∀ t ∈ shape.bindings.get? name, t.WellFormed) :
    '\x7b' ∈ Clause.header distinct (items v shape root) ↔
      ∃ name ∈ Clause.selected (v.vars root) shape.projection,
        ∃ t ∈ shape.bindings.get? name, '\x7b' ∈ t.lexicalForm.toList := by
  rw [brace_mem_header, items]
  simp only [List.mem_map, exists_exists_and_eq_and]
  exact exists_congr fun name => and_congr_right fun hname =>
    Clause.brace_mem_selectItem_iff (hnames name hname).2 (hnames name hname).1

theorem substituteBody_cut (bindings : Substitution.Bindings) (hs : '\x7b' ∉ s) (t : List Char) :
    substituteBody bindings (s ++ '\x7b' :: t) = s ++ substitute bindings ('\x7b' :: t) := by
  rw [substituteBody_append_brace bindings hs]
  rfl

/-- **Bound variables are replaced from the first brace of the filled text on.** The filled text is a
first line and the group of the pattern. If the first line has no brace, it stays, and bound variables
are replaced in the group and behind it. Otherwise they are replaced from its first brace on, which the
scanner takes for code. Among names without a brace, well-formed constants, and items without a marker,
this takes a selected constant with a brace in its text. -/
theorem bindings_replaced_from_first_brace (h : render v shape root none = .ok text) :
    ∃ texts body, conditions v shape root = .ok texts ∧
      markersInTurn.foldlM (fun text m => splice m (filling shape root texts m) text)
          (template v shape root) =
        .ok (firstLine (filling shape root texts) v shape root ++ "WHERE ".toList ++
          '\x7b' :: body) ∧
      ('\x7b' ∉ firstLine (filling shape root texts) v shape root →
        text = firstLine (filling shape root texts) v shape root ++ "WHERE ".toList ++
          substitute shape.bindings ('\x7b' :: body)) ∧
      (∀ front more, firstLine (filling shape root texts) v shape root = front ++ '\x7b' :: more →
        '\x7b' ∉ front → text = front ++
          substitute shape.bindings ('\x7b' :: (more ++ "WHERE ".toList ++ '\x7b' :: body))) ∧
      ((∀ item ∈ items v shape root, ∀ m : Marker, m.isIn item = false) →
        (∀ name ∈ Clause.selected (v.vars root) shape.projection, '\x7b' ∉ name.toList ∧
          ∀ t ∈ shape.bindings.get? name, t.WellFormed ∧ '\x7b' ∉ t.lexicalForm.toList) →
        text = Clause.header shape.distinct (items v shape root) ++ "\nWHERE ".toList ++
          substitute shape.bindings ('\x7b' :: body)) := by
  obtain ⟨texts, body, htexts, hfilled, htext⟩ := exists_group_of_render h
  have hgroup : '\x7b' ∉ firstLine (filling shape root texts) v shape root →
      text = firstLine (filling shape root texts) v shape root ++ "WHERE ".toList ++
        substitute shape.bindings ('\x7b' :: body) := by
    intro hnone
    have hfront : '\x7b' ∉ firstLine (filling shape root texts) v shape root ++ "WHERE ".toList := by
      rw [List.mem_append]
      exact not_or.2 ⟨hnone, by decide⟩
    rw [htext, substituteBody_cut _ hfront]
  refine ⟨texts, body, htexts, hfilled, hgroup, ?_, ?_⟩
  · intro front more hline hfront
    rw [htext, hline, List.append_assoc, List.append_assoc, List.cons_append,
      substituteBody_cut _ hfront, List.append_assoc]
  · intro hmarkers hnames
    have hline : firstLine (filling shape root texts) v shape root = _ :=
      firstLine_of_not_isIn hmarkers
    have hopen : "\nWHERE ".toList = ['\n'] ++ "WHERE ".toList := rfl
    have hnone : '\x7b' ∉ Clause.header shape.distinct (items v shape root) := by
      rw [brace_mem_header_iff fun name hname =>
        ⟨(hnames name hname).1, fun t ht => ((hnames name hname).2 t ht).1⟩]
      rintro ⟨name, hname, t, ht, hbrace⟩
      exact ((hnames name hname).2 t ht).2 hbrace
    rw [hline] at hgroup
    rw [hgroup (by simp [hnone]), hopen]
    simp only [List.append_assoc]

/-- The price of a dish is replaced in its triple; in the first line its name is kept. -/
theorem bindings_replaced_of_dishes : ∃ text body,
    render dishView (dishesAt "7") "id" none = .ok text ∧
    text = "SELECT ?id (\"7\" AS ?price) ?menu ?menu_name\nWHERE ".toList ++
      substitute (dishesAt "7").bindings ('\x7b' :: body) ∧
    text = ("SELECT ?id (\"7\" AS ?price) ?menu ?menu_name\nWHERE \x7b\n" ++
      "  ?id <http://e/price> \"7\" .\n  OPTIONAL \x7b\n    ?id <http://e/menu> ?menu .\n" ++
      "    ?menu <http://e/name> ?menu_name .\n  \x7d\n\x7d\nORDER BY ?id\n").toList := by
  have htext : render dishView (dishesAt "7") "id" none = .ok
    ("SELECT ?id (\"7\" AS ?price) ?menu ?menu_name\nWHERE \x7b\n" ++
      "  ?id <http://e/price> \"7\" .\n  OPTIONAL \x7b\n    ?id <http://e/menu> ?menu .\n" ++
      "    ?menu <http://e/name> ?menu_name .\n  \x7d\n\x7d\nORDER BY ?id\n").toList := by
    decide +kernel
  obtain ⟨texts, body, -, -, -, -, hgroup⟩ := bindings_replaced_from_first_brace htext
  have hlasts : ∀ item ∈ items dishView (dishesAt "7") "id", Lasts item := by decide
  have hbound : ∀ name, ∀ t ∈ (dishesAt "7").bindings.get? name, t = .plain "7" := by
    intro name t ht
    rw [dishesAt, Table.get?_insert] at ht
    split at ht
    · exact (Option.some.inj ht).symm
    · cases ht
  have hnames : ∀ name ∈ Clause.selected (dishView.vars "id") (dishesAt "7").projection,
      '\x7b' ∉ name.toList := by decide
  refine ⟨_, body, htext, hgroup (fun item hitem => (hlasts item hitem).markers) ?_, rfl⟩
  intro name hname
  refine ⟨hnames name hname, fun t ht => ?_⟩
  rw [hbound name t ht]
  exact ⟨trivial, by decide⟩

/-- **A brace in a bound constant keeps its variable in the pattern.** The replacement begins inside the
constant, whose closing quote then opens a text that lasts to the end of the query. -/
theorem variable_kept_behind_brace :
    ∃ shape body, shape.bindings = (∅ : Table Term).insert "note" (.plain "\x7b") ∧
      Term.WellFormed (.plain "\x7b") ∧
      markersInTurn.foldlM (fun text m => splice m (filling shape "id" [] m) text)
          (template ViewQuery.noteView shape "id") =
        .ok ("SELECT ?id (\"\x7b\" AS ?note)\nWHERE ".toList ++ '\x7b' :: body) ∧
      "SELECT ?id (\"\x7b\" AS ?note)\nWHERE ".toList ++ substitute shape.bindings ('\x7b' :: body) =
        ("SELECT ?id (\"\x7b\" AS ?note)\nWHERE \x7b\n" ++
          "  ?id <http://e/note> \"\x7b\" .\n\x7d\nORDER BY ?id\n").toList ∧
      render ViewQuery.noteView shape "id" none =
        .ok ("SELECT ?id (\"\x7b\" AS ?note)\nWHERE \x7b\n" ++
          "  ?id <http://e/note> ?note .\n\x7d\nORDER BY ?id\n").toList := by
  refine ⟨{ bindings := (∅ : Table Term).insert "note" (.plain "\x7b") },
    "\n  ?id <http://e/note> ?note .\n\x7d\nORDER BY ?id\n".toList, rfl, trivial, ?_, ?_, ?_⟩
  · decide +kernel
  · decide +kernel
  · decide +kernel

end Flat

end SparqlViews

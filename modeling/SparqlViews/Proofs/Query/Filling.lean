import SparqlViews.Proofs.Query.Rendering
import SparqlViews.Proofs.Text.Lines

/-! # Templates filled in

A flat query is its template with the four markers replaced in turn, each by its pieces
(`exists_of_render`). What is put in for one marker is a part of the text in which the next one is
searched for, so that a line stays as it is if it has none of the markers to come (`hasLine_place`).
A marker that stands alone on its line gives way to lines of its pieces (`fill_marker_line`).

* `fill`, `place`: a text with one marker replaced, and with markers replaced in turn.
* `exists_template_lines`: the last lines of the template of a view.
-/

namespace SparqlViews.Flat

open Text (Whole HasLine)

variable {m k : Marker} {markers : List Marker} {pieces : List (List Char)}
  {given : Marker → List (List Char)} {s t line gap piece text result : List Char}

/-! ### One marker in its lines -/

/-- **A text with a marker replaced**, if it is there. -/
def fill (m : Marker) (pieces : List (List Char)) (text : List Char) : List Char :=
  (Text.lineChunks text).flatMap (spliceLine m pieces)

theorem spliceLine_of_not_isIn (pieces : List (List Char)) (h : m.isIn line = false) :
    spliceLine m pieces line = line := by
  rw [spliceLine, h]
  rfl

theorem isIn_line : m.isIn (line ++ ['\n']) = m.isIn line := by
  rw [Bool.eq_iff_iff, Marker.isIn_iff, Marker.isIn_iff,
    Text.infix_append_cons m.newline_not_mem_text m.text_ne_nil, List.infix_nil]
  exact or_iff_left m.text_ne_nil

theorem fill_of_not_isIn (pieces : List (List Char)) (h : m.isIn text = false) :
    fill m pieces text = text := by
  have hlines : ∀ line ∈ Text.lineChunks text, spliceLine m pieces line = line := by
    intro line hline
    refine spliceLine_of_not_isIn pieces ?_
    rw [Bool.eq_false_iff, ne_eq, Marker.isIn_iff] at h ⊢
    have hpart : line <:+: text := by
      have := List.infix_of_mem_flatten hline
      rwa [Text.flatten_lineChunks] at this
    exact fun hm => h (hm.trans hpart)
  rw [fill, List.flatMap_congr hlines, List.flatMap_id', Text.flatten_lineChunks]

theorem fill_append (hs : Whole s) (t : List Char) :
    fill m pieces (s ++ t) = fill m pieces s ++ fill m pieces t := by
  rw [fill, Text.lineChunks_append hs, List.flatMap_append, ← fill, ← fill]

theorem fill_line (pieces : List (List Char)) (h : '\n' ∉ line) (rest : List Char) :
    fill m pieces (line ++ '\n' :: rest) =
      spliceLine m pieces (line ++ ['\n']) ++ fill m pieces rest := by
  rw [fill, Text.lineChunks_line h, List.flatMap_cons, ← fill]

theorem fill_line_of_not_isIn (pieces : List (List Char)) (h : '\n' ∉ line)
    (hm : m.isIn line = false) (rest : List Char) :
    fill m pieces (line ++ '\n' :: rest) = line ++ '\n' :: fill m pieces rest := by
  rw [fill_line pieces h, spliceLine_of_not_isIn pieces (isIn_line.trans hm), List.append_assoc]
  rfl

theorem whole_spliceLine (m : Marker) (pieces : List (List Char)) (line : List Char) :
    Whole (spliceLine m pieces (line ++ ['\n'])) := by
  unfold spliceLine
  split
  · exact Text.whole_append_newline line
  · split
    · exact Text.whole_nil
    · rw [Text.replaceAll_append_cons m.newline_not_mem_text m.text_ne_nil]
      exact Text.whole_append_newline _

theorem whole_fill (pieces : List (List Char)) (hs : Whole s) : Whole (fill m pieces s) := by
  refine Text.whole_flatMap fun chunk hchunk => ?_
  obtain ⟨line, rfl⟩ := hs.exists_of_mem_lineChunks hchunk
  exact whole_spliceLine m pieces line

/-- **A line without the marker stays a line of the text.** -/
theorem hasLine_fill (h : HasLine line text) (hm : m.isIn line = false)
    (pieces : List (List Char)) : HasLine line (fill m pieces text) := by
  obtain ⟨hline, front, rest, hfront, rfl⟩ := h
  refine ⟨hline, fill m pieces front, fill m pieces rest, whole_fill pieces hfront, ?_⟩
  rw [fill_append hfront, fill_line_of_not_isIn pieces hline hm]

/-! ### A marker alone on its line -/

theorem intercalate_lines (gap : List Char) {parts : List (List Char)} (hparts : parts ≠ []) :
    gap ++ List.intercalate ('\n' :: gap) parts ++ ['\n'] =
      parts.flatMap fun part => gap ++ part ++ ['\n'] := by
  obtain ⟨part, parts, rfl⟩ := List.exists_cons_of_ne_nil hparts
  induction parts generalizing part with
  | nil => simp
  | cons next parts ih =>
    rw [List.intercalate_cons_cons, List.flatMap_cons, ← ih next (List.cons_ne_nil _ _)]
    simp only [List.append_assoc, List.cons_append, List.nil_append]

/-- **A marker alone on its line gives way to the lines of its pieces**, each behind the white space
in front of the marker. If there is no piece, the line goes. -/
theorem fill_marker_line (hgap : ∀ c ∈ gap, Text.isBlank c = true) (hline : '\n' ∉ gap)
    (hpieces : pieceLines pieces = [] → pieces = []) (rest : List Char) :
    fill m pieces (gap ++ m.text.toList ++ '\n' :: rest) =
      (pieceLines pieces).flatMap (fun piece => gap ++ piece ++ ['\n']) ++ fill m pieces rest := by
  obtain ⟨more, htext⟩ := m.exists_text_eq
  have hin : m.isIn (gap ++ m.text.toList ++ ['\n']) = true := by
    rw [Marker.isIn_iff, List.append_assoc]
    exact (List.prefix_append _ _).isInfix.trans (List.suffix_append _ _).isInfix
  have hnone : '\n' ∉ gap ++ m.text.toList := by
    rw [List.mem_append]
    exact not_or.2 ⟨hline, m.newline_not_mem_text⟩
  rw [fill_line pieces hnone]
  congr 1
  unfold spliceLine
  rw [hin, if_neg (by decide)]
  cases pieces with
  | nil =>
    have htrim : Text.trim (gap ++ m.text.toList ++ ['\n']) = m.text.toList :=
      Text.trim_between hgap (by decide)
        (fun c hc => m.not_isBlank_of_mem_text c (List.mem_of_mem_head? hc))
        (fun c hc => m.not_isBlank_of_mem_text c (List.mem_of_mem_getLast? hc))
    rw [if_pos (by rw [htrim]; simp)]
    rfl
  | cons piece pieces =>
    have hhash : '#' ∉ gap := fun h => absurd (hgap _ h) (by decide)
    have hwhite : (gap ++ m.text.toList ++ ['\n']).takeWhile Text.isBlank = gap := by
      rw [List.append_assoc, List.takeWhile_append_of_pos hgap, htext, List.cons_append,
        List.takeWhile_cons_of_neg (by decide), List.append_nil]
    have hplace : ∀ r, Text.replaceAll m.text.toList r (gap ++ m.text.toList ++ ['\n']) =
        gap ++ r ++ ['\n'] := by
      intro r
      have hself := Text.replaceAll_append_self m.text_ne_nil r []
      rw [List.append_nil] at hself
      rw [Text.replaceAll_append_cons m.newline_not_mem_text m.text_ne_nil, htext,
        Text.replaceAll, Text.replaceFrom_append_of_not_mem hhash, ← Text.replaceAll, ← htext, hself]
      simp [Text.replaceAll, Text.replaceFrom]
    rw [if_neg (by simp), hwhite, hplace,
      intercalate_lines gap fun h => absurd (hpieces h) (List.cons_ne_nil _ _)]

theorem pieceLines_eq_self
    (h : ∀ piece ∈ pieces, '\n' ∉ piece ∧ piece ≠ [] ∧ Text.trim piece = piece) :
    pieceLines pieces = pieces := by
  have hpieces : pieces.flatMap Text.lines = pieces.flatMap fun piece => [piece] :=
    List.flatMap_congr fun piece hpiece => Text.lines_of_not_mem (h piece hpiece).1 (h piece hpiece).2.1
  rw [pieceLines, hpieces, List.flatMap_singleton', List.map_congr_left fun piece hpiece =>
    (h piece hpiece).2.2, List.map_id']

/-- **The pieces for a marker alone on its line stand on lines of their own.** -/
theorem hasLine_fill_marker (h : HasLine (gap ++ m.text.toList) text)
    (hgap : ∀ c ∈ gap, Text.isBlank c = true) (hpiece : piece ∈ pieceLines pieces)
    (hline : '\n' ∉ piece) : HasLine (gap ++ piece) (fill m pieces text) := by
  obtain ⟨hmarker, front, rest, hfront, rfl⟩ := h
  have hgapline : '\n' ∉ gap := fun hmem => hmarker (List.mem_append_left _ hmem)
  have hboth : '\n' ∉ gap ++ piece := by
    rw [List.mem_append]
    exact not_or.2 ⟨hgapline, hline⟩
  rw [fill_append hfront, fill_marker_line hgap hgapline fun hnil => absurd (hnil ▸ hpiece) (by simp)]
  exact (Text.hasLine_flatMap hpiece hboth).append (whole_fill pieces hfront) _

/-! ### Markers in turn -/

/-- **A text with markers replaced in turn**, each by pieces of its own. -/
def place (given : Marker → List (List Char)) (markers : List Marker) (text : List Char) :
    List Char :=
  markers.foldl (fun text m => fill m (given m) text) text

theorem place_cons (given : Marker → List (List Char)) (m : Marker) (markers : List Marker)
    (text : List Char) :
    place given (m :: markers) text = place given markers (fill m (given m) text) := rfl

theorem eq_fill_of_splice (h : splice m pieces text = .ok result) : result = fill m pieces text := by
  unfold splice at h
  split at h
  · exact (Except.ok.inj h).symm
  · rename_i hin
    rw [Bool.not_eq_true] at hin
    split at h
    · rw [fill_of_not_isIn pieces hin]
      exact (Except.ok.inj h).symm
    · cases h

theorem eq_place_of_splices
    (h : markers.foldlM (fun text m => splice m (given m) text) text = .ok result) :
    result = place given markers text := by
  induction markers generalizing text with
  | nil => exact (Except.ok.inj h).symm
  | cons m markers ih =>
    obtain ⟨next, hnext, h⟩ := Steps.foldlM_cons_eq_ok.1 h
    rw [ih h, eq_fill_of_splice hnext]
    rfl

/-- **A line with none of the markers stays a line of the text.** -/
theorem hasLine_place (h : HasLine line text) (hnone : ∀ m ∈ markers, m.isIn line = false) :
    HasLine line (place given markers text) := by
  induction markers generalizing text with
  | nil => exact h
  | cons m markers ih =>
    exact ih (hasLine_fill h (hnone m List.mem_cons_self) (given m))
      fun k hk => hnone k (List.mem_cons_of_mem _ hk)

/-! ### The rendering of a shape -/

variable {v : View} {shape : Shape} {root : String} {configured : Option String}

/-- **What is rendered** is the text with its markers replaced in turn and the bound variables
replaced then. -/
theorem exists_of_render (h : render v shape root configured = .ok text) : ∃ texts,
    obstacle? v shape = none ∧ conditions v shape root = .ok texts ∧
    text = Substitution.substituteBody shape.bindings
      (place (filling shape root texts) markersInTurn (base v shape root configured)) := by
  cases hobstacle : obstacle? v shape with
  | some reason =>
    rw [render_of_obstacle hobstacle] at h
    cases h
  | none =>
    rw [render_eq hobstacle] at h
    obtain ⟨texts, htexts, h⟩ := Steps.bind_eq_ok.1 h
    obtain ⟨result, hresult, h⟩ := Steps.bind_eq_ok.1 h
    refine ⟨texts, rfl, Steps.mapError_eq_ok.1 htexts, ?_⟩
    rw [← eq_place_of_splices hresult]
    exact (Except.ok.inj h).symm

/-! ### The lines of a template -/

theorem whole_render (depth : ℕ) (e : Element) : Whole (e.render depth) := by
  cases e with
  | block subject pairs =>
    have hend : " .\n".toList = " .".toList ++ ['\n'] := rfl
    rw [Element.render, hend, ← List.append_assoc]
    exact Text.whole_append_newline _
  | optional elements =>
    have hend : "\x7d\n".toList = ['\x7d'] ++ ['\n'] := rfl
    rw [Element.render, hend, ← List.append_assoc]
    exact Text.whole_append_newline _
  | raw text =>
    rw [Element.render, Element.rawText]
    exact Text.whole_flatMap fun line _ => Text.whole_append_newline _

theorem whole_renderAll (depth : ℕ) (elements : List Element) :
    Whole (Element.renderAll depth elements) := by
  induction elements with
  | nil => exact Text.whole_nil
  | cons e elements ih => exact (whole_render depth e).append ih

/-- **The last lines of a template**: the place of the conditions, the end of the pattern, and the
places of the order and of the page. -/
theorem exists_template_lines (v : View) (shape : Shape) (root : String) :
    ∃ front, Whole front ∧ template v shape root =
      front ++ ("  ".toList ++ Marker.filter.text.toList ++ '\n' :: ("\x7d\n".toList ++
        (Marker.sort.text.toList ++ '\n' :: (Marker.modifiers.text.toList ++ ['\n'])))) := by
  let compiled := Pattern.compile .full root v
  refine ⟨Clause.selectKeyword shape.distinct ++ Clause.spaced ((Clause.selected compiled.vars
    shape.projection).map (Clause.selectItem shape.bindings)) ++ "\nWHERE \x7b\n  ".toList ++
    Marker.inject.text.toList ++ ['\n'] ++ Element.renderAll 1 compiled.elements,
    (Text.whole_append_newline _).append (whole_renderAll 1 _), ?_⟩
  have hclose : "\n\x7d\n".toList = '\n' :: "\x7d\n".toList := rfl
  simp only [template, compiled, hclose, List.append_assoc, List.cons_append, List.nil_append]

end SparqlViews.Flat

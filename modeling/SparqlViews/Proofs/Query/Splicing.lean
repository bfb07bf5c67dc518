import SparqlViews.Proofs.Steps
import SparqlViews.Proofs.Text.Occurrence
import SparqlViews.Query.Flat

/-! # Markers through splices

The four markers are replaced one after the other over the whole text. No two of them can overlap
(`apart_text`), so that replacing one leaves the others where they are (`isIn_splice`), and a marker is
missed only if the text lacks it from the start (`splices_error_cases`). The template of a view has all
four (`isIn_template`).
-/

namespace SparqlViews

open Text (Apart)

namespace Marker

/-- **Two markers never overlap.** -/
theorem apart_text {m k : Marker} (h : m ≠ k) : Apart m.text.toList k.text.toList := by
  cases m <;> cases k <;> first
    | exact absurd rfl h
    | exact ⟨⟨'#', _, _, rfl, rfl, by decide, by decide⟩, by decide, by decide⟩

theorem text_ne_nil (m : Marker) : m.text.toList ≠ [] := by
  cases m <;> decide

theorem exists_text_eq (m : Marker) : ∃ more, m.text.toList = '#' :: more := by
  cases m <;> exact ⟨_, rfl⟩

@[simp] theorem newline_not_mem_text (m : Marker) : '\n' ∉ m.text.toList := by
  cases m <;> decide

theorem not_isBlank_of_mem_text (m : Marker) : ∀ c ∈ m.text.toList, Text.isBlank c = false := by
  have hall : (m.text.toList.all fun c => !Text.isBlank c) = true := by cases m <;> decide
  simpa using hall

theorem isIn_iff {m : Marker} {text : List Char} : m.isIn text = true ↔ m.text.toList <:+: text :=
  Text.occursIn_iff

end Marker

namespace Flat

variable {m k : Marker} {markers : List Marker} {pieces : List (List Char)}
  {given : Marker → List (List Char)} {text result : List Char}

/-! ### Splices -/

theorem trim_ne_of_isIn (hne : m ≠ k) {line : List Char} (h : k.isIn line = true) :
    Text.trim line ≠ m.text.toList := by
  intro honly
  have hk := Text.infix_trim k.not_isBlank_of_mem_text (Marker.isIn_iff.1 h)
  rw [honly, ← List.append_nil m.text.toList] at hk
  exact absurd (List.infix_nil.1 ((Marker.apart_text hne).infix_of_append hk)) k.text_ne_nil

theorem isIn_spliceLine (pieces : List (List Char)) (hne : m ≠ k) {line : List Char}
    (h : k.isIn line = true) :
    k.isIn (spliceLine m pieces line) = true := by
  unfold spliceLine
  split
  · exact h
  · split
    · rename_i honly
      rw [Bool.and_eq_true, decide_eq_true_eq] at honly
      exact absurd honly.2 (trim_ne_of_isIn hne h)
    · rw [Marker.isIn_iff] at h ⊢
      exact Text.infix_replaceAll (Marker.apart_text hne) _ h

/-- **A splice leaves the other markers where they are.** -/
theorem isIn_splice (hne : m ≠ k) (hsplice : splice m pieces text = .ok result)
    (h : k.isIn text = true) : k.isIn result = true := by
  unfold splice at hsplice
  split at hsplice
  · cases hsplice
    rw [Marker.isIn_iff] at h
    obtain ⟨line, hline, hk⟩ := Text.exists_line k.newline_not_mem_text k.text_ne_nil h
    have hkept := isIn_spliceLine pieces hne (Marker.isIn_iff.2 hk)
    rw [Marker.isIn_iff] at hkept ⊢
    exact hkept.trans (List.infix_of_mem_flatten (List.mem_map_of_mem hline))
  · split at hsplice
    · cases hsplice
      exact h
    · cases hsplice

/-! ### Markers in turn -/

/-- The four markers, in the order in which they are replaced. -/
def markersInTurn : List Marker := [.inject, .filter, .sort, .modifiers]

theorem splice_error_cases {e : QueryError} (h : splice m pieces text = .error e) :
    m.isIn text = false ∧ pieces ≠ [] ∧ ∃ content, e = .missingMarker m.text content := by
  unfold splice at h
  split at h
  · cases h
  · rename_i hin
    split at h
    · cases h
    · rename_i hpieces
      cases h
      exact ⟨Bool.eq_false_iff.2 hin, fun hnil => hpieces (by rw [hnil]; rfl), _, rfl⟩

/-- **A marker is missed in turn only if the text lacks it from the start.** -/
theorem splices_error_cases (hmarkers : markers.Nodup) {e : QueryError}
    (h : markers.foldlM (fun text m => splice m (given m) text) text = .error e) :
    ∃ m ∈ markers, m.isIn text = false ∧ given m ≠ [] ∧
      ∃ content, e = .missingMarker m.text content := by
  induction markers generalizing text with
  | nil => cases h
  | cons m markers ih =>
    rw [List.nodup_cons] at hmarkers
    rw [List.foldlM_cons] at h
    rcases Steps.bind_eq_error.1 h with h | ⟨next, hnext, h⟩
    · exact ⟨m, List.mem_cons_self, splice_error_cases h⟩
    · obtain ⟨k, hk, hout, hrest⟩ := ih hmarkers.2 h
      have hne : m ≠ k := fun heq => hmarkers.1 (heq ▸ hk)
      refine ⟨k, List.mem_cons_of_mem _ hk, ?_, hrest⟩
      by_contra hin
      rw [Bool.not_eq_false] at hin
      rw [isIn_splice hne hnext hin] at hout
      cases hout

/-! ### The template of a view -/

theorem exists_template_eq (v : View) (shape : Shape) (root : String) : ∃ select body close gap,
    template v shape root = [select, Marker.inject.text.toList, body, Marker.filter.text.toList,
      close, Marker.sort.text.toList, gap, Marker.modifiers.text.toList, ['\n']].flatten := by
  let compiled := Pattern.compile .full root v
  refine ⟨Clause.selectKeyword shape.distinct ++ Clause.spaced ((Clause.selected compiled.vars
      shape.projection).map (Clause.selectItem shape.bindings)) ++ "\nWHERE \x7b\n  ".toList,
    '\n' :: Element.renderAll 1 compiled.elements ++ "  ".toList, "\n\x7d\n".toList, ['\n'], ?_⟩
  simp only [template, compiled, List.flatten_cons, List.flatten_nil, List.append_assoc,
    List.cons_append, List.nil_append]

/-- **The template of a view has all four markers.** -/
theorem isIn_template (m : Marker) (v : View) (shape : Shape) (root : String) :
    m.isIn (template v shape root) = true := by
  obtain ⟨select, body, close, gap, h⟩ := exists_template_eq v shape root
  rw [Marker.isIn_iff, h]
  refine List.infix_of_mem_flatten ?_
  cases m <;> simp only [List.mem_cons, true_or, or_true]

end Flat

end SparqlViews

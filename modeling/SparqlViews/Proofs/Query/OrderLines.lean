import SparqlViews.Proofs.Query.InnerSelect
import SparqlViews.Proofs.Term.WellFormed

/-! # The order of a query as it is written

Both kinds of query end with a line that orders the results, but for the page. Its keys are those of the
request whose variables are not bound, each by its path or by the variable that carries it out of the
inner select, and the root (`ViewQuery.finalOrder?_of_render`).

* `OrderCondition`, `ViewQuery.orderConditions`: what a query is ordered by.
* `finalOrder?`: the keys of the last order of a text.
* `Flat.EndsInOrder`: the templates that end with the places of the order and of the page.
-/

namespace SparqlViews

open Substitution (Bindings Free Unbound)
open Text (Whole)

/-! ### Names -/

namespace Text

theorem not_inRanges_of_apart {r s : List (ℕ × ℕ)} (h : ∀ a ∈ r, ∀ b ∈ s, a.2 < b.1 ∨ b.2 < a.1)
    {n : ℕ} (hn : inRanges r n = true) : inRanges s n = false := by
  rw [Bool.eq_false_iff]
  intro hs
  obtain ⟨a, ha, hna⟩ := List.any_eq_true.1 hn
  obtain ⟨b, hb, hnb⟩ := List.any_eq_true.1 hs
  simp only [Bool.and_eq_true, decide_eq_true_eq] at hna hnb
  have := h a ha b hb
  omega

theorem not_isBlank_of_isAlphanumeric {c : Char} (h : isAlphanumeric c = true) :
    isBlank c = false := by
  by_cases hc : c.toNat < 128
  · have hall := forall_ascii (p := fun c => !isAlphanumeric c || !isBlank c) (by decide +kernel) hc
    simpa [h] using hall
  · rw [isAlphanumeric, if_neg hc] at h
    exact not_inRanges_of_apart (by decide +kernel) h

end Text

/-- **A name of a variable**, as far as the scanner of a query reads it. -/
def IsVariableName (name : String) : Prop := ∀ c ∈ name.toList, Substitution.isNameChar c = true

theorem Naming.isNameChar_of_isNameChar {c : Char} (h : isNameChar c = true) :
    Substitution.isNameChar c = true := by
  rw [isNameChar, Bool.or_eq_true] at h
  rw [Substitution.isNameChar, Bool.or_eq_true]
  refine h.imp_left fun hc => ?_
  rwa [Text.isAlphanumeric_of_lt (Text.lt_of_isAlphanum hc)]

theorem Path.isVariableName_toVariable {root : String} {p : Path} (hp : p ≠ [])
    (h : Naming.Legal p) : IsVariableName (toVariable root p) :=
  fun c hc => Naming.isNameChar_of_isNameChar (isNameChar_of_mem_toVariable hp h c hc)

theorem Naming.isVariableName_sortVariable (i : ℕ) : IsVariableName (sortVariable i) := by
  intro c hc
  refine isNameChar_of_isNameChar ?_
  rw [sortVariable, String.toList_append, List.mem_append] at hc
  rcases hc with hc | hc
  · have hword : ∀ y ∈ "_sort".toList, isNameChar y = true := by decide
    exact hword c hc
  · have hdigit := Nat.isDigit_of_mem_toDigits (by decide) (by decide) (Nat.toList_repr ▸ hc)
    rw [isNameChar, Text.isAlphanum_of_isDigit hdigit, Bool.true_or]

/-! ### Conditions of an order -/

/-- **What results are ordered by**: a variable, and whether its greatest values come first. -/
structure OrderCondition where
  name : String
  descending : Bool
  deriving DecidableEq, Repr

namespace OrderCondition

/-- A condition as it is written. -/
def text (c : OrderCondition) : List Char := Clause.orderKey c.name c.descending

variable {c : OrderCondition} {bindings : Bindings}

@[simp] theorem text_ne_nil (c : OrderCondition) : c.text ≠ [] := by
  unfold text Clause.orderKey
  split <;> exact List.cons_ne_nil _ _

theorem not_isBlank_of_mem_text (h : IsVariableName c.name) :
    ∀ x ∈ c.text, Text.isBlank x = false ∧ x ≠ '#' := by
  have hname : ∀ x ∈ c.name.toList, Text.isBlank x = false ∧ x ≠ '#' := by
    intro x hx
    have hchar := h x hx
    refine ⟨?_, by rintro rfl; exact absurd hchar (by decide)⟩
    rw [Substitution.isNameChar, Bool.or_eq_true, decide_eq_true_eq] at hchar
    rcases hchar with hletter | rfl
    · exact Text.not_isBlank_of_isAlphanumeric hletter
    · decide
  intro x hx
  unfold text Clause.orderKey at hx
  split at hx
  · rcases List.mem_append.1 hx with hx | hx
    · rcases List.mem_append.1 hx with hx | hx
      · have hword : ∀ y ∈ "DESC(?".toList, Text.isBlank y = false ∧ y ≠ '#' := by decide
        exact hword x hx
      · exact hname x hx
    · rw [List.mem_singleton.1 hx]
      decide
  · rcases List.mem_cons.1 hx with rfl | hx
    · decide
    · exact hname x hx

theorem free_text (h : IsVariableName c.name) (hbound : bindings.contains c.name = false) :
    Free bindings c.text := by
  have hunbound : Unbound bindings c.name.toList := by
    refine .inr ?_
    rw [String.ofList_toList]
    simpa [Table.contains] using hbound
  have hvariable : Free bindings ('?' :: c.name.toList) :=
    Substitution.free_variable h hunbound '?'
  unfold text Clause.orderKey
  split
  · have hopen : "DESC(?".toList ++ c.name.toList ++ [')'] =
        "DESC".toList ++ '(' :: ('?' :: c.name.toList ++ ')' :: []) := by simp
    rw [hopen]
    have hword : Free bindings "DESC".toList := Substitution.free_of_not_mem (by decide)
    have hnone : Free bindings [] := Substitution.free_of_not_mem (by simp)
    exact hword.append_cons (hvariable.append_cons hnone (by decide) (by decide)) (by decide)
      (by decide)
  · exact hvariable

end OrderCondition

/-! ### The line of an order -/

namespace Clause

variable {conditions : List OrderCondition} {bindings : Bindings}

/-- The line of an order. -/
def orderText (conditions : List OrderCondition) : List Char :=
  "ORDER BY".toList ++ conditions.flatMap fun c => ' ' :: c.text

theorem cons_spaced {part : List Char} (parts : List (List Char)) :
    ' ' :: spaced (part :: parts) = (part :: parts).flatMap (' ' :: ·) := by
  induction parts generalizing part with
  | nil => simp [spaced]
  | cons next parts ih =>
    rw [List.flatMap_cons, ← ih, spaced, List.intercalate_cons_cons, ← spaced]
    simp

theorem orderLine_map_text (h : conditions ≠ []) :
    orderLine (conditions.map OrderCondition.text) = some (orderText conditions) := by
  obtain ⟨first, more, rfl⟩ := List.exists_cons_of_ne_nil h
  have hspaced : ' ' :: spaced ((first :: more).map OrderCondition.text) =
      (first :: more).flatMap fun c => ' ' :: c.text := by
    rw [List.map_cons, cons_spaced, ← List.map_cons (f := OrderCondition.text), List.flatMap_map]
  unfold orderText orderLine
  rw [← hspaced, if_neg (by simp)]
  rfl

theorem orderText_chars (hnames : ∀ c ∈ conditions, IsVariableName c.name) :
    ∀ x ∈ orderText conditions, x = ' ' ∨ Text.isBlank x = false ∧ x ≠ '#' := by
  intro x hx
  have hword : ∀ y ∈ "ORDER BY".toList, y = ' ' ∨ Text.isBlank y = false ∧ y ≠ '#' := by decide
  rcases List.mem_append.1 hx with hx | hx
  · exact hword x hx
  · obtain ⟨c, hc, hx⟩ := List.mem_flatMap.1 hx
    exact (List.mem_cons.1 hx).imp_right (OrderCondition.not_isBlank_of_mem_text (hnames c hc) x)

theorem newline_not_mem_orderText (hnames : ∀ c ∈ conditions, IsVariableName c.name) :
    '\n' ∉ orderText conditions := fun hmem => by
  rcases orderText_chars hnames _ hmem with h | ⟨h, -⟩ <;> exact absurd h (by decide)

theorem getLast?_orderText_ne_return (hnames : ∀ c ∈ conditions, IsVariableName c.name) :
    ∀ c ∈ (orderText conditions).getLast?, c ≠ '\r' := by
  rintro c hc rfl
  rcases orderText_chars hnames _ (List.mem_of_mem_getLast? hc) with h | ⟨h, -⟩ <;>
    exact absurd h (by decide)

theorem not_isIn_orderText (m : Marker) (hnames : ∀ c ∈ conditions, IsVariableName c.name) :
    m.isIn (orderText conditions) = false := by
  rw [Bool.eq_false_iff, ne_eq, Marker.isIn_iff]
  intro hin
  obtain ⟨more, hmarker⟩ := m.exists_text_eq
  have hhash : '#' ∈ orderText conditions := hin.subset (hmarker ▸ List.mem_cons_self)
  rcases orderText_chars hnames _ hhash with h | ⟨-, h⟩
  · exact absurd h (by decide)
  · exact h rfl

theorem trim_orderText (hnames : ∀ c ∈ conditions, IsVariableName c.name) :
    Text.trim (orderText conditions) = orderText conditions := by
  refine Text.trim_eq_self (fun x hx => ?_) fun x hx => ?_
  · cases hx
    decide
  · rcases List.eq_nil_or_concat conditions with rfl | ⟨front, last, rfl⟩
    · cases hx
      decide
    · rw [List.concat_eq_append] at hx hnames
      have hend : orderText (front ++ [last]) = orderText front ++ [' '] ++ last.text := by
        unfold orderText
        rw [List.flatMap_append, ← List.append_assoc, List.flatMap_singleton, List.append_assoc _ [' ']]
        rfl
      rw [hend, List.getLast?_append_of_ne_nil _ last.text_ne_nil] at hx
      exact (OrderCondition.not_isBlank_of_mem_text
        (hnames last (List.mem_append_right _ (List.mem_singleton_self _))) x
        (List.mem_of_mem_getLast? hx)).1

theorem free_orderText (hnames : ∀ c ∈ conditions, IsVariableName c.name)
    (hbound : ∀ c ∈ conditions, bindings.contains c.name = false) :
    Free bindings (orderText conditions) := by
  suffices h : ∀ front, Free bindings front →
      Free bindings (front ++ conditions.flatMap fun c => ' ' :: c.text) by
    exact h _ (Substitution.free_of_not_mem (by decide))
  intro front hfront
  induction conditions generalizing front with
  | nil => simpa using hfront
  | cons c conditions ih =>
    have hc := OrderCondition.free_text (hnames c List.mem_cons_self) (hbound c List.mem_cons_self)
    have hgap : Free bindings (front ++ ' ' :: c.text) :=
      hfront.append_cons hc (by decide) (by decide)
    have hnext := ih (fun d hd => hnames d (List.mem_cons_of_mem _ hd))
      (fun d hd => hbound d (List.mem_cons_of_mem _ hd)) _ hgap
    rwa [List.flatMap_cons, ← List.append_assoc]

theorem exists_of_mem_pageLines {limit offset : Option ℕ} {line : List Char}
    (h : line ∈ pageLines limit offset) : ∃ n, line = "LIMIT ".toList ++ Nat.toDigits 10 n ∨
      line = "OFFSET ".toList ++ Nat.toDigits 10 n := by
  rcases List.mem_append.1 h with h | h
  · cases limit with
    | none => cases h
    | some n => exact ⟨n, .inl (Nat.toList_repr ▸ List.mem_singleton.1 h)⟩
  · cases offset with
    | none => cases h
    | some n =>
      dsimp only at h
      split at h
      · exact ⟨n, .inr (Nat.toList_repr ▸ List.mem_singleton.1 h)⟩
      · cases h

/-- A line of the page is a trimmed line without variables, and no order. -/
structure IsPageLine (line : List Char) : Prop where
  newline : '\n' ∉ line
  sigil : ∀ c ∈ line, ¬ (c = '?' ∨ c = '$')
  ne_nil : line ≠ []
  trim : Text.trim line = line
  last : ∀ c ∈ line.getLast?, c ≠ '\r'
  order : List.isPrefixOf? "ORDER BY ".toList line = none

theorem isPageLine_append {word : List Char} (n : ℕ) (hne : word ≠ [])
    (hchars : ∀ c ∈ word, c ≠ '\n' ∧ ¬ (c = '?' ∨ c = '$'))
    (hhead : ∀ c ∈ word.head?, Text.isBlank c = false)
    (horder : List.isPrefixOf? "ORDER BY ".toList (word ++ Nat.toDigits 10 n) = none) :
    IsPageLine (word ++ Nat.toDigits 10 n) := by
  have hdigit : ∀ c ∈ Nat.toDigits 10 n, c.isAlphanum = true ∧ Text.isBlank c = false := by
    intro c hc
    have halphanum := Text.isAlphanum_of_isDigit
      (Nat.isDigit_of_mem_toDigits (by decide) (by decide) hc)
    refine ⟨halphanum, Text.not_isBlank_of_isAlphanumeric ?_⟩
    rwa [Text.isAlphanumeric_of_lt (Text.lt_of_isAlphanum halphanum)]
  have hlast : ∀ c ∈ (word ++ Nat.toDigits 10 n).getLast?, Text.isBlank c = false := by
    intro c hc
    rw [List.getLast?_append_of_ne_nil _ Nat.toDigits_ne_nil] at hc
    exact (hdigit c (List.mem_of_mem_getLast? hc)).2
  refine ⟨fun hmem => ?_, fun c hc hsigil => ?_, by simp [hne], ?_, fun c hc => ?_, horder⟩
  · rcases List.mem_append.1 hmem with hmem | hmem
    · exact (hchars _ hmem).1 rfl
    · exact absurd (hdigit _ hmem).1 (by decide)
  · rcases List.mem_append.1 hc with hc | hc
    · exact (hchars c hc).2 hsigil
    · rcases hsigil with rfl | rfl <;> exact absurd (hdigit _ hc).1 (by decide)
  · refine Text.trim_eq_self (fun c hc => ?_) hlast
    rw [List.head?_append_of_ne_nil _ hne] at hc
    exact hhead c hc
  · rintro rfl
    exact absurd (hlast _ hc) (by decide)

theorem isPageLine_of_mem {limit offset : Option ℕ} {line : List Char}
    (h : line ∈ pageLines limit offset) : IsPageLine line := by
  obtain ⟨n, rfl | rfl⟩ := exists_of_mem_pageLines h
  · exact isPageLine_append n (by decide) (by decide) (by decide) rfl
  · exact isPageLine_append n (by decide) (by decide) (by decide) rfl

end Clause

/-! ### The last order of a text -/

/-- **The keys of the last line of a text that orders results.** -/
def finalOrder? (text : List Char) : Option (List (List Char)) :=
  (((Text.lines text).filterMap (List.isPrefixOf? "ORDER BY ".toList)).getLast?).map
    (Text.fields ' ')

/-- **The keys of an order are read back**, if only a page comes behind it. -/
theorem finalOrder?_append {conditions : List OrderCondition} {front : List Char}
    {limit offset : Option ℕ} (hfront : Whole front) (hne : conditions ≠ [])
    (hnames : ∀ c ∈ conditions, IsVariableName c.name) :
    finalOrder? (front ++ (Clause.orderText conditions ++
      '\n' :: (Clause.pageLines limit offset).flatMap (· ++ ['\n']))) =
        some (conditions.map OrderCondition.text) := by
  obtain ⟨first, more, rfl⟩ := List.exists_cons_of_ne_nil hne
  have hpage : ∀ line ∈ Clause.pageLines limit offset, Clause.IsPageLine line :=
    fun _ => Clause.isPageLine_of_mem
  have hlines : Text.lines ((Clause.pageLines limit offset).flatMap (· ++ ['\n'])) =
      Clause.pageLines limit offset :=
    Text.lines_flatMap fun line h => ⟨(hpage line h).newline, (hpage line h).last⟩
  have hnone : (Clause.pageLines limit offset).filterMap (List.isPrefixOf? "ORDER BY ".toList) = [] :=
    List.filterMap_eq_nil_iff.2 fun line h => (hpage line h).order
  have hkeys : List.isPrefixOf? "ORDER BY ".toList (Clause.orderText (first :: more)) =
      some (first.text ++ (more.map OrderCondition.text).flatMap (' ' :: ·)) := by
    rw [List.isPrefixOf?_eq_some_iff_append_eq, List.flatMap_map]
    unfold Clause.orderText
    rw [List.flatMap_cons]
    rfl
  have hspace : ∀ c ∈ first :: more, ' ' ∉ c.text := fun c hc hmem => by
    have := (OrderCondition.not_isBlank_of_mem_text (hnames c hc) _ hmem).1
    exact absurd this (by decide)
  rw [finalOrder?, Text.lines_append hfront,
    Text.lines_line (Clause.newline_not_mem_orderText hnames)
      (Clause.getLast?_orderText_ne_return hnames), hlines, List.filterMap_append,
    List.filterMap_cons_some hkeys, hnone, List.getLast?_concat, Option.map_some, List.map_cons]
  refine congrArg some (Text.fields_append_flatMap (hspace first List.mem_cons_self) ?_)
  intro part hpart
  obtain ⟨c, hc, rfl⟩ := List.mem_map.1 hpart
  exact hspace c (List.mem_cons_of_mem _ hc)

/-! ### The order of a flat query -/

namespace Flat

variable {v : View} {shape : Shape} {root : String} {configured : Option String}
  {conditions : List OrderCondition} {text : List Char}

theorem pieceLines_pageLines (limit offset : Option ℕ) :
    pieceLines (Clause.pageLines limit offset) = Clause.pageLines limit offset :=
  pieceLines_eq_self fun _ hpiece =>
    have h := Clause.isPageLine_of_mem hpiece
    ⟨h.newline, h.ne_nil, h.trim⟩

/-- **The text ends with the places of the order and of the page**, each on a line of its own. -/
def EndsInOrder (text : List Char) : Prop :=
  ∃ front, Whole front ∧
    text = front ++ (Marker.sort.text.toList ++ '\n' :: (Marker.modifiers.text.toList ++ ['\n']))

theorem endsInOrder_template (v : View) (shape : Shape) (root : String) :
    EndsInOrder (template v shape root) := by
  obtain ⟨front, hfront, htemplate⟩ := exists_template_lines v shape root
  have hclose : "\x7d\n".toList = ['\x7d'] ++ ['\n'] := rfl
  refine ⟨front ++ ("  ".toList ++ Marker.filter.text.toList ++ '\n' :: ['\x7d'] ++ ['\n']),
    hfront.append (Text.whole_append_newline _), ?_⟩
  rw [htemplate, hclose]
  simp only [List.append_assoc, List.cons_append, List.nil_append]

theorem fill_bare_marker {m : Marker} {pieces : List (List Char)} (h : pieceLines pieces = pieces)
    (rest : List Char) : fill m pieces (m.text.toList ++ '\n' :: rest) =
      pieces.flatMap (· ++ ['\n']) ++ fill m pieces rest := by
  have hfill : fill m pieces ([] ++ m.text.toList ++ '\n' :: rest) =
      (pieceLines pieces).flatMap (fun piece => [] ++ piece ++ ['\n']) ++ fill m pieces rest :=
    fill_marker_line (by simp) (by simp) (fun hnil => h.symm.trans hnil) rest
  rw [h] at hfill
  exact hfill

/-- **What becomes of these places**: the order and the lines of the page. -/
theorem exists_of_place_tail (texts : List (List Char)) (htext : EndsInOrder text)
    (hkeys : orderKeys shape root = conditions.map OrderCondition.text) (hne : conditions ≠ [])
    (hnames : ∀ c ∈ conditions, IsVariableName c.name) :
    ∃ front, Whole front ∧ place (filling shape root texts) markersInTurn text =
      front ++ (Clause.orderText conditions ++
        '\n' :: (Clause.pageLines shape.limit shape.offset).flatMap (· ++ ['\n'])) := by
  obtain ⟨front, hfront, rfl⟩ := htext
  set given := filling shape root texts with hgiven
  have hline := Clause.newline_not_mem_orderText hnames
  have horder : given .sort = [Clause.orderText conditions] := by
    rw [hgiven, filling, hkeys, Clause.orderLine_map_text hne]
    rfl
  have hsort : pieceLines (given .sort) = given .sort := by
    rw [horder]
    refine pieceLines_eq_self fun piece hpiece => ?_
    rw [List.mem_singleton.1 hpiece]
    exact ⟨hline, List.append_ne_nil_of_left_ne_nil (by decide) _, Clause.trim_orderText hnames⟩
  have hpage : pieceLines (given .modifiers) = given .modifiers := pieceLines_pageLines _ _
  have hinjected := whole_fill (m := .inject) (given .inject) hfront
  have hfiltered := whole_fill (m := .filter) (given .filter) hinjected
  have hsorted := whole_fill (m := .sort) (given .sort) hfiltered
  refine ⟨_, whole_fill (m := .modifiers) (given .modifiers) hsorted, ?_⟩
  -- the first two markers are not in the last two lines
  have hother : ∀ m ∈ [Marker.inject, .filter], fill m (given m) (Marker.sort.text.toList ++
      '\n' :: (Marker.modifiers.text.toList ++ ['\n'])) =
        Marker.sort.text.toList ++ '\n' :: (Marker.modifiers.text.toList ++ ['\n']) := by
    intro m hm
    refine fill_of_not_isIn _ ?_
    revert m
    decide
  have hend : fill .sort (given .sort) (Marker.modifiers.text.toList ++ ['\n']) =
      Marker.modifiers.text.toList ++ ['\n'] := fill_of_not_isIn _ (by decide)
  have hlast : fill .modifiers (given .modifiers) (Marker.modifiers.text.toList ++ ['\n']) =
      (given .modifiers).flatMap (· ++ ['\n']) := by
    rw [fill_bare_marker hpage]
    exact List.append_nil _
  rw [markersInTurn, place_cons, place_cons, place_cons, place_cons, fill_append hfront,
    hother .inject (by simp), fill_append hinjected, hother .filter (by simp),
    fill_append hfiltered, fill_bare_marker hsort, hend, horder, List.flatMap_singleton,
    fill_append (horder ▸ hsorted), List.append_assoc (Clause.orderText conditions),
    List.singleton_append, fill_line_of_not_isIn _ hline
      (Clause.not_isIn_orderText .modifiers hnames), hlast, ← horder]
  rfl

/-- **A flat query ends with its order and its page.** -/
theorem exists_orderText_of_render (h : render v shape root configured = .ok text)
    (hbase : EndsInOrder (base v shape root configured))
    (hkeys : orderKeys shape root = conditions.map OrderCondition.text) (hne : conditions ≠ [])
    (hnames : ∀ c ∈ conditions, IsVariableName c.name)
    (hbound : ∀ c ∈ conditions, shape.isBound c.name = false) :
    ∃ front, Whole front ∧ text = front ++ (Clause.orderText conditions ++
      '\n' :: (Clause.pageLines shape.limit shape.offset).flatMap (· ++ ['\n'])) := by
  obtain ⟨texts, -, -, htext⟩ := exists_of_render h
  obtain ⟨front, hfront, hplace⟩ := exists_of_place_tail texts hbase hkeys hne hnames
  have hpage : Free shape.bindings
      ((Clause.pageLines shape.limit shape.offset).flatMap (· ++ ['\n'])) := by
    refine Substitution.free_of_not_mem fun c hc => ?_
    obtain ⟨line, hline, hc⟩ := List.mem_flatMap.1 hc
    rcases List.mem_append.1 hc with hc | hc
    · exact (Clause.isPageLine_of_mem hline).sigil c hc
    · rw [List.mem_singleton.1 hc]
      decide
  have hfree := (Clause.free_orderText hnames hbound).append_cons hpage (c := '\n') (by decide)
    (by decide)
  rw [hplace] at htext
  rcases hfront.eq_nil_or with rfl | ⟨front, rfl⟩
  · rw [List.nil_append, Substitution.substituteBody_of_free hfree] at htext
    exact ⟨[], Text.whole_nil, htext⟩
  · obtain ⟨front', hfront'⟩ := Substitution.exists_substituteBody_append front hfree
    rw [List.append_assoc, List.singleton_append, hfront'] at htext
    exact ⟨front' ++ ['\n'], Text.whole_append_newline _, by
      rw [htext, List.append_assoc, List.singleton_append]⟩

end Flat

/-! ### The order of a query with an inner select -/

/-- **A query with an inner select ends with its order.** -/
theorem Nested.exists_orderText_of_render {v : View} {shape : Shape} {root : String}
    {conditions : List OrderCondition} {text : List Char} (h : render v shape root = .ok text)
    (hkeys : orderKeys (sortColumns shape root) shape root = conditions.map OrderCondition.text)
    (hne : conditions ≠ []) :
    ∃ front, Whole front ∧ text = front ++ (Clause.orderText conditions ++ ['\n']) := by
  obtain ⟨header, inner, -, htext⟩ := exists_of_render h
  rw [outerRest, hkeys, Clause.orderLine_map_text hne, optionalLine] at htext
  have hclose : "\x7d\n".toList = ['\x7d'] ++ ['\n'] := rfl
  refine ⟨header ++ ("\nWHERE \x7b\n  \x7b\n".toList ++ (indented inner ++ ("  \x7d\n".toList ++
    Substitution.substitute shape.bindings
      (Element.renderAll 1 (Pattern.compile .full root v).elements)))) ++ ['\x7d'] ++ ['\n'],
    Text.whole_append_newline _, ?_⟩
  rw [htext, hclose]
  simp only [List.append_assoc]

/-! ### The order of a query -/

namespace ViewQuery

variable {q : ViewQuery} {text : List Char}

/-- The keys of the order whose variables are not bound. -/
def openKeys (q : ViewQuery) : List SortKey :=
  q.shape.sort.filter fun k => !q.shape.isBound (Path.toVariable q.root k.path)

/-- **What a query is ordered by**: each key that is not bound, by the variable of its path or by the
one that carries it out of the inner select, and the root. -/
def orderConditions (q : ViewQuery) : List OrderCondition :=
  (match q.strategy with
  | .flat => q.openKeys.map fun k => ⟨Path.toVariable q.root k.path, k.descending⟩
  | .nestedSelect => q.openKeys.mapIdx fun i k => ⟨Naming.sortVariable i, k.descending⟩) ++
    [⟨q.root, false⟩]

theorem orderConditions_ne_nil (q : ViewQuery) : q.orderConditions ≠ [] :=
  List.append_ne_nil_of_right_ne_nil _ (List.cons_ne_nil _ _)

theorem orderKeys_flat (hflat : q.strategy = .flat) (hfree : q.shape.isBound q.root = false) :
    Flat.orderKeys q.renderedShape q.root = q.orderConditions.map OrderCondition.text := by
  have hbound : ∀ name, q.renderedShape.isBound name = q.shape.isBound name := fun _ => rfl
  have hsort : q.renderedShape.sort = q.shape.sort := rfl
  rw [Flat.orderKeys, orderConditions, openKeys, hflat, hsort]
  simp only [hbound, List.filter_append, List.filter_map, List.map_append, List.map_map,
    List.filter_cons, List.filter_nil, hfree]
  rfl

theorem orderKeys_nested (hnested : q.strategy = .nestedSelect)
    (hfree : q.shape.isBound q.root = false) :
    Nested.orderKeys (Nested.sortColumns q.renderedShape q.root) q.renderedShape q.root =
      q.orderConditions.map OrderCondition.text := by
  have hbound : ∀ name, q.renderedShape.isBound name = q.shape.isBound name := fun _ => rfl
  have hsort : q.renderedShape.sort = q.shape.sort := rfl
  rw [Nested.orderKeys, Nested.sortColumns, orderConditions, openKeys, hnested, hsort]
  simp only [hbound, List.filter_map, List.map_append, hfree, Function.comp_def]
  congr 1
  exact List.ext_getElem (by simp) fun i _ _ => by simp [OrderCondition.text]

theorem mem_paths_of_singleValued {v : View} (hv : v.WellFormed) {p : Path}
    (h : v.singleValued p = true) : p ∈ v.paths := by
  rw [View.mem_paths_iff hv]
  have hlast := List.all_eq_true.1 h p (List.mem_append_right _ (List.mem_singleton_self p))
  obtain ⟨e, he, -⟩ := Option.any_eq_true _ _ |>.1 hlast
  rw [he]
  rfl

/-- **The last order of a query** has its conditions as keys. -/
theorem finalOrder?_of_render (hv : q.view.WellFormed) (hroot : IsVariableName q.root)
    (hfree : q.shape.isBound q.root = false)
    (htemplate : ∀ template ∈ q.template, q.strategy = .flat → Flat.EndsInOrder template.toList)
    (h : q.render = .ok text) :
    finalOrder? text = some (q.orderConditions.map OrderCondition.text) := by
  unfold render at h
  split at h
  · rename_i hflat
    obtain ⟨texts, hobstacle, -⟩ := Flat.exists_of_render h
    have hsingle := (Flat.obstacle?_eq_none_iff.1 hobstacle).2
    have hcases : ∀ c ∈ q.orderConditions, c = ⟨q.root, false⟩ ∨ ∃ k ∈ q.shape.sort,
        q.shape.isBound c.name = false ∧ c.name = Path.toVariable q.root k.path := by
      intro c hc
      rw [orderConditions, hflat] at hc
      rcases List.mem_append.1 hc with hc | hc
      · obtain ⟨k, hk, rfl⟩ := List.mem_map.1 hc
        obtain ⟨hmem, hopen⟩ := List.mem_filter.1 hk
        exact .inr ⟨k, hmem, by simpa using hopen, rfl⟩
      · exact .inl (List.mem_singleton.1 hc)
    have hnames : ∀ c ∈ q.orderConditions, IsVariableName c.name := by
      intro c hc
      rcases hcases c hc with rfl | ⟨k, hk, -, hname⟩
      · exact hroot
      · have hpath := mem_paths_of_singleValued hv (hsingle k hk)
        rw [hname]
        exact Path.isVariableName_toVariable (View.ne_nil_of_mem_paths hpath)
          (View.legal_of_mem_paths hv hpath)
    have hbound : ∀ c ∈ q.orderConditions, q.renderedShape.isBound c.name = false := by
      intro c hc
      rcases hcases c hc with rfl | ⟨k, -, hopen, -⟩
      · exact hfree
      · exact hopen
    have hbase : Flat.EndsInOrder (Flat.base q.view q.renderedShape q.root q.template) := by
      cases hconfigured : q.template with
      | none => exact Flat.endsInOrder_template _ _ _
      | some template => exact htemplate template hconfigured hflat
    obtain ⟨front, hfront, rfl⟩ := Flat.exists_orderText_of_render h hbase
      (orderKeys_flat hflat hfree) q.orderConditions_ne_nil hnames hbound
    exact finalOrder?_append hfront q.orderConditions_ne_nil hnames
  · rename_i hnested
    have hnames : ∀ c ∈ q.orderConditions, IsVariableName c.name := by
      intro c hc
      rw [orderConditions, hnested] at hc
      rcases List.mem_append.1 hc with hc | hc
      · obtain ⟨i, hi, rfl⟩ := List.mem_mapIdx.1 hc
        exact Naming.isVariableName_sortVariable i
      · rw [List.mem_singleton.1 hc]
        exact hroot
    obtain ⟨front, hfront, rfl⟩ := Nested.exists_orderText_of_render (Steps.mapError_eq_ok.1 h)
      (orderKeys_nested hnested hfree) q.orderConditions_ne_nil
    exact @finalOrder?_append _ front none none hfront q.orderConditions_ne_nil hnames

end ViewQuery

end SparqlViews

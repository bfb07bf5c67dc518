import SparqlViews.Proofs.Endpoint.RequestTerms
import SparqlViews.Proofs.Query.InnerSelect
import SparqlViews.Proofs.Query.Reachable
import SparqlViews.Proofs.Term.RoundTrip

/-! # Conditions as lines of a query

The text of a condition is put together from signs, names, properties and terms. A pattern that has no
sign in it, such as a marker or a line feed, is in a condition only if it is in one of its parts
(`Clause.not_infix_filterText`). So a condition with well-formed terms stands on one line.

* `Clause.Foreign`: the patterns that no sign and no name takes part in.
* `ViewQuery.conditions_stand_on_lines`: in queries that are reached by operations. A flat query has
  the condition as it is written unless one of the markers to come is in it; then it is rewritten
  (`condition_rewritten_at_marker`).
-/

namespace SparqlViews

/-! ### Patterns in conditions -/

namespace Clause

/-- The signs between the names, properties and terms of a condition. -/
def signs : List Char := " ()?=<>,.\x7b\x7d".toList

/-- A character of a name, or a sign. -/
def isPlain (c : Char) : Bool := Naming.isNameChar c || signs.contains c

/-- **A pattern that no sign and no name takes part in.** -/
structure Foreign (p : List Char) : Prop where
  head : ∃ c more, p = c :: more ∧ isPlain c = false
  apart : ∀ c ∈ signs, c ∉ p

theorem foreign_newline : Foreign ['\n'] := ⟨⟨'\n', [], rfl, by decide⟩, by decide⟩

theorem foreign_marker (m : Marker) : Foreign m.text.toList := by
  cases m <;> exact ⟨⟨'#', _, rfl, by decide⟩, by decide⟩

variable {p a b : List Char} {c : Char}

theorem Foreign.ne_nil (hp : Foreign p) : p ≠ [] := by
  obtain ⟨c, more, rfl, -⟩ := hp.head
  exact List.cons_ne_nil c more

theorem Foreign.not_infix_append (hp : Foreign p) (ha : ∀ c ∈ a, isPlain c = true)
    (hb : ¬ p <:+: b) : ¬ p <:+: a ++ b := by
  obtain ⟨c, more, rfl, hc⟩ := hp.head
  have hnot : c ∉ a := fun hmem => by
    rw [ha c hmem] at hc
    cases hc
  exact fun h => hb (Text.infix_of_append_of_not_mem hnot h)

theorem Foreign.not_infix_plain (hp : Foreign p) (ha : ∀ c ∈ a, isPlain c = true) :
    ¬ p <:+: a := by
  rw [← List.append_nil a]
  exact hp.not_infix_append ha fun h => hp.ne_nil (List.infix_nil.1 h)

theorem Foreign.not_infix_append_cons (hp : Foreign p) (ha : ¬ p <:+: a) (hc : c ∈ signs)
    (hb : ¬ p <:+: b) : ¬ p <:+: a ++ c :: b := by
  rw [Text.infix_append_cons (hp.apart c hc) hp.ne_nil]
  exact not_or.2 ⟨ha, hb⟩

theorem Foreign.not_infix_intercalate (hp : Foreign p) (hc : c ∈ signs)
    (ha : ∀ d ∈ a, isPlain d = true) {parts : List (List Char)}
    (hparts : ∀ part ∈ parts, ¬ p <:+: part) : ¬ p <:+: List.intercalate (c :: a) parts := by
  induction parts with
  | nil => exact fun h => hp.ne_nil (List.infix_nil.1 h)
  | cons part parts ih =>
    have hpart := hparts part List.mem_cons_self
    have hmore := ih fun q hq => hparts q (List.mem_cons_of_mem _ hq)
    cases parts with
    | nil => rwa [List.intercalate_singleton]
    | cons next parts =>
      rw [List.intercalate_cons_cons, List.append_assoc, List.cons_append]
      exact hp.not_infix_append_cons hpart hc (hp.not_infix_append ha hmore)

/-! ### Triples along a path -/

variable {v : View} {root subject : String} {base path : Path} {e : Element}

/-- **The triples along a path** have legal variables, the subject of the first one apart, and
properties of the view. -/
theorem exists_triple_of_mem_chainFrom? {P Q : String → Prop}
    (hvars : ∀ q ≠ [], Naming.Legal q → P (Path.toVariable root q)) (hv : v.WellFormed)
    (hiris : ∀ q e, v.find? q = some e → Q e.property.iri) (hbase : Naming.Legal base)
    (hsubject : P subject) {elements : List Element}
    (h : Pattern.chainFrom? root subject base v path = some elements) (he : e ∈ elements) :
    ∃ s iri o, e = .triple s iri o ∧ P s ∧ Q iri ∧ P o := by
  induction path generalizing subject base v elements with
  | nil => cases h
  | cons name path ih =>
    have hstep : ∀ {entry : Entry}, v.get? name = some entry →
        Naming.Legal (base ++ [name]) ∧ P (Path.toVariable root (base ++ [name])) ∧
          Q entry.property.iri := by
      intro entry hget
      have hname : Naming.Legal (base ++ [name]) := by
        intro n hn
        rcases List.mem_append.1 hn with hn | hn
        · exact hbase n hn
        · rw [List.mem_singleton.1 hn]
          exact (hv.of_get? hget).1
      exact ⟨hname, hvars _ (by simp) hname, hiris [name] entry (by rw [View.find?_singleton, hget])⟩
    rcases eq_or_ne path [] with rfl | hpath
    · obtain ⟨entry, hget, h⟩ := Option.bind_eq_some_iff.1 h
      cases h
      obtain ⟨-, hobject, hiri⟩ := hstep hget
      exact ⟨_, _, _, List.mem_singleton.1 he, hsubject, hiri, hobject⟩
    · rw [Pattern.chainFrom?_cons subject base name hpath] at h
      obtain ⟨entry, hget, h⟩ := Option.bind_eq_some_iff.1 h
      obtain ⟨sub, hsub, h⟩ := Option.bind_eq_some_iff.1 h
      obtain ⟨more, hmore, rfl⟩ := Option.map_eq_some_iff.1 h
      obtain ⟨hlegal, hobject, hiri⟩ := hstep hget
      rcases List.mem_cons.1 he with rfl | he
      · exact ⟨_, _, _, rfl, hsubject, hiri, hobject⟩
      · refine ih ((hv.of_get? hget).2 sub hsub) (fun q e hq => ?_) hlegal hobject hmore he
        have hne : q ≠ [] := by
          rintro rfl
          rw [View.find?_nil] at hq
          cases hq
        exact hiris (name :: q) e (by rw [View.find?_cons v name hne, hget, Option.bind_some, hsub]; exact hq)

/-- A triple on one line. -/
def tripleText (s iri o : String) : List Char :=
  '?' :: s.toList ++ ' ' :: '<' :: (iri.toList ++ '>' :: (" ?".toList ++ (o.toList ++ " .".toList)))

theorem trim_render_triple (s iri o : String) :
    Text.trim ((Element.triple s iri o).render 0) = tripleText s iri o := by
  have hrender : (Element.triple s iri o).render 0 = [] ++ tripleText s iri o ++ ['\n'] := by
    simp [Element.triple, Element.render, Element.indent, Element.variableText, Element.pairsText,
      Element.pairText, tripleText]
  have hlast : (tripleText s iri o).getLast? = some '.' := by
    simp [tripleText, List.getLast?_cons, List.getLast?_append]
  rw [hrender]
  refine Text.trim_between (by simp) (by decide) (fun c hc => ?_) (fun c hc => ?_)
  · cases hc
    decide
  · rw [hlast] at hc
    cases hc
    decide

theorem Foreign.not_infix_tripleText (hp : Foreign p) {s iri o : String} (hs : ¬ p <:+: s.toList)
    (hiri : ¬ p <:+: iri.toList) (ho : ¬ p <:+: o.toList) : ¬ p <:+: tripleText s iri o := by
  have hobject : ¬ p <:+: o.toList ++ ' ' :: ['.'] :=
    hp.not_infix_append_cons ho (by decide) (hp.not_infix_plain (by decide))
  have hproperty : ¬ p <:+: iri.toList ++ '>' :: (" ?".toList ++ (o.toList ++ ' ' :: ['.'])) :=
    hp.not_infix_append_cons hiri (by decide) (hp.not_infix_append (by decide) hobject)
  have hsubject : ¬ p <:+: '?' :: s.toList := hp.not_infix_append (a := ['?']) (by decide) hs
  exact hp.not_infix_append_cons hsubject (by decide)
    (hp.not_infix_append (a := ['<']) (by decide) hproperty)

/-! ### The text of a condition -/

/-- The pattern is neither in the root nor in a property of the view. -/
structure Avoids (p : List Char) (root : String) (v : View) : Prop where
  root : ¬ p <:+: root.toList
  properties : ∀ q e, v.find? q = some e → ¬ p <:+: e.property.iri.toList

theorem Foreign.not_infix_chain (hp : Foreign p) (hv : v.WellFormed) (h : Avoids p root v)
    {elements : List Element} (hchain : Pattern.chain root v path = .ok elements) :
    ∀ part ∈ elements.map fun e => Text.trim (e.render 0), ¬ p <:+: part := by
  intro part hpart
  obtain ⟨e, he, rfl⟩ := List.mem_map.1 hpart
  have hfrom : Pattern.chainFrom? root root [] v path = some elements := by
    unfold Pattern.chain at hchain
    split at hchain
    · rename_i elements' hfrom
      rw [hfrom, Except.ok.inj hchain]
    · cases hchain
  have hvars : ∀ q ≠ [], Naming.Legal q → ¬ p <:+: (Path.toVariable root q).toList := by
    intro q hq hlegal
    refine hp.not_infix_plain fun c hc => ?_
    rw [isPlain, Path.isNameChar_of_mem_toVariable hq hlegal c hc, Bool.true_or]
  obtain ⟨s, iri, o, rfl, hs, hiri, ho⟩ :=
    exists_triple_of_mem_chainFrom? (P := fun name => ¬ p <:+: name.toList)
      (Q := fun iri => ¬ p <:+: iri.toList) hvars hv h.properties (by decide) h.root
      hfrom he
  rw [trim_render_triple]
  exact hp.not_infix_tripleText hs hiri ho

/-- **A pattern that no sign and no name takes part in** is in a condition only if it is in one of its
terms, in the root or in a property. -/
theorem Foreign.not_infix_filterText (hp : Foreign p) (hv : v.WellFormed) (h : Avoids p root v)
    {f : Filter} (hpath : f.path ∈ v.paths) (hterms : ∀ t ∈ f.terms, ¬ p <:+: t.token)
    {text : List Char} (htext : filterText root v f = .ok text) : ¬ p <:+: text := by
  have hname : ∀ c ∈ Element.variableText (Path.toVariable root f.path), isPlain c = true := by
    intro c hc
    rcases List.mem_cons.1 hc with rfl | hc
    · decide
    · rw [isPlain, Path.isNameChar_of_mem_toVariable (View.ne_nil_of_mem_paths hpath)
        (View.legal_of_mem_paths hv hpath) c hc, Bool.true_or]
  have hopen : ∀ {a b : List Char}, (∀ c ∈ a, isPlain c = true) → (∀ c ∈ b, isPlain c = true) →
      ∀ c ∈ a ++ Element.variableText (Path.toVariable root f.path) ++ b, isPlain c = true := by
    intro a b ha hb c hc
    rcases List.mem_append.1 hc with hc | hc
    · exact (List.mem_append.1 hc).elim (ha c) (hname c)
    · exact hb c hc
  have hclose : ∀ {b : List Char}, (∀ c ∈ b, isPlain c = true) → ¬ p <:+: b := hp.not_infix_plain
  cases f with
  | equals path values =>
    cases htext
    have hlisted : ¬ p <:+: "FILTER(".toList ++ Element.variableText (Path.toVariable root path) ++
        " IN (".toList ++ (List.intercalate [',', ' '] (values.map Term.token) ++ "))".toList) := by
      refine hp.not_infix_append (hopen (by decide) (by decide)) ?_
      refine hp.not_infix_append_cons ?_ (by decide) (hclose (by decide))
      refine hp.not_infix_intercalate (by decide) (by decide) fun part hpart => ?_
      obtain ⟨t, ht, rfl⟩ := List.mem_map.1 hpart
      exact hterms t ht
    unfold equalsText
    split
    · rename_i value
      have hvalue := hterms value (List.mem_singleton_self value)
      rw [List.append_assoc]
      exact hp.not_infix_append (hopen (by decide) (by decide))
        (hp.not_infix_append_cons hvalue (by decide) (hclose (by decide)))
    · rw [List.append_assoc]
      exact hlisted
  | range path comparison value =>
    cases htext
    have hvalue := hterms value (List.mem_singleton_self value)
    have hcompare : ∀ c ∈ ' ' :: comparison.symbol.toList ++ [' '], isPlain c = true := by
      cases comparison <;> decide
    have hsplit : "FILTER(".toList ++ Element.variableText (Path.toVariable root path) ++
        ' ' :: comparison.symbol.toList ++ ' ' :: value.token ++ [')'] =
        "FILTER(".toList ++ Element.variableText (Path.toVariable root path) ++
          (' ' :: comparison.symbol.toList ++ [' ']) ++ (value.token ++ ')' :: []) := by simp
    rw [Filter.path, hsplit]
    exact hp.not_infix_append (hopen (by decide) hcompare)
      (hp.not_infix_append_cons hvalue (by decide) (hclose (by decide)))
  | present path mustExist =>
    obtain ⟨elements, hchain, htext⟩ := Steps.bind_eq_ok.1 htext
    cases htext
    have hparts := hp.not_infix_chain hv h hchain
    rw [List.append_assoc]
    refine hp.not_infix_append (by cases mustExist <;> decide) ?_
    exact hp.not_infix_append_cons (hp.not_infix_intercalate (by decide) (by simp) hparts)
      (by decide) (hclose (by decide))

theorem ends_of_filterText {f : Filter} {text : List Char} (h : filterText root v f = .ok text) :
    text.head? = some 'F' ∧ (text.getLast? = some ')' ∨ text.getLast? = some '\x7d') := by
  have hlast : ∀ (front : List Char) (c d : Char), (front ++ [c, d]).getLast? = some d := by
    intro front c d
    rw [← List.singleton_append, ← List.append_assoc, List.getLast?_concat]
  cases f with
  | equals path values =>
    cases h
    unfold equalsText
    split
    · exact ⟨rfl, .inl List.getLast?_concat⟩
    · exact ⟨rfl, .inl (hlast _ ')' ')')⟩
  | range path comparison value =>
    cases h
    exact ⟨rfl, .inl List.getLast?_concat⟩
  | present path mustExist =>
    obtain ⟨elements, -, h⟩ := Steps.bind_eq_ok.1 h
    cases h
    refine ⟨?_, .inr (hlast _ ' ' '\x7d')⟩
    cases mustExist <;> rfl

theorem not_isBlank_ends {f : Filter} {text : List Char} (h : filterText root v f = .ok text) :
    (∀ c ∈ text.head?, Text.isBlank c = false) ∧ ∀ c ∈ text.getLast?, Text.isBlank c = false := by
  obtain ⟨hhead, hlast⟩ := ends_of_filterText h
  rw [hhead]
  refine ⟨fun c hc => by cases hc; decide, fun c hc => ?_⟩
  rcases hlast with hlast | hlast
  · rw [hlast] at hc
    cases hc
    decide
  · rw [hlast] at hc
    cases hc
    decide

end Clause

/-! ### Lines of a flat query -/

variable {v : View} {shape : Shape} {root : String} {f : Filter} {condition text : List Char}

theorem Clause.mem_pieceLines (h : filterText root v f = .ok condition) (hline : '\n' ∉ condition)
    {pieces : List (List Char)} (hmem : condition ∈ pieces) : condition ∈ Flat.pieceLines pieces := by
  obtain ⟨hhead, hlast⟩ := not_isBlank_ends h
  have hne : condition ≠ [] := by
    rintro rfl
    cases (ends_of_filterText h).1
  refine List.mem_map.2 ⟨condition, List.mem_flatMap.2 ⟨condition, hmem, ?_⟩, ?_⟩
  · rw [Text.lines_of_not_mem hline hne]
    exact List.mem_singleton_self _
  · exact Text.trim_eq_self hhead hlast

theorem Flat.exists_of_conditions {texts : List (List Char)}
    (h : conditions v shape root = .ok texts) (hf : f ∈ shape.filters) :
    ∃ condition ∈ texts, Clause.filterText root v f = .ok condition := by
  obtain ⟨filters, hfilters, h⟩ := Steps.bind_eq_ok.1 h
  obtain ⟨condition, hmem, hcondition⟩ := Steps.exists_mem_of_mapM hfilters hf
  cases h
  exact ⟨condition, List.mem_append_left _ hmem, hcondition⟩

/-- **A condition without a later marker is a line of a flat query.** -/
theorem Flat.hasLine_of_render (h : render v shape root none = .ok text)
    (hbindings : shape.bindings = ∅) (hf : f ∈ shape.filters)
    (hcondition : Clause.filterText root v f = .ok condition) (hline : '\n' ∉ condition)
    (hsort : Marker.sort.isIn condition = false)
    (hmodifiers : Marker.modifiers.isIn condition = false) :
    Text.HasLine ("  ".toList ++ condition) text := by
  obtain ⟨texts, -, htexts, htext⟩ := exists_of_render h
  obtain ⟨condition', hmem, hcondition'⟩ := exists_of_conditions htexts hf
  obtain rfl : condition' = condition := Except.ok.inj (hcondition'.symm.trans hcondition)
  have hbase : Text.HasLine ("  ".toList ++ Marker.filter.text.toList) (base v shape root none) := by
    obtain ⟨front, hfront, htemplate⟩ := exists_template_lines v shape root
    exact ⟨by decide, front, _, hfront, htemplate⟩
  have hinjected := hasLine_fill (m := .inject) hbase (by decide) (filling shape root texts .inject)
  have hfilled := hasLine_fill_marker hinjected (by decide)
    (Clause.mem_pieceLines hcondition hline hmem) hline
  have hindent : ∀ {m : Marker}, m.isIn condition' = false →
      m.isIn ("  ".toList ++ condition') = false := by
    intro m hm
    rw [Bool.eq_false_iff, ne_eq, Marker.isIn_iff] at hm ⊢
    exact (Clause.foreign_marker m).not_infix_append (by decide) hm
  have hlater : ∀ m ∈ [Marker.sort, .modifiers], m.isIn ("  ".toList ++ condition') = false := by
    intro m hm
    rcases List.mem_cons.1 hm with rfl | hm
    · exact hindent hsort
    · rw [List.mem_singleton.1 hm]
      exact hindent hmodifiers
  have hplaced : Text.HasLine _ (place (filling shape root texts) _ _) :=
    hasLine_place hfilled hlater
  rw [htext, hbindings, Substitution.substituteBody_of_free (Substitution.free_empty _),
    markersInTurn, place_cons, place_cons]
  exact hplaced

/-! ### Conditions of well-formed terms -/

theorem newline_not_mem_escape (s : List Char) : '\n' ∉ escape s := by
  intro h
  obtain ⟨c, -, hc⟩ := List.mem_flatMap.1 h
  unfold escapeChar at hc
  split_ifs at hc with hback hquote hline hreturn htab <;> simp at hc
  exact hline hc.symm

/-- **A well-formed term is written on one line.** -/
theorem Term.newline_not_mem_token {t : Term} (h : t.WellFormed) : '\n' ∉ t.token := by
  have hiri : ∀ {s : String}, isIri s = true → '\n' ∉ s.toList := fun hs hmem =>
    absurd (List.all_eq_true.1 hs _ hmem) (by decide)
  have hquoted := newline_not_mem_escape
  cases t with
  | iri s => simp [Term.token, hiri h]
  | blank label =>
    have hlabel : '\n' ∉ label.toList := fun hmem =>
      absurd (List.all_eq_true.1 h.2 _ hmem) (by decide)
    simp [Term.token, hlabel]
  | literal lexical kind =>
    cases kind with
    | plain => simp [Term.token, hquoted]
    | language tag =>
      have htag : '\n' ∉ tag.toList := fun hmem =>
        absurd (isSmall_or_hyphen_of_isLanguageTag h _ hmem) (by decide)
      simp [Term.token, hquoted, htag]
    | datatype name => simp [Term.token, hquoted, hiri h.1]

theorem Nested.raw_mem_innerPattern {body : List Element}
    (h : innerPattern v shape root = .ok body) (hf : f ∈ shape.filters)
    (hcondition : Clause.filterText root v f = .ok condition) :
    Element.raw (String.ofList condition) ∈ body := by
  obtain ⟨filtered, -, h⟩ := Steps.bind_eq_ok.1 h
  obtain ⟨sorted, -, h⟩ := Steps.bind_eq_ok.1 h
  obtain ⟨texts, htexts, h⟩ := Steps.bind_eq_ok.1 h
  obtain ⟨condition', hmem, hcondition'⟩ := Steps.exists_mem_of_mapM htexts hf
  obtain rfl : condition' = condition := Except.ok.inj (hcondition'.symm.trans hcondition)
  rw [← Except.ok.inj h]
  exact List.mem_append_left _ (List.mem_append_right _ (List.mem_map_of_mem hmem))

namespace ViewQuery

variable {q : ViewQuery} {strategy : Strategy}

theorem render_of_build {text : String} (h : q.build = .ok text)
    (htransforms : q.shape.transforms = []) : q.render = .ok text.toList := by
  obtain ⟨chars, hrender, htext⟩ := exists_render_of_build h
  rw [htext, Shape.transform, htransforms, List.foldl_nil, String.toList_ofList, hrender]

theorem Grounded.exists_hasLine (h : Grounded v strategy q) (hbindings : q.shape.bindings = ∅)
    {text : List Char} (hrender : q.render = .ok text) (hf : f ∈ q.shape.filters)
    (hcondition : Clause.filterText q.root v f = .ok condition) (hline : '\n' ∉ condition)
    (hmarkers : strategy = .flat → ∀ m ∈ [Marker.sort, .modifiers], m.isIn condition = false) :
    ∃ gap, (∀ c ∈ gap, Text.isBlank c = true) ∧ Text.HasLine (gap ++ condition) text := by
  obtain ⟨hhead, hlast⟩ := Clause.not_isBlank_ends hcondition
  cases strategy with
  | flat =>
    have hflat : Flat.render v q.renderedShape q.root none = .ok text := by
      rwa [ViewQuery.render, h.strategy, h.view, h.template] at hrender
    have hfree := hmarkers rfl
    exact ⟨"  ".toList, by decide, Flat.hasLine_of_render hflat hbindings hf hcondition hline
      (hfree .sort (by simp)) (hfree .modifiers (by simp))⟩
  | nestedSelect =>
    have hnested : Nested.render v q.renderedShape q.root = .ok text := by
      rw [ViewQuery.render, h.strategy, h.view] at hrender
      exact Steps.mapError_eq_ok.1 hrender
    have hne : condition ≠ [] := by
      rintro rfl
      cases (Clause.ends_of_filterText hcondition).1
    have hreturn : ∀ c ∈ condition.getLast?, c ≠ '\r' := by
      rintro c hc rfl
      cases hlast _ hc
    exact ⟨"      ".toList, by decide, Nested.hasLine_of_innerPattern hnested hbindings
      (fun body hbody => Nested.raw_mem_innerPattern hbody hf hcondition) hline hne
      (Text.trim_eq_self hhead hlast) hreturn⟩

/-- **The conditions of a query stand on lines of their own.** In a query that is built over a view
whose properties have no line feed, the condition of every filter with well-formed terms is a line, as
it is written, whatever the terms are. In a flat query this needs that neither the root, nor the
properties, nor the terms of the filter have the marker of the order or that of the page, which are
replaced after the conditions are put in. -/
theorem conditions_stand_on_lines (hv : v.WellFormed) {operations : List Operation}
    (hq : (start v strategy).run operations = .ok q) (hbindings : q.shape.bindings = ∅)
    (htransforms : q.shape.transforms = []) (hlines : Clause.Avoids ['\n'] q.root v)
    (hmarkers : strategy = .flat → ∀ m ∈ [Marker.sort, .modifiers],
      Clause.Avoids m.text.toList q.root v)
    {text : String} (h : q.build = .ok text) :
    ∀ f ∈ q.shape.filters, (∀ t ∈ f.terms, t.WellFormed) →
      (strategy = .flat → ∀ m ∈ [Marker.sort, .modifiers], ∀ t ∈ f.terms,
        m.isIn t.token = false) →
      ∃ condition, Clause.filterText q.root v f = .ok condition ∧
        condition ∈ (Text.lines text.toList).map Text.trim := by
  intro f hf hterms hfree
  have hground := (Grounded.start v strategy).run hv hq
  have hpath := hground.filters f hf
  obtain ⟨condition, hcondition⟩ := Clause.exists_filterText q.root (Grounded.isSome_find? hv hpath)
  have hline : '\n' ∉ condition := by
    have hnone := Clause.foreign_newline.not_infix_filterText hv hlines hpath
      (fun t ht => by rw [List.singleton_infix_iff]; exact Term.newline_not_mem_token (hterms t ht))
      hcondition
    rwa [List.singleton_infix_iff] at hnone
  have hapart : strategy = .flat → ∀ m ∈ [Marker.sort, .modifiers], m.isIn condition = false := by
    intro hflat m hm
    rw [Bool.eq_false_iff, ne_eq, Marker.isIn_iff]
    refine (Clause.foreign_marker m).not_infix_filterText hv (hmarkers hflat m hm) hpath
      (fun t ht => ?_) hcondition
    rw [← Marker.isIn_iff, hfree hflat m hm t ht]
    decide
  obtain ⟨hhead, hlast⟩ := Clause.not_isBlank_ends hcondition
  obtain ⟨gap, hgap, hplace⟩ := hground.exists_hasLine hbindings
    (render_of_build h htransforms) hf hcondition hline hapart
  have htrim : Text.trim (gap ++ condition) = condition := by
    have hbetween : Text.trim (gap ++ condition ++ []) = condition :=
      Text.trim_between hgap (by simp) hhead hlast
    rwa [List.append_nil] at hbetween
  have hmem : gap ++ condition ∈ Text.lines text.toList := hplace.mem_lines fun c hc hreturn => by
    have hne : condition ≠ [] := by
      rintro rfl
      cases (Clause.ends_of_filterText hcondition).1
    rw [List.getLast?_append_of_ne_nil _ hne] at hc
    cases hreturn
    cases hlast _ hc
  exact ⟨condition, hcondition, List.mem_map.2 ⟨_, hmem, htrim⟩⟩

/-- A view of notes. -/
def noteView : View := .leaf { name := "note", iri := "http://e/note" } .empty

theorem avoids_noteView {p : List Char} (hroot : Text.occursIn p "id".toList = false)
    (hiri : Text.occursIn p "http://e/note".toList = false) : Clause.Avoids p "id" noteView where
  root h := by
    rw [Text.occursIn_iff.2 h] at hroot
    cases hroot
  properties path e he := by
    have hnote : e.property.iri = "http://e/note" := by
      rcases path with _ | ⟨name, _ | ⟨next, path⟩⟩
      · cases he
      · rw [View.find?_singleton, noteView, View.get?_leaf] at he
        split at he
        · cases he
          rfl
        · cases he
      · rw [View.find?_cons _ _ (List.cons_ne_nil next path), noteView, View.get?_leaf] at he
        split at he <;> cases he
    intro h
    rw [hnote] at h
    rw [Text.occursIn_iff.2 h] at hiri
    cases hiri

/-- A note that quotes the marker of the conditions is asked for as it is. -/
theorem conditions_stand_on_lines_of_note :
    ∃ q text, (start noteView .flat).run [.filter "note" [.plain "\"#$FILTER$\""]] = .ok q ∧
      q.build = .ok text ∧
      "FILTER(?note = \"\\\"#$FILTER$\\\"\")".toList ∈ (Text.lines text.toList).map Text.trim := by
  obtain ⟨q, hq, hroot, hfilters, hbindings, htransforms⟩ : ∃ q,
      (start noteView .flat).run [.filter "note" [.plain "\"#$FILTER$\""]] = .ok q ∧
        q.root = "id" ∧ q.shape.filters = [.equals ["note"] [.plain "\"#$FILTER$\""]] ∧
        q.shape.bindings = ∅ ∧ q.shape.transforms = [] := ⟨_, rfl, rfl, rfl, rfl, rfl⟩
  obtain ⟨text, htext⟩ : ∃ text, q.build = .ok text := by
    cases hq
    exact ⟨_, rfl⟩
  have hline : Clause.Avoids ['\n'] q.root noteView := hroot ▸ avoids_noteView (by decide) (by decide)
  have hmarkers : ∀ m ∈ [Marker.sort, .modifiers], Clause.Avoids m.text.toList q.root noteView := by
    intro m hm
    rw [hroot]
    exact avoids_noteView (by cases m <;> decide) (by cases m <;> decide)
  obtain ⟨condition, hcondition, hmem⟩ := conditions_stand_on_lines (by decide) hq hbindings
    htransforms hline (fun _ => hmarkers) htext (.equals ["note"] [.plain "\"#$FILTER$\""])
    (by rw [hfilters]; exact List.mem_singleton_self _)
    (fun t ht => by rw [List.mem_singleton.1 ht]; trivial)
    (fun _ m hm t ht => by
      rw [List.mem_singleton.1 ht]
      rcases List.mem_cons.1 hm with rfl | hm
      · decide
      · rw [List.mem_singleton.1 hm]
        decide)
  cases hcondition
  exact ⟨q, text, hq, htext, by rwa [hroot] at hmem⟩

/-- **A value with the marker of the order is rewritten** when the order is put in: the condition on
it is no line of the flat query, in which another value is asked for. -/
theorem condition_rewritten_at_marker :
    noteView.WellFormed ∧ (Term.plain "#$SORT$").WellFormed ∧
    (∀ m : Marker, Clause.Avoids m.text.toList "id" noteView) ∧
    Clause.filterText "id" noteView (.equals ["note"] [.plain "#$SORT$"]) =
      .ok "FILTER(?note = \"#$SORT$\")".toList ∧
    ∃ q text, (start noteView .flat).run [.filter "note" [.plain "#$SORT$"]] = .ok q ∧
      q.root = "id" ∧ q.shape.filters = [.equals ["note"] [.plain "#$SORT$"]] ∧
      q.shape.bindings = ∅ ∧ q.shape.transforms = [] ∧ q.build = .ok text ∧
      "FILTER(?note = \"#$SORT$\")".toList ∉ (Text.lines text.toList).map Text.trim ∧
      "FILTER(?note = \"ORDER BY ?id\")".toList ∈ (Text.lines text.toList).map Text.trim := by
  refine ⟨by decide, trivial, fun m => avoids_noteView (by cases m <;> decide)
    (by cases m <;> decide), rfl, ?_⟩
  exact ⟨_, "SELECT ?id ?note\nWHERE \x7b\n  ?id <http://e/note> ?note .\n" ++
    "  FILTER(?note = \"ORDER BY ?id\")\n\x7d\nORDER BY ?id\n", rfl, rfl, rfl, rfl, rfl, rfl,
    by decide +kernel, by decide +kernel⟩

end ViewQuery

end SparqlViews

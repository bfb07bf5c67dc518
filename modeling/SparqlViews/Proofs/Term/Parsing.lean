import SparqlViews.Proofs.Term.Grammar

/-! # What a compact text is read as

Whatever a reader takes from the front of a text is a text of its form (`exists_form_of_mem_forms`),
and a form before white space is taken to its end. So the readings of a text are those of the grammar
(`read?_eq_some_iff`), there is one at most (`Layout.unique`), and it does not matter in which order the
forms are tried (`read?_eq_some_iff_exists_form`).
-/

namespace SparqlViews.Compact

/-! ### What the readers take -/

variable {cs text body carried rest after before behind : List Char} {c quote : Char} {n : Name}
  {reading : Reading} {suffix : Suffix}

theorem eq_takeWhile_append {p : Char → Bool} (h : cs.dropWhile p = rest) :
    cs = cs.takeWhile p ++ rest := by
  rw [← h, List.takeWhile_append_dropWhile]

theorem exists_of_fullIri? (h : fullIri? cs = some (n, after)) :
    ∃ text, NameText text n ∧ cs = text ++ after := by
  unfold fullIri? at h
  split at h
  · rename_i rest
    split at h
    · rename_i behind hclose
      cases h
      refine ⟨_, .full fun c hc => List.mem_takeWhile_imp hc, ?_⟩
      rw [List.append_assoc, List.cons_append, List.singleton_append, ← eq_takeWhile_append hclose]
    · cases h
  · cases h

theorem namespaceLabel_leads (cs : List Char) : namespaceLabel cs <+: cs := by
  cases cs with
  | nil => exact List.nil_prefix
  | cons c rest =>
    rw [namespaceLabel]
    split
    · exact (List.prefix_cons_inj c).2 (List.takeWhile_prefix _)
    · exact List.nil_prefix

theorem isNamespaceLabel_namespaceLabel (cs : List Char) : IsNamespaceLabel (namespaceLabel cs) := by
  cases cs with
  | nil => trivial
  | cons c rest =>
    rw [namespaceLabel]
    split
    · rename_i hletter
      exact ⟨hletter, fun d hd => List.mem_takeWhile_imp hd⟩
    · trivial

theorem exists_of_labelledName? (h : labelledName? cs = some (n, after)) :
    ∃ text, NameText text n ∧ cs = text ++ after := by
  unfold labelledName? at h
  split at h
  · rename_i rest hcolon
    cases h
    refine ⟨_, .labelled (isNamespaceLabel_namespaceLabel cs)
      fun c hc => List.mem_takeWhile_imp hc, ?_⟩
    rw [List.append_assoc, List.cons_append, List.takeWhile_append_dropWhile, ← hcolon]
    exact (List.prefix_iff_eq_append.1 (namespaceLabel_leads cs)).symm
  · cases h

theorem exists_of_name? (h : name? cs = some (n, after)) :
    ∃ text, NameText text n ∧ cs = text ++ after := by
  rw [name?, Option.or_eq_some_iff] at h
  rcases h with h | ⟨-, h⟩
  · exact exists_of_fullIri? h
  · exact exists_of_labelledName? h

theorem exists_of_quotedBody? (h : quotedBody? quote cs = some (body, after)) :
    ∃ text, QuotedText quote text body ∧ cs = text ++ quote :: after := by
  fun_induction quotedBody? quote cs generalizing body with
  | case1 => cases h
  | case2 rest =>
    cases h
    exact ⟨[], .nil, rfl⟩
  | case3 => cases h
  | case4 c rest _ ih =>
    obtain ⟨⟨body, behind⟩, hbody, heq⟩ := Option.map_eq_some_iff.1 h
    cases heq
    obtain ⟨text, htext, rfl⟩ := ih hbody
    exact ⟨_, .escaped c htext, rfl⟩
  | case5 c rest hquote hback ih =>
    obtain ⟨⟨body, behind⟩, hbody, heq⟩ := Option.map_eq_some_iff.1 h
    cases heq
    obtain ⟨text, htext, rfl⟩ := ih hbody
    exact ⟨_, .plain hquote hback htext, rfl⟩

theorem tagParts_fst_append_snd (inside : Bool) (cs : List Char) :
    (tagParts inside cs).1 ++ (tagParts inside cs).2 = cs := by
  induction cs generalizing inside with
  | nil => rfl
  | cons c rest ih =>
    rw [tagParts]
    split
    · dsimp only
      rw [List.cons_append, ih]
    · rfl

theorem exists_of_language? {tag : String} (h : language? cs = some (tag, after)) :
    ∃ carried, SuffixText carried (.language tag) ∧ cs = carried ++ after := by
  unfold language? at h
  split at h
  · rename_i rest
    split at h
    · cases h
    · rename_i first hne
      obtain ⟨here, parts, heq, -, hout, -, hparts⟩ := tagParts_eq false (rest.dropWhile isLetter)
      rw [hout rfl, List.nil_append] at heq
      have hsplit := tagParts_fst_append_snd false (rest.dropWhile isLetter)
      cases h
      rw [heq] at hsplit ⊢
      refine ⟨_, .language hne (fun c hc => List.mem_takeWhile_imp hc) hparts, ?_⟩
      rw [List.cons_append, List.append_assoc, hsplit, List.takeWhile_append_dropWhile]
  · cases h

theorem exists_of_datatype? (h : datatype? cs = some (n, after)) :
    ∃ carried, SuffixText carried (.datatype n) ∧ cs = carried ++ after := by
  unfold datatype? at h
  split at h
  · obtain ⟨text, htext, rfl⟩ := exists_of_name? h
    exact ⟨_, .datatype htext, rfl⟩
  · cases h

theorem exists_of_quoted? (h : quoted? cs = some (body, after)) :
    ∃ quote text, (quote = '"' ∨ quote = '\'') ∧ QuotedText quote text body ∧
      cs = quote :: text ++ quote :: after := by
  unfold quoted? at h
  split at h
  · split at h
    · rename_i quote _ hquote
      obtain ⟨text, htext, rfl⟩ := exists_of_quotedBody? h
      exact ⟨quote, text, hquote, htext, rfl⟩
    · cases h
  · cases h

theorem exists_of_quotedLiteral? (h : quotedLiteral? cs = some (reading, after)) :
    ∃ text, Form text reading ∧ cs = text ++ after := by
  unfold quotedLiteral? at h
  split at h
  · cases h
  · rename_i body rest hquoted
    obtain ⟨quote, text, hquote, htext, rfl⟩ := exists_of_quoted? hquoted
    obtain ⟨carried, suffix, hsuffix, rfl, rfl⟩ : ∃ carried suffix, SuffixText carried suffix ∧
        rest = carried ++ after ∧ reading = .literal (String.ofList body) suffix := by
      dsimp only at h
      split at h
      · rename_i hlanguage
        cases h
        obtain ⟨carried, hcarried, heq⟩ := exists_of_language? hlanguage
        exact ⟨carried, _, hcarried, heq, rfl⟩
      · split at h
        · rename_i hdatatype
          cases h
          obtain ⟨carried, hcarried, heq⟩ := exists_of_datatype? hdatatype
          exact ⟨carried, _, hcarried, heq, rfl⟩
        · cases h
          exact ⟨[], _, .none, rfl, rfl⟩
    refine ⟨_, .quoted hquote htext hsuffix, ?_⟩
    rw [List.append_assoc, List.cons_append]
    rfl

theorem exists_of_blank? {label : String} (h : blank? cs = some (label, after)) :
    ∃ text, Form text (.blank label) ∧ cs = text ++ after := by
  unfold blank? at h
  split at h
  · rename_i rest
    split at h
    · cases h
    · rename_i hne
      cases h
      refine ⟨_, .blank hne fun c hc => List.mem_takeWhile_imp hc, ?_⟩
      rw [List.cons_append, List.cons_append, List.takeWhile_append_dropWhile]
  · cases h

theorem sign_eq (cs : List Char) : IsSign (sign cs).1 ∧ cs = (sign cs).1 ++ (sign cs).2 := by
  cases cs with
  | nil => exact ⟨.inl rfl, rfl⟩
  | cons c rest =>
    rw [sign]
    split
    · rename_i hc
      rcases hc with rfl | rfl
      · exact ⟨.inr (.inl rfl), rfl⟩
      · exact ⟨.inr (.inr rfl), rfl⟩
    · exact ⟨.inl rfl, rfl⟩

theorem isDigits_takeWhile (cs : List Char) : IsDigits (cs.takeWhile Char.isDigit) :=
  fun _ hc => List.mem_takeWhile_imp hc

theorem exists_of_mantissa? {m : List Char} (h : mantissa? cs = some (m, after)) :
    (∃ hasPoint, Mantissa m hasPoint) ∧ cs = m ++ after := by
  have hdigits := isDigits_takeWhile cs
  rw [mantissa?.eq_def] at h
  split at h
  · rename_i rest hnone hpoint
    have hcs := eq_takeWhile_append hpoint
    rw [hnone, List.nil_append] at hcs
    split at h
    · cases h
    · rename_i hne
      cases h
      refine ⟨⟨_, .fraction hne (isDigits_takeWhile rest)⟩, ?_⟩
      rw [List.cons_append, List.takeWhile_append_dropWhile, hcs]
  · cases h
  · rename_i rest hpoint hne
    have hcs := eq_takeWhile_append hpoint
    cases h
    refine ⟨⟨_, .pointed hne hdigits (isDigits_takeWhile rest)⟩, ?_⟩
    rw [List.append_assoc, List.cons_append, List.takeWhile_append_dropWhile, ← hcs]
  · rename_i hne _ _
    cases h
    exact ⟨⟨_, .whole hne hdigits⟩, (List.takeWhile_append_dropWhile).symm⟩

theorem exists_of_exponent? {e : List Char} (h : exponent? cs = some (e, after)) :
    (e = [] ∨ Exponent e) ∧ cs = e ++ after := by
  unfold exponent? at h
  split at h
  · rename_i c rest
    split at h
    · rename_i hc
      obtain ⟨hs, hrest⟩ := sign_eq rest
      dsimp only at h
      split at h
      · cases h
      · rename_i hne
        cases h
        refine ⟨.inr (.intro hc hs hne (isDigits_takeWhile _)), ?_⟩
        rw [List.append_assoc, List.cons_append, List.takeWhile_append_dropWhile, ← hrest]
    · cases h
      exact ⟨.inl rfl, rfl⟩
  · cases h
    exact ⟨.inl rfl, rfl⟩

theorem exists_of_number? (h : number? cs = some (reading, after)) :
    ∃ text, Form text reading ∧ cs = text ++ after := by
  obtain ⟨hs, hcs⟩ := sign_eq cs
  rw [number?] at h
  generalize sign cs = signed at h hs hcs
  obtain ⟨⟨m, afterMantissa⟩, hmantissa, h⟩ := Option.bind_eq_some_iff.1 h
  obtain ⟨⟨e, afterExponent⟩, hexponent, h⟩ := Option.bind_eq_some_iff.1 h
  obtain ⟨⟨hasPoint, hm⟩, hrest⟩ := exists_of_mantissa? hmantissa
  obtain ⟨he, hafter⟩ := exists_of_exponent? hexponent
  cases h
  refine ⟨_, .number ?_, ?_⟩
  · rw [numberDatatype_eq hs hm he]
    rcases he with rfl | he
    · rw [List.append_nil, if_neg (by simp)]
      cases hasPoint with
      | false => exact .integer hs hm
      | true => exact .decimal hs hm
    · rw [if_pos he.ne_nil]
      exact .double hs hm he
  · rw [List.append_assoc, List.append_assoc, ← hafter, ← hrest, ← hcs]

theorem exists_of_boolean? (h : boolean? cs = some (reading, after)) :
    ∃ text, Form text reading ∧ cs = text ++ after := by
  unfold boolean? at h
  split at h <;> cases h
  · exact ⟨_, .trueWord, rfl⟩
  · exact ⟨_, .falseWord, rfl⟩

/-! ### The readings of a text -/

/-- The readers of the forms. -/
def forms : List (List Char → Option (Reading × List Char)) :=
  [quotedLiteral?, fun cs => (name? cs).map fun (n, rest) => (.name n, rest),
    fun cs => (blank? cs).map fun (label, rest) => (.blank label, rest), number?, boolean?]

theorem form?_eq (cs : List Char) : form? cs = forms.findSome? fun read => read cs := by
  have hcons : ∀ (read : List Char → Option (Reading × List Char)) (more : List _),
      (read :: more).findSome? (fun read => read cs) =
        (read cs).or (more.findSome? fun read => read cs) := by
    intro read more
    rw [List.findSome?_cons]
    cases read cs <;> rfl
  simp only [form?, forms, hcons, List.findSome?_nil, Option.or_none, Option.or_assoc]

/-- **A reader of forms takes a form from the front of a text.** -/
theorem exists_form_of_mem_forms : ∀ read ∈ forms, read cs = some (reading, after) →
    ∃ text, Form text reading ∧ cs = text ++ after := by
  intro read hread h
  simp only [forms, List.mem_cons, List.not_mem_nil, or_false] at hread
  rcases hread with rfl | rfl | rfl | rfl | rfl
  · exact exists_of_quotedLiteral? h
  · obtain ⟨⟨n, rest⟩, hname, heq⟩ := Option.map_eq_some_iff.1 h
    cases heq
    obtain ⟨text, htext, hcs⟩ := exists_of_name? hname
    exact ⟨text, .name htext, hcs⟩
  · obtain ⟨⟨label, rest⟩, hblank, heq⟩ := Option.map_eq_some_iff.1 h
    cases heq
    exact exists_of_blank? hblank
  · exact exists_of_number? h
  · exact exists_of_boolean? h

theorem exists_form_of_form? (h : form? cs = some (reading, after)) :
    ∃ text, Form text reading ∧ cs = text ++ after := by
  rw [form?_eq] at h
  obtain ⟨read, hread, h⟩ := List.exists_of_findSome?_eq_some h
  exact exists_form_of_mem_forms read hread h

theorem isSpaces_iff : IsSpaces cs ↔ ∀ c ∈ cs, isSpace c = true :=
  forall₂_congr fun _ _ => isSpace_iff.symm

theorem isEmpty_dropWhile_isSpace_iff : (cs.dropWhile isSpace).isEmpty = true ↔ IsSpaces cs := by
  rw [List.isEmpty_iff, List.dropWhile_eq_nil_iff, isSpaces_iff]

theorem Form.exists_cons (h : Form text reading) : ∃ c more, text = c :: more ∧ c ∉ spaces := by
  cases h with
  | name h =>
    cases h with
    | full => exact ⟨'<', _, rfl, by decide⟩
    | @labelled label more hlabel =>
      cases label with
      | nil => exact ⟨':', _, rfl, by decide⟩
      | cons c label =>
        refine ⟨c, _, rfl, fun hspace => ?_⟩
        have hnone : ∀ d ∈ spaces, isLetter d = false := by decide
        exact Bool.eq_false_iff.1 (hnone c hspace) hlabel.1
  | blank => exact ⟨'_', _, rfl, by decide⟩
  | quoted hquote =>
    refine ⟨_, _, rfl, ?_⟩
    rcases hquote with rfl | rfl <;> decide
  | number h =>
    obtain ⟨c, more, rfl, hc⟩ := h.head
    have hnone : ∀ d ∈ numberHeads, d ∉ spaces := by decide
    exact ⟨c, more, rfl, hnone c hc⟩
  | trueWord => exact ⟨'t', _, rfl, by decide⟩
  | falseWord => exact ⟨'f', _, rfl, by decide⟩

namespace Layout

variable {input : List Char}

theorem dropWhile_eq (h : Layout input before text behind reading) :
    input.dropWhile isSpace = text ++ behind := by
  obtain ⟨c, more, rfl, hc⟩ := h.form.exists_cons
  rw [h.input_eq, List.append_assoc]
  refine Token.dropWhile_run (isSpaces_iff.1 h.before) ?_
  rintro d hd
  cases hd
  exact Bool.eq_false_iff.2 fun hspace => hc (isSpace_iff.1 hspace)

theorem form?_eq (h : Layout input before text behind reading) :
    form? (input.dropWhile isSpace) = some (reading, behind) := by
  rw [h.dropWhile_eq]
  exact h.form.form?_append h.behind.closes

/-- **The form of a text, its place and its reading** are determined by the text. -/
theorem unique {before' text' behind' : List Char} {reading' : Reading}
    (h : Layout input before text behind reading)
    (h' : Layout input before' text' behind' reading') :
    before = before' ∧ text = text' ∧ behind = behind' ∧ reading = reading' := by
  have hform := h.form?_eq
  rw [h'.form?_eq] at hform
  cases hform
  have htext := h.dropWhile_eq
  rw [h'.dropWhile_eq] at htext
  obtain rfl := List.append_cancel_right htext
  have hbefore := h.input_eq
  rw [h'.input_eq, List.append_assoc, List.append_assoc] at hbefore
  exact ⟨(List.append_cancel_right hbefore).symm, rfl, rfl, rfl⟩

theorem read?_eq (h : Layout input before text behind reading) : read? input = some reading := by
  rw [read?, h.form?_eq]
  exact if_pos (isEmpty_dropWhile_isSpace_iff.2 h.behind)

theorem of_form (hform : Form text reading) (heq : input.dropWhile isSpace = text ++ behind)
    (hbehind : IsSpaces behind) :
    Layout input (input.takeWhile isSpace) text behind reading where
  input_eq := by rw [List.append_assoc, ← heq, List.takeWhile_append_dropWhile]
  before := isSpaces_iff.2 fun _ hc => List.mem_takeWhile_imp hc
  form := hform
  behind := hbehind

end Layout

/-- **The readings of a text are those of the grammar.** -/
theorem read?_eq_some_iff {input : List Char} : read? input = some reading ↔
    ∃ before text behind, Layout input before text behind reading := by
  constructor
  · intro h
    unfold read? at h
    split at h
    · rename_i found behind hform
      split at h
      · rename_i hspaces
        cases h
        obtain ⟨text, htext, heq⟩ := exists_form_of_form? hform
        exact ⟨_, _, _, .of_form htext heq (isEmpty_dropWhile_isSpace_iff.1 hspaces)⟩
      · cases h
    · cases h
  · rintro ⟨before, text, behind, h⟩
    exact h.read?_eq

/-- **The order in which the forms are tried does not matter**: what any of them takes to the white
space at the end is what the text is read as. -/
theorem read?_eq_some_iff_exists_form {input : List Char} : read? input = some reading ↔
    ∃ read ∈ forms, ∃ behind, read (input.dropWhile isSpace) = some (reading, behind) ∧
      IsSpaces behind := by
  constructor
  · intro h
    obtain ⟨before, text, behind, h⟩ := read?_eq_some_iff.1 h
    have hform := h.form?_eq
    rw [form?_eq] at hform
    obtain ⟨read, hread, hform⟩ := List.exists_of_findSome?_eq_some hform
    exact ⟨read, hread, behind, hform, h.behind⟩
  · rintro ⟨read, hread, behind, hform, hbehind⟩
    obtain ⟨text, htext, heq⟩ := exists_form_of_mem_forms read hread hform
    exact (Layout.of_form htext heq hbehind).read?_eq

end SparqlViews.Compact

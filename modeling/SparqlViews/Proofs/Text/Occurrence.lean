import Mathlib.Data.List.Infix
import SparqlViews.Text.Basic

/-! # Parts of a text

A part of a text that holds no line feed lies in one line of it (`exists_line`). Two patterns are
`Apart` if no occurrence of one can share a character with one of the other; replacing the first then
leaves all occurrences of the second where they are (`infix_replaceAll`).

* `occursIn_iff`: the search for a pattern finds it exactly if it is a part of the text.
* `flatten_lineChunks`: a text is its lines, one after another.
* `fields_append_flatMap`, `eq_of_fields`: a text is its fields with the separators between them.
-/

namespace SparqlViews.Text

variable {p q s : List Char}

/-! ### Properties of all characters of a text -/

/-- A property of all characters of a text is tested on these alone, and not on every character there
is. -/
instance (priority := high) decidableForallMem {P : Char → Prop} [DecidablePred P] (s : List Char) :
    Decidable (∀ c ∈ s, P c) :=
  List.decidableBAll P s

/-- The same for the first or the last character. -/
instance (priority := high) decidableForallMemOption {P : Char → Prop} [DecidablePred P]
    (o : Option Char) : Decidable (∀ c ∈ o, P c) :=
  Option.decidableForallMem o

/-! ### Occurrences -/

/-- **The search finds a pattern exactly if it is a part of the text.** -/
theorem occursIn_iff : ∀ {s : List Char}, occursIn p s = true ↔ p <:+: s
  | [] => by simp [occursIn]
  | c :: rest => by
    rw [occursIn, Bool.or_eq_true, List.isPrefixOf_iff_prefix, occursIn_iff, List.infix_cons_iff]

/-! ### Ends -/

theorem infix_dropWhile {b : Char → Bool} (hq : ∀ c ∈ q, b c = false) (h : q <:+: s) :
    q <:+: s.dropWhile b := by
  induction s with
  | nil => exact h
  | cons c rest ih =>
    rw [List.dropWhile_cons]
    split
    · rename_i hc
      rcases List.infix_cons_iff.1 h with h | h
      · rcases List.prefix_cons_iff.1 h with rfl | ⟨t, rfl, -⟩
        · exact List.nil_infix
        · rw [hq c List.mem_cons_self] at hc
          cases hc
      · exact ih h
    · exact h

/-- **A part without white space is not cut by trimming.** -/
theorem infix_trim (hq : ∀ c ∈ q, isBlank c = false) (h : q <:+: s) : q <:+: trim s := by
  have hfront := infix_dropWhile hq h
  rw [← List.reverse_infix] at hfront
  have hback := infix_dropWhile (fun c hc => hq c (List.mem_reverse.1 hc)) hfront
  rwa [trim, ← List.reverse_infix, List.reverse_reverse]

/-! ### Lines -/

theorem flatten_lineChunks (s : List Char) : (lineChunks s).flatten = s := by
  fun_induction lineChunks s with
  | case1 => rfl
  | case2 rest ih => rw [List.flatten_cons, ih]; rfl
  | case3 c rest hc hnil ih =>
    rw [hnil] at ih
    rw [← ih]
    rfl
  | case4 c rest hc chunk more hmore ih =>
    rw [hmore] at ih
    rw [← ih]
    rfl

theorem prefix_line (hq : '\n' ∉ q) (hne : q ≠ []) (h : q <+: s) :
    ∃ line more, lineChunks s = line :: more ∧ q <+: line := by
  induction s generalizing q with
  | nil => exact absurd (List.prefix_nil.1 h) hne
  | cons c rest ih =>
    obtain ⟨d, q, rfl⟩ := List.exists_cons_of_ne_nil hne
    obtain ⟨rfl, htail⟩ := List.cons_prefix_cons.1 h
    have hd : d ≠ '\n' := fun hd => hq (hd ▸ List.mem_cons_self)
    rw [lineChunks, if_neg hd]
    cases hlines : lineChunks rest with
    | nil =>
      -- a text without lines is empty
      have hrest : rest = [] := by rw [← flatten_lineChunks rest, hlines]; rfl
      rw [hrest, List.prefix_nil] at htail
      exact ⟨[d], [], rfl, by rw [htail]⟩
    | cons line more =>
      refine ⟨d :: line, more, rfl, List.cons_prefix_cons.2 ⟨rfl, ?_⟩⟩
      rcases eq_or_ne q [] with rfl | hne
      · exact List.nil_prefix
      · obtain ⟨line', more', hlines', hline⟩ := ih (fun hn => hq (List.mem_cons_of_mem _ hn)) hne htail
        rw [hlines] at hlines'
        exact (List.cons.inj hlines').1 ▸ hline

/-- **A part of a text without a line feed lies in one of its lines.** -/
theorem exists_line (hq : '\n' ∉ q) (hne : q ≠ []) (h : q <:+: s) :
    ∃ line ∈ lineChunks s, q <:+: line := by
  induction s with
  | nil => exact absurd (List.infix_nil.1 h) hne
  | cons c rest ih =>
    rcases List.infix_cons_iff.1 h with h | h
    · obtain ⟨line, more, hlines, hline⟩ := prefix_line hq hne h
      exact ⟨line, hlines ▸ List.mem_cons_self, hline.isInfix⟩
    · obtain ⟨line, hmem, hline⟩ := ih h
      rw [lineChunks]
      split
      · exact ⟨line, List.mem_cons_of_mem _ hmem, hline⟩
      · cases hlines : lineChunks rest with
        | nil => simp [hlines] at hmem
        | cons first more =>
          rw [hlines] at hmem
          rcases List.mem_cons.1 hmem with rfl | hmem
          · exact ⟨c :: line, List.mem_cons_self, hline.trans (List.suffix_cons c line).isInfix⟩
          · exact ⟨line, List.mem_cons_of_mem _ hmem, hline⟩

/-! ### Fields -/

theorem fields_of_not_mem {separator : Char} {a : List Char} (h : separator ∉ a) :
    fields separator a = [a] := by
  induction a with
  | nil => rfl
  | cons c a ih =>
    rw [fields, if_neg (fun hc : c = separator => h (hc ▸ List.mem_cons_self)),
      ih fun hm => h (List.mem_cons_of_mem _ hm)]

theorem fields_append_cons {separator : Char} {a : List Char} (h : separator ∉ a)
    (rest : List Char) : fields separator (a ++ separator :: rest) = a :: fields separator rest := by
  induction a with
  | nil => rw [List.nil_append, fields, if_pos rfl]
  | cons c a ih =>
    rw [List.cons_append, fields, if_neg (fun hc : c = separator => h (hc ▸ List.mem_cons_self)),
      ih fun hm => h (List.mem_cons_of_mem _ hm)]

/-- **Parts behind separators are the fields of their text.** -/
theorem fields_append_flatMap {separator : Char} {a : List Char} {parts : List (List Char)}
    (ha : separator ∉ a) (hparts : ∀ part ∈ parts, separator ∉ part) :
    fields separator (a ++ parts.flatMap (separator :: ·)) = a :: parts := by
  induction parts generalizing a with
  | nil => rw [List.flatMap_nil, List.append_nil, fields_of_not_mem ha]
  | cons part parts ih =>
    rw [List.flatMap_cons, List.cons_append, fields_append_cons ha,
      ih (hparts part List.mem_cons_self) fun p hp => hparts p (List.mem_cons_of_mem _ hp)]

theorem fields_ne_nil (separator : Char) (s : List Char) : fields separator s ≠ [] := by
  cases s with
  | nil => exact List.cons_ne_nil _ _
  | cons c s =>
    rw [fields]
    split
    · exact List.cons_ne_nil _ _
    · split <;> exact List.cons_ne_nil _ _

theorem eq_of_fields {separator : Char} {s first : List Char} {more : List (List Char)}
    (h : fields separator s = first :: more) : s = first ++ more.flatMap (separator :: ·) := by
  induction s generalizing first more with
  | nil =>
    cases h
    rfl
  | cons c s ih =>
    obtain ⟨field, fields', hs⟩ := List.exists_cons_of_ne_nil (fields_ne_nil separator s)
    rw [fields, hs] at h
    split at h
    · rename_i hc
      obtain ⟨rfl, rfl⟩ := List.cons.inj h
      rw [hc, List.flatMap_cons, List.nil_append, List.cons_append, ← ih hs]
    · obtain ⟨rfl, rfl⟩ := List.cons.inj h
      rw [List.cons_append, ← ih hs]

/-! ### Replacement -/

/-- **No occurrence of one pattern shares a character with one of the other**: both begin with a
character that they have nowhere else, and neither begins with the other. -/
structure Apart (p q : List Char) : Prop where
  head : ∃ h p' q', p = h :: p' ∧ q = h :: q' ∧ h ∉ p' ∧ h ∉ q'
  left : ¬ p <+: q
  right : ¬ q <+: p

theorem Apart.ne_nil (h : Apart p q) : p ≠ [] := by
  obtain ⟨c, p', q', rfl, -⟩ := h.head
  exact List.cons_ne_nil c p'

theorem Apart.not_both (h : Apart p q) (hp : p <+: s) : ¬ q <+: s := by
  intro hq
  rcases List.prefix_or_prefix_of_prefix hp hq with hpq | hqp
  · exact h.left hpq
  · exact h.right hqp

theorem infix_of_append_of_not_mem {c : Char} {t : List Char} (hc : c ∉ t) {rest : List Char}
    (h : c :: q <:+: t ++ rest) : c :: q <:+: rest := by
  induction t with
  | nil => exact h
  | cons d t ih =>
    rw [List.cons_append] at h
    rcases List.infix_cons_iff.1 h with h | h
    · rw [List.cons_prefix_cons] at h
      exact absurd (h.1 ▸ List.mem_cons_self) hc
    · exact ih (fun hm => hc (List.mem_cons_of_mem _ hm)) h

theorem Apart.infix_of_append (h : Apart p q) {rest : List Char} (hq : q <:+: p ++ rest) :
    q <:+: rest := by
  obtain ⟨c, p', q', hpc, hqc, hp', -⟩ := h.head
  rw [hpc, List.cons_append] at hq
  rcases List.infix_cons_iff.1 hq with hq | hq
  · rw [← List.cons_append, ← hpc] at hq
    exact absurd hq (h.not_both (List.prefix_append p rest))
  · rw [hqc] at hq ⊢
    exact infix_of_append_of_not_mem hp' hq

theorem replaceFrom_append_of_not_mem {c : Char} {t : List Char} (hc : c ∉ t) (p r rest : List Char) :
    replaceFrom (c :: p) r 0 (t ++ rest) = t ++ replaceFrom (c :: p) r 0 rest := by
  induction t with
  | nil => rfl
  | cons d t ih =>
    have hnot : (c :: p).isPrefixOf (d :: (t ++ rest)) = false := by
      rw [Bool.eq_false_iff, ne_eq, List.isPrefixOf_iff_prefix, List.cons_prefix_cons]
      rintro ⟨rfl, -⟩
      exact hc List.mem_cons_self
    rw [List.cons_append, replaceFrom, if_neg (by rw [hnot]; decide),
      ih fun hm => hc (List.mem_cons_of_mem _ hm)]
    rfl

theorem Apart.replaceFrom_append (h : Apart p q) (r rest : List Char) :
    replaceFrom p r 0 (q ++ rest) = q ++ replaceFrom p r 0 rest := by
  obtain ⟨c, p', q', hpc, hqc, -, hq'⟩ := h.head
  have hnot : p.isPrefixOf (q ++ rest) = false := by
    rw [Bool.eq_false_iff, ne_eq, List.isPrefixOf_iff_prefix]
    exact fun hp => h.not_both hp (List.prefix_append q rest)
  rw [hqc, List.cons_append] at hnot ⊢
  rw [replaceFrom, if_neg (by rw [hnot]; decide), hpc, replaceFrom_append_of_not_mem hq']
  rfl

theorem replaceAll_append_self (hp : p ≠ []) (r rest : List Char) :
    replaceAll p r (p ++ rest) = r ++ replaceAll p r rest := by
  have hskip : ∀ t : List Char, replaceFrom p r t.length (t ++ rest) = replaceFrom p r 0 rest := by
    intro t
    induction t with
    | nil => rfl
    | cons d t ih => exact ih
  obtain ⟨c, q, rfl⟩ := List.exists_cons_of_ne_nil hp
  have hhere : (c :: q).isPrefixOf (c :: (q ++ rest)) = true :=
    List.isPrefixOf_iff_prefix.2 (List.prefix_append (c :: q) rest)
  rw [replaceAll, List.cons_append, replaceFrom, if_pos hhere, List.length_cons,
    Nat.add_sub_cancel, hskip, ← replaceAll]

/-- **Replacing a pattern leaves a part of the text where it is**, if the two are apart. -/
theorem infix_replaceAll (h : Apart p q) (r : List Char) (hq : q <:+: s) :
    q <:+: replaceAll p r s := by
  suffices hrun : ∀ skip, q <:+: s.drop skip → q <:+: replaceFrom p r skip s from hrun 0 hq
  clear hq
  induction s with
  | nil =>
    intro skip hq
    rw [List.drop_nil] at hq
    rw [List.infix_nil.1 hq]
    exact List.nil_infix
  | cons c rest ih =>
    intro skip hq
    cases skip with
    | succ skip => exact ih skip hq
    | zero =>
      rw [List.drop_zero] at hq
      rw [replaceFrom]
      split
      · rename_i hp
        obtain ⟨more, hmore⟩ := List.isPrefixOf_iff_prefix.1 hp
        have hdrop : rest.drop (p.length - 1) = more := by
          have hlen : p.length = (p.length - 1) + 1 := by
            have := List.length_pos_iff.2 h.ne_nil
            omega
          rw [← List.drop_succ_cons (a := c), ← hlen, ← hmore, List.drop_left]
        rw [← hmore] at hq
        exact (ih _ (hdrop ▸ h.infix_of_append hq)).trans (List.suffix_append r _).isInfix
      · rename_i hp
        rcases List.infix_cons_iff.1 hq with hbegin | hq
        · -- the occurrence stands here, and is passed character by character
          obtain ⟨more, hmore⟩ := hbegin
          have hcopy := h.replaceFrom_append r more
          rw [hmore, replaceFrom, if_neg hp] at hcopy
          rw [hcopy]
          exact (List.prefix_append q _).isInfix
        · exact (ih 0 (by rwa [List.drop_zero])).trans (List.suffix_cons c _).isInfix

end SparqlViews.Text

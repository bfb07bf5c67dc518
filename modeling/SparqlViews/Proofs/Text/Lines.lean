import SparqlViews.Proofs.Text.Occurrence

/-! # Texts of whole lines

A text is `Whole` if its last line is ended, so that what follows begins a line: the lines of the two
together are those of each (`lineChunks_append`). A text `HasLine` where some whole text stands in front
of the line and a line feed behind it; if the line does not end in a carriage return, it is one of the
lines that the text is read as (`HasLine.mem_lines`).

* `infix_append_cons`: a pattern without a character lies on one side of it.
* `replaceAll_append_cons`: a replacement works on both sides of a character that the pattern lacks.
* `replaceAll_append_head`: the same for a character that the pattern has at its beginning alone.
* `lines_flatMap`: lines are read as they are written.
* `trim_between`: what trimming leaves.
-/

namespace SparqlViews.Text

variable {p q s t line rest : List Char} {c : Char}

/-! ### A character that a pattern lacks -/

theorem prefix_append_cons (hc : c ∉ p) : p <+: s ++ c :: rest ↔ p <+: s := by
  refine ⟨fun h => ?_, fun h => h.trans (List.prefix_append _ _)⟩
  rcases List.prefix_or_prefix_of_prefix h (List.prefix_append s (c :: rest)) with h | ⟨more, rfl⟩
  · exact h
  · rw [List.prefix_append_right_inj] at h
    cases more with
    | nil => rw [List.append_nil]
    | cons d more =>
      rw [(List.cons_prefix_cons.1 h).1] at hc
      exact absurd (List.mem_append_right s List.mem_cons_self) hc

/-- **A pattern lies on one side of a character that it lacks.** -/
theorem infix_append_cons (hc : c ∉ p) (hp : p ≠ []) :
    p <:+: s ++ c :: rest ↔ p <:+: s ∨ p <:+: rest := by
  constructor
  · intro h
    induction s with
    | nil =>
      rcases List.infix_cons_iff.1 h with h | h
      · exact absurd (List.prefix_nil.1 ((prefix_append_cons hc).1 (List.nil_append (c :: rest) ▸ h))) hp
      · exact .inr h
    | cons d s ih =>
      rw [List.cons_append] at h
      rcases List.infix_cons_iff.1 h with h | h
      · rw [← List.cons_append, prefix_append_cons hc] at h
        exact .inl h.isInfix
      · exact (ih h).imp_left fun hs => List.infix_cons_iff.2 (.inr hs)
  · rintro (h | h)
    · exact h.trans (List.prefix_append _ _).isInfix
    · exact h.trans ((List.suffix_cons c rest).trans (List.suffix_append s _)).isInfix

theorem replaceFrom_append_cons (hc : c ∉ p) (hp : p ≠ []) (r : List Char) :
    ∀ {skip : ℕ} {s : List Char}, skip ≤ s.length →
      replaceFrom p r skip (s ++ c :: rest) = replaceFrom p r skip s ++ c :: replaceFrom p r 0 rest
  | 0, [], _ => by
    have hnot : p.isPrefixOf (c :: rest) = false := by
      rw [Bool.eq_false_iff, ne_eq, List.isPrefixOf_iff_prefix, ← List.nil_append (c :: rest),
        prefix_append_cons hc, List.prefix_nil]
      exact hp
    rw [List.nil_append, replaceFrom.eq_def p r 0 (c :: rest)]
    dsimp only
    rw [if_neg (by rw [hnot]; decide)]
    rfl
  | skip + 1, d :: s, h => by
    rw [List.cons_append, replaceFrom, replaceFrom,
      replaceFrom_append_cons hc hp r (Nat.le_of_succ_le_succ h)]
  | 0, d :: s, _ => by
    have hsame : p.isPrefixOf (d :: (s ++ c :: rest)) = p.isPrefixOf (d :: s) := by
      rw [Bool.eq_iff_iff, List.isPrefixOf_iff_prefix, List.isPrefixOf_iff_prefix,
        ← List.cons_append, prefix_append_cons hc]
    rw [List.cons_append, replaceFrom, replaceFrom, hsame]
    split
    · rename_i hprefix
      have hlen := (List.isPrefixOf_iff_prefix.1 hprefix).length_le
      rw [List.length_cons] at hlen
      rw [replaceFrom_append_cons hc hp r (by omega), List.append_assoc]
    · rw [replaceFrom_append_cons hc hp r (Nat.zero_le _), List.cons_append]

/-- **A replacement works on both sides of a character that the pattern lacks.** -/
theorem replaceAll_append_cons (hc : c ∉ p) (hp : p ≠ []) (r s rest : List Char) :
    replaceAll p r (s ++ c :: rest) = replaceAll p r s ++ c :: replaceAll p r rest :=
  replaceFrom_append_cons hc hp r (Nat.zero_le _)

/-! ### The first character of a pattern -/

/-- The same where a pattern begins with the character and has it nowhere else: no occurrence goes
beyond the place. -/
theorem replaceFrom_append_head (hc : c ∉ p) (r : List Char) :
    ∀ {skip : ℕ} {s : List Char}, skip ≤ s.length →
      replaceFrom (c :: p) r skip (s ++ c :: rest) =
        replaceFrom (c :: p) r skip s ++ replaceFrom (c :: p) r 0 (c :: rest)
  | 0, [], _ => rfl
  | skip + 1, d :: s, h => by
    rw [List.cons_append, replaceFrom, replaceFrom,
      replaceFrom_append_head hc r (Nat.le_of_succ_le_succ h)]
  | 0, d :: s, _ => by
    have hsame : (c :: p).isPrefixOf (d :: (s ++ c :: rest)) = (c :: p).isPrefixOf (d :: s) := by
      rw [Bool.eq_iff_iff, List.isPrefixOf_iff_prefix, List.isPrefixOf_iff_prefix,
        List.cons_prefix_cons, List.cons_prefix_cons, prefix_append_cons hc]
    rw [List.cons_append, replaceFrom, replaceFrom.eq_def _ _ 0 (d :: s), hsame]
    dsimp only
    split
    · rename_i hprefix
      have hlen := (List.isPrefixOf_iff_prefix.1 hprefix).length_le
      rw [List.length_cons, List.length_cons] at hlen
      rw [replaceFrom_append_head hc r (by rw [List.length_cons]; omega), List.append_assoc]
    · rw [replaceFrom_append_head hc r (Nat.zero_le _), List.cons_append]

/-- **A replacement works on both sides of the first character of its pattern.** -/
theorem replaceAll_append_head (hc : c ∉ p) (r s rest : List Char) :
    replaceAll (c :: p) r (s ++ c :: rest) =
      replaceAll (c :: p) r s ++ replaceAll (c :: p) r (c :: rest) :=
  replaceFrom_append_head hc r (Nat.zero_le _)

theorem replaceAll_of_not_infix (r : List Char) (h : ¬ p <:+: s) : replaceAll p r s = s := by
  induction s with
  | nil => rfl
  | cons c s ih =>
    rw [List.infix_cons_iff, not_or] at h
    have hnot : p.isPrefixOf (c :: s) = false := by
      rw [Bool.eq_false_iff, ne_eq, List.isPrefixOf_iff_prefix]
      exact h.1
    rw [replaceAll, replaceFrom, hnot]
    exact congrArg (c :: ·) (ih h.2)

theorem head?_replaceAll (r : List Char) (h : s.head? ≠ some c) :
    (replaceAll (c :: p) r s).head? = s.head? := by
  cases s with
  | nil => rfl
  | cons d s =>
    have hd : d ≠ c := fun hd => h (by rw [hd]; rfl)
    have hnot : (c :: p).isPrefixOf (d :: s) = false := by
      rw [Bool.eq_false_iff, ne_eq, List.isPrefixOf_iff_prefix, List.cons_prefix_cons]
      exact fun hprefix => hd hprefix.1.symm
    rw [replaceAll, replaceFrom, hnot]
    rfl

/-! ### Whole lines -/

/-- **A text of whole lines**: it is empty or ends with a line feed. -/
def Whole (s : List Char) : Prop := ∀ c ∈ s.getLast?, c = '\n'

@[simp] theorem whole_nil : Whole [] := fun _ hc => nomatch hc

@[simp] theorem whole_append_newline (s : List Char) : Whole (s ++ ['\n']) := by
  intro c hc
  rw [List.getLast?_concat, Option.mem_some_iff] at hc
  exact hc.symm

theorem Whole.eq_nil_or (h : Whole s) : s = [] ∨ ∃ t, s = t ++ ['\n'] := by
  rcases List.eq_nil_or_concat s with rfl | ⟨t, c, rfl⟩
  · exact .inl rfl
  · rw [List.concat_eq_append] at h ⊢
    exact .inr ⟨t, by rw [h c (by rw [List.getLast?_concat]; rfl)]⟩

theorem Whole.append (hs : Whole s) (ht : Whole t) : Whole (s ++ t) := by
  rcases ht.eq_nil_or with rfl | ⟨t, rfl⟩
  · rwa [List.append_nil]
  · rw [← List.append_assoc]
    exact whole_append_newline _

theorem Whole.of_cons (h : Whole (c :: s)) : Whole s := by
  cases s with
  | nil => exact whole_nil
  | cons e s =>
    intro d hd
    exact h d (by rwa [List.getLast?_cons_cons])

/-- **A text is whole lines and the beginning of one.** -/
theorem exists_whole_append (s : List Char) : ∃ front line, Whole front ∧ '\n' ∉ line ∧
    s = front ++ line := by
  induction s using List.reverseRecOn with
  | nil => exact ⟨[], [], whole_nil, List.not_mem_nil, rfl⟩
  | append_singleton s c ih =>
    by_cases hc : c = '\n'
    · exact ⟨s ++ [c], [], hc ▸ whole_append_newline s, List.not_mem_nil, by simp⟩
    · obtain ⟨front, line, hfront, hline, rfl⟩ := ih
      refine ⟨front, line ++ [c], hfront, ?_, by simp⟩
      rw [List.mem_append, List.mem_singleton]
      exact not_or.2 ⟨hline, Ne.symm hc⟩

theorem whole_flatMap {α : Type} {l : List α} {f : α → List Char} (h : ∀ a ∈ l, Whole (f a)) :
    Whole (l.flatMap f) := by
  induction l with
  | nil => exact whole_nil
  | cons a l ih =>
    rw [List.flatMap_cons]
    exact (h a List.mem_cons_self).append (ih fun b hb => h b (List.mem_cons_of_mem _ hb))

theorem lineChunks_line (h : '\n' ∉ line) (rest : List Char) :
    lineChunks (line ++ '\n' :: rest) = (line ++ ['\n']) :: lineChunks rest := by
  induction line with
  | nil => rw [List.nil_append, lineChunks, if_pos rfl]; rfl
  | cons c line ih =>
    have hc : c ≠ '\n' := fun hc => h (hc ▸ List.mem_cons_self)
    rw [List.cons_append, lineChunks, if_neg hc, ih fun hm => h (List.mem_cons_of_mem _ hm)]
    rfl

theorem lineChunks_of_not_mem (h : '\n' ∉ line) (hne : line ≠ []) : lineChunks line = [line] := by
  induction line with
  | nil => exact absurd rfl hne
  | cons c line ih =>
    have hc : c ≠ '\n' := fun hc => h (hc ▸ List.mem_cons_self)
    rcases eq_or_ne line [] with rfl | hline
    · rw [lineChunks, if_neg hc]
      rfl
    · rw [lineChunks, if_neg hc, ih (fun hm => h (List.mem_cons_of_mem _ hm)) hline]

/-- **A text has the rest of a line and what comes after it**: whatever stands in front of it on the
line, the two are the first line and the text of the others. -/
theorem exists_lineChunks (s : List Char) : ∃ line more, s = line ++ more ∧ (line = [] → s = []) ∧
    ∀ start, '\n' ∉ start → start ≠ [] →
      lineChunks (start ++ s) = (start ++ line) :: lineChunks more := by
  by_cases hs : '\n' ∈ s
  · obtain ⟨line, more, rfl, hline⟩ := List.eq_append_cons_of_mem hs
    refine ⟨line ++ ['\n'], more, by simp, fun h => absurd h (by simp), fun start hstart _ => ?_⟩
    have hboth : '\n' ∉ start ++ line := by
      rw [List.mem_append]
      exact not_or.2 ⟨hstart, hline⟩
    rw [← List.append_assoc, lineChunks_line hboth, List.append_assoc]
  · refine ⟨s, [], (List.append_nil s).symm, id, fun start hstart hne => ?_⟩
    rw [lineChunks_of_not_mem (by simp [hstart, hs]) (by simp [hne])]
    rfl

/-- **The lines of a text behind whole lines** come after these. -/
theorem lineChunks_append (h : Whole s) (t : List Char) :
    lineChunks (s ++ t) = lineChunks s ++ lineChunks t := by
  induction s with
  | nil => rfl
  | cons c s ih =>
    rcases eq_or_ne s [] with rfl | hne
    · rw [h c rfl]
      rfl
    · rw [List.cons_append, lineChunks, lineChunks, ih h.of_cons]
      split
      · rfl
      · cases hchunks : lineChunks s with
        | nil =>
          have := flatten_lineChunks s
          rw [hchunks] at this
          exact absurd this.symm hne
        | cons chunk more => rfl

theorem Whole.exists_of_mem_lineChunks (h : Whole s) {chunk : List Char}
    (hchunk : chunk ∈ lineChunks s) : ∃ line, chunk = line ++ ['\n'] := by
  induction s generalizing chunk with
  | nil => cases hchunk
  | cons c s ih =>
    rw [lineChunks] at hchunk
    split at hchunk
    · rename_i hc
      rcases List.mem_cons.1 hchunk with rfl | hmem
      · exact ⟨[], by rw [hc]; rfl⟩
      · exact ih h.of_cons hmem
    · rename_i hc
      split at hchunk
      · rename_i hnil
        have hempty : s = [] := by rw [← flatten_lineChunks s, hnil]; rfl
        exact absurd (h c (by rw [hempty]; rfl)) hc
      · rename_i first more hmore
        rcases List.mem_cons.1 hchunk with rfl | hmem
        · obtain ⟨line, rfl⟩ := ih h.of_cons (hmore ▸ List.mem_cons_self)
          exact ⟨c :: line, rfl⟩
        · exact ih h.of_cons (hmore ▸ List.mem_cons_of_mem _ hmem)

/-! ### One of the lines -/

/-- **A line of a text**, with its line feed. -/
def HasLine (line s : List Char) : Prop :=
  '\n' ∉ line ∧ ∃ front rest, Whole front ∧ s = front ++ (line ++ '\n' :: rest)

theorem HasLine.append {front : List Char} (h : HasLine line s) (hfront : Whole front)
    (rest : List Char) : HasLine line (front ++ (s ++ rest)) := by
  obtain ⟨hline, before, after, hbefore, rfl⟩ := h
  exact ⟨hline, front ++ before, after ++ rest, hfront.append hbefore, by simp⟩

theorem hasLine_flatMap {gap part : List Char} {parts : List (List Char)} (hmem : part ∈ parts)
    (hline : '\n' ∉ gap ++ part) :
    HasLine (gap ++ part) (parts.flatMap fun part => gap ++ part ++ ['\n']) := by
  obtain ⟨before, after, rfl⟩ := List.append_of_mem hmem
  refine ⟨hline, before.flatMap fun part => gap ++ part ++ ['\n'],
    after.flatMap fun part => gap ++ part ++ ['\n'],
    whole_flatMap fun part _ => whole_append_newline _, ?_⟩
  rw [List.flatMap_append, List.flatMap_cons, List.append_assoc (gap ++ part)]
  rfl

theorem dropLineEnd_line (h : ∀ c ∈ line.getLast?, c ≠ '\r') :
    dropLineEnd (line ++ ['\n']) = line := by
  rw [dropLineEnd, List.reverse_append, List.reverse_singleton, List.singleton_append]
  cases hrev : line.reverse with
  | nil => rw [List.reverse_eq_nil_iff.1 hrev]; rfl
  | cons c more =>
    have hlast : line.getLast? = some c := by rw [List.getLast?_eq_head?_reverse, hrev]; rfl
    have hc := h c hlast
    rw [List.reverse_eq_iff.1 hrev]
    split
    · rename_i heq
      cases heq
      exact absurd rfl hc
    · rename_i heq
      cases heq
      rfl
    · rename_i hnot
      exact absurd rfl (hnot (c :: more))

theorem dropLineEnd_of_not_mem (h : '\n' ∉ line) : dropLineEnd line = line := by
  unfold dropLineEnd
  split
  · rename_i heq
    exact absurd (List.mem_reverse.1 (heq ▸ List.mem_cons_self)) h
  · rename_i heq
    exact absurd (List.mem_reverse.1 (heq ▸ List.mem_cons_self)) h
  · rfl

theorem lines_append (h : Whole s) (t : List Char) : lines (s ++ t) = lines s ++ lines t := by
  rw [lines, lineChunks_append h, List.map_append, ← lines, ← lines]

theorem lines_line (h : '\n' ∉ line) (hlast : ∀ c ∈ line.getLast?, c ≠ '\r') (rest : List Char) :
    lines (line ++ '\n' :: rest) = line :: lines rest := by
  rw [lines, lineChunks_line h, List.map_cons, dropLineEnd_line hlast, ← lines]

theorem lines_flatMap {parts : List (List Char)}
    (h : ∀ part ∈ parts, '\n' ∉ part ∧ ∀ c ∈ part.getLast?, c ≠ '\r') :
    lines (parts.flatMap (· ++ ['\n'])) = parts := by
  induction parts with
  | nil => rfl
  | cons part parts ih =>
    obtain ⟨hline, hlast⟩ := h part List.mem_cons_self
    rw [List.flatMap_cons, List.append_assoc]
    exact (lines_line hline hlast _).trans
      (congrArg (part :: ·) (ih fun p hp => h p (List.mem_cons_of_mem _ hp)))

/-- **A line that does not end in a carriage return is read as one.** -/
theorem HasLine.mem_lines (h : HasLine line s) (hlast : ∀ c ∈ line.getLast?, c ≠ '\r') :
    line ∈ lines s := by
  obtain ⟨hline, front, rest, hfront, rfl⟩ := h
  rw [lines_append hfront, lines_line hline hlast]
  exact List.mem_append_right _ List.mem_cons_self

theorem lines_of_not_mem (h : '\n' ∉ line) (hne : line ≠ []) : lines line = [line] := by
  rw [lines, lineChunks_of_not_mem h hne, List.map_singleton, dropLineEnd_of_not_mem h]

/-! ### White space at the ends -/

theorem dropWhile_head {b : Char → Bool} (h : ∀ c ∈ s.head?, b c = false) : s.dropWhile b = s := by
  cases s with
  | nil => rfl
  | cons c s => rw [List.dropWhile_cons_of_neg (by simp [h c rfl])]

theorem trim_between {front back : List Char} (hfront : ∀ c ∈ front, isBlank c = true)
    (hback : ∀ c ∈ back, isBlank c = true) (hhead : ∀ c ∈ s.head?, isBlank c = false)
    (hlast : ∀ c ∈ s.getLast?, isBlank c = false) : trim (front ++ s ++ back) = s := by
  have hrev : ∀ c ∈ back.reverse, isBlank c = true := fun c hc => hback c (List.mem_reverse.1 hc)
  rw [trim, List.append_assoc, List.dropWhile_append_of_pos hfront]
  cases s with
  | nil =>
    have hblank : (back ++ []).dropWhile isBlank = [] := List.dropWhile_append_of_pos hback
    rw [List.append_nil] at hblank
    rw [List.nil_append, hblank]
    rfl
  | cons c s =>
    rw [List.getLast?_eq_head?_reverse] at hlast
    rw [List.cons_append, List.dropWhile_cons_of_neg (by simp [hhead c rfl]), ← List.cons_append,
      List.reverse_append, List.dropWhile_append_of_pos hrev, dropWhile_head hlast,
      List.reverse_reverse]

theorem trim_eq_self (hhead : ∀ c ∈ s.head?, isBlank c = false)
    (hlast : ∀ c ∈ s.getLast?, isBlank c = false) : trim s = s := by
  have h : trim ([] ++ s ++ []) = s := trim_between (by simp) (by simp) hhead hlast
  rwa [List.nil_append, List.append_nil] at h

end SparqlViews.Text

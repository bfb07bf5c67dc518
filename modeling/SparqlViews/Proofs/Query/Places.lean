import Mathlib.Data.List.TakeWhile
import SparqlViews.Proofs.Query.Filling

/-! # What stands where a marker stood

Markers are replaced line by line, and one after the other over the whole text. Each begins with `#`
and has it nowhere else, so that no occurrence of one goes beyond the beginning of another. So what a
text becomes up to a marker does not depend on what follows (`placeBefore`), and at the end of it stand
the pieces of the marker (`exists_place_at`).

* `spliceLine_at`: one line, up to a marker of it and from there on.
* `exists_fill_at`: the whole text, with one marker replaced.
-/

namespace SparqlViews

theorem Marker.exists_text_eq_cons (m : Marker) :
    ∃ more, m.text.toList = '#' :: more ∧ '#' ∉ more := by
  cases m <;> exact ⟨_, rfl, by decide⟩

namespace Flat

open Text (Whole)

variable {m k : Marker} {earlier : List Marker} {pieces : List (List Char)}
  {given : Marker → List (List Char)} {s line text front back : List Char}

/-! ### In a line -/

/-- What is put in for a marker on a line that begins as given. -/
def glued (pieces : List (List Char)) (line : List Char) : List Char :=
  List.intercalate ('\n' :: line.takeWhile Text.isBlank) (pieceLines pieces)

theorem glued_append_hash (pieces : List (List Char)) (line more : List Char) :
    glued pieces (line ++ '#' :: more) = glued pieces line := by
  have hwhite : (line ++ '#' :: more).takeWhile Text.isBlank = line.takeWhile Text.isBlank := by
    induction line with
    | nil => exact List.takeWhile_cons_of_neg (by decide)
    | cons c line ih =>
      rw [List.cons_append, List.takeWhile_cons, List.takeWhile_cons, ih]
  rw [glued, hwhite, glued]

/-- **A line is replaced in** unless it is a marker alone and there is nothing to put in. -/
theorem spliceLine_eq_replaceAll (h : Text.trim line = m.text.toList → pieces ≠ []) :
    spliceLine m pieces line = Text.replaceAll m.text.toList (glued pieces line) line := by
  unfold spliceLine
  split
  · rename_i hin
    rw [Bool.not_eq_eq_eq_not, Bool.not_true, Bool.eq_false_iff, ne_eq, Marker.isIn_iff] at hin
    exact (Text.replaceAll_of_not_infix _ hin).symm
  · split
    · rename_i honly
      rw [Bool.and_eq_true, decide_eq_true_eq, List.isEmpty_iff] at honly
      exact absurd honly.1 (h honly.2)
    · rfl

theorem trim_append_hash_ne (m : Marker) (line : List Char) :
    Text.trim (line ++ ['#']) ≠ m.text.toList := by
  intro h
  have hlast : m.text.toList.getLast? = some '$' := by cases m <;> rfl
  have htrim : Text.trim (line ++ ['#']) = line.dropWhile Text.isBlank ++ ['#'] := by
    have hsplit : line ++ ['#'] =
        line.takeWhile Text.isBlank ++ (line.dropWhile Text.isBlank ++ ['#']) ++ [] := by
      rw [List.append_nil, ← List.append_assoc, List.takeWhile_append_dropWhile]
    rw [hsplit]
    refine Text.trim_between (fun c hc => List.mem_takeWhile_imp hc) (by simp) (fun c hc => ?_)
      fun c hc => ?_
    · cases hdrop : line.dropWhile Text.isBlank with
      | nil =>
        rw [hdrop] at hc
        cases hc
        decide
      | cons d more =>
        rw [hdrop] at hc
        cases hc
        have := List.head?_dropWhile_not Text.isBlank line
        rw [hdrop] at this
        simpa using this
    · rw [List.getLast?_concat] at hc
      cases hc
      decide
  rw [← h, htrim, List.getLast?_concat] at hlast
  exact absurd hlast (by decide)

theorem spliceLine_append_hash (m : Marker) (pieces : List (List Char)) (line : List Char) :
    spliceLine m pieces (line ++ ['#']) =
      Text.replaceAll m.text.toList (glued pieces line) line ++ ['#'] := by
  have hshort : ¬ m.text.toList <:+: ['#'] := by cases m <;> decide
  obtain ⟨more, htext, hmore⟩ := m.exists_text_eq_cons
  rw [spliceLine_eq_replaceAll fun h => absurd h (trim_append_hash_ne m line), glued_append_hash]
  rw [htext] at hshort ⊢
  rw [Text.replaceAll_append_head hmore, Text.replaceAll_of_not_infix _ hshort]

/-- **A line up to a marker of it, and from there on.** If it is the marker that is replaced, there is
something to put in for it. -/
theorem spliceLine_at (h : k = m → pieces ≠ []) (line rest : List Char) :
    spliceLine k pieces (line ++ (m.text.toList ++ rest)) =
      Text.replaceAll k.text.toList (glued pieces line) line ++
        ((if k = m then glued pieces line else m.text.toList) ++
          Text.replaceAll k.text.toList (glued pieces line) rest) := by
  have hin : m.isIn (line ++ (m.text.toList ++ rest)) = true := by
    rw [Marker.isIn_iff]
    exact (List.prefix_append _ _).isInfix.trans (List.suffix_append _ _).isInfix
  have hsplice : spliceLine k pieces (line ++ (m.text.toList ++ rest)) =
      Text.replaceAll k.text.toList (glued pieces (line ++ (m.text.toList ++ rest)))
        (line ++ (m.text.toList ++ rest)) := by
    refine spliceLine_eq_replaceAll fun hline => ?_
    by_cases hkm : k = m
    · exact h hkm
    · exact absurd hline (trim_ne_of_isIn hkm hin)
  obtain ⟨km, hk, hkmore⟩ := k.exists_text_eq_cons
  obtain ⟨mm, hm, -⟩ := m.exists_text_eq_cons
  have hglued : glued pieces (line ++ (m.text.toList ++ rest)) = glued pieces line := by
    rw [hm, List.cons_append, glued_append_hash]
  have hfrom : Text.replaceAll k.text.toList (glued pieces line) (m.text.toList ++ rest) =
      (if k = m then glued pieces line else m.text.toList) ++
        Text.replaceAll k.text.toList (glued pieces line) rest := by
    split
    · rename_i hkm
      rw [hkm, Text.replaceAll_append_self m.text_ne_nil]
    · rename_i hkm
      exact (Marker.apart_text hkm).replaceFrom_append _ rest
  rw [hsplice, hglued, ← hfrom, hm, List.cons_append, hk, Text.replaceAll_append_head hkmore]

/-! ### In a text -/

/-- **What becomes of a text in front of a marker**, where another one is replaced. The `#` stands for
the marker, with which the last line goes on. -/
def fillBefore (m : Marker) (pieces : List (List Char)) (text : List Char) : List Char :=
  (fill m pieces (text ++ ['#'])).dropLast

theorem fill_append_line_hash (hs : Whole s) (hline : '\n' ∉ line) :
    fill m pieces (s ++ line ++ ['#']) =
      fill m pieces s ++ Text.replaceAll m.text.toList (glued pieces line) line ++ ['#'] := by
  have hlast : '\n' ∉ line ++ ['#'] := by simp [hline]
  have hchunk : fill m pieces (line ++ ['#']) = spliceLine m pieces (line ++ ['#']) := by
    rw [fill, Text.lineChunks_of_not_mem hlast (by simp), List.flatMap_singleton]
  rw [List.append_assoc, fill_append hs, hchunk, spliceLine_append_hash, ← List.append_assoc]

theorem fillBefore_append_line (hs : Whole s) (hline : '\n' ∉ line) :
    fillBefore m pieces (s ++ line) =
      fill m pieces s ++ Text.replaceAll m.text.toList (glued pieces line) line := by
  rw [fillBefore, fill_append_line_hash hs hline, List.dropLast_concat]

theorem fill_append_hash (m : Marker) (pieces : List (List Char)) (text : List Char) :
    fill m pieces (text ++ ['#']) = fillBefore m pieces text ++ ['#'] := by
  obtain ⟨front, line, hfront, hline, rfl⟩ := Text.exists_whole_append text
  rw [fill_append_line_hash hfront hline, fillBefore_append_line hfront hline]

/-- **A text up to a marker of it, and from there on**, with one marker replaced. What follows begins
as before, unless it is a marker. -/
theorem exists_fill_at (pieces : List (List Char)) (h : k = m → pieces ≠ [])
    (front back : List Char) : ∃ line back',
    fill k pieces (front ++ (m.text.toList ++ back)) = fillBefore k pieces front ++
      ((if k = m then glued pieces line else m.text.toList) ++ back') ∧
    (back.head? ≠ some '#' → back'.head? = back.head?) := by
  obtain ⟨whole, line, hwhole, hline, rfl⟩ := Text.exists_whole_append front
  obtain ⟨rest, more, rfl, hrest, hchunks⟩ := Text.exists_lineChunks back
  obtain ⟨km, hk, -⟩ := k.exists_text_eq_cons
  refine ⟨line, Text.replaceAll k.text.toList (glued pieces line) rest ++ fill k pieces more, ?_,
    fun hhead => ?_⟩
  · have hstart : '\n' ∉ line ++ m.text.toList := by
      rw [List.mem_append]
      exact not_or.2 ⟨hline, m.newline_not_mem_text⟩
    have hfirst : fill k pieces (line ++ (m.text.toList ++ (rest ++ more))) =
        spliceLine k pieces (line ++ (m.text.toList ++ rest)) ++ fill k pieces more := by
      rw [fill, ← List.append_assoc line, hchunks _ hstart (by simp [m.text_ne_nil]),
        List.flatMap_cons, ← fill, List.append_assoc line]
    rw [fillBefore_append_line hwhole hline, List.append_assoc, fill_append hwhole, hfirst,
      spliceLine_at h]
    simp only [List.append_assoc]
  · cases rest with
    | nil =>
      have hmore : more = [] := hrest rfl
      rw [hmore]
      rfl
    | cons c rest =>
      have hc : (c :: rest).head? ≠ some '#' := hhead
      have hsame := Text.head?_replaceAll (p := km) (glued pieces line) hc
      rw [hk]
      cases hreplaced : Text.replaceAll ('#' :: km) (glued pieces line) (c :: rest) with
      | nil =>
        rw [hreplaced] at hsame
        cases hsame
      | cons d more' =>
        rw [hreplaced] at hsame
        exact hsame

/-! ### Markers in turn -/

/-- **What becomes of a text in front of a marker**, where others are replaced in turn. -/
def placeBefore (given : Marker → List (List Char)) (markers : List Marker) (text : List Char) :
    List Char :=
  markers.foldl (fun text m => fillBefore m (given m) text) text

theorem place_append_hash (given : Marker → List (List Char)) (markers : List Marker)
    (text : List Char) :
    place given markers (text ++ ['#']) = placeBefore given markers text ++ ['#'] := by
  induction markers generalizing text with
  | nil => rfl
  | cons m markers ih =>
    rw [place_cons, fill_append_hash, ih]
    rfl

/-- **At the place of the marker that is replaced last stand its pieces**, behind what becomes of the
text in front of it. -/
theorem exists_place_at (hm : m ∉ earlier) (hgiven : given m ≠ []) (front back : List Char) :
    ∃ line back', place given (earlier ++ [m]) (front ++ (m.text.toList ++ back)) =
        placeBefore given (earlier ++ [m]) front ++ (glued (given m) line ++ back') ∧
      (back.head? ≠ some '#' → back'.head? = back.head?) := by
  induction earlier generalizing front back with
  | nil =>
    obtain ⟨line, back', heq, hhead⟩ := exists_fill_at (k := m) (given m) (fun _ => hgiven) front back
    rw [if_pos rfl] at heq
    exact ⟨line, back', heq, hhead⟩
  | cons k earlier ih =>
    have hkm : k ≠ m := fun h => hm (h ▸ List.mem_cons_self)
    obtain ⟨_, back₁, heq, hhead⟩ :=
      exists_fill_at (given k) (fun h => absurd h hkm) front back
    obtain ⟨line, back', heq', hhead'⟩ :=
      ih (fun h => hm (List.mem_cons_of_mem _ h)) (fillBefore k (given k) front) back₁
    rw [if_neg hkm] at heq
    refine ⟨line, back', ?_, fun h => ?_⟩
    · rw [List.cons_append, place_cons, heq, heq']
      rfl
    · have hfirst := hhead h
      rw [hhead' (by rwa [hfirst]), hfirst]

end Flat

end SparqlViews

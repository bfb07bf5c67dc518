import SparqlViews.Proofs.Result.Stream

/-! # The source of a stream is released once

A caller asks a stream for trees and closes it, in any order, and in the end the stream is dropped,
which closes it. What the stream has done to its source by then does not depend on which of these
closed it.

* `Operation`, `perform`, `after`: what a caller does, one operation and all of them in turn.
* `Uses source n s`: the stream `s` began with `source` and has asked it `n` times. Each operation
  goes from one such state to another (`Uses.close`, `Uses.gather`, `Uses.next`), and so does every
  run of them (`Uses.after`).
* `released_once`: one close, no question after it, none after the end or a failure, and no answer
  from a stream that is closed.
-/

namespace SparqlViews

/-- What a source answers to its question `k`: it has ended after its last answer. -/
def RowSource.reply (source : RowSource) (k : ℕ) : Answer := source.answers.getD k .done

/-- An answer after which the source may be asked again. -/
def Answer.isRow : Answer → Bool
  | .row _ => true
  | _ => false

namespace ResultStream

/-- **What a caller does with a stream.** -/
inductive Operation where
  | next
  | close
  deriving DecidableEq, Repr

/-- An operation with its answer. -/
def perform (s : ResultStream) :
    Operation → Option (Except StreamError ResultTree) × ResultStream
  | .next => s.next
  | .close => (none, s.close)

/-- The stream after operations in turn. -/
def after (s : ResultStream) (operations : List Operation) : ResultStream :=
  operations.foldl (fun s operation => (s.perform operation).2) s

/-- The end of a stream's life. -/
def drop (s : ResultStream) : ResultStream := s.close

theorem after_append (s : ResultStream) (earlier later : List Operation) :
    s.after (earlier ++ later) = (s.after earlier).after later :=
  List.foldl_append

/-- **How a stream has used the source that it began with**: it has asked `n` times, always after a
row, and an open stream has a row behind it and the other answers still before it. -/
structure Uses (source : RowSource) (n : ℕ) (s : ResultStream) : Prop where
  calls : s.source.calls =
    (if s.closed then [.close] else []) ++ List.replicate n .pull ++ source.calls
  again : ∀ k, k + 1 < n → (source.reply k).isRow
  rest : s.closed = false → s.source.answers = source.answers.drop n
  last : s.closed = false → 0 < n → (source.reply (n - 1)).isRow
  pending : s.closed = true → s.pending = none

variable {source rest : RowSource} {n : ℕ} {s : ResultStream} {r : Row}
  {a : Answer}

theorem Uses.start (source : RowSource) (view : View) (root : String) :
    Uses source 0 { source, view, root } where
  calls := rfl
  again k hk := by omega
  rest _ := rfl
  last _ hn := by omega
  pending h := by simp at h

/-! ### One question -/

theorem pull_of_drop {taken : RowSource} (h : taken.answers = source.answers.drop n) :
    taken.pull = (source.reply n, ⟨source.answers.drop (n + 1), .pull :: taken.calls⟩) := by
  unfold RowSource.reply
  cases hd : source.answers.drop n with
  | nil =>
    have hn : source.answers.length ≤ n := List.drop_eq_nil_iff.1 hd
    rw [RowSource.pull_nil (h.trans hd), List.drop_eq_nil_of_le (by omega : _ ≤ n + 1),
      List.getD_eq_getElem?_getD, List.getElem?_eq_none hn]
    rfl
  | cons a more =>
    have ha : source.answers[n]? = some a := by
      have := List.head?_drop (l := source.answers) (i := n)
      rw [hd] at this
      exact this.symm
    have hmore : source.answers.drop (n + 1) = more := by
      rw [← List.tail_drop, hd]
      rfl
    rw [RowSource.pull_cons (h.trans hd), hmore, List.getD_eq_getElem?_getD, ha]
    rfl

section Asked
variable (h : Uses source n s) (hopen : s.closed = false)
include h hopen

theorem Uses.rows {k : ℕ} (hk : k < n) : (source.reply k).isRow := by
  rcases Nat.lt_or_ge (k + 1) n with hlt | hge
  · exact h.again k hlt
  · have hlast := h.last hopen (by omega)
    have hk' : n - 1 = k := by omega
    rwa [hk'] at hlast

/-- **A row was answered.** The stream stays open, and keeps the row or not. -/
theorem Uses.row (hp : s.source.pull = (.row r, rest)) (kept : Option Row) :
    Uses source (n + 1) { s with source := rest, pending := kept } := by
  rw [pull_of_drop (h.rest hopen)] at hp
  obtain ⟨hrow, hrest⟩ := Prod.mk.inj hp
  subst hrest
  refine ⟨?_, fun k hk => h.rows hopen (by omega), fun _ => rfl, fun _ _ => ?_, fun hc => ?_⟩
  · simp [h.calls, hopen, List.replicate_succ]
  · rw [Nat.add_sub_cancel, hrow]
    rfl
  · rw [hopen] at hc
    simp at hc

/-- **The source ended or failed**: the stream is closed. -/
theorem Uses.ended (hp : s.source.pull = (a, rest)) :
    Uses source (n + 1) (ResultStream.close { s with source := rest }) := by
  rw [pull_of_drop (h.rest hopen)] at hp
  obtain ⟨-, hrest⟩ := Prod.mk.inj hp
  subst hrest
  unfold ResultStream.close
  rw [if_neg (by simp [hopen])]
  refine ⟨?_, fun k hk => h.rows hopen (by omega), fun hc => ?_, fun hc => ?_, fun _ => rfl⟩
  · simp [RowSource.close, h.calls, hopen, List.replicate_succ]
  · simp at hc
  · simp at hc

end Asked

/-! ### One operation -/

theorem Uses.close (h : Uses source n s) : Uses source n s.close := by
  unfold ResultStream.close
  split
  · exact h
  · rename_i hopen
    have hopen : s.closed = false := by simpa using hopen
    refine ⟨?_, h.again, fun hc => ?_, fun hc => ?_, fun _ => rfl⟩
    · simp [RowSource.close, h.calls, hopen]
    · simp at hc
    · simp at hc

theorem Uses.unkept (h : Uses source n s) : Uses source n { s with pending := none } :=
  ⟨h.calls, h.again, h.rest, h.last, fun _ => rfl⟩

/-- **The rows of an entity**, by induction over the rows that the source answers. -/
theorem Uses.gather (columns : List (String × Path)) (entity : Term) (t : ResultTree)
    (h : Uses source n s) (hopen : s.closed = false) :
    ∃ m, Uses source m (s.gather columns entity t).2 := by
  fun_induction ResultStream.gather s columns entity t generalizing n with
  | case1 s t row rest hp hrow ih => exact ih (h.row hopen hp s.pending) hopen
  | case2 s t row rest hp hrow => exact ⟨n + 1, h.row hopen hp (some row)⟩
  | case3 s t rest hp => exact ⟨n + 1, h.ended hopen hp⟩
  | case4 s t e rest hp => exact ⟨n + 1, h.ended hopen hp⟩

theorem Uses.startWith (h : Uses source n s) (hopen : s.closed = false) (row : Row) :
    ∃ m, Uses source m (s.startWith row).2 := by
  unfold ResultStream.startWith
  split
  · exact ⟨n, h⟩
  · exact h.gather _ _ _ hopen

theorem Uses.next (h : Uses source n s) : ∃ m, Uses source m s.next.2 := by
  cases hopen : s.closed with
  | true =>
    rw [next_of_closed hopen]
    exact ⟨n, h⟩
  | false =>
    unfold ResultStream.next
    rw [if_neg (by simp [hopen])]
    split
    · exact h.unkept.startWith hopen _
    · split <;> rename_i hp
      · exact (h.row hopen hp s.pending).startWith hopen _
      · exact ⟨n + 1, h.ended hopen hp⟩
      · exact ⟨n + 1, h.ended hopen hp⟩

/-! ### Runs of operations -/

theorem Uses.perform (h : Uses source n s) (operation : Operation) :
    ∃ m, Uses source m (s.perform operation).2 := by
  cases operation with
  | next => exact h.next
  | close => exact ⟨n, h.close⟩

/-- **Every run of operations**, by induction on the operations. -/
theorem Uses.after (h : Uses source n s) (operations : List Operation) :
    ∃ m, Uses source m (s.after operations) := by
  induction operations generalizing s n with
  | nil => exact ⟨n, h⟩
  | cons operation operations ih =>
    obtain ⟨m, hm⟩ := h.perform operation
    exact ih hm

theorem close_of_closed (hclosed : s.closed = true) : s.close = s := by
  simp [ResultStream.close, hclosed]

theorem after_of_closed (hclosed : s.closed = true) (operations : List Operation) :
    s.after operations = s := by
  induction operations with
  | nil => rfl
  | cons operation operations ih =>
    have hstep : (s.perform operation).2 = s := by
      cases operation with
      | next => exact congrArg Prod.snd (next_of_closed hclosed)
      | close => exact close_of_closed hclosed
    calc s.after (operation :: operations)
        = (s.perform operation).2.after operations := rfl
      _ = s := by rw [hstep, ih]

/-- **The source of a stream is released exactly once and is not used afterwards.** For every source,
every view and all operations on a new stream: the source was closed if and only if the stream is
closed, and after all questions to it; the drop at the end leaves it closed once and asks nothing
more; only a row was followed by another question; and when the stream was closed at any point, no
row was kept and it answered nothing from there on. -/
theorem released_once (source : RowSource) (view : View) (root : String)
    (operations : List Operation) :
    (∃ n, (after { source, view, root } operations).source.calls =
        (if (after { source, view, root } operations).closed then [.close] else []) ++
          List.replicate n .pull ++ source.calls ∧
      (after { source, view, root } operations).drop.source.calls =
        [.close] ++ List.replicate n .pull ++ source.calls ∧
      ∀ k, k + 1 < n → ∃ row, source.reply k = .row row) ∧
    ∀ earlier later, operations = earlier ++ later →
      (after { source, view, root } earlier).closed = true →
        (after { source, view, root } earlier).pending = none ∧
          after { source, view, root } operations = after { source, view, root } earlier ∧
          (after { source, view, root } operations).next.1 = none := by
  have hstart := Uses.start source view root
  constructor
  · obtain ⟨n, hn⟩ := hstart.after operations
    have hdrop := hn.close.calls
    rw [closed_close] at hdrop
    refine ⟨n, hn.calls, hdrop, fun k hk => ?_⟩
    have hrow := hn.again k hk
    cases hreply : source.reply k with
    | row row => exact ⟨row, rfl⟩
    | done => simp [hreply, Answer.isRow] at hrow
    | failed e => simp [hreply, Answer.isRow] at hrow
  · rintro earlier later rfl hclosed
    obtain ⟨n, hn⟩ := hstart.after earlier
    have hsame : after { source, view, root } (earlier ++ later) =
        after { source, view, root } earlier := by
      rw [after_append, after_of_closed hclosed]
    refine ⟨hn.pending hclosed, hsame, ?_⟩
    rw [hsame, next_of_closed hclosed]

end ResultStream

end SparqlViews

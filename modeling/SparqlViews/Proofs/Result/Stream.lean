import Mathlib.Logic.Function.Iterate
import SparqlViews.Proofs.Result.Grouping

/-! # The stream and the runs of its rows

A stream that is open answers from what is still to come: the row it kept and the answers of its
source (`coming`). One lemma for each way in which that can begin says what the next answer is and
what is left (`next_rootless`, `next_block_row`, `next_ended`, `next_failed`), and a run of the stream is
an induction over the runs of its rows (`emits_of_coming`).

* `advance`, `Emits`: the stream after some answers, and all answers it gives from then on.
* `stream_answers_runs`: the answers of a stream, and how far it has read at each of them.
-/

namespace SparqlViews

namespace RowSource

/-- The rows that a source delivers before it ends or fails. -/
def delivered : List Answer → List Row
  | .row r :: rest => r :: delivered rest
  | _ => []

/-- The failure of a source that does not end. -/
def failure? : List Answer → Option SourceError
  | .row _ :: rest => failure? rest
  | .failed e :: _ => some e
  | _ => none

theorem exists_tail : ∀ answers : List Answer, ∃ tail,
    answers = (delivered answers).map .row ++ tail ∧ (∀ r, tail.head? ≠ some (.row r)) ∧
      failure? tail = failure? answers
  | [] => ⟨[], rfl, by simp, rfl⟩
  | .done :: rest => ⟨.done :: rest, rfl, by simp, rfl⟩
  | .failed e :: rest => ⟨.failed e :: rest, rfl, by simp, rfl⟩
  | .row r :: rest => by
    obtain ⟨tail, hrest, htail, hfail⟩ := exists_tail rest
    refine ⟨tail, ?_, htail, hfail⟩
    rw [delivered, List.map_cons, List.cons_append, ← hrest]

theorem tail_cases {tail : List Answer} (htail : ∀ r, tail.head? ≠ some (.row r)) :
    (failure? tail = none ∧ (tail = [] ∨ ∃ more, tail = .done :: more)) ∨
      ∃ e more, failure? tail = some e ∧ tail = .failed e :: more := by
  rcases tail with _ | ⟨a, more⟩
  · exact .inl ⟨rfl, .inl rfl⟩
  · cases a with
    | row r => exact absurd rfl (htail r)
    | done => exact .inl ⟨rfl, .inr ⟨more, rfl⟩⟩
    | failed e => exact .inr ⟨e, more, rfl, rfl⟩

theorem pull_nil {s : RowSource} (h : s.answers = []) : s.pull = (.done, ⟨[], .pull :: s.calls⟩) := by
  simp [pull, h]

theorem pull_cons {s : RowSource} {a : Answer} {more : List Answer} (h : s.answers = a :: more) :
    s.pull = (a, ⟨more, .pull :: s.calls⟩) := by
  simp [pull, h]

theorem pulls_close (s : RowSource) : s.close.pulls = s.pulls := by
  simp [pulls, close]

end RowSource

namespace ResultStream

variable {s : ResultStream} {columns : List (String × Path)} {entity : Term} {t : ResultTree}
  {row : Row} {block : List Row} {more rest : List Answer} {e : SourceError}

/-- **What is still to come**: the row that was kept, and the answers of the source. -/
def coming (s : ResultStream) : List Answer := s.pending.toList.map .row ++ s.source.answers

/-- The number of rows that were read beyond those of the trees given. -/
def lookahead (s : ResultStream) : ℕ := if s.pending.isSome then 1 else 0

/-- The stream with its source asked a number of times. -/
def asked (s : ResultStream) (n : ℕ) (rest : List Answer) : ResultStream :=
  { s with source := ⟨rest, List.replicate n .pull ++ s.source.calls⟩ }

theorem asked_asked (s : ResultStream) (m n : ℕ) (more rest : List Answer) :
    (s.asked m more).asked n rest = s.asked (m + n) rest := by
  unfold asked
  dsimp only
  rw [← List.append_assoc, List.replicate_append_replicate, Nat.add_comm n m]

theorem pulls_asked (s : ResultStream) (n : ℕ) (rest : List Answer) :
    (s.asked n rest).source.pulls = s.source.pulls + n := by
  simp [asked, RowSource.pulls, Nat.add_comm]

@[simp] theorem closed_close (s : ResultStream) : s.close.closed = true := by
  unfold close
  split
  · assumption
  · rfl

theorem pulls_close (s : ResultStream) : s.close.source.pulls = s.source.pulls := by
  unfold close
  split
  · rfl
  · exact RowSource.pulls_close _

/-! ### Reading the rows of an entity -/

theorem gather_same (h : s.source.answers = .row row :: more) (hrow : row.get? s.root = some entity) :
    s.gather columns entity t =
      (s.asked 1 more).gather columns entity (t.foldRow s.root s.view columns row) := by
  rw [gather]
  split <;> rename_i hp <;> rw [RowSource.pull_cons h] at hp <;> cases hp
  rw [if_pos hrow]
  rfl

theorem gather_other (h : s.source.answers = .row row :: more)
    (hrow : row.get? s.root ≠ some entity) :
    s.gather columns entity t = (.ok t, { s.asked 1 more with pending := some row }) := by
  rw [gather]
  split <;> rename_i hp <;> rw [RowSource.pull_cons h] at hp <;> cases hp
  rw [if_neg hrow]
  rfl

theorem gather_failed (h : s.source.answers = .failed e :: more) :
    s.gather columns entity t = (.error (.aborted e), (s.asked 1 more).close) := by
  rw [gather]
  split <;> rename_i hp <;> rw [RowSource.pull_cons h] at hp <;> cases hp
  rfl

theorem gather_done (h : s.source.answers = .done :: more) :
    s.gather columns entity t = (.ok t, (s.asked 1 more).close) := by
  rw [gather]
  split <;> rename_i hp <;> rw [RowSource.pull_cons h] at hp <;> cases hp
  rfl

theorem gather_nil (h : s.source.answers = []) :
    s.gather columns entity t = (.ok t, (s.asked 1 []).close) := by
  rw [gather]
  split <;> rename_i hp <;> rw [RowSource.pull_nil h] at hp <;> cases hp
  rfl

/-- **The rows of an entity are added one by one.** -/
theorem gather_block (columns : List (String × Path)) :
    ∀ {block : List Row} {s : ResultStream} (t : ResultTree),
      s.source.answers = block.map .row ++ rest → (∀ r ∈ block, r.get? s.root = some entity) →
      s.gather columns entity t = (s.asked block.length rest).gather columns entity
        (block.foldl (ResultTree.foldRow s.root s.view columns) t)
  | [], s, t, h, _ => by
    have : s.asked 0 rest = s := by
      rw [List.map_nil, List.nil_append] at h
      subst h
      rfl
    rw [List.length_nil, this]
    rfl
  | row :: block, s, t, h, hblock => by
    have ih := gather_block columns (s := s.asked 1 (block.map .row ++ rest))
      (t.foldRow s.root s.view columns row) rfl fun r hr => hblock r (List.mem_cons_of_mem _ hr)
    rw [asked_asked, Nat.add_comm] at ih
    rw [gather_same h (hblock row List.mem_cons_self), List.length_cons, List.foldl_cons]
    exact ih

/-! ### The next answer -/

/-- The stream after its first rows. -/
def past (s : ResultStream) (n : ℕ) (rest : List Answer) : ResultStream :=
  { s.asked (n - s.lookahead) rest with pending := none }

/-- The stream is open after a number of rows, and waits for the rest. -/
structure Waits (s s' : ResultStream) (taken : ℕ) (rest : List Answer) : Prop where
  root : s'.root = s.root
  view : s'.view = s.view
  closed : s'.closed = false
  coming : s'.coming = rest
  pulls : s'.source.pulls + s.lookahead = s.source.pulls + taken + s'.lookahead

theorem lookahead_le (s : ResultStream) : s.lookahead ≤ 1 := by
  unfold lookahead; split <;> omega

theorem pulls_past {n : ℕ} (hn : 1 ≤ n) (rest : List Answer) :
    (s.past n rest).source.pulls + s.lookahead = s.source.pulls + n := by
  have hle := s.lookahead_le
  have := s.pulls_asked (n - s.lookahead) rest
  unfold past
  dsimp only
  omega

theorem past_asked (m : ℕ) : (s.past 1 more).asked m rest = s.past (1 + m) rest := by
  have hle := s.lookahead_le
  have h := s.asked_asked (1 - s.lookahead) m more rest
  have hm : 1 - s.lookahead + m = 1 + m - s.lookahead := by omega
  rw [hm] at h
  unfold past
  rw [← h]
  rfl

theorem next_of_closed (h : s.closed = true) : s.next = (none, s) := by
  simp [next, h]

theorem next_row (hopen : s.closed = false) (h : s.coming = .row row :: more) :
    s.next = (startWith (s.past 1 more) row).map some id := by
  unfold next
  unfold coming at h
  rw [if_neg (by simp [hopen])]
  cases hp : s.pending with
  | none =>
    rw [hp] at h
    have hlook : s.lookahead = 0 := by simp [lookahead, hp]
    unfold past
    rw [hlook]
    dsimp only
    rw [RowSource.pull_cons h]
    simp only [asked, ← hp]
    rfl
  | some kept =>
    rw [hp] at h
    have hlook : s.lookahead = 1 := by simp [lookahead, hp]
    obtain ⟨hrow, hmore⟩ := List.cons.inj h
    cases hrow
    unfold past
    rw [hlook, ← hmore]
    rfl

/-- **A row that names no entity** is answered at once. -/
theorem next_rootless (hopen : s.closed = false) (h : s.coming = .row row :: more)
    (hrow : row.get? s.root = none) :
    ∃ s', s.next = (some (.ok (ResultTree.ofRow row)), s') ∧ s.Waits s' 1 more := by
  refine ⟨s.past 1 more, ?_, rfl, rfl, hopen, rfl, ?_⟩
  · have hroot : row.get? (s.past 1 more).root = none := hrow
    rw [next_row hopen h, startWith, hroot]
    rfl
  · exact pulls_past le_rfl more

theorem next_gather (hopen : s.closed = false) (h : s.coming = block.map .row ++ rest)
    (hne : block ≠ []) (hblock : ∀ r ∈ block, r.get? s.root = some entity) :
    s.next = ((s.past block.length rest).gather (s.view.columns s.root) entity
      (ResultTree.ofRun s.root s.view block)).map some id := by
  rw [ResultTree.ofRun_block hne hblock]
  obtain ⟨first, tail, rfl⟩ := List.exists_cons_of_ne_nil hne
  have h' : s.coming = .row first :: (tail.map .row ++ rest) := h
  set p := s.past 1 (tail.map .row ++ rest) with hp
  have hfirst : first.get? p.root = some entity := hblock first List.mem_cons_self
  have htail := gather_block (s.view.columns s.root) (s := p)
    (ResultTree.foldRow s.root s.view (s.view.columns s.root) { id := some entity } first) rfl
    fun r hr => hblock r (List.mem_cons_of_mem _ hr)
  rw [past_asked, Nat.add_comm] at htail
  rw [next_row hopen h', ← hp, startWith, hfirst]
  exact congrArg (Prod.map some id) htail

theorem next_block_row (hopen : s.closed = false)
    (h : s.coming = block.map .row ++ .row row :: more) (hne : block ≠ [])
    (hblock : ∀ r ∈ block, r.get? s.root = some entity) (hrow : row.get? s.root ≠ some entity) :
    ∃ s', s.next = (some (.ok (ResultTree.ofRun s.root s.view block)), s') ∧
      s.Waits s' block.length (.row row :: more) := by
  set p := s.past block.length (.row row :: more) with hp
  refine ⟨{ p.asked 1 more with pending := some row }, ?_, rfl, rfl, hopen, rfl, ?_⟩
  · rw [next_gather hopen h hne hblock, gather_other (s := p) rfl hrow]
    rfl
  · have hpulls := pulls_past (s := s) (List.length_pos_iff.2 hne) (.row row :: more)
    have hasked := p.pulls_asked 1 more
    rw [← hp] at hpulls
    show (p.asked 1 more).source.pulls + s.lookahead = s.source.pulls + block.length + 1
    omega

theorem next_block_ended (hopen : s.closed = false) (h : s.coming = block.map .row ++ rest)
    (hne : block ≠ []) (hblock : ∀ r ∈ block, r.get? s.root = some entity)
    (hrest : rest = [] ∨ ∃ more, rest = .done :: more) :
    ∃ s', s.next = (some (.ok (ResultTree.ofRun s.root s.view block)), s') ∧ s'.closed = true ∧
      s'.source.pulls + s.lookahead = s.source.pulls + block.length + 1 := by
  have hgather := next_gather hopen h hne hblock
  have hpulls := pulls_past (s := s) (List.length_pos_iff.2 hne) rest
  set p := s.past block.length rest with hp
  obtain ⟨more, hclose⟩ : ∃ more, p.gather (s.view.columns s.root) entity
      (ResultTree.ofRun s.root s.view block) =
        (.ok (ResultTree.ofRun s.root s.view block), (p.asked 1 more).close) := by
    rcases hrest with rfl | ⟨more, rfl⟩
    · exact ⟨[], gather_nil (s := p) rfl⟩
    · exact ⟨more, gather_done (s := p) rfl⟩
  refine ⟨(p.asked 1 more).close, ?_, closed_close _, ?_⟩
  · rw [hgather, hclose]
    rfl
  · rw [pulls_close, pulls_asked]
    omega

theorem next_block_failed (hopen : s.closed = false)
    (h : s.coming = block.map .row ++ .failed e :: more) (hne : block ≠ [])
    (hblock : ∀ r ∈ block, r.get? s.root = some entity) :
    ∃ s', s.next = (some (.error (.aborted e)), s') ∧ s'.closed = true := by
  set p := s.past block.length (.failed e :: more) with hp
  refine ⟨(p.asked 1 more).close, ?_, closed_close _⟩
  rw [next_gather hopen h hne hblock, gather_failed (s := p) rfl]
  rfl

theorem pending_of_coming (h : ∀ r, s.coming.head? ≠ some (.row r)) :
    s.pending = none ∧ s.source.answers = s.coming := by
  unfold coming at h ⊢
  cases hp : s.pending with
  | none => exact ⟨rfl, rfl⟩
  | some kept =>
    rw [hp] at h
    exact absurd rfl (h kept)

theorem next_ended (hopen : s.closed = false)
    (h : s.coming = [] ∨ ∃ more, s.coming = .done :: more) :
    ∃ s', s.next = (none, s') ∧ s'.closed = true := by
  have hhead : ∀ r, s.coming.head? ≠ some (.row r) := by
    rcases h with h | ⟨more, h⟩ <;> rw [h] <;> simp
  obtain ⟨hpend, hans⟩ := pending_of_coming hhead
  unfold next
  rw [if_neg (by simp [hopen]), hpend]
  rcases h with h | ⟨more, h⟩
  · rw [h] at hans
    rw [RowSource.pull_nil hans]
    exact ⟨_, rfl, closed_close _⟩
  · rw [h] at hans
    rw [RowSource.pull_cons hans]
    exact ⟨_, rfl, closed_close _⟩

theorem next_failed (hopen : s.closed = false) (h : s.coming = .failed e :: more) :
    ∃ s', s.next = (some (.error (.aborted e)), s') ∧ s'.closed = true := by
  obtain ⟨hpend, hans⟩ := pending_of_coming (s := s) (by rw [h]; simp)
  rw [h] at hans
  unfold next
  rw [if_neg (by simp [hopen]), hpend]
  dsimp only
  rw [RowSource.pull_cons hans]
  exact ⟨_, rfl, closed_close _⟩

/-! ### All answers -/

/-- The stream after some answers. -/
def advance (n : ℕ) (s : ResultStream) : ResultStream := (fun s => s.next.2)^[n] s

/-- **These are the answers of the stream**, and from then on it answers nothing. -/
def Emits (s : ResultStream) (answers : List (Except StreamError ResultTree)) : Prop :=
  ∀ n, (s.advance n).next.1 = answers[n]?

/-- After each of these runs the stream has read one row beyond it at most. -/
def ReadsOneAhead (s : ResultStream) (finished : List (List Row)) : Prop :=
  ∀ n < finished.length, (s.advance (n + 1)).source.pulls + s.lookahead ≤
    s.source.pulls + ((finished.take (n + 1)).flatten).length + 1

@[simp] theorem advance_succ (n : ℕ) (s : ResultStream) : s.advance (n + 1) = s.next.2.advance n :=
  Function.iterate_succ_apply _ n s

theorem advance_of_closed (h : s.closed = true) : ∀ n, s.advance n = s
  | 0 => rfl
  | n + 1 => by rw [advance_succ, next_of_closed h, advance_of_closed h n]

theorem Emits.nil (h : s.closed = true) : s.Emits [] := by
  intro n
  rw [advance_of_closed h, next_of_closed h]
  rfl

theorem Emits.cons {s' : ResultStream} {x : Except StreamError ResultTree}
    {answers : List (Except StreamError ResultTree)} (h : s.next = (some x, s'))
    (hrest : s'.Emits answers) : s.Emits (x :: answers) := by
  intro n
  cases n with
  | zero => exact congrArg Prod.fst h
  | succ n =>
    rw [advance_succ, h, List.getElem?_cons_succ]
    exact hrest n

theorem Emits.of_none {s' : ResultStream} (h : s.next = (none, s')) (hclosed : s'.closed = true) :
    s.Emits [] := by
  intro n
  cases n with
  | zero => exact congrArg Prod.fst h
  | succ n =>
    rw [advance_succ, h]
    exact Emits.nil hclosed n

theorem ReadsOneAhead.nil (s : ResultStream) : s.ReadsOneAhead [] := fun n hn => by
  simp at hn

theorem ReadsOneAhead.cons {s' : ResultStream} {x : Except StreamError ResultTree} {run : List Row}
    {finished : List (List Row)} (h : s.next = (some x, s'))
    (hpulls : s'.source.pulls + s.lookahead = s.source.pulls + run.length + s'.lookahead)
    (hrest : s'.ReadsOneAhead finished) : s.ReadsOneAhead (run :: finished) := by
  have hle := s'.lookahead_le
  intro n hn
  rw [advance_succ, h, List.take_succ_cons, List.flatten_cons, List.length_append]
  dsimp only
  cases n with
  | zero =>
    show s'.source.pulls + s.lookahead ≤ _
    omega
  | succ n =>
    have := hrest n (by simpa using hn)
    omega

theorem ReadsOneAhead.single {s' : ResultStream} {x : Except StreamError ResultTree}
    (h : s.next = (some x, s')) (hpulls : s'.source.pulls + s.lookahead =
      s.source.pulls + block.length + 1) : s.ReadsOneAhead [block] := by
  intro n hn
  obtain rfl : n = 0 := by simpa using hn
  rw [advance_succ, h]
  show s'.source.pulls + s.lookahead ≤ _
  simp only [List.take_succ_cons, List.take_zero, List.flatten_cons, List.flatten_nil,
    List.append_nil]
  omega

/-- The answers for some finished runs, and for a failure. -/
def answersOf (root : String) (view : View) (finished : List (List Row))
    (failure : Option SourceError) : List (Except StreamError ResultTree) :=
  finished.map (fun run => .ok (ResultTree.ofRun root view run)) ++
    failure.toList.map fun e => .error (.aborted e)

open RowSource Row in
/-- **An open stream answers the runs of the rows that are to come.** -/
theorem emits_of_coming {tail : List Answer} (htail : ∀ r, tail.head? ≠ some (.row r))
    (root : String) (view : View) (rows : List Row) : ∀ s : ResultStream, s.closed = false →
      s.root = root → s.view = view → s.coming = rows.map .row ++ tail →
      s.Emits (answersOf root view (finishedRuns root (failure? tail) rows) (failure? tail)) ∧
        s.ReadsOneAhead (finishedRuns root (failure? tail) rows) := by
  induction rows using run_induction root with
  | nil =>
    intro s hopen _ _ hcoming
    rw [finishedRuns_nil]
    refine ⟨?_, ReadsOneAhead.nil s⟩
    rcases tail_cases htail with ⟨hfail, hend⟩ | ⟨e, more, hfail, rfl⟩
    · rw [hfail]
      obtain ⟨s', hnext, hclosed⟩ := next_ended hopen (by rw [hcoming]; exact hend)
      exact Emits.of_none hnext hclosed
    · rw [hfail]
      obtain ⟨s', hnext, hclosed⟩ := next_failed hopen hcoming
      exact Emits.cons hnext (Emits.nil hclosed)
  | rootless row more hrow ih =>
    intro s hopen hroot hview hcoming
    obtain ⟨s', hnext, hw⟩ := next_rootless hopen hcoming (hroot ▸ hrow)
    obtain ⟨hemits, hreads⟩ :=
      ih s' hw.closed (hw.root.trans hroot) (hw.view.trans hview) hw.coming
    rw [finishedRuns_rootless hrow]
    refine ⟨?_, ReadsOneAhead.cons hnext hw.pulls hreads⟩
    rw [answersOf, List.map_cons, ResultTree.ofRun_rootless hrow]
    exact Emits.cons hnext hemits
  | entity x block more hne hblock hmore ih =>
    intro s hopen hroot hview hcoming
    subst hroot hview
    rw [List.map_append, List.append_assoc] at hcoming
    rcases more with _ | ⟨row, more⟩
    · rw [List.append_nil, finishedRuns_block hne hblock]
      rcases tail_cases htail with ⟨hfail, hend⟩ | ⟨e, rest, hfail, rfl⟩
      · rw [hfail]
        obtain ⟨s', hnext, hclosed, hpulls⟩ := next_block_ended hopen hcoming hne hblock hend
        exact ⟨Emits.cons hnext (Emits.nil hclosed), ReadsOneAhead.single hnext hpulls⟩
      · rw [hfail]
        obtain ⟨s', hnext, hclosed⟩ := next_block_failed hopen hcoming hne hblock
        exact ⟨Emits.cons hnext (Emits.nil hclosed), ReadsOneAhead.nil s⟩
    · obtain ⟨s', hnext, hw⟩ :=
        next_block_row hopen hcoming hne hblock (hmore row (by simp))
      obtain ⟨hemits, hreads⟩ := ih s' hw.closed hw.root hw.view hw.coming
      rw [finishedRuns_append _ (runs_append hne hblock hmore) (List.cons_ne_nil _ _)]
      exact ⟨Emits.cons hnext hemits, ReadsOneAhead.cons hnext hw.pulls hreads⟩

theorem collect_of_emits : ∀ {limit : ℕ} {s : ResultStream}
    {answers : List (Except StreamError ResultTree)}, s.Emits answers → answers.length < limit →
    (collect limit s).1 = answers
  | limit + 1, s, answers, h, hlt => by
    have hfirst := h 0
    unfold collect
    rcases answers with _ | ⟨x, answers⟩
    · obtain ⟨s', hnext⟩ : ∃ s', s.next = (none, s') := ⟨_, Prod.ext hfirst rfl⟩
      rw [hnext]
    · obtain ⟨s', hnext⟩ : ∃ s', s.next = (some x, s') := ⟨_, Prod.ext hfirst rfl⟩
      have hrest : s'.Emits answers := by
        intro n
        have hn := h (n + 1)
        rwa [advance_succ, hnext, List.getElem?_cons_succ] at hn
      rw [List.length_cons] at hlt
      rw [hnext]
      exact congrArg (x :: ·) (collect_of_emits hrest (by omega))

open RowSource Row in
/-- **A stream over a list of rows** gives the trees of its runs. -/
theorem all_ofRows (rows : List Row) (view : View) (root : String) :
    (all { source := .ofRows rows, view, root }).1 =
      ((runs root rows).map (ResultTree.ofRun root view)).map .ok := by
  set s : ResultStream := { source := .ofRows rows, view, root }
  have hcoming : s.coming = rows.map .row ++ [] := (List.append_nil _).symm
  have hend : ∀ r, ([] : List Answer).head? ≠ some (.row r) := by simp
  obtain ⟨hemits, -⟩ := emits_of_coming hend root view rows s rfl rfl rfl hcoming
  have hanswers : answersOf root view (finishedRuns root (failure? []) rows) (failure? []) =
      ((runs root rows).map (ResultTree.ofRun root view)).map .ok := by
    rw [answersOf, List.map_map]
    exact List.append_nil _
  rw [hanswers] at hemits
  refine collect_of_emits hemits ?_
  have hruns := length_runs_le root rows
  have hremaining : s.remaining = rows.length := by simp [s, remaining, RowSource.ofRows]
  simp only [List.length_map]
  omega

open RowSource Row in
/-- **The answers of a stream are the trees of the runs of its rows**, as far as these are known to be
complete, and the failure of its source after them. -/
theorem stream_answers_runs (source : RowSource) (view : View) (root : String) :
    let s : ResultStream := { source, view, root }
    let rows := delivered source.answers
    let failure := failure? source.answers
    let finished := finishedRuns root failure rows
    let answers := finished.map (fun run => Except.ok (ResultTree.ofRun root view run)) ++
      failure.toList.map fun e => Except.error (StreamError.aborted e)
    -- runs are maximal
    ((runs root rows).flatten = rows ∧
      (∀ run ∈ runs root rows, (∃ row, run = [row] ∧ row.get? root = none) ∨
        run ≠ [] ∧ ∃ x, ∀ r ∈ run, r.get? root = some x) ∧
      (runs root rows).IsChain fun a b =>
        ∀ x ∈ a.getLast?, ∀ y ∈ b.head?, sameEntity root x y = false) ∧
    -- the answers in order, and nothing after them
    s.all.1 = answers ∧ (∀ n, (s.advance n).next.1 = answers[n]?) ∧
    -- one row is read ahead
    (∀ n < finished.length, (s.advance (n + 1)).source.pulls ≤
      source.pulls + ((finished.take (n + 1)).flatten).length + 1) ∧
    -- rows that name no entity
    (∀ row, row.get? root = none → (ResultTree.ofRun root view [row]).id = none ∧
      (ResultTree.ofRun root view [row]).keys.Nodup ∧
      ∀ key, key ∈ (ResultTree.ofRun root view [row]).keys ↔
        (row.get? key).isSome ∧ Naming.isInternal key = false) ∧
    -- one tree for each entity
    (failure = none → (∀ row ∈ rows, (row.get? root).isSome) →
      Contiguous (rows.map fun row => row.get? root) →
      let ids := finished.map fun run => (ResultTree.ofRun root view run).id
      ids.Nodup ∧ ∀ x, x ∈ ids ↔ x ∈ rows.map fun row => row.get? root) := by
  intro s rows failure finished answers
  obtain ⟨tail, hanswers, htail, hfail⟩ := exists_tail source.answers
  obtain ⟨hemits, hreads⟩ := emits_of_coming htail root view rows s rfl rfl rfl hanswers
  rw [hfail] at hemits hreads
  have hall : answers.length < s.remaining + 1 := by
    have hfinished : finished.length ≤ rows.length := length_finishedRuns_le root failure rows
    have hremaining : s.remaining = rows.length + tail.length := by
      have := congrArg List.length hanswers
      rw [List.length_append, List.length_map] at this
      exact this
    have htail' : failure.toList.length ≤ tail.length := by
      rcases tail_cases htail with ⟨h, -⟩ | ⟨e, more, h, rfl⟩
      · rw [show failure = none from hfail.symm.trans h]
        exact Nat.zero_le _
      · rw [show failure = some e from hfail.symm.trans h, List.length_cons]
        exact Nat.succ_le_succ (Nat.zero_le _)
    have hlength : answers.length = finished.length + failure.toList.length := by
      simp only [answers, List.length_append, List.length_map]
    omega
  refine ⟨⟨flatten_runs root rows, fun _ => eq_singleton_or_entity_of_mem_runs,
    isChain_runs root rows⟩, collect_of_emits hemits hall, hemits, hreads, fun row hrow => ?_,
    fun hnone hroot hadj => ?_⟩
  · rw [ResultTree.ofRun_rootless hrow]
    exact ⟨ResultTree.id_ofRow row, (ResultTree.tidy_ofRow row).keys,
      fun key => ResultTree.mem_keys_ofRow⟩
  · have hids : finished.map (fun run => (ResultTree.ofRun root view run).id) =
        (runs root rows).map (entityOf? root) := by
      rw [show finished = runs root rows by simp [finished, finishedRuns, hnone]]
      exact List.map_congr_left fun run _ => ResultTree.id_ofRun root view run
    intro ids
    rw [show ids = (runs root rows).map (entityOf? root) from hids]
    exact ⟨nodup_entities_runs hroot hadj, fun x => mem_entities_runs x rows⟩

open Row in
/-- Two rows of one entity and one of another. -/
theorem stream_answers_runs_of_two :
    let rows : List Row := [⟨[("id", .iri "a")]⟩, ⟨[("id", .iri "a")]⟩, ⟨[("id", .iri "b")]⟩]
    (∀ row ∈ rows, (row.get? "id").isSome) ∧ Contiguous (rows.map fun row => row.get? "id") ∧
      ((finishedRuns "id" none rows).map fun run => (ResultTree.ofRun "id" .empty run).id).Nodup := by
  intro rows
  have hroot : ∀ row ∈ rows, (row.get? "id").isSome := by decide
  have hadj : Contiguous (rows.map fun row => row.get? "id") := by
    intro front middle back x h y hy
    have hlen := congrArg List.length h
    have hmid := List.length_pos_of_mem hy
    simp only [rows, List.map_cons, List.map_nil, List.length_append, List.length_cons,
      List.length_nil] at hlen
    obtain rfl : front = [] := List.length_eq_zero_iff.1 (by omega)
    obtain rfl : back = [] := List.length_eq_zero_iff.1 (by omega)
    obtain ⟨m, rfl⟩ := List.length_eq_one_iff.1 (show middle.length = 1 by omega)
    have hfirst : some (Term.iri "a") = x := (List.cons.inj h).1
    have hlast : some (Term.iri "b") = x := (List.cons.inj (List.cons.inj (List.cons.inj h).2).2).1
    exact absurd (hfirst.trans hlast.symm) (by decide)
  obtain ⟨-, -, -, -, -, hone⟩ := stream_answers_runs (RowSource.ofRows rows) .empty "id"
  exact ⟨hroot, hadj, (hone rfl hroot hadj).1⟩

end ResultStream

end SparqlViews

import Mathlib.Data.List.Forall2
import Mathlib.Data.List.SplitBy
import SparqlViews.Proofs.Result.Tree
import SparqlViews.Result.Stream

/-! # Runs of rows

The rows of a result fall into runs: the longest stretches of adjacent rows that name one entity,
while a row that names none is a run of its own. `runs_append` and `runs_rootless` take the first run
off; all else about runs follows from these two.

* `ResultTree.ofRun`: the tree of a run; `mem_keys_ofRow`: the keys of a row that names no entity.
* `finishedRuns`: the runs that are known to be complete when the rows end, or when they fail.
* `nodup_entities_runs`: where the rows of each entity are adjacent, no two runs name one entity.
-/

namespace SparqlViews

namespace Row

variable {root : String} {entity : Term} {row : Row} {rows more block : List Row}

/-- Both rows name an entity, and it is the same. -/
def sameEntity (root : String) (a b : Row) : Bool :=
  (a.get? root).isSome && a.get? root = b.get? root

/-- **The runs of a list of rows**: its longest stretches of rows that name one entity, and each row
that names none. -/
def runs (root : String) (rows : List Row) : List (List Row) := rows.splitBy (sameEntity root)

/-- The runs that are complete although more rows may follow: all but the last one, and the last one
too if its row names no entity. -/
def completeRuns (root : String) (rows : List Row) : List (List Row) :=
  if rows.getLast?.any fun row => (row.get? root).isSome then (runs root rows).dropLast
  else runs root rows

/-- **The runs that a stream gets to know**, when the rows end or fail. -/
def finishedRuns (root : String) (failure : Option SourceError) (rows : List Row) :
    List (List Row) :=
  if failure.isSome then completeRuns root rows else runs root rows

theorem sameEntity_eq_false (h : row.get? root = none) (other : Row) :
    sameEntity root row other = false := by
  simp [sameEntity, h]

/-! ### The first run -/

@[simp] theorem runs_nil (root : String) : runs root [] = [] := rfl

/-- **A row that names no entity** is a run. -/
theorem runs_rootless (h : row.get? root = none) (more : List Row) :
    runs root (row :: more) = [row] :: runs root more := by
  have hsplit := List.splitBy_append (r := sameEntity root) (l := [row]) (m := more) (by
    intro x hx y _
    rw [List.getLast?_singleton, Option.mem_some_iff] at hx
    rw [← hx, sameEntity_eq_false h])
  rw [runs, ← List.singleton_append, hsplit]
  rfl

/-- **The rows of one entity** are a run, as long as they go. -/
theorem runs_append (hne : block ≠ []) (hblock : ∀ row ∈ block, row.get? root = some entity)
    (hmore : ∀ row ∈ more.head?, row.get? root ≠ some entity) :
    runs root (block ++ more) = block :: runs root more := by
  have hchain : block.IsChain fun a b => sameEntity root a b = true := by
    refine List.Pairwise.isChain (List.pairwise_iff_forall_sublist.2 fun {a b} hab => ?_)
    have ha := hblock a (hab.subset (by simp))
    have hb := hblock b (hab.subset (by simp))
    simp [sameEntity, ha, hb]
  have hend : ∀ a ∈ block.getLast?, ∀ b ∈ more.head?, sameEntity root a b = false := by
    intro a ha b hb
    have hroot := hblock a (List.mem_of_mem_getLast? ha)
    have hother := hmore b hb
    simp [sameEntity, hroot, Ne.symm hother]
  rw [runs, List.splitBy_append hend, List.splitBy_of_isChain hne hchain]
  rfl

theorem exists_block (root : String) (entity : Term) : ∀ rows : List Row, ∃ block more,
    rows = block ++ more ∧ (∀ row ∈ block, row.get? root = some entity) ∧
      ∀ row ∈ more.head?, row.get? root ≠ some entity
  | [] => ⟨[], [], rfl, by simp, by simp⟩
  | row :: rows => by
    by_cases h : row.get? root = some entity
    · obtain ⟨block, more, rfl, hblock, hmore⟩ := exists_block root entity rows
      refine ⟨row :: block, more, rfl, fun r hr => ?_, hmore⟩
      rcases List.mem_cons.1 hr with rfl | hr
      · exact h
      · exact hblock r hr
    · refine ⟨[], row :: rows, rfl, by simp, fun r hr => ?_⟩
      rw [List.head?_cons, Option.mem_some_iff] at hr
      exact hr ▸ h

/-- **Rows are taken off run by run.** -/
theorem run_induction {motive : List Row → Prop} (root : String) (nil : motive [])
    (rootless : ∀ row more, row.get? root = none → motive more → motive (row :: more))
    (entity : ∀ x block more, block ≠ [] → (∀ r ∈ block, r.get? root = some x) →
      (∀ r ∈ more.head?, r.get? root ≠ some x) → motive more → motive (block ++ more))
    (rows : List Row) : motive rows := by
  induction h : rows.length using Nat.strong_induction_on generalizing rows with
  | _ n ih =>
    cases rows with
    | nil => exact nil
    | cons row more =>
      rw [List.length_cons] at h
      cases hrow : row.get? root with
      | none => exact rootless row more hrow (ih more.length (by omega) more rfl)
      | some x =>
        obtain ⟨block, rest, rfl, hblock, hrest⟩ := exists_block root x more
        rw [List.length_append] at h
        have hrun : ∀ r ∈ row :: block, r.get? root = some x := by
          intro r hr
          rcases List.mem_cons.1 hr with rfl | hr
          · exact hrow
          · exact hblock r hr
        exact entity x (row :: block) rest (List.cons_ne_nil _ _) hrun hrest
          (ih rest.length (by omega) rest rfl)

theorem runs_ne_nil (h : rows ≠ []) : runs root rows ≠ [] := List.splitBy_ne_nil.2 h

theorem flatten_runs (root : String) (rows : List Row) : (runs root rows).flatten = rows :=
  List.flatten_splitBy _ _

theorem eq_singleton_or_entity_of_mem_runs {run : List Row} (h : run ∈ runs root rows) :
    (∃ row, run = [row] ∧ row.get? root = none) ∨
      run ≠ [] ∧ ∃ x, ∀ r ∈ run, r.get? root = some x := by
  induction rows using run_induction root with
  | nil => cases h
  | rootless row more hrow ih =>
    rw [runs_rootless hrow] at h
    rcases List.mem_cons.1 h with rfl | h
    · exact .inl ⟨row, rfl, hrow⟩
    · exact ih h
  | entity x block more hne hblock hmore ih =>
    rw [runs_append hne hblock hmore] at h
    rcases List.mem_cons.1 h with rfl | h
    · exact .inr ⟨hne, x, hblock⟩
    · exact ih h

theorem isChain_runs (root : String) (rows : List Row) : (runs root rows).IsChain
    fun a b => ∀ x ∈ a.getLast?, ∀ y ∈ b.head?, sameEntity root x y = false := by
  refine (List.isChain_getLast_head_splitBy (sameEntity root) rows).imp ?_
  rintro a b ⟨ha, hb, h⟩ x hx y hy
  rw [List.getLast?_eq_some_getLast ha, Option.mem_some_iff] at hx
  rw [List.head?_eq_some_head hb, Option.mem_some_iff] at hy
  rw [← hx, ← hy, h]

theorem length_runs_le (root : String) (rows : List Row) :
    (runs root rows).length ≤ rows.length := by
  induction rows using run_induction root with
  | nil => exact le_rfl
  | rootless row more hrow ih =>
    rw [runs_rootless hrow, List.length_cons, List.length_cons]
    omega
  | entity x block more hne hblock hmore ih =>
    have := List.length_pos_iff.2 hne
    rw [runs_append hne hblock hmore, List.length_cons, List.length_append]
    omega

theorem map_entity_eq {R : Row → Row → Prop} (hR : ∀ a b, R a b → b.get? root = a.get? root)
    {others : List Row} (h : List.Forall₂ R rows others) :
    others.map (fun r => r.get? root) = rows.map fun r => r.get? root := by
  induction h with
  | nil => rfl
  | cons hrel _ ih => rw [List.map_cons, List.map_cons, hR _ _ hrel, ih]

/-- **Rows that name the same entities fall into runs alike.** -/
theorem forall₂_runs {R : Row → Row → Prop} (hR : ∀ a b, R a b → b.get? root = a.get? root)
    {others : List Row} (h : List.Forall₂ R rows others) :
    List.Forall₂ (List.Forall₂ R) (runs root rows) (runs root others) := by
  induction rows using run_induction root generalizing others with
  | nil =>
    cases h
    exact .nil
  | rootless row more hrow ih =>
    obtain ⟨other, others, hrel, hmore, rfl⟩ := List.forall₂_cons_left_iff.1 h
    rw [runs_rootless hrow, runs_rootless ((hR row other hrel).trans hrow)]
    exact .cons (.cons hrel .nil) (ih hmore)
  | entity x block more hne hblock hmore ih =>
    -- the other rows are cut at the same place
    have hfront := (List.forall₂_take_append _ _ _ h.flip).flip
    have hback := (List.forall₂_drop_append _ _ _ h.flip).flip
    rw [← List.take_append_drop block.length others]
    generalize others.take block.length = front at hfront ⊢
    generalize others.drop block.length = back at hback ⊢
    have hfrontne : front ≠ [] := by
      rintro rfl
      exact hne (List.forall₂_nil_right_iff.1 hfront)
    have hfrontroot : ∀ r ∈ front, r.get? root = some x := by
      intro r hr
      have hmem := List.mem_map_of_mem (f := fun r => r.get? root) hr
      rw [map_entity_eq hR hfront] at hmem
      obtain ⟨b, hb, heq⟩ := List.mem_map.1 hmem
      rw [← heq, hblock b hb]
    have hbackroot : ∀ r ∈ back.head?, r.get? root ≠ some x := by
      intro r hr
      have hhead := congrArg List.head? (map_entity_eq hR hback)
      rw [List.head?_map, List.head?_map, hr, Option.map_some] at hhead
      obtain ⟨b, hb, heq⟩ := Option.map_eq_some_iff.1 hhead.symm
      rw [← heq]
      exact hmore b hb
    rw [runs_append hne hblock hmore, runs_append hfrontne hfrontroot hbackroot]
    exact .cons hfront (ih hback)

/-! ### Complete runs -/

theorem length_finishedRuns_le (root : String) (failure : Option SourceError) (rows : List Row) :
    (finishedRuns root failure rows).length ≤ rows.length := by
  have hruns := length_runs_le root rows
  unfold finishedRuns completeRuns
  split
  · split
    · rw [List.length_dropLast]
      omega
    · exact hruns
  · exact hruns

theorem completeRuns_append {run : List Row} (hruns : runs root (run ++ more) = run :: runs root more)
    (hne : more ≠ []) : completeRuns root (run ++ more) = run :: completeRuns root more := by
  have hlast : (run ++ more).getLast? = more.getLast? := by
    rw [List.getLast?_append_of_ne_nil run hne]
  unfold completeRuns
  rw [hlast, hruns, List.dropLast_cons_of_ne_nil (runs_ne_nil hne)]
  split <;> rfl

@[simp] theorem finishedRuns_nil (root : String) (failure : Option SourceError) :
    finishedRuns root failure [] = [] := by
  simp [finishedRuns, completeRuns]

theorem finishedRuns_append {run : List Row} (failure : Option SourceError)
    (hruns : runs root (run ++ more) = run :: runs root more) (hne : more ≠ []) :
    finishedRuns root failure (run ++ more) = run :: finishedRuns root failure more := by
  unfold finishedRuns
  rw [completeRuns_append hruns hne, hruns]
  split <;> rfl

theorem finishedRuns_rootless (h : row.get? root = none) (failure : Option SourceError)
    (more : List Row) :
    finishedRuns root failure (row :: more) = [row] :: finishedRuns root failure more := by
  rcases eq_or_ne more [] with rfl | hne
  · simp [finishedRuns, completeRuns, runs_rootless h, h]
  · have hruns : runs root ([row] ++ more) = [row] :: runs root more := runs_rootless h more
    exact finishedRuns_append failure hruns hne

/-- The rows of an entity with nothing behind them are complete when the rows end, and given up when
they fail. -/
theorem finishedRuns_block (hne : block ≠ []) (hblock : ∀ row ∈ block, row.get? root = some entity)
    (failure : Option SourceError) :
    finishedRuns root failure block = if failure.isSome then [] else [block] := by
  have hruns : runs root (block ++ []) = block :: runs root [] := runs_append hne hblock (by simp)
  simp only [List.append_nil, runs_nil] at hruns
  have hlast : block.getLast?.any fun row => (row.get? root).isSome := by
    rw [List.getLast?_eq_some_getLast hne, Option.any_some, hblock _ (List.getLast_mem hne)]
    rfl
  simp [finishedRuns, completeRuns, hruns, hlast]

/-! ### Adjacent rows -/

/-- **Equal values are adjacent**: whatever stands between two of them is equal to them. -/
def Contiguous {α : Type} (l : List α) : Prop :=
  ∀ front middle back x, l = front ++ x :: middle ++ x :: back → ∀ y ∈ middle, y = x

theorem Contiguous.of_append {α : Type} {l m : List α} (h : Contiguous (l ++ m)) :
    Contiguous m := by
  intro front middle back x hm
  refine h (l ++ front) middle back x ?_
  rw [hm]
  simp

theorem Contiguous.not_mem {α : Type} {l m : List α} {x : α} (h : Contiguous (l ++ m))
    (hl : x ∈ l) (hm : ∀ y ∈ m.head?, y ≠ x) : x ∉ m := by
  intro hmem
  obtain ⟨front, behind, rfl⟩ := List.append_of_mem hl
  obtain ⟨before, back, rfl⟩ := List.append_of_mem hmem
  cases before with
  | nil => exact hm x (by simp) rfl
  | cons y before =>
    refine hm y (by simp) ?_
    exact h front (behind ++ y :: before) back x (by simp) y (by simp)

/-- The entity of a run is that of its first row. -/
def entityOf? (root : String) (run : List Row) : Option Term := run.head?.bind fun r => r.get? root

theorem entityOf?_of_block (hne : block ≠ []) (hblock : ∀ r ∈ block, r.get? root = some entity) :
    entityOf? root block = some entity := by
  obtain ⟨first, tail, rfl⟩ := List.exists_cons_of_ne_nil hne
  exact hblock first List.mem_cons_self

theorem mem_entities_of_block (hne : block ≠ []) (hblock : ∀ r ∈ block, r.get? root = some entity)
    {x : Option Term} : x ∈ block.map (fun r => r.get? root) ↔ x = some entity := by
  constructor
  · intro hx
    obtain ⟨r, hr, rfl⟩ := List.mem_map.1 hx
    exact hblock r hr
  · rintro rfl
    obtain ⟨first, tail, rfl⟩ := List.exists_cons_of_ne_nil hne
    exact List.mem_map.2 ⟨first, List.mem_cons_self, hblock first List.mem_cons_self⟩

theorem mem_entities_runs (x : Option Term) (rows : List Row) :
    x ∈ (runs root rows).map (entityOf? root) ↔ x ∈ rows.map fun r => r.get? root := by
  induction rows using run_induction root with
  | nil => simp
  | rootless row more hrow ih =>
    rw [runs_rootless hrow, List.map_cons, List.mem_cons, ih]
    simp [entityOf?, hrow]
  | entity e block more hne hblock hmore ih =>
    rw [runs_append hne hblock hmore, List.map_cons, List.mem_cons, ih, List.map_append,
      List.mem_append, mem_entities_of_block hne hblock, entityOf?_of_block hne hblock]

/-- **Where the rows of each entity are adjacent, no two runs name one entity.** -/
theorem nodup_entities_runs {rows : List Row} (hroot : ∀ r ∈ rows, (r.get? root).isSome)
    (hadj : Contiguous (rows.map fun r => r.get? root)) :
    ((runs root rows).map (entityOf? root)).Nodup := by
  induction rows using run_induction root with
  | nil => simp
  | rootless row more hrow ih =>
    have := hroot row List.mem_cons_self
    rw [hrow] at this
    exact absurd this (by decide)
  | entity e block more hne hblock hmore ih =>
    rw [List.map_append] at hadj
    have ih' := ih (fun r hr => hroot r (List.mem_append_right _ hr)) hadj.of_append
    rw [runs_append hne hblock hmore, List.map_cons, List.nodup_cons,
      entityOf?_of_block hne hblock, mem_entities_runs]
    refine ⟨hadj.not_mem ((mem_entities_of_block hne hblock).2 rfl) fun y hy => ?_, ih'⟩
    rw [List.head?_map] at hy
    obtain ⟨r, hr, rfl⟩ := Option.map_eq_some_iff.1 hy
    exact hmore r hr

end Row

/-! ### The tree of a run -/

/-- **The tree of a run**: its rows added to the entity that they name, or the tree of its row. -/
def ResultTree.ofRun (root : String) (view : View) : List Row → ResultTree
  | [] => {}
  | row :: more =>
    match row.get? root with
    | none => ResultTree.ofRow row
    | some entity =>
      (row :: more).foldl (ResultTree.foldRow root view (view.columns root)) { id := some entity }

namespace ResultTree

variable {root : String} {view : View} {row : Row} {block : List Row} {entity : Term}

/-! ### The tree of a row without an entity -/

@[simp] theorem id_foldl_addTerm : ∀ (l : List (String × Term)) (t : ResultTree),
    (l.foldl (fun t b => t.addTerm b.1 b.2) t).id = t.id
  | [], _ => rfl
  | b :: l, t => id_foldl_addTerm l (t.addTerm b.1 b.2)

theorem tidy_foldl_addTerm : ∀ (l : List (String × Term)) {t : ResultTree}, t.Tidy →
    (l.foldl (fun t b => t.addTerm b.1 b.2) t).Tidy
  | [], _, h => h
  | b :: l, _, h => tidy_foldl_addTerm l (h.addTerm b.1 b.2)

theorem mem_keys_foldl_addTerm {key : String} : ∀ (l : List (String × Term)) (t : ResultTree),
    key ∈ (l.foldl (fun t b => t.addTerm b.1 b.2) t).keys ↔ key ∈ l.map (·.1) ∨ key ∈ t.keys
  | [], t => by simp
  | b :: l, t => by
    rw [List.foldl_cons, mem_keys_foldl_addTerm l, addTerm, mem_keys_alter, List.map_cons,
      List.mem_cons]
    tauto

@[simp] theorem id_ofRow (row : Row) : (ofRow row).id = none := id_foldl_addTerm _ _

/-- **The keys of a row without an entity** are its variables, but for the internal ones. -/
theorem mem_keys_ofRow {row : Row} {key : String} :
    key ∈ (ofRow row).keys ↔ (row.get? key).isSome ∧ Naming.isInternal key = false := by
  rw [ofRow, mem_keys_foldl_addTerm]
  simp only [Row.get?, Option.isSome_map, List.find?_isSome, decide_eq_true_eq, List.mem_map,
    List.mem_filter, Bool.not_eq_true']
  constructor
  · rintro (⟨b, ⟨hb, hint⟩, rfl⟩ | h)
    · exact ⟨⟨b, hb, rfl⟩, hint⟩
    · cases h
  · rintro ⟨⟨b, hb, rfl⟩, hint⟩
    exact .inl ⟨b, ⟨hb, hint⟩, rfl⟩

theorem tidy_ofRow (row : Row) : (ofRow row).Tidy := tidy_foldl_addTerm _ (Tidy.empty none false)

/-! ### The tree of a run of rows -/

@[simp] theorem id_insertAt (root : String) (row : Row) (value : Term) (v : View) (base p : Path)
    (t : ResultTree) : (t.insertAt root row value v base p).id = t.id := by
  cases p with
  | nil => rfl
  | cons name rest =>
    unfold insertAt
    repeat' split
    all_goals rfl

@[simp] theorem id_foldRow (root : String) (v : View) (row : Row) :
    ∀ (columns : List (String × Path)) (t : ResultTree), (t.foldRow root v columns row).id = t.id
  | [], _ => rfl
  | c :: columns, t => by
    unfold foldRow
    rw [List.foldl_cons]
    refine (id_foldRow root v row columns _).trans ?_
    split
    · exact id_insertAt _ _ _ _ _ _ _
    · rfl

@[simp] theorem id_foldl_foldRow (root : String) (v : View) (columns : List (String × Path)) :
    ∀ (run : List Row) (t : ResultTree), (run.foldl (foldRow root v columns) t).id = t.id
  | [], _ => rfl
  | row :: run, t =>
    (id_foldl_foldRow root v columns run _).trans (id_foldRow root v row columns t)

@[simp] theorem id_ofRun (root : String) (view : View) (run : List Row) :
    (ofRun root view run).id = Row.entityOf? root run := by
  cases run with
  | nil => rfl
  | cons row more =>
    cases h : row.get? root with
    | none => simp [ofRun, h, Row.entityOf?]
    | some entity => simp [ofRun, h, Row.entityOf?]

theorem ofRun_rootless (h : row.get? root = none) : ofRun root view [row] = ofRow row := by
  simp [ofRun, h]

theorem ofRun_block (hne : block ≠ []) (hblock : ∀ r ∈ block, r.get? root = some entity) :
    ofRun root view block =
      block.foldl (foldRow root view (view.columns root)) { id := some entity } := by
  obtain ⟨first, tail, rfl⟩ := List.exists_cons_of_ne_nil hne
  have hfirst := hblock first List.mem_cons_self
  simp only [ofRun, hfirst]

end ResultTree

end SparqlViews

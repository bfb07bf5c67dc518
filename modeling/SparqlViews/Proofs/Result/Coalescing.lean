import SparqlViews.Proofs.Result.Stream
import SparqlViews.Proofs.View.Paths

/-! # What the tree of an entity holds

A row adds to the tree of its entity one term for each variable that it binds, at the end of the walk
along the path of the variable, where each identifier is the one that the same row gives to the
ancestor (`hasTermAt_insertAt`, `hasTermAt_foldRow`). So a term stands at the end of a walk exactly
if one row of the run puts it there, and nothing of one row is mixed with another.

* `View.mem_columns`: the columns of a view are its paths with their variables.
* `Conforms`: every tree below an entity is tidy and has keys of entries that are not hidden;
  every row keeps that (`Conforms.foldRow`).
* `tree_holds_rows`: both for the trees that a stream gives.
-/

namespace SparqlViews

namespace View

/-- **The path ends in an entry without a view of its own, and no entry on it is hidden.** -/
def ShowsTerm (v : View) (p : Path) : Prop :=
  v.visible p = true ∧ ∃ q, v.find? p = some ⟨q, none⟩

variable {v : View} {name root : String} {e : Entry} {q : Path}

@[simp] theorem not_showsTerm_nil (v : View) : ¬ v.ShowsTerm [] := by
  rintro ⟨h, -⟩
  simp at h

theorem showsTerm_singleton (h : v.get? name = some e) :
    v.ShowsTerm [name] ↔ e.property.hidden = false ∧ e.sub = none := by
  obtain ⟨p, sub⟩ := e
  simp [ShowsTerm, h]

theorem showsTerm_cons (h : v.get? name = some e) (hq : q ≠ []) :
    v.ShowsTerm (name :: q) ↔
      e.property.hidden = false ∧ ∃ sub, e.sub = some sub ∧ sub.ShowsTerm q := by
  rw [ShowsTerm, visible_cons v name hq, find?_cons v name hq, h]
  cases hsub : e.sub with
  | none => simp [hsub]
  | some sub => simp [hsub, ShowsTerm, and_assoc]

theorem not_showsTerm_of_get?_eq_none (h : v.get? name = none) (q : Path) :
    ¬ v.ShowsTerm (name :: q) := by
  rintro ⟨hvis, -⟩
  rcases eq_or_ne q [] with rfl | hq
  · simp [h] at hvis
  · simp [visible_cons v name hq, h] at hvis

/-- **A path of the view is read back from its variable**, unless this is the variable of the root. -/
theorem ofVariable_of_mem_paths (hv : v.WellFormed) (hq : q ∈ v.paths)
    (hroot : Path.toVariable root q ≠ root) :
    Path.ofVariable root (Path.toVariable root q) = q := by
  refine Path.ofVariable_toVariable (legal_of_mem_paths hv hq) (.inr ?_)
  rw [← Path.toVariable_of_ne_nil (ne_nil_of_mem_paths hq)]
  exact hroot.symm

theorem mem_columns (hv : v.WellFormed) (hroot : ∀ p ∈ v.paths, Path.toVariable root p ≠ root)
    {c : String × Path} : c ∈ v.columns root ↔ ∃ p ∈ v.paths, c = (Path.toVariable root p, p) := by
  have hread := fun (p : Path) (hp : p ∈ v.paths) => ofVariable_of_mem_paths hv hp (hroot p hp)
  simp only [columns, List.mem_map, List.mem_filter, decide_eq_true_eq, (perm_vars root v).mem_iff,
    List.mem_cons]
  constructor
  · rintro ⟨x, ⟨rfl | ⟨p, hp, rfl⟩, hx⟩, rfl⟩
    · exact absurd rfl hx
    · exact ⟨p, hp, by rw [hread p hp]⟩
  · rintro ⟨p, hp, rfl⟩
    exact ⟨_, ⟨.inr ⟨p, hp, rfl⟩, hroot p hp⟩, by rw [hread p hp]⟩

end View

namespace ResultTree

/-! ### Where a row puts a term -/

/-- The walk along the path of a variable, with the identifiers that a row gives to its ancestors. -/
def walk (root : String) (row : Row) (base p : Path) : List (String × Option Term) :=
  p.dropLast.zip ((Path.ancestors p).map fun q => row.get? (Path.toVariable root (base ++ q)))

@[simp] theorem walk_singleton (root : String) (row : Row) (base : Path) (name : String) :
    walk root row base [name] = [] := rfl

theorem walk_cons (root : String) (row : Row) (base : Path) (name : String) {q : Path}
    (hq : q ≠ []) : walk root row base (name :: q) =
      (name, row.get? (Path.toVariable root (base ++ [name]))) ::
        walk root row (base ++ [name]) q := by
  unfold walk
  rw [List.dropLast_cons_of_ne_nil hq, Path.ancestors_cons name hq, List.map_cons, List.map_map,
    List.zip_cons_cons]
  simp [Function.comp_def]

/-- **One value is added at the end of its walk**, if its path shows terms, and nothing else is. -/
theorem hasTermAt_insertAt (root : String) (row : Row) (value : Term) :
    ∀ (p : Path) (v : View) (base : Path) (t : ResultTree) (steps : List (String × Option Term))
      (key : String) (term : Term),
      (t.insertAt root row value v base p).HasTermAt steps key term ↔
        t.HasTermAt steps key term ∨ (v.ShowsTerm p ∧ steps = walk root row base p ∧
          p.getLast? = some key ∧ term = value)
  | [], v, base, t, steps, key, term => by
    simp [insertAt]
  | name :: rest, v, base, t, steps, key, term => by
    -- a path stops at a name without an entry, at a hidden one, and below one without a view
    unfold insertAt
    cases hget : v.get? name with
    | none => simp [View.not_showsTerm_of_get?_eq_none hget]
    | some e =>
      dsimp only
      cases hhid : e.property.hidden with
      | true =>
        rw [if_pos rfl]
        rcases eq_or_ne rest [] with rfl | hrest
        · simp [View.showsTerm_singleton hget, hhid]
        · simp [View.showsTerm_cons hget hrest, hhid]
      | false =>
        rw [if_neg (by decide)]
        cases hsub : e.sub with
        | none =>
          rcases rest with _ | ⟨next, rest⟩
          · dsimp only
            rw [hasTermAt_addTerm, View.showsTerm_singleton hget, walk_singleton]
            simp [hhid, hsub, eq_comm]
          · have := View.showsTerm_cons hget (List.cons_ne_nil next rest)
            simp [this, hsub]
        | some sub =>
          rcases rest with _ | ⟨next, rest⟩
          · dsimp only
            rw [hasTermAt_withChild_id, View.showsTerm_singleton hget]
            simp [hsub]
          · dsimp only
            have hne := List.cons_ne_nil next rest
            have ih := fun c => hasTermAt_insertAt root row value (next :: rest) sub (base ++ [name]) c
            rw [hasTermAt_withChild (fun c => id_insertAt root row value sub _ _ c) ih,
              View.showsTerm_cons hget hne, walk_cons root row base name hne,
              List.getLast?_cons_cons]
            have hshows : (∃ w, e.sub = some w ∧ w.ShowsTerm (next :: rest)) ↔
                sub.ShowsTerm (next :: rest) := by
              rw [hsub]
              simp
            rw [hshows]
            refine or_congr_right ⟨?_, ?_⟩
            · rintro ⟨r, rfl, hsh, rfl, hkey, hterm⟩
              exact ⟨⟨hhid, hsh⟩, rfl, hkey, hterm⟩
            · rintro ⟨⟨-, hsh⟩, rfl, hkey, hterm⟩
              exact ⟨_, rfl, hsh, rfl, hkey, hterm⟩

/-- The row puts a term at the end of a walk, from one of its variables. -/
def Puts (root : String) (v : View) (columns : List (String × Path)) (row : Row)
    (steps : List (String × Option Term)) (key : String) (term : Term) : Prop :=
  ∃ c ∈ columns, row.get? c.1 = some term ∧ v.ShowsTerm c.2 ∧ steps = walk root row [] c.2 ∧
    c.2.getLast? = some key

/-- **A row adds what its variables put**, and nothing else. -/
theorem hasTermAt_foldRow (root : String) (v : View) (row : Row)
    (steps : List (String × Option Term)) (key : String) (term : Term) :
    ∀ (columns : List (String × Path)) (t : ResultTree),
      (t.foldRow root v columns row).HasTermAt steps key term ↔
        t.HasTermAt steps key term ∨ Puts root v columns row steps key term
  | [], t => by simp [foldRow, Puts]
  | c :: columns, t => by
    have ih := hasTermAt_foldRow root v row steps key term columns
    unfold foldRow at ih ⊢
    rw [List.foldl_cons, ih]
    cases hc : row.get? c.1 with
    | none => simp [Puts, hc]
    | some value =>
      dsimp only
      rw [hasTermAt_insertAt, or_assoc]
      refine or_congr_right ⟨?_, ?_⟩
      · rintro (⟨hshows, hsteps, hkey, rfl⟩ | ⟨d, hd, hput⟩)
        · exact ⟨c, List.mem_cons_self, hc, hshows, hsteps, hkey⟩
        · exact ⟨d, List.mem_cons_of_mem _ hd, hput⟩
      · rintro ⟨d, hd, hterm, hshows, hsteps, hkey⟩
        rcases List.mem_cons.1 hd with rfl | hd
        · rw [hc] at hterm
          exact .inl ⟨hshows, hsteps, hkey, (Option.some.inj hterm).symm⟩
        · exact .inr ⟨d, hd, hterm, hshows, hsteps, hkey⟩

/-- **The rows of a run add what each of them puts.** -/
theorem hasTermAt_foldl_foldRow (root : String) (v : View) (columns : List (String × Path))
    (steps : List (String × Option Term)) (key : String) (term : Term) :
    ∀ (run : List Row) (t : ResultTree),
      (run.foldl (foldRow root v columns) t).HasTermAt steps key term ↔
        t.HasTermAt steps key term ∨ ∃ row ∈ run, Puts root v columns row steps key term
  | [], t => by simp
  | row :: run, t => by
    rw [List.foldl_cons, hasTermAt_foldl_foldRow root v columns steps key term run,
      hasTermAt_foldRow, or_assoc]
    simp

/-! ### The shape of the trees -/

/-- **Every tree below is tidy, and its keys lead to entries that are not hidden.** -/
def Conforms (v : View) (t : ResultTree) : Prop :=
  ∀ names node, t.NodeAt names node →
    node.Tidy ∧ ∀ key ∈ node.keys, v.visible (names ++ [key]) = true

section Conforms

variable {v sub : View} {name : String} {e : Entry} {t c : ResultTree}

theorem conforms_of_entries_eq_nil (v : View) (id : Option Term) (suppressId : Bool) :
    Conforms v ⟨id, suppressId, []⟩ := by
  intro names node hnode
  cases names with
  | nil =>
    rw [show node = _ from hnode]
    exact ⟨Tidy.empty id suppressId, fun key hkey => absurd hkey List.not_mem_nil⟩
  | cons k rest =>
    obtain ⟨c, hc, -⟩ := hnode
    cases hc

theorem visible_below (hget : v.get? name = some e) (hhid : e.property.hidden = false)
    (hsub : e.sub = some sub) (names : List String) (key : String) :
    v.visible ((name :: names) ++ [key]) = sub.visible (names ++ [key]) := by
  rw [List.cons_append, View.visible_cons v name (by simp), hget]
  simp [hhid, hsub]

theorem Conforms.child (h : Conforms v t) (hget : v.get? name = some e)
    (hhid : e.property.hidden = false) (hsub : e.sub = some sub) (hc : c ∈ t.children name) :
    Conforms sub c := by
  intro names node hnode
  obtain ⟨htidy, hkeys⟩ := h (name :: names) node ⟨c, hc, hnode⟩
  refine ⟨htidy, fun key hkey => ?_⟩
  rw [← visible_below hget hhid hsub]
  exact hkeys key hkey

theorem Conforms.addTerm (h : Conforms v t) (hget : v.get? name = some e)
    (hhid : e.property.hidden = false) (term : Term) : Conforms v (t.addTerm name term) := by
  intro names node hnode
  cases names with
  | nil =>
    obtain ⟨htidy, hkeys⟩ := h [] t rfl
    rw [show node = _ from hnode]
    refine ⟨htidy.addTerm name term, fun key hkey => ?_⟩
    rcases mem_keys_alter.1 hkey with rfl | hkey
    · simp [hget, hhid]
    · exact hkeys key hkey
  | cons k rest =>
    obtain ⟨c, hc, hnode⟩ := hnode
    rw [children_addTerm] at hc
    exact h (k :: rest) node ⟨c, hc, hnode⟩

theorem Conforms.withChild (h : Conforms v t) (hget : v.get? name = some e)
    (hhid : e.property.hidden = false) (hsub : e.sub = some sub) (id : Option Term)
    (suppressId : Bool) {f : ResultTree → ResultTree} (hf : ∀ c, (f c).id = c.id)
    (hconf : ∀ c, Conforms sub c → Conforms sub (f c)) :
    Conforms v (t.withChild name id suppressId f) := by
  intro names node hnode
  cases names with
  | nil =>
    obtain ⟨htidy, hkeys⟩ := h [] t rfl
    rw [show node = _ from hnode]
    refine ⟨htidy.withChild name id suppressId hf, fun key hkey => ?_⟩
    rcases mem_keys_alter.1 hkey with rfl | hkey
    · simp [hget, hhid]
    · exact hkeys key hkey
  | cons k rest =>
    obtain ⟨c, hc, hnode⟩ := hnode
    rw [children_withChild] at hc
    by_cases hk : k = name
    · subst hk
      rw [if_pos rfl] at hc
      rcases mem_alterTree hc with hc | ⟨b, rfl, hb⟩
      · exact h (k :: rest) node ⟨c, hc, hnode⟩
      · -- the child that is changed, which stood there or is new
        have hold : Conforms sub b := by
          rcases hb with hb | rfl
          · exact h.child hget hhid hsub hb
          · exact conforms_of_entries_eq_nil sub id suppressId
        obtain ⟨htidy, hkeys⟩ := hconf b hold rest node hnode
        refine ⟨htidy, fun key hkey => ?_⟩
        rw [visible_below hget hhid hsub]
        exact hkeys key hkey
    · rw [if_neg hk] at hc
      exact h (k :: rest) node ⟨c, hc, hnode⟩

theorem Conforms.insertAt (root : String) (row : Row) (value : Term) :
    ∀ (p : Path) {v : View} (base : Path) {t : ResultTree}, Conforms v t →
      Conforms v (t.insertAt root row value v base p)
  | [], v, base, t, h => h
  | name :: rest, v, base, t, h => by
    unfold ResultTree.insertAt
    cases hget : v.get? name with
    | none => exact h
    | some e =>
      dsimp only
      cases hhid : e.property.hidden with
      | true => exact h
      | false =>
        rw [if_neg (by decide)]
        cases hsub : e.sub with
        | none =>
          rcases rest with _ | ⟨next, rest⟩
          · exact h.addTerm hget hhid value
          · exact h
        | some sub =>
          rcases rest with _ | ⟨next, rest⟩
          · exact h.withChild hget hhid hsub (some value) _ (fun _ => rfl) fun _ hc => hc
          · exact h.withChild hget hhid hsub _ _
              (fun c => id_insertAt root row value sub _ _ c)
              fun c hc => Conforms.insertAt root row value (next :: rest) (base ++ [name]) hc

theorem Conforms.foldRow (root : String) (v : View) (row : Row) :
    ∀ (columns : List (String × Path)) {t : ResultTree}, Conforms v t →
      Conforms v (t.foldRow root v columns row)
  | [], t, h => h
  | c :: columns, t, h => by
    have ih := @Conforms.foldRow root v row columns
    unfold ResultTree.foldRow at ih ⊢
    rw [List.foldl_cons]
    refine ih ?_
    cases row.get? c.1 with
    | none => exact h
    | some value => exact h.insertAt root row value c.2 []

theorem Conforms.foldl_foldRow (root : String) (v : View) (columns : List (String × Path)) :
    ∀ (run : List Row) {t : ResultTree}, Conforms v t →
      Conforms v (run.foldl (ResultTree.foldRow root v columns) t)
  | [], _, h => h
  | row :: run, _, h => Conforms.foldl_foldRow root v columns run (h.foldRow root v row columns)

end Conforms

/-! ### The tree of a run -/

section Run

variable {root : String} {v : View} {run : List Row} {entity : Term}

theorem conforms_ofRun (hne : run ≠ []) (hrun : ∀ r ∈ run, r.get? root = some entity) :
    Conforms v (ofRun root v run) := by
  rw [ofRun_block hne hrun]
  exact (conforms_of_entries_eq_nil v (some entity) false).foldl_foldRow root v _ run

theorem zip_eq_walk_iff {names : List String} {ids : List (Option Term)} {key : String} {p : Path}
    {row : Row} (hlen : ids.length = names.length) :
    (names.zip ids = walk root row [] p ∧ p.getLast? = some key) ↔
      p = names ++ [key] ∧
        ids = (Path.ancestors p).map fun q => row.get? (Path.toVariable root q) := by
  have hwalk : walk root row [] p = p.dropLast.zip
      ((Path.ancestors p).map fun q => row.get? (Path.toVariable root q)) := rfl
  have hsame : p.dropLast.length =
      ((Path.ancestors p).map fun q => row.get? (Path.toVariable root q)).length := by
    rw [List.length_map, Path.length_ancestors, List.length_dropLast]
  constructor
  · rintro ⟨hzip, hkey⟩
    have hnames := congrArg (List.map Prod.fst) hzip
    have hids := congrArg (List.map Prod.snd) hzip
    rw [hwalk, List.map_fst_zip hlen.ge, List.map_fst_zip hsame.le] at hnames
    rw [hwalk, List.map_snd_zip hlen.le, List.map_snd_zip hsame.ge] at hids
    refine ⟨?_, hids⟩
    rw [hnames, List.dropLast_append_getLast? key hkey]
  · rintro ⟨rfl, rfl⟩
    exact ⟨by simp [walk], by simp⟩

theorem eq_map_ancestors_iff {names : List String} {ids : List (Option Term)} (key : String)
    (hlen : ids.length = names.length) (f : Path → Option Term) :
    ids = (Path.ancestors (names ++ [key])).map f ↔
      ∀ i < names.length, ids[i]? = some (f (names.take (i + 1))) := by
  have hmap : (Path.ancestors (names ++ [key])).map f =
      (List.range names.length).map fun i => f (names.take (i + 1)) := by
    simp only [Path.ancestors, List.map_map, List.length_append, List.length_singleton,
      Nat.add_sub_cancel]
    refine List.map_congr_left fun i hi => ?_
    rw [Function.comp_apply, List.take_append_of_le_length (List.mem_range.1 hi)]
  rw [hmap]
  constructor
  · rintro rfl i hi
    simp [hi]
  · intro h
    refine List.ext_getElem? fun i => ?_
    by_cases hi : i < names.length
    · rw [h i hi]
      simp [hi]
    · rw [List.getElem?_eq_none (by omega), List.getElem?_eq_none (by simp; omega)]

/-- **The tree of a run holds the terms that single rows give to its paths.** -/
theorem hasTermAt_ofRun (hv : v.WellFormed)
    (hroot : ∀ p ∈ v.paths, Path.toVariable root p ≠ root) (hne : run ≠ [])
    (hrun : ∀ r ∈ run, r.get? root = some entity) {names : List String} {key : String}
    {ids : List (Option Term)} (hshows : v.ShowsTerm (names ++ [key]))
    (hlen : ids.length = names.length) (term : Term) :
    (ofRun root v run).HasTermAt (names.zip ids) key term ↔
      ∃ row ∈ run, row.get? (Path.toVariable root (names ++ [key])) = some term ∧
        ∀ i < names.length,
          ids[i]? = some (row.get? (Path.toVariable root (names.take (i + 1)))) := by
  rw [ofRun_block hne hrun, hasTermAt_foldl_foldRow]
  refine (or_iff_right (not_hasTermAt_of_entries_eq_nil _ _ _)).trans ?_
  refine exists_congr fun row => and_congr_right fun _ => ?_
  have hids := eq_map_ancestors_iff key hlen fun q => row.get? (Path.toVariable root q)
  rw [← hids]
  constructor
  · rintro ⟨c, hc, hterm, -, hsteps, hkey⟩
    obtain ⟨p, -, rfl⟩ := (View.mem_columns hv hroot).1 hc
    obtain ⟨rfl, hmap⟩ := (zip_eq_walk_iff hlen).1 ⟨hsteps, hkey⟩
    exact ⟨hterm, hmap⟩
  · rintro ⟨hterm, hmap⟩
    obtain ⟨hvis, q, hq⟩ := hshows
    have hpath : names ++ [key] ∈ v.paths := (View.mem_paths_iff hv).2 (by simp [hq])
    obtain ⟨hsteps, hkey⟩ := (zip_eq_walk_iff hlen).2 ⟨rfl, hmap⟩
    exact ⟨_, (View.mem_columns hv hroot).2 ⟨_, hpath, rfl⟩, hterm, ⟨hvis, q, hq⟩, hsteps, hkey⟩

end Run

end ResultTree

namespace ResultStream

variable {s : ResultStream} {run : List Row} {rest : List Answer} {entity : Term}

/-- The rows of an entity are over: another entity, a row that names none, or the end follows. -/
def RunEnds (root : String) (entity : Term) (rest : List Answer) : Prop :=
  ∀ a ∈ rest.head?, a = .done ∨ ∃ row, a = .row row ∧ row.get? root ≠ some entity

theorem next_run (hopen : s.closed = false) (h : s.coming = run.map .row ++ rest) (hne : run ≠ [])
    (hrun : ∀ r ∈ run, r.get? s.root = some entity) (hrest : RunEnds s.root entity rest) :
    s.next.1 = some (.ok (ResultTree.ofRun s.root s.view run)) := by
  rcases rest with _ | ⟨a, more⟩
  · obtain ⟨s', hnext, -⟩ := next_block_ended hopen h hne hrun (.inl rfl)
    rw [hnext]
  · rcases hrest a rfl with rfl | ⟨row, rfl, hrow⟩
    · obtain ⟨s', hnext, -⟩ := next_block_ended hopen h hne hrun (.inr ⟨more, rfl⟩)
      rw [hnext]
    · obtain ⟨s', hnext, -⟩ := next_block_row hopen h hne hrun hrow
      rw [hnext]

/-- **The tree that a stream gives for a run holds what the rows of the run say, and nothing else**:
a term stands at the end of a walk exactly if one row gives it to the path and gives the identifiers
of the walk to its ancestors. No tree in it repeats itself or shows a hidden entry. -/
theorem tree_holds_rows (hview : s.view.WellFormed)
    (hroot : ∀ p ∈ s.view.paths, Path.toVariable s.root p ≠ s.root) (hopen : s.closed = false)
    (hcoming : s.coming = run.map .row ++ rest) (hne : run ≠ [])
    (hrun : ∀ row ∈ run, row.get? s.root = some entity) (hrest : RunEnds s.root entity rest) :
    ∃ tree : ResultTree, s.next.1 = some (.ok tree) ∧ tree.id = some entity ∧
      (∀ (names : List String) (key : String) (ids : List (Option Term)) (term : Term),
        s.view.ShowsTerm (names ++ [key]) → ids.length = names.length →
        (tree.HasTermAt (names.zip ids) key term ↔
          ∃ row ∈ run, row.get? (Path.toVariable s.root (names ++ [key])) = some term ∧
            ∀ i < names.length,
              ids[i]? = some (row.get? (Path.toVariable s.root (names.take (i + 1)))))) ∧
      ∀ names node, tree.NodeAt names node →
        node.Tidy ∧ ∀ key ∈ node.keys, s.view.visible (names ++ [key]) = true := by
  refine ⟨ResultTree.ofRun s.root s.view run, next_run hopen hcoming hne hrun hrest, ?_, ?_,
    ResultTree.conforms_ofRun hne hrun⟩
  · rw [ResultTree.id_ofRun, Row.entityOf?_of_block hne hrun]
  · intro names key ids term hshows hlen
    exact ResultTree.hasTermAt_ofRun hview hroot hne hrun hshows hlen term

/-- A view of areas that are named, each with a code that is shown. -/
def areaView : View :=
  .nested { name := "area", iri := "http://e/area", multi := true }
    (.leaf { name := "code", iri := "http://e/code" } .empty)
    (.leaf { name := "note", iri := "http://e/note", hidden := true } .empty)

/-- The code of the first area is not that of the second one. -/
theorem tree_holds_rows_of_two_areas :
    let row : String → String → Row := fun area code =>
      ⟨[("id", .iri "e"), ("area", .iri area), ("area_code", .iri code)]⟩
    let s : ResultStream := ⟨RowSource.ofRows [row "a" "1", row "b" "2"], areaView, "id", none, false⟩
    ∃ tree : ResultTree, s.next.1 = some (.ok tree) ∧
      tree.HasTermAt [("area", some (.iri "b"))] "code" (.iri "2") ∧
      ¬ tree.HasTermAt [("area", some (.iri "b"))] "code" (.iri "1") := by
  intro row s
  have hshows : s.view.ShowsTerm (["area"] ++ ["code"]) := ⟨by decide, _, rfl⟩
  have hrest : RunEnds s.root (.iri "e") [] := by simp [RunEnds]
  obtain ⟨tree, hnext, -, hholds, -⟩ := @tree_holds_rows s [row "a" "1", row "b" "2"] []
    (.iri "e") (by decide) (by decide) rfl rfl (by decide) (by decide) hrest
  refine ⟨tree, hnext, ?_, ?_⟩
  · refine (hholds ["area"] "code" [some (.iri "b")] (.iri "2") hshows rfl).2
      ⟨row "b" "2", by simp, by decide, by decide⟩
  · intro h
    obtain ⟨r, hr, hcode, hid⟩ :=
      (hholds ["area"] "code" [some (.iri "b")] (.iri "1") hshows rfl).1 h
    revert hcode hid
    revert r
    decide

end ResultStream

end SparqlViews

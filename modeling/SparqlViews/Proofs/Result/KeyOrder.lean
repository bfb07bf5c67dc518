import SparqlViews.Proofs.Result.Coalescing
import SparqlViews.Proofs.View.ClauseOrder

/-! # The order of keys

A key stands in a tree from the first value on that needs it. So the keys of a tree come by the rows that need
them first, and only the keys that one row needs first come in the order of the view
(`ResultTree.pairwise_keysAt_ofRun`).

* `ResultTree.keysAt`: the keys of the tree at the end of a walk. A value adds one key to it at most
  (`keysAt_insertAt`), which is the key of a beginning of its path (`keyAt?_eq_some_iff`).
* `Row.Needs`, `Row.firstNeed`: the keys that a row needs, and the first row of a run that needs a key.
* `keys_come_by_rows_then_view`: the keys of all trees that a stream gives for an entity, and when they follow
  the view. `keys_in_two_orders`: they do not always.
-/

namespace SparqlViews

namespace ResultTree

variable {root name key : String} {row : Row} {v : View} {e : Entry} {rest : Path} {t : ResultTree}
  {step : String × Option Term} {steps : List (String × Option Term)}

/-! ### Keys that are added -/

/-- The keys with one more, which comes last if it is new. -/
def addKey (keys : List String) (key : String) : List String :=
  if key ∈ keys then keys else keys ++ [key]

/-- **Keys that are added in turn** stand where they came up first. -/
theorem foldl_addKey (names : List String) : names.foldl addKey [] = names.eraseDups := by
  induction names using List.reverseRecOn with
  | nil => rfl
  | append_singleton names name ih =>
    rw [List.foldl_append, ih, List.foldl_cons, List.foldl_nil, addKey, eraseDups_concat]
    simp only [List.mem_eraseDups]

theorem keys_addTerm (t : ResultTree) (name : String) (value : Term) :
    (t.addTerm name value).keys = addKey t.keys name := keys_alter t name _

theorem keys_withChild (t : ResultTree) (name : String) (id : Option Term) (suppressId : Bool)
    (f : ResultTree → ResultTree) : (t.withChild name id suppressId f).keys = addKey t.keys name :=
  keys_alter t name _

/-- The keys of the tree at the end of a walk, none if there is no such tree. -/
def keysAt (t : ResultTree) (steps : List (String × Option Term)) : List String :=
  ((t.at? steps).map keys).getD []

@[simp] theorem keysAt_nil (t : ResultTree) : t.keysAt [] = t.keys := rfl

theorem keysAt_of_at? {node : ResultTree} (h : t.at? steps = some node) : t.keysAt steps = node.keys := by
  rw [keysAt, h, Option.map_some, Option.getD_some]

@[simp] theorem keysAt_empty (id : Option Term) (suppressId : Bool) (steps : List (String × Option Term)) :
    (⟨id, suppressId, []⟩ : ResultTree).keysAt steps = [] := by
  cases steps with
  | nil => rfl
  | cons step rest => rfl

@[simp] theorem keysAt_cons (t : ResultTree) (suppressId : Bool) : t.keysAt (step :: steps) =
    ((t.child? step.1 step.2).getD ⟨step.2, suppressId, []⟩).keysAt steps := by
  rw [keysAt, at?]
  cases t.child? step.1 step.2 with
  | none => exact (keysAt_empty _ _ _).symm
  | some c => rfl

theorem keysAt_addTerm (t : ResultTree) (name : String) (value : Term) :
    (t.addTerm name value).keysAt (step :: steps) = t.keysAt (step :: steps) := by
  rw [keysAt, keysAt, at?, at?, child?, child?, children_addTerm]

theorem keysAt_withChild {f : ResultTree → ResultTree} (hf : ∀ c, (f c).id = c.id) (t : ResultTree)
    (name : String) (id : Option Term) (suppressId : Bool) :
    (t.withChild name id suppressId f).keysAt (step :: steps) =
      if step = (name, id) then (f ((t.child? name id).getD ⟨id, suppressId, []⟩)).keysAt steps
      else t.keysAt (step :: steps) := by
  obtain ⟨k, i⟩ := step
  rw [keysAt, at?, child?_withChild hf]
  by_cases h : k = name ∧ i = id
  · rw [if_pos h, if_pos (Prod.ext h.1 h.2)]
    rfl
  · rw [if_neg h, if_neg fun heq => h (Prod.mk.inj heq)]
    rfl

theorem keysAt_withChild_id (t : ResultTree) (name : String) (id : Option Term) (suppressId : Bool) :
    (t.withChild name id suppressId fun c => c).keysAt (step :: steps) = t.keysAt (step :: steps) := by
  rw [keysAt_withChild fun _ => rfl]
  split
  · rename_i hstep
    rw [hstep, keysAt_cons t suppressId]
  · rfl

/-! ### The key of a value -/

/-- **The key that a value at a path needs** in the tree at the end of a walk. -/
def keyAt? (root : String) (row : Row) :
    View → Path → Path → List (String × Option Term) → Option String
  | _, _, [], _ => none
  | v, _, name :: _, [] => if v.visible [name] then some name else none
  | v, base, name :: rest, step :: steps =>
    match v.get? name with
    | some ⟨s, some sub⟩ =>
      let here := base ++ [name]
      if s.hidden = false ∧ step = (name, row.get? (Path.toVariable root here)) then
        keyAt? root row sub here rest steps
      else none
    | _ => none

theorem keyAt?_nil (hget : v.get? name = some e) (base : Path) : keyAt? root row v base (name :: rest) [] =
    if e.property.hidden = true then none else some name := by
  rw [keyAt?, View.visible_singleton, hget]
  cases hhid : e.property.hidden <;> simp [hhid]

theorem keyAt?_cons (hget : v.get? name = some e) (base : Path) :
    keyAt? root row v base (name :: rest) (step :: steps) =
      match e.sub with
      | none => none
      | some sub =>
        if e.property.hidden = false ∧ step = (name, row.get? (Path.toVariable root (base ++ [name]))) then
          keyAt? root row sub (base ++ [name]) rest steps
        else none := by
  rw [keyAt?, hget]
  obtain ⟨s, _ | sub⟩ := e <;> rfl

theorem keyAt?_of_hidden (hget : v.get? name = some e) (hhid : e.property.hidden = true) (base : Path) :
    keyAt? root row v base (name :: rest) steps = none := by
  cases steps with
  | nil => rw [keyAt?_nil hget, if_pos hhid]
  | cons step steps =>
    rw [keyAt?_cons hget, hhid]
    cases e.sub <;> simp

/-- **The key is the next name on the path**, if the path goes on where the walk ends, the walk is that of the
row, and no entry down to the one of the key is hidden. -/
theorem keyAt?_eq_some_iff : ∀ (p : Path) {v : View} {base : Path} {steps : List (String × Option Term)},
    keyAt? root row v base p steps = some key ↔ steps.map Prod.fst ++ [key] <+: p ∧
      v.visible (steps.map Prod.fst ++ [key]) = true ∧
      steps = walk root row base (steps.map Prod.fst ++ [key])
  | [], v, base, steps => by simp [keyAt?]
  | name :: rest, v, base, [] => by
    rw [keyAt?, Option.ite_none_right_eq_some, List.map_nil, List.nil_append, walk_singleton,
      List.cons_prefix_cons]
    constructor
    · rintro ⟨hvis, hkey⟩
      cases hkey
      exact ⟨⟨rfl, List.nil_prefix⟩, hvis, rfl⟩
    · rintro ⟨⟨rfl, -⟩, hvis, -⟩
      exact ⟨hvis, rfl⟩
  | name :: rest, v, base, (k, i) :: steps => by
    have hne : steps.map Prod.fst ++ [key] ≠ [] := by simp
    rw [List.map_cons, List.cons_append, List.cons_prefix_cons, View.visible_cons v k hne,
      walk_cons root row base k hne]
    cases hget : v.get? name with
    | none =>
      simp only [keyAt?, hget, reduceCtorEq, false_iff]
      rintro ⟨⟨rfl, -⟩, hvis, -⟩
      simp [hget] at hvis
    | some e =>
      rw [keyAt?_cons hget]
      cases hsub : e.sub with
      | none =>
        simp only [reduceCtorEq, false_iff]
        rintro ⟨⟨rfl, -⟩, hvis, -⟩
        simp [hget, hsub] at hvis
      | some sub =>
        dsimp only
        rw [Option.ite_none_right_eq_some, keyAt?_eq_some_iff rest]
        constructor
        · rintro ⟨⟨hhid, hstep⟩, hpre, hvis, hwalk⟩
          cases hstep
          exact ⟨⟨rfl, hpre⟩, by simp [hget, hhid, hsub, hvis], congrArg (List.cons _) hwalk⟩
        · rintro ⟨⟨rfl, hpre⟩, hvis, hwalk⟩
          obtain ⟨hstep, hwalk⟩ := List.cons.inj hwalk
          obtain ⟨hhid, hvis⟩ : e.property.hidden = false ∧
              sub.visible (steps.map Prod.fst ++ [key]) = true := by
            simpa [hget, hsub] using hvis
          exact ⟨⟨hhid, hstep⟩, hpre, hvis, hwalk⟩

/-! ### The key that a value adds -/

theorem insertAt_of_hidden (hget : v.get? name = some e) (hhid : e.property.hidden = true) (value : Term)
    (base : Path) (t : ResultTree) : t.insertAt root row value v base (name :: rest) = t := by
  unfold insertAt
  rw [hget]
  exact if_pos hhid

theorem keysAt_insertAt_singleton (hget : v.get? name = some e) (value : Term) (base : Path)
    (t : ResultTree) (steps : List (String × Option Term)) :
    (t.insertAt root row value v base [name]).keysAt steps =
      (keyAt? root row v base [name] steps).toList.foldl addKey (t.keysAt steps) := by
  cases hhid : e.property.hidden with
  | true =>
    rw [insertAt_of_hidden hget hhid, keyAt?_of_hidden hget hhid]
    rfl
  | false =>
    unfold insertAt
    rw [hget]
    dsimp only
    rw [if_neg (by simp [hhid])]
    cases steps with
    | nil =>
      rw [keyAt?_nil hget, hhid, keysAt_nil, keysAt_nil]
      cases e.sub with
      | none => exact keys_addTerm t name value
      | some sub => exact keys_withChild t name _ _ _
    | cons step steps =>
      have hnone : keyAt? root row v base [name] (step :: steps) = none := by
        rw [keyAt?_cons hget]
        cases e.sub <;> simp [keyAt?]
      rw [hnone]
      cases e.sub with
      | none => exact keysAt_addTerm t name value
      | some sub => exact keysAt_withChild_id t name _ _

/-- **A value adds the key that it needs**, and no other. -/
theorem keysAt_insertAt (root : String) (row : Row) (value : Term) :
    ∀ (p : Path) {v : View} (base : Path) (t : ResultTree) (steps : List (String × Option Term)),
      (v.find? p).isSome → (t.insertAt root row value v base p).keysAt steps =
        (keyAt? root row v base p steps).toList.foldl addKey (t.keysAt steps)
  | [], v, base, t, steps, h => by simp at h
  | name :: rest, v, base, t, steps, h => by
    obtain ⟨d, hd⟩ := Option.isSome_iff_exists.1 h
    obtain ⟨e, hget, ⟨rfl, rfl⟩ | ⟨sub, hsub, hd⟩⟩ := View.exists_of_find?_cons hd
    · exact keysAt_insertAt_singleton hget value base t steps
    cases hhid : e.property.hidden with
    | true =>
      rw [insertAt_of_hidden hget hhid, keyAt?_of_hidden hget hhid]
      rfl
    | false =>
      obtain ⟨next, rest, rfl⟩ := List.exists_cons_of_ne_nil (View.ne_nil_of_find? hd)
      have hbelow : (sub.find? (next :: rest)).isSome := by rw [hd, Option.isSome_some]
      unfold insertAt
      rw [hget]
      dsimp only
      rw [if_neg (by simp [hhid]), hsub]
      dsimp only
      cases steps with
      | nil =>
        rw [keyAt?_nil hget, hhid, keysAt_nil, keysAt_nil]
        exact keys_withChild t name _ _ _
      | cons step steps =>
        -- the value goes on in the child of the row, which is that of the walk or another one
        rw [keyAt?_cons hget, hsub, keysAt_withChild fun c => id_insertAt root row value sub _ _ c,
          keysAt_insertAt root row value (next :: rest) (base ++ [name]) _ steps hbelow]
        dsimp only
        by_cases hstep : step = (name, row.get? (Path.toVariable root (base ++ [name])))
        · rw [if_pos hstep, if_pos ⟨hhid, hstep⟩, hstep, keysAt_cons t e.property.suppressId]
        · rw [if_neg hstep, if_neg fun h => hstep h.2]
          rfl

/-! ### The keys of a row -/

/-- **The keys that a row needs** in the tree at the end of a walk, one for each value. -/
def keysOf (root : String) (v : View) (columns : List (String × Path))
    (steps : List (String × Option Term)) (row : Row) : List String :=
  columns.filterMap fun c => if (row.get? c.1).isSome then keyAt? root row v [] c.2 steps else none

theorem keysOf_cons (c : String × Path) (columns : List (String × Path))
    (steps : List (String × Option Term)) (row : Row) : keysOf root v (c :: columns) steps row =
      (if (row.get? c.1).isSome then keyAt? root row v [] c.2 steps else none).toList ++
        keysOf root v columns steps row := by
  rw [keysOf, List.filterMap_cons, ← keysOf]
  cases if (row.get? c.1).isSome then keyAt? root row v [] c.2 steps else none <;> rfl

theorem keysAt_foldRow (steps : List (String × Option Term)) (row : Row) :
    ∀ (columns : List (String × Path)) (t : ResultTree), (∀ c ∈ columns, (v.find? c.2).isSome) →
      (t.foldRow root v columns row).keysAt steps =
        (keysOf root v columns steps row).foldl addKey (t.keysAt steps)
  | [], _, _ => rfl
  | c :: columns, t, h => by
    have ih := fun t => keysAt_foldRow steps row columns t
      fun d hd => h d (List.mem_cons_of_mem _ hd)
    unfold foldRow at ih ⊢
    rw [List.foldl_cons, ih, keysOf_cons, List.foldl_append]
    cases row.get? c.1 with
    | none => rfl
    | some value =>
      have hvalue := keysAt_insertAt root row value c.2 [] t steps (h c List.mem_cons_self)
      rw [Option.isSome_some, if_pos rfl]
      exact congrArg (List.foldl addKey · _) hvalue

theorem keysAt_foldl_foldRow {columns : List (String × Path)} (h : ∀ c ∈ columns, (v.find? c.2).isSome)
    (steps : List (String × Option Term)) : ∀ (run : List Row) (t : ResultTree),
      (run.foldl (foldRow root v columns) t).keysAt steps =
        (run.flatMap (keysOf root v columns steps)).foldl addKey (t.keysAt steps)
  | [], _ => rfl
  | row :: run, t => by
    rw [List.foldl_cons, keysAt_foldl_foldRow h steps run, keysAt_foldRow steps row columns t h, List.flatMap_cons,
      List.foldl_append]

theorem walk_concat (root : String) (row : Row) (base names : Path) (a b : String) :
    walk root row base (names ++ [a]) = walk root row base (names ++ [b]) := by
  have hancestors : ∀ key : String, Path.ancestors (names ++ [key]) =
      (List.range names.length).map fun n => names.take (n + 1) := by
    intro key
    rw [Path.ancestors, List.length_append, List.length_singleton, Nat.add_sub_cancel]
    refine List.map_congr_left fun n hn => ?_
    rw [List.take_append_of_le_length (List.mem_range.1 hn)]
  rw [walk, walk, hancestors, hancestors, List.dropLast_concat, List.dropLast_concat]

end ResultTree

/-- **The row needs a key** in the tree at the end of a walk: the walk is that of the row, the entry of the
key is not hidden, and the row has a value on or below it. -/
def Row.Needs (root : String) (v : View) (steps : List (String × Option Term)) (key : String)
    (row : Row) : Prop :=
  v.visible (steps.map Prod.fst ++ [key]) = true ∧
    steps = ResultTree.walk root row [] (steps.map Prod.fst ++ [key]) ∧
    ∃ p ∈ v.paths, steps.map Prod.fst ++ [key] <+: p ∧ (row.get? (Path.toVariable root p)).isSome

instance (root : String) (v : View) (steps : List (String × Option Term)) (key : String) (row : Row) :
    Decidable (row.Needs root v steps key) :=
  inferInstanceAs (Decidable (_ ∧ _ ∧ ∃ p ∈ v.paths, _))

/-- The first row of a run that needs a key. -/
def Row.firstNeed (root : String) (v : View) (run : List Row) (steps : List (String × Option Term))
    (key : String) : ℕ :=
  run.findIdx fun row => row.Needs root v steps key

namespace ResultTree

section View

variable {root key : String} {row : Row} {v : View} {run : List Row} {steps : List (String × Option Term)}
  (hv : v.WellFormed) (hroot : ∀ p ∈ v.paths, Path.toVariable root p ≠ root)
include hv hroot

theorem mem_keysOf_iff :
    key ∈ keysOf root v (v.columns root) steps row ↔ row.Needs root v steps key := by
  rw [keysOf, List.mem_filterMap]
  constructor
  · rintro ⟨c, hc, h⟩
    obtain ⟨p, hp, rfl⟩ := (View.mem_columns hv hroot).1 hc
    split at h
    · rename_i hbound
      obtain ⟨hpre, hvis, hwalk⟩ := (keyAt?_eq_some_iff p).1 h
      exact ⟨hvis, hwalk, p, hp, hpre, hbound⟩
    · cases h
  · rintro ⟨hvis, hwalk, p, hp, hpre, hbound⟩
    refine ⟨_, (View.mem_columns hv hroot).2 ⟨p, hp, rfl⟩, ?_⟩
    rw [if_pos hbound]
    exact (keyAt?_eq_some_iff p).2 ⟨hpre, hvis, hwalk⟩

/-- **A row needs its keys in the order of the view.** -/
theorem pairwise_keysOf (row : Row) : (keysOf root v (v.columns root) steps row).Pairwise fun a b =>
    a = b ∨ v.rank root (steps.map Prod.fst ++ [a]) < v.rank root (steps.map Prod.fst ++ [b]) := by
  rw [keysOf, List.pairwise_filterMap]
  refine (View.pairwise_rank_columns hv hroot).imp_of_mem ?_
  intro c d hc hd hlt a ha b hb
  obtain ⟨p, hp, rfl⟩ := (View.mem_columns hv hroot).1 hc
  obtain ⟨q, hq, rfl⟩ := (View.mem_columns hv hroot).1 hd
  split at ha
  · split at hb
    · rcases eq_or_ne a b with hab | hab
      · exact .inl hab
      · exact .inr (View.rank_lt_of_below hv hroot hab hp hq ((keyAt?_eq_some_iff p).1 ha).1
          ((keyAt?_eq_some_iff q).1 hb).1 hlt)
    · cases hb
  · cases ha

/-! ### The keys of a run -/

theorem firstNeed_eq (run : List Row) : Row.firstNeed root v run steps key =
    run.findIdx fun row => key ∈ keysOf root v (v.columns root) steps row := by
  rw [Row.firstNeed]
  congr 1
  funext row
  exact decide_eq_decide.2 (mem_keysOf_iff hv hroot).symm

section Run

variable {entity : Term} (hne : run ≠ []) (hrun : ∀ row ∈ run, row.get? root = some entity)
include hne hrun

/-- **The keys of a tree are those that the rows of its run need**, each where it comes up first. -/
theorem keysAt_ofRun (steps : List (String × Option Term)) : (ofRun root v run).keysAt steps =
    (run.flatMap (keysOf root v (v.columns root) steps)).eraseDups := by
  have hcolumns : ∀ c ∈ v.columns root, (v.find? c.2).isSome := by
    intro c hc
    obtain ⟨p, hp, rfl⟩ := (View.mem_columns hv hroot).1 hc
    exact (View.mem_paths_iff hv).1 hp
  rw [ofRun_block hne hrun, keysAt_foldl_foldRow hcolumns, keysAt_empty, foldl_addKey]

theorem mem_keysAt_ofRun :
    key ∈ (ofRun root v run).keysAt steps ↔ ∃ row ∈ run, row.Needs root v steps key := by
  rw [keysAt_ofRun hv hroot hne hrun, List.mem_eraseDups, List.mem_flatMap]
  simp only [mem_keysOf_iff hv hroot]

/-- **Keys come by the rows that need them first**, and for one row by the order of the view. -/
theorem pairwise_keysAt_ofRun : ((ofRun root v run).keysAt steps).Pairwise fun a b =>
    Row.firstNeed root v run steps a < Row.firstNeed root v run steps b ∨
      Row.firstNeed root v run steps a = Row.firstNeed root v run steps b ∧
        v.rank root (steps.map Prod.fst ++ [a]) < v.rank root (steps.map Prod.fst ++ [b]) := by
  rw [keysAt_ofRun hv hroot hne hrun]
  refine (pairwise_eraseDups _).imp fun {a b} hlt => ?_
  rw [firstNeed_eq hv hroot, firstNeed_eq hv hroot]
  rcases findIdx_lt_or_of_idxOf_lt hlt with hrow | ⟨hrow, row, -, hb, hlt⟩
  · exact .inl hrow
  · rcases rel_of_idxOf_lt (pairwise_keysOf hv hroot row) hb hlt with heq | hrank
    · rw [heq] at hlt
      exact absurd hlt (Nat.lt_irrefl _)
    · exact .inr ⟨hrow, hrank⟩

theorem mem_paths_of_mem_keysAt (h : key ∈ (ofRun root v run).keysAt steps) :
    steps.map Prod.fst ++ [key] ∈ v.paths := by
  obtain ⟨row, -, -, -, p, hp, hpre, -⟩ := (mem_keysAt_ofRun hv hroot hne hrun).1 h
  exact View.mem_paths_of_beginning hv (by simp) hpre hp

/-- **Keys follow the view exactly if no row needs a key before one that the view has earlier.** -/
theorem inOrder_keysAt_iff : v.InOrder root (steps.map Prod.fst) ((ofRun root v run).keysAt steps) ↔
    ∀ a ∈ (ofRun root v run).keysAt steps, ∀ b ∈ (ofRun root v run).keysAt steps,
      v.rank root (steps.map Prod.fst ++ [a]) < v.rank root (steps.map Prod.fst ++ [b]) →
        Row.firstNeed root v run steps a ≤ Row.firstNeed root v run steps b := by
  refine pairwise_place_iff (fun a ha b hb hrank => ?_) (pairwise_keysAt_ofRun hv hroot hne hrun)
  have hpath := (View.rank_inj hv (mem_paths_of_mem_keysAt hv hroot hne hrun ha)
    (mem_paths_of_mem_keysAt hv hroot hne hrun hb)).1 hrank
  exact List.singleton_inj.1 (List.append_cancel_left hpath)

theorem inOrder_keysAt (halike : ∀ row ∈ run, ∀ other ∈ run, ∀ p ∈ v.paths,
      (row.get? (Path.toVariable root p)).isSome → (other.get? (Path.toVariable root p)).isSome) :
    v.InOrder root (steps.map Prod.fst) ((ofRun root v run).keysAt steps) := by
  rw [inOrder_keysAt_iff hv hroot hne hrun]
  intro a ha b _ _
  obtain ⟨row, hrow, hvis, -, p, hp, hpre, hbound⟩ := (mem_keysAt_ofRun hv hroot hne hrun).1 ha
  refine List.findIdx_le_findIdx fun other hother hb => decide_eq_true ?_
  obtain ⟨-, hwalk, -⟩ := of_decide_eq_true hb
  rw [walk_concat root other [] _ b a] at hwalk
  exact ⟨hvis, hwalk, p, hp, hpre, halike row hrow other hother p hp hbound⟩

end Run

end View

/-! ### All trees below -/

theorem child?_of_mem {t c : ResultTree} (h : t.Tidy) (hc : c ∈ t.children key) :
    t.child? key c.id = some c := by
  rw [child?]
  cases hfind : (t.children key).find? fun d => d.id = c.id with
  | none => exact absurd (decide_eq_true rfl) (List.find?_eq_none.1 hfind c hc)
  | some d =>
    have hid : d.id = c.id := by simpa using List.find?_some hfind
    rw [List.inj_on_of_nodup_map (h.children key) (List.mem_of_find?_eq_some hfind) hc hid]

/-- **Each tree below is at the end of a walk**, if no two children of a tree have one identifier. -/
theorem exists_at?_of_nodeAt : ∀ (names : List String) {t node : ResultTree},
    (∀ names node, t.NodeAt names node → node.Tidy) → t.NodeAt names node →
      ∃ steps, steps.map Prod.fst = names ∧ t.at? steps = some node
  | [], _, _, _, h => ⟨[], rfl, congrArg some h.symm⟩
  | key :: rest, t, node, htidy, ⟨c, hc, hnode⟩ => by
    have hchild := child?_of_mem (htidy [] t rfl) hc
    obtain ⟨steps, hnames, hat⟩ :=
      exists_at?_of_nodeAt rest (fun names n hn => htidy (key :: names) n ⟨c, hc, hn⟩) hnode
    refine ⟨(key, c.id) :: steps, by rw [List.map_cons, hnames], ?_⟩
    rw [at?, hchild]
    exact hat

end ResultTree

namespace ResultStream

variable {s : ResultStream} {run : List Row} {rest : List Answer} {entity : Term}

/-- **The keys of a tree come by the rows that need them first**, and for one row in the order of the view. This
holds of the tree that a stream gives for a run and of each tree in it. So keys are in the order of the view
exactly if no row needs a key before another that the view has earlier; rows that bind the same variables
always leave them in this order. -/
theorem keys_come_by_rows_then_view (hview : s.view.WellFormed)
    (hroot : ∀ p ∈ s.view.paths, Path.toVariable s.root p ≠ s.root) (hopen : s.closed = false)
    (hcoming : s.coming = run.map .row ++ rest) (hne : run ≠ [])
    (hrun : ∀ row ∈ run, row.get? s.root = some entity) (hrest : RunEnds s.root entity rest) :
    ∃ tree : ResultTree, s.next.1 = some (.ok tree) ∧ tree.id = some entity ∧
      (∀ names node, tree.NodeAt names node →
        ∃ steps, steps.map Prod.fst = names ∧ tree.at? steps = some node) ∧
      (∀ steps node, tree.at? steps = some node →
        (∀ key, key ∈ node.keys ↔ ∃ row ∈ run, row.Needs s.root s.view steps key) ∧
        (node.keys.Pairwise fun a b =>
          Row.firstNeed s.root s.view run steps a < Row.firstNeed s.root s.view run steps b ∨
            Row.firstNeed s.root s.view run steps a = Row.firstNeed s.root s.view run steps b ∧
              s.view.rank s.root (steps.map Prod.fst ++ [a]) <
                s.view.rank s.root (steps.map Prod.fst ++ [b])) ∧
        (s.view.InOrder s.root (steps.map Prod.fst) node.keys ↔ ∀ a ∈ node.keys, ∀ b ∈ node.keys,
          s.view.rank s.root (steps.map Prod.fst ++ [a]) <
              s.view.rank s.root (steps.map Prod.fst ++ [b]) →
            Row.firstNeed s.root s.view run steps a ≤ Row.firstNeed s.root s.view run steps b)) ∧
      ((∀ row ∈ run, ∀ other ∈ run, ∀ p ∈ s.view.paths, (row.get? (Path.toVariable s.root p)).isSome →
          (other.get? (Path.toVariable s.root p)).isSome) →
        ∀ steps node, tree.at? steps = some node →
          s.view.InOrder s.root (steps.map Prod.fst) node.keys) := by
  refine ⟨ResultTree.ofRun s.root s.view run, next_run hopen hcoming hne hrun hrest, ?_, ?_, ?_, ?_⟩
  · rw [ResultTree.id_ofRun, Row.entityOf?_of_block hne hrun]
  · exact fun names node => ResultTree.exists_at?_of_nodeAt names fun names node hnode =>
      (ResultTree.conforms_ofRun hne hrun names node hnode).1
  · intro steps node hnode
    rw [← ResultTree.keysAt_of_at? hnode]
    exact ⟨fun key => ResultTree.mem_keysAt_ofRun hview hroot hne hrun,
      ResultTree.pairwise_keysAt_ofRun hview hroot hne hrun,
      ResultTree.inOrder_keysAt_iff hview hroot hne hrun⟩
  · intro halike steps node hnode
    rw [← ResultTree.keysAt_of_at? hnode]
    exact ResultTree.inOrder_keysAt hview hroot hne hrun halike

/-- A view of areas that may have a name and a code, and of notes. -/
def codedView : View :=
  .nested { name := "area", iri := "http://e/area" }
    (.leaf { name := "name", iri := "http://e/name", optional := true }
      (.leaf { name := "code", iri := "http://e/code", optional := true } .empty))
    (.leaf { name := "note", iri := "http://e/note" } .empty)

/-- The notes come before the area, as in the pattern; but a row with the code of the area comes before the
one with its name. -/
theorem keys_come_by_rows_then_view_of_area :
    let row (name value : String) : Row :=
      ⟨[("id", .iri "e"), ("note", .plain "n"), ("area", .iri "a"), (name, .plain value)]⟩
    let s : ResultStream :=
      { source := .ofRows [row "area_code" "1", row "area_name" "x"], view := codedView, root := "id" }
    ∃ tree node : ResultTree, s.next.1 = some (.ok tree) ∧
      tree.at? [("area", some (.iri "a"))] = some node ∧
      tree.keys = ["note", "area"] ∧ codedView.InOrder "id" [] tree.keys ∧
      node.keys = ["code", "name"] ∧ ¬ codedView.InOrder "id" ["area"] node.keys := by
  intro row s
  let run := [row "area_code" "1", row "area_name" "x"]
  have hrun : ∀ r ∈ run, r.get? "id" = some (.iri "e") := by decide
  have hrest : RunEnds "id" (.iri "e") [] := by simp [RunEnds]
  obtain ⟨tree, hnext, -, -, hkeys, -⟩ :=
    @keys_come_by_rows_then_view s run [] (.iri "e") (by decide) (by decide) rfl rfl (by decide) hrun hrest
  obtain rfl : tree = ResultTree.ofRun "id" codedView run :=
    Except.ok.inj (Option.some.inj (hnext.symm.trans (next_run (s := s) rfl rfl (by decide) hrun hrest)))
  refine ⟨_, _, hnext, rfl, rfl, ?_, rfl, ?_⟩
  · exact (hkeys [] _ rfl).2.2.2 (by decide)
  · intro horder
    have hfirst := (hkeys [("area", some (.iri "a"))] _ rfl).2.2.1 horder
    exact absurd (hfirst "name" (by decide) "code" (by decide) (by decide)) (by decide)

/-- **Two orders of the same rows may give the keys in two orders**, one of them not that of the view. -/
theorem keys_in_two_orders :
    let v : View := .leaf { name := "a", iri := "http://e/a", optional := true }
      (.leaf { name := "b", iri := "http://e/b", optional := true } .empty)
    let early : Row := ⟨[("id", .iri "e"), ("a", .plain "y")]⟩
    let late : Row := ⟨[("id", .iri "e"), ("b", .plain "x")]⟩
    let a : String × List ResultValue := ("a", [.term (.plain "y")])
    let b : String × List ResultValue := ("b", [.term (.plain "x")])
    v.WellFormed ∧ (∀ p ∈ v.paths, Path.toVariable "id" p ≠ "id") ∧ v.vars "id" = ["id", "a", "b"] ∧
    (all { source := .ofRows [early, late], view := v, root := "id" }).1 =
      [.ok { id := some (.iri "e"), entries := [a, b] }] ∧
    (all { source := .ofRows [late, early], view := v, root := "id" }).1 =
      [.ok { id := some (.iri "e"), entries := [b, a] }] ∧
    v.InOrder "id" [] [a.1, b.1] ∧ ¬ v.InOrder "id" [] [b.1, a.1] := by
  intro v early late a b
  refine ⟨by decide, by decide, by decide, ?_, ?_, by decide, by decide⟩
  · rw [all_ofRows]
    rfl
  · rw [all_ofRows]
    rfl

end ResultStream

end SparqlViews

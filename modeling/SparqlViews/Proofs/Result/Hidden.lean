import SparqlViews.Proofs.View.Columns

/-! # Hidden entries and results

The values of hidden entries are in the rows of a result, and no tree shows them. So rows that agree but
for such values should give the same trees, and they hold the same terms (`hasTermAt_foldl_congr`). A
tree may differ in one thing: the place of a value is looked for level by level, with the trees on the way
made where they are not there yet, and only then the hidden entry ends the search.

This changes nothing where a row with a value below a hidden entry names the resource that has this entry
(`Row.Anchored`): then the tree of that resource is there already, since its column comes first
(`foldRow_filter_visible`).

* `Row.Agree`: rows that differ in the values of hidden entries alone.
* `hidden_values_are_silent`: two streams over such rows.
-/

namespace SparqlViews

/-! ### Visible paths -/

namespace View

variable {v : View} {p q : Path}

theorem visible_of_beginning (h : v.visible p = true) (hq : q ≠ []) (hbegin : q <+: p) :
    v.visible q = true := by
  have hp : p ≠ [] := by
    rintro rfl
    exact hq (List.prefix_nil.1 hbegin)
  rw [visible, List.all_eq_true] at h ⊢
  intro r hr
  obtain ⟨hrne, hrq⟩ := (Path.mem_ancestors_append hq).1 hr
  exact h r ((Path.mem_ancestors_append hp).2 ⟨hrne, hrq.trans hbegin⟩)

theorem exists_first_hidden (hp : p ≠ []) (h : v.visible p = false) : ∃ above name,
    above ++ [name] <+: p ∧ v.visible (above ++ [name]) = false ∧
      (above = [] ∨ v.visible above = true) := by
  induction p using List.reverseRecOn with
  | nil => exact absurd rfl hp
  | append_singleton above name ih =>
    by_cases habove : above = [] ∨ v.visible above = true
    · exact ⟨above, name, List.prefix_rfl, h, habove⟩
    · rw [not_or, Bool.not_eq_true] at habove
      obtain ⟨q, x, hq, hhidden, hvisible⟩ := ih habove.1 habove.2
      exact ⟨q, x, hq.trans (List.prefix_append above [name]), hhidden, hvisible⟩

end View

namespace ResultTree

variable {root : String} {row : Row} {v : View} {q : Path} {t : ResultTree} {value : Term}
  {steps : List (String × Option Term)} {columns : List (String × Path)}

/-! ### The trees on the way to a value -/

theorem Leads.insertAt (root : String) (row : Row) (value : Term) :
    ∀ (p : Path) {v : View} (base : Path) {t : ResultTree} {steps : List (String × Option Term)},
      t.Leads steps → (t.insertAt root row value v base p).Leads steps
  | [], _, _, _, _, h => h
  | name :: rest, v, base, t, steps, h => by
    unfold ResultTree.insertAt
    cases v.get? name with
    | none => exact h
    | some e =>
      dsimp only
      split
      · exact h
      · cases e.sub with
        | none =>
          rcases rest with _ | ⟨next, rest⟩
          · exact h.addTerm name value
          · exact h
        | some sub =>
          rcases rest with _ | ⟨next, rest⟩
          · exact h.withChild (fun _ => rfl) (fun _ _ hc => hc) name _ _
          · exact h.withChild (fun c => id_insertAt root row value sub _ _ c)
              (fun c _ hc => Leads.insertAt root row value (next :: rest) (base ++ [name]) hc) name _ _

theorem Leads.foldRow (root : String) (v : View) (row : Row) :
    ∀ (columns : List (String × Path)) {t : ResultTree}, t.Leads steps →
      (t.foldRow root v columns row).Leads steps
  | [], _, h => h
  | c :: columns, t, h => by
    unfold ResultTree.foldRow
    rw [List.foldl_cons]
    refine Leads.foldRow root v row columns ?_
    cases row.get? c.1 with
    | none => exact h
    | some value => exact h.insertAt root row value c.2 []

/-- **The value of an entry with a view of its own makes the tree that is to hold the values below it.** -/
theorem leads_insertAt_self (name : String) :
    ∀ (p : Path) {v : View} {base : Path} (t : ResultTree), v.visible p = true →
      (v.find? (p ++ [name])).isSome →
      row.get? (Path.toVariable root (base ++ p)) = some value →
      (t.insertAt root row value v base p).Leads (walk root row base (p ++ [name]))
  | [], v, _, _, hvisible, _, _ => by simp at hvisible
  | first :: rest, v, base, t, hvisible, hfind, hvalue => by
    have hbelow : rest ++ [name] ≠ [] := by simp
    rw [List.cons_append, View.find?_cons v first hbelow] at hfind
    obtain ⟨found, hfound⟩ := Option.isSome_iff_exists.1 hfind
    obtain ⟨e, hget, hfound⟩ := Option.bind_eq_some_iff.1 hfound
    obtain ⟨sub, hsub, hfound⟩ := Option.bind_eq_some_iff.1 hfound
    rw [List.cons_append, walk_cons root row base first hbelow]
    unfold ResultTree.insertAt
    rw [hget]
    dsimp only
    rcases eq_or_ne rest [] with rfl | hrest
    · have hhidden : e.property.hidden = false := by
        simpa [hget] using hvisible
      rw [if_neg (by simp [hhidden]), hsub, hvalue, leads_cons]
      dsimp only
      rw [child?_withChild fun _ => rfl, if_pos ⟨rfl, rfl⟩]
      exact ⟨_, rfl, leads_nil _⟩
    · obtain ⟨next, more, rfl⟩ := List.exists_cons_of_ne_nil hrest
      obtain ⟨hhidden, hvisible⟩ : e.property.hidden = false ∧ sub.visible (next :: more) = true := by
        simpa [View.visible_cons v first hrest, hget, hsub] using hvisible
      have hassoc : base ++ first :: next :: more = base ++ [first] ++ next :: more := by simp
      rw [hassoc] at hvalue
      rw [if_neg (by simp [hhidden]), hsub, leads_cons]
      dsimp only
      rw [child?_withChild fun c => id_insertAt root row value sub _ _ c, if_pos ⟨rfl, rfl⟩]
      refine ⟨_, rfl, ?_⟩
      have hin : (sub.find? (next :: more ++ [name])).isSome := by
        rw [hfound]
        rfl
      exact leads_insertAt_self name (next :: more) _ hvisible hin hvalue

theorem foldRow_singleton (root : String) (v : View) (c : String × Path) (t : ResultTree) (row : Row) :
    t.foldRow root v [c] row = match row.get? c.1 with
      | some value => t.insertAt root row value v [] c.2
      | none => t :=
  rfl

theorem foldRow_append (root : String) (v : View) (front back : List (String × Path))
    (t : ResultTree) (row : Row) : t.foldRow root v (front ++ back) row =
      (t.foldRow root v front row).foldRow root v back row :=
  List.foldl_append

theorem leads_foldRow (name : String) (hcolumn : (Path.toVariable root q, q) ∈ columns)
    (hvisible : v.visible q = true) (hfind : (v.find? (q ++ [name])).isSome)
    (hvalue : row.get? (Path.toVariable root q) = some value) :
    (t.foldRow root v columns row).Leads (walk root row [] (q ++ [name])) := by
  obtain ⟨front, back, rfl⟩ := List.append_of_mem hcolumn
  rw [foldRow_append]
  unfold ResultTree.foldRow
  rw [List.foldl_cons, hvalue]
  exact (leads_insertAt_self name q _ hvisible hfind hvalue).foldRow root v row back

/-- **A value below a hidden entry changes nothing** if the trees down to that entry are there. -/
theorem insertAt_eq_self : ∀ (p : Path) {v : View} {base q : Path} {t : ResultTree}, q ≠ [] →
    q <+: p → v.visible q = false → t.Leads (walk root row base q) →
      t.insertAt root row value v base p = t
  | [], _, _, _, _, hq, hbegin, _, _ => absurd (List.prefix_nil.1 hbegin) hq
  | name :: rest, v, base, q, t, hq, hbegin, hhidden, hleads => by
    obtain ⟨more, rfl, hmore⟩ := (List.prefix_cons_iff.1 hbegin).resolve_left hq
    unfold ResultTree.insertAt
    cases hget : v.get? name with
    | none => rfl
    | some e =>
      dsimp only
      cases hhid : e.property.hidden with
      | true => rw [if_pos rfl]
      | false =>
        rw [if_neg (by decide)]
        have hmorene : more ≠ [] := by
          rintro rfl
          simp [hget, hhid] at hhidden
        obtain ⟨next, below, rfl⟩ : ∃ next below, rest = next :: below := by
          refine List.exists_cons_of_ne_nil ?_
          rintro rfl
          exact hmorene (List.prefix_nil.1 hmore)
        cases hsub : e.sub with
        | none => rfl
        | some sub =>
          dsimp only
          rw [walk_cons root row base name hmorene] at hleads
          obtain ⟨c, hc, hleads⟩ := leads_cons.1 hleads
          have hbelow : sub.visible more = false := by
            simpa [View.visible_cons v name hmorene, hget, hhid, hsub] using hhidden
          exact withChild_eq_self hc (insertAt_eq_self (next :: below) hmorene hmore hbelow hleads)

end ResultTree

/-! ### Rows with values of hidden entries -/

namespace Row

variable {root : String} {v : View} {a b : Row} {p q : Path}

/-- **The rows differ in the values of hidden entries alone**: both name the same entity, and they agree
on the variables of visible paths. -/
structure Agree (root : String) (v : View) (a b : Row) : Prop where
  entity : (a.get? root).isSome ∧ b.get? root = a.get? root
  shown : ∀ p ∈ v.paths, v.visible p = true →
    a.get? (Path.toVariable root p) = b.get? (Path.toVariable root p)

/-- **A value below a hidden entry comes with the resource that has this entry.** -/
def Anchored (root : String) (v : View) (row : Row) : Prop :=
  ∀ p ∈ v.paths, (row.get? (Path.toVariable root p)).isSome →
    ∀ q ∈ Path.ancestors p, v.visible q = true → v.visible (p.take (q.length + 1)) = false →
      (row.get? (Path.toVariable root q)).isSome

instance (root : String) (v : View) (row : Row) : Decidable (row.Anchored root v) := by
  unfold Anchored
  infer_instance

theorem Agree.symm (h : Agree root v a b) : Agree root v b a where
  entity := ⟨by rw [h.entity.2]; exact h.entity.1, h.entity.2.symm⟩
  shown p hp hvisible := (h.shown p hp hvisible).symm

theorem Agree.along (h : Agree root v a b) (hv : v.WellFormed) (hp : p ∈ v.paths)
    (hvisible : v.visible p = true) (hq : q ∈ Path.ancestors p ++ [p]) :
    a.get? (Path.toVariable root q) = b.get? (Path.toVariable root q) := by
  obtain ⟨hne, hbegin⟩ := (Path.mem_ancestors_append (View.ne_nil_of_mem_paths hp)).1 hq
  exact h.shown q (View.mem_paths_of_beginning hv hne hbegin hp)
    (View.visible_of_beginning hvisible hne hbegin)

end Row

namespace ResultTree

variable {root : String} {v : View} {a b row : Row} {base p : Path}

/-- In front of the column of a value, an anchored row has made the trees down to the hidden entry. -/
theorem leads_of_anchored {front back : List (String × Path)} {p above : Path} {name : String}
    (hv : v.WellFormed) (hroot : ∀ p ∈ v.paths, Path.toVariable root p ≠ root)
    (hrow : row.Anchored root v)
    (hcolumns : v.columns root = front ++ (Path.toVariable root p, p) :: back) (hp : p ∈ v.paths)
    (hvalue : (row.get? (Path.toVariable root p)).isSome) (hbegin : above ++ [name] <+: p)
    (hhidden : v.visible (above ++ [name]) = false) (habove : above = [] ∨ v.visible above = true)
    (t : ResultTree) : (t.foldRow root v front row).Leads (walk root row [] (above ++ [name])) := by
  rcases habove with rfl | habove
  · exact leads_nil _
  have hne : above ≠ [] := by
    rintro rfl
    simp at habove
  have hprefix : above <+: p := (List.prefix_append above [name]).trans hbegin
  have hneq : above ≠ p := by
    rintro rfl
    exact absurd hbegin.length_le (by simp)
  have hancestor : above ∈ Path.ancestors p :=
    (List.mem_append.1 ((Path.mem_ancestors_append (View.ne_nil_of_mem_paths hp)).2
      ⟨hne, hprefix⟩)).resolve_right fun h => hneq (List.mem_singleton.1 h)
  have htake : p.take (above.length + 1) = above ++ [name] := by
    rw [List.prefix_iff_eq_take.1 hbegin, List.length_append, List.length_singleton]
  have hmem : above ∈ v.paths := View.mem_paths_of_beginning hv hne hprefix hp
  obtain ⟨resource, hresource⟩ := Option.isSome_iff_exists.1
    (hrow p hp hvalue above hancestor habove (by rw [htake]; exact hhidden))
  exact leads_foldRow name (View.mem_front_columns hv hroot hcolumns hp hmem hprefix hneq) habove
    (View.isSome_find?_of_beginning (by simp) hbegin ((View.mem_paths_iff hv).1 hp)) hresource

/-- **An anchored row adds its visible values**, and nothing else. -/
theorem foldRow_filter_visible (hv : v.WellFormed)
    (hroot : ∀ p ∈ v.paths, Path.toVariable root p ≠ root) (hrow : row.Anchored root v)
    (t : ResultTree) (front back : List (String × Path)) (hcolumns : v.columns root = front ++ back) :
    t.foldRow root v front row =
      t.foldRow root v (front.filter fun c => v.visible c.2) row := by
  induction front using List.reverseRecOn generalizing back with
  | nil => rfl
  | append_singleton front c ih =>
    rw [List.append_assoc, List.singleton_append] at hcolumns
    have hmem : c ∈ v.columns root := by
      rw [hcolumns]
      exact List.mem_append_right _ List.mem_cons_self
    obtain ⟨p, hp, rfl⟩ := (View.mem_columns hv hroot).1 hmem
    rw [foldRow_append, List.filter_append, foldRow_append, ← ih _ hcolumns]
    cases hvisible : v.visible p with
    | true => rw [List.filter_cons_of_pos (by simpa using hvisible), List.filter_nil]
    | false =>
      rw [List.filter_cons_of_neg (by simp [hvisible]), List.filter_nil, foldRow_singleton]
      cases hvalue : row.get? (Path.toVariable root p) with
      | none => rfl
      | some value =>
        obtain ⟨above, name, hbegin, hhidden, habove⟩ :=
          View.exists_first_hidden (View.ne_nil_of_mem_paths hp) hvisible
        exact insertAt_eq_self p (by simp) hbegin hhidden
          (leads_of_anchored hv hroot hrow hcolumns hp (by rw [hvalue]; rfl) hbegin hhidden habove t)

/-! ### Rows that agree -/

theorem walk_congr (h : ∀ q ∈ Path.ancestors p, a.get? (Path.toVariable root (base ++ q)) =
    b.get? (Path.toVariable root (base ++ q))) : walk root a base p = walk root b base p := by
  rw [walk, walk, List.map_congr_left h]

theorem insertAt_congr (value : Term) : ∀ (p : Path) {v : View} {base : Path} (t : ResultTree),
    (∀ q ∈ Path.ancestors p, a.get? (Path.toVariable root (base ++ q)) =
      b.get? (Path.toVariable root (base ++ q))) →
    t.insertAt root a value v base p = t.insertAt root b value v base p
  | [], _, _, _, _ => rfl
  | name :: rest, v, base, t, h => by
    unfold ResultTree.insertAt
    cases v.get? name with
    | none => rfl
    | some e =>
      dsimp only
      split
      · rfl
      · cases e.sub with
        | none => rcases rest with _ | ⟨next, rest⟩ <;> rfl
        | some sub =>
          rcases rest with _ | ⟨next, rest⟩
          · rfl
          · rw [Path.ancestors_cons name (List.cons_ne_nil next rest)] at h
            have hbelow : ∀ q ∈ Path.ancestors (next :: rest),
                a.get? (Path.toVariable root (base ++ [name] ++ q)) =
                  b.get? (Path.toVariable root (base ++ [name] ++ q)) := by
              intro q hq
              rw [List.append_assoc]
              exact h (name :: q) (List.mem_cons_of_mem _ (List.mem_map_of_mem hq))
            have ih := funext fun c => insertAt_congr value (next :: rest) (v := sub) c hbelow
            dsimp only
            rw [h [name] List.mem_cons_self]
            exact congrArg (t.withChild name _ _) ih

theorem foldRow_congr (h : Row.Agree root v a b) (hv : v.WellFormed) :
    ∀ (columns : List (String × Path)),
      (∀ c ∈ columns, c.1 = Path.toVariable root c.2 ∧ c.2 ∈ v.paths ∧ v.visible c.2 = true) →
      ∀ t : ResultTree, t.foldRow root v columns a = t.foldRow root v columns b
  | [], _, _ => rfl
  | c :: columns, hcolumns, t => by
    obtain ⟨hname, hp, hvisible⟩ := hcolumns c List.mem_cons_self
    have ih := foldRow_congr h hv columns fun d hd => hcolumns d (List.mem_cons_of_mem _ hd)
    have hvalue : a.get? c.1 = b.get? c.1 := by
      rw [hname]
      exact h.shown c.2 hp hvisible
    have hplace : ∀ value, t.insertAt root a value v [] c.2 = t.insertAt root b value v [] c.2 :=
      fun value => insertAt_congr value c.2 t fun q hq =>
        h.along hv hp hvisible (List.mem_append_left _ hq)
    unfold ResultTree.foldRow at ih ⊢
    rw [List.foldl_cons, List.foldl_cons, ih, hvalue]
    simp only [hplace]

theorem foldRow_eq_of_agree (hv : v.WellFormed)
    (hroot : ∀ p ∈ v.paths, Path.toVariable root p ≠ root) (h : Row.Agree root v a b)
    (ha : a.Anchored root v) (hb : b.Anchored root v) (t : ResultTree) :
    t.foldRow root v (v.columns root) a = t.foldRow root v (v.columns root) b := by
  have hcolumns : v.columns root = v.columns root ++ [] := (List.append_nil _).symm
  rw [foldRow_filter_visible hv hroot ha t _ [] hcolumns,
    foldRow_filter_visible hv hroot hb t _ [] hcolumns]
  refine foldRow_congr h hv _ (fun c hc => ?_) t
  obtain ⟨hmem, hvisible⟩ := List.mem_filter.1 hc
  obtain ⟨p, hp, rfl⟩ := (View.mem_columns hv hroot).1 hmem
  exact ⟨rfl, hp, hvisible⟩

theorem Puts.of_agree (hv : v.WellFormed) (hroot : ∀ p ∈ v.paths, Path.toVariable root p ≠ root)
    (h : Row.Agree root v a b) {steps : List (String × Option Term)} {key : String} {term : Term}
    (hputs : Puts root v (v.columns root) a steps key term) :
    Puts root v (v.columns root) b steps key term := by
  obtain ⟨c, hc, hvalue, hshows, rfl, hkey⟩ := hputs
  obtain ⟨p, hp, rfl⟩ := (View.mem_columns hv hroot).1 hc
  refine ⟨_, hc, ?_, hshows, ?_, hkey⟩
  · rw [← hvalue]
    exact (h.shown p hp hshows.1).symm
  · exact walk_congr fun q hq => h.along hv hp hshows.1 (List.mem_append_left _ hq)

theorem puts_iff_of_agree (hv : v.WellFormed)
    (hroot : ∀ p ∈ v.paths, Path.toVariable root p ≠ root) (h : Row.Agree root v a b)
    (steps : List (String × Option Term)) (key : String) (term : Term) :
    Puts root v (v.columns root) a steps key term ↔ Puts root v (v.columns root) b steps key term :=
  ⟨Puts.of_agree hv hroot h, Puts.of_agree hv hroot h.symm⟩

/-! ### Runs of rows that agree -/

/-- **Anchored runs that agree give the same tree.** -/
theorem foldl_foldRow_eq_of_agree (hv : v.WellFormed)
    (hroot : ∀ p ∈ v.paths, Path.toVariable root p ≠ root) {run other : List Row}
    (h : List.Forall₂ (Row.Agree root v) run other)
    (hanchored : ∀ row ∈ run ++ other, row.Anchored root v) (t : ResultTree) :
    run.foldl (foldRow root v (v.columns root)) t = other.foldl (foldRow root v (v.columns root)) t := by
  induction h generalizing t with
  | nil => rfl
  | cons hrow _ ih =>
    rw [List.foldl_cons, List.foldl_cons, foldRow_eq_of_agree hv hroot hrow
      (hanchored _ (by simp)) (hanchored _ (by simp))]
    refine ih (fun row hmem => hanchored row ?_) _
    rcases List.mem_append.1 hmem with hmem | hmem <;> simp [hmem]

theorem hasTermAt_foldl_congr (hv : v.WellFormed)
    (hroot : ∀ p ∈ v.paths, Path.toVariable root p ≠ root) {run other : List Row}
    (h : List.Forall₂ (Row.Agree root v) run other) (t : ResultTree)
    (steps : List (String × Option Term)) (key : String) (term : Term) :
    (run.foldl (foldRow root v (v.columns root)) t).HasTermAt steps key term ↔
      (other.foldl (foldRow root v (v.columns root)) t).HasTermAt steps key term := by
  rw [hasTermAt_foldl_foldRow, hasTermAt_foldl_foldRow]
  refine or_congr_right ?_
  induction h with
  | nil => rfl
  | cons hrow _ ih =>
    rw [List.exists_mem_cons_iff, List.exists_mem_cons_iff, ih,
      puts_iff_of_agree hv hroot hrow]

theorem exists_ofRun_of_agree {rows run other : List Row} (hmem : run ∈ Row.runs root rows)
    (h : List.Forall₂ (Row.Agree root v) run other) : ∃ entity,
      ofRun root v run = run.foldl (foldRow root v (v.columns root)) { id := some entity } ∧
      ofRun root v other = other.foldl (foldRow root v (v.columns root)) { id := some entity } := by
  rcases Row.eq_singleton_or_entity_of_mem_runs hmem with ⟨row, rfl, hrow⟩ | ⟨hne, entity, hrun⟩
  · obtain ⟨b, -, hrel, -, -⟩ := List.forall₂_cons_left_iff.1 h
    have hentity := hrel.entity.1
    rw [hrow] at hentity
    cases hentity
  · have hother : ∀ r ∈ other, r.get? root = some entity := by
      intro r hr
      have hmem := List.mem_map_of_mem (f := fun r => r.get? root) hr
      rw [Row.map_entity_eq (fun _ _ hab => hab.entity.2) h] at hmem
      exact (Row.mem_entities_of_block hne hrun).1 hmem
    have hotherne : other ≠ [] := by
      rintro rfl
      exact hne (List.forall₂_nil_right_iff.1 h)
    exact ⟨entity, ofRun_block hne hrun, ofRun_block hotherne hother⟩

end ResultTree

namespace ResultStream

variable {root : String} {view : View} {rows others : List Row}

/-- **Hidden entries have no part in results.** If the rows of two streams differ in the values of hidden
entries alone, each tree of the one has the identifier of that of the other, and the same terms at the
same places. If moreover each value below a hidden entry comes with the resource that has this entry, the
trees are equal. -/
theorem hidden_values_are_silent (hv : view.WellFormed)
    (hroot : ∀ p ∈ view.paths, Path.toVariable root p ≠ root)
    (h : List.Forall₂ (Row.Agree root view) rows others) :
    List.Forall₂ (fun x y => ∃ t u : ResultTree, x = .ok t ∧ y = .ok u ∧ t.id = u.id ∧
        ∀ steps key term, t.HasTermAt steps key term ↔ u.HasTermAt steps key term)
      (all { source := .ofRows rows, view, root }).1 (all { source := .ofRows others, view, root }).1 ∧
    ((∀ row ∈ rows ++ others, row.Anchored root view) →
      (all { source := .ofRows rows, view, root }).1 =
        (all { source := .ofRows others, view, root }).1) := by
  have hruns := Row.forall₂_runs (fun _ _ hab => hab.entity.2) h
  have hmem : List.Forall₂
      (fun run other => (run ∈ Row.runs root rows ∧ other ∈ Row.runs root others) ∧
        List.Forall₂ (Row.Agree root view) run other)
      (Row.runs root rows) (Row.runs root others) :=
    List.forall₂_iff_zip.2 ⟨hruns.length_eq, fun hpair =>
      ⟨List.of_mem_zip hpair, List.forall₂_zip hruns hpair⟩⟩
  rw [all_ofRows, all_ofRows]
  constructor
  · simp only [List.forall₂_map_left_iff, List.forall₂_map_right_iff]
    refine hmem.imp fun run other ⟨⟨hrun, _⟩, hagree⟩ => ?_
    obtain ⟨entity, hfirst, hsecond⟩ := ResultTree.exists_ofRun_of_agree hrun hagree
    refine ⟨_, _, rfl, rfl, ?_, ?_⟩
    · rw [hfirst, hsecond, ResultTree.id_foldl_foldRow, ResultTree.id_foldl_foldRow]
    · rw [hfirst, hsecond]
      exact ResultTree.hasTermAt_foldl_congr hv hroot hagree _
  · intro hanchored
    refine congrArg (List.map Except.ok) ?_
    rw [← List.forall₂_eq_eq_eq, List.forall₂_map_left_iff, List.forall₂_map_right_iff]
    refine hmem.imp fun run other ⟨⟨hrun, hother⟩, hagree⟩ => ?_
    obtain ⟨entity, hfirst, hsecond⟩ := ResultTree.exists_ofRun_of_agree hrun hagree
    rw [hfirst, hsecond]
    refine ResultTree.foldl_foldRow_eq_of_agree hv hroot hagree (fun row hrow => hanchored row ?_) _
    rw [← Row.flatten_runs root rows, ← Row.flatten_runs root others]
    rcases List.mem_append.1 hrow with hrow | hrow
    · exact List.mem_append_left _ (List.mem_flatten.2 ⟨run, hrun, hrow⟩)
    · exact List.mem_append_right _ (List.mem_flatten.2 ⟨other, hother, hrow⟩)

/-- A view of areas, with notes on them that are not shown. -/
def notedView : View :=
  .nested { name := "area", iri := "http://e/area", optional := true }
    (.leaf { name := "note", iri := "http://e/note", hidden := true } .empty) .empty

/-- Notes on an area that the rows name are not to be seen. -/
theorem hidden_values_are_silent_of_notes :
    let row (note : String) : Row :=
      ⟨[("id", .iri "e"), ("area", .iri "a"), ("area_note", .plain note)]⟩
    List.Forall₂ (Row.Agree "id" notedView) [row "x"] [row "y"] ∧
    (∀ r ∈ [row "x"] ++ [row "y"], r.Anchored "id" notedView) ∧
    (all { source := .ofRows [row "x"], view := notedView, root := "id" }).1 =
      (all { source := .ofRows [row "y"], view := notedView, root := "id" }).1 := by
  intro row
  have hagree : List.Forall₂ (Row.Agree "id" notedView) [row "x"] [row "y"] :=
    .cons ⟨by decide, by decide⟩ .nil
  have hanchored : ∀ r ∈ [row "x"] ++ [row "y"], r.Anchored "id" notedView := by decide
  exact ⟨hagree, hanchored, (hidden_values_are_silent (by decide) (by decide) hagree).2 hanchored⟩

/-- **A hidden value may leave a trace**: a note on an area that its row does not name adds an empty tree
for this area. -/
theorem trace_of_hidden_value :
    let noted : Row := ⟨[("id", .iri "e"), ("area_note", .plain "x")]⟩
    let bare : Row := ⟨[("id", .iri "e")]⟩
    notedView.WellFormed ∧ (∀ p ∈ notedView.paths, Path.toVariable "id" p ≠ "id") ∧
    List.Forall₂ (Row.Agree "id" notedView) [noted] [bare] ∧
    (all { source := .ofRows [noted], view := notedView, root := "id" }).1 =
      [.ok { id := some (.iri "e"), entries := [("area", [.tree none false []])] }] ∧
    (all { source := .ofRows [bare], view := notedView, root := "id" }).1 =
      [.ok { id := some (.iri "e"), entries := [] }] := by
  intro noted bare
  refine ⟨by decide, by decide, .cons ⟨by decide, by decide⟩ .nil, ?_, ?_⟩
  · rw [all_ofRows]
    rfl
  · rw [all_ofRows]
    rfl

end ResultStream

end SparqlViews

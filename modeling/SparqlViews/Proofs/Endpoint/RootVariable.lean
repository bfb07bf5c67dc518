import SparqlViews.Endpoint.Catalog
import SparqlViews.Proofs.Query.Rendering
import SparqlViews.Proofs.Result.Coalescing

/-! # The variable of the root among those of a view

The variables of a view are distinct unless the root has the variable of one of its paths, which is
the path that the variable of the root is made of (`nodup_vars_iff`). Queries and endpoints refuse a
view for another reason: an entry at its top is named like the root. The two agree on all views for a
root without an underscore, and for no other (`collision_reported_iff`): an underscore is doubled in
the variable of an entry, and joins the names of a path.

* `encode_singleton_iff`: the names that are their own variables.
* `Endpoint.checkView_eq_collision_iff`: what an endpoint refuses.
-/

namespace SparqlViews

namespace Naming

theorem length_double (name : List Char) :
    (double name).length = name.length + name.count '_' := by
  induction name with
  | nil => rfl
  | cons c name ih =>
    rw [double, List.flatMap_cons, List.length_append, ← double, ih]
    by_cases hc : c = '_'
    · subst hc
      simp only [↓reduceIte, List.length_cons, List.length_nil, List.count_cons_self]
      omega
    · rw [if_neg hc, List.count_cons_of_ne hc]
      simp only [List.length_cons, List.length_nil]
      omega

theorem double_eq_self {name : List Char} (h : '_' ∉ name) : double name = name := by
  induction name with
  | nil => rfl
  | cons c name ih =>
    have hc : c ≠ '_' := fun hc => h (hc ▸ List.mem_cons_self)
    rw [double, List.flatMap_cons, if_neg hc, ← double, ih fun hm => h (List.mem_cons_of_mem _ hm)]
    rfl

theorem encode_singleton_iff {name : String} : encode [name] = name ↔ '_' ∉ name.toList := by
  have hchars : (encode [name]).toList = double name.toList := by
    rw [encode, String.toList_ofList]
    rfl
  constructor
  · intro h
    have hlen := length_double name.toList
    rw [← hchars, h] at hlen
    exact List.count_eq_zero.1 (by omega)
  · intro h
    rw [← String.toList_inj, hchars, double_eq_self h]

end Naming

namespace View

open Naming

variable {v : View} {root : String} {p : Path}

theorem nodup_paths : ∀ {v : View}, v.WellFormed → v.paths.Nodup
  | empty, _ => List.nodup_nil
  | leaf p rest, hv => by
    rw [paths_leaf, List.nodup_cons]
    exact ⟨not_mem_paths_of_name hv.2.1 [], nodup_paths hv.2.2⟩
  | nested p sub rest, hv => by
    rw [paths_nested, List.nodup_cons, List.mem_append, List.mem_map, List.nodup_append']
    refine ⟨?_, ?_, nodup_paths hv.2.2.2, ?_⟩
    · rintro (⟨q, hq, heq⟩ | h)
      · exact ne_nil_of_mem_paths hq (List.cons.inj heq).2
      · exact not_mem_paths_of_name hv.2.1 [] h
    · exact (nodup_paths hv.2.2.1).map fun _ _ heq => (List.cons.inj heq).2
    · intro q hq hrest
      obtain ⟨below, -, rfl⟩ := List.mem_map.1 hq
      exact not_mem_paths_of_name hv.2.1 below hrest

/-- **The path that has the variable of the root** is the one that this is made of. -/
theorem toVariable_eq_root_iff (hv : v.WellFormed) (hp : p ∈ v.paths) :
    Path.toVariable root p = root ↔ p = decode root := by
  have hne := ne_nil_of_mem_paths hp
  rw [Path.toVariable_of_ne_nil hne]
  constructor
  · intro h
    rw [← h, decode_encode hne (legal_of_mem_paths hv hp)]
  · rintro rfl
    exact encode_decode root

theorem exists_toVariable_eq_root_iff (hv : v.WellFormed) :
    (∃ p ∈ v.paths, Path.toVariable root p = root) ↔ decode root ∈ v.paths := by
  constructor
  · rintro ⟨p, hp, h⟩
    rwa [← (toVariable_eq_root_iff hv hp).1 h]
  · exact fun h => ⟨_, h, (toVariable_eq_root_iff hv h).2 rfl⟩

/-- **The variables of a view are distinct unless a path has that of the root.** -/
theorem nodup_vars_iff (hv : v.WellFormed) :
    (v.vars root).Nodup ↔ ¬ ∃ p ∈ v.paths, Path.toVariable root p = root := by
  have hinj : (v.paths.map (Path.toVariable root)).Nodup :=
    (nodup_paths hv).map_on fun _ hp _ hq h => toVariable_inj hv hp hq h
  rw [(perm_vars root v).nodup_iff, List.nodup_cons, List.mem_map]
  exact and_iff_left hinj

theorem decode_eq_singleton_iff (hroot : isShortName root = true) :
    decode root = [root] ↔ '_' ∉ root.toList := by
  rw [← encode_singleton_iff]
  constructor
  · intro h
    rw [← h, encode_decode]
  · intro h
    have hlegal : Legal [root] := by simpa [Legal] using hroot
    have hread := decode_encode (List.cons_ne_nil root []) hlegal
    rwa [h] at hread

end View

theorem Endpoint.checkView_eq_collision_iff {owner root name : String} {s s' : ViewStore} {v : View}
    (h : s.resolve name = (.ok v, s')) :
    checkView owner root s name =
        .error (.malformed (.rootCollision root) (some (.endpoint owner))) ↔
      (v.get? root).isSome := by
  unfold checkView
  rw [h]
  dsimp only
  split <;> simp_all

/-! ### What is refused, and what is not -/

namespace ViewQuery

open Naming

variable {v : View} {root : String}

/-- The plain query over a view with an inner select, which nothing but the root can prevent. -/
def plain (v : View) (root : String) : ViewQuery := { view := v, strategy := .nestedSelect, root }

theorem exists_build_plain (v : View) (root : String) (h : v.get? root = none) :
    ∃ text, (plain v root).build = .ok text := by
  have hfilters : ∀ f ∈ (plain v root).renderedShape.filters, (v.find? f.path).isSome := by
    simp [plain, renderedShape]
  have hsort : ∀ k ∈ (plain v root).renderedShape.sort, (v.find? k.path).isSome := by
    simp [plain, renderedShape]
  obtain ⟨text, htext⟩ := Nested.exists_render root hfilters hsort
  have hrender : (plain v root).render = .ok text := congrArg (Except.mapError QueryError.view) htext
  rw [build_of_no_collision h, hrender]
  exact ⟨_, rfl⟩

/-- **Collisions are reported exactly for roots without an underscore.** For such a root, a query and
an endpoint refuse a view exactly if a path has the variable of the root, and the variables of a query
that is built are distinct, each with its path. For any other root there is a view for which this is
not so. -/
theorem collision_reported_iff (hroot : isShortName root = true) :
    ((∀ v : View, v.WellFormed →
        (∀ q : ViewQuery, q.view = v → q.root = root →
          (q.build = .error (.view (.malformed (.rootCollision root))) ↔
            ∃ p ∈ v.paths, Path.toVariable root p = root)) ∧
        ∀ (owner name : String) (s s' : ViewStore), s.resolve name = (.ok v, s') →
          (Endpoint.checkView owner root s name =
              .error (.malformed (.rootCollision root) (some (.endpoint owner))) ↔
            ∃ p ∈ v.paths, Path.toVariable root p = root)) ↔
      '_' ∉ root.toList) ∧
    ('_' ∉ root.toList → ∀ q : ViewQuery, q.view.WellFormed → q.root = root →
      ∀ text, q.build = .ok text →
        (q.view.vars root).Nodup ∧ root ∉ (q.view.vars root).tail ∧
          ∀ p ∈ q.view.paths, (Path.toVariable root p, p) ∈ q.view.columns root) := by
  have hexact : '_' ∉ root.toList → ∀ v : View, v.WellFormed →
      ((v.get? root).isSome ↔ ∃ p ∈ v.paths, Path.toVariable root p = root) := by
    intro hplain v hv
    rw [View.exists_toVariable_eq_root_iff hv, (View.decode_eq_singleton_iff hroot).2 hplain,
      View.singleton_mem_paths_iff hv, View.get?_isSome]
  refine ⟨⟨fun h => ?_, fun hplain v hv => ⟨?_, ?_⟩⟩, fun hplain q hv hq text hbuild => ?_⟩
  · -- an entry named like the root is refused, whatever variable it has
    let v : View := .leaf { name := root, iri := "" } .empty
    have hv : v.WellFormed := ⟨hroot, List.not_mem_nil, trivial⟩
    have hget : (v.get? root).isSome := by simp [v, View.get?]
    obtain ⟨p, hp, hvar⟩ := ((h v hv).1 (plain v root) rfl rfl).1 (build_of_collision hget)
    have hone : p = [root] := by simpa [v, View.paths, View.pathsUnder] using hp
    rw [← View.decode_eq_singleton_iff hroot, ← hone]
    exact ((View.toVariable_eq_root_iff hv hp).1 hvar).symm
  · rintro q rfl rfl
    rw [build_eq_collision_iff, hexact hplain q.view hv]
  · intro owner name s s' hs
    rw [Endpoint.checkView_eq_collision_iff hs, hexact hplain v hv]
  · have hfree : ¬ ∃ p ∈ q.view.paths, Path.toVariable root p = root := by
      rw [← hexact hplain q.view hv]
      intro hget
      rw [← hq] at hget
      rw [build_of_collision hget] at hbuild
      cases hbuild
    have hnodup := (View.nodup_vars_iff hv).2 hfree
    refine ⟨hnodup, (List.nodup_cons.1 hnodup).1, fun p hp => ?_⟩
    exact (View.mem_columns hv fun p hp h => hfree ⟨p, hp, h⟩).2 ⟨p, hp, rfl⟩

/-- A resource with one further resource nested in it. -/
def pairView : View :=
  .nested { name := "a", iri := "http://e/a" } (.leaf { name := "b", iri := "http://e/b" } .empty)
    .empty

/-- The plain root of a pair has a variable of its own. -/
theorem collision_reported_of_pair :
    (pairView.vars "ab").Nodup ∧ ("a_b", ["a", "b"]) ∈ pairView.columns "ab" := by
  obtain ⟨-, hdistinct⟩ := @collision_reported_iff "ab" (by decide)
  obtain ⟨text, hbuild⟩ := exists_build_plain pairView "ab" rfl
  obtain ⟨hnodup, -, hcolumns⟩ :=
    hdistinct (by decide) (plain pairView "ab") (by decide) rfl text hbuild
  exact ⟨hnodup, hcolumns ["a", "b"] (by decide)⟩

/-- **A nested path may take the variable of the root.** Under the root `a_b` the query over the pair
is built and an endpoint accepts it, though `b` below `a` has that variable: the variables repeat, and
no column holds the path. -/
theorem nested_collision_not_reported :
    isShortName "a_b" = true ∧ pairView.WellFormed ∧
    (["a", "b"] ∈ pairView.paths ∧ Path.toVariable "a_b" ["a", "b"] = "a_b") ∧
    (∃ text, (plain pairView "a_b").build = .ok text) ∧
    (∀ (owner name : String) (s s' : ViewStore), s.resolve name = (.ok pairView, s') →
      Endpoint.checkView owner "a_b" s name = .ok s') ∧
    ¬ (pairView.vars "a_b").Nodup ∧ ["a", "b"] ∉ (pairView.columns "a_b").map (·.2) := by
  refine ⟨by decide, by decide, by decide, exists_build_plain pairView "a_b" rfl, ?_, by decide,
    by decide⟩
  intro owner name s s' hs
  rw [Endpoint.checkView, hs]
  rfl

end ViewQuery

end SparqlViews

import SparqlViews.Term.Prefixes
import SparqlViews.View.Projection

/-! # Named views

A store keeps views under names. A named view is given by itself, refers to another one, or is a
projection of another one, so that names depend on names. Every registration gets a new version. A
resolved view is kept with the versions of all the views it was made from, and is made anew when one
of them has been registered again.

* `register`: refuses what would make a name depend on itself.
* `resolve`: the view of a name, with the store as it is afterwards.
-/

namespace SparqlViews

/-- **What a named view is.** -/
inductive ViewSource where
  | tree (v : View)
  | reference (name : String)
  | projection (source : String) (paths : List Path)
  deriving Repr

/-- The name that a named view depends on. -/
def ViewSource.dependency? : ViewSource → Option String
  | .tree _ => none
  | .reference name => some name
  | .projection source _ => some source

/-- A resolved view, with the versions of the views it was made from. -/
structure Resolved where
  view : View
  versions : List (String × Nat)
  deriving Repr

/-- What a store knows about a name. -/
structure Registration where
  /-- The version that the registration was given, see `ViewStore.nextVersion`. -/
  version : Nat
  source : ViewSource
  /-- The view as it was last resolved. -/
  kept : Option Resolved := none
  deriving Repr

/-- **A store of named views**, with the labels that their documents use. -/
structure ViewStore where
  registrations : Table Registration := ∅
  /-- The version of the next registration. A counter of 64 bits gives the same versions as long as
  fewer than `2 ^ 64` of them are taken. -/
  nextVersion : Nat := 1
  prefixes : Prefixes := ∅

namespace ViewStore

def get? (s : ViewStore) (name : String) : Option Registration := s.registrations.get? name

def contains (s : ViewStore) (name : String) : Bool := (s.get? name).isSome

def version? (s : ViewStore) (name : String) : Option Nat := (s.get? name).map Registration.version

/-- The names, in ascending order. -/
def names (s : ViewStore) : List String := s.registrations.names

/-- The name that a name depends on. -/
def dependency? (s : ViewStore) (name : String) : Option String :=
  (s.get? name).bind fun r => r.source.dependency?

/-! ### Registration -/

/-- The chain of dependencies from `current` meets `name` within a number of steps. -/
def meets (s : ViewStore) (name : String) : Nat → Option String → Bool
  | _, none => false
  | 0, some _ => false
  | steps + 1, some current => current = name || s.meets name steps (s.dependency? current)

/-- **The store with a named view**, and the version it got. A chain of dependencies without a
repetition has at most one name beyond those of the store. -/
def register (s : ViewStore) (name : String) (source : ViewSource) :
    Except ViewError (Nat × ViewStore) :=
  if s.meets name (s.names.length + 1) source.dependency? then .error (.cyclicReference name)
  else .ok (s.nextVersion,
    { s with
      registrations := s.registrations.insert name ⟨s.nextVersion, source, none⟩
      nextVersion := s.nextVersion + 1 })

/-! ### Resolution -/

/-- All views that the resolved one was made from are as they were. -/
def isFresh (s : ViewStore) (r : Resolved) : Bool :=
  r.versions.all fun (name, version) => s.version? name = some version

/-- The store with a resolved view kept. -/
def keep (s : ViewStore) (name : String) (r : Registration) (resolved : Resolved) : ViewStore :=
  { s with registrations := s.registrations.insert name { r with kept := some resolved } }

/-- The names of a store that are not being resolved. -/
def unvisited (s : ViewStore) (visiting : List String) : List String :=
  s.names.filter fun name => !visiting.contains name

theorem unvisited_lt {s : ViewStore} {visiting : List String} {name : String} {r : Registration}
    (hr : s.get? name = some r) (hv : name ∉ visiting) :
    (s.unvisited (name :: visiting)).length < (s.unvisited visiting).length := by
  have hmem : name ∈ s.unvisited visiting := by
    unfold get? Table.get? at hr
    obtain ⟨e, he, -⟩ := Option.map_eq_some_iff.1 hr
    have hname : e.1 = name := by simpa using List.find?_some he
    refine List.mem_filter.2 ⟨?_, by simpa using hv⟩
    exact hname ▸ List.mem_map_of_mem (List.mem_of_find?_eq_some he)
  have hsplit : s.unvisited (name :: visiting) = (s.unvisited visiting).filter (· ≠ name) := by
    simp only [unvisited, List.filter_filter]
    refine List.filter_congr fun x _ => ?_
    by_cases h : x = name <;> simp [h]
  rw [hsplit]
  exact List.length_filter_lt_length_iff_exists.2 ⟨name, hmem, by simp⟩

/-- What a source makes of the view that it depends on. -/
def combine (name : String) (version : Nat) (source : ViewSource) (inner : Resolved) :
    Except ViewError Resolved :=
  let versions := (name, version) :: inner.versions
  match source with
  | .projection target paths =>
    match inner.view.project paths with
    | .ok v => .ok ⟨v, versions⟩
    | .error (.pathNotFound path) =>
      .error (.malformed (.missingPath path) (some (.projection name target)))
    | .error e => .error e
  | _ => .ok ⟨inner.view, versions⟩

/-- The view of a name, while the names of `visiting` are being resolved. -/
def resolveFrom (s : ViewStore) (visiting : List String) (name : String) :
    Except ViewError Resolved × ViewStore :=
  if _hv : name ∈ visiting then (.error (.cyclicReference name), s)
  else
    match _hr : s.get? name with
    | none => (.error (.viewNotFound name), s)
    | some r =>
      match r.kept.filter s.isFresh with
      | some resolved => (.ok resolved, s)
      | none =>
        match r.source with
        | .tree v =>
          let resolved : Resolved := ⟨v, [(name, r.version)]⟩
          (.ok resolved, s.keep name r resolved)
        | .reference target | .projection target _ =>
          match s.resolveFrom (name :: visiting) target with
          | (.error e, s) => (.error e, s)
          | (.ok inner, s) =>
            match combine name r.version r.source inner with
            | .error e => (.error e, s)
            | .ok resolved => (.ok resolved, s.keep name r resolved)
termination_by (s.unvisited visiting).length
decreasing_by all_goals exact unvisited_lt _hr _hv

/-- **The view of a name**, with the store as it is afterwards. -/
def resolve (s : ViewStore) (name : String) : Except ViewError View × ViewStore :=
  (s.resolveFrom [] name).map (fun r => r.map Resolved.view) id

end ViewStore

end SparqlViews

/-! # Tables: finite maps from names, in ascending order

A table holds at most one value under each name, and lists its entries in ascending order of the
names (by code points), whatever the order they came in.

* `insert`: the value under a name, replacing an earlier one; `get?` reads it back.
* `get?_insert`: what a table answers after an insertion.
-/

namespace SparqlViews

/-- **A table**: entries in strictly ascending order of their names. -/
structure Table (α : Type) where
  entries : List (String × α)
  ascending : entries.Pairwise fun a b => a.1 < b.1

namespace Table

variable {α β : Type}

def empty : Table α := ⟨[], .nil⟩

instance : Inhabited (Table α) := ⟨empty⟩

instance : EmptyCollection (Table α) := ⟨empty⟩

/-- The entries with a value placed under a name. -/
def insertInto (name : String) (value : α) : List (String × α) → List (String × α)
  | [] => [(name, value)]
  | e :: rest =>
    if name < e.1 then (name, value) :: e :: rest
    else if name = e.1 then (name, value) :: rest
    else e :: insertInto name value rest

theorem mem_insertInto {name : String} {value : α} {l : List (String × α)} {e : String × α}
    (h : e ∈ insertInto name value l) : e = (name, value) ∨ e ∈ l := by
  induction l with
  | nil => simpa [insertInto] using h
  | cons d rest ih =>
    unfold insertInto at h
    split at h
    · simpa using h
    · split at h
      · rcases List.mem_cons.1 h with h | h
        · exact .inl h
        · exact .inr (List.mem_cons_of_mem _ h)
      · rcases List.mem_cons.1 h with h | h
        · exact .inr (h ▸ List.mem_cons_self)
        · exact (ih h).imp id (List.mem_cons_of_mem _)

theorem ascending_insertInto (name : String) (value : α) {l : List (String × α)}
    (h : l.Pairwise fun a b => a.1 < b.1) :
    (insertInto name value l).Pairwise fun a b => a.1 < b.1 := by
  induction l with
  | nil => simp [insertInto]
  | cons e rest ih =>
    have ⟨he, hrest⟩ := List.pairwise_cons.1 h
    unfold insertInto
    split
    · rename_i hlt
      refine List.pairwise_cons.2 ⟨fun d hd => ?_, h⟩
      rcases List.mem_cons.1 hd with rfl | hd
      · exact hlt
      · exact String.lt_trans hlt (he d hd)
    · split
      · rename_i heq
        exact List.pairwise_cons.2 ⟨fun d hd => heq ▸ he d hd, hrest⟩
      · rename_i hnlt hne
        refine List.pairwise_cons.2 ⟨fun d hd => ?_, ih hrest⟩
        rcases mem_insertInto hd with rfl | hd
        · exact Decidable.byContradiction fun h =>
            hne (String.le_antisymm (String.not_lt.1 h) (String.not_lt.1 hnlt))
        · exact he d hd

/-- The table with a value placed under a name. -/
def insert (t : Table α) (name : String) (value : α) : Table α :=
  ⟨insertInto name value t.entries, ascending_insertInto name value t.ascending⟩

/-- The value under a name. -/
def get? (t : Table α) (name : String) : Option α :=
  (t.entries.find? fun e => e.1 = name).map (·.2)

def contains (t : Table α) (name : String) : Bool := (t.get? name).isSome

def isEmpty (t : Table α) : Bool := t.entries.isEmpty

/-- The names, in ascending order. -/
def names (t : Table α) : List String := t.entries.map (·.1)

/-- The values, in the order of their names. -/
def values (t : Table α) : List α := t.entries.map (·.2)

/-- The table with further entries placed in turn. -/
def insertAll (t : Table α) (entries : List (String × α)) : Table α :=
  entries.foldl (fun t e => t.insert e.1 e.2) t

def ofList (entries : List (String × α)) : Table α := empty.insertAll entries

/-! ### What a table answers -/

@[simp] theorem get?_empty (name : String) : (empty : Table α).get? name = none := rfl

theorem get?_insert (t : Table α) (name other : String) (value : α) :
    (t.insert name value).get? other = if name = other then some value else t.get? other := by
  suffices h : ∀ l : List (String × α),
      (insertInto name value l).find? (fun e => decide (e.1 = other)) =
        if name = other then some (name, value) else l.find? fun e => decide (e.1 = other) by
    unfold get? insert
    rw [h]
    split <;> simp
  intro l
  induction l with
  | nil => by_cases h : name = other <;> simp [insertInto, h]
  | cons e rest ih =>
    unfold insertInto
    split
    · by_cases h : name = other <;> simp [h]
    · split
      · rename_i heq
        by_cases h : name = other
        · simp [h]
        · have : ¬ e.1 = other := fun h' => h (heq.trans h')
          simp [h, this]
      · rename_i hne
        by_cases h : e.1 = other
        · have : ¬ name = other := fun h' => hne (h'.trans h.symm)
          simp [h, this]
        · simp [h, ih]

end Table

end SparqlViews

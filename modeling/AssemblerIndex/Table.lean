/-!
# Finite tables

A table holds one value for each of finitely many names, in the order in which the names were first
entered.  Its view is `find?`: `find?_insert` says what entering a value changes.
-/

namespace AssemblerIndex

/-- Values by name, in order of first entry. -/
structure Table (α : Type) where
  entries : List (String × α) := []
  deriving Repr

namespace Table

variable {α β : Type}

instance : Inhabited (Table α) := ⟨{}⟩

/-- The value of the first entry under a name. -/
def lookup (name : String) : List (String × α) → Option α
  | [] => none
  | (n, a) :: rest => if n = name then some a else lookup name rest

/-- The value entered last under a name. -/
def find? (t : Table α) (name : String) : Option α := lookup name t.entries

/-- Some value was entered under the name. -/
def contains (t : Table α) (name : String) : Bool := (t.find? name).isSome

/-- Entering a value in a list of entries. -/
def insertEntry (name : String) (a : α) : List (String × α) → List (String × α)
  | [] => [(name, a)]
  | (n, b) :: rest => if n = name then (n, a) :: rest else (n, b) :: insertEntry name a rest

/-- Enters a value, in the place of an earlier one under the same name. -/
def insert (t : Table α) (name : String) (a : α) : Table α := ⟨insertEntry name a t.entries⟩

/-- Removes a name and its value. -/
def erase (t : Table α) (name : String) : Table α := ⟨t.entries.filter fun e => e.1 ≠ name⟩

/-- The names in order of first entry. -/
def names (t : Table α) : List String := t.entries.map Prod.fst

/-- The values in order of first entry of their names. -/
def values (t : Table α) : List α := t.entries.map Prod.snd

/-- The table of the last value for each name of a list. -/
def ofList (l : List (String × α)) : Table α := l.foldl (fun t e => t.insert e.1 e.2) {}

/-- Applies a function to every value. -/
def map (f : α → β) (t : Table α) : Table β := ⟨t.entries.map fun e => (e.1, f e.2)⟩

/-- The entries in order of their names. -/
def sorted (t : Table α) : List (String × α) :=
  t.entries.mergeSort fun a b => decide (a.1 ≤ b.1)

theorem lookup_insertEntry (name n : String) (a : α) (l : List (String × α)) :
    lookup n (insertEntry name a l) = if n = name then some a else lookup n l := by
  induction l with
  | nil => simp [insertEntry, lookup, eq_comm]
  | cons e rest ih => grind [insertEntry, lookup]

@[simp] theorem find?_insert (t : Table α) (name n : String) (a : α) :
    (t.insert name a).find? n = if n = name then some a else t.find? n :=
  lookup_insertEntry name n a t.entries

@[simp] theorem find?_empty (n : String) : ({} : Table α).find? n = none := rfl

theorem find?_map (f : α → β) (t : Table α) (n : String) : (t.map f).find? n = (t.find? n).map f := by
  obtain ⟨l⟩ := t
  show lookup n (l.map fun e => (e.1, f e.2)) = (lookup n l).map f
  induction l with
  | nil => rfl
  | cons e rest ih =>
    rw [List.map_cons, lookup, lookup, ih]
    split <;> rfl

theorem lookup_filter_ne (name n : String) (l : List (String × α)) :
    lookup n (l.filter fun e => e.1 ≠ name) = if n = name then none else lookup n l := by
  induction l with
  | nil => simp [lookup]
  | cons e rest ih => grind [lookup]

@[simp] theorem find?_erase (t : Table α) (name n : String) :
    (t.erase name).find? n = if n = name then none else t.find? n :=
  lookup_filter_ne name n t.entries

theorem ofList_concat (l : List (String × α)) (e : String × α) : ofList (l ++ [e]) = (ofList l).insert e.1 e.2 := by
  simp [ofList]

theorem mem_of_lookup {name : String} {a : α} {l : List (String × α)}
    (h : lookup name l = some a) : (name, a) ∈ l := by
  induction l with
  | nil => simp [lookup] at h
  | cons e rest ih => grind [lookup]

theorem mem_values_of_find? {t : Table α} {name : String} {a : α} (h : t.find? name = some a) :
    a ∈ t.values :=
  List.mem_map.2 ⟨_, mem_of_lookup h, rfl⟩

end Table

end AssemblerIndex

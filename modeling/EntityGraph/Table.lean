/-!
Tables keyed by text, as lists of pairs. `put` keeps the order in which keys first arrived and
`insert` keeps the keys ascending; both overwrite the value of a key that is present.
-/
namespace EntityGraph

/-- Pairs of a key and its entry; an operation never produces a key twice. -/
abbrev Table (α : Type) := List (String × α)

namespace Table

variable {α β : Type}

/-- The first entry stored under `key`. -/
def find? (key : String) : Table α → Option α
  | [] => none
  | (k, a) :: rest => if k = key then some a else find? key rest

def contains (key : String) (table : Table α) : Bool := (table.find? key).isSome

def keys (table : Table α) : List String := table.map Prod.fst

/-- A present key keeps its place, a new one goes to the end. -/
def put (key : String) (entry : α) : Table α → Table α
  | [] => [(key, entry)]
  | (k, a) :: rest => if k = key then (key, entry) :: rest else (k, a) :: put key entry rest

/-- On ascending keys the result has ascending keys. -/
def insert (key : String) (entry : α) : Table α → Table α
  | [] => [(key, entry)]
  | (k, a) :: rest =>
    if k = key then (key, entry) :: rest
    else if key < k then (key, entry) :: (k, a) :: rest
    else (k, a) :: insert key entry rest

def ofPairs (pairs : List (String × α)) : Table α :=
  pairs.foldl (fun table pair => table.put pair.1 pair.2) []

def ofPairsSorted (pairs : List (String × α)) : Table α :=
  pairs.foldl (fun table pair => table.insert pair.1 pair.2) []

@[simp] theorem find?_nil (key : String) : find? key ([] : Table α) = none := rfl

@[simp] theorem find?_put_self (key : String) (entry : α) (table : Table α) :
    (table.put key entry).find? key = some entry := by
  induction table with
  | nil => simp [put, find?]
  | cons pair rest ih =>
    obtain ⟨k, a⟩ := pair
    by_cases h : k = key <;> simp [put, find?, h, ih]

theorem find?_put_of_ne {key other : String} (h : other ≠ key) (entry : α) (table : Table α) :
    (table.put key entry).find? other = table.find? other := by
  induction table with
  | nil => simp [put, find?, Ne.symm h]
  | cons pair rest ih =>
    obtain ⟨k, a⟩ := pair
    by_cases hk : k = key
    · subst hk
      simp [put, find?, Ne.symm h]
    · by_cases ho : k = other
      · subst ho
        simp [put, find?, hk]
      · simp [put, find?, hk, ho, ih]

@[simp] theorem find?_insert_self (key : String) (entry : α) (table : Table α) :
    (table.insert key entry).find? key = some entry := by
  induction table with
  | nil => simp [insert, find?]
  | cons pair rest ih =>
    obtain ⟨k, a⟩ := pair
    by_cases h : k = key
    · simp [insert, find?, h]
    · by_cases hlt : key < k <;> simp [insert, find?, h, hlt, ih]

theorem find?_insert_of_ne {key other : String} (h : other ≠ key) (entry : α) (table : Table α) :
    (table.insert key entry).find? other = table.find? other := by
  induction table with
  | nil => simp [insert, find?, Ne.symm h]
  | cons pair rest ih =>
    obtain ⟨k, a⟩ := pair
    by_cases hk : k = key
    · subst hk
      simp [insert, find?, Ne.symm h]
    · by_cases hlt : key < k
      · simp [insert, find?, hk, hlt, Ne.symm h]
      · by_cases ho : k = other
        · subst ho
          simp [insert, find?, hk, hlt]
        · simp [insert, find?, hk, hlt, ho, ih]

end Table

end EntityGraph

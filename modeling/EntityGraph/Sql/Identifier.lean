/-!
Quoted identifiers. A quote inside a name is written twice, and the names of a path are joined by
points.
-/
namespace EntityGraph.Sql

/-- The characters of a name with every quote written twice. -/
def doubleQuotes : List Char → List Char
  | [] => []
  | c :: rest => if c = '"' then '"' :: '"' :: doubleQuotes rest else c :: doubleQuotes rest

def quoted (name : String) : List Char := '"' :: doubleQuotes name.toList ++ ['"']

def quotedPath : List String → List Char
  | [] => []
  | [name] => quoted name
  | name :: rest => quoted name ++ '.' :: quotedPath rest

@[simp] theorem doubleQuotes_append (a b : List Char) :
    doubleQuotes (a ++ b) = doubleQuotes a ++ doubleQuotes b := by
  induction a with
  | nil => rfl
  | cons c rest ih => by_cases h : c = '"' <;> simp [doubleQuotes, h, ih]

theorem quoted_append (name : String) (rest : List Char) :
    quoted name ++ rest = '"' :: (doubleQuotes name.toList ++ '"' :: rest) := by
  simp [quoted]

theorem quotedPath_cons (name : String) {rest : List String} (h : rest ≠ []) :
    quotedPath (name :: rest) = quoted name ++ '.' :: quotedPath rest := by
  cases rest with
  | nil => exact absurd rfl h
  | cons => rfl

end EntityGraph.Sql

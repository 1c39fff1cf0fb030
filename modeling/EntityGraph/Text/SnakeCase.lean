/-!
Snake case of a name. Words are cut out of the runs of ASCII letters and digits: before a capital
behind a small letter, and before the last capital of a row when a small letter follows it. Every
other character only separates.
-/
namespace EntityGraph.Text

/-- What the letters of the current word were last; digits keep it. -/
inductive Case where
  | none
  | lower
  | upper
deriving DecidableEq

def Case.next (case : Case) (c : Char) : Case :=
  if c.isLower then .lower else if c.isUpper then .upper else case

/-- Cuts a run of letters and digits into words; `word` holds the current one backwards. -/
def cutWords (word : List Char) (case : Case) : List Char → List (List Char)
  | [] => if word.isEmpty then [] else [word.reverse]
  | [c] => [(c :: word).reverse]
  | c :: next :: rest =>
    if case.next c = .lower ∧ next.isUpper then
      (c :: word).reverse :: cutWords [] .none (next :: rest)
    else if case = .upper ∧ c.isUpper ∧ next.isLower then
      word.reverse :: cutWords [c] .none (next :: rest)
    else cutWords (c :: word) (case.next c) (next :: rest)

/-- The maximal runs of ASCII letters and digits; `run` holds the current one backwards. -/
def runs (run : List Char) : List Char → List (List Char)
  | [] => if run.isEmpty then [] else [run.reverse]
  | c :: rest =>
    if c.isAlphanum then runs (c :: run) rest
    else if run.isEmpty then runs [] rest
    else run.reverse :: runs [] rest

def words (name : List Char) : List (List Char) := (runs [] name).flatMap (cutWords [] .none)

def snakeCase (name : String) : String :=
  String.ofList (['_'].intercalate ((words name.toList).map (·.map Char.toLower)))

example : snakeCase "viewCount" = "view_count" ∧ snakeCase "HTTPServer2Go" = "http_server2_go" := by
  decide +kernel
example : snakeCase "--x é Y" = "x_y" ∧ snakeCase "é" = "" := by decide +kernel

end EntityGraph.Text

import EntityGraph.Sql.Identifier
import Mathlib.Data.List.Infix
import Mathlib.Tactic
/-!
# Quoted names read back

A quoted name ends at the first quote that no other one follows, a doubled quote in it stands for
one, and a point in front of a quote leads to the next name. Read in this way, a written path gives
back its names, whatever is in them, and the reading stops where the path does: no name can put
anything behind its own closing quote.
-/
namespace EntityGraph.Sql

/-! ### Reading -/

/-- The rest of a name behind its opening quote, and the text behind its closing quote. -/
def readName : List Char → Option (List Char × List Char)
  | [] => none
  | '"' :: '"' :: rest => (readName rest).map fun (name, after) => ('"' :: name, after)
  | c :: rest =>
    if c = '"' then some ([], rest)
    else (readName rest).map fun (name, after) => (c :: name, after)

/-- Nothing is read that is not a written name with its closing quote. -/
lemma eq_doubleQuotes_of_readName {text name rest : List Char}
    (h : readName text = some (name, rest)) : text = doubleQuotes name ++ '"' :: rest := by
  fun_induction readName text generalizing name with
  | case1 => cases h
  | case2 text ih =>
    obtain ⟨⟨name, rest⟩, hread, heq⟩ := Option.map_eq_some_iff.mp h
    cases heq
    simp [doubleQuotes, ih hread]
  | case3 text =>
    cases h
    rfl
  | case4 c text hc hquote ih =>
    obtain ⟨⟨name, rest⟩, hread, heq⟩ := Option.map_eq_some_iff.mp h
    cases heq
    simp [doubleQuotes, hquote, ih hread]

/-- The names of the path that a text begins with, and the text behind them. -/
def readPath (text : List Char) : Option (List String × List Char) :=
  match text with
  | '"' :: rest =>
    match _h : readName rest with
    | none => none
    | some (name, '.' :: '"' :: more) =>
      (readPath ('"' :: more)).map fun (names, after) => (.ofList name :: names, after)
    | some (name, after) => some ([.ofList name], after)
  | _ => some ([], text)
termination_by text.length
decreasing_by
  have hlength := congrArg List.length (eq_doubleQuotes_of_readName _h)
  simp only [List.length_append, List.length_cons] at hlength ⊢
  omega

/-- A text that goes on neither with the name in front of it nor with its path. -/
def EndsPath (rest : List Char) : Prop := ¬ ['"'] <+: rest ∧ ¬ ['.', '"'] <+: rest

instance (rest : List Char) : Decidable (EndsPath rest) := inferInstanceAs (Decidable (_ ∧ _))

/-! ### What is written is read -/

/-- The closing quote is found whatever the name ends with: the quotes of the name come in twos, so
the one that no other follows is the writer's own. -/
lemma readName_doubleQuotes (name : List Char) {rest : List Char} (hrest : ¬ ['"'] <+: rest) :
    readName (doubleQuotes name ++ '"' :: rest) = some (name, rest) := by
  induction name with
  | nil =>
    cases rest with
    | nil => simp [doubleQuotes, readName]
    | cons c rest =>
      have hc : c ≠ '"' := fun hc => hrest (by simp [hc])
      simp [doubleQuotes, readName, hc]
  | cons c name ih =>
    by_cases hc : c = '"'
    · simp [doubleQuotes, readName, hc, ih]
    · simp [doubleQuotes, readName, hc, ih]

lemma exists_quotedPath_eq_cons {names : List String} (h : names ≠ []) :
    ∃ more, quotedPath names = '"' :: more := by
  fun_cases quotedPath names with
  | case1 => exact absurd rfl h
  | case2 name => exact ⟨_, rfl⟩
  | case3 name rest hrest => exact ⟨_, quoted_append name ('.' :: quotedPath rest)⟩

lemma readPath_of_endsPath {rest : List Char} (h : EndsPath rest) :
    readPath rest = some ([], rest) := by
  cases rest with
  | nil => simp [readPath]
  | cons c rest =>
    have hc : c ≠ '"' := fun hc => h.1 (by simp [hc])
    simp [readPath, hc]

/-- The last name of a path is read, and what does not go on with the path is left. -/
lemma readPath_quoted (name : String) {rest : List Char} (h : EndsPath rest) :
    readPath (quoted name ++ rest) = some ([name], rest) := by
  have hread := readName_doubleQuotes name.toList h.1
  rw [quoted_append, readPath]
  split
  case h_1 hnone => simp [hread] at hnone
  case h_2 hpoint =>
    obtain ⟨-, rfl⟩ : _ ∧ rest = _ := by simpa [hread] using hpoint
    exact absurd (by simp) h.2
  case h_3 hends =>
    obtain ⟨rfl, rfl⟩ : name.toList = _ ∧ rest = _ := by simpa [hread] using hends
    simp

/-- A name with a point behind it and a quote behind that is read, and the path goes on. -/
lemma readPath_quoted_point (name : String) (more : List Char) :
    readPath (quoted name ++ '.' :: '"' :: more) =
      (readPath ('"' :: more)).map fun (names, rest) => (name :: names, rest) := by
  have hread : readName (doubleQuotes name.toList ++ '"' :: '.' :: '"' :: more) =
      some (name.toList, '.' :: '"' :: more) := readName_doubleQuotes name.toList (by simp)
  rw [quoted_append, readPath]
  split
  case h_1 hnone => simp [hread] at hnone
  case h_2 hpoint =>
    obtain ⟨rfl, rfl⟩ : name.toList = _ ∧ more = _ := by simpa [hread] using hpoint
    simp
  case h_3 hother hends =>
    obtain ⟨rfl, rfl⟩ : name.toList = _ ∧ '.' :: '"' :: more = _ := by simpa [hread] using hends
    exact absurd rfl (hother _)

lemma readPath_quotedPath (names : List String) {rest : List Char} (h : EndsPath rest) :
    readPath (quotedPath names ++ rest) = some (names, rest) := by
  induction names using quotedPath.induct with
  | case1 => exact readPath_of_endsPath h
  | case2 name => exact readPath_quoted name h
  | case3 name names hnames ih =>
    -- only the quote that the other names begin with tells their point from one of the text behind
    obtain ⟨more, hmore⟩ : ∃ more, quotedPath names = '"' :: more :=
      exists_quotedPath_eq_cons hnames
    calc readPath (quotedPath (name :: names) ++ rest)
        = readPath (quoted name ++ '.' :: '"' :: (more ++ rest)) := by
          simp [quotedPath_cons name hnames, hmore]
      _ = (readPath ('"' :: (more ++ rest))).map fun (names, rest) => (name :: names, rest) :=
          readPath_quoted_point name (more ++ rest)
      _ = (readPath (quotedPath names ++ rest)).map fun (names, rest) => (name :: names, rest) := by
          simp [hmore]
      _ = some (name :: names, rest) := by rw [ih]; rfl

/-! ### What is read is written -/

/-- Behind a quote there is a name, or nothing is read. -/
lemma readPath_quote_ne_nil (text rest : List Char) :
    readPath ('"' :: text) ≠ some ([], rest) := by
  rw [readPath]
  split <;> simp

lemma eq_quotedPath_of_readPath {text rest : List Char} {names : List String}
    (h : readPath text = some (names, rest)) : text = quotedPath names ++ rest := by
  fun_induction readPath text generalizing names with
  | case1 => cases h
  | case2 text name more hread ih =>
    obtain ⟨⟨names, rest⟩, hmore, heq⟩ := Option.map_eq_some_iff.mp h
    cases heq
    have htext := eq_doubleQuotes_of_readName hread
    have hpath := ih hmore
    have hnames : names ≠ [] := fun hnil => readPath_quote_ne_nil more rest (hnil ▸ hmore)
    calc '"' :: text = quoted (.ofList name) ++ '.' :: '"' :: more := by
          simp [quoted_append, htext]
      _ = quotedPath (.ofList name :: names) ++ rest := by
          rw [hpath, quotedPath_cons _ hnames]
          simp
  | case3 text name rest hmore hread =>
    cases h
    rw [eq_doubleQuotes_of_readName hread, quotedPath, quoted_append]
    simp
  | case4 text hquote =>
    cases h
    rfl

/-! ### The two together -/

/-- A text is read as the given names, with the given text left, if and only if it is their path as
it is written with that text behind it. So no two lists of names are written alike, whatever stands
behind them. -/
theorem quotedPath_reads_back (names : List String) {rest : List Char} (h : EndsPath rest) :
    (∀ text, readPath text = some (names, rest) ↔ text = quotedPath names ++ rest) ∧
      (∀ others more, EndsPath more → quotedPath others ++ more = quotedPath names ++ rest →
        others = names ∧ more = rest) ∧
      ∀ others, quotedPath others = quotedPath names → others = names := by
  have hreads := readPath_quotedPath names h
  have hunique : ∀ others more, EndsPath more →
      quotedPath others ++ more = quotedPath names ++ rest → others = names ∧ more = rest := by
    intro others more hmore heq
    have hothers := readPath_quotedPath others hmore
    rw [heq, hreads] at hothers
    cases hothers
    exact ⟨rfl, rfl⟩
  refine ⟨fun text => ⟨eq_quotedPath_of_readPath, ?_⟩, hunique, fun others heq => ?_⟩
  · rintro rfl
    exact hreads
  · exact (hunique others rest h (by rw [heq])).1

/-- Names that begin and end with quotes, are nothing but quotes and points, or are empty. -/
theorem quotedPath_reads_back_quotes :
    EndsPath " AS \"z\"".toList ∧
      readPath (quotedPath ["\"", "\"\"a.\"", "", "\".\""] ++ " AS \"z\"".toList) =
        some (["\"", "\"\"a.\"", "", "\".\""], " AS \"z\"".toList) :=
  ⟨by decide, ((quotedPath_reads_back _ (by decide)).1 _).mpr rfl⟩

end EntityGraph.Sql

import EntityGraph.Proofs.Language.Parsing
import EntityGraph.Proofs.Language.Spelling
import EntityGraph.Proofs.UniqueWhere.Tagging
/-!
# Printing unique wheres

A unique where is printed as its leaves in parentheses, in any order. The text is read as the unique
where that was printed, in every environment: a unique where without empty relations is determined
by its leaves, and the order in which they are assigned makes no difference.
-/
namespace EntityGraph.UniqueWhere

open Language

mutual
/-- The leaves, each with the path to it. -/
def leaves : UniqueWhere → List (List String × Value)
  | ⟨nodes⟩ => nodesLeaves nodes
termination_by structural which => which

def nodesLeaves : List (String × UniqueNode) → List (List String × Value)
  | [] => []
  | (name, .value value) :: rest => ([name], value) :: nodesLeaves rest
  | (name, .relation nested) :: rest =>
    (leaves nested).map (fun leaf => (name :: leaf.1, leaf.2)) ++ nodesLeaves rest
termination_by structural nodes => nodes
end

/-- No relation is empty, at any depth. -/
inductive Grown : UniqueWhere → Prop
  | intro {which : UniqueWhere} (hne : which.nodes ≠ [])
      (hnested : ∀ name nested, (name, .relation nested) ∈ which.nodes → Grown nested) : Grown which

/-- Fields are named by identifiers, and every leaf can be written; no relation is empty. -/
inductive Printable : UniqueWhere → Prop
  | intro {which : UniqueWhere} (hne : which.nodes ≠ [])
      (hnames : ∀ name ∈ which.keys, isIdentifier name.toList)
      (hvalues : ∀ name value, (name, .value value) ∈ which.nodes → (spelling? value).isSome)
      (hnested : ∀ name nested, (name, .relation nested) ∈ which.nodes → Printable nested) :
      Printable which

/-- The token of a value that can be written. -/
def valueLexeme (value : Value) : Lexeme := (spelling? value).getD (.null, [])

def leafText (leaf : List String × Value) : String :=
  ".".intercalate leaf.1 ++ " = " ++ String.ofList (valueLexeme leaf.2).2

/-- Leaves as a text, in the order in which they are listed. -/
def printed (leaves : List (List String × Value)) : String :=
  "(" ++ ", ".intercalate (leaves.map leafText) ++ ")"

variable {which other : UniqueWhere}

lemma Printable.grown (h : which.Printable) : which.Grown := by
  induction h with
  | intro hne _ _ _ ih => exact .intro hne ih

/-! ### A unique where is determined by its leaves -/

lemma valueAt?_singleton {field : String} {value : Value} :
    which.valueAt? [field] = some value ↔ which.get? field = some (.value value) := by
  rw [valueAt?, value?]
  split <;> simp_all

lemma nestedAt_of_get? {field : String} {nested : UniqueWhere}
    (h : which.get? field = some (.relation nested)) : which.nestedAt field = nested := by
  rw [nestedAt, h]

lemma Grown.nested (h : which.Grown) {field : String} {nested : UniqueWhere}
    (hget : which.get? field = some (.relation nested)) : nested.Grown := by
  obtain ⟨-, hnested⟩ := h
  exact hnested field nested (Table.mem_of_find? hget)

lemma Grown.exists_valueAt? (h : which.Grown) :
    ∃ step rest value, which.valueAt? (step :: rest) = some value := by
  induction h with
  | @intro which hne _ ih =>
    obtain ⟨⟨name, node⟩, rest, hnodes⟩ := List.exists_cons_of_ne_nil hne
    have hget : which.get? name = some node := by simp [get?, hnodes, Table.find?]
    cases node with
    | value value => exact ⟨name, [], value, valueAt?_singleton.mpr hget⟩
    | relation nested =>
      obtain ⟨step, path, value, hvalue⟩ := ih name nested (by simp [hnodes])
      refine ⟨name, step :: path, value, ?_⟩
      rwa [valueAt?, nestedAt_of_get? hget]

lemma Grown.isSome_get?_iff (h : which.Grown) {field : String} :
    (which.get? field).isSome ↔ ∃ rest value, which.valueAt? (field :: rest) = some value := by
  constructor
  · intro hsome
    obtain ⟨node, hget⟩ := Option.isSome_iff_exists.mp hsome
    cases node with
    | value value => exact ⟨[], value, valueAt?_singleton.mpr hget⟩
    | relation nested =>
      obtain ⟨step, path, value, hvalue⟩ := (h.nested hget).exists_valueAt?
      refine ⟨step :: path, value, ?_⟩
      rwa [valueAt?, nestedAt_of_get? hget]
  · rintro ⟨rest, value, hvalue⟩
    by_contra hnone
    have hget : which.get? field = empty.get? field := by simpa using hnone
    rw [valueAt?_congr hget, valueAt?_empty] at hvalue
    cases hvalue

/-- Two unique wheres in order, without empty relations, are the same if they have the same
leaves. -/
theorem eq_of_valueAt?_eq (hw : which.Grown) (hwo : which.Ordered) (ho : other.Grown)
    (hoo : other.Ordered) (h : ∀ path, which.valueAt? path = other.valueAt? path) :
    which = other := by
  induction hw generalizing other with
  | @intro which hne hnested ih =>
    have hwhich : which.Grown := .intro hne hnested
    have hsome (field : String) : (which.get? field).isSome ↔ (other.get? field).isSome := by
      rw [hwhich.isSome_get?_iff, ho.isSome_get?_iff]
      exact exists_congr fun rest => by rw [h]
    have hvalue (field : String) (value : Value) :
        which.get? field = some (.value value) ↔ other.get? field = some (.value value) := by
      rw [← valueAt?_singleton, h, valueAt?_singleton]
    have hrelation {field : String} {nested nested' : UniqueWhere}
        (hget : which.get? field = some (.relation nested))
        (hget' : other.get? field = some (.relation nested')) : nested = nested' := by
      have hmem := Table.mem_of_find? hget
      refine ih field nested hmem (hwo.nested hmem) (ho.nested hget')
        (hoo.nested (Table.mem_of_find? hget')) fun path => ?_
      cases path with
      | nil => rfl
      | cons step rest =>
        have hstep := h (field :: step :: rest)
        rwa [valueAt?, valueAt?, nestedAt_of_get? hget, nestedAt_of_get? hget'] at hstep
    have hnodes : which.nodes = other.nodes := by
      refine Table.ext_of_ascending hwo.ascending hoo.ascending fun field => ?_
      change which.get? field = other.get? field
      rcases hget : which.get? field with _ | (value | nested)
      · have hnone : ¬ (other.get? field).isSome := by
          rw [← hsome, hget]
          exact Bool.false_ne_true
        exact (Option.not_isSome_iff_eq_none.mp hnone).symm
      · exact ((hvalue field value).mp hget).symm
      · have hother : (other.get? field).isSome := by
          rw [← hsome, hget]
          rfl
        rcases hget' : other.get? field with _ | (value | nested')
        · simp [hget'] at hother
        · rw [(hvalue field value).mpr hget'] at hget
          cases hget
        · rw [hrelation hget hget']
    cases which
    cases other
    exact congrArg UniqueWhere.mk hnodes

/-! ### Leaves -/

/-- The leaves of a node, under its name. -/
def nodeLeaves : String × UniqueNode → List (List String × Value)
  | (name, .value value) => [([name], value)]
  | (name, .relation nested) => nested.leaves.map fun leaf => (name :: leaf.1, leaf.2)

lemma leaves_eq (which : UniqueWhere) : which.leaves = which.nodes.flatMap nodeLeaves := by
  obtain ⟨nodes⟩ := which
  rw [leaves]
  induction nodes with
  | nil => rfl
  | cons pair rest ih =>
    obtain ⟨name, value | nested⟩ := pair
    · rw [nodesLeaves, ih, List.flatMap_cons]
      rfl
    · rw [nodesLeaves, ih, List.flatMap_cons]
      rfl

lemma mem_leaves_iff {path : List String} {value : Value} :
    (path, value) ∈ which.leaves ↔ ∃ name node, (name, node) ∈ which.nodes ∧
      (path, value) ∈ nodeLeaves (name, node) := by
  simp [leaves_eq]

lemma mem_nodeLeaves_iff {name : String} {node : UniqueNode} {path : List String} {value : Value} :
    (path, value) ∈ nodeLeaves (name, node) ↔
      path = [name] ∧ node = .value value ∨
        ∃ nested inner, node = .relation nested ∧ path = name :: inner ∧
          (inner, value) ∈ nested.leaves := by
  cases node with
  | value found => simp [nodeLeaves, eq_comm]
  | relation nested =>
    simp only [nodeLeaves, List.mem_map, Prod.mk.injEq, reduceCtorEq, and_false, false_or,
      UniqueNode.relation.injEq]
    constructor
    · rintro ⟨⟨inner, found⟩, hmem, rfl, rfl⟩
      exact ⟨nested, inner, rfl, rfl, hmem⟩
    · rintro ⟨_, inner, rfl, rfl, hmem⟩
      exact ⟨_, hmem, rfl, rfl⟩

lemma ne_nil_of_mem_leaves {leaf : List String × Value} (h : leaf ∈ which.leaves) :
    leaf.1 ≠ [] := by
  obtain ⟨path, value⟩ := leaf
  obtain ⟨name, node, -, hleaf⟩ := mem_leaves_iff.mp h
  obtain ⟨rfl, -⟩ | ⟨_, _, -, rfl, -⟩ := mem_nodeLeaves_iff.mp hleaf
  · exact List.cons_ne_nil _ _
  · exact List.cons_ne_nil _ _

/-- A leaf below a name is the value of the name or a leaf of its relation. -/
lemma cons_mem_leaves_iff (h : which.Ordered) {step : String} {rest : List String} {value : Value} :
    (step :: rest, value) ∈ which.leaves ↔
      rest = [] ∧ which.get? step = some (.value value) ∨
        ∃ nested, which.get? step = some (.relation nested) ∧ (rest, value) ∈ nested.leaves := by
  have hget (node : UniqueNode) : which.get? step = some node ↔ (step, node) ∈ which.nodes :=
    Table.find?_eq_some_iff h.ascending.nodup_keys
  rw [mem_leaves_iff]
  constructor
  · rintro ⟨name, node, hmem, hleaf⟩
    obtain ⟨hpath, rfl⟩ | ⟨nested, inner, rfl, hpath, hinner⟩ := mem_nodeLeaves_iff.mp hleaf
    · cases hpath
      exact .inl ⟨rfl, (hget _).mpr hmem⟩
    · cases hpath
      exact .inr ⟨nested, (hget _).mpr hmem, hinner⟩
  · rintro (⟨rfl, hvalue⟩ | ⟨nested, hnested, hinner⟩)
    · exact ⟨step, _, (hget _).mp hvalue, mem_nodeLeaves_iff.mpr (.inl ⟨rfl, rfl⟩)⟩
    · exact ⟨step, _, (hget _).mp hnested,
        mem_nodeLeaves_iff.mpr (.inr ⟨nested, rest, rfl, rfl, hinner⟩)⟩

/-- The leaves are what is found at the paths. -/
lemma mem_leaves_iff_valueAt? (h : which.Ordered) {path : List String} {value : Value} :
    (path, value) ∈ which.leaves ↔ which.valueAt? path = some value := by
  induction path generalizing which with
  | nil =>
    constructor
    · intro hmem
      exact absurd rfl (ne_nil_of_mem_leaves hmem)
    · intro hvalue
      cases hvalue
  | cons step rest ih =>
    rw [cons_mem_leaves_iff h]
    cases rest with
    | nil =>
      rw [valueAt?_singleton]
      constructor
      · rintro (⟨-, hvalue⟩ | ⟨nested, -, hmem⟩)
        · exact hvalue
        · exact absurd rfl (ne_nil_of_mem_leaves hmem)
      · exact fun hvalue => .inl ⟨rfl, hvalue⟩
    | cons next rest =>
      rw [valueAt?]
      constructor
      · rintro (⟨hnil, -⟩ | ⟨nested, hnested, hmem⟩)
        · cases hnil
        · rw [nestedAt_of_get? hnested]
          exact (ih (h.nested (Table.mem_of_find? hnested))).mp hmem
      · intro hvalue
        rcases hfound : which.get? step with _ | (found | nested)
        · rw [nestedAt_of_none hfound, valueAt?_empty] at hvalue
          cases hvalue
        · rw [nestedAt, hfound, valueAt?_empty] at hvalue
          cases hvalue
        · rw [nestedAt_of_get? hfound] at hvalue
          exact .inr ⟨nested, rfl, (ih (h.nested (Table.mem_of_find? hfound))).mpr hvalue⟩

lemma leaves_ne_nil (hw : which.Grown) (h : which.Ordered) : which.leaves ≠ [] := by
  obtain ⟨step, rest, value, hvalue⟩ := hw.exists_valueAt?
  exact List.ne_nil_of_mem ((mem_leaves_iff_valueAt? h).mpr hvalue)

/-- No leaf stands at the path of another one, or below it. -/
lemma pairwise_leaves (hw : which.Grown) (h : which.Ordered) :
    which.leaves.Pairwise fun leaf other => Incomparable leaf.1 other.1 := by
  induction hw with
  | @intro which _ _ ih =>
    rw [leaves_eq, List.pairwise_flatMap]
    constructor
    · rintro ⟨name, value | nested⟩ hmem
      · exact List.pairwise_singleton _ _
      · refine List.pairwise_map.mpr ((ih name nested hmem (h.nested hmem)).imp fun hleaf => ?_)
        exact incomparable_cons.mpr hleaf
    · have hnames : which.nodes.Pairwise fun pair other => pair.1 ≠ other.1 :=
        List.pairwise_map.mp h.ascending.nodup_keys
      refine hnames.imp fun {pair other} hne => ?_
      rintro ⟨path, value⟩ hleaf ⟨path', value'⟩ hleaf'
      obtain ⟨name, node⟩ := pair
      obtain ⟨name', node'⟩ := other
      have hpath : ∃ inner, path = name :: inner := by
        obtain ⟨rfl, -⟩ | ⟨_, inner, -, rfl, -⟩ := mem_nodeLeaves_iff.mp hleaf
        · exact ⟨[], rfl⟩
        · exact ⟨inner, rfl⟩
      have hpath' : ∃ inner, path' = name' :: inner := by
        obtain ⟨rfl, -⟩ | ⟨_, inner, -, rfl, -⟩ := mem_nodeLeaves_iff.mp hleaf'
        · exact ⟨[], rfl⟩
        · exact ⟨inner, rfl⟩
      obtain ⟨inner, rfl⟩ := hpath
      obtain ⟨inner', rfl⟩ := hpath'
      exact incomparable_of_ne hne inner inner'

/-! ### Assigning in any order -/

lemma graft_grown {path : List String} (hpath : path ≠ [])
    (h : ∀ name nested, (name, .relation nested) ∈ which.nodes → nested.Grown) (value : Value) :
    (which.graft value path).Grown := by
  induction path generalizing which with
  | nil => exact absurd rfl hpath
  | cons step rest ih =>
    have hne {node : UniqueNode} : Table.insert step node which.nodes ≠ [] := by
      intro hnil
      have hfind := Table.find?_insert_self step node which.nodes
      rw [hnil] at hfind
      cases hfind
    cases rest with
    | nil =>
      refine .intro hne fun name nested hmem => ?_
      rcases Table.mem_insert hmem with heq | hmem
      · cases heq
      · exact h name nested hmem
    | cons next rest =>
      have hnested : ((which.nestedAt step).graft value (next :: rest)).Grown := by
        refine ih (List.cons_ne_nil _ _) fun name nested hmem => ?_
        unfold nestedAt at hmem
        split at hmem
        · rename_i inner hget
          obtain ⟨-, hinner⟩ := h step inner (Table.mem_of_find? hget)
          exact hinner name nested hmem
        · cases hmem
      refine .intro hne fun name nested hmem => ?_
      rcases Table.mem_insert hmem with heq | hmem
      · cases heq
        exact hnested
      · exact h name nested hmem

lemma grown_ofLeaves {leaves : List (List String × Value)} (hne : leaves ≠ [])
    (hpaths : ∀ leaf ∈ leaves, leaf.1 ≠ []) : (ofLeaves leaves).Grown := by
  have hfold (which : UniqueWhere) (h : which.Grown) (leaves : List (List String × Value))
      (hpaths : ∀ leaf ∈ leaves, leaf.1 ≠ []) :
      (leaves.foldl (fun which leaf => which.graft leaf.2 leaf.1) which).Grown := by
    induction leaves generalizing which with
    | nil => exact h
    | cons leaf rest ih =>
      obtain ⟨hleaf, hrest⟩ := List.forall_mem_cons.mp hpaths
      obtain ⟨-, hnested⟩ := h
      exact ih _ (graft_grown hleaf hnested leaf.2) hrest
  obtain ⟨leaf, rest, rfl⟩ := List.exists_cons_of_ne_nil hne
  obtain ⟨hleaf, hrest⟩ := List.forall_mem_cons.mp hpaths
  exact hfold _ (graft_grown hleaf (by simp [empty]) leaf.2) rest hrest

/-- The leaves of a unique where, assigned in any order, make it up again. -/
theorem ofLeaves_eq_of_perm (hw : which.Grown) (h : which.Ordered)
    {listed : List (List String × Value)} (hperm : listed.Perm which.leaves) :
    (listed.Pairwise fun leaf other => Incomparable leaf.1 other.1) ∧ ofLeaves listed = which := by
  have hpairwise : listed.Pairwise fun leaf other => Incomparable leaf.1 other.1 :=
    (pairwise_leaves hw h).perm hperm.symm Incomparable.symm
  have hpaths : ∀ leaf ∈ listed, leaf.1 ≠ [] := fun leaf hmem =>
    ne_nil_of_mem_leaves (hperm.subset hmem)
  have hne : listed ≠ [] := by
    rintro rfl
    exact leaves_ne_nil hw h hperm.nil_eq.symm
  refine ⟨hpairwise, eq_of_valueAt?_eq (grown_ofLeaves hne hpaths) (ordered_ofLeaves listed) hw h
    fun path => Option.ext fun value => ?_⟩
  rw [valueAt?_ofLeaves_iff hpaths hpairwise, ← mem_leaves_iff_valueAt? h, hperm.mem_iff]

/-! ### Reading what was printed -/

/-- A leaf that can be written. -/
def LeafPrintable (leaf : List String × Value) : Prop :=
  leaf.1 ≠ [] ∧ (∀ name ∈ leaf.1, isIdentifier name.toList) ∧ (spelling? leaf.2).isSome

lemma Printable.leaf (h : which.Printable) {leaf : List String × Value}
    (hmem : leaf ∈ which.leaves) :
    LeafPrintable leaf := by
  refine ⟨ne_nil_of_mem_leaves hmem, ?_⟩
  induction h generalizing leaf with
  | @intro which _ hnames hvalues _ ih =>
    obtain ⟨path, value⟩ := leaf
    obtain ⟨name, node, hnode, hleaf⟩ := mem_leaves_iff.mp hmem
    have hname : isIdentifier name.toList := hnames name (List.mem_map.mpr ⟨_, hnode, rfl⟩)
    obtain ⟨rfl, rfl⟩ | ⟨nested, inner, rfl, rfl, hinner⟩ := mem_nodeLeaves_iff.mp hleaf
    · exact ⟨by simpa using hname, hvalues name value hnode⟩
    · obtain ⟨hinnerNames, hvalue⟩ := ih name nested hnode hinner
      exact ⟨List.forall_mem_cons.mpr ⟨hname, hinnerNames⟩, hvalue⟩

def fieldLexeme (name : String) : Lexeme := (.identifier, name.toList)

/-- The lexemes of a path. -/
def pathLexemes : List String → List Lexeme
  | [] => []
  | first :: others =>
    fieldLexeme first :: others.flatMap fun name => [(.dot, ['.']), fieldLexeme name]

def leafLexemes (leaf : List String × Value) : List Lexeme :=
  pathLexemes leaf.1 ++ [(.equals, ['=']), valueLexeme leaf.2]

/-- A mark is a token of its own, whatever follows it. -/
lemma isLexeme_mark {kind : TokenKind} {c : Char} (hblank : Text.isBlank c = false)
    (h : ∀ rest, lexeme? c rest = some (kind, 0)) : IsLexeme (kind, [c]) :=
  .intro hblank fun rest _ => h rest

section

variable {leaf : List String × Value} {others : List (List String × Value)}

lemma LeafPrintable.spelling? (h : LeafPrintable leaf) :
    spelling? leaf.2 = some (valueLexeme leaf.2) := by
  obtain ⟨-, -, hvalue⟩ := h
  obtain ⟨lexeme, hlexeme⟩ := Option.isSome_iff_exists.mp hvalue
  rw [valueLexeme, hlexeme]
  rfl

lemma cuts_path {path : List String} (hne : path ≠ [])
    (h : ∀ name ∈ path, isIdentifier name.toList) :
    Cuts (Ends .identifier) (".".intercalate path).toList (pathLexemes path) := by
  obtain ⟨first, rest, rfl⟩ := List.exists_cons_of_ne_nil hne
  rw [String.toList_intercalate]
  have hdot : Cuts (fun _ => True) ['.'] [(.dot, ['.'])] :=
    (Cuts.lexeme (isLexeme_mark (by decide) fun _ => rfl)).mono fun rest _ => by
      cases rest <;> simp [goesOn]
  have hfields : ∀ name ∈ first :: rest, Cuts (Ends .identifier) name.toList [fieldLexeme name] :=
    fun name hname => Cuts.lexeme (isLexeme_of_isIdentifier (h name hname))
  exact Cuts.separated hdot (by simp [goesOn, isWordChar]) hfields

/-- Every token ends in front of the text. -/
def Stops (text : List Char) : Prop := ∀ kind, Ends kind text

lemma cuts_leaf (h : LeafPrintable leaf) :
    Cuts Stops (leafText leaf).toList (leafLexemes leaf) := by
  have hvalue : Cuts Stops (valueLexeme leaf.2).2 [valueLexeme leaf.2] :=
    (Cuts.lexeme (isLexeme_of_spelling? h.spelling?)).mono fun _ hstops => hstops _
  obtain ⟨hne, hnames, -⟩ := h
  have hblank : Cuts (fun _ => True) [' '] [] := Cuts.blank (by decide)
  have hequals : Cuts (Ends .equals) ['='] [(.equals, ['='])] :=
    Cuts.lexeme (isLexeme_mark (by decide) fun _ => rfl)
  have hbehind := hequals.append (hblank.append hvalue fun _ _ => trivial) fun rest _ => by
    simp [goesOn]
  have hall := (cuts_path hne hnames).append (hblank.append hbehind fun _ _ => trivial)
    fun rest _ => by simp [goesOn, isWordChar]
  simpa [leafText, leafLexemes] using hall

/-- The lexemes of leaves, in parentheses. -/
def printedLexemes (leaf : List String × Value) (others : List (List String × Value)) :
    List Lexeme :=
  let inner := leafLexemes leaf ++ others.flatMap fun other => (.comma, [',']) :: leafLexemes other
  (.leftParenthesis, ['(']) :: (inner ++ [(.rightParenthesis, [')'])])

lemma cutInto_printed (h : ∀ other ∈ leaf :: others, LeafPrintable other) :
    CutInto (printed (leaf :: others)).toList (printedLexemes leaf others) := by
  have hcomma : Cuts (fun _ => True) [',', ' '] [(.comma, [','])] :=
    (Cuts.lexeme (isLexeme_mark (by decide) fun _ => rfl)).append (Cuts.blank (by decide))
      fun rest _ => by simp [goesOn]
  have hends : ∀ rest, Stops ([',', ' '] ++ rest) := fun rest kind => by
    cases kind <;> simp [goesOn, isWordChar]
  have hleaves := Cuts.separated hcomma hends fun other hother => cuts_leaf (h other hother)
  have hopening : Cuts (Ends .leftParenthesis) ['('] [(.leftParenthesis, ['('])] :=
    Cuts.lexeme (isLexeme_mark (by decide) fun _ => rfl)
  have hclosing : CutInto [')'] [(.rightParenthesis, [')'])] :=
    CutInto.cons (isLexeme_mark (by decide) fun _ => rfl) (ends_nil _) .nil
  have hstops : Stops [')'] := fun kind => by cases kind <;> simp [goesOn, isWordChar]
  have hbehind := hleaves _ _ hstops hclosing
  have hall := hopening _ _ (by simp [Ends, goesOn]) hbehind
  have htext : (printed (leaf :: others)).toList = ['('] ++ ([',', ' '].intercalate
      ((leaf :: others).map fun leaf => (leafText leaf).toList) ++ [')']) := by
    simp [printed, Function.comp_def]
  rw [htext]
  simpa [printedLexemes] using hall

lemma takes_leaf (env : Environment) (h : LeafPrintable leaf) :
    Takes (env.LeafPhrase · leaf ·) (leafLexemes leaf) := by
  obtain ⟨path, value⟩ := leaf
  have hvalue := Takes.primary env h.spelling?
  obtain ⟨hne, -, -⟩ := h
  obtain ⟨first, rest, rfl⟩ := List.exists_cons_of_ne_nil hne
  have hpath : Takes (env.FieldPathPhrase · (first :: rest) ·) (pathLexemes (first :: rest)) := by
    have hfields : Takes (Phrase.Separated .dot env.FieldPhrase · (first, rest) ·)
        (pathLexemes (first :: rest)) :=
      Takes.separated fun name _ => Takes.word.mono fun _ _ h => by
        rw [String.ofList_toList] at h
        exact .written h
    exact hfields.mono fun _ _ => .intro
  exact hpath.append (Takes.after hvalue) fun _ _ _ hpath h => by
    obtain ⟨hkind, hvalue⟩ := h
    exact .intro hpath hkind hvalue

lemma takes_printed (env : Environment) (h : ∀ other ∈ leaf :: others, LeafPrintable other) :
    Takes (Phrase.Enclosed .leftParenthesis .rightParenthesis
      (Phrase.Separated .comma env.LeafPhrase) · (leaf, others) ·) (printedLexemes leaf others) :=
  Takes.enclosed (Takes.separated fun other hother => takes_leaf env (h other hother))

/-- The printed leaves of a unique where, in any order, are read as the unique where. -/
theorem parse_printed (hordered : which.Ordered) (h : which.Printable)
    {listed : List (List String × Value)} (hperm : listed.Perm which.leaves) (env : Environment) :
    parse env .uniqueWhere (printed listed) = .ok which := by
  obtain ⟨hpaths, hwhich⟩ := ofLeaves_eq_of_perm h.grown hordered hperm
  have hne : listed ≠ [] := by
    rintro rfl
    exact leaves_ne_nil h.grown hordered hperm.nil_eq.symm
  obtain ⟨leaf, others, rfl⟩ := List.exists_cons_of_ne_nil hne
  have hprintable : ∀ other ∈ leaf :: others, LeafPrintable other := fun other hmem =>
    h.leaf (hperm.subset hmem)
  obtain ⟨hmatched, htokens⟩ := cutInto_printed hprintable
  have hread := takes_printed env hprintable _ [] htokens
  rw [List.append_nil] at hread
  have hderives := Environment.UniqueWherePhrase.intro hread hpaths
  rw [hwhich] at hderives
  exact (parse_eq_ok_iff ..).mpr ⟨hmatched, hderives⟩

end

/-- The leaves are listed in another order than that of the fields. -/
theorem parse_printed_author :
    let which : UniqueWhere := ⟨[("author", .relation ⟨[("name", .value (.string "O'Hara"))]⟩),
      ("number", .value (.ofInt (-12))), ("state", .value (.literal "Open"))]⟩
    let listed : List (List String × Value) := [(["state"], .literal "Open"),
      (["author", "name"], .string "O'Hara"), (["number"], .ofInt (-12))]
    which.Ordered ∧ which.Printable ∧ listed.Perm which.leaves ∧
      printed listed = "(state = Open, author.name = 'O\\'Hara', number = -12)" ∧
      parse .empty .uniqueWhere (printed listed) = .ok which := by
  intro which listed
  have hordered : which.Ordered := by
    have houter : Table.Ascending which.nodes := by
      unfold Table.Ascending
      decide
    exact ⟨houter, ⟨List.pairwise_singleton _ _, trivial⟩, trivial⟩
  have hprintable : which.Printable := by
    refine .intro (List.cons_ne_nil _ _) (by decide) ?_ ?_
    · simp only [which, List.mem_cons, Prod.mk.injEq, UniqueNode.value.injEq, reduceCtorEq,
        and_false, false_or, or_false, List.not_mem_nil]
      rintro _ _ (⟨rfl, rfl⟩ | ⟨rfl, rfl⟩) <;> decide
    · simp only [which, List.mem_cons, Prod.mk.injEq, UniqueNode.relation.injEq, reduceCtorEq,
        and_false, or_false, List.not_mem_nil]
      rintro _ _ ⟨rfl, rfl⟩
      exact .intro (List.cons_ne_nil _ _) (by decide) (by simp [spelling?]) (by simp)
  have hperm : listed.Perm which.leaves :=
    .trans (.swap _ _ _) (.cons _ (.swap _ _ _))
  have hprinted : printed listed = "(state = Open, author.name = 'O\\'Hara', number = -12)" := by
    with_unfolding_all rfl
  exact ⟨hordered, hprintable, hperm, hprinted, parse_printed hordered hprintable hperm .empty⟩

end EntityGraph.UniqueWhere

import EntityGraph.Proofs.Sql.Assignment
/-!
# Written conditions read back

Conditions are written without a view to precedence: what is joined or negated stands in
parentheses, and an atom stands alone. So every written condition is read at the level of a
negation, at which it may stand beside `AND`, beside `OR` and, in parentheses, behind `NOT`.
-/
namespace EntityGraph.Sql

/-- The placeholders behind `count` others stand for the values in turn. -/
def Binds (bound : Nat → Value) : Nat → List Value → Prop
  | _, [] => True
  | count, value :: rest => bound (count + 1) = value ∧ Binds bound (count + 1) rest

lemma binds_append {bound : Nat → Value} {count : Nat} {values others : List Value} :
    Binds bound count (values ++ others) ↔
      Binds bound count values ∧ Binds bound (count + values.length) others := by
  induction values generalizing count with
  | nil => simp [Binds]
  | cons value rest ih => simp [Binds, ih, and_assoc, Nat.add_assoc, Nat.add_comm 1]

/-! ### Levels of the grammar -/

/-- The tokens and the truth of the derivations of one kind. -/
structure Level (α : Type) where
  tokens : α → List Token
  truth : α → ∀ {Place : Type}, Assignment Place → (Nat → Value) → Place → Truth

namespace Level

def disjunction : Level Disjunction :=
  ⟨Disjunction.tokens, fun parsed _ assignment bound => parsed.truth assignment bound⟩

def conjunction : Level Conjunction :=
  ⟨Conjunction.tokens, fun parsed _ assignment bound => parsed.truth assignment bound⟩

def negation : Level Negation :=
  ⟨Negation.tokens, fun parsed _ assignment bound => parsed.truth assignment bound⟩

def primary : Level Primary :=
  ⟨Primary.tokens, fun parsed _ assignment bound => parsed.truth assignment bound⟩

variable {α β : Type} {count : Nat} {pieces : List Piece} {tree : ConditionTree} {expr : Expr}

/-- The pieces are written as a derivation of the level with the truth of the tree. -/
def Reads (level : Level α) (count : Nat) (pieces : List Piece) (tree : ConditionTree) : Prop :=
  ∃ parsed, Writes count pieces (level.tokens parsed) ∧
    ∀ bound, Binds bound count (pieceParams pieces) →
      ∀ {Place : Type} (assignment : Assignment Place) (place : Place),
        level.truth parsed assignment bound place = tree.truth assignment place

lemma Reads.toNegation (h : primary.Reads count pieces tree) :
    negation.Reads count pieces tree := by
  obtain ⟨parsed, hwrites, htruth⟩ := h
  exact ⟨.one parsed, hwrites, htruth⟩

lemma Reads.toConjunction (h : negation.Reads count pieces tree) :
    conjunction.Reads count pieces tree := by
  obtain ⟨parsed, hwrites, htruth⟩ := h
  exact ⟨.one parsed, hwrites, htruth⟩

lemma Reads.toDisjunction (h : conjunction.Reads count pieces tree) :
    disjunction.Reads count pieces tree := by
  obtain ⟨parsed, hwrites, htruth⟩ := h
  exact ⟨.one parsed, hwrites, htruth⟩

lemma Reads.grouped (h : disjunction.Reads count pieces tree) :
    primary.Reads count (parenthesized pieces) tree := by
  obtain ⟨parsed, hwrites, htruth⟩ := h
  refine ⟨.group parsed, hwrites.parenthesized, fun bound hbound => htruth bound ?_⟩
  rwa [pieceParams_parenthesized] at hbound

lemma Reads.negated (h : negation.Reads count expr.pieces (.single expr)) :
    negation.Reads count (ConditionTree.not expr).pieces (.not expr) := by
  obtain ⟨parsed, hwrites, htruth⟩ := h.toConjunction.toDisjunction.grouped
  have hnot : Opens "NOT ".toList [.word "NOT"] := fun _ => rfl
  refine ⟨.not (.one parsed), hwrites.opened hnot, fun bound hbound _ assignment place => ?_⟩
  exact congrArg Truth.not (htruth bound hbound assignment place)

/-! ### Operands in a row -/

/-- How a level is put together from operands between separators, and what the tree of the operands
is. -/
structure Joining (item : Level α) (list : Level β) (separator : String)
    (joined : List Expr → ConditionTree) where
  one : α → β
  more : α → β → β
  word : Token
  join : Truth → Truth → Truth
  cuts : Cuts separator
  opens : Opens separator.toList [word]
  tokens_one (parsed : α) : list.tokens (one parsed) = item.tokens parsed
  tokens_more (parsed : α) (rest : β) :
    list.tokens (more parsed rest) = item.tokens parsed ++ word :: list.tokens rest
  truth_one (parsed : α) {Place : Type} (assignment : Assignment Place) (bound : Nat → Value)
    (place : Place) :
    list.truth (one parsed) assignment bound place = item.truth parsed assignment bound place
  truth_more (parsed : α) (rest : β) {Place : Type} (assignment : Assignment Place)
    (bound : Nat → Value) (place : Place) :
    list.truth (more parsed rest) assignment bound place =
      join (item.truth parsed assignment bound place) (list.truth rest assignment bound place)
  joined_one (tree : ConditionTree) {Place : Type} (assignment : Assignment Place) (place : Place) :
    (joined [.condition tree]).truth assignment place = tree.truth assignment place
  joined_more (tree : ConditionTree) (rest : List Expr) {Place : Type}
    (assignment : Assignment Place) (place : Place) :
    (joined (.condition tree :: rest)).truth assignment place =
      join (tree.truth assignment place) ((joined rest).truth assignment place)

def joiningOr : Joining conjunction disjunction " OR " .or where
  one := .one
  more := .or
  word := .word "OR"
  join := .or
  cuts := rfl
  opens _ := rfl
  tokens_one _ := rfl
  tokens_more _ _ := rfl
  truth_one _ _ _ _ _ := rfl
  truth_more _ _ _ _ _ _ := rfl
  joined_one tree _ assignment place := Truth.or_fails (tree.truth assignment place)
  joined_more _ _ _ _ _ := rfl

def joiningAnd : Joining negation conjunction " AND " .and where
  one := .one
  more := .and
  word := .word "AND"
  join := .and
  cuts := rfl
  opens _ := rfl
  tokens_one _ := rfl
  tokens_more _ _ := rfl
  truth_one _ _ _ _ _ := rfl
  truth_more _ _ _ _ _ _ := rfl
  joined_one tree _ assignment place := Truth.and_holds (tree.truth assignment place)
  joined_more _ _ _ _ _ := rfl

/-- Operands that are read one by one are read together between their separators. -/
lemma Joining.reads {item : Level α} {list : Level β} {separator : String}
    {joined : List Expr → ConditionTree} (joining : Joining item list separator joined)
    (first : ConditionTree) (rest : List ConditionTree)
    (h : ∀ tree ∈ first :: rest, ∀ count, item.Reads count tree.pieces tree) (count : Nat) :
    list.Reads count (separated separator ((first :: rest).map ConditionTree.pieces))
      (joined ((first :: rest).map .condition)) := by
  induction rest generalizing first count with
  | nil =>
    obtain ⟨parsed, hwrites, htruth⟩ := h first List.mem_cons_self count
    refine ⟨joining.one parsed, ?_, fun bound hbound _ assignment place => ?_⟩
    · rwa [joining.tokens_one]
    · rw [joining.truth_one, htruth bound hbound]
      exact (joining.joined_one first assignment place).symm
  | cons second rest ih =>
    obtain ⟨parsed, hwrites, htruth⟩ := h first List.mem_cons_self count
    obtain ⟨further, hwrites', htruth'⟩ := ih second
      (fun tree htree => h tree (List.mem_cons_of_mem first htree))
      (count + (pieceParams first.pieces).length)
    refine ⟨joining.more parsed further, ?_, fun bound hbound _ assignment place => ?_⟩
    · rw [joining.tokens_more]
      exact hwrites.append joining.cuts (hwrites'.opened joining.opens)
    · have hparts := binds_append.mp (pieceParams_append first.pieces _ ▸ hbound)
      rw [joining.truth_more, htruth bound hparts.1, htruth' bound hparts.2]
      exact (joining.joined_more first _ assignment place).symm

/-! ### Atoms -/

lemma opens_word_in : Opens " IN ".toList [.word "IN"] := fun _ => rfl

/-- A name in front of a text that ends it. -/
lemma writes_name_append (name : String) {text : String} {following : List Piece}
    {tokens : List Token} (h : Writes count (.text text :: following) tokens) (hcuts : Cuts text) :
    Writes count (.name [name] :: .text text :: following) (.name name :: tokens) :=
  (writes_name count name).append hcuts h

lemma reads_compare (count : Nat) (name : String) (comparison : Comparison) (value : Value) :
    primary.Reads count
      (Expr.binary (.compare comparison) (.column (column name)) (.param value)).pieces
      (.single (.binary (.compare comparison) (.column (column name)) (.param value))) := by
  have hoperator : Cuts (Operator.compare comparison).text ∧
      Opens (Operator.compare comparison).text.toList [.operator comparison.symbol] := by
    cases comparison <;> exact ⟨rfl, fun _ => rfl⟩
  refine ⟨.compare (.column name) comparison (.placeholder (count + 1)), ?_, ?_⟩
  · exact writes_name_append name ((writes_param count value).opened hoperator.2) hoperator.1
  · rintro bound ⟨rfl, -⟩ Place assignment place
    rfl

lemma reads_isNull (count : Nat) (name : String) :
    primary.Reads count (Expr.isNull (.column (column name))).pieces
      (.single (.isNull (.column (column name)))) := by
  have hlex (rest : List Char) : tokenize (" IS NULL".toList ++ rest) =
      [.word "IS"] ++ (Pending.word "NULL".toList).lex rest := rfl
  have hnull : Writes count [.text " IS NULL"] [.word "IS", .word "NULL"] :=
    writes_text (spells_of_lex id hlex)
  exact ⟨.isNull (.column name), writes_name_append name hnull rfl, fun _ _ _ _ _ => rfl⟩

lemma reads_constant (count : Nat) {tree : ConditionTree} (holds : Bool)
    (h : ∀ {Place : Type} (assignment : Assignment Place) (place : Place),
      tree.truth assignment place = .ofBool holds) :
    primary.Reads count [.text (if holds then "1=1" else "1=0")] tree := by
  refine ⟨.constant holds, writes_text ?_, fun _ _ _ assignment place => (h assignment place).symm⟩
  cases holds with
  | true =>
    have hlex (rest : List Char) : tokenize ("1=1".toList ++ rest) =
      [.word "1", .operator "="] ++ (Pending.word "1".toList).lex rest := rfl
    exact spells_of_lex id hlex
  | false =>
    have hlex (rest : List Char) : tokenize ("1=0".toList ++ rest) =
      [.word "1", .operator "="] ++ (Pending.word "0".toList).lex rest := rfl
    exact spells_of_lex id hlex

/-! ### Lists of values -/

/-- The placeholders of values behind `count` others. -/
def placeholders : Nat → List Value → List Operand
  | _, [] => []
  | count, _ :: rest => .placeholder (count + 1) :: placeholders (count + 1) rest

lemma map_term_placeholders {bound : Nat → Value} {values : List Value}
    (h : Binds bound count values) :
    (placeholders count values).map (Operand.term bound) = values.map .value := by
  induction values generalizing count with
  | nil => rfl
  | cons value rest ih =>
    rw [placeholders, List.map_cons, ih h.2, Operand.term, h.1, List.map_cons]

lemma writes_params (count : Nat) (first : Value) (rest : List Value) :
    Writes count (separated "," ((first :: rest).map fun value => [.param value]))
      (.placeholder (count + 1) :: furtherTokens (placeholders (count + 1) rest)) := by
  induction rest generalizing first count with
  | nil => exact writes_param count first
  | cons second rest ih =>
    have hcomma : Opens ",".toList [.symbol ','] := fun rest => Pending.lex_symbol ',' rest
    have hrest := (ih (count + 1) second).opened hcomma
    exact (writes_param count first).append rfl hrest

lemma pieces_params (values : List Value) : (Expr.params values).pieces =
    parenthesized (separated "," (values.map fun value => [.param value])) := by
  rw [Expr.params, Expr.row, Expr.ofKind, Expr.pieces, ExprKind.pieces, exprPieces_eq_map,
    List.map_map, namePieces, List.append_nil]
  rfl

/-- A membership is written out unless it is a membership in nothing. -/
lemma pieces_isIn (name : String) {right : Expr} (h : right.asRow? ≠ some []) :
    (Expr.isIn (.column (column name)) right).pieces =
      .name [name] :: .text " IN " :: right.pieces := by
  rw [Expr.isIn, Expr.binary, Expr.ofKind, Expr.pieces, ExprKind.pieces, namePieces,
    List.append_nil]
  split
  · contradiction
  · rfl

lemma mapM_term?_params (values : List Value) :
    (values.map Expr.param).mapM Expr.term? = some (values.map .value) := by
  induction values with
  | nil => rfl
  | cons value rest ih => simp [ih, Expr.term?, Expr.param, Expr.ofKind]

lemma truth_isIn_params (name : String) (values : List Value) {Place : Type}
    (assignment : Assignment Place) (place : Place) :
    (Expr.isIn (.column (column name)) (.params values)).truth assignment place =
      assignment.isIn place (.column (column name)) (values.map .value) := by
  have hitems := congrArg (assignment.listTest place (some (.column (column name))))
    (mapM_term?_params values)
  exact hitems

lemma reads_isIn (count : Nat) (name : String) (values : List Value) :
    primary.Reads count (Expr.isIn (.column (column name)) (.params values)).pieces
      (.single (.isIn (.column (column name)) (.params values))) := by
  cases values with
  | nil =>
    refine reads_constant count false fun assignment place => ?_
    rw [ConditionTree.truth, truth_isIn_params, List.map_nil, assignment.isIn_nil]
    rfl
  | cons first rest =>
    refine ⟨.isIn (.column name) (.placeholder (count + 1)) (placeholders (count + 1) rest), ?_, ?_⟩
    · have hrow : (Expr.params (first :: rest)).asRow? ≠ some [] := by
        simp [Expr.asRow?, Expr.params, Expr.row, Expr.ofKind]
      rw [pieces_isIn name hrow, pieces_params]
      exact writes_name_append name
        ((writes_params count first rest).parenthesized.opened opens_word_in) rfl
    · intro bound hbound Place assignment place
      rw [Expr.isIn, pieceParams_binary_column, pieceParams_params] at hbound
      rw [ConditionTree.truth, truth_isIn_params, ← map_term_placeholders hbound]
      rfl

end Level

/-! ### Conditions of filters -/

/-- The selection of one column of the rows of a table under a condition. -/
def keysUnder (table selected : String) (tree : ConditionTree) : Select :=
  ⟨[.column (column selected)], [Sql.table table], some tree, [], none, none⟩

/-- Comparisons of a column. -/
inductive Atomic : Expr → Prop
  | compare (name : String) (comparison : Comparison) (value : Value) :
      Atomic (.binary (.compare comparison) (.column (column name)) (.param value))
  | isNull (name : String) : Atomic (.isNull (.column (column name)))
  | isIn (name : String) (values : List Value) :
      Atomic (.isIn (.column (column name)) (.params values))

/-- Conditions put together from comparisons of columns and memberships in selections. -/
inductive Basic : ConditionTree → Prop
  | and {trees : List ConditionTree} (h : ∀ tree ∈ trees, Basic tree) :
      Basic (.and (trees.map .condition))
  | or {trees : List ConditionTree} (h : ∀ tree ∈ trees, Basic tree) :
      Basic (.or (trees.map .condition))
  | negation {tree : ConditionTree} (h : Basic tree) : Basic tree.negation
  | single {expr : Expr} (h : Atomic expr) : Basic (.single expr)
  | not {expr : Expr} (h : Atomic expr) : Basic (.not expr)
  | member (name table selected : String) {tree : ConditionTree} (h : Basic tree) :
      Basic (.single (.isIn (.column (column name)) (.select (keysUnder table selected tree))))
  | always : Basic .always
  | never : Basic .never

variable {tree : ConditionTree}

lemma Atomic.reads {expr : Expr} (h : Atomic expr) (count : Nat) :
    Level.primary.Reads count expr.pieces (.single expr) := by
  cases h with
  | compare name comparison value => exact Level.reads_compare count name comparison value
  | isNull name => exact Level.reads_isNull count name
  | isIn name values => exact Level.reads_isIn count name values

mutual
lemma Expr.pieces_ne_nil (expr : Expr) : expr.pieces ≠ [] := by
  obtain ⟨kind, asName⟩ := expr
  simp [Expr.pieces, kind.pieces_ne_nil]
termination_by structural expr

lemma ExprKind.pieces_ne_nil (kind : ExprKind) : kind.pieces ≠ [] := by
  cases kind with
  | column column =>
    obtain ⟨name, _ | table, asName⟩ := column <;> simp [ExprKind.pieces, ColumnRef.pieces]
  | condition tree => exact tree.pieces_ne_nil
  | binary operator left right =>
    rw [ExprKind.pieces]
    split <;> simp
  | asterisk table => cases table <;> simp [ExprKind.pieces]
  | _ => simp [ExprKind.pieces, parenthesized]
termination_by structural kind

lemma ConditionTree.pieces_ne_nil (tree : ConditionTree) : tree.pieces ≠ [] := by
  cases tree with
  | and operands | or operands =>
    rw [ConditionTree.pieces, conjunction]
    split <;> simp [parenthesized]
  | single operand => exact operand.pieces_ne_nil
  | _ => simp [ConditionTree.pieces]
termination_by structural tree
end

/-- A condition is never written as nothing, so a selection under it has a `WHERE`. -/
lemma pieces_keysUnder (table selected : String) (tree : ConditionTree) :
    (Expr.select (keysUnder table selected tree)).pieces = parenthesized
      (.text "SELECT " :: .name [selected] :: .text " FROM " :: .name [table] ::
        .text " WHERE " :: tree.pieces) := by
  simp [Expr.select, Expr.ofKind, Expr.pieces, ExprKind.pieces, keysUnder, Select.pieces,
    exprPieces, separated, conditionPieces, orderingPieces, clause, countClause, namePieces,
    TableRef.pieces, ColumnRef.pieces, column, Sql.table, tree.pieces_ne_nil]

namespace Level

lemma reads_joined {α β : Type} {item : Level α} {list : Level β} {separator : String}
    {joined : List Expr → ConditionTree} (joining : Joining item list separator joined)
    (holds : Bool) (hnone : ∀ {Place : Type} (assignment : Assignment Place) (place : Place),
      (joined []).truth assignment place = .ofBool holds)
    (hlist : ∀ {count pieces tree}, list.Reads count pieces tree →
      disjunction.Reads count pieces tree)
    {trees : List ConditionTree}
    (h : ∀ tree ∈ trees, ∀ count, item.Reads count tree.pieces tree) (count : Nat) :
    primary.Reads count (Sql.conjunction separator (if holds then "1=1" else "1=0")
      (exprPieces (trees.map .condition))) (joined (trees.map .condition)) := by
  cases trees with
  | nil => exact reads_constant count holds hnone
  | cons first rest =>
    have hpieces : exprPieces ((first :: rest).map .condition) =
        (first :: rest).map ConditionTree.pieces := by
      simp [exprPieces_eq_map]
    rw [hpieces]
    exact (hlist (joining.reads first rest h count)).grouped

lemma reads_member (name table selected : String)
    (h : ∀ count, negation.Reads count tree.pieces tree) (count : Nat) :
    primary.Reads count
      (Expr.isIn (.column (column name)) (.select (keysUnder table selected tree))).pieces
      (.single (.isIn (.column (column name)) (.select (keysUnder table selected tree)))) := by
  obtain ⟨parsed, hwrites, htruth⟩ := (h count).toConjunction.toDisjunction
  have hselect : Opens "SELECT ".toList [.word "SELECT"] := fun _ => rfl
  have hfrom : Opens " FROM ".toList [.word "FROM"] := fun _ => rfl
  have hwhere : Opens " WHERE ".toList [.word "WHERE"] := fun _ => rfl
  have htable := (writes_name_append table (hwrites.opened hwhere) rfl).opened hfrom
  have hkeys := ((writes_name_append selected htable rfl).opened hselect).parenthesized
  have hrow : (Expr.select (keysUnder table selected tree)).asRow? ≠ some [] := by
    simp [Expr.asRow?, Expr.select, Expr.ofKind]
  rw [pieces_isIn name hrow, pieces_keysUnder table selected tree]
  refine ⟨.member (.column name) selected table parsed,
    writes_name_append name (hkeys.opened opens_word_in) rfl,
    fun bound hbound Place assignment place => ?_⟩
  have hinner := htruth bound (by simpa using hbound) assignment
  exact congrArg (assignment.member place (.column (column name)) (.column (column selected))
    (Sql.table table)) (funext hinner)

end Level

/-- Every written condition is a negation of the grammar with its truth. -/
theorem Basic.reads (h : Basic tree) (count : Nat) :
    Level.negation.Reads count tree.pieces tree := by
  -- On the way in which the condition is put together, behind any number of parameters.
  induction h generalizing count with
  | and h ih =>
    exact (Level.reads_joined Level.joiningAnd true (fun _ _ => rfl) .toDisjunction ih
      count).toNegation
  | or h ih =>
    exact (Level.reads_joined Level.joiningOr false (fun _ _ => rfl) id
      (fun tree htree count => (ih tree htree count).toConjunction) count).toNegation
  | @negation tree h ih =>
    refine Level.Reads.negated ?_
    rw [Expr.pieces_condition]
    exact ih count
  | single h => exact (h.reads count).toNegation
  | not h => exact (h.reads count).toNegation.negated
  | member name table selected h ih =>
    exact (Level.reads_member name table selected ih count).toNegation
  | always => exact (Level.reads_constant count true fun _ _ => rfl).toNegation
  | never => exact (Level.reads_constant count false fun _ _ => rfl).toNegation

/-- The tokens of a written condition have one derivation, which has the truth of the condition. -/
theorem Basic.exists_parsed (h : Basic tree) (count : Nat) :
    ∃ parsed : Disjunction,
      (∀ other : Disjunction,
        other.tokens = tokenize (pieceChars count tree.pieces) ↔ other = parsed) ∧
      ∀ bound, Binds bound count (pieceParams tree.pieces) →
        ∀ {Place : Type} (assignment : Assignment Place) (place : Place),
          parsed.truth assignment bound place = tree.truth assignment place := by
  obtain ⟨parsed, hwrites, htruth⟩ := (h.reads count).toConjunction.toDisjunction
  have htokens : tokenize (pieceChars count tree.pieces) = parsed.tokens := by
    have hend := hwrites [] (by simp [Breaks])
    rwa [List.append_nil, show tokenize [] = [] from rfl, List.append_nil] at hend
  refine ⟨parsed, fun other => ?_, htruth⟩
  rw [htokens]
  refine ⟨fun hsame => ?_, fun heq => heq ▸ rfl⟩
  have happend : other.tokens ++ [] = parsed.tokens ++ [] := congrArg (· ++ []) hsame
  exact (other.eq_of_append parsed (by simp) (by simp) happend).1

/-! ### On the rows of a database -/

section

variable {store : Store} {scope : Scope} {truth : Truth}

lemma selected_eq_some {truth? : Row → Option Truth} {truth : Row → Truth} {rows kept : List Row}
    (htruth : ∀ row value, truth? row = some value → truth row = value)
    (h : selected truth? rows = some kept) :
    kept = rows.filter fun row => truth row = .holds := by
  induction rows generalizing kept with
  | nil => exact (Option.some.inj h).symm
  | cons row rest ih =>
    obtain ⟨value, hvalue, h⟩ := Option.bind_eq_some_iff.mp h
    obtain ⟨others, hothers, h⟩ := Option.bind_eq_some_iff.mp h
    cases h
    rw [List.filter_cons, htruth row value hvalue, ih hothers]
    by_cases hholds : value = .holds <;> simp [hholds]

lemma mapM_value?_values (values : List Value) :
    values.mapM (Term.value? scope ∘ Term.value) = some values := by
  induction values with
  | nil => rfl
  | cons value rest ih => simp [ih, Term.value?]

lemma Atomic.truth_eq {expr : Expr} (h : Atomic expr)
    (htruth : expr.truth? store scope = some truth) :
    expr.truth (.ofStore store) scope = truth := by
  cases h with
  | compare name comparison value =>
    obtain ⟨found, hfound, htruth⟩ := Option.bind_eq_some_iff.mp htruth
    cases htruth
    have hcolumn : (column name).value? scope = some found := hfound
    change (Assignment.ofStore store).compare scope (.column (column name)) comparison
      (.value value) = _
    simp [Assignment.ofStore, Term.value?, hcolumn]
  | isNull name =>
    obtain ⟨found, hfound, htruth⟩ := Option.bind_eq_some_iff.mp htruth
    cases htruth
    have hcolumn : (column name).value? scope = some found := hfound
    change (Assignment.ofStore store).isNull scope (.column (column name)) = _
    simp [Assignment.ofStore, Term.value?, hcolumn]
  | isIn name values =>
    obtain ⟨found, hfound, htruth⟩ := Option.bind_eq_some_iff.mp htruth
    rw [values?_params] at htruth
    cases htruth
    have hcolumn : (column name).value? scope = some found := hfound
    rw [Level.truth_isIn_params]
    simp [Assignment.ofStore, mapM_value?_values, Term.value?, hcolumn]

lemma exprTruths_eq {trees : List ConditionTree} {truths : List Truth}
    (h : ∀ tree ∈ trees, ∀ {scope truth}, tree.truth? store scope = some truth →
      tree.truth (.ofStore store) scope = truth)
    (htruths : exprTruths? store (trees.map .condition) scope = some truths) :
    exprTruths (.ofStore store) (trees.map .condition) scope = truths := by
  induction trees generalizing truths with
  | nil => exact Option.some.inj htruths
  | cons tree rest ih =>
    rw [List.forall_mem_cons] at h
    obtain ⟨truth, htruth, htruths⟩ := Option.bind_eq_some_iff.mp htruths
    obtain ⟨others, hothers, htruths⟩ := Option.bind_eq_some_iff.mp htruths
    cases htruths
    exact congrArg₂ List.cons (h.1 htruth) (ih h.2 hothers)

/-- A condition that has a truth value on the rows of a database has it under their assignment. -/
theorem Basic.truth_eq (h : Basic tree) {scope : Scope} {truth : Truth}
    (htruth : tree.truth? store scope = some truth) :
    tree.truth (.ofStore store) scope = truth := by
  induction h generalizing scope truth with
  | and h ih | or h ih =>
    obtain ⟨truths, htruths, rfl⟩ := Option.map_eq_some_iff.mp htruth
    rw [ConditionTree.truth, exprTruths_eq ih htruths]
  | negation h ih =>
    obtain ⟨inner, hinner, rfl⟩ := Option.map_eq_some_iff.mp htruth
    exact congrArg Truth.not (ih hinner)
  | single h => exact h.truth_eq htruth
  | not h =>
    obtain ⟨inner, hinner, rfl⟩ := Option.map_eq_some_iff.mp htruth
    exact congrArg Truth.not (h.truth_eq hinner)
  | @member name table selected tree h ih =>
    obtain ⟨found, hfound, htruth⟩ := Option.bind_eq_some_iff.mp htruth
    obtain ⟨values, hvalues, htruth⟩ := Option.bind_eq_some_iff.mp htruth
    obtain ⟨rows, hrows, hvalues⟩ := Option.bind_eq_some_iff.mp hvalues
    cases htruth
    have hcolumn : (column name).value? scope = some found := hfound
    have hkept : rows = (store.rows table).filter fun row =>
        tree.truth (.ofStore store) ((table, row) :: scope) = .holds :=
      selected_eq_some (fun row value hvalue => ih hvalue) hrows
    have hselected : (rows.mapM fun row =>
        Term.value? ((table, row) :: scope) (.column (column selected))) = some values := hvalues
    change ((do some (memberTest (← (column name).value? scope)
      (← ((store.rows table).filter fun row => tree.truth (.ofStore store) ((table, row) :: scope) =
        .holds).mapM fun row => Term.value? ((table, row) :: scope) (.column (column selected)))) :
          Option Truth)).getD .unknown = _
    rw [hcolumn, ← hkept, hselected]
    rfl
  | always => exact Option.some.inj htruth
  | never => exact Option.some.inj htruth

end

end EntityGraph.Sql

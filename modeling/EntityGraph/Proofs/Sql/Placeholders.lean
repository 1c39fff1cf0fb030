import EntityGraph.Proofs.Sql.Tokens
import EntityGraph.Proofs.Sql.Values
/-!
# Placeholders and parameters

A statement is written from left to right with one counter of its parameters. Unless a query brings
text of its own along, the placeholders of a statement are `$1`, `$2` and so on, each once and in
this order, and as many as there are parameters.
-/
namespace EntityGraph.Sql

def Token.number? : Token → Option Nat
  | placeholder n => some n
  | _ => none

/-- The numbers of the placeholders among tokens. -/
def numbersOf (tokens : List Token) : List Nat := tokens.filterMap Token.number?

@[simp] lemma numbersOf_append (tokens others : List Token) :
    numbersOf (tokens ++ others) = numbersOf tokens ++ numbersOf others := List.filterMap_append

/-! ### Text without placeholders -/

/-- The character begins neither a name nor a placeholder. -/
def isPlain (c : Char) : Bool := c ≠ '"' && c ≠ '$'

namespace Pending

/-- Neither a name nor a placeholder. -/
def IsPlain : Pending → Prop
  | nothing | word _ | operator _ | symbol _ => True
  | placeholder _ | quoted _ | closed _ => False

variable {pending longer : Pending} {c : Char}

lemma IsPlain.not_isOpen (h : pending.IsPlain) : ¬ pending.IsOpen := by
  cases pending with
  | quoted => exact h.elim
  | _ => exact id

lemma IsPlain.numbersOf_tokens (h : pending.IsPlain) : numbersOf pending.tokens = [] := by
  cases pending with
  | placeholder | quoted | closed => exact h.elim
  | _ => rfl

lemma isPlain_ofChar (h : isPlain c) : (ofChar c).IsPlain := by
  obtain ⟨hquote, hdollar⟩ : c ≠ '"' ∧ c ≠ '$' := by simpa [isPlain] using h
  unfold ofChar
  rw [if_neg hquote, if_neg hdollar]
  split_ifs <;> trivial

lemma IsPlain.extend? (h : pending.IsPlain) (hlonger : pending.extend? c = some longer) :
    longer.IsPlain := by
  cases pending with
  | placeholder | quoted | closed => exact h.elim
  | nothing | symbol => cases hlonger
  | word | operator =>
    rw [Pending.extend?] at hlonger
    split at hlonger
    · cases hlonger
      trivial
    · cases hlonger

/-- Plain text goes on with what was begun and begins something else, but no placeholder. -/
lemma IsPlain.exists_lex (h : pending.IsPlain) {chars : List Char}
    (hchars : ∀ c ∈ chars, isPlain c) :
    ∃ (tokens : List Token) (last : Pending), last.IsPlain ∧ numbersOf tokens = [] ∧
      ∀ rest, pending.lex (chars ++ rest) = tokens ++ last.lex rest := by
  induction chars generalizing pending with
  | nil => exact ⟨[], pending, h, rfl, fun _ => rfl⟩
  | cons c chars ih =>
    rw [List.forall_mem_cons] at hchars
    cases hextend : pending.extend? c with
    | some longer =>
      obtain ⟨tokens, last, hlast, hnumbers, hlex⟩ := ih (h.extend? hextend) hchars.2
      refine ⟨tokens, last, hlast, hnumbers, fun rest => ?_⟩
      rw [List.cons_append, lex, hextend]
      exact hlex rest
    | none =>
      obtain ⟨tokens, last, hlast, hnumbers, hlex⟩ := ih (isPlain_ofChar hchars.1) hchars.2
      refine ⟨pending.tokens ++ tokens, last, hlast, ?_, fun rest => ?_⟩
      · rw [numbersOf_append, h.numbersOf_tokens, hnumbers, List.append_nil]
      · rw [List.cons_append, lex, hextend, List.append_assoc, ← hlex]

end Pending

/-- A character that is read by itself, whatever surrounds it. -/
def isLone (c : Char) : Bool := c = ' ' || c = '(' || c = ','

/-- Text without placeholders, behind which something else is read by itself. -/
def Introduces (text : String) : Prop :=
  text.toList.all isPlain && text.toList.getLast?.any isLone

section Text

variable {text : String} {chars : List Char} {c : Char}

lemma exists_spells_of_plain (h : ∀ c ∈ chars, isPlain c) :
    ∃ tokens, Spells chars tokens ∧ numbersOf tokens = [] := by
  obtain ⟨tokens, last, hlast, hnumbers, hlex⟩ :=
    Pending.IsPlain.exists_lex (show Pending.nothing.IsPlain from trivial) h
  refine ⟨tokens ++ last.tokens, spells_of_lex hlast.not_isOpen hlex, ?_⟩
  rw [numbersOf_append, hnumbers, hlast.numbersOf_tokens, List.append_nil]

lemma Pending.IsPlain.extend?_eq_none {pending : Pending} (h : pending.IsPlain) (hc : isLone c) :
    pending.extend? c = none := by
  obtain (rfl | rfl) | rfl : (c = ' ' ∨ c = '(') ∨ c = ',' := by simpa [isLone] using hc
  all_goals
    cases pending with
    | placeholder | quoted | closed => exact h.elim
    | _ => rfl

lemma exists_tokenize_lone (h : isLone c) :
    ∃ tokens, numbersOf tokens = [] ∧ ∀ rest, (Pending.ofChar c).lex rest =
      tokens ++ tokenize rest := by
  obtain (rfl | rfl) | rfl : (c = ' ' ∨ c = '(') ∨ c = ',' := by simpa [isLone] using h
  · exact ⟨[], rfl, fun _ => rfl⟩
  · exact ⟨[.symbol '('], rfl, Pending.lex_symbol '('⟩
  · exact ⟨[.symbol ','], rfl, Pending.lex_symbol ','⟩

lemma Introduces.exists_opens (h : Introduces text) :
    ∃ tokens, Opens text.toList tokens ∧ numbersOf tokens = [] := by
  obtain ⟨hplain, hlone⟩ := Bool.and_eq_true_iff.mp h
  cases hlast : text.toList.getLast? with
  | none => simp [hlast] at hlone
  | some c =>
    have hc : isLone c := by simpa [hlast] using hlone
    obtain ⟨chars, htext⟩ := List.getLast?_eq_some_iff.mp hlast
    rw [htext, List.all_eq_true] at hplain
    obtain ⟨tokens, last, hlast, hnumbers, hlex⟩ := Pending.IsPlain.exists_lex
      (show Pending.nothing.IsPlain from trivial)
      fun c hmem => hplain c (List.mem_append_left _ hmem)
    obtain ⟨others, hothers, hlone⟩ := exists_tokenize_lone hc
    refine ⟨tokens ++ (last.tokens ++ others), fun rest => ?_, ?_⟩
    · have htokens : tokenize (chars ++ c :: rest) = tokens ++ last.lex (c :: rest) := hlex _
      rw [htext, List.append_assoc, List.singleton_append, htokens, Pending.lex,
        hlast.extend?_eq_none hc, hlone]
      simp
    · rw [numbersOf_append, numbersOf_append, hnumbers, hlast.numbersOf_tokens, hothers]
      rfl

end Text

/-! ### Pieces in order -/

/-- Behind any number of others, the placeholders of the pieces are those of their parameters, in
order. -/
def Counted (pieces : List Piece) : Prop := ∀ count, ∃ tokens, Writes count pieces tokens ∧
  numbersOf tokens = List.range' (count + 1) (pieceParams pieces).length

/-- The pieces stand behind a token, which does not go on in them. -/
def Follows (pieces : List Piece) : Prop :=
  ∀ count rest, Breaks rest → Breaks (pieceChars count pieces ++ rest)

section Pieces

variable {text : String} {pieces others : List Piece}

lemma follows_nil : Follows [] := fun _ _ hrest => hrest

lemma follows_text (text : String) (h : Cuts text) (rest : List Piece) :
    Follows (.text text :: rest) := by
  intro count more _
  rw [Cuts] at h
  cases htext : text.toList with
  | nil => simp [htext] at h
  | cons c tail => simpa [Breaks, pieceChars, htext] using h

lemma follows_clause (text : String) (h : Cuts text) (pieces : List Piece) :
    Follows (clause text pieces) := by
  rw [clause]
  split
  · exact follows_nil
  · exact follows_text text h _

lemma follows_namePieces (name : Option String) : Follows (namePieces name) := by
  cases name with
  | none => exact follows_nil
  | some name => exact follows_text " AS " rfl _

lemma Follows.append (h : Follows pieces) (hothers : Follows others) :
    Follows (pieces ++ others) := by
  intro count rest hrest
  rw [pieceChars_append, List.append_assoc]
  exact h _ _ (hothers _ _ hrest)

lemma counted_nil : Counted [] := fun count => ⟨[], writes_nil count, rfl⟩

lemma counted_text (h : text.toList.all isPlain) : Counted [.text text] := fun count => by
  obtain ⟨tokens, hspells, hnumbers⟩ := exists_spells_of_plain (List.all_eq_true.mp h)
  exact ⟨tokens, writes_text hspells, hnumbers⟩

lemma counted_param (value : Value) : Counted [.param value] := fun count =>
  ⟨[.placeholder (count + 1)], writes_param count value, rfl⟩

lemma Counted.append (h : Counted pieces) (hfollows : Follows others) (hothers : Counted others) :
    Counted (pieces ++ others) := by
  intro count
  obtain ⟨tokens, hwrites, hnumbers⟩ := h count
  obtain ⟨more, hmore, hafter⟩ := hothers (count + (pieceParams pieces).length)
  refine ⟨tokens ++ more, ?_, ?_⟩
  · rw [Writes, pieceChars_append]
    exact Spells.append hwrites (hfollows _) hmore
  · rw [numbersOf_append, hnumbers, hafter, pieceParams_append, List.length_append,
      Nat.add_right_comm, List.range'_append_1]

lemma Counted.introduced (h : Counted pieces) (text : String) (hintroduces : Introduces text) :
    Counted (.text text :: pieces) := by
  intro count
  obtain ⟨tokens, hopens, hnone⟩ := hintroduces.exists_opens
  obtain ⟨more, hmore, hnumbers⟩ := h count
  refine ⟨tokens ++ more, hopens.append hmore, ?_⟩
  rw [numbersOf_append, hnone, hnumbers]
  rfl

lemma Counted.parenthesized (h : Counted pieces) : Counted (parenthesized pieces) := by
  have hclosed := h.append (follows_text ")" rfl []) (counted_text rfl)
  exact hclosed.introduced "(" rfl

lemma Counted.clause (h : Counted pieces) (keyword : String) (hkeyword : Introduces keyword) :
    Counted (clause keyword pieces) := by
  rw [Sql.clause]
  split
  · exact counted_nil
  · exact h.introduced keyword hkeyword

lemma counted_separated (separator : String) (hcuts : Cuts separator)
    (hintroduces : Introduces separator) {items : List (List Piece)}
    (h : ∀ item ∈ items, Counted item) : Counted (separated separator items) := by
  induction items using separated.induct with
  | case1 => exact counted_nil
  | case2 item => exact h item List.mem_cons_self
  | case3 item rest hrest ih =>
    rw [List.forall_mem_cons] at h
    have hrest : Counted (.text separator :: separated separator rest) :=
      (ih h.2).introduced separator hintroduces
    cases rest with
    | nil => exact absurd rfl ‹_›
    | cons next others => exact h.1.append (follows_text separator hcuts _) hrest

/-- A point behind a name is read by itself. -/
lemma tokenize_quoted_point (name : String) (rest : List Char) :
    tokenize (quoted name ++ '.' :: rest) = .name name :: .symbol '.' :: tokenize rest := by
  rw [quoted_append]
  have hpoint : tokenize ('.' :: rest) = .symbol '.' :: tokenize rest :=
    Pending.lex_symbol '.' rest
  have hclosed : (Pending.closed name.toList).lex ('.' :: rest) =
      (Pending.closed name.toList).tokens ++ tokenize ('.' :: rest) :=
    Pending.lex_of_extend?_eq_none fun c hc => by
      cases hc
      rfl
  refine (Pending.lex_doubleQuotes [] name.toList).trans (hclosed.trans ?_)
  rw [hpoint, Pending.tokens, String.ofList_toList]
  rfl

/-- The parts of a name are joined by points, and hold no placeholders. -/
lemma exists_spells_quotedPath (path : List String) :
    ∃ tokens, Spells (quotedPath path) tokens ∧ numbersOf tokens = [] := by
  induction path using quotedPath.induct with
  | case1 => exact ⟨[], fun _ _ => rfl, rfl⟩
  | case2 name => exact ⟨[.name name], spells_quoted name, rfl⟩
  | case3 name rest hrest ih =>
    obtain ⟨tokens, hspells, hnumbers⟩ := ih
    refine ⟨.name name :: .symbol '.' :: tokens, fun more hmore => ?_, hnumbers⟩
    rw [quotedPath_cons name hrest, List.append_assoc, List.cons_append, tokenize_quoted_point,
      hspells more hmore]
    rfl

lemma counted_name (path : List String) : Counted [.name path] := fun count => by
  obtain ⟨tokens, hspells, hnumbers⟩ := exists_spells_quotedPath path
  refine ⟨tokens, ?_, hnumbers⟩
  simpa [Writes, pieceChars] using hspells

lemma counted_namePieces (name : Option String) : Counted (namePieces name) := by
  cases name with
  | none => exact counted_nil
  | some name => exact (counted_name [name]).introduced " AS " rfl

lemma counted_named (path : List String) (name : Option String) :
    Counted (.name path :: namePieces name) :=
  (counted_name path).append (follows_namePieces name) (counted_namePieces name)

lemma TableRef.counted (table : TableRef) : Counted table.pieces :=
  counted_named [table.name] table.asName

lemma ColumnRef.counted (column : ColumnRef) : Counted column.pieces := by
  unfold ColumnRef.pieces
  split <;> exact counted_named _ _

/-- All columns of a table. -/
lemma counted_asterisk (name : String) : Counted [.name [name], .text ".*"] := by
  intro count
  refine ⟨[.name name, .symbol '.', .symbol '*'], fun rest _ => ?_, rfl⟩
  have hchars : pieceChars count [.name [name], .text ".*"] ++ rest =
      quoted name ++ '.' :: '*' :: rest := by
    simp [pieceChars, quotedPath]
  rw [hchars, tokenize_quoted_point]
  exact congrArg (_ :: _ :: ·) (Pending.lex_symbol '*' rest)

lemma counted_conjunction (separator neutral : String) (hcuts : Cuts separator)
    (hintroduces : Introduces separator) (hneutral : neutral.toList.all isPlain)
    {operands : List (List Piece)} (h : ∀ operand ∈ operands, Counted operand) :
    Counted (conjunction separator neutral operands) := by
  rw [conjunction]
  split
  · exact counted_text hneutral
  · exact (counted_separated separator hcuts hintroduces h).parenthesized

lemma isPlain_of_isDigit {c : Char} (h : c.isDigit) : isPlain c := by
  have hquote : c ≠ '"' := by
    rintro rfl
    cases h
  have hdollar : c ≠ '$' := by
    rintro rfl
    cases h
  simp [isPlain, hquote, hdollar]

lemma follows_countClause (keyword : String) (h : Cuts keyword) (limit : Option Nat) :
    Follows (countClause keyword limit) := by
  cases limit with
  | none => exact follows_nil
  | some n =>
    refine follows_text _ ?_ []
    rw [Cuts] at h ⊢
    cases htext : keyword.toList with
    | nil => simp [htext] at h
    | cons c tail => simpa [htext, toString] using h

lemma counted_countClause (keyword : String) (h : keyword.toList.all isPlain)
    (limit : Option Nat) : Counted (countClause keyword limit) := by
  cases limit with
  | none => exact counted_nil
  | some n =>
    refine counted_text ?_
    have hdigits : (toString n).toList = Nat.toDigits 10 n := Nat.toList_repr
    have htext : s!"{keyword}{n}".toList = keyword.toList ++ Nat.toDigits 10 n := by
      rw [← hdigits]
      simp [toString]
    rw [htext, List.all_append, h, Bool.true_and, List.all_eq_true]
    exact fun c hc => isPlain_of_isDigit (Number.isDigit_of_mem_toDigits hc)

lemma counted_returningPieces (columns : List ColumnRef) : Counted (returningPieces columns) := by
  refine (counted_separated ", " rfl rfl fun item hitem => ?_).clause " RETURNING " rfl
  obtain ⟨column, -, rfl⟩ := List.mem_map.mp hitem
  exact column.counted

end Pieces

/-! ### Queries -/

/-- No text stands among the leaves. -/
def FragmentFree (leaves : List Leaf) : Prop := ∀ text, .fragment text ∉ leaves

lemma fragmentFree_append {leaves others : List Leaf} :
    FragmentFree (leaves ++ others) ↔ FragmentFree leaves ∧ FragmentFree others := by
  simp only [FragmentFree, List.mem_append, not_or, forall_and]

mutual
/-- The placeholders of an expression are those of its values, in order. -/
theorem Expr.counted (expr : Expr) (h : FragmentFree expr.leaves) : Counted expr.pieces := by
  obtain ⟨kind, asName⟩ := expr
  exact (kind.counted h).append (follows_namePieces asName) (counted_namePieces asName)
termination_by structural expr

theorem ExprKind.counted (kind : ExprKind) (h : FragmentFree kind.leaves) :
    Counted kind.pieces := by
  cases kind with
  | param value => exact counted_param value
  | raw text => exact absurd List.mem_cons_self (h text)
  | column column => exact column.counted
  | row items => exact (counted_separated "," rfl rfl (counted_exprPieces items h)).parenthesized
  | select select => exact (select.counted h).parenthesized
  | condition tree => exact tree.counted h
  | binary operator left right =>
    rw [pieces_binary]
    rw [ExprKind.leaves] at h
    cases htests : operator.testsNothing right with
    | true =>
      refine counted_text ?_
      cases operator with
      | compare => cases htests
      | isIn => rfl
      | notIn => rfl
    | false =>
      rw [htests, if_neg Bool.false_ne_true, fragmentFree_append] at h
      have hoperator : Cuts operator.text ∧ Introduces operator.text := by
        cases operator with
        | compare comparison => cases comparison <;> exact ⟨rfl, rfl⟩
        | isIn => exact ⟨rfl, rfl⟩
        | notIn => exact ⟨rfl, rfl⟩
      exact (left.counted h.1).append (follows_text _ hoperator.1 _)
        ((right.counted h.2).introduced _ hoperator.2)
  | isNull operand =>
    exact (operand.counted h).append (follows_text " IS NULL" rfl []) (counted_text rfl)
  | isNotNull operand =>
    exact (operand.counted h).append (follows_text " IS NOT NULL" rfl []) (counted_text rfl)
  | asterisk table =>
    cases table with
    | none => exact counted_text rfl
    | some table => exact counted_asterisk table.referenceName
  | default => exact counted_text rfl
termination_by structural kind

theorem ConditionTree.counted (tree : ConditionTree) (h : FragmentFree tree.leaves) :
    Counted tree.pieces := by
  cases tree with
  | and operands =>
    exact counted_conjunction " AND " "1=1" rfl rfl rfl (counted_exprPieces operands h)
  | or operands =>
    exact counted_conjunction " OR " "1=0" rfl rfl rfl (counted_exprPieces operands h)
  | not operand => exact (operand.counted h).parenthesized.introduced "NOT " rfl
  | single operand => exact operand.counted h
  | always => exact counted_text rfl
  | never => exact counted_text rfl
termination_by structural tree

theorem Select.counted (select : Select) (h : FragmentFree select.leaves) :
    Counted select.pieces := by
  obtain ⟨columns, tables, condition, ordering, limit, offset⟩ := select
  rw [Select.leaves, fragmentFree_append, fragmentFree_append] at h
  have hcolumns : Counted (if columns.isEmpty then [.text "*"]
      else separated ", " (exprPieces columns)) := by
    split
    · exact counted_text rfl
    · exact counted_separated ", " rfl rfl (counted_exprPieces columns h.1.1)
  have htables : Counted (clause " FROM " (separated ", " (tables.map TableRef.pieces))) := by
    refine (counted_separated ", " rfl rfl fun item hitem => ?_).clause " FROM " rfl
    obtain ⟨table, -, rfl⟩ := List.mem_map.mp hitem
    exact table.counted
  have hcondition := (counted_conditionPieces condition h.1.2).clause " WHERE " rfl
  have hordering : Counted (clause " ORDER BY " (separated ", " (orderingPieces ordering))) :=
    (counted_separated ", " rfl rfl (counted_orderingPieces ordering h.2)).clause _ rfl
  have hchosen := ((hcolumns.introduced "SELECT " rfl).append (follows_clause " FROM " rfl _)
    htables).append (follows_clause " WHERE " rfl _) hcondition
  have hlimited := (hchosen.append (follows_clause " ORDER BY " rfl _) hordering).append
    (follows_countClause " LIMIT " rfl limit) (counted_countClause " LIMIT " rfl limit)
  exact hlimited.append (follows_countClause " OFFSET " rfl offset)
    (counted_countClause " OFFSET " rfl offset)
termination_by structural select

theorem counted_exprPieces (exprs : List Expr) (h : FragmentFree (exprsLeaves exprs)) :
    ∀ item ∈ exprPieces exprs, Counted item := by
  cases exprs with
  | nil => exact fun _ hitem => absurd hitem List.not_mem_nil
  | cons expr rest =>
    rw [exprsLeaves, fragmentFree_append] at h
    rw [exprPieces, List.forall_mem_cons]
    exact ⟨expr.counted h.1, counted_exprPieces rest h.2⟩
termination_by structural exprs

theorem counted_conditionPieces (tree : Option ConditionTree)
    (h : FragmentFree (conditionLeaves tree)) : Counted (conditionPieces tree) := by
  cases tree with
  | none => exact counted_nil
  | some tree => exact tree.counted h
termination_by structural tree

theorem counted_orderingPieces (terms : List (Expr × Option SortOrder))
    (h : FragmentFree (orderingLeaves terms)) : ∀ item ∈ orderingPieces terms, Counted item := by
  match terms with
  | [] => exact fun _ hitem => absurd hitem List.not_mem_nil
  | (expr, order) :: rest =>
    rw [orderingLeaves, fragmentFree_append] at h
    rw [orderingPieces, List.forall_mem_cons]
    refine ⟨?_, counted_orderingPieces rest h.2⟩
    have hdirection : Follows [.text (directionText order)] := by
      cases order with
      | none => exact fun _ _ hrest => hrest
      | some order =>
        cases order with
        | ascending => exact follows_text " ASC" rfl []
        | descending => exact follows_text " DESC" rfl []
    refine (expr.counted h.1).append hdirection (counted_text ?_)
    rcases order with _ | _ | _ <;> rfl
termination_by structural terms
end

lemma Insert.counted (insert : Insert)
    (h : FragmentFree (exprsLeaves (insert.values.map Prod.snd))) : Counted insert.pieces := by
  obtain ⟨table, values, skips, returning⟩ := insert
  have hnames : Counted (separated "," (values.map fun setting => [.name [setting.1.name]])) := by
    refine counted_separated "," rfl rfl fun item hitem => ?_
    obtain ⟨setting, -, rfl⟩ := List.mem_map.mp hitem
    exact counted_name _
  have hrow : Counted (Expr.row (values.map Prod.snd)).pieces := Expr.counted _ h
  have hvalues : Counted (.text " " :: parenthesized (separated ","
      (values.map fun setting => [.name [setting.1.name]])) ++
        .text " VALUES " :: (Expr.row (values.map Prod.snd)).pieces) :=
    (hnames.parenthesized.introduced " " rfl).append (follows_text " VALUES " rfl _)
      (hrow.introduced " VALUES " rfl)
  have hskips : Follows (if skips then [.text " ON CONFLICT DO NOTHING"] else []) ∧
      Counted (if skips then [.text " ON CONFLICT DO NOTHING"] else []) := by
    cases skips with
    | true => exact ⟨follows_text " ON CONFLICT DO NOTHING" rfl [], counted_text rfl⟩
    | false => exact ⟨follows_nil, counted_nil⟩
  have hinto := table.counted.introduced "INSERT INTO " rfl
  refine Counted.append (Counted.append ?_ hskips.1 hskips.2)
    (follows_clause " RETURNING " rfl _) (counted_returningPieces returning)
  dsimp only
  split
  · exact hinto.append (follows_text " DEFAULT VALUES" rfl []) (counted_text rfl)
  · exact hinto.append (follows_text " " rfl _) hvalues

lemma Update.counted (update : Update)
    (h : FragmentFree (exprsLeaves (update.values.map Prod.snd)))
    (hcondition : FragmentFree (conditionLeaves update.condition)) : Counted update.pieces := by
  have hsetting (values : List (ColumnRef × Expr))
      (h : FragmentFree (exprsLeaves (values.map Prod.snd))) :
      ∀ setting ∈ values, Counted (.name [setting.1.name] :: .text " = " :: setting.2.pieces) := by
    induction values with
    | nil => exact fun _ hsetting => absurd hsetting List.not_mem_nil
    | cons first rest ih =>
      rw [List.map_cons, exprsLeaves, fragmentFree_append] at h
      rw [List.forall_mem_cons]
      exact ⟨(counted_name _).append (follows_text " = " rfl _)
        ((first.2.counted h.1).introduced " = " rfl), ih h.2⟩
  have hset : Counted (separated ", " (update.values.map fun setting =>
      .name [setting.1.name] :: .text " = " :: setting.2.pieces)) := by
    refine counted_separated ", " rfl rfl fun item hitem => ?_
    obtain ⟨setting, hmem, rfl⟩ := List.mem_map.mp hitem
    exact hsetting update.values h setting hmem
  have htable := update.table.counted.introduced "UPDATE " rfl
  exact ((htable.append (follows_text " SET " rfl _) (hset.introduced " SET " rfl)).append
    (follows_clause " WHERE " rfl _) ((counted_conditionPieces _ hcondition).clause _ rfl)).append
    (follows_clause " RETURNING " rfl _) (counted_returningPieces update.returning)

lemma Delete.counted (delete : Delete) (h : FragmentFree (conditionLeaves delete.condition)) :
    Counted delete.pieces :=
  ((delete.table.counted.introduced "DELETE FROM " rfl).append (follows_clause " WHERE " rfl _)
    ((counted_conditionPieces _ h).clause _ rfl)).append
    (follows_clause " RETURNING " rfl _) (counted_returningPieces delete.returning)

lemma Query.counted (query : Query) (h : FragmentFree query.leaves) : Counted query.pieces := by
  cases query with
  | select select => exact select.counted h
  | insert insert => exact insert.counted h
  | update update =>
    obtain ⟨hvalues, hcondition⟩ := fragmentFree_append.mp h
    exact update.counted hvalues hcondition
  | delete delete => exact delete.counted h
  | raw text => exact absurd List.mem_cons_self (h text)

lemma eq_map_valuesOf {leaves : List Leaf} (h : FragmentFree leaves) :
    leaves = (valuesOf leaves).map .value := by
  induction leaves with
  | nil => rfl
  | cons leaf rest ih =>
    have hrest : FragmentFree rest := fun text hmem => h text (List.mem_cons_of_mem _ hmem)
    cases leaf with
    | value v => exact congrArg (.value v :: ·) (ih hrest)
    | fragment text => exact absurd List.mem_cons_self (h text)

/-- The numbers of the placeholders in a text, from left to right. -/
def placeholdersIn (text : String) : List Nat := numbersOf (tokenize text.toList)

/-- Placeholders and parameters line up. Of a query without text of its own, the parameters are the
values from left to right, without those on the left of a membership in an empty row; the
placeholders are `$1` to `$n` for `n` parameters, each once and in this order; and the text is the
one with `$k` written in the place of the `k`-th of these values. -/
theorem Query.placeholders_stand_for_params (query : Query) (h : FragmentFree query.leaves) :
    query.leaves = query.statement.params.map .value ∧
    placeholdersIn query.statement.text = List.range' 1 query.statement.params.length ∧
    query.statement.text = query.marked.statement.text := by
  refine ⟨?_, ?_, query.text_marked.symm⟩
  · rw [query.params_statement]
    exact eq_map_valuesOf h
  · obtain ⟨tokens, hwrites, hnumbers⟩ := query.counted h 0
    have htokens : tokenize query.statement.text.toList = tokens := by
      have hall := hwrites [] (fun c hc => by cases hc)
      rw [Query.statement, Statement.ofPieces, String.toList_ofList]
      rwa [List.append_nil, show tokenize [] = [] from rfl, List.append_nil] at hall
    rw [placeholdersIn, htokens, hnumbers]
    rfl

/-- The posts of authors with one of two names, except some, under a title that is given; what is
compared with an empty row is not sent. -/
def titledPosts : Query :=
  let authors : Select := { Select.fromTable (table "author") with
    columns := [.column (column "id")]
    condition := some (.single (.isIn (.column (column "name"))
      (.params [.string "Ann", .string "Bob"]))) }
  .update ⟨table "post", [(column "title", .param (.string "Draft $1"))],
    some (.and [.isIn (.column (column "author")) (.select authors),
      .binary .notIn (.param (.int 7)) (.row []),
      .condition (.not (.equals (.column (columnOf (table "post") "id")) (.param (.int 3))))]),
    [column "id"]⟩

/-- A value that looks like a placeholder is none: four values are sent, and `$1` to `$4` are
written. -/
theorem Query.placeholders_stand_for_params_post :
    FragmentFree titledPosts.leaves ∧
      titledPosts.statement.params = [.string "Draft $1", .string "Ann", .string "Bob", .int 3] ∧
      placeholdersIn titledPosts.statement.text = [1, 2, 3, 4] := by
  have hleaves : titledPosts.leaves =
      [.value (.string "Draft $1"), .value (.string "Ann"), .value (.string "Bob"),
        .value (.int 3)] := rfl
  have hfree : FragmentFree titledPosts.leaves := by
    intro text hmem
    simp [hleaves] at hmem
  have hparams : titledPosts.statement.params =
      [.string "Draft $1", .string "Ann", .string "Bob", .int 3] := by
    rw [titledPosts.params_statement]
    rfl
  refine ⟨hfree, hparams, ?_⟩
  rw [(titledPosts.placeholders_stand_for_params hfree).2.1, hparams]
  rfl

end EntityGraph.Sql

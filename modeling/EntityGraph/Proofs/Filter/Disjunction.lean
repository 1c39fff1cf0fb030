import EntityGraph.Proofs.Filter.Decoding
/-!
# Disjunctions of filters

A filter that offers alternatives is met by the rows that meet one of them, alone or together with
another filter, as long as there is an alternative. One without alternatives is the empty filter:
every row meets it, where no value meets a condition on a column that offers none.
-/
namespace EntityGraph.Filter

open Sql (ConditionTree Expr)

variable {schema : Schema} {store : Store} {entity : Entity} {name : String} {row : Row}
  {filter other : Filter} {operands : List Filter} {exprs : List Expr} {tree : ConditionTree}

/-- Whether a filter has a condition. -/
def HasTree (schema : Schema) (entity : Entity) (filter : Filter) : Prop :=
  ∃ tree, toTree schema entity filter = .ok tree

/-- Whether the condition of a filter holds of a row. -/
def IsMet (schema : Schema) (store : Store) (entity : Entity) (row : Row) (filter : Filter) : Prop :=
  ∃ tree, toTree schema entity filter = .ok tree ∧
    tree.truth? store [(entity.tableName, row)] = some .holds

lemma isMet_iff (h : toTree schema entity filter = .ok tree) :
    IsMet schema store entity row filter ↔
      tree.truth? store [(entity.tableName, row)] = some .holds := by
  simp [IsMet, h]

lemma isMet_empty (row : Row) : IsMet schema store entity row .empty := ⟨.always, rfl, rfl⟩

/-! ### Operands -/

lemma exists_operandTrees_iff : (∃ exprs, operandTrees schema entity operands = .ok exprs) ↔
    ∀ operand ∈ operands, HasTree schema entity operand := by
  induction operands with
  | nil => simp [operandTrees]
  | cons operand rest ih =>
    rw [List.forall_mem_cons, ← ih]
    constructor
    · rintro ⟨exprs, h⟩
      obtain ⟨tree, htree, h⟩ := Except.bind_eq_ok.mp h
      obtain ⟨others, hothers, -⟩ := Except.bind_eq_ok.mp h
      exact ⟨⟨tree, htree⟩, others, hothers⟩
    · rintro ⟨⟨tree, htree⟩, others, hothers⟩
      exact ⟨_, Except.bind_eq_ok.mpr ⟨tree, htree, Except.bind_eq_ok.mpr ⟨others, hothers, rfl⟩⟩⟩

/-- The conditions that hold are those of the operands that are met. -/
lemma operands_met_iff (h : operandTrees schema entity operands = .ok exprs) :
    ((∃ expr ∈ exprs, expr.truth? store [(entity.tableName, row)] = some .holds) ↔
      ∃ operand ∈ operands, IsMet schema store entity row operand) ∧
    ((∀ expr ∈ exprs, expr.truth? store [(entity.tableName, row)] = some .holds) ↔
      ∀ operand ∈ operands, IsMet schema store entity row operand) := by
  induction operands generalizing exprs with
  | nil =>
    cases h
    simp
  | cons operand rest ih =>
    obtain ⟨tree, htree, h⟩ := Except.bind_eq_ok.mp h
    obtain ⟨others, hothers, h⟩ := Except.bind_eq_ok.mp h
    cases h
    obtain ⟨hsome, hall⟩ := ih hothers
    rw [List.exists_mem_cons_iff, List.exists_mem_cons_iff, List.forall_mem_cons,
      List.forall_mem_cons, hsome, hall, isMet_iff htree]
    exact ⟨.rfl, .rfl⟩

/-- Alternatives can be translated together if each of them can. -/
lemma hasTree_any_iff (hne : operands ≠ []) : HasTree schema entity (any operands) ↔
    ∀ operand ∈ operands, HasTree schema entity operand := by
  rw [← exists_operandTrees_iff, HasTree, toTree_any hne]
  constructor
  · rintro ⟨tree, h⟩
    obtain ⟨exprs, hexprs, -⟩ := Except.bind_eq_ok.mp h
    exact ⟨exprs, hexprs⟩
  · rintro ⟨exprs, hexprs⟩
    exact ⟨_, Except.bind_eq_ok.mpr ⟨exprs, hexprs, rfl⟩⟩

section Rows

variable (hc : store.HasColumns schema) (he : schema.entity name = .ok entity)
  (hrow : row ∈ store.rows entity.tableName)
include hc he hrow

/-- A disjunction that offers an alternative is a union. -/
theorem isMet_any_iff (hne : operands ≠ [])
    (htrees : ∀ operand ∈ operands, HasTree schema entity operand) :
    IsMet schema store entity row (any operands) ↔
      ∃ operand ∈ operands, IsMet schema store entity row operand := by
  obtain ⟨exprs, hexprs⟩ := exists_operandTrees_iff.mpr htrees
  have htree : toTree schema entity (any operands) = .ok (.or exprs) := by
    rw [toTree_any hne, hexprs]
    rfl
  obtain ⟨hsome, -⟩ := readEach_operandTrees hc he operands hexprs [] row hrow
  rw [isMet_iff htree, (Sql.truth?_or hsome).2]
  exact (operands_met_iff hexprs).1

/-- A conjunction is an intersection, whatever its length. -/
theorem isMet_all_iff (htrees : ∀ operand ∈ operands, HasTree schema entity operand) :
    IsMet schema store entity row (all operands) ↔
      ∀ operand ∈ operands, IsMet schema store entity row operand := by
  by_cases hne : operands = []
  · subst hne
    exact ⟨fun _ _ hmem => absurd hmem List.not_mem_nil, fun _ => isMet_empty row⟩
  obtain ⟨exprs, hexprs⟩ := exists_operandTrees_iff.mpr htrees
  have htree : toTree schema entity (all operands) = .ok (.and exprs) := by
    rw [toTree_all hne, hexprs]
    rfl
  obtain ⟨hsome, -⟩ := readEach_operandTrees hc he operands hexprs [] row hrow
  rw [isMet_iff htree, (Sql.truth?_and hsome).2]
  exact (operands_met_iff hexprs).2

/-- Two filters together are met where both are. -/
lemma isMet_andWith_iff (hfilter : HasTree schema entity filter)
    (hother : HasTree schema entity other) :
    IsMet schema store entity row (filter.andWith other) ↔
      IsMet schema store entity row filter ∧ IsMet schema store entity row other := by
  unfold andWith
  split
  · rename_i hempty
    rw [eq_empty_of_isEmpty hempty]
    exact (and_iff_right (isMet_empty row)).symm
  · split
    · rename_i hempty
      rw [eq_empty_of_isEmpty hempty]
      exact (and_iff_left (isMet_empty row)).symm
    · rw [isMet_all_iff hc he hrow (by simp [hfilter, hother])]
      simp

end Rows

/-! ### Alternatives in other forms -/

lemma operandTrees_onColumn {column : String} (h : entity.columnName name = .ok column)
    (conditions : List Condition) :
    operandTrees schema entity (conditions.map (onColumn name)) =
      .ok (Condition.allToExprs (Sql.column column) conditions) := by
  induction conditions with
  | nil => rfl
  | cons condition rest ih =>
    rw [List.map_cons, operandTrees, toTree_onColumn schema h, ih]
    rfl

/-- Alternatives on one column are a condition on the column that offers them. -/
lemma toTree_any_onColumn (schema : Schema) (entity : Entity) (name : String)
    {conditions : List Condition} (hne : conditions ≠ []) :
    toTree schema entity (any (conditions.map (onColumn name))) =
      toTree schema entity (onColumn name (.or conditions)) := by
  rw [toTree_any (by simpa using hne)]
  cases hcolumn : entity.columnName name with
  | ok column =>
    rw [operandTrees_onColumn hcolumn, toTree_onColumn schema hcolumn, Condition.toTree]
    rfl
  | error e =>
    have hrefused (condition : Condition) :
        toTree schema entity (onColumn name condition) = .error e := by
      rw [onColumn, ofFields, empty, toTree_eq, fieldTrees, hcolumn]
      rfl
    obtain ⟨first, rest, rfl⟩ := List.exists_cons_of_ne_nil hne
    rw [List.map_cons, operandTrees, hrefused, hrefused]
    rfl

lemma ofJson_or {items : List Json} (h : allOfJson schema entity items = .ok operands) :
    ofJson schema entity (.object [("or", .array items)]) = .ok (any operands) := by
  rw [ofJson, addMembers_or h]
  rfl

/-- In a database with the columns of its schema, a filter that offers alternatives is met by the
rows that meet one of them, and beside another filter, such as that of a request beside a rule of
access, by those that meet both. A further alternative takes no row away, and alternatives on one
column are a condition on that column. -/
theorem disjunction_is_union (hc : store.HasColumns schema)
    (he : schema.entity name = .ok entity) (hne : operands ≠ []) :
    (∀ items, allOfJson schema entity items = .ok operands →
      ofJson schema entity (.object [("or", .array items)]) = .ok (any operands)) ∧
    (HasTree schema entity (any operands) ↔ ∀ operand ∈ operands, HasTree schema entity operand) ∧
    (∀ field conditions, operands = conditions.map (onColumn field) →
      toTree schema entity (any operands) = toTree schema entity (onColumn field (.or conditions))) ∧
    ((∀ operand ∈ operands, HasTree schema entity operand) →
      ∀ row ∈ store.rows entity.tableName,
        (IsMet schema store entity row (any operands) ↔
          ∃ operand ∈ operands, IsMet schema store entity row operand) ∧
        (∀ more, HasTree schema entity more → IsMet schema store entity row (any operands) →
          IsMet schema store entity row (any (operands ++ [more]))) ∧
        ∀ filter, HasTree schema entity filter →
          (IsMet schema store entity row (filter.andWith (any operands)) ↔
            IsMet schema store entity row filter ∧
              ∃ operand ∈ operands, IsMet schema store entity row operand)) := by
  refine ⟨fun items h => ofJson_or h, hasTree_any_iff hne, ?_, fun htrees row hrow => ?_⟩
  · rintro field conditions rfl
    exact toTree_any_onColumn schema entity field (by simpa using hne)
  have hunion := isMet_any_iff hc he hrow hne htrees
  refine ⟨hunion, fun more hmore hmet => ?_, fun filter hfilter => ?_⟩
  · have hall : ∀ operand ∈ operands ++ [more], HasTree schema entity operand :=
      List.forall_mem_append.mpr ⟨htrees, List.forall_mem_singleton.mpr hmore⟩
    obtain ⟨operand, hmem, hoperand⟩ := hunion.mp hmet
    exact (isMet_any_iff hc he hrow (by simp) hall).mpr
      ⟨operand, List.mem_append_left _ hmem, hoperand⟩
  · rw [isMet_andWith_iff hc he hrow hfilter ((hasTree_any_iff hne).mpr htrees), hunion]

/-- Posts with a title that is `c`, or with none: one of the posts of the first author, and the post
without an author. -/
theorem disjunction_is_union_post :
    let post := Entity.ofSteps "Post" postSteps
    let alternatives := [.compare .equal (.string "c"), .isNull true].map (onColumn "title")
    toTree blog post (any alternatives) =
        toTree blog post (onColumn "title" (.or [.compare .equal (.string "c"), .isNull true])) ∧
      ∀ row ∈ blogStore.rows "post",
        (IsMet blog blogStore post row (any alternatives) ↔
          ∃ operand ∈ alternatives, IsMet blog blogStore post row operand) := by
  intro post alternatives
  have hpost : blog.entity "Post" = .ok post := by decide +kernel
  have htitle : post.columnName "title" = .ok "title" := by decide +kernel
  have htrees : ∀ operand ∈ alternatives, HasTree blog post operand :=
    List.forall_mem_map.mpr fun condition _ => ⟨_, toTree_onColumn blog htitle condition⟩
  obtain ⟨-, -, hcolumn, hrows⟩ :=
    disjunction_is_union hasColumns_blogStore hpost (List.cons_ne_nil _ _)
  exact ⟨hcolumn _ _ rfl, fun row hrow => (hrows htrees row hrow).1⟩

/-- Without alternatives, the filter adds nothing to another one, and every row meets it: also a post
that a further alternative takes away. A condition on its title that offers none does not hold. -/
theorem no_alternatives_met_by_all :
    let post := Entity.ofSteps "Post" postSteps
    let third := onColumn "title" (.compare .equal (.string "c"))
    (∀ filter : Filter, filter.andWith (any []) = filter) ∧
      (∀ row ∈ blogStore.rows "post", IsMet blog blogStore post row (any [])) ∧
      ∃ row ∈ blogStore.rows "post",
        ¬ (IsMet blog blogStore post row (any []) ↔
          ∃ operand ∈ ([] : List Filter), IsMet blog blogStore post row operand) ∧
        ¬ IsMet blog blogStore post row (any ([] ++ [third])) ∧
        ¬ IsMet blog blogStore post row (onColumn "title" (.or [])) := by
  intro post third
  have htitle : post.columnName "title" = .ok "title" := by decide +kernel
  have hthird : toTree blog post (any ([] ++ [third])) =
      .ok ((Condition.or [.compare .equal (.string "c")]).toTree (Sql.column "title")) :=
    (toTree_any_onColumn blog post "title" (List.cons_ne_nil _ [])).trans
      (toTree_onColumn blog htitle _)
  refine ⟨andWith_empty, fun row _ => isMet_empty row, _, List.mem_cons_self, ?_, ?_, ?_⟩
  · exact fun hiff => by simpa using hiff.mp (isMet_empty _)
  · rw [isMet_iff hthird]
    decide
  · rw [isMet_iff (toTree_onColumn blog htitle _)]
    decide

end EntityGraph.Filter

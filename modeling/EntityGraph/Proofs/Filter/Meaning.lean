import EntityGraph.Proofs.Filter.Relations
/-!
The condition of a filter selects the rows that satisfy the filter. One induction over the filter
shows that its condition has a truth value on every row and holds of the right ones.
-/
namespace EntityGraph

open Sql (ConditionTree Expr)

namespace Filter

variable {schema : Schema} {store : Store} {entity target : Entity} {nested : Filter}

lemma onKeyOnly?_eq_some {condition : Condition} (h : onKeyOnly? target nested = some condition) :
    nested = onColumn target.primary condition := by
  unfold onKeyOnly? at h
  split at h
  · split at h
    · rename_i hname
      cases h
      rw [hname]
      rfl
    · contradiction
  · contradiction

lemma Readable.of_fields {filter : Filter} (h : filter.Readable schema entity)
    {fields : List (String × FieldFilter)} (hf : fields ⊆ filter.fields) :
    (ofFields fields).Readable schema entity where
  wellTyped := ⟨fun hm => h.wellTyped.condition (hf hm), fun hm => h.wellTyped.relation (hf hm)⟩
  not_eq_none := rfl
  nullSafe name nested relation target condition hm :=
    h.nullSafe name nested relation target condition (hf hm)

/-- A row satisfies a condition on the key when its key does. -/
lemma holds_onKey_iff {condition : Condition}
    (hw : (onColumn target.primary condition).WellTyped target) {row : Row} {value : Value}
    (hv : row.find? target.primaryColumn = some value) :
    Holds schema store target row (onColumn target.primary condition) ↔
      condition.truth value = .holds := by
  obtain ⟨column, hcolumn, hprimary⟩ := hw.condition List.mem_cons_self
  cases hprimary rfl
  constructor
  · rintro ⟨-, -, -, ⟨_, _, hcolumn', hv', hholds⟩, -⟩
    cases hcolumn.symm.trans hcolumn'
    cases hv.symm.trans hv'
    exact hholds
  · exact fun hholds => ⟨trivial, .inl rfl, trivial, ⟨_, value, hcolumn, hv, hholds⟩, trivial⟩

/-- The condition of several operands, of which there is none where there are no operands. -/
def operandsTree (schema : Schema) (entity : Entity) (joined : List Expr → ConditionTree) :
    List Filter → Except SchemaError (List ConditionTree)
  | [] => .ok []
  | operands => operandTrees schema entity operands >>= fun exprs => .ok [joined exprs]

lemma operandsTree_cons {entity : Entity} (joined : List Expr → ConditionTree) (first : Filter)
    (rest : List Filter) :
    operandsTree schema entity joined (first :: rest) =
      operandTrees schema entity (first :: rest) >>= fun exprs => .ok [joined exprs] := rfl

lemma toTree_eq (and or : List Filter) (not : Option Filter)
    (fields : List (String × FieldFilter)) :
    toTree schema entity ⟨and, or, not, fields⟩ =
      operandsTree schema entity .and and >>= fun all =>
      operandsTree schema entity .or or >>= fun any =>
      negationTree schema entity not >>= fun none =>
      fieldTrees schema entity fields >>= fun each =>
      .ok (together (all ++ any ++ none ++ each)) := by
  rw [toTree]
  cases and <;> cases or <;> simp only [operandsTree, bind_assoc] <;> rfl

lemma toTree_all {operands : List Filter} (hne : operands ≠ []) :
    toTree schema entity (all operands) =
      operandTrees schema entity operands >>= fun exprs => .ok (.and exprs) := by
  obtain ⟨first, rest, rfl⟩ := List.exists_cons_of_ne_nil hne
  rw [all, empty, toTree_eq, operandsTree_cons]
  cases operandTrees schema entity (first :: rest) <;> rfl

lemma toTree_any {operands : List Filter} (hne : operands ≠ []) :
    toTree schema entity (any operands) =
      operandTrees schema entity operands >>= fun exprs => .ok (.or exprs) := by
  obtain ⟨first, rest, rfl⟩ := List.exists_cons_of_ne_nil hne
  rw [any, empty, toTree_eq, operandsTree_cons]
  cases operandTrees schema entity (first :: rest) <;> rfl

lemma toTree_onColumn (schema : Schema) {field column : String}
    (h : entity.columnName field = .ok column) (condition : Condition) :
    toTree schema entity (onColumn field condition) =
      .ok (condition.toTree (Sql.column column)) := by
  rw [onColumn, ofFields, empty, toTree_eq, fieldTrees, h, fieldTrees]
  rfl

mutual
/-- A filter that has a condition is read by it on every row of the entity. The condition has a
truth value there in any schema; which one, a well-formed schema tells. -/
theorem reads_toTree (hc : store.HasColumns schema) {name : String} {entity : Entity}
    (he : schema.entity name = .ok entity) (filter : Filter) {tree : ConditionTree}
    (h : toTree schema entity filter = .ok tree) :
    Reads store entity.tableName
      ((schema.WellFormed ∧ store.PointsAtRows schema) ∧
        Everywhere schema (Readable schema) entity filter) tree
      fun row => Holds schema store entity row filter := by
  obtain ⟨and, or, not, fields⟩ := filter
  rw [toTree_eq] at h
  obtain ⟨all, hall, h⟩ := Except.bind_eq_ok.mp h
  obtain ⟨any, hany, h⟩ := Except.bind_eq_ok.mp h
  obtain ⟨none, hnone, h⟩ := Except.bind_eq_ok.mp h
  obtain ⟨each, heach, h⟩ := Except.bind_eq_ok.mp h
  cases h
  have hand : ReadTogether store entity.tableName
      ((schema.WellFormed ∧ store.PointsAtRows schema) ∧
        EverywhereOperands schema (Readable schema) entity and) all
      fun row => AllHold schema store entity row and := by
    cases and with
    | nil =>
      cases hall
      exact readTogether_nil fun _ => trivial
    | cons first rest =>
      obtain ⟨operands, hoperands, heq⟩ := Except.bind_eq_ok.mp hall
      cases heq
      exact (readEach_operandTrees hc he (first :: rest) hoperands).and.singleton
  have hor : ReadTogether store entity.tableName
      ((schema.WellFormed ∧ store.PointsAtRows schema) ∧
        EverywhereOperands schema (Readable schema) entity or) any
      fun row => or = [] ∨ SomeHolds schema store entity row or := by
    cases or with
    | nil =>
      cases hany
      exact readTogether_nil fun _ => .inl rfl
    | cons first rest =>
      obtain ⟨operands, hoperands, heq⟩ := Except.bind_eq_ok.mp hany
      cases heq
      exact (readEach_operandTrees hc he (first :: rest) hoperands).or.singleton.congr
        fun row => by simp
  have hnot := readTogether_negationTree hc he not hnone
  have hfields := readTogether_fieldTrees hc he fields heach
  have hparts : (schema.WellFormed ∧ store.PointsAtRows schema) ∧
      Everywhere schema (Readable schema) entity ⟨and, or, not, fields⟩ →
      (schema.WellFormed ∧ store.PointsAtRows schema) ∧
        Readable schema entity ⟨and, or, not, fields⟩ ∧
        EverywhereOperands schema (Readable schema) entity and ∧
        EverywhereOperands schema (Readable schema) entity or ∧
        EverywhereNegation schema (Readable schema) entity not ∧
        EverywhereFields schema (Readable schema) entity fields := id
  replace hand := hand.mono fun ha => ⟨(hparts ha).1, (hparts ha).2.2.1⟩
  replace hor := hor.mono fun ha => ⟨(hparts ha).1, (hparts ha).2.2.2.1⟩
  replace hnot := hnot.mono fun ha =>
    ⟨(hparts ha).1, (hparts ha).2.1.not_eq_none, (hparts ha).2.2.2.2.1⟩
  replace hfields := hfields.mono fun ha =>
    ⟨(hparts ha).1, (hparts ha).2.1.of_fields (List.Subset.refl _), (hparts ha).2.2.2.2.2⟩
  have hwhole := (((hand.append hor).append hnot).append hfields).together
  intro outer row hrow
  obtain ⟨hsome, hread⟩ := hwhole outer row hrow
  refine ⟨hsome, fun ha => (hread ha).trans ?_⟩
  exact and_assoc.trans and_assoc
termination_by structural filter

theorem readEach_operandTrees (hc : store.HasColumns schema) {name : String} {entity : Entity}
    (he : schema.entity name = .ok entity) (operands : List Filter) {exprs : List Expr}
    (h : operandTrees schema entity operands = .ok exprs) :
    ReadEach store entity.tableName
      ((schema.WellFormed ∧ store.PointsAtRows schema) ∧
        EverywhereOperands schema (Readable schema) entity operands)
      exprs (fun row => AllHold schema store entity row operands)
      fun row => SomeHolds schema store entity row operands := by
  cases operands with
  | nil =>
    cases h
    exact fun _ _ _ => ⟨by simp, fun _ => ⟨by simp [AllHold], by simp [SomeHolds]⟩⟩
  | cons operand rest =>
    rw [operandTrees] at h
    obtain ⟨tree, htree, h⟩ := Except.bind_eq_ok.mp h
    obtain ⟨others, hothers, h⟩ := Except.bind_eq_ok.mp h
    cases h
    intro outer row hrow
    obtain ⟨hsome, hread⟩ := reads_toTree hc he operand htree outer row hrow
    obtain ⟨hsomes, hreads⟩ := readEach_operandTrees hc he rest hothers outer row hrow
    refine ⟨List.forall_mem_cons.mpr ⟨hsome, hsomes⟩, fun ha => ?_⟩
    have hfirst := hread ⟨ha.1, ha.2.1⟩
    obtain ⟨hrestAll, hrestSome⟩ := hreads ⟨ha.1, ha.2.2⟩
    rw [List.forall_mem_cons, List.exists_mem_cons_iff, Sql.Expr.truth?_condition, hfirst,
      hrestAll, hrestSome]
    exact ⟨.rfl, .rfl⟩
termination_by structural operands

theorem readTogether_negationTree (hc : store.HasColumns schema) {name : String} {entity : Entity}
    (he : schema.entity name = .ok entity) (not : Option Filter) {trees : List ConditionTree}
    (h : negationTree schema entity not = .ok trees) :
    ReadTogether store entity.tableName
      ((schema.WellFormed ∧ store.PointsAtRows schema) ∧ not = none ∧
        EverywhereNegation schema (Readable schema) entity not) trees
      fun row => NotHolds schema store entity row not := by
  cases not with
  | none =>
    cases h
    exact readTogether_nil fun _ => trivial
  | some operand =>
    rw [negationTree] at h
    obtain ⟨tree, htree, h⟩ := Except.bind_eq_ok.mp h
    cases h
    intro outer row hrow
    obtain ⟨hsome, -⟩ := reads_toTree hc he operand htree outer row hrow
    exact ⟨by simpa using hsome, fun ha => nomatch ha.2.1⟩
termination_by structural not

theorem readTogether_fieldTrees (hc : store.HasColumns schema) {name : String} {entity : Entity}
    (he : schema.entity name = .ok entity) (fields : List (String × FieldFilter))
    {trees : List ConditionTree} (h : fieldTrees schema entity fields = .ok trees) :
    ReadTogether store entity.tableName
      ((schema.WellFormed ∧ store.PointsAtRows schema) ∧
        (ofFields fields).Readable schema entity ∧
        EverywhereFields schema (Readable schema) entity fields) trees
      fun row => FieldsHold schema store entity row fields := by
  match fields with
  | [] =>
    cases h
    exact readTogether_nil fun _ => trivial
  | (field, .condition condition) :: rest =>
    rw [fieldTrees] at h
    obtain ⟨column, hcolumn, h⟩ := Except.bind_eq_ok.mp h
    obtain ⟨others, hothers, h⟩ := Except.bind_eq_ok.mp h
    cases h
    have hrest := readTogether_fieldTrees hc he rest hothers
    have hvalue : ∀ row ∈ store.rows entity.tableName, ∃ value, row.find? column = some value :=
      fun row hrow => hc.field he row hrow hcolumn
    refine Reads.cons ((reads_column hvalue condition).congr fun row => ?_)
      (hrest.mono fun ha => ⟨ha.1, ha.2.1.of_fields (List.subset_cons_self _ _), ha.2.2⟩)
    simp only [hcolumn, Except.ok.injEq, exists_and_left, exists_eq_left']
  | (field, .relation nested) :: rest =>
    rw [fieldTrees] at h
    obtain ⟨relation, hrelation, h⟩ := Except.bind_eq_ok.mp h
    obtain ⟨target, htarget, h⟩ := Except.bind_eq_ok.mp h
    obtain ⟨tree, htree, h⟩ := Except.bind_eq_ok.mp h
    obtain ⟨others, hothers, h⟩ := Except.bind_eq_ok.mp h
    cases h
    have hrest := readTogether_fieldTrees hc he rest hothers
    refine Reads.cons ?_
      (hrest.mono fun ha => ⟨ha.1, ha.2.1.of_fields (List.subset_cons_self _ _), ha.2.2.2⟩)
    have hinner : ∀ inner, toTree schema target nested = .ok inner →
        Reads store target.tableName
          ((schema.WellFormed ∧ store.PointsAtRows schema) ∧
            (ofFields ((field, .relation nested) :: rest)).Readable schema entity ∧
            EverywhereFields schema (Readable schema) entity ((field, .relation nested) :: rest))
          inner fun row => Holds schema store target row nested := fun inner h =>
      (reads_toTree hc htarget nested h).mono fun ha =>
        ⟨ha.1, ha.2.2.1 relation target hrelation htarget⟩
    have hnested := reads_relationTree (fun ha => ha.1.1) hc he hrelation htarget htree hinner ?_
    · refine hnested.congr fun row => ?_
      simp only [hrelation, Except.ok.injEq, exists_and_left, exists_eq_left', htarget]
    · intro condition hkey hjoining ha
      refine ⟨ha.1.2, ha.2.1.nullSafe field nested relation target condition List.mem_cons_self
        hrelation hjoining htarget hkey, fun other ho value hv => ?_⟩
      have hreadable := ha.2.2.1 relation target hrelation htarget
      cases onKeyOnly?_eq_some hkey
      exact holds_onKey_iff hreadable.1.wellTyped hv
termination_by structural fields
end

mutual
/-- A filter whose fields fit everywhere has a condition. -/
theorem exists_tree (hs : schema.WellFormed) {name : String} {entity : Entity}
    (he : schema.entity name = .ok entity) (filter : Filter)
    (h : Everywhere schema Fits entity filter) :
    ∃ tree, toTree schema entity filter = .ok tree := by
  obtain ⟨and, or, not, fields⟩ := filter
  obtain ⟨hfits, hand, hor, hnot, hfields⟩ := h
  have hoperands : ∀ joined operands, (∃ exprs, operandTrees schema entity operands = .ok exprs) →
      ∃ trees, operandsTree schema entity joined operands = .ok trees := by
    rintro joined operands ⟨exprs, hexprs⟩
    cases operands with
    | nil => exact ⟨_, rfl⟩
    | cons first rest => exact ⟨_, Except.bind_eq_ok.mpr ⟨exprs, hexprs, rfl⟩⟩
  obtain ⟨all, hall⟩ := hoperands .and and (exists_operandTrees hs he and hand)
  obtain ⟨any, hany⟩ := hoperands .or or (exists_operandTrees hs he or hor)
  obtain ⟨none, hnone⟩ := exists_negationTree hs he not hnot
  obtain ⟨each, heach⟩ := exists_fieldTrees hs he fields (hfits.of_fields (List.Subset.refl _))
    hfields
  rw [toTree_eq, hall, hany, hnone, heach]
  exact ⟨_, rfl⟩
termination_by structural filter

theorem exists_operandTrees (hs : schema.WellFormed) {name : String} {entity : Entity}
    (he : schema.entity name = .ok entity) (operands : List Filter)
    (h : EverywhereOperands schema Fits entity operands) :
    ∃ exprs, operandTrees schema entity operands = .ok exprs := by
  cases operands with
  | nil => exact ⟨_, rfl⟩
  | cons operand rest =>
    obtain ⟨tree, htree⟩ := exists_tree hs he operand h.1
    obtain ⟨exprs, hexprs⟩ := exists_operandTrees hs he rest h.2
    rw [operandTrees, htree, hexprs]
    exact ⟨_, rfl⟩
termination_by structural operands

theorem exists_negationTree (hs : schema.WellFormed) {name : String} {entity : Entity}
    (he : schema.entity name = .ok entity) (not : Option Filter)
    (h : EverywhereNegation schema Fits entity not) :
    ∃ trees, negationTree schema entity not = .ok trees := by
  cases not with
  | none => exact ⟨_, rfl⟩
  | some operand =>
    obtain ⟨tree, htree⟩ := exists_tree hs he operand h
    rw [negationTree, htree]
    exact ⟨_, rfl⟩
termination_by structural not

theorem exists_fieldTrees (hs : schema.WellFormed) {name : String} {entity : Entity}
    (he : schema.entity name = .ok entity) (fields : List (String × FieldFilter))
    (hf : (ofFields fields).Fits entity)
    (h : EverywhereFields schema Fits entity fields) :
    ∃ trees, fieldTrees schema entity fields = .ok trees := by
  match fields with
  | [] => exact ⟨_, rfl⟩
  | (field, .condition condition) :: rest =>
    obtain ⟨column, hcolumn⟩ := hf.condition List.mem_cons_self
    obtain ⟨trees, htrees⟩ := exists_fieldTrees hs he rest
      (hf.of_fields (List.subset_cons_self _ _)) h
    rw [fieldTrees, hcolumn, htrees]
    exact ⟨_, rfl⟩
  | (field, .relation nested) :: rest =>
    obtain ⟨relation, hrelation⟩ := hf.relation List.mem_cons_self
    obtain ⟨target, htarget⟩ := hs.targetEntity_eq_ok he hrelation
    obtain ⟨inner, hinner⟩ :=
      exists_tree hs htarget nested (h.1 relation target hrelation htarget)
    obtain ⟨tree, htree⟩ : ∃ tree, relationTree schema entity target relation nested
        (toTree schema target nested) = .ok tree :=
      exists_relationTree hs he hrelation htarget ⟨inner, hinner⟩
    obtain ⟨trees, htrees⟩ := exists_fieldTrees hs he rest
      (hf.of_fields (List.subset_cons_self _ _)) h.2
    rw [fieldTrees, hrelation]
    refine ⟨tree :: trees, ?_⟩
    refine Except.bind_eq_ok.mpr ⟨relation, rfl, ?_⟩
    refine Except.bind_eq_ok.mpr ⟨target, htarget, ?_⟩
    refine Except.bind_eq_ok.mpr ⟨tree, htree, ?_⟩
    exact Except.bind_eq_ok.mpr ⟨trees, htrees, rfl⟩
termination_by structural fields
end

theorem exists_toTree (hs : schema.WellFormed) {name : String} {entity : Entity}
    (he : schema.entity name = .ok entity) (filter : Filter)
    (h : Everywhere schema (Readable schema) entity filter) :
    ∃ tree, toTree schema entity filter = .ok tree :=
  exists_tree hs he filter (h.mono fun _ _ hreadable => hreadable.wellTyped.fits)

/-- In the database of a built schema, a filter without negation has a condition that holds of
exactly the rows satisfying the filter, provided that no condition on a key holds of a joining
column that is `NULL`. -/
theorem toTree_holds_iff {definitions : List (String × List EntityStep)}
    (hs : Schema.build definitions = .ok schema) (hc : store.HasColumns schema)
    (hp : store.PointsAtRows schema) {name : String} (he : schema.entity name = .ok entity)
    {filter : Filter} (hf : Everywhere schema (Readable schema) entity filter) :
    ∃ tree, toTree schema entity filter = .ok tree ∧
      ∀ row ∈ store.rows entity.tableName,
        (tree.truth? store [(entity.tableName, row)]).isSome ∧
          (tree.truth? store [(entity.tableName, row)] = some .holds ↔
            Holds schema store entity row filter) := by
  have hw := Schema.wellFormed_of_build hs
  obtain ⟨tree, htree⟩ := exists_toTree hw he filter hf
  refine ⟨tree, htree, fun row hrow => ?_⟩
  obtain ⟨hsome, hread⟩ := reads_toTree hc he filter htree [] row hrow
  exact ⟨hsome, hread ⟨⟨hw, hp⟩, hf⟩⟩

def authorSteps : List EntityStep := [.column "name" .string, .oneHasMany "posts" "Post" "author"]

def postSteps : List EntityStep :=
  [.column "title" .string,
   .manyHasOne "author" "Author" { onDelete := .cascade, inversedBy := some "posts" }]

/-- Authors with their posts. -/
def blog : Schema := .ofDefinitions [("Author", authorSteps), ("Post", postSteps)]

lemma build_blog : Schema.build [("Author", authorSteps), ("Post", postSteps)] = .ok blog := by
  decide

/-- An author with two posts, and a post without an author. -/
def blogStore : Store where
  rows
    | "author" => [[("id", .int 1), ("name", .string "Ada")]]
    | "post" =>
      [[("id", .int 1), ("title", .string "a"), ("author_id", .int 1)],
       [("id", .int 2), ("title", .null), ("author_id", .int 1)],
       [("id", .int 3), ("title", .string "c"), ("author_id", .null)]]
    | _ => []

lemma hasColumns_blogStore : blogStore.HasColumns blog :=
  Store.hasColumns_of_forall_mem (by decide) (by decide)

lemma pointsAtRows_blogStore : blogStore.PointsAtRows blog :=
  Store.pointsAtRows_of_forall_mem (by decide)

/-- Posts whose author has the key 1, which restricts nothing but the key of the author. -/
theorem toTree_holds_iff_blog :
    let post := Entity.ofSteps "Post" postSteps
    let filter := onRelation "author" (onColumn "id" (.compare .equal (.int 1)))
    ∃ tree, toTree blog post filter = .ok tree ∧
      ∀ row ∈ blogStore.rows "post",
        (tree.truth? blogStore [("post", row)]).isSome ∧
          (tree.truth? blogStore [("post", row)] = some .holds ↔
            Holds blog blogStore post row filter) := by
  have hbuild : Schema.build [("Author", authorSteps), ("Post", postSteps)] = .ok blog := by
    decide +kernel
  have hpost : blog.entity "Post" = .ok (.ofSteps "Post" postSteps) := by decide +kernel
  have hauthor : (Entity.ofSteps "Post" postSteps).relation "author" =
      .ok ⟨"author", "Author", .manyHasOne ⟨"author_id", .cascade⟩ true (some "posts")⟩ := by
    decide +kernel
  refine toTree_holds_iff hbuild hasColumns_blogStore pointsAtRows_blogStore hpost
    ⟨⟨⟨by simp, ?_⟩, rfl, ?_⟩, trivial, trivial, trivial, ⟨?_, trivial⟩⟩
  · intro name nested hm
    cases List.mem_singleton.mp hm
    exact ⟨_, hauthor⟩
  · intro name nested relation target condition hm _ _ _ hkey
    cases List.mem_singleton.mp hm
    have heq := onKeyOnly?_eq_some hkey
    simp only [onColumn, ofFields, mk.injEq, List.cons.injEq, Prod.mk.injEq,
      FieldFilter.condition.injEq] at heq
    rw [← heq.2.2.2.1.2]
    decide
  · intro relation target hr ht
    cases hauthor.symm.trans hr
    have htarget : blog.entity "Author" = .ok (.ofSteps "Author" authorSteps) := by decide +kernel
    cases htarget.symm.trans ht
    refine ⟨⟨⟨?_, by simp⟩, rfl, ?_⟩, trivial, trivial, trivial, trivial⟩
    · intro name condition hm
      cases List.mem_singleton.mp hm
      exact ⟨"id", by decide +kernel, fun _ => by decide +kernel⟩
    · intro name nested relation target condition hm
      simp at hm

end Filter

end EntityGraph

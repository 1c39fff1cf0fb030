import EntityGraph.Filter.Sql
import EntityGraph.Proofs.Schema.Instance
/-!
The reference reading of filters on the rows of a database. A restriction of a relation asks for a
row that is linked through the relation and satisfies the restriction; links are read from the side
that stores them.
-/
namespace EntityGraph

namespace Condition

mutual
/-- The truth value of a condition on a value. -/
def truth (value : Value) : Condition → Truth
  | and operands => .all (truths value operands)
  | or operands => .any (truths value operands)
  | not operand => (truth value operand).not
  | compare comparison other => comparison.test value other
  | oneOf values => Sql.memberTest value values
  | noneOf values => (Sql.memberTest value values).not
  | isNull flag | null flag => .ofBool (value.isNull == flag)
  | never => .fails
  | always => .holds
termination_by structural condition => condition

def truths (value : Value) : List Condition → List Truth
  | [] => []
  | operand :: rest => truth value operand :: truths value rest
termination_by structural operands => operands
end

mutual
/-- Equal values satisfy the same conditions. -/
theorem truth_congr {a b : Value} (h : Comparison.equal.test a b = .holds) (condition : Condition) :
    condition.truth a = condition.truth b := by
  have hnull : a.isNull = b.isNull := by
    obtain ⟨ha, hb, -⟩ := Comparison.equal_test_eq_holds.mp h
    rw [ha, hb]
  have hmember : ∀ values, Sql.memberTest a values = Sql.memberTest b values := by
    intro values
    simp only [Sql.memberTest, funext (Comparison.test_congr h .equal)]
  cases condition with
  | and operands => rw [truth, truth, truths_congr h operands]
  | or operands => rw [truth, truth, truths_congr h operands]
  | not operand => rw [truth, truth, truth_congr h operand]
  | compare comparison other => exact Comparison.test_congr h comparison other
  | oneOf values => exact hmember values
  | noneOf values => rw [truth, truth, hmember]
  | isNull flag => rw [truth, truth, hnull]
  | null flag => rw [truth, truth, hnull]
  | never => rfl
  | always => rfl
termination_by structural condition

theorem truths_congr {a b : Value} (h : Comparison.equal.test a b = .holds)
    (operands : List Condition) : truths a operands = truths b operands := by
  cases operands with
  | nil => rfl
  | cons operand rest => rw [truths, truths, truth_congr h operand, truths_congr h rest]
termination_by structural operands
end

end Condition

/-- Whether a relation that stores links leads from a row of `entity` to a row of `target`. -/
def Relation.Leads (store : Store) (entity target : Entity) (relation : Relation)
    (row other : Row) : Prop :=
  match relation.link with
  | .manyHasOne column .. => row.Agree column.columnName other target.primaryColumn
  | .oneHasOneOwning column .. => row.Agree column.columnName other target.primaryColumn
  | .manyHasManyOwning junction _ => ∃ entry ∈ store.rows junction.tableName,
      row.Agree entity.primaryColumn entry junction.joiningColumn.columnName ∧
        entry.Agree junction.inverseJoiningColumn.columnName other target.primaryColumn
  | _ => False

/-- Whether two rows are linked through a relation; an inverse relation has the links of the
relation that it is paired with. -/
def Relation.Linked (schema : Schema) (store : Store) (entity target : Entity) (relation : Relation)
    (row other : Row) : Prop :=
  if relation.kind.isOwning then relation.Leads store entity target row other
  else ∃ owning, schema.targetRelation relation = .ok (some owning) ∧
    owning.Leads store target entity other row

namespace Filter

variable (schema : Schema)

mutual
/-- Whether a row of an entity satisfies a filter. -/
def Holds (store : Store) (entity : Entity) (row : Row) : Filter → Prop
  | ⟨and, or, not, fields⟩ =>
    AllHold store entity row and ∧ (or = [] ∨ SomeHolds store entity row or) ∧
      NotHolds store entity row not ∧ FieldsHold store entity row fields
termination_by structural filter => filter

def AllHold (store : Store) (entity : Entity) (row : Row) : List Filter → Prop
  | [] => True
  | operand :: rest => Holds store entity row operand ∧ AllHold store entity row rest
termination_by structural operands => operands

def SomeHolds (store : Store) (entity : Entity) (row : Row) : List Filter → Prop
  | [] => False
  | operand :: rest => Holds store entity row operand ∨ SomeHolds store entity row rest
termination_by structural operands => operands

def NotHolds (store : Store) (entity : Entity) (row : Row) : Option Filter → Prop
  | none => True
  | some operand => ¬ Holds store entity row operand
termination_by structural operand => operand

def FieldsHold (store : Store) (entity : Entity) (row : Row) :
    List (String × FieldFilter) → Prop
  | [] => True
  | (name, .condition condition) :: rest =>
    (∃ column value, entity.columnName name = .ok column ∧ row.find? column = some value ∧
      condition.truth value = .holds) ∧ FieldsHold store entity row rest
  | (name, .relation nested) :: rest =>
    (∃ relation target, entity.relation name = .ok relation ∧
      schema.targetEntity relation = .ok target ∧
      ∃ other ∈ store.rows target.tableName,
        relation.Linked schema store entity target row other ∧ Holds store target other nested) ∧
    FieldsHold store entity row rest
termination_by structural fields => fields
end

mutual
/-- Whether a property of filters on an entity holds of a filter and of every filter inside it. -/
def Everywhere (P : Entity → Filter → Prop) (entity : Entity) : Filter → Prop
  | ⟨and, or, not, fields⟩ =>
    P entity ⟨and, or, not, fields⟩ ∧ EverywhereOperands P entity and ∧
      EverywhereOperands P entity or ∧ EverywhereNegation P entity not ∧
      EverywhereFields P entity fields
termination_by structural filter => filter

def EverywhereOperands (P : Entity → Filter → Prop) (entity : Entity) : List Filter → Prop
  | [] => True
  | operand :: rest => Everywhere P entity operand ∧ EverywhereOperands P entity rest
termination_by structural operands => operands

def EverywhereNegation (P : Entity → Filter → Prop) (entity : Entity) : Option Filter → Prop
  | none => True
  | some operand => Everywhere P entity operand
termination_by structural operand => operand

def EverywhereFields (P : Entity → Filter → Prop) (entity : Entity) :
    List (String × FieldFilter) → Prop
  | [] => True
  | (_, .condition _) :: rest => EverywhereFields P entity rest
  | (name, .relation nested) :: rest =>
    (∀ relation target, entity.relation name = .ok relation →
      schema.targetEntity relation = .ok target → Everywhere P target nested) ∧
    EverywhereFields P entity rest
termination_by structural fields => fields
end

variable {schema} in
lemma Everywhere.root {P : Entity → Filter → Prop} {entity : Entity} {filter : Filter}
    (h : Everywhere schema P entity filter) : P entity filter := by
  obtain ⟨and, or, not, fields⟩ := filter
  exact h.1

variable {schema} in
mutual
/-- What holds everywhere in a filter may be weakened. -/
theorem Everywhere.mono {P Q : Entity → Filter → Prop}
    (hpq : ∀ entity filter, P entity filter → Q entity filter) {entity : Entity} {filter : Filter}
    (h : Everywhere schema P entity filter) : Everywhere schema Q entity filter := by
  obtain ⟨and, or, not, fields⟩ := filter
  obtain ⟨hfilter, hand, hor, hnot, hfields⟩ := h
  exact ⟨hpq _ _ hfilter, EverywhereOperands.mono hpq hand, EverywhereOperands.mono hpq hor,
    EverywhereNegation.mono hpq hnot, EverywhereFields.mono hpq hfields⟩
termination_by structural filter

theorem EverywhereOperands.mono {P Q : Entity → Filter → Prop}
    (hpq : ∀ entity filter, P entity filter → Q entity filter) {entity : Entity}
    {operands : List Filter} (h : EverywhereOperands schema P entity operands) :
    EverywhereOperands schema Q entity operands := by
  cases operands with
  | nil => trivial
  | cons operand rest => exact ⟨Everywhere.mono hpq h.1, EverywhereOperands.mono hpq h.2⟩
termination_by structural operands

theorem EverywhereNegation.mono {P Q : Entity → Filter → Prop}
    (hpq : ∀ entity filter, P entity filter → Q entity filter) {entity : Entity}
    {not : Option Filter} (h : EverywhereNegation schema P entity not) :
    EverywhereNegation schema Q entity not := by
  cases not with
  | none => trivial
  | some operand =>
    rw [EverywhereNegation] at h ⊢
    exact Everywhere.mono hpq h
termination_by structural not

theorem EverywhereFields.mono {P Q : Entity → Filter → Prop}
    (hpq : ∀ entity filter, P entity filter → Q entity filter) {entity : Entity}
    {fields : List (String × FieldFilter)} (h : EverywhereFields schema P entity fields) :
    EverywhereFields schema Q entity fields := by
  match fields with
  | [] => trivial
  | (_, .condition _) :: rest =>
    rw [EverywhereFields] at h ⊢
    exact EverywhereFields.mono hpq h
  | (_, .relation nested) :: rest =>
    exact ⟨fun relation target hr ht => Everywhere.mono hpq (h.1 relation target hr ht),
      EverywhereFields.mono hpq h.2⟩
termination_by structural fields
end

/-- Whether the fields of a filter are of the sort that it restricts. A condition goes on a column,
or on the joining column of a relation that is not the key. -/
structure WellTyped (entity : Entity) (filter : Filter) : Prop where
  condition : ∀ {name condition}, (name, .condition condition) ∈ filter.fields →
    ∃ column, entity.columnName name = .ok column ∧
      (name = entity.primary → column = entity.primaryColumn)
  relation : ∀ {name nested}, (name, .relation nested) ∈ filter.fields →
    ∃ relation, entity.relation name = .ok relation

/-- Whether the fields of a filter have places to go: each condition a column, which a relation has
in its joining column, and each filter a relation. -/
structure Fits (entity : Entity) (filter : Filter) : Prop where
  condition : ∀ {name condition}, (name, .condition condition) ∈ filter.fields →
    ∃ column, entity.columnName name = .ok column
  relation : ∀ {name nested}, (name, .relation nested) ∈ filter.fields →
    ∃ relation, entity.relation name = .ok relation

lemma WellTyped.fits {entity : Entity} {filter : Filter} (h : filter.WellTyped entity) :
    filter.Fits entity where
  condition hm := (h.condition hm).imp fun _ hc => hc.1
  relation := h.relation

lemma Fits.of_fields {entity : Entity} {filter : Filter} (h : filter.Fits entity)
    {fields : List (String × FieldFilter)} (hf : fields ⊆ filter.fields) :
    (ofFields fields).Fits entity :=
  ⟨fun hm => h.condition (hf hm), fun hm => h.relation (hf hm)⟩

/-- Whether restrictions of fields fit, together with the filters inside them. -/
structure FieldsFit (entity : Entity) (fields : List (String × FieldFilter)) : Prop where
  fits : (ofFields fields).Fits entity
  inner : EverywhereFields schema Fits entity fields

namespace FieldsFit

variable {schema} {entity : Entity} {name : String} {rest : List (String × FieldFilter)}

lemma nil : FieldsFit schema entity [] :=
  ⟨⟨fun hm => absurd hm List.not_mem_nil, fun hm => absurd hm List.not_mem_nil⟩, trivial⟩

lemma condition {column : String} (hc : entity.columnName name = .ok column)
    (condition : Condition) (h : FieldsFit schema entity rest) :
    FieldsFit schema entity ((name, .condition condition) :: rest) := by
  refine ⟨⟨fun hm => ?_, fun hm => ?_⟩, h.inner⟩
  · rcases List.mem_cons.mp hm with heq | hm
    · cases heq
      exact ⟨column, hc⟩
    · exact h.fits.condition hm
  · rcases List.mem_cons.mp hm with heq | hm
    · cases heq
    · exact h.fits.relation hm

lemma relation {relation : Relation} {target : Entity} {nested : Filter}
    (hr : entity.relation name = .ok relation) (ht : schema.targetEntity relation = .ok target)
    (hn : Everywhere schema Fits target nested) (h : FieldsFit schema entity rest) :
    FieldsFit schema entity ((name, .relation nested) :: rest) := by
  refine ⟨⟨fun hm => ?_, fun hm => ?_⟩, fun other found hother hfound => ?_, h.inner⟩
  · rcases List.mem_cons.mp hm with heq | hm
    · cases heq
    · exact h.fits.condition hm
  · rcases List.mem_cons.mp hm with heq | hm
    · cases heq
      exact ⟨relation, hr⟩
    · exact h.fits.relation hm
  · cases hr.symm.trans hother
    cases ht.symm.trans hfound
    exact hn

lemma everywhere {fields : List (String × FieldFilter)} (h : FieldsFit schema entity fields) :
    Everywhere schema Fits entity (ofFields fields) :=
  ⟨h.fits, trivial, trivial, trivial, h.inner⟩

end FieldsFit

/-- Only the fields of a filter have to fit. -/
lemma Fits.of_ofFields {entity : Entity} {filter : Filter}
    (h : (ofFields filter.fields).Fits entity) : filter.Fits entity :=
  ⟨h.condition, h.relation⟩

/-- Whether no condition is put on a joining column in place of the key it points at that would
hold of `NULL`. -/
def NullSafe (entity : Entity) (filter : Filter) : Prop :=
  ∀ name nested relation target condition, (name, .relation nested) ∈ filter.fields →
    entity.relation name = .ok relation → relation.kind.hasJoiningColumn →
    schema.targetEntity relation = .ok target → onKeyOnly? target nested = some condition →
    condition.truth .null ≠ .holds

/-- What a filter and every filter inside it must satisfy for its condition to agree with its
reading: without negation, a condition that is unknown and one that fails select the same rows. -/
structure Readable (entity : Entity) (filter : Filter) : Prop where
  wellTyped : filter.WellTyped entity
  not_eq_none : filter.not = none
  nullSafe : filter.NullSafe schema entity

end Filter

end EntityGraph

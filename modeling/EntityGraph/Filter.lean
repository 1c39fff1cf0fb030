import EntityGraph.Table
import EntityGraph.Filter.Condition
/-!
Filters on the rows of an entity. All parts of a filter hold together: every filter of `and`, one
of `or` unless there is none, the negation of `not`, and the restriction of each field.
-/
namespace EntityGraph

mutual
/-- The fields are kept in ascending order of their names. -/
structure Filter where
  and : List Filter
  or : List Filter
  not : Option Filter
  fields : List (String × FieldFilter)

/-- A condition on a column, or a filter on the entity that a relation leads to. -/
inductive FieldFilter where
  | condition (condition : Condition)
  | relation (filter : Filter)
end

namespace Filter

/-- Restricts nothing. -/
def empty : Filter := ⟨[], [], none, []⟩

def ofFields (fields : Table FieldFilter) : Filter := { empty with fields }

def onColumn (name : String) (condition : Condition) : Filter := ofFields [(name, .condition condition)]

def onRelation (name : String) (nested : Filter) : Filter := ofFields [(name, .relation nested)]

def all (operands : List Filter) : Filter := { empty with and := operands }

def any (operands : List Filter) : Filter := { empty with or := operands }

def negation (operand : Filter) : Filter := { empty with not := some operand }

/-- A condition at the end of a path whose earlier steps are relations. -/
def atPath (condition : Condition) : List String → Filter
  | [] => empty
  | [name] => onColumn name condition
  | name :: rest => onRelation name (atPath condition rest)

def isEmpty (filter : Filter) : Bool :=
  filter.and.isEmpty && filter.or.isEmpty && filter.not.isNone && filter.fields.isEmpty

/-- Both filters together; one that restricts nothing is dropped. -/
def andWith (filter other : Filter) : Filter :=
  if filter.isEmpty then other else if other.isEmpty then filter else all [filter, other]

theorem eq_empty_of_isEmpty {filter : Filter} (h : filter.isEmpty = true) : filter = .empty := by
  obtain ⟨and, or, not, fields⟩ := filter
  simp only [isEmpty, Bool.and_eq_true, List.isEmpty_iff, Option.isNone_iff_eq_none] at h
  obtain ⟨⟨⟨rfl, rfl⟩, rfl⟩, rfl⟩ := h
  rfl

theorem andWith_empty (filter : Filter) : filter.andWith .empty = filter := by
  unfold andWith
  split
  · exact (eq_empty_of_isEmpty ‹_›).symm
  · rfl

end Filter

end EntityGraph

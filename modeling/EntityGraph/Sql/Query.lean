import EntityGraph.Sql.Expr
/-!
SQL queries: selections, writes and raw text.
-/
namespace EntityGraph.Sql

/-- The insertion of one row; without columns it takes every default. -/
structure Insert where
  table : TableRef
  values : List (ColumnRef × Expr)
  /-- Whether a row that conflicts with an existing one is passed over. -/
  skipsConflicts : Bool
  returning : List ColumnRef

structure Update where
  table : TableRef
  values : List (ColumnRef × Expr)
  condition : Option ConditionTree
  returning : List ColumnRef

structure Delete where
  table : TableRef
  condition : Option ConditionTree
  returning : List ColumnRef

inductive Query where
  | select (select : Select)
  | insert (insert : Insert)
  | update (update : Update)
  | delete (delete : Delete)
  | raw (text : String)

namespace Query

def isSelect : Query → Bool
  | select _ => true
  | _ => false

def isWrite : Query → Bool
  | insert _ => true
  | update _ => true
  | delete _ => true
  | _ => false

end Query

end EntityGraph.Sql

import EntityGraph.Value
/-!
The order of values: by kind first, in the order of the kinds' declaration, then within the kind.
Texts are ordered by code points, decimals by their numbers, lists lexicographically.
-/
namespace EntityGraph.Value

/-- The place of the kind of a value among the kinds. -/
def rank : Value → Nat
  | .string _ => 0
  | .boolean _ => 1
  | .int _ => 2
  | .uuid _ => 3
  | .float _ => 4
  | .literal _ => 5
  | .list _ => 6
  | .null => 7

def compareText (a b : String) : Ordering :=
  if a < b then .lt else if a = b then .eq else .gt

mutual
def compare : Value → Value → Ordering
  | .string a, .string b => compareText a b
  | .boolean a, .boolean b => Ord.compare a.toNat b.toNat
  | .int a, .int b => Ord.compare a.toInt b.toInt
  | .uuid a, .uuid b => a.compare b
  | .float a, .float b => a.compare b
  | .literal a, .literal b => compareText a b
  | .list a, .list b => compareLists a b
  | a, b => Ord.compare a.rank b.rank
termination_by structural a => a

/-- The first item that differs decides; a list comes before its extensions. -/
def compareLists : List Value → List Value → Ordering
  | [], [] => .eq
  | [], _ :: _ => .lt
  | _ :: _, [] => .gt
  | a :: as, b :: bs => (compare a b).then (compareLists as bs)
termination_by structural as => as
end

mutual
/-- Whether two values are the same: of one kind, with the same content, decimals being compared
as numbers. -/
def equal : Value → Value → Bool
  | .string a, .string b => a = b
  | .boolean a, .boolean b => a = b
  | .int a, .int b => a = b
  | .uuid a, .uuid b => a = b
  | .float a, .float b => a.equal b
  | .literal a, .literal b => a = b
  | .list a, .list b => equalLists a b
  | .null, .null => true
  | _, _ => false
termination_by structural a => a

def equalLists : List Value → List Value → Bool
  | [], [] => true
  | a :: as, b :: bs => equal a b && equalLists as bs
  | _, _ => false
termination_by structural as => as
end

/-- Ascending, values that compare equal keeping their order. -/
def sort (values : List Value) : List Value :=
  values.mergeSort fun a b => (compare a b).isLE

end EntityGraph.Value

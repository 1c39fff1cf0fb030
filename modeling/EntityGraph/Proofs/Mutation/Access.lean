import EntityGraph.Proofs.Filter.Meaning
import EntityGraph.Proofs.Mutation.Guarding
import EntityGraph.Script.Database
/-!
# Access rules

Operations on rows read, write and delete the rows of an entity only under a condition that an
answer of the access rules is part of; and such a condition holds of a row only if the answer alone
admits the row. An update asks about the fields of its input, not about every field that shares a
column with one of them.
-/
namespace EntityGraph

open Sql (ConditionTree)

/-! ### Conditions -/

namespace Filter

variable {schema : Schema} {entity : Entity}

/-- Filters that restrict something are translated side by side. -/
lemma toTree_all_pair {filter predicate : Filter} {tree : ConditionTree}
    (h : (Filter.all [filter, predicate]).toTree schema entity = .ok tree) :
    ∃ first second, filter.toTree schema entity = .ok first ∧
      predicate.toTree schema entity = .ok second ∧
      tree = .and [.condition first, .condition second] := by
  rw [toTree_all (List.cons_ne_nil _ _)] at h
  obtain ⟨operands, hoperands, h⟩ := Except.bind_eq_ok.mp h
  obtain ⟨first, hfirst, hoperands⟩ := Except.bind_eq_ok.mp hoperands
  obtain ⟨others, hothers, hoperands⟩ := Except.bind_eq_ok.mp hoperands
  obtain ⟨second, hsecond, hothers⟩ := Except.bind_eq_ok.mp hothers
  cases hothers
  cases hoperands
  cases h
  exact ⟨first, second, hfirst, hsecond, rfl⟩

/-- What holds under a filter and a predicate together holds under the predicate alone. -/
theorem holds_of_andWith {filter predicate : Filter} {tree : ConditionTree}
    (h : (filter.andWith predicate).toTree schema entity = .ok tree) :
    ∃ own, predicate.toTree schema entity = .ok own ∧
      ∀ store scope, tree.truth? store scope = some .holds →
        own.truth? store scope = some .holds := by
  unfold andWith at h
  split at h
  · exact ⟨tree, h, fun _ _ => id⟩
  · split at h
    · rename_i hempty
      rw [eq_empty_of_isEmpty hempty]
      exact ⟨.always, rfl, fun _ _ _ => rfl⟩
    · obtain ⟨first, second, -, hsecond, rfl⟩ := toTree_all_pair h
      refine ⟨second, hsecond, fun store scope hholds => ?_⟩
      obtain ⟨truths, htruths, hall⟩ := Option.map_eq_some_iff.mp hholds
      obtain ⟨truth, -, htruths⟩ := Option.bind_eq_some_iff.mp htruths
      obtain ⟨rest, hrest, htruths⟩ := Option.bind_eq_some_iff.mp htruths
      obtain ⟨own, hown, hrest⟩ := Option.bind_eq_some_iff.mp hrest
      cases hrest
      cases htruths
      rw [Truth.all_eq_holds] at hall
      rw [← hall own (by simp)]
      exact hown

end Filter

/-! ### Runs -/

/-- The entity is the given one, or one of the schema. -/
def Schema.Knows (schema : Schema) (root entity : Entity) : Prop :=
  entity = root ∨ ∃ name, (name, entity) ∈ schema.entities

namespace Mutation

namespace Session

variable (session : Session)

def sharingSteps : List EntityStep := [.column "authorId" .uuid, .manyHasOne "author" "Author" {}]

/-- Posts with a relation to their author and a plain field for the joining column. -/
def sharing : Schema := .ofDefinitions [("Post", sharingSteps), ("Author", [])]

def sharingPost : Entity := .ofSteps "Post" sharingSteps

/-- Under these rules nobody may set the author of a post. -/
def fixedAuthor (_ : Entity) (operation : AccessOperation) (fields : List String) : Filter :=
  if operation = .update && fields.contains "author" then .onColumn "id" .never else .empty

/-- Puts another author into the plain field of the post with the key 1. -/
def reassignment : RowRequest :=
  .update sharingPost (byPrimary sharingPost (.uuid ⟨1⟩))
    (Data.empty.withValue "authorId" (.uuid ⟨2⟩))

/-- A database that has the post. -/
def sharingWorld : Script.World :=
  { Script.World.empty with
    responses := [⟨"SELECT", false, .rows ⟨["id"], [[.uuid ⟨1⟩]], none⟩⟩] }

def reassigning : Option (List (Program.Exchange Effect) × Except Failure (List Result)) :=
  let answers : (request : Effect.Request) → Script.World →
    Option (Effect.Reply request × Script.World) := Script.answer
  (rows ⟨sharing, .standard⟩ 2 reassignment).trace? answers sharingWorld

/-- The rules admit every row, and are not asked about setting the author. -/
def isAdmitting : Program.Exchange Effect → Bool
  | ⟨.predicate _ operation fields, (filter : Filter)⟩ =>
    filter.isEmpty && !(operation = .update && fields.contains "author")
  | _ => true

/-- The joining column of a post is written under a condition that is no conjunction. -/
def setsAuthor : Program.Exchange Effect → Bool
  | ⟨.execute (.update ⟨table, values, some (.single _), _⟩), _⟩ =>
    table = Sql.table "post" && values.map Prod.fst = [Sql.column "author_id"]
  | _ => false

lemma obeys_of_isAdmitting {exchange : Program.Exchange Effect} (h : isAdmitting exchange = true) :
    exchange.Obeys fun entity operation fields predicate =>
      predicate = fixedAuthor entity operation fields := by
  obtain ⟨request, reply⟩ := exchange
  cases (request : EffectRequest) with
  | predicate entity operation fields =>
    obtain ⟨hempty, hasked⟩ := Bool.and_eq_true_iff.mp h
    rw [Bool.not_eq_true'] at hasked
    show reply = fixedAuthor entity operation fields
    rw [fixedAuthor, hasked, if_neg Bool.false_ne_true]
    exact Filter.eq_empty_of_isEmpty hempty
  | _ => trivial

lemma eq_of_setsAuthor {exchange : Program.Exchange Effect} (h : setsAuthor exchange = true) :
    ∃ values expr returning reply, values.map Prod.fst = [Sql.column "author_id"] ∧ exchange =
      ⟨.execute (.update ⟨Sql.table "post", values, some (.single expr), returning⟩), reply⟩ := by
  unfold setsAuthor at h
  split at h
  · obtain ⟨htable, hvalues⟩ := Bool.and_eq_true_iff.mp h
    obtain rfl := of_decide_eq_true htable
    exact ⟨_, _, _, _, of_decide_eq_true hvalues, rfl⟩
  · cases h

/-- Under the answer for every field in the column, no condition is that of the update. -/
lemma toTree_andWith_fixedAuthor {filter : Filter} {fields : List String} {expr : Sql.Expr}
    (h : "author" ∈ fields) :
    (filter.andWith (fixedAuthor sharingPost .update fields)).toTree sharing sharingPost ≠
      .ok (.single expr) := by
  have hanswer : fixedAuthor sharingPost .update fields = .onColumn "id" .never :=
    if_pos (by simpa using h)
  rw [hanswer]
  intro htree
  unfold Filter.andWith at htree
  split at htree
  · have hnever : (Filter.onColumn "id" .never).toTree sharing sharingPost = .ok .never := by
      rfl
    rw [hnever] at htree
    cases htree
  · have hrestricts : (Filter.onColumn "id" .never).isEmpty = false := rfl
    rw [hrestricts, if_neg Bool.false_ne_true] at htree
    obtain ⟨first, second, -, -, heq⟩ := Filter.toTree_all_pair htree
    cases heq

lemma reassigning_run :
    ∃ trace result, (rows ⟨sharing, .standard⟩ 2 reassignment).Reaches trace (.done result) ∧
      (∀ exchange ∈ trace, exchange.Obeys fun entity operation fields predicate =>
        predicate = fixedAuthor entity operation fields) ∧
      ∃ exchange ∈ trace, setsAuthor exchange = true := by
  have hrun : (match reassigning with
      | some (trace, _) => trace.all isAdmitting && trace.any setsAuthor
      | none => false) = true := by
    decide +kernel
  rcases hreassigning : reassigning with _ | ⟨trace, result⟩
  · rw [hreassigning] at hrun
    contradiction
  · rw [hreassigning, Bool.and_eq_true, List.all_eq_true, List.any_eq_true] at hrun
    exact ⟨trace, result, Program.reaches_of_trace? hreassigning,
      fun exchange hmem => obeys_of_isAdmitting (hrun.1 exchange hmem), hrun.2⟩

end Session

end Mutation

end EntityGraph

import EntityGraph.Proofs.Mutation.InputPaths
import EntityGraph.Proofs.Mutation.Typing
/-!
# Paths of results

The path of a result leads to an input. Most inputs were given with the data of the write; the
others were brought along by an operation on a relation, and the paths to them go on where the given
data has ended.
-/
namespace EntityGraph

open Mutation

namespace Mutation

variable {schema : Schema} {entity : Entity} {data : Data} {sides : RelationSides}

/-! ### Plans -/

section Plans

variable {field : String} (hentity : entity.WellFormed)
  (hsides : RelationSides.ofField schema entity field = .ok sides)
include hentity hsides

lemma input_one {input : ToOneInput} (hfield : (field, .one input) ∈ data.fields) :
    data.Input schema entity sides.path sides input.parts (input.Brings sides) := by
  have hinput : data.Input schema entity [.field field] sides _ _ := .one hfield hsides
  rwa [← hentity.relation_name (RelationSides.relation_of_ofField hsides).2] at hinput

lemma input_item {items : List ToManyItem} (hfield : (field, .many items) ∈ data.fields)
    (index : Nat) (item : ToManyItem) (hitem : items[index]? = some item) :
    data.Input schema entity (sides.itemPath index item.label) sides item.input.parts
      (item.input.Brings sides) := by
  have hinput : data.Input schema entity [.field field, .index index item.label] sides _ _ :=
    .item hfield hsides hitem
  rwa [← hentity.relation_name (RelationSides.relation_of_ofField hsides).2] at hinput

end Plans

section Plans

variable (hs : ∀ pair ∈ schema.entities, pair.2.WellFormed) (hentity : entity.WellFormed)

/-- What an input that waits for the key of the new row reports leads to an input of the data. -/
def Pending.Leads (schema : Schema) (entity : Entity) (data : Data) : Pending → Prop
  | one sides input => sides.Within Entity.WellFormed ∧
    data.Input schema entity sides.path sides input.parts (input.Brings sides)
  | many sides items => sides.Within Entity.WellFormed ∧
    ∀ index item, items[index]? = some item →
      data.Input schema entity (sides.itemPath index item.label) sides item.input.parts
        (item.input.Brings sides)

include hs hentity in
lemma leading_planInsert : Satisfies (fun plan =>
      (∀ entry ∈ plan.1, entry.2.Yields (pathContract schema) (data.Led schema entity)
        (Fatally fun _ => True)) ∧ ∀ waiting ∈ plan.2, waiting.Leads schema entity data)
      (fun _ => True) (planInsert schema entity data.fields) := by
  refine satisfies_planInsert (fun _ _ _ => trivial) (fun field input hmem => ?_)
    fun field items hmem => ?_
  · cases hsides : RelationSides.ofField schema entity field with
    | error failure => trivial
    | ok sides =>
      have hwithin := RelationSides.within_ofField hs hentity hsides
      have hinput := input_one hentity hsides hmem
      dsimp only [Satisfies]
      split
      · exact leading_createColumn hwithin hinput
      · exact ⟨hwithin, hinput⟩
  · cases hsides : RelationSides.ofField schema entity field with
    | error failure => trivial
    | ok sides =>
      exact ⟨RelationSides.within_ofField hs hentity hsides, input_item hentity hsides hmem⟩

lemma leading_afterInsert {primary : Value} {pending : List Pending}
    (h : ∀ waiting ∈ pending, waiting.Leads schema entity data) :
    Satisfies (fun operations => ∀ operation ∈ operations,
      Yields (pathContract schema) (data.Led schema entity) (Fatally fun _ => True) operation)
      (fun _ => True) (afterInsert primary pending) := by
  refine satisfies_afterInsert (fun sides input hmem => ?_) fun sides items hmem => ?_
  · obtain ⟨hwithin, hinput⟩ := h _ hmem
    exact RelatedRow.leading_createToOne hwithin hinput
  · obtain ⟨hwithin, hinput⟩ := h _ hmem
    exact RelatedRow.leading_createToMany hwithin hinput

include hs hentity in
lemma leading_planUpdate (primary : Value) : Satisfies (fun plan =>
      (∀ entry ∈ plan.1, entry.2.Yields (pathContract schema) (data.Led schema entity)
        (Fatally fun _ => True)) ∧ ∀ operation ∈ plan.2,
      Yields (pathContract schema) (data.Led schema entity) (Fatally fun _ => True) operation)
      (fun _ => True) (planUpdate schema entity primary data.fields) := by
  refine satisfies_planUpdate (fun _ _ _ => trivial) (fun field input hmem => ?_)
    fun field items hmem => ?_
  · cases hsides : RelationSides.ofField schema entity field with
    | error failure => trivial
    | ok sides =>
      exact RelatedRow.leading_toOneStep (RelationSides.within_ofField hs hentity hsides)
        (input_one hentity hsides hmem)
  · cases hsides : RelationSides.ofField schema entity field with
    | error failure => trivial
    | ok sides =>
      exact RelatedRow.leading_toManyOperations (RelationSides.within_ofField hs hentity hsides)
        (input_item hentity hsides hmem)

end Plans

/-! ### Rows -/

namespace Session

section Paths

variable (session : Session) {rows : RowAnswers}
  (hrows : ∀ request, (pathContract session.schema).Permits request →
    (rows request).Meets .any ((pathContract session.schema).Answers request))

/-- A failure that is a result is about the data itself. -/
lemma led_classified (failure : Failure) :
    Yields .any (data.Led session.schema entity) (fun _ => True)
      (liftExcept failure.classified : Action Effect (List Result)) :=
  (Returns.classified (E := fun _ => True) trivial
    (rescued_of_root fun _ => led_of_root)).mono (fun _ => id) fun _ _ => trivial

/-- Results that are about the data itself lead to it. -/
lemma led_pure {results : List Result} (h : ∀ result ∈ results, result.path = []) :
    Yields .any (data.Led session.schema entity) (fun _ => True)
      (pure results : Action Effect (List Result)) :=
  .pure fun result hmem => led_of_root (h result hmem)

variable (hs : session.schema.WellFormed) (hentity : entity.WellFormed)
include hrows hs hentity

lemma led_insertRow (data : Data) : Yields .any (data.Led session.schema entity) (fun _ => True)
    (session.insertRow rows entity data) := by
  refine Returns.bind (.liftExcept (leading_planInsert hs.entity_wellFormed hentity))
    fun plan hplan => ?_
  obtain ⟨values, pending⟩ := plan
  refine (returns_withKey (fun _ => trivial) hplan.1).bind fun keyed hkeyed => ?_
  refine (yields_insertValues hrows hkeyed session).attempt_bind fun outcome houtcome => ?_
  obtain failure | ⟨_ | primary, inserted, results⟩ := outcome
  · exact session.led_classified failure
  · exact .pure (List.forall_mem_cons.mpr ⟨led_of_root rfl, houtcome⟩)
  · refine Returns.bind (.liftExcept (leading_afterInsert hplan.2)) fun operations hoperations => ?_
    refine ((Returns.collectAll hoperations .of_fatally).answered_any hrows).bind
      fun related hrelated => ?_
    exact .pure (List.forall_mem_cons.mpr ⟨led_of_root rfl,
      List.forall_mem_append.mpr ⟨houtcome, hrelated⟩⟩)

lemma led_updateFound (data : Data) (primary : Value) :
    Yields .any (data.Led session.schema entity) (fun _ => True)
      (session.updateFound rows entity primary data) := by
  refine Returns.bind (.liftExcept (leading_planUpdate hs.entity_wellFormed hentity primary))
    fun plan hplan => ?_
  obtain ⟨values, operations⟩ := plan
  refine (Returns.trivial _).bind fun tree _ => ?_
  refine (yields_updateValues hrows hplan.1 session tree).attempt_bind fun own hown => ?_
  refine ((Returns.collectAll hplan.2 .of_fatally).answered_any hrows).attempt_bind
    fun related hrelated => ?_
  have hlast (results : List Result)
      (hresults : ∀ result ∈ results, data.Led session.schema entity result) :
      Yields .any (data.Led session.schema entity) (fun _ => True) (do
        return results ++ (← liftExcept related) : Action Effect (List Result)) :=
    Returns.bind (.liftExcept hrelated) fun _ hothers =>
      .pure (List.forall_mem_append.mpr ⟨hresults, hothers⟩)
  cases own with
  | ok updated =>
    refine hlast _ ?_
    unfold updateResults
    split
    · exact List.forall_mem_cons.mpr ⟨led_of_root rfl, hown⟩
    · exact List.forall_mem_cons.mpr ⟨led_of_root rfl, hown⟩
  | error failure => exact (session.led_classified failure).bind hlast

lemma led_updateRow (which : UniqueWhere) (data : Data) :
    Yields .any (data.Led session.schema entity) (fun _ => True)
      (session.updateRow rows entity which data) := by
  rw [updateRow]
  cases which.expand entity with
  | error e => exact session.led_classified _
  | ok filter =>
    refine (Returns.trivial _).bind fun found _ => ?_
    cases found with
    | none => exact session.led_pure (List.forall_mem_singleton.mpr rfl)
    | some primary =>
      exact .ite (fun _ => session.led_pure (List.forall_mem_singleton.mpr rfl)) fun _ =>
        session.led_updateFound hrows hs hentity data primary

omit hrows hs hentity in
lemma root_deleteRow (depth : Nat) (owner : Entity) (which : UniqueWhere) :
    Yields .any (fun result => result.path = []) (fun _ => True)
      (session.deleteRow depth owner which) := by
  have hclassified (failure : Failure) : Yields .any (fun result => result.path = [])
      (fun _ => True) (liftExcept failure.classified : Action Effect (List Result)) :=
    (Returns.classified (E := fun _ => True) trivial (rescued_of_root fun _ => id)).mono
      (fun _ => id) fun _ _ => trivial
  rw [deleteRow]
  cases which.expand owner with
  | error e => exact hclassified _
  | ok filter =>
    refine (Returns.trivial _).attempt_bind fun outcome _ => ?_
    cases outcome with
    | ok deleted => exact .pure (List.forall_mem_map.mpr fun _ _ => rfl)
    | error failure => exact hclassified failure

omit hrows hs hentity in
lemma root_linkedResult (owner : Entity) (relation : Relation) (ownerKey inversedKey : Value)
    (idle : IdleReason) (count : Nat) :
    ∀ result ∈ linkedResult owner relation ownerKey inversedKey idle count, result.path = [] := by
  rw [linkedResult]
  split
  · exact List.forall_mem_singleton.mpr rfl
  · exact List.forall_mem_singleton.mpr rfl

omit hrows hentity in
/-- What is reported leads to an input, to any depth. -/
theorem meets_rows_paths (depth : Nat) (request : RowRequest)
    (hrequest : (pathContract session.schema).Permits request) :
    (session.rows depth request).Meets .any ((pathContract session.schema).Answers request) := by
  induction depth generalizing request with
  | zero => cases request <;> exact ⟨trivial, fun reply _ => nomatch reply⟩
  | succ depth ih =>
    cases request with
    | insert entity data => exact session.led_insertRow ih hs hrequest data
    | update entity which data => exact session.led_updateRow ih hs hrequest which data
    | delete entity which => exact session.root_deleteRow depth entity which
    | selectField entity which field =>
      exact (Program.meets_answering _).mono fun _ _ _ => trivial
    | primaryValue entity which => exact (Program.meets_answering _).mono fun _ _ _ => trivial
    | connect owner relation ownerKey inversedKey =>
      exact (Returns.trivial _).bind fun _ _ => (Returns.trivial _).bind fun count _ =>
        .pure (root_linkedResult _ _ _ _ _ _)
    | disconnect owner relation ownerKey inversedKey =>
      exact (Returns.trivial _).bind fun _ _ => (Returns.trivial _).bind fun count _ =>
        .pure (root_linkedResult _ _ _ _ _ _)

end Paths

/-- Whatever the database answers, the path of every result of a write leads to an input: to one
that was given with the data, or to one that an operation in the data brought along. -/
theorem result_path_leads_to_input (session : Session) (hs : session.schema.WellFormed)
    {entity : Entity} (hentity : session.schema.Declares entity) (depth : Nat) (data : Data)
    (trace : List (Program.Exchange Effect)) (results : List Result) :
    ((session.rows depth (.insert entity data)).Reaches trace (.done (.ok results)) →
      ∀ result ∈ results, data.Leads session.schema .given entity result.path ∨
        data.Leads session.schema .added entity result.path ∧
          data.Brings session.schema entity) ∧
    ∀ which, (session.rows depth (.update entity which data)).Reaches trace (.done (.ok results)) →
      ∀ result ∈ results, data.Leads session.schema .given entity result.path ∨
        data.Leads session.schema .added entity result.path ∧
          data.Brings session.schema entity := by
  have hnamed : entity.WellFormed := hs.wellFormed hentity
  have horigin {result : Result} (h : data.Led session.schema entity result) :
      data.Leads session.schema .given entity result.path ∨
        data.Leads session.schema .added entity result.path ∧
          data.Brings session.schema entity := by
    obtain ⟨_ | _, hleads⟩ := h
    · exact .inl hleads
    · exact .inr ⟨hleads, hleads.brings⟩
  refine ⟨fun hrun result hmem => ?_, fun which hrun result hmem => ?_⟩
  · exact horigin (Returns.of_reaches
      (session.meets_rows_paths hs depth (.insert entity data) hnamed) hrun result hmem)
  · exact horigin (Returns.of_reaches
      (session.meets_rows_paths hs depth (.update entity which data) hnamed) hrun result hmem)

/-- An author is created with a post, and each of the two results leads to its input. -/
theorem result_path_leads_to_input_author :
    blogSession.schema.WellFormed ∧ blogSession.schema.Declares author ∧
    ∃ trace results, (blogSession.rows 3 (.insert author authorWithPost)).Reaches trace
        (.done (.ok results)) ∧ results.length = 2 ∧
      ∀ result ∈ results, authorWithPost.Leads blogSession.schema .given author result.path ∨
        authorWithPost.Leads blogSession.schema .added author result.path ∧
          authorWithPost.Brings blogSession.schema author := by
  have htest : (Script.run (blogSession.rows 3 (.insert author authorWithPost)) countingWorld).any
      (fun outcome => reports 2 (fun _ => true) outcome.1) = true := by decide +kernel
  obtain ⟨trace, failure | results, hrun, htest⟩ := Program.exists_reaches_of_run htest
  · cases htest
  have hschema : blogSession.schema.WellFormed := Schema.wellFormed_of_build Filter.build_blog
  have hauthor : blogSession.schema.Declares author :=
    hschema.declares (show blogSession.schema.entity "Author" = .ok author by decide +kernel)
  exact ⟨hschema, hauthor, trace, results, hrun,
    of_decide_eq_true (Bool.and_eq_true_iff.mp htest).1,
    (result_path_leads_to_input blogSession hschema hauthor 3 authorWithPost trace results).1 hrun⟩

def pairedAuthorSteps : List EntityStep :=
  [.column "name" .string, .oneHasOneInverse "profile" "Profile" "author" {}]

def pairedProfileSteps : List EntityStep :=
  [.oneHasOne "author" "Author" { inversedBy := some "profile" }]

/-- Authors with a profile each, seen from both sides. -/
def pairedProfiles : Schema :=
  .ofDefinitions [("Author", pairedAuthorSteps), ("Profile", pairedProfileSteps)]

/-- The author takes over a profile. -/
def connectingProfile : Data := ⟨[("profile", .one (.connect (.single "id" (.int 10))))]⟩

/-- A database in which the profile 11 is the one of the author 1. -/
def claimedWorld : Script.World :=
  { Script.World.empty with
    responses := [⟨"SELECT \"id\" FROM \"author\"", true, .rows ⟨["id"], [[.int 1]], none⟩⟩,
      ⟨"SELECT \"id\" FROM \"profile\" WHERE \"id\"", false, .rows ⟨["id"], [[.int 10]], none⟩⟩,
      ⟨"SELECT \"id\" FROM \"profile\"", true, .rows ⟨["id"], [[.int 11]], none⟩⟩] }

/-- No data was given inside the operation, so no given input lies below it. -/
lemma not_leads_connectingProfile {entity : Entity} {first second : PathSegment} :
    ¬ connectingProfile.Leads pairedProfiles .given entity [first, second] := by
  intro h
  generalize hpath : [first, second] = path at h
  have hmany {field : String} {items : List ToManyItem} :
      (field, .many items) ∉ connectingProfile.fields := by simp [connectingProfile]
  cases h with
  | root => cases hpath
  | input hinput =>
    cases hinput with
    | one hfield => cases hpath
    | item hfield => exact hmany hfield
  | inside hinput hpart =>
    cases hinput with
    | one hfield =>
      cases List.mem_singleton.mp hfield
      exact absurd hpart List.not_mem_nil
    | item hfield => exact hmany hfield

/-- The profile before loses the author, and the client is told so under a field that the data of
the update does not have. -/
theorem path_below_given_input :
    Schema.build [("Author", pairedAuthorSteps), ("Profile", pairedProfileSteps)] =
      .ok pairedProfiles ∧
    ∃ trace results, (rows ⟨pairedProfiles, .standard⟩ 4 (.update
        (.ofSteps "Author" pairedAuthorSteps) (.single "id" (.int 1)) connectingProfile)).Reaches
        trace (.done (.ok results)) ∧
      ∃ result ∈ results, result.path = [.field "profile", .field "author"] ∧
        ¬ connectingProfile.Leads pairedProfiles .given (.ofSteps "Author" pairedAuthorSteps)
          result.path := by
  have htest : (Script.run (rows ⟨pairedProfiles, .standard⟩ 4 (.update
      (.ofSteps "Author" pairedAuthorSteps) (.single "id" (.int 1)) connectingProfile))
      claimedWorld).any (fun outcome => reports 3 (fun results => results.any fun result =>
        result.path = [.field "profile", .field "author"]) outcome.1) = true := by decide +kernel
  obtain ⟨trace, failure | results, hrun, htest⟩ := Program.exists_reaches_of_run htest
  · cases htest
  obtain ⟨result, hmem, hpath⟩ := List.any_eq_true.mp (Bool.and_eq_true_iff.mp htest).2
  have hpath := of_decide_eq_true hpath
  refine ⟨by decide +kernel, trace, results, hrun, result, hmem, hpath, ?_⟩
  rw [hpath]
  exact not_leads_connectingProfile

end Session

end Mutation

end EntityGraph

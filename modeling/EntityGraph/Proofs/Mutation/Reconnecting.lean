import EntityGraph.Proofs.Mutation.Connecting
/-!
# Connecting again

An update that only connects its row sends nothing but look-ups and insertions that are passed over
where all of its links are stored. An update that connected its row without an error has stored
them, so it may be sent again.
-/
namespace EntityGraph.Mutation

/-- What an entry reports whose links are stored. -/
def reconnectedEntry : String × FieldInput → List Result
  | (field, .many items) => alreadyLinked field 0 items
  | _ => []

/-- What an update reports that only connects a row which is connected already. -/
def reconnected (entity : Entity) (key : Value) (data : Data) : List Result :=
  if data.isEmpty then [.atRoot (.idle .noData)]
  else .atRoot (.updated entity.name key []) :: data.fields.flatMap reconnectedEntry

lemma noErrors_reconnected (entity : Entity) (key : Value) (data : Data) :
    NoErrors (reconnected entity key data) := by
  rw [reconnected]
  split
  · exact noErrors_cons.mpr ⟨rfl, noErrors_nil⟩
  · refine noErrors_cons.mpr ⟨rfl, fun result hmem => ?_⟩
    obtain ⟨⟨field, input⟩, -, hresult⟩ := List.mem_flatMap.mp hmem
    cases input with
    | value | one => cases hresult
    | many items => exact noErrors_alreadyLinked _ _ _ result hresult

/-- Only the links of one-to-one relations are claims. -/
lemma kind_of_claims {schema : Schema} {entity : Entity} {field column : String}
    {sides : RelationSides} (hsides : RelationSides.ofField schema entity field = .ok sides)
    (hclaims : entity.Claims field column) : sides.kind = .oneHasOneOwning := by
  obtain ⟨rfl, hrelation⟩ := RelationSides.relation_of_ofField hsides
  obtain ⟨_, -, hsame, hkind, -⟩ := hclaims
  cases hrelation.symm.trans hsame
  exact hkind

/-- Where all links of a row are stored, so are those of its one-to-one relations. -/
lemma Linked.claimed {server : Server} {schema : Schema} {entity : Entity} {store : Store}
    {key : Value} {entry : String × FieldInput}
    (h : Linked server schema entity store key entry) : Claimed schema entity store key entry := by
  cases h with
  | one h => exact h
  | many => exact .many _ _

section Links

variable (server : Server) (depth : Nat) {store : Store} {session : Session} {entity : Entity}
  {key which : Value}

variable (hs : session.schema.WellFormed) (hkeys : session.schema.KeysAreColumns)
  (hentity : session.schema.Declares entity)
include hs hkeys hentity

/-- A connect of a row that claims its target leaves its column alone. -/
lemma runs_claimTarget {field column : String} {sides : RelationSides} {given target : Value}
    (hsides : RelationSides.ofField session.schema entity field = .ok sides)
    (hclaims : entity.Claims field column)
    (htarget : store.LeadsTo sides.target.tableName sides.target.primaryColumn
      sides.target.primaryColumn given target)
    (hlinked : store.LeadsTo entity.tableName entity.primaryColumn column target key) :
    server.Runs EffectRequest.SparesRows (answered (session.rows (depth + 1))
      (claimTarget sides (byPrimary sides.target given) (some key))).run store (.ok (.skip []))
      store := by
  obtain ⟨htyped, -⟩ := RelationSides.typed_of_ofField hs hentity hsides
  obtain ⟨rfl, hrelation⟩ := RelationSides.relation_of_ofField hsides
  obtain ⟨_, joining, hsame, hkind, hjoining, rfl⟩ := hclaims
  cases hrelation.symm.trans hsame
  have howning : ¬ sides.kind ≠ .oneHasOneOwning := not_not.mpr hkind
  have howner : isRow (some key) key = true :=
    (Value.compare_eq_iff_equal key key).mp (Value.compare_self key)
  rw [claimTarget, answered_bind]
  refine Server.runs_run_bind_ok_iff.mpr ⟨some target, store,
    Session.runs_primaryValue_of_leadsTo (hkeys.columnName_primary hs htyped.target) htarget, ?_⟩
  dsimp only
  rw [if_neg howning, answered_bind]
  refine Server.runs_run_bind_ok_iff.mpr ⟨some key, store, ?_, ?_⟩
  · rw [Session.answered_primaryValue, ← hlinked.found_eq server]
    exact Session.runs_claim (hs.wellFormed hentity) htyped.relation hjoining hkind
      (hkeys.columnName_primary hs hentity) htyped.targetEntity hlinked.holds
      fun row hrow hhas => ⟨key, hlinked.key row hrow hhas⟩
  · dsimp only
    rw [if_pos howner]
    exact Server.runs_done_iff.mpr ⟨rfl, rfl⟩

/-- The values of a row that claims its targets are left out, without a result. -/
lemma exists_resolved_of_claimed {fields : List (String × FieldInput)}
    (hclaimed : ∀ entry ∈ fields, Claimed session.schema entity store key entry) :
    ∃ resolved : List (Resolved Rows),
      server.Runs EffectRequest.SparesRows (runAll (session.rows (depth + 1))
        (FieldValues.deferred (fields.flatMap (updateEntries session.schema entity key)))) store
        (resolved.map .ok) store ∧
      FieldValues.rowOf (fields.flatMap (updateEntries session.schema entity key))
        (resolved.map .ok) = ⟨[], [], []⟩ := by
  induction fields with
  | nil => exact ⟨[], runs_runAll_nil_iff.mpr ⟨rfl, rfl⟩, rfl⟩
  | cons entry rest ih =>
    obtain ⟨hfirst, hrest⟩ := List.forall_mem_cons.mp hclaimed
    obtain ⟨resolved, hruns, hrow⟩ := ih hrest
    cases hfirst with
    | many field items => exact ⟨resolved, hruns, hrow⟩
    | one hsides hclaims htarget hlinked =>
      have hown := runs_claimTarget server depth hs hkeys hentity hsides hclaims htarget hlinked
      rw [List.flatMap_cons, updateEntries_connect hsides (kind_of_claims hsides hclaims)]
      refine ⟨.skip [] :: resolved, runs_runAll_cons_iff.mpr ⟨_, store, resolved.map .ok,
        (runs_resolvingUnder_iff noErrors_nil).mpr ⟨_, hown, rfl⟩, hruns, rfl⟩, hrow⟩

/-- The operations beside a row that is linked to its targets report that. -/
lemma exists_lists_of_linked {fields : List (String × FieldInput)}
    (hlinked : ∀ entry ∈ fields, Linked server session.schema entity store key entry) :
    ∃ lists : List (List Result),
      server.Runs EffectRequest.SparesRows (runAll (session.rows (depth + 1))
        (fields.flatMap (updateOperations session.schema entity key))) store (lists.map .ok)
        store ∧ lists.flatten = fields.flatMap reconnectedEntry := by
  induction fields with
  | nil => exact ⟨[], runs_runAll_nil_iff.mpr ⟨rfl, rfl⟩, rfl⟩
  | cons entry rest ih =>
    obtain ⟨hfirst, hrest⟩ := List.forall_mem_cons.mp hlinked
    obtain ⟨lists, hruns, hlists⟩ := ih hrest
    rw [List.flatMap_cons, List.flatMap_cons]
    cases hfirst with
    | one h =>
      cases h with
      | one hsides hclaims htarget hlinked =>
        rw [updateOperations_connect hsides (kind_of_claims hsides hclaims)]
        exact ⟨lists, hruns, hlists⟩
    | many hsides hkind hitems =>
      obtain ⟨htyped, hself⟩ := RelationSides.typed_of_ofField hs hentity hsides
      obtain ⟨operations, own, hoperations, hown, hreports⟩ :=
        exists_runs_of_joined hs hkeys htyped hkind depth 0 hitems
      rw [updateOperations_many hsides hoperations]
      refine ⟨own ++ lists, ?_, ?_⟩
      · rw [List.map_append]
        exact runs_runAll_append_iff.mpr ⟨_, store, _, hown, hruns, rfl⟩
      · have hname := (hs.wellFormed hentity).relation_name
          (RelationSides.relation_of_ofField hsides).2
        rw [List.flatten_append, hlists, hreports, hname]
        rfl

variable (hown : store.LeadsTo entity.tableName entity.primaryColumn entity.primaryColumn which key)
include hown

/-- An update that connects a row to the targets that it is linked to changes nothing. -/
lemma runs_updateRow_of_linked {data : Data} {values : FieldValues Rows}
    {operations : List (Action Rows (List Result))}
    (hplan : planUpdate session.schema entity key data.fields = .ok (values, operations))
    (hlinked : ∀ entry ∈ data.fields, Linked server session.schema entity store key entry) :
    server.Runs EffectRequest.SparesRows (session.updateRow (session.rows (depth + 1)) entity
      (byPrimary entity which) data).run store (.ok (reconnected entity key data)) store := by
  have hprimary := hkeys.columnName_primary hs hentity
  have hclean := noErrors_reconnected entity key data
  refine (Session.runs_updateRow_iff hprimary hown.holds (fun _ => id) hclean).mpr
    ⟨key, hown.found_eq server, ?_⟩
  unfold reconnected at hclean ⊢
  split
  · exact Server.runs_done_iff.mpr ⟨rfl, rfl⟩
  · rename_i hdata
    rw [if_neg hdata] at hclean
    obtain ⟨rfl, rfl⟩ := planUpdate_eq_ok hplan
    obtain ⟨resolved, hresolved, hrow⟩ := exists_resolved_of_claimed server depth hs hkeys hentity
      fun entry hmem => (hlinked entry hmem).claimed
    obtain ⟨lists, hlists, hreports⟩ :=
      exists_lists_of_linked server depth hs hkeys hentity hlinked
    rw [← hreports] at hclean ⊢
    refine (Session.runs_updateFound_iff hclean).mpr ⟨_, _, _, ⟨none, [], []⟩, store,
      lists.flatten, hplan, trivial, toTree_byPrimary hprimary _ key, ?_, by simp, ?_, rfl⟩
    · refine Session.runs_updateValues_iff.mpr ⟨⟨[], [], []⟩, [], store, none, store, [], ?_, rfl,
        .nothing rfl, ?_, rfl⟩
      · exact (FieldValues.runs_resolve_iff noErrors_nil).mpr ⟨resolved, hresolved, hrow.symm⟩
      · exact (runs_collectAll_iff noErrors_nil).mpr
          ⟨[], runs_runAll_nil_iff.mpr ⟨rfl, rfl⟩, rfl⟩
    · exact (runs_collectAll_iff (noErrors_cons.mp hclean).2).mpr ⟨lists, hlists, rfl⟩

end Links

/-- An update of a row that only connects it, each relation once, in a database with the tables and
the keys of the schema. -/
structure Connecting (server : Server) (session : Session) (store : Store) (entity : Entity)
    (data : Data) : Prop where
  wellFormed : session.schema.WellFormed
  keys : session.schema.KeysAreColumns
  once : server.LinksOnce session.schema
  declares : session.schema.Declares entity
  columns : store.HasColumns session.schema
  present : store.KeysPresent session.schema
  connects : ∀ entry ∈ data.fields, Connects session.schema entity entry
  nodup : (Table.keys data.fields).Nodup

section Again

variable {server : Server} {session : Session} {depth : Nat} {store next : Store}
  {entity : Entity} {which : Value} {data : Data} {results : List Result}

/-- An update that connects a row without an error stores all of its links. -/
lemma Connecting.linked (h : Connecting server session store entity data)
    (hapart : session.schema.StoresApart) (hunique : store.KeysUnique session.schema)
    (hrun : server.Runs (fun _ => True)
      (session.updateRow (session.rows (depth + 1)) entity (byPrimary entity which) data).run store
      (.ok results) next) (hclean : NoErrors results) :
    ∃ key values operations,
      planUpdate session.schema entity key data.fields = .ok (values, operations) ∧
      next.LeadsTo entity.tableName entity.primaryColumn entity.primaryColumn which key ∧
      ∀ entry ∈ data.fields, Linked server session.schema entity next key entry := by
  have htracks := Store.tracks_of_keys h.wellFormed h.columns h.present hunique
  have hprimary := h.keys.columnName_primary h.wellFormed h.declares
  have htells := htracks.own h.declares
  obtain ⟨key, hfound, hrun⟩ := (Session.runs_updateRow_iff hprimary htells.holds
    (fun _ _ => trivial) hclean).mp hrun
  have hown := htells.leadsTo hfound
  refine ⟨key, ?_⟩
  split at hrun
  · rename_i hdata
    have hfields : data.fields = [] := List.isEmpty_iff.mp hdata
    obtain ⟨-, rfl⟩ := Server.runs_done_iff.mp hrun
    rw [hfields]
    exact ⟨[], [], rfl, hown, by simp⟩
  · obtain ⟨values, operations, tree, updated, middle, others, hplan, -, htree, hvalues, -,
      hoperations, rfl⟩ := (Session.runs_updateFound_iff hclean).mp hrun
    obtain ⟨rfl, rfl⟩ := planUpdate_eq_ok hplan
    cases htree.symm.trans (toTree_byPrimary hprimary session.schema key)
    obtain ⟨hvaluesClean, hothersClean⟩ := noErrors_append.mp (noErrors_cons.mp hclean).2
    obtain ⟨hresets, hclaimed⟩ := claimed_of_updateValues h.wellFormed h.keys hapart h.declares
      (fun _ _ => trivial) h.connects h.nodup htracks hown hvalues hvaluesClean
    have hkept {other : Entity} (hother : session.schema.Declares other) (_ : Value) :
        ¬ entity.Sets (Table.keys data.fields) other.tableName other.primaryColumn :=
      hapart.not_sets_key h.declares hother
    have hmiddle : middle.KeysTell session.schema := htracks.own.resets
      (fun table column _ => entity.Sets (Table.keys data.fields) table column)
      (fun _ => hresets _) hkept
    obtain ⟨lists, hlists, rfl⟩ := (runs_collectAll_iff hothersClean).mp hoperations
    have hlistsClean : ∀ results ∈ lists, NoErrors results := fun results hmem result hresult =>
      hothersClean result (List.mem_flatten.mpr ⟨results, hmem, hresult⟩)
    obtain ⟨hlinked, hgrows⟩ := linked_of_operations h.wellFormed h.keys hapart h.once h.declares
      (fun _ _ => trivial) h.connects hown.present hmiddle hclaimed hlists hlistsClean
    exact ⟨_, _, hplan, (hown.resets (hresets _) (hkept h.declares) (hkept h.declares)).grows
      hgrows h.declares, hlinked⟩

/-- Connecting is idempotent, where relations have storage of their own and a target is claimed by
one row at most. After an update that connects a row without an error, the same update comes to one
end only: the tables are as they were, nothing was updated or deleted, the row has no values to set,
and each of its links in a junction table exists already. -/
theorem connecting_idempotent (depth : Nat) (h : Connecting server session store entity data)
    (hapart : session.schema.StoresApart) (hunique : store.KeysUnique session.schema)
    (hrun : server.Runs (fun _ => True)
      (session.rows (depth + 2) (.update entity (byPrimary entity which) data)) store (.ok results)
      next) (hclean : ∀ result ∈ results, result.isError = false) :
    ∃ key, server.Runs EffectRequest.SparesRows
        (session.rows (depth + 2) (.update entity (byPrimary entity which) data)) next
        (.ok (reconnected entity key data)) next ∧
      ∀ outcome last, server.Runs (fun _ => True)
        (session.rows (depth + 2) (.update entity (byPrimary entity which) data)) next outcome
        last → outcome = .ok (reconnected entity key data) ∧ last = next := by
  obtain ⟨key, values, operations, hplan, hown, hlinked⟩ := h.linked hapart hunique hrun hclean
  have hagain := runs_updateRow_of_linked server depth h.wellFormed h.keys h.declares hown hplan
    hlinked
  exact ⟨key, hagain, fun outcome last hlast => (hagain.iff fun _ _ => trivial).mp hlast⟩

end Again

/-! ### Members of clubs -/

def memberSteps : List EntityStep := [.oneHasOne "desk" "Desk" {}, .manyHasMany "clubs" "Club" {}]

/-- Members of clubs, each with a desk of its own. -/
def members : Schema := .ofDefinitions [("Member", memberSteps), ("Desk", []), ("Club", [])]

def member : Entity := .ofSteps "Member" memberSteps

def memberSession : Session := ⟨members, .standard⟩

/-- A database that has no membership twice. -/
def memberServer : Server where
  arrange := id
  perm _ := .refl _
  keys
    | "member_clubs" => [["member_id", "club_id"]]
    | _ => []
  defaults _ := []
  admits _ := true
  refusal := Session.taken.classified

/-- The second member has the desk, and the first is in one of the clubs. -/
def memberStore : Store where
  rows
    | "member" => [[("id", .int 1), ("desk_id", .null)], [("id", .int 2), ("desk_id", .int 10)]]
    | "desk" => [[("id", .int 10)]]
    | "club" => [[("id", .int 20)], [("id", .int 21)]]
    | "member_clubs" => [[("member_id", .int 1), ("club_id", .int 21)]]
    | _ => []

/-- A member gets the desk and is in both clubs. -/
def joiningMember : Data :=
  ⟨[("desk", .one (.connect (.single "id" (.int 10)))),
    ("clubs", .many [⟨none, .connect (.single "id" (.int 20))⟩,
      ⟨none, .connect (.single "id" (.int 21))⟩])]⟩

/-- Whether an update reports no error. -/
def isClean : Except Failure (List Result) → Bool
  | .ok results => results.all fun result => !result.isError
  | .error _ => false

lemma noErrors_of_isClean {outcome : Except Failure (List Result)} (h : isClean outcome = true) :
    ∃ results, outcome = .ok results ∧ NoErrors results := by
  cases outcome with
  | error failure => cases h
  | ok results =>
    refine ⟨results, rfl, fun result hmem => ?_⟩
    simpa using List.all_eq_true.mp h result hmem

section Keys

variable {schema : Schema} {entity : Entity} {field primary : String}

lemma connects_one (h : ∃ sides, RelationSides.ofField schema entity field = .ok sides ∧
      sides.kind = .oneHasOneOwning ∧ sides.target.primary = primary) (given : Value) :
    Connects schema entity (field, .one (.connect (.single primary given))) := by
  obtain ⟨sides, hsides, hkind, rfl⟩ := h
  exact .one given hsides hkind

lemma connects_many (h : ∃ sides, RelationSides.ofField schema entity field = .ok sides ∧
      sides.kind = .manyHasManyOwning ∧ sides.target.primary = primary) {items : List ToManyItem}
    (hitems : ∀ item ∈ items, ∃ given, item.input = .connect (.single primary given)) :
    Connects schema entity (field, .many items) := by
  obtain ⟨sides, hsides, hkind, rfl⟩ := h
  exact .many hsides (.inl hkind) hitems

end Keys

lemma connecting_member (store : Store) (hcolumns : store.HasColumns members)
    (hpresent : store.KeysPresent members) :
    Connecting memberServer memberSession store member joiningMember := by
  have hbuild : Schema.build [("Member", memberSteps), ("Desk", []), ("Club", [])] =
      .ok members := by decide +kernel
  have hentity : members.entity member.name = .ok member := by decide +kernel
  have hdesk : Connects members member ("desk", .one (.connect (.single "id" (.int 10)))) :=
    connects_one (by exact ⟨_, rfl, rfl, rfl⟩) _
  have hclubs : Connects members member ("clubs", .many [⟨none, .connect (.single "id" (.int 20))⟩,
      ⟨none, .connect (.single "id" (.int 21))⟩]) :=
    connects_many ⟨_, rfl, rfl, rfl⟩ (List.forall_mem_cons.mpr
      ⟨⟨_, rfl⟩, List.forall_mem_singleton.mpr ⟨_, rfl⟩⟩)
  exact ⟨Schema.wellFormed_of_build hbuild, Schema.keysAreColumns_of_forall_mem (by decide +kernel),
    Server.linksOnce_of_forall_mem (by decide +kernel), hentity, hcolumns, hpresent,
    List.forall_mem_cons.mpr ⟨hdesk, List.forall_mem_singleton.mpr hclubs⟩, by decide⟩

/-- The first member gets the desk of the second one, and another membership; after that nothing
is changed any more. -/
theorem connecting_idempotent_member : ∃ results next key,
    memberServer.Runs (fun _ => True)
      (memberSession.rows 2 (.update member (byPrimary member (.int 1)) joiningMember)) memberStore
      (.ok results) next ∧
    (∀ result ∈ results, result.isError = false) ∧
    (∃ row ∈ next.rows "member", row.Has "id" (.int 1) ∧ row.Has "desk_id" (.int 10)) ∧
    memberServer.Runs EffectRequest.SparesRows
      (memberSession.rows 2 (.update member (byPrimary member (.int 1)) joiningMember)) next
      (.ok (reconnected member key joiningMember)) next ∧
    ∀ outcome last, memberServer.Runs (fun _ => True)
      (memberSession.rows 2 (.update member (byPrimary member (.int 1)) joiningMember)) next outcome
      last → outcome = .ok (reconnected member key joiningMember) ∧ last = next := by
  have htest : ((memberSession.rows 2
      (.update member (byPrimary member (.int 1)) joiningMember)).run memberServer.answer
        (fun _ => pure ()) memberStore).any (fun outcome => isClean outcome.1 &&
          decide (∃ row ∈ outcome.2.rows "member",
            row.Has "id" (.int 1) ∧ row.Has "desk_id" (.int 10))) = true := by
    decide +kernel
  obtain ⟨outcome, next, hrun, htest⟩ := Server.exists_runs_of_run htest
  obtain ⟨hclean, hdesk⟩ := Bool.and_eq_true_iff.mp htest
  obtain ⟨results, rfl, hnone⟩ := noErrors_of_isClean hclean
  have hconnecting := connecting_member memberStore
    (Store.hasColumns_of_forall_mem (by decide +kernel) (by decide +kernel))
    (Store.keysPresent_of_forall_mem (by decide +kernel) (by decide +kernel))
  have hapart : members.StoresApart := Schema.storesApart_of_forall_mem (by decide +kernel)
    (by decide +kernel) (by decide +kernel)
  have hunique : memberStore.KeysUnique members := by decide +kernel
  obtain ⟨key, hagain, honly⟩ :=
    connecting_idempotent 0 hconnecting hapart hunique hrun hnone
  exact ⟨results, next, key, hrun, hnone, of_decide_eq_true hdesk, hagain, honly⟩

/-! ### Storage that is shared -/

/-- Whether an update that reports no error comes to other rows when it is repeated. -/
def ChangesAgain (server : Server) (session : Session) (store : Store) (entity : Entity)
    (which : Value) (data : Data) : Prop :=
  ∃ results next outcome last,
    server.Runs (fun _ => True)
      (session.rows 2 (.update entity (byPrimary entity which) data)) store (.ok results) next ∧
    (∀ result ∈ results, result.isError = false) ∧
    server.Runs (fun _ => True)
      (session.rows 2 (.update entity (byPrimary entity which) data)) next outcome last ∧
    last ≠ next

lemma changesAgain_of_run {server : Server} {session : Session} {store : Store} {entity : Entity}
    {which : Value} {data : Data} (test : Store → Bool)
    (h : ((session.rows 2 (.update entity (byPrimary entity which) data)).run server.answer
      (fun _ => pure ()) store).any (fun first => isClean first.1 &&
        ((session.rows 2 (.update entity (byPrimary entity which) data)).run server.answer
          (fun _ => pure ()) first.2).any fun second => test first.2 && !test second.2) = true) :
    ChangesAgain server session store entity which data := by
  obtain ⟨outcome, next, hfirst, h⟩ := Server.exists_runs_of_run h
  obtain ⟨hclean, h⟩ := Bool.and_eq_true_iff.mp h
  obtain ⟨results, rfl, hnone⟩ := noErrors_of_isClean hclean
  obtain ⟨again, last, hsecond, hchanges⟩ := Server.exists_runs_of_run h
  refine ⟨results, next, again, last, hfirst, hnone, hsecond, ?_⟩
  rintro rfl
  simp at hchanges

/-- Both places of a resident are stored in one column. -/
def residentSteps : List EntityStep :=
  [.oneHasOne "home" "Place" { joiningColumn := some "place_id" },
    .oneHasOne "office" "Place" { joiningColumn := some "place_id" }]

def residents : Schema := .ofDefinitions [("Resident", residentSteps), ("Place", [])]

def resident : Entity := .ofSteps "Resident" residentSteps

def residentStore : Store where
  rows
    | "resident" => [[("id", .int 1), ("place_id", .int 10)]]
    | "place" => [[("id", .int 10)], [("id", .int 11)]]
    | _ => []

/-- A resident gets a home and an office. -/
def movingResident : Data :=
  ⟨[("home", .one (.connect (.single "id" (.int 10)))),
    ("office", .one (.connect (.single "id" (.int 11))))]⟩

/-- The desk is claimed by two members. -/
def claimedTwice : Store where
  rows
    | "member" => [[("id", .int 2), ("desk_id", .int 10)], [("id", .int 3), ("desk_id", .int 10)],
        [("id", .int 1), ("desk_id", .null)]]
    | "desk" => [[("id", .int 10)]]
    | "club" => [[("id", .int 20)], [("id", .int 21)]]
    | _ => []

/-- Connecting is not idempotent where two relations share a column, nor where a target was claimed
by two rows: the column changes every time, and the first update takes the target from one row, the
second one from the other. -/
theorem connecting_changesAgain :
    (Connecting memberServer ⟨residents, .standard⟩ residentStore resident movingResident ∧
      residentStore.KeysUnique residents ∧
      ChangesAgain memberServer ⟨residents, .standard⟩ residentStore resident (.int 1)
        movingResident) ∧
    (Connecting memberServer memberSession claimedTwice member joiningMember ∧
      members.StoresApart ∧
      ChangesAgain memberServer memberSession claimedTwice member (.int 1) joiningMember) := by
  have hbuild : Schema.build [("Resident", residentSteps), ("Place", [])] = .ok residents := by
    decide +kernel
  have hhome : Connects residents resident ("home", .one (.connect (.single "id" (.int 10)))) :=
    connects_one (by exact ⟨_, rfl, rfl, rfl⟩) _
  have hoffice : Connects residents resident
      ("office", .one (.connect (.single "id" (.int 11)))) :=
    connects_one (by exact ⟨_, rfl, rfl, rfl⟩) _
  have hresident : Connecting memberServer ⟨residents, .standard⟩ residentStore resident
      movingResident :=
    ⟨Schema.wellFormed_of_build hbuild, Schema.keysAreColumns_of_forall_mem (by decide +kernel),
      Server.linksOnce_of_forall_mem (by decide +kernel),
      show residents.entity resident.name = .ok resident by decide +kernel,
      Store.hasColumns_of_forall_mem (by decide +kernel) (by decide +kernel),
      Store.keysPresent_of_forall_mem (by decide +kernel) (by decide +kernel),
      List.forall_mem_cons.mpr ⟨hhome, List.forall_mem_singleton.mpr hoffice⟩, by decide⟩
  have hmember := connecting_member claimedTwice
    (Store.hasColumns_of_forall_mem (by decide +kernel) (by decide +kernel))
    (Store.keysPresent_of_forall_mem (by decide +kernel) (by decide +kernel))
  have hapart : members.StoresApart := Schema.storesApart_of_forall_mem (by decide +kernel)
    (by decide +kernel) (by decide +kernel)
  have hmoves : ChangesAgain memberServer ⟨residents, .standard⟩ residentStore resident (.int 1)
      movingResident :=
    changesAgain_of_run (fun store => store.rows "resident" |>.any fun row =>
      row.Has "place_id" (.int 11)) (by decide +kernel)
  have htakes : ChangesAgain memberServer memberSession claimedTwice member (.int 1)
      joiningMember :=
    changesAgain_of_run (fun store => store.rows "member" |>.any fun row =>
      row.Has "id" (.int 3) ∧ row.Has "desk_id" (.int 10)) (by decide +kernel)
  exact ⟨⟨hresident, by decide +kernel, hmoves⟩, hmember, hapart, htakes⟩

end EntityGraph.Mutation

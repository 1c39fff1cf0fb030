import EntityGraph.Proofs.Mutation.Batch
/-!
A deletion removes the closure of the matching rows. Every batch settles the keys of the batch
before it, and the walk ends because a batch that is not empty leaves fewer rows.
-/
namespace EntityGraph.Mutation.Session

variable {session : Session} {store : Store} {root : Entity} {matching : Row → Prop} {fate : Fate}
  {name : String} {entity owner : Entity} {relation : Relation} {keys : List Value}

/-- Whether an action on the rows that a fate leaves succeeds and goes on to a fate that meets a
goal. -/
def Reaches (session : Session) (store : Store) (root : Entity) (matching : Row → Prop)
    (fate : Fate) (action : Action Effect Unit) (goal : Fate → Prop) : Prop :=
  ∃ next, outcome action (store.after fate) = some (.ok (), store.after next) ∧
    Advances session.schema store root matching fate next ∧ goal next

/-- Whether a walk settles the keys of removed rows while fewer rows than a bound are left. -/
def SettlesBelow (session : Session) (store : Store) (root : Entity) (matching : Row → Prop)
    (bound : Nat) (walk : Entity → List Value → Action Effect Unit) : Prop :=
  ∀ {name entity keys fate}, session.schema.entity name = .ok entity →
    Sound session.schema store root matching fate →
    RemovedKeys session.schema store root matching entity keys →
    (store.after fate).size session.schema < bound →
    Reaches session store root matching fate (walk entity keys) fun next =>
      ∀ key ∈ keys, Settled session.schema store next entity key

/-- The keys that a batch returns are those of the rows that it takes. -/
lemma mem_batchKeys_iff (hsep : session.schema.Separate)
    (hkeys : KeepsKeys session.schema store root matching)
    (he : session.schema.entity name = .ok owner)
    (h : Sound session.schema store root matching fate) {chosen : Row → Bool} {key : Value} :
    key ∈ (((store.after fate).rows owner.tableName).filter chosen).filterMap
        (fun row => row.find? owner.primaryColumn) ↔
      ∃ row ∈ store.rows owner.tableName, fate.gone owner.tableName row = false ∧
        chosen (fate.current owner.tableName row) ∧
        row.find? owner.primaryColumn = some key := by
  rw [List.mem_filterMap]
  constructor
  · rintro ⟨row, hrow, hfind⟩
    obtain ⟨hmem, hchosen⟩ := List.mem_filter.mp hrow
    obtain ⟨start, hstart, hn, rfl⟩ := Store.mem_after.mp hmem
    exact ⟨start, hstart, hn, hchosen, (h.find?_key hsep hkeys he hstart).symm.trans hfind⟩
  · rintro ⟨row, hrow, hn, hchosen, hfind⟩
    refine ⟨fate.current owner.tableName row, List.mem_filter.mpr ⟨?_, hchosen⟩, ?_⟩
    · exact Store.mem_after.mpr ⟨row, hrow, hn, rfl⟩
    · exact (h.find?_key hsep hkeys he hrow).trans hfind

/-- A batch that cascades, with the walk below it. -/
lemma reaches_cascading (hsep : session.schema.Separate) (hc : store.HasColumns session.schema)
    (hkeys : KeepsKeys session.schema store root matching)
    {walk : Entity → List Value → Action Effect Unit} {bound : Nat}
    (hwalk : SettlesBelow session store root matching bound walk)
    (he : session.schema.entity name = .ok owner) {filter : Filter} {column : String}
    (ht : filter.toTree session.schema owner =
      .ok ((Condition.oneOf keys).toTree (Sql.column column)))
    (hp : session.schema.PointsAt owner column .cascade entity)
    (h : Sound session.schema store root matching fate)
    (hk : RemovedKeys session.schema store root matching entity keys)
    (hsize : (store.after fate).size session.schema ≤ bound) :
    Reaches session store root matching fate
      (do
        let deleted ← session.deleteBatch owner filter
        if deleted.isEmpty then return () else walk owner deleted)
      fun next => ∀ key ∈ keys, Unreached store next owner.tableName column key := by
  have hcurrent := Store.hasColumns_after fate hc
  obtain ⟨_, _, hentity, hcolumn⟩ := columnName_of_pointsAt hp
  have hbatch := outcome_deleteBatch hcurrent he ht
    (chooses_oneOf (fun row hrow => hcurrent.field hentity row hrow hcolumn) keys)
  rw [Store.withRows_filter] at hbatch
  have hdeleted (key : Value) :=
    @mem_batchKeys_iff session store root matching fate name owner hsep hkeys he h
      (holdsKey column keys) key
  generalize (((store.after fate).rows owner.tableName).filter
    (holdsKey column keys)).filterMap (fun row => row.find? owner.primaryColumn) = deleted
    at hbatch hdeleted
  have hsound := h.remove hp hk
  have hremoved : RemovedKeys session.schema store root matching owner deleted := by
    intro key hkey
    obtain ⟨row, hrow, -, hholds, hfind⟩ := (hdeleted key).mp hkey
    obtain ⟨other, ho, hagree⟩ := agree_of_holdsKey hk hholds
    exact ⟨row, .cascade hp ho hrow hagree, hfind⟩
  have hadvances : ∀ next, Advances session.schema store root matching
      (fate.remove owner.tableName (holdsKey column keys)) next →
      (∀ key ∈ deleted, Settled session.schema store next owner key) →
      Advances session.schema store root matching fate next := by
    intro next hnext hsettled
    refine hnext.of_remove hsep he fun row hrow hn hholds key hkey => ?_
    exact hsettled key ((hdeleted key).mpr ⟨row, hrow, hn, hholds, hkey⟩)
  rw [Reaches, outcome_bind hbatch]
  cases deleted with
  | nil =>
    exact ⟨_, rfl, hadvances _ (Advances.refl hsound) (by simp), fun key hkey =>
      unreached_remove hkey⟩
  | cons first rest =>
    obtain ⟨row, hrow, hn, hholds, -⟩ := (hdeleted first).mp List.mem_cons_self
    have hmem := Store.mem_after.mpr ⟨row, hrow, hn, rfl⟩
    have hlt := Store.size_withRows_lt he hmem hholds
    rw [Store.withRows_filter] at hlt
    obtain ⟨next, hrun, hnext, hsettled⟩ := hwalk he hsound hremoved (hlt.trans_le hsize)
    exact ⟨next, hrun, hadvances next hnext hsettled, fun key hkey =>
      (unreached_remove hkey).mono hnext.le⟩

/-- References that are cleared. -/
lemma reaches_clearing (hc : store.HasColumns session.schema) {joining : JoiningColumn}
    (he : session.schema.entity name = .ok owner)
    (hr : owner.relation relation.name = .ok relation)
    (hj : relation.joiningColumn? = some joining) {filter : Filter}
    (ht : filter.toTree session.schema owner =
      .ok ((Condition.oneOf keys).toTree (Sql.column joining.columnName)))
    (hp : session.schema.PointsAt owner joining.columnName .setNull entity)
    (h : Sound session.schema store root matching fate)
    (hk : RemovedKeys session.schema store root matching entity keys) :
    Reaches session store root matching fate (session.clearReferences owner relation filter)
      fun next => ∀ key ∈ keys, Unreached store next owner.tableName joining.columnName key := by
  have hcurrent := Store.hasColumns_after fate hc
  have hclear : outcome (session.clearReferences owner relation filter) (store.after fate) = _ :=
    outcome_clearReferences hr hj ht (chooses_oneOf (fun row hrow =>
      hcurrent.field he row hrow (Entity.columnName_of_relation hr hj)) keys)
  rw [Store.withRows_map] at hclear
  refine ⟨_, hclear, ⟨fate.le_clearColumn _ _ _, h.clearColumn hp hk, ?_⟩, fun key hkey =>
    unreached_clearColumn hkey⟩
  intro _ _ _ row _ hg hn
  simp [Fate.clearColumn, hn] at hg

/-- After a visit, no row points at the keys through the relation, unless it restricts deletions. -/
lemma reaches_visitRelation (hs : session.schema.WellFormed) (hsep : session.schema.Separate)
    (hc : store.HasColumns session.schema)
    (hkeys : KeepsKeys session.schema store root matching)
    {walk : Entity → List Value → Action Effect Unit} {bound : Nat}
    (hwalk : SettlesBelow session store root matching bound walk)
    (he : session.schema.entity name = .ok entity)
    (hm : (owner, relation) ∈ session.schema.owningRelationsTo entity.name)
    (h : Sound session.schema store root matching fate)
    (hk : RemovedKeys session.schema store root matching entity keys)
    (hsize : (store.after fate).size session.schema ≤ bound) :
    Reaches session store root matching fate (session.visitRelation walk entity keys owner relation)
      fun next => ∀ joining, relation.joiningColumn? = some joining →
        joining.onDelete ≠ .restrict → ∀ key ∈ keys,
        Unreached store next owner.tableName joining.columnName key := by
  obtain ⟨ownerName, joining, howner, hr, hj, htarget⟩ := mem_owningRelationsTo hs he hm
  have ht := toTree_pointingAt hs howner hr hj htarget keys
  have hp : session.schema.PointsAt owner joining.columnName joining.onDelete entity :=
    ⟨ownerName, relation.name, relation, joining, howner, hr, hj, htarget, rfl, rfl⟩
  have hgoal : ∀ {next}, (joining.onDelete ≠ .restrict → ∀ key ∈ keys,
      Unreached store next owner.tableName joining.columnName key) →
      ∀ joining', relation.joiningColumn? = some joining' → joining'.onDelete ≠ .restrict →
      ∀ key ∈ keys, Unreached store next owner.tableName joining'.columnName key := by
    intro next hnext joining' hj'
    cases hj.symm.trans hj'
    exact hnext
  cases hpolicy : joining.onDelete with
  | restrict =>
    have hvisit : session.visitRelation walk entity keys owner relation = pure () := by
      simp only [visitRelation, hj, hpolicy]
    rw [hvisit]
    exact ⟨fate, rfl, Advances.refl h, hgoal fun hne => absurd hpolicy hne⟩
  | cascade =>
    have hvisit : session.visitRelation walk entity keys owner relation = (do
        let deleted ← session.deleteBatch owner (pointingAt entity relation keys)
        if deleted.isEmpty then return () else walk owner deleted) := by
      simp only [visitRelation, hj, hpolicy]
    rw [hpolicy] at hp
    rw [hvisit]
    obtain ⟨next, hrun, hadvances, hun⟩ :=
      reaches_cascading hsep hc hkeys hwalk howner ht hp h hk hsize
    exact ⟨next, hrun, hadvances, hgoal fun _ => hun⟩
  | setNull =>
    have hvisit : session.visitRelation walk entity keys owner relation =
        session.clearReferences owner relation (pointingAt entity relation keys) := by
      simp only [visitRelation, hj, hpolicy]
    rw [hpolicy] at hp
    rw [hvisit]
    obtain ⟨next, hrun, hadvances, hun⟩ := reaches_clearing hc howner hr hj ht hp h hk
    exact ⟨next, hrun, hadvances, hgoal fun _ => hun⟩

/-- A walk that is deeper than there are rows settles the keys it starts from. -/
theorem settlesBelow_cascade (hs : session.schema.WellFormed) (hsep : session.schema.Separate)
    (hc : store.HasColumns session.schema)
    (hkeys : KeepsKeys session.schema store root matching) (depth : Nat) :
    SettlesBelow session store root matching depth (session.cascade depth) := by
  induction depth with
  | zero => exact fun _ _ _ hsize => absurd hsize (Nat.not_lt_zero _)
  | succ depth ih =>
    intro name entity keys fate he h hk hsize
    have hvisits : ∀ visits, visits ⊆ session.schema.owningRelationsTo entity.name →
        ∀ {fate}, Sound session.schema store root matching fate →
        (store.after fate).size session.schema ≤ depth →
        Reaches session store root matching fate
          (visits.forM fun visit =>
            session.visitRelation (session.cascade depth) entity keys visit.1 visit.2)
          fun next => ∀ owner relation joining, (owner, relation) ∈ visits →
            relation.joiningColumn? = some joining → joining.onDelete ≠ .restrict →
            ∀ key ∈ keys, Unreached store next owner.tableName joining.columnName key := by
      intro visits
      induction visits with
      | nil => exact fun _ fate h _ => ⟨fate, rfl, Advances.refl h, by simp⟩
      | cons visit rest ihVisits =>
        intro hsub fate h hsize
        obtain ⟨owner, relation⟩ := visit
        obtain ⟨middle, hrun, hadvances, hun⟩ := reaches_visitRelation hs hsep hc hkeys ih he
          (hsub List.mem_cons_self) h hk hsize
        obtain ⟨next, hrest, hadvances', hun'⟩ := ihVisits
          (fun _ hm => hsub (List.mem_cons_of_mem _ hm)) hadvances.sound
          ((Store.size_after_le hadvances.le).trans hsize)
        refine ⟨next, ?_, hadvances.trans hadvances', ?_⟩
        · exact (outcome_bind hrun _).trans hrest
        · intro owner' relation' joining hm hj hpolicy key hkey
          rcases List.mem_cons.mp hm with heq | hm
          · cases heq
            exact (hun joining hj hpolicy key hkey).mono hadvances'.le
          · exact hun' owner' relation' joining hm hj hpolicy key hkey
    obtain ⟨next, hrun, hadvances, hun⟩ :=
      hvisits _ (List.Subset.refl _) h (Nat.lt_succ_iff.mp hsize)
    refine ⟨next, hrun, hadvances, fun key hkey owner column policy hp hpolicy => ?_⟩
    obtain ⟨relation, joining, hm, hj, rfl, rfl⟩ := owningRelationsTo_of_pointsAt hs hp
    exact hun owner relation joining hm hj hpolicy key hkey

/-- The steps of a deletion that finds rows, the commands around them having no effect on rows. -/
lemma outcome_deleteWhere {depth : Nat} {filter : Filter} {first : Value} {rest : List Value}
    {middle next : Store}
    (hbatch : outcome (session.deleteBatch entity filter) store =
      some (.ok (first :: rest), middle))
    (hcascade : outcome (session.cascade depth entity (first :: rest)) middle =
      some (.ok (), next)) :
    outcome (session.deleteWhere depth entity filter) store =
      some (.ok (first :: rest), next) := by
  cases hdefer : session.settings.deferConstraints with
  | false =>
    simp only [deleteWhere, hdefer]
    rw [if_neg (by simp), outcome_bind hbatch]
    exact outcome_bind hcascade _
  | true =>
    simp only [deleteWhere, hdefer, if_true]
    rw [outcome_bind (session.outcome_command _), outcome_bind hbatch]
    refine (outcome_bind hcascade _).trans ?_
    rw [outcome_bind (session.outcome_command _)]
    rfl

/-- Removing rows from the start is the fate of just these rows. -/
lemma exists_fate_remove (store : Store) (tableName : String) (chosen : Row → Bool) :
    ∃ fate : Fate, store.withRows tableName ((store.rows tableName).filter (!chosen ·)) =
        store.after fate ∧
      (∀ {name row}, fate.gone name row ↔ name = tableName ∧ chosen row) ∧
      ∀ {name row column}, fate.cleared name row column = false := by
  have hcurrent : ∀ name row, Fate.none.current name row = row := fun _ row => Row.clear_none row
  refine ⟨Fate.none.remove tableName chosen, ?_, ?_, rfl⟩
  · simpa using Store.withRows_filter store .none tableName chosen
  · intro name row
    simp only [Fate.remove, hcurrent]
    simp [Fate.none]

/-- Whether a condition holds of a row of an entity. -/
def Matches (store : Store) (entity : Entity) (tree : Sql.ConditionTree) (row : Row) : Prop :=
  tree.truth? store [(entity.tableName, row)] = some .holds

section Matching

variable {schema : Schema} {filter : Filter} {tree : Sql.ConditionTree}

open Classical in
lemma mem_matchingKeys_iff {key : Value} :
    key ∈ ((store.rows entity.tableName).filter fun row =>
      Matches store entity tree row).filterMap (fun row => row.find? entity.primaryColumn) ↔
      ∃ row ∈ store.rows entity.tableName, Matches store entity tree row ∧
        row.find? entity.primaryColumn = some key := by
  simp only [List.mem_filterMap, List.mem_filter, decide_eq_true_iff, and_assoc]

open Classical in
/-- The first batch takes exactly the matching rows, all of them in the closure. -/
lemma exists_outcome_deleteBatch (hc : store.HasColumns schema) (settings : Settings)
    (he : schema.entity name = .ok entity)
    (ht : filter.toTree schema entity = .ok tree) :
    ∃ fate, outcome (deleteBatch ⟨schema, settings⟩ entity filter) store =
        some (.ok (((store.rows entity.tableName).filter fun row =>
          Matches store entity tree row).filterMap fun row =>
            row.find? entity.primaryColumn), store.after fate) ∧
      Sound schema store entity (Matches store entity tree) fate ∧
      (∀ {tableName row}, fate.gone tableName row ↔
        tableName = entity.tableName ∧ Matches store entity tree row) ∧
      ((∃ row ∈ store.rows entity.tableName, Matches store entity tree row) →
        (store.after fate).size schema < store.size schema) := by
  have hchooses : Chooses store entity.tableName tree fun row => Matches store entity tree row := by
    intro row hrow
    refine ⟨(Filter.reads_toTree hc he filter ht [] row hrow).1, ?_⟩
    rw [decide_eq_true_iff]
    rfl
  have hbatch : outcome (deleteBatch ⟨schema, settings⟩ entity filter) store = _ :=
    outcome_deleteBatch hc he ht hchooses
  obtain ⟨fate, hafter, hgone, hkept⟩ := exists_fate_remove store entity.tableName
    fun row => Matches store entity tree row
  simp only [decide_eq_true_iff] at hgone
  refine ⟨fate, by rw [hbatch, hafter], ⟨?_, ?_⟩, hgone, ?_⟩
  · intro tableName row hrow hg
    obtain ⟨rfl, hmatch⟩ := hgone.mp hg
    exact ⟨name, entity, he, rfl, .root hrow hmatch⟩
  · intro tableName row column _ hcleared
    rw [hkept] at hcleared
    contradiction
  · rintro ⟨row, hrow, hmatch⟩
    rw [← hafter]
    exact Store.size_withRows_lt he hrow (decide_eq_true hmatch)

end Matching

open Classical in
/-- A deletion of matching rows ends, provided that its depth is at least the number of rows, and
returns the keys of the matching rows. Of the rows of every entity the closure is gone, and in the
other rows exactly the columns that pointed into the closure and are cleared by the schema have
become `NULL`. -/
theorem deleteWhere_removes_closure
    {definitions : List (String × List EntityStep)} {schema : Schema}
    (hs : Schema.build definitions = .ok schema) (hsep : schema.Separate)
    (hc : store.HasColumns schema) (settings : Settings) (he : schema.entity name = .ok entity)
    {filter : Filter} {tree : Sql.ConditionTree} (ht : filter.toTree schema entity = .ok tree)
    (hk : KeepsKeys schema store entity (Matches store entity tree))
    (hm : ∃ row ∈ store.rows entity.tableName, Matches store entity tree row) {depth : Nat}
    (hd : store.size schema ≤ depth) :
    ∃ next, outcome (deleteWhere ⟨schema, settings⟩ depth entity filter) store =
        some (.ok (((store.rows entity.tableName).filter fun row =>
          Matches store entity tree row).filterMap fun row =>
            row.find? entity.primaryColumn), next) ∧
      (∀ {ownerName owner}, schema.entity ownerName = .ok owner →
        next.rows owner.tableName =
          ((store.rows owner.tableName).filter fun row =>
            ¬ Removed schema store entity (Matches store entity tree) owner row).map fun row =>
              row.clear fun column =>
                Cleared schema store entity (Matches store entity tree) owner row column) ∧
      ∀ tableName, (∀ {ownerName owner}, schema.entity ownerName = .ok owner →
        owner.tableName ≠ tableName) → next.rows tableName = store.rows tableName := by
  have hw := Schema.wellFormed_of_build hs
  obtain ⟨fate, hbatch, hsound, hgone, hshrinks⟩ :=
    exists_outcome_deleteBatch hc settings he ht
  have hkeys (key : Value) := @mem_matchingKeys_iff store entity tree key
  generalize ((store.rows entity.tableName).filter fun row =>
    Matches store entity tree row).filterMap (fun row => row.find? entity.primaryColumn) = deleted
    at hbatch hkeys ⊢
  have hremovedKeys :
      RemovedKeys schema store entity (Matches store entity tree) entity deleted := by
    intro key hkey
    obtain ⟨row, hrow, hmatch, hfind⟩ := (hkeys key).mp hkey
    exact ⟨row, .root hrow hmatch, hfind⟩
  have hwalk : SettlesBelow ⟨schema, settings⟩ store entity (Matches store entity tree) depth _ :=
    settlesBelow_cascade hw hsep hc hk depth
  obtain ⟨last, hrun, hadvances, hsettled⟩ :=
    hwalk he hsound hremovedKeys ((hshrinks hm).trans_le hd)
  have hroot : ∀ row ∈ store.rows entity.tableName, Matches store entity tree row →
      last.gone entity.tableName row :=
    fun row _ hmatch => hadvances.le.gone (hgone.mpr ⟨rfl, hmatch⟩)
  have hall : ∀ {ownerName owner}, schema.entity ownerName = .ok owner →
      ∀ row ∈ store.rows owner.tableName, last.gone owner.tableName row →
      ∀ key, row.find? owner.primaryColumn = some key → Settled schema store last owner key := by
    intro ownerName owner howner row hrow hg key hkey
    cases hfirst : fate.gone owner.tableName row with
    | false => exact hadvances.settled howner row hrow hg hfirst key hkey
    | true =>
      obtain ⟨htable, hmatch⟩ := hgone.mp hfirst
      cases hsep.tables howner he htable
      exact hsettled key ((hkeys key).mpr ⟨row, hrow, hmatch, hkey⟩)
  refine ⟨store.after last, ?_,
    fun howner => rows_of_settled hsep hadvances.sound hroot hall he howner,
    fun tableName => hadvances.sound.rows_of_no_entity⟩
  obtain ⟨row, hrow, hmatch⟩ := hm
  obtain ⟨key, hkey⟩ := hc.primary he row hrow
  obtain ⟨first, rest, rfl⟩ := List.exists_cons_of_ne_nil
    (List.ne_nil_of_mem ((hkeys key).mpr ⟨row, hrow, hmatch, hkey⟩))
  exact outcome_deleteWhere hbatch hrun

def originSteps : List EntityStep :=
  [.manyHasOne "author" "Author" { onDelete := .cascade },
   .manyHasOne "original" "Post" { onDelete := .cascade },
   .manyHasOne "editor" "Author" { onDelete := .setNull }]

/-- Posts that go with their author and with the post they copy, but not with their editor. -/
def copies : Schema := .ofDefinitions [("Author", []), ("Post", originSteps)]

/-- The first post is of the first author, the second copies the first one and the third is edited
by the first author. -/
def copiesStore : Store where
  rows
    | "author" => [[("id", .int 1)], [("id", .int 2)]]
    | "post" =>
      [[("id", .int 1), ("author_id", .int 1), ("original_id", .null), ("editor_id", .null)],
       [("id", .int 2), ("author_id", .int 2), ("original_id", .int 1), ("editor_id", .null)],
       [("id", .int 3), ("author_id", .int 2), ("original_id", .null), ("editor_id", .int 1)]]
    | _ => []

lemma separate_copies : copies.Separate :=
  Schema.separate_of_forall_mem (by decide +kernel) (by decide +kernel)

open Classical in
/-- The deletion of the first author, through two relations that cascade and one that clears. -/
theorem deleteWhere_removes_closure_copies :
    let author := Entity.ofSteps "Author" []
    let tree := (Condition.compare .equal (.int 1)).toTree (Sql.column "id")
    ∃ keys next, outcome (deleteWhere ⟨copies, .standard⟩ 5 author
        (.onColumn "id" (.compare .equal (.int 1)))) copiesStore = some (.ok keys, next) ∧
      ∀ {ownerName owner}, copies.entity ownerName = .ok owner →
        next.rows owner.tableName =
          ((copiesStore.rows owner.tableName).filter fun row =>
            ¬ Removed copies copiesStore author (Matches copiesStore author tree) owner row).map
              fun row => row.clear fun column =>
                Cleared copies copiesStore author (Matches copiesStore author tree) owner row
                  column := by
  intro author tree
  have hbuild : Schema.build [("Author", []), ("Post", originSteps)] = .ok copies := by
    decide +kernel
  have hcolumns : copiesStore.HasColumns copies :=
    Store.hasColumns_of_forall_mem (by decide +kernel) (by decide +kernel)
  have hauthor : copies.entity "Author" = .ok author := by decide +kernel
  have htree : Filter.toTree copies author (.onColumn "id" (.compare .equal (.int 1))) = .ok tree :=
    rfl
  have hkeys : KeepsKeys copies copiesStore author (Matches copiesStore author tree) :=
    keepsKeys_of_forall_mem (by decide +kernel)
  have hmatch : ∃ row ∈ copiesStore.rows author.tableName, Matches copiesStore author tree row := by
    refine ⟨[("id", .int 1)], List.mem_cons_self, ?_⟩
    have hid : Table.find? "id" [("id", Value.int 1)] = some (.int 1) := rfl
    rw [Matches, Condition.truth?_toTree hid]
    decide
  have hdepth : copiesStore.size copies ≤ 5 := by decide +kernel
  obtain ⟨next, hrun, hrows, -⟩ := deleteWhere_removes_closure hbuild separate_copies hcolumns
    .standard hauthor htree hkeys hmatch hdepth
  exact ⟨_, next, hrun, hrows⟩

end EntityGraph.Mutation.Session

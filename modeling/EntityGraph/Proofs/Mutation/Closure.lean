import EntityGraph.Proofs.Mutation.Removal
/-!
The rows that a deletion removes: the least set that contains the matching rows and every row whose
cascading joining column points into the set. A fate is sound when it goes no further, and a key is
settled when no row that is left points at it.
-/
namespace EntityGraph.Mutation

section Specification

variable (schema : Schema) (store : Store) (root : Entity) (matching : Row → Prop)

inductive Removed : Entity → Row → Prop
  | root {row : Row} (hrow : row ∈ store.rows root.tableName) (h : matching row) : Removed root row
  | cascade {owner target : Entity} {column : String} {row other : Row}
      (hp : schema.PointsAt owner column .cascade target) (ho : Removed target other)
      (hrow : row ∈ store.rows owner.tableName)
      (hr : row.Agree column other target.primaryColumn) : Removed owner row

/-- Whether a column of a row points at a removed row and is to be cleared for that. -/
def Cleared (owner : Entity) (row : Row) (column : String) : Prop :=
  ∃ target other, schema.PointsAt owner column .setNull target ∧
    Removed schema store root matching target other ∧
    row.Agree column other target.primaryColumn

/-- Whether no key is to be cleared; a database fails such a statement. -/
def KeepsKeys : Prop :=
  ∀ owner row, ¬ Cleared schema store root matching owner row owner.primaryColumn

/-- Only rows that are to be removed are gone, and only columns to be cleared are cleared. -/
structure Sound (fate : Fate) : Prop where
  gone : ∀ {tableName row}, row ∈ store.rows tableName → fate.gone tableName row →
    ∃ name entity, schema.entity name = .ok entity ∧ entity.tableName = tableName ∧
      Removed schema store root matching entity row
  cleared : ∀ {tableName row column}, row ∈ store.rows tableName →
    fate.cleared tableName row column → ∃ owner, owner.tableName = tableName ∧
      Cleared schema store root matching owner row column

/-- Whether no row of a table that is left has a key in a column. -/
def Unreached (fate : Fate) (tableName column : String) (key : Value) : Prop :=
  ∀ row ∈ (store.after fate).rows tableName, ∀ value, row.find? column = some value →
    Comparison.equal.test value key ≠ .holds

/-- Whether no row that is left has a key in a joining column to an entity, unless the relation
restricts deletions. -/
def Settled (fate : Fate) (entity : Entity) (key : Value) : Prop :=
  ∀ owner column policy, schema.PointsAt owner column policy entity → policy ≠ .restrict →
    Unreached store fate owner.tableName column key

/-- Whether a fate goes on to a sound one that has settled the keys of all rows removed between. -/
structure Advances (fate next : Fate) : Prop where
  le : fate ≤ next
  sound : Sound schema store root matching next
  settled : ∀ {name entity}, schema.entity name = .ok entity →
    ∀ row ∈ store.rows entity.tableName, next.gone entity.tableName row →
    fate.gone entity.tableName row = false → ∀ key, row.find? entity.primaryColumn = some key →
    Settled schema store next entity key

end Specification

variable {schema : Schema} {store : Store} {root : Entity} {matching : Row → Prop}
  {fate next third : Fate} {name : String} {owner entity : Entity} {row : Row} {column : String}

lemma owner_eq_ok {policy : OnDelete} (h : schema.PointsAt owner column policy entity) :
    ∃ name, schema.entity name = .ok owner := by
  obtain ⟨name, -, -, -, he, -⟩ := h
  exact ⟨name, he⟩

lemma not_holds_null (key : Value) : Comparison.equal.test .null key ≠ .holds := by
  rw [Ne, Comparison.equal_test_eq_holds]
  exact fun h => nomatch h.1

lemma find?_current {tableName : String} (h : ¬ fate.cleared tableName row column) :
    (fate.current tableName row).find? column = row.find? column := by
  simp [Fate.current, Row.find?_clear, h]

/-- No key is cleared where no column that is cleared is a key. -/
lemma keepsKeys_of_forall_mem (h : ∀ pair ∈ schema.entities, ∀ field ∈ pair.2.fields,
    ∀ relation ∈ field.2.asRelation?, ∀ joining ∈ relation.joiningColumn?,
    joining.onDelete = .setNull → joining.columnName ≠ pair.2.primaryColumn) :
    KeepsKeys schema store root matching := by
  rintro owner row ⟨target, other, ⟨name, field, relation, joining, he, hr, hj, -, hkey, hnull⟩, -⟩
  exact h _ (Table.mem_of_find? (Schema.entity_eq_ok.mp he)) _
    (Table.mem_of_find? (Entity.relation_eq_ok.mp hr)) _ rfl _ hj hnull hkey

lemma Unreached.mono {tableName : String} {key : Value}
    (h : Unreached store fate tableName column key) (hle : fate ≤ next) :
    Unreached store next tableName column key := by
  intro row hrow value hv
  obtain ⟨start, hstart, hlive, rfl⟩ := Store.mem_after.mp hrow
  rw [Fate.current, Row.find?_clear, Option.map_eq_some_iff] at hv
  obtain ⟨old, hold, rfl⟩ := hv
  split
  · exact not_holds_null key
  · next hkept =>
    have hlive' : fate.gone tableName start = false := by
      by_contra hg
      rw [hle.gone (by simpa using hg)] at hlive
      contradiction
    have hkept' : ¬ fate.cleared tableName start column := fun hc => hkept (hle.cleared hc)
    refine h _ (Store.mem_after.mpr ⟨start, hstart, hlive', rfl⟩) old ?_
    rw [find?_current hkept', hold]

lemma Settled.mono {key : Value} (h : Settled schema store fate entity key) (hle : fate ≤ next) :
    Settled schema store next entity key :=
  fun owner column policy hp hpolicy => (h owner column policy hp hpolicy).mono hle

lemma Advances.refl (h : Sound schema store root matching fate) :
    Advances schema store root matching fate fate :=
  ⟨fate.le_refl, h, fun _ _ _ hg hn => by simp [hg] at hn⟩

lemma Advances.trans (h : Advances schema store root matching fate next)
    (h' : Advances schema store root matching next third) :
    Advances schema store root matching fate third where
  le := Fate.le_trans h.le h'.le
  sound := h'.sound
  settled he row hrow hg hn key hkey := by
    cases hmid : next.gone _ row with
    | false => exact h'.settled he row hrow hg hmid key hkey
    | true => exact Settled.mono (h.settled he row hrow hmid hn key hkey) h'.le

/-- What is left in a column unless it is `NULL` was there from the start. -/
lemma find?_of_current {tableName : String} {value : Value}
    (h : (fate.current tableName row).find? column = some value) (hv : value.isNull = false) :
    row.find? column = some value := by
  rw [Fate.current, Row.find?_clear, Option.map_eq_some_iff] at h
  obtain ⟨old, hold, rfl⟩ := h
  split at hv
  · contradiction
  · next hkept => rw [hold, if_neg hkept]

namespace Sound

variable (h : Sound schema store root matching fate) (hsep : schema.Separate)
include h hsep

lemma owner_of_cleared (he : schema.entity name = .ok entity)
    (hrow : row ∈ store.rows entity.tableName) (hc : fate.cleared entity.tableName row column) :
    Cleared schema store root matching entity row column := by
  obtain ⟨owner, htable, target, other, hp, hremoved, hagree⟩ := h.cleared hrow hc
  obtain ⟨_, ho⟩ := owner_eq_ok hp
  cases hsep.tables ho he htable
  exact ⟨target, other, hp, hremoved, hagree⟩

lemma removed_of_gone (he : schema.entity name = .ok entity)
    (hrow : row ∈ store.rows entity.tableName) (hg : fate.gone entity.tableName row) :
    Removed schema store root matching entity row := by
  obtain ⟨_, _, hentity, htable, hremoved⟩ := h.gone hrow hg
  cases hsep.tables hentity he htable
  exact hremoved

/-- Keys are never cleared. -/
lemma find?_key (hkeys : KeepsKeys schema store root matching)
    (he : schema.entity name = .ok entity) (hrow : row ∈ store.rows entity.tableName) :
    (fate.current entity.tableName row).find? entity.primaryColumn =
      row.find? entity.primaryColumn := by
  exact find?_current fun hc => hkeys entity row (h.owner_of_cleared hsep he hrow hc)

/-- Neither are joining columns that cascade. -/
lemma find?_cascading {target : Entity} (hp : schema.PointsAt owner column .cascade target)
    (hrow : row ∈ store.rows owner.tableName) :
    (fate.current owner.tableName row).find? column = row.find? column := by
  obtain ⟨_, ho⟩ := owner_eq_ok hp
  refine find?_current fun hc => ?_
  obtain ⟨_, _, hp', -, -⟩ := h.owner_of_cleared hsep ho hrow hc
  cases (hsep.columns hp hp').1

end Sound

/-- Keys of rows that are to be removed. -/
def RemovedKeys (schema : Schema) (store : Store) (root : Entity) (matching : Row → Prop)
    (entity : Entity) (keys : List Value) : Prop :=
  ∀ key ∈ keys, ∃ other, Removed schema store root matching entity other ∧
    other.find? entity.primaryColumn = some key

/-- Whether a row has one of some keys in a column. -/
def holdsKey (column : String) (keys : List Value) (row : Row) : Bool :=
  (row.find? column).any fun value => Sql.memberTest value keys = .holds

lemma holdsKey_iff {keys : List Value} : holdsKey column keys row ↔
    ∃ value, row.find? column = some value ∧
      ∃ key ∈ keys, Comparison.equal.test value key = .holds := by
  simp [holdsKey, Option.any_eq_true, Sql.memberTest_eq_holds]

/-- A row that still has a removed key points at the removed row from the start. -/
lemma agree_of_holdsKey {keys : List Value} {tableName : String}
    (hk : RemovedKeys schema store root matching entity keys)
    (h : holdsKey column keys (fate.current tableName row)) :
    ∃ other, Removed schema store root matching entity other ∧
      row.Agree column other entity.primaryColumn := by
  obtain ⟨value, hv, key, hkey, heq⟩ := holdsKey_iff.mp h
  obtain ⟨other, ho, hfind⟩ := hk key hkey
  have hnull := (Comparison.equal_test_eq_holds.mp heq).1
  exact ⟨other, ho, value, key, find?_of_current hv hnull, hfind, heq⟩

/-- Removing the rows that cascade from removed keys is sound. -/
lemma Sound.remove (h : Sound schema store root matching fate)
    (hp : schema.PointsAt owner column .cascade entity) {keys : List Value}
    (hk : RemovedKeys schema store root matching entity keys) :
    Sound schema store root matching (fate.remove owner.tableName (holdsKey column keys)) where
  gone hrow hg := by
    simp only [Fate.remove, Bool.or_eq_true, Bool.and_eq_true, decide_eq_true_eq] at hg
    rcases hg with hg | ⟨rfl, hholds⟩
    · exact h.gone hrow hg
    · obtain ⟨other, ho, hagree⟩ := agree_of_holdsKey hk hholds
      obtain ⟨name, he⟩ := owner_eq_ok hp
      exact ⟨name, owner, he, rfl, .cascade hp ho hrow hagree⟩
  cleared hrow hc := h.cleared hrow hc

/-- So is clearing the columns that point at removed keys. -/
lemma Sound.clearColumn (h : Sound schema store root matching fate)
    (hp : schema.PointsAt owner column .setNull entity) {keys : List Value}
    (hk : RemovedKeys schema store root matching entity keys) :
    Sound schema store root matching
      (fate.clearColumn owner.tableName column (holdsKey column keys)) where
  gone hrow hg := h.gone hrow hg
  cleared hrow hc := by
    simp only [Fate.clearColumn, Bool.or_eq_true, Bool.and_eq_true, decide_eq_true_eq] at hc
    rcases hc with hc | ⟨⟨rfl, rfl⟩, hholds⟩
    · exact h.cleared hrow hc
    · obtain ⟨other, ho, hagree⟩ := agree_of_holdsKey hk hholds
      exact ⟨owner, rfl, entity, other, hp, ho, hagree⟩

lemma gone_remove {tableName other : String} {chosen : Row → Bool}
    (h : (fate.remove tableName chosen).gone other row) (hn : fate.gone other row = false) :
    other = tableName ∧ chosen (fate.current other row) := by
  simpa [Fate.remove, hn] using h

/-- A fate that has settled the keys of a batch goes on from before the batch. -/
lemma Advances.of_remove (hsep : schema.Separate) (he : schema.entity name = .ok owner)
    {chosen : Row → Bool}
    (hnext : Advances schema store root matching (fate.remove owner.tableName chosen) next)
    (hsettled : ∀ row ∈ store.rows owner.tableName, fate.gone owner.tableName row = false →
      chosen (fate.current owner.tableName row) → ∀ key,
      row.find? owner.primaryColumn = some key → Settled schema store next owner key) :
    Advances schema store root matching fate next where
  le := Fate.le_trans (fate.le_remove _ _) hnext.le
  sound := hnext.sound
  settled {_ entity} he' row hrow hg hn key hkey := by
    cases hmid : (fate.remove owner.tableName chosen).gone entity.tableName row with
    | false => exact hnext.settled he' row hrow hg hmid key hkey
    | true =>
      obtain ⟨htable, hchosen⟩ := gone_remove hmid hn
      cases hsep.tables he' he htable
      exact hsettled row hrow hn hchosen key hkey

/-- After the rows with some keys in a column are removed, none is left. -/
lemma unreached_remove {tableName : String} {keys : List Value} {key : Value} (hk : key ∈ keys) :
    Unreached store (fate.remove tableName (holdsKey column keys)) tableName column key := by
  intro row hrow value hv heq
  obtain ⟨start, -, hlive, rfl⟩ := Store.mem_after.mp hrow
  simp only [Fate.remove, decide_true, Bool.true_and, Bool.or_eq_false_iff] at hlive
  have hholds : holdsKey column keys (fate.current tableName start) :=
    holdsKey_iff.mpr ⟨value, hv, key, hk, heq⟩
  rw [hlive.2] at hholds
  contradiction

/-- Nor after the column is cleared in them. -/
lemma unreached_clearColumn {tableName : String} {keys : List Value} {key : Value}
    (hk : key ∈ keys) :
    Unreached store (fate.clearColumn tableName column (holdsKey column keys)) tableName column
      key := by
  intro row hrow value hv heq
  obtain ⟨start, -, hlive, rfl⟩ := Store.mem_after.mp hrow
  rw [Fate.current, Row.find?_clear, Option.map_eq_some_iff] at hv
  obtain ⟨old, hold, rfl⟩ := hv
  split at heq
  · exact not_holds_null key heq
  · next hkept =>
    simp only [Fate.clearColumn, decide_true, Bool.true_and, Bool.or_eq_true, not_or] at hkept
    refine hkept.2 (holdsKey_iff.mpr ⟨old, ?_, key, hk, heq⟩)
    rw [find?_current hkept.1, hold]

section Completeness

variable (hsep : schema.Separate) (h : Sound schema store root matching fate)
  (hroot : ∀ row ∈ store.rows root.tableName, matching row → fate.gone root.tableName row)
  (hsettled : ∀ {name entity}, schema.entity name = .ok entity →
    ∀ row ∈ store.rows entity.tableName, fate.gone entity.tableName row →
    ∀ key, row.find? entity.primaryColumn = some key → Settled schema store fate entity key)
include hsep h hroot hsettled

/-- Once the keys of all rows that are gone are settled, all rows to be removed are gone. -/
theorem gone_of_removed (hr : schema.entity name = .ok root)
    (hremoved : Removed schema store root matching entity row) :
    (∃ name, schema.entity name = .ok entity) ∧ row ∈ store.rows entity.tableName ∧
      fate.gone entity.tableName row := by
  induction hremoved with
  | root hrow hmatch => exact ⟨⟨name, hr⟩, hrow, hroot _ hrow hmatch⟩
  | @cascade owner target column row other hp _ hrow hagree ih =>
    obtain ⟨⟨_, ht⟩, hother, hgone⟩ := ih
    refine ⟨owner_eq_ok hp, hrow, ?_⟩
    by_contra hlive
    obtain ⟨value, key, hv, hkey, heq⟩ := hagree
    refine hsettled ht other hother hgone key hkey _ _ _ hp (by simp) _
      (Store.mem_after.mpr ⟨row, hrow, by simpa using hlive, rfl⟩) value ?_ heq
    rw [h.find?_cascading hsep hp hrow, hv]

/-- And all columns to be cleared are cleared. -/
theorem cleared_of_cleared (hr : schema.entity name = .ok root)
    (hrow : row ∈ store.rows owner.tableName) (hlive : fate.gone owner.tableName row = false)
    (hcleared : Cleared schema store root matching owner row column) :
    fate.cleared owner.tableName row column := by
  obtain ⟨target, other, hp, hremoved, value, key, hv, hkey, heq⟩ := hcleared
  obtain ⟨⟨_, ht⟩, hother, hgone⟩ := gone_of_removed hsep h hroot hsettled hr hremoved
  by_contra hkept
  refine hsettled ht other hother hgone key hkey _ _ _ hp (by simp) _
    (Store.mem_after.mpr ⟨row, hrow, hlive, rfl⟩) value ?_ heq
  rw [find?_current hkept, hv]

open Classical in
/-- The rows of an entity are then the ones outside the closure, with the columns to be cleared. -/
theorem rows_of_settled (hr : schema.entity name = .ok root) {ownerName : String}
    (ho : schema.entity ownerName = .ok owner) :
    (store.after fate).rows owner.tableName =
      ((store.rows owner.tableName).filter fun row =>
        ¬ Removed schema store root matching owner row).map fun row =>
          row.clear fun column => Cleared schema store root matching owner row column := by
  have hgone : ∀ row ∈ store.rows owner.tableName, fate.gone owner.tableName row ↔
      Removed schema store root matching owner row := fun row hrow =>
    ⟨h.removed_of_gone hsep ho hrow, fun hremoved =>
      (gone_of_removed hsep h hroot hsettled hr hremoved).2.2⟩
  have hfilter : (store.rows owner.tableName).filter (fun row => !fate.gone owner.tableName row) =
      (store.rows owner.tableName).filter fun row =>
        ¬ Removed schema store root matching owner row := by
    refine List.filter_congr fun row hrow => ?_
    rw [Bool.eq_iff_iff, Bool.not_eq_true', decide_eq_true_iff, ← Bool.not_eq_true, hgone row hrow]
  rw [Store.rows_after, hfilter]
  refine List.map_congr_left fun row hmem => Row.clear_congr fun column => ?_
  obtain ⟨hrow, hlive⟩ := List.mem_filter.mp hmem
  rw [decide_eq_true_iff, ← hgone row hrow, Bool.not_eq_true] at hlive
  rw [Bool.eq_iff_iff, decide_eq_true_iff]
  exact ⟨h.owner_of_cleared hsep ho hrow,
    cleared_of_cleared hsep h hroot hsettled hr hrow hlive⟩

end Completeness

/-- A sound fate leaves the tables of no entity as they are. -/
theorem Sound.rows_of_no_entity (h : Sound schema store root matching fate) {tableName : String}
    (hother : ∀ {name entity}, schema.entity name = .ok entity → entity.tableName ≠ tableName) :
    (store.after fate).rows tableName = store.rows tableName := by
  have hfilter : (store.rows tableName).filter (fun row => !fate.gone tableName row) =
      store.rows tableName := by
    refine List.filter_eq_self.mpr fun row hrow => ?_
    by_contra hg
    obtain ⟨_, _, he, htable, -⟩ := h.gone hrow (by simpa using hg)
    exact hother he htable
  rw [Store.rows_after, hfilter]
  refine (List.map_congr_left fun row hrow => ?_).trans (List.map_id _)
  refine (Row.clear_congr fun column => ?_).trans (Row.clear_none row)
  by_contra hcleared
  obtain ⟨owner, htable, _, _, hp, -, -⟩ := h.cleared hrow (by simpa using hcleared)
  obtain ⟨_, ho⟩ := owner_eq_ok hp
  exact hother ho htable

end EntityGraph.Mutation

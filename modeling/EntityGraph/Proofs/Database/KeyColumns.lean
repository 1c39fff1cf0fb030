import EntityGraph.Database.Error
import Mathlib.Data.List.Infix
import Mathlib.Tactic.Common
/-!
# The columns of a violated key

The detail of a unique violation lists the columns of the key and then the values that were there
already. The columns are read back from it whatever the values are, as the values come last. Where
no detail lists columns, the constraint goes by its name.
-/
namespace EntityGraph.Database

/-- The detail of a key that exists already. -/
def keyDetail (columns values : List String) : String :=
  "Key (" ++ ", ".intercalate columns ++ ")=(" ++ ", ".intercalate values ++ ") already exists."

/-- A parenthesis opens behind the word `Key` and is closed. -/
def ListsColumns (detail : String) : Prop :=
  ∃ before columns after : String, detail = before ++ "Key (" ++ columns ++ ")" ++ after

section

variable {text rest : List Char}

/-! ### Searching -/

lemma exists_of_afterKey? (h : afterKey? text = some rest) :
    ∃ before, text = before ++ ("Key (".toList ++ rest) := by
  fun_induction afterKey? text with
  | case1 => cases h
  | case2 behind =>
    cases h
    exact ⟨[], rfl⟩
  | case3 c behind _ ih =>
    obtain ⟨before, rfl⟩ := ih h
    exact ⟨c :: before, rfl⟩

lemma exists_of_upToClosing? {columns : List Char} (h : upToClosing? text = some columns) :
    ∃ after, text = columns ++ ')' :: after := by
  fun_induction upToClosing? text generalizing columns with
  | case1 => cases h
  | case2 behind =>
    cases h
    exact ⟨behind, rfl⟩
  | case3 c behind _ ih =>
    obtain ⟨inner, hinner, rfl⟩ := Option.map_eq_some_iff.mp h
    obtain ⟨after, rfl⟩ := ih hinner
    exact ⟨after, rfl⟩

lemma upToClosing?_append (h : ')' ∉ text) (rest : List Char) :
    upToClosing? (text ++ ')' :: rest) = some text := by
  induction text with
  | nil => rfl
  | cons c text ih =>
    obtain ⟨hc, htext⟩ : ')' ≠ c ∧ ')' ∉ text := by simpa using h
    rw [List.cons_append, upToClosing?, ih htext]
    · rfl
    · exact fun heq => hc heq.symm

lemma upToClosing?_of_mem (h : ')' ∈ text) : (upToClosing? text).isSome := by
  obtain ⟨before, after, rfl, hbefore⟩ := List.eq_append_cons_of_mem h
  rw [upToClosing?_append hbefore]
  rfl

/-- The search stops at the first place, and leaves all that lies behind any other one. -/
lemma afterKey?_of_append {before : List Char} (h : text = before ++ ("Key (".toList ++ rest)) :
    ∃ behind, afterKey? text = some behind ∧ rest <:+ behind := by
  fun_induction afterKey? text generalizing before with
  | case1 => simp at h
  | case2 behind =>
    have hrest : rest <:+ "Key (".toList ++ behind :=
      ⟨before ++ "Key (".toList, by simpa using h.symm⟩
    have hlength : rest.length ≤ behind.length := by
      have hlengths := congrArg List.length h
      simp at hlengths
      omega
    exact ⟨behind, rfl, List.suffix_of_suffix_length_le hrest (List.suffix_append _ _) hlength⟩
  | case3 c text hkey ih =>
    cases before with
    | nil =>
      obtain ⟨hc, htext⟩ := List.cons.inj h
      exact (hkey rest hc htext).elim
    | cons d before =>
      obtain ⟨rfl, htext⟩ := List.cons.inj h
      exact ih htext

/-! ### Splitting -/

lemma listParts_cons {c : Char} (hc : c ≠ ',') (rest : List Char) {part : List Char}
    {parts : List (List Char)} (h : listParts rest = part :: parts) :
    listParts (c :: rest) = (c :: part) :: parts := by
  rw [listParts, h]
  exact fun _ heq _ => hc heq

lemma listParts_of_not_mem (h : ',' ∉ text) : listParts text = [text] := by
  induction text with
  | nil => rfl
  | cons c text ih =>
    obtain ⟨hc, htext⟩ : ',' ≠ c ∧ ',' ∉ text := by simpa using h
    exact listParts_cons hc.symm text (ih htext)

lemma listParts_append (h : ',' ∉ text) (rest : List Char) :
    listParts (text ++ ([',', ' '] ++ rest)) = text :: listParts rest := by
  induction text with
  | nil => rfl
  | cons c text ih =>
    obtain ⟨hc, htext⟩ : ',' ≠ c ∧ ',' ∉ text := by simpa using h
    exact listParts_cons hc.symm _ (ih htext)

lemma mem_intercalate {c : Char} {separator : List Char} {parts : List (List Char)}
    (h : c ∈ separator.intercalate parts) : c ∈ separator ∨ ∃ part ∈ parts, c ∈ part := by
  induction parts with
  | nil => simp at h
  | cons first others ih =>
    cases others with
    | nil => exact .inr ⟨first, List.mem_cons_self, by simpa using h⟩
    | cons next others =>
      rw [List.intercalate_cons_cons, List.append_assoc, List.mem_append, List.mem_append] at h
      obtain hfirst | hseparator | hothers := h
      · exact .inr ⟨first, List.mem_cons_self, hfirst⟩
      · exact .inl hseparator
      · exact (ih hothers).imp_right fun ⟨part, hpart, hc⟩ =>
          ⟨part, List.mem_cons_of_mem first hpart, hc⟩

/-- Parts without commas are told apart by the separators between them. -/
lemma listParts_intercalate {parts : List (List Char)} (hne : parts ≠ [])
    (h : ∀ part ∈ parts, ',' ∉ part) : listParts ([',', ' '].intercalate parts) = parts := by
  induction parts with
  | nil => exact absurd rfl hne
  | cons first others ih =>
    obtain ⟨hfirst, hothers⟩ := List.forall_mem_cons.mp h
    cases others with
    | nil => simpa using listParts_of_not_mem hfirst
    | cons next others =>
      rw [List.intercalate_cons_cons, List.append_assoc, listParts_append hfirst,
        ih (List.cons_ne_nil _ _) hothers]

end

/-! ### Details -/

/-- The columns of a detail end before its first parenthesis, whatever the values are. -/
lemma keyColumns?_keyDetail {columns : List String} (hne : columns ≠ [])
    (h : ∀ column ∈ columns, ')' ∉ column.toList ∧ ',' ∉ column.toList) (values : List String) :
    keyColumns? (keyDetail columns values) = some columns := by
  let listed := [',', ' '].intercalate (columns.map String.toList)
  obtain ⟨behind, hdetail⟩ : ∃ behind,
      (keyDetail columns values).toList = "Key (".toList ++ (listed ++ ')' :: behind) :=
    ⟨_, by simp [keyDetail, listed, String.toList_intercalate]; rfl⟩
  have hkey : afterKey? (keyDetail columns values).toList = some (listed ++ ')' :: behind) := by
    rw [hdetail]
    rfl
  have hclosing : ')' ∉ listed := by
    intro hmem
    obtain hseparator | ⟨part, hpart, hinside⟩ := mem_intercalate hmem
    · simp at hseparator
    · obtain ⟨column, hcolumn, rfl⟩ := List.mem_map.mp hpart
      exact (h column hcolumn).1 hinside
  have hparts : listParts listed = columns.map String.toList := by
    refine listParts_intercalate (by simpa using hne) ?_
    exact List.forall_mem_map.mpr fun column hcolumn => (h column hcolumn).2
  simp [keyColumns?, hkey, upToClosing?_append hclosing, hparts]

/-- Columns are read exactly where a detail lists some. -/
lemma keyColumns?_isSome_iff {detail : String} :
    (keyColumns? detail).isSome ↔ ListsColumns detail := by
  constructor
  · intro h
    cases hkey : afterKey? detail.toList with
    | none => simp [keyColumns?, hkey] at h
    | some text =>
      cases hcolumns : upToClosing? text with
      | none => simp [keyColumns?, hkey, hcolumns] at h
      | some columns =>
        obtain ⟨before, hbefore⟩ := exists_of_afterKey? hkey
        obtain ⟨after, rfl⟩ := exists_of_upToClosing? hcolumns
        refine ⟨String.ofList before, String.ofList columns, String.ofList after, ?_⟩
        rw [← String.toList_inj, hbefore]
        simp
  · rintro ⟨before, columns, after, hdetail⟩
    have htext : detail.toList =
        before.toList ++ ("Key (".toList ++ (columns.toList ++ ')' :: after.toList)) := by
      simp [hdetail]
    obtain ⟨behind, hkey, hsuffix⟩ := afterKey?_of_append htext
    have hclosing : ')' ∈ behind := hsuffix.subset (by simp)
    obtain ⟨listed, hlisted⟩ := Option.isSome_iff_exists.mp (upToClosing?_of_mem hclosing)
    simp [keyColumns?, hkey, hlisted]

/-! ### Violations -/

namespace ServerError

variable {e : ServerError}

lemma fault_of_unique (hcode : e.code = "23505") :
    e.fault = .uniqueViolation e.uniqueConstraint := by
  simp [fault, hcode]

lemma uniqueConstraint_of_columns {detail : String} {columns : List String}
    (hdetail : e.detail = some detail) (hcolumns : keyColumns? detail = some columns) :
    e.uniqueConstraint = .fields columns := by
  simp [uniqueConstraint, hdetail, hcolumns]

lemma uniqueConstraint_eq_index_iff {index : String} : e.uniqueConstraint = .index index ↔
    (∀ detail ∈ e.detail, ¬ ListsColumns detail) ∧ e.constraint = some index := by
  have hnone : e.detail.bind keyColumns? = none ↔ ∀ detail ∈ e.detail, ¬ ListsColumns detail := by
    simp only [Option.bind_eq_none_iff, Option.mem_def, ← keyColumns?_isSome_iff,
      Option.not_isSome_iff_eq_none]
  rw [← hnone, uniqueConstraint]
  cases e.detail.bind keyColumns? <;> cases e.constraint <;> simp

/-- A unique violation names the columns that its detail lists, whatever values follow them and
whatever its constraint is called. It goes by the name of the constraint exactly if there is one and
no detail lists columns. -/
theorem unique_violation_names_columns (hcode : e.code = "23505") :
    (∀ columns values : List String, columns ≠ [] →
      (∀ column ∈ columns, ')' ∉ column.toList ∧ ',' ∉ column.toList) →
      e.detail = some (keyDetail columns values) →
        e.classified.fault = .uniqueViolation (.fields columns)) ∧
    ∀ index : String, e.classified.fault = .uniqueViolation (.index index) ↔
      (∀ detail ∈ e.detail, ¬ ListsColumns detail) ∧ e.constraint = some index := by
  rw [classified, fault_of_unique hcode]
  refine ⟨fun columns values hne hcolumns hdetail => ?_, fun index => ?_⟩
  · rw [uniqueConstraint_of_columns hdetail (keyColumns?_keyDetail hne hcolumns values)]
  · rw [Fault.uniqueViolation.injEq, uniqueConstraint_eq_index_iff]

/-- The values look like the end of the list and like another key. -/
theorem unique_violation_names_columns_tenant :
    let e : ServerError :=
      { code := "23505"
        message := "duplicate key value violates unique constraint"
        severity := "ERROR"
        detail := some "Key (email, tenant)=(a), Key (b, 1) already exists."
        column := none
        constraint := some "author_email_key"
        table := some "author" }
    e.detail = some (keyDetail ["email", "tenant"] ["a)", "Key (b", "1"]) ∧
      e.classified.fault = .uniqueViolation (.fields ["email", "tenant"]) := by
  intro e
  have hdetail : e.detail = some (keyDetail ["email", "tenant"] ["a)", "Key (b", "1"]) := by
    decide
  exact ⟨hdetail, (unique_violation_names_columns rfl).1 _ _ (by decide) (by decide) hdetail⟩

/-- What the server reports where an index cannot be built as two rows are alike. -/
def duplicatedKey : ServerError where
  code := "23505"
  message := "could not create unique index"
  severity := "ERROR"
  detail := some "Key (email)=(a@b.c) is duplicated."
  column := none
  constraint := some "author_email_key"
  table := some "author"

/-- The columns of a key are preferred to the name of the index in other details as well. -/
theorem duplicatedKey_names_columns :
    duplicatedKey.code = "23505" ∧ duplicatedKey.constraint = some "author_email_key" ∧
      (∀ columns values, duplicatedKey.detail ≠ some (keyDetail columns values)) ∧
      duplicatedKey.classified.fault = .uniqueViolation (.fields ["email"]) := by
  refine ⟨rfl, rfl, ?_, by decide⟩
  intro columns values hdetail
  have hends := congrArg (fun detail => detail.map fun text => text.toList.reverse[1]?) hdetail
  simp [duplicatedKey, keyDetail] at hends

end ServerError

end EntityGraph.Database

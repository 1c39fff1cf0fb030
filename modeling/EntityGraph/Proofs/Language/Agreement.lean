import EntityGraph.Proofs.Language.Parsing
/-!
# Entry points agree

Entry points that end in a field, or in the rows of a relation, read what those that end in a
relation read, with a condition on its last step. And an entity without a filter is read the same
where a filter could stand and where none may.
-/
namespace EntityGraph.Language

namespace Environment

variable {env : Environment} {tokens rest : List Token} {entity field : String}
  {filter : Option Filter} {path : List (Step Filter UniqueWhere)}

/-! ### Phrases -/

lemma relativeFieldPhrase_iff : env.RelativeFieldPhrase tokens ⟨path, field⟩ rest ↔
    env.StepsPhrase tokens (path ++ [⟨field, none, none⟩]) rest := by
  constructor
  · rintro ⟨h⟩
    exact h
  · exact .intro

lemma relativeListPhrase_iff : env.RelativeListPhrase tokens ⟨path, field, filter⟩ rest ↔
    env.StepsPhrase tokens (path ++ [⟨field, filter, none⟩]) rest := by
  constructor
  · rintro ⟨h⟩
    exact h
  · exact .intro

/-- Steps behind an entity are a dot and a path, where there are any. -/
lemma tailPhrase_iff (hpath : path ≠ []) :
    env.TailPhrase tokens path rest ↔ Phrase.After .dot env.StepsPhrase tokens path rest := by
  constructor
  · rintro (_ | ⟨⟨hdot, hstep⟩, hothers⟩)
    · exact absurd rfl hpath
    · exact .intro hdot (.intro (.intro hstep hothers))
  · rintro ⟨hdot, ⟨⟨hstep, hothers⟩⟩⟩
    exact .cons (.intro hdot hstep) hothers

/-- The dot that a field list has before its path is the one before the first step of an entity
list, or before the field itself where there is no other step. -/
lemma fieldListPhrase_iff : env.FieldListPhrase tokens ⟨entity, filter, path, field⟩ rest ↔
    env.EntityListPhrase tokens ⟨entity, filter, path ++ [⟨field, none, none⟩]⟩ rest := by
  have hlast : path ++ [⟨field, none, none⟩] ≠ [] := by simp
  constructor
  · intro h
    generalize hlist : FieldList.mk entity filter path field = list at h
    obtain ⟨hentity, hfilter, ⟨hdot, hrelative⟩⟩ := h
    cases hlist
    have hsteps := relativeFieldPhrase_iff.mp hrelative
    exact .intro hentity hfilter ((tailPhrase_iff hlast).mpr (.intro hdot hsteps))
  · rintro ⟨hentity, hfilter, hpath⟩
    obtain ⟨hdot, hsteps⟩ := (tailPhrase_iff hlast).mp hpath
    exact .intro hentity hfilter (.intro hdot (relativeFieldPhrase_iff.mpr hsteps))

lemma unfilteredListPhrase_iff : env.UnfilteredListPhrase tokens ⟨entity, path⟩ rest ↔
    env.EntityListPhrase tokens ⟨entity, none, path⟩ rest := by
  constructor
  · rintro ⟨hentity, hpath⟩
    exact .intro hentity (.absent _) hpath
  · rintro ⟨hentity, ⟨⟩, hpath⟩
    exact .intro hentity hpath

end Environment

/-! ### Whole texts -/

/-- Two rules come to corresponding trees where their phrases do. -/
lemma Reads.run_eq_ok_congr {α β : Type} {rule : Parser α} {other : Parser β} {phrase : Phrase α}
    {phrase' : Phrase β} {blocked blocked' : List TokenKind} (h : Reads rule phrase blocked)
    (hother : Reads other phrase' blocked') {a : α} {b : β}
    (hiff : ∀ tokens, phrase tokens a [] ↔ phrase' tokens b []) (text : String) :
    rule.run text = .ok a ↔ other.run text = .ok b := by
  rw [h.run_eq_ok_iff, hother.run_eq_ok_iff, hiff]

/-- The narrower entry points read their tree of a text exactly if the wider ones read the tree that
says the same: a last step for the field that ends the path, and no filter where none may stand. -/
theorem entryPoints_agree (env : Environment) (text : String) :
    (∀ path field, parse env .relativeSingleField text = .ok (RelativeField.mk path field) ↔
      parse env .relativeSingleEntity text = .ok (path ++ [Step.mk field none none])) ∧
    (∀ path field filter,
      parse env .relativeEntityList text = .ok (RelativeList.mk path field filter) ↔
        parse env .relativeSingleEntity text = .ok (path ++ [Step.mk field filter none])) ∧
    (∀ entity filter path field,
      parse env .qualifiedFieldList text = .ok (FieldList.mk entity filter path field) ↔
        parse env .qualifiedEntityList text =
          .ok (EntityList.mk entity filter (path ++ [Step.mk field none none]))) ∧
    ∀ entity path,
      parse env .unconstrainedQualifiedEntityList text = .ok (UnfilteredList.mk entity path) ↔
        parse env .qualifiedEntityList text = .ok (EntityList.mk entity none path) := by
  refine ⟨fun path field => ?_, fun path field filter => ?_, fun entity filter path field => ?_,
    fun entity path => ?_⟩
  · exact env.reads_relativeSingleField.run_eq_ok_congr env.reads_relativeSingleEntity
      (fun _ => Environment.relativeFieldPhrase_iff) text
  · exact env.reads_relativeEntityList.run_eq_ok_congr env.reads_relativeSingleEntity
      (fun _ => Environment.relativeListPhrase_iff) text
  · exact env.reads_qualifiedFieldList.run_eq_ok_congr env.reads_qualifiedEntityList
      (fun _ => Environment.fieldListPhrase_iff) text
  · exact env.reads_unfilteredList.run_eq_ok_congr env.reads_qualifiedEntityList
      (fun _ => Environment.unfilteredListPhrase_iff) text

end EntityGraph.Language

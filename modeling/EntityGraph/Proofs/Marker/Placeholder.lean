import EntityGraph.Marker.Placeholder
import EntityGraph.Proofs.Filter.Tagging
import EntityGraph.Proofs.Language.Parsing
import EntityGraph.Proofs.UniqueWhere.Tagging
/-!
# Placeholders tell references apart

Two references through one field share a placeholder exactly if the canonical documents of their
restrictions are the same, provided that the digests of the two documents do not collide. Filters
are always told apart; reductions are unless one of them imitates a value of the other.
-/
namespace EntityGraph.Marker.Constraints

/-- The digests of two documents, cut to sixteen digits, are the same for one document only. -/
def Collisionless (a b : Constraints) : Prop :=
  a.digest = b.digest → a.toJson.canonical.text = b.toJson.canonical.text

/-- The canonical document of the filter, if there is one. -/
def filterJson (constraints : Constraints) : Json :=
  constraints.filter.elim .null fun filter => filter.toTaggedJson.canonical

/-- The canonical document of the reduction, if there is one. -/
def reductionJson (constraints : Constraints) : Json :=
  constraints.reducedBy.elim .null fun which => which.toTaggedJson.canonical

variable {a b : Constraints}

lemma canonical_toJson (constraints : Constraints) : constraints.toJson.canonical =
    .object [("filter", constraints.filterJson), ("reducedBy", constraints.reductionJson)] := by
  obtain ⟨count, filter, reducedBy⟩ := constraints
  cases filter <;> cases reducedBy <;> rfl

lemma isExact_filterJson (constraints : Constraints) : constraints.filterJson.IsExact := by
  obtain ⟨count, filter, reducedBy⟩ := constraints
  cases filter with
  | none => trivial
  | some filter => exact filter.isExact_toTaggedJson.canonical

lemma isExact_toJson (constraints : Constraints) : constraints.toJson.IsExact := by
  obtain ⟨count, filter, reducedBy⟩ := constraints
  refine ⟨?_, ?_, trivial⟩
  · cases filter with
    | none => trivial
    | some filter => exact filter.isExact_toTaggedJson
  · cases reducedBy with
    | none => trivial
    | some which => exact which.isExact_toTaggedJson

lemma text_eq_iff : a.toJson.canonical.text = b.toJson.canonical.text ↔
    a.filterJson = b.filterJson ∧ a.reductionJson = b.reductionJson := by
  rw [Json.text_injOn.eq_iff a.isExact_toJson.canonical b.isExact_toJson.canonical,
    canonical_toJson, canonical_toJson]
  simp

lemma filterJson_eq_null_iff : a.filterJson = .null ↔ a.filter = none := by
  cases hfilter : a.filter with
  | none => simp [filterJson, hfilter]
  | some filter => simp [filterJson, hfilter, Filter.toTaggedJson_eq, Json.canonical]

lemma reductionJson_eq_null_iff : a.reductionJson = .null ↔ a.reducedBy = none := by
  cases hreduced : a.reducedBy with
  | none => simp [reductionJson, hreduced]
  | some which => simp [reductionJson, hreduced, UniqueWhere.toTaggedJson_eq, Json.canonical]

/-! ### Names -/

/-- A reference that nothing restricts has the name of its field. -/
lemma placeholder_of_null (hfilter : a.filterJson = .null) (hreduced : a.reductionJson = .null)
    (field : String) : a.placeholder field = field := by
  rw [filterJson_eq_null_iff] at hfilter
  rw [reductionJson_eq_null_iff] at hreduced
  simp [placeholder, hfilter, hreduced]

/-- A restricted reference has a longer name, which ends in the digest. -/
lemma toList_placeholder (h : ¬(a.filterJson = .null ∧ a.reductionJson = .null))
    (field : String) : (a.placeholder field).toList = field.toList ++ '_' :: a.digest.toList := by
  rw [filterJson_eq_null_iff, reductionJson_eq_null_iff] at h
  have hrestricted : ¬(a.filter.isNone && a.reducedBy.isNone) = true := by
    rwa [Bool.and_eq_true, Option.isNone_iff_eq_none, Option.isNone_iff_eq_none]
  have hname : a.placeholder field = field ++ ("_" ++ a.digest) := by
    rw [placeholder, if_neg hrestricted]
    exact String.append_assoc
  rw [hname, String.toList_append, String.toList_append]
  rfl

/-- One name for references through one field means one document, and the other way round. -/
theorem placeholder_eq_iff (h : Collisionless a b) (field : String) :
    a.placeholder field = b.placeholder field ↔
      a.filterJson = b.filterJson ∧ a.reductionJson = b.reductionJson := by
  have hlonger {c : Constraints} (hc : ¬(c.filterJson = .null ∧ c.reductionJson = .null)) :
      c.placeholder field ≠ field := by
    intro heq
    have hlength := congrArg (fun text => text.toList.length) heq
    simp [toList_placeholder hc] at hlength
  by_cases ha : a.filterJson = .null ∧ a.reductionJson = .null
  · rw [placeholder_of_null ha.1 ha.2]
    by_cases hb : b.filterJson = .null ∧ b.reductionJson = .null
    · simp [placeholder_of_null hb.1 hb.2, ha, hb]
    · refine iff_of_false (fun heq => hlonger hb heq.symm) fun heq => hb ?_
      exact ⟨heq.1 ▸ ha.1, heq.2 ▸ ha.2⟩
  · by_cases hb : b.filterJson = .null ∧ b.reductionJson = .null
    · rw [placeholder_of_null hb.1 hb.2]
      refine iff_of_false (hlonger ha) fun heq => ha ?_
      exact ⟨heq.1 ▸ hb.1, heq.2 ▸ hb.2⟩
    · constructor
      · intro heq
        have hdigest := congrArg String.toList heq
        rw [toList_placeholder ha, toList_placeholder hb, List.append_cancel_left_eq,
          List.cons.injEq, String.toList_inj] at hdigest
        exact text_eq_iff.mp (h hdigest.2)
      · intro heq
        have hdigest : a.digest = b.digest := by rw [digest, digest, text_eq_iff.mpr heq]
        rw [← String.toList_inj, toList_placeholder ha, toList_placeholder hb, hdigest]

/-! ### Filters -/

lemma filterJson_eq_iff (ha : ∀ filter ∈ a.filter, filter.Ordinary)
    (hb : ∀ filter ∈ b.filter, filter.Ordinary) : a.filterJson = b.filterJson ↔
      Option.Rel (fun filter other => filter.equal other) a.filter b.filter := by
  unfold filterJson
  cases hfilter : a.filter with
  | none =>
    cases hother : b.filter with
    | none => simp
    | some other => simp [Filter.toTaggedJson_eq, Json.canonical]
  | some filter =>
    cases hother : b.filter with
    | none => simp [Filter.toTaggedJson_eq, Json.canonical]
    | some other =>
      rw [Option.rel_some_some]
      exact Filter.canonical_eq_iff (ha filter hfilter) (hb other hother)

lemma filterJson_eq_of_equal
    (h : Option.Rel (fun filter other => filter.equal other) a.filter b.filter) :
    a.filterJson = b.filterJson := by
  unfold filterJson
  generalize a.filter = filter at h ⊢
  generalize b.filter = other at h ⊢
  cases h with
  | none => rfl
  | some h => rw [Option.elim, Option.elim, Filter.toTaggedJson_eq_of_equal h]

lemma reductionJson_eq_of_equal
    (h : Option.Rel (fun which other => which.equal other) a.reducedBy b.reducedBy) :
    a.reductionJson = b.reductionJson := by
  unfold reductionJson
  generalize a.reducedBy = which at h ⊢
  generalize b.reducedBy = other at h ⊢
  cases h with
  | none => rfl
  | some h => rw [Option.elim, Option.elim, UniqueWhere.toTaggedJson_eq_of_equal h]

/-- Equally reduced references share a placeholder exactly if their filters are the same, or both
are not filtered; decimals in them may differ in spelling. -/
theorem placeholder_eq_iff_filter (ha : ∀ filter ∈ a.filter, filter.Ordinary)
    (hb : ∀ filter ∈ b.filter, filter.Ordinary)
    (hreduced : Option.Rel (fun which other => which.equal other) a.reducedBy b.reducedBy)
    (hdigest : Collisionless a b) (field : String) :
    (a.placeholder field = b.placeholder field ↔
      Option.Rel (fun filter other => filter.equal other) a.filter b.filter) ∧
        (a.filterJson.text = b.filterJson.text ↔
          Option.Rel (fun filter other => filter.equal other) a.filter b.filter) := by
  have hfilters := filterJson_eq_iff ha hb
  constructor
  · rw [placeholder_eq_iff hdigest, and_iff_left (reductionJson_eq_of_equal hreduced), hfilters]
  · rw [Json.text_injOn.eq_iff a.isExact_filterJson b.isExact_filterJson, hfilters]

/-- The author as a column, and as a relation to an author whose column is called like an
operator. -/
theorem placeholder_eq_iff_filter_author :
    let column : Constraints :=
      ⟨.possiblyMany, some (.onColumn "author" (.compare .equal (.literal "john"))), none⟩
    let relation : Constraints :=
      ⟨.possiblyMany, some (.onRelation "author" (.onColumn "eq" (.compare .equal (.string "john")))),
        none⟩
    (column.placeholder "posts" = relation.placeholder "posts" ↔
      Option.Rel (fun filter other => filter.equal other) column.filter relation.filter) ∧
        (column.filterJson.text = relation.filterJson.text ↔
          Option.Rel (fun filter other => filter.equal other) column.filter relation.filter) := by
  intro column relation
  have hcolumn : ∀ filter ∈ column.filter, filter.Ordinary := by
    intro filter hfilter
    cases Option.mem_some_iff.mp hfilter
    exact Filter.ordinary_onColumn (by decide) _
  have hrelation : ∀ filter ∈ relation.filter, filter.Ordinary := by
    intro filter hfilter
    cases Option.mem_some_iff.mp hfilter
    exact Filter.ordinary_onRelation (by decide) (Filter.ordinary_onColumn (by decide) _)
  have hdigest : column.digest ≠ relation.digest := by decide +kernel
  exact placeholder_eq_iff_filter hcolumn hrelation .none (fun h => absurd h hdigest) "posts"

/-! ### Reductions -/

open Language in
/-- What is read from a text is in order. -/
theorem ordered_of_parse {env : Environment} {text : String} {which : UniqueWhere}
    (h : parse env .uniqueWhere text = .ok which) : which.Ordered := by
  obtain ⟨-, hgives⟩ := Parser.run_eq_ok_iff.mp h
  cases env.reads_uniqueWhere.sound hgives with
  | intro hleaves hpaths => exact UniqueWhere.ordered_ofLeaves _

lemma reductionJson_eq_iff (ha : ∀ which ∈ a.reducedBy, which.Ordered)
    (hb : ∀ which ∈ b.reducedBy, which.Ordered)
    (hclash : ∀ which ∈ a.reducedBy, ∀ other ∈ b.reducedBy,
      ¬which.Clashes other ∧ ¬other.Clashes which) :
    a.reductionJson = b.reductionJson ↔
      Option.Rel (fun which other => which.equal other) a.reducedBy b.reducedBy := by
  refine ⟨fun heq => ?_, reductionJson_eq_of_equal⟩
  cases hwhich : a.reducedBy with
  | none =>
    rw [reductionJson_eq_null_iff.mpr hwhich, eq_comm, reductionJson_eq_null_iff] at heq
    rw [heq]
    exact .none
  | some which =>
    cases hother : b.reducedBy with
    | none =>
      rw [reductionJson_eq_null_iff.mpr hother, reductionJson_eq_null_iff, hwhich] at heq
      cases heq
    | some other =>
      obtain ⟨hapart, hapart'⟩ := hclash which hwhich other hother
      rw [reductionJson, reductionJson, hwhich, hother] at heq
      exact .some (UniqueWhere.equal_of_canonical_eq (ha which hwhich) (hb other hother) hapart
        hapart' heq)

/-- Equally filtered references share a placeholder exactly if their reductions are the same, or
both are not reduced, unless a nested unique where in one of them imitates a value of the other. -/
theorem placeholder_eq_iff_reduction
    (hfilters : Option.Rel (fun filter other => filter.equal other) a.filter b.filter)
    (ha : ∀ which ∈ a.reducedBy, which.Ordered) (hb : ∀ which ∈ b.reducedBy, which.Ordered)
    (hclash : ∀ which ∈ a.reducedBy, ∀ other ∈ b.reducedBy,
      ¬which.Clashes other ∧ ¬other.Clashes which)
    (hdigest : Collisionless a b) (field : String) :
    a.placeholder field = b.placeholder field ↔
      Option.Rel (fun which other => which.equal other) a.reducedBy b.reducedBy := by
  have hfilter : a.filterJson = b.filterJson := filterJson_eq_of_equal hfilters
  rw [placeholder_eq_iff hdigest, and_iff_right hfilter, reductionJson_eq_iff ha hb hclash]

open Language in
/-- The author by a word, and by a name that is a text. -/
theorem placeholder_eq_iff_reduction_author :
    let word : UniqueWhere := .single "author" (.literal "john")
    let name : UniqueWhere := ⟨[("author", .relation (.single "name" (.string "john")))]⟩
    let byWord : Constraints := ⟨.upToOne, none, some word⟩
    let byName : Constraints := ⟨.upToOne, none, some name⟩
    parse .empty .uniqueWhere "(author = john)" = .ok word ∧
      parse .empty .uniqueWhere "(author.name = 'john')" = .ok name ∧
        (byWord.placeholder "posts" = byName.placeholder "posts" ↔
          Option.Rel (fun which other => which.equal other) byWord.reducedBy byName.reducedBy) := by
  intro word name byWord byName
  have hword : parse .empty .uniqueWhere "(author = john)" = .ok word := by
    with_unfolding_all rfl
  have hname : parse .empty .uniqueWhere "(author.name = 'john')" = .ok name := by
    with_unfolding_all rfl
  have hapart : ¬word.Clashes name ∧ ¬name.Clashes word := by
    constructor
    · rintro ⟨hnode, hnode', hclash⟩
      obtain ⟨rfl, rfl⟩ := Prod.mk.inj (List.mem_singleton.mp hnode)
      obtain ⟨-, rfl⟩ := Prod.mk.inj (List.mem_singleton.mp hnode')
      cases hclash with
      | imitation himitation => simp [UniqueWhere.imitation?, UniqueWhere.single] at himitation
    · rintro ⟨hnode, hnode', hclash⟩
      obtain ⟨rfl, rfl⟩ := Prod.mk.inj (List.mem_singleton.mp hnode)
      obtain ⟨-, rfl⟩ := Prod.mk.inj (List.mem_singleton.mp hnode')
      cases hclash
  have hdigest : byWord.digest ≠ byName.digest := by decide +kernel
  refine ⟨hword, hname, ?_⟩
  refine placeholder_eq_iff_reduction .none ?_ ?_ ?_ (fun h => absurd h hdigest) "posts"
  · rintro which ⟨⟩
    exact ordered_of_parse hword
  · rintro which ⟨⟩
    exact ordered_of_parse hname
  · rintro which ⟨⟩ other ⟨⟩
    exact hapart

open Language in
/-- A nested unique where on a field that is called like a tag is hashed as the tagged value. -/
theorem placeholder_eq_of_imitated_literal :
    let word : UniqueWhere := .single "author" (.literal "john")
    let nested : UniqueWhere := ⟨[("author", .relation (.single "literal" (.string "john")))]⟩
    let byWord : Constraints := ⟨.upToOne, none, some word⟩
    let byNested : Constraints := ⟨.upToOne, none, some nested⟩
    parse .empty .uniqueWhere "(author = john)" = .ok word ∧
      parse .empty .uniqueWhere "(author.literal = 'john')" = .ok nested ∧
        Collisionless byWord byNested ∧ ¬word.equal nested ∧
          byWord.placeholder "posts" = byNested.placeholder "posts" := by
  intro word nested byWord byNested
  have hword : parse .empty .uniqueWhere "(author = john)" = .ok word := by
    with_unfolding_all rfl
  have hnested : parse .empty .uniqueWhere "(author.literal = 'john')" = .ok nested := by
    with_unfolding_all rfl
  have hjson : byWord.toJson = byNested.toJson := rfl
  have hcollisionless : Collisionless byWord byNested := fun _ => by rw [hjson]
  have hplaceholder : byWord.placeholder "posts" = byNested.placeholder "posts" := by
    simp [placeholder, digest, hjson, byWord, byNested]
  exact ⟨hword, hnested, hcollisionless, by decide, hplaceholder⟩

end EntityGraph.Marker.Constraints

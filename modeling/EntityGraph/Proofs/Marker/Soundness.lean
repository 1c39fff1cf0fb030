import EntityGraph.Proofs.Marker.Merging
/-!
# Sound markers

A reference that leads to one row at most must not prefer more rows than one. Making a marker checks
that, and merging does not check it again: the larger count stays, under the expectation that was
there first. So the merger of two sound markers is sound exactly if no reference to one row meets
one that prefers more.
-/
namespace EntityGraph

/-- The reference stands under the name that its restrictions give it, is reduced by one field or
not at all, and prefers a number of rows that it can lead to. -/
structure Reference.Lawful (field name : String) (reference : Reference) : Prop where
  stored : name = reference.placeholder
  named : reference.placeholder = reference.constraints.placeholder field
  reduced : ∀ which ∈ reference.constraints.reducedBy, which.size = 1
  nonneg : 0 ≤ reference.initialEntityCount
  single : reference.constraints.count = .upToOne → reference.initialEntityCount ≤ 1

/-- The larger one of two counts is too large for a reference to one row if the second one is. -/
lemma Reference.Lawful.joined_iff {field name : String} {reference : Reference}
    (h : reference.Lawful field name) {fields : List (String × Marker)} {count : Int} :
    ({ reference with fields, initialEntityCount := max reference.initialEntityCount count } :
        Reference).Lawful field name ↔
      ¬ (reference.constraints.count = .upToOne ∧ 1 < count) := by
  obtain ⟨hstored, hnamed, hreduced, hnonneg, hsingle⟩ := h
  constructor
  · rintro ⟨-, -, -, -, hjoined⟩ ⟨hone, hmany⟩
    have hmax := hjoined hone
    simp only at hmax
    omega
  · intro hfits
    refine ⟨hstored, hnamed, hreduced, ?_, fun hone => ?_⟩
    · change 0 ≤ max reference.initialEntityCount count
      omega
    · have hfirst := hsingle hone
      have hsecond : ¬ 1 < count := fun hmany => hfits ⟨hone, hmany⟩
      change max reference.initialEntityCount count ≤ 1
      omega

namespace Marker

/-- Every reference is lawful, at every depth, and no name comes twice. -/
inductive Sound : Marker → Prop
  | field (marker : FieldMarker) : Sound (.field marker)
  | connection (marker : ConnectionMarker) : Sound (.connection marker)
  | reference {marker : ReferenceMarker} (hkeys : (Table.keys marker.references).Nodup)
      (hlawful : ∀ name reference, (name, reference) ∈ marker.references →
        reference.Lawful marker.field name)
      (hnames : ∀ name reference, (name, reference) ∈ marker.references →
        (Table.keys reference.fields).Nodup ∧
          ∀ pair ∈ reference.fields, pair.1 = pair.2.placeholder)
      (hfields : ∀ name reference, (name, reference) ∈ marker.references →
        ∀ key nested, (key, nested) ∈ reference.fields → Sound nested) :
      Sound (.reference marker)

/-- Sound markers, each under its own name. -/
structure SoundFields (fields : Table Marker) : Prop where
  nodup : fields.keys.Nodup
  placed : ∀ pair ∈ fields, pair.1 = pair.2.placeholder
  sound : ∀ key marker, (key, marker) ∈ fields → marker.Sound

/-- A reference to one row at most meets one under the same name that prefers more, here or below
references under the same name. -/
inductive Outgrows : Marker → Marker → Prop
  | here {present incoming : ReferenceMarker} {name : String} {a b : Reference}
      (ha : Table.find? name present.references = some a)
      (hb : Table.find? name incoming.references = some b)
      (hone : a.constraints.count = .upToOne) (hmany : 1 < b.initialEntityCount) :
      Outgrows (.reference present) (.reference incoming)
  | inside {present incoming : ReferenceMarker} {name key : String} {a b : Reference}
      {nested other : Marker} (ha : Table.find? name present.references = some a)
      (hb : Table.find? name incoming.references = some b)
      (hnested : Table.find? key a.fields = some nested)
      (hother : Table.find? key b.fields = some other) (h : Outgrows nested other) :
      Outgrows (.reference present) (.reference incoming)

def FieldsOutgrow (present incoming : Table Marker) : Prop :=
  ∃ key nested other, present.find? key = some nested ∧ incoming.find? key = some other ∧
    nested.Outgrows other

/-! ### Soundness by name -/

/-- A sound reference under its name. -/
def SoundReference (field name : String) (reference : Reference) : Prop :=
  reference.Lawful field name ∧ SoundFields reference.fields

lemma sound_reference_iff {marker : ReferenceMarker} : Sound (.reference marker) ↔
    (Table.keys marker.references).Nodup ∧ ∀ name reference,
      Table.find? name marker.references = some reference →
        SoundReference marker.field name reference := by
  constructor
  · rintro (_ | _ | ⟨hkeys, hlawful, hnames, hfields⟩)
    refine ⟨hkeys, fun name reference hfind => ?_⟩
    have hmem := Table.mem_of_find? hfind
    exact ⟨hlawful _ _ hmem, (hnames _ _ hmem).1, (hnames _ _ hmem).2, hfields _ _ hmem⟩
  · rintro ⟨hkeys, h⟩
    have hmem (name : String) (reference : Reference)
        (hmem : (name, reference) ∈ marker.references) :=
      h name reference ((Table.find?_eq_some_iff hkeys).mpr hmem)
    exact .reference hkeys (fun _ _ h => (hmem _ _ h).1)
      (fun _ _ h => ⟨(hmem _ _ h).2.nodup, (hmem _ _ h).2.placed⟩)
      fun _ _ h => (hmem _ _ h).2.sound

lemma soundFields_iff {fields : Table Marker} : SoundFields fields ↔
    fields.keys.Nodup ∧ ∀ key marker, fields.find? key = some marker →
      key = marker.placeholder ∧ marker.Sound := by
  constructor
  · rintro ⟨hkeys, hplaced, hsound⟩
    refine ⟨hkeys, fun key marker hfind => ?_⟩
    have hmem := Table.mem_of_find? hfind
    exact ⟨hplaced _ hmem, hsound _ _ hmem⟩
  · rintro ⟨hkeys, h⟩
    have hmem (pair : String × Marker) (hmem : pair ∈ fields) :=
      h pair.1 pair.2 ((Table.find?_eq_some_iff hkeys).mpr hmem)
    exact ⟨hkeys, fun pair h => (hmem pair h).1, fun _ _ h => (hmem _ h).2⟩

/-! ### One merger -/

/-- Two references that are not joined soundly. -/
def AtOdds (a b : Reference) : Prop :=
  a.constraints.count = .upToOne ∧ 1 < b.initialEntityCount ∨ FieldsOutgrow a.fields b.fields

lemma outgrows_reference_iff {present incoming : ReferenceMarker} :
    Outgrows (.reference present) (.reference incoming) ↔ ∃ name a b,
      Table.find? name present.references = some a ∧
        Table.find? name incoming.references = some b ∧ AtOdds a b := by
  constructor
  · rintro (⟨ha, hb, hone, hmany⟩ | ⟨ha, hb, hnested, hother, h⟩)
    · exact ⟨_, _, _, ha, hb, .inl ⟨hone, hmany⟩⟩
    · exact ⟨_, _, _, ha, hb, .inr ⟨_, _, _, hnested, hother, h⟩⟩
  · rintro ⟨name, a, b, ha, hb, ⟨hone, hmany⟩ | ⟨key, nested, other, hnested, hother, h⟩⟩
    · exact .here ha hb hone hmany
    · exact .inside ha hb hnested hother h

/-- What two markers are merged into stands under their name. -/
lemma placeholder_merge {a b c : Marker} (h : merge a b = .ok c) :
    c.placeholder = a.placeholder := by
  obtain _ | _ | _ := merged_of_merge h <;> rfl

/-- Where two markers are merged soundly, so are tables of them. -/
lemma soundFields_merge_iff {present incoming result : Table Marker} (hp : SoundFields present)
    (hi : SoundFields incoming)
    (hmerge : ∀ key b, incoming.find? key = some b → ∀ a c, a.Sound → merge a b = .ok c →
      (c.Sound ↔ ¬ a.Outgrows b))
    (h : mergeFields present incoming = .ok result) :
    SoundFields result ↔ ¬ FieldsOutgrow present incoming := by
  have hjoined := (mergeFields_eq_ok_iff hp.nodup hi.nodup hi.placed).mp h
  have hkeys : result.keys.Nodup := hjoined.nodup hp.nodup hi.nodup
  have hjoin (key : String) (a b c : Marker) (ha : present.find? key = some a)
      (hb : incoming.find? key = some b) (hc : JoinsMarker a b c) :
      key = c.placeholder ∧ c.Sound ↔ ¬ a.Outgrows b := by
    obtain ⟨hplace, hsound⟩ := (soundFields_iff.mp hp).2 key a ha
    have hname : key = c.placeholder := hplace.trans (placeholder_merge hc).symm
    rw [← hmerge key b hb a c hsound hc]
    exact and_iff_right hname
  rw [soundFields_iff, and_iff_right hkeys]
  exact hjoined.joins.forall_find?_iff (soundFields_iff.mp hp).2 (soundFields_iff.mp hi).2 hjoin

/-- The merger of two sound markers is sound exactly if no reference to one row meets one that
prefers more. -/
theorem sound_merge_iff {present incoming merged : Marker} (hp : present.Sound)
    (hi : incoming.Sound) (h : merge present incoming = .ok merged) :
    merged.Sound ↔ ¬ present.Outgrows incoming := by
  induction hi generalizing present merged with
  | field marker =>
    cases merged_of_merge h with
    | field => exact iff_of_true (.field _) (by rintro ⟨⟩)
  | connection marker =>
    cases merged_of_merge h with
    | connection => exact iff_of_true (.connection _) (by rintro ⟨⟩)
  | @reference incoming hkeys hlawful hnames hfields ih =>
    have hi : Sound (.reference incoming) := .reference hkeys hlawful hnames hfields
    cases merged_of_merge h with
    | @reference field present incoming result hmerged =>
      have hpkeys := (sound_reference_iff.mp hp).1
      have hjoined := (mergeReferences_eq_ok_iff hpkeys hkeys).mp hmerged
      have hresult : (Table.keys result).Nodup := hjoined.nodup hpkeys hkeys
      have hjoin (name : String) (a b c : Reference) (ha : Table.find? name present = some a)
          (hb : Table.find? name incoming = some b) (hc : JoinsReference a b c) :
          SoundReference field name c ↔ ¬ AtOdds a b := by
        obtain ⟨halawful, hafields⟩ := (sound_reference_iff.mp hp).2 name a ha
        obtain ⟨-, hbfields⟩ := (sound_reference_iff.mp hi).2 name b hb
        obtain ⟨fields, hfields, rfl⟩ := hc
        have hsame := soundFields_merge_iff hafields hbfields (fun key nested hfind _ _ hsound h =>
          ih name b (Table.mem_of_find? hb) key nested (Table.mem_of_find? hfind) hsound h) hfields
        rw [SoundReference, halawful.joined_iff, hsame, AtOdds, not_or]
      rw [sound_reference_iff, and_iff_right hresult, outgrows_reference_iff]
      exact hjoined.joins.forall_find?_iff (sound_reference_iff.mp hp).2
        (sound_reference_iff.mp hi).2 hjoin

/-- Markers merged with sound ones stay sound exactly if none outgrows one that it meets. -/
lemma soundFields_mergeFields_iff {present incoming result : Table Marker}
    (hp : SoundFields present) (hi : SoundFields incoming)
    (h : mergeFields present incoming = .ok result) :
    SoundFields result ↔ ¬ FieldsOutgrow present incoming :=
  soundFields_merge_iff hp hi (fun key _ hfind _ _ hsound h =>
    sound_merge_iff hsound (hi.sound key _ (Table.mem_of_find? hfind)) h) h

/-- A marker added to sound ones. -/
lemma soundFields_insert_iff {fields result : Table Marker} {marker : Marker}
    (hf : SoundFields fields) (hm : marker.Sound) (h : insert fields marker = .ok result) :
    SoundFields result ↔
      ¬ ∃ present, fields.find? marker.placeholder = some present ∧ present.Outgrows marker := by
  have hone : SoundFields [(marker.placeholder, marker)] := by
    refine ⟨List.nodup_singleton _, by simp, fun key found hmem => ?_⟩
    cases List.mem_singleton.mp hmem
    exact hm
  have hmerge : mergeFields fields [(marker.placeholder, marker)] = .ok result := by
    rw [mergeFields]
    exact Except.bind_eq_ok.mpr ⟨result, h, rfl⟩
  rw [soundFields_mergeFields_iff hf hone hmerge, FieldsOutgrow]
  simp [Table.find?, eq_comm]

end Marker

namespace ReferenceMarker

open Marker (Sound SoundFields)

/-- A marker that could be made is sound. -/
lemma sound_of_single {field : String} {constraints : Marker.Constraints} {fields : Table Marker}
    {count : Option Int} {marker : ReferenceMarker} (hf : SoundFields fields)
    (h : single field constraints fields count = .ok marker) : Sound (.reference marker) := by
  simp only [single, ofReferences] at h
  split at h
  · cases h
  · rename_i hnonneg
    split at h
    · cases h
    · rename_i hsingle
      split at h
      · cases h
      · rename_i hreduced
        cases h
        rw [Marker.sound_reference_iff]
        refine ⟨List.nodup_singleton _, fun name reference hfind => ?_⟩
        obtain ⟨rfl, rfl⟩ : name = constraints.placeholder field ∧ reference = _ := by
          simpa [Table.find?, eq_comm] using hfind
        refine ⟨⟨rfl, rfl, fun which hwhich => ?_, Int.not_lt.mp hnonneg, fun hone => ?_⟩, hf⟩
        · have hreducedBy : constraints.reducedBy = some which := hwhich
          simpa [hreducedBy] using hreduced
        · have hcount : ¬ 1 < count.getD 1 := fun hmany => hsingle ⟨hone, hmany⟩
          change count.getD 1 ≤ 1
          omega

lemma merge_eq_ok_iff {present incoming merged : ReferenceMarker} :
    present.merge incoming = .ok merged ↔
      Marker.merge (.reference present) (.reference incoming) = .ok (.reference merged) := by
  obtain ⟨field, references⟩ := present
  obtain ⟨name, others⟩ := incoming
  rw [merge, Marker.merge]
  by_cases hname : field = name
  · subst hname
    simp only [if_true]
    cases Marker.mergeReferences references others with
    | error e => simp [bind, Except.bind]
    | ok result => simp [bind, Except.bind, pure, Except.pure]
  · simp [hname]

end ReferenceMarker

namespace Marker

/-! ### Many steps -/

mutual
/-- Markers that are made from sound ones, none being merged into one that it outgrows. -/
inductive Made : Marker → Prop
  | given {marker : Marker} (h : marker.Sound) : Made marker
  | single {field : String} {constraints : Constraints} {fields : Table Marker} {count : Option Int}
      {marker : ReferenceMarker} (hfields : MadeFields fields)
      (h : ReferenceMarker.single field constraints fields count = .ok marker) :
      Made (.reference marker)
  | merge {present incoming merged : ReferenceMarker} (hpresent : Made (.reference present))
      (hincoming : Made (.reference incoming)) (h : present.merge incoming = .ok merged)
      (hfits : ¬ Outgrows (.reference present) (.reference incoming)) : Made (.reference merged)

inductive MadeFields : Table Marker → Prop
  | empty : MadeFields []
  | insert {fields result : Table Marker} {marker : Marker} (hfields : MadeFields fields)
      (hmarker : Made marker) (h : Marker.insert fields marker = .ok result)
      (hfits : ¬ ∃ present, fields.find? marker.placeholder = some present ∧
        present.Outgrows marker) : MadeFields result
  | merge {present incoming result : Table Marker} (hpresent : MadeFields present)
      (hincoming : MadeFields incoming) (h : mergeFields present incoming = .ok result)
      (hfits : ¬ FieldsOutgrow present incoming) : MadeFields result
end

mutual
lemma Made.sound : ∀ {marker : Marker}, Made marker → marker.Sound
  | _, .given h => h
  | _, .single hfields h => ReferenceMarker.sound_of_single hfields.sound h
  | _, .merge hpresent hincoming h hfits =>
    (sound_merge_iff hpresent.sound hincoming.sound
      (ReferenceMarker.merge_eq_ok_iff.mp h)).mpr hfits

lemma MadeFields.sound : ∀ {fields : Table Marker}, MadeFields fields → SoundFields fields
  | _, .empty => ⟨List.nodup_nil, by simp, by simp⟩
  | _, .insert hfields hmarker h hfits =>
    (soundFields_insert_iff hfields.sound hmarker.sound h).mpr hfits
  | _, .merge hpresent hincoming h hfits =>
    (soundFields_mergeFields_iff hpresent.sound hincoming.sound h).mpr hfits
end

/-- A relation asked for once, without restrictions. -/
def asked (field : String) (expected : ExpectedCount) (fields : Table Marker) (count : Int) :
    ReferenceMarker :=
  ⟨field, [(field, ⟨⟨expected, none, none⟩, field, fields, count⟩)]⟩

lemma made_asked {field : String} {expected : ExpectedCount} {fields : Table Marker} {count : Int}
    (hfields : MadeFields fields) (hnonneg : 0 ≤ count) (hone : expected = .upToOne → count ≤ 1) :
    Made (.reference (asked field expected fields count)) := by
  have hsingle : ReferenceMarker.single field ⟨expected, none, none⟩ fields (some count) =
      .ok (asked field expected fields count) := by
    have hmany : ¬ (expected = .upToOne ∧ 1 < count) := fun h => by
      have hle := hone h.1
      omega
    simp [ReferenceMarker.single, ReferenceMarker.ofReferences, Constraints.placeholder, asked,
      Int.not_lt.mpr hnonneg, hmany]
  exact .single hfields hsingle

lemma outgrows_asked_iff {field : String} {expected expected' : ExpectedCount}
    {fields others : Table Marker} {count count' : Int} :
    Outgrows (.reference (asked field expected fields count))
        (.reference (asked field expected' others count')) ↔
      expected = .upToOne ∧ 1 < count' ∨ FieldsOutgrow fields others := by
  rw [outgrows_reference_iff]
  simp [asked, Table.find?, AtOdds]

lemma fieldsOutgrow_singleton_iff {key : String} {present incoming : Marker} :
    FieldsOutgrow [(key, present)] [(key, incoming)] ↔ present.Outgrows incoming := by
  simp [FieldsOutgrow, Table.find?]

/-- Making and merging keep markers sound as long as none is merged into one that it outgrows; a
merger of sound markers in which one does is never sound. -/
theorem made_sound (marker : Marker) (fields others result : Table Marker)
    (present incoming merged : ReferenceMarker) :
    (Made marker → marker.Sound) ∧ (MadeFields fields → SoundFields fields) ∧
      (Sound (.reference present) → Sound (.reference incoming) →
        present.merge incoming = .ok merged →
          (Sound (.reference merged) ↔ ¬ Outgrows (.reference present) (.reference incoming))) ∧
      (SoundFields fields → marker.Sound → insert fields marker = .ok result →
        (SoundFields result ↔
          ¬ ∃ found, fields.find? marker.placeholder = some found ∧ found.Outgrows marker)) ∧
      (SoundFields fields → SoundFields others → mergeFields fields others = .ok result →
        (SoundFields result ↔ ¬ FieldsOutgrow fields others)) :=
  ⟨Made.sound, MadeFields.sound,
    fun hp hi h => sound_merge_iff hp hi (ReferenceMarker.merge_eq_ok_iff.mp h),
    soundFields_insert_iff, soundFields_mergeFields_iff⟩

/-- Both sides ask for the author of posts; the second one prefers more posts, and no author. -/
theorem made_sound_posts :
    let author := fun count => asked "author" .upToOne [] count
    let posts := fun authors count =>
      asked "posts" .possiblyMany [("author", .reference (author authors))] count
    (posts 1 1).merge (posts 0 3) = .ok (posts 1 3) ∧ Made (.reference (posts 1 3)) ∧
      Sound (.reference (posts 1 3)) := by
  intro author posts
  have hmerge : (posts 1 1).merge (posts 0 3) = .ok (posts 1 3) := rfl
  have hauthors (count : Int) (hnonneg : 0 ≤ count) (hone : count ≤ 1) :
      MadeFields [("author", .reference (author count))] :=
    .insert .empty (made_asked .empty hnonneg fun _ => hone) rfl (by simp)
  have hfirst : Made (.reference (posts 1 1)) :=
    made_asked (hauthors 1 (by decide) (by decide)) (by decide) (by simp)
  have hsecond : Made (.reference (posts 0 3)) :=
    made_asked (hauthors 0 (by decide) (by decide)) (by decide) (by simp)
  have hfits : ¬ Outgrows (.reference (posts 1 1)) (.reference (posts 0 3)) := by
    rw [outgrows_asked_iff, fieldsOutgrow_singleton_iff, outgrows_asked_iff]
    simp [FieldsOutgrow]
  have hmade : Made (.reference (posts 1 3)) := .merge hfirst hsecond hmerge hfits
  exact ⟨hmerge, hmade,
    (made_sound (.reference (posts 1 3)) [] [] [] (posts 1 1) (posts 0 3) (posts 1 3)).1 hmade⟩

/-- Two sound references to an author under one name: the one that came first leads to one row at
most, and takes over that five rows are preferred. -/
theorem not_sound_merge_author :
    let one := asked "author" .upToOne [] 1
    let many := asked "author" .possiblyMany [] 5
    ReferenceMarker.single "author" ⟨.upToOne, none, none⟩ [] none = .ok one ∧
      ReferenceMarker.single "author" ⟨.possiblyMany, none, none⟩ [] (some 5) = .ok many ∧
      Sound (.reference one) ∧ Sound (.reference many) ∧
      one.merge many = .ok (asked "author" .upToOne [] 5) ∧
      ¬ Sound (.reference (asked "author" .upToOne [] 5)) := by
  intro one many
  have hone : ReferenceMarker.single "author" ⟨.upToOne, none, none⟩ [] none = .ok one := rfl
  have hmany : ReferenceMarker.single "author" ⟨.possiblyMany, none, none⟩ [] (some 5) =
      .ok many := rfl
  have hempty : SoundFields [] := MadeFields.empty.sound
  refine ⟨hone, hmany, ReferenceMarker.sound_of_single hempty hone,
    ReferenceMarker.sound_of_single hempty hmany, rfl, fun hsound => ?_⟩
  obtain ⟨-, hreferences⟩ := sound_reference_iff.mp hsound
  have hcount := (hreferences "author" _ rfl).1.single rfl
  exact absurd hcount (by decide)

end Marker

end EntityGraph

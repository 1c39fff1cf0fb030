import EntityGraph.Proofs.Marker.Soundness
import EntityGraph.Proofs.UniqueWhere.Tagging
/-!
# Laws of merging

Merging markers is idempotent and associative, and it loses nothing: at every depth there are the
names of both sides, and the larger one of two counts. Each law holds of two markers once it holds
of the markers below them, and of tables of markers once it holds under each name.
-/
namespace EntityGraph

lemma Except.toOption_eq_of_forall {ε α : Type} {action other : Except ε α}
    (h : ∀ a, action = .ok a ↔ other = .ok a) : action.toOption = other.toOption := by
  cases action with
  | ok a =>
    rw [(h a).mp rfl]
  | error e =>
    cases other with
    | ok a => cases (h a).mpr rfl
    | error e' => rfl

namespace Marker

/-- No name comes twice, and every marker stands under its own name, at every depth. -/
inductive Placed : Marker → Prop
  | field (marker : FieldMarker) : Placed (.field marker)
  | connection (marker : ConnectionMarker) : Placed (.connection marker)
  | reference {marker : ReferenceMarker} (hkeys : (Table.keys marker.references).Nodup)
      (hnames : ∀ name reference, (name, reference) ∈ marker.references →
        (Table.keys reference.fields).Nodup ∧
          ∀ pair ∈ reference.fields, pair.1 = pair.2.placeholder)
      (hfields : ∀ name reference, (name, reference) ∈ marker.references →
        ∀ key nested, (key, nested) ∈ reference.fields → Placed nested) :
      Placed (.reference marker)

/-- Markers that each stand under their own name, at every depth. -/
structure PlacedFields (fields : Table Marker) : Prop where
  nodup : fields.keys.Nodup
  placed : ∀ pair ∈ fields, pair.1 = pair.2.placeholder
  inner : ∀ key marker, (key, marker) ∈ fields → marker.Placed

lemma Sound.isPlaced {marker : Marker} (h : marker.Sound) : marker.Placed := by
  induction h with
  | field marker => exact .field marker
  | connection marker => exact .connection marker
  | reference hkeys _ hnames _ ih => exact .reference hkeys hnames ih

lemma SoundFields.placedFields {fields : Table Marker} (h : SoundFields fields) :
    PlacedFields fields :=
  ⟨h.nodup, h.placed, fun key marker hmem => (h.sound key marker hmem).isPlaced⟩

lemma Placed.references {marker : ReferenceMarker} (h : Placed (.reference marker)) :
    (Table.keys marker.references).Nodup ∧ ∀ name reference,
      Table.find? name marker.references = some reference → PlacedFields reference.fields := by
  cases h with
  | reference hkeys hnames hfields =>
    refine ⟨hkeys, fun name reference hfind => ?_⟩
    have hmem := Table.mem_of_find? hfind
    exact ⟨(hnames _ _ hmem).1, (hnames _ _ hmem).2, hfields _ _ hmem⟩

lemma placed_of_references {marker : ReferenceMarker}
    (hkeys : (Table.keys marker.references).Nodup) (h : ∀ name reference,
      Table.find? name marker.references = some reference → PlacedFields reference.fields) :
    Placed (.reference marker) := by
  have hfields (name : String) (reference : Reference)
      (hmem : (name, reference) ∈ marker.references) : PlacedFields reference.fields :=
    h name reference ((Table.find?_eq_some_iff hkeys).mpr hmem)
  exact .reference hkeys (fun _ _ hmem => ⟨(hfields _ _ hmem).nodup, (hfields _ _ hmem).placed⟩)
    fun _ _ hmem => (hfields _ _ hmem).inner

variable {a b c merged : Table Marker}

lemma merge_eq_ok_iff {present incoming merged : Marker} :
    merge present incoming = .ok merged ↔ Merged present incoming merged := by
  refine ⟨merged_of_merge, fun h => ?_⟩
  cases h with
  | field => rfl
  | connection htarget => rw [merge, if_pos htarget]
  | reference h =>
    rw [merge, if_pos rfl, h]
    rfl

/-! ### Places -/

/-- Merged markers stand under their own names again. -/
lemma placed_of_joined (hb : PlacedFields b) (hc : PlacedFields c)
    (h : Table.Joined JoinsMarker b c merged) : ∀ pair ∈ merged, pair.1 = pair.2.placeholder := by
  have hnodup := h.nodup hb.nodup hc.nodup
  have hplaced {fields : Table Marker} (hf : PlacedFields fields) (key : String) (marker : Marker)
      (hfind : fields.find? key = some marker) : key = marker.placeholder :=
    hf.placed _ (Table.mem_of_find? hfind)
  have hall := h.forall_find? (hplaced hb) (hplaced hc) fun key x y z hx _ hz =>
    (hplaced hb key x hx).trans (placeholder_merge hz).symm
  exact fun pair hmem => hall pair.1 pair.2 ((Table.find?_eq_some_iff hnodup).mpr hmem)

lemma placedFields_merge_of (ha : PlacedFields a) (hb : PlacedFields b)
    (h : ∀ key y, b.find? key = some y → ∀ {x r : Marker}, x.Placed → merge x y = .ok r → r.Placed)
    (hmerged : mergeFields a b = .ok merged) : PlacedFields merged := by
  have hjoined := (mergeFields_eq_ok_iff ha.nodup hb.nodup hb.placed).mp hmerged
  have hnodup := hjoined.nodup ha.nodup hb.nodup
  have hinner {fields : Table Marker} (hf : PlacedFields fields) (key : String) (marker : Marker)
      (hfind : fields.find? key = some marker) : marker.Placed :=
    hf.inner key marker (Table.mem_of_find? hfind)
  have hall := hjoined.forall_find? (hinner ha) (hinner hb) fun key x y z hx hy hz =>
    h key y hy (hinner ha key x hx) hz
  exact ⟨hnodup, placed_of_joined ha hb hjoined, fun key marker hmem =>
    hall key marker ((Table.find?_eq_some_iff hnodup).mpr hmem)⟩

/-- Merging leaves every marker in its place. -/
theorem placed_merge {x y r : Marker} (hx : x.Placed) (hy : y.Placed) (h : merge x y = .ok r) :
    r.Placed := by
  induction hy generalizing x r with
  | field y =>
    cases merged_of_merge h with
    | field => exact .field _
  | connection y =>
    cases merged_of_merge h with
    | connection => exact .connection _
  | @reference y hkeys hnames hfields ih =>
    have hy : Placed (.reference y) := .reference hkeys hnames hfields
    cases merged_of_merge h with
    | @reference field present incoming result hmerged =>
      obtain ⟨hpresent, hpresentFields⟩ := hx.references
      have hjoined := (mergeReferences_eq_ok_iff hpresent hkeys).mp hmerged
      refine placed_of_references (hjoined.nodup hpresent hkeys) ?_
      refine hjoined.forall_find? hpresentFields hy.references.2 ?_
      rintro name first second _ hfirst hsecond ⟨fields, hmerge, rfl⟩
      refine placedFields_merge_of (hpresentFields name first hfirst)
        (hy.references.2 name second hsecond) (fun key nested hnested => ?_) hmerge
      exact ih name second (Table.mem_of_find? hsecond) key nested (Table.mem_of_find? hnested)

lemma placedFields_mergeFields (ha : PlacedFields a) (hb : PlacedFields b)
    (h : mergeFields a b = .ok merged) : PlacedFields merged :=
  placedFields_merge_of ha hb (fun key y hfind _ _ hx hr =>
    placed_merge hx (hb.inner key y (Table.mem_of_find? hfind)) hr) h

/-! ### Idempotence -/

lemma mergeFields_self_of (hkeys : a.keys.Nodup) (hplaces : ∀ pair ∈ a, pair.1 = pair.2.placeholder)
    (h : ∀ key marker, (key, marker) ∈ a → merge marker marker = .ok marker) :
    mergeFields a a = .ok a :=
  (mergeFields_eq_ok_iff hkeys hkeys hplaces).mpr
    (Table.joined_self fun key marker hfind => h key marker (Table.mem_of_find? hfind))

/-- A marker merged with itself stays what it is. -/
theorem merge_self {marker : Marker} (h : marker.Placed) : merge marker marker = .ok marker := by
  rw [merge_eq_ok_iff]
  induction h with
  | field marker =>
    have hdefault : (marker.default <|> marker.default) = marker.default := by
      cases marker.default <;> rfl
    simpa [hdefault] using Merged.field marker marker
  | connection marker =>
    have hself : marker.target.equal marker.target :=
      (UniqueWhere.toJsonWith_boxed_eq_iff _ _).mp rfl
    simpa using Merged.connection hself
  | @reference marker hkeys hnames _ ih =>
    obtain ⟨field, references⟩ := marker
    refine .reference ((mergeReferences_eq_ok_iff hkeys hkeys).mpr ?_)
    refine Table.joined_self fun name reference hfind => ?_
    have hmem := Table.mem_of_find? hfind
    obtain ⟨hnodup, hplaces⟩ := hnames _ _ hmem
    have hfields := mergeFields_self_of hnodup hplaces fun key nested hnested =>
      merge_eq_ok_iff.mpr (ih _ _ hmem key nested hnested)
    obtain ⟨constraints, placeholder, fields, count⟩ := reference
    exact ⟨fields, hfields, by rw [max_self]⟩

/-! ### Associativity -/

/-- Three references may be regrouped if their fields may. -/
lemma joinsReference_assoc {x y z r : Reference}
    (h : ∀ fields, (∃ xy, mergeFields x.fields y.fields = .ok xy ∧
        mergeFields xy z.fields = .ok fields) ↔
      ∃ yz, mergeFields y.fields z.fields = .ok yz ∧ mergeFields x.fields yz = .ok fields) :
    (∃ xy, JoinsReference x y xy ∧ JoinsReference xy z r) ↔
      ∃ yz, JoinsReference y z yz ∧ JoinsReference x yz r := by
  constructor
  · rintro ⟨_, ⟨xy, hxy, rfl⟩, fields, hfields, rfl⟩
    obtain ⟨yz, hyz, hfields⟩ := (h fields).mp ⟨xy, hxy, hfields⟩
    exact ⟨_, ⟨yz, hyz, rfl⟩, fields, hfields, by simp only [max_assoc]⟩
  · rintro ⟨_, ⟨yz, hyz, rfl⟩, fields, hfields, rfl⟩
    obtain ⟨xy, hxy, hfields⟩ := (h fields).mpr ⟨yz, hyz, hfields⟩
    exact ⟨_, ⟨xy, hxy, rfl⟩, fields, hfields, by simp only [max_assoc]⟩

/-- Three tables of references may be regrouped if that is so under every name. -/
lemma mergeReferences_assoc {a b c : List (String × Reference)} (ha : (Table.keys a).Nodup)
    (hb : (Table.keys b).Nodup) (hc : (Table.keys c).Nodup)
    (h : ∀ name, ∀ x ∈ Table.find? name a, ∀ y ∈ Table.find? name b, ∀ z ∈ Table.find? name c,
      ∀ r, (∃ xy, JoinsReference x y xy ∧ JoinsReference xy z r) ↔
        ∃ yz, JoinsReference y z yz ∧ JoinsReference x yz r) (r : List (String × Reference)) :
    (∃ ab, mergeReferences a b = .ok ab ∧ mergeReferences ab c = .ok r) ↔
      ∃ bc, mergeReferences b c = .ok bc ∧ mergeReferences a bc = .ok r := by
  have hunique (x y z w : Reference) (hz : JoinsReference x y z) (hw : JoinsReference x y w) :
      z = w := by
    obtain ⟨fields, hfields, rfl⟩ := hz
    obtain ⟨others, hothers, rfl⟩ := hw
    cases hfields.symm.trans hothers
    rfl
  have hleft (ab : List (String × Reference)) :
      mergeReferences a b = .ok ab ∧ mergeReferences ab c = .ok r ↔
        Table.Joined JoinsReference a b ab ∧ Table.Joined JoinsReference ab c r := by
    rw [mergeReferences_eq_ok_iff ha hb]
    exact and_congr_right fun hab => mergeReferences_eq_ok_iff (hab.nodup ha hb) hc
  have hright (bc : List (String × Reference)) :
      mergeReferences b c = .ok bc ∧ mergeReferences a bc = .ok r ↔
        Table.Joined JoinsReference b c bc ∧ Table.Joined JoinsReference a bc r := by
    rw [mergeReferences_eq_ok_iff hb hc]
    exact and_congr_right fun hbc => mergeReferences_eq_ok_iff ha (hbc.nodup hb hc)
  rw [exists_congr hleft, exists_congr hright]
  exact Table.joined_assoc hunique hb hc h

/-- Three tables of markers may be regrouped if that is so under every name. -/
lemma mergeFields_assoc_of (ha : PlacedFields a) (hb : PlacedFields b) (hc : PlacedFields c)
    (h : ∀ key, ∀ x ∈ a.find? key, ∀ y ∈ b.find? key, ∀ z ∈ c.find? key, ∀ r,
      (∃ xy, merge x y = .ok xy ∧ merge xy z = .ok r) ↔
        ∃ yz, merge y z = .ok yz ∧ merge x yz = .ok r) (r : Table Marker) :
    (∃ ab, mergeFields a b = .ok ab ∧ mergeFields ab c = .ok r) ↔
      ∃ bc, mergeFields b c = .ok bc ∧ mergeFields a bc = .ok r := by
  have hunique (x y z w : Marker) (hz : JoinsMarker x y z) (hw : JoinsMarker x y w) : z = w :=
    Except.ok.inj (hz.symm.trans hw)
  have hleft (ab : Table Marker) : mergeFields a b = .ok ab ∧ mergeFields ab c = .ok r ↔
      Table.Joined JoinsMarker a b ab ∧ Table.Joined JoinsMarker ab c r := by
    rw [mergeFields_eq_ok_iff ha.nodup hb.nodup hb.placed]
    exact and_congr_right fun hab =>
      mergeFields_eq_ok_iff (hab.nodup ha.nodup hb.nodup) hc.nodup hc.placed
  have hright (bc : Table Marker) : mergeFields b c = .ok bc ∧ mergeFields a bc = .ok r ↔
      Table.Joined JoinsMarker b c bc ∧ Table.Joined JoinsMarker a bc r := by
    rw [mergeFields_eq_ok_iff hb.nodup hc.nodup hc.placed]
    exact and_congr_right fun hbc =>
      mergeFields_eq_ok_iff ha.nodup (hbc.nodup hb.nodup hc.nodup) (placed_of_joined hb hc hbc)
  rw [exists_congr hleft, exists_congr hright]
  exact Table.joined_assoc hunique hb.nodup hc.nodup h

/-- Three connections agree on their target if two pairs of them do. -/
lemma equal_and_equal_iff (x y z : UniqueWhere) :
    x.equal y ∧ x.equal z ↔ y.equal z ∧ x.equal y := by
  simp only [← UniqueWhere.toJsonWith_boxed_eq_iff]
  constructor
  · rintro ⟨hxy, hxz⟩
    exact ⟨hxy.symm.trans hxz, hxy⟩
  · rintro ⟨hyz, hxy⟩
    exact ⟨hxy, hxy.trans hyz⟩

/-- Markers may be regrouped: both ways fail, or both lead to the same marker. -/
theorem merge_assoc {x y z : Marker} (hx : x.Placed) (hy : y.Placed) (hz : z.Placed) (r : Marker) :
    (∃ xy, merge x y = .ok xy ∧ merge xy z = .ok r) ↔
      ∃ yz, merge y z = .ok yz ∧ merge x yz = .ok r := by
  simp only [merge_eq_ok_iff]
  induction hz generalizing x y r with
  | field z =>
    have hdefaults (x y z : Option Value) : (x <|> y <|> z) = ((x <|> y) <|> z) := by
      cases x <;> rfl
    constructor
    · rintro ⟨_, hxy, hr⟩
      cases hr with
      | field =>
        cases hxy with
        | field x y =>
          refine ⟨_, .field y z, ?_⟩
          rw [Bool.and_assoc, ← hdefaults]
          exact .field x ⟨y.field, y.default <|> z.default, y.isNonbearing && z.isNonbearing⟩
    · rintro ⟨_, hyz, hr⟩
      cases hyz with
      | field y =>
        cases hr with
        | field x =>
          refine ⟨_, .field x y, ?_⟩
          rw [← Bool.and_assoc, hdefaults]
          exact .field ⟨x.field, x.default <|> y.default, x.isNonbearing && y.isNonbearing⟩ z
  | connection z =>
    constructor
    · rintro ⟨_, hxy, hr⟩
      cases hr with
      | connection hxz =>
        cases hxy with
        | @connection x y hxy =>
          obtain ⟨hyz, hxy⟩ := (equal_and_equal_iff x.target y.target z.target).mp ⟨hxy, hxz⟩
          refine ⟨_, .connection hyz, ?_⟩
          rw [Bool.and_assoc]
          exact @Merged.connection x { y with isNonbearing := y.isNonbearing && z.isNonbearing } hxy
    · rintro ⟨_, hyz, hr⟩
      cases hyz with
      | @connection y _ hyz =>
        cases hr with
        | @connection x _ hxy =>
          obtain ⟨hxy, hxz⟩ := (equal_and_equal_iff x.target y.target z.target).mpr ⟨hyz, hxy⟩
          refine ⟨_, .connection hxy, ?_⟩
          rw [← Bool.and_assoc]
          exact @Merged.connection { x with isNonbearing := x.isNonbearing && y.isNonbearing } z hxz
  | @reference z hkeys hnames hfields ih =>
    obtain ⟨field, zs⟩ := z
    have hz : Placed (.reference ⟨field, zs⟩) := .reference hkeys hnames hfields
    have hreferences {xs ys : List (String × Reference)} (hx : Placed (.reference ⟨field, xs⟩))
        (hy : Placed (.reference ⟨field, ys⟩)) (rs : List (String × Reference)) :
        (∃ xys, mergeReferences xs ys = .ok xys ∧ mergeReferences xys zs = .ok rs) ↔
          ∃ yzs, mergeReferences ys zs = .ok yzs ∧ mergeReferences xs yzs = .ok rs := by
      refine mergeReferences_assoc hx.references.1 hy.references.1 hkeys ?_ rs
      intro name x hfindx y hfindy z hfindz r
      have hxf := hx.references.2 name x hfindx
      have hyf := hy.references.2 name y hfindy
      have hzf := hz.references.2 name z hfindz
      refine joinsReference_assoc fun fields => mergeFields_assoc_of hxf hyf hzf ?_ fields
      intro key nested hnested other hother third hthird r
      simp only [merge_eq_ok_iff]
      exact ih name z (Table.mem_of_find? hfindz) key third (Table.mem_of_find? hthird)
        (hxf.inner _ _ (Table.mem_of_find? hnested)) (hyf.inner _ _ (Table.mem_of_find? hother)) r
    constructor
    · rintro ⟨_, hxy, hr⟩
      cases hr with
      | reference hr =>
        cases hxy with
        | reference hxy =>
          obtain ⟨yzs, hyz, hr⟩ := (hreferences hx hy _).mp ⟨_, hxy, hr⟩
          exact ⟨_, .reference hyz, .reference hr⟩
    · rintro ⟨_, hyz, hr⟩
      cases hyz with
      | reference hyz =>
        cases hr with
        | reference hr =>
          obtain ⟨xys, hxy, hr⟩ := (hreferences hx hy _).mpr ⟨_, hyz, hr⟩
          exact ⟨_, .reference hxy, .reference hr⟩

/-- Merging tables of markers in either grouping fails both times or leads to the same table. -/
theorem mergeFields_assoc (ha : PlacedFields a) (hb : PlacedFields b) (hc : PlacedFields c) :
    (mergeFields a b >>= fun ab => mergeFields ab c).toOption =
      (mergeFields b c >>= fun bc => mergeFields a bc).toOption := by
  refine Except.toOption_eq_of_forall fun r => ?_
  rw [Except.bind_eq_ok, Except.bind_eq_ok]
  refine mergeFields_assoc_of ha hb hc (fun key x hx y hy z hz r => ?_) r
  exact merge_assoc (ha.inner _ _ (Table.mem_of_find? hx)) (hb.inner _ _ (Table.mem_of_find? hy))
    (hc.inner _ _ (Table.mem_of_find? hz)) r

/-! ### What is there afterwards -/

/-- The reference of a marker under a name. Only relations have any. -/
def below? (name : String) : Marker → Option Reference
  | .reference marker => Table.find? name marker.references
  | _ => none

/-- The reference that a step leads to: the name of a relation, and that of a reference to it. -/
def reference? (step : String × String) (fields : Table Marker) : Option Reference :=
  (fields.find? step.1).bind (below? step.2)

/-- The markers below the references of a path. -/
def inside? : (path : List (String × String)) → (fields : Table Marker) → Option (Table Marker)
  | [], fields => some fields
  | step :: path, fields => (reference? step fields).bind fun found => inside? path found.fields

/-- The placeholders of the markers below a path. -/
def placeholdersAt (path : List (String × String)) (fields : Table Marker) : List String :=
  (inside? path fields).elim [] Table.keys

/-- How many rows the reference behind a path and one more step prefers. -/
def countAt? (path : List (String × String)) (step : String × String) (fields : Table Marker) :
    Option Int :=
  (inside? path fields).bind fun found => (reference? step found).map (·.initialEntityCount)

/-- At every depth there are the names of both sides, and each reference has the larger count. -/
structure Unites (present incoming merged : Table Marker) : Prop where
  reached : ∀ path, (inside? path merged).isSome ↔
    (inside? path present).isSome ∨ (inside? path incoming).isSome
  placeholders : ∀ path key, key ∈ placeholdersAt path merged ↔
    key ∈ placeholdersAt path present ∨ key ∈ placeholdersAt path incoming
  counts : ∀ path step, countAt? path step merged =
    Option.merge max (countAt? path step present) (countAt? path step incoming)

lemma placedFields_of_reference? (ha : PlacedFields a) {step : String × String}
    {reference : Reference} (h : reference? step a = some reference) :
    PlacedFields reference.fields := by
  obtain ⟨marker, hfind, h⟩ := Option.bind_eq_some_iff.mp h
  cases marker with
  | field | connection => cases h
  | reference marker => exact (ha.inner _ _ (Table.mem_of_find? hfind)).references.2 _ _ h

/-- Behind every step the references of both sides are joined. -/
lemma reference?_mergeFields (ha : PlacedFields a) (hb : PlacedFields b)
    (h : mergeFields a b = .ok merged) (step : String × String) :
    Table.JoinsAt JoinsReference (reference? step a) (reference? step b)
      (reference? step merged) := by
  have hjoined := (mergeFields_eq_ok_iff ha.nodup hb.nodup hb.placed).mp h
  unfold reference?
  obtain ⟨hx, hz⟩ | ⟨hy, hz⟩ | ⟨x, y, z, hx, hy, hz, hmerge⟩ := (hjoined.joins step.1).inversion
  · rw [hx, hz]
    rfl
  · rw [hy, hz]
    exact Table.joinsAt_none _
  · rw [hx, hy, hz]
    cases merge_eq_ok_iff.mp hmerge with
    | field | connection => rfl
    | @reference field present incoming result hmerged =>
      have hpresent := (ha.inner _ _ (Table.mem_of_find? hx)).references.1
      have hincoming := (hb.inner _ _ (Table.mem_of_find? hy)).references.1
      exact ((mergeReferences_eq_ok_iff hpresent hincoming).mp hmerged).joins step.2

/-- Below every path the markers of both sides are merged. -/
lemma inside?_mergeFields (ha : PlacedFields a) (hb : PlacedFields b)
    (h : mergeFields a b = .ok merged) (path : List (String × String)) :
    Table.JoinsAt
      (fun x y z => PlacedFields x ∧ PlacedFields y ∧ mergeFields x y = .ok z)
      (inside? path a) (inside? path b) (inside? path merged) := by
  induction path generalizing a b merged with
  | nil => exact ⟨merged, ⟨ha, hb, h⟩, rfl⟩
  | cons step path ih =>
    unfold inside?
    obtain ⟨hx, hz⟩ | ⟨hy, hz⟩ | ⟨x, y, _, hx, hy, hz, fields, hfields, rfl⟩ :=
      (reference?_mergeFields ha hb h step).inversion
    · rw [hx, hz]
      rfl
    · rw [hy, hz]
      exact Table.joinsAt_none _
    · rw [hx, hy, hz]
      exact ih (placedFields_of_reference? ha hx) (placedFields_of_reference? hb hy) hfields

/-- What a merger of markers has at every depth is what both sides have. -/
theorem unites_of_mergeFields (ha : PlacedFields a) (hb : PlacedFields b)
    (h : mergeFields a b = .ok merged) : Unites a b merged where
  reached path := by
    obtain ⟨hx, hz⟩ | ⟨hy, hz⟩ | ⟨x, y, z, hx, hy, hz, -⟩ :=
      (inside?_mergeFields ha hb h path).inversion
    · simp [hx, hz]
    · simp [hy, hz]
    · simp [hx, hy, hz]
  placeholders path key := by
    unfold placeholdersAt
    obtain ⟨hx, hz⟩ | ⟨hy, hz⟩ | ⟨x, y, z, hx, hy, hz, hxp, hyp, hmerged⟩ :=
      (inside?_mergeFields ha hb h path).inversion
    · simp [hx, hz]
    · simp [hy, hz]
    · rw [hx, hy, hz]
      exact ((mergeFields_eq_ok_iff hxp.nodup hyp.nodup hyp.placed).mp hmerged).mem_keys_iff
  counts path step := by
    unfold countAt?
    refine (inside?_mergeFields ha hb h path).bind_eq_merge ?_
    rintro x y z ⟨hx, hy, hmerged⟩
    simp only [Option.map_eq_bind]
    refine (reference?_mergeFields hx hy hmerged step).bind_eq_merge ?_
    rintro first second _ ⟨fields, -, rfl⟩
    rfl

/-- Merging markers is idempotent, may be regrouped whether it fails or not, and keeps every
placeholder of both sides, in its place and at every depth, with the larger count for each
reference. -/
theorem mergeFields_laws (ha : PlacedFields a) (hb : PlacedFields b) (hc : PlacedFields c) :
    mergeFields a a = .ok a ∧
      (mergeFields a b >>= fun ab => mergeFields ab c).toOption =
        (mergeFields b c >>= fun bc => mergeFields a bc).toOption ∧
      ∀ merged, mergeFields a b = .ok merged → PlacedFields merged ∧ Unites a b merged := by
  refine ⟨?_, mergeFields_assoc ha hb hc, fun merged h =>
    ⟨placedFields_mergeFields ha hb h, unites_of_mergeFields ha hb h⟩⟩
  exact mergeFields_self_of ha.nodup ha.placed fun key marker hmem =>
    merge_self (ha.inner key marker hmem)

/-- Posts with their authors, posts with their titles, and a connection to an author. -/
theorem mergeFields_laws_posts :
    let author : ConnectionMarker := ⟨"author", .single "id" (.int 1), true⟩
    let title : FieldMarker := ⟨"title", some (.string "untitled"), false⟩
    let posts := fun fields count => [("posts", Marker.reference
      (asked "posts" .possiblyMany fields count))]
    let a := posts [("author", .connection author)] 1
    let b := posts [("title", .field title)] 3
    let c := posts [("author", .connection { author with isNonbearing := false })] 2
    let all : Table Marker := posts
      [("author", .connection { author with isNonbearing := false }), ("title", .field title)] 3
    (mergeFields a b >>= fun ab => mergeFields ab c) = .ok all ∧
      mergeFields a a = .ok a ∧
      (mergeFields a b >>= fun ab => mergeFields ab c).toOption =
        (mergeFields b c >>= fun bc => mergeFields a bc).toOption ∧
      ∀ merged, mergeFields a b = .ok merged → PlacedFields merged ∧ Unites a b merged := by
  intro author title posts a b c all
  have hmade {marker : Marker} (h : Made marker) : MadeFields [(marker.placeholder, marker)] :=
    .insert .empty h rfl (by simp)
  have hposts {marker : Marker} (h : Made marker) {count : Int} (hcount : 0 ≤ count) :
      PlacedFields (posts [(marker.placeholder, marker)] count) :=
    (hmade (made_asked (hmade h) hcount (by simp))).sound.placedFields
  have ha : PlacedFields a := hposts (.given (.connection author)) (by decide)
  have hb : PlacedFields b := hposts (.given (.field title)) (by decide)
  have hc : PlacedFields c :=
    hposts (.given (.connection { author with isNonbearing := false })) (by decide)
  exact ⟨by with_unfolding_all rfl, mergeFields_laws ha hb hc⟩

end Marker

end EntityGraph

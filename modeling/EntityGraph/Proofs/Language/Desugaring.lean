import EntityGraph.Language.Sugar
import EntityGraph.Proofs.Schema.Building
import Mathlib.Data.List.Forall2
/-!
# Texts and structures desugar alike

A structure spells what a text reads as if it has the same steps and names, and if its filters and
unique wheres, texts or not, desugar to those that have been read. The two are desugared by walks of
their own, which meet in every result, and the options of a path end up at its last step.
-/
namespace EntityGraph.Language

/-- A step that has been read, written as a structure throughout. -/
def Step.structured (step : Step Filter UniqueWhere) : SugaredStep :=
  ⟨step.field, step.filter.map .structured, step.reducedBy.map .structured⟩

namespace Environment

variable (env : Environment)

/-- A step given in place of a step that has been read. -/
structure SpellsStep (given : SugaredStep) (step : Step Filter UniqueWhere) : Prop where
  field : given.field = step.field
  filter : given.filter.mapM env.desugarFilter = .ok step.filter
  reducedBy : given.reducedBy.mapM env.desugarUnique = .ok step.reducedBy

def SpellsPath : List SugaredStep → List (Step Filter UniqueWhere) → Prop :=
  List.Forall₂ env.SpellsStep

variable {env}

/-! ### Steps -/

/-- Nothing but the options of its place is left to desugar in a step that spells another. -/
lemma SpellsStep.desugarStep_eq {given : SugaredStep} {step : Step Filter UniqueWhere}
    (h : env.SpellsStep given step) (options : LinkOptions) :
    env.desugarStep options given = do
      return ⟨step, ← options.connectTo.mapM env.desugarUnique, options.isNonbearing⟩ := by
  rw [desugarStep, h.field, h.filter, h.reducedBy]
  rfl

lemma SpellsStep.desugarStep_interior {given : SugaredStep} {step : Step Filter UniqueWhere}
    (h : env.SpellsStep given step) : env.desugarStep interior given = .ok (.plain step) :=
  h.desugarStep_eq interior

/-- A step that desugars spells what it desugars to. -/
lemma spellsStep_of_desugarStep {options : LinkOptions} {given : SugaredStep} {link : LinkedStep}
    (h : env.desugarStep options given = .ok link) : env.SpellsStep given link.toStep := by
  obtain ⟨filter, hfilter, h⟩ := Except.bind_eq_ok.mp h
  obtain ⟨reducedBy, hreduced, h⟩ := Except.bind_eq_ok.mp h
  obtain ⟨connectTo, -, h⟩ := Except.bind_eq_ok.mp h
  cases h
  exact ⟨rfl, hfilter, hreduced⟩

lemma desugarFilter_structured (filter : Option Filter) :
    (filter.map .structured).mapM env.desugarFilter = .ok filter := by
  cases filter <;> rfl

lemma desugarUnique_structured (which : Option UniqueWhere) :
    (which.map .structured).mapM env.desugarUnique = .ok which := by
  cases which <;> rfl

/-! ### Paths -/

variable {options : LinkOptions}

/-- The two walks of a path meet at every length, and in one fault where the options have one: a
step that spells another has none of its own. -/
theorem SpellsPath.desugarPath_eq {given : List SugaredStep}
    {path : List (Step Filter UniqueWhere)} (h : env.SpellsPath given path) :
    env.desugarPath options given = env.augmentPath options path := by
  induction h with
  | nil => rfl
  | cons hstep hrest ih =>
    cases hrest with
    | nil =>
      rw [desugarPath, augmentPath, hstep.desugarStep_eq, bind_assoc]
      simp only [pure_bind]
    | cons hnext hrest =>
      rw [desugarPath, augmentPath, hstep.desugarStep_interior, ih]
      · rfl
      · simp
      · simp

lemma spellsPath_of_desugarPath {given : List SugaredStep} {links : List LinkedStep}
    (h : env.desugarPath options given = .ok links) :
    env.SpellsPath given (links.map LinkedStep.toStep) := by
  induction given generalizing links with
  | nil =>
    cases h
    exact .nil
  | cons step rest ih =>
    cases rest with
    | nil =>
      obtain ⟨link, hlink, h⟩ := Except.bind_eq_ok.mp h
      cases h
      exact .cons (spellsStep_of_desugarStep hlink) .nil
    | cons next others =>
      obtain ⟨link, hlink, h⟩ := Except.bind_eq_ok.mp h
      obtain ⟨others, hothers, h⟩ := Except.bind_eq_ok.mp h
      cases h
      exact .cons (spellsStep_of_desugarStep hlink) (ih hothers)

lemma spellsPath_structured (path : List (Step Filter UniqueWhere)) :
    env.SpellsPath (path.map Step.structured) path := by
  induction path with
  | nil => exact .nil
  | cons step rest ih =>
    exact .cons ⟨rfl, desugarFilter_structured _, desugarUnique_structured _⟩ ih

/-- The last step takes the options, and the steps before it none. -/
lemma augmentPath_concat (earlier : List (Step Filter UniqueWhere))
    (last : Step Filter UniqueWhere) :
    env.augmentPath options (earlier ++ [last]) = do
      let connectTo ← options.connectTo.mapM env.desugarUnique
      return earlier.map .plain ++ [⟨last, connectTo, options.isNonbearing⟩] := by
  induction earlier with
  | nil => rfl
  | cons step rest ih =>
    rw [List.cons_append, augmentPath, ih, bind_assoc]
    · simp only [pure_bind, List.map_cons, List.cons_append]
    · simp

/-- Where the options of a path are: at its last step, and at no step before. -/
structure LinksLast (env : Environment) (options : LinkOptions) (links : List LinkedStep) :
    Prop where
  earlier : ∀ link ∈ links.dropLast, link.connectTo = none ∧ link.isNonbearing = false
  last : ∀ link ∈ links.getLast?, options.connectTo.mapM env.desugarUnique = .ok link.connectTo ∧
    link.isNonbearing = options.isNonbearing

lemma linksLast_of_augmentPath {path : List (Step Filter UniqueWhere)} {links : List LinkedStep}
    (h : env.augmentPath options path = .ok links) : LinksLast env options links := by
  obtain rfl | ⟨earlier, last, rfl⟩ := path.eq_nil_or_concat'
  · cases h
    constructor <;> simp
  · rw [augmentPath_concat] at h
    obtain ⟨connectTo, hconnect, h⟩ := Except.bind_eq_ok.mp h
    cases h
    constructor
    · intro link hlink
      rw [List.dropLast_concat] at hlink
      obtain ⟨step, -, rfl⟩ := List.mem_map.mp hlink
      exact ⟨rfl, rfl⟩
    · intro link hlink
      rw [List.getLast?_concat] at hlink
      cases hlink
      exact ⟨hconnect, rfl⟩

lemma linksLast_of_desugarPath {given : List SugaredStep} {links : List LinkedStep}
    (h : env.desugarPath options given = .ok links) : LinksLast env options links := by
  have hspells := spellsPath_of_desugarPath h
  rw [hspells.desugarPath_eq] at h
  exact linksLast_of_augmentPath h

lemma linksLast_of_relativeEntity {path : Sugared (List SugaredStep)} {links : List LinkedStep}
    (h : env.relativeEntity path options = .ok links) : LinksLast env options links := by
  cases path with
  | text text =>
    obtain ⟨tree, -, h⟩ := Except.bind_eq_ok.mp h
    exact linksLast_of_augmentPath h
  | structured path => exact linksLast_of_desugarPath h

end Environment

/-! ### Forms -/

/-- The forms of a path that a text may stand for. -/
inductive PathForm where
  | entityList
  | fieldList
  | singleEntity
  | unfilteredList
  | relativeEntity
  | relativeField
  | relativeList

namespace PathForm

/-- The rule that a text is read by. -/
def entry : PathForm → EntryPoint
  | entityList => .qualifiedEntityList
  | fieldList => .qualifiedFieldList
  | singleEntity => .qualifiedSingleEntity
  | unfilteredList => .unconstrainedQualifiedEntityList
  | relativeEntity => .relativeSingleEntity
  | relativeField => .relativeSingleField
  | relativeList => .relativeEntityList

/-- What a text stands for, its parts with sugar. -/
def Structure : PathForm → Type
  | entityList => EntityList SugaredFilter SugaredUnique
  | fieldList => FieldList SugaredFilter SugaredUnique
  | singleEntity => SingleEntity SugaredFilter SugaredUnique
  | unfilteredList => UnfilteredList SugaredFilter SugaredUnique
  | relativeEntity => List SugaredStep
  | relativeField => RelativeField SugaredFilter SugaredUnique
  | relativeList => RelativeList SugaredFilter SugaredUnique

/-- What stands beside a form because the language has no notation for it. -/
def Options : PathForm → Type
  | entityList | fieldList | relativeList => ListOptions
  | singleEntity | unfilteredList => Option SugaredUnique
  | relativeEntity => LinkOptions
  | relativeField => Bool × Option Default

def Selection : PathForm → Type
  | entityList => EntityListSelection
  | fieldList => FieldListSelection
  | singleEntity => SingleEntitySelection
  | unfilteredList => UnfilteredListSelection
  | relativeEntity => List LinkedStep
  | relativeField => RelativeFieldSelection
  | relativeList => RelativeListSelection

def desugar (env : Environment) :
    (form : PathForm) → Sugared form.Structure → form.Options → Desugared form.Selection
  | entityList => env.entityList
  | fieldList => env.fieldList
  | singleEntity => env.singleEntity
  | unfilteredList => env.unfiltered
  | relativeEntity => env.relativeEntity
  | relativeField => fun field options => env.relativeField field options.1 options.2
  | relativeList => env.relativeList

/-- A structure given in place of what has been read: its names and steps are the same, and its
filters and unique wheres desugar to those that have been read. -/
def Spells (env : Environment) : (form : PathForm) → form.Structure → form.entry.Tree → Prop
  | entityList => fun (given : EntityList ..) (list : EntityList ..) =>
    given.entity = list.entity ∧ given.filter.mapM env.desugarFilter = .ok list.filter ∧
      env.SpellsPath given.path list.path
  | fieldList => fun (given : FieldList ..) (list : FieldList ..) =>
    given.entity = list.entity ∧ given.filter.mapM env.desugarFilter = .ok list.filter ∧
      env.SpellsPath given.path list.path ∧ given.field = list.field
  | singleEntity => fun (given : SingleEntity ..) (single : SingleEntity ..) =>
    given.entity = single.entity ∧ env.desugarUnique given.uniqueWhere = .ok single.uniqueWhere ∧
      given.filter.mapM env.desugarFilter = .ok single.filter ∧
      env.SpellsPath given.path single.path
  | unfilteredList => fun (given : UnfilteredList ..) (list : UnfilteredList ..) =>
    given.entity = list.entity ∧ env.SpellsPath given.path list.path
  | relativeEntity => env.SpellsPath
  | relativeField => fun (given : RelativeField ..) (field : RelativeField ..) =>
    env.SpellsPath given.path field.path ∧ given.field = field.field
  | relativeList => fun (given : RelativeList ..) (list : RelativeList ..) =>
    env.SpellsPath given.path list.path ∧ given.field = list.field ∧
      given.filter.mapM env.desugarFilter = .ok list.filter

/-- What has been read, written as a structure throughout. -/
def structured : (form : PathForm) → form.entry.Tree → form.Structure
  | entityList => fun (list : EntityList ..) =>
    EntityList.mk list.entity (list.filter.map .structured) (list.path.map Step.structured)
  | fieldList => fun (list : FieldList ..) =>
    FieldList.mk list.entity (list.filter.map .structured) (list.path.map Step.structured)
      list.field
  | singleEntity => fun (single : SingleEntity ..) =>
    SingleEntity.mk single.entity (.structured single.uniqueWhere)
      (single.filter.map .structured) (single.path.map Step.structured)
  | unfilteredList => fun (list : UnfilteredList ..) =>
    UnfilteredList.mk list.entity (list.path.map Step.structured)
  | relativeEntity => List.map Step.structured
  | relativeField => fun (field : RelativeField ..) =>
    RelativeField.mk (field.path.map Step.structured) field.field
  | relativeList => fun (list : RelativeList ..) =>
    RelativeList.mk (list.path.map Step.structured) list.field (list.filter.map .structured)

variable {env : Environment}

open Environment (desugarFilter_structured spellsPath_structured)

lemma spells_structured (form : PathForm) (tree : form.entry.Tree) :
    form.Spells env (form.structured tree) tree := by
  cases form with
  | entityList => exact ⟨rfl, desugarFilter_structured _, spellsPath_structured _⟩
  | fieldList => exact ⟨rfl, desugarFilter_structured _, spellsPath_structured _, rfl⟩
  | singleEntity => exact ⟨rfl, rfl, desugarFilter_structured _, spellsPath_structured _⟩
  | unfilteredList => exact ⟨rfl, spellsPath_structured _⟩
  | relativeEntity => exact spellsPath_structured _
  | relativeField => exact ⟨spellsPath_structured _, rfl⟩
  | relativeList => exact ⟨spellsPath_structured _, rfl, desugarFilter_structured _⟩

/-- A text that is read and a structure that spells the tree differ in their own part only. -/
lemma desugar_eq_of_spells (form : PathForm) {text : String} {tree : form.entry.Tree}
    (hparse : parse env form.entry text = .ok tree) {given : form.Structure}
    (hspells : form.Spells env given tree) (options : form.Options) :
    form.desugar env (.text text) options = form.desugar env (.structured given) options := by
  cases form with
  | entityList =>
    obtain ⟨hentity, hfilter, hpath⟩ := hspells
    have hread : parse env .qualifiedEntityList text = .ok tree := hparse
    simp only [desugar, Environment.entityList, hread, hentity, hfilter, hpath.desugarPath_eq]
    rfl
  | fieldList =>
    obtain ⟨hentity, hfilter, hpath, hfield⟩ := hspells
    have hread : parse env .qualifiedFieldList text = .ok tree := hparse
    simp only [desugar, Environment.fieldList, hread, hentity, hfilter, hpath.desugarPath_eq,
      hfield]
    rfl
  | singleEntity =>
    obtain ⟨hentity, hwhich, hfilter, hpath⟩ := hspells
    have hread : parse env .qualifiedSingleEntity text = .ok tree := hparse
    simp only [desugar, Environment.singleEntity, hread, hentity, hwhich, hfilter,
      hpath.desugarPath_eq]
    rfl
  | unfilteredList =>
    obtain ⟨hentity, hpath⟩ := hspells
    have hread : parse env .unconstrainedQualifiedEntityList text = .ok tree := hparse
    simp only [desugar, Environment.unfiltered, hread, hentity, hpath.desugarPath_eq]
    rfl
  | relativeEntity =>
    have hpath : env.SpellsPath given tree := hspells
    have hread : parse env .relativeSingleEntity text = .ok tree := hparse
    simp only [desugar, Environment.relativeEntity, hread]
    exact hpath.desugarPath_eq.symm
  | relativeField =>
    obtain ⟨hpath, hfield⟩ := hspells
    have hread : parse env .relativeSingleField text = .ok tree := hparse
    simp only [desugar, Environment.relativeField, hread, hpath.desugarPath_eq, hfield]
    rfl
  | relativeList =>
    obtain ⟨hpath, hfield, hfilter⟩ := hspells
    have hread : parse env .relativeEntityList text = .ok tree := hparse
    simp only [desugar, Environment.relativeList, hread, hpath.desugarPath_eq, hfield, hfilter]
    rfl

end PathForm

namespace Environment

end Environment

end EntityGraph.Language

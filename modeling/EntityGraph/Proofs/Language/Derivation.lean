import EntityGraph.Language.EntryPoint
import EntityGraph.Proofs.Language.Phrase
import EntityGraph.Proofs.UniqueWhere.Assignment
/-!
# The grammar as phrases

What the tokens of an expression may be, and what they are read as: one phrase a rule, in an
environment that the variables are looked up in. A rule says nothing about the tokens behind it,
and nothing about which rule to try.
-/
namespace EntityGraph.Language

/-! ### Names -/

/-- A dollar and a word, which may be written either way. -/
inductive VariablePhrase : Phrase String
  | field {tokens rest : List Token} {name : String}
      (h : Phrase.After .dollar (Phrase.Word .identifier) tokens name rest) :
      VariablePhrase tokens name rest
  | entity {tokens rest : List Token} {name : String}
      (h : Phrase.After .dollar (Phrase.Word .entityIdentifier) tokens name rest) :
      VariablePhrase tokens name rest

namespace Environment

variable (env : Environment)

/-- A word of the kind, or a variable that holds a string that is a name. -/
inductive NamePhrase (kind : TokenKind) (isName : List Char → Bool) : Phrase String
  | written {tokens rest : List Token} {name : String} (h : Phrase.Word kind tokens name rest) :
      NamePhrase kind isName tokens name rest
  | resolved {tokens rest : List Token} {name value : String} (h : VariablePhrase tokens name rest)
      (hvalue : env.resolve name = .ok (.string value)) (hname : isName value.toList) :
      NamePhrase kind isName tokens value rest

def FieldPhrase : Phrase String := env.NamePhrase .identifier isIdentifier

def EntityPhrase : Phrase String := env.NamePhrase .entityIdentifier isEntityIdentifier

inductive FieldPathPhrase : Phrase (List String)
  | intro {tokens rest : List Token} {field : String} {others : List String}
      (h : Phrase.Separated .dot env.FieldPhrase tokens (field, others) rest) :
      FieldPathPhrase tokens (field :: others) rest

/-! ### Conditions -/

inductive PrimaryPhrase : Phrase Value
  | string {token : Token} (rest : List Token) (hkind : token.kind = .string) :
      PrimaryPhrase (token :: rest) (.string (String.ofList (unescape token.image))) rest
  | number {token : Token} {value : Value} (rest : List Token) (hkind : token.kind = .number)
      (hvalue : Value.ofNumber? token.text = .ok value) : PrimaryPhrase (token :: rest) value rest
  | word {tokens rest : List Token} {text : String}
      (h : Phrase.Word .identifier tokens text rest) : PrimaryPhrase tokens (.literal text) rest
  | entityWord {tokens rest : List Token} {text : String}
      (h : Phrase.Word .entityIdentifier tokens text rest) :
      PrimaryPhrase tokens (.literal text) rest
  | resolved {tokens rest : List Token} {name : String} {value : Value}
      (h : VariablePhrase tokens name rest) (hvalue : env.resolve name = .ok value)
      (hprimary : isPrimary value) : PrimaryPhrase tokens value rest

/-- A primary value, or a truth value. -/
inductive OperandPhrase : Phrase Value
  | true {tokens rest : List Token} {text : String}
      (h : Phrase.Word .true tokens text rest) : OperandPhrase tokens (.boolean Bool.true) rest
  | false {tokens rest : List Token} {text : String}
      (h : Phrase.Word .false tokens text rest) : OperandPhrase tokens (.boolean Bool.false) rest
  | primary {tokens rest : List Token} {value : Value} (h : env.PrimaryPhrase tokens value rest) :
      OperandPhrase tokens value rest

/-- A comparison, or a test for null. -/
inductive ConditionPhrase : Phrase Condition
  | compare {token : Token} {tokens rest : List Token} {comparison : Comparison} {value : Value}
      (hcomparison : comparison? token.kind = some comparison)
      (hoperand : env.OperandPhrase tokens value rest) : ConditionPhrase (token :: tokens)
      (.compare comparison value) rest
  | isNull {token : Token} {tokens rest : List Token} {text : String}
      (hequals : token.kind = .equals)
      (hnull : Phrase.Word .null tokens text rest) : ConditionPhrase (token :: tokens)
      (.null true) rest
  | isNotNull {token : Token} {tokens rest : List Token} {text : String}
      (hdiffers : token.kind = .notEquals)
      (hnull : Phrase.Word .null tokens text rest) : ConditionPhrase (token :: tokens)
      (.null false) rest

/-! ### Filters -/

inductive FieldWherePhrase : Phrase Filter
  | intro {tokens middle rest : List Token} {path : List String} {condition : Condition}
      (hpath : env.FieldPathPhrase tokens path middle)
      (hcondition : env.ConditionPhrase middle condition rest) :
      FieldWherePhrase tokens (.atPath condition path) rest

inductive NegationPhrase : Phrase Filter
  | plain {tokens rest : List Token} {filter : Filter}
      (h : env.FieldWherePhrase tokens filter rest) : NegationPhrase tokens filter rest
  | negated {tokens rest : List Token} {filter : Filter}
      (h : Phrase.After .not env.FieldWherePhrase tokens filter rest) :
      NegationPhrase tokens (.negation filter) rest

inductive ConjunctionPhrase : Phrase Filter
  | intro {tokens rest : List Token} {operands : Filter × List Filter}
      (h : Phrase.Separated .and env.NegationPhrase tokens operands rest) :
      ConjunctionPhrase tokens (combine .all operands) rest

inductive DisjunctionPhrase : Phrase Filter
  | intro {tokens rest : List Token} {operands : Filter × List Filter}
      (h : Phrase.Separated .or env.ConjunctionPhrase tokens operands rest) :
      DisjunctionPhrase tokens (combine .any operands) rest

def ClausePhrase : Phrase Filter :=
  Phrase.Enclosed .leftBracket .rightBracket env.DisjunctionPhrase

/-- Clauses, one at least, that hold together. -/
inductive FilterPhrase : Phrase Filter
  | intro {tokens middle rest : List Token} {clause : Filter} {others : List Filter}
      (hclause : env.ClausePhrase tokens clause middle)
      (hothers : Phrase.Many env.ClausePhrase middle others rest) :
      FilterPhrase tokens (combine .all (clause, others)) rest

/-! ### Unique wheres -/

inductive LeafPhrase : Phrase (List String × Value)
  | intro {token : Token} {tokens middle rest : List Token} {path : List String} {value : Value}
      (hpath : env.FieldPathPhrase tokens path (token :: middle)) (hequals : token.kind = .equals)
      (hvalue : env.PrimaryPhrase middle value rest) : LeafPhrase tokens (path, value) rest

/-- Leaves at paths of which none is the same as another one or leads through it. -/
inductive UniqueWherePhrase : Phrase UniqueWhere
  | intro {tokens rest : List Token} {leaf : List String × Value}
      {others : List (List String × Value)}
      (h : Phrase.Enclosed .leftParenthesis .rightParenthesis
        (Phrase.Separated .comma env.LeafPhrase) tokens (leaf, others) rest)
      (hpaths : (leaf :: others).Pairwise fun leaf other => Incomparable leaf.1 other.1) :
      UniqueWherePhrase tokens (.ofLeaves (leaf :: others)) rest

/-! ### Paths -/

inductive StepPhrase : Phrase (Step Filter UniqueWhere)
  | intro {tokens first second rest : List Token} {field : String} {reducedBy : Option UniqueWhere}
      {filter : Option Filter} (hfield : env.FieldPhrase tokens field first)
      (hreducedBy : Phrase.Optional env.UniqueWherePhrase first reducedBy second)
      (hfilter : Phrase.Optional env.FilterPhrase second filter rest) :
      StepPhrase tokens ⟨field, filter, reducedBy⟩ rest

/-- Relations, one at least. -/
inductive StepsPhrase : Phrase (List (Step Filter UniqueWhere))
  | intro {tokens rest : List Token} {step : Step Filter UniqueWhere}
      {others : List (Step Filter UniqueWhere)}
      (h : Phrase.Separated .dot env.StepPhrase tokens (step, others) rest) :
      StepsPhrase tokens (step :: others) rest

/-- Relations that an entity is followed by. -/
def TailPhrase : Phrase (List (Step Filter UniqueWhere)) :=
  Phrase.Many (Phrase.After .dot env.StepPhrase)

/-- The last one of the relations is neither reduced nor filtered, and names a field. -/
inductive RelativeFieldPhrase : Phrase (RelativeField Filter UniqueWhere)
  | intro {tokens rest : List Token} {path : List (Step Filter UniqueWhere)} {field : String}
      (h : env.StepsPhrase tokens (path ++ [⟨field, none, none⟩]) rest) :
      RelativeFieldPhrase tokens ⟨path, field⟩ rest

/-- The last one of the relations is not reduced. -/
inductive RelativeListPhrase : Phrase (RelativeList Filter UniqueWhere)
  | intro {tokens rest : List Token} {path : List (Step Filter UniqueWhere)} {field : String}
      {filter : Option Filter} (h : env.StepsPhrase tokens (path ++ [⟨field, filter, none⟩]) rest) :
      RelativeListPhrase tokens ⟨path, field, filter⟩ rest

/-! ### Entities -/

inductive EntityListPhrase : Phrase (EntityList Filter UniqueWhere)
  | intro {tokens first second rest : List Token} {entity : String} {filter : Option Filter}
      {path : List (Step Filter UniqueWhere)} (hentity : env.EntityPhrase tokens entity first)
      (hfilter : Phrase.Optional env.FilterPhrase first filter second)
      (hpath : env.TailPhrase second path rest) :
      EntityListPhrase tokens ⟨entity, filter, path⟩ rest

inductive FieldListPhrase : Phrase (FieldList Filter UniqueWhere)
  | intro {tokens first second rest : List Token} {entity : String} {filter : Option Filter}
      {relative : RelativeField Filter UniqueWhere} (hentity : env.EntityPhrase tokens entity first)
      (hfilter : Phrase.Optional env.FilterPhrase first filter second)
      (hrelative : Phrase.After .dot env.RelativeFieldPhrase second relative rest) :
      FieldListPhrase tokens ⟨entity, filter, relative.path, relative.field⟩ rest

inductive SingleEntityPhrase : Phrase (SingleEntity Filter UniqueWhere)
  | intro {tokens first second middle rest : List Token} {entity : String} {which : UniqueWhere}
      {filter : Option Filter} {path : List (Step Filter UniqueWhere)}
      (hentity : env.EntityPhrase tokens entity first)
      (hwhich : env.UniqueWherePhrase first which middle)
      (hfilter : Phrase.Optional env.FilterPhrase middle filter second)
      (hpath : env.TailPhrase second path rest) :
      SingleEntityPhrase tokens ⟨entity, which, filter, path⟩ rest

inductive UnfilteredListPhrase : Phrase (UnfilteredList Filter UniqueWhere)
  | intro {tokens middle rest : List Token} {entity : String}
      {path : List (Step Filter UniqueWhere)} (hentity : env.EntityPhrase tokens entity middle)
      (hpath : env.TailPhrase middle path rest) : UnfilteredListPhrase tokens ⟨entity, path⟩ rest

/-! ### Orders -/

/-- A path, with one of two directions or without one. -/
inductive OrderTermPhrase : Phrase OrderTerm
  | implicit {tokens rest : List Token} {path : List String}
      (hpath : env.FieldPathPhrase tokens path rest) :
      OrderTermPhrase tokens ⟨path, .ascending⟩ rest
  | ascending {tokens middle rest : List Token} {path : List String}
      (hpath : env.FieldPathPhrase tokens path middle)
      (hdirection : Phrase.Word .identifier middle "asc" rest) :
      OrderTermPhrase tokens ⟨path, .ascending⟩ rest
  | descending {tokens middle rest : List Token} {path : List String}
      (hpath : env.FieldPathPhrase tokens path middle)
      (hdirection : Phrase.Word .identifier middle "desc" rest) :
      OrderTermPhrase tokens ⟨path, .descending⟩ rest

inductive OrderByPhrase : Phrase OrderBy
  | intro {tokens rest : List Token} {term : OrderTerm} {others : List OrderTerm}
      (h : Phrase.Separated .comma env.OrderTermPhrase tokens (term, others) rest) :
      OrderByPhrase tokens (term :: others) rest

end Environment

/-- What an entry point reads in an environment. -/
def EntryPoint.Derives (env : Environment) : (entry : EntryPoint) → Phrase entry.Tree
  | qualifiedEntityList => env.EntityListPhrase
  | qualifiedFieldList => env.FieldListPhrase
  | qualifiedSingleEntity => env.SingleEntityPhrase
  | unconstrainedQualifiedEntityList => env.UnfilteredListPhrase
  | relativeSingleField => env.RelativeFieldPhrase
  | relativeSingleEntity => env.StepsPhrase
  | relativeEntityList => env.RelativeListPhrase
  | uniqueWhere => env.UniqueWherePhrase
  | filter => env.FilterPhrase
  | orderBy => env.OrderByPhrase

end EntityGraph.Language

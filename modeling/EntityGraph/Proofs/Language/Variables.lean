import EntityGraph.Proofs.Language.Parsing
import EntityGraph.Proofs.Language.Spelling
/-!
# Variables mean their values

A text whose variables are replaced by the spellings of their values is read as the same tree, in
every environment. Where a variable stands decides how its value is spelled: behind a comparison as
a value, and everywhere else as a bare name.
-/
namespace EntityGraph.Language

/-- A token, or a variable, which is compared where it stands right behind a comparison. -/
inductive Term where
  | token (token : Token)
  | var (compared : Bool) (name : String)

def namesVariable (kind : TokenKind) : Bool := kind == .identifier || kind == .entityIdentifier

/-- The terms of some tokens, `compared` telling whether a comparison stands before the first. -/
def terms (compared : Bool) : List Token → List Term
  | [] => []
  | [token] => [.token token]
  | token :: word :: rest =>
    if token.kind = .dollar ∧ namesVariable word.kind then
      .var compared word.text :: terms false rest
    else .token token :: terms (comparison? token.kind).isSome (word :: rest)

/-- A value in place of a name. -/
def nameSpelling? : Value → Option Lexeme
  | .string text => some (wordKind text.toList, text.toList)
  | _ => none

/-- What a variable is replaced by. -/
def Environment.replacement? (env : Environment) (compared : Bool) (name : String) :
    Option Lexeme :=
  match env.resolve name with
  | .ok value => if compared then spelling? value else nameSpelling? value
  | .error _ => none

/-- A variable that has no spelling stays what it is. -/
def Term.lexeme (env : Environment) : Term → Lexeme
  | token t => t.lexeme
  | var compared name =>
    (env.replacement? compared name).getD (.dollar, '$' :: name.toList)

/-- The text without its variables, with blanks between its tokens. -/
def Environment.inlined (env : Environment) (text : String) : String :=
  String.ofList ([' '].intercalate
    ((terms false (tokenize text.toList).tokens).map fun term => (term.lexeme env).2))

def Term.comparedName? : Term → Option String
  | var true name => some name
  | _ => none

/-- The variables of a text that stand for values. -/
def comparedVariables (text : String) : List String :=
  (terms false (tokenize text.toList).tokens).filterMap Term.comparedName?

/-- The variables that stand for values have values that can be written. -/
def Environment.Spells (env : Environment) (text : String) : Prop :=
  ∀ name ∈ comparedVariables text, ∃ value, env.resolve name = .ok value ∧ (spelling? value).isSome

/-! ### Terms of phrases -/

section

variable {compared : Bool} {token : Token} {tokens rest : List Token}

lemma terms_cons (h : token.kind ≠ .dollar) :
    terms compared (token :: tokens) =
      .token token :: terms (comparison? token.kind).isSome tokens := by
  cases tokens with
  | nil => rfl
  | cons word rest => rw [terms, if_neg fun hvariable => h hvariable.1]

lemma terms_variable {dollar word : Token} (hdollar : dollar.kind = .dollar)
    (hword : namesVariable word.kind) : terms compared (dollar :: word :: rest) =
      .var compared word.text :: terms false rest := by
  rw [terms, if_pos ⟨hdollar, hword⟩]

lemma VariablePhrase.terms_eq {name : String} (h : VariablePhrase tokens name rest) :
    terms compared tokens = .var compared name :: terms false rest := by
  obtain ⟨⟨hdollar, ⟨_, hword⟩⟩⟩ | ⟨⟨hdollar, ⟨_, hword⟩⟩⟩ := h
  · exact terms_variable hdollar (by rw [hword]; rfl)
  · exact terms_variable hdollar (by rw [hword]; rfl)

end

/-- Tokens of the kind belong to no variable in front of them, and do not compare. -/
def isPlain (kind : TokenKind) : Bool := kind != .dollar && (comparison? kind).isNone

/-- The term can be spelled, as far as this does not follow from the place it is read at. -/
def Term.Ready (env : Environment) : Term → Prop
  | token t => IsLexeme t.lexeme
  | var true name => ∃ value, env.resolve name = .ok value ∧ (spelling? value).isSome
  | var false _ => True

/-- The tokens before `rest`, spelled without variables, are a stretch of the kind as well. -/
def Inlined (env : Environment) (compared : Bool) (tokens rest : List Token)
    (span : List Token → List Token → Prop) : Prop :=
  (∀ term ∈ terms compared tokens, term.Ready env) →
    ∃ front, terms compared tokens = front ++ terms false rest ∧
      (∀ term ∈ front, IsLexeme (term.lexeme env)) ∧ Takes span (front.map (Term.lexeme env))

namespace Inlined

variable {env : Environment} {compared : Bool} {tokens middle rest : List Token}
  {first second span : List Token → List Token → Prop}

lemma refl (h : ∀ tokens, span tokens tokens) : Inlined env false tokens tokens span :=
  fun _ => ⟨[], rfl, by simp, .nil h⟩

lemma mono (h : Inlined env compared tokens rest first)
    (hspan : ∀ tokens rest, first tokens rest → span tokens rest) :
    Inlined env compared tokens rest span := by
  intro hready
  obtain ⟨front, hterms, hlexemes, htakes⟩ := h hready
  exact ⟨front, hterms, hlexemes, htakes.mono hspan⟩

lemma andThen (hfirst : Inlined env compared tokens middle first)
    (hsecond : Inlined env false middle rest second)
    (h : ∀ tokens middle rest, first tokens middle → second middle rest → span tokens rest) :
    Inlined env compared tokens rest span := by
  intro hready
  obtain ⟨left, hterms, hleft, htakes⟩ := hfirst hready
  have hmiddle : ∀ term ∈ terms false middle, term.Ready env := fun term hterm =>
    hready term (hterms ▸ List.mem_append_right left hterm)
  obtain ⟨right, hterms', hright, htakes'⟩ := hsecond hmiddle
  refine ⟨left ++ right, by rw [hterms, hterms', List.append_assoc], ?_, ?_⟩
  · exact List.forall_mem_append.mpr ⟨hleft, hright⟩
  · rw [List.map_append]
    exact htakes.append htakes' h

lemma followedBy (hfirst : Inlined env compared tokens middle first)
    (hsecond : Inlined env false middle rest second) :
    Inlined env compared tokens rest fun tokens rest =>
      ∃ middle, first tokens middle ∧ second middle rest :=
  hfirst.andThen hsecond fun _ middle _ hfirst hsecond => ⟨middle, hfirst, hsecond⟩

/-- One term whose spelling is a stretch of the kind. -/
lemma single {term : Term} (hterms : terms compared tokens = term :: terms false rest)
    (hlexeme : term.Ready env → IsLexeme (term.lexeme env) ∧ Takes span [term.lexeme env]) :
    Inlined env compared tokens rest span := by
  intro hready
  obtain ⟨hproper, htakes⟩ := hlexeme (hready term (by simp [hterms]))
  exact ⟨[term], hterms, by simpa using hproper, by simpa using htakes⟩

/-! ### Phrases -/

section

variable {α : Type} {item another : Phrase α} {kind : TokenKind}

lemma plain {token : Token} (hkind : isPlain token.kind)
    (h : ∀ again : Token, again.kind = token.kind → again.image = token.image →
      ∀ rest, span (again :: rest) rest) : Inlined env compared (token :: rest) rest span := by
  obtain ⟨hdollar, hcomparison⟩ : _ ∧ _ := Bool.and_eq_true_iff.mp hkind
  have hterms : terms compared (token :: rest) = .token token :: terms false rest := by
    rw [terms_cons (by simpa using hdollar), Option.isSome_eq_false_iff.mpr hcomparison]
  refine single hterms fun hproper => ⟨hproper, .singleton fun again hagain => ?_⟩
  obtain ⟨hkind, himage⟩ : again.kind = token.kind ∧ again.image = token.image :=
    Prod.ext_iff.mp hagain
  exact h again hkind himage

lemma word {text : String} (hkind : isPlain kind) (h : Phrase.Word kind tokens text rest) :
    Inlined env compared tokens rest (Phrase.Word kind · text ·) := by
  obtain ⟨rest, rfl⟩ := h
  refine plain hkind fun again hagain himage rest => ?_
  rw [Token.text, ← himage]
  exact .intro rest hagain

lemma after {a : α} (h : Phrase.After kind item tokens a rest) (hkind : isPlain kind)
    (hitem : ∀ tokens a rest, item tokens a rest →
      Inlined env false tokens rest (another · a ·)) :
    Inlined env false tokens rest (Phrase.After kind another · a ·) := by
  obtain ⟨hfirst, h⟩ := h
  exact (word hkind (.intro _ hfirst)).andThen (hitem _ _ _ h) fun _ _ _ hword h => by
    obtain ⟨token, rfl, hfirst⟩ := hword.exists_token
    exact .intro hfirst h

lemma enclosed {closing : TokenKind} {a : α} (h : Phrase.Enclosed kind closing item tokens a rest)
    (hopening : isPlain kind) (hclosing : isPlain closing)
    (hitem : ∀ tokens a rest, item tokens a rest →
      Inlined env false tokens rest (another · a ·)) :
    Inlined env false tokens rest (Phrase.Enclosed kind closing another · a ·) := by
  obtain ⟨hfirst, h, hlast⟩ := h
  have hinner : Inlined env false _ rest fun tokens rest =>
      ∃ last : Token, another tokens a (last :: rest) ∧ last.kind = closing :=
    (hitem _ _ _ h).andThen (word hclosing (.intro _ hlast)) fun _ _ _ h hword => by
      obtain ⟨token, rfl, hlast⟩ := hword.exists_token
      exact ⟨_, h, hlast⟩
  exact (word hopening (.intro _ hfirst)).andThen hinner fun _ _ _ hword hinner => by
    obtain ⟨token, rfl, hfirst⟩ := hword.exists_token
    obtain ⟨last, h, hlast⟩ := hinner
    exact .intro hfirst h hlast

/-- What stands behind a comparison is spelled as a value. -/
lemma behind {token : Token} {a : α} (hcomparison : (comparison? token.kind).isSome)
    (h : Inlined env true tokens rest (another · a ·)) :
    Inlined env false (token :: tokens) rest (Phrase.After token.kind another · a ·) := by
  intro hready
  have hdollar : token.kind ≠ .dollar := by
    intro hkind
    simp [hkind, comparison?] at hcomparison
  have hterms : terms false (token :: tokens) = .token token :: terms true tokens := by
    rw [terms_cons hdollar, hcomparison]
  rw [hterms] at hready ⊢
  obtain ⟨hproper, hready⟩ := List.forall_mem_cons.mp hready
  obtain ⟨front, hfront, hlexemes, htakes⟩ := h hready
  refine ⟨.token token :: front, by rw [hfront]; rfl, ?_, ?_⟩
  · exact List.forall_mem_cons.mpr ⟨hproper, hlexemes⟩
  · exact Takes.word.append htakes fun _ _ _ hword h => by
      obtain ⟨first, rfl, hkind⟩ := hword.exists_token
      exact .intro hkind h

lemma optional {a : Option α} (h : Phrase.Optional item tokens a rest)
    (hitem : ∀ tokens a rest, item tokens a rest →
      Inlined env false tokens rest (another · a ·)) :
    Inlined env false tokens rest (Phrase.Optional another · a ·) := by
  cases h with
  | absent => exact refl .absent
  | present h => exact (hitem _ _ _ h).mono fun _ _ => .present

lemma many {items : List α} (h : Phrase.Many item tokens items rest)
    (hitem : ∀ tokens a rest, item tokens a rest →
      Inlined env false tokens rest (another · a ·)) :
    Inlined env false tokens rest (Phrase.Many another · items ·) := by
  induction h with
  | nil => exact refl .nil
  | cons h _ ih => exact (hitem _ _ _ h).andThen ih fun _ _ _ => .cons

lemma separated {items : α × List α} (h : Phrase.Separated kind item tokens items rest)
    (hkind : isPlain kind) (hitem : ∀ tokens a rest, item tokens a rest →
      Inlined env false tokens rest (another · a ·)) :
    Inlined env false tokens rest (Phrase.Separated kind another · items ·) := by
  obtain ⟨h, hothers⟩ := h
  have hmany := many hothers fun _ _ _ h => after h hkind hitem
  exact (hitem _ _ _ h).andThen hmany fun _ _ _ => .intro

end

end Inlined

namespace Environment

open Inlined

variable {env : Environment} (other : Environment) {tokens rest : List Token}

/-! ### Names and values -/

lemma inlined_name {kind : TokenKind} {isName : List Char → Bool} {name : String}
    (hkind : isPlain kind)
    (hnames : ∀ word, isName word → wordKind word = kind ∧ IsLexeme (kind, word))
    (h : env.NamePhrase kind isName tokens name rest) :
    Inlined env false tokens rest (other.NamePhrase kind isName · name ·) := by
  cases h with
  | written h => exact (word hkind h).mono fun _ _ => .written
  | @resolved _ _ var _ h hvalue hname =>
    obtain ⟨hword, hproper⟩ := hnames _ hname
    refine single h.terms_eq fun _ => ?_
    have hlexeme : (Term.var false var).lexeme env = (kind, name.toList) := by
      simp [Term.lexeme, replacement?, hvalue, nameSpelling?, hword]
    rw [hlexeme]
    refine ⟨hproper, Takes.word.mono fun _ _ h => ?_⟩
    rw [String.ofList_toList] at h
    exact .written h

lemma inlined_field {field : String} (h : env.FieldPhrase tokens field rest) :
    Inlined env false tokens rest (other.FieldPhrase · field ·) :=
  inlined_name other rfl (fun _ hname =>
    ⟨wordKind_of_isIdentifier hname, isLexeme_of_isIdentifier hname⟩) h

lemma inlined_entity {entity : String} (h : env.EntityPhrase tokens entity rest) :
    Inlined env false tokens rest (other.EntityPhrase · entity ·) :=
  inlined_name other rfl (fun _ hname =>
    ⟨wordKind_of_isEntityIdentifier hname, isLexeme_of_isEntityIdentifier hname⟩) h

lemma inlined_fieldPath {path : List String} (h : env.FieldPathPhrase tokens path rest) :
    Inlined env false tokens rest (other.FieldPathPhrase · path ·) := by
  obtain ⟨h⟩ := h
  exact (separated h rfl fun _ _ _ => inlined_field other).mono fun _ _ => .intro

lemma inlined_primary {value : Value} (h : env.PrimaryPhrase tokens value rest) :
    Inlined env true tokens rest (other.PrimaryPhrase · value ·) := by
  cases h with
  | string _ hkind =>
    refine plain (by rw [hkind]; rfl) fun again hagain himage rest => ?_
    rw [← himage]
    exact .string rest (hagain.trans hkind)
  | number _ hkind hvalue =>
    refine plain (by rw [hkind]; rfl) fun again hagain himage rest => ?_
    refine .number rest (hagain.trans hkind) ?_
    rw [← hvalue, Token.text, Token.text, himage]
  | word h => exact (word rfl h).mono fun _ _ => .word
  | entityWord h => exact (word rfl h).mono fun _ _ => .entityWord
  | @resolved _ _ name _ h hvalue =>
    refine single h.terms_eq fun hready => ?_
    obtain ⟨found, hfound, hspelling⟩ := hready
    obtain rfl : value = found := Except.ok.inj (hvalue.symm.trans hfound)
    obtain ⟨lexeme, hlexeme⟩ := Option.isSome_iff_exists.mp hspelling
    have hterm : (Term.var true name).lexeme env = lexeme := by
      simp [Term.lexeme, replacement?, hvalue, hlexeme]
    rw [hterm]
    exact ⟨isLexeme_of_spelling? hlexeme, .primary other hlexeme⟩

/-! ### Conditions and filters -/

lemma inlined_operand {value : Value} (h : env.OperandPhrase tokens value rest) :
    Inlined env true tokens rest (other.OperandPhrase · value ·) := by
  cases h with
  | true h => exact (word rfl h).mono fun _ _ => .true
  | false h => exact (word rfl h).mono fun _ _ => .false
  | primary h => exact (inlined_primary other h).mono fun _ _ => .primary

lemma inlined_condition {condition : Condition} (h : env.ConditionPhrase tokens condition rest) :
    Inlined env false tokens rest (other.ConditionPhrase · condition ·) := by
  cases h with
  | compare hcomparison hoperand =>
    refine (behind ?_ (inlined_operand other hoperand)).mono fun _ _ h => ?_
    · rw [hcomparison]
      rfl
    · obtain ⟨hkind, hoperand⟩ := h
      exact .compare (hkind ▸ hcomparison) hoperand
  | isNull hequals hnull =>
    refine (behind ?_ (word rfl hnull)).mono fun _ _ h => ?_
    · rw [hequals]
      rfl
    · obtain ⟨hkind, hnull⟩ := h
      exact .isNull (hkind.trans hequals) hnull
  | isNotNull hdiffers hnull =>
    refine (behind ?_ (word rfl hnull)).mono fun _ _ h => ?_
    · rw [hdiffers]
      rfl
    · obtain ⟨hkind, hnull⟩ := h
      exact .isNotNull (hkind.trans hdiffers) hnull

lemma inlined_fieldWhere {filter : Filter} (h : env.FieldWherePhrase tokens filter rest) :
    Inlined env false tokens rest (other.FieldWherePhrase · filter ·) := by
  obtain ⟨hpath, hcondition⟩ := h
  exact (inlined_fieldPath other hpath).andThen (inlined_condition other hcondition)
    fun _ _ _ => .intro

lemma inlined_negation {filter : Filter} (h : env.NegationPhrase tokens filter rest) :
    Inlined env false tokens rest (other.NegationPhrase · filter ·) := by
  cases h with
  | plain h => exact (inlined_fieldWhere other h).mono fun _ _ => .plain
  | negated h => exact (after h rfl fun _ _ _ => inlined_fieldWhere other).mono fun _ _ => .negated

lemma inlined_conjunction {filter : Filter} (h : env.ConjunctionPhrase tokens filter rest) :
    Inlined env false tokens rest (other.ConjunctionPhrase · filter ·) := by
  obtain ⟨h⟩ := h
  exact (separated h rfl fun _ _ _ => inlined_negation other).mono fun _ _ => .intro

lemma inlined_disjunction {filter : Filter} (h : env.DisjunctionPhrase tokens filter rest) :
    Inlined env false tokens rest (other.DisjunctionPhrase · filter ·) := by
  obtain ⟨h⟩ := h
  exact (separated h rfl fun _ _ _ => inlined_conjunction other).mono fun _ _ => .intro

lemma inlined_clause {filter : Filter} (h : env.ClausePhrase tokens filter rest) :
    Inlined env false tokens rest (other.ClausePhrase · filter ·) :=
  enclosed h rfl rfl fun _ _ _ => inlined_disjunction other

lemma inlined_filter {filter : Filter} (h : env.FilterPhrase tokens filter rest) :
    Inlined env false tokens rest (other.FilterPhrase · filter ·) := by
  obtain ⟨hclause, hothers⟩ := h
  exact (inlined_clause other hclause).andThen (many hothers fun _ _ _ => inlined_clause other)
    fun _ _ _ => .intro

/-! ### Unique wheres and paths -/

lemma inlined_leaf {leaf : List String × Value} (h : env.LeafPhrase tokens leaf rest) :
    Inlined env false tokens rest (other.LeafPhrase · leaf ·) := by
  obtain ⟨hpath, hequals, hvalue⟩ := h
  have hassigned := behind (by rw [hequals]; rfl) (inlined_primary other hvalue)
  refine (inlined_fieldPath other hpath).andThen hassigned fun _ _ _ hpath h => ?_
  obtain ⟨hkind, hvalue⟩ := h
  exact .intro hpath (hkind.trans hequals) hvalue

lemma inlined_uniqueWhere {which : UniqueWhere} (h : env.UniqueWherePhrase tokens which rest) :
    Inlined env false tokens rest (other.UniqueWherePhrase · which ·) := by
  obtain ⟨h, hpaths⟩ := h
  exact (enclosed h rfl rfl fun _ _ _ h => separated h rfl fun _ _ _ => inlined_leaf other).mono
    fun _ _ h => .intro h hpaths

lemma inlined_step {step : Step Filter UniqueWhere} (h : env.StepPhrase tokens step rest) :
    Inlined env false tokens rest (other.StepPhrase · step ·) := by
  obtain ⟨hfield, hreducedBy, hfilter⟩ := h
  have hreduced := optional hreducedBy fun _ _ _ => inlined_uniqueWhere other
  have hfiltered := optional hfilter fun _ _ _ => inlined_filter other
  exact (inlined_field other hfield).andThen (hreduced.followedBy hfiltered)
    fun _ _ _ hfield ⟨_, hreduced, hfiltered⟩ => .intro hfield hreduced hfiltered

lemma inlined_steps {steps : List (Step Filter UniqueWhere)}
    (h : env.StepsPhrase tokens steps rest) :
    Inlined env false tokens rest (other.StepsPhrase · steps ·) := by
  obtain ⟨h⟩ := h
  exact (separated h rfl fun _ _ _ => inlined_step other).mono fun _ _ => .intro

lemma inlined_tail {path : List (Step Filter UniqueWhere)} (h : env.TailPhrase tokens path rest) :
    Inlined env false tokens rest (other.TailPhrase · path ·) :=
  many h fun _ _ _ h => after h rfl fun _ _ _ => inlined_step other

lemma inlined_relativeField {relative : RelativeField Filter UniqueWhere}
    (h : env.RelativeFieldPhrase tokens relative rest) :
    Inlined env false tokens rest (other.RelativeFieldPhrase · relative ·) := by
  obtain ⟨h⟩ := h
  exact (inlined_steps other h).mono fun _ _ => .intro

lemma inlined_relativeList {relative : RelativeList Filter UniqueWhere}
    (h : env.RelativeListPhrase tokens relative rest) :
    Inlined env false tokens rest (other.RelativeListPhrase · relative ·) := by
  obtain ⟨h⟩ := h
  exact (inlined_steps other h).mono fun _ _ => .intro

/-! ### Entities and orders -/

lemma inlined_entityList {list : EntityList Filter UniqueWhere}
    (h : env.EntityListPhrase tokens list rest) :
    Inlined env false tokens rest (other.EntityListPhrase · list ·) := by
  obtain ⟨hentity, hfilter, hpath⟩ := h
  have hfiltered := optional hfilter fun _ _ _ => inlined_filter other
  exact (inlined_entity other hentity).andThen (hfiltered.followedBy (inlined_tail other hpath))
    fun _ _ _ hentity ⟨_, hfiltered, hpath⟩ => .intro hentity hfiltered hpath

lemma inlined_fieldList {list : FieldList Filter UniqueWhere}
    (h : env.FieldListPhrase tokens list rest) :
    Inlined env false tokens rest (other.FieldListPhrase · list ·) := by
  obtain ⟨hentity, hfilter, hrelative⟩ := h
  have hfiltered := optional hfilter fun _ _ _ => inlined_filter other
  have hfield := after hrelative rfl fun _ _ _ => inlined_relativeField other
  exact (inlined_entity other hentity).andThen (hfiltered.followedBy hfield)
    fun _ _ _ hentity ⟨_, hfiltered, hfield⟩ => .intro hentity hfiltered hfield

lemma inlined_singleEntity {single : SingleEntity Filter UniqueWhere}
    (h : env.SingleEntityPhrase tokens single rest) :
    Inlined env false tokens rest (other.SingleEntityPhrase · single ·) := by
  obtain ⟨hentity, hwhich, hfilter, hpath⟩ := h
  have hfiltered := optional hfilter fun _ _ _ => inlined_filter other
  have hbehind := (inlined_uniqueWhere other hwhich).followedBy
    (hfiltered.followedBy (inlined_tail other hpath))
  exact (inlined_entity other hentity).andThen hbehind
    fun _ _ _ hentity ⟨_, hwhich, _, hfiltered, hpath⟩ => .intro hentity hwhich hfiltered hpath

lemma inlined_unfilteredList {list : UnfilteredList Filter UniqueWhere}
    (h : env.UnfilteredListPhrase tokens list rest) :
    Inlined env false tokens rest (other.UnfilteredListPhrase · list ·) := by
  obtain ⟨hentity, hpath⟩ := h
  exact (inlined_entity other hentity).andThen (inlined_tail other hpath) fun _ _ _ => .intro

lemma inlined_orderTerm {term : OrderTerm} (h : env.OrderTermPhrase tokens term rest) :
    Inlined env false tokens rest (other.OrderTermPhrase · term ·) := by
  cases h with
  | implicit hpath => exact (inlined_fieldPath other hpath).mono fun _ _ => .implicit
  | ascending hpath hdirection =>
    exact (inlined_fieldPath other hpath).andThen (word rfl hdirection) fun _ _ _ => .ascending
  | descending hpath hdirection =>
    exact (inlined_fieldPath other hpath).andThen (word rfl hdirection) fun _ _ _ => .descending

lemma inlined_orderBy {order : OrderBy} (h : env.OrderByPhrase tokens order rest) :
    Inlined env false tokens rest (other.OrderByPhrase · order ·) := by
  obtain ⟨h⟩ := h
  exact (separated h rfl fun _ _ _ => inlined_orderTerm other).mono fun _ _ => .intro

end Environment

/-! ### Whole texts -/

lemma EntryPoint.inlined_derives {env : Environment} (other : Environment) {entry : EntryPoint}
    {tokens rest : List Token} {tree : entry.Tree} (h : entry.Derives env tokens tree rest) :
    Inlined env false tokens rest (entry.Derives other · tree ·) := by
  cases entry with
  | qualifiedEntityList => exact Environment.inlined_entityList other h
  | qualifiedFieldList => exact Environment.inlined_fieldList other h
  | qualifiedSingleEntity => exact Environment.inlined_singleEntity other h
  | unconstrainedQualifiedEntityList => exact Environment.inlined_unfilteredList other h
  | relativeSingleField => exact Environment.inlined_relativeField other h
  | relativeSingleEntity => exact Environment.inlined_steps other h
  | relativeEntityList => exact Environment.inlined_relativeList other h
  | uniqueWhere => exact Environment.inlined_uniqueWhere other h
  | filter => exact Environment.inlined_filter other h
  | orderBy => exact Environment.inlined_orderBy other h

lemma mem_of_token_mem_terms {compared : Bool} {tokens : List Token} {token : Token}
    (h : .token token ∈ terms compared tokens) : token ∈ tokens := by
  induction compared, tokens using terms.induct with
  | case1 => cases h
  | case2 => simpa [terms] using h
  | case3 compared first word rest hvariable ih =>
    rw [terms, if_pos hvariable] at h
    have hrest : .token token ∈ terms false rest := by simpa using h
    exact List.mem_cons_of_mem _ (List.mem_cons_of_mem _ (ih hrest))
  | case4 compared first word rest hvariable ih =>
    rw [terms, if_neg hvariable] at h
    obtain heq | h := List.mem_cons.mp h
    · obtain rfl := Term.token.inj heq
      exact List.mem_cons_self
    · exact List.mem_cons_of_mem _ (ih h)

namespace Environment

lemma Spells.ready {env : Environment} {text : String} (h : env.Spells text) :
    ∀ term ∈ terms false (tokenize text.toList).tokens, term.Ready env := by
  intro term hterm
  cases term with
  | token token => exact isLexeme_of_mem_tokenize (mem_of_token_mem_terms hterm)
  | var compared name =>
    cases compared with
    | true => exact h name (List.mem_filterMap.mpr ⟨_, hterm, rfl⟩)
    | false => trivial

/-- A name hides a dimension, and a dimension counts when it holds exactly one value. -/
lemma resolve_eq_ok_iff {env : Environment} {name : String} {value : Value} :
    env.resolve name = .ok value ↔ env.names.find? name = some value ∨
      env.names.find? name = none ∧ env.dimensions.find? name = some [value] := by
  unfold resolve
  split <;> simp_all

/-- A text without its variables is read as what it was read as before, in any environment. -/
theorem parse_inlined {env : Environment} {entry : EntryPoint} {text : String} {tree : entry.Tree}
    (h : parse env entry text = .ok tree) (hspells : env.Spells text) (other : Environment) :
    parse other entry (env.inlined text) = .ok tree ∧
      ∀ name value, env.resolve name = .ok value ↔ env.names.find? name = some value ∨
        env.names.find? name = none ∧ env.dimensions.find? name = some [value] := by
  refine ⟨?_, fun _ _ => resolve_eq_ok_iff⟩
  obtain ⟨-, hderives⟩ := (parse_eq_ok_iff ..).mp h
  obtain ⟨front, hterms, hlexemes, htakes⟩ :=
    EntryPoint.inlined_derives other hderives hspells.ready
  have hfront : terms false (tokenize text.toList).tokens = front := by simpa [terms] using hterms
  have hcut : CutInto (env.inlined text).toList (front.map (Term.lexeme env)) := by
    rw [inlined, String.toList_ofList, hfront]
    have hwritten := cutInto_intercalate (List.forall_mem_map.mpr hlexemes)
    rwa [List.map_map] at hwritten
  obtain ⟨hmatched, htokens⟩ := hcut
  have hread := htakes _ [] htokens
  rw [List.append_nil] at hread
  exact (parse_eq_ok_iff ..).mpr ⟨hmatched, hread⟩

/-- A dimension of a single field, and a name that hides a dimension of two values. -/
def readers : Environment where
  names := [("word", .string "it's")]
  dimensions := [("key", [.string "name"]), ("word", [.null, .null])]

theorem parse_inlined_readers :
    parse readers .filter "[$key!=$word]" =
        .ok (Filter.atPath (.compare .notEqual (.string "it's")) ["name"]) ∧
      readers.Spells "[$key!=$word]" ∧
      readers.inlined "[$key!=$word]" = "[ name != 'it\\'s' ]" ∧
      parse .empty .filter (readers.inlined "[$key!=$word]") =
        .ok (Filter.atPath (.compare .notEqual (.string "it's")) ["name"]) ∧
      readers.resolve "word" = .ok (.string "it's") := by
  have hparse : parse readers .filter "[$key!=$word]" =
      .ok (Filter.atPath (.compare .notEqual (.string "it's")) ["name"]) := by
    with_unfolding_all rfl
  have hvariables : comparedVariables "[$key!=$word]" = ["word"] := by
    with_unfolding_all rfl
  have hspells : readers.Spells "[$key!=$word]" := by
    rw [Spells, hvariables]
    simp [readers, resolve, Table.find?, spelling?]
  have hinlined : readers.inlined "[$key!=$word]" = "[ name != 'it\\'s' ]" := by
    with_unfolding_all rfl
  obtain ⟨hread, hresolve⟩ := parse_inlined hparse hspells .empty
  exact ⟨hparse, hspells, hinlined, hread, (hresolve "word" (.string "it's")).mpr (.inl rfl)⟩

end Environment

end EntityGraph.Language

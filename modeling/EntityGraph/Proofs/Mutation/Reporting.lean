import EntityGraph.Mutation.Collect
import EntityGraph.Proofs.Program.Calls
import Mathlib.Data.Set.Basic
/-!
# What becomes of failed statements

A part of a mutation logs the statements that it sent, each with its answer. An error that violates
no constraint is fatal to every part that meets it. A violated constraint is told of by a result as
long as nothing is sent after it; a part may come to it as a failure that still is a result.
-/
namespace EntityGraph

/-- The error that a statement was answered with. -/
def Program.Exchange.error? : Program.Exchange Effect → Option Database.Error
  | ⟨.query _, .error e⟩ => some e
  | ⟨.execute _, .error e⟩ => some e
  | ⟨.command _, .error e⟩ => some e
  | _ => none

namespace Mutation

/-- The constraint that an error reports as violated. -/
def violation? (e : Database.Error) : Option ConstraintKind :=
  match e.fault with
  | .uniqueViolation _ => some .uniqueKey
  | .nullViolation _ => some .notNull
  | .foreignKeyViolation _ => some .foreignKey
  | _ => none

namespace Failure

lemma outcome?_database (e : Database.Error) :
    (database e).outcome? = (violation? e).map .violation := by
  rw [outcome?, violation?]
  cases e.fault <;> rfl

/-- The failure is no error that the server reported. -/
def isLocal : Failure → Bool
  | database e => e.code.isNone
  | _ => true

end Failure

/-! ### Logs -/

/-- The statements that were sent, with their answers. -/
abbrev Log := List (Program.Exchange Effect)

namespace Log

/-- No statement failed. -/
def Smooth (log : Log) : Prop := ∀ exchange ∈ log, exchange.error? = none

/-- The last statement violated a constraint, and no other one failed. -/
def Violates (log : Log) (kind : ConstraintKind) : Prop :=
  ∃ before last e, log = before ++ [last] ∧ Smooth before ∧ last.error? = some e ∧
    violation? e = some kind

/-- A statement failed for another reason. -/
def Broken (log : Log) : Prop :=
  ∃ exchange ∈ log, ∃ e, exchange.error? = some e ∧ violation? e = none

/-- At most the last statement failed, and then it violated a constraint. -/
def Orderly (log : Log) : Prop := Smooth log ∨ ∃ kind, Violates log kind

variable {log more : Log} {kind : ConstraintKind}

@[simp] lemma smooth_nil : Smooth [] := by simp [Smooth]

@[simp] lemma not_broken_nil : ¬ Broken [] := by simp [Broken]

@[simp] lemma not_violates_nil : ¬ Violates [] kind := by simp [Violates]

lemma orderly_nil : Orderly [] := .inl smooth_nil

lemma smooth_append : Smooth (log ++ more) ↔ Smooth log ∧ Smooth more := List.forall_mem_append

lemma broken_append : Broken (log ++ more) ↔ Broken log ∨ Broken more := by
  simp only [Broken, List.mem_append, or_and_right, exists_or]

/-- Nothing is sent after the statement that violated the constraint. -/
lemma violates_append :
    Violates (log ++ more) kind ↔
      (Violates log kind ∧ more = []) ∨ (Smooth log ∧ Violates more kind) := by
  constructor
  · rintro ⟨before, last, e, heq, hbefore, hlast, hkind⟩
    obtain rfl | ⟨init, final, rfl⟩ := more.eq_nil_or_concat
    · rw [List.append_nil] at heq
      exact .inl ⟨⟨before, last, e, heq, hbefore, hlast, hkind⟩, rfl⟩
    · rw [List.concat_eq_append, ← List.append_assoc] at heq
      obtain ⟨rfl, hfinal⟩ := List.append_inj' heq rfl
      obtain rfl := List.singleton_inj.mp hfinal
      obtain ⟨hlog, hinit⟩ := smooth_append.mp hbefore
      exact .inr ⟨hlog, init, final, e, List.concat_eq_append, hinit, hlast, hkind⟩
  · rintro (⟨hlog, rfl⟩ | ⟨hlog, before, last, e, rfl, hbefore, hlast, hkind⟩)
    · rwa [List.append_nil]
    · exact ⟨log ++ before, last, e, (List.append_assoc ..).symm, smooth_append.mpr ⟨hlog, hbefore⟩,
        hlast, hkind⟩

lemma violates_singleton {exchange : Program.Exchange Effect} :
    Violates [exchange] kind ↔ ∃ e, exchange.error? = some e ∧ violation? e = some kind := by
  constructor
  · rintro ⟨before, last, e, heq, -, hlast, hkind⟩
    cases before with
    | nil =>
      obtain rfl := List.singleton_inj.mp heq
      exact ⟨e, hlast, hkind⟩
    | cons first rest => simp at heq
  · rintro ⟨e, he, hkind⟩
    exact ⟨[], exchange, e, rfl, smooth_nil, he, hkind⟩

lemma Orderly.of_append (h : Orderly (log ++ more)) : Orderly log ∧ Orderly more := by
  obtain h | ⟨kind, h⟩ := h
  · exact ⟨.inl (smooth_append.mp h).1, .inl (smooth_append.mp h).2⟩
  · obtain ⟨hlog, rfl⟩ | ⟨hlog, hmore⟩ := violates_append.mp h
    · exact ⟨.inr ⟨kind, hlog⟩, orderly_nil⟩
    · exact ⟨.inl hlog, .inr ⟨kind, hmore⟩⟩

end Log

/-! ### Reports -/

variable {α β : Type}

/-- The part came to a failure that is no result. -/
def Fatal (result : Except Failure α) : Prop :=
  ∃ failure, result = .error failure ∧ failure.outcome? = none

@[simp] lemma fatal_error {failure : Failure} :
    Fatal (.error failure : Except Failure α) ↔ failure.outcome? = none := by
  simp [Fatal]

@[simp] lemma not_fatal_ok {a : α} : ¬ Fatal (.ok a : Except Failure α) := by
  simp [Fatal]

/-- The part tells of a violation, in what it came to or by failing with it. -/
def Shows (tells : α → Set ConstraintKind) (kind : ConstraintKind) : Except Failure α → Prop
  | .ok a => kind ∈ tells a
  | .error failure => failure.outcome? = some (.violation kind)

/-- How a part accounts for its log. `told` has the violations that are known of before the part,
and `tells` those that are known of after it. -/
structure Reports (told : Set ConstraintKind) (tells : α → Set ConstraintKind) (log : Log)
    (result : Except Failure α) : Prop where
  /-- A failure for another reason than a violation is fatal. -/
  fatal : log.Broken → Fatal result
  /-- Unless such a failure was logged, what is fatal arose on this side of the connection. -/
  isLocal : log.Orderly → ∀ failure, result = .error failure → failure.outcome? = none →
    failure.isLocal
  /-- A violation is told of as long as nothing follows it. -/
  shows : ∀ kind, log.Violates kind → Fatal result ∨ Shows tells kind result
  /-- Without a statement nothing is forgotten. -/
  keeps : log = [] → ∀ kind ∈ told, Fatal result ∨ ∃ a, result = .ok a ∧ kind ∈ tells a

namespace Reports

variable {told : Set ConstraintKind} {tells middle : α → Set ConstraintKind}
  {tells' : β → Set ConstraintKind} {log more : Log}

lemma of_ok {a : α} (h : told ⊆ tells a) : Reports told tells [] (.ok a) where
  fatal h := absurd h Log.not_broken_nil
  isLocal := by rintro _ failure ⟨⟩
  shows kind h := absurd h Log.not_violates_nil
  keeps _ kind hkind := .inr ⟨a, rfl, h hkind⟩

lemma of_error {failure : Failure} (hlocal : failure.isLocal)
    (h : told = ∅ ∨ failure.outcome? = none) : Reports told tells [] (.error failure) where
  fatal h := absurd h Log.not_broken_nil
  isLocal := by
    rintro _ _ ⟨⟩ -
    exact hlocal
  shows kind h := absurd h Log.not_violates_nil
  keeps := by
    rintro - kind hkind
    obtain rfl | hnone := h
    · exact absurd hkind (Set.notMem_empty kind)
    · exact .inl ⟨failure, rfl, hnone⟩

/-- A part goes on from where the one before it ended. -/
lemma bind {a : α} {result : Except Failure β} (h : Reports told middle log (.ok a))
    (hnext : Reports (middle a) tells' more result) : Reports told tells' (log ++ more) result where
  fatal hbroken := by
    obtain hlog | hmore := Log.broken_append.mp hbroken
    · exact absurd (h.fatal hlog) not_fatal_ok
    · exact hnext.fatal hmore
  isLocal horderly := hnext.isLocal horderly.of_append.2
  shows kind hkind := by
    obtain ⟨hlog, rfl⟩ | ⟨-, hmore⟩ := Log.violates_append.mp hkind
    · obtain hfatal | hmem := h.shows kind hlog
      · exact absurd hfatal not_fatal_ok
      · obtain hfatal | ⟨b, rfl, hb⟩ := hnext.keeps rfl kind hmem
        · exact .inl hfatal
        · exact .inr hb
    · exact hnext.shows kind hmore
  keeps hnil kind hkind := by
    obtain ⟨hlog, hmore⟩ := List.append_eq_nil_iff.mp hnil
    obtain hfatal | ⟨b, hb, hmem⟩ := h.keeps hlog kind hkind
    · exact absurd hfatal not_fatal_ok
    · cases hb
      exact hnext.keeps hmore kind hmem

/-- A failure is a failure of every larger part. -/
lemma error {failure : Failure} (h : Reports told tells log (.error failure)) :
    Reports told tells' log (.error failure) where
  fatal hbroken := fatal_error.mpr (fatal_error.mp (h.fatal hbroken))
  isLocal := by
    rintro horderly _ ⟨⟩
    exact h.isLocal horderly failure rfl
  shows kind hkind := (h.shows kind hkind).imp_left fun hfatal =>
    fatal_error.mpr (fatal_error.mp hfatal)
  keeps hnil kind hkind := by
    obtain hfatal | ⟨a, ha, -⟩ := h.keeps hnil kind hkind
    · exact .inl (fatal_error.mpr (fatal_error.mp hfatal))
    · cases ha

/-- What a part tells without forgetting what it was told. -/
lemma frame {result : Except Failure α} (h : Reports ∅ tells log result)
    (hsettled : log = [] → ∀ failure, result = .error failure → failure.outcome? = none) :
    Reports told (fun a => told ∪ tells a) log result where
  fatal := h.fatal
  isLocal := h.isLocal
  shows kind hkind := (h.shows kind hkind).imp_right fun hshows => by
    cases result with
    | ok a => exact .inr hshows
    | error failure => exact hshows
  keeps hnil kind hkind := by
    cases result with
    | ok a => exact .inr ⟨a, rfl, .inl hkind⟩
    | error failure => exact .inl ⟨failure, rfl, hsettled hnil failure rfl⟩

end Reports

/-! ### Actions -/

variable {I : Interface} {C : Contract I (Program.Exchange Effect)} {told : Set ConstraintKind}
  {tells : α → Set ConstraintKind} {action : Action I α} {next : α → Action I β}
  {tells' : β → Set ConstraintKind}

/-- An action asks what the contract permits and accounts for what is logged meanwhile; what it
comes to and what it fails with have the properties. -/
def Ensures (C : Contract I (Program.Exchange Effect)) (told : Set ConstraintKind)
    (tells : α → Set ConstraintKind) (P : α → Prop) (E : Failure → Prop) (action : Action I α) :
    Prop :=
  action.run.Meets C fun log result => Reports told tells log result ∧
    (∀ a, result = .ok a → P a) ∧ ∀ failure, result = .error failure → E failure

/-- An action that accounts for its log; nothing more is said of what it comes to. -/
def Accounts (C : Contract I (Program.Exchange Effect)) (told : Set ConstraintKind)
    (tells : α → Set ConstraintKind) (action : Action I α) : Prop :=
  action.run.Meets C (Reports told tells)

variable {middle : α → Set ConstraintKind} {P : α → Prop} {Q : β → Prop} {E : Failure → Prop}

lemma Accounts.ensures (h : Accounts C told tells action) :
    Ensures C told tells (fun _ => True) (fun _ => True) action :=
  Program.Meets.mono h fun _ _ hreports => ⟨hreports, fun _ _ => trivial, fun _ _ => trivial⟩

namespace Ensures

lemma accounts (h : Ensures C told tells P E action) : Accounts C told tells action :=
  Program.Meets.mono h fun _ _ hresult => hresult.1

lemma pure {a : α} (h : told ⊆ tells a) (ha : P a) : Ensures C told tells P E (Pure.pure a) := by
  refine ⟨Reports.of_ok h, ?_, ?_⟩
  · rintro _ ⟨⟩
    exact ha
  · rintro _ ⟨⟩

/-- The second action may rely on what the first one came to. -/
lemma bind (haction : Ensures C told middle P E action)
    (hnext : ∀ a, P a → Ensures C (middle a) tells' Q E (next a)) :
    Ensures C told tells' Q E (action >>= next) := by
  refine Program.meets_run_bind (Program.Meets.mono haction fun log result hresult => ?_)
  cases result with
  | ok a =>
    exact Program.Meets.mono (hnext a (hresult.2.1 a rfl)) fun more b hb =>
      ⟨hresult.1.bind hb.1, hb.2⟩
  | error failure =>
    refine ⟨hresult.1.error, ?_, ?_⟩
    · rintro _ ⟨⟩
    · rintro _ ⟨⟩
      exact hresult.2.2 failure rfl

lemma bind_accounts (haction : Ensures C told middle P (fun _ => True) action)
    (hnext : ∀ a, P a → Accounts C (middle a) tells' (next a)) :
    Accounts C told tells' (action >>= next) :=
  (haction.bind fun a ha => (hnext a ha).ensures).accounts

end Ensures

/-- Whatever the outcome fails with was found on this side of the connection, and is fatal. -/
def Refuses (outcome : Except Failure α) : Prop :=
  ∀ failure, outcome = .error failure → failure.isLocal ∧ failure.outcome? = none

namespace Refuses

lemma ok {a : α} : Refuses (.ok a : Except Failure α) := by
  rintro _ ⟨⟩

lemma schema (outcome : Except SchemaError α) : Refuses (outcome.mapError .schema) := by
  cases outcome with
  | ok a => exact .ok
  | error e =>
    rintro _ ⟨⟩
    exact ⟨rfl, rfl⟩

/-- What the server answered cannot be used. -/
lemma database {outcome : Except Database.Error α}
    (h : ∀ e, outcome = .error e → e.code = none ∧ violation? e = none) :
    Refuses (outcome.mapError .database) := by
  cases outcome with
  | ok a => exact .ok
  | error e =>
    rintro _ ⟨⟩
    obtain ⟨hcode, hnone⟩ := h e rfl
    exact ⟨by rw [Failure.isLocal, hcode]; rfl, by rw [Failure.outcome?_database, hnone]; rfl⟩

lemma bind {outcome : Except Failure α} {next : α → Except Failure β} (h : Refuses outcome)
    (hnext : ∀ a, outcome = .ok a → Refuses (next a)) : Refuses (outcome >>= next) := by
  cases outcome with
  | ok a => exact hnext a rfl
  | error failure =>
    rintro _ ⟨⟩
    exact h failure rfl

end Refuses

/-- What fails before a statement is sent fails the action. -/
lemma Ensures.liftExcept_bind {outcome : Except Failure α} (h : Refuses outcome)
    (hE : ∀ failure, failure.outcome? = none → E failure)
    (hnext : ∀ a, outcome = .ok a → Ensures C told tells' Q E (next a)) :
    Ensures C told tells' Q E (Mutation.liftExcept outcome >>= next) := by
  cases outcome with
  | ok a => exact hnext a rfl
  | error failure =>
    obtain ⟨hlocal, hnone⟩ := h failure rfl
    refine ⟨.of_error hlocal (.inr hnone), ?_, ?_⟩
    · rintro _ ⟨⟩
    · rintro _ ⟨⟩
      exact hE failure hnone

namespace Accounts

lemma pure {a : α} (h : told ⊆ tells a) : Accounts C told tells (Pure.pure a) := Reports.of_ok h

lemma note (event : Event) :
    Accounts C told (fun _ => told) (Mutation.note event : Action I Unit) :=
  Reports.of_ok subset_rfl

lemma bind (haction : Accounts C told middle action)
    (hnext : ∀ a, Accounts C (middle a) tells' (next a)) :
    Accounts C told tells' (action >>= next) :=
  haction.ensures.bind_accounts fun a _ => hnext a

lemma ite {condition : Prop} [Decidable condition] {other : Action I α}
    (haction : Accounts C told tells action) (hother : Accounts C told tells other) :
    Accounts C told tells (if condition then action else other) := by
  split
  · exact haction
  · exact hother

lemma liftExcept {outcome : Except Failure α} (h : Refuses outcome) :
    Accounts C told (fun _ => told) (Mutation.liftExcept outcome) := by
  cases outcome with
  | ok a => exact Reports.of_ok subset_rfl
  | error failure => exact .of_error (h failure rfl).1 (.inr (h failure rfl).2)

lemma liftExcept_bind {outcome : Except Failure α} (h : Refuses outcome)
    (hnext : ∀ a, outcome = .ok a → Accounts C told tells' (next a)) :
    Accounts C told tells' (Mutation.liftExcept outcome >>= next) :=
  (Ensures.liftExcept_bind h (fun _ _ => trivial) fun a ha => (hnext a ha).ensures).accounts

end Accounts

end Mutation

end EntityGraph

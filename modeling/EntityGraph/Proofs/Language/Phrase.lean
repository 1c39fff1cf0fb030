import EntityGraph.Language.Token
import Mathlib.Tactic.Common
/-!
# Phrases

A phrase says what may stand at the front of a list of tokens, what that is read as, and which
tokens are left. It leaves open how it is found, and there may be several ways to read the same
tokens.
-/
namespace EntityGraph.Language

/-- What may stand at the front of some tokens, and the tokens behind it. -/
abbrev Phrase (α : Type) := List Token → α → List Token → Prop

variable {α β : Type} {tokens rest : List Token}

namespace Phrase

variable {item : Phrase α}

/-- A token of the kind, read as its text. -/
inductive Word (kind : TokenKind) : Phrase String
  | intro {token : Token} (rest : List Token) (hkind : token.kind = kind) :
      Word kind (token :: rest) token.text rest

/-- A token of the kind, and then the item. -/
inductive After (kind : TokenKind) (item : Phrase α) : Phrase α
  | intro {token : Token} {tokens rest : List Token} {a : α} (hkind : token.kind = kind)
      (hitem : item tokens a rest) : After kind item (token :: tokens) a rest

/-- The item between two tokens of the kinds. -/
inductive Enclosed (opening closing : TokenKind) (item : Phrase α) : Phrase α
  | intro {first last : Token} {tokens rest : List Token} {a : α} (hopening : first.kind = opening)
      (hitem : item tokens a (last :: rest)) (hclosing : last.kind = closing) :
      Enclosed opening closing item (first :: tokens) a rest

inductive Optional (item : Phrase α) : Phrase (Option α)
  | absent (tokens : List Token) : Optional item tokens none tokens
  | present {tokens rest : List Token} {a : α} (hitem : item tokens a rest) :
      Optional item tokens (some a) rest

/-- Any number of items, one after the other. -/
inductive Many (item : Phrase α) : Phrase (List α)
  | nil (tokens : List Token) : Many item tokens [] tokens
  | cons {tokens middle rest : List Token} {a : α} {others : List α}
      (hitem : item tokens a middle) (hothers : Many item middle others rest) :
      Many item tokens (a :: others) rest

/-- One item at least, and a separator between every two. -/
inductive Separated (separator : TokenKind) (item : Phrase α) : Phrase (α × List α)
  | intro {tokens middle rest : List Token} {a : α} {others : List α}
      (hitem : item tokens a middle) (hothers : Many (After separator item) middle others rest) :
      Separated separator item tokens (a, others) rest

variable {another : Phrase α} {kind : TokenKind} {a : α} {items : List α}

lemma Many.mono (hitem : ∀ tokens a rest, item tokens a rest → another tokens a rest)
    (h : Many item tokens items rest) : Many another tokens items rest := by
  induction h with
  | nil => exact .nil _
  | cons h _ ih => exact .cons (hitem _ _ _ h) ih

lemma Many.forall_mem {P : α → Prop} (hitem : ∀ tokens a rest, item tokens a rest → P a)
    (h : Many item tokens items rest) : ∀ a ∈ items, P a := by
  induction h with
  | nil => simp
  | cons h _ ih => exact List.forall_mem_cons.mpr ⟨hitem _ _ _ h, ih⟩

/-- The phrase is not empty, and begins with a token of one of the kinds. -/
def Begins (item : Phrase α) (kinds : List TokenKind) : Prop :=
  ∀ tokens a rest, item tokens a rest → ∃ token ∈ tokens.head?, token.kind ∈ kinds

lemma begins_word (kind : TokenKind) : (Word kind).Begins [kind] := by
  rintro _ _ _ ⟨rest, hkind⟩
  exact ⟨_, rfl, by simpa using hkind⟩

lemma begins_after (kind : TokenKind) (item : Phrase α) : (After kind item).Begins [kind] := by
  rintro _ _ _ ⟨hkind, -⟩
  exact ⟨_, rfl, by simpa using hkind⟩

lemma begins_enclosed (opening closing : TokenKind) (item : Phrase α) :
    (Enclosed opening closing item).Begins [opening] := by
  rintro _ _ _ ⟨hopening, -, -⟩
  exact ⟨_, rfl, by simpa using hopening⟩

lemma Begins.mono {item : Phrase α} {kinds others : List TokenKind} (h : item.Begins kinds)
    (hsubset : kinds ⊆ others) : item.Begins others := by
  intro tokens a rest hitem
  obtain ⟨token, htoken, hkind⟩ := h tokens a rest hitem
  exact ⟨token, htoken, hsubset hkind⟩

lemma Begins.map {item : Phrase α} {kinds : List TokenKind} (h : item.Begins kinds) (f : α → β) :
    Phrase.Begins (fun tokens b rest => ∃ a, item tokens a rest ∧ b = f a) kinds := by
  rintro tokens _ rest ⟨a, hitem, -⟩
  exact h tokens a rest hitem

end Phrase

/-- The next token is of none of the kinds. -/
def Free (kinds : List TokenKind) (tokens : List Token) : Prop :=
  ∀ token ∈ tokens.head?, token.kind ∉ kinds

@[simp] lemma free_nil (kinds : List TokenKind) : Free kinds [] := by simp [Free]

@[simp] lemma free_none (tokens : List Token) : Free [] tokens := by simp [Free]

lemma free_cons {kinds : List TokenKind} {token : Token} :
    Free kinds (token :: rest) ↔ token.kind ∉ kinds := by simp [Free]

lemma Free.mono {kinds others : List TokenKind} (h : Free kinds tokens) (hsubset : others ⊆ kinds) :
    Free others tokens := fun token hmem hkind => h token hmem (hsubset hkind)

lemma Phrase.Begins.free {item : Phrase α} {kinds others : List TokenKind} {a : α}
    (h : item.Begins kinds) (hitem : item tokens a rest)
    (hdisjoint : ∀ kind ∈ kinds, kind ∉ others) : Free others tokens := by
  intro token hmem
  obtain ⟨first, hfirst, hkind⟩ := h tokens a rest hitem
  obtain rfl := Option.some.inj (hfirst.symm.trans hmem)
  exact hdisjoint _ hkind

/-- An optional phrase that is absent leaves the next token to what follows. -/
lemma Phrase.Optional.free {item : Phrase α} {kinds others : List TokenKind} {a : Option α}
    (hitem : Phrase.Optional item tokens a rest) (h : item.Begins kinds)
    (hdisjoint : ∀ kind ∈ kinds, kind ∉ others) (hrest : Free others rest) :
    Free others tokens := by
  cases hitem with
  | absent => exact hrest
  | present hitem => exact h.free hitem hdisjoint

end EntityGraph.Language

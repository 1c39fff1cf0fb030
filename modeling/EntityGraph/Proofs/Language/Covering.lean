import EntityGraph.Proofs.Language.Literals
import Mathlib.Data.List.Pairwise
/-!
# Tokens and errors cover a text

Nothing of a text is lost and nothing is reported twice: between the tokens and the errors, which
lie apart from each other in the order of the text, there are blanks only. An error is a whole run
of characters that begin no token; it goes over blanks only behind a quote that nothing closes.
-/
namespace EntityGraph.Language

/-! ### Statement -/

/-- The first byte behind the unmatched characters. -/
def Unmatched.stop (error : Unmatched) : ℕ := error.start + byteLength error.text

/-- The text has this part between two bytes, each of them at the boundary of a character. -/
def IsSlice (text : List Char) (start stop : ℕ) (part : List Char) : Prop :=
  ∃ before after, text = before ++ part ++ after ∧ byteLength before = start ∧
    byteLength (before ++ part) = stop

/-- Characters that neither separate nor open a string. -/
def Solid (text : List Char) : Prop := ∀ c ∈ text, Text.isBlank c = false ∧ c ≠ '\''

/-- Characters in front of `rest` of which none begins a token. A quote that nothing closes takes
all that follows it. -/
inductive Unread : List Char → List Char → Prop
  | nil (rest : List Char) : Unread [] rest
  | cons {c : Char} {text rest : List Char} (hblank : Text.isBlank c = false) (hquote : c ≠ '\'')
      (hread : lexeme? c (text ++ rest) = none) (h : Unread text rest) : Unread (c :: text) rest
  | unclosed {text : List Char} (h : Unclosed text) : Unread ('\'' :: text) []

/-- Whether a byte belongs to a token or to an error. -/
def Lexed.Holds (lexed : Lexed) (byte : ℕ) : Prop :=
  (∃ token ∈ lexed.tokens, token.start ≤ byte ∧ byte < token.stop) ∨
    ∃ error ∈ lexed.errors, error.start ≤ byte ∧ byte < error.stop

/-- How the tokens and the errors of a text lie in it. -/
structure Lexed.Covers (lexed : Lexed) (text : List Char) : Prop where
  token_slice : ∀ token ∈ lexed.tokens,
    token.start < token.stop ∧ IsSlice text token.start token.stop token.image
  error_slice : ∀ error ∈ lexed.errors,
    error.start < error.stop ∧ IsSlice text error.start error.stop error.text
  tokens_ordered : lexed.tokens.Pairwise fun first second => first.stop ≤ second.start
  errors_apart : lexed.errors.Pairwise fun first second => first.stop < second.start
  tokens_beside_errors : ∀ token ∈ lexed.tokens, ∀ error ∈ lexed.errors,
    token.stop ≤ error.start ∨ error.stop ≤ token.start
  blank_outside : ∀ before c after, text = before ++ c :: after →
    ¬ lexed.Holds (byteLength before) → Text.isBlank c
  error_solid : ∀ error ∈ lexed.errors, Solid error.text ∨ ∃ front content,
    error.text = front ++ '\'' :: content ∧ Solid front ∧ Unclosed content ∧
      error.stop = byteLength text
  token_read : ∀ token ∈ lexed.tokens, ∃ before c tail after,
    text = before ++ c :: (tail ++ after) ∧ byteLength before = token.start ∧
      token.image = c :: tail ∧ lexeme? c (tail ++ after) = some (token.kind, tail.length)
  error_unread : ∀ error ∈ lexed.errors, ∃ before after,
    text = before ++ (error.text ++ after) ∧ byteLength before = error.start ∧
      Unread error.text after

/-! ### Bytes -/

lemma byteLength_pos {text : List Char} (h : text ≠ []) : 0 < byteLength text := by
  obtain ⟨c, rest, rfl⟩ := List.exists_cons_of_ne_nil h
  exact Nat.add_pos_left c.utf8Size_pos _

/-! ### Pieces -/

/-- The pieces of a text, all characters of a run that begin no token being one piece. -/
inductive Cut : List Char → List Piece → Prop
  | nil : Cut [] []
  | blank {c : Char} {rest : List Char} {ps : List Piece} (hblank : Text.isBlank c)
      (hrest : Cut rest ps) : Cut (c :: rest) (.blank c :: ps)
  | token {kind : TokenKind} {c : Char} {tail rest : List Char} {ps : List Piece}
      (hread : lexeme? c (tail ++ rest) = some (kind, tail.length)) (hrest : Cut rest ps) :
      Cut (c :: (tail ++ rest)) (.token kind (c :: tail) :: ps)
  | unmatched {text rest : List Char} {ps : List Piece} (hne : text ≠ [])
      (hunread : Unread text rest) (hnext : ∀ piece ∈ ps.head?, piece.IsMatched)
      (hrest : Cut rest ps) : Cut (text ++ rest) (.unmatched text :: ps)

namespace Cut

variable {text rest : List Char} {ps : List Piece}

/-- One more character that begins no token joins the run behind it. -/
lemma joinUnmatched_cons {c : Char} (hblank : Text.isBlank c = false) (hquote : c ≠ '\'')
    (hread : lexeme? c rest = none) (h : Cut rest (joinUnmatched ps)) :
    Cut (c :: rest) (joinUnmatched (.unmatched [c] :: ps)) := by
  have halone : Unread [c] rest := .cons hblank hquote hread (.nil _)
  rw [joinUnmatched]
  generalize joinUnmatched ps = joined at h
  cases h with
  | nil => exact .unmatched (by simp) halone (by simp) .nil
  | blank hc hrest =>
    exact .unmatched (by simp) halone (by simp [Piece.IsMatched]) (.blank hc hrest)
  | token htoken hrest =>
    exact .unmatched (by simp) halone (by simp [Piece.IsMatched]) (.token htoken hrest)
  | @unmatched more behind _ hne hunread hnext hrest =>
    have hrun : Unread (c :: more) behind := .cons hblank hquote hread hunread
    exact .unmatched (List.cons_ne_nil c more) hrun hnext hrest

end Cut

/-- What the scanner cuts off, piece by piece, with neighbouring errors joined. -/
lemma cut_joinUnmatched_pieces (text : List Char) : Cut text (joinUnmatched (pieces text)) := by
  fun_induction pieces text with
  | case1 => exact .nil
  | case2 c rest hblank ih => exact .blank hblank ih
  | case3 c rest hblank kind extra hread ih =>
    obtain ⟨hle, -⟩ := lexeme?_take_append hread (ends_nil kind)
    have hcut : Cut (c :: (rest.take extra ++ rest.drop extra)) (.token kind (c :: rest.take extra)
        :: joinUnmatched (pieces (rest.drop extra))) := by
      refine .token ?_ ih
      rw [List.take_append_drop, hread, List.length_take, Nat.min_eq_left hle]
    rwa [List.take_append_drop] at hcut
  | case4 rest hblank hread =>
    have hunclosed : Unclosed rest := by simpa [lexeme?, stringLength?_eq_none_iff] using hread
    have hcut : Cut ('\'' :: rest ++ []) [.unmatched ('\'' :: rest)] :=
      .unmatched (by simp) (.unclosed hunclosed) (by simp) .nil
    rwa [List.append_nil] at hcut
  | case5 c rest hblank hread hquote ih =>
    exact ih.joinUnmatched_cons (by simpa using hblank) hquote hread

lemma Cut.tail {text : List Char} {piece : Piece} {ps : List Piece} (h : Cut text (piece :: ps)) :
    ∃ rest, text = piece.chars ++ rest ∧ piece.chars ≠ [] ∧ Cut rest ps := by
  cases h with
  | blank _ hrest => exact ⟨_, rfl, by simp [Piece.chars], hrest⟩
  | token _ hrest => exact ⟨_, rfl, by simp [Piece.chars], hrest⟩
  | unmatched hne _ _ hrest => exact ⟨_, rfl, hne, hrest⟩

/-! ### Places -/

/-- A piece, and how many bytes there are before it. -/
structure Place where
  start : ℕ
  piece : Piece

namespace Place

def stop (place : Place) : ℕ := place.start + byteLength place.piece.chars

def token? : Place → Option Token
  | ⟨start, .token kind image⟩ => some ⟨kind, image, start⟩
  | _ => none

def unmatched? : Place → Option Unmatched
  | ⟨start, .unmatched text⟩ => some ⟨start, text⟩
  | _ => none

lemma token?_eq_some_iff {place : Place} {token : Token} :
    place.token? = some token ↔ place = ⟨token.start, .token token.kind token.image⟩ := by
  obtain ⟨start, piece⟩ := place
  obtain ⟨kind, image, first⟩ := token
  cases piece <;> simp [token?]
  tauto

lemma unmatched?_eq_some_iff {place : Place} {error : Unmatched} :
    place.unmatched? = some error ↔ place = ⟨error.start, .unmatched error.text⟩ := by
  obtain ⟨start, piece⟩ := place
  obtain ⟨first, text⟩ := error
  cases piece <;> simp [unmatched?]

end Place

/-- The pieces with their places, `offset` being that of the first. -/
def places (offset : ℕ) : List Piece → List Place
  | [] => []
  | piece :: rest => ⟨offset, piece⟩ :: places (offset + byteLength piece.chars) rest

section

variable {text : List Char} {offset : ℕ} {ps : List Piece} {place : Place}

lemma tokens_ofPieces (offset : ℕ) (ps : List Piece) :
    (Lexed.ofPieces offset ps).tokens = (places offset ps).filterMap Place.token? := by
  induction ps generalizing offset with
  | nil => rfl
  | cons piece rest ih =>
    cases piece <;> simp [Lexed.ofPieces, places, Place.token?, List.filterMap_cons, ih]

lemma errors_ofPieces (offset : ℕ) (ps : List Piece) :
    (Lexed.ofPieces offset ps).errors = (places offset ps).filterMap Place.unmatched? := by
  induction ps generalizing offset with
  | nil => rfl
  | cons piece rest ih =>
    cases piece <;> simp [Lexed.ofPieces, places, Place.unmatched?, List.filterMap_cons, ih]

lemma mem_tokens_iff {token : Token} : token ∈ (Lexed.ofPieces offset ps).tokens ↔
    ⟨token.start, .token token.kind token.image⟩ ∈ places offset ps := by
  rw [tokens_ofPieces, List.mem_filterMap]
  simp only [Place.token?_eq_some_iff, exists_eq_right]

lemma mem_errors_iff {error : Unmatched} : error ∈ (Lexed.ofPieces offset ps).errors ↔
    ⟨error.start, .unmatched error.text⟩ ∈ places offset ps := by
  rw [errors_ofPieces, List.mem_filterMap]
  simp only [Place.unmatched?_eq_some_iff, exists_eq_right]

lemma le_start_of_mem_places (h : place ∈ places offset ps) : offset ≤ place.start := by
  induction ps generalizing offset with
  | nil => cases h
  | cons piece rest ih =>
    obtain rfl | h := List.mem_cons.mp h
    · exact le_rfl
    · exact (Nat.le_add_right _ _).trans (ih h)

/-- Every piece ends before the pieces behind it begin. -/
lemma pairwise_places (offset : ℕ) (ps : List Piece) :
    (places offset ps).Pairwise fun first second => first.stop ≤ second.start := by
  induction ps generalizing offset with
  | nil => exact .nil
  | cons piece rest ih => exact .cons (fun _ h => le_start_of_mem_places h) (ih _)

lemma apart_of_mem_places {other : Place} (h : place ∈ places offset ps)
    (hother : other ∈ places offset ps) (hne : place ≠ other) :
    place.stop ≤ other.start ∨ other.stop ≤ place.start := by
  let apart (first second : Place) : Prop := first.stop ≤ second.start ∨ second.stop ≤ first.start
  have hsymm : Std.Symm apart := ⟨fun _ _ => Or.symm⟩
  have hapart : (places offset ps).Pairwise apart := (pairwise_places offset ps).imp Or.inl
  exact hapart.forall h hother hne

namespace Cut

/-- A piece is found in the text behind as many bytes as its place says. -/
lemma exists_of_mem_places (h : Cut text ps) (hplace : place ∈ places offset ps) :
    ∃ before rest others, text = before ++ rest ∧ offset + byteLength before = place.start ∧
      Cut rest (place.piece :: others) := by
  induction ps generalizing text offset with
  | nil => cases hplace
  | cons piece ps ih =>
    obtain rfl | hplace := List.mem_cons.mp hplace
    · exact ⟨[], text, ps, rfl, rfl, h⟩
    · obtain ⟨rest, rfl, -, hrest⟩ := h.tail
      obtain ⟨before, behind, others, rfl, hstart, hcut⟩ := ih hrest hplace
      refine ⟨piece.chars ++ before, behind, others, by rw [List.append_assoc], ?_, hcut⟩
      rw [byteLength_append, ← Nat.add_assoc, hstart]

/-- Every character belongs to a piece whose bytes are those around it. -/
lemma exists_place (h : Cut text ps) (offset : ℕ) {before after : List Char} {c : Char}
    (htext : text = before ++ c :: after) : ∃ place ∈ places offset ps,
      place.start ≤ offset + byteLength before ∧ offset + byteLength before < place.stop ∧
        c ∈ place.piece.chars := by
  induction ps generalizing text offset before with
  | nil =>
    cases h
    simp at htext
  | cons piece ps ih =>
    obtain ⟨rest, rfl, -, hcut⟩ := h.tail
    have hbehind (inner : List Char) (hbefore : before = piece.chars ++ inner)
        (hrest : rest = inner ++ c :: after) : ∃ place ∈ places offset (piece :: ps),
          place.start ≤ offset + byteLength before ∧ offset + byteLength before < place.stop ∧
            c ∈ place.piece.chars := by
      obtain ⟨place, hplace, hstart, hstop, hmem⟩ :=
        ih hcut (offset + byteLength piece.chars) hrest
      rw [Nat.add_assoc, ← byteLength_append, ← hbefore] at hstart hstop
      exact ⟨place, List.mem_cons_of_mem _ hplace, hstart, hstop, hmem⟩
    obtain ⟨inner, hbefore, hrest⟩ | ⟨inner, hchars, hafter⟩ := List.append_eq_append_iff.mp htext
    · exact hbehind inner hbefore hrest
    · cases inner with
      | nil => exact hbehind [] (by simpa using hchars.symm) (by simpa using hafter.symm)
      | cons d inner =>
        obtain ⟨rfl, -⟩ := List.cons.inj hafter
        refine ⟨⟨offset, piece⟩, List.mem_cons_self, Nat.le_add_right _ _, ?_, ?_⟩
        · have hlong : byteLength before < byteLength piece.chars := by
            rw [hchars, byteLength_append]
            exact Nat.lt_add_of_pos_right (byteLength_pos (by simp))
          exact Nat.add_lt_add_left hlong offset
        · simp [hchars]

/-- Two runs of characters that begin no token have another piece between them. -/
lemma pairwise_unmatched (h : Cut text ps) (offset : ℕ) :
    (places offset ps).Pairwise fun first second =>
      ¬ first.piece.IsMatched → ¬ second.piece.IsMatched → first.stop < second.start := by
  induction h generalizing offset with
  | nil => exact .nil
  | blank _ _ ih => exact .cons (fun _ _ hfirst => absurd trivial hfirst) (ih _)
  | token _ _ ih => exact .cons (fun _ _ hfirst => absurd trivial hfirst) (ih _)
  | @unmatched run rest ps _ _ hnext hrest ih =>
    refine .cons (fun second hsecond _ hunmatched => ?_) (ih _)
    cases ps with
    | nil => cases hsecond
    | cons piece ps =>
      obtain rfl | hsecond := List.mem_cons.mp hsecond
      · exact absurd (hnext piece rfl) hunmatched
      · obtain ⟨-, -, hne, -⟩ := hrest.tail
        have hbehind := le_start_of_mem_places hsecond
        have hpos := byteLength_pos hne
        exact (Nat.lt_add_of_pos_right hpos).trans_le hbehind

end Cut

end

/-! ### Tokens and errors -/

lemma Unread.solid {text rest : List Char} (h : Unread text rest) :
    Solid text ∨ ∃ front content, text = front ++ '\'' :: content ∧ Solid front ∧
      Unclosed content ∧ rest = [] := by
  induction h with
  | nil => exact .inl (by simp [Solid])
  | @cons c text rest hblank hquote _ _ ih =>
    have hcons (front : List Char) (hfront : Solid front) : Solid (c :: front) :=
      List.forall_mem_cons.mpr ⟨⟨hblank, hquote⟩, hfront⟩
    obtain hsolid | ⟨front, content, rfl, hfront, hunclosed, rfl⟩ := ih
    · exact .inl (hcons text hsolid)
    · exact .inr ⟨c :: front, content, rfl, hcons front hfront, hunclosed, rfl⟩
  | unclosed h => exact .inr ⟨[], _, rfl, by simp [Solid], h, rfl⟩

lemma isSlice_of_eq {text before part after : List Char} {start : ℕ}
    (htext : text = before ++ (part ++ after)) (hstart : byteLength before = start) :
    IsSlice text start (start + byteLength part) part :=
  ⟨before, after, by rw [htext, List.append_assoc], hstart, by rw [byteLength_append, hstart]⟩

section

variable {text : List Char} {ps : List Piece}

lemma Cut.token_read (h : Cut text ps) {token : Token}
    (htoken : token ∈ (Lexed.ofPieces 0 ps).tokens) : ∃ before c tail after,
      text = before ++ c :: (tail ++ after) ∧ byteLength before = token.start ∧
        token.image = c :: tail ∧ lexeme? c (tail ++ after) = some (token.kind, tail.length) := by
  obtain ⟨kind, image, start⟩ := token
  obtain ⟨before, rest, others, rfl, hstart, hcut⟩ :=
    h.exists_of_mem_places (mem_tokens_iff.mp htoken)
  rw [Nat.zero_add] at hstart
  cases hcut with
  | token hread => exact ⟨before, _, _, _, rfl, hstart, rfl, hread⟩

lemma Cut.error_unread (h : Cut text ps) {error : Unmatched}
    (herror : error ∈ (Lexed.ofPieces 0 ps).errors) : error.text ≠ [] ∧ ∃ before after,
      text = before ++ (error.text ++ after) ∧ byteLength before = error.start ∧
        Unread error.text after := by
  obtain ⟨before, rest, others, rfl, hstart, hcut⟩ :=
    h.exists_of_mem_places (mem_errors_iff.mp herror)
  rw [Nat.zero_add] at hstart
  cases hcut with
  | unmatched hne hunread => exact ⟨hne, before, _, rfl, hstart, hunread⟩

/-- A byte of a token or an error is held, and the other bytes are those of blanks. -/
lemma Cut.holds_or_isBlank (h : Cut text ps) {before after : List Char} {c : Char}
    (htext : text = before ++ c :: after) :
    (Lexed.ofPieces 0 ps).Holds (byteLength before) ∨ Text.isBlank c := by
  obtain ⟨⟨start, piece⟩, hplace, hstart, hstop, hmem⟩ := h.exists_place 0 htext
  rw [Nat.zero_add] at hstart hstop
  cases piece with
  | blank d =>
    obtain ⟨_, _, _, -, -, hcut⟩ := h.exists_of_mem_places hplace
    obtain rfl := List.mem_singleton.mp hmem
    cases hcut with
    | blank hblank => exact .inr hblank
  | token kind image =>
    exact .inl (.inl ⟨⟨kind, image, start⟩, mem_tokens_iff.mpr hplace, hstart, hstop⟩)
  | unmatched text =>
    exact .inl (.inr ⟨⟨start, text⟩, mem_errors_iff.mpr hplace, hstart, hstop⟩)

end

/-! ### Whole texts -/

/-- A text is covered by the tokens and the errors that it is cut into. -/
theorem tokenize_covers (text : List Char) : (tokenize text).Covers text := by
  have hcut := cut_joinUnmatched_pieces text
  constructor
  case token_slice =>
    intro token htoken
    obtain ⟨before, c, tail, after, htext, hstart, himage, -⟩ := hcut.token_read htoken
    have hpos : 0 < byteLength token.image := byteLength_pos (by simp [himage])
    have hslice : text = before ++ (token.image ++ after) := by simp [htext, himage]
    exact ⟨Nat.lt_add_of_pos_right hpos, isSlice_of_eq hslice hstart⟩
  case error_slice =>
    intro error herror
    obtain ⟨hne, before, after, htext, hstart, -⟩ := hcut.error_unread herror
    exact ⟨Nat.lt_add_of_pos_right (byteLength_pos hne), isSlice_of_eq htext hstart⟩
  case tokens_ordered =>
    rw [tokenize, tokens_ofPieces, List.pairwise_filterMap]
    refine (pairwise_places 0 _).imp fun hle token htoken other hother => ?_
    rw [Place.token?_eq_some_iff] at htoken hother
    subst htoken hother
    exact hle
  case errors_apart =>
    rw [tokenize, errors_ofPieces, List.pairwise_filterMap]
    refine (hcut.pairwise_unmatched 0).imp fun hlt error herror other hother => ?_
    rw [Place.unmatched?_eq_some_iff] at herror hother
    subst herror hother
    exact hlt id id
  case tokens_beside_errors =>
    intro token htoken error herror
    exact apart_of_mem_places (mem_tokens_iff.mp htoken) (mem_errors_iff.mp herror) (by simp)
  case blank_outside =>
    intro before c after htext houtside
    exact (hcut.holds_or_isBlank htext).resolve_left houtside
  case error_solid =>
    intro error herror
    obtain ⟨-, before, after, htext, hstart, hunread⟩ := hcut.error_unread herror
    refine hunread.solid.imp_right ?_
    rintro ⟨front, content, hopen, hfront, hunclosed, rfl⟩
    refine ⟨front, content, hopen, hfront, hunclosed, ?_⟩
    rw [htext, List.append_nil, byteLength_append, hstart]
    rfl
  case token_read => exact fun _ => hcut.token_read
  case error_unread => exact fun _ herror => (hcut.error_unread herror).2

end EntityGraph.Language

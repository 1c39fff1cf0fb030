import EntityGraph.Json.Reader
import EntityGraph.Json.Writer
import EntityGraph.Proofs.Number.Digits
/-!
# A written document is read back

The reader takes from the text of a document the document itself, whatever follows the text, so
different documents have different texts. Doubles are left out: they are read as the nearest ones.
-/
namespace EntityGraph.Json

/-! ### Strings -/

lemma codeUnit?_hexDigits {n : Nat} (h : n < 65536) (rest : List Char) :
    codeUnit? (Text.hexDigits 4 n ++ rest) = some (n, rest) := by
  have hread := Text.ofHexDigits?_hexDigits 4 n
  rw [Nat.mod_eq_of_lt (by simpa using h)] at hread
  simp only [Text.hexDigits, List.nil_append, List.cons_append] at hread ⊢
  simp [codeUnit?, hread]

lemma unicode?_hexDigits {c : Char} (h : c.toNat < 32) (rest : List Char) :
    unicode? (Text.hexDigits 4 c.toNat ++ rest) = some (c, rest) := by
  have hunit := codeUnit?_hexDigits (n := c.toNat) (by omega) rest
  have hlow : ¬(0xD800 ≤ c.toNat ∧ c.toNat < 0xDC00) := by omega
  have hhigh : ¬(0xDC00 ≤ c.toNat ∧ c.toNat < 0xE000) := by omega
  simp [unicode?, hunit, hlow, hhigh]

lemma stringBody?_letter (fuel : Nat) {letter c : Char} (hu : letter ≠ 'u')
    (hc : unescape? letter = some c) (rest : List Char) :
    stringBody? (fuel + 1) ('\\' :: letter :: rest) =
      (stringBody? fuel rest).map fun (body, rest) => (c :: body, rest) := by
  simp [stringBody?, hc, Option.map_eq_bind]

/-- Each character is read from the one or the several that it is written with. -/
lemma stringBody?_escape (fuel : Nat) (c : Char) (rest : List Char) :
    stringBody? (fuel + 1) (escape c ++ rest) =
      (stringBody? fuel rest).map fun (body, rest) => (c :: body, rest) := by
  have named {n : Nat} {letter : Char} (hn : c.toNat = n) (hu : letter ≠ 'u')
      (hletter : unescape? letter = some (Char.ofNat n)) :
      stringBody? (fuel + 1) ('\\' :: letter :: rest) =
        (stringBody? fuel rest).map fun (body, rest) => (c :: body, rest) := by
    rw [← hn, Char.ofNat_toNat] at hletter
    exact stringBody?_letter fuel hu hletter rest
  unfold escape
  split
  · rename_i h
    exact named (congrArg Char.toNat h) (by decide) rfl
  split
  · rename_i h
    exact named (congrArg Char.toNat h) (by decide) rfl
  split
  · rename_i h
    exact named h (by decide) rfl
  split
  · rename_i h
    exact named h (by decide) rfl
  split
  · rename_i h
    exact named h (by decide) rfl
  split
  · rename_i h
    exact named h (by decide) rfl
  split
  · rename_i h
    exact named h (by decide) rfl
  split
  · rename_i h
    simp [stringBody?, unicode?_hexDigits h, Option.map_eq_bind]
  · rename_i _ hslash _ _ _ _ _ hlow
    simp [stringBody?, hslash, hlow, Option.map_eq_bind]

/-- A string is read up to its quote; every character takes one unit of fuel. -/
lemma stringBody?_quoted (characters rest : List Char) {fuel : Nat}
    (h : characters.length < fuel) :
    stringBody? fuel (characters.flatMap escape ++ '"' :: rest) = some (characters, rest) := by
  induction characters generalizing fuel with
  | nil =>
    cases fuel with
    | zero => contradiction
    | succ fuel => rfl
  | cons c characters ih =>
    cases fuel with
    | zero => contradiction
    | succ fuel =>
      rw [List.flatMap_cons, List.append_assoc, stringBody?_escape,
        ih (by simpa using h)]
      rfl

lemma length_le_length_escape (c : Char) : 1 ≤ (escape c).length := by
  unfold escape
  repeat' split
  all_goals simp

lemma string?_quoted (text : String) (rest : List Char) :
    string? (text.toList.flatMap escape ++ '"' :: rest) = some (text, rest) := by
  have hlength (characters : List Char) :
      characters.length ≤ (characters.flatMap escape).length := by
    induction characters with
    | nil => simp
    | cons c characters ih =>
      have hc := length_le_length_escape c
      simp only [List.flatMap_cons, List.length_cons, List.length_append]
      omega
  have hfuel := hlength text.toList
  rw [string?, stringBody?_quoted]
  · simp
  · simp only [List.length_append, List.length_cons]
    omega

/-! ### Integers -/

/-- What can follow a value within a document: its end, or a mark that no number goes on with. -/
def Ends (rest : List Char) : Prop := ∀ c ∈ rest.head?, c = ',' ∨ c = ']' ∨ c = '\x7d'

lemma ends_nil : Ends [] := by simp [Ends]

lemma ends_cons {c : Char} (rest : List Char) (h : c = ',' ∨ c = ']' ∨ c = '\x7d') :
    Ends (c :: rest) := by simpa [Ends] using h

lemma integer_text (n : Int) : (JsonNumber.integer n).text.toList =
    Number.signed (n < 0) (Nat.toDigits 10 n.natAbs) := by
  cases n with
  | ofNat n => exact Nat.toList_repr
  | negSucc n =>
    show ("-" ++ Nat.repr (n + 1)).toList = _
    rw [String.toList_append, Nat.toList_repr]
    simp [Number.signed]

/-- Only zero is written with a zero in front. -/
lemma head?_toDigits_ne {n : Nat} (h : n ≠ 0) : (Nat.toDigits 10 n).head? ≠ some '0' := by
  induction n using Nat.strong_induction_on with
  | _ n ih =>
    by_cases hlt : n < 10
    · rw [Nat.toDigits_of_lt_base hlt]
      interval_cases n <;> first | contradiction | decide
    · rw [Nat.toDigits_of_base_le (by decide) (by omega),
        List.head?_append_of_ne_nil _ Nat.toDigits_ne_nil]
      exact ih (n / 10) (by omega) (by omega)

lemma takeWhile_digits {digits rest : List Char} (h : ∀ c ∈ digits, c.isDigit)
    (hrest : Ends rest) : (digits ++ rest).takeWhile Char.isDigit = digits ∧
      (digits ++ rest).dropWhile Char.isDigit = rest := by
  rw [List.takeWhile_append_of_pos h, List.dropWhile_append_of_pos h]
  cases rest with
  | nil => simp
  | cons c rest =>
    have hc : c.isDigit = false := by
      rcases hrest c rfl with rfl | rfl | rfl <;> rfl
    simp [hc]

/-- A run of digits behind its sign is a number without a fraction and an exponent. -/
lemma number?_signed (negative : Bool) {digits rest : List Char} (hne : digits ≠ [])
    (h : ∀ c ∈ digits, c.isDigit) (hzero : 1 < digits.length → digits.head? ≠ some '0')
    (hrest : Ends rest) : number? (Number.signed negative digits ++ rest) =
      some (numberOf negative digits [] none, rest) := by
  obtain ⟨htake, hdrop⟩ := takeWhile_digits h hrest
  have hwhole : ¬(digits.isEmpty || (1 < digits.length && digits.head? == some '0')) := by
    simpa [hne] using hzero
  have hfraction : fraction? rest = some ([], rest) := by
    unfold fraction?
    split
    · rename_i tail
      have hpoint := hrest '.' rfl
      simp at hpoint
    · rfl
  have hexponent : exponent? rest = some (none, rest) := by
    unfold exponent?
    split
    · rfl
    · rename_i c tail
      have hmark : ¬(c = 'e' ∨ c = 'E') := by
        rcases hrest c rfl with rfl | rfl | rfl <;> decide
      rw [if_neg hmark]
  cases negative with
  | true =>
    simp only [number?, Number.signed, if_true, List.cons_append, htake, hdrop]
    rw [if_neg hwhole, hfraction]
    show (exponent? rest >>= _) = _
    rw [hexponent]
    rfl
  | false =>
    obtain ⟨first, others, rfl⟩ := List.exists_cons_of_ne_nil hne
    have hminus : first ≠ '-' := Number.ne_of_isDigit (h first List.mem_cons_self) rfl
    unfold number?
    simp only [Number.signed, Bool.false_eq_true, if_false]
    split
    · rename_i heq
      exact absurd (List.cons.inj heq).1 hminus
    · simp only [htake, hdrop]
      rw [if_neg hwhole, hfraction]
      show (exponent? rest >>= _) = _
      rw [hexponent]
      rfl

lemma number?_integer {n : Int} (hn : Number.fitsInt64 n) {rest : List Char} (hrest : Ends rest) :
    number? ((JsonNumber.integer n).text.toList ++ rest) = some (.integer n, rest) := by
  have hzero : 1 < (Nat.toDigits 10 n.natAbs).length →
      (Nat.toDigits 10 n.natAbs).head? ≠ some '0' := by
    intro hlength
    apply head?_toDigits_ne
    intro habs
    rw [habs] at hlength
    exact absurd hlength (by decide)
  rw [integer_text, number?_signed _ Nat.toDigits_ne_nil
    (fun c hc => Number.isDigit_of_mem_toDigits hc) hzero hrest]
  have hvalue : (if decide (n < 0) then -(n.natAbs : Int) else n.natAbs) = n :=
    Number.signedValue_natAbs n
  have hwritten : (([] : List Char).isEmpty && (none : Option Int).isNone &&
      !(decide (n < 0) && n.natAbs == 0)) = true := by
    simp
    omega
  rw [numberOf, Number.ofDigits_toDigits, if_pos hwritten, hvalue, if_pos (.inl hn)]

/-! ### Documents -/

mutual
/-- Whether every number in a document is an integer of 64 signed bits. -/
def IsExact : Json → Prop
  | .number (.integer n) => Number.fitsInt64 n
  | .number (.double _) => False
  | .array items => AreExact items
  | .object members => MembersExact members
  | .null | .bool _ | .string _ => True
termination_by structural json => json

def AreExact : List Json → Prop
  | [] => True
  | item :: rest => IsExact item ∧ AreExact rest
termination_by structural items => items

def MembersExact : List (String × Json) → Prop
  | [] => True
  | (_, json) :: rest => IsExact json ∧ MembersExact rest
termination_by structural members => members
end

lemma skip_cons {c : Char} (h : isSpace c = false) (rest : List Char) :
    skip (c :: rest) = c :: rest := by
  simp [skip, h]

/-- A value begins with no blank, and with no mark that ends a list. -/
def Opens (c : Char) : Prop := isSpace c = false ∧ c ≠ ']'

abbrev StartsNumber (c : Char) : Prop := c = '-' ∨ c.isDigit

lemma StartsNumber.ne {c other : Char} (h : StartsNumber c) (hother : ¬StartsNumber other) :
    c ≠ other := fun heq => hother (heq ▸ h)

lemma StartsNumber.opens {c : Char} (h : StartsNumber c) : Opens c := by
  have hblank : c ≠ ' ' ∧ c ≠ '\t' ∧ c ≠ '\n' ∧ c ≠ '\r' :=
    ⟨h.ne (by decide), h.ne (by decide), h.ne (by decide), h.ne (by decide)⟩
  exact ⟨by simp [isSpace, hblank], h.ne (by decide)⟩

lemma value?_number (fuel : Nat) {c : Char} (h : StartsNumber c) (text : List Char) :
    value? (fuel + 1) (c :: text) =
      (number? (c :: text)).map fun (n, rest) => (.number n, rest) := by
  rw [value?, skip_cons h.opens.1]
  split
  all_goals first
    | rename_i heq
      exact absurd (List.cons.inj heq).1 (h.ne (by decide))
    | rfl

lemma value?_array (fuel : Nat) {c : Char} (h : Opens c) (text : List Char) :
    value? (fuel + 1) ('[' :: c :: text) =
      (items? fuel (c :: text)).map fun (items, rest) => (.array items, rest) := by
  rw [value?, skip_cons (by rfl)]
  simp only [skip_cons h.1]
  split
  · rename_i heq
    exact absurd (List.cons.inj heq).1 h.2
  · rfl

lemma exists_integer_eq_cons (n : Int) : ∃ c rest, StartsNumber c ∧
    (JsonNumber.integer n).text.toList = c :: rest := by
  obtain ⟨first, others, hdigits⟩ :=
    List.exists_cons_of_ne_nil (Nat.toDigits_ne_nil (b := 10) (n := n.natAbs))
  have hfirst : first.isDigit := Number.isDigit_of_mem_toDigits (hdigits ▸ List.mem_cons_self)
  rw [integer_text, hdigits]
  cases decide (n < 0) with
  | true => exact ⟨'-', first :: others, .inl rfl, rfl⟩
  | false => exact ⟨first, others, .inr hfirst, rfl⟩

lemma exists_chars_eq_cons {json : Json} (h : json.IsExact) :
    ∃ c rest, Opens c ∧ json.chars = c :: rest := by
  cases json with
  | null => exact ⟨_, _, ⟨rfl, by decide⟩, rfl⟩
  | bool flag => cases flag <;> exact ⟨_, _, ⟨rfl, by decide⟩, rfl⟩
  | number number =>
    cases number with
    | double => exact absurd h (by simp [IsExact])
    | integer n =>
      obtain ⟨c, rest, hc, hchars⟩ := exists_integer_eq_cons n
      exact ⟨c, rest, hc.opens, by rw [chars, hchars]⟩
  | string text => exact ⟨_, _, ⟨rfl, by decide⟩, rfl⟩
  | array items => exact ⟨_, _, ⟨rfl, by decide⟩, rfl⟩
  | object members => exact ⟨_, _, ⟨rfl, by decide⟩, rfl⟩

lemma exists_itemChars_eq_cons {item : Json} (items : List Json) (h : item.IsExact) :
    ∃ c rest, Opens c ∧ itemChars (item :: items) = c :: rest := by
  obtain ⟨c, rest, hc, hchars⟩ := exists_chars_eq_cons h
  cases items with
  | nil => exact ⟨c, _, hc, by rw [itemChars, hchars]; rfl⟩
  | cons next items => exact ⟨c, _, hc, by rw [itemChars, hchars]; rfl; simp⟩

lemma exists_memberChars_eq_cons (member : String × Json) (members : List (String × Json)) :
    ∃ rest, memberChars (member :: members) = '"' :: rest := by
  cases members with
  | nil => exact ⟨_, rfl⟩
  | cons next members => exact ⟨_, rfl⟩

mutual
/-- A value is read from its text, every character of which pays for two calls. -/
theorem value?_chars {json : Json} (hjson : json.IsExact) {rest : List Char} (hrest : Ends rest)
    {fuel : Nat} (hfuel : 2 * json.chars.length ≤ fuel) :
    value? fuel (json.chars ++ rest) = some (json, rest) := by
  obtain ⟨c, others, hopens, hchars⟩ := exists_chars_eq_cons hjson
  rw [hchars, List.length_cons] at hfuel
  obtain ⟨fuel, rfl⟩ : ∃ less, fuel = less + 1 := ⟨fuel - 1, by omega⟩
  cases json with
  | null => rfl
  | bool flag => cases flag <;> rfl
  | string text =>
    have hstring := string?_quoted text rest
    rw [chars, quoted, List.cons_append, List.append_assoc, value?, skip_cons rfl]
    simp only [List.singleton_append, hstring]
    rfl
  | number number =>
    cases number with
    | double => exact absurd hjson (by simp [IsExact])
    | integer n =>
      obtain ⟨first, tail, hfirst, htext⟩ := exists_integer_eq_cons n
      have hn : Number.fitsInt64 n := by simpa [IsExact] using hjson
      have hnumber := number?_integer hn hrest
      rw [htext, List.cons_append] at hnumber
      rw [chars, htext, List.cons_append, value?_number _ hfirst, hnumber]
      rfl
  | array items =>
    cases items with
    | nil => rfl
    | cons item items =>
      have hitems : AreExact (item :: items) := by simpa [IsExact] using hjson
      have hlength : 2 * (itemChars (item :: items)).length ≤ fuel := by
        have heq := congrArg List.length hchars
        simp only [chars, List.length_cons] at heq
        omega
      have hread := items?_chars (by simp) hitems rest hlength
      obtain ⟨c, tail, hc, htext⟩ := exists_itemChars_eq_cons items hitems.1
      rw [htext, List.cons_append] at hread
      rw [chars, htext, List.cons_append, List.cons_append, value?_array _ hc, hread]
      rfl
  | object members =>
    cases members with
    | nil => rfl
    | cons member members =>
      have hmembers : MembersExact (member :: members) := by simpa [IsExact] using hjson
      have hlength : 2 * (memberChars (member :: members)).length ≤ fuel := by
        have heq := congrArg List.length hchars
        simp only [chars, List.length_cons] at heq
        omega
      have hread := members?_chars (by simp) hmembers rest hlength
      obtain ⟨tail, htext⟩ := exists_memberChars_eq_cons member members
      rw [htext, List.cons_append] at hread
      rw [chars, htext, List.cons_append, List.cons_append]
      change (members? fuel ('"' :: (tail ++ rest))).map _ = _
      rw [hread]
      rfl
termination_by structural json

theorem items?_chars {items : List Json} (hne : items ≠ []) (hitems : AreExact items)
    (rest : List Char) {fuel : Nat} (hfuel : 2 * (itemChars items).length ≤ fuel) :
    items? fuel (itemChars items ++ rest) = some (items, rest) := by
  cases items with
  | nil => contradiction
  | cons item others =>
    cases others with
    | nil =>
      simp only [itemChars, List.length_append, List.length_singleton] at hfuel
      obtain ⟨fuel, rfl⟩ : ∃ less, fuel = less + 1 := ⟨fuel - 1, by omega⟩
      have hitem : value? fuel (item.chars ++ ']' :: rest) = some (item, ']' :: rest) :=
        value?_chars hitems.1 (ends_cons rest (.inr (.inl rfl))) (by omega)
      rw [itemChars, List.append_assoc, List.singleton_append, items?, hitem]
      rfl
    | cons next others =>
      simp only [itemChars, List.length_append, List.length_cons] at hfuel
      obtain ⟨fuel, rfl⟩ : ∃ less, fuel = less + 1 := ⟨fuel - 1, by omega⟩
      have hitem : value? fuel (item.chars ++ ',' :: (itemChars (next :: others) ++ rest)) =
          some (item, ',' :: (itemChars (next :: others) ++ rest)) :=
        value?_chars hitems.1 (ends_cons _ (.inl rfl)) (by omega)
      have hothers : items? fuel (itemChars (next :: others) ++ rest) =
          some (next :: others, rest) := items?_chars (by simp) hitems.2 rest (by omega)
      rw [itemChars, List.append_assoc, List.cons_append, items?, hitem]
      · change (items? fuel (itemChars (next :: others) ++ rest)).map _ = _
        rw [hothers]
        rfl
      · simp
termination_by structural items

theorem members?_chars {members : List (String × Json)} (hne : members ≠ [])
    (hmembers : MembersExact members) (rest : List Char) {fuel : Nat}
    (hfuel : 2 * (memberChars members).length ≤ fuel) :
    members? fuel (memberChars members ++ rest) = some (members, rest) := by
  cases members with
  | nil => contradiction
  | cons member others =>
    obtain ⟨key, json⟩ := member
    cases others with
    | nil =>
      simp only [memberChars, List.length_append, List.length_cons, List.length_nil] at hfuel
      obtain ⟨fuel, rfl⟩ : ∃ less, fuel = less + 1 := ⟨fuel - 1, by omega⟩
      have hvalue : value? fuel (json.chars ++ '\x7d' :: rest) = some (json, '\x7d' :: rest) :=
        value?_chars hmembers.1 (ends_cons rest (.inr (.inr rfl))) (by omega)
      have hkey := string?_quoted key (':' :: (json.chars ++ '\x7d' :: rest))
      simp only [memberChars, quoted, List.cons_append, List.append_assoc, List.nil_append]
      rw [members?, skip_cons rfl]
      simp only [hkey]
      change (value? fuel (json.chars ++ '\x7d' :: rest)).bind _ = _
      rw [hvalue]
      rfl
    | cons next others =>
      simp only [memberChars, List.length_append, List.length_cons] at hfuel
      obtain ⟨fuel, rfl⟩ : ∃ less, fuel = less + 1 := ⟨fuel - 1, by omega⟩
      have hvalue : value? fuel (json.chars ++ ',' :: (memberChars (next :: others) ++ rest)) =
          some (json, ',' :: (memberChars (next :: others) ++ rest)) :=
        value?_chars hmembers.1 (ends_cons _ (.inl rfl)) (by omega)
      have hothers : members? fuel (memberChars (next :: others) ++ rest) =
          some (next :: others, rest) := members?_chars (by simp) hmembers.2 rest (by omega)
      have hkey := string?_quoted key
        (':' :: (json.chars ++ ',' :: (memberChars (next :: others) ++ rest)))
      rw [memberChars]
      · simp only [quoted, List.cons_append, List.append_assoc, List.nil_append]
        rw [members?, skip_cons rfl]
        simp only [hkey]
        change (value? fuel
          (json.chars ++ ',' :: (memberChars (next :: others) ++ rest))).bind _ = _
        rw [hvalue]
        change (members? fuel (memberChars (next :: others) ++ rest)).map _ = _
        rw [hothers]
        rfl
      · simp
termination_by structural members
end

/-- The text of a document without doubles is read as the document. -/
theorem ofText_text {json : Json} (h : json.IsExact) : ofText json.text = some json := by
  have hlength : json.text.length = json.chars.length := by simp [text]
  have hread : value? (2 * json.text.length + 2) (json.chars ++ []) = some (json, []) :=
    value?_chars h ends_nil (by omega)
  rw [List.append_nil] at hread
  have htext : json.text.toList = json.chars := by simp [text]
  rw [ofText, htext, hread]
  rfl

/-- Documents without doubles have the same text only if they are the same. -/
theorem text_injOn : Set.InjOn text {json | json.IsExact} := by
  intro json hjson other hother h
  have hread : ofText json.text = ofText other.text := by rw [h]
  rw [ofText_text hjson, ofText_text hother] at hread
  exact Option.some_inj.mp hread

end EntityGraph.Json

import EntityGraph.Proofs.Value.Comparison
import Mathlib.Data.List.TakeWhile
/-!
# What digits write is read back

The texts of identifiers and of decimals are read as what they were written from. A decimal comes
back with its number and, where it had digits behind the point, with its scale.
-/
namespace EntityGraph

/-! ### Hexadecimal digits -/

namespace Text

lemma hexValue?_hexDigit {d : Nat} (h : d < 16) : hexValue? (hexDigit d) = some d := by
  interval_cases d <;> rfl

/-- The last `width` digits write the number without what lies above them. -/
theorem ofHexDigits?_hexDigits (width n : Nat) :
    ofHexDigits? (hexDigits width n) = some (n % 16 ^ width) := by
  induction width generalizing n with
  | zero => simp [hexDigits, ofHexDigits?, Nat.mod_one]
  | succ width ih =>
    have hlast : hexValue? (hexDigit (n % 16)) = some (n % 16) :=
      hexValue?_hexDigit (Nat.mod_lt n (by decide))
    have hvalue : n / 16 % 16 ^ width * 16 + n % 16 = n % 16 ^ (width + 1) := by
      rw [pow_succ', Nat.mod_mul]
      omega
    unfold ofHexDigits? at ih ⊢
    rw [hexDigits, List.foldlM_append, ih]
    simp [hlast, hvalue]

lemma hexDigit_ne_hyphen {d : Nat} (h : d < 16) : hexDigit d ≠ '-' := by
  interval_cases d <;> decide

lemma hyphen_notMem_hexDigits (width n : Nat) : '-' ∉ hexDigits width n := by
  induction width generalizing n with
  | zero => simp [hexDigits]
  | succ width ih =>
    have hlast := hexDigit_ne_hyphen (Nat.mod_lt n (by decide : 0 < 16))
    simp [hexDigits, ih, hlast.symm]

end Text

namespace Uuid

/-- Cutting digits into groups only adds hyphens. -/
lemma filter_hyphenate (groups : List Nat) {digits : List Char} (h : '-' ∉ digits) :
    (hyphenate groups digits).filter (· ≠ '-') = digits := by
  have hself {part : List Char} (hpart : '-' ∉ part) : part.filter (· ≠ '-') = part := by
    rw [List.filter_eq_self]
    intro c hc
    simpa using fun heq : c = '-' => hpart (heq ▸ hc)
  induction groups generalizing digits with
  | nil => exact hself h
  | cons length rest ih =>
    cases rest with
    | nil => exact hself h
    | cons next rest =>
      have htake : '-' ∉ digits.take length := fun hm => h (List.mem_of_mem_take hm)
      have hdrop : '-' ∉ digits.drop length := fun hm => h (List.mem_of_mem_drop hm)
      rw [hyphenate, List.filter_append, List.filter_cons_of_neg (by simp), hself htake, ih hdrop,
        List.take_append_drop]
      simp

theorem ofText?_text (id : Uuid) : ofText? id.text = some id := by
  have hdigits := filter_hyphenate groups (Text.hyphen_notMem_hexDigits 32 id.bits.toNat)
  have hread := Text.ofHexDigits?_hexDigits 32 id.bits.toNat
  rw [Nat.mod_eq_of_lt (by simpa using id.bits.isLt)] at hread
  simp only [ofText?, text, String.toList_ofList, hdigits, hread, Text.length_hexDigits]
  simp

theorem text_injective : Function.Injective text := by
  intro a b h
  have hread : ofText? a.text = ofText? b.text := by rw [h]
  rw [ofText?_text, ofText?_text] at hread
  exact Option.some_inj.mp hread

end Uuid

/-! ### Decimal digits -/

namespace Number

lemma ofDigits_eq (digits : List Char) : ofDigits digits = Nat.ofDigitChars 10 digits 0 := by
  simp only [ofDigits, Nat.ofDigitChars, Nat.mul_comm]
  rfl

@[simp] lemma ofDigits_toDigits (n : Nat) : ofDigits (Nat.toDigits 10 n) = n := by
  rw [ofDigits_eq, Nat.ofDigitChars_toDigits (by decide) (by decide)]

lemma ofDigits_append_zeros (digits : List Char) (count : Nat) :
    ofDigits (digits ++ List.replicate count '0') = ofDigits digits * 10 ^ count := by
  induction count with
  | zero => simp
  | succ count ih =>
    rw [List.replicate_succ', ← List.append_assoc, pow_succ, ← mul_assoc, ← ih]
    simp [ofDigits, List.foldl_append]

lemma ofDigits_zeros_append (count : Nat) (digits : List Char) :
    ofDigits (List.replicate count '0' ++ digits) = ofDigits digits := by
  induction count with
  | zero => rfl
  | succ count ih => simpa [List.replicate_succ, ofDigits] using ih

lemma isDigit_of_mem_zeros {count : Nat} {c : Char} (h : c ∈ List.replicate count '0') :
    c.isDigit := by
  rw [(List.mem_replicate.mp h).2]
  rfl

lemma isDigit_of_mem_toDigits {n : Nat} {c : Char} (h : c ∈ Nat.toDigits 10 n) : c.isDigit :=
  Nat.isDigit_of_mem_toDigits (by decide) (by decide) h

lemma ne_of_isDigit {c other : Char} (h : c.isDigit) (hother : other.isDigit = false) :
    c ≠ other := by
  rintro rfl
  simp [h] at hother

/-- Digits behind their sign. -/
def signed (negative : Bool) (digits : List Char) : List Char :=
  if negative then '-' :: digits else digits

def signedValue (negative : Bool) (n : Nat) : Int := if negative then -n else n

lemma signedValue_natAbs (n : Int) : signedValue (n < 0) n.natAbs = n := by
  simp only [signedValue, decide_eq_true_eq]
  split <;> omega

lemma signed_append (negative : Bool) (whole fraction : List Char) :
    signed negative (whole ++ fraction) = signed negative whole ++ fraction := by
  cases negative <;> rfl

lemma mem_signed {negative : Bool} {c : Char} {digits : List Char}
    (h : c ∈ signed negative digits) : c = '-' ∨ c ∈ digits := by
  cases negative with
  | true => exact List.mem_cons.mp h
  | false => exact .inr h

end Number

namespace Decimal

open Number (ofDigits signed signedValue signed_append mem_signed isDigit_of_mem_zeros
  isDigit_of_mem_toDigits)

/-- The same number with the scale that its text has: none of it is below zero. -/
def positional (d : Decimal) : Decimal :=
  if 0 ≤ d.scale then d else ⟨d.unscaled * 10 ^ (-d.scale).toNat, 0⟩

section

variable {whole fraction digits : List Char}

lemma digitRun?_digits (hne : digits ≠ []) (h : ∀ c ∈ digits, c.isDigit) :
    digitRun? digits = some (ofDigits digits) := by
  obtain ⟨first, rest, rfl⟩ := List.exists_cons_of_ne_nil hne
  have hfirst : first ≠ '_' := Number.ne_of_isDigit (h first List.mem_cons_self) rfl
  have hall : (first :: rest).all (fun c => c.isDigit || c == '_') := by
    rw [List.all_eq_true]
    intro c hc
    simp [h c hc]
  rw [digitRun?, List.filter_eq_self.mpr h, if_neg (by simpa using hfirst), if_pos hall]

lemma mantissa?_signed (negative : Bool) (hne : digits ≠ []) (h : ∀ c ∈ digits, c.isDigit) :
    mantissa? (signed negative digits) = some (signedValue negative (ofDigits digits)) := by
  have hrun := digitRun?_digits hne h
  obtain ⟨first, rest, rfl⟩ := List.exists_cons_of_ne_nil hne
  have hminus : first ≠ '-' := Number.ne_of_isDigit (h first List.mem_cons_self) rfl
  have hplus : first ≠ '+' := Number.ne_of_isDigit (h first List.mem_cons_self) rfl
  cases negative with
  | true => simp [signed, signedValue, mantissa?, hplus, hrun]
  | false => simp [signed, signedValue, mantissa?, hminus, hplus, hrun]

/-- Neither a sign nor a digit ends the whole part of a mantissa, let alone the mantissa. -/
lemma inside_of_mem_signed {negative : Bool} {c : Char} (h : ∀ c ∈ digits, c.isDigit)
    (hc : c ∈ signed negative digits) : c ≠ '.' ∧ !isExponentMark c := by
  rcases mem_signed hc with rfl | hmem
  · decide
  · have hne {other : Char} (hother : other.isDigit = false) : c ≠ other :=
      Number.ne_of_isDigit (h c hmem) hother
    have hmark : c ≠ 'e' ∧ c ≠ 'E' := ⟨hne rfl, hne rfl⟩
    exact ⟨hne rfl, by simp [isExponentMark, hmark]⟩

/-- Digits without a point. -/
lemma ofParts?_whole (negative : Bool) (hne : whole ≠ []) (h : ∀ c ∈ whole, c.isDigit)
    (exponent : Int) : ofParts? (signed negative whole) exponent =
      some ⟨signedValue negative (ofDigits whole), -exponent⟩ := by
  have hinside : ∀ c ∈ signed negative whole, decide (c ≠ '.') := fun c hc => by
    simpa using (inside_of_mem_signed h hc).1
  have hbase : signed negative whole ≠ [] := by cases negative <;> simp [signed, hne]
  rw [ofParts?, if_neg (by simpa using hbase), List.takeWhile_eq_self_iff.mpr hinside,
    List.dropWhile_eq_nil_iff.mpr hinside]
  simp [mantissa?_signed negative hne h]

/-- Digits on both sides of a point. -/
lemma ofParts?_pointed (negative : Bool) (hne : whole ≠ []) (hwhole : ∀ c ∈ whole, c.isDigit)
    (hfraction : ∀ c ∈ fraction, c.isDigit) (exponent : Int) :
    ofParts? (signed negative whole ++ '.' :: fraction) exponent =
      some ⟨signedValue negative (ofDigits (whole ++ fraction)), fraction.length - exponent⟩ := by
  have hinside : ∀ c ∈ signed negative whole, decide (c ≠ '.') := fun c hc => by
    simpa using (inside_of_mem_signed hwhole hc).1
  have hdigits : ∀ c ∈ whole ++ fraction, c.isDigit := by
    intro c hc
    exact (List.mem_append.mp hc).elim (hwhole c) (hfraction c)
  rw [ofParts?, if_neg (by simp), List.takeWhile_append_of_pos hinside,
    List.dropWhile_append_of_pos hinside]
  simp [← signed_append, mantissa?_signed negative (by simp [hne]) hdigits]

/-- No exponent is behind a point or a sign. -/
lemma not_isExponentMark_of_mem {negative : Bool} (hwhole : ∀ c ∈ whole, c.isDigit)
    (hfraction : ∀ c ∈ fraction, c.isDigit) :
    ∀ c ∈ signed negative whole ++ '.' :: fraction, !isExponentMark c := by
  intro c hc
  rcases List.mem_append.mp hc with hc | hc
  · exact (inside_of_mem_signed hwhole hc).2
  · rcases List.mem_cons.mp hc with rfl | hc
    · decide
    · have hmem : c ∈ signed false fraction := hc
      exact (inside_of_mem_signed hfraction hmem).2

lemma ofChars?_eq_ofParts? {text : List Char} (h : ∀ c ∈ text, !isExponentMark c) :
    ofChars? text = ofParts? text 0 := by
  rw [ofChars?, List.takeWhile_eq_self_iff.mpr h, List.dropWhile_eq_nil_iff.mpr h]

lemma ofChars?_whole (negative : Bool) (hne : whole ≠ []) (h : ∀ c ∈ whole, c.isDigit) :
    ofChars? (signed negative whole) = some ⟨signedValue negative (ofDigits whole), 0⟩ := by
  rw [ofChars?_eq_ofParts? fun c hc => (inside_of_mem_signed h hc).2,
    ofParts?_whole negative hne h, neg_zero]

lemma ofChars?_pointed (negative : Bool) (hne : whole ≠ []) (hwhole : ∀ c ∈ whole, c.isDigit)
    (hfraction : ∀ c ∈ fraction, c.isDigit) :
    ofChars? (signed negative (whole ++ '.' :: fraction)) =
      some ⟨signedValue negative (ofDigits (whole ++ fraction)), fraction.length⟩ := by
  rw [signed_append, ofChars?_eq_ofParts? (not_isExponentMark_of_mem hwhole hfraction),
    ofParts?_pointed negative hne hwhole hfraction, sub_zero]

end

/-! The digits of a decimal stand in its text in one of three places. -/

def digits (d : Decimal) : List Char := Nat.toDigits 10 d.unscaled.natAbs

lemma digits_ne_nil (d : Decimal) : d.digits ≠ [] := Nat.toDigits_ne_nil

lemma isDigit_of_mem_digits (d : Decimal) : ∀ c ∈ d.digits, c.isDigit := fun _ hc =>
  isDigit_of_mem_toDigits hc

lemma signedValue_digits (d : Decimal) :
    signedValue (d.unscaled < 0) (ofDigits d.digits) = d.unscaled := by
  rw [digits, Number.ofDigits_toDigits, Number.signedValue_natAbs]

/-- Only zeros stand before the digits, on either side of the point. -/
lemma ofText?_text_below (d : Decimal) (h : (d.digits.length : Int) ≤ d.scale) :
    ofText? d.text = some d.positional := by
  generalize hcount : (d.scale - d.digits.length).toNat = count
  have htext : d.text.toList = signed (d.unscaled < 0)
      (['0'] ++ '.' :: (List.replicate count '0' ++ d.digits)) := by
    unfold digits at h hcount
    simp [text, signed, h, hcount, digits]
  have hpad : ∀ c ∈ List.replicate count '0' ++ d.digits, c.isDigit := by
    intro c hc
    exact (List.mem_append.mp hc).elim isDigit_of_mem_zeros (d.isDigit_of_mem_digits c)
  have hzeros : ['0'] ++ (List.replicate count '0' ++ d.digits) =
      List.replicate (count + 1) '0' ++ d.digits := by
    simp [List.replicate_succ]
  have hscale : ((List.replicate count '0' ++ d.digits).length : Int) = d.scale := by
    simp only [List.length_append, List.length_replicate]
    omega
  rw [ofText?, htext, ofChars?_pointed _ (by simp) (by simp) hpad, hzeros,
    Number.ofDigits_zeros_append, d.signedValue_digits, hscale, positional, if_pos (by omega)]

/-- Zeros fill the places between the digits and the point, which is not written. -/
lemma ofText?_text_above (d : Decimal) (h : d.scale ≤ 0) :
    ofText? d.text = some d.positional := by
  have hlong : ¬(d.digits.length : Int) ≤ d.scale := by
    have hpos := List.length_pos_iff.mpr d.digits_ne_nil
    omega
  have htext : d.text.toList = signed (d.unscaled < 0)
      (d.digits ++ List.replicate (-d.scale).toNat '0') := by
    unfold digits at hlong
    simp [text, signed, h, hlong, digits]
  have hpad : ∀ c ∈ d.digits ++ List.replicate (-d.scale).toNat '0', c.isDigit := by
    intro c hc
    exact (List.mem_append.mp hc).elim (d.isDigit_of_mem_digits c) isDigit_of_mem_zeros
  have hshift : signedValue (d.unscaled < 0) (ofDigits d.digits * 10 ^ (-d.scale).toNat) =
      d.unscaled * 10 ^ (-d.scale).toNat := by
    conv_rhs => rw [← d.signedValue_digits]
    simp only [signedValue]
    split <;> push_cast <;> ring
  rw [ofText?, htext, ofChars?_whole _ (by simp [d.digits_ne_nil]) hpad,
    Number.ofDigits_append_zeros, hshift, positional]
  obtain ⟨unscaled, scale⟩ := d
  by_cases hzero : scale = 0
  · simp [hzero]
  · have hneg : ¬0 ≤ scale := by
      simp only at h
      omega
    simp [hneg]

/-- The point stands between two digits. -/
lemma ofText?_text_between (d : Decimal) (h : ¬(d.digits.length : Int) ≤ d.scale)
    (hpos : ¬d.scale ≤ 0) : ofText? d.text = some d.positional := by
  generalize hwhole : d.digits.length - d.scale.toNat = whole
  have htext : d.text.toList = signed (d.unscaled < 0)
      (d.digits.take whole ++ '.' :: d.digits.drop whole) := by
    unfold digits at h hwhole
    simp [text, signed, h, hpos, hwhole, digits]
  have hdigits := d.isDigit_of_mem_digits
  have hne : d.digits.take whole ≠ [] := by
    have hlength : (d.digits.take whole).length ≠ 0 := by
      rw [List.length_take]
      omega
    exact fun hnil => hlength (by rw [hnil]; rfl)
  have hscale : ((d.digits.drop whole).length : Int) = d.scale := by
    rw [List.length_drop]
    omega
  rw [ofText?, htext, ofChars?_pointed _ hne (fun c hc => hdigits c (List.mem_of_mem_take hc))
    (fun c hc => hdigits c (List.mem_of_mem_drop hc)), List.take_append_drop,
    d.signedValue_digits, hscale, positional, if_pos (by omega)]

/-- A decimal's text has its digits and, behind the point, as many of them as the scale says. -/
theorem ofText?_text (d : Decimal) : ofText? d.text = some d.positional := by
  by_cases hbelow : (d.digits.length : Int) ≤ d.scale
  · exact d.ofText?_text_below hbelow
  · by_cases habove : d.scale ≤ 0
    · exact d.ofText?_text_above habove
    · exact d.ofText?_text_between hbelow habove

/-! ### One decimal for each number -/

lemma toRat_positional (d : Decimal) : d.positional.toRat = d.toRat := by
  rw [positional]
  split
  · rfl
  · rename_i h
    rw [toRat_eq_shift d (by omega : d.scale ≤ 0), toRat]
    simp

lemma toRat_eq_zero_iff (d : Decimal) : d.toRat = 0 ↔ d.unscaled = 0 := by
  have hpow : (10 : ℚ) ^ (-d.scale) ≠ 0 := zpow_ne_zero _ (by norm_num)
  rw [toRat, mul_eq_zero, or_iff_left hpow, Int.cast_eq_zero]

theorem equal_iff_toRat_eq (a b : Decimal) : a.equal b ↔ a.toRat = b.toRat := by
  rw [equal]
  split
  · rename_i h
    simp only [decide_eq_true_eq]
    rcases h with h | h
    · rw [toRat_zero h, h, eq_comm, eq_comm (a := (0 : ℚ)), toRat_eq_zero_iff]
    · rw [toRat_zero h, h, toRat_eq_zero_iff]
  · rw [decide_eq_true_eq, ← cmp_eq_eq_iff (a.toRat), cmp_toRat_align, compare_eq_iff_eq]

lemma stripZeros_spec {n : Nat} (h : n ≠ 0) :
    (stripZeros n).1 * 10 ^ (stripZeros n).2 = n ∧ ¬10 ∣ (stripZeros n).1 := by
  induction n using stripZeros.induct with
  | case1 n hn ih =>
    have hdvd : 10 ∣ n := Nat.dvd_of_mod_eq_zero hn.2
    have hrest := ih (by omega)
    rw [stripZeros, if_pos hn, pow_succ, ← mul_assoc, hrest.1]
    exact ⟨Nat.div_mul_cancel hdvd, hrest.2⟩
  | case2 n hn =>
    rw [stripZeros, if_neg hn]
    constructor
    · simp
    · intro hdvd
      exact hn ⟨h, Nat.mod_eq_zero_of_dvd hdvd⟩

lemma toRat_normalize (d : Decimal) : d.normalize.toRat = d.toRat := by
  by_cases h : d.unscaled = 0
  · rw [normalize, if_pos h, toRat_zero h]
    simp [toRat, zero]
  · obtain ⟨hstrip, -⟩ := stripZeros_spec (Int.natAbs_ne_zero.mpr h)
    have hunscaled : d.unscaled =
        d.unscaled.sign * (stripZeros d.unscaled.natAbs).1 *
          10 ^ (stripZeros d.unscaled.natAbs).2 := by
      conv_lhs => rw [← Int.sign_mul_natAbs d.unscaled, ← hstrip]
      push_cast
      ring
    have hscale : -(d.scale - ((stripZeros d.unscaled.natAbs).2 : Int)) =
        ((stripZeros d.unscaled.natAbs).2 : Int) + -d.scale := by omega
    rw [normalize, if_neg h, toRat, toRat, hscale, zpow_add₀ (by norm_num), ← mul_assoc]
    congr 1
    conv_rhs => rw [hunscaled]
    push_cast
    rw [zpow_natCast]

lemma not_dvd_normalize {d : Decimal} (h : d.unscaled ≠ 0) : ¬(10 : Int) ∣ d.normalize.unscaled := by
  obtain ⟨-, hdvd⟩ := stripZeros_spec (Int.natAbs_ne_zero.mpr h)
  rw [normalize, if_neg h]
  intro hten
  have habs := Int.natAbs_dvd_natAbs.mpr hten
  rw [Int.natAbs_mul, Int.natAbs_sign_of_ne_zero h, one_mul, Int.natAbs_natCast] at habs
  exact hdvd habs

/-- Two decimals of one number whose digits end in no zero have one scale. -/
lemma eq_of_toRat_eq {a b : Decimal} (hb : ¬(10 : Int) ∣ b.unscaled) (hle : a.scale ≤ b.scale)
    (h : a.toRat = b.toRat) : a = b := by
  have hpow : (10 : ℚ) ^ (-b.scale) ≠ 0 := zpow_ne_zero _ (by norm_num)
  rw [toRat_eq_shift a hle, toRat, mul_left_inj' hpow, Int.cast_inj] at h
  cases hgap : (b.scale - a.scale).toNat with
  | zero =>
    have hscale : a.scale = b.scale := by omega
    have hunscaled : a.unscaled = b.unscaled := by simpa [hgap] using h
    exact congrArg₂ Decimal.mk hunscaled hscale
  | succ gap =>
    refine absurd ⟨a.unscaled * 10 ^ gap, ?_⟩ hb
    rw [← h, hgap, Nat.pow_eq]
    push_cast
    ring

/-- Normal forms are the same exactly for decimals of the same number. -/
theorem normalize_eq_iff (a b : Decimal) : a.normalize = b.normalize ↔ a.equal b := by
  rw [equal_iff_toRat_eq]
  constructor
  · intro h
    rw [← toRat_normalize a, ← toRat_normalize b, h]
  · intro h
    by_cases ha : a.unscaled = 0
    · have hb : b.unscaled = 0 := by
        rw [← toRat_eq_zero_iff, ← h, toRat_zero ha]
      rw [normalize, normalize, if_pos ha, if_pos hb]
    · have hb : b.unscaled ≠ 0 := fun hb => ha (by
        rw [← toRat_eq_zero_iff, h, toRat_zero hb])
      rw [← toRat_normalize a, ← toRat_normalize b] at h
      rcases le_total a.normalize.scale b.normalize.scale with hle | hle
      · exact eq_of_toRat_eq (not_dvd_normalize hb) hle h
      · exact (eq_of_toRat_eq (not_dvd_normalize ha) hle h.symm).symm

/-- The texts of normal forms tell the numbers of decimals apart, and nothing else. -/
theorem text_normalize_eq_iff (a b : Decimal) :
    a.normalize.text = b.normalize.text ↔ a.equal b := by
  constructor
  · intro h
    have hread : ofText? a.normalize.text = ofText? b.normalize.text := by rw [h]
    rw [ofText?_text, ofText?_text, Option.some_inj] at hread
    rw [equal_iff_toRat_eq, ← toRat_normalize a, ← toRat_normalize b, ← toRat_positional, hread,
      toRat_positional]
  · intro h
    rw [(normalize_eq_iff a b).mpr h]

end Decimal

end EntityGraph

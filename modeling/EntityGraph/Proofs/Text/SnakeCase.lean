import EntityGraph.Text.SnakeCase
import Mathlib.Tactic
/-!
# Names with one snake case

Snake case keeps the words of a name and forgets what stands between them and the case of letters.
No word is empty and none holds the character that joins them, so the words can be told from the
snake case: two names share it exactly if they have the same words.
-/
namespace EntityGraph.Text

/-- The words of a name in small letters. -/
def foldedWords (name : String) : List (List Char) := (words name.toList).map (·.map Char.toLower)

/-- Names that differ only in the case of their letters and in what separates their words. -/
def Alike (name other : String) : Prop := foldedWords name = foldedWords other

instance (name other : String) : Decidable (Alike name other) :=
  inferInstanceAs (Decidable (foldedWords name = foldedWords other))

/-! ### Words -/

lemma isAlphanum_of_mem_runs {text run : List Char} (hrun : ∀ c ∈ run, c.isAlphanum)
    {piece : List Char} (h : piece ∈ runs run text) : ∀ c ∈ piece, c.isAlphanum := by
  induction text generalizing run with
  | nil =>
    by_cases hempty : run = []
    · simp [runs, hempty] at h
    · simp only [runs, List.isEmpty_iff, hempty, if_false, List.mem_singleton] at h
      simpa [h] using hrun
  | cons c rest ih =>
    by_cases hc : c.isAlphanum
    · rw [runs, if_pos hc] at h
      exact ih (List.forall_mem_cons.mpr ⟨hc, hrun⟩) h
    · rw [runs, if_neg hc] at h
      split at h
      · exact ih (by simp) h
      · rcases List.mem_cons.mp h with rfl | h
        · simpa using hrun
        · exact ih (by simp) h

/-- A word is cut off only behind a character, and consists of characters of its run. -/
lemma of_mem_cutWords {text word : List Char} {case : Case} (hword : ∀ c ∈ word, c.isAlphanum)
    (htext : ∀ c ∈ text, c.isAlphanum) (hcase : word = [] → case = .none) {piece : List Char}
    (h : piece ∈ cutWords word case text) : piece ≠ [] ∧ ∀ c ∈ piece, c.isAlphanum := by
  induction text generalizing word case with
  | nil =>
    by_cases hempty : word = []
    · simp [cutWords, hempty] at h
    · simp only [cutWords, List.isEmpty_iff, hempty, if_false, List.mem_singleton] at h
      simpa [h, hempty] using hword
  | cons c rest ih =>
    rw [List.forall_mem_cons] at htext
    have hlonger : ∀ d ∈ c :: word, d.isAlphanum := List.forall_mem_cons.mpr ⟨htext.1, hword⟩
    have hcut : (c :: word).reverse ≠ [] ∧ ∀ d ∈ (c :: word).reverse, d.isAlphanum :=
      ⟨by simp, fun d hd => hlonger d (List.mem_reverse.mp hd)⟩
    cases rest with
    | nil =>
      rw [cutWords, List.mem_singleton] at h
      exact h ▸ hcut
    | cons next rest =>
      rw [cutWords] at h
      split at h
      · -- The word ends with this character.
        rcases List.mem_cons.mp h with rfl | h
        · exact hcut
        · exact ih (by simp) htext.2 (fun _ => rfl) h
      · split at h
        · -- The word ends in front of this character, so it is not empty.
          rename_i hrow
          have hne : word ≠ [] := fun hnil => by simp [hcase hnil] at hrow
          rcases List.mem_cons.mp h with rfl | h
          · simpa [hne] using hword
          · exact ih (by simp [htext.1]) htext.2 (by simp) h
        · exact ih hlonger htext.2 (by simp) h

lemma of_mem_words {name word : List Char} (h : word ∈ words name) :
    word ≠ [] ∧ ∀ c ∈ word, c.isAlphanum := by
  obtain ⟨run, hrun, h⟩ := List.mem_flatMap.mp h
  exact of_mem_cutWords (by simp) (isAlphanum_of_mem_runs (by simp) hrun) (fun _ => rfl) h

lemma toLower_ne_underscore {c : Char} (h : c.isAlphanum) : c.toLower ≠ '_' := by
  intro heq
  unfold Char.toLower at heq
  split at heq
  · rename_i hupper
    have hval : c.val + 32 = 95 := congrArg Char.val heq
    simp only [ge_iff_le, UInt32.le_iff_toNat_le, ← UInt32.toNat_inj, UInt32.toNat_add]
      at hupper hval
    simp at hupper hval
    omega
  · rw [heq] at h
    contradiction

lemma of_mem_foldedWords {name : String} {word : List Char} (h : word ∈ foldedWords name) :
    word ≠ [] ∧ '_' ∉ word := by
  obtain ⟨original, hmem, rfl⟩ := List.mem_map.mp h
  obtain ⟨hne, hall⟩ := of_mem_words hmem
  refine ⟨by simpa using hne, fun hunderscore => ?_⟩
  obtain ⟨c, hc, heq⟩ := List.mem_map.mp hunderscore
  exact toLower_ne_underscore (hall c hc) heq

/-! ### Telling the words -/

lemma intercalate_injective {words others : List (List Char)}
    (hwords : ∀ word ∈ words, word ≠ [] ∧ '_' ∉ word)
    (hothers : ∀ word ∈ others, word ≠ [] ∧ '_' ∉ word)
    (h : ['_'].intercalate words = ['_'].intercalate others) : words = others := by
  have hsplit := congrArg (List.splitOn '_') h
  -- Without words there is nothing to split, which reads as one empty word.
  have hnone (list : List (List Char)) (hlist : ∀ word ∈ list, word ≠ [] ∧ '_' ∉ word) :
      List.splitOn '_' (['_'].intercalate list) = if list = [] then [[]] else list := by
    split
    · rename_i hnil
      simp [hnil]
    · exact List.splitOn_intercalate '_' (fun word hw => (hlist word hw).2) ‹_›
  rw [hnone words hwords, hnone others hothers] at hsplit
  split at hsplit <;> split at hsplit
  · simp [*]
  · exact absurd rfl (hothers [] (by simp [← hsplit])).1
  · exact absurd rfl (hwords [] (by simp [hsplit])).1
  · exact hsplit

theorem snakeCase_eq_iff (name other : String) :
    snakeCase name = snakeCase other ↔ Alike name other := by
  constructor
  · intro h
    have hchars : ['_'].intercalate (foldedWords name) = ['_'].intercalate (foldedWords other) :=
      String.ofList_injective h
    exact intercalate_injective (fun _ => of_mem_foldedWords) (fun _ => of_mem_foldedWords) hchars
  · intro h
    exact congrArg (fun words => String.ofList (['_'].intercalate words)) h

example : Alike "HTTPServer" "http-server" ∧ ¬ Alike "HTTPServer" "HttpServers" := by
  decide +kernel

end EntityGraph.Text

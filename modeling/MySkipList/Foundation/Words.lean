import MySkipList.Foundation.Text

namespace MySkipList.Foundation

/-- A word is not empty and has no white space. -/
structure Word (text : Str) : Prop where
  nonempty : text ≠ []
  solid : ∀ byte ∈ text, isSpace byte = false

/-- A text spells its words: white space stands before, between and after them. -/
inductive Spells : Str → List Str → Prop where
  | done : Spells [] []
  | blank {byte text words} (space : isSpace byte = true) (rest : Spells text words) : Spells (byte :: text) words
  | last {word} (solid : Word word) : Spells word [word]
  | next {word byte text words} (solid : Word word) (space : isSpace byte = true) (rest : Spells text words) :
      Spells (word ++ byte :: text) (word :: words)

variable {word text : Str} {words : List Str} {byte : Byte}

theorem tokens_blank (space : isSpace byte = true) (text : Str) : tokens (byte :: text) = tokens text := by
  rw [tokens, List.splitOnP_cons_eq_if_modifyHead, if_pos space, List.filter_cons_of_neg (by simp), tokens]

theorem tokens_last (solid : Word word) : tokens word = [word] := by
  rw [tokens, List.splitOnP_eq_singleton solid.solid, List.filter_cons_of_pos (by simpa using solid.nonempty),
    List.filter_nil]

theorem tokens_next (solid : Word word) (space : isSpace byte = true) (text : Str) :
    tokens (word ++ byte :: text) = word :: tokens text := by
  rw [tokens, List.splitOnP_append_cons_of_forall_mem solid.solid byte space,
    List.filter_cons_of_pos (by simpa using solid.nonempty), tokens]

/-- A text that starts without white space starts with a word that white space or the end follows. -/
theorem leading_word (rest : Str) (solid : isSpace byte = false) :
    ∃ word later, byte :: rest = word ++ later ∧ Word word ∧ ∀ first, later.head? = some first → isSpace first = true := by
  refine ⟨(byte :: rest).takeWhile fun byte => !isSpace byte, (byte :: rest).dropWhile fun byte => !isSpace byte,
    List.takeWhile_append_dropWhile.symm, ⟨by simp [solid], ?_⟩, ?_⟩
  · intro other member
    simpa using List.mem_takeWhile_imp member
  · intro first head
    have stops := List.head?_dropWhile_not (fun byte => !isSpace byte) (byte :: rest)
    rw [head] at stops
    simpa using stops

/-- Every text spells its tokens. -/
theorem spells_tokens (text : Str) : Spells text (tokens text) := by
  induction size : text.length using Nat.strong_induction_on generalizing text with
  | h size ih =>
      cases text with
      | nil => exact .done
      | cons byte rest =>
          by_cases space : isSpace byte = true
          · rw [tokens_blank space]
            exact .blank space (ih rest.length (by simp [← size]) rest rfl)
          · obtain ⟨word, later, form, solid, start⟩ := leading_word rest (by simpa using space)
            cases later with
            | nil =>
                rw [form, List.append_nil, tokens_last solid]
                exact .last solid
            | cons first after =>
                have blank := start first rfl
                rw [form, tokens_next solid blank]
                refine .next solid blank (ih after.length ?_ after rfl)
                rw [← size, form, List.length_append, List.length_cons]
                omega

/-- The tokens of a text are exactly the words that it spells. -/
theorem tokens_eq_iff : tokens text = words ↔ Spells text words := by
  constructor
  · rintro rfl
    exact spells_tokens text
  · intro spells
    induction spells with
    | done => rfl
    | blank space _ ih => rw [tokens_blank space, ih]
    | last solid => exact tokens_last solid
    | next solid space _ ih => rw [tokens_next solid space, ih]

end MySkipList.Foundation

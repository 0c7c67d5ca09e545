import MySkipList.Proof.Server.Refinement
import MySkipList.Specification.Grammar

namespace MySkipList

open Foundation

/-- A command has exactly its spellings. -/
theorem verb_eq_iff {cmd : Str} {action : Verb} (known : action ≠ .unknown) : verb cmd = action ↔ cmd ∈ action.spellings := by
  constructor
  · rintro rfl
    unfold verb at known ⊢
    split_ifs at known ⊢ <;> simp_all [Verb.spellings]
  · intro member
    cases action with
    | unknown => exact absurd rfl known
    | _ =>
        simp only [Verb.spellings, List.mem_cons, List.not_mem_nil, or_false] at member
        rcases member with rfl | rfl | rfl | rfl <;> decide

namespace Request
variable {request : Request} {key : Str} {call : Call}

/-- A command is whole exactly when its words are a phrase. -/
theorem call_eq_phrase : request.call = some (key, call) ↔ Phrase request.draws request.words key call := by
  constructor
  · intro whole
    have words (arg : Str) (rest : List Str) (args : request.args = arg :: rest) :
        request.words = request.cmd :: arg :: rest := by
      unfold Request.cmd
      unfold Request.args at args
      cases form : request.words with
      | nil => simp [form] at args
      | cons first others => rw [form, List.tail_cons] at args; rw [args]; rfl
    rcases Request.call_cases whole with ⟨text, member, score, action, args, read, rfl⟩ | ⟨member, action, args, rfl⟩ |
      ⟨member, action, args, rfl⟩ | ⟨action, args, rfl⟩
    · rw [words _ _ args]
      exact .zadd ((verb_eq_iff (by decide)).mp action) read
    · rw [words _ _ args]
      exact .zscore ((verb_eq_iff (by decide)).mp action)
    · rw [words _ _ args]
      exact .zrem ((verb_eq_iff (by decide)).mp action)
    · rw [words _ _ args]
      exact .zcard ((verb_eq_iff (by decide)).mp action)
  · intro phrase
    unfold Request.call Request.cmd Request.args
    generalize request.words = words at phrase
    cases phrase with
    | zadd named read =>
        simp only [List.headD_cons, List.tail_cons, (verb_eq_iff (by decide)).mpr named, read]
        rfl
    | zscore named => simp only [List.headD_cons, List.tail_cons, (verb_eq_iff (by decide)).mpr named]
    | zrem named => simp only [List.headD_cons, List.tail_cons, (verb_eq_iff (by decide)).mpr named]
    | zcard named => simp only [List.headD_cons, List.tail_cons, (verb_eq_iff (by decide)).mpr named]

/-- The server takes a received text for a whole set command exactly when the text before its first zero byte spells a
phrase of the wire format, with any white space around the words. -/
theorem call_eq_some_iff (request : Request) (key : Str) (call : Call) :
    request.call = some (key, call) ↔
      ∃ words, Spells (cString request.buffer) words ∧ Phrase request.draws words key call := by
  rw [call_eq_phrase]
  constructor
  · exact fun phrase => ⟨request.words, spells_tokens _, phrase⟩
  · rintro ⟨words, spells, phrase⟩
    rw [Request.words, tokens_eq_iff.mpr spells]
    exact phrase

end Request

section Sentences

theorem spells_blanks {blanks : Str} (blank : ∀ byte ∈ blanks, isSpace byte = true) : Spells blanks [] := by
  induction blanks with
  | nil => exact .done
  | cons byte rest ih =>
      obtain ⟨first, later⟩ := List.forall_mem_cons.mp blank
      exact .blank first (ih later)

theorem spells_sentence {words : List Str} (solid : ∀ word ∈ words, Word word) {blanks : Str}
    (blank : ∀ byte ∈ blanks, isSpace byte = true) : Spells (sentence words ++ blanks) words := by
  induction words with
  | nil => exact spells_blanks blank
  | cons word rest ih =>
      obtain ⟨first, later⟩ := List.forall_mem_cons.mp solid
      cases rest with
      | nil =>
          cases blanks with
          | nil =>
              rw [List.append_nil]
              exact .last first
          | cons byte blanks =>
              obtain ⟨space, others⟩ := List.forall_mem_cons.mp blank
              exact .next first space (spells_blanks others)
      | cons next others =>
          have spelled : sentence (word :: next :: others) ++ blanks =
              word ++ 32 :: (sentence (next :: others) ++ blanks) := by
            have name : bytes " " = [32] := rfl
            simp [sentence, name]
          rw [spelled]
          exact .next first (by decide) (ih later)

theorem cString_eq_self {text : Str} : cString text = text ↔ ∀ byte ∈ text, byte ≠ 0 := by
  rw [cString, List.takeWhile_eq_self_iff]
  simp

/-- A sentence of words without a zero byte has no zero byte. -/
theorem cString_sentence {words : List Str} (plain : ∀ word ∈ words, cString word = word) :
    cString (sentence words) = sentence words := by
  induction words with
  | nil => rfl
  | cons word rest ih =>
      obtain ⟨first, later⟩ := List.forall_mem_cons.mp plain
      cases rest with
      | nil => exact first
      | cons next others =>
          have name : cString (bytes " ") = bytes " " := by decide
          rw [cString_eq_self] at first name ⊢
          have tail := cString_eq_self.mp (ih later)
          intro byte member
          rcases List.mem_append.mp member with front | inside
          · exact (List.mem_append.mp front).elim (first byte) (name byte)
          · exact tail byte inside

/-- The text of a number is a word without a zero byte. -/
theorem decimal_word (value : Int) : Word (decimal value) ∧ cString (decimal value) = decimal value := by
  have digits (byte : Byte) (member : byte ∈ digitsText value.natAbs) : isSpace byte = false ∧ byte ≠ 0 := by
    have digit := digitsText_isDigit _ byte member
    refine ⟨(digit_not_space byte digit).1, ?_⟩
    rintro rfl
    exact absurd digit (by decide)
  have solid : ∀ byte ∈ decimal value, isSpace byte = false ∧ byte ≠ 0 := by
    intro byte member
    unfold decimal at member
    split at member
    · rcases List.mem_cons.mp member with rfl | inside
      · decide
      · exact digits byte inside
    · exact digits byte member
  exact ⟨⟨decimal_nonempty value, fun byte member => (solid byte member).1⟩,
    cString_eq_self.mpr fun byte member => (solid byte member).2⟩

theorem Call.Sendable.words {draws : List Nat} {call : Call} (sendable : call.Sendable draws) {key : Str}
    (solid : Word key) (plain : cString key = key) :
    ∀ word ∈ call.words key, Word word ∧ cString word = word := by
  have name (text : Str) (member : text ∈ [bytes "ZADD", bytes "ZSCORE", bytes "ZREM", bytes "ZCARD"]) :
      Word text ∧ cString text = text := by
    have all : ∀ text ∈ [bytes "ZADD", bytes "ZSCORE", bytes "ZREM", bytes "ZCARD"],
        (text ≠ [] ∧ ∀ byte ∈ text, isSpace byte = false) ∧ cString text = text := by decide +kernel
    obtain ⟨⟨nonempty, unspaced⟩, whole⟩ := all text member
    exact ⟨⟨nonempty, unspaced⟩, whole⟩
  cases call with
  | save => exact absurd rfl sendable.command
  | insertElement ele score other =>
      simpa [Call.words, solid, plain, decimal_word, name] using sendable.solid ele rfl
  | searchElement ele => simpa [Call.words, solid, plain, name] using sendable.solid ele rfl
  | deleteElement ele => simpa [Call.words, solid, plain, name] using sendable.solid ele rfl
  | length => simp [Call.words, solid, plain, name]

end Sentences

theorem Call.Sendable.phrase {draws : List Nat} {call : Call} (sendable : call.Sendable draws) (key : Str) :
    Phrase draws (call.words key) key call := by
  cases call with
  | save => exact absurd rfl sendable.command
  | insertElement ele score other =>
      obtain rfl := sendable.drawn ele score other rfl
      exact .zadd (by decide) (stoi_decimal score)
  | searchElement ele => exact .zscore (by decide)
  | deleteElement ele => exact .zrem (by decide)
  | length => exact .zcard (by decide)

/-- What a client writes for a call is read back as this call: the words with one blank between two of them, and after
them white space up to a zero byte or the end. -/
theorem call_of_sentence (request : Request) (key : Str) (call : Call) (rest : Str)
    (sendable : call.Sendable request.draws) (solid : Word key) (plain : cString key = key)
    (blank : ∀ byte ∈ cString rest, isSpace byte = true)
    (written : request.buffer = sentence (call.words key) ++ rest) : request.call = some (key, call) := by
  have facts := sendable.words solid plain
  have text : cString request.buffer = sentence (call.words key) ++ cString rest := by
    rw [written, cString, List.takeWhile_append_of_pos, cString]
    intro byte member
    have whole := cString_eq_self.mp (cString_sentence fun word inside => (facts word inside).2)
    exact decide_eq_true (whole byte member)
  rw [Request.call_eq_phrase, Request.words, text,
    tokens_eq_iff.mpr (spells_sentence (fun word inside => (facts word inside).1) blank)]
  exact sendable.phrase key

/-- A line break follows the command. -/
theorem call_of_sentence_negative :
    (Request.mk (sentence (Call.words (bytes "k") (.insertElement (bytes "a") ⟨-7, by decide⟩ [3])) ++ bytes "\n") 0 [3]
        ⟨0, by decide⟩ fun _ => true).call =
      some (bytes "k", .insertElement (bytes "a") ⟨-7, by decide⟩ [3]) :=
  call_of_sentence _ (bytes "k") (.insertElement (bytes "a") ⟨-7, by decide +kernel⟩ [3]) (bytes "\n")
    ⟨by simp, fun _ _ _ same => (Call.insertElement.inj same).2.2.symm,
      fun ele same => Option.some.inj same ▸ ⟨⟨by decide +kernel, by decide +kernel⟩, by decide +kernel⟩⟩
    ⟨by decide +kernel, by decide +kernel⟩ (by decide +kernel) (by decide +kernel) rfl

end MySkipList

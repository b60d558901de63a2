import Formulary.Proofs.Places
import Formulary.Proofs.Renderable
import Formulary.Proofs.Seams
import Formulary.Proofs.Utf8

/-!
# Strings of well-formed texts

In a text that is well-formed UTF-8 a string is cut out between two characters, and what it denotes
is well-formed again, unless a surrogate is written in it in hexadecimal.  All other tokens are
ASCII.
-/

namespace Formulary

namespace Text

private theorem hexValue?_eq_some {byte : UInt8} {value : Nat}
    (digit : hexValue? byte = some value) : byte < 128 ∧ value < 16 := by
  simp only [hexValue?, isDigit, Bool.and_eq_true, decide_eq_true_eq, UInt8.le_iff_toNat_le,
    UInt8.reduceToNat] at digit
  rw [UInt8.lt_iff_toNat_lt]
  simp only [UInt8.reduceToNat]
  split at digit
  · cases digit
    omega
  · split at digit
    · cases digit
      omega
    · split at digit
      · cases digit
        omega
      · cases digit

end Text

namespace Lexicon

open Text.Utf8 (isValid isHigh isHigh_iff isSurrogate)

/-- The code units that a string has in hexadecimal, in order. -/
def codeUnits : Text → List Nat
  | [] => []
  | byte :: rest =>
      if byte = Text.backslash then
        match rest with
        | [] => []
        | escaped :: rest =>
            if escaped = Lexeme.unicodeMark then
              match rest with
              | a :: b :: c :: d :: rest => (Lexeme.codeUnit? a b c d).toList ++ codeUnits rest
              | _ => []
            else codeUnits rest
      else codeUnits rest

private theorem codeUnits_plain {byte : UInt8} (not_backslash : byte ≠ Text.backslash)
    (rest : Text) : codeUnits (byte :: rest) = codeUnits rest := by
  rw [codeUnits.eq_def]
  simp only [not_backslash, if_false]

private theorem codeUnits_escaped {byte : UInt8} (not_unicode : byte ≠ Lexeme.unicodeMark)
    (rest : Text) : codeUnits (Text.backslash :: byte :: rest) = codeUnits rest := by
  rw [codeUnits.eq_def]
  simp only [not_unicode, if_true, if_false]

private theorem codeUnits_unicode {a b c d : UInt8} {unit : Nat}
    (digits : Lexeme.codeUnit? a b c d = some unit) (rest : Text) :
    codeUnits (Text.backslash :: Lexeme.unicodeMark :: a :: b :: c :: d :: rest) =
      unit :: codeUnits rest := by
  rw [codeUnits.eq_def]
  simp only [digits, if_true]
  rfl

private theorem codeUnit?_eq_some {a b c d : UInt8} {unit : Nat}
    (digits : Lexeme.codeUnit? a b c d = some unit) :
    (∀ byte ∈ [a, b, c, d], byte < 128) ∧ unit < 0x10000 := by
  simp only [Lexeme.codeUnit?, Option.bind_eq_bind, Option.bind_eq_some_iff, Option.pure_def,
    Option.some.injEq] at digits
  obtain ⟨first, first_digit, second, second_digit, third, third_digit, fourth, fourth_digit,
    rfl⟩ := digits
  have first_bounds := Text.hexValue?_eq_some first_digit
  have second_bounds := Text.hexValue?_eq_some second_digit
  have third_bounds := Text.hexValue?_eq_some third_digit
  have fourth_bounds := Text.hexValue?_eq_some fourth_digit
  exact ⟨by simp [first_bounds, second_bounds, third_bounds, fourth_bounds], by omega⟩

/-- The closing quote of a string writes no code unit. -/
theorem Body.codeUnits_append {quote : UInt8} {body value : Text} (inside : Body quote body value)
    (not_backslash : quote ≠ Text.backslash) :
    codeUnits (body ++ [quote]) = codeUnits body := by
  induction inside with
  | empty => exact codeUnits_plain not_backslash []
  | plain _ not_backslash _ induction =>
      rw [List.cons_append, codeUnits_plain not_backslash, codeUnits_plain not_backslash, induction]
  | escaped not_unicode _ induction =>
      rw [List.cons_append, List.cons_append, codeUnits_escaped not_unicode,
        codeUnits_escaped not_unicode, induction]
  | unicode digits _ induction =>
      simp only [List.cons_append]
      rw [codeUnits_unicode digits, codeUnits_unicode digits, induction]

private theorem unescape_ascii {byte : UInt8} (ascii : byte < 128) :
    Lexeme.unescape byte < 128 := by
  have all : ∀ byte, byte < 128 → Lexeme.unescape byte < 128 :=
    Text.Utf8.forall_of_codes (by decide +kernel)
  exact all byte ascii

private theorem unescape_high {byte : UInt8} (high : ¬ byte < 128) :
    Lexeme.unescape byte = byte := by
  have all : ∀ byte, ¬ byte < 128 → Lexeme.unescape byte = byte :=
    Text.Utf8.forall_of_codes (by decide +kernel)
  exact all byte high

private theorem Body.exists_behind {quote byte : UInt8} {rest value : Text}
    (inside : Body quote (byte :: rest) value) (not_backslash : byte ≠ Text.backslash) :
    ∃ behind, value = byte :: behind ∧ Body quote rest behind := by
  cases inside with
  | plain _ _ more => exact ⟨_, rfl, more⟩
  | escaped | unicode => exact absurd rfl not_backslash

/-- In front of the rest of a body, bytes that are not ASCII denote themselves. -/
theorem Body.behind_high {quote : UInt8} {front back value : Text}
    (inside : Body quote (front ++ back) value) (high : ∀ byte ∈ front, isHigh byte) :
    codeUnits (front ++ back) = codeUnits back ∧
      ∃ behind, value = front ++ behind ∧ Body quote back behind := by
  induction front generalizing value with
  | nil => exact ⟨rfl, value, rfl, inside⟩
  | cons byte front induction =>
      obtain ⟨first_high, high⟩ := List.forall_mem_cons.mp high
      have not_backslash : byte ≠ Text.backslash := by
        rintro rfl
        exact isHigh_iff.mp first_high (by decide)
      obtain ⟨behind, rfl, more⟩ := inside.exists_behind not_backslash
      obtain ⟨units, behind, rfl, back_inside⟩ := induction more high
      exact ⟨(codeUnits_plain not_backslash _).trans units, behind, rfl, back_inside⟩

/--
What a body of a string denotes is valid if the body is, unless a surrogate is written in it in
hexadecimal.
-/
theorem Body.isValid_iff {quote : UInt8} (ascii_quote : quote < 128) {body value : Text}
    (inside : Body quote body value) (valid : isValid body) :
    isValid value ↔ ∀ unit ∈ codeUnits body, ¬ isSurrogate unit := by
  -- The induction is on the length, since a character of several bytes is taken at once.
  induction size : body.length using Nat.strongRecOn generalizing body value with
  | _ size induction =>
      subst size
      cases id inside with
      | empty => simp [codeUnits, isValid]
      | @plain byte rest value not_quote not_backslash more =>
          by_cases ascii : byte < 128
          · rw [Text.Utf8.isValid_ascii ascii] at valid ⊢
            rw [codeUnits_plain not_backslash]
            exact induction rest.length (Nat.lt_succ_self _) more valid rfl
          · obtain ⟨front, back, split, character, back_valid⟩ :=
              Text.Utf8.exists_character valid
            have high : ∀ byte ∈ front, isHigh byte := by
              rcases character.ascii_or_high with ⟨only, rfl, only_ascii⟩ | high
              · cases split
                exact absurd only_ascii ascii
              · exact high
            have positive := List.length_pos_iff.mpr character.ne_nil
            have shorter := congrArg List.length split
            rw [List.length_append] at shorter
            rw [split] at inside ⊢
            obtain ⟨units, behind, denotes, inside⟩ := inside.behind_high high
            rw [denotes, character.isValid_append, units]
            exact induction back.length (by omega) inside back_valid rfl
      | @escaped byte rest value not_unicode more =>
          rw [codeUnits_escaped not_unicode]
          rw [Text.Utf8.isValid_ascii (by decide)] at valid
          by_cases ascii : byte < 128
          · rw [Text.Utf8.isValid_ascii ascii] at valid
            rw [Text.Utf8.isValid_ascii (unescape_ascii ascii)]
            exact induction rest.length (by simp only [List.length_cons]; omega) more valid rfl
          · -- The backslash is dropped in front of such a byte, as if it had not been there.
            have not_quote : byte ≠ quote := fun same => ascii (same ▸ ascii_quote)
            have not_backslash : byte ≠ Text.backslash := fun same => ascii (same ▸ by decide)
            rw [unescape_high ascii, ← codeUnits_plain not_backslash rest]
            exact induction (byte :: rest).length (Nat.lt_succ_self _)
              (.plain not_quote not_backslash more) valid rfl
      | @unicode a b c d unit rest value digits more =>
          obtain ⟨ascii, small⟩ := codeUnit?_eq_some digits
          simp only [List.forall_mem_cons] at ascii
          obtain ⟨a_ascii, b_ascii, c_ascii, d_ascii, -⟩ := ascii
          have rest_valid : isValid rest := by
            rwa [Text.Utf8.isValid_ascii (by decide), Text.Utf8.isValid_ascii (by decide),
              Text.Utf8.isValid_ascii a_ascii, Text.Utf8.isValid_ascii b_ascii,
              Text.Utf8.isValid_ascii c_ascii, Text.Utf8.isValid_ascii d_ascii] at valid
          have shorter :
              rest.length < (Text.backslash :: 117 :: a :: b :: c :: d :: rest).length := by
            simp only [List.length_cons]
            omega
          rw [codeUnits_unicode digits, Text.Utf8.isValid_encodeUnit_append small,
            List.forall_mem_cons, induction rest.length shorter more rest_valid rfl]

/-- The kinds of string tokens. -/
def strings : List TokenKind := [.doubleQuoted, .singleQuoted]

/-- What a token denotes is ASCII, or the token is a string with a body between two quotes. -/
theorem Spells.ascii_or_string {kind : TokenKind} {spelling value : Text}
    (spells : Spells kind spelling value) :
    (kind ∉ strings ∧ ∀ byte ∈ value, byte < 128) ∨
      (kind ∈ strings ∧ ∃ quote body, (quote = Text.doubleQuote ∨ quote = Text.singleQuote) ∧
        spelling = quote :: (body ++ [quote]) ∧ Body quote body value) := by
  cases spells with
  | number numeral =>
      exact .inl ⟨by decide, fun byte member =>
        ascii_of_continues (continues_of_numeralByte (numeral.bytes byte member))⟩
  | @word first rest starts parts =>
      have apart : ∀ kind ∈ Grammar.propertyNames, kind ∉ strings := by decide
      exact .inl ⟨apart _ (wordKind_mem _),
        List.forall_mem_cons.mpr ⟨ascii_of_wordPart (wordPart_of_wordStart starts),
          fun byte member => ascii_of_wordPart (parts byte member)⟩⟩
  | doubleQuoted inside => exact .inr ⟨by decide, _, _, .inl rfl, rfl, inside⟩
  | singleQuoted inside => exact .inr ⟨by decide, _, _, .inr rfl, rfl, inside⟩
  | operator listed =>
      have apart : ∀ entry ∈ Lexeme.operators, entry.2 ∉ strings := by decide
      exact .inl ⟨apart _ listed, operators_ascii _ listed⟩

/-- In a valid text a token denotes ASCII, or it is a string and valid if it has no surrogates. -/
theorem Bears.ascii_or_valid {text : Text} (valid : isValid text) {entry : Token × Nat}
    (bears : Bears (stretch text entry) entry.1) :
    (entry.1.kind ∉ strings → ∀ byte ∈ entry.1.value, byte < 128) ∧
      (entry.1.kind ∈ strings →
        (isValid entry.1.value ↔
          ∀ unit ∈ codeUnits (stretch text entry), ¬ isSurrogate unit)) := by
  rcases bears.spells.ascii_or_string with ⟨no_string, ascii⟩ |
    ⟨is_string, quote, body, quotes, spelled, inside⟩
  · exact ⟨fun _ => ascii, fun is_string => absurd is_string no_string⟩
  · refine ⟨fun no_string => absurd is_string no_string, fun _ => ?_⟩
    have ascii_quote : quote < 128 := by rcases quotes with rfl | rfl <;> decide
    have not_backslash : quote ≠ Text.backslash := by rcases quotes with rfl | rfl <;> decide
    obtain ⟨rest, split⟩ := List.take_prefix entry.1.location.length.toNat (text.drop entry.2)
    have cut : text = text.take entry.2 ++ quote :: (body ++ quote :: rest) := calc
      text = text.take entry.2 ++ (stretch text entry ++ rest) := by
        rw [stretch, split, List.take_append_drop]
      _ = text.take entry.2 ++ quote :: (body ++ quote :: rest) := by
        rw [spelled, List.cons_append, List.append_assoc, List.singleton_append]
    rw [cut, Text.Utf8.isValid_append_ascii ascii_quote,
      Text.Utf8.isValid_append_ascii ascii_quote] at valid
    rw [spelled, codeUnits_plain not_backslash, inside.codeUnits_append not_backslash]
    exact inside.isValid_iff ascii_quote valid.2.1

variable {file text : Text} {firstLine : Int} {tokens : List Token}

/--
In a text of well-formed UTF-8 that is a sequence of tokens, what a token denotes is ASCII, unless
the token is a string; and what a string denotes is well-formed if and only if none of the code
units that are written in it in hexadecimal is a surrogate.
-/
theorem tokens_valid (valid : isValid text)
    (sequenced : Token.sequence file firstLine text = .ok tokens) :
    ∃ placed, Lexed text placed ∧ tokens = placed.map Prod.fst ∧
      (∀ entry ∈ placed, entry.1.location.file = Token.fileName file ∧
        entry.1.location.Marks firstLine text entry.2) ∧
      ∀ entry ∈ placed,
        (entry.1.kind ∉ strings → ∀ byte ∈ entry.1.value, byte < 128) ∧
        (entry.1.kind ∈ strings →
          (isValid entry.1.value ↔
            ∀ unit ∈ codeUnits (stretch text entry), ¬ isSurrogate unit)) := by
  obtain ⟨placed, lexed, rfl, located⟩ := exists_lexed sequenced
  refine ⟨placed, lexed, rfl, located, ?_⟩
  obtain ⟨reads, ends, empty, -⟩ := lexed
  refine List.forall_mem_append.mpr ⟨fun entry member =>
    (reads.bears entry member).ascii_or_valid valid, List.forall_mem_singleton.mpr ⟨?_, ?_⟩⟩
  · simp [empty]
  · simp [ends, strings]

/-- The bytes of `'é\ud800'`, where a surrogate makes the string invalid. -/
def surrogateText : Text := [39, 0xC3, 0xA9, 92, 117, 100, 56, 48, 48, 39]

theorem tokens_valid_of_surrogate :
    isValid surrogateText ∧
      ∃ tokens placed, Token.sequence [] 1 surrogateText = .ok tokens ∧
        Lexed surrogateText placed ∧ tokens = placed.map Prod.fst ∧
        ∃ entry ∈ placed, entry.1.kind ∈ strings ∧ ¬ isValid entry.1.value ∧
          ∃ unit ∈ codeUnits (stretch surrogateText entry), isSurrogate unit := by
  have valid : isValid surrogateText := by decide
  let token : Token :=
    ⟨.singleQuoted, [0xC3, 0xA9, 0xED, 0xA0, 0x80], ⟨Text.ascii "<expr>", 1, 1, 10⟩⟩
  have sequenced : Token.sequence [] 1 surrogateText =
      .ok [token, ⟨.endOfInput, [], ⟨Text.ascii "<expr>", 1, 11, 0⟩⟩] := rfl
  obtain ⟨placed, lexed, same, -, checked⟩ := tokens_valid valid sequenced
  obtain ⟨entry, member, is_token⟩ := List.mem_map.mp (same ▸ List.mem_cons_self : token ∈ _)
  have is_string : entry.1.kind ∈ strings := is_token ▸ by decide
  have invalid : ¬ isValid entry.1.value := is_token ▸ by decide
  obtain ⟨unit, written⟩ := not_forall.mp (mt ((checked entry member).2 is_string).mpr invalid)
  obtain ⟨listed, surrogate⟩ := Classical.not_imp.mp written
  exact ⟨valid, _, placed, sequenced, lexed, same, entry, member, is_string, invalid, unit, listed,
    not_not.mp surrogate⟩

end Lexicon
end Formulary

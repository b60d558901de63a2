import Formulary.Text.Quoted
import Formulary.Proofs.Excerpts
import Formulary.Proofs.Seams

/-!
# Escaped strings

Between double quotation marks an escaped text is a string that denotes the text, for every sequence
of bytes.  What is escaped has no newline in it, so that the string stands on one line.
-/

namespace Formulary

namespace Text

theorem hexValue?_hexDigit {value : Nat} (small : value < 16) :
    hexValue? (hexDigit value) = some value := by
  have all : ∀ value < 16, hexValue? (hexDigit value) = some value := by decide
  exact all value small

/-- The forms that an escaped byte can have. -/
inductive Escaped : UInt8 → Text → Prop where
  | marked {byte} (marks : byte = doubleQuote ∨ byte = backslash) : Escaped byte [backslash, byte]
  | newline : Escaped newline (ascii "\\n")
  | tab : Escaped tab (ascii "\\t")
  | carriageReturn : Escaped carriageReturn (ascii "\\r")
  | numbered {byte} (control : byte < 32) :
      Escaped byte (ascii "\\u00" ++ [hexDigit (byte.toNat / 16), hexDigit (byte.toNat % 16)])
  | plain {byte} (no_control : 32 ≤ byte) (not_quote : byte ≠ doubleQuote)
      (not_backslash : byte ≠ backslash) : Escaped byte [byte]

theorem escaped_escapeByte (byte : UInt8) : Escaped byte (escapeByte byte) := by
  rw [escapeByte]
  split
  · rename_i marks
    exact .marked (by simpa using marks)
  · rename_i unmarked
    simp only [Bool.or_eq_true, decide_eq_true_eq, not_or] at unmarked
    split
    · rename_i same
      exact same ▸ .newline
    · split
      · rename_i same
        exact same ▸ .tab
      · split
        · rename_i same
          exact same ▸ .carriageReturn
        · split
          · rename_i control
            exact .numbered control
          · rename_i no_control
            exact .plain (UInt8.not_lt.mp no_control) unmarked.1 unmarked.2

private theorem hexDigit_ne_newline {value : Nat} (small : value < 16) :
    newline ≠ hexDigit value := by
  have all : ∀ value < 16, newline ≠ hexDigit value := by decide
  exact all value small

private theorem Escaped.newline_notMem {byte : UInt8} {spelling : Text}
    (escaped : Escaped byte spelling) : Text.newline ∉ spelling := by
  cases escaped with
  | marked marks => rcases marks with rfl | rfl <;> decide
  | newline | tab | carriageReturn => decide
  | numbered control =>
      have small := byte.toNat_lt
      have high := hexDigit_ne_newline (show byte.toNat / 16 < 16 by omega)
      have low := hexDigit_ne_newline (show byte.toNat % 16 < 16 by omega)
      have front : Text.newline ∉ ascii "\\u00" := by decide
      simp [front, high, low]
  | plain no_control _ _ =>
      rw [List.mem_singleton]
      rintro rfl
      exact absurd no_control (by decide)

private theorem newline_notMem_escape (text : Text) : newline ∉ escape text := by
  intro member
  obtain ⟨byte, -, inside⟩ := List.mem_flatMap.mp member
  exact (escaped_escapeByte byte).newline_notMem inside

end Text

namespace Lexicon

private theorem codeUnit?_hexDigits (byte : UInt8) :
    Lexeme.codeUnit? 48 48 (Text.hexDigit (byte.toNat / 16)) (Text.hexDigit (byte.toNat % 16)) =
      some byte.toNat := by
  have small := byte.toNat_lt
  have high := Text.hexValue?_hexDigit (show byte.toNat / 16 < 16 by omega)
  have low := Text.hexValue?_hexDigit (show byte.toNat % 16 < 16 by omega)
  have zero : Text.hexValue? 48 = some 0 := rfl
  simp only [Lexeme.codeUnit?, zero, high, low, Option.bind_eq_bind, Option.bind_some,
    Option.pure_def, Option.some.injEq]
  omega

/-- A byte that is escaped denotes itself. -/
theorem Body.of_escaped {byte : UInt8} {spelling body value : Text}
    (escaped : Text.Escaped byte spelling) (more : Body Text.doubleQuote body value) :
    Body Text.doubleQuote (spelling ++ body) (byte :: value) := by
  cases escaped with
  | marked marks => rcases marks with rfl | rfl <;> exact .escaped (by decide) more
  | newline | tab | carriageReturn => exact .escaped (by decide) more
  | numbered control =>
      have one_byte : Text.Utf8.encodeUnit byte.toNat = [byte] := by
        have small : byte.toNat < 32 := UInt8.lt_iff_toNat_lt.mp control
        rw [Text.Utf8.encodeUnit, if_pos (by omega), UInt8.ofNat_toNat]
      have body : Body Text.doubleQuote _ (Text.Utf8.encodeUnit byte.toNat ++ value) :=
        .unicode (codeUnit?_hexDigits byte) more
      rwa [one_byte] at body
  | plain _ not_quote not_backslash => exact .plain not_quote not_backslash more

/-- An escaped text denotes the text. -/
theorem Body.escape (text : Text) : Body Text.doubleQuote (Text.escape text) text := by
  induction text with
  | nil => exact .empty
  | cons byte text induction => exact .of_escaped (Text.escaped_escapeByte byte) induction

/--
An escaped text between double quotation marks is one string token that denotes the text and stands
on all bytes of the line, and an end of input behind it.
-/
theorem sequence_quote_escape (file : Text) (firstLine : Int) (text : Text) :
    Token.sequence file firstLine (Text.quote (Text.escape text)) =
      .ok [⟨.doubleQuoted, text,
          ⟨Token.fileName file, firstLine, 1, (Text.escape text).length + 2⟩⟩,
        ⟨.endOfInput, [],
          ⟨Token.fileName file, firstLine, (Text.escape text).length + 3, 0⟩⟩] := by
  have no_newline : Text.newline ∉ Text.quote (Text.escape text) := by
    have marked : Text.newline ≠ Text.doubleQuote := by decide
    simp [Text.quote, marked, Text.newline_notMem_escape]
  have width : (Text.quote (Text.escape text)).length = (Text.escape text).length + 2 := by
    simp [Text.quote]
  have behind : Position.afterText ⟨firstLine, 1⟩ (Text.quote (Text.escape text)) =
      ⟨firstLine, (Text.escape text).length + 3⟩ := by
    rw [Position.afterText_eq, List.count_eq_zero.mpr no_newline,
      Text.lastLine_of_notMem no_newline, width]
    simp
    omega
  have longest : Longest (Text.quote (Text.escape text) ++ []) .doubleQuoted
      (Text.quote (Text.escape text)) text := .doubleQuoted (.escape text) []
  have tiles : Tiles (Token.fileName file) ⟨firstLine, 1⟩ _ _ _ _ := .lexeme longest .stop
  rw [List.append_nil, behind, width] at tiles
  rw [sequence_eq_ok_iff.mpr ⟨_, _, tiles.tilesText, rfl⟩]
  rfl

end Lexicon
end Formulary

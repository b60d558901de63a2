import Formulary.Proofs.Elsewhere
import Formulary.Proofs.Places

/-!
# Texts further down

A text that begins so many lines further down has the same lexemes and the same tree.  Its tokens
and its errors stand as many lines further down, and its evaluation, which looks at no token, is the
same.
-/

namespace Formulary

/-- The position so many lines further down. -/
def Position.movedDown (count : Int) (position : Position) : Position :=
  { position with line := position.line + count }

/-- The location so many lines further down. -/
def Location.movedDown (count : Int) (location : Location) : Location :=
  { location with line := location.line + count }

/-- The token so many lines further down. -/
def Token.movedDown (count : Int) (token : Token) : Token :=
  { token with location := token.location.movedDown count }

/-- The fault that is found so many lines further down. -/
def SyntaxFault.movedDown (count : Int) : SyntaxFault → SyntaxFault
  | lexical fault => lexical fault
  | grammatical fault found => grammatical fault (found.movedDown count)

/-- The error that lies so many lines further down. -/
def SyntaxError.movedDown (count : Int) (error : SyntaxError) : SyntaxError where
  fault := error.fault.movedDown count
  location := error.location.movedDown count

namespace Position

variable (count : Int) (position : Position)

private theorem after_movedDown (byte : UInt8) :
    (position.movedDown count).after byte = (position.after byte).movedDown count := by
  by_cases ends : byte = Text.newline
  · simp only [after, if_pos ends, movedDown, Position.mk.injEq, and_true]
    omega
  · simp only [after, if_neg ends, movedDown]

private theorem afterText_movedDown (text : Text) :
    (position.movedDown count).afterText text = (position.afterText text).movedDown count := by
  induction text generalizing position with
  | nil => rfl
  | cons byte rest induction =>
      have next := induction (position.after byte)
      rw [← after_movedDown] at next
      exact next

end Position

namespace Token

/-- A lexical result so many lines further down. -/
def resultMovedDown (count : Int) :
    Except SyntaxError (List Token) → Except SyntaxError (List Token)
  | .ok tokens => .ok (tokens.map (movedDown count))
  | .error error => .error (error.movedDown count)

private theorem sequenceFrom_movedDown (count : Int) (file : Text) (pending : Nat)
    (position : Position) (text : Text) :
    sequenceFrom file pending (position.movedDown count) text =
      resultMovedDown count (sequenceFrom file pending position text) := by
  induction text generalizing pending position with
  | nil => cases pending <;> rfl
  | cons byte rest induction =>
      cases pending with
      | succ pending => rw [sequenceFrom, sequenceFrom, Position.after_movedDown, induction]
      | zero =>
          rw [sequenceFrom, sequenceFrom, Position.after_movedDown]
          split
          · exact induction 0 (position.after byte)
          · cases scanned : Lexeme.scan byte rest with
            | error failure =>
                simp only [Position.afterText_movedDown]
                rfl
            | ok lexeme =>
                have later := induction (lexeme.width - 1) (position.after byte)
                simp only [later]
                cases sequenceFrom file (lexeme.width - 1) (position.after byte) rest <;> rfl

/-- The tokens of a text that begins further down stand further down. -/
theorem sequence_movedDown (count : Int) (file : Text) (firstLine : Int) (text : Text) :
    sequence file (firstLine + count) text =
      resultMovedDown count (sequence file firstLine text) := by
  let start : Position := ⟨firstLine, 1⟩
  have start_moved : (⟨firstLine + count, 1⟩ : Position) = start.movedDown count := rfl
  rw [sequence, sequence, start_moved]
  split
  · rw [Position.afterText_movedDown]
    exact sequenceFrom_movedDown ..
  · exact sequenceFrom_movedDown ..

theorem sequence_ends {file text : Text} {firstLine : Int} {tokens : List Token}
    (sequenced : sequence file firstLine text = .ok tokens) :
    ∃ token ∈ tokens, token.kind = .endOfInput := by
  obtain ⟨placed, lexed, rfl, -⟩ := Lexicon.exists_lexed sequenced
  exact lexed.ends

end Token

namespace Expr

/-- Two expressions have the same run and are the same name, if they are names. -/
structure Alike (σ : Type) (first second : Expr) : Prop where
  evaluate : ∀ environment : Environment σ,
    first.evaluate environment = second.evaluate environment
  names : ∀ object : Value, (namedProperty object first : Run σ Value) = namedProperty object second

private theorem alike_relocate {σ : Type} (move : Location → Location) (expr : Expr) :
    Alike σ expr (expr.relocate move) where
  evaluate environment := (evaluate_relocate environment expr).symm
  names object := (namedProperty_relocate object expr).symm

end Expr

namespace Program

variable {σ : Type} {count : Int}

/-- What a text is, and what it is further down. -/
inductive Moved (σ : Type) (count : Int) :
    Except SyntaxError Program → Except SyntaxError Program → Prop where
  | ok {program other} (same : program.body.Alike σ other.body) :
      Moved σ count (.ok program) (.ok other)
  | error {error} : Moved σ count (.error error) (.error (error.movedDown count))

/-- Moved down, an error is in another place. -/
theorem relocate_movedDown (error : SyntaxError) :
    error.relocate (Location.movedDown count) = error.movedDown count := by
  obtain ⟨fault, location⟩ := error
  cases fault <;> rfl

private theorem ofTokens_movedDown {tokens : List Token}
    (ends : ∃ token ∈ tokens, token.kind = .endOfInput) :
    Moved σ count (ofTokens tokens) (ofTokens (tokens.map (Token.movedDown count))) := by
  have relocated : tokens.map (Token.movedDown count) =
      tokens.map (Token.relocate (Location.movedDown count)) := rfl
  rw [relocated, ofTokens_relocate ends]
  cases ofTokens tokens with
  | ok program => exact .ok (Expr.alike_relocate _ program.body)
  | error error =>
      rw [relocateResult, relocate_movedDown]
      exact .error

/-- A text that begins further down means the same, or has its error further down. -/
theorem ofText_movedDown (count : Int) (file : Text) (firstLine : Int) (text : Text) :
    Moved σ count (ofText file firstLine text) (ofText file (firstLine + count) text) := by
  rw [ofText, ofText, Token.sequence_movedDown]
  cases sequenced : Token.sequence file firstLine text with
  | error error => exact .error
  | ok tokens => exact ofTokens_movedDown (Token.sequence_ends sequenced)

end Program
end Formulary

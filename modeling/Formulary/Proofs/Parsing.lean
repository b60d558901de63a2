import Formulary.Proofs.Phrases

/-!
# Parsing reads the grammar

Every parser of expressions reads one category of the grammar, and the tokens that it looks at
behind a phrase are those that would continue the phrase.  A list of tokens is therefore accepted
exactly if it is a sentence, and what is returned is the tree of that sentence.
-/

namespace Formulary
namespace Grammar

open Formulary.Expr (Level Parser)

namespace Reads

variable {bound depth : Nat} {inner : Parser Expr}

private theorem property : Reads bound Expr.property propertyPhrase [] where
  sound {tokens expr rest} _ parsed := by
    cases tokens with
    | nil => simp [Expr.property] at parsed
    | cons token after =>
        simp only [Expr.property] at parsed
        split at parsed
        · rename_i name named
          obtain ⟨kind, rfl⟩ := propertyName?_eq_some_iff.mp named
          cases parsed
          exact ⟨[token], rfl, ⟨token, rfl, kind, rfl⟩, by simp⟩
        · simp at parsed
  complete _ phrase _ := by
    obtain ⟨name, rfl, kind, rfl⟩ := phrase
    simp [Expr.property, propertyName?_eq_some_iff.mpr ⟨kind, rfl⟩]

theorem accessStep (reads : Reads depth inner (Derives .conditional) (continuing .conditional))
    (node : Expr) :
    Reads (depth + 1) (Expr.accessStep inner node) (Language.dispatch (accessPhrase node)) [] := by
  apply dispatch
  · intro token parser accepted
    split at accepted
    · rename_i point
      cases accepted
      have reads_name : Reads depth _ _ _ :=
        property.map fun name => Expr.member node name false token
      refine reads_name.congr fun tokens expr => ?_
      simp [accessPhrase, point]
    · split at accepted
      · rename_i bracket
        cases accepted
        have apart : TokenKind.closeBracket ∉ continuing .conditional := by decide
        refine (reads.closed .expectedClosingBracket apart
          fun key => Expr.member node key true token).congr fun tokens expr => ?_
        simp [accessPhrase, bracket]
      · simp at accepted
  · rintro token fault tokens expr rejected (⟨point, -⟩ | ⟨bracket, -⟩)
    · simp [point] at rejected
    · simp [bracket] at rejected

theorem postfixed (reads : Reads depth inner (Derives .conditional) (continuing .conditional))
    (reads_primary : Reads (depth + 1) (Expr.primary inner) (Derives .primary) []) :
    Reads (depth + 1) (Expr.postfixed inner) (Derives .accessed) (continuing .accessed) := by
  rw [Expr.postfixed_eq]
  exact (reads_primary.iterate (accessStep reads) accessPhrase_starts (by simp)).congr
    fun _ _ => accessed_iff

private theorem signStep (reads : Reads bound (Expr.prefixed inner) (Derives .prefixed)
      (continuing .prefixed)) :
    Reads (bound + 1) (Expr.signStep inner) (Language.dispatch signPhrase)
      (continuing .prefixed) := by
  apply dispatch
  · intro sign parser accepted
    split at accepted
    · rename_i kind
      cases accepted
      exact (reads.map fun argument => Expr.unary sign.value true argument sign).congr
        fun _ _ => signPhrase_iff kind
    · simp at accepted
  · intro sign fault tokens expr rejected
    split at rejected
    · simp at rejected
    · exact signPhrase_rejected ‹_›

theorem prefixed (reads : Reads bound (Expr.postfixed inner) (Derives .accessed)
      (continuing .accessed)) :
    Reads bound (Expr.prefixed inner) (Derives .prefixed) (continuing .prefixed) := by
  induction bound with
  | zero => exact zero rfl fun _ => Derives.not_nil
  | succ bound induction =>
      have reads_sign := signStep (induction (reads.mono (Nat.le_succ bound)))
      rw [Expr.prefixed_eq]
      exact (reads_sign.peek reads signPhrase_starts accessed_avoids).congr
        fun _ _ => prefixed_iff

theorem chainStep {level : Level} {parser : Parser Expr}
    (reads : Reads bound parser (Derives (operand level)) (continuing (operand level)))
    (left : Expr) :
    Reads (bound + 1) (Expr.chainStep level parser left)
      (Language.dispatch (chainPhrase level left)) (continuing (operand level)) := by
  apply dispatch
  · intro token step accepted
    obtain ⟨kind, rfl⟩ := chainBranch_accepted accepted
    exact (reads.map fun right => Expr.binary (Expr.operatorText token) left right token).congr
      fun _ _ => chainPhrase_iff kind
  · intro token fault tokens expr rejected
    exact chainBranch_rejected rejected

theorem chain (level : Level) {tighter : List Level}
    (reads : Reads bound (Expr.chains inner tighter) (Derives (operand level))
      (continuing (operand level))) :
    Reads bound (Expr.chains inner (level :: tighter)) (Derives (.chain level))
      (continuing (.chain level)) := by
  rw [Expr.chains_cons_eq, continuing_chain]
  have reads_step := fun left => (chainStep reads left).mono (Nat.le_succ bound)
  exact (reads.iterate reads_step (chainPhrase_starts level) (asks_apart level)).congr
    fun _ _ => chain_iff

theorem chains (reads : Reads bound (Expr.prefixed inner) (Derives .prefixed)
      (continuing .prefixed)) :
    Reads bound (Expr.chains inner Level.all) (Derives (.chain .or)) (continuing (.chain .or)) :=
  chain .or <| chain .and <| chain .equality <| chain .comparison <| chain .additive <|
    chain .multiplicative reads

private theorem argumentsUpTo {fuel : Nat}
    (reads : Reads bound inner (Derives .conditional) (continuing .conditional))
    (enough : bound ≤ fuel) :
    Reads bound (Expr.arguments inner fuel) Listed (continuing .conditional ++ [.comma]) := by
  induction fuel generalizing bound with
  | zero =>
      obtain rfl := Nat.le_zero.mp enough
      exact zero rfl fun _ => Listed.not_nil
  | succ fuel induction =>
      rw [Expr.arguments_eq]
      have reads_first := reads.map fun first => [first]
      have reads_more := induction (reads.mono (Nat.sub_le bound 1)) (by omega)
      have progress (front : List Token) (comma : Token)
          (phrase : Language.token .comma front comma) : bound ≤ front.length + (bound - 1) := by
        obtain ⟨rfl, -⟩ := phrase
        simp
        omega
      have reads_further (values : List Expr) :=
        ((expect .comma .expectedExpression).andThen
          (fun _ => reads_more.map fun more => values ++ more) progress (by simp)).congr
          fun _ _ => furtherPhrase_iff
      exact (reads_first.extend reads_further furtherPhrase_starts (by decide)).congr
        fun _ _ => listed_iff

theorem argumentList
    (reads : Reads bound inner (Derives .conditional) (continuing .conditional)) :
    Reads bound (Expr.argumentList inner) Listed (continuing .conditional ++ [.comma]) where
  sound fits parsed :=
    (argumentsUpTo (reads.mono fits) (Nat.le_refl _)).sound (Nat.le_refl _) parsed
  complete fits phrase ends :=
    (argumentsUpTo (reads.mono fits) (Nat.le_refl _)).complete (Nat.le_refl _) phrase ends

private theorem callTail
    (reads : Reads bound inner (Derives .conditional) (continuing .conditional))
    (function : Text) (sign : Token) :
    Reads bound (Expr.callTail inner function sign) (callTailPhrase function sign) [] := by
  have reads_closing : Reads bound
      (Expr.expect .closeParenthesis (.expectedEndOfArguments function))
      (Language.token .closeParenthesis) [] := expect _ _
  have reads_none := reads_closing.map fun _ => Expr.call function [] sign
  have apart : TokenKind.closeParenthesis ∉ continuing .conditional ++ [.comma] := by decide
  have reads_some := (argumentList reads).closed (.expectedEndOfArguments function) apart
    fun values => Expr.call function values sign
  exact (reads_none.peek reads_some (closing_starts _) (closed_avoids _)).congr
    fun _ _ => callTailPhrase_iff

private theorem functionCall
    (reads : Reads bound inner (Derives .conditional) (continuing .conditional))
    (sign : Token) : Reads bound (Expr.functionCall inner sign) (callPhrase sign) [] := by
  rw [Expr.functionCall_eq]
  have progress {kind : TokenKind} (front : List Token) (token : Token)
      (_ : Language.token kind front token) : bound ≤ front.length + bound :=
    Nat.le_add_left _ _
  have reads_opened (name : Token) :=
    (expect .openParenthesis (.expectedArguments name.value)).andThen
      (fun _ => callTail reads name.value sign) progress (by simp)
  exact ((expect .identifier .expectedFunctionName).andThen reads_opened progress
    (by simp)).congr fun _ _ => callPhrase_iff

theorem primary (reads : Reads bound inner (Derives .conditional) (continuing .conditional)) :
    Reads (bound + 1) (Expr.primary inner) (Derives .primary) [] := by
  rw [Expr.primary_eq]
  refine (dispatch ?_ ?_).congr fun _ _ => derives_primary_iff.symm
  · intro token parser accepted
    obtain ⟨expr, rfl, same⟩ | ⟨rfl, same⟩ | ⟨rfl, same⟩ := primaryBranch_accepted accepted
    · exact (succeed expr).congr same
    · exact (functionCall reads token).congr same
    · exact (reads.closed .expectedClosingParenthesis (by decide) id).congr same
  · intro token fault tokens expr rejected
    exact primaryBranch_rejected rejected

private theorem branches
    (reads : Reads bound inner (Derives .conditional) (continuing .conditional)) (test : Expr) :
    Reads (bound + 1) (Expr.branches inner test) (branchPhrase test)
      (continuing .conditional) := by
  have reads_alternate (mark : Token) (consequent : Expr) :=
    (expect .colon .expectedColon).andThen
      (fun _ => reads.map fun alternate => Expr.conditional test consequent alternate mark)
      (fun _ _ _ => Nat.le_add_left _ _) (by simp)
  have reads_consequent (mark : Token) :=
    reads.andThen (reads_alternate mark) (fun _ _ _ => Nat.le_add_left _ _) (colon_apart _)
  have progress (front : List Token) (mark : Token)
      (phrase : Language.token .questionMark front mark) : bound + 1 ≤ front.length + bound := by
    obtain ⟨rfl, -⟩ := phrase
    exact Nat.le_of_eq (Nat.add_comm bound 1)
  exact ((expect .questionMark .unexpectedToken).andThen reads_consequent progress
    (by simp)).congr fun _ _ => branchPhrase_iff

private theorem conditionalOver
    (reads : Reads bound inner (Derives .conditional) (continuing .conditional)) :
    Reads (bound + 1) (Expr.conditionalOver inner) (Derives .conditional)
      (continuing .conditional) := by
  rw [Expr.conditionalOver_eq]
  have reads_test := chains (prefixed (postfixed reads (primary reads)))
  exact (reads_test.extend (branches reads) branchPhrase_starts (by decide)).congr
    fun _ _ => conditional_iff

/-- A parser that nests as deep as there are tokens reads the whole grammar. -/
theorem expression (depth : Nat) :
    Reads depth (Expr.expression depth) (Derives .conditional) (continuing .conditional) := by
  induction depth with
  | zero => exact zero rfl fun _ => Derives.not_nil
  | succ depth induction => exact conditionalOver induction

end Reads

private theorem bodyTokens_take (tokens : List Token) :
    Program.bodyTokens (tokens.take ((Program.bodyTokens tokens).length + 1)) =
      Program.bodyTokens tokens := by
  induction tokens with
  | nil => rfl
  | cons token rest induction =>
      simp only [Program.bodyTokens] at induction ⊢
      by_cases ends : token.kind = .endOfInput
      · simp [ends]
      · simp [ends, induction]

private theorem endToken_take (tokens : List Token) :
    Program.endToken (tokens.take ((Program.bodyTokens tokens).length + 1)) =
      Program.endToken tokens := by
  induction tokens with
  | nil => rfl
  | cons token rest induction =>
      simp only [Program.endToken, Program.bodyTokens] at induction ⊢
      by_cases ends : token.kind = .endOfInput
      · simp [ends]
      · simpa [ends] using induction

private theorem headD_take (tokens : List Token) (count : Nat) (default : Token) :
    (tokens.take (count + 1)).headD default = tokens.headD default := by
  cases tokens <;> rfl

theorem ofTokens_eq_ok_iff (tokens : List Token) (program : Program) :
    Program.ofTokens tokens = .ok program ↔
      Sentence (Program.bodyTokens tokens) program.body ∧ tokens.head? = some program.token := by
  have reads := Reads.expression (Program.bodyTokens tokens).length
  constructor
  · intro parsed
    simp only [Program.ofTokens] at parsed
    split at parsed
    · simp at parsed
    · rename_i expr outcome
      cases parsed
      obtain ⟨front, split, sentence, -⟩ := reads.sound (Nat.le_refl _) outcome
      rw [List.append_nil] at split
      rw [← split] at sentence
      refine ⟨sentence, ?_⟩
      cases tokens with
      | nil => exact absurd sentence Derives.not_nil
      | cons token rest => rfl
    · simp at parsed
  · rintro ⟨sentence, head⟩
    have parsed := reads.complete
      (show (Program.bodyTokens tokens ++ []).length ≤ _ by simp) sentence (ends_nil _)
    rw [List.append_nil] at parsed
    obtain ⟨body, first⟩ := program
    simp only [Program.ofTokens, parsed]
    rw [List.headD_eq_head?_getD, head]
    rfl

private theorem sentence_unique {tokens : List Token} {expr other : Expr}
    (sentence : Sentence tokens expr) (also : Sentence tokens other) : expr = other := by
  have reads := Reads.expression tokens.length
  have fits : (tokens ++ []).length ≤ tokens.length := by simp
  have same := (reads.complete fits sentence (ends_nil _)).symm.trans
    (reads.complete fits also (ends_nil _))
  cases same
  rfl

/--
Exactly the sentences of the grammar are accepted, each of them has one tree, and that tree is what
is returned; nothing behind the first end of input has an influence.
-/
theorem ofTokens_accepts_sentences (tokens : List Token) :
    (∀ program, Program.ofTokens tokens = .ok program ↔
      Sentence (Program.bodyTokens tokens) program.body ∧
        tokens.head? = some program.token) ∧
    (∀ expr other, Sentence (Program.bodyTokens tokens) expr →
      Sentence (Program.bodyTokens tokens) other → expr = other) ∧
    Program.ofTokens (tokens.take ((Program.bodyTokens tokens).length + 1)) =
      Program.ofTokens tokens := by
  refine ⟨ofTokens_eq_ok_iff tokens, fun expr other => sentence_unique, ?_⟩
  simp only [Program.ofTokens, Program.errorAt, bodyTokens_take, endToken_take, headD_take]

end Grammar
end Formulary

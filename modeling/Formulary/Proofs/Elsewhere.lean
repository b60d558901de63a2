import Formulary.Evaluation.Evaluate
import Formulary.Proofs.Combination

/-!
# Tokens in other places

No parser and no evaluation looks at the place of a token.  From tokens in other places a parser
reads the same tree, whose tokens stand in those places, or it stops for the same reason in front of
the same token; and the tree has the same run.
-/

namespace Formulary

section Relocate

variable (move : Location → Location)

/-- The token in its other place. -/
def Token.relocate (token : Token) : Token :=
  { token with location := move token.location }

/-- The tree whose tokens stand in their other places. -/
def Expr.relocate : Expr → Expr
  | missing => missing
  | literal value token => literal value (token.relocate move)
  | identifier name token => identifier name (token.relocate move)
  | member object property computed token =>
      member object.relocate property.relocate computed (token.relocate move)
  | call function arguments token =>
      call function (relocateAll arguments) (token.relocate move)
  | binary operator left right token =>
      binary operator left.relocate right.relocate (token.relocate move)
  | unary operator before argument token =>
      unary operator before argument.relocate (token.relocate move)
  | conditional test consequent alternate token =>
      conditional test.relocate consequent.relocate alternate.relocate (token.relocate move)
  | unsupported type token => unsupported type (token.relocate move)
where
  /-- The trees whose tokens stand in their other places, in order. -/
  relocateAll : List Expr → List Expr
    | [] => []
    | argument :: rest => argument.relocate :: relocateAll rest

/-- The formula whose tokens stand in their other places. -/
def Program.relocate (program : Program) : Program where
  body := program.body.relocate move
  token := program.token.relocate move

/-- The fault, found in the other place. -/
def SyntaxFault.relocate : SyntaxFault → SyntaxFault
  | lexical fault => lexical fault
  | grammatical fault found => grammatical fault (found.relocate move)

/-- The error in its other place. -/
def SyntaxError.relocate (error : SyntaxError) : SyntaxError where
  fault := error.fault.relocate move
  location := move error.location

/-- What a text is read as, in the other places. -/
def Program.relocateResult : Except SyntaxError Program → Except SyntaxError Program
  | .ok program => .ok (program.relocate move)
  | .error error => .error (error.relocate move)

end Relocate

variable {move : Location → Location}

/-- The message of a fault names no place. -/
theorem SyntaxFault.message_relocate (fault : SyntaxFault) :
    (fault.relocate move).message = fault.message := by
  cases fault <;> rfl

namespace Expr

private theorem relocateAll_append (values others : List Expr) :
    relocate.relocateAll move (values ++ others) =
      relocate.relocateAll move values ++ relocate.relocateAll move others := by
  induction values with
  | nil => rfl
  | cons value values induction =>
      rw [List.cons_append, relocate.relocateAll, relocate.relocateAll, induction,
        List.cons_append]

section Evaluation

variable {σ : Type} (environment : Environment σ)

theorem namedProperty_relocate (object : Value) (property : Expr) :
    (namedProperty object (property.relocate move) : Run σ Value) =
      namedProperty object property := by
  cases property <;> rfl

mutual

/-- The run of a tree does not depend on the places of its tokens. -/
theorem evaluate_relocate (expr : Expr) :
    (expr.relocate move).evaluate environment = expr.evaluate environment := by
  match expr with
  | .missing | .literal _ _ | .identifier _ _ | .unsupported _ _ => rfl
  | .member object property computed token =>
      simp only [relocate, evaluate, evaluate_relocate object, evaluate_relocate property,
        namedProperty_relocate]
  | .call function arguments token =>
      simp only [relocate, evaluate, evaluateAll_relocate arguments]
  | .binary operator left right token =>
      simp only [relocate, evaluate, evaluate_relocate left, evaluate_relocate right]
  | .unary operator before argument token =>
      simp only [relocate, evaluate, evaluate_relocate argument]
  | .conditional test consequent alternate token =>
      simp only [relocate, evaluate, evaluate_relocate test, evaluate_relocate consequent,
        evaluate_relocate alternate]

theorem evaluateAll_relocate (exprs : List Expr) :
    evaluate.evaluateAll environment (relocate.relocateAll move exprs) =
      evaluate.evaluateAll environment exprs := by
  match exprs with
  | [] => rfl
  | expr :: rest =>
      simp only [relocate.relocateAll, evaluate.evaluateAll, evaluate_relocate expr,
        evaluateAll_relocate rest]

end

end Evaluation

variable {α β : Type}

/-- What a parser returns, in the other places. -/
def relocateParsed (move : Location → Location) (image : α → α) :
    Except Stop (α × List Token) → Except Stop (α × List Token)
  | .ok (value, rest) => .ok (image value, rest.map (Token.relocate move))
  | .error stop => .error { stop with rest := stop.rest.map (Token.relocate move) }

/-- One parser reads tokens in other places as another one reads the tokens. -/
def Follows (move : Location → Location) (image : α → α) (parser other : Parser α) : Prop :=
  ∀ tokens, other (tokens.map (Token.relocate move)) = relocateParsed move image (parser tokens)

namespace Follows

variable {image : α → α} {image' : β → β} {parser other met unmet met' unmet' : Parser α}

private theorem succeed (value : α) :
    Follows move image (Parser.succeed value) (Parser.succeed (image value)) :=
  fun _ => rfl

private theorem andThen {next next' : α → Parser β} (follows : Follows move image parser other)
    (further : ∀ value, Follows move image' (next value) (next' (image value))) :
    Follows move image' (parser.andThen next) (other.andThen next') := by
  intro tokens
  simp only [Parser.andThen, follows tokens]
  cases parser tokens with
  | error stop => rfl
  | ok result => exact further result.1 result.2

private theorem dispatch {missing : GrammarFault}
    {branch branch' : Token → Except GrammarFault (Parser α)} (branches : ∀ token,
      (∃ parser other, branch token = .ok parser ∧ branch' (token.relocate move) = .ok other ∧
        Follows move image parser other) ∨
      ∃ fault, branch token = .error fault ∧ branch' (token.relocate move) = .error fault) :
    Follows move image (Parser.dispatch missing branch) (Parser.dispatch missing branch') := by
  intro tokens
  cases tokens with
  | nil => rfl
  | cons token rest =>
      rw [List.map_cons, Parser.dispatch, Parser.dispatch]
      obtain ⟨parser, other, taken, also_taken, follows⟩ | ⟨fault, failed, also_failed⟩ :=
        branches token
      · rw [taken, also_taken]
        exact follows rest
      · rw [failed, also_failed]
        rfl

private theorem peek (kinds : List TokenKind) (follows : Follows move image met met')
    (otherwise : Follows move image unmet unmet') :
    Follows move image (Parser.peek kinds met unmet) (Parser.peek kinds met' unmet') := by
  intro tokens
  cases tokens with
  | nil => exact otherwise []
  | cons token rest =>
      rw [List.map_cons, Parser.peek_cons, Parser.peek_cons]
      by_cases listed : token.kind ∈ kinds
      · rw [if_pos listed, if_pos (show (token.relocate move).kind ∈ kinds from listed)]
        exact follows (token :: rest)
      · rw [if_neg listed, if_neg (show (token.relocate move).kind ∉ kinds from listed)]
        exact otherwise (token :: rest)

private theorem extend (kinds : List TokenKind) {more more' : α → Parser α}
    (follows : Follows move image parser other)
    (further : ∀ value, Follows move image (more value) (more' (image value))) :
    Follows move image (Parser.extend kinds parser more) (Parser.extend kinds other more') :=
  follows.andThen fun value => peek kinds (further value) (succeed value)

private theorem loop (kinds : List TokenKind) {step step' : α → Parser α}
    (steps : ∀ value, Follows move image (step value) (step' (image value)))
    (fuel : Nat) (value : α) :
    Follows move image (Parser.loop kinds step fuel value)
      (Parser.loop kinds step' fuel (image value)) := by
  induction fuel generalizing value with
  | zero => exact succeed value
  | succ fuel induction => exact peek kinds ((steps value).andThen induction) (succeed value)

private theorem iterate (kinds : List TokenKind) {step step' : α → Parser α}
    (follows : Follows move image parser other)
    (steps : ∀ value, Follows move image (step value) (step' (image value))) :
    Follows move image (Parser.iterate kinds parser step)
      (Parser.iterate kinds other step') := by
  refine follows.andThen fun value tokens => ?_
  rw [List.length_map]
  exact loop kinds steps tokens.length value tokens

private theorem expect {kind : TokenKind} {fault : GrammarFault} :
    Follows move (Token.relocate move) (expect kind fault) (expect kind fault) := by
  intro tokens
  cases tokens with
  | nil => rfl
  | cons token rest =>
      rw [List.map_cons, Expr.expect, Expr.expect]
      by_cases expected : token.kind = kind
      · rw [if_pos expected, if_pos (show (token.relocate move).kind = kind from expected)]
        rfl
      · rw [if_neg expected, if_neg (show (token.relocate move).kind ≠ kind from expected)]
        rfl

end Follows

private theorem propertyName?_relocate (token : Token) :
    propertyName? (token.relocate move) = (propertyName? token).map (Token.relocate move) := by
  obtain ⟨kind, value, location⟩ := token
  cases kind <;> rfl

private theorem follows_property : Follows move (relocate move) property property := by
  intro tokens
  cases tokens with
  | nil => rfl
  | cons token rest =>
      rw [List.map_cons, property, property, propertyName?_relocate]
      cases propertyName? token <;> rfl

section Parsers

variable {inner : Parser Expr} (follows : Follows move (relocate move) inner inner)

include follows

private theorem follows_accessStep (node : Expr) :
    Follows move (relocate move) (accessStep inner node)
      (accessStep inner (node.relocate move)) := by
  refine .dispatch fun token => ?_
  have kind : (token.relocate move).kind = token.kind := rfl
  rw [kind]
  by_cases dot : token.kind = .dot
  · rw [if_pos dot, if_pos dot]
    refine .inl ⟨_, _, rfl, rfl, follows_property.andThen fun name => ?_⟩
    exact .succeed (Expr.member node name false token)
  · rw [if_neg dot, if_neg dot]
    by_cases bracket : token.kind = .openBracket
    · rw [if_pos bracket, if_pos bracket]
      refine .inl ⟨_, _, rfl, rfl, follows.andThen fun index => Follows.expect.andThen fun _ => ?_⟩
      exact .succeed (Expr.member node index true token)
    · rw [if_neg bracket, if_neg bracket]
      exact .inr ⟨_, rfl, rfl⟩

private theorem follows_chainStep (level : Level) (left : Expr) :
    Follows move (relocate move) (chainStep level inner left)
      (chainStep level inner (left.relocate move)) := by
  refine .dispatch fun token => ?_
  have kind : (token.relocate move).kind = token.kind := rfl
  have operator : operatorText (token.relocate move) = operatorText token := rfl
  rw [chainBranch, chainBranch, kind, operator]
  cases level.rejects? token.kind with
  | some fault => exact .inr ⟨fault, rfl, rfl⟩
  | none =>
      by_cases joins : level.joins token.kind
      · simp only [joins, if_true]
        refine .inl ⟨_, _, rfl, rfl, follows.andThen fun right => ?_⟩
        exact .succeed (Expr.binary (operatorText token) left right token)
      · simp only [joins]
        exact .inr ⟨_, rfl, rfl⟩

private theorem follows_arguments (fuel : Nat) :
    Follows move (relocate.relocateAll move) (arguments inner fuel) (arguments inner fuel) := by
  induction fuel with
  | zero => exact fun _ => rfl
  | succ fuel induction =>
      rw [arguments_eq]
      refine .extend _ (follows.andThen fun first => .succeed [first]) fun values => ?_
      refine Follows.expect.andThen fun _ => induction.andThen fun more => ?_
      rw [← relocateAll_append]
      exact .succeed (values ++ more)

private theorem follows_argumentList :
    Follows move (relocate.relocateAll move) (argumentList inner) (argumentList inner) := by
  intro tokens
  rw [argumentList, argumentList, List.length_map]
  exact follows_arguments follows tokens.length tokens

private theorem follows_functionCall (sign : Token) :
    Follows move (relocate move) (functionCall inner sign)
      (functionCall inner (sign.relocate move)) := by
  rw [functionCall_eq, functionCall_eq]
  refine Follows.expect.andThen fun name => Follows.expect.andThen fun _ => .peek _ ?_ ?_
  · exact Follows.expect.andThen fun _ => .succeed (Expr.call name.value [] sign)
  · refine (follows_argumentList follows).andThen fun values => Follows.expect.andThen fun _ => ?_
    exact .succeed (Expr.call name.value values sign)

private theorem follows_primary : Follows move (relocate move) (primary inner) (primary inner) := by
  rw [primary_eq]
  refine .dispatch fun token => ?_
  have literal : literal? (token.relocate move) = literal? token := rfl
  have kind : (token.relocate move).kind = token.kind := rfl
  rw [primaryBranch, primaryBranch, literal, kind]
  cases literal? token with
  | some value => exact .inl ⟨_, _, rfl, rfl, .succeed (Expr.literal value token)⟩
  | none =>
      dsimp only
      split
      · exact .inl ⟨_, _, rfl, rfl, .succeed (Expr.identifier token.value token)⟩
      · exact .inl ⟨_, _, rfl, rfl, follows_functionCall follows token⟩
      · refine .inl ⟨_, _, rfl, rfl, follows.andThen fun body => Follows.expect.andThen fun _ => ?_⟩
        exact .succeed body
      · exact .inr ⟨_, rfl, rfl⟩

private theorem follows_postfixed :
    Follows move (relocate move) (postfixed inner) (postfixed inner) := by
  rw [postfixed_eq]
  exact .iterate _ (follows_primary follows) (follows_accessStep follows)

private theorem follows_prefixed :
    Follows move (relocate move) (prefixed inner) (prefixed inner) := by
  intro tokens
  induction tokens with
  | nil => exact follows_postfixed follows []
  | cons token rest induction =>
      rw [List.map_cons, prefixed, prefixed]
      have kind : (token.relocate move).kind = token.kind := rfl
      rw [kind]
      split
      · rw [induction]
        cases prefixed inner rest <;> rfl
      · exact follows_postfixed follows (token :: rest)

private theorem follows_chains (levels : List Level) :
    Follows move (relocate move) (chains inner levels) (chains inner levels) := by
  induction levels with
  | nil => exact follows_prefixed follows
  | cons level tighter induction =>
      rw [chains_cons_eq]
      exact .iterate _ induction (follows_chainStep induction level)

private theorem follows_conditionalOver :
    Follows move (relocate move) (conditionalOver inner) (conditionalOver inner) := by
  rw [conditionalOver_eq]
  refine .extend _ (follows_chains follows _) fun test => ?_
  refine Follows.expect.andThen fun mark => follows.andThen fun consequent => ?_
  refine Follows.expect.andThen fun _ => follows.andThen fun alternate => ?_
  exact .succeed (Expr.conditional test consequent alternate mark)

end Parsers

/-- From tokens in other places the same expression is read, or there is the same fault. -/
theorem follows_expression (move : Location → Location) (depth : Nat) :
    Follows move (relocate move) (expression depth) (expression depth) := by
  induction depth with
  | zero => exact fun _ => rfl
  | succ depth induction => exact follows_conditionalOver induction

end Expr

namespace Program

private theorem evaluate_relocate {σ : Type} (environment : Environment σ) (program : Program) :
    (program.relocate move).evaluate environment = program.evaluate environment :=
  Expr.evaluate_relocate environment program.body

private theorem bodyTokens_relocate (tokens : List Token) :
    bodyTokens (tokens.map (Token.relocate move)) =
      (bodyTokens tokens).map (Token.relocate move) := by
  rw [bodyTokens, bodyTokens, List.takeWhile_map]
  rfl

private theorem endToken_relocate {tokens : List Token}
    (ends : ∃ token ∈ tokens, token.kind = .endOfInput) :
    endToken (tokens.map (Token.relocate move)) = (endToken tokens).relocate move := by
  obtain ⟨token, listed, is_end⟩ := ends
  have exists_end : (tokens.find? fun token => token.kind == .endOfInput).isSome :=
    List.find?_isSome.mpr ⟨token, listed, beq_iff_eq.mpr is_end⟩
  obtain ⟨found, first⟩ := Option.isSome_iff_exists.mp exists_end
  have also_first : (tokens.map (Token.relocate move)).find?
      (fun token => token.kind == .endOfInput) = some (found.relocate move) := by
    rw [List.find?_map]
    exact congrArg _ first
  rw [endToken, endToken, first, also_first]
  rfl

private theorem errorAt_relocate {tokens : List Token}
    (ends : ∃ token ∈ tokens, token.kind = .endOfInput) (fault : GrammarFault)
    (rest : List Token) :
    errorAt (tokens.map (Token.relocate move)) ⟨fault, rest.map (Token.relocate move)⟩ =
      (errorAt tokens ⟨fault, rest⟩).relocate move := by
  cases rest with
  | nil =>
      simp only [errorAt, List.map_nil, List.headD_nil, endToken_relocate ends]
      rfl
  | cons token rest => rfl

/-- Tokens in other places are the same formula, or have the same fault. -/
theorem ofTokens_relocate {tokens : List Token}
    (ends : ∃ token ∈ tokens, token.kind = .endOfInput) :
    ofTokens (tokens.map (Token.relocate move)) = relocateResult move (ofTokens tokens) := by
  have follows := Expr.follows_expression move (bodyTokens tokens).length (bodyTokens tokens)
  rw [ofTokens, ofTokens]
  simp only [bodyTokens_relocate, List.length_map, follows]
  cases Expr.expression (bodyTokens tokens).length (bodyTokens tokens) with
  | error stop =>
      simp only [Expr.relocateParsed, errorAt_relocate ends]
      rfl
  | ok result =>
      obtain ⟨expr, rest⟩ := result
      cases rest with
      | nil =>
          cases tokens with
          | nil => simp at ends
          | cons token tokens => rfl
      | cons token rest =>
          simp only [Expr.relocateParsed, List.map_cons]
          rw [← List.map_cons, errorAt_relocate ends]
          rfl

/--
Two texts are formulas with the same run in every environment, or they have faults with the same
message.
-/
inductive SameOutcome (σ : Type) :
    Except SyntaxError Program → Except SyntaxError Program → Prop where
  | formulas {program other}
      (same : ∀ environment : Environment σ,
        program.evaluate environment = other.evaluate environment) :
      SameOutcome σ (.ok program) (.ok other)
  | faults {error other} (same : error.fault.message = other.fault.message) :
      SameOutcome σ (.error error) (.error other)

/-- What is the same in some places has the same outcome. -/
theorem sameOutcome_of_relocate {σ : Type} (move : Location → Location)
    {read other : Except SyntaxError Program}
    (same : relocateResult move other = relocateResult move read) : SameOutcome σ read other := by
  cases read with
  | error error =>
      cases other with
      | ok other => cases same
      | error other =>
          have relocated : other.relocate move = error.relocate move := Except.error.inj same
          have fault : other.fault.relocate move = error.fault.relocate move :=
            congrArg SyntaxError.fault relocated
          exact .faults <| calc
            error.fault.message = (error.fault.relocate move).message :=
              error.fault.message_relocate.symm
            _ = (other.fault.relocate move).message := by rw [fault]
            _ = other.fault.message := other.fault.message_relocate
  | ok program =>
      cases other with
      | error error => cases same
      | ok other =>
          have relocated : other.relocate move = program.relocate move := Except.ok.inj same
          exact .formulas fun environment => calc
            program.evaluate environment = (program.relocate move).evaluate environment :=
              (program.evaluate_relocate environment).symm
            _ = (other.relocate move).evaluate environment := by rw [relocated]
            _ = other.evaluate environment := other.evaluate_relocate environment

end Program
end Formulary

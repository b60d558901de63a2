import Formulary.Expr.Parser

/-!
# The parsers as combinations

Seven combinators are enough to build every parser of expressions: taking nothing, sequencing,
taking a token, looking at one, extending what has been read once or again and again.  Each parser
is shown to be a combination of them, so that a law about parsers needs one case for each
combinator.
-/

namespace Formulary
namespace Expr
namespace Parser

variable {α β : Type}

/-- The parser that takes nothing. -/
def succeed (value : α) : Parser α := fun tokens => .ok (value, tokens)

/-- One parser, and then another that depends on what the first has read. -/
def andThen (first : Parser α) (next : α → Parser β) : Parser β := fun tokens => do
  let (value, rest) ← first tokens
  next value rest

/-- Takes one token and goes on as the token says, unless there is none or it is out of place. -/
def dispatch (missing : GrammarFault) (branch : Token → Except GrammarFault (Parser α)) : Parser α
  | [] => .error ⟨missing, []⟩
  | token :: rest =>
      match branch token with
      | .ok parser => parser rest
      | .error fault => .error ⟨fault, token :: rest⟩

/-- Goes one way if the next token is of one of the kinds, and another way otherwise. -/
def peek (kinds : List TokenKind) (met unmet : Parser α) : Parser α := fun tokens =>
  if tokens.head?.any (·.kind ∈ kinds) then met tokens else unmet tokens

/-- Goes on behind the first parser if the next token is of one of the kinds. -/
def extend (kinds : List TokenKind) (first : Parser α) (more : α → Parser α) : Parser α :=
  andThen first fun value => peek kinds (more value) (succeed value)

/-- Goes on as long as the next token is of one of the kinds, at most `fuel` times. -/
def loop (kinds : List TokenKind) (step : α → Parser α) : Nat → α → Parser α
  | 0, value => succeed value
  | fuel + 1, value => peek kinds (andThen (step value) (loop kinds step fuel)) (succeed value)

/-- Goes on behind the first parser as long as the next token is of one of the kinds. -/
def iterate (kinds : List TokenKind) (first : Parser α) (step : α → Parser α) : Parser α :=
  andThen first fun value tokens => loop kinds step tokens.length value tokens

theorem peek_cons (kinds : List TokenKind) (met unmet : Parser α) (token : Token)
    (rest : List Token) :
    peek kinds met unmet (token :: rest) =
      if token.kind ∈ kinds then met (token :: rest) else unmet (token :: rest) := by
  simp [peek]

theorem succeed_andThen (value : α) (next : α → Parser β) :
    (succeed value).andThen next = next value := rfl

theorem andThen_succeed (parser : Parser α) : parser.andThen succeed = parser := by
  funext tokens
  simp only [andThen]
  cases parser tokens <;> rfl

theorem andThen_assoc {γ : Type} (first : Parser α) (second : α → Parser β)
    (third : β → Parser γ) :
    (first.andThen second).andThen third =
      first.andThen fun value => (second value).andThen third := by
  funext tokens
  simp only [andThen]
  cases first tokens <;> rfl

theorem peek_andThen (kinds : List TokenKind) (met unmet : Parser α) (next : α → Parser β) :
    (peek kinds met unmet).andThen next =
      peek kinds (met.andThen next) (unmet.andThen next) := by
  funext tokens
  simp only [peek, andThen]
  split <;> rfl

theorem andThen_of_ok {first : Parser α} {next : α → Parser β} {tokens between : List Token}
    {middle : α} (parsed : first tokens = .ok (middle, between)) :
    first.andThen next tokens = next middle between := by
  simp only [andThen, parsed]
  rfl

theorem andThen_eq_ok_iff {first : Parser α} {next : α → Parser β} {tokens : List Token}
    {result : β × List Token} :
    first.andThen next tokens = .ok result ↔
      ∃ middle between, first tokens = .ok (middle, between) ∧
        next middle between = .ok result := by
  constructor
  · intro parsed
    cases outcome : first tokens with
    | error stop => simp [andThen, outcome, bind, Except.bind] at parsed
    | ok taken => exact ⟨taken.1, taken.2, rfl, by rwa [andThen_of_ok outcome] at parsed⟩
  · rintro ⟨middle, between, outcome, later⟩
    rwa [andThen_of_ok outcome]

theorem andThen_eq_error_iff {first : Parser α} {next : α → Parser β} {tokens : List Token}
    {stop : Stop} :
    first.andThen next tokens = .error stop ↔
      first tokens = .error stop ∨
        ∃ middle between, first tokens = .ok (middle, between) ∧
          next middle between = .error stop := by
  constructor
  · intro failed
    cases outcome : first tokens with
    | error other =>
        simp only [andThen, outcome, bind, Except.bind, Except.error.injEq] at failed
        exact .inl (congrArg _ failed)
    | ok taken => exact .inr ⟨taken.1, taken.2, rfl, by rwa [andThen_of_ok outcome] at failed⟩
  · rintro (failed | ⟨middle, between, outcome, later⟩)
    · simp only [andThen, failed]
      rfl
    · rwa [andThen_of_ok outcome]

private theorem dispatch_andThen (missing : GrammarFault)
    (branch : Token → Except GrammarFault (Parser α)) (next : α → Parser β) (token : Token)
    (rest : List Token) :
    (dispatch missing branch).andThen next (token :: rest) =
      match branch token with
      | .ok parser => parser.andThen next rest
      | .error fault => .error ⟨fault, token :: rest⟩ := by
  simp only [andThen, dispatch]
  cases branch token <;> rfl

end Parser

open Formulary.Expr.Parser (andThen_assoc succeed_andThen dispatch_andThen)

/-- The kinds that the chains of a level go on with: its operators, and what is no operator. -/
def Level.asks : Level → List TokenKind
  | or => [.or]
  | and => [.and]
  | equality => [.strictEqual, .strictNotEqual, .looseEqual, .looseNotEqual]
  | comparison => [.greater, .greaterOrEqual, .less, .lessOrEqual]
  | additive => [.plus, .minus]
  | multiplicative => [.star, .slash, .percent]

theorem Level.mem_asks_iff (level : Level) (kind : TokenKind) :
    kind ∈ level.asks ↔ (level.rejects? kind).isSome ∨ level.joins kind := by
  cases level <;> cases kind <;> decide

/-- Takes the property or the index that an opening token asks for. -/
def accessStep (inner : Parser Expr) (node : Expr) : Parser Expr :=
  Parser.dispatch .expectedPropertyName fun token =>
    if token.kind = .dot then
      .ok (Parser.andThen property fun name => Parser.succeed (.member node name false token))
    else if token.kind = .openBracket then
      .ok (Parser.andThen inner fun index =>
        Parser.andThen (expect .closeBracket .expectedClosingBracket) fun _ =>
          Parser.succeed (.member node index true token))
    else .error .unexpectedToken

/-- The parser that an operator asks for, with the operand in front of it. -/
def chainBranch (level : Level) (operand : Parser Expr) (left : Expr) (token : Token) :
    Except GrammarFault (Parser Expr) :=
  match level.rejects? token.kind with
  | some fault => .error fault
  | none =>
      if level.joins token.kind then
        .ok (Parser.andThen operand fun right =>
          Parser.succeed (.binary (operatorText token) left right token))
      else .error .unexpectedToken

/-- Takes one operator of a level and the operand behind it. -/
def chainStep (level : Level) (operand : Parser Expr) (left : Expr) : Parser Expr :=
  Parser.dispatch .expectedExpression (chainBranch level operand left)

/-- Takes one sign and the operand behind it. -/
def signStep (inner : Parser Expr) : Parser Expr :=
  Parser.dispatch .expectedExpression fun sign =>
    if sign.kind = .not ∨ sign.kind = .minus then
      .ok (Parser.andThen (prefixed inner) fun argument =>
        Parser.succeed (.unary sign.value true argument sign))
    else .error .unexpectedToken

/-- The parser that the first token of a primary expression asks for. -/
def primaryBranch (inner : Parser Expr) (token : Token) : Except GrammarFault (Parser Expr) :=
  match literal? token with
  | some value => .ok (Parser.succeed (.literal value token))
  | none =>
      match token.kind with
      | .identifier => .ok (Parser.succeed (.identifier token.value token))
      | .atSign => .ok (functionCall inner token)
      | .openParenthesis =>
          .ok (Parser.andThen inner fun body =>
            Parser.andThen (expect .closeParenthesis .expectedClosingParenthesis) fun _ =>
              Parser.succeed body)
      | _ => .error .unexpectedToken

/-- As many arguments as there are. -/
def argumentList (inner : Parser Expr) : Parser (List Expr) := fun tokens =>
  arguments inner tokens.length tokens

private theorem accesses_eq (inner : Parser Expr) (fuel : Nat) (node : Expr) :
    accesses inner fuel node =
      Parser.loop [.dot, .openBracket] (accessStep inner) fuel node := by
  induction fuel generalizing node with
  | zero => rfl
  | succ fuel induction =>
      funext tokens
      cases tokens with
      | nil => rfl
      | cons token rest =>
          simp only [accesses, Parser.loop, Parser.peek_cons, accessStep,
            Parser.dispatch_andThen, induction, List.mem_cons, List.not_mem_nil, or_false]
          split
          · rename_i dot
            simp only [dot, true_or, if_true, Parser.andThen_assoc, Parser.succeed_andThen]
            rfl
          · rename_i bracket
            simp only [bracket, reduceCtorEq, or_true, if_true, if_false, Parser.andThen_assoc,
              Parser.succeed_andThen]
            rfl
          · rename_i not_dot not_bracket
            exact (if_neg fun either => either.elim not_dot not_bracket).symm

private theorem chainFrom_eq (level : Level) (operand : Parser Expr) (fuel : Nat) (left : Expr) :
    chainFrom level operand fuel left =
      Parser.loop level.asks (chainStep level operand) fuel left := by
  induction fuel generalizing left with
  | zero => rfl
  | succ fuel induction =>
      funext tokens
      cases tokens with
      | nil => rfl
      | cons token rest =>
          simp only [chainFrom, Parser.loop, Parser.peek_cons, chainStep, chainBranch,
            Parser.dispatch_andThen, induction, level.mem_asks_iff]
          cases level.rejects? token.kind with
          | some fault => rfl
          | none =>
              simp only [Option.isSome_none, Bool.false_eq_true, false_or]
              split
              · simp only [Parser.andThen_assoc, Parser.succeed_andThen]
                rfl
              · rfl

/-- The arguments of a call with the parenthesis that closes them. -/
def callTail (inner : Parser Expr) (function : Text) (sign : Token) : Parser Expr :=
  Parser.peek [.closeParenthesis]
    (Parser.andThen (expect .closeParenthesis (.expectedEndOfArguments function)) fun _ =>
      Parser.succeed (.call function [] sign))
    (Parser.andThen (argumentList inner) fun values =>
      Parser.andThen (expect .closeParenthesis (.expectedEndOfArguments function)) fun _ =>
        Parser.succeed (.call function values sign))

/-- Takes the two branches behind a test. -/
def branches (inner : Parser Expr) (test : Expr) : Parser Expr :=
  Parser.andThen (expect .questionMark .unexpectedToken) fun mark =>
    Parser.andThen inner fun consequent =>
      Parser.andThen (expect .colon .expectedColon) fun _ =>
        Parser.andThen inner fun alternate =>
          Parser.succeed (.conditional test consequent alternate mark)

theorem functionCall_eq (inner : Parser Expr) (sign : Token) :
    functionCall inner sign =
      Parser.andThen (expect .identifier .expectedFunctionName) fun name =>
        Parser.andThen (expect .openParenthesis (.expectedArguments name.value)) fun _ =>
          callTail inner name.value sign := by
  funext tokens
  simp only [functionCall, Parser.andThen]
  congr 1
  funext ⟨name, rest⟩
  congr 1
  funext ⟨_, rest⟩
  cases rest with
  | nil => rfl
  | cons token rest =>
      simp only [callTail, Parser.peek_cons, List.mem_singleton]
      split <;> rfl

theorem arguments_eq (inner : Parser Expr) (fuel : Nat) :
    arguments inner (fuel + 1) =
      Parser.extend [.comma] (Parser.andThen inner fun first => Parser.succeed [first])
        fun values => Parser.andThen (expect .comma .expectedExpression) fun _ =>
          Parser.andThen (arguments inner fuel) fun more => Parser.succeed (values ++ more) := by
  funext tokens
  simp only [arguments, Parser.extend, Parser.andThen]
  cases inner tokens with
  | error stop => rfl
  | ok result =>
      obtain ⟨first, rest⟩ := result
      cases rest with
      | nil => rfl
      | cons token after =>
          by_cases comma : token.kind = .comma
          · simp [Parser.peek_cons, Parser.andThen, Parser.succeed, bind, Except.bind, comma,
              expect]
          · simp [Parser.peek_cons, Parser.succeed, bind, Except.bind, comma]

theorem primary_eq (inner : Parser Expr) :
    primary inner = Parser.dispatch .expectedExpression (primaryBranch inner) := by
  funext tokens
  cases tokens with
  | nil => rfl
  | cons token rest =>
      simp only [primary, Parser.dispatch, primaryBranch]
      cases literal? token with
      | some value => rfl
      | none =>
          simp only
          split <;> simp_all <;> rfl

theorem postfixed_eq (inner : Parser Expr) :
    postfixed inner =
      Parser.iterate [.dot, .openBracket] (primary inner) (accessStep inner) := by
  funext tokens
  simp only [postfixed, Parser.iterate, Parser.andThen, accesses_eq]

theorem prefixed_eq (inner : Parser Expr) :
    prefixed inner =
      Parser.peek [.not, .minus] (signStep inner) (postfixed inner) := by
  funext tokens
  cases tokens with
  | nil => rfl
  | cons token rest =>
      simp only [prefixed, signStep, Parser.peek_cons, Parser.dispatch, List.mem_cons,
        List.not_mem_nil, or_false, Bool.or_eq_true, decide_eq_true_eq]
      split <;> rfl

theorem chains_cons_eq (inner : Parser Expr) (level : Level) (tighter : List Level) :
    chains inner (level :: tighter) =
      Parser.iterate level.asks (chains inner tighter)
        (chainStep level (chains inner tighter)) := by
  funext tokens
  simp only [chains, Parser.iterate, Parser.andThen, chainFrom_eq]

theorem conditionalOver_eq (inner : Parser Expr) :
    conditionalOver inner =
      Parser.extend [.questionMark] (chains inner Level.all) (branches inner) := by
  funext tokens
  simp only [conditionalOver, Parser.extend, branches, Parser.andThen]
  cases chains inner Level.all tokens with
  | error stop => rfl
  | ok result =>
      obtain ⟨test, rest⟩ := result
      cases rest with
      | nil => rfl
      | cons token after =>
          by_cases mark : token.kind = .questionMark
          · simp only [Parser.peek_cons, Parser.andThen, Parser.succeed, bind, Except.bind, expect,
              mark, List.mem_singleton, if_true]
          · simp only [Parser.peek_cons, Parser.succeed, bind, Except.bind, mark,
              List.mem_singleton, if_false]

end Expr
end Formulary

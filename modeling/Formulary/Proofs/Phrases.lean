import Formulary.Proofs.Grammar
import Formulary.Proofs.Reading

/-!
# The phrases of each parser

What a parser of expressions takes is described once more as a language, cut up the way the parser
goes on: what stands behind a point or a bracket, behind a sign, an operator, a comma or a mark.
Put together, these languages are the categories of the grammar.
-/

namespace Formulary
namespace Grammar

open Formulary.Expr (Level Parser)

/-- The kinds of token that continue a phrase of a category. -/
def continuing : Category → List TokenKind
  | .primary => []
  | .accessed => [.dot, .openBracket]
  | .prefixed => [.dot, .openBracket]
  | .chain level =>
      [.dot, .openBracket] ++ (Level.all.dropWhile (· != level)).reverse.flatMap Level.asks
  | .conditional => [.dot, .openBracket] ++ Level.all.reverse.flatMap Level.asks ++ [.questionMark]

theorem continuing_chain (level : Level) :
    continuing (.chain level) = continuing (operand level) ++ level.asks := by
  cases level <;> rfl

theorem asks_apart (level : Level) :
    ∀ kind ∈ level.asks, kind ∉ continuing (operand level) := by
  cases level <;> decide

private theorem mem_operators_iff (level : Level) (kind : TokenKind) :
    kind ∈ operators level ↔ level.rejects? kind = none ∧ level.joins kind := by
  cases level <;> cases kind <;> decide

private theorem operatorText_eq {level : Level} {token : Token}
    (joins : token.kind ∈ operators level) :
    operatorText level token = Expr.operatorText token := by
  cases level <;> simp only [operatorText, Expr.operatorText] <;> split <;> simp_all [operators]

/-- The kinds of token with which a primary expression begins. -/
def unsignedBeginnings : List TokenKind :=
  [.number, .doubleQuoted, .singleQuoted, .boolean, .null, .identifier, .atSign,
    .openParenthesis]

/-- The kinds of token with which a phrase of a category begins. -/
def beginnings : Category → List TokenKind
  | .primary | .accessed => unsignedBeginnings
  | .prefixed | .chain _ | .conditional => signs ++ unsignedBeginnings

private theorem beginnings_operand (level : Level) :
    beginnings (operand level) = beginnings (.chain level) := by
  cases level <;> rfl

theorem mem_beginnings_of_denotes {token : Token} {value : Literal}
    (denotes : Denotes token value) : token.kind ∈ beginnings .primary := by
  cases denotes with
  | number kind => rw [kind]; decide
  | text kind => rcases kind with kind | kind <;> rw [kind] <;> decide
  | boolean kind => rw [kind]; decide
  | null kind => rw [kind]; decide

/-- No phrase is empty, and its first token is one of a few kinds. -/
theorem Derives.begins {category : Category} {tokens : List Token} {expr : Expr} :
    Derives category tokens expr →
      ∃ token rest, tokens = token :: rest ∧ token.kind ∈ beginnings category
  | .unconditional chain => chain.begins
  | .conditional tested _ _ _ _ => by
      obtain ⟨token, rest, rfl, kind⟩ := tested.begins
      exact ⟨token, _, rfl, kind⟩
  | .single only => by
      rw [← beginnings_operand]
      exact only.begins
  | .binary before _ _ => by
      obtain ⟨token, rest, rfl, kind⟩ := before.begins
      exact ⟨token, _, rfl, kind⟩
  | .unsigned inner => by
      obtain ⟨token, rest, rfl, kind⟩ := inner.begins
      exact ⟨token, rest, rfl, List.mem_append_right _ kind⟩
  | .unary sign_kind _ => ⟨_, _, rfl, List.mem_append_left _ sign_kind⟩
  | .bare inner => inner.begins
  | .property inner _ _ => by
      obtain ⟨token, rest, rfl, kind⟩ := inner.begins
      exact ⟨token, _, rfl, kind⟩
  | .index inner _ _ _ => by
      obtain ⟨token, rest, rfl, kind⟩ := inner.begins
      exact ⟨token, _, rfl, kind⟩
  | .literal denotes => ⟨_, _, rfl, mem_beginnings_of_denotes denotes⟩
  | .identifier kind => ⟨_, _, rfl, by rw [kind]; decide⟩
  | .call sign_kind _ _ _ _ => ⟨_, _, rfl, by rw [sign_kind]; decide⟩
  | .parenthesised opening_kind _ _ => ⟨_, _, rfl, by rw [opening_kind]; decide⟩

private theorem avoids_signs (kind : TokenKind) (begins : kind ∈ beginnings .accessed) :
    kind ∉ signs := by
  cases kind <;> revert begins <;> decide

theorem Derives.not_nil {category : Category} {expr : Expr} : ¬ Derives category [] expr := by
  intro phrase
  obtain ⟨token, rest, empty, -⟩ := phrase.begins
  exact List.cons_ne_nil _ _ empty.symm

private theorem Listed.begins {tokens : List Token} {values : List Expr}
    (listed : Listed tokens values) :
    ∃ token rest, tokens = token :: rest ∧ token.kind ∈ beginnings .conditional := by
  cases listed with
  | last only => exact only.begins
  | more head _ _ =>
      obtain ⟨token, rest, rfl, kind⟩ := head.begins
      exact ⟨token, _, rfl, kind⟩

variable {inner : Parser Expr}

/-- A name behind a point. -/
def propertyPhrase : Language Expr := fun tokens expr =>
  ∃ name : Token, tokens = [name] ∧ name.kind ∈ propertyNames ∧
    expr = .identifier name.value { name with kind := .identifier }

/-- What an opening token makes of a node. -/
def accessPhrase (node : Expr) (opening : Token) : Language Expr := fun tokens expr =>
  (opening.kind = .dot ∧ ∃ name, propertyPhrase tokens name ∧
    expr = .member node name false opening) ∨
  (opening.kind = .openBracket ∧ ∃ front closing key, tokens = front ++ [closing] ∧
    Derives .conditional front key ∧ closing.kind = .closeBracket ∧
    expr = .member node key true opening)

theorem propertyName?_eq_some_iff {token name : Token} :
    Expr.propertyName? token = some name ↔
      token.kind ∈ propertyNames ∧ name = { token with kind := .identifier } := by
  obtain ⟨kind, value, location⟩ := token
  cases kind <;> simp [Expr.propertyName?, propertyNames, eq_comm]

private theorem accessed_snoc {front back : List Token} {node expr : Expr}
    (inner : Derives .accessed front node)
    (phrase : Language.dispatch (accessPhrase node) back expr) :
    Derives .accessed (front ++ back) expr := by
  obtain ⟨opening, rest, rfl, ⟨point, name, phrase, rfl⟩ |
    ⟨bracket, middle, closing, key, rfl, computed, closes, rfl⟩⟩ := phrase
  · obtain ⟨name, rfl, kind, rfl⟩ := phrase
    exact .property inner point kind
  · exact .index inner bracket computed closes

private theorem accessed_of_iterated {front back : List Token} {node expr : Expr}
    (inner : Derives .accessed front node)
    (phrase : Language.Iterated (fun node => Language.dispatch (accessPhrase node)) node back
      expr) :
    Derives .accessed (front ++ back) expr := by
  induction phrase generalizing front with
  | done => simpa using inner
  | next head tail induction =>
      rw [← List.append_assoc]
      exact induction (accessed_snoc inner head)

private theorem iterated_of_accessed {tokens : List Token} {expr : Expr} :
    Derives .accessed tokens expr →
      (Language.andThen (Derives .primary) (Language.Iterated
        fun node => Language.dispatch (accessPhrase node))) tokens expr
  | .bare inner => ⟨tokens, expr, [], by simp, inner, .done⟩
  | .property inner point kind => by
      obtain ⟨front, node, back, rfl, head, tail⟩ := iterated_of_accessed inner
      exact ⟨front, node, _, List.append_assoc _ _ _, head,
        tail.snoc ⟨_, _, rfl, .inl ⟨point, _, ⟨_, rfl, kind, rfl⟩, rfl⟩⟩⟩
  | .index inner opens computed closes => by
      obtain ⟨front, node, back, rfl, head, tail⟩ := iterated_of_accessed inner
      exact ⟨front, node, _, List.append_assoc _ _ _, head,
        tail.snoc ⟨_, _, rfl, .inr ⟨opens, _, _, _, rfl, computed, closes, rfl⟩⟩⟩

theorem accessed_iff {tokens : List Token} {expr : Expr} :
    (Language.andThen (Derives .primary) (Language.Iterated
      fun node => Language.dispatch (accessPhrase node))) tokens expr ↔
      Derives .accessed tokens expr := by
  constructor
  · rintro ⟨front, node, back, rfl, head, tail⟩
    exact accessed_of_iterated (.bare head) tail
  · exact iterated_of_accessed

theorem accessPhrase_starts (node : Expr) (tokens : List Token) (expr : Expr)
    (phrase : Language.dispatch (accessPhrase node) tokens expr) :
    ∃ token rest, tokens = token :: rest ∧ token.kind ∈ [.dot, .openBracket] := by
  obtain ⟨opening, rest, rfl, ⟨point, -⟩ | ⟨bracket, -⟩⟩ := phrase
  · exact ⟨opening, rest, rfl, by simp [point]⟩
  · exact ⟨opening, rest, rfl, by simp [bracket]⟩

/-- What a sign makes of the expression behind it. -/
def signPhrase (sign : Token) : Language Expr := fun tokens expr =>
  sign.kind ∈ signs ∧ ∃ argument, Derives .prefixed tokens argument ∧
    expr = .unary sign.value true argument sign

theorem signPhrase_iff {sign : Token} (kind : sign.kind = .not ∨ sign.kind = .minus)
    {tokens : List Token} {expr : Expr} :
    (∃ argument, Derives .prefixed tokens argument ∧ expr = .unary sign.value true argument sign) ↔
      signPhrase sign tokens expr := by
  simp [signPhrase, signs, kind]

theorem signPhrase_rejected {sign : Token} {tokens : List Token} {expr : Expr}
    (kind : ¬ (sign.kind = .not ∨ sign.kind = .minus)) : ¬ signPhrase sign tokens expr := by
  rintro ⟨accepted, -⟩
  exact kind (by simpa [signs] using accepted)

theorem signPhrase_starts (tokens : List Token) (expr : Expr)
    (phrase : Language.dispatch signPhrase tokens expr) :
    ∃ token rest, tokens = token :: rest ∧ token.kind ∈ signs := by
  obtain ⟨sign, rest, rfl, kind, -⟩ := phrase
  exact ⟨sign, rest, rfl, kind⟩

theorem accessed_avoids (tokens : List Token) (expr : Expr)
    (phrase : Derives .accessed tokens expr) :
    ∃ token rest, tokens = token :: rest ∧ token.kind ∉ signs := by
  obtain ⟨token, rest, rfl, kind⟩ := phrase.begins
  exact ⟨token, rest, rfl, avoids_signs token.kind kind⟩

theorem prefixed_iff {tokens : List Token} {expr : Expr} :
    Language.dispatch signPhrase tokens expr ∨ Derives .accessed tokens expr ↔
      Derives .prefixed tokens expr := by
  constructor
  · rintro (⟨sign, rest, rfl, kind, argument, inner, rfl⟩ | inner)
    · exact .unary kind inner
    · exact .unsigned inner
  · rintro (_ | _)
    · exact .inr ‹_›
    · exact .inl ⟨_, _, rfl, ‹_›, _, ‹_›, rfl⟩

/-- What an operator makes of the expression in front of it. -/
def chainPhrase (level : Level) (left : Expr) (operator : Token) : Language Expr :=
  fun tokens expr =>
    operator.kind ∈ operators level ∧ ∃ right, Derives (operand level) tokens right ∧
      expr = .binary (operatorText level operator) left right operator

theorem chainPhrase_iff {level : Level} {left : Expr} {operator : Token}
    (kind : operator.kind ∈ operators level) {tokens : List Token} {expr : Expr} :
    (∃ right, Derives (operand level) tokens right ∧
      expr = .binary (Expr.operatorText operator) left right operator) ↔
      chainPhrase level left operator tokens expr := by
  simp [chainPhrase, kind, operatorText_eq kind]

theorem chainPhrase_starts (level : Level) (left : Expr) (tokens : List Token) (expr : Expr)
    (phrase : Language.dispatch (chainPhrase level left) tokens expr) :
    ∃ token rest, tokens = token :: rest ∧ token.kind ∈ level.asks := by
  obtain ⟨operator, rest, rfl, kind, -⟩ := phrase
  obtain ⟨-, joins⟩ := (mem_operators_iff level operator.kind).mp kind
  exact ⟨operator, rest, rfl, (level.mem_asks_iff _).mpr (.inr joins)⟩

theorem chainBranch_accepted {level : Level} {parser step : Parser Expr} {left : Expr}
    {token : Token} (accepted : Expr.chainBranch level parser left token = .ok step) :
    token.kind ∈ operators level ∧
      step = Parser.andThen parser fun right =>
        Parser.succeed (.binary (Expr.operatorText token) left right token) := by
  simp only [Expr.chainBranch] at accepted
  split at accepted
  · simp at accepted
  · rename_i not_rejected
    split at accepted
    · rename_i joins
      cases accepted
      exact ⟨(mem_operators_iff level token.kind).mpr ⟨not_rejected, joins⟩, rfl⟩
    · simp at accepted

theorem chainBranch_rejected {level : Level} {parser : Parser Expr} {left : Expr} {token : Token}
    {fault : GrammarFault} {tokens : List Token} {expr : Expr}
    (rejected : Expr.chainBranch level parser left token = .error fault) :
    ¬ chainPhrase level left token tokens expr := by
  rintro ⟨kind, -⟩
  obtain ⟨not_rejected, joins⟩ := (mem_operators_iff level token.kind).mp kind
  simp [Expr.chainBranch, not_rejected, joins] at rejected

private theorem chain_of_iterated {level : Level} {front back : List Token} {left expr : Expr}
    (before : Derives (.chain level) front left)
    (phrase : Language.Iterated (fun left => Language.dispatch (chainPhrase level left)) left back
      expr) :
    Derives (.chain level) (front ++ back) expr := by
  induction phrase generalizing front with
  | done => simpa using before
  | next head tail induction =>
      obtain ⟨operator, rest, rfl, kind, right, after, rfl⟩ := head
      rw [← List.append_assoc]
      exact induction (.binary before kind after)

private theorem iterated_of_chain {level : Level} {tokens : List Token} {expr : Expr} :
    Derives (.chain level) tokens expr →
      (Language.andThen (Derives (operand level)) (Language.Iterated
        fun left => Language.dispatch (chainPhrase level left))) tokens expr
  | .single only => ⟨tokens, expr, [], by simp, only, .done⟩
  | .binary before kind after => by
      obtain ⟨front, left, back, rfl, head, tail⟩ := iterated_of_chain before
      exact ⟨front, left, _, List.append_assoc _ _ _, head,
        tail.snoc ⟨_, _, rfl, kind, _, after, rfl⟩⟩

theorem chain_iff {level : Level} {tokens : List Token} {expr : Expr} :
    (Language.andThen (Derives (operand level)) (Language.Iterated
      fun left => Language.dispatch (chainPhrase level left))) tokens expr ↔
      Derives (.chain level) tokens expr := by
  constructor
  · rintro ⟨front, left, back, rfl, head, tail⟩
    exact chain_of_iterated (.single head) tail
  · exact iterated_of_chain

/-- A comma with further arguments behind those that there are. -/
def furtherPhrase (values : List Expr) : Language (List Expr) := fun tokens final =>
  ∃ comma back more, tokens = comma :: back ∧ comma.kind = .comma ∧ Listed back more ∧
    final = values ++ more

theorem furtherPhrase_iff {values : List Expr} {tokens : List Token} {final : List Expr} :
    (Language.andThen (Language.token .comma) fun _ tokens final =>
      ∃ more, Listed tokens more ∧ final = values ++ more) tokens final ↔
      furtherPhrase values tokens final := by
  constructor
  · rintro ⟨_, comma, back, rfl, ⟨rfl, kind⟩, more, others, rfl⟩
    exact ⟨comma, back, more, rfl, kind, others, rfl⟩
  · rintro ⟨comma, back, more, rfl, kind, others, rfl⟩
    exact ⟨[comma], comma, back, rfl, ⟨rfl, kind⟩, more, others, rfl⟩

theorem furtherPhrase_starts (values : List Expr) (tokens : List Token) (final : List Expr)
    (phrase : furtherPhrase values tokens final) :
    ∃ token rest, tokens = token :: rest ∧ token.kind ∈ [.comma] := by
  obtain ⟨comma, back, more, rfl, kind, -⟩ := phrase
  exact ⟨comma, back, rfl, List.mem_singleton.mpr kind⟩

theorem listed_iff {tokens : List Token} {values : List Expr} :
    (Language.extend (fun tokens values => ∃ first, Derives .conditional tokens first ∧
      values = [first]) furtherPhrase) tokens values ↔ Listed tokens values := by
  constructor
  · rintro (⟨first, only, rfl⟩ | ⟨front, _, _, rfl, ⟨first, head, rfl⟩, comma, back, more, rfl,
      kind, others, rfl⟩)
    · exact .last only
    · exact .more head kind others
  · rintro (only | ⟨head, kind, others⟩)
    · exact .inl ⟨_, only, rfl⟩
    · exact .inr ⟨_, _, _, rfl, ⟨_, head, rfl⟩, _, _, _, rfl, kind, others, rfl⟩

theorem Listed.not_nil {values : List Expr} : ¬ Listed [] values := by
  intro listed
  obtain ⟨token, rest, empty, -⟩ := listed.begins
  exact List.cons_ne_nil _ _ empty.symm

/-- The arguments of a call with the parenthesis that closes them. -/
def callTailPhrase (function : Text) (sign : Token) : Language Expr := fun tokens expr =>
  ∃ front closing values, tokens = front ++ [closing] ∧ Arguments front values ∧
    closing.kind = .closeParenthesis ∧ expr = .call function values sign

/-- A closing parenthesis without any arguments, and arguments with a closing parenthesis. -/
theorem callTailPhrase_iff {function : Text} {sign : Token} {tokens : List Token} {expr : Expr} :
    (∃ closing, Language.token .closeParenthesis tokens closing ∧ expr = .call function [] sign) ∨
      (∃ front closing values, tokens = front ++ [closing] ∧ Listed front values ∧
        closing.kind = .closeParenthesis ∧ expr = .call function values sign) ↔
      callTailPhrase function sign tokens expr := by
  constructor
  · rintro (⟨closing, ⟨rfl, kind⟩, rfl⟩ | ⟨front, closing, values, rfl, listed, kind, rfl⟩)
    · exact ⟨[], closing, [], rfl, .none, kind, rfl⟩
    · exact ⟨front, closing, values, rfl, .some listed, kind, rfl⟩
  · rintro ⟨front, closing, values, rfl, passed, kind, rfl⟩
    cases passed with
    | none => exact .inl ⟨closing, ⟨rfl, kind⟩, rfl⟩
    | some listed => exact .inr ⟨front, closing, values, rfl, listed, kind, rfl⟩

theorem closing_starts (call : Expr) (tokens : List Token) (expr : Expr)
    (phrase : ∃ closing, Language.token .closeParenthesis tokens closing ∧ expr = call) :
    ∃ token rest, tokens = token :: rest ∧ token.kind ∈ [.closeParenthesis] := by
  obtain ⟨closing, ⟨rfl, kind⟩, -⟩ := phrase
  exact ⟨closing, [], rfl, List.mem_singleton.mpr kind⟩

theorem closed_avoids (call : List Expr → Expr) (tokens : List Token) (expr : Expr)
    (phrase : ∃ front closing values, tokens = front ++ [closing] ∧ Listed front values ∧
      closing.kind = .closeParenthesis ∧ expr = call values) :
    ∃ token rest, tokens = token :: rest ∧ token.kind ∉ [.closeParenthesis] := by
  obtain ⟨front, closing, values, rfl, listed, -⟩ := phrase
  obtain ⟨token, rest, rfl, begins⟩ := listed.begins
  refine ⟨token, _, rfl, fun closes => ?_⟩
  rw [List.mem_singleton.mp closes] at begins
  revert begins
  decide

/-- What stands behind the sign of a call. -/
def callPhrase (sign : Token) : Language Expr := fun tokens expr =>
  ∃ name opening rest, tokens = name :: opening :: rest ∧ name.kind = .identifier ∧
    opening.kind = .openParenthesis ∧ callTailPhrase name.value sign rest expr

theorem callPhrase_iff {sign : Token} {tokens : List Token} {expr : Expr} :
    (Language.andThen (Language.token .identifier) fun name =>
      Language.andThen (Language.token .openParenthesis) fun _ =>
        callTailPhrase name.value sign) tokens expr ↔ callPhrase sign tokens expr := by
  constructor
  · rintro ⟨_, name, _, rfl, ⟨rfl, name_kind⟩, _, opening, rest, rfl, ⟨rfl, opening_kind⟩, tail⟩
    exact ⟨name, opening, rest, rfl, name_kind, opening_kind, tail⟩
  · rintro ⟨name, opening, rest, rfl, name_kind, opening_kind, tail⟩
    exact ⟨[name], name, opening :: rest, rfl, ⟨rfl, name_kind⟩, [opening], opening, rest, rfl,
      ⟨rfl, opening_kind⟩, tail⟩

/-! ## Primary expressions -/

private theorem denotes_iff {token : Token} {value : Literal} :
    Denotes token value ↔ Expr.literal? token = some value := by
  constructor
  · rintro (kind | kind | kind | kind)
    · simp [Expr.literal?, kind]
    · rcases kind with kind | kind <;> simp [Expr.literal?, kind]
    · simp [Expr.literal?, kind]
    · simp [Expr.literal?, kind]
  · intro denoted
    simp only [Expr.literal?] at denoted
    split at denoted <;> cases denoted
    · exact .number ‹_›
    · exact .text (.inl ‹_›)
    · exact .text (.inr ‹_›)
    · exact .boolean ‹_›
    · exact .null ‹_›

/-- What stands behind the first token of a primary expression. -/
inductive PrimaryPhrase (token : Token) : Language Expr where
  | literal {value} (denotes : Denotes token value) :
      PrimaryPhrase token [] (.literal value token)
  | identifier (kind : token.kind = .identifier) :
      PrimaryPhrase token [] (.identifier token.value token)
  | call {tokens expr} (kind : token.kind = .atSign) (phrase : callPhrase token tokens expr) :
      PrimaryPhrase token tokens expr
  | parenthesised {front closing expr} (kind : token.kind = .openParenthesis)
      (inner : Derives .conditional front expr) (closes : closing.kind = .closeParenthesis) :
      PrimaryPhrase token (front ++ [closing]) expr

theorem derives_primary_iff {tokens : List Token} {expr : Expr} :
    Derives .primary tokens expr ↔ Language.dispatch PrimaryPhrase tokens expr := by
  constructor
  · intro derived
    cases derived with
    | literal denotes => exact ⟨_, [], rfl, .literal denotes⟩
    | identifier kind => exact ⟨_, [], rfl, .identifier kind⟩
    | call sign_kind name_kind opening_kind passed closing_kind =>
        exact ⟨_, _, rfl, .call sign_kind ⟨_, _, _, rfl, name_kind, opening_kind, _, _, _, rfl,
          passed, closing_kind, rfl⟩⟩
    | parenthesised opening_kind inner closing_kind =>
        exact ⟨_, _, rfl, .parenthesised opening_kind inner closing_kind⟩
  · rintro ⟨token, rest, rfl, phrase⟩
    cases phrase with
    | literal denotes => exact .literal denotes
    | identifier kind => exact .identifier kind
    | call kind phrase =>
        obtain ⟨name, opening, tail, rfl, name_kind, opening_kind, front, closing, values, rfl,
          passed, closing_kind, rfl⟩ := phrase
        exact .call kind name_kind opening_kind passed closing_kind
    | parenthesised kind inner closes => exact .parenthesised kind inner closes

namespace PrimaryPhrase

variable {token : Token} {tokens : List Token} {expr : Expr}

private theorem not_denotes {kind : TokenKind} (is_kind : token.kind = kind)
    (no_literal : kind ∉ [.number, .doubleQuoted, .singleQuoted, .boolean, .null])
    (value : Literal) : ¬ Denotes token value := by
  rintro (other | other | other | other)
  · simp [← is_kind, other] at no_literal
  · rcases other with other | other <;> simp [← is_kind, other] at no_literal
  · simp [← is_kind, other] at no_literal
  · simp [← is_kind, other] at no_literal

private theorem literal_iff {value : Literal} (denoted : Expr.literal? token = some value) :
    PrimaryPhrase token tokens expr ↔ Language.empty (.literal value token) tokens expr := by
  constructor
  · rintro (denotes | kind | kind | kind)
    · rw [denotes_iff, denoted] at denotes
      cases denotes
      exact ⟨rfl, rfl⟩
    all_goals simp [Expr.literal?, kind] at denoted
  · rintro ⟨rfl, rfl⟩
    exact .literal (denotes_iff.mpr denoted)

private theorem identifier_iff (kind : token.kind = .identifier) :
    PrimaryPhrase token tokens expr ↔
      Language.empty (.identifier token.value token) tokens expr := by
  constructor
  · rintro (denotes | _ | other | other)
    · exact absurd denotes (not_denotes kind (by decide) _)
    · exact ⟨rfl, rfl⟩
    all_goals simp [kind] at other
  · rintro ⟨rfl, rfl⟩
    exact .identifier kind

private theorem call_iff (kind : token.kind = .atSign) :
    PrimaryPhrase token tokens expr ↔ callPhrase token tokens expr := by
  constructor
  · rintro (denotes | other | ⟨-, phrase⟩ | other)
    · exact absurd denotes (not_denotes kind (by decide) _)
    · simp [kind] at other
    · exact phrase
    · simp [kind] at other
  · exact .call kind

private theorem parenthesised_iff (kind : token.kind = .openParenthesis) :
    PrimaryPhrase token tokens expr ↔
      ∃ front closing body, tokens = front ++ [closing] ∧ Derives .conditional front body ∧
        closing.kind = .closeParenthesis ∧ expr = body := by
  constructor
  · rintro (denotes | other | other | ⟨-, body, closes⟩)
    · exact absurd denotes (not_denotes kind (by decide) _)
    · simp [kind] at other
    · simp [kind] at other
    · exact ⟨_, _, _, rfl, body, closes, rfl⟩
  · rintro ⟨front, closing, expr, rfl, body, closes, rfl⟩
    exact .parenthesised kind body closes

end PrimaryPhrase

/-- What a first token asks for is one token, a call or an expression in parentheses. -/
theorem primaryBranch_accepted {token : Token} {parser : Parser Expr}
    (accepted : Expr.primaryBranch inner token = .ok parser) :
    (∃ expr, parser = Parser.succeed expr ∧
      ∀ tokens other, Language.empty expr tokens other ↔ PrimaryPhrase token tokens other) ∨
    (parser = Expr.functionCall inner token ∧
      ∀ tokens expr, callPhrase token tokens expr ↔ PrimaryPhrase token tokens expr) ∨
    (parser = (Parser.andThen inner fun body =>
        Parser.andThen (Expr.expect .closeParenthesis .expectedClosingParenthesis) fun _ =>
          Parser.succeed body) ∧
      ∀ tokens expr, (∃ front closing body, tokens = front ++ [closing] ∧
          Derives .conditional front body ∧ closing.kind = .closeParenthesis ∧ expr = body) ↔
        PrimaryPhrase token tokens expr) := by
  simp only [Expr.primaryBranch] at accepted
  split at accepted
  · rename_i value denoted
    cases accepted
    exact .inl ⟨_, rfl, fun _ _ => (PrimaryPhrase.literal_iff denoted).symm⟩
  · split at accepted
    · rename_i kind
      cases accepted
      exact .inl ⟨_, rfl, fun _ _ => (PrimaryPhrase.identifier_iff kind).symm⟩
    · rename_i kind
      cases accepted
      exact .inr (.inl ⟨rfl, fun _ _ => (PrimaryPhrase.call_iff kind).symm⟩)
    · rename_i kind
      cases accepted
      exact .inr (.inr ⟨rfl, fun _ _ => (PrimaryPhrase.parenthesised_iff kind).symm⟩)
    · cases accepted

theorem primaryBranch_rejected {token : Token} {fault : GrammarFault} {tokens : List Token}
    {expr : Expr} (rejected : Expr.primaryBranch inner token = .error fault) :
    ¬ PrimaryPhrase token tokens expr := by
  rintro (denotes | kind | kind | kind)
  · simp [Expr.primaryBranch, denotes_iff.mp denotes] at rejected
  all_goals simp [Expr.primaryBranch, Expr.literal?, kind] at rejected

/-- What a test makes of a mark with the two branches behind it. -/
def branchPhrase (test : Expr) : Language Expr := fun tokens expr =>
  ∃ mark colon front back consequent alternate, tokens = mark :: (front ++ colon :: back) ∧
    mark.kind = .questionMark ∧ Derives .conditional front consequent ∧ colon.kind = .colon ∧
    Derives .conditional back alternate ∧ expr = .conditional test consequent alternate mark

theorem colon_apart (others : Expr → Token → Language Expr) (consequent : Expr)
    (back : List Token) (expr : Expr) (rest : List Token)
    (phrase : (Language.token .colon).andThen (others consequent) back expr)
    (_ : Ends (continuing .conditional) rest) :
    Ends (continuing .conditional) (back ++ rest) := by
  obtain ⟨_, colon, back, rfl, ⟨rfl, kind⟩, -⟩ := phrase
  simp [kind]
  decide

theorem branchPhrase_iff {test : Expr} {tokens : List Token} {expr : Expr} :
    (Language.andThen (Language.token .questionMark) fun mark =>
      Language.andThen (Derives .conditional) fun consequent =>
        Language.andThen (Language.token .colon) fun _ tokens expr =>
          ∃ alternate, Derives .conditional tokens alternate ∧
            expr = .conditional test consequent alternate mark) tokens expr ↔
      branchPhrase test tokens expr := by
  constructor
  · rintro ⟨_, mark, _, rfl, ⟨rfl, mark_kind⟩, front, consequent, _, rfl, chosen, _, colon, back,
      rfl, ⟨rfl, colon_kind⟩, alternate, otherwise, rfl⟩
    exact ⟨mark, colon, front, back, consequent, alternate, rfl, mark_kind, chosen, colon_kind,
      otherwise, rfl⟩
  · rintro ⟨mark, colon, front, back, consequent, alternate, rfl, mark_kind, chosen, colon_kind,
      otherwise, rfl⟩
    exact ⟨[mark], mark, _, rfl, ⟨rfl, mark_kind⟩, front, consequent, _, rfl, chosen, [colon],
      colon, back, rfl, ⟨rfl, colon_kind⟩, alternate, otherwise, rfl⟩

theorem branchPhrase_starts (test : Expr) (tokens : List Token) (expr : Expr)
    (phrase : branchPhrase test tokens expr) :
    ∃ token rest, tokens = token :: rest ∧ token.kind ∈ [.questionMark] := by
  obtain ⟨mark, colon, front, back, _, _, rfl, mark_kind, -⟩ := phrase
  exact ⟨mark, _, rfl, List.mem_singleton.mpr mark_kind⟩

theorem conditional_iff {tokens : List Token} {expr : Expr} :
    (Language.extend (Derives (.chain .or)) branchPhrase) tokens expr ↔
      Derives .conditional tokens expr := by
  constructor
  · rintro (chain | ⟨front, test, _, rfl, tested, mark, colon, middle, back, consequent,
      alternate, rfl, mark_kind, chosen, colon_kind, otherwise, rfl⟩)
    · exact .unconditional chain
    · exact .conditional tested mark_kind chosen colon_kind otherwise
  · intro derived
    cases derived with
    | unconditional chain => exact .inl chain
    | conditional tested mark_kind chosen colon_kind otherwise =>
        exact .inr ⟨_, _, _, rfl, tested, _, _, _, _, _, _, rfl, mark_kind, chosen, colon_kind,
          otherwise, rfl⟩

end Grammar
end Formulary

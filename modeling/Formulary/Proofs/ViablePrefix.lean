import Mathlib.Data.List.TakeWhile
import Formulary.Proofs.Parsing
import Formulary.Proofs.Stopping

/-!
# Errors stand at the earliest token

Every parser of expressions stops in time.  The error of a list of tokens is therefore located at
the first token with which no formula can go on, and at the end of input only if the tokens in
front of it are no formula but can become one.
-/

namespace Formulary
namespace Grammar

open Formulary.Expr (Level Parser)

/-- A token of a kind, wherever it stands. -/
def anyToken (kind : TokenKind) : Token where
  kind := kind
  value := []
  location := Token.none.location

/-- The constant is a phrase of every category. -/
theorem derives_null (category : Category) : ∃ expr, Derives category [anyToken .null] expr := by
  have primary : Derives .primary [anyToken .null] _ := .literal (.null rfl)
  have prefixed := Derives.unsigned (.bare primary)
  have chains (level : Level) : ∃ expr, Derives (.chain level) [anyToken .null] expr := by
    have multiplicative : Derives (.chain .multiplicative) _ _ := .single prefixed
    have additive : Derives (.chain .additive) _ _ := .single multiplicative
    have comparison : Derives (.chain .comparison) _ _ := .single additive
    have equality : Derives (.chain .equality) _ _ := .single comparison
    have and : Derives (.chain .and) _ _ := .single equality
    cases level with
    | or => exact ⟨_, .single and⟩
    | and => exact ⟨_, and⟩
    | equality => exact ⟨_, equality⟩
    | comparison => exact ⟨_, comparison⟩
    | additive => exact ⟨_, additive⟩
    | multiplicative => exact ⟨_, multiplicative⟩
  cases category with
  | conditional =>
      obtain ⟨expr, chain⟩ := chains .or
      exact ⟨expr, .unconditional chain⟩
  | chain level => exact chains level
  | prefixed => exact ⟨_, prefixed⟩
  | accessed => exact ⟨_, .bare primary⟩
  | primary => exact ⟨_, primary⟩

private theorem viable_derives (category : Category) : Viable (Derives category) [] := by
  obtain ⟨expr, phrase⟩ := derives_null category
  exact ⟨_, expr, phrase⟩

private theorem endOfInput_not_mem_operators (level : Level) :
    TokenKind.endOfInput ∉ operators level := by
  cases level <;> decide

mutual

theorem Derives.not_endOfInput {category : Category} {tokens : List Token} {expr : Expr} :
    Derives category tokens expr → ∀ token ∈ tokens, token.kind ≠ .endOfInput
  | .unconditional chain => chain.not_endOfInput
  | .conditional tested mark_kind chosen colon_kind otherwise => by
      simpa [or_imp, forall_and, mark_kind, colon_kind] using
        ⟨tested.not_endOfInput, chosen.not_endOfInput, otherwise.not_endOfInput⟩
  | .single only => only.not_endOfInput
  | .binary before joins after => by
      have kind := ne_of_mem_of_not_mem joins (endOfInput_not_mem_operators _)
      simpa [or_imp, forall_and, kind] using ⟨before.not_endOfInput, after.not_endOfInput⟩
  | .unsigned inner => inner.not_endOfInput
  | .unary sign_kind inner => by
      have kind := ne_of_mem_of_not_mem sign_kind (show TokenKind.endOfInput ∉ signs by decide)
      simpa [kind] using inner.not_endOfInput
  | .bare inner => inner.not_endOfInput
  | .property inner point_kind name_kind => by
      have kind := ne_of_mem_of_not_mem name_kind
        (show TokenKind.endOfInput ∉ propertyNames by decide)
      simpa [or_imp, forall_and, point_kind, kind] using inner.not_endOfInput
  | .index inner opening_kind computed closing_kind => by
      simpa [or_imp, forall_and, opening_kind, closing_kind] using
        ⟨inner.not_endOfInput, computed.not_endOfInput⟩
  | .literal denotes => by
      have kind := ne_of_mem_of_not_mem (mem_beginnings_of_denotes denotes)
        (show TokenKind.endOfInput ∉ beginnings .primary by decide)
      simpa using kind
  | .identifier kind => by simp [kind]
  | .call sign_kind name_kind opening_kind passed closing_kind => by
      simpa [or_imp, forall_and, sign_kind, name_kind, opening_kind, closing_kind] using
        passed.not_endOfInput
  | .parenthesised opening_kind inner closing_kind => by
      simpa [or_imp, forall_and, opening_kind, closing_kind] using inner.not_endOfInput

theorem Arguments.not_endOfInput {tokens : List Token} {values : List Expr} :
    Arguments tokens values → ∀ token ∈ tokens, token.kind ≠ .endOfInput
  | .none => by simp
  | .some listed => listed.not_endOfInput

theorem Listed.not_endOfInput {tokens : List Token} {values : List Expr} :
    Listed tokens values → ∀ token ∈ tokens, token.kind ≠ .endOfInput
  | .last only => only.not_endOfInput
  | .more head comma_kind others => by
      simpa [or_imp, forall_and, comma_kind] using ⟨head.not_endOfInput, others.not_endOfInput⟩

end

namespace Reads

private theorem category (category : Category) (bound : Nat) :
    ∃ parser, Reads bound parser (Derives category) (continuing category) := by
  have reads := expression bound
  have reads_primary := primary reads
  have reads_accessed := postfixed reads reads_primary
  have reads_prefixed := (prefixed reads_accessed).mono (Nat.le_succ bound)
  have multiplicative : Reads _ (Expr.chains _ [_]) _ _ := chain .multiplicative reads_prefixed
  have additive := chain .additive multiplicative
  have comparison := chain .comparison additive
  have equality := chain .equality comparison
  have and := chain .and equality
  cases category with
  | conditional => exact ⟨_, reads⟩
  | chain level =>
      cases level with
      | or => exact ⟨_, chain .or and⟩
      | and => exact ⟨_, and⟩
      | equality => exact ⟨_, equality⟩
      | comparison => exact ⟨_, comparison⟩
      | additive => exact ⟨_, additive⟩
      | multiplicative => exact ⟨_, multiplicative⟩
  | prefixed => exact ⟨_, reads_prefixed⟩
  | accessed => exact ⟨_, reads_accessed.mono (Nat.le_succ bound)⟩
  | primary => exact ⟨_, reads_primary.mono (Nat.le_succ bound)⟩

end Reads

private theorem definite_derives (category : Category) :
    Definite (Derives category) (continuing category) :=
  Reads.definite (Reads.category category)

private theorem definite_access (node : Expr) :
    Definite (Language.dispatch (accessPhrase node)) [] := by
  apply Reads.definite
  intro bound
  exact ⟨_, (Reads.accessStep (Reads.expression bound) node).mono (Nat.le_succ bound)⟩

private theorem definite_chain (level : Level) (left : Expr) :
    Definite (Language.dispatch (chainPhrase level left)) (continuing (operand level)) := by
  apply Reads.definite
  intro bound
  obtain ⟨parser, reads⟩ := Reads.category (operand level) bound
  exact ⟨_, (Reads.chainStep reads left).mono (Nat.le_succ bound)⟩

private theorem definite_listed : Definite Listed (continuing .conditional ++ [.comma]) := by
  apply Reads.definite
  intro bound
  exact ⟨_, Reads.argumentList (Reads.expression bound)⟩

namespace Stops

variable {bound depth : Nat} {inner : Parser Expr}

private theorem zero {α : Type} {parser : Parser α} {language : Language α}
    {continuing : List TokenKind} {fault : GrammarFault} (fails : parser [] = .error ⟨fault, []⟩)
    (viable : Viable language []) : Stops 0 parser language continuing := by
  intro tokens stop fits failed
  obtain rfl := List.length_eq_zero_iff.mp (Nat.le_zero.mp fits)
  rw [fails] at failed
  cases failed
  exact ⟨[], rfl, viable, fun token after next => by cases next⟩

private theorem viable_property : Viable propertyPhrase [] :=
  ⟨[anyToken .identifier], _, anyToken .identifier, rfl, by decide, rfl⟩

private theorem property : Stops bound Expr.property propertyPhrase [] := by
  intro tokens stop _ failed
  cases tokens with
  | nil =>
      cases failed
      exact ⟨[], rfl, viable_property, fun token after next => by cases next⟩
  | cons token rest =>
      simp only [Expr.property] at failed
      split at failed
      · cases failed
      · rename_i unnamed
        cases failed
        refine ⟨[], rfl, viable_property, ?_⟩
        rintro found after next _ expr remainder back ⟨name, rfl, kind, -⟩ _ same
        obtain ⟨rfl, -⟩ := List.cons_eq_cons.mp next
        obtain ⟨rfl, -⟩ := List.cons_eq_cons.mp same
        rw [propertyName?_eq_some_iff.mpr ⟨kind, rfl⟩] at unnamed
        cases unnamed

private theorem accessStep
    (stops : Stops depth inner (Derives .conditional) (continuing .conditional))
    (reads : Reads depth inner (Derives .conditional) (continuing .conditional)) (node : Expr) :
    Stops (depth + 1) (Expr.accessStep inner node) (Language.dispatch (accessPhrase node)) [] := by
  have inhabited : Viable (Language.dispatch (accessPhrase node)) [] := by
    obtain ⟨back, name, phrase⟩ := viable_property
    exact ⟨anyToken .dot :: back, _, _, _, rfl, .inl ⟨rfl, name, phrase, rfl⟩⟩
  apply dispatch inhabited
  · intro token parser accepted
    split at accepted
    · rename_i point
      cases accepted
      have stops_name : Stops depth _ _ _ :=
        property.map fun name => Expr.member node name false token
      refine stops_name.congr fun tokens expr => ?_
      simp [accessPhrase, point]
    · split at accepted
      · rename_i bracket
        cases accepted
        have apart : TokenKind.closeBracket ∉ continuing .conditional := by decide
        refine (stops.closed reads (definite_derives .conditional) .expectedClosingBracket apart
          fun key => Expr.member node key true token).congr fun tokens expr => ?_
        simp [accessPhrase, bracket]
      · cases accepted
  · rintro token fault tokens expr rejected (⟨point, -⟩ | ⟨bracket, -⟩)
    · simp [point] at rejected
    · simp [bracket] at rejected

private theorem postfixed
    (stops : Stops depth inner (Derives .conditional) (continuing .conditional))
    (reads : Reads depth inner (Derives .conditional) (continuing .conditional))
    (stops_primary : Stops (depth + 1) (Expr.primary inner) (Derives .primary) []) :
    Stops (depth + 1) (Expr.postfixed inner) (Derives .accessed) (continuing .accessed) := by
  rw [Expr.postfixed_eq]
  exact (stops_primary.iterate (Reads.primary reads) (definite_derives .primary)
    (accessStep stops reads) (Reads.accessStep reads) definite_access accessPhrase_starts
    (by simp)).congr fun _ _ => accessed_iff

private theorem signStep (stops : Stops bound (Expr.prefixed inner) (Derives .prefixed)
      (continuing .prefixed)) :
    Stops (bound + 1) (Expr.signStep inner) (Language.dispatch signPhrase)
      (continuing .prefixed) := by
  have inhabited : Viable (Language.dispatch signPhrase) [] := by
    obtain ⟨argument, phrase⟩ := derives_null .prefixed
    exact ⟨[anyToken .minus, _], _, _, _, rfl, by decide, argument, phrase, rfl⟩
  apply dispatch inhabited
  · intro sign parser accepted
    split at accepted
    · rename_i kind
      cases accepted
      exact (stops.map fun argument => Expr.unary sign.value true argument sign).congr
        fun _ _ => signPhrase_iff kind
    · cases accepted
  · intro sign fault tokens expr rejected
    split at rejected
    · cases rejected
    · exact signPhrase_rejected ‹_›

private theorem prefixed (stops : Stops bound (Expr.postfixed inner) (Derives .accessed)
      (continuing .accessed)) :
    Stops bound (Expr.prefixed inner) (Derives .prefixed) (continuing .prefixed) := by
  induction bound with
  | zero => exact zero rfl (viable_derives .prefixed)
  | succ bound induction =>
      have stops_sign := signStep (induction (stops.mono (Nat.le_succ bound)))
      rw [Expr.prefixed_eq]
      refine (stops_sign.peek stops signPhrase_starts ?_).congr fun _ _ => prefixed_iff
      intro tokens expr rest phrase _
      obtain ⟨token, after, rfl, kind⟩ := accessed_avoids tokens expr phrase
      simpa using kind

private theorem chainStep {level : Level} {parser : Parser Expr}
    (stops : Stops bound parser (Derives (operand level)) (continuing (operand level)))
    (left : Expr) :
    Stops (bound + 1) (Expr.chainStep level parser left)
      (Language.dispatch (chainPhrase level left)) (continuing (operand level)) := by
  have inhabited : Viable (Language.dispatch (chainPhrase level left)) [] := by
    obtain ⟨right, phrase⟩ := derives_null (operand level)
    obtain ⟨kind, joins⟩ : ∃ kind, kind ∈ operators level := by
      cases level <;> exact ⟨_, List.mem_cons_self⟩
    exact ⟨[anyToken kind, _], _, _, _, rfl, joins, right, phrase, rfl⟩
  apply dispatch inhabited
  · intro token step accepted
    obtain ⟨kind, rfl⟩ := chainBranch_accepted accepted
    exact (stops.map fun right => Expr.binary (Expr.operatorText token) left right token).congr
      fun _ _ => chainPhrase_iff kind
  · intro token fault tokens expr rejected
    exact chainBranch_rejected rejected

private theorem chain (level : Level) {tighter : List Level}
    (stops : Stops bound (Expr.chains inner tighter) (Derives (operand level))
      (continuing (operand level)))
    (reads : Reads bound (Expr.chains inner tighter) (Derives (operand level))
      (continuing (operand level))) :
    Stops bound (Expr.chains inner (level :: tighter)) (Derives (.chain level))
      (continuing (.chain level)) := by
  rw [Expr.chains_cons_eq, continuing_chain]
  have stops_step := fun left => (chainStep stops left).mono (Nat.le_succ bound)
  have reads_step := fun left => (Reads.chainStep reads left).mono (Nat.le_succ bound)
  exact (stops.iterate reads (definite_derives _) stops_step reads_step (definite_chain level)
    (chainPhrase_starts level) (asks_apart level)).congr fun _ _ => chain_iff

private theorem chains (stops : Stops bound (Expr.prefixed inner) (Derives .prefixed)
      (continuing .prefixed))
    (reads : Reads bound (Expr.prefixed inner) (Derives .prefixed) (continuing .prefixed)) :
    Stops bound (Expr.chains inner Level.all) (Derives (.chain .or)) (continuing (.chain .or)) := by
  have multiplicative : Reads _ (Expr.chains inner [_]) _ _ := Reads.chain .multiplicative reads
  have additive := Reads.chain .additive multiplicative
  have comparison := Reads.chain .comparison additive
  have equality := Reads.chain .equality comparison
  have and := Reads.chain .and equality
  have stops_multiplicative : Stops _ (Expr.chains inner [_]) _ _ :=
    chain .multiplicative stops reads
  have stops_additive := chain .additive stops_multiplicative multiplicative
  have stops_comparison := chain .comparison stops_additive additive
  have stops_equality := chain .equality stops_comparison comparison
  have stops_and := chain .and stops_equality equality
  exact chain .or stops_and and

private theorem viable_listed : Viable Listed [] := by
  obtain ⟨expr, phrase⟩ := derives_null .conditional
  exact ⟨_, [expr], .last phrase⟩

private theorem argumentsUpTo {fuel : Nat}
    (stops : Stops bound inner (Derives .conditional) (continuing .conditional))
    (reads : Reads bound inner (Derives .conditional) (continuing .conditional))
    (enough : bound ≤ fuel) :
    Stops bound (Expr.arguments inner fuel) Listed (continuing .conditional ++ [.comma]) := by
  induction fuel generalizing bound with
  | zero =>
      obtain rfl := Nat.le_zero.mp enough
      exact zero rfl viable_listed
  | succ fuel induction =>
      rw [Expr.arguments_eq]
      have stops_first := stops.map fun first => [first]
      have reads_first := reads.map fun first => [first]
      have stops_more :=
        induction (stops.mono (Nat.sub_le bound 1)) (reads.mono (Nat.sub_le bound 1))
        (by omega)
      have progress (front : List Token) (comma : Token)
          (phrase : Language.token .comma front comma) : bound ≤ front.length + (bound - 1) := by
        obtain ⟨rfl, -⟩ := phrase
        simp
        omega
      have inhabited (values : List Expr) : Viable (fun tokens final =>
          ∃ more, Listed tokens more ∧ final = values ++ more) [] := by
        obtain ⟨back, more, listed⟩ := viable_listed
        exact ⟨back, _, more, listed, rfl⟩
      have stops_further (values : List Expr) :=
        ((expect .comma .expectedExpression).andThen (Reads.expect _ _) (definite_token _)
          (fun _ => stops_more.map fun more => values ++ more) (fun _ => inhabited values)
          progress (by simp)).congr fun _ _ => furtherPhrase_iff
      have definite_first := Definite.map (definite_derives .conditional) fun first => [first]
      exact (stops_first.extend reads_first definite_first stops_further
        furtherPhrase_starts (by decide)).congr fun _ _ => listed_iff

private theorem argumentList
    (stops : Stops bound inner (Derives .conditional) (continuing .conditional))
    (reads : Reads bound inner (Derives .conditional) (continuing .conditional)) :
    Stops bound (Expr.argumentList inner) Listed (continuing .conditional ++ [.comma]) := by
  intro tokens stop fits failed
  exact argumentsUpTo (stops.mono fits) (reads.mono fits) (Nat.le_refl _) tokens stop
    (Nat.le_refl _) failed

private theorem callTail
    (stops : Stops bound inner (Derives .conditional) (continuing .conditional))
    (reads : Reads bound inner (Derives .conditional) (continuing .conditional))
    (function : Text) (sign : Token) :
    Stops bound (Expr.callTail inner function sign) (callTailPhrase function sign) [] := by
  have stops_closing : Stops bound
      (Expr.expect .closeParenthesis (.expectedEndOfArguments function))
      (Language.token .closeParenthesis) [] := expect _ _
  have stops_none := stops_closing.map fun _ => Expr.call function [] sign
  have apart : TokenKind.closeParenthesis ∉ continuing .conditional ++ [.comma] := by decide
  have stops_some := (argumentList stops reads).closed (Reads.argumentList reads) definite_listed
    (.expectedEndOfArguments function) apart fun values => Expr.call function values sign
  refine (stops_none.peek stops_some (closing_starts _) ?_).congr fun _ _ => callTailPhrase_iff
  intro tokens expr rest phrase _
  obtain ⟨token, after, rfl, kind⟩ := closed_avoids _ tokens expr phrase
  simpa using kind

private theorem viable_callTail (function : Text) (sign : Token) :
    Viable (callTailPhrase function sign) [] :=
  ⟨[anyToken .closeParenthesis], _, [], _, [], rfl, .none, rfl, rfl⟩

private theorem functionCall
    (stops : Stops bound inner (Derives .conditional) (continuing .conditional))
    (reads : Reads bound inner (Derives .conditional) (continuing .conditional))
    (sign : Token) : Stops bound (Expr.functionCall inner sign) (callPhrase sign) [] := by
  rw [Expr.functionCall_eq]
  have progress {kind : TokenKind} (front : List Token) (token : Token)
      (_ : Language.token kind front token) : bound ≤ front.length + bound :=
    Nat.le_add_left _ _
  have stops_opened (name : Token) :=
    (expect .openParenthesis (.expectedArguments name.value)).andThen (Reads.expect _ _)
      (definite_token _) (fun _ => callTail stops reads name.value sign)
      (fun _ => viable_callTail name.value sign) progress (by simp)
  have inhabited (name : Token) := (viable_token .openParenthesis).andThen
    fun _ => viable_callTail name.value sign
  exact ((expect .identifier .expectedFunctionName).andThen (Reads.expect _ _) (definite_token _)
    stops_opened inhabited progress (by simp)).congr fun _ _ => callPhrase_iff

private theorem primary (stops : Stops bound inner (Derives .conditional) (continuing .conditional))
    (reads : Reads bound inner (Derives .conditional) (continuing .conditional)) :
    Stops (bound + 1) (Expr.primary inner) (Derives .primary) [] := by
  rw [Expr.primary_eq]
  have inhabited := (viable_derives .primary).congr fun _ _ => derives_primary_iff
  refine (dispatch inhabited ?_ ?_).congr fun _ _ => derives_primary_iff.symm
  · intro token parser accepted
    obtain ⟨expr, rfl, same⟩ | ⟨rfl, same⟩ | ⟨rfl, same⟩ := primaryBranch_accepted accepted
    · exact succeed expr _
    · exact (functionCall stops reads token).congr same
    · exact (stops.closed reads (definite_derives .conditional) .expectedClosingParenthesis
        (by decide) id).congr same
  · intro token fault tokens expr rejected
    exact primaryBranch_rejected rejected

private theorem branches
    (stops : Stops bound inner (Derives .conditional) (continuing .conditional))
    (reads : Reads bound inner (Derives .conditional) (continuing .conditional)) (test : Expr) :
    Stops (bound + 1) (Expr.branches inner test) (branchPhrase test)
      (continuing .conditional) := by
  have inhabited_alternate (mark : Token) (consequent : Expr) : Viable (fun tokens expr =>
      ∃ alternate, Derives .conditional tokens alternate ∧
        expr = Expr.conditional test consequent alternate mark) [] := by
    obtain ⟨alternate, phrase⟩ := derives_null .conditional
    exact ⟨_, _, alternate, phrase, rfl⟩
  have stops_alternate (mark : Token) (consequent : Expr) :=
    (expect .colon .expectedColon).andThen (Reads.expect _ _) (definite_token _)
      (fun _ => stops.map fun alternate => Expr.conditional test consequent alternate mark)
      (fun _ => inhabited_alternate mark consequent) (fun _ _ _ => Nat.le_add_left _ _) (by simp)
  have inhabited_colon (mark : Token) (consequent : Expr) :=
    (viable_token .colon).andThen fun _ => inhabited_alternate mark consequent
  have stops_consequent (mark : Token) :=
    stops.andThen reads (definite_derives .conditional) (stops_alternate mark)
      (inhabited_colon mark) (fun _ _ _ => Nat.le_add_left _ _) (colon_apart _)
  have inhabited_consequent (mark : Token) :=
    (viable_derives .conditional).andThen (inhabited_colon mark)
  have progress (front : List Token) (mark : Token)
      (phrase : Language.token .questionMark front mark) : bound + 1 ≤ front.length + bound := by
    obtain ⟨rfl, -⟩ := phrase
    exact Nat.le_of_eq (Nat.add_comm bound 1)
  exact ((expect .questionMark .unexpectedToken).andThen (Reads.expect _ _) (definite_token _)
    stops_consequent inhabited_consequent progress (by simp)).congr fun _ _ => branchPhrase_iff

private theorem conditionalOver
    (stops : Stops bound inner (Derives .conditional) (continuing .conditional))
    (reads : Reads bound inner (Derives .conditional) (continuing .conditional)) :
    Stops (bound + 1) (Expr.conditionalOver inner) (Derives .conditional)
      (continuing .conditional) := by
  rw [Expr.conditionalOver_eq]
  have reads_prefixed := Reads.prefixed (Reads.postfixed reads (Reads.primary reads))
  have stops_prefixed := prefixed (postfixed stops reads (primary stops reads))
  have stops_test := chains stops_prefixed reads_prefixed
  exact (stops_test.extend (Reads.chains reads_prefixed) (definite_derives (.chain .or))
    (branches stops reads) branchPhrase_starts (by decide)).congr fun _ _ => conditional_iff

private theorem expression (depth : Nat) :
    Stops depth (Expr.expression depth) (Derives .conditional) (continuing .conditional) := by
  induction depth with
  | zero => exact zero rfl (viable_derives .conditional)
  | succ depth induction => exact conditionalOver induction (Reads.expression depth)

end Stops

/-! ## Errors of formulas -/

/-- A formula is read from the tokens. -/
def Accepted (tokens : List Token) : Prop :=
  ∃ program, Program.ofTokens tokens = .ok program

private theorem accepted_iff (tokens : List Token) :
    Accepted tokens ↔ ∃ expr, Sentence (Program.bodyTokens tokens) expr := by
  constructor
  · rintro ⟨program, parsed⟩
    exact ⟨program.body, ((ofTokens_eq_ok_iff tokens program).mp parsed).1⟩
  · rintro ⟨expr, sentence⟩
    cases tokens with
    | nil => exact absurd sentence Derives.not_nil
    | cons token rest => exact ⟨⟨expr, token⟩, (ofTokens_eq_ok_iff _ _).mpr ⟨sentence, rfl⟩⟩

theorem bodyTokens_append {front : List Token}
    (endless : ∀ token ∈ front, token.kind ≠ .endOfInput) (back : List Token) :
    Program.bodyTokens (front ++ back) = front ++ Program.bodyTokens back := by
  apply List.takeWhile_append_of_pos
  intro token member
  exact bne_iff_ne.mpr (endless token member)

private theorem bodyTokens_eq_self {tokens : List Token}
    (endless : ∀ token ∈ tokens, token.kind ≠ .endOfInput) :
    Program.bodyTokens tokens = tokens := by
  have appended := bodyTokens_append endless []
  rwa [List.append_nil, show Program.bodyTokens [] = [] from rfl, List.append_nil] at appended

theorem kind_of_mem_bodyTokens {tokens : List Token} :
    ∀ token ∈ Program.bodyTokens tokens, token.kind ≠ .endOfInput := by
  intro token member
  have all := List.mem_takeWhile_imp member
  exact bne_iff_ne.mp all

private theorem accepted_of_endless {tokens : List Token}
    (endless : ∀ token ∈ tokens, token.kind ≠ .endOfInput) :
    Accepted tokens ↔ ∃ expr, Sentence tokens expr := by
  rw [accepted_iff, bodyTokens_eq_self endless]

private theorem viable_of_accepted {front accepted : List Token} (is_accepted : Accepted accepted)
    (endless : ∀ token ∈ front, token.kind ≠ .endOfInput) (begins : front <+: accepted) :
    Viable (Derives .conditional) front := by
  obtain ⟨back, rfl⟩ := begins
  obtain ⟨expr, sentence⟩ := (accepted_iff _).mp is_accepted
  rw [bodyTokens_append endless] at sentence
  exact ⟨_, expr, sentence⟩

theorem headD_endToken {tokens front rest : List Token}
    (split : Program.bodyTokens tokens = front ++ rest) :
    rest.headD (Program.endToken tokens) = tokens.getD front.length Token.pastEnd := by
  induction tokens generalizing front with
  | nil =>
      obtain ⟨rfl, rfl⟩ := List.append_eq_nil_iff.mp split.symm
      rfl
  | cons token tail induction =>
      simp only [Program.endToken, Program.bodyTokens] at induction split ⊢
      by_cases ends : token.kind = .endOfInput
      · simp only [ends, bne_self_eq_false, Bool.false_eq_true, not_false_eq_true,
          List.takeWhile_cons_of_neg] at split
        obtain ⟨rfl, rfl⟩ := List.append_eq_nil_iff.mp split.symm
        simp [ends]
      · rw [List.takeWhile_cons_of_pos (by simpa using ends)] at split
        rw [List.find?_cons_of_neg (by simpa using ends)]
        cases front with
        | nil =>
            rw [List.nil_append] at split
            rw [← split]
            rfl
        | cons first others =>
            exact induction (List.cons_eq_cons.mp split).2

/--
Some formula begins with the tokens in front of the place, and none begins with them and the token
there; at the end of input, the tokens in front are no formula themselves.
-/
structure FirstUnacceptable (tokens : List Token) (place : Nat) : Prop where
  inside : place ≤ (Program.bodyTokens tokens).length
  viable : ∃ accepted, Accepted accepted ∧ tokens.take place <+: accepted
  dead : place < (Program.bodyTokens tokens).length →
    ∀ accepted, Accepted accepted → ¬ tokens.take (place + 1) <+: accepted
  unfinished : place = (Program.bodyTokens tokens).length → ¬ Accepted (tokens.take place)

private theorem Blocked.not_viable {front : List Token} {continuing : List TokenKind}
    (blocked : Blocked (Derives .conditional) continuing front) :
    ¬ Viable (Derives .conditional) front := by
  rintro ⟨back, expr, phrase⟩
  exact blocked (front ++ back) expr [] back phrase (ends_nil _) (List.append_nil _)

theorem ofTokens_stops {tokens : List Token} {error : SyntaxError}
    (failed : Program.ofTokens tokens = .error error) :
    ∃ stop front, error = Program.errorAt tokens stop ∧
      Program.bodyTokens tokens = front ++ stop.rest ∧ Viable (Derives .conditional) front ∧
      (∀ token after, stop.rest = token :: after →
        ¬ Viable (Derives .conditional) (front ++ [token])) ∧
      (stop.rest = [] → ∀ expr, ¬ Sentence front expr) := by
  have reads := Reads.expression (Program.bodyTokens tokens).length
  have fits := Nat.le_refl (Program.bodyTokens tokens).length
  simp only [Program.ofTokens] at failed
  split at failed
  · rename_i stop outcome
    cases failed
    obtain ⟨front, split, viable, blocked⟩ := Stops.expression _ _ stop fits outcome
    refine ⟨stop, front, rfl, split, viable, fun token after next =>
      (blocked token after next).not_viable, fun empty expr sentence => ?_⟩
    rw [empty, List.append_nil] at split
    rw [← split] at sentence
    have parsed := reads.complete
      (show (Program.bodyTokens tokens ++ []).length ≤ _ by simp) sentence (ends_nil _)
    rw [List.append_nil, outcome] at parsed
    cases parsed
  · cases failed
  · rename_i expr token rest outcome
    cases failed
    -- A sentence has been read, and the token behind it continues none.
    obtain ⟨front, split, sentence, ends⟩ := reads.sound fits outcome
    refine ⟨_, front, rfl, split, ⟨[], expr, by rwa [List.append_nil]⟩, ?_, fun empty => ?_⟩
    · rintro found after next ⟨back, other, longer⟩
      cases next
      have apart : Ends (continuing .conditional) ([token] ++ back) := by simpa using ends
      obtain ⟨same, -⟩ := definite_derives .conditional longer sentence (ends_nil _) apart
        (by simp)
      simpa using congrArg List.length same
    · cases empty

/-- The error of a list of tokens is located at its first unacceptable token. -/
theorem ofTokens_error_at_first_unacceptable (tokens : List Token) (error : SyntaxError)
    (failed : Program.ofTokens tokens = .error error) :
    ∃ place fault, FirstUnacceptable tokens place ∧
      error =
        { fault := .grammatical fault (tokens.getD place Token.pastEnd)
          location := (tokens.getD place Token.pastEnd).location } := by
  obtain ⟨stop, front, rfl, split, ⟨back, expr, sentence⟩, dead, unfinished⟩ :=
    ofTokens_stops failed
  have endless (token : Token) (member : token ∈ front ++ stop.rest) :
      token.kind ≠ .endOfInput :=
    kind_of_mem_bodyTokens token (split ▸ member)
  have front_endless (token : Token) (member : token ∈ front) : token.kind ≠ .endOfInput :=
    endless token (List.mem_append_left _ member)
  have begins : front ++ stop.rest <+: tokens := split ▸ List.takeWhile_prefix _
  obtain ⟨tail, rfl⟩ := begins
  have taken : (front ++ stop.rest ++ tail).take front.length = front := by
    rw [List.append_assoc, List.take_left]
  refine ⟨front.length, stop.fault, ⟨?inside, ?viable, ?dead, ?unfinished⟩, ?located⟩
  case inside =>
    rw [split, List.length_append]
    exact Nat.le_add_right _ _
  case viable =>
    refine ⟨front ++ back, (accepted_of_endless sentence.not_endOfInput).mpr ⟨expr, sentence⟩, ?_⟩
    rw [taken]
    exact List.prefix_append _ _
  case dead =>
    intro before accepted is_accepted begins
    cases next : stop.rest with
    | nil =>
        rw [split, next, List.append_nil] at before
        exact Nat.lt_irrefl _ before
    | cons token after =>
        have taken_next : (front ++ stop.rest ++ tail).take (front.length + 1) =
            front ++ [token] := by
          rw [next, List.append_assoc, List.take_length_add_append]
          rfl
        rw [taken_next] at begins
        refine dead token after next (viable_of_accepted is_accepted ?_ begins)
        intro other member
        apply endless other
        rw [next, List.append_cons]
        exact List.mem_append_left _ member
  case unfinished =>
    intro whole is_accepted
    rw [split, List.length_append] at whole
    have empty : stop.rest = [] := List.length_eq_zero_iff.mp (by omega)
    rw [taken] at is_accepted
    obtain ⟨other, also⟩ := (accepted_of_endless front_endless).mp is_accepted
    exact unfinished empty other also
  case located =>
    rw [← headD_endToken split]
    rfl

/-- Two names in a row, of which the second is out of place. -/
def twoNames : List Token :=
  [⟨.identifier, Text.ascii "a", ⟨[], 1, 1, 1⟩⟩, ⟨.identifier, Text.ascii "b", ⟨[], 1, 3, 1⟩⟩]

theorem twoNames_error_at_first_unacceptable :
    ∃ error, Program.ofTokens twoNames = .error error ∧ ∃ place fault,
      FirstUnacceptable twoNames place ∧
      error =
        { fault := .grammatical fault (twoNames.getD place Token.pastEnd)
          location := (twoNames.getD place Token.pastEnd).location } :=
  ⟨_, rfl, ofTokens_error_at_first_unacceptable twoNames _ rfl⟩

end Grammar
end Formulary

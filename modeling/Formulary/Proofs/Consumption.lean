import Formulary.Proofs.TokenCursor
import Formulary.Proofs.TrailingSpaces

/-!
# What parsing takes

The actions on a cursor end where the parsers on lists do, with the same tree or the same error.
Twelve calls at most are made before one of them takes a token, which bounds how deep they are
nested.  Along the way they take tokens in front of the first end of input only, each of them once
and in order; and a tree has no more nodes than tokens were taken for it.
-/

namespace Formulary

/-- The number of nodes of a tree; the name of a call's function is a node as well. -/
def Expr.size : Expr → Nat
  | missing => 1
  | literal _ _ => 1
  | identifier _ _ => 1
  | member object property _ _ => object.size + property.size + 1
  | call _ arguments _ => sizeOfAll arguments + 2
  | binary _ left right _ => left.size + right.size + 1
  | unary _ _ argument _ => argument.size + 1
  | conditional test consequent alternate _ =>
      test.size + consequent.size + alternate.size + 1
  | unsupported _ _ => 1
where
  /-- The number of nodes of trees. -/
  sizeOfAll : List Expr → Nat
    | [] => 0
    | argument :: rest => argument.size + sizeOfAll rest

namespace Grammar

open Formulary.Expr.size (sizeOfAll)

mutual

/-- Every node of a phrase has a token of its own. -/
theorem Derives.size_le {category : Category} {tokens : List Token} {expr : Expr} :
    Derives category tokens expr → expr.size ≤ tokens.length
  | .unconditional chain => chain.size_le
  | .conditional tested _ chosen _ otherwise => by
      have test := tested.size_le
      have consequent := chosen.size_le
      have alternate := otherwise.size_le
      simp only [Expr.size, List.length_append, List.length_cons]
      omega
  | .single only => only.size_le
  | .binary before _ after => by
      have left := before.size_le
      have right := after.size_le
      simp only [Expr.size, List.length_append, List.length_cons]
      omega
  | .unsigned inner => inner.size_le
  | .unary _ inner => Nat.succ_le_succ inner.size_le
  | .bare inner => inner.size_le
  | .property inner _ _ => by
      have object := inner.size_le
      simp only [Expr.size, List.length_append, List.length_cons, List.length_nil]
      omega
  | .index inner _ computed _ => by
      have object := inner.size_le
      have key := computed.size_le
      simp only [Expr.size, List.length_append, List.length_cons, List.length_nil]
      omega
  | .literal _ => Nat.le_refl 1
  | .identifier _ => Nat.le_refl 1
  | .call _ _ _ passed _ => by
      have values := passed.size_le
      simp only [Expr.size, List.length_append, List.length_cons, List.length_nil]
      omega
  | .parenthesised _ inner _ => by
      have body := inner.size_le
      simp only [List.length_append, List.length_cons, List.length_nil]
      omega

theorem Arguments.size_le {tokens : List Token} {values : List Expr} :
    Arguments tokens values → sizeOfAll values ≤ tokens.length
  | .none => Nat.le_refl 0
  | .some listed => listed.size_le

theorem Listed.size_le {tokens : List Token} {values : List Expr} :
    Listed tokens values → sizeOfAll values ≤ tokens.length
  | .last only => only.size_le
  | .more head _ others => by
      have first := head.size_le
      have rest := others.size_le
      simp only [sizeOfAll, List.length_append, List.length_cons]
      omega

end

end Grammar

namespace Cursor

open Formulary.Expr (Level Parser)

variable {α β : Type} {tokens : List Token} {cursor : Cursor}

/-- The taken token is the one at its place, which may have been made a name. -/
def Genuine (tokens : List Token) (entry : Nat × Token) : Prop :=
  ∃ original, (Program.bodyTokens tokens)[entry.1]? = some original ∧
    (entry.2 = original ∨ Expr.propertyName? original = some entry.2)

/-- The cursor has come from the start of the tokens, and stands before their first end. -/
structure OnWay (tokens : List Token) (cursor : Cursor) : Prop where
  inside : cursor.position ≤ (Program.bodyTokens tokens).length
  unchanged : cursor.tokens.drop cursor.position = tokens.drop cursor.position
  places : cursor.taken.map Prod.fst = List.range cursor.position
  genuine : ∀ entry ∈ cursor.taken, Genuine tokens entry

/-- The tokens that the cursor can still take. -/
def ahead (tokens : List Token) (cursor : Cursor) : List Token :=
  (Program.bodyTokens tokens).drop cursor.position

private theorem onWay_start (tokens : List Token) : OnWay tokens (start tokens) where
  inside := Nat.zero_le _
  unchanged := rfl
  places := rfl
  genuine := List.forall_mem_nil _

private theorem ahead_start (tokens : List Token) :
    ahead tokens (start tokens) = Program.bodyTokens tokens :=
  List.drop_zero

private theorem kind_of_ahead {token : Token} {rest : List Token}
    (taking : ahead tokens cursor = token :: rest) : token.kind ≠ .endOfInput :=
  Grammar.kind_of_mem_bodyTokens token (List.mem_of_mem_drop (taking ▸ List.mem_cons_self))

namespace OnWay

variable (way : OnWay tokens cursor)

include way

private theorem next_eq : cursor.next = (ahead tokens cursor).headD (Program.endToken tokens) := by
  have split : Program.bodyTokens tokens =
      (Program.bodyTokens tokens).take cursor.position ++ ahead tokens cursor :=
    (List.take_append_drop _ _).symm
  have head (list : List Token) : list.getD cursor.position Token.pastEnd =
      (list.drop cursor.position).headD Token.pastEnd := by
    simp [List.getD_eq_getElem?_getD, List.headD_eq_head?_getD, List.head?_drop]
  rw [Grammar.headD_endToken split, List.length_take, Nat.min_eq_left way.inside, next, head,
    way.unchanged, ← head]

/-- What fails at the cursor fails in front of what is ahead. -/
theorem run_fail_next (fault : GrammarFault) :
    (fail cursor.next fault : Action α).run cursor =
      some (.error (Program.errorAt tokens ⟨fault, ahead tokens cursor⟩), cursor) := by
  rw [run_fail, way.next_eq]
  rfl

private theorem kind_next_of_nil (none_ahead : ahead tokens cursor = []) :
    cursor.next.kind = .endOfInput := by
  rw [way.next_eq, none_ahead]
  exact Program.kind_endToken tokens

section Taking

variable {token : Token} {rest : List Token} (taking : ahead tokens cursor = token :: rest)

include taking

private theorem next_of_cons : cursor.next = token := by
  rw [way.next_eq, taking]
  rfl

private theorem position_lt : cursor.position < cursor.tokens.length := by
  have in_body : cursor.position < (Program.bodyTokens tokens).length := by
    by_contra beyond
    rw [ahead, List.drop_eq_nil_iff.mpr (Nat.le_of_not_lt beyond)] at taking
    cases taking
  have in_tokens : (Program.bodyTokens tokens).length ≤ tokens.length :=
    (List.takeWhile_sublist _).length_le
  have lengths := congrArg List.length way.unchanged
  rw [List.length_drop, List.length_drop] at lengths
  omega

/-- Taking the next token, as it is or made a name, leads on by one place. -/
theorem of_taken {after : Cursor} {found : Token} (moved : after.position = cursor.position + 1)
    (unchanged : after.tokens.drop (cursor.position + 1) =
      cursor.tokens.drop (cursor.position + 1))
    (taken : after.taken = cursor.taken ++ [(cursor.position, found)])
    (genuine : found = token ∨ Expr.propertyName? token = some found) :
    OnWay tokens after ∧ ahead tokens after = rest := by
  have place : (Program.bodyTokens tokens)[cursor.position]? = some token := by
    rw [← List.head?_drop]
    exact congrArg List.head? taking
  have following := congrArg (List.drop 1) taking
  rw [ahead, List.drop_drop, List.drop_one, List.tail_cons] at following
  refine ⟨⟨?_, ?_, ?_, ?_⟩, by rw [ahead, moved, following]⟩
  · rw [moved]
    exact (List.getElem?_eq_some_iff.mp place).1
  · have later := congrArg (List.drop 1) way.unchanged
    rw [List.drop_drop, List.drop_drop] at later
    rw [moved, unchanged, later]
  · rw [taken, List.map_append, way.places, moved, List.range_succ]
    rfl
  · rw [taken]
    refine List.forall_mem_append.mpr ⟨way.genuine, List.forall_mem_singleton.mpr ?_⟩
    exact ⟨token, place, genuine⟩

private theorem advance : OnWay tokens cursor.advance ∧ ahead tokens cursor.advance = rest :=
  way.of_taken taking (if_pos (way.position_lt taking)) rfl rfl (.inl (way.next_of_cons taking))

private theorem rename
    (constant : Expr.propertyName? token = some { token with kind := .identifier }) :
    cursor.rename.next = { token with kind := .identifier } ∧
      OnWay tokens cursor.rename.advance ∧ ahead tokens cursor.rename.advance = rest := by
  have inside := way.position_lt taking
  have renamed : cursor.rename.next = { token with kind := .identifier } := by
    rw [Cursor.next, Cursor.rename, List.getD_eq_getElem?_getD, List.getElem?_set_self inside,
      way.next_of_cons taking]
    rfl
  have inside_renamed : cursor.rename.position < cursor.rename.tokens.length := by
    rwa [Cursor.rename, List.length_set]
  refine ⟨renamed, way.of_taken taking (if_pos inside_renamed) ?_ rfl (.inr ?_)⟩
  · exact List.drop_set_of_lt (Nat.lt_succ_self _)
  · rw [renamed, constant]

end Taking
end OnWay

/-! ## Actions and parsers -/

/--
The action ends with what the parser returned, at a cursor in front of what the parser left; no
cursor is moved back.
-/
inductive Agrees (tokens : List Token) (cursor : Cursor) :
    Except Expr.Stop (α × List Token) → Option (Except SyntaxError α × Cursor) → Prop where
  | value {value after} (way : OnWay tokens after) (onwards : cursor.position ≤ after.position) :
      Agrees tokens cursor (.ok (value, ahead tokens after)) (some (.ok value, after))
  | failure {fault after} (way : OnWay tokens after) (onwards : cursor.position ≤ after.position) :
      Agrees tokens cursor (.error ⟨fault, ahead tokens after⟩)
        (some (.error (Program.errorAt tokens ⟨fault, ahead tokens after⟩), after))

/-- With less than `bound` tokens ahead the action does what the parser does with these tokens. -/
def Follows (tokens : List Token) (bound : Nat) (action : Action α) (parser : Parser α) : Prop :=
  ∀ cursor, OnWay tokens cursor → (ahead tokens cursor).length < bound →
    Agrees tokens cursor (parser (ahead tokens cursor)) (action.run cursor)

private theorem Agrees.mono {parsed : Except Expr.Stop (α × List Token)}
    {outcome : Option (Except SyntaxError α × Cursor)} {later : Cursor}
    (agrees : Agrees tokens later parsed outcome) (onwards : cursor.position ≤ later.position) :
    Agrees tokens cursor parsed outcome := by
  cases agrees with
  | value way further => exact .value way (Nat.le_trans onwards further)
  | failure way further => exact .failure way (Nat.le_trans onwards further)

private theorem Agrees.bind_of_error {stop : Expr.Stop} {action : Action α}
    (agrees : Agrees tokens cursor (.error stop) (action.run cursor)) (following : α → Action β) :
    Agrees tokens cursor (.error stop) ((action >>= following).run cursor) := by
  generalize parsed_eq : (Except.error stop : Except Expr.Stop (α × List Token)) = parsed at agrees
  generalize outcome_eq : action.run cursor = outcome at agrees
  cases agrees with
  | value => cases parsed_eq
  | failure way onwards =>
      cases parsed_eq
      rw [run_bind_of_error outcome_eq]
      exact .failure way onwards

private theorem position_le_advance (cursor : Cursor) :
    cursor.position ≤ cursor.advance.position := by
  show cursor.position ≤ if _ then _ else _
  split
  · exact Nat.le_succ _
  · exact Nat.le_refl _

private theorem length_ahead_le {later : Cursor} (onwards : cursor.position ≤ later.position) :
    (ahead tokens later).length ≤ (ahead tokens cursor).length := by
  rw [ahead, ahead, List.length_drop, List.length_drop]
  omega

namespace OnWay

variable (way : OnWay tokens cursor)

include way

private theorem agrees_pure (value : α) :
    Agrees tokens cursor (.ok (value, ahead tokens cursor)) ((pure value : Action α).run cursor) :=
  .value way (Nat.le_refl _)

private theorem agrees_fail (fault : GrammarFault) :
    Agrees tokens cursor (.error ⟨fault, ahead tokens cursor⟩)
      ((fail cursor.next fault : Action α).run cursor) := by
  rw [way.run_fail_next]
  exact .failure way (Nat.le_refl _)

/-- Behind a token that is taken one token less is ahead. -/
theorem agrees_behind {bound : Nat} {token : Token} {rest : List Token} {action : Action α}
    {parser : Parser α} (taking : ahead tokens cursor = token :: rest)
    (fits : (token :: rest).length < bound + 1) (follows : Follows tokens bound action parser) :
    Agrees tokens cursor (parser rest) (action.run cursor.advance) := by
  obtain ⟨advanced, rest_ahead⟩ := way.advance taking
  have agrees := follows cursor.advance advanced
    (by rw [rest_ahead]; exact Nat.lt_of_succ_lt_succ fits)
  rw [rest_ahead] at agrees
  exact agrees.mono (position_le_advance cursor)

end OnWay

namespace Follows

variable {bound : Nat}

private theorem pure (value : α) : Follows tokens bound (Pure.pure value) (Parser.succeed value) :=
  fun _ way _ => way.agrees_pure value

private theorem bind {action : Action α} {parser : Parser α} {following : α → Action β}
    {next : α → Parser β} (follows : Follows tokens bound action parser)
    (further : ∀ value, Follows tokens bound (following value) (next value)) :
    Follows tokens bound (action >>= following) (parser.andThen next) := by
  intro cursor way fits
  have first := follows cursor way fits
  generalize parsed_eq : parser (ahead tokens cursor) = parsed at first
  generalize outcome_eq : action.run cursor = outcome at first
  cases first with
  | @value value after way onwards =>
      rw [Parser.andThen_of_ok parsed_eq, run_bind_of_ok outcome_eq]
      have fits_after := Nat.lt_of_le_of_lt (length_ahead_le onwards) fits
      exact (further value after way fits_after).mono onwards
  | failure way onwards =>
      rw [Parser.andThen_eq_error_iff.mpr (.inl parsed_eq), run_bind_of_error outcome_eq]
      exact .failure way onwards

private theorem expect (kind : TokenKind) (fault : GrammarFault) (no_end : kind ≠ .endOfInput) :
    Follows tokens bound (Cursor.expect kind fault) (Expr.expect kind fault) := by
  intro cursor way fits
  rw [Cursor.expect, run_peek]
  cases taking : ahead tokens cursor with
  | nil =>
      rw [if_neg (way.kind_next_of_nil taking ▸ no_end.symm), Expr.expect, ← taking]
      exact way.agrees_fail fault
  | cons token rest =>
      rw [way.next_of_cons taking, Expr.expect]
      split
      · rw [← bind_pure consume, run_consume, way.next_of_cons taking]
        exact way.agrees_behind taking (Nat.lt_succ_self _) (pure token)
      · rw [← taking, ← way.next_of_cons taking]
        exact way.agrees_fail fault

private theorem property : Follows tokens bound Cursor.property Expr.property := by
  intro cursor way fits
  have named := ((expect .identifier .expectedPropertyName (by decide)).bind
    fun name => pure (Expr.identifier name.value name)) cursor way fits
  rw [Cursor.property, run_peek]
  cases taking : ahead tokens cursor with
  | nil =>
      rw [if_neg (by simp [way.kind_next_of_nil taking])]
      rwa [taking] at named
  | cons token rest =>
      rw [way.next_of_cons taking]
      by_cases constant : token.kind = .boolean ∨ token.kind = .null
      · have renamable : Expr.propertyName? token = some { token with kind := .identifier } := by
          rcases constant with kind | kind <;> simp only [Expr.propertyName?, kind]
        obtain ⟨renamed, advanced, rest_ahead⟩ := way.rename taking renamable
        have taken : (Cursor.expect .identifier .expectedPropertyName).run cursor.rename =
            some (.ok { token with kind := .identifier }, cursor.rename.advance) := by
          rw [Cursor.expect, run_peek, if_pos (by rw [renamed]), ← renamed]
          rfl
        simp only [if_pos constant, run_rename, run_bind_of_ok taken, Expr.property, renamable]
        rw [← rest_ahead]
        exact .value advanced (position_le_advance cursor.rename)
      · rw [if_neg constant]
        have same : Expr.property (token :: rest) =
            Parser.andThen (Expr.expect .identifier .expectedPropertyName)
              (fun name => Parser.succeed (.identifier name.value name)) (token :: rest) := by
          obtain ⟨kind, value, location⟩ := token
          cases kind <;> first | rfl | exact absurd (.inl rfl) constant |
            exact absurd (.inr rfl) constant
        rwa [taking, ← same] at named

/-- A look at the next token decides between two ways. -/
theorem ask (kind : TokenKind) (no_end : kind ≠ .endOfInput) {met unmet : Action α}
    {metParser unmetParser : Parser α}
    (found : ∀ cursor, OnWay tokens cursor → cursor.next.kind = kind →
      (ahead tokens cursor).length < bound →
      Agrees tokens cursor (metParser (ahead tokens cursor)) (met.run cursor))
    (other : Follows tokens bound unmet unmetParser) :
    Follows tokens bound
      (Cursor.peek >>= fun token => if token.kind = kind then met else unmet)
      (Parser.peek [kind] metParser unmetParser) := by
  intro cursor way fits
  have decides : (ahead tokens cursor).head?.any (·.kind ∈ [kind]) =
      decide (cursor.next.kind = kind) := by
    cases taking : ahead tokens cursor with
    | nil => simp [way.kind_next_of_nil taking, no_end.symm]
    | cons token rest => simp [way.next_of_cons taking]
  simp only [run_peek, Parser.peek, decides, decide_eq_true_eq]
  split
  · rename_i next_kind
    exact found cursor way next_kind fits
  · exact other cursor way fits

/-- A token of one kind is taken if it is there. -/
theorem optional (kind : TokenKind) (fault : GrammarFault) (no_end : kind ≠ .endOfInput)
    {met : Token → Action α} {unmet : Action α} {metParser : Token → Parser α}
    {unmetParser : Parser α} (taken : ∀ token, Follows tokens bound (met token) (metParser token))
    (left : Follows tokens (bound + 1) unmet unmetParser) :
    Follows tokens (bound + 1)
      (Cursor.peek >>= fun token => if token.kind = kind then consume >>= met else unmet)
      (Parser.peek [kind] (Parser.andThen (Expr.expect kind fault) metParser) unmetParser) := by
  refine ask kind no_end (fun cursor way next_kind fits => ?_) left
  cases taking : ahead tokens cursor with
  | nil => exact absurd (next_kind.symm.trans (way.kind_next_of_nil taking)) no_end
  | cons token rest =>
      have token_kind := way.next_of_cons taking ▸ next_kind
      rw [run_consume, way.next_of_cons taking, Parser.andThen_of_ok (if_pos token_kind)]
      exact way.agrees_behind taking (taking ▸ fits) (taken token)

/--
Conditionals follow the parser of nested expressions where twelve calls may be nested for each of
the tokens that can be ahead: so many are made before one of them takes a token.
-/
def Nested (tokens : List Token) (bound : Nat) (inner : Parser Expr) : Prop :=
  ∀ size depth, size ≤ bound → 12 * size ≤ depth →
    Follows tokens size (Cursor.conditional depth) inner

/-- Behind the last token neither the action nor the parser goes on with a chain. -/
theorem agrees_chainFrom_of_nil (way : OnWay tokens cursor) (taking : ahead tokens cursor = [])
    (level : Level) (tighter : List Level) (operand : Parser Expr) (fuel depth : Nat)
    (left : Expr) :
    Agrees tokens cursor (Expr.chainFrom level operand fuel left (ahead tokens cursor))
      ((Cursor.chainFrom (depth + 1) level tighter left).run cursor) := by
  have ended := way.kind_next_of_nil taking
  have stays : Expr.chainFrom level operand fuel left (ahead tokens cursor) =
      .ok (left, ahead tokens cursor) := by
    rw [taking]
    cases fuel <;> rfl
  have unjoined : level.rejects? .endOfInput = none ∧ level.joins .endOfInput = false := by
    cases level <;> decide
  rw [stays, Cursor.chainFrom, run_peek, ended, unjoined.1, unjoined.2]
  exact way.agrees_pure left

private theorem chainFrom {operand : Parser Expr} (level : Level) (tighter : List Level)
    (operands : ∀ size depth, size ≤ bound → 12 * size + 11 ≤ depth →
      Follows tokens (size + 1) (Cursor.chain depth tighter) operand)
    (fuel depth : Nat) (le : fuel ≤ bound) (deep : 12 * fuel < depth) (left : Expr) :
    Follows tokens (fuel + 1) (Cursor.chainFrom depth level tighter left)
      (Expr.chainFrom level operand fuel left) := by
  obtain ⟨depth, rfl⟩ := Nat.exists_eq_add_one_of_ne_zero (Nat.ne_zero_of_lt deep)
  induction fuel generalizing depth left with
  | zero =>
      intro cursor way fits
      have taking := List.length_eq_zero_iff.mp (Nat.lt_one_iff.mp fits)
      exact agrees_chainFrom_of_nil way taking level tighter operand 0 depth left
  | succ fuel induction =>
      intro cursor way fits
      cases taking : ahead tokens cursor with
      | nil => exact taking ▸ agrees_chainFrom_of_nil way taking level tighter operand _ depth left
      | cons token rest =>
          rw [taking] at fits
          rw [Cursor.chainFrom, run_peek, way.next_of_cons taking, Expr.chainFrom]
          cases level.rejects? token.kind with
          | some fault =>
              rw [← taking, ← way.next_of_cons taking]
              exact way.agrees_fail fault
          | none =>
              simp only
              split
              · obtain ⟨deeper, rfl⟩ := Nat.exists_eq_add_one_of_ne_zero (show depth ≠ 0 by omega)
                have operand_follows := operands fuel (deeper + 1) (by omega) (by omega)
                rw [run_consume, way.next_of_cons taking]
                exact way.agrees_behind taking fits (operand_follows.bind fun right =>
                  induction (Nat.le_of_succ_le le)
                    (.binary (Expr.operatorText token) left right token) deeper (by omega))
              · rw [← taking]
                exact way.agrees_pure left

section Nested

variable {inner : Parser Expr} (nested : Nested tokens bound inner)

/-- Where there is no access neither the action nor the parser takes a token. -/
theorem agrees_accesses_of_none (way : OnWay tokens cursor) (no_dot : cursor.next.kind ≠ .dot)
    (no_bracket : cursor.next.kind ≠ .openBracket) (fuel depth : Nat) (node : Expr) :
    Agrees tokens cursor (Expr.accesses inner fuel node (ahead tokens cursor))
      ((Cursor.accesses (depth + 1) node).run cursor) := by
  have stays : Expr.accesses inner fuel node (ahead tokens cursor) =
      .ok (node, ahead tokens cursor) := by
    cases fuel with
    | zero => rfl
    | succ fuel =>
        cases taking : ahead tokens cursor with
        | nil => rfl
        | cons token rest =>
            rw [way.next_of_cons taking] at no_dot no_bracket
            simp only [Expr.accesses]
  rw [stays, Cursor.accesses, run_peek, if_neg no_dot, if_neg no_bracket]
  exact way.agrees_pure node

include nested

private theorem accesses (fuel depth : Nat) (le : fuel ≤ bound) (deep : 12 * fuel < depth)
    (node : Expr) :
    Follows tokens (fuel + 1) (Cursor.accesses depth node) (Expr.accesses inner fuel node) := by
  obtain ⟨depth, rfl⟩ := Nat.exists_eq_add_one_of_ne_zero (Nat.ne_zero_of_lt deep)
  -- Every access takes a token, so the fuel of the parser lasts as long as there are tokens.
  induction fuel generalizing depth node with
  | zero =>
      intro cursor way fits
      have ended := way.kind_next_of_nil (List.length_eq_zero_iff.mp (Nat.lt_one_iff.mp fits))
      exact agrees_accesses_of_none way (by simp [ended]) (by simp [ended]) 0 depth node
  | succ fuel induction =>
      intro cursor way fits
      obtain ⟨deeper, rfl⟩ := Nat.exists_eq_add_one_of_ne_zero (show depth ≠ 0 by omega)
      have further (node : Expr) := induction (Nat.le_of_succ_le le) node deeper (by omega)
      cases taking : ahead tokens cursor with
      | nil =>
          have ended := way.kind_next_of_nil taking
          rw [← taking]
          exact agrees_accesses_of_none way (by simp [ended]) (by simp [ended]) _ _ node
      | cons token rest =>
          have next := way.next_of_cons taking
          rw [taking] at fits
          by_cases dot : token.kind = .dot
          · rw [Cursor.accesses, run_peek, next, if_pos dot, run_consume, next]
            simp only [Expr.accesses, dot]
            exact way.agrees_behind taking fits
              (property.bind fun name => further (.member node name false token))
          by_cases bracket : token.kind = .openBracket
          · rw [Cursor.accesses, run_peek, next, if_neg dot, if_pos bracket, run_consume, next]
            simp only [Expr.accesses, bracket]
            have index_follows := nested (fuel + 1) (deeper + 1) le (by omega)
            exact way.agrees_behind taking fits (index_follows.bind fun index =>
              (expect .closeBracket .expectedClosingBracket (by decide)).bind fun _ =>
                further (.member node index true token))
          · rw [← taking]
            exact agrees_accesses_of_none way (next ▸ dot) (next ▸ bracket) _ _ node

variable (empty : inner [] = .error ⟨.expectedExpression, []⟩)

include empty

private theorem arguments (fuel depth : Nat) (lt : fuel < bound) (deep : 12 * (fuel + 1) < depth)
    (read : List Expr) :
    Follows tokens (fuel + 1) (Cursor.arguments depth read)
      (Parser.andThen (Expr.arguments inner fuel) fun more => Parser.succeed (read ++ more)) := by
  obtain ⟨depth, rfl⟩ := Nat.exists_eq_add_one_of_ne_zero (Nat.ne_zero_of_lt deep)
  induction fuel generalizing depth read with
  | zero =>
      intro cursor way fits
      have taking := List.length_eq_zero_iff.mp (Nat.lt_one_iff.mp fits)
      -- Nothing is ahead, and both miss the first argument.
      have first := nested 1 depth lt (by omega) cursor way fits
      rw [taking, empty] at first
      rw [taking, Cursor.arguments]
      exact first.bind_of_error _
  | succ fuel induction =>
      obtain ⟨deeper, rfl⟩ := Nat.exists_eq_add_one_of_ne_zero (show depth ≠ 0 by omega)
      rw [Expr.arguments_eq, Cursor.arguments]
      simp only [Parser.extend, Parser.andThen_assoc, Parser.succeed_andThen, Parser.peek_andThen]
      refine (nested (fuel + 2) (deeper + 1) lt (by omega)).bind fun value => ?_
      refine optional .comma _ (by decide) (fun token => ?_) (pure _)
      have further := induction (Nat.lt_of_succ_lt lt) (read ++ [value]) deeper (by omega)
      simpa only [List.append_assoc] using further

private theorem functionCall (depth : Nat) (deep : 12 * bound + 1 < depth) (sign : Token) :
    Follows tokens bound (Cursor.functionCall depth sign) (Expr.functionCall inner sign) := by
  obtain ⟨depth, rfl⟩ := Nat.exists_eq_add_one_of_ne_zero (Nat.ne_zero_of_lt deep)
  have read : Follows tokens bound (Cursor.arguments depth []) (Expr.argumentList inner) := by
    intro cursor way fits
    have agrees := arguments nested empty _ depth fits (by omega) [] cursor way
      (Nat.lt_succ_self _)
    simp only [List.nil_append, Parser.andThen_succeed] at agrees
    exact agrees
  rw [Expr.functionCall_eq, Cursor.functionCall]
  refine (expect .identifier _ (by decide)).bind fun name => ?_
  refine (expect .openParenthesis _ (by decide)).bind fun _ => ?_
  have closed (values : List Expr) : Follows tokens bound _ _ :=
    (expect .closeParenthesis (.expectedEndOfArguments name.value) (by decide)).bind fun _ =>
      pure (Expr.call name.value values sign)
  exact ask .closeParenthesis (by decide) (fun cursor way _ => closed [] cursor way)
    (read.bind fun values => closed values)

private theorem primary (depth : Nat) (deep : 12 * bound + 2 < depth) :
    Follows tokens (bound + 1) (Cursor.primary depth) (Expr.primary inner) := by
  obtain ⟨depth, rfl⟩ := Nat.exists_eq_add_one_of_ne_zero (Nat.ne_zero_of_lt deep)
  intro cursor way fits
  rw [Cursor.primary, run_peek]
  cases taking : ahead tokens cursor with
  | nil =>
      have ended := way.kind_next_of_nil taking
      simp only [Expr.literal?, ended]
      rw [Expr.primary, ← taking]
      exact way.agrees_fail _
  | cons token rest =>
      rw [taking] at fits
      simp only [way.next_of_cons taking, Expr.primary]
      cases Expr.literal? token with
      | some value => exact way.agrees_behind taking fits (pure (Expr.literal value token))
      | none =>
          by_cases identifier : token.kind = .identifier
          · simp only [identifier, if_true]
            exact way.agrees_behind taking fits (pure (Expr.identifier token.value token))
          by_cases sign : token.kind = .atSign
          · simp only [sign, reduceCtorEq, if_true, if_false]
            exact way.agrees_behind taking fits
              (functionCall nested empty depth (by omega) token)
          by_cases opening : token.kind = .openParenthesis
          · simp only [opening, reduceCtorEq, if_true, if_false]
            have body_follows := nested bound depth (Nat.le_refl _) (by omega)
            exact way.agrees_behind taking fits (body_follows.bind fun body =>
              (expect .closeParenthesis .expectedClosingParenthesis (by decide)).bind fun _ =>
                pure body)
          · simp only [if_neg identifier, if_neg sign, if_neg opening,
              if_neg (kind_of_ahead taking)]
            rw [← taking, ← way.next_of_cons taking]
            exact way.agrees_fail .unexpectedToken

omit nested empty

private theorem Nested.mono {smaller : Nat} (nested : Nested tokens bound inner)
    (le : smaller ≤ bound) : Nested tokens smaller inner :=
  fun size depth within => nested size depth (Nat.le_trans within le)

include nested empty

private theorem prefixed (size depth : Nat) (le : size ≤ bound + 1) (deep : 12 * size < depth + 9) :
    Follows tokens size (Cursor.prefixed depth) (Expr.prefixed inner) := by
  -- Every sign takes a token.
  induction size generalizing depth with
  | zero => exact fun cursor _ fits => absurd fits (Nat.not_lt_zero _)
  | succ size induction =>
      obtain ⟨depth, rfl⟩ := Nat.exists_eq_add_one_of_ne_zero (show depth ≠ 0 by omega)
      have within := nested.mono (Nat.le_of_succ_le_succ le)
      have plain : Follows tokens (size + 1) (Cursor.primary depth >>= Cursor.accesses depth)
          (Expr.postfixed inner) := by
        change Follows _ _ _
          (Parser.andThen _ fun node rest => Expr.accesses inner rest.length node rest)
        refine (primary within empty depth (by omega)).bind fun node cursor way fits => ?_
        exact accesses within _ depth (Nat.le_of_lt_succ fits) (by omega) node cursor way
          (Nat.lt_succ_self _)
      intro cursor way fits
      have unsigned := plain cursor way fits
      rw [Cursor.prefixed, run_peek]
      cases taking : ahead tokens cursor with
      | nil =>
          rw [taking] at unsigned
          rwa [if_neg (by simp [way.kind_next_of_nil taking])]
      | cons token rest =>
          rw [taking] at unsigned fits
          simp only [way.next_of_cons taking, Expr.prefixed, Bool.or_eq_true, decide_eq_true_eq]
          split
          · have argument_follows := induction depth (Nat.le_of_succ_le le) (by omega)
            rw [run_consume, way.next_of_cons taking]
            exact way.agrees_behind taking fits (argument_follows.bind fun argument =>
              pure (Expr.unary token.value true argument token))
          · exact unsigned

private theorem chain (levels : List Level) (few : levels.length ≤ 6) (size depth : Nat)
    (le : size ≤ bound) (deep : 12 * size + 4 + levels.length < depth) :
    Follows tokens (size + 1) (Cursor.chain depth levels) (Expr.chains inner levels) := by
  induction levels generalizing size depth with
  | nil =>
      obtain ⟨depth, rfl⟩ := Nat.exists_eq_add_one_of_ne_zero (Nat.ne_zero_of_lt deep)
      rw [List.length_nil] at deep
      rw [Cursor.chain, Expr.chains]
      exact prefixed nested empty _ depth (Nat.succ_le_succ le) (by omega)
  | cons level tighter induction =>
      obtain ⟨depth, rfl⟩ := Nat.exists_eq_add_one_of_ne_zero (Nat.ne_zero_of_lt deep)
      rw [List.length_cons] at few deep
      have operands (size depth : Nat) (le : size ≤ bound) (deep : 12 * size + 11 ≤ depth) :=
        induction (Nat.le_of_succ_le few) size depth le (by omega)
      rw [Cursor.chain]
      change Follows _ _ _
        (Parser.andThen _ fun left rest => Expr.chainFrom _ _ rest.length left rest)
      refine (induction (Nat.le_of_succ_le few) size depth le (by omega)).bind
        fun left cursor way fits => ?_
      exact chainFrom level tighter operands _ depth (by omega) (by omega) left cursor way
        (Nat.lt_succ_self _)

/-- Conditionals take one token more than the expressions that are nested in them. -/
theorem conditional : Nested tokens (bound + 1) (Expr.conditionalOver inner) := by
  intro size depth le deep
  cases size with
  | zero => exact fun cursor _ fits => absurd fits (Nat.not_lt_zero _)
  | succ size =>
      obtain ⟨depth, rfl⟩ := Nat.exists_eq_add_one_of_ne_zero (show depth ≠ 0 by omega)
      have inside := nested size depth (Nat.le_of_succ_le_succ le) (by omega)
      rw [Cursor.conditional, Expr.conditionalOver_eq]
      refine (chain nested empty Level.all (by decide) size depth (Nat.le_of_succ_le_succ le)
        (show 12 * size + 4 + 6 < depth by omega)).bind fun test => ?_
      refine optional .questionMark _ (by decide) (fun mark => ?_) (pure test)
      exact inside.bind fun consequent => (expect .colon .expectedColon (by decide)).bind fun _ =>
        inside.bind fun alternate => pure (Expr.conditional test consequent alternate mark)

end Nested

/-- Nested as deep as it may be, an expression is read by the action and by the parser alike. -/
theorem expression (count : Nat) : Nested tokens (count + 1) (Expr.expression count) := by
  have empty (count : Nat) :
      Expr.expression count [] = .error ⟨.expectedExpression, []⟩ := by
    cases count <;> rfl
  induction count with
  | zero =>
      -- With nothing ahead no nested expression is reached.
      have nothing : Nested tokens 0 (Expr.expression 0) := fun size _ le _ cursor _ fits =>
        absurd fits (Nat.not_lt_of_le (Nat.le_trans le (Nat.zero_le _)))
      intro size depth le deep cursor way fits
      have taking := List.length_eq_zero_iff.mp
        (Nat.lt_one_iff.mp (Nat.lt_of_lt_of_le fits le))
      have agrees := conditional nothing (empty 0) size depth le deep cursor way fits
      rw [taking] at agrees ⊢
      exact agrees
  | succ count induction => exact conditional induction (empty count)

end Follows

/-- The cursor reads a formula as the list is read, and behind a formula nothing is ahead. -/
theorem run_formula (tokens : List Token) {depth : Nat}
    (deep : 12 * ((Program.bodyTokens tokens).length + 1) ≤ depth) :
    ∃ cursor, OnWay tokens cursor ∧
      (formula depth).run (start tokens) = some (Program.ofTokens tokens, cursor) ∧
      ∀ program, Program.ofTokens tokens = .ok program → ahead tokens cursor = [] := by
  have way := onWay_start tokens
  have first : (start tokens).next = tokens.headD Token.pastEnd := by cases tokens <;> rfl
  rw [formula, run_peek]
  by_cases ended : (start tokens).next.kind = .endOfInput
  · have nothing : ahead tokens (start tokens) = [] := by
      cases taking : ahead tokens (start tokens) with
      | nil => rfl
      | cons token rest =>
          exact absurd (way.next_of_cons taking ▸ ended) (kind_of_ahead taking)
    have failed : Program.ofTokens tokens =
        .error (Program.errorAt tokens ⟨.expectedExpression, []⟩) := by
      rw [ahead_start] at nothing
      rw [Program.ofTokens, nothing]
      rfl
    refine ⟨start tokens, way, ?_, fun program read => by rw [failed] at read; cases read⟩
    rw [if_pos ended, run_bind_of_error (way.run_fail_next _), nothing, failed]
  · have follows : Follows tokens _ (conditional depth) _ :=
      Follows.expression _ _ depth (Nat.le_refl _) deep
    have agrees := follows (start tokens) way (Nat.lt_succ_self _)
    rw [ahead_start] at agrees
    rw [if_neg ended]
    simp only [Program.ofTokens]
    generalize Expr.expression _ (Program.bodyTokens tokens) = parsed at agrees ⊢
    generalize outcome_eq : (conditional depth).run (start tokens) = outcome at agrees
    cases agrees with
    | @value expr after way_after onwards =>
        refine ⟨after, way_after, ?_⟩
        rw [run_bind_of_ok outcome_eq, run_peek]
        cases taking : ahead tokens after with
        | nil =>
            rw [if_pos (way_after.kind_next_of_nil taking), first]
            exact ⟨rfl, fun _ _ => rfl⟩
        | cons token rest =>
            rw [if_neg (way_after.next_of_cons taking ▸ kind_of_ahead taking),
              way_after.run_fail_next, taking]
            exact ⟨rfl, fun program read => by cases read⟩
    | @failure fault after way_after onwards =>
        refine ⟨after, way_after, ?_, fun program read => by cases read⟩
        rw [run_bind_of_error outcome_eq]

/--
Reading a formula with a cursor ends on every list of tokens, with what the list is read as, and is
nested twelve calls deep at most for each token in front of the first end of input and for this end.
All it takes are tokens of the list in front of that end, each of them once and in order; so it
takes no more tokens than there are, and the tree of a formula has no more nodes than tokens were
taken.
-/
theorem formula_takes_within (tokens : List Token) (more : Nat) :
    ∃ cursor,
      (formula (12 * ((Program.bodyTokens tokens).length + 1) + more)).run (start tokens) =
        some (Program.ofTokens tokens, cursor) ∧
      cursor.taken.map Prod.fst = List.range cursor.taken.length ∧
      (∀ place token, (place, token) ∈ cursor.taken →
        place < (Program.bodyTokens tokens).length ∧ token.kind ≠ .endOfInput ∧
        ∃ original, tokens[place]? = some original ∧ original.kind ≠ .endOfInput ∧
          (token = original ∨ Expr.propertyName? original = some token)) ∧
      cursor.taken.length ≤ (Program.bodyTokens tokens).length ∧
      ∀ program, Program.ofTokens tokens = .ok program →
        program.body.size ≤ cursor.taken.length := by
  obtain ⟨cursor, way, ended, whole⟩ := run_formula tokens (Nat.le_add_right _ more)
  have taken_length : cursor.taken.length = cursor.position := by
    rw [← List.length_map Prod.fst, way.places, List.length_range]
  refine ⟨cursor, ended, taken_length ▸ way.places, ?_, taken_length ▸ way.inside, ?_⟩
  · intro place token taken
    obtain ⟨original, found, same⟩ := way.genuine _ taken
    have no_end := Grammar.kind_of_mem_bodyTokens original (List.mem_of_getElem? found)
    have inside := (List.getElem?_eq_some_iff.mp found).1
    obtain ⟨behind, split⟩ : Program.bodyTokens tokens <+: tokens := List.takeWhile_prefix _
    have in_tokens : tokens[place]? = some original := by
      rw [← split, List.getElem?_append_left inside, found]
    refine ⟨inside, ?_, original, in_tokens, no_end, same⟩
    rcases same with rfl | renamed
    · exact no_end
    · obtain ⟨-, rfl⟩ := Grammar.propertyName?_eq_some_iff.mp renamed
      exact TokenKind.noConfusion
  · intro program read
    have sentence := ((Grammar.ofTokens_eq_ok_iff tokens program).mp read).1
    have none_left := List.drop_eq_nil_iff.mp (whole program read)
    rw [taken_length]
    exact Nat.le_trans sentence.size_le none_left

end Cursor
end Formulary

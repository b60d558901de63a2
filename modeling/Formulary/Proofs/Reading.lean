import Formulary.Proofs.Combination

/-!
# Parsers that read languages

A parser reads a language if it takes from the front of a list of tokens exactly the phrases of the
language that the next token does not continue.  Five combinators are enough to build the parsers
of formulas, and each of them has one lemma that says what it reads.
-/

namespace Formulary
namespace Grammar

open Formulary.Expr (Parser)

variable {α β : Type}

/-- The phrases of a language with what they denote. -/
abbrev Language (α : Type) := List Token → α → Prop

namespace Language

/-- The empty phrase. -/
def empty (value : α) : Language α := fun tokens denoted => tokens = [] ∧ denoted = value

/-- One token of a kind. -/
def token (kind : TokenKind) : Language Token := fun tokens token =>
  tokens = [token] ∧ token.kind = kind

/-- A phrase of one language and behind it a phrase of another. -/
def andThen (first : Language α) (next : α → Language β) : Language β := fun tokens value =>
  ∃ front middle back, tokens = front ++ back ∧ first front middle ∧ next middle back value

/-- A token with the phrase that it asks for. -/
def dispatch (branch : Token → Language α) : Language α := fun tokens value =>
  ∃ token rest, tokens = token :: rest ∧ branch token rest value

/-- A phrase that may be extended once. -/
def extend (first : Language α) (more : α → Language α) : Language α := fun tokens value =>
  first tokens value ∨ first.andThen more tokens value

/-- Phrases that extend a value again and again. -/
inductive Iterated (step : α → Language α) : α → Language α where
  | done {value} : Iterated step value [] value
  | next {value front middle back final} (head : step value front middle)
      (tail : Iterated step middle back final) : Iterated step value (front ++ back) final

theorem Iterated.snoc {step : α → Language α} {value middle final : α} {front back : List Token}
    (phrase : Iterated step value front middle) (last : step middle back final) :
    Iterated step value (front ++ back) final := by
  induction phrase with
  | done => simpa using Iterated.next last .done
  | next head tail induction =>
      rw [List.append_assoc]
      exact .next head (induction last)

theorem iterated_iff {step : α → Language α} {value final : α} {tokens : List Token} :
    Iterated step value tokens final ↔
      (step value).andThen (Iterated step) tokens final ∨ empty value tokens final := by
  constructor
  · rintro (_ | ⟨head, tail⟩)
    · exact .inr ⟨rfl, rfl⟩
    · exact .inl ⟨_, _, _, rfl, head, tail⟩
  · rintro (⟨front, middle, back, rfl, head, tail⟩ | ⟨rfl, rfl⟩)
    · exact .next head tail
    · exact .done

theorem extend_iff {first : Language α} {more : α → Language α} {tokens : List Token}
    {final : α} :
    first.extend more tokens final ↔
      first.andThen (fun value tokens final =>
        more value tokens final ∨ empty value tokens final) tokens final := by
  constructor
  · rintro (phrase | ⟨front, middle, back, rfl, phrase, further⟩)
    · exact ⟨tokens, final, [], (List.append_nil _).symm, phrase, .inr ⟨rfl, rfl⟩⟩
    · exact ⟨front, middle, back, rfl, phrase, .inl further⟩
  · rintro ⟨front, middle, back, rfl, phrase, further | ⟨rfl, rfl⟩⟩
    · exact .inr ⟨front, middle, back, rfl, phrase, further⟩
    · rw [List.append_nil]
      exact .inl phrase

end Language

/-- No token of the given kinds comes next. -/
def Ends (continuing : List TokenKind) (rest : List Token) : Prop :=
  ∀ token ∈ rest.head?, token.kind ∉ continuing

@[simp]
theorem ends_nil (continuing : List TokenKind) : Ends continuing [] := by
  simp [Ends]

@[simp]
theorem ends_none (rest : List Token) : Ends [] rest := by
  simp [Ends]

@[simp]
theorem ends_cons {continuing : List TokenKind} {token : Token} {rest : List Token} :
    Ends continuing (token :: rest) ↔ token.kind ∉ continuing := by
  simp [Ends]

theorem ends_append {first second : List TokenKind} {rest : List Token} :
    Ends (first ++ second) rest ↔ Ends first rest ∧ Ends second rest := by
  cases rest <;> simp

/--
On at most `bound` tokens the parser takes the phrases of the language that no token of the given
kinds follows.
-/
structure Reads (bound : Nat) (parser : Parser α) (language : Language α)
    (continuing : List TokenKind) : Prop where
  sound {tokens value rest} (fits : tokens.length ≤ bound)
    (parsed : parser tokens = .ok (value, rest)) :
    ∃ front, tokens = front ++ rest ∧ language front value ∧ Ends continuing rest
  complete {front value rest} (fits : (front ++ rest).length ≤ bound)
    (phrase : language front value) (ends : Ends continuing rest) :
    parser (front ++ rest) = .ok (value, rest)

namespace Reads

variable {bound inside : Nat} {continuing kinds : List TokenKind}

theorem congr {parser : Parser α} {language other : Language α}
    (reads : Reads bound parser language continuing)
    (same : ∀ tokens value, language tokens value ↔ other tokens value) :
    Reads bound parser other continuing where
  sound fits parsed := by
    obtain ⟨front, split, phrase, ends⟩ := reads.sound fits parsed
    exact ⟨front, split, (same _ _).mp phrase, ends⟩
  complete fits phrase ends := reads.complete fits ((same _ _).mpr phrase) ends

theorem mono {larger : Nat} {parser : Parser α} {language : Language α}
    (reads : Reads larger parser language continuing) (le : bound ≤ larger) :
    Reads bound parser language continuing where
  sound fits parsed := reads.sound (Nat.le_trans fits le) parsed
  complete fits phrase ends := reads.complete (Nat.le_trans fits le) phrase ends

/-- A parser that fails without any token reads a language that has no empty phrase. -/
theorem zero {parser : Parser α} {language : Language α} {stop : Expr.Stop}
    (fails : parser [] = .error stop) (nonempty : ∀ value, ¬ language [] value) :
    Reads 0 parser language continuing where
  sound fits parsed := by
    obtain rfl := List.length_eq_zero_iff.mp (Nat.le_zero.mp fits)
    simp [fails] at parsed
  complete {front value rest} fits phrase _ := by
    obtain ⟨rfl, -⟩ := List.append_eq_nil_iff.mp
      (List.length_eq_zero_iff.mp (Nat.le_zero.mp fits))
    exact absurd phrase (nonempty value)

theorem succeed (value : α) : Reads bound (Parser.succeed value) (Language.empty value) [] where
  sound _ parsed := by
    cases parsed
    exact ⟨[], rfl, ⟨rfl, rfl⟩, by simp [Ends]⟩
  complete _ phrase _ := by
    obtain ⟨rfl, rfl⟩ := phrase
    rfl

/-- What the second parser reads must begin with a token that ends the phrases of the first. -/
theorem andThen {first : Parser α} {next : α → Parser β} {phrases : Language α}
    {others : α → Language β} {ending : List TokenKind}
    (reads_first : Reads bound first phrases ending)
    (reads_next : ∀ value, Reads inside (next value) (others value) continuing)
    (progress : ∀ front value, phrases front value → bound ≤ front.length + inside)
    (apart : ∀ middle back value rest, others middle back value → Ends continuing rest →
      Ends ending (back ++ rest)) :
    Reads bound (first.andThen next) (phrases.andThen others) continuing where
  sound {tokens value rest} fits parsed := by
    obtain ⟨middle, between, outcome, later⟩ := Parser.andThen_eq_ok_iff.mp parsed
    obtain ⟨front, rfl, phrase, _⟩ := reads_first.sound fits outcome
    have enough := progress front middle phrase
    obtain ⟨back, rfl, other, ends⟩ := (reads_next middle).sound
      (by simp at fits; omega) later
    exact ⟨front ++ back, by simp, ⟨front, middle, back, rfl, phrase, other⟩, ends⟩
  complete {tokens value rest} fits phrase ends := by
    obtain ⟨front, middle, back, rfl, before, after⟩ := phrase
    have enough := progress front middle before
    simp only [List.append_assoc] at fits ⊢
    have parsed := reads_first.complete fits before (apart middle back value rest after ends)
    rw [Parser.andThen_of_ok parsed]
    exact (reads_next middle).complete (by simp at fits ⊢; omega) after ends

theorem dispatch {missing : GrammarFault} {branch : Token → Except GrammarFault (Parser α)}
    {phrases : Token → Language α}
    (accepted : ∀ token parser, branch token = .ok parser →
      Reads bound parser (phrases token) continuing)
    (rejected : ∀ token fault tokens value, branch token = .error fault →
      ¬ phrases token tokens value) :
    Reads (bound + 1) (Parser.dispatch missing branch) (Language.dispatch phrases) continuing where
  sound {tokens value rest} fits parsed := by
    cases tokens with
    | nil => simp [Parser.dispatch] at parsed
    | cons token after =>
        cases outcome : branch token with
        | error fault => simp [Parser.dispatch, outcome] at parsed
        | ok parser =>
            simp only [Parser.dispatch, outcome] at parsed
            obtain ⟨front, rfl, phrase, ends⟩ := (accepted token parser outcome).sound
              (by simpa using fits) parsed
            exact ⟨token :: front, rfl, ⟨token, front, rfl, phrase⟩, ends⟩
  complete {tokens value rest} fits phrase ends := by
    obtain ⟨token, after, rfl, inner⟩ := phrase
    cases outcome : branch token with
    | error fault => exact absurd inner (rejected token fault after value outcome)
    | ok parser =>
        simp only [Parser.dispatch, outcome, List.cons_append]
        exact (accepted token parser outcome).complete (by simpa using fits) inner ends

/-- A token of one kind. -/
theorem expect (kind : TokenKind) (fault : GrammarFault) :
    Reads bound (Expr.expect kind fault) (Language.token kind) [] where
  sound {tokens value rest} _ parsed := by
    cases tokens with
    | nil => simp [Expr.expect] at parsed
    | cons token after =>
        simp only [Expr.expect] at parsed
        split at parsed
        · rename_i same
          cases parsed
          exact ⟨[_], rfl, ⟨rfl, same⟩, by simp⟩
        · simp at parsed
  complete _ phrase _ := by
    obtain ⟨rfl, same⟩ := phrase
    simp [Expr.expect, same]

/-- What has been read is made into something else. -/
theorem map {parser : Parser α} {language : Language α}
    (reads : Reads bound parser language continuing) (f : α → β) :
    Reads bound (parser.andThen fun value => Parser.succeed (f value))
      (fun tokens made => ∃ value, language tokens value ∧ made = f value) continuing where
  sound {tokens made rest} fits parsed := by
    obtain ⟨value, after, outcome, made_eq⟩ := Parser.andThen_eq_ok_iff.mp parsed
    cases made_eq
    obtain ⟨front, split, phrase, ends⟩ := reads.sound fits outcome
    exact ⟨front, split, ⟨value, phrase, rfl⟩, ends⟩
  complete {front made rest} fits phrase ends := by
    obtain ⟨value, phrase, rfl⟩ := phrase
    rw [Parser.andThen_of_ok (reads.complete fits phrase ends)]
    rfl

theorem closed_iff {language : Language α} {kind : TokenKind} {f : α → β} {tokens : List Token}
    {made : β} :
    (language.andThen fun value tokens made =>
      ∃ closing, Language.token kind tokens closing ∧ made = f value) tokens made ↔
      ∃ front closing value, tokens = front ++ [closing] ∧ language front value ∧
        closing.kind = kind ∧ made = f value := by
  constructor
  · rintro ⟨front, value, back, rfl, phrase, closing, ⟨rfl, same⟩, rfl⟩
    exact ⟨front, closing, value, rfl, phrase, same, rfl⟩
  · rintro ⟨front, closing, value, rfl, phrase, same, rfl⟩
    exact ⟨front, value, [closing], rfl, phrase, closing, ⟨rfl, same⟩, rfl⟩

theorem closed_apart {kind : TokenKind} (apart : kind ∉ continuing) (f : α → β) (value : α)
    (back : List Token) (made : β) (rest : List Token)
    (phrase : ∃ closing, Language.token kind back closing ∧ made = f value)
    (_ : Ends [] rest) : Ends continuing (back ++ rest) := by
  obtain ⟨closing, ⟨rfl, rfl⟩, -⟩ := phrase
  simpa using apart

/-- A phrase with a closing token behind it. -/
theorem closed {parser : Parser α} {language : Language α}
    (reads : Reads bound parser language continuing) {kind : TokenKind} (fault : GrammarFault)
    (apart : kind ∉ continuing) (f : α → β) :
    Reads bound
      (parser.andThen fun value =>
        (Expr.expect kind fault).andThen fun _ => Parser.succeed (f value))
      (fun tokens made => ∃ front closing value, tokens = front ++ [closing] ∧
        language front value ∧ closing.kind = kind ∧ made = f value) [] :=
  (reads.andThen (fun value => (expect kind fault).map fun _ => f value)
    (fun _ _ _ => Nat.le_add_left _ _) (closed_apart apart f)).congr fun _ _ => closed_iff

/-- The first tokens of the phrases tell the two languages apart. -/
theorem peek {met unmet : Parser α} {phrases others : Language α}
    (reads_met : Reads bound met phrases continuing)
    (reads_unmet : Reads bound unmet others continuing)
    (starts : ∀ tokens value, phrases tokens value →
      ∃ token rest, tokens = token :: rest ∧ token.kind ∈ kinds)
    (avoids : ∀ tokens value, others tokens value →
      ∃ token rest, tokens = token :: rest ∧ token.kind ∉ kinds) :
    Reads bound (Parser.peek kinds met unmet)
      (fun tokens value => phrases tokens value ∨ others tokens value) continuing where
  sound {tokens value rest} fits parsed := by
    simp only [Parser.peek] at parsed
    split at parsed
    · obtain ⟨front, split, phrase, ends⟩ := reads_met.sound fits parsed
      exact ⟨front, split, .inl phrase, ends⟩
    · obtain ⟨front, split, phrase, ends⟩ := reads_unmet.sound fits parsed
      exact ⟨front, split, .inr phrase, ends⟩
  complete {front value rest} fits phrase ends := by
    rcases phrase with phrase | phrase
    · obtain ⟨token, after, rfl, met⟩ := starts front value phrase
      rw [← reads_met.complete fits phrase ends]
      simp [Parser.peek, met]
    · obtain ⟨token, after, rfl, unmet⟩ := avoids front value phrase
      rw [← reads_unmet.complete fits phrase ends]
      simp [Parser.peek, unmet]

/-- The kinds that ask for more must not continue what the first parser has read. -/
theorem extend {first : Parser α} {more : α → Parser α} {phrases : Language α}
    {others : α → Language α} (reads_first : Reads bound first phrases continuing)
    (reads_more : ∀ value, Reads bound (more value) (others value) (continuing ++ kinds))
    (starts : ∀ value tokens final, others value tokens final →
      ∃ token rest, tokens = token :: rest ∧ token.kind ∈ kinds)
    (apart : ∀ kind ∈ kinds, kind ∉ continuing) :
    Reads bound (Parser.extend kinds first more) (phrases.extend others)
      (continuing ++ kinds) where
  sound {tokens value rest} fits parsed := by
    obtain ⟨middle, between, outcome, later⟩ := Parser.andThen_eq_ok_iff.mp parsed
    obtain ⟨front, rfl, phrase, ends⟩ := reads_first.sound fits outcome
    cases between with
    | nil =>
        cases later
        exact ⟨front, rfl, .inl phrase, by simp⟩
    | cons token after =>
        rw [Parser.peek_cons] at later
        split at later
        · obtain ⟨back, split, other, ends⟩ := (reads_more middle).sound
            (by simp at fits ⊢; omega) later
          exact ⟨front ++ back, by simp [split],
            .inr ⟨front, middle, back, rfl, phrase, other⟩, ends⟩
        · rename_i unmet
          cases later
          exact ⟨front, rfl, .inl phrase, ends_append.mpr ⟨ends, by simpa using unmet⟩⟩
  complete {tokens value rest} fits phrase ends := by
    rcases phrase with phrase | ⟨front, middle, back, rfl, phrase, other⟩
    · obtain ⟨ends_first, ends_kinds⟩ := ends_append.mp ends
      have parsed := reads_first.complete fits phrase ends_first
      rw [Parser.extend, Parser.andThen_of_ok parsed]
      cases rest with
      | nil => rfl
      | cons token after =>
          rw [ends_cons] at ends_kinds
          rw [Parser.peek_cons, if_neg ends_kinds]
          rfl
    · obtain ⟨token, after, rfl, met⟩ := starts middle back value other
      simp only [List.append_assoc, List.cons_append] at fits ⊢
      have parsed := reads_first.complete fits phrase (by simpa using apart _ met)
      rw [Parser.extend, Parser.andThen_of_ok parsed, Parser.peek_cons, if_pos met]
      exact (reads_more middle).complete
        (show (token :: after ++ rest).length ≤ bound by simp at fits ⊢; omega) other ends

section Iteration

variable {step : α → Parser α} {steps : α → Language α}

theorem ends_iterated (starts : ∀ value tokens final, steps value tokens final →
      ∃ token rest, tokens = token :: rest ∧ token.kind ∈ kinds)
    (apart : ∀ kind ∈ kinds, kind ∉ continuing) {value final : α} {front rest : List Token}
    (phrase : Language.Iterated steps value front final) (ends : Ends continuing rest) :
    Ends continuing (front ++ rest) := by
  cases phrase with
  | done => exact ends
  | next head tail =>
      obtain ⟨token, after, rfl, met⟩ := starts _ _ _ head
      simpa using apart _ met

private theorem loop_sound
    (reads_step : ∀ value, Reads bound (step value) (steps value) continuing)
    (starts : ∀ value tokens final, steps value tokens final →
      ∃ token rest, tokens = token :: rest ∧ token.kind ∈ kinds)
    {fuel : Nat} {value final : α} {tokens rest : List Token} (enough : tokens.length ≤ fuel)
    (fits : tokens.length ≤ bound) (ends : Ends continuing tokens)
    (parsed : Parser.loop kinds step fuel value tokens = .ok (final, rest)) :
    ∃ front, tokens = front ++ rest ∧ Language.Iterated steps value front final ∧
      Ends (continuing ++ kinds) rest := by
  induction fuel generalizing value tokens with
  | zero =>
      obtain rfl := List.length_eq_zero_iff.mp (Nat.le_zero.mp enough)
      cases parsed
      exact ⟨[], rfl, .done, by simp⟩
  | succ fuel induction =>
      cases tokens with
      | nil =>
          cases parsed
          exact ⟨[], rfl, .done, by simp⟩
      | cons token after =>
          rw [Parser.loop, Parser.peek_cons] at parsed
          split at parsed
          · obtain ⟨middle, between, outcome, later⟩ := Parser.andThen_eq_ok_iff.mp parsed
            obtain ⟨front, split, phrase, ends_between⟩ := (reads_step value).sound fits outcome
            obtain ⟨first, others, rfl, _⟩ := starts _ _ _ phrase
            have shorter := congrArg List.length split
            simp only [List.length_cons, List.length_append] at shorter enough fits
            obtain ⟨back, rfl, tail, ends_rest⟩ :=
              induction (by omega) (by omega) ends_between later
            exact ⟨first :: others ++ back, by simp [split], .next phrase tail, ends_rest⟩
          · rename_i unmet
            cases parsed
            exact ⟨[], rfl, .done, ends_append.mpr ⟨ends, by simpa using unmet⟩⟩

private theorem loop_complete
    (reads_step : ∀ value, Reads bound (step value) (steps value) continuing)
    (starts : ∀ value tokens final, steps value tokens final →
      ∃ token rest, tokens = token :: rest ∧ token.kind ∈ kinds)
    (apart : ∀ kind ∈ kinds, kind ∉ continuing)
    {fuel : Nat} {value final : α} {front rest : List Token}
    (enough : (front ++ rest).length ≤ fuel) (fits : (front ++ rest).length ≤ bound)
    (phrase : Language.Iterated steps value front final)
    (ends : Ends (continuing ++ kinds) rest) :
    Parser.loop kinds step fuel value (front ++ rest) = .ok (final, rest) := by
  obtain ⟨ends_step, ends_kinds⟩ := ends_append.mp ends
  induction phrase generalizing fuel with
  | done =>
      cases fuel with
      | zero => rfl
      | succ fuel =>
          cases rest with
          | nil => rfl
          | cons token after =>
              rw [ends_cons] at ends_kinds
              rw [List.nil_append, Parser.loop, Parser.peek_cons, if_neg ends_kinds]
              rfl
  | @next value head middle tail final step_phrase tail_phrase induction =>
      obtain ⟨token, after, rfl, met⟩ := starts _ _ _ step_phrase
      simp only [List.cons_append, List.append_assoc, List.length_cons] at enough fits ⊢
      obtain ⟨fuel, rfl⟩ : ∃ smaller, fuel = smaller + 1 := ⟨fuel - 1, by omega⟩
      have parsed := (reads_step value).complete
        (show (token :: after ++ (tail ++ rest)).length ≤ bound by simpa using fits) step_phrase
        (ends_iterated starts apart tail_phrase ends_step)
      simp only [List.cons_append] at parsed
      simp only [List.length_append] at enough fits
      rw [Parser.loop, Parser.peek_cons, if_pos met, Parser.andThen_of_ok parsed]
      exact induction (by simp; omega) (by simp; omega)

/-- The first parser is extended by as many steps as there are. -/
theorem iterate {first : Parser α} {phrases : Language α}
    (reads_first : Reads bound first phrases continuing)
    (reads_step : ∀ value, Reads bound (step value) (steps value) continuing)
    (starts : ∀ value tokens final, steps value tokens final →
      ∃ token rest, tokens = token :: rest ∧ token.kind ∈ kinds)
    (apart : ∀ kind ∈ kinds, kind ∉ continuing) :
    Reads bound (Parser.iterate kinds first step)
      (phrases.andThen (Language.Iterated steps)) (continuing ++ kinds) where
  sound {tokens value rest} fits parsed := by
    obtain ⟨middle, between, outcome, later⟩ := Parser.andThen_eq_ok_iff.mp parsed
    obtain ⟨front, rfl, phrase, ends⟩ := reads_first.sound fits outcome
    obtain ⟨back, rfl, tail, ends_rest⟩ :=
      loop_sound reads_step starts (Nat.le_refl _) (by simp at fits ⊢; omega) ends later
    exact ⟨front ++ back, by simp, ⟨front, middle, back, rfl, phrase, tail⟩, ends_rest⟩
  complete {tokens value rest} fits phrase ends := by
    obtain ⟨front, middle, back, rfl, before, after⟩ := phrase
    obtain ⟨ends_first, _⟩ := ends_append.mp ends
    simp only [List.append_assoc] at fits ⊢
    have parsed := reads_first.complete fits before
      (ends_iterated starts apart after ends_first)
    rw [Parser.iterate, Parser.andThen_of_ok parsed]
    exact loop_complete reads_step starts apart (Nat.le_refl _) (by simp at fits ⊢; omega)
      after ends

end Iteration
end Reads
end Grammar
end Formulary

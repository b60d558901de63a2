import Formulary.Proofs.Reading

/-!
# Parsers that stop in time

A parser stops in time if it fails in front of the first token that no phrase of its language has
in that place.  What it has passed by then can be completed to a phrase, and together with the next
token it cannot.
-/

namespace Formulary
namespace Grammar

open Formulary.Expr (Parser)

variable {α β : Type}

/-- Some phrase of the language begins with the tokens. -/
def Viable (language : Language α) (front : List Token) : Prop :=
  ∃ back value, language (front ++ back) value

/-- No phrase of the language ends inside or behind the tokens, whatever comes after them. -/
def Blocked (language : Language α) (continuing : List TokenKind) (front : List Token) : Prop :=
  ∀ phrase value rest back, language phrase value → Ends continuing rest →
    phrase ++ rest ≠ front ++ back

/-- Every text begins with at most one phrase of the language that is not continued. -/
def Definite (language : Language α) (continuing : List TokenKind) : Prop :=
  ∀ ⦃front other value another rest remainder⦄, language front value → language other another →
    Ends continuing rest → Ends continuing remainder → front ++ rest = other ++ remainder →
      front = other ∧ value = another

private theorem ends_append_of_ne_nil {continuing : List TokenKind} {front : List Token}
    (nonempty : front ≠ []) (back : List Token) :
    Ends continuing (front ++ back) ↔ Ends continuing front := by
  cases front with
  | nil => exact absurd rfl nonempty
  | cons token rest => simp

theorem Reads.definite {language : Language α} {continuing : List TokenKind}
    (reads : ∀ bound, ∃ parser, Reads bound parser language continuing) :
    Definite language continuing := by
  intro front other value another rest remainder phrase also ends_rest ends_remainder same
  obtain ⟨parser, reads⟩ := reads (front ++ rest).length
  have parsed := reads.complete (Nat.le_refl _) phrase ends_rest
  have again := reads.complete (Nat.le_of_eq (congrArg List.length same).symm) also ends_remainder
  rw [same, again] at parsed
  cases parsed
  exact ⟨List.append_cancel_right same, rfl⟩

theorem Definite.map {language : Language α} {continuing : List TokenKind}
    (definite : Definite language continuing) (f : α → β) :
    Definite (fun tokens made => ∃ value, language tokens value ∧ made = f value) continuing := by
  rintro front other _ _ rest remainder ⟨value, phrase, rfl⟩ ⟨another, also, rfl⟩ ends_rest
    ends_remainder same
  obtain ⟨rfl, rfl⟩ := definite phrase also ends_rest ends_remainder same
  exact ⟨rfl, rfl⟩

theorem definite_token (kind : TokenKind) : Definite (Language.token kind) [] := by
  apply Reads.definite
  intro bound
  exact ⟨_, Reads.expect kind .unexpectedToken⟩

theorem viable_token (kind : TokenKind) : Viable (Language.token kind) [] :=
  ⟨[⟨kind, [], Token.none.location⟩], _, rfl, rfl⟩

namespace Viable

variable {language other : Language α} {front back : List Token}

theorem congr (viable : Viable language front)
    (same : ∀ tokens value, language tokens value ↔ other tokens value) : Viable other front := by
  obtain ⟨back, value, phrase⟩ := viable
  exact ⟨back, value, (same _ _).mp phrase⟩

theorem andThen {phrases : Language α} {others : α → Language β} (viable : Viable phrases front)
    (inhabited : ∀ value, Viable (others value) []) : Viable (phrases.andThen others) front := by
  obtain ⟨back, middle, phrase⟩ := viable
  obtain ⟨after, value, further⟩ := inhabited middle
  exact ⟨back ++ after, value, _, _, _, (List.append_assoc _ _ _).symm, phrase, further⟩

private theorem behind {phrases : Language α} {others : α → Language β} {middle : α}
    (phrase : phrases front middle) (viable : Viable (others middle) back) :
    Viable (phrases.andThen others) (front ++ back) := by
  obtain ⟨after, value, further⟩ := viable
  exact ⟨after, value, _, _, _, List.append_assoc _ _ _, phrase, further⟩

end Viable

namespace Blocked

variable {language other : Language α} {front back : List Token}
variable {continuing kinds ending : List TokenKind}

private theorem congr (blocked : Blocked language continuing front)
    (same : ∀ tokens value, language tokens value ↔ other tokens value) :
    Blocked other continuing front :=
  fun phrase value rest back further ends =>
    blocked phrase value rest back ((same _ _).mpr further) ends

private theorem or (blocked : Blocked language continuing front)
    (also : Blocked other continuing front) :
    Blocked (fun tokens value => language tokens value ∨ other tokens value) continuing front :=
  fun phrase value rest back either ends =>
    either.elim (fun left => blocked phrase value rest back left ends)
      fun right => also phrase value rest back right ends

/-- What is blocked in front of a phrase stays so with anything behind the phrase. -/
theorem andThen {phrases : Language α} {others : α → Language β}
    (blocked : Blocked phrases ending front)
    (apart : ∀ middle back value rest, others middle back value → Ends continuing rest →
      Ends ending (back ++ rest)) :
    Blocked (phrases.andThen others) continuing front := by
  rintro _ value rest back ⟨first, middle, second, rfl, phrase, further⟩ ends same
  rw [List.append_assoc] at same
  exact blocked first middle (second ++ rest) back phrase (apart _ _ _ _ further ends) same

/-- There is one way only to read the first phrase, so the second one is blocked where it was. -/
theorem behind {phrases : Language α} {others : α → Language β} {middle : α}
    (definite : Definite phrases ending) (phrase : phrases front middle) (nonempty : back ≠ [])
    (ends_phrase : Ends ending back) (blocked : Blocked (others middle) continuing back)
    (apart : ∀ middle back value rest, others middle back value → Ends continuing rest →
      Ends ending (back ++ rest)) :
    Blocked (phrases.andThen others) continuing (front ++ back) := by
  rintro _ value rest after ⟨first, other, second, rfl, also, further⟩ ends same
  rw [List.append_assoc, List.append_assoc] at same
  have ends_after := (ends_append_of_ne_nil nonempty after).mpr ends_phrase
  obtain ⟨rfl, rfl⟩ := definite also phrase (apart _ _ _ _ further ends) ends_after same
  exact blocked second value rest after further ends (List.append_cancel_left same)

end Blocked

private theorem Blocked.of_head {language : Language α} {continuing : List TokenKind}
    {front : List Token} {token : Token} (head : front.head? = some token)
    (clash : ∀ phrase value rest, language phrase value → Ends continuing rest →
      (phrase ++ rest).head? ≠ some token) : Blocked language continuing front := by
  intro phrase value rest back further ends same
  apply clash phrase value rest further ends
  rw [same, List.head?_append, head, Option.some_or]

/--
If the parser fails on at most `bound` tokens, what it has passed begins a phrase of the language,
and what it has passed with the next token does not.
-/
def Stops (bound : Nat) (parser : Parser α) (language : Language α)
    (continuing : List TokenKind) : Prop :=
  ∀ tokens stop, tokens.length ≤ bound → parser tokens = .error stop →
    ∃ front, tokens = front ++ stop.rest ∧ Viable language front ∧
      ∀ token after, stop.rest = token :: after → Blocked language continuing (front ++ [token])

namespace Stops

variable {bound inside : Nat} {continuing kinds : List TokenKind}

theorem congr {parser : Parser α} {language other : Language α}
    (stops : Stops bound parser language continuing)
    (same : ∀ tokens value, language tokens value ↔ other tokens value) :
    Stops bound parser other continuing := by
  intro tokens stop fits failed
  obtain ⟨front, split, viable, blocked⟩ := stops tokens stop fits failed
  exact ⟨front, split, viable.congr same,
    fun token after next => (blocked token after next).congr same⟩

theorem mono {larger : Nat} {parser : Parser α} {language : Language α}
    (stops : Stops larger parser language continuing) (le : bound ≤ larger) :
    Stops bound parser language continuing :=
  fun tokens stop fits failed => stops tokens stop (Nat.le_trans fits le) failed

theorem succeed (value : α) (language : Language α) :
    Stops bound (Parser.succeed value) language continuing := by
  intro tokens stop _ failed
  cases failed

theorem dispatch {missing : GrammarFault} {branch : Token → Except GrammarFault (Parser α)}
    {phrases : Token → Language α} (inhabited : Viable (Language.dispatch phrases) [])
    (accepted : ∀ token parser, branch token = .ok parser →
      Stops bound parser (phrases token) continuing)
    (rejected : ∀ token fault tokens value, branch token = .error fault →
      ¬ phrases token tokens value) :
    Stops (bound + 1) (Parser.dispatch missing branch) (Language.dispatch phrases) continuing := by
  intro tokens stop fits failed
  cases tokens with
  | nil =>
      cases failed
      exact ⟨[], rfl, inhabited, fun token after next => by cases next⟩
  | cons token rest =>
      simp only [Parser.dispatch] at failed
      split at failed
      · rename_i parser outcome
        obtain ⟨front, rfl, viable, blocked⟩ :=
          accepted token parser outcome rest stop (by simpa using fits) failed
        refine ⟨token :: front, rfl, ?_, ?_⟩
        · obtain ⟨back, value, phrase⟩ := viable
          exact ⟨back, value, token, _, rfl, phrase⟩
        · rintro found after next _ value remainder back ⟨first, inner, rfl, phrase⟩ ends same
          obtain ⟨rfl, tail_same⟩ := List.cons_eq_cons.mp same
          exact blocked found after next inner value remainder back phrase ends tail_same
      · rename_i fault outcome
        cases failed
        refine ⟨[], rfl, inhabited, ?_⟩
        rintro found after next _ value remainder back ⟨first, inner, rfl, phrase⟩ _ same
        obtain ⟨rfl, -⟩ := List.cons_eq_cons.mp next
        obtain ⟨rfl, -⟩ := List.cons_eq_cons.mp same
        exact rejected _ fault inner value outcome phrase

theorem expect (kind : TokenKind) (fault : GrammarFault) :
    Stops bound (Expr.expect kind fault) (Language.token kind) [] := by
  intro tokens stop _ failed
  cases tokens with
  | nil =>
      cases failed
      exact ⟨[], rfl, viable_token kind, fun token after next => by cases next⟩
  | cons token rest =>
      simp only [Expr.expect] at failed
      split at failed
      · cases failed
      · rename_i different
        cases failed
        refine ⟨[], rfl, viable_token kind, ?_⟩
        rintro found after next _ value remainder back ⟨rfl, same_kind⟩ _ same
        cases next
        obtain ⟨rfl, -⟩ := List.cons_eq_cons.mp same
        exact different same_kind

/-- Where the second parser stops, the first has read the only phrase that it can. -/
theorem andThen {first : Parser α} {next : α → Parser β} {phrases : Language α}
    {others : α → Language β} {ending : List TokenKind}
    (stops_first : Stops bound first phrases ending)
    (reads_first : Reads bound first phrases ending) (definite : Definite phrases ending)
    (stops_next : ∀ value, Stops inside (next value) (others value) continuing)
    (inhabited : ∀ value, Viable (others value) [])
    (progress : ∀ front value, phrases front value → bound ≤ front.length + inside)
    (apart : ∀ middle back value rest, others middle back value → Ends continuing rest →
      Ends ending (back ++ rest)) :
    Stops bound (first.andThen next) (phrases.andThen others) continuing := by
  intro tokens stop fits failed
  rcases Parser.andThen_eq_error_iff.mp failed with early | ⟨middle, between, outcome, late⟩
  · obtain ⟨front, split, viable, blocked⟩ := stops_first tokens stop fits early
    exact ⟨front, split, viable.andThen inhabited,
      fun token after next => (blocked token after next).andThen apart⟩
  · obtain ⟨front, rfl, phrase, ends⟩ := reads_first.sound fits outcome
    have enough := progress front middle phrase
    rw [List.length_append] at fits
    obtain ⟨back, rfl, viable, blocked⟩ := stops_next middle between stop (by omega) late
    refine ⟨front ++ back, (List.append_assoc _ _ _).symm, .behind phrase viable, ?_⟩
    intro token after next
    rw [next, List.append_cons, ends_append_of_ne_nil (by simp)] at ends
    rw [List.append_assoc]
    exact .behind definite phrase (by simp) ends (blocked token after next) apart

theorem map {parser : Parser α} {language : Language α}
    (stops : Stops bound parser language continuing) (f : α → β) :
    Stops bound (parser.andThen fun value => Parser.succeed (f value))
      (fun tokens made => ∃ value, language tokens value ∧ made = f value) continuing := by
  intro tokens stop fits failed
  rcases Parser.andThen_eq_error_iff.mp failed with early | ⟨middle, between, outcome, late⟩
  · obtain ⟨front, split, ⟨back, value, phrase⟩, blocked⟩ := stops tokens stop fits early
    refine ⟨front, split, ⟨back, f value, value, phrase, rfl⟩, ?_⟩
    rintro token after next phrase made rest back ⟨value, phrase, rfl⟩ ends
    exact blocked token after next _ value rest back phrase ends
  · cases late

theorem closed {parser : Parser α} {language : Language α}
    (stops : Stops bound parser language continuing)
    (reads : Reads bound parser language continuing) (definite : Definite language continuing)
    {kind : TokenKind} (fault : GrammarFault) (apart : kind ∉ continuing) (f : α → β) :
    Stops bound
      (parser.andThen fun value =>
        (Expr.expect kind fault).andThen fun _ => Parser.succeed (f value))
      (fun tokens made => ∃ front closing value, tokens = front ++ [closing] ∧
        language front value ∧ closing.kind = kind ∧ made = f value) [] := by
  have stops_closing (value : α) : Stops bound
      ((Expr.expect kind fault).andThen fun _ => Parser.succeed (f value))
      (fun tokens made => ∃ closing, Language.token kind tokens closing ∧ made = f value) [] :=
    (expect kind fault).map fun _ => f value
  have inhabited (value : α) : Viable
      (fun tokens made => ∃ closing, Language.token kind tokens closing ∧ made = f value) [] := by
    obtain ⟨back, closing, phrase⟩ := viable_token kind
    exact ⟨back, f value, closing, phrase, rfl⟩
  refine (andThen stops reads definite stops_closing inhabited (fun _ _ _ => Nat.le_add_left _ _)
    (Reads.closed_apart apart f)).congr fun _ _ => Reads.closed_iff

theorem peek {met unmet : Parser α} {phrases others : Language α}
    (stops_met : Stops bound met phrases continuing)
    (stops_unmet : Stops bound unmet others continuing)
    (starts : ∀ tokens value, phrases tokens value →
      ∃ token rest, tokens = token :: rest ∧ token.kind ∈ kinds)
    (avoids : ∀ tokens value rest, others tokens value → Ends continuing rest →
      Ends kinds (tokens ++ rest)) :
    Stops bound (Parser.peek kinds met unmet)
      (fun tokens value => phrases tokens value ∨ others tokens value) continuing := by
  intro tokens stop fits failed
  cases tokens with
  | nil =>
      obtain ⟨front, split, ⟨back, value, phrase⟩, -⟩ := stops_unmet [] stop fits failed
      obtain ⟨rfl, empty⟩ := List.append_eq_nil_iff.mp split.symm
      refine ⟨[], split, ⟨back, value, .inr phrase⟩, fun token after next => ?_⟩
      rw [empty] at next
      cases next
  | cons token rest =>
      rw [Parser.peek_cons] at failed
      have head {front after : List Token} {found : Token}
          (split : token :: rest = front ++ found :: after) :
          (front ++ [found]).head? = some token := by
        cases front with
        | nil => exact congrArg some (List.cons_eq_cons.mp split).1.symm
        | cons first others => exact congrArg some (List.cons_eq_cons.mp split).1.symm
      split at failed
      · rename_i met_kind
        obtain ⟨front, split, ⟨back, value, phrase⟩, blocked⟩ := stops_met _ stop fits failed
        refine ⟨front, split, ⟨back, value, .inl phrase⟩, fun found after next => ?_⟩
        refine (blocked found after next).or (.of_head (head (next ▸ split)) ?_)
        intro other value remainder also ends starts_other
        exact avoids other value remainder also ends token starts_other met_kind
      · rename_i unmet_kind
        obtain ⟨front, split, ⟨back, value, phrase⟩, blocked⟩ := stops_unmet _ stop fits failed
        refine ⟨front, split, ⟨back, value, .inr phrase⟩, fun found after next => ?_⟩
        refine .or (.of_head (head (next ▸ split)) ?_) (blocked found after next)
        intro other value remainder also _ starts_other
        obtain ⟨first, others, rfl, first_kind⟩ := starts other value also
        cases starts_other
        exact unmet_kind first_kind

/-- An extension that begins with one of the kinds can only be missed where none comes next. -/
theorem extend {first : Parser α} {more : α → Parser α} {phrases : Language α}
    {others : α → Language α} (stops_first : Stops bound first phrases continuing)
    (reads_first : Reads bound first phrases continuing) (definite : Definite phrases continuing)
    (stops_more : ∀ value, Stops bound (more value) (others value) (continuing ++ kinds))
    (starts : ∀ value tokens final, others value tokens final →
      ∃ token rest, tokens = token :: rest ∧ token.kind ∈ kinds)
    (apart : ∀ kind ∈ kinds, kind ∉ continuing) :
    Stops bound (Parser.extend kinds first more) (phrases.extend others)
      (continuing ++ kinds) := by
  have stops_next (value : α) : Stops bound
      (Parser.peek kinds (more value) (Parser.succeed value))
      (fun tokens final => others value tokens final ∨ Language.empty value tokens final)
      (continuing ++ kinds) := by
    refine (stops_more value).peek (succeed value _) (starts value) ?_
    rintro tokens final rest ⟨rfl, -⟩ ends
    exact (ends_append.mp ends).2
  have stops_both := stops_first.andThen reads_first definite stops_next
    (fun value => ⟨[], value, .inr ⟨rfl, rfl⟩⟩) (fun _ _ _ => Nat.le_add_left _ _) ?_
  · exact stops_both.congr fun _ _ => Language.extend_iff.symm
  · rintro value back final rest (further | ⟨rfl, -⟩) ends
    · obtain ⟨token, after, rfl, kind⟩ := starts value back final further
      simpa using apart _ kind
    · exact (ends_append.mp ends).1

section Iteration

variable {step : α → Parser α} {steps : α → Language α}

private theorem loop (stops_step : ∀ value, Stops bound (step value) (steps value) continuing)
    (reads_step : ∀ value, Reads bound (step value) (steps value) continuing)
    (definite : ∀ value, Definite (steps value) continuing)
    (starts : ∀ value tokens final, steps value tokens final →
      ∃ token rest, tokens = token :: rest ∧ token.kind ∈ kinds)
    (apart : ∀ kind ∈ kinds, kind ∉ continuing) (fuel : Nat) (value : α) :
    Stops bound (Parser.loop kinds step fuel value) (Language.Iterated steps value)
      (continuing ++ kinds) := by
  induction fuel generalizing value with
  | zero => exact succeed value _
  | succ fuel induction =>
      have stops_tail : Stops bound ((step value).andThen (Parser.loop kinds step fuel))
          ((steps value).andThen (Language.Iterated steps)) (continuing ++ kinds) := by
        refine (stops_step value).andThen (reads_step value) (definite value) induction
          (fun middle => ⟨[], middle, .done⟩) (fun _ _ _ => Nat.le_add_left _ _) ?_
        intro middle back final rest tail ends
        exact Reads.ends_iterated starts apart tail (ends_append.mp ends).1
      refine (stops_tail.peek (succeed value _) ?_ ?_).congr fun _ _ => Language.iterated_iff.symm
      · rintro _ final ⟨front, middle, back, rfl, head, -⟩
        obtain ⟨token, after, rfl, kind⟩ := starts value front middle head
        exact ⟨token, after ++ back, rfl, kind⟩
      · rintro tokens final rest ⟨rfl, -⟩ ends
        exact (ends_append.mp ends).2

theorem iterate {first : Parser α} {phrases : Language α}
    (stops_first : Stops bound first phrases continuing)
    (reads_first : Reads bound first phrases continuing)
    (definite_first : Definite phrases continuing)
    (stops_step : ∀ value, Stops bound (step value) (steps value) continuing)
    (reads_step : ∀ value, Reads bound (step value) (steps value) continuing)
    (definite : ∀ value, Definite (steps value) continuing)
    (starts : ∀ value tokens final, steps value tokens final →
      ∃ token rest, tokens = token :: rest ∧ token.kind ∈ kinds)
    (apart : ∀ kind ∈ kinds, kind ∉ continuing) :
    Stops bound (Parser.iterate kinds first step)
      (phrases.andThen (Language.Iterated steps)) (continuing ++ kinds) := by
  refine stops_first.andThen reads_first definite_first (fun value tokens stop fits failed =>
    loop stops_step reads_step definite starts apart tokens.length value tokens stop fits failed)
    (fun middle => ⟨[], middle, .done⟩) (fun _ _ _ => Nat.le_add_left _ _) ?_
  intro middle back final rest tail ends
  exact Reads.ends_iterated starts apart tail (ends_append.mp ends).1

end Iteration
end Stops
end Grammar
end Formulary

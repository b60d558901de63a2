import Formulary.Proofs.ValidTexts

/-!
# Escape sequences

A terminal takes an escape mark, a bracket, parameters and one last byte as a control sequence, and
shows the rest of a text.  A coloured text decorates a plain one if the control sequences are all
that it has more, wherever it stands; so decorated parts make up a decorated whole.
-/

namespace Formulary

namespace Text

/-- The byte that begins an escape sequence. -/
def escapeMark : UInt8 := 27

/-- The byte behind the escape mark of a control sequence. -/
def bracket : UInt8 := 91

/-- The bytes between the bracket and the last byte of a control sequence. -/
def isParameter (byte : UInt8) : Bool :=
  32 ≤ byte && byte ≤ 63

/-- The bytes that end a control sequence. -/
def isFinal (byte : UInt8) : Bool :=
  64 ≤ byte && byte ≤ 126

/-- How many bytes behind an escape mark make up a control sequence with it, if any do. -/
def sequenceTail : Text → Nat
  | [] => 0
  | byte :: rest =>
      if byte = bracket then
        match rest.dropWhile isParameter with
        | [] => 0
        | last :: _ => if isFinal last then (rest.takeWhile isParameter).length + 2 else 0
      else 0

/-- The text without some bytes at its front, and without the control sequences behind them. -/
def eraseSequencesFrom : Nat → Text → Text
  | _, [] => []
  | skipped + 1, _ :: rest => eraseSequencesFrom skipped rest
  | 0, byte :: rest =>
      if byte = escapeMark then
        match sequenceTail rest with
        | 0 => byte :: eraseSequencesFrom 0 rest
        | width + 1 => eraseSequencesFrom (width + 1) rest
      else byte :: eraseSequencesFrom 0 rest

/-- The text without its control sequences. -/
def eraseSequences (text : Text) : Text :=
  eraseSequencesFrom 0 text

private theorem eraseSequencesFrom_append (front rest : Text) :
    eraseSequencesFrom front.length (front ++ rest) = eraseSequences rest := by
  induction front with
  | nil => rfl
  | cons byte front induction => exact induction

private theorem eraseSequences_append {front : Text} (no_mark : escapeMark ∉ front) (rest : Text) :
    eraseSequences (front ++ rest) = front ++ eraseSequences rest := by
  induction front with
  | nil => rfl
  | cons byte front induction =>
      have plain : byte ≠ escapeMark := fun same => no_mark (same ▸ List.mem_cons_self)
      have later := induction fun listed => no_mark (List.mem_cons_of_mem byte listed)
      rw [eraseSequences] at later ⊢
      rw [List.cons_append, eraseSequencesFrom, if_neg plain, later]
      rfl

/-- A control sequence leaves nothing. -/
theorem eraseSequences_sequence {parameters : Text}
    (all : ∀ byte ∈ parameters, isParameter byte) {last : UInt8} (ends : isFinal last)
    (rest : Text) :
    eraseSequences (escapeMark :: bracket :: parameters ++ last :: rest) = eraseSequences rest := by
  have not_parameter : ¬ isParameter last := by
    simp only [isFinal, isParameter, Bool.and_eq_true, decide_eq_true_eq] at ends ⊢
    grind
  have dropped : (parameters ++ last :: rest).dropWhile isParameter = last :: rest := by
    rw [List.dropWhile_append_of_pos all, List.dropWhile_cons_of_neg not_parameter]
  have taken : (parameters ++ last :: rest).takeWhile isParameter = parameters := by
    rw [List.takeWhile_append_of_pos all, List.takeWhile_cons_of_neg not_parameter,
      List.append_nil]
  have width : sequenceTail (bracket :: (parameters ++ last :: rest)) = parameters.length + 2 := by
    rw [sequenceTail, if_pos rfl, dropped, taken]
    exact if_pos ends
  have skipped := eraseSequencesFrom_append (bracket :: parameters ++ [last]) rest
  rw [List.append_assoc, List.singleton_append] at skipped
  rw [eraseSequences, List.cons_append, List.cons_append, eraseSequencesFrom, if_pos rfl, width,
    ← skipped]
  simp

/-- Wherever the coloured text stands, only the plain one is left of it. -/
def Decorates (coloured plain : Text) : Prop :=
  ∀ rest, eraseSequences (coloured ++ rest) = plain ++ eraseSequences rest

theorem Decorates.erased {coloured plain : Text} (decorates : Decorates coloured plain) :
    eraseSequences coloured = plain := by
  have alone := decorates []
  rwa [List.append_nil, show eraseSequences [] = [] from rfl, List.append_nil] at alone

/-- A text without escape marks is left as it is. -/
theorem decorates_self {text : Text} (no_mark : escapeMark ∉ text) : Decorates text text :=
  eraseSequences_append no_mark

theorem Decorates.append {coloured plain coloured' plain' : Text}
    (first : Decorates coloured plain) (second : Decorates coloured' plain') :
    Decorates (coloured ++ coloured') (plain ++ plain') := by
  intro rest
  rw [List.append_assoc, first, second, List.append_assoc]

theorem decorates_join {separator : Text} (no_mark : escapeMark ∉ separator) {α : Type}
    {coloured plain : α → Text} {parts : List α}
    (each : ∀ part ∈ parts, Decorates (coloured part) (plain part)) :
    Decorates (join separator (parts.map coloured)) (join separator (parts.map plain)) := by
  induction parts with
  | nil => exact fun _ => rfl
  | cons part rest induction =>
      obtain ⟨first, others⟩ := List.forall_mem_cons.mp each
      cases rest with
      | nil => simpa [join] using first
      | cons next more =>
          have joined (text : α → Text) : join separator ((part :: next :: more).map text) =
              text part ++ separator ++ join separator ((next :: more).map text) := by
            simp [join, List.intercalate]
          rw [joined, joined]
          exact (first.append (decorates_self no_mark)).append (induction others)

end Text

open Text (Decorates decorates_self escapeMark eraseSequences)

namespace Colour

/-- The sequences that start and end colours leave nothing. -/
theorem eraseSequences_sequence {parameter : String}
    (parameters : (Text.ascii parameter).all Text.isParameter) (rest : Text) :
    eraseSequences (sequence parameter ++ rest) = eraseSequences rest := by
  have ends : Text.isFinal 109 := by decide
  have erased := Text.eraseSequences_sequence (List.all_eq_true.mp parameters) ends rest
  rw [sequence, List.append_assoc, List.append_assoc]
  exact erased

theorem decorates_paint (colour : Colour) {coloured plain : Text}
    (decorates : Decorates coloured plain) :
    Decorates (colour.paint true coloured) (colour.paint false plain) := by
  intro rest
  have started (text : Text) : eraseSequences (colour.start ++ text) = eraseSequences text := by
    cases colour <;> exact eraseSequences_sequence (by decide) text
  rw [paint, paint, if_pos rfl, if_neg Bool.false_ne_true, List.append_assoc, List.append_assoc,
    started, decorates, reset, eraseSequences_sequence (by decide)]

end Colour

/-- Numbers are written without escape marks. -/
theorem Number.escapeMark_notMem_toText (x : Number) : escapeMark ∉ x.toText := by
  cases x with
  | nan => decide
  | infinite negative => cases negative <;> decide
  | finite negative magnitude =>
      obtain ⟨unsigned, same, digits, -⟩ : Json.Numeral (finite negative magnitude).toText :=
        numeral_toText rfl
      have no_mark : escapeMark ∉ unsigned := by
        intro listed
        have kind := digits.bytes escapeMark listed
        revert kind
        decide
      obtain same | same := same
      · rwa [same]
      · rw [same]
        exact List.not_mem_cons_of_ne_of_not_mem (by decide) no_mark

end Formulary

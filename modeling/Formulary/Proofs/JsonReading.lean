import Formulary.Proofs.Json
import Formulary.Proofs.NumberText

/-!
# Reading JSON

A reader for JSON texts by recursive descent.  It accepts exactly the texts of the grammar and gives
the value that the text denotes, so that no text denotes two values.
-/

namespace Formulary
namespace Json

/-- The text without the space in front of it. -/
def skip (text : Text) : Text :=
  text.dropWhile isSpace

/-- Reads the bytes of a string and its closing quotation mark. -/
def readBody : Text → Option (Text × Text)
  | [] => none
  | byte :: rest =>
      if byte = Text.doubleQuote then some ([], rest)
      else if byte = Text.backslash then
        match rest with
        | [] => none
        | letter :: rest =>
            if letter = Lexeme.unicodeMark then
              match rest with
              | a :: b :: high :: low :: rest =>
                  if a = Text.zeroDigit ∧ b = Text.zeroDigit then
                    match pairByte? high low with
                    | some unit => (readBody rest).map (Prod.map (unit :: ·) id)
                    | none => none
                  else none
              | _ => none
            else
              match escapes.lookup letter with
              | some escaped => (readBody rest).map (Prod.map (escaped :: ·) id)
              | none => none
      else if byte < 32 then none
      else (readBody rest).map (Prod.map (byte :: ·) id)

/-- The text without a minus sign in front of it. -/
def unsigned : Text → Text
  | [] => []
  | first :: rest => if first = Text.minusSign then rest else first :: rest

/-- The text is a numeral. -/
def isNumeral (spelling : Text) : Bool :=
  leads (unsigned spelling) &&
    Lexeme.numberWidth (unsigned spelling) == (unsigned spelling).length

/-- The bytes of words and numerals. -/
def isScalarByte (byte : UInt8) : Bool :=
  Text.isLetter byte || Text.isDigit byte || Text.isSign byte || byte == Text.dot

/-- The value of a word or a numeral. -/
def scalar? (word : Text) : Option Json :=
  if word = Text.ascii "null" then some null
  else if word = Text.ascii "true" then some (boolean true)
  else if word = Text.ascii "false" then some (boolean false)
  else if isNumeral word then some (number word)
  else none

section Sequences

variable {α : Type} (readItem : Text → Option (α × Text)) (close : UInt8)

/-- Reads items and the byte that closes them, of items no more than a given number. -/
def readItems : Nat → Text → Option (List α × Text)
  | 0, _ => none
  | count + 1, text =>
      match readItem (skip text) with
      | none => none
      | some (value, after) =>
          match skip after with
          | [] => none
          | byte :: rest =>
              if byte = close then some ([value], rest)
              else if byte = comma then
                (readItems count rest).map (Prod.map (value :: ·) id)
              else none

/-- Reads what stands between brackets or braces, and the byte that closes it. -/
def readInside (count : Nat) (text : Text) : Option (List α × Text) :=
  match skip text with
  | [] => none
  | byte :: rest =>
      if byte = close then some ([], rest) else readItems readItem close count text

end Sequences

/-- Reads a member of an object. -/
def readMember (readValue : Text → Option (Json × Text)) (text : Text) :
    Option ((Text × Json) × Text) :=
  match text with
  | [] => none
  | first :: rest =>
      if first = Text.doubleQuote then
        match readBody rest with
        | none => none
        | some (name, after) =>
            match skip after with
            | [] => none
            | byte :: rest =>
                if byte = colon then (readValue (skip rest)).map (Prod.map (name, ·) id)
                else none
      else none

/-- Reads the value at the front of a text, which is nested no deeper than a given depth. -/
def readValue : Nat → Text → Option (Json × Text)
  | 0, _ => none
  | _ + 1, [] => none
  | depth + 1, first :: rest =>
      if first = Text.doubleQuote then (readBody rest).map (Prod.map string id)
      else if first = openBracket then
        (readInside (readValue depth) closeBracket depth rest).map (Prod.map array id)
      else if first = openBrace then
        (readInside (readMember (readValue depth)) closeBrace depth rest).map
          (Prod.map object id)
      else
        (scalar? ((first :: rest).takeWhile isScalarByte)).map
          (·, (first :: rest).dropWhile isScalarByte)

/-- The value of a JSON text. -/
def ofText? (text : Text) : Option Json :=
  match readValue text.length (skip text) with
  | none => none
  | some (value, rest) => if (skip rest).isEmpty then some value else none

theorem space_nil : Space [] := nofun

theorem space_append {front back : Text} (before : Space front) (after : Space back) :
    Space (front ++ back) :=
  fun byte member => (List.mem_append.mp member).elim (before byte) (after byte)

theorem skip_append {before : Text} (space : Space before) (text : Text) :
    skip (before ++ text) = skip text :=
  List.dropWhile_append_of_pos space

theorem skip_cons {first : UInt8} (no_space : ¬ isSpace first) (rest : Text) :
    skip (first :: rest) = first :: rest :=
  List.dropWhile_cons_of_neg no_space

private theorem skip_eq_nil {text : Text} (space : Space text) : skip text = [] :=
  List.dropWhile_eq_nil_iff.mpr space

/-- What is skipped is space. -/
theorem exists_skipped (text : Text) : ∃ before, Space before ∧ text = before ++ skip text :=
  ⟨text.takeWhile isSpace, fun _ => List.mem_takeWhile_imp, List.takeWhile_append_dropWhile.symm⟩

/-- The first bytes of values and of members. -/
def opens (byte : UInt8) : Bool :=
  byte == Text.doubleQuote || byte == openBracket || byte == openBrace || isScalarByte byte

private theorem opens_of_scalar {byte : UInt8} (scalar : isScalarByte byte) : opens byte := by
  simp [opens, scalar]

theorem not_opens_of_space {byte : UInt8} (space : isSpace byte) : ¬ opens byte := by
  simp only [isSpace, Bool.or_eq_true, beq_iff_eq] at space
  rcases space with ((rfl | rfl) | rfl) | rfl <;> decide

/-- No byte of a word or a numeral stands at the front of the text. -/
def Ends (rest : Text) : Prop :=
  ∀ byte ∈ rest.head?, ¬ isScalarByte byte

theorem ends_cons {byte : UInt8} (outside : ¬ isScalarByte byte) (rest : Text) :
    Ends (byte :: rest) := by
  simpa [Ends] using outside

private theorem ends_append {space rest : Text} (front : Space space) (ends : Ends rest) :
    Ends (space ++ rest) := by
  cases space with
  | nil => exact ends
  | cons byte more =>
      have outside := not_opens_of_space (front byte List.mem_cons_self)
      exact ends_cons (fun scalar => outside (opens_of_scalar scalar)) _

theorem map_eq_some {α β : Type} {f : α → β} {read : Option (α × Text)} {value : β} {rest : Text}
    (mapped : read.map (Prod.map f id) = some (value, rest)) :
    ∃ inner, read = some (inner, rest) ∧ value = f inner := by
  obtain ⟨⟨inner, after⟩, found, same⟩ := Option.map_eq_some_iff.mp mapped
  cases same
  exact ⟨inner, found, rfl⟩

private theorem lookup_escapes {letter byte : UInt8} (listed : (letter, byte) ∈ escapes) :
    letter ≠ Lexeme.unicodeMark ∧ escapes.lookup letter = some byte := by
  have all : escapes.all fun entry =>
      entry.1 ≠ Lexeme.unicodeMark ∧ escapes.lookup entry.1 = some entry.2 := by decide
  exact of_decide_eq_true (List.all_eq_true.mp all _ listed)

private theorem mem_escapes_of_lookup {letter byte : UInt8}
    (found : escapes.lookup letter = some byte) : (letter, byte) ∈ escapes := by
  obtain ⟨front, back, split, -⟩ := List.lookup_eq_some_iff.mp found
  rw [split]
  exact List.mem_append_right _ List.mem_cons_self

/-- The body of a string is read up to its closing quotation mark. -/
theorem Body.read_eq {body value : Text} (inside : Body body value) (rest : Text) :
    readBody (body ++ Text.doubleQuote :: rest) = some (value, rest) := by
  induction inside with
  | empty =>
      rw [List.nil_append, readBody.eq_def]
      simp only [if_true]
  | @plain byte body value no_control not_quote not_backslash more induction =>
      rw [List.cons_append, readBody.eq_def]
      simp only [if_neg not_quote, if_neg not_backslash, if_neg (UInt8.not_lt.mpr no_control),
        induction, Option.map_some, Prod.map, id]
  | escaped listed more induction =>
      obtain ⟨not_unicode, found⟩ := lookup_escapes listed
      rw [List.cons_append, List.cons_append, readBody.eq_def]
      simp only [if_neg (show Text.backslash ≠ Text.doubleQuote by decide), if_true,
        if_neg not_unicode, found, induction, Option.map_some, Prod.map, id]
  | unit digits more induction =>
      simp only [List.cons_append]
      rw [readBody.eq_def]
      simp only [if_neg (show Text.backslash ≠ Text.doubleQuote by decide), if_true, and_self,
        digits, induction, Option.map_some, Prod.map, id]

/-- What is read as the body of a string is one. -/
theorem readBody_sound {text value rest : Text} (read : readBody text = some (value, rest)) :
    ∃ body, text = body ++ Text.doubleQuote :: rest ∧ Body body value := by
  fun_induction readBody text generalizing value rest with
  | case2 tail =>
      cases read
      exact ⟨[], rfl, .empty⟩
  | case4 a b high low tail zeros unit digits not_quote induction =>
      obtain ⟨inner, inner_read, rfl⟩ := map_eq_some read
      obtain ⟨body, rfl, inside⟩ := induction inner_read
      obtain ⟨rfl, rfl⟩ := zeros
      exact ⟨_, rfl, .unit digits inside⟩
  | case8 letter tail not_unicode escaped found not_quote induction =>
      obtain ⟨inner, inner_read, rfl⟩ := map_eq_some read
      obtain ⟨body, rfl, inside⟩ := induction inner_read
      exact ⟨_, rfl, .escaped (mem_escapes_of_lookup found) inside⟩
  | case11 byte tail not_quote not_backslash no_control induction =>
      obtain ⟨inner, inner_read, rfl⟩ := map_eq_some read
      obtain ⟨body, rfl, inside⟩ := induction inner_read
      exact ⟨_, rfl, .plain (UInt8.not_lt.mp no_control) not_quote not_backslash inside⟩
  | case1 | case3 | case5 | case6 | case7 | case9 | case10 => cases read

private theorem numberWidth_eq_length_iff {spelling : Text} (leading : leads spelling) :
    Lexeme.numberWidth spelling = spelling.length ↔ Lexicon.Numeral spelling := by
  cases spelling with
  | nil => cases leading
  | cons first rest =>
      have digit : Text.isDigit first := by
        rw [leads, Bool.and_eq_true] at leading
        exact leading.1
      have starts : Lexicon.beginsNumber first rest := by simp [Lexicon.beginsNumber, digit]
      constructor
      · intro whole
        have numeral := Lexicon.numeral_take starts
        rwa [whole, List.take_length] at numeral
      · intro numeral
        exact Nat.le_antisymm (Lexicon.numberWidth_le _)
          (numeral.length_le (List.prefix_refl _))

private theorem unsigned_of_leads {spelling : Text} (leading : leads spelling) :
    unsigned spelling = spelling := by
  cases spelling with
  | nil => rfl
  | cons first rest =>
      rw [unsigned, if_neg]
      rintro rfl
      cases leading

private theorem isNumeral_iff {spelling : Text} : isNumeral spelling ↔ Numeral spelling := by
  rw [isNumeral, Bool.and_eq_true, beq_iff_eq]
  constructor
  · rintro ⟨leading, whole⟩
    refine ⟨unsigned spelling, ?_, (numberWidth_eq_length_iff leading).mp whole, leading⟩
    cases spelling with
    | nil => exact .inl rfl
    | cons first rest =>
        rw [unsigned]
        split
        · rename_i minus
          exact .inr (minus ▸ rfl)
        · exact .inl rfl
  · rintro ⟨bare, rfl | rfl, numeral, leading⟩
    · rw [unsigned_of_leads leading]
      exact ⟨leading, (numberWidth_eq_length_iff leading).mpr numeral⟩
    · exact ⟨leading, (numberWidth_eq_length_iff leading).mpr numeral⟩

private theorem scalarByte_of_numeralByte {byte : UInt8}
    (kind : Text.isDigit byte ∨ byte = Text.dot ∨ Text.isExponentMark byte ∨ Text.isSign byte) :
    isScalarByte byte := by
  rw [isScalarByte]
  obtain digit | rfl | mark | sign := kind
  · simp [digit]
  · rfl
  · simp only [Text.isExponentMark, Bool.or_eq_true, beq_iff_eq] at mark
    obtain rfl | rfl := mark <;> rfl
  · simp [sign]

private theorem Numeral.scalar {spelling : Text} (numeral : Numeral spelling) :
    spelling ≠ [] ∧ spelling.all isScalarByte := by
  obtain ⟨bare, rfl | rfl, numeral, -⟩ := numeral
  · exact ⟨numeral.ne_nil, List.all_eq_true.mpr fun byte member =>
      scalarByte_of_numeralByte (numeral.bytes byte member)⟩
  · refine ⟨List.cons_ne_nil _ _, List.all_eq_true.mpr fun byte member => ?_⟩
    obtain rfl | member := List.mem_cons.mp member
    · rfl
    · exact scalarByte_of_numeralByte (numeral.bytes byte member)

/-- No word is a numeral. -/
theorem Numeral.ne_word {spelling : Text} (numeral : Numeral spelling) {word : Text}
    (letter : word.head?.any Text.isLetter) : spelling ≠ word := by
  rintro rfl
  obtain ⟨bare, rfl | rfl, -, leading⟩ := numeral
  · cases spelling with
    | nil => cases leading
    | cons first rest =>
        rw [leads, Bool.and_eq_true] at leading
        simp only [List.head?_cons, Option.any_some, Text.isLetter, Text.isUpper, Text.isLower,
          Text.isDigit] at letter leading
        grind
  · cases letter

private theorem Numeral.scalar?_eq {spelling : Text} (numeral : Numeral spelling) :
    scalar? spelling = some (number spelling) := by
  rw [scalar?, if_neg (numeral.ne_word (by decide)), if_neg (numeral.ne_word (by decide)),
    if_neg (numeral.ne_word (by decide)), if_pos (isNumeral_iff.mpr numeral)]

private theorem scalar?_sound {word : Text} {value : Json} (read : scalar? word = some value) :
    Writes word value := by
  rw [scalar?] at read
  split at read
  · rename_i same
    cases read
    exact same ▸ .null
  · split at read
    · rename_i same
      cases read
      exact same ▸ .boolean true
    · split at read
      · rename_i same
        cases read
        exact same ▸ .boolean false
      · split at read
        · rename_i numeral
          cases read
          exact .number (isNumeral_iff.mp numeral)
        · cases read

/-- A word or numeral is read up to its end. -/
theorem readValue_scalar {word rest : Text} (nonempty : word ≠ [])
    (inside : word.all isScalarByte) (ends : Ends rest) (depth : Nat) :
    readValue (depth + 1) (word ++ rest) = (scalar? word).map (·, rest) := by
  have inside := List.all_eq_true.mp inside
  have run := Lexicon.takeWhile_append_eq inside ends
  have left := Numeral.dropWhile_append_eq inside ends
  cases word with
  | nil => exact absurd rfl nonempty
  | cons first more =>
      have scalar := inside first List.mem_cons_self
      have apart {byte : UInt8} (outside : ¬ isScalarByte byte) : first ≠ byte := by
        rintro rfl
        exact outside scalar
      rw [List.cons_append] at run left ⊢
      rw [readValue, if_neg (apart (by decide)), if_neg (apart (by decide)),
        if_neg (apart (by decide)), run, left]

/-! ## Sequences -/

section Sequences

variable {α : Type} {Item : Text → α → Prop} {readItem : Text → Option (α × Text)}

/-- The reader reads every item of so many bytes at most, in front of anything that ends it. -/
structure Gets (Item : Text → α → Prop) (readItem : Text → Option (α × Text)) (bound : Nat) :
    Prop where
  starts {text value} (item : Item text value) : ∃ first rest, text = first :: rest ∧ opens first
  reads {text value rest} (item : Item text value) (small : text.length ≤ bound)
    (ends : Ends rest) : readItem (text ++ rest) = some (value, rest)

/-- Whatever the reader reads is an item. -/
def Reads (Item : Text → α → Prop) (readItem : Text → Option (α × Text)) : Prop :=
  ∀ text value rest, readItem text = some (value, rest) →
    ∃ front, text = front ++ rest ∧ Item front value

private theorem Gets.skip_eq {bound : Nat} (gets : Gets Item readItem bound) {text : Text}
    {value : α} (item : Item text value) (rest : Text) : skip (text ++ rest) = text ++ rest := by
  obtain ⟨first, more, rfl, opening⟩ := gets.starts item
  exact skip_cons (fun space => not_opens_of_space space opening) _

private theorem Spaced.starts {bound : Nat} (gets : Gets Item readItem bound) {text : Text}
    {value : α} (spaced : Spaced Item text value) (rest : Text) :
    ∃ first more, skip (text ++ rest) = first :: more ∧ opens first := by
  obtain ⟨front, item, back⟩ := spaced
  obtain ⟨first, more, rfl, opening⟩ := gets.starts item
  rw [List.append_assoc, List.append_assoc, skip_append front, gets.skip_eq item]
  exact ⟨first, _, rfl, opening⟩

private theorem Items.starts {bound : Nat} (gets : Gets Item readItem bound) {text : Text}
    {values : List α} (items : Items Item text values) (rest : Text) :
    ∃ first more, skip (text ++ rest) = first :: more ∧ opens first := by
  cases items with
  | last spaced => exact spaced.starts gets rest
  | more spaced others =>
      rw [List.append_assoc]
      exact spaced.starts gets _

variable {close : UInt8} (closes : ¬ opens close) (no_space : ¬ isSpace close)

include no_space in
theorem readInside_space {text : Text} (space : Space text) (count : Nat) (rest : Text) :
    readInside readItem close count (text ++ close :: rest) = some ([], rest) := by
  rw [readInside, skip_append space, skip_cons no_space]
  simp only [if_true]

section Completeness

variable {bound : Nat} (gets : Gets Item readItem bound)

include closes no_space gets

/-- An item with space around it is read in front of a byte that is no part of it. -/
theorem Spaced.read_eq {text : Text} {value : α} (spaced : Spaced Item text value)
    (small : text.length ≤ bound) (rest : Text) :
    ∃ after, readItem (skip (text ++ close :: rest)) = some (value, after) ∧
      skip after = close :: rest := by
  obtain ⟨front, item, back⟩ := spaced
  rename_i before text after
  have ends : Ends (after ++ close :: rest) :=
    ends_append back (ends_cons (fun scalar => closes (opens_of_scalar scalar)) rest)
  have item_small : text.length ≤ bound := by
    simp only [List.length_append] at small
    omega
  refine ⟨after ++ close :: rest, ?_, ?_⟩
  · rw [List.append_assoc, List.append_assoc, skip_append front, gets.skip_eq item]
    exact gets.reads item item_small ends
  · rw [skip_append back, skip_cons no_space]

/-- Items are read up to the byte that closes them. -/
theorem Items.read_eq (apart : comma ≠ close) {text : Text} {values : List α}
    (items : Items Item text values) (small : text.length ≤ bound) {count : Nat}
    (enough : text.length < count) (rest : Text) :
    readItems readItem close count (text ++ close :: rest) = some (values, rest) := by
  induction items generalizing count with
  | last spaced =>
      obtain ⟨count, rfl⟩ := Nat.exists_eq_add_of_lt enough
      obtain ⟨after, read, left⟩ := spaced.read_eq closes no_space gets small rest
      simp only [readItems, read, left, if_true]
  | @more text value others values spaced items induction =>
      simp only [List.length_append, List.length_cons] at small enough
      obtain ⟨count, rfl⟩ := Nat.exists_eq_add_of_lt enough
      obtain ⟨after, read, left⟩ :=
        spaced.read_eq (by decide : ¬ opens comma) (by decide) gets (by omega)
          (others ++ close :: rest)
      have others_read := @induction (by omega)
        (text.length + (others.length + 1) + count) (by omega)
      simp only [readItems, List.append_assoc, List.cons_append, read, left, if_neg apart, if_true,
        others_read, Option.map_some, Prod.map, id]

/-- Between brackets or braces items are read like anywhere. -/
theorem Items.readInside_eq (apart : comma ≠ close) {text : Text} {values : List α}
    (items : Items Item text values) (small : text.length ≤ bound) {count : Nat}
    (enough : text.length < count) (rest : Text) :
    readInside readItem close count (text ++ close :: rest) = some (values, rest) := by
  have read := items.read_eq closes no_space gets apart small enough rest
  obtain ⟨first, more, skipped, opening⟩ := items.starts gets (close :: rest)
  have not_closing : first ≠ close := by
    rintro rfl
    exact closes opening
  rw [readInside, skipped]
  simp only [if_neg not_closing, read]

end Completeness

section Soundness

variable (reads : Reads Item readItem)

include reads

private theorem readItems_sound {count : Nat} {text rest : Text} {values : List α}
    (read : readItems readItem close count text = some (values, rest)) :
    ∃ front, text = front ++ close :: rest ∧ Items Item front values := by
  induction count generalizing text values with
  | zero => cases read
  | succ count induction =>
      rw [readItems] at read
      split at read
      · cases read
      · rename_i value after item_read
        obtain ⟨item, split_off, holds⟩ := reads _ _ _ item_read
        obtain ⟨before, front, text_eq⟩ := exists_skipped text
        obtain ⟨between, back, after_eq⟩ := exists_skipped after
        have spaced : Spaced Item (before ++ item ++ between) value := .intro front holds back
        split at read
        · cases read
        · rename_i byte tail left
          have whole : text = before ++ item ++ between ++ byte :: tail := by
            rw [text_eq, split_off, after_eq, left]
            simp only [List.append_assoc]
          split at read
          · rename_i closing
            cases read
            exact ⟨_, closing ▸ whole, .last spaced⟩
          · split at read
            · rename_i separating
              obtain ⟨others, others_read, rfl⟩ := map_eq_some read
              obtain ⟨others_text, rfl, items⟩ := induction others_read
              refine ⟨_, ?_, .more spaced items⟩
              rw [whole, separating]
              simp only [List.append_assoc, List.cons_append]
            · cases read

/-- What is read between brackets or braces is space or items. -/
theorem readInside_sound {count : Nat} {text rest : Text} {values : List α}
    (read : readInside readItem close count text = some (values, rest)) :
    ∃ front, text = front ++ close :: rest ∧
      (values = [] ∧ Space front ∨ Items Item front values) := by
  obtain ⟨before, front, text_eq⟩ := exists_skipped text
  rw [readInside] at read
  split at read
  · cases read
  · rename_i byte tail left
    split at read
    · rename_i closing
      cases read
      refine ⟨before, ?_, .inl ⟨rfl, front⟩⟩
      rw [text_eq, left, closing]
    · obtain ⟨items_text, whole, items⟩ := readItems_sound reads read
      exact ⟨items_text, whole, .inr items⟩

end Soundness
end Sequences

theorem Body.quote_eq (body rest : Text) :
    Text.quote body ++ rest = Text.doubleQuote :: (body ++ Text.doubleQuote :: rest) := by
  simp only [Text.quote, List.cons_append, List.append_assoc, List.nil_append]

private theorem scalar_starts {word : Text} (nonempty : word ≠ [])
    (inside : word.all isScalarByte) : ∃ first rest, word = first :: rest ∧ opens first := by
  cases word with
  | nil => exact absurd rfl nonempty
  | cons first rest =>
      have scalar := List.all_eq_true.mp inside first List.mem_cons_self
      exact ⟨first, rest, rfl, opens_of_scalar scalar⟩

theorem Writes.starts {text : Text} {value : Json} (writes : Writes text value) :
    ∃ first rest, text = first :: rest ∧ opens first := by
  cases writes with
  | null => exact scalar_starts (by decide) (by decide)
  | boolean truth => cases truth <;> exact scalar_starts (by decide) (by decide)
  | number numeral => exact scalar_starts numeral.scalar.1 numeral.scalar.2
  | string | emptyArray | array | emptyObject | object => exact ⟨_, _, rfl, by decide⟩

theorem gets_member {readValue : Text → Option (Json × Text)} {bound : Nat}
    (gets : Gets Writes readValue bound) : Gets (Member Writes) (readMember readValue) bound where
  starts member := by
    obtain ⟨named, front, back, written⟩ := member
    exact ⟨_, _, rfl, by decide⟩
  reads {text value rest} member small ends := by
    obtain ⟨named, front, back, written⟩ := member
    rename_i body name between before text value
    have value_small : text.length ≤ bound := by
      simp only [List.length_append, List.length_cons] at small
      omega
    have value_read := gets.reads written value_small ends
    rw [List.append_assoc, List.append_assoc, Body.quote_eq, readMember]
    simp only [if_true, named.read_eq, skip_append front, List.cons_append, List.append_assoc,
      skip_cons (show ¬ isSpace colon by decide), skip_append back, gets.skip_eq written,
      value_read, Option.map_some, Prod.map, id]

/-- Values are read to the depth of their length. -/
theorem gets_value (depth : Nat) : Gets Writes (readValue depth) depth where
  starts := Writes.starts
  -- By induction on the depth: what is inside brackets or braces is shorter than the whole.
  reads {text value rest} writes small ends := by
    induction depth generalizing text value rest with
    | zero =>
        obtain ⟨first, more, rfl, -⟩ := writes.starts
        cases small
    | succ depth induction =>
        have gets : Gets Writes (readValue depth) depth := ⟨Writes.starts, induction⟩
        cases writes with
        | null => exact readValue_scalar (by decide) (by decide) ends depth
        | boolean truth =>
            cases truth <;> exact readValue_scalar (by decide) (by decide) ends depth
        | number numeral =>
            rw [readValue_scalar numeral.scalar.1 numeral.scalar.2 ends, numeral.scalar?_eq]
            rfl
        | string inside =>
            rw [Body.quote_eq, readValue]
            simp only [if_true, inside.read_eq, Option.map_some, Prod.map, id]
        | emptyArray space =>
            rw [List.cons_append, List.append_assoc, List.singleton_append, readValue,
              if_neg (by decide), if_pos rfl, readInside_space (by decide) space]
            rfl
        | array items =>
            simp only [List.length_cons, List.length_append, List.length_nil] at small
            rw [List.cons_append, List.append_assoc, List.singleton_append, readValue,
              if_neg (by decide), if_pos rfl,
              items.readInside_eq (by decide) (by decide) gets (by decide) (by omega) (by omega)]
            rfl
        | emptyObject space =>
            rw [List.cons_append, List.append_assoc, List.singleton_append, readValue,
              if_neg (by decide), if_neg (by decide), if_pos rfl,
              readInside_space (by decide) space]
            rfl
        | object items =>
            simp only [List.length_cons, List.length_append, List.length_nil] at small
            rw [List.cons_append, List.append_assoc, List.singleton_append, readValue,
              if_neg (by decide), if_neg (by decide), if_pos rfl,
              items.readInside_eq (by decide) (by decide) (gets_member gets) (by decide)
                (by omega) (by omega)]
            rfl

private theorem readMember_sound {readValue : Text → Option (Json × Text)}
    (reads : Reads Writes readValue) : Reads (Member Writes) (readMember readValue) := by
  intro text member rest read
  rw [readMember.eq_def] at read
  split at read
  · cases read
  · split at read
    · rename_i first tail quoted
      split at read
      · cases read
      · rename_i name after body_read
        split at read
        · cases read
        · rename_i byte more left
          split at read
          · rename_i separating
            obtain ⟨value, value_read, rfl⟩ := map_eq_some read
            obtain ⟨body, rfl, named⟩ := readBody_sound body_read
            obtain ⟨between, front, after_eq⟩ := exists_skipped after
            obtain ⟨before, back, more_eq⟩ := exists_skipped more
            obtain ⟨value_text, value_eq, written⟩ := reads _ _ _ value_read
            refine ⟨_, ?_, .intro named front back written⟩
            rw [quoted, after_eq, left, separating, more_eq, value_eq, List.append_assoc,
              List.append_assoc, Body.quote_eq]
            simp only [List.append_assoc, List.cons_append]
          · cases read
    · cases read

private theorem readValue_sound (depth : Nat) : Reads Writes (readValue depth) := by
  induction depth with
  | zero => exact fun text value rest read => nomatch read
  | succ depth induction =>
      intro text value rest read
      cases text with
      | nil => cases read
      | cons first tail =>
          rw [readValue] at read
          split at read
          · rename_i quotes
            obtain ⟨inner, body_read, rfl⟩ := map_eq_some read
            obtain ⟨body, rfl, inside⟩ := readBody_sound body_read
            exact ⟨_, by rw [Body.quote_eq, quotes], .string inside⟩
          · split at read
            · rename_i opening
              obtain ⟨elements, inside_read, rfl⟩ := map_eq_some read
              obtain ⟨inner, rfl, ⟨rfl, space⟩ | items⟩ := readInside_sound induction inside_read
              · exact ⟨_, by simp [opening], .emptyArray space⟩
              · exact ⟨_, by simp [opening], .array items⟩
            · split at read
              · rename_i opening
                obtain ⟨members, inside_read, rfl⟩ := map_eq_some read
                obtain ⟨inner, rfl, ⟨rfl, space⟩ | items⟩ :=
                  readInside_sound (readMember_sound induction) inside_read
                · exact ⟨_, by simp [opening], .emptyObject space⟩
                · exact ⟨_, by simp [opening], .object items⟩
              · obtain ⟨scalar, scalar_read, same⟩ := Option.map_eq_some_iff.mp read
                cases same
                exact ⟨_, List.takeWhile_append_dropWhile.symm, scalar?_sound scalar_read⟩

/-- The reader accepts the JSON texts, and gives the value that a text denotes. -/
theorem ofText?_eq_some_iff {text : Text} {value : Json} :
    ofText? text = some value ↔ Denotes text value := by
  constructor
  · intro read
    rw [ofText?] at read
    split at read
    · cases read
    · rename_i found rest value_read
      split at read
      · rename_i nothing
        cases read
        obtain ⟨before, front, text_eq⟩ := exists_skipped text
        obtain ⟨value_text, split_off, written⟩ := readValue_sound _ _ _ _ value_read
        have back : Space rest := List.dropWhile_eq_nil_iff.mp (List.isEmpty_iff.mp nothing)
        rw [text_eq, split_off, ← List.append_assoc]
        exact .intro front written back
      · cases read
  · rintro ⟨front, written, back⟩
    rename_i before text after
    have ends : Ends after := by
      have nothing : Ends [] := nofun
      simpa using ends_append back nothing
    have read := (gets_value (before ++ text ++ after).length).reads written
      (by simp only [List.length_append]; omega) ends
    rw [ofText?, List.append_assoc before, skip_append front, (gets_value 0).skip_eq written,
      ← List.append_assoc, read]
    simp only [skip_eq_nil back, List.isEmpty_nil, if_true]

end Json
end Formulary

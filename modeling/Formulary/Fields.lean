import Formulary.Text.Basic

/-!
# Tables keyed by texts

A table is a list of entries; the first entry for a key is the one that counts.  Tables made by
`ofList` and `insert` list their keys once each, in increasing order of their bytes.  `normalize`
brings any table into that form without changing what its keys stand for.
-/

namespace Formulary

/-- Entries keyed by texts. -/
abbrev Fields (α : Type) := List (Text × α)

namespace Fields

variable {α : Type}

/-- What the first entry for a key holds. -/
def find? (key : Text) : Fields α → Option α
  | [] => none
  | (name, value) :: rest => if name = key then some value else find? key rest

/-- The key has an entry. -/
def contains (key : Text) (fields : Fields α) : Bool :=
  (fields.find? key).isSome

/-- Put an entry at its place in the byte order, replacing the one that has its key. -/
def insert (key : Text) (value : α) : Fields α → Fields α
  | [] => [(key, value)]
  | (name, held) :: rest =>
      if key < name then (key, value) :: (name, held) :: rest
      else if key = name then (key, value) :: rest
      else (name, held) :: insert key value rest

/-- Insert entries one after another, so that later ones replace earlier ones. -/
def merge (fields overrides : Fields α) : Fields α :=
  overrides.foldl (fun table entry => table.insert entry.1 entry.2) fields

/-- The table of a list of entries, of which the last one for a key counts. -/
def ofList (entries : List (Text × α)) : Fields α :=
  merge [] entries

/-- The sorted table in which each key stands for its first entry. -/
def normalize (fields : Fields α) : Fields α :=
  fields.foldr (fun entry table => table.insert entry.1 entry.2) []

/-- Apply a function to what every entry holds. -/
def mapValues {β : Type} (f : α → β) (fields : Fields α) : Fields β :=
  fields.map fun entry => (entry.1, f entry.2)

theorem find?_insert (key name : Text) (value : α) (fields : Fields α) :
    (fields.insert key value).find? name =
      if key = name then some value else fields.find? name := by
  induction fields with
  | nil => simp [insert, find?]
  | cons entry rest ih =>
      obtain ⟨held, old⟩ := entry
      rw [insert]
      split
      · simp [find?]
      · split
        · rename_i same
          subst same
          simp only [find?]
          split <;> rfl
        · rename_i different
          simp only [find?, ih]
          split
          · rename_i here
            subst here
            rw [if_neg different]
          · rfl

/-- What is laid over a table counts; names that it has no entry for keep theirs. -/
theorem find?_merge (name : Text) (overrides fields : Fields α) :
    (fields.merge overrides).find? name =
      ((ofList overrides).find? name).or (fields.find? name) := by
  induction overrides generalizing fields with
  | nil => rfl
  | cons entry rest ih =>
      have laid : fields.merge (entry :: rest) = (fields.insert entry.1 entry.2).merge rest := rfl
      have alone : ofList (entry :: rest) = merge (insert entry.1 entry.2 []) rest := rfl
      rw [laid, alone, ih, ih (insert entry.1 entry.2 []), find?_insert, find?_insert,
        Option.or_assoc]
      split <;> rfl

/-- The entries behind the first one count, and then the first one. -/
theorem find?_ofList_cons (name : Text) (entry : Text × α) (rest : List (Text × α)) :
    (ofList (entry :: rest)).find? name =
      ((ofList rest).find? name).or (if entry.1 = name then some entry.2 else none) := by
  have alone : ofList (entry :: rest) = merge (insert entry.1 entry.2 []) rest := rfl
  rw [alone, find?_merge, find?_insert]
  rfl

theorem find?_ofList_of_absent {name : Text} {entries : List (Text × α)}
    (absent : ∀ entry ∈ entries, entry.1 ≠ name) : (ofList entries).find? name = none := by
  induction entries with
  | nil => rfl
  | cons entry rest ih =>
      rw [find?_ofList_cons, if_neg (absent entry List.mem_cons_self),
        ih fun other listed => absent other (List.mem_cons_of_mem entry listed)]
      rfl

theorem find?_ofList_mapValues {β : Type} (f : α → β) (name : Text)
    (entries : List (Text × α)) :
    (ofList (mapValues f entries)).find? name = ((ofList entries).find? name).map f := by
  induction entries with
  | nil => rfl
  | cons entry rest ih =>
      have mapped : mapValues f (entry :: rest) = (entry.1, f entry.2) :: mapValues f rest := rfl
      rw [mapped, find?_ofList_cons, find?_ofList_cons, ih]
      cases (ofList rest).find? name with
      | some value => rfl
      | none =>
          simp only [Option.map_none, Option.none_or]
          split <;> rfl

end Fields
end Formulary

import Formulary.Command.Project

/-!
# Paths

A path leads where its components lead, one after the other.  Putting a path below another one
follows the second from where the first leads to, and what stands in front of the last component of
an absolute path leads to the directory in which this component is followed.
-/

namespace Formulary

namespace FileTree

/-- The component that leads to the directory above. -/
def upwards : Text := Text.ascii ".."

/-- The names under which entries stand in directories. -/
structure IsName (name : Text) : Prop where
  some_byte : name ≠ []
  no_slash : slash ∉ name
  no_nul : Text.nul ∉ name
  not_here : name ≠ Text.ascii "."
  not_upwards : name ≠ upwards

/-- Where a component leads to from a directory. -/
def step (place : Place) (name : Text) : Place :=
  if name.isEmpty || name = Text.ascii "." then place
  else if name = upwards then place.dropLast
  else place ++ [name]

private theorem step_empty (place : Place) : step place [] = place := rfl

theorem step_name (place : Place) {name : Text} (is_name : IsName name) :
    step place name = place ++ [name] := by
  have stays : ¬ (name.isEmpty || name = Text.ascii ".") := by
    simp [is_name.some_byte, is_name.not_here]
  rw [step, if_neg stays, if_neg is_name.not_upwards]

/-- A component leads to the same directory, to the one above it or to an entry in it. -/
theorem step_cases (place : Place) (name : Text) :
    step place name = place ∨ (name = upwards ∧ step place name = place.dropLast) ∨
      step place name = place ++ [name] := by
  rw [step]
  split
  · exact .inl rfl
  · split
    · exact .inr (.inl ⟨‹_›, rfl⟩)
    · exact .inr (.inr rfl)

/-- What stands above where a component leads to is there already, or stands above the directory. -/
theorem prefix_step {above place : Place} {name : Text} (inside : above <+: step place name) :
    above = step place name ∨ above <+: place := by
  obtain same | ⟨-, dropped⟩ | added := step_cases place name
  · exact .inr (same ▸ inside)
  · rw [dropped] at inside
    exact .inr (inside.trans (List.dropLast_prefix place))
  · rw [added] at inside ⊢
    exact List.prefix_concat_iff.mp inside

private theorem components_ne_nil (path : Text) : components path ≠ [] := by
  cases path with
  | nil => exact List.cons_ne_nil _ _
  | cons byte rest =>
      rw [components]
      split
      · exact List.cons_ne_nil _ _
      · split <;> exact List.cons_ne_nil _ _

private theorem components_append (front back : Text) :
    components (front ++ slash :: back) = components front ++ components back := by
  induction front with
  | nil => exact if_pos rfl
  | cons byte rest induction =>
      rw [List.cons_append, components, components, induction]
      by_cases separates : byte = slash
      · rw [if_pos separates, if_pos separates, List.cons_append]
      · rw [if_neg separates, if_neg separates]
        cases first : components rest with
        | nil => exact absurd first (components_ne_nil rest)
        | cons name more => rfl

theorem components_of_no_slash {name : Text} (no_slash : slash ∉ name) :
    components name = [name] := by
  induction name with
  | nil => rfl
  | cons byte rest induction =>
      have byte_ne : byte ≠ slash := fun same => no_slash (same ▸ List.mem_cons_self)
      have inner := induction fun later => no_slash (List.mem_cons_of_mem byte later)
      rw [components, if_neg byte_ne, inner]

private theorem components_slashes (count : Nat) {name : Text} (no_slash : slash ∉ name) :
    components (List.replicate count slash ++ name) = List.replicate count [] ++ [name] := by
  induction count with
  | zero => exact components_of_no_slash no_slash
  | succ count induction =>
      rw [List.replicate_succ, List.cons_append, components, if_pos rfl, induction]
      rfl

section Follow

variable (tree : FileTree)

theorem follow?_nil (place : Place) :
    tree.follow? place [] = (tree.entry? place).map (place, ·) := rfl

theorem follow?_cons {place : Place} (enters : tree.entry? place = some .directory) (name : Text)
    (rest : List Text) :
    tree.follow? place (name :: rest) = tree.follow? (step place name) rest := by
  rw [follow?, enters, step]
  simp only
  split
  · rfl
  · rw [upwards]
    split <;> rfl

private theorem follow?_cons_of_not_directory {place : Place}
    (blocked : tree.entry? place ≠ some .directory) (name : Text) (rest : List Text) :
    tree.follow? place (name :: rest) = none := by
  rw [follow?]
  split
  · exact absurd ‹_› blocked
  · rfl

/-- Components are followed from directories only. -/
theorem enters_of_follow? {place : Place} {name : Text} {rest : List Text}
    {found : Place × Entry} (followed : tree.follow? place (name :: rest) = some found) :
    tree.entry? place = some .directory := Decidable.not_not.mp fun blocked => by
  rw [tree.follow?_cons_of_not_directory blocked] at followed
  cases followed

/-- Components are followed from where the components in front of them lead to. -/
theorem follow?_append (place : Place) (front back : List Text) :
    tree.follow? place (front ++ back) =
      (tree.follow? place front).bind fun found => tree.follow? found.1 back := by
  induction front generalizing place with
  | nil =>
      rw [List.nil_append, follow?_nil]
      cases stands : tree.entry? place with
      | some entry => rfl
      | none =>
          cases back with
          | nil => rw [follow?_nil, stands]; rfl
          | cons name rest =>
              rw [tree.follow?_cons_of_not_directory (by simp [stands])]
              rfl
  | cons name rest induction =>
      rw [List.cons_append]
      by_cases enters : tree.entry? place = some .directory
      · rw [tree.follow?_cons enters, tree.follow?_cons enters, induction]
      · rw [tree.follow?_cons_of_not_directory enters, tree.follow?_cons_of_not_directory enters]
        rfl

/-- What is followed to is there. -/
theorem entry?_of_follow? {place found : Place} {names : List Text} {entry : Entry}
    (followed : tree.follow? place names = some (found, entry)) :
    tree.entry? found = some entry := by
  induction names generalizing place with
  | nil =>
      rw [follow?_nil, Option.map_eq_some_iff] at followed
      obtain ⟨_, stands, same⟩ := followed
      cases same
      exact stands
  | cons name rest induction =>
      by_cases enters : tree.entry? place = some .directory
      · rw [tree.follow?_cons enters] at followed
        exact induction followed
      · rw [tree.follow?_cons_of_not_directory enters] at followed
        cases followed

/-- Empty components in front of others stay where they are. -/
theorem follow?_empty {place : Place} (enters : tree.entry? place = some .directory) (count : Nat)
    (names : List Text) :
    tree.follow? place (List.replicate count [] ++ names) = tree.follow? place names := by
  induction count with
  | zero => rfl
  | succ count induction =>
      rw [List.replicate_succ, List.cons_append, tree.follow?_cons enters, step_empty, induction]

/-- The last component leads on from a directory, whatever empty ones stand in front of it. -/
theorem follow?_last {place found : Place} {entry : Entry} {count : Nat} {name : Text}
    (followed : tree.follow? place (List.replicate count [] ++ [name]) = some (found, entry)) :
    tree.entry? place = some .directory ∧ found = step place name := by
  have enters : tree.entry? place = some .directory := by
    cases count <;> exact tree.enters_of_follow? followed
  rw [tree.follow?_empty enters, tree.follow?_cons enters, follow?_nil,
    Option.map_eq_some_iff] at followed
  obtain ⟨_, -, same⟩ := followed
  exact ⟨enters, (congrArg Prod.fst same).symm⟩

end Follow

/-- The absolute path leads to a directory. -/
def Leads (tree : FileTree) (path : Text) (place : Place) : Prop :=
  tree.follow? [] (components path) = some (place, .directory)

theorem leads_slash (tree : FileTree) : tree.Leads [slash] [] := rfl

theorem Leads.enters {tree : FileTree} {path : Text} {place : Place}
    (leads : tree.Leads path place) : tree.entry? place = some .directory :=
  tree.entry?_of_follow? leads

/-- What an absolute path without NUL bytes is resolved to does not depend on the directory. -/
theorem resolve?_of_absolute (tree : FileTree) (current : Place) {path : Text}
    (absolute : path.head? = some slash) (no_nul : Text.nul ∉ path) :
    tree.resolve? current path = tree.follow? [] (components path) := by
  have whole := Text.beforeNul_eq_self fun byte member same => no_nul (same ▸ member)
  cases path with
  | nil => cases absolute
  | cons byte rest =>
      obtain rfl : byte = slash := Option.some.inj absolute
      simp only [resolve?, whole, if_true]

theorem resolve?_of_relative (tree : FileTree) (current : Place) {path : Text}
    (some_byte : path ≠ []) (relative : path.head? ≠ some slash) (no_nul : Text.nul ∉ path) :
    tree.resolve? current path = tree.follow? current (components path) := by
  have whole := Text.beforeNul_eq_self fun byte member same => no_nul (same ▸ member)
  cases path with
  | nil => exact absurd rfl some_byte
  | cons byte rest =>
      have byte_ne : byte ≠ slash := fun same => relative (congrArg some same)
      simp only [resolve?, whole, if_neg byte_ne]

theorem resolve?_beforeNul (tree : FileTree) (current : Place) (path : Text) :
    tree.resolve? current path.beforeNul = tree.resolve? current path := by
  rw [resolve?, resolve?, Text.beforeNul_beforeNul]

end FileTree

namespace Project

open FileTree (slash components Leads step)

variable {tree : FileTree}

/-- A path below another one is followed from where the other one leads to. -/
theorem follow?_below {path : Text} {place : Place} (leads : tree.Leads path place) (rest : Text) :
    tree.follow? [] (components (below path rest)) = tree.follow? place (components rest) := by
  rw [below]
  split
  · rename_i ends
    obtain ⟨front, rfl⟩ := List.getLast?_eq_some_iff.mp (beq_iff_eq.mp ends)
    -- The slash at the end of the path is the one in front of the rest.
    have followed : (tree.follow? [] (components front)).bind (fun found =>
        tree.follow? found.1 [[]]) = some (place, .directory) := by
      rw [← tree.follow?_append]
      exact (congrArg (tree.follow? []) (FileTree.components_append front [])).symm.trans leads
    obtain ⟨⟨found, entry⟩, front_followed, stays⟩ := Option.bind_eq_some_iff.mp followed
    have enters := tree.enters_of_follow? stays
    rw [tree.follow?_cons enters, FileTree.step_empty, FileTree.follow?_nil, enters] at stays
    cases stays
    rw [List.append_assoc, List.singleton_append, FileTree.components_append,
      tree.follow?_append, front_followed]
    rfl
  · have followed : tree.follow? [] (components path) = some (place, .directory) := leads
    rw [FileTree.components_append, tree.follow?_append, followed]
    rfl

/-- A component of a path below another one is a component of one of the two. -/
theorem mem_components_below {path rest name : Text}
    (member : name ∈ components (below path rest)) :
    name ∈ components path ∨ name ∈ components rest := by
  rw [below] at member
  split at member
  · rename_i ends
    obtain ⟨front, rfl⟩ := List.getLast?_eq_some_iff.mp (beq_iff_eq.mp ends)
    rw [List.append_assoc, List.singleton_append, FileTree.components_append,
      List.mem_append] at member
    refine member.imp_left fun inside => ?_
    rw [FileTree.components_append]
    exact List.mem_append_left _ inside
  · rw [FileTree.components_append, List.mem_append] at member
    exact member

theorem head?_below {path : Text} (absolute : path.head? = some slash) (rest : Text) :
    (below path rest).head? = some slash := by
  cases path with
  | nil => cases absolute
  | cons byte more =>
      rw [below]
      split <;> exact absolute

theorem nul_notMem_below {path rest : Text} (path_no_nul : Text.nul ∉ path)
    (rest_no_nul : Text.nul ∉ rest) : Text.nul ∉ below path rest := by
  have slash_ne : Text.nul ≠ slash := by decide
  rw [below]
  split <;> simp [path_no_nul, rest_no_nul, slash_ne]

/-- A list begins with copies of an element, behind which stands something else. -/
private theorem exists_replicate_append (element : UInt8) (text : Text) :
    ∃ count rest, text = List.replicate count element ++ rest ∧ rest.head? ≠ some element := by
  induction text with
  | nil => exact ⟨0, [], rfl, nofun⟩
  | cons byte text induction =>
      by_cases same : byte = element
      · obtain ⟨count, rest, rfl, not_element⟩ := induction
        exact ⟨count + 1, rest, by rw [same]; rfl, not_element⟩
      · exact ⟨0, byte :: text, rfl, fun head => same (Option.some.inj head)⟩

/-- An absolute path ends with slashes and a component behind them. -/
theorem exists_last_component {path : Text} (absolute : path.head? = some slash) :
    ∃ front count name, path = front ++ (List.replicate (count + 1) slash ++ name) ∧
      front.getLast? ≠ some slash ∧ slash ∉ name := by
  have has_slash : slash ∈ path.reverse := List.mem_reverse.mpr (List.mem_of_mem_head? absolute)
  obtain ⟨name, behind, split_last, no_slash⟩ := List.eq_append_cons_of_mem has_slash
  obtain ⟨count, front, rfl, not_slash⟩ := exists_replicate_append slash behind
  refine ⟨front.reverse, count, name.reverse, ?_, by simpa using not_slash, by simpa using no_slash⟩
  rw [← List.reverse_reverse path, split_last]
  simp [List.replicate_succ']

/-- The parent of an absolute path is what stands in front of the slashes and its last component. -/
theorem parent_eq {front name : Text} (count : Nat) (front_end : front.getLast? ≠ some slash)
    (no_slash : slash ∉ name) :
    parent (front ++ (List.replicate (count + 1) slash ++ name)) =
      if front = [] then [slash] else front := by
  have name_dropped : ∀ byte ∈ name.reverse, (byte != slash) = true := fun byte member =>
    bne_iff_ne.mpr fun same => no_slash (same ▸ List.mem_reverse.mp member)
  have slashes_dropped : ∀ byte ∈ List.replicate (count + 1) slash, (byte == slash) = true :=
    fun byte member => beq_iff_eq.mpr (List.eq_of_mem_replicate member)
  have front_stays : front.reverse.dropWhile (· == slash) = front.reverse := by
    cases reversed : front.reverse with
    | nil => rfl
    | cons byte rest =>
        refine List.dropWhile_cons_of_neg fun is_slash => front_end ?_
        rw [← List.head?_reverse, reversed, List.head?_cons, beq_iff_eq.mp is_slash]
  rw [parent, List.reverse_append, List.reverse_append, List.append_assoc,
    List.dropWhile_append_of_pos name_dropped, List.reverse_replicate, List.replicate_succ,
    List.cons_append, List.dropWhile_cons_of_neg (by simp), ← List.cons_append,
    ← List.replicate_succ, List.dropWhile_append_of_pos slashes_dropped, front_stays,
    List.reverse_reverse]
  cases front <;> rfl

theorem mem_of_mem_parent {path : Text} (absolute : path.head? = some slash) {byte : UInt8}
    (member : byte ∈ parent path) : byte ∈ path := by
  obtain ⟨front, count, name, rfl, front_end, no_slash⟩ := exists_last_component absolute
  rw [parent_eq count front_end no_slash] at member
  split at member
  · rw [List.mem_singleton.mp member]
    exact List.mem_append_right _ (List.mem_append_left _ (List.mem_replicate.mpr ⟨by omega, rfl⟩))
  · exact List.mem_append_left _ member

theorem head?_parent {path : Text} (absolute : path.head? = some slash) :
    (parent path).head? = some slash := by
  obtain ⟨front, count, name, rfl, front_end, no_slash⟩ := exists_last_component absolute
  rw [parent_eq count front_end no_slash]
  split
  · rfl
  · rename_i some_front
    rwa [List.head?_append, List.head?_eq_some_head some_front, Option.some_or,
      ← List.head?_eq_some_head] at absolute

/-- The parent of an absolute path is shorter, unless the path is the root. -/
theorem length_parent_lt {path : Text} (absolute : path.head? = some slash)
    (not_root : path ≠ [slash]) : (parent path).length < path.length := by
  obtain ⟨front, count, name, split_path, front_end, no_slash⟩ := exists_last_component absolute
  have parent_path := parent_eq count front_end no_slash
  rw [← split_path] at parent_path
  rw [parent_path]
  split
  · obtain ⟨rest, rfl⟩ := List.head?_eq_some_iff.mp absolute
    have some_byte : rest ≠ [] := fun rest_nil => not_root (by rw [rest_nil])
    exact Nat.succ_lt_succ (List.length_pos_iff.mpr some_byte)
  · rw [split_path, List.length_append, List.length_append, List.length_replicate]
    omega

theorem parent_slash : parent [slash] = [slash] := rfl

theorem mem_components_of_parent {path name : Text} (absolute : path.head? = some slash)
    (member : name ∈ components (parent path)) : name ∈ components path := by
  obtain ⟨front, count, last, rfl, front_end, no_slash⟩ := exists_last_component absolute
  rw [parent_eq count front_end no_slash] at member
  rw [List.replicate_succ, List.cons_append, FileTree.components_append]
  split at member
  · rename_i front_nil
    obtain rfl : name = [] := by simpa [components] using member
    rw [front_nil]
    exact List.mem_cons_self
  · exact List.mem_append_left _ member

/-- A path leads where its last component leads from the directory that its parent leads to. -/
theorem exists_step_of_leads {path : Text} {place : Place} (absolute : path.head? = some slash)
    (leads : tree.Leads path place) :
    ∃ above, tree.Leads (parent path) above ∧
      ∃ name ∈ components path, place = step above name := by
  obtain ⟨front, count, name, rfl, front_end, no_slash⟩ := exists_last_component absolute
  have split_components : components (front ++ (List.replicate (count + 1) slash ++ name)) =
      components front ++ (List.replicate count [] ++ [name]) := by
    rw [List.replicate_succ, List.cons_append, FileTree.components_append,
      FileTree.components_slashes count no_slash]
  rw [Leads, split_components, tree.follow?_append] at leads
  obtain ⟨⟨above, entry⟩, front_followed, last_followed⟩ := Option.bind_eq_some_iff.mp leads
  obtain ⟨enters, rfl⟩ := tree.follow?_last last_followed
  refine ⟨above, ?_, name, by simp [split_components], rfl⟩
  rw [parent_eq count front_end no_slash]
  split
  · rename_i front_nil
    subst front_nil
    have stays : tree.follow? [] (components []) = some ([], .directory) := rfl
    cases stays.symm.trans front_followed
    exact tree.leads_slash
  · have stands := tree.entry?_of_follow? front_followed
    rw [enters] at stands
    cases stands
    exact front_followed

end Project
end Formulary

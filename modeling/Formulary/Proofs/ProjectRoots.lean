import Mathlib.Data.List.Infix
import Formulary.Proofs.Paths

/-!
# Project roots

The search for a project goes along the parents of a path as it is written and stops at the root.
Each parent leads to the directory in which the last component was followed, so that no directory
above the one that the path leads to is passed over.  Only a component `..` can take the search out
of these directories.
-/

namespace Formulary

namespace FileTree

instance (name : Text) : Decidable (IsName name) :=
  decidable_of_iff
    (name ≠ [] ∧ slash ∉ name ∧ Text.nul ∉ name ∧ name ≠ Text.ascii "." ∧ name ≠ upwards)
    ⟨fun ⟨some_byte, no_slash, no_nul, not_here, not_upwards⟩ =>
      ⟨some_byte, no_slash, no_nul, not_here, not_upwards⟩,
    fun is_name => ⟨is_name.some_byte, is_name.no_slash, is_name.no_nul, is_name.not_here,
      is_name.not_upwards⟩⟩

/-- The places of a tree's entries. -/
def places (tree : FileTree) : List Place :=
  tree.directories ++ tree.files.map Prod.fst

/-- The entries of the tree have names, and each of them stands in a directory. -/
structure Rooted (tree : FileTree) : Prop where
  named : ∀ place ∈ tree.places, ∀ name ∈ place, IsName name
  inside : ∀ place ∈ tree.places, tree.entry? place.dropLast = some .directory

private theorem eq_nil_or_mem_places {tree : FileTree} {place : Place} {entry : Entry}
    (stands : tree.entry? place = some entry) : place = [] ∨ place ∈ tree.places := by
  rw [FileTree.entry?] at stands
  split at stands
  · rename_i directory
    rw [Bool.or_eq_true, List.isEmpty_iff, List.contains_iff_mem] at directory
    exact directory.imp_right (List.mem_append_left _)
  · obtain ⟨content, found, -⟩ := Option.map_eq_some_iff.mp stands
    obtain ⟨front, back, split_files, -⟩ := List.lookup_eq_some_iff.mp found
    have listed : place ∈ tree.files.map Prod.fst := by simp [split_files]
    exact .inr (List.mem_append_right _ listed)

private theorem Rooted.isName {tree : FileTree} (rooted : tree.Rooted) {place : Place}
    {entry : Entry}
    (stands : tree.entry? place = some entry) {name : Text} (member : name ∈ place) :
    IsName name := by
  obtain rfl | listed := eq_nil_or_mem_places stands
  · cases member
  · exact rooted.named place listed name member

private theorem Rooted.enters {tree : FileTree} (rooted : tree.Rooted) {place : Place} {name : Text}
    {entry : Entry} (stands : tree.entry? (place ++ [name]) = some entry) :
    tree.entry? place = some .directory := by
  obtain nil | listed := eq_nil_or_mem_places stands
  · exact absurd nil (List.concat_ne_nil name place)
  · have enters := rooted.inside _ listed
    rwa [List.dropLast_concat] at enters

end FileTree

namespace Project

open FileTree (slash components Leads step upwards IsName Rooted)

variable {tree : FileTree}

private theorem absolutePath_concat (place : Place) {name : Text}
    (is_name : ∀ name ∈ place, IsName name) :
    FileTree.absolutePath (place ++ [name]) = below (FileTree.absolutePath place) name := by
  obtain rfl | ⟨front, last, rfl⟩ := List.eq_nil_or_concat' place
  · simp [FileTree.absolutePath, below]
  · have last_name := is_name last (List.mem_append_right _ (List.mem_singleton_self last))
    have not_slash : (FileTree.absolutePath (front ++ [last])).getLast? ≠ some slash := by
      have written : FileTree.absolutePath (front ++ [last]) =
          front.flatMap (slash :: ·) ++ slash :: last := by simp [FileTree.absolutePath]
      intro ends
      rw [written, List.getLast?_append, List.getLast?_cons,
        List.getLast?_eq_some_getLast last_name.some_byte] at ends
      have ends_last : last.getLast last_name.some_byte = slash := by simpa using ends
      exact last_name.no_slash (ends_last ▸ List.getLast_mem last_name.some_byte)
    rw [below, if_neg (by simpa using not_slash)]
    simp [FileTree.absolutePath]

private theorem head?_absolutePath (place : Place) :
    (FileTree.absolutePath place).head? = some slash := by
  cases place <;> rfl

/-- The absolute path of a directory leads to it, and has only its names as components. -/
theorem leads_absolutePath (rooted : tree.Rooted) {place : Place}
    (enters : tree.entry? place = some .directory) :
    tree.Leads (FileTree.absolutePath place) place := by
  induction place using List.reverseRecOn with
  | nil => exact tree.leads_slash
  | append_singleton place name induction =>
      have above_enters := rooted.enters enters
      have is_name := rooted.isName enters (List.mem_append_right _ (List.mem_singleton_self name))
      rw [absolutePath_concat place fun name member => rooted.isName above_enters member, Leads,
        follow?_below (induction above_enters), FileTree.components_of_no_slash is_name.no_slash,
        tree.follow?_cons above_enters, FileTree.step_name place is_name, FileTree.follow?_nil,
        enters]
      rfl

private theorem mem_components_absolutePath (rooted : tree.Rooted) {place : Place}
    (enters : tree.entry? place = some .directory) {name : Text}
    (member : name ∈ components (FileTree.absolutePath place)) : name = [] ∨ IsName name := by
  induction place using List.reverseRecOn with
  | nil => exact .inl (by simpa [FileTree.absolutePath, components] using member)
  | append_singleton place last induction =>
      have above_enters := rooted.enters enters
      have is_name := rooted.isName enters (List.mem_append_right _ (List.mem_singleton_self last))
      rw [absolutePath_concat place fun name member => rooted.isName above_enters member] at member
      obtain front | back := mem_components_below member
      · exact induction above_enters front
      · rw [FileTree.components_of_no_slash is_name.no_slash, List.mem_singleton] at back
        exact .inr (back ▸ is_name)

private theorem mem_absolute {directory start : Text} {byte : UInt8} (member : byte ∈ start) :
    byte ∈ absolute directory start := by
  rw [absolute, below]
  split
  · exact member
  · split
    · exact List.mem_append_right _ member
    · exact List.mem_append_right _ (List.mem_cons_of_mem slash member)

private theorem nul_notMem_absolute {directory start : Text}
    (directory_no_nul : Text.nul ∉ directory)
    (no_nul : Text.nul ∉ start) : Text.nul ∉ absolute directory start := by
  rw [absolute]
  split
  · exact no_nul
  · exact nul_notMem_below directory_no_nul no_nul

private theorem nul_notMem_absolutePath (rooted : tree.Rooted) {place : Place}
    (enters : tree.entry? place = some .directory) :
    Text.nul ∉ FileTree.absolutePath place := by
  induction place using List.reverseRecOn with
  | nil => decide
  | append_singleton place last induction =>
      have above_enters := rooted.enters enters
      have is_name := rooted.isName enters (List.mem_append_right _ (List.mem_singleton_self last))
      rw [absolutePath_concat place fun name member => rooted.isName above_enters member]
      exact nul_notMem_below (induction above_enters) is_name.no_nul

private theorem head?_absolute (current : Place) (start : Text) :
    (absolute (FileTree.absolutePath current) start).head? = some slash := by
  rw [absolute]
  split
  · exact beq_iff_eq.mp ‹_›
  · exact head?_below (head?_absolutePath current) start

/-- A path that is seen from the root leads where it leads from its directory. -/
theorem leads_absolute (rooted : tree.Rooted) {current place : Place}
    (enters : tree.entry? current = some .directory) {start : Text} (no_nul : Text.nul ∉ start)
    (leads : tree.resolve? current start = some (place, .directory)) :
    tree.Leads (absolute (FileTree.absolutePath current) start) place := by
  rw [absolute]
  split
  · rename_i is_absolute
    rwa [tree.resolve?_of_absolute current (beq_iff_eq.mp is_absolute) no_nul] at leads
  · rename_i is_relative
    have some_byte : start ≠ [] := fun nil => by
      rw [nil] at leads
      cases leads
    rw [Leads, follow?_below (leads_absolutePath rooted enters)]
    rwa [tree.resolve?_of_relative current some_byte (by simpa using is_relative) no_nul] at leads

private theorem upwards_notMem_absolute (rooted : tree.Rooted) {current : Place}
    (enters : tree.entry? current = some .directory) {start : Text}
    (no_upwards : upwards ∉ components start) :
    upwards ∉ components (absolute (FileTree.absolutePath current) start) := by
  rw [absolute]
  split
  · exact no_upwards
  · intro member
    obtain front | back := mem_components_below member
    · obtain nil | is_name := mem_components_absolutePath rooted enters front
      · exact absurd nil (by decide)
      · exact is_name.not_upwards rfl
    · exact no_upwards back

/-- The directory at the place holds the settings of a project. -/
def Holds (tree : FileTree) (place : Place) : Prop :=
  (tree.entry? (place ++ [Configuration.fileName])).isSome

instance (tree : FileTree) (place : Place) : Decidable (Holds tree place) :=
  inferInstanceAs (Decidable (_ = true))

private theorem isName_fileName : IsName Configuration.fileName := by decide

/-- A path to a directory is the path of a project if the directory holds its settings. -/
theorem hasPath_settingsPath {path : Text} {place : Place} (absolute : path.head? = some slash)
    (no_nul : Text.nul ∉ path) (leads : tree.Leads path place) (current : Place) :
    tree.hasPath current (settingsPath path) = true ↔ Holds tree place := by
  rw [FileTree.hasPath, settingsPath,
    tree.resolve?_of_absolute current (head?_below absolute _)
      (nul_notMem_below no_nul isName_fileName.no_nul),
    follow?_below leads, FileTree.components_of_no_slash isName_fileName.no_slash,
    tree.follow?_cons leads.enters, FileTree.step_name place isName_fileName, FileTree.follow?_nil,
    Option.isSome_map]
  rfl

/-- The paths from a path upwards, each the parent of the one before it, up to its own parent. -/
inductive Climbs : Text → List Text → Prop where
  | top {path : Text} (own : parent path = path) : Climbs path [path]
  | up {path : Text} {above : List Text} (other : parent path ≠ path)
      (climbs : Climbs (parent path) above) : Climbs path (path :: above)

/-- The parents of an absolute path end at the root, with no more steps than the path has bytes. -/
theorem climbs_ancestorsWithin {steps : Nat} {path : Text} (absolute : path.head? = some slash)
    (enough : path.length ≤ steps) : Climbs path (ancestorsWithin steps path) := by
  induction steps generalizing path with
  | zero =>
      obtain rfl : path = [] := List.length_eq_zero_iff.mp (Nat.le_zero.mp enough)
      cases absolute
  | succ steps induction =>
      rw [ancestorsWithin]
      split
      · exact .top ‹_›
      · rename_i other
        have not_root : path ≠ [slash] := fun root => other (root ▸ parent_slash)
        have shorter := length_parent_lt absolute not_root
        exact .up other (induction (head?_parent absolute) (by omega))

private theorem climbs_ancestors {path : Text} (absolute : path.head? = some slash) :
    Climbs path (ancestors path) :=
  climbs_ancestorsWithin absolute (Nat.le_refl _)

/-- Nothing is above the directory of a path that is its own parent. -/
theorem eq_nil_of_own_parent {path : Text} {place : Place} (absolute : path.head? = some slash)
    (own : parent path = path) (leads : tree.Leads path place) : place = [] := by
  obtain rfl : path = [slash] := by
    by_contra not_root
    exact absurd (length_parent_lt absolute not_root) (by rw [own]; exact Nat.lt_irrefl _)
  cases leads.symm.trans tree.leads_slash
  rfl

/--
What a search along the parents of a path finds: either no directory from the one that the path
leads to upwards holds a project, or a path to the nearest one that does.  Only behind a component
`..` can it be a directory that is not above the one that the path leads to.
-/
inductive Found (tree : FileTree) (current : Place) (path : Text) (place : Place) :
    Option Text → Prop where
  | nothing (without : ∀ above, above <+: place → ¬ Holds tree above) :
      Found tree current path place none
  | project {root : Text} {found : Place}
      (leads : tree.resolve? current root = some (found, .directory)) (holds : Holds tree found)
      (nearest : ∀ above, above <+: place → Holds tree above → above <+: found)
      (above : upwards ∉ components path → found <+: place) :
      Found tree current path place (some root)

private theorem Found.here {current : Place} {path : Text} {place : Place}
    (absolute : path.head? = some slash) (no_nul : Text.nul ∉ path) (leads : tree.Leads path place)
    (holds : Holds tree place) : Found tree current path place (some path) :=
  .project ((tree.resolve?_of_absolute current absolute no_nul).trans leads) holds
    (fun _ above _ => above) fun _ => List.prefix_rfl

private theorem Found.of_components {current : Place} {path start : Text} {place : Place}
    {root : Option Text} (found_path : Found tree current path place root)
    (kept : upwards ∉ components start → upwards ∉ components path) :
    Found tree current start place root := by
  cases found_path with
  | nothing without => exact .nothing without
  | project leads holds nearest above =>
      exact .project leads holds nearest fun no_upwards => above (kept no_upwards)

/-- What is found from the parent is found from the path, if the directory itself holds nothing. -/
theorem Found.of_parent {current : Place} {path : Text} {above : Place} {name : Text}
    {root : Option Text} (absolute : path.head? = some slash) (member : name ∈ components path)
    (without_here : ¬ Holds tree (step above name))
    (found_above : Found tree current (parent path) above root) :
    Found tree current path (step above name) root := by
  have holds_above {upper : Place} (inside : upper <+: step above name) (holds : Holds tree upper) :
      upper <+: above :=
    (FileTree.prefix_step inside).resolve_left fun here => without_here (here ▸ holds)
  cases found_above with
  | nothing without =>
      exact .nothing fun upper inside holds => without upper (holds_above inside holds) holds
  | project leads holds nearest inside =>
      refine .project leads holds (fun upper prefixed upper_holds =>
        nearest upper (holds_above prefixed upper_holds) upper_holds) fun no_upwards => ?_
      have found_inside := inside fun below_parent =>
        no_upwards (mem_components_of_parent absolute below_parent)
      obtain same | ⟨goes_up, -⟩ | enters := FileTree.step_cases above name
      · rwa [same]
      · exact absurd (goes_up ▸ member) no_upwards
      · exact enters ▸ found_inside.trans (List.prefix_append above [name])

/-- The search finds the nearest directory that holds a project, from the path upwards. -/
theorem Climbs.found {current : Place} {path : Text} {searched : List Text}
    (climbs : Climbs path searched) (absolute : path.head? = some slash) (no_nul : Text.nul ∉ path)
    {place : Place} (leads : tree.Leads path place) :
    Found tree current path place
      (searched.find? fun directory => tree.hasPath current (settingsPath directory)) := by
  induction climbs generalizing place with
  | @top path own =>
      have holds_iff := hasPath_settingsPath absolute no_nul leads current
      by_cases holds : Holds tree place
      · simp only [List.find?_cons, holds_iff.mpr holds]
        exact .here absolute no_nul leads holds
      · simp only [List.find?_cons, Bool.eq_false_iff.mpr (mt holds_iff.mp holds)]
        obtain rfl := eq_nil_of_own_parent absolute own leads
        exact .nothing fun above inside => List.prefix_nil.mp inside ▸ holds
  | @up path above other climbs induction =>
      have holds_iff := hasPath_settingsPath absolute no_nul leads current
      by_cases holds : Holds tree place
      · simp only [List.find?_cons, holds_iff.mpr holds]
        exact .here absolute no_nul leads holds
      · simp only [List.find?_cons, Bool.eq_false_iff.mpr (mt holds_iff.mp holds)]
        obtain ⟨above, parent_leads, name, member, rfl⟩ := exists_step_of_leads absolute leads
        exact .of_parent absolute member holds (induction (head?_parent absolute)
          (fun in_parent => no_nul (mem_of_mem_parent absolute in_parent)) parent_leads)

private theorem absolute_beforeNul {directory : Text} (no_nul : Text.nul ∉ directory)
    (start : Text) : (absolute directory start).beforeNul = absolute directory start.beforeNul := by
  have slash_ne : Text.nul ≠ slash := by decide
  have same_head : (start.beforeNul.head? == some slash) = (start.head? == some slash) := by
    cases start with
    | nil => rfl
    | cons byte rest =>
        by_cases is_nul : byte = Text.nul
        · simp [Text.beforeNul, is_nul, slash_ne]
        · simp [Text.beforeNul, is_nul]
  rw [absolute, absolute, same_head]
  split
  · rfl
  · rw [below, below]
    split
    · exact Text.beforeNul_append no_nul start
    · have slash_no_nul : Text.nul ∉ directory ++ [slash] := by simp [no_nul, slash_ne]
      simpa using Text.beforeNul_append slash_no_nul start

/-- The settings below a path with a NUL byte are looked for at the path itself. -/
theorem hasPath_settingsPath_of_nul {path : Text} (has_nul : Text.nul ∈ path) (current : Place) :
    tree.hasPath current (settingsPath path) = tree.hasPath current path.beforeNul := by
  rw [FileTree.hasPath, FileTree.hasPath, ← tree.resolve?_beforeNul current (settingsPath path),
    settingsPath, below]
  split <;> rw [Text.beforeNul_append_of_mem has_nul]

private theorem Climbs.head? {path : Text} {searched : List Text} (climbs : Climbs path searched) :
    searched.head? = some path := by
  cases climbs <;> rfl

/--
The search for a project from a path that names a directory ends at the root, after the parents of
the path.  It finds the nearest directory from the named one upwards that holds the settings of a
project, unless the path goes up behind another component or has bytes behind a NUL byte.
-/
theorem root?_nearest (rooted : tree.Rooted) {current place : Place}
    (enters : tree.entry? current = some .directory) {start : Text}
    (names : tree.resolve? current start = some (place, .directory)) :
    (∃ searched, Climbs (absolute (FileTree.absolutePath current) start) searched ∧
      root? tree current start =
        searched.find? fun directory => tree.hasPath current (settingsPath directory)) ∧
    (Text.nul ∉ start → Found tree current start place (root? tree current start)) ∧
    (Text.nul ∈ start →
      root? tree current start = some (absolute (FileTree.absolutePath current) start)) := by
  have absolute_head := head?_absolute current start
  have climbs := climbs_ancestors absolute_head
  have some_byte : ¬ start.isEmpty := fun nil => by
    rw [List.isEmpty_iff.mp nil] at names
    cases names
  have searches : root? tree current start = _ := if_neg some_byte
  have directory_no_nul := nul_notMem_absolutePath rooted enters
  refine ⟨⟨_, climbs, searches⟩, fun no_nul => ?_, fun has_nul => ?_⟩
  · rw [searches]
    exact (climbs.found absolute_head (nul_notMem_absolute directory_no_nul no_nul)
      (leads_absolute rooted enters no_nul names)).of_components
      (upwards_notMem_absolute rooted enters)
  · have same_place : tree.resolve? current start.beforeNul = some (place, .directory) :=
      (tree.resolve?_beforeNul current start).trans names
    have cut_no_nul := Text.nul_notMem_beforeNul start
    have leads := leads_absolute rooted enters cut_no_nul same_place
    have is_there := tree.resolve?_of_absolute current
      (head?_absolute current start.beforeNul) (nul_notMem_absolute directory_no_nul cut_no_nul)
    have stops : tree.hasPath current
        (settingsPath (absolute (FileTree.absolutePath current) start)) = true := by
      rw [hasPath_settingsPath_of_nul (mem_absolute has_nul), absolute_beforeNul directory_no_nul,
        FileTree.hasPath, is_there, leads]
      rfl
    obtain ⟨rest, searched⟩ := List.head?_eq_some_iff.mp climbs.head?
    rw [searches, searched]
    simp only [List.find?_cons, stops]

/-- A tree with a project in the directory `a` of the directory `home`, and none in `home`. -/
def oneProject : FileTree where
  directories := [[Text.ascii "home"], [Text.ascii "home", Text.ascii "a"]]
  files := [([Text.ascii "home", Text.ascii "a", Configuration.fileName], [])]

private theorem rooted_oneProject : oneProject.Rooted :=
  ⟨by decide, by decide⟩

theorem root?_nearest_of_oneProject :
    oneProject.Rooted ∧ oneProject.entry? [Text.ascii "home"] = some .directory ∧
      oneProject.resolve? [Text.ascii "home"] (Text.ascii "./a/") =
        some ([Text.ascii "home", Text.ascii "a"], .directory) ∧
      Found oneProject [Text.ascii "home"] (Text.ascii "./a/")
        [Text.ascii "home", Text.ascii "a"]
        (root? oneProject [Text.ascii "home"] (Text.ascii "./a/")) :=
  ⟨rooted_oneProject, by decide, by decide,
    (root?_nearest rooted_oneProject (by decide) (by decide)).2.1 (by decide)⟩

/--
Behind `..` the search takes a project that is neither in the directory that the path names nor in
one above it.
-/
theorem root?_beside :
    oneProject.resolve? [Text.ascii "home"] (Text.ascii "a/..") =
        some ([Text.ascii "home"], .directory) ∧
      (∀ above, above <+: [Text.ascii "home"] → ¬ Holds oneProject above) ∧
      root? oneProject [Text.ascii "home"] (Text.ascii "a/..") =
        some (Text.ascii "/home/a") ∧
      oneProject.resolve? [Text.ascii "home"] (Text.ascii "/home/a") =
        some ([Text.ascii "home", Text.ascii "a"], .directory) := by
  refine ⟨by decide, fun above inside => ?_, by decide, by decide⟩
  have none_above : ∀ above ∈ [Text.ascii "home"].inits, ¬ Holds oneProject above := by decide
  exact none_above above ((List.mem_inits above _).mpr inside)

end Project
end Formulary

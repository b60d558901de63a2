import Formulary.Builtin

/-!
# Least and greatest numbers

The least of some arguments is found by keeping the better one of two numbers again and again, from
an infinity on that every number is better than.  What is kept is numerically one of the arguments
and ahead of all of them, so that their order cannot matter, and a NaN among them wins wherever it
stands.  The greatest one is found in the same way.
-/

namespace Formulary
namespace Number

section Placed

variable {x y : Number} {a b : Int} (first : x.place? = some a) (second : y.place? = some b)

include first second

private theorem comparePlaces_of_place (test : Int → Int → Bool) :
    comparePlaces test x y = test a b := by
  rw [comparePlaces, first, second]

theorem atMost_of_place : x.atMost y ↔ a ≤ b := by
  rw [atMost, comparePlaces_of_place first second, decide_eq_true_iff]

private theorem lessThan_of_place : x.lessThan y ↔ a < b := by
  rw [lessThan, comparePlaces_of_place first second, decide_eq_true_iff]

end Placed

private theorem comparePlaces_iff {test : Int → Int → Bool} {x y : Number} :
    comparePlaces test x y ↔ ∃ a b, x.place? = some a ∧ y.place? = some b ∧ test a b := by
  rw [comparePlaces]
  constructor
  · split
    · rename_i a b first second
      exact fun holds => ⟨a, b, first, second, holds⟩
    · exact nofun
  · rintro ⟨a, b, first, second, holds⟩
    exact (comparePlaces_of_place first second test).trans holds

theorem equals_iff {x y : Number} :
    x.equals y ↔ ∃ a, x.place? = some a ∧ y.place? = some a := by
  rw [equals, comparePlaces_iff]
  constructor
  · rintro ⟨a, b, first, second, same⟩
    exact ⟨a, first, of_decide_eq_true same ▸ second⟩
  · rintro ⟨a, first, second⟩
    exact ⟨a, a, first, second, decide_eq_true rfl⟩

private theorem atMost_iff {x y : Number} :
    x.atMost y ↔ ∃ a b, x.place? = some a ∧ y.place? = some b ∧ a ≤ b := by
  simp only [atMost, comparePlaces_iff, decide_eq_true_eq]

/-- Whatever is no NaN stands on the number line, between the infinities. -/
theorem exists_place {x : Number} (number : ¬ x.isNaN) :
    ∃ a, x.place? = some a ∧ -Magnitude.limit ≤ a ∧ a ≤ Magnitude.limit := by
  have limit_pos := Magnitude.limit_pos
  cases x with
  | nan => exact absurd rfl number
  | infinite negative =>
      refine ⟨_, rfl, ?_⟩
      rw [signedUnits]
      split <;> omega
  | finite negative magnitude =>
      have bounded := magnitude.bounded
      refine ⟨_, rfl, ?_⟩
      rw [signedUnits]
      split <;> omega

theorem equals_comm {x y : Number} (same : x.equals y) : y.equals x := by
  obtain ⟨a, first, second⟩ := equals_iff.mp same
  exact equals_iff.mpr ⟨a, second, first⟩

theorem equals_self {x : Number} (number : ¬ x.isNaN) : x.equals x := by
  obtain ⟨a, place, -⟩ := exists_place number
  exact equals_iff.mpr ⟨a, place, place⟩

/--
The numbers that are no NaNs are ranked by which of them is ahead of which, and the better one of
two is one of them that is ahead of the other.
-/
structure Ranking (ahead : Number → Number → Bool) (better : Number → Number → Number) :
    Prop where
  ahead_of_equals {x y : Number} (same : x.equals y) : ahead x y
  equals_of_ahead {x y : Number} (first : ahead x y) (second : ahead y x) : x.equals y
  trans {x y z : Number} (first : ahead x y) (second : ahead y z) : ahead x z
  better_cases {x y : Number} (first : ¬ x.isNaN) (second : ¬ y.isNaN) :
    better x y = x ∧ ahead x y ∨ better x y = y ∧ ahead y x

/-- The number is at least as great as the other one. -/
def atLeast (x y : Number) : Bool :=
  y.atMost x

private theorem atMost_of_equals {x y : Number} (same : x.equals y) : x.atMost y := by
  obtain ⟨a, first, second⟩ := equals_iff.mp same
  exact (atMost_of_place first second).mpr (Int.le_refl a)

private theorem equals_of_atMost {x y : Number} (first : x.atMost y) (second : y.atMost x) :
    x.equals y := by
  obtain ⟨a, b, x_place, y_place, below⟩ := atMost_iff.mp first
  have above := (atMost_of_place y_place x_place).mp second
  exact equals_iff.mpr ⟨a, x_place, Int.le_antisymm below above ▸ y_place⟩

private theorem atMost_trans {x y z : Number} (first : x.atMost y) (second : y.atMost z) :
    x.atMost z := by
  obtain ⟨a, -, x_place, -, -⟩ := atMost_iff.mp first
  obtain ⟨b, c, y_place, z_place, above⟩ := atMost_iff.mp second
  have below := (atMost_of_place x_place y_place).mp first
  exact (atMost_of_place x_place z_place).mpr (Int.le_trans below above)

private theorem lessThan_or_atMost {x y : Number} (first : ¬ x.isNaN) (second : ¬ y.isNaN) :
    x.lessThan y ∧ x.atMost y ∨ ¬ x.lessThan y ∧ y.atMost x := by
  obtain ⟨a, x_place, -⟩ := exists_place first
  obtain ⟨b, y_place, -⟩ := exists_place second
  rw [lessThan_of_place x_place y_place, atMost_of_place x_place y_place,
    atMost_of_place y_place x_place]
  omega

private theorem ranking_min : Ranking atMost Number.min where
  ahead_of_equals := atMost_of_equals
  equals_of_ahead := equals_of_atMost
  trans := atMost_trans
  better_cases {x y} first second := by
    rw [Number.min]
    obtain ⟨less, ahead⟩ | ⟨not_less, ahead⟩ := lessThan_or_atMost second first
    · exact .inr ⟨if_pos less, ahead⟩
    · exact .inl ⟨if_neg not_less, ahead⟩

private theorem ranking_max : Ranking atLeast Number.max where
  ahead_of_equals same := atMost_of_equals (equals_comm same)
  equals_of_ahead first second := equals_of_atMost second first
  trans first second := atMost_trans second first
  better_cases {x y} first second := by
    rw [Number.max]
    obtain ⟨less, ahead⟩ | ⟨not_less, ahead⟩ := lessThan_or_atMost first second
    · exact .inr ⟨if_pos less, ahead⟩
    · exact .inl ⟨if_neg not_less, ahead⟩

private theorem atMost_infinite {x : Number} (number : ¬ x.isNaN) : x.atMost (.infinite false) := by
  obtain ⟨a, place, -, above⟩ := exists_place number
  exact (atMost_of_place place rfl).mpr above

private theorem infinite_atMost {x : Number} (number : ¬ x.isNaN) : (infinite true).atMost x := by
  obtain ⟨a, place, below, -⟩ := exists_place number
  exact (atMost_of_place rfl place).mpr below

/--
The number is a NaN if there are no numbers or one of them is a NaN, and otherwise numerically one
of the numbers and ahead of each of them.
-/
structure IsExtremum (ahead : Number → Number → Bool) (numbers : List Number)
    (result : Number) : Prop where
  isNaN_iff : result.isNaN ↔ numbers = [] ∨ ∃ x ∈ numbers, x.isNaN
  attained (number : ¬ result.isNaN) : ∃ x ∈ numbers, result.equals x
  bounds (number : ¬ result.isNaN) : ∀ x ∈ numbers, ahead result x

section Ranked

variable {ahead : Number → Number → Bool} {better : Number → Number → Number}
  (ranking : Ranking ahead better)

include ranking

/-- One number more leaves a number that has been met and that is ahead of both. -/
theorem Ranking.better_spec {x y : Number} (first : ¬ x.isNaN) (second : ¬ y.isNaN) :
    (better x y = x ∨ better x y = y) ∧ ahead (better x y) x ∧ ahead (better x y) y := by
  obtain ⟨same, before⟩ | ⟨same, before⟩ := ranking.better_cases first second
  · exact ⟨.inl same, same.symm ▸ ranking.ahead_of_equals (equals_self first), same.symm ▸ before⟩
  · exact ⟨.inr same, same.symm ▸ before, same.symm ▸ ranking.ahead_of_equals (equals_self second)⟩

/-- What is kept in the end has been met and is ahead of all numbers that have been met. -/
theorem Ranking.foldl_spec {numbers : List Number} (all : ∀ x ∈ numbers, ¬ x.isNaN)
    {start : Number} (begins : ¬ start.isNaN) :
    (numbers.foldl better start = start ∨ numbers.foldl better start ∈ numbers) ∧
      ahead (numbers.foldl better start) start ∧
      ∀ x ∈ numbers, ahead (numbers.foldl better start) x := by
  induction numbers generalizing start with
  | nil => exact ⟨.inl rfl, ranking.ahead_of_equals (equals_self begins), by simp⟩
  | cons x rest induction =>
      obtain ⟨first, others⟩ := List.forall_mem_cons.mp all
      obtain ⟨one_of, before_start, before_x⟩ := ranking.better_spec begins first
      have kept : ¬ (better start x).isNaN := by
        obtain same | same := one_of <;> rwa [same]
      obtain ⟨met, before_kept, before_rest⟩ := induction others kept
      rw [List.foldl_cons]
      refine ⟨?_, ranking.trans before_kept before_start,
        List.forall_mem_cons.mpr ⟨ranking.trans before_kept before_x, before_rest⟩⟩
      obtain same | later := met
      · rw [same]
        exact one_of.imp_right fun is_x => by rw [is_x]; exact List.mem_cons_self
      · exact .inr (List.mem_cons_of_mem x later)

/-- From a number on that all others are ahead of, the extremum of the numbers is found. -/
theorem Ranking.isExtremum_extremum {start : Number} (begins : ¬ start.isNaN)
    (last : ∀ x, ¬ x.isNaN → ahead x start) (numbers : List Number) :
    IsExtremum ahead numbers (Builtin.extremum better start numbers) := by
  rw [Builtin.extremum]
  split
  · rename_i none_or_nan
    rw [Bool.or_eq_true, List.isEmpty_iff, List.any_eq_true] at none_or_nan
    exact ⟨⟨fun _ => none_or_nan, fun _ => rfl⟩, (absurd rfl ·), (absurd rfl ·)⟩
  · rename_i numbers_only
    rw [Bool.or_eq_true, List.isEmpty_iff, List.any_eq_true, not_or] at numbers_only
    obtain ⟨nonempty, no_nan⟩ := numbers_only
    have all : ∀ x ∈ numbers, ¬ x.isNaN := fun x listed nan => no_nan ⟨x, listed, nan⟩
    obtain ⟨met, -, before⟩ := ranking.foldl_spec all begins
    have number : ¬ (numbers.foldl better start).isNaN := by
      obtain same | listed := met
      · rwa [same]
      · exact all _ listed
    refine ⟨⟨(absurd · number), ?_⟩, fun _ => ?_, fun _ => before⟩
    · rintro (empty | nan)
      · exact absurd empty nonempty
      · exact absurd nan no_nan
    · obtain same | listed := met
      · -- Only a first number that is level with the start leaves the start in its place.
        obtain ⟨x, listed⟩ := List.exists_mem_of_ne_nil numbers nonempty
        have level := before x listed
        rw [same] at level ⊢
        exact ⟨x, listed, ranking.equals_of_ahead level (last x (all x listed))⟩
      · exact ⟨_, listed, equals_self number⟩

/-- The extremum does not depend on the order of the numbers. -/
theorem IsExtremum.alike {numbers others : List Number} {result other : Number}
    (first : IsExtremum ahead numbers result) (second : IsExtremum ahead others other)
    (same : numbers.Perm others) : result.equals other ∨ result.isNaN ∧ other.isNaN := by
  have nan_iff : result.isNaN ↔ other.isNaN := by
    rw [first.isNaN_iff, second.isNaN_iff]
    refine or_congr ⟨fun empty => ?_, fun empty => ?_⟩ ?_
    · exact List.nil_perm.mp (empty ▸ same)
    · exact List.perm_nil.mp (empty ▸ same)
    · simp only [same.mem_iff]
  by_cases nan : result.isNaN
  · exact .inr ⟨nan, nan_iff.mp nan⟩
  · have other_number : ¬ other.isNaN := (nan <| nan_iff.mpr ·)
    obtain ⟨x, listed, level⟩ := first.attained nan
    obtain ⟨y, also_listed, also_level⟩ := second.attained other_number
    refine .inl (ranking.equals_of_ahead ?_ ?_)
    · exact ranking.trans (first.bounds nan y (same.mem_iff.mpr also_listed))
        (ranking.ahead_of_equals (equals_comm also_level))
    · exact ranking.trans (second.bounds other_number x (same.mem_iff.mp listed))
        (ranking.ahead_of_equals (equals_comm level))

end Ranked
end Number

namespace Builtin

open Number (IsExtremum atLeast)

/--
The function finds the extremum of the numbers of its arguments, numerically the same one whatever
their order is.
-/
def FindsExtremum (builtin : Builtin) (ahead : Number → Number → Bool) : Prop :=
  ∀ arguments, ∃ result, builtin.apply arguments = .number result ∧
    IsExtremum ahead (arguments.map Value.toNumber) result ∧
    ∀ others, others.Perm arguments → ∃ other, builtin.apply others = .number other ∧
      (result.equals other ∨ result.isNaN ∧ other.isNaN)

private theorem findsExtremum_of_ranking {builtin : Builtin} {ahead : Number → Number → Bool}
    {better : Number → Number → Number} (ranking : Number.Ranking ahead better)
    {start : Number} (begins : ¬ start.isNaN) (last : ∀ x, ¬ x.isNaN → ahead x start)
    (applied : ∀ arguments, builtin.apply arguments =
      .number (extremum better start (arguments.map Value.toNumber))) :
    builtin.FindsExtremum ahead := by
  intro arguments
  have finds (arguments : List Value) := ranking.isExtremum_extremum begins last
    (arguments.map Value.toNumber)
  refine ⟨_, applied arguments, finds arguments, fun others same => ⟨_, applied others, ?_⟩⟩
  exact (finds arguments).alike ranking (finds others) (same.symm.map Value.toNumber)

/--
The least and the greatest of any arguments are a NaN exactly if there are none or one of them has
no number; otherwise the least is numerically one of their numbers and at most each of them, and the
greatest is one of them and at least each of them.  Neither depends on the order of the arguments.
-/
theorem min_max_extrema : Builtin.min.FindsExtremum Number.atMost ∧
    Builtin.max.FindsExtremum atLeast :=
  ⟨findsExtremum_of_ranking Number.ranking_min (by decide) (fun _ => Number.atMost_infinite)
      fun _ => rfl,
    findsExtremum_of_ranking Number.ranking_max (by decide) (fun _ => Number.infinite_atMost)
      fun _ => rfl⟩

end Builtin
end Formulary

import Mathlib.Data.List.Forall2
import Mathlib.Data.List.Perm.Basic
import Formulary.Fields

/-!
# Sorted tables

Inserting an entry keeps the keys of a table in increasing order, so that a normalized table has
each key once, with what the key stood for before.  A sorted table is determined by what its keys
stand for.
-/

namespace Formulary

/-- Whatever is listed on one of two sides that are paired has a partner on the other one. -/
theorem exists_partner {α β : Type} {related : α → β → Prop} {xs : List α} {ys : List β}
    (paired : List.Forall₂ related xs ys) {y : β} (listed : y ∈ ys) : ∃ x ∈ xs, related x y := by
  obtain ⟨index, below, rfl⟩ := List.getElem_of_mem listed
  have also : index < xs.length := paired.length_eq.symm ▸ below
  exact ⟨xs[index], List.getElem_mem also, paired.get also below⟩

namespace Fields

variable {α β : Type} {key : Text} {value : α} {fields : Fields α}

/-- The keys are in strictly increasing order of their bytes. -/
def Sorted (fields : Fields α) : Prop :=
  fields.Pairwise fun entry other => entry.1 < other.1

private theorem mem_of_mem_insert {entry : Text × α} (listed : entry ∈ fields.insert key value) :
    entry = (key, value) ∨ entry ∈ fields := by
  induction fields with
  | nil => exact .inl (List.mem_singleton.mp listed)
  | cons first rest induction =>
      obtain ⟨name, held⟩ := first
      rw [insert] at listed
      split at listed
      · exact List.mem_cons.mp listed
      · split at listed
        · exact (List.mem_cons.mp listed).imp_right (List.mem_cons_of_mem _)
        · rcases List.mem_cons.mp listed with rfl | later
          · exact .inr List.mem_cons_self
          · exact (induction later).imp_right (List.mem_cons_of_mem _)

private theorem Sorted.insert (sorted : fields.Sorted) (key : Text) (value : α) :
    (fields.insert key value).Sorted := by
  induction fields with
  | nil => exact List.pairwise_singleton _ _
  | cons first rest induction =>
      obtain ⟨name, held⟩ := first
      obtain ⟨above, rest_sorted⟩ := List.pairwise_cons.mp sorted
      rw [Fields.insert]
      split
      · rename_i below
        refine List.pairwise_cons.mpr ⟨List.forall_mem_cons.mpr ⟨below, ?_⟩, sorted⟩
        exact fun entry listed => List.lt_trans below (above entry listed)
      · rename_i not_below
        split
        · rename_i same
          exact List.pairwise_cons.mpr ⟨fun entry listed => same ▸ above entry listed, rest_sorted⟩
        · rename_i different
          refine List.pairwise_cons.mpr ⟨fun entry listed => ?_, induction rest_sorted⟩
          obtain rfl | before := mem_of_mem_insert listed
          · exact Std.lt_of_le_of_ne not_below (Ne.symm different)
          · exact above entry before

theorem sorted_normalize (fields : Fields α) : fields.normalize.Sorted := by
  induction fields with
  | nil => exact List.Pairwise.nil
  | cons entry rest induction => exact induction.insert entry.1 entry.2

theorem find?_normalize (fields : Fields α) (key : Text) :
    fields.normalize.find? key = fields.find? key := by
  induction fields with
  | nil => rfl
  | cons entry rest induction =>
      rw [normalize, List.foldr_cons, find?_insert, find?]
      exact ite_congr rfl (fun _ => rfl) fun _ => induction

private theorem Sorted.find?_of_mem (sorted : fields.Sorted) (listed : (key, value) ∈ fields) :
    fields.find? key = some value := by
  induction fields with
  | nil => cases listed
  | cons first rest induction =>
      obtain ⟨name, held⟩ := first
      obtain ⟨above, rest_sorted⟩ := List.pairwise_cons.mp sorted
      rw [find?]
      rcases List.mem_cons.mp listed with same | later
      · cases same
        rw [if_pos rfl]
      · have different : name ≠ key := fun same => List.lt_irrefl key (same ▸ above _ later)
        rw [if_neg different, induction rest_sorted later]

/-- What a normalized table lists is what the keys stand for. -/
theorem find?_of_mem_normalize (listed : (key, value) ∈ fields.normalize) :
    fields.find? key = some value :=
  find?_normalize fields key ▸ (sorted_normalize fields).find?_of_mem listed

theorem find?_mapValues (f : α → β) (fields : Fields α) (key : Text) :
    (fields.mapValues f).find? key = (fields.find? key).map f := by
  induction fields with
  | nil => rfl
  | cons first rest induction =>
      obtain ⟨name, held⟩ := first
      rw [mapValues, List.map_cons, find?, find?]
      split
      · rfl
      · exact induction

theorem mem_of_find? (found : fields.find? key = some value) : (key, value) ∈ fields := by
  induction fields with
  | nil => cases found
  | cons first rest induction =>
      obtain ⟨name, held⟩ := first
      rw [find?] at found
      split at found
      · rename_i same
        cases found
        exact same ▸ List.mem_cons_self
      · exact List.mem_cons_of_mem _ (induction found)

/-- A table lists nothing exactly if it has no keys. -/
theorem normalize_eq_nil_iff : fields.normalize = [] ↔ ∀ key, ¬ fields.contains key := by
  rw [List.eq_nil_iff_forall_not_mem]
  constructor
  · intro none_listed key held
    obtain ⟨value, found⟩ := Option.isSome_iff_exists.mp held
    exact none_listed (key, value) (mem_of_find? (by rw [find?_normalize, found]))
  · rintro no_keys ⟨key, value⟩ listed
    exact no_keys key (by rw [contains, find?_of_mem_normalize listed]; rfl)

theorem Sorted.mapValues (sorted : fields.Sorted) (f : α → β) : (fields.mapValues f).Sorted :=
  List.pairwise_map.mpr sorted

private theorem Sorted.mem_iff (sorted : fields.Sorted) :
    (key, value) ∈ fields ↔ fields.find? key = some value :=
  ⟨sorted.find?_of_mem, mem_of_find?⟩

/-- Sorted tables in which every key stands for the same are the same. -/
theorem Sorted.ext {others : Fields α} (sorted : fields.Sorted) (also : others.Sorted)
    (same : ∀ key, fields.find? key = others.find? key) : fields = others := by
  have once {table : Fields α} (sorted : table.Sorted) : table.Nodup := by
    refine List.Pairwise.imp ?_ sorted
    rintro entry _ below rfl
    exact List.lt_irrefl _ below
  have permuted : fields.Perm others := by
    rw [List.perm_ext_iff_of_nodup (once sorted) (once also)]
    rintro ⟨key, value⟩
    rw [sorted.mem_iff, also.mem_iff, same]
  refine permuted.eq_of_pairwise (fun entry other _ _ below above => ?_) sorted also
  exact absurd (List.lt_trans below above) (List.lt_irrefl _)

theorem normalize_mapValues (f : α → β) (fields : Fields α) :
    (fields.mapValues f).normalize = fields.normalize.mapValues f := by
  refine (sorted_normalize _).ext ((sorted_normalize fields).mapValues f) fun key => ?_
  rw [find?_normalize, find?_mapValues, find?_mapValues, find?_normalize]

private theorem contains_iff : fields.contains key ↔ ∃ value, fields.find? key = some value :=
  Option.isSome_iff_exists

theorem contains_normalize (fields : Fields α) (key : Text) :
    fields.normalize.contains key = fields.contains key := by
  rw [contains, contains, find?_normalize]

theorem contains_mapValues (f : α → β) (fields : Fields α) (key : Text) :
    (fields.mapValues f).contains key = fields.contains key := by
  rw [contains, contains, find?_mapValues, Option.isSome_map]

/-- Values that are made into the same things, under the same keys, are found as the same. -/
theorem find?_map_congr {γ : Type} {others : Fields β} {f : α → γ} {g : β → γ}
    (keys : fields.contains key ↔ others.contains key)
    (same : ∀ value other, fields.find? key = some value → others.find? key = some other →
      f value = g other) :
    (fields.find? key).map f = (others.find? key).map g := by
  cases found : fields.find? key with
  | none =>
      have absent : others.find? key = none := by
        rw [Option.eq_none_iff_forall_ne_some]
        intro other there
        obtain ⟨value, also⟩ := contains_iff.mp (keys.mpr (contains_iff.mpr ⟨other, there⟩))
        exact absurd (found.symm.trans also) nofun
      rw [absent]
      rfl
  | some value =>
      obtain ⟨other, there⟩ := contains_iff.mp (keys.mp (contains_iff.mpr ⟨value, found⟩))
      rw [there, Option.map_some, Option.map_some, same value other found there]

private theorem find?_append (fields others : Fields α) (key : Text) :
    find? key (fields ++ others) = (find? key fields).or (find? key others) := by
  induction fields with
  | nil => rfl
  | cons first rest induction =>
      obtain ⟨name, held⟩ := first
      rw [List.cons_append, find?, find?]
      split
      · rfl
      · exact induction

/-- Inserted entries count from the last one on. -/
theorem find?_ofList (entries : Fields α) (key : Text) :
    (ofList entries).find? key = find? key entries.reverse := by
  induction entries with
  | nil => rfl
  | cons entry rest induction =>
      rw [find?_ofList_cons, induction, List.reverse_cons, find?_append]
      rfl

theorem mem_of_find?_ofList {entries : Fields α}
    (found : (ofList entries).find? key = some value) : (key, value) ∈ entries :=
  List.mem_reverse.mp (mem_of_find? (find?_ofList entries key ▸ found))

private theorem exists_find?_of_mem (listed : (key, value) ∈ fields) :
    ∃ found, fields.find? key = some found := by
  induction fields with
  | nil => cases listed
  | cons first rest induction =>
      obtain ⟨name, held⟩ := first
      rw [find?]
      split
      · exact ⟨held, rfl⟩
      · rename_i different
        refine induction ((List.mem_cons.mp listed).resolve_left fun same => ?_)
        cases same
        exact different rfl

theorem contains_ofList_iff {entries : Fields α} :
    (ofList entries).contains key ↔ ∃ value, (key, value) ∈ entries := by
  rw [contains_iff]
  constructor
  · rintro ⟨value, found⟩
    exact ⟨value, mem_of_find?_ofList found⟩
  · rintro ⟨value, listed⟩
    rw [find?_ofList]
    exact exists_find?_of_mem (List.mem_reverse.mpr listed)

/-- Every key has one value, so that it does not matter which of its entries counts. -/
def SingleValued (fields : Fields α) : Prop :=
  ∀ key value other, (key, value) ∈ fields → (key, other) ∈ fields → value = other

end Fields
end Formulary

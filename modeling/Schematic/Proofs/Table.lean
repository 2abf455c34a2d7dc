import Mathlib.Data.List.Nodup
import Schematic.Table

/-! # Lookups in ordered tables -/

open List

namespace Schematic.Table

variable {κ α : Type} {key other : κ} {value : α} {table : Table κ α}

section Lookup

variable [DecidableEq κ]

theorem mem_of_find? (found : table.find? key = some value) : (key, value) ∈ table := by
  induction table with
  | nil => cases found
  | cons entry rest ih =>
    simp only [find?] at found
    split at found
    case isTrue same =>
      cases found
      exact same ▸ mem_cons_self ..
    case isFalse => exact mem_cons_of_mem _ (ih found)

theorem exists_find? (listed : key ∈ table.map Prod.fst) :
    ∃ value, table.find? key = some value := by
  induction table with
  | nil => cases listed
  | cons entry rest ih =>
    simp only [find?]
    by_cases same : key = entry.1
    · exact ⟨entry.2, if_pos same⟩
    · rw [if_neg same]
      exact ih ((mem_cons.mp listed).resolve_left same)

theorem mem_keys_of_find? (found : table.find? key = some value) : key ∈ table.map Prod.fst :=
  mem_map.mpr ⟨(key, value), mem_of_find? found, rfl⟩

theorem has_iff : table.has key = true ↔ key ∈ table.keys := by
  rw [has, Option.isSome_iff_exists]
  exact ⟨fun ⟨_, found⟩ => mem_keys_of_find? found, exists_find?⟩

end Lookup

section Order

variable [LT κ]

def Ordered (table : Table κ α) : Prop :=
  (table.map Prod.fst).Pairwise (· < ·)

theorem ordered_nil : Ordered ([] : Table κ α) := List.Pairwise.nil

theorem Ordered.nodup [Std.Irrefl fun a b : κ => a < b] (ordered : table.Ordered) :
    (table.map Prod.fst).Nodup := by
  refine List.Pairwise.imp ?_ ordered
  rintro first _ less rfl
  exact Std.Irrefl.irrefl (r := fun a b : κ => a < b) first less

end Order

section Insertion

variable [LT κ] [DecidableLT κ] [DecidableEq κ]

@[simp] theorem find?_insert_self (key : κ) (value : α) (table : Table κ α) :
    (table.insert key value).find? key = some value := by
  fun_induction insert key value table with
  | case1 => simp only [find?, ↓reduceIte]
  | case2 => simp only [find?, ↓reduceIte]
  | case3 => simp only [find?, ↓reduceIte]
  | case4 k v rest differ _ ih => simp only [find?, differ, ↓reduceIte, ih]

theorem find?_insert_of_ne (differ : other ≠ key) (value : α) (table : Table κ α) :
    (table.insert key value).find? other = table.find? other := by
  fun_induction insert key value table with
  | case1 => simp only [find?, differ, ↓reduceIte]
  | case2 => simp only [find?, differ, ↓reduceIte]
  | case3 => simp only [find?, differ, ↓reduceIte]
  | case4 k v rest _ _ ih => simp only [find?, ih]

theorem mem_keys_insert :
    other ∈ (table.insert key value).map Prod.fst ↔ other = key ∨ other ∈ table.map Prod.fst := by
  fun_induction insert key value table with
  | case1 => simp
  | case2 => simp
  | case3 => simp
  | case4 k v rest _ _ ih =>
    rw [map_cons, mem_cons, ih, map_cons, mem_cons, or_left_comm]

theorem Ordered.insert [Std.Trichotomous fun a b : κ => a < b]
    [Trans (fun a b : κ => a < b) (fun a b : κ => a < b) (fun a b : κ => a < b)]
    (ordered : table.Ordered) (key : κ) (value : α) : (table.insert key value).Ordered := by
  fun_induction Table.insert key value table with
  | case1 => exact pairwise_singleton ..
  | case2 => exact ordered
  | case3 k v rest _ less =>
    refine pairwise_cons.mpr ⟨?_, ordered⟩
    intro other listed
    obtain rfl | later := mem_cons.mp listed
    · exact less
    · exact Trans.trans less ((pairwise_cons.mp ordered).1 other later)
  | case4 k v rest differ notLess ih =>
    obtain ⟨below, rest⟩ := pairwise_cons.mp ordered
    refine pairwise_cons.mpr ⟨?_, ih rest⟩
    intro other listed
    obtain rfl | later := mem_keys_insert.mp listed
    · by_contra notGreater
      exact differ (Std.Trichotomous.trichotomous (r := fun a b : κ => a < b) _ _ notLess
        notGreater)
    · exact below other later

theorem mem_keys_insertAll {entries : List (κ × α)} : key ∈ (table.insertAll entries).map Prod.fst ↔
      key ∈ entries.map Prod.fst ∨ key ∈ table.map Prod.fst := by
  induction entries generalizing table with
  | nil => simp [insertAll]
  | cons entry entries ih =>
    have rest := @ih (table.insert entry.1 entry.2)
    rw [mem_keys_insert] at rest
    rw [map_cons, mem_cons, or_assoc, or_left_comm]
    exact rest

theorem find?_insertAll {entries : List (κ × α)}
    (found : (table.insertAll entries).find? key = some value) :
    (key, value) ∈ entries ∨ (key ∉ entries.map Prod.fst ∧ table.find? key = some value) := by
  induction entries generalizing table with
  | nil => exact .inr ⟨not_mem_nil, found⟩
  | cons entry entries ih =>
    obtain later | ⟨absent, found⟩ := ih found
    · exact .inl (mem_cons_of_mem _ later)
    · by_cases same : key = entry.1
      · subst same
        rw [find?_insert_self] at found
        exact .inl (mem_cons.mpr (.inl (by rw [← Option.some.inj found])))
      · rw [find?_insert_of_ne same] at found
        refine .inr ⟨?_, found⟩
        rw [map_cons, mem_cons, not_or]
        exact ⟨same, absent⟩

theorem Ordered.insertAll [Std.Trichotomous fun a b : κ => a < b]
    [Trans (fun a b : κ => a < b) (fun a b : κ => a < b) (fun a b : κ => a < b)]
    (ordered : table.Ordered) (entries : List (κ × α)) : (table.insertAll entries).Ordered := by
  induction entries generalizing table with
  | nil => exact ordered
  | cons entry entries ih => exact ih (ordered.insert entry.1 entry.2)

end Insertion

end Schematic.Table

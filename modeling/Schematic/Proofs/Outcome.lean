import Mathlib.Data.List.Forall2

/-! # Computations that may fail

What a result says about the steps that gave it, for computations with an error or without a result.
-/

open List

namespace Schematic

variable {α β ε : Type}

theorem exists_ok_of_bind {first : Except ε α} {next : α → Except ε β} {result : β}
    (passed : (first >>= next) = .ok result) :
    ∃ value, first = .ok value ∧ next value = .ok result := by
  cases first with
  | error fault => cases passed
  | ok value => exact ⟨value, rfl, passed⟩

theorem mapM_eq_pure_map {m : Type → Type} [Monad m] [LawfulMonad m] {step : α → m β}
    {result : α → β} {items : List α} (each : ∀ item ∈ items, step item = pure (result item)) :
    items.mapM step = pure (items.map result) := by
  induction items with
  | nil => rfl
  | cons item items ih =>
    have rest := ih fun item member => each item (mem_cons_of_mem _ member)
    have first := each item (mem_cons_self ..)
    simp [mapM_cons, first, rest]

theorem forall₂_of_mapM {step : α → Except ε β} {items : List α} {results : List β}
    (gave : items.mapM step = .ok results) :
    List.Forall₂ (fun item result => step item = .ok result) items results := by
  induction items generalizing results with
  | nil =>
    rw [mapM_nil] at gave
    cases gave
    exact .nil
  | cons item items ih =>
    rw [mapM_cons] at gave
    obtain ⟨result, first, gave⟩ := exists_ok_of_bind gave
    obtain ⟨others, rest, gave⟩ := exists_ok_of_bind gave
    cases gave
    exact .cons first (ih rest)

theorem exists_of_forall₂ {related : α → β → Prop} {items : List α} {results : List β}
    (each : List.Forall₂ related items results) {result : β} (member : result ∈ results) :
    ∃ item ∈ items, related item result := by
  induction each with
  | nil => cases member
  | @cons item first items results here _ ih =>
    obtain rfl | member := mem_cons.mp member
    · exact ⟨item, mem_cons_self .., here⟩
    · obtain ⟨other, listed, there⟩ := ih member
      exact ⟨other, mem_cons_of_mem _ listed, there⟩

theorem exists_zip_of_forall₂ {related : α → β → Prop} {items : List α} {results : List β}
    (each : List.Forall₂ related items results) {item : α} (listed : item ∈ items) :
    ∃ result, (item, result) ∈ items.zip results ∧ related item result := by
  induction each with
  | nil => cases listed
  | @cons first result items results here _ ih =>
    obtain rfl | listed := mem_cons.mp listed
    · exact ⟨result, mem_cons_self .., here⟩
    · obtain ⟨other, paired, there⟩ := ih listed
      exact ⟨other, mem_cons_of_mem _ paired, there⟩

end Schematic

import Schematic.Proofs.Naming.Registry

/-! # Unique names

What a sequence of requests for names that are not taken yet is given. -/

open List

namespace Schematic.Naming

open Text

variable {taken : List String} {name : String} {number : Nat}

/-- The search for a name that is not taken, candidate by candidate from a number on. -/
inductive Settles (taken : List String) (name : String) : Nat → String → Prop where
  | here {number : Nat} (free : lower (candidate name number) ∉ taken) :
    Settles taken name number (candidate name number)
  | further {number : Nat} {chosen : String} (occupied : lower (candidate name number) ∈ taken)
    (next : Settles taken name (number + 1) chosen) : Settles taken name number chosen

theorem settles_of_least (free : lower (candidate name number) ∉ taken)
    (least : ∀ smaller < number, lower (candidate name smaller) ∈ taken) :
    Settles taken name 0 (candidate name number) := by
  have behind : ∀ rounds ≤ number,
      Settles taken name (number - rounds) (candidate name number) := by
    intro rounds within
    induction rounds with
    | zero => exact .here free
    | succ rounds ih =>
      refine .further (least _ (by omega)) ?_
      rw [(by omega : number - (rounds + 1) + 1 = number - rounds)]
      exact ih (by omega)
  simpa using behind number (Nat.le_refl _)

theorem takeUnique_spec (taken : List String) (name : String) :
    ∃ number, takeUnique taken name =
        (candidate name number, lower (candidate name number) :: taken) ∧
      Settles taken name 0 (candidate name number) ∧ lower (candidate name number) ∉ taken ∧
      ∀ smaller < number, lower (candidate name smaller) ∈ taken := by
  obtain ⟨number, chosen, free, least⟩ := firstFree_spec (fun key => contains_iff_mem) name
  refine ⟨number, ?_, settles_of_least free least, free, least⟩
  rw [← chosen]
  rfl

/-- The names given to a sequence of requests, and the keys that are taken behind it. -/
def takeAll (taken : List String) : List String → List String × List String
  | [] => ([], taken)
  | name :: rest =>
    let given := takeUnique taken name
    let others := takeAll given.2 rest
    (given.1 :: others.1, others.2)

theorem takeAll_append (taken past rest : List String) :
    takeAll taken (past ++ rest) =
      ((takeAll taken past).1 ++ (takeAll (takeAll taken past).2 rest).1,
        (takeAll (takeAll taken past).2 rest).2) := by
  induction past generalizing taken with
  | nil => rfl
  | cons name past ih => simp only [cons_append, takeAll, ih]

theorem takeAll_apart (taken names : List String) :
    ((takeAll taken names).1.map lower).Nodup ∧
    (∀ name ∈ (takeAll taken names).1, lower name ∉ taken) ∧
    (∀ key, key ∈ (takeAll taken names).2 ↔
      key ∈ taken ∨ key ∈ (takeAll taken names).1.map lower) ∧
    (takeAll taken names).1.length = names.length := by
  induction names generalizing taken with
  | nil => simp [takeAll]
  | cons name rest ih =>
    obtain ⟨number, step, _, free, _⟩ := takeUnique_spec taken name
    obtain ⟨apart, fresh, kept, count⟩ := ih (lower (candidate name number) :: taken)
    simp only [takeAll, step, map_cons, nodup_cons, forall_mem_cons, length_cons, count]
    refine ⟨⟨fun listed => ?_, apart⟩, ⟨free, fun other listed taken => ?_⟩, fun key => ?_, trivial⟩
    · obtain ⟨other, listed, same⟩ := mem_map.mp listed
      exact fresh other listed (same ▸ mem_cons_self ..)
    · exact fresh other listed (mem_cons_of_mem _ taken)
    · rw [kept, mem_cons, mem_cons, or_assoc, or_left_comm]

/-- **Unique names.** The names given to a sequence of requests differ from one another and from the
keys taken before, case ignored, and behind it exactly their keys are taken besides. The search of
each request ends, at its name or at the name with the lowest number that is free at that point. -/
theorem names_never_repeat (taken names : List String) :
    let given := (takeAll taken names).1
    (given.map lower).Nodup ∧ (∀ name ∈ given, lower name ∉ taken) ∧
    (∀ key, key ∈ (takeAll taken names).2 ↔ key ∈ taken ∨ key ∈ given.map lower) ∧
    given.length = names.length ∧
    ∀ past name rest, names = past ++ name :: rest → ∃ number behind,
      given = (takeAll taken past).1 ++ candidate name number :: behind ∧
      Settles (takeAll taken past).2 name 0 (candidate name number) ∧
      lower (candidate name number) ∉ (takeAll taken past).2 ∧
      ∀ smaller < number, lower (candidate name smaller) ∈ (takeAll taken past).2 := by
  intro given
  obtain ⟨apart, fresh, kept, count⟩ := takeAll_apart taken names
  refine ⟨apart, fresh, kept, count, ?_⟩
  rintro past name rest rfl
  obtain ⟨number, step, settles, free, least⟩ := takeUnique_spec (takeAll taken past).2 name
  have split : given = (takeAll taken past).1 ++ candidate name number ::
      (takeAll (lower (candidate name number) :: (takeAll taken past).2) rest).1 := by
    simp only [given, takeAll_append, takeAll, step]
  exact ⟨number, _, split, settles, free, least⟩

end Schematic.Naming

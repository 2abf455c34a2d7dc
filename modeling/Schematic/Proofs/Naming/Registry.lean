import Mathlib.Data.List.Nodup
import Mathlib.Data.List.Perm.Subperm
import Schematic.Naming.Registry
import Schematic.Proofs.Text.Numeral

/-! # Given names -/

open List

namespace Schematic

theorem mem_of_lookup {α β : Type} [BEq α] [LawfulBEq α] {entries : List (α × β)} {key : α}
    {value : β} (found : entries.lookup key = some value) : (key, value) ∈ entries := by
  obtain ⟨_, _, split, _⟩ := lookup_eq_some_iff.mp found
  rw [split]
  exact mem_append_right _ (mem_cons_self ..)

namespace Naming

open Text

theorem candidate_succ (name : String) (number : Nat) :
    candidate name (number + 1) = name ++ "_" ++ toString (number + 1) := rfl

theorem length_lower (text : String) : (lower text).length = text.length := by
  simp only [← String.length_toList, toList_lower, length_map]

theorem lower_candidate_inj {name : String} {m n : Nat}
    (same : lower (candidate name m) = lower (candidate name n)) : m = n := by
  have longer : ∀ k, lower (candidate name 0) ≠ lower (candidate name (k + 1)) := by
    intro k same
    have lengths := congrArg String.length same
    rw [length_lower, length_lower, candidate_succ, candidate, String.length_append,
      String.length_append] at lengths
    have underscore : "_".length = 1 := rfl
    omega
  cases m with
  | zero =>
    cases n with
    | zero => rfl
    | succ n => exact absurd same (longer n)
  | succ m =>
    cases n with
    | zero => exact absurd same.symm (longer m)
    | succ n =>
      rw [candidate_succ, candidate_succ, lower_numbered, lower_numbered] at same
      exact (numbered_inj same).2

theorem exists_free_candidate (name : String) (taken : List String) :
    ∃ number ∈ List.range (taken.length + 1), lower (candidate name number) ∉ taken := by
  -- Otherwise all of these candidates, which differ, would be taken names.
  by_contra crowded
  have within : (List.range (taken.length + 1)).map (fun number => lower (candidate name number)) ⊆
      taken := by
    intro key member
    obtain ⟨number, listed, rfl⟩ := mem_map.mp member
    by_contra free
    exact crowded ⟨number, listed, free⟩
  have apart : ((List.range (taken.length + 1)).map fun number =>
      lower (candidate name number)).Nodup :=
    nodup_range.map fun _ _ same => lower_candidate_inj same
  have count := (subperm_of_subset apart within).length_le
  rw [length_map, length_range] at count
  omega

theorem firstFree_spec {isTaken : String → Bool} {taken : List String}
    (sound : ∀ key, isTaken key = true ↔ key ∈ taken) (name : String) :
    ∃ number, firstFree isTaken taken.length name = candidate name number ∧
      lower (candidate name number) ∉ taken ∧
      ∀ smaller < number, lower (candidate name smaller) ∈ taken := by
  simp only [firstFree]
  cases found : (List.range (taken.length + 1)).find? fun number =>
      !isTaken (lower (candidate name number)) with
  | none =>
    obtain ⟨number, listed, free⟩ := exists_free_candidate name taken
    have occupied := List.find?_eq_none.mp found number listed
    rw [Bool.not_eq_true', Bool.not_eq_false, sound] at occupied
    exact absurd occupied free
  | some number =>
    obtain ⟨free, _, least⟩ := List.find?_range_eq_some.mp found
    rw [Bool.not_eq_true', ← Bool.not_eq_true, sound] at free
    refine ⟨number, rfl, free, fun smaller less => ?_⟩
    simpa only [Bool.not_not, sound] using least smaller less

theorem takeUnique_free (taken : List String) (name : String) :
    ∃ number, (takeUnique taken name).1 = candidate name number ∧
      lower (takeUnique taken name).1 ∉ taken := by
  have sound : ∀ key, taken.contains key = true ↔ key ∈ taken := fun key => contains_iff_mem
  obtain ⟨number, chosen, free, _⟩ := firstFree_spec sound name
  refine ⟨number, chosen, ?_⟩
  rwa [← chosen] at free

namespace Registry

variable {registry later : Registry} {name signature module : String}

def taken (registry : Registry) : List String :=
  registry.reserved ++ registry.claims.map fun claim => lower claim.2

theorem isTaken_iff (registry : Registry) (key : String) :
    registry.isTaken key = true ↔ key ∈ registry.taken := by
  simp only [isTaken, taken, Bool.or_eq_true, contains_iff_mem, any_eq_true, beq_iff_eq,
    mem_append, mem_map]

theorem claim_eq_ok (claimed : registry.claim name signature = .ok (module, later)) :
    (registry.claims.lookup signature = some module ∧ later = registry) ∨
      (registry.claims.lookup signature = none ∧ lower module ∉ registry.taken ∧
        (∃ number, module = candidate name number ∧
          ∀ smaller < number, lower (candidate name smaller) ∈ registry.taken) ∧
        later = { registry with claims := (signature, module) :: registry.claims }) := by
  simp only [claim] at claimed
  split at claimed
  case h_1 given known =>
    cases claimed
    exact .inl ⟨known, rfl⟩
  case h_2 unknown =>
    split at claimed
    · cases claimed
    -- The search bound counts the taken names, so it is long enough to find a free one.
    have bound : registry.reserved.length + registry.claims.length = registry.taken.length := by
      simp only [taken, length_append, length_map]
    obtain ⟨number, chosen, free, least⟩ := firstFree_spec registry.isTaken_iff name
    rw [bound, chosen] at claimed
    cases claimed
    exact .inr ⟨unknown, free, ⟨number, rfl, least⟩, rfl⟩

theorem exists_claim (free : lower name ∉ registry.reserved) (signature : String) :
    ∃ module later, registry.claim name signature = .ok (module, later) := by
  rw [← contains_iff_mem, Bool.not_eq_true] at free
  simp only [claim]
  split
  · exact ⟨_, _, rfl⟩
  · rw [if_neg (Bool.eq_false_iff.mp free)]
    exact ⟨_, _, rfl⟩

theorem not_reserved_of_claim (unknown : registry.claims.lookup signature = none)
    (claimed : registry.claim name signature = .ok (module, later)) :
    lower name ∉ registry.reserved := by
  intro reserved
  rw [← contains_iff_mem] at reserved
  simp only [claim, unknown, if_pos reserved] at claimed
  cases claimed

theorem claim_eq_error {refused : ReservedName}
    (claimed : registry.claim name signature = .error refused) :
    registry.claims.lookup signature = none ∧ lower name ∈ registry.reserved ∧
      refused = ⟨name⟩ := by
  simp only [claim] at claimed
  split at claimed
  case h_1 => cases claimed
  case h_2 unknown =>
    split at claimed
    case isTrue taken =>
      cases claimed
      exact ⟨unknown, contains_iff_mem.mp taken, rfl⟩
    case isFalse => cases claimed

structure Sound (registry : Registry) : Prop where
  signatures : (registry.claims.map Prod.fst).Nodup
  names : (registry.claims.map fun claim => lower claim.2).Nodup

theorem sound_empty (reserved : List String) : (empty reserved).Sound :=
  ⟨.nil, .nil⟩

def Extends (later earlier : Registry) : Prop :=
  ∀ claim ∈ earlier.claims, claim ∈ later.claims

variable {registry later : Registry} {name signature module : String}

theorem Sound.of_claim (sound : registry.Sound)
    (claimed : registry.claim name signature = .ok (module, later)) : later.Sound := by
  obtain ⟨_, rfl⟩ | ⟨unknown, free, _, rfl⟩ := claim_eq_ok claimed
  · exact sound
  · refine ⟨nodup_cons.mpr ⟨?_, sound.signatures⟩, nodup_cons.mpr ⟨?_, sound.names⟩⟩
    · intro member
      obtain ⟨claim, listed, same⟩ := mem_map.mp member
      exact absurd (lookup_eq_none_iff.mp unknown claim listed) (by simp [same])
    · intro member
      exact free (mem_append_right _ member)

theorem extends_of_claim (claimed : registry.claim name signature = .ok (module, later)) :
    later.Extends registry := by
  obtain ⟨_, rfl⟩ | ⟨_, _, _, rfl⟩ := claim_eq_ok claimed
  · exact fun _ member => member
  · exact fun _ member => mem_cons_of_mem _ member

theorem mem_of_claim (claimed : registry.claim name signature = .ok (module, later)) :
    (signature, module) ∈ later.claims := by
  obtain ⟨known, rfl⟩ | ⟨_, _, _, rfl⟩ := claim_eq_ok claimed
  · exact mem_of_lookup known
  · exact mem_cons_self ..

theorem Sound.signature_unique (sound : registry.Sound) {first second : String × String}
    (firstGiven : first ∈ registry.claims) (secondGiven : second ∈ registry.claims)
    (same : lower first.2 = lower second.2) : first = second :=
  inj_on_of_nodup_map sound.names firstGiven secondGiven same

theorem Sound.name_eq_iff (sound : registry.Sound) {other otherModule : String}
    (given : (signature, module) ∈ registry.claims)
    (otherGiven : (other, otherModule) ∈ registry.claims) :
    module = otherModule ↔ signature = other := by
  constructor
  · intro same
    have claims := sound.signature_unique given otherGiven (by rw [same])
    exact congrArg Prod.fst claims
  · intro same
    have claims := inj_on_of_nodup_map sound.signatures given otherGiven same
    exact congrArg Prod.snd claims

/-- What each of a sequence of claims asks for and is answered. -/
def log (registry : Registry) : List (String × String) →
    List (String × String × Except ReservedName String)
  | [] => []
  | (name, signature) :: rest =>
    match registry.claim name signature with
    | .ok (module, later) => (name, signature, .ok module) :: log later rest
    | .error refused => (name, signature, .error refused) :: log registry rest

/-- The registry behind a sequence of claims. -/
def after (registry : Registry) : List (String × String) → Registry
  | [] => registry
  | (name, signature) :: rest =>
    match registry.claim name signature with
    | .ok (_, later) => later.after rest
    | .error _ => registry.after rest

variable {past rest : List (String × String)}

theorem log_append (registry : Registry) (past rest : List (String × String)) :
    registry.log (past ++ rest) = registry.log past ++ (registry.after past).log rest := by
  induction past generalizing registry with
  | nil => rfl
  | cons request past ih =>
    rw [cons_append, log, log, after]
    split <;> rw [ih, cons_append]

theorem map_log (registry : Registry) (requests : List (String × String)) :
    (registry.log requests).map (fun entry => (entry.1, entry.2.1)) = requests := by
  induction requests generalizing registry with
  | nil => rfl
  | cons request requests ih =>
    rw [log]
    split <;> rw [map_cons, ih]

/-- What a sequence of claims leaves: its granted names, next to those there before. -/
structure Leaves (registry : Registry) (requests : List (String × String)) (later : Registry) :
    Prop where
  reserved : later.reserved = registry.reserved
  claims : ∀ signature module, (signature, module) ∈ later.claims ↔
    (signature, module) ∈ registry.claims ∨
      ∃ name, (name, signature, .ok module) ∈ registry.log requests
  sound : registry.Sound → later.Sound
  unreserved : (∀ claim ∈ registry.claims, lower claim.2 ∉ registry.reserved) →
    ∀ claim ∈ later.claims, lower claim.2 ∉ later.reserved

theorem leaves_after (registry : Registry) (requests : List (String × String)) :
    registry.Leaves requests (registry.after requests) := by
  induction requests generalizing registry with
  | nil => exact ⟨rfl, by simp [after, log], id, id⟩
  | cons request requests ih =>
    obtain ⟨name, signature⟩ := request
    rw [after]
    cases claimed : registry.claim name signature with
    | error refused =>
      obtain ⟨reserved, claims, sound, unreserved⟩ := ih registry
      exact ⟨reserved, by simp [claims, log, claimed], sound, unreserved⟩
    | ok granted =>
      obtain ⟨module, later⟩ := granted
      obtain ⟨reserved, claims, sound, unreserved⟩ := ih later
      obtain ⟨known, rfl⟩ | ⟨_, free, _, rfl⟩ := claim_eq_ok claimed
      · refine ⟨reserved, fun other given => ?_, sound, unreserved⟩
        have listed := mem_of_lookup known
        simp only [claims, log, claimed, mem_cons, Prod.mk.injEq, Except.ok.injEq]
        grind
      · refine ⟨reserved, fun other given => ?_, fun before => sound (before.of_claim claimed),
          fun before => unreserved (forall_mem_cons.mpr ⟨?_, before⟩)⟩
        · simp only [claims, log, claimed, mem_cons, Prod.mk.injEq, Except.ok.injEq]
          grind
        · exact fun listed => free (mem_append_left _ listed)

/-- A signature that some claim of a sequence was granted a name for. -/
def Granted (log : List (String × String × Except ReservedName String)) (signature : String) :
    Prop :=
  ∃ name module, (name, signature, .ok module) ∈ log

/-- A key that is reserved, or that of a name granted in a sequence of claims. -/
def Occupied (reserved : List String) (log : List (String × String × Except ReservedName String))
    (key : String) : Prop :=
  key ∈ reserved.map lower ∨ ∃ name signature module, (name, signature, .ok module) ∈ log ∧
    lower module = key

theorem mem_taken_after (reserved : List String) (past : List (String × String)) (key : String) :
    key ∈ ((empty reserved).after past).taken ↔
      Occupied reserved ((empty reserved).log past) key := by
  obtain ⟨kept, claims, _⟩ := leaves_after (empty reserved) past
  simp only [taken, mem_append, kept, mem_map, Prod.exists, claims, Occupied]
  simp only [empty, not_mem_nil, false_or, mem_map]
  grind

theorem lookup_after_eq_none (reserved : List String) (past : List (String × String))
    (signature : String) : ((empty reserved).after past).claims.lookup signature = none ↔
      ¬Granted ((empty reserved).log past) signature := by
  obtain ⟨_, claims, _⟩ := leaves_after (empty reserved) past
  simp only [lookup_eq_none_iff, Prod.forall, claims, Granted]
  simp only [empty, not_mem_nil, false_or]
  grind

/-- **Registry discipline.** On a new registry every claim is answered, by a name or a refusal. Two
granted names are equal, case ignored, exactly if their signatures are, and then they are identical.
No granted name is reserved. A claim is refused exactly if its signature was not granted a name
before and its name is reserved, and then all else is as without it. The first name for a signature
is the claimed one with the lowest number that is neither reserved nor granted. -/
theorem claims_disciplined (reserved : List String) (requests : List (String × String)) :
    let log := (empty reserved).log
    (log requests).map (fun entry => (entry.1, entry.2.1)) = requests ∧
    (∀ name signature module other second given, (name, signature, .ok module) ∈ log requests →
      (other, second, .ok given) ∈ log requests →
      (lower module = lower given ↔ signature = second) ∧ (signature = second → module = given)) ∧
    (∀ name signature module, (name, signature, .ok module) ∈ log requests →
      lower module ∉ reserved.map lower) ∧
    ∀ past name signature rest, requests = past ++ (name, signature) :: rest → ∃ answer behind,
      log requests = log past ++ (name, signature, answer) :: behind ∧
      (answer = .error ⟨name⟩ ↔
        ¬Granted (log past) signature ∧ lower name ∈ reserved.map lower) ∧
      (∀ refused, answer = .error refused →
        refused = ⟨name⟩ ∧ log (past ++ rest) = log past ++ behind) ∧
      ∀ module, answer = .ok module → ¬Granted (log past) signature → ∃ number,
        module = candidate name number ∧ ¬Occupied reserved (log past) (lower module) ∧
        ∀ smaller < number, Occupied reserved (log past) (lower (candidate name smaller)) := by
  intro log
  obtain ⟨kept, claims, sound, unreserved⟩ := leaves_after (empty reserved) requests
  have sound := sound (sound_empty reserved)
  have listed : ∀ {name signature module}, (name, signature, .ok module) ∈ log requests →
      (signature, module) ∈ ((empty reserved).after requests).claims :=
    fun member => (claims ..).mpr (.inr ⟨_, member⟩)
  refine ⟨map_log .., fun name signature module other second given one two => ?_,
    fun name signature module one => ?_, ?_⟩
  · refine ⟨⟨fun same => ?_, fun same => ?_⟩, (sound.name_eq_iff (listed one) (listed two)).mpr⟩
    · exact congrArg Prod.fst (sound.signature_unique (listed one) (listed two) same)
    · rw [(sound.name_eq_iff (listed one) (listed two)).mpr same]
  · have free := unreserved (by simp [empty]) _ (listed one)
    rwa [kept] at free
  · rintro past name signature rest rfl
    have reservations := (leaves_after (empty reserved) past).reserved
    simp only [log, log_append, ← lookup_after_eq_none, ← mem_taken_after]
    generalize (empty reserved).after past = registry at reservations ⊢
    have keys : lower name ∈ reserved.map lower ↔ lower name ∈ registry.reserved := by
      rw [reservations]
      rfl
    rw [keys]
    cases claimed : registry.claim name signature with
    | error refused =>
      obtain ⟨unknown, taken, rfl⟩ := claim_eq_error claimed
      refine ⟨.error ⟨name⟩, registry.log rest, by simp [Registry.log, claimed],
        by simp [unknown, taken], fun refused same => ?_, fun module same => by cases same⟩
      cases same
      exact ⟨rfl, rfl⟩
    | ok granted =>
      obtain ⟨module, later⟩ := granted
      refine ⟨.ok module, later.log rest, by simp [Registry.log, claimed], ?_,
        fun refused same => (by cases same), fun given same unknown => ?_⟩
      · refine iff_of_false (fun same => by cases same) fun ⟨unknown, taken⟩ => ?_
        exact not_reserved_of_claim unknown claimed taken
      · cases same
        obtain ⟨known, _⟩ | ⟨_, free, ⟨number, form, least⟩, _⟩ := claim_eq_ok claimed
        · rw [unknown] at known
          cases known
        · exact ⟨number, form, free, least⟩

end Registry

end Naming

end Schematic

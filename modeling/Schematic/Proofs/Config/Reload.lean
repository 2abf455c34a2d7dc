import Schematic.Config.Sources
import Schematic.Proofs.Json.Written
import Schematic.Proofs.Table

/-! # Reloading saved configurations -/

open List

namespace Schematic

open Json (Decoder Readable)

theorem Word.digitsValue?_toDigits (n : Nat) : digitsValue? 10 (Nat.toDigits 10 n) = some n := by
  induction n using Nat.strongRecOn with
  | ind n ih =>
    have digit : ∀ d < 10, digitValue? 10 (Nat.digitChar d) = some d := by decide
    rw [Nat.toDigits_eq_if (by omega)]
    split
    case isTrue small => simp [digitsValue?, digit n small]
    case isFalse large =>
      have front := ih (n / 10) (by omega)
      rw [digitsValue?] at front
      simp only [digitsValue?, foldl_append, front, foldl_cons, foldl_nil, Option.bind_some,
        digit (n % 10) (by omega), Option.map_some]
      congr 1
      omega

theorem Word.readUnsigned?_toDigits {n bound : Nat} (small : n ≤ bound) :
    readUnsigned? 10 bound (Nat.toDigits 10 n) = some n := by
  rw [readUnsigned?, if_neg (by simp [Nat.toDigits_ne_nil]), digitsValue?_toDigits]
  simp [small]

theorem Word.readDecimal?_toString {n : Int} (fitting : fits n = true) :
    readDecimal? (toString n).toList = some n := by
  have range := fits_iff.mp fitting
  simp only [least, greatest] at range
  cases n with
  | ofNat n =>
    have text : (toString (Int.ofNat n)).toList = Nat.toDigits 10 n := by
      simp only [Int.toString_eq_repr, Int.repr, Nat.toList_repr]
    have unsigned : readSign (Nat.toDigits 10 n) = (false, Nat.toDigits 10 n) := by
      rw [readSign.eq_def]
      split
      case _ start => exact absurd start (Text.toDigits_ne_minus_cons n _)
      case _ start =>
        have digit := Nat.isDigit_of_mem_toDigits (b := 10) (by omega) (by omega)
          (start ▸ mem_cons_self .. : '+' ∈ Nat.toDigits 10 n)
        cases digit
      case _ => rfl
    rw [Int.ofNat_eq_natCast] at *
    rw [text, readDecimal?, unsigned]
    dsimp only
    rw [readUnsigned?_toDigits (by omega), Option.bind_some, signed?, if_neg Bool.false_ne_true,
      if_pos fitting]
  | negSucc n =>
    have value : Int.negSucc n = -((n + 1 : Nat) : Int) := rfl
    have text : (toString (Int.negSucc n)).toList = '-' :: Nat.toDigits 10 (n + 1) := by
      simp only [Int.toString_eq_repr, Int.repr, String.toList_append, Nat.toList_repr]
      rfl
    rw [text, readDecimal?, readSign]
    dsimp only
    rw [readUnsigned?_toDigits (by omega), Option.bind_some, signed?, if_pos rfl, ← value,
      if_pos fitting]

theorem Table.insert_last {κ α : Type} [LT κ] [DecidableLT κ] [DecidableEq κ]
    [Std.Asymm fun a b : κ => a < b] {table : Table κ α} {key : κ}
    (last : ∀ other ∈ table.map Prod.fst, other < key) (value : α) :
    table.insert key value = table ++ [(key, value)] := by
  induction table with
  | nil => rfl
  | cons entry table ih =>
    rw [map_cons, forall_mem_cons] at last
    have later : ¬ key < entry.1 := Std.Asymm.asymm (r := fun a b : κ => a < b) _ _ last.1
    have other : key ≠ entry.1 := fun same => later (same ▸ last.1)
    rw [insert, if_neg other, if_neg later, ih last.2, cons_append]

theorem Table.insertAll_of_ordered {κ α : Type} [LT κ] [DecidableLT κ] [DecidableEq κ]
    [Std.Asymm fun a b : κ => a < b] {table entries : Table κ α}
    (ordered : Ordered (table ++ entries)) :
    table.insertAll entries = table ++ entries := by
  induction entries generalizing table with
  | nil => rw [append_nil]; rfl
  | cons entry entries ih =>
    have last : ∀ other ∈ table.map Prod.fst, other < entry.1 := by
      intro other listed
      rw [Ordered, map_append, pairwise_append] at ordered
      exact ordered.2.2 other listed entry.1 (mem_cons_self ..)
    have inserted := insert_last last entry.2
    have rest : Ordered (table.insert entry.1 entry.2 ++ entries) := by
      rwa [inserted, append_assoc, singleton_append]
    exact (ih rest).trans (by rw [inserted, append_assoc, singleton_append])

namespace Json.Decoder

variable {α : Type}

theorem record_induct {P : α → Prop} {member : String → Decoder α}
    (step : ∀ {name old value new}, P old → member name old value = some new → P new)
    {old new : α} {json : Json} (start : P old) (decoded : record member old json = some new) :
    P new := by
  cases json with
  | null =>
    cases decoded
    exact start
  | object members =>
    rw [record] at decoded
    induction members generalizing old with
    | nil =>
      cases decoded
      exact start
    | cons entry members ih =>
      rw [foldlM_cons] at decoded
      obtain ⟨next, first, rest⟩ := Option.bind_eq_some_iff.mp decoded
      exact ih (step start first) rest
  | bool => cases decoded
  | number => cases decoded
  | string => cases decoded
  | array => cases decoded

theorem fits_of_integer {old new : Int} {json : Json} (start : Word.fits old = true)
    (decoded : integer old json = some new) : Word.fits new = true := by
  cases json with
  | null =>
    cases decoded
    exact start
  | number numeral =>
    rw [integer, Word.readDecimal?] at decoded
    generalize Word.readSign numeral.toList = parts at decoded
    obtain ⟨magnitude, -, signed⟩ := Option.bind_eq_some_iff.mp decoded
    obtain ⟨fitting, same⟩ := Option.ite_none_right_eq_some.mp signed
    cases same
    exact fitting
  | bool => cases decoded
  | string => cases decoded
  | array => cases decoded
  | object => cases decoded

theorem ordered_of_texts {old new : Table String String} {json : Json} (start : old.Ordered)
    (decoded : texts old json = some new) : new.Ordered := by
  cases json with
  | null =>
    cases decoded
    exact Table.ordered_nil
  | object members =>
    rw [texts] at decoded
    induction members generalizing old with
    | nil =>
      cases decoded
      exact start
    | cons entry members ih =>
      rw [foldlM_cons] at decoded
      obtain ⟨next, first, rest⟩ := Option.bind_eq_some_iff.mp decoded
      obtain ⟨value, -, inserted⟩ := Option.bind_eq_some_iff.mp first
      cases inserted
      exact ih (start.insert entry.1 value) rest
  | bool => cases decoded
  | number => cases decoded
  | string => cases decoded
  | array => cases decoded

theorem items_strings (entries : List String) :
    items "" text [] (entries.map .string) = some entries := by
  induction entries with
  | nil => rfl
  | cons entry entries ih =>
    rw [map_cons, items]
    simp [text, ih]

theorem slots_ofTexts {entries : List String} (filled : entries ≠ []) :
    slots "" text {} (.ofTexts entries) = some ⟨entries, []⟩ := by
  obtain ⟨entry, entries, rfl⟩ := exists_cons_of_ne_nil filled
  have read := items_strings (entry :: entries)
  rw [map_cons] at read
  rw [Json.ofTexts, map_cons, slots]
  · simp [read]
  · simp

theorem texts_entries {table : Table String String} (ordered : table.Ordered) :
    texts [] (.object (table.map fun entry => (entry.1, .string entry.2))) = some table := by
  have all : ∀ entries old : Table String String,
      texts old (.object (entries.map fun entry => (entry.1, .string entry.2))) =
        some (old.insertAll entries) := by
    intro entries
    induction entries with
    | nil => exact fun _ => rfl
    | cons entry entries ih => exact fun old => ih (old.insert entry.1 entry.2)
  rw [all, Table.insertAll_of_ordered (by exact ordered), nil_append]

section Record

variable {member : String → Decoder α} {old mid new : α} {xs ys : List (String × Json)}
  {name : String} {value : Json}

theorem record_append (first : record member old (.object xs) = some mid)
    (second : record member mid (.object ys) = some new) :
    record member old (.object (xs ++ ys)) = some new := by
  rw [record] at first second ⊢
  rw [foldlM_append, first]
  exact second

theorem record_cons (first : member name old value = some mid)
    (second : record member mid (.object ys) = some new) :
    record member old (.object ((name, value) :: ys)) = some new := by
  rw [record] at second ⊢
  rw [foldlM_cons]
  dsimp only
  rw [first]
  exact second

/-- A member that is left out where it would say nothing. -/
theorem record_member {empty : Prop} [Decidable empty]
    (step : ¬ empty → member name old value = some new) (same : empty → new = old) :
    record member old (.object (if empty then [] else [(name, value)])) = some new := by
  split
  case isTrue holds =>
    rw [same holds]
    rfl
  case isFalse fails => exact record_cons (step fails) rfl

end Record

end Json.Decoder

namespace ConfigDraft

open Json.Decoder

def ClockFits (clock : ClockChoice) : Prop :=
  Word.fits clock.period = true ∧ Word.fits clock.frequency = true

/-- Its tables are ordered and its numbers fit a machine word. -/
def Sound (draft : ConfigDraft) : Prop :=
  draft.templates.Ordered ∧ draft.rules.Ordered ∧ ClockFits draft.clock

theorem ClockFits.decode {old new : ClockChoice} {json : Json} (fitting : ClockFits old)
    (decoded : decodeClock old json = some new) : ClockFits new := by
  refine record_induct (P := ClockFits) (fun {_ old _ new} fitting decoded => ?_) fitting decoded
  split at decoded
  · obtain ⟨_, -, rfl⟩ := Option.map_eq_some_iff.mp decoded
    exact fitting
  split at decoded
  · obtain ⟨_, read, rfl⟩ := Option.map_eq_some_iff.mp decoded
    exact ⟨fits_of_integer fitting.1 read, fitting.2⟩
  split at decoded
  · obtain ⟨_, read, rfl⟩ := Option.map_eq_some_iff.mp decoded
    exact ⟨fitting.1, fits_of_integer fitting.2 read⟩
  · cases decoded
    exact fitting

namespace Sound

variable {old new : ConfigDraft} {json : Json}

theorem decodeNaming (sound : old.Sound) (decoded : decodeNaming old json = some new) :
    new.Sound := by
  refine record_induct (P := Sound) (fun {_ old _ new} sound decoded => ?_) sound decoded
  split at decoded
  · obtain ⟨_, read, rfl⟩ := Option.map_eq_some_iff.mp decoded
    exact ⟨ordered_of_texts sound.1 read, sound.2⟩
  · cases decoded
    exact sound

theorem decodePolicy (sound : old.Sound) (decoded : decodePolicy old json = some new) :
    new.Sound := by
  refine record_induct (P := Sound) (fun {_ old _ new} sound decoded => ?_) sound decoded
  split at decoded
  · obtain ⟨_, -, rfl⟩ := Option.map_eq_some_iff.mp decoded
    exact sound
  split at decoded
  · obtain ⟨_, read, rfl⟩ := Option.map_eq_some_iff.mp decoded
    exact ⟨sound.1, ordered_of_texts sound.2.1 read, sound.2.2⟩
  · cases decoded
    exact sound

/-- The other sections hold no table and no number. -/
theorem decode_other (sound : old.Sound) {decoder : Json.Decoder ConfigDraft}
    (listed : decoder ∈ [decodeSources, decodeTiming, decodeManifest])
    (decoded : decoder old json = some new) : new.Sound := by
  simp only [mem_cons, not_mem_nil, or_false] at listed
  obtain rfl | rfl | rfl := listed
  all_goals
    refine record_induct (P := Sound) (fun {_ old _ new} sound decoded => ?_) sound decoded
    repeat' split at decoded
    all_goals
      first
      | cases decoded
        exact sound
      | obtain ⟨_, -, rfl⟩ := Option.map_eq_some_iff.mp decoded
        exact sound

theorem decode (sound : old.Sound) (decoded : decode old json = some new) : new.Sound := by
  refine record_induct (P := Sound) (fun {_ old _ new} sound decoded => ?_) sound decoded
  split at decoded
  · obtain ⟨_, -, rfl⟩ := Option.map_eq_some_iff.mp decoded
    exact sound
  split at decoded
  · obtain ⟨_, -, rfl⟩ := Option.map_eq_some_iff.mp decoded
    exact sound
  split at decoded
  · obtain ⟨_, -, rfl⟩ := Option.map_eq_some_iff.mp decoded
    exact sound
  split at decoded
  · obtain ⟨_, read, rfl⟩ := Option.map_eq_some_iff.mp decoded
    exact ⟨sound.1, sound.2.1, sound.2.2.decode read⟩
  split at decoded
  · exact sound.decodeNaming decoded
  split at decoded
  · exact sound.decode_other (by simp) decoded
  split at decoded
  · exact sound.decodePolicy decoded
  split at decoded
  · exact sound.decode_other (by simp) decoded
  split at decoded
  · obtain ⟨_, -, rfl⟩ := Option.map_eq_some_iff.mp decoded
    exact sound
  split at decoded
  · exact sound.decode_other (by simp) decoded
  · cases decoded
    exact sound

end Sound

end ConfigDraft

namespace Config

open Json.Decoder

/-- A member is written unless it would say nothing. -/
theorem readable_member {empty : Prop} [Decidable empty] {entry : String × Json} {depth : Nat}
    (readable : Readable depth entry.2) : ∀ member ∈ (if empty then [] else [entry]),
      Readable depth member.2 := by
  split
  · simp
  · simpa using readable

theorem readable_toJson (config : Config) : Readable 3 config.toJson := by
  have text : ∀ name text {depth}, ∀ member ∈ textMember name text, Readable depth member.2 :=
    fun name text depth => readable_member (by simp [Readable])
  have integer : ∀ name n {depth}, ∀ member ∈ intMember name n, Readable depth member.2 :=
    fun name n depth => readable_member (by simp only [Json.ofInt, Readable]; exact ⟨n, rfl⟩)
  have list : ∀ name texts, ∀ member ∈ listMember name texts, Readable 1 member.2 :=
    fun name texts => readable_member (by simp [Readable, Json.ofTexts])
  have table : ∀ name entries, ∀ member ∈ tableMember name entries, Readable 1 member.2 := by
    intro name entries
    refine readable_member ?_
    simp only [Readable]
    intro member listed
    obtain ⟨entry, -, rfl⟩ := mem_map.mp listed
    simp [Readable]
  rw [toJson]
  simp only [Readable, forall_mem_append, forall_mem_cons, not_mem_nil, false_imp_iff, implies_true,
    and_true, true_and, and_assoc]
  exact ⟨text _ _, text _ _, text _ _, text _ _, integer _ _, integer _ _, table _ _, list _ _,
    list _ _, table _ _, text _ _, text _ _⟩

/-- The draft that a saved configuration is read as. -/
def draft (config : Config) : ConfigDraft where
  language := config.language
  vendor := config.vendor
  output := config.output
  clock := config.clock
  templates := config.templates
  searchPaths := if config.searchPaths = [] then none else some ⟨config.searchPaths, []⟩
  exclude := ⟨config.exclude, []⟩
  policy := some config.policy
  rules := config.rules
  timingPath := config.timingPath
  metricsFile := config.metricsFile
  manifest := some config.manifest

theorem decodeClock_members {clock : ClockChoice} (fitting : ConfigDraft.ClockFits clock) :
    ConfigDraft.decodeClock {} (.object (textMember "mode" clock.mode ++
      intMember "period" clock.period ++ intMember "frequency" clock.frequency)) = some clock := by
  have mode : ConfigDraft.decodeClock {} (.object (textMember "mode" clock.mode)) =
      some ⟨clock.mode, 0, 0⟩ :=
    record_member (fun _ => rfl) fun empty => by rw [empty]
  have period : ConfigDraft.decodeClock ⟨clock.mode, 0, 0⟩
      (.object (intMember "period" clock.period)) = some ⟨clock.mode, clock.period, 0⟩ := by
    refine record_member (fun _ => ?_) fun empty => by rw [empty]
    change (Word.readDecimal? (toString clock.period).toList).map _ = _
    rw [Word.readDecimal?_toString fitting.1]
    rfl
  have frequency : ConfigDraft.decodeClock ⟨clock.mode, clock.period, 0⟩
      (.object (intMember "frequency" clock.frequency)) = some clock := by
    refine record_member (fun _ => ?_) fun empty => by rw [← empty]
    change (Word.readDecimal? (toString clock.frequency).toList).map _ = _
    rw [Word.readDecimal?_toString fitting.2]
    rfl
  exact record_append (record_append mode period) frequency

theorem decode_toJson {config : Config} (templates : config.templates.Ordered)
    (rules : config.rules.Ordered) (clock : ConfigDraft.ClockFits config.clock) :
    ConfigDraft.decode {} config.toJson = some config.draft := by
  have language : ∀ draft : ConfigDraft, draft.language = "" →
      draft.decode (.object (textMember "language" config.language)) =
        some { draft with language := config.language } := fun draft fresh =>
    record_member (fun _ => rfl) fun empty => by rw [empty, ← fresh]
  have vendor : ∀ draft : ConfigDraft, draft.vendor = "" →
      draft.decode (.object (textMember "vendor" config.vendor)) =
        some { draft with vendor := config.vendor } := fun draft fresh =>
    record_member (fun _ => rfl) fun empty => by rw [empty, ← fresh]
  have output : ∀ draft : ConfigDraft, draft.output = "" →
      draft.decode (.object (textMember "output" config.output)) =
        some { draft with output := config.output } := fun draft fresh =>
    record_member (fun _ => rfl) fun empty => by rw [empty, ← fresh]
  have metrics : ∀ draft : ConfigDraft, draft.metricsFile = "" →
      draft.decode (.object (textMember "metricsFile" config.metricsFile)) =
        some { draft with metricsFile := config.metricsFile } := fun draft fresh =>
    record_member (fun _ => rfl) fun empty => by rw [empty, ← fresh]
  have timing : ∀ draft : ConfigDraft, draft.timingPath = "" →
      draft.decodeTiming (.object (textMember "path" config.timingPath)) =
        some { draft with timingPath := config.timingPath } := fun draft fresh =>
    record_member (fun _ => rfl) fun empty => by rw [empty, ← fresh]
  have naming : ∀ draft : ConfigDraft, draft.templates = [] →
      draft.decodeNaming (.object (tableMember "templates" config.templates)) =
        some { draft with templates := config.templates } := by
    intro draft fresh
    refine record_member (fun _ => ?_) fun empty => by rw [isEmpty_iff.mp empty, ← fresh]
    change (texts draft.templates _).map _ = _
    rw [fresh, texts_entries templates]
    rfl
  have policy : ∀ draft : ConfigDraft, draft.rules = [] →
      draft.decodePolicy (.object <|
        ("enabled", .bool config.policy) :: tableMember "rules" config.rules) =
        some { draft with policy := some config.policy, rules := config.rules } := by
    intro draft fresh
    refine record_cons rfl (record_member (fun _ => ?_) fun empty => ?_)
    rotate_left
    · rw [isEmpty_iff.mp empty, ← fresh]
    change (texts draft.rules _).map _ = _
    rw [fresh, texts_entries rules]
    rfl
  have sources : ∀ draft : ConfigDraft, draft.searchPaths = none → draft.exclude = {} →
      draft.decodeSources (.object (listMember "searchPaths" config.searchPaths ++
        listMember "exclude" config.exclude)) = some { draft with
          searchPaths := config.draft.searchPaths, exclude := config.draft.exclude } := by
    intro draft fresh bare
    have searched : draft.decodeSources (.object (listMember "searchPaths" config.searchPaths)) =
        some { draft with searchPaths := config.draft.searchPaths } := by
      refine record_member (fun filled => ?_) fun empty => ?_
      · rw [List.isEmpty_iff] at filled
        change (optional {} (slots "" text) draft.searchPaths _).map _ = _
        rw [fresh, Config.draft, if_neg filled]
        change ((slots "" text {} _).map some).map _ = _
        rw [slots_ofTexts filled]
        rfl
      · rw [Config.draft, if_pos (isEmpty_iff.mp empty), ← fresh]
    refine record_append searched (record_member (fun filled => ?_) fun empty => ?_)
    · change (slots "" text draft.exclude _).map _ = _
      rw [bare, slots_ofTexts (by simpa using filled)]
      rfl
    · rw [Config.draft, isEmpty_iff.mp empty, ← bare]
  have sections : ConfigDraft.decode
      { language := config.language, vendor := config.vendor, output := config.output } (.object [
        ("clock", .object <| textMember "mode" config.clock.mode ++
          intMember "period" config.clock.period ++ intMember "frequency" config.clock.frequency),
        ("naming", .object (tableMember "templates" config.templates)),
        ("blackBox", .object <| listMember "searchPaths" config.searchPaths ++
          listMember "exclude" config.exclude),
        ("policy", .object (("enabled", .bool config.policy) :: tableMember "rules" config.rules)),
        ("timing", .object (textMember "path" config.timingPath))]) =
      some { config.draft with metricsFile := "", manifest := none } := by
    have timed : ConfigDraft.decodeClock {} (.object <| textMember "mode" config.clock.mode ++
        intMember "period" config.clock.period ++ intMember "frequency" config.clock.frequency) =
          some config.clock := decodeClock_members clock
    exact record_cons (congrArg (Option.map _) timed) (record_cons (naming _ rfl) (record_cons
      (sources _ rfl rfl) (record_cons (policy _ rfl) (record_cons (timing _ rfl) rfl))))
  exact record_append (record_append (record_append (record_append (record_append (language _ rfl)
    (vendor _ rfl)) (output _ rfl)) sections) (metrics _ rfl)) (record_cons rfl rfl)

theorem orDefault_ne {text default : String} (named : default ≠ "") :
    ConfigDraft.orDefault text default ≠ "" := by
  rw [ConfigDraft.orDefault]
  split
  · exact named
  case isFalse filled => exact filled

/-- The search paths of the configuration that the saved one is read as. -/
def reloadedPaths (config : Config) : List String :=
  if config.searchPaths = [] then ({} : Config).searchPaths else config.searchPaths

theorem parse_eq_ok {path text : String} {config : Config} : parse path text = .ok config ↔
    ∃ draft, (Json.read? text).bind (ConfigDraft.decode {}) = some draft ∧ draft.complete = config ∧
      config.check = .ok () := by
  rw [parse]
  cases decoded : (Json.read? text).bind (ConfigDraft.decode {}) with
  | none => simp
  | some draft =>
    dsimp only
    cases checked : draft.complete.check with
    | ok =>
      constructor
      · rintro ⟨⟩
        exact ⟨draft, rfl, rfl, checked⟩
      · rintro ⟨_, ⟨⟩, rfl, -⟩
        rfl
    | error e =>
      constructor
      · intro accepted
        cases accepted
      · rintro ⟨_, ⟨⟩, rfl, accepted⟩
        rw [checked] at accepted
        cases accepted

theorem complete_draft (config : Config) (language : config.language ≠ "")
    (vendor : config.vendor ≠ "") (output : config.output ≠ "") (mode : config.clock.mode ≠ "") :
    config.draft.complete = { config with searchPaths := config.reloadedPaths } := by
  have paths : (config.draft.searchPaths.map (·.items)).getD ({} : Config).searchPaths =
      config.reloadedPaths := by
    rw [draft, reloadedPaths]
    split <;> rfl
  rw [ConfigDraft.complete, paths]
  simp [draft, ConfigDraft.orDefault, language, vendor, output, mode]

theorem check_searchPaths (config : Config) (paths : List String) :
    { config with searchPaths := paths }.check = config.check := by
  simp only [check, checkClock]

/-- A configuration that was accepted is read back with its search paths, unless it has none. -/
theorem parse_save {path place text : String} {config : Config}
    (parsed : parse path text = .ok config) :
    parse place config.save = .ok { config with searchPaths := config.reloadedPaths } := by
  obtain ⟨draft, decoded, rfl, checked⟩ := parse_eq_ok.mp parsed
  obtain ⟨json, -, decoded⟩ := Option.bind_eq_some_iff.mp decoded
  have sound : draft.Sound := ConfigDraft.Sound.decode
    ⟨Table.ordered_nil, Table.ordered_nil, by decide, by decide⟩ decoded
  obtain ⟨templates, rules, clock⟩ := sound
  have read : (Json.read? draft.complete.save).bind (ConfigDraft.decode {}) =
      some draft.complete.draft := by
    rw [save, Json.read?_indented (readable_toJson _) (by decide), Option.bind_some]
    exact decode_toJson templates rules clock
  refine parse_eq_ok.mpr ⟨_, read, complete_draft _ ?_ ?_ ?_ ?_,
    (check_searchPaths _ _).trans checked⟩
  all_goals exact orDefault_ne (by decide)

/-- A saved configuration is loaded again as it was, but for an empty list of search paths, which
is not written and comes back as the paths searched by default. -/
theorem loadFile_save {tree later : FileTree} {path place : String} {config : Config}
    (loaded : loadFile tree path = .ok config) (saved : later.read place = .ok config.save) :
    loadFile later place = .ok { config with searchPaths := config.reloadedPaths } ∧
      (loadFile later place = .ok config ↔ config.searchPaths ≠ []) := by
  have parsed : ∃ text, parse path text = .ok config := by
    rw [loadFile] at loaded
    split at loaded
    · cases loaded
    · exact ⟨_, loaded⟩
  obtain ⟨text, parsed⟩ := parsed
  have reloaded :
      loadFile later place = .ok { config with searchPaths := config.reloadedPaths } := by
    rw [loadFile, saved]
    exact parse_save parsed
  refine ⟨reloaded, ?_⟩
  rw [reloaded, reloadedPaths]
  constructor
  · intro same empty
    have paths := congrArg Config.searchPaths (Except.ok.inj same)
    rw [if_pos empty, empty] at paths
    cases paths
  · intro filled
    rw [if_neg filled]

/-- A configuration with a flag that is off, a template, a rule and an exclusion comes back. -/
theorem loadFile_save_settings :
    let config : Config :=
      { templates := [("rom", "M")]
        exclude := ["old"]
        policy := false
        rules := [("lines", "off")] }
    loadFile (FileTree.write {} "/c" config.save) "/c" = .ok config := by
  intro config
  let given : Json := .object [("naming", .object [("templates", .object [("rom", .string "M")])]),
    ("blackBox", .object [("exclude", .array [.string "old"])]),
    ("policy", .object [("enabled", .bool false),
      ("rules", .object [("lines", .string "off")])])]
  have read : ∀ text, (FileTree.write {} "/c" text).read "/c" = .ok text := fun _ => rfl
  have decoded : (ConfigDraft.decode {} given).map (·.complete) = some config := by decide +kernel
  obtain ⟨draft, decoded, completed⟩ := Option.map_eq_some_iff.mp decoded
  have checked : config.check = .ok () := by decide +kernel
  have loaded : loadFile (FileTree.write {} "/c" given.indented) "/c" = .ok config := by
    rw [loadFile, read]
    refine parse_eq_ok.mpr ⟨draft, ?_, completed, checked⟩
    rw [@Json.read?_indented 4 given (by simp [given, Readable]) (by decide)]
    exact decoded
  exact (loadFile_save loaded (read _)).2.mpr (by decide)

/-- An empty list of search paths is saved like an absent one, and comes back as the default. -/
theorem parse_save_forgets_paths :
    let text := (Json.object [("blackBox", .object [("searchPaths", .array [])])]).indented
    parse "c" text = .ok { searchPaths := [] } ∧
      parse "c" ({ searchPaths := [] } : Config).save = .ok {} := by
  have read := @Json.read?_indented 3 (.object [("blackBox", .object [("searchPaths", .array [])])])
    (by simp [Readable]) (by decide)
  have parsed :
      parse "c" (Json.object [("blackBox", .object [("searchPaths", .array [])])]).indented =
        .ok { searchPaths := [] } := by
    refine parse_eq_ok.mpr ⟨{ searchPaths := some {} }, ?_, rfl, rfl⟩
    rw [read]
    rfl
  exact ⟨parsed, parse_save parsed⟩

end Config

end Schematic

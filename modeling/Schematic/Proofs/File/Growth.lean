import Schematic.Proofs.File.Approach
import Schematic.Proofs.File.Writer
import Schematic.Proofs.Table

/-! # Trees that take new files -/

open List (append_assoc append_nil foldl_append foldl_cons mem_append_left mem_cons_of_mem
  mem_cons_self prefix_refl replicate)

namespace Schematic

namespace FileTree

variable {tree : FileTree}

/-- The content of the file at a place. -/
def content? (tree : FileTree) (place : Place) : Option String :=
  match tree.entries.find? place with
  | some (.file content) => some content
  | _ => none

/-- Everything above an entry and above the working directory is a directory. -/
structure Closed (tree : FileTree) : Prop where
  above : ∀ place entry, tree.entries.find? place = some entry →
    ∀ higher, higher <+: place → higher ≠ place → tree.statusAt higher = .directory
  working : ∀ higher, higher <+: tree.current → tree.statusAt higher = .directory
  named : ∀ name ∈ tree.current, Path.IsName name

/-- No file stands on the way to a place. -/
def Open (tree : FileTree) (place : Place) : Prop :=
  ∀ higher, higher <+: place → higher ≠ place → tree.content? higher = none

section Status

theorem content?_eq_some {place : Place} {content : String} :
    tree.content? place = some content ↔ tree.entries.find? place = some (.file content) := by
  unfold content?
  cases tree.entries.find? place with
  | none => simp
  | some entry => cases entry <;> simp

theorem isFileAt_eq (place : Place) : tree.isFileAt place = (tree.content? place).isSome := by
  unfold isFileAt content?
  cases tree.entries.find? place with
  | none => rfl
  | some entry => cases entry <;> rfl

theorem mem_above {higher place : Place} :
    higher ∈ above place ↔ higher <+: place ∧ higher ≠ place := by
  simp only [above, List.mem_map, List.mem_range]
  constructor
  · rintro ⟨count, less, rfl⟩
    refine ⟨List.take_prefix count place, fun same => ?_⟩
    have size := congrArg List.length same
    rw [List.length_take] at size
    omega
  · rintro ⟨start, differ⟩
    refine ⟨higher.length, ?_, (List.prefix_iff_eq_take.mp start).symm⟩
    exact lt_of_le_of_ne start.length_le fun same => differ (start.eq_of_length same)

instance (tree : FileTree) (place : Place) : Decidable (tree.Open place) :=
  decidable_of_iff (∀ higher ∈ above place, tree.content? higher = none)
    ⟨fun each higher start differ => each higher (mem_above.mpr ⟨start, differ⟩),
      fun way higher listed => way higher (mem_above.mp listed).1 (mem_above.mp listed).2⟩

theorem closed_iff : tree.Closed ↔
    (∀ entry ∈ tree.entries, ∀ higher ∈ above entry.1, tree.statusAt higher = .directory) ∧
    (∀ higher ∈ tree.current :: above tree.current, tree.statusAt higher = .directory) ∧
    ∀ name ∈ tree.current, Path.IsName name := by
  constructor
  · rintro ⟨directories, working, named⟩
    refine ⟨fun entry listed higher upper => ?_, fun higher listed => ?_, named⟩
    · obtain ⟨found, known⟩ := Table.exists_find? (List.mem_map.mpr ⟨entry, listed, rfl⟩)
      obtain ⟨start, differ⟩ := mem_above.mp upper
      exact directories entry.1 found known higher start differ
    · obtain rfl | upper := List.mem_cons.mp listed
      · exact working _ (prefix_refl _)
      · exact working higher (mem_above.mp upper).1
  · rintro ⟨directories, working, named⟩
    refine ⟨fun place entry found higher start differ => ?_, fun higher start => ?_, named⟩
    · exact directories (place, entry) (Table.mem_of_find? found) higher
        (mem_above.mpr ⟨start, differ⟩)
    · by_cases same : higher = tree.current
      · exact working higher (same ▸ mem_cons_self ..)
      · exact working higher (mem_cons_of_mem _ (mem_above.mpr ⟨start, same⟩))

instance (tree : FileTree) : Decidable tree.Closed := decidable_of_iff _ closed_iff.symm

theorem Open.of_prefix {place higher : Place} (way : tree.Open place) (start : higher <+: place) :
    tree.Open higher := by
  intro upper inside differ
  refine way upper (inside.trans start) ?_
  rintro rfl
  exact differ (inside.eq_of_length (le_antisymm inside.length_le start.length_le))

theorem Open.statusAt_of_none {place : Place} (way : tree.Open place)
    (none : tree.entries.find? place = none) (some : place ≠ []) :
    tree.statusAt place = .missing := by
  have free : (above place).any tree.isFileAt = false := by
    rw [List.any_eq_false]
    intro higher listed
    obtain ⟨start, differ⟩ := mem_above.mp listed
    rw [isFileAt_eq, way higher start differ]
    exact Bool.false_ne_true
  unfold statusAt
  rw [none, free]
  simp [some]

theorem statusAt_eq_directory {place : Place} : tree.statusAt place = .directory ↔
      tree.entries.find? place = some .directory ∨
        (place = [] ∧ tree.entries.find? place = none) := by
  unfold statusAt
  cases found : tree.entries.find? place with
  | none =>
    by_cases root : place = []
    · simp [root]
    · simp only [List.isEmpty_iff, root, ↓reduceIte]
      split <;> simp
  | some entry => cases entry <;> simp

theorem Closed.nothing_below (closed : tree.Closed) {higher place : Place}
    (other : tree.statusAt higher ≠ .directory) (start : higher <+: place)
    (differ : higher ≠ place) :
    tree.entries.find? place = none := by
  rw [Option.eq_none_iff_forall_ne_some]
  intro entry found
  exact other (closed.above place entry found higher start differ)

end Status

section Walk

variable {place : Place} {elements : List String}

theorem walk_append_of_directory (arrives : tree.walk place elements = .directory)
    (more : List String) :
    tree.walk place (elements ++ more) = tree.walk (elements.foldl step place) more := by
  induction elements generalizing place with
  | nil => rfl
  | cons element elements ih =>
    simp only [List.cons_append, walk] at arrives ⊢
    split at arrives
    case h_1 here =>
      split at arrives
      case isTrue => cases arrives
      case isFalse short =>
        rw [if_neg short]
        exact ih arrives
    case h_2 => cases arrives
    case h_3 other _ => exact absurd arrives other

theorem walk_append_of_missing (arrives : tree.walk place elements = .missing)
    (more : List String) : tree.walk place (elements ++ more) = .missing := by
  induction elements generalizing place with
  | nil =>
    cases more with
    | nil => exact arrives
    | cons element more =>
      simp only [walk] at arrives
      simp only [List.nil_append, walk, arrives]
  | cons element elements ih =>
    simp only [List.cons_append, walk] at arrives ⊢
    split at arrives
    case h_1 here =>
      split at arrives
      case isTrue => cases arrives
      case isFalse short =>
        rw [if_neg short]
        exact ih arrives
    case h_2 => cases arrives
    case h_3 => exact arrives

theorem step_idle {element : String} (idle : Path.IsIdle element) (place : Place) :
    step place element = place := by
  obtain rfl | rfl := idle <;> rfl

theorem foldl_step_idle (idle : ∀ element ∈ elements, Path.IsIdle element) (place : Place) :
    elements.foldl step place = place := by
  induction elements with
  | nil => rfl
  | cons element elements ih =>
    rw [foldl_cons, step_idle (idle element (mem_cons_self ..))]
    exact ih fun element member => idle element (mem_cons_of_mem _ member)

theorem walk_idle (idle : ∀ element ∈ elements, Path.IsIdle element)
    (here : tree.statusAt place = .directory) : tree.walk place elements = .directory := by
  induction elements with
  | nil => exact here
  | cons element elements ih =>
    have first := idle element (mem_cons_self ..)
    have short : ¬longestName < element.utf8ByteSize := by
      obtain rfl | rfl := first <;> decide
    simp only [walk, here, if_neg short, step_idle first]
    exact ih fun element member => idle element (mem_cons_of_mem _ member)

theorem foldl_step_ups (ups : Nat) (place : Place) :
    (replicate ups "..").foldl step place <+: place := by
  induction ups generalizing place with
  | zero => exact prefix_refl place
  | succ ups ih => exact (ih place.dropLast).trans (List.dropLast_prefix place)

theorem walk_ups (ups : Nat) (here : ∀ higher, higher <+: place →
    tree.statusAt higher = .directory) : tree.walk place (replicate ups "..") = .directory := by
  induction ups generalizing place with
  | zero => exact here place (prefix_refl place)
  | succ ups ih =>
    have short : ¬longestName < "..".utf8ByteSize := by decide
    simp only [List.replicate_succ, walk, here place (prefix_refl place), if_neg short]
    exact ih fun higher inside => here higher (inside.trans (List.dropLast_prefix place))

theorem Closed.walk_names (closed : tree.Closed) {names : List String}
    (plain : ∀ name ∈ names, Path.IsName name)
    (short : ∀ name ∈ names, name.utf8ByteSize ≤ longestName) (way : tree.Open (place ++ names)) :
    tree.walk place names = tree.statusAt (place ++ names) := by
  induction names generalizing place with
  | nil => rw [append_nil, walk]
  | cons name names ih =>
    have start : place <+: place ++ name :: names := List.prefix_append ..
    have differ : place ≠ place ++ name :: names := by simp
    have known := plain name (mem_cons_self ..)
    have down : step place name = place ++ [name] := by
      simp [step, known.nonempty, known.elsewhere, known.down]
    have fits : ¬longestName < name.utf8ByteSize := not_lt.mpr (short name (mem_cons_self ..))
    by_cases here : tree.statusAt place = .directory
    · have onward := @ih (place ++ [name])
        (fun name member => plain name (mem_cons_of_mem _ member))
        (fun name member => short name (mem_cons_of_mem _ member))
        (by rwa [append_assoc, List.singleton_append])
      rw [append_assoc, List.singleton_append] at onward
      simp only [walk, here, if_neg fits, down]
      exact onward
    · -- Nothing stands here, so nothing stands below either.
      have nothing : tree.entries.find? place = none := by
        cases found : tree.entries.find? place with
        | none => rfl
        | some entry =>
          cases entry with
          | directory => exact absurd (statusAt_eq_directory.mpr (.inl found)) here
          | file content =>
            have open' := way place start differ
            rw [content?_eq_some.mpr found] at open'
            cases open'
      have below : place ≠ [] := fun root =>
        here (statusAt_eq_directory.mpr (.inr ⟨root, nothing⟩))
      have missing := (way.of_prefix start).statusAt_of_none nothing below
      have lower := way.statusAt_of_none (closed.nothing_below here start differ) (by simp)
      rw [lower]
      simp only [walk, missing]

end Walk

section Place

theorem reverse_foldl_addElement {reversed elements : List String}
    (settled : Path.Settled true reversed) :
    ((elements.filter fun element => element ≠ "" && element ≠ ".").foldl
      (Path.addElement true) reversed).reverse = elements.foldl step reversed.reverse := by
  induction elements generalizing reversed with
  | nil => rfl
  | cons element elements ih =>
    by_cases idle : element = "" ∨ element = "."
    · have kept : (element :: elements).filter (fun element => element ≠ "" && element ≠ ".") =
          elements.filter fun element => element ≠ "" && element ≠ "." := by
        obtain rfl | rfl := idle <;> rfl
      rw [kept, foldl_cons, step_idle idle]
      exact ih settled
    · obtain ⟨nonempty, elsewhere⟩ := not_or.mp idle
      rw [List.filter_cons_of_pos (by simp [nonempty, elsewhere]), foldl_cons,
        foldl_cons, ih (Path.settled_addElement settled element)]
      congr 1
      by_cases up : element = ".."
      · subst up
        cases reversed with
        | nil => rfl
        | cons last rest =>
          have lasting : last ≠ ".." := fun same => Bool.noConfusion (settled.2 same).1
          rw [Path.addElement_up_cons, if_neg lasting, List.reverse_cons]
          simp [step]
      · rw [Path.addElement_down true reversed up, List.reverse_cons]
        simp [step, nonempty, elsewhere, up]

theorem resolved_of_absolute {path : String} (absolute : Path.isAbsolute path = true) :
    Path.resolved path = (Text.splitAt '/' path).foldl step [] := by
  rw [Path.resolved, absolute]
  exact @reverse_foldl_addElement [] _ trivial

theorem Closed.placeOf_eq (closed : tree.Closed) (path : String) :
    tree.placeOf path = (Text.splitAt '/' path).foldl step (tree.startOf path) := by
  unfold placeOf startOf
  split
  case isTrue absolute => exact resolved_of_absolute absolute
  case isFalse =>
    have starts : Path.isAbsolute ("/" ++ "/".intercalate tree.current ++ "/" ++ path) = true := by
      rw [String.append_assoc, String.append_assoc]
      exact Path.isAbsolute_append (by decide) _
    have down : (Text.splitAt '/' ("/" ++ "/".intercalate tree.current)).foldl step [] =
        tree.current := by
      have parted := Path.splitAt_append "" ("/".intercalate tree.current)
      rw [String.empty_append] at parted
      rw [parted, foldl_append]
      cases empty : tree.current with
      | nil => rfl
      | cons name names =>
        rw [← empty, Path.splitAt_intercalate (by simp [empty])
          fun name member => (closed.named name member).free]
        exact foldl_step closed.named []
    rw [resolved_of_absolute starts, Path.splitAt_append, foldl_append, down]

section Descent

variable {start : Place} {elements front more : List String}

theorem prefix_of_descends (descends : Path.Descends elements) (parts : elements = front ++ more)
    (some : more ≠ []) (start : Place) : Path.Descends front ∧ (front.foldl step start <+: start ∨
      (front.foldl step start <+: elements.foldl step start ∧
        front.foldl step start ≠ elements.foldl step start)) := by
  obtain ⟨lead, ups, names, rfl, idle, plain⟩ := descends
  obtain ⟨inner, rfl, rfl⟩ | ⟨rest, within, _⟩ := List.append_eq_append_iff.mp parts
  · have innerPlain : ∀ name ∈ inner, Path.IsName name :=
      fun name member => plain name (mem_append_left _ member)
    refine ⟨⟨lead, ups, inner, rfl, idle, innerPlain⟩, .inr ?_⟩
    rw [foldl_append, foldl_append (l := _ ++ _), foldl_step innerPlain, foldl_step plain,
      ← append_assoc]
    exact ⟨List.prefix_append .., by simpa using some⟩
  · obtain ⟨inner, rfl, ends⟩ | ⟨rest, rfl, _⟩ := List.append_eq_append_iff.mp within
    · obtain ⟨_, same, _⟩ := List.append_eq_replicate_iff.mp ends.symm
      refine ⟨⟨lead, inner.length, [], by rw [append_nil, ← same], idle, by simp⟩, .inl ?_⟩
      rw [foldl_append, foldl_step_idle idle, same]
      exact foldl_step_ups ..
    · have idle : ∀ element ∈ front, Path.IsIdle element :=
        fun element member => idle element (mem_append_left _ member)
      refine ⟨⟨front, 0, [], by simp, idle, by simp⟩, .inl ?_⟩
      rw [foldl_step_idle idle]

theorem Closed.walk_descending (closed : tree.Closed) (descends : Path.Descends elements)
    (here : ∀ higher, higher <+: start → tree.statusAt higher = .directory)
    (short : ∀ element ∈ elements, element.utf8ByteSize ≤ longestName)
    (way : tree.Open (elements.foldl step start)) :
    tree.walk start elements = tree.statusAt (elements.foldl step start) := by
  obtain ⟨lead, ups, names, rfl, idle, plain⟩ := descends
  have leads : tree.walk start lead = .directory :=
    walk_idle idle (here start (prefix_refl start))
  have rises : tree.walk start (lead ++ replicate ups "..") = .directory := by
    rw [walk_append_of_directory leads, foldl_step_idle idle]
    exact walk_ups ups here
  rw [foldl_append, foldl_step plain] at way ⊢
  rw [walk_append_of_directory rises]
  exact closed.walk_names plain (fun name member => short name (List.mem_append_right _ member)) way

end Descent

theorem Closed.start (closed : tree.Closed) (path : String) :
    ∀ higher, higher <+: tree.startOf path → tree.statusAt higher = .directory := by
  intro higher above
  unfold startOf at above
  split at above
  · rw [List.prefix_nil.mp above]
    exact closed.working [] List.nil_prefix
  · exact closed.working higher above

theorem Usable.status_eq {path : String} (usable : Usable path) :
    tree.status path = tree.walk (tree.startOf path) (Text.splitAt '/' path) := by
  have valid : path.toList.contains '\x00' = false := by simpa using usable.valid
  simp only [status, usable.nonempty, valid, not_lt.mpr usable.short, ↓reduceIte,
    Bool.false_eq_true]

theorem Open.statusAt_cases {place : Place} (way : tree.Open place)
    (free : tree.content? place = none) : tree.statusAt place = .directory ∨
      (tree.statusAt place = .missing ∧ tree.entries.find? place = none) := by
  cases found : tree.entries.find? place with
  | none =>
    by_cases root : place = []
    · exact .inl (statusAt_eq_directory.mpr (.inr ⟨root, found⟩))
    · exact .inr ⟨way.statusAt_of_none found root, rfl⟩
  | some entry =>
    cases entry with
    | directory => exact .inl (statusAt_eq_directory.mpr (.inl found))
    | file content =>
      rw [content?_eq_some.mpr found] at free
      cases free

theorem Closed.status_eq (closed : tree.Closed) {path : String} {elements tail : List String}
    (usable : Usable path) (split : Text.splitAt '/' path = elements ++ tail)
    (descends : Path.Descends elements) (idle : ∀ element ∈ tail, Path.IsIdle element)
    (way : tree.Open (tree.placeOf path))
    (free : tail = [] ∨ tree.content? (tree.placeOf path) = none) :
    tree.status path = tree.statusAt (tree.placeOf path) := by
  have place : tree.placeOf path = elements.foldl step (tree.startOf path) := by
    rw [closed.placeOf_eq, split, foldl_append, foldl_step_idle idle]
  have short : ∀ element ∈ elements, element.utf8ByteSize ≤ longestName := by
    intro element member
    exact usable.names element (split ▸ mem_append_left _ member)
  rw [place] at way free ⊢
  have walked := closed.walk_descending descends (closed.start path) short way
  rw [usable.status_eq, split]
  obtain rfl | free := free
  · rwa [append_nil]
  · obtain here | ⟨missing, _⟩ := way.statusAt_cases free
    · rw [walk_append_of_directory (walked.trans here), here]
      exact walk_idle idle here
    · rw [walk_append_of_missing (walked.trans missing), missing]

end Place

section Directories

variable {later : FileTree} {place : Place}

theorem find?_foldl_directory (entries : Table Place Entry) (places : List Place) (other : Place) :
    (places.foldl (fun entries place =>
      if place.isEmpty || entries.has place then entries else entries.insert place .directory)
      entries).find? other =
    (entries.find? other).or (if other ≠ [] ∧ other ∈ places then some .directory else none) := by
  induction places generalizing entries with
  | nil => simp
  | cons place places ih =>
    rw [foldl_cons, ih]
    by_cases kept : (place.isEmpty || entries.has place) = true
    · rw [if_pos kept]
      by_cases same : other = place
      · subst same
        obtain root | known := Bool.or_eq_true_iff.mp kept
        · simp [List.isEmpty_iff.mp root]
        · obtain ⟨entry, found⟩ := Option.isSome_iff_exists.mp known
          rw [found, Option.some_or, Option.some_or]
      · simp [same]
    · rw [if_neg kept]
      obtain ⟨some, absent⟩ := Bool.or_eq_false_iff.mp (Bool.not_eq_true _ ▸ kept)
      by_cases same : other = place
      · subst same
        have new : entries.find? other = none := Option.isNone_iff_eq_none.mp (by
          simpa [Table.has] using absent)
        have below : other ≠ [] := by simpa using some
        rw [Table.find?_insert_self, new]
        simp [below]
      · rw [Table.find?_insert_of_ne same]
        simp [same]

theorem find?_addDirectories (tree : FileTree) (place other : Place) :
    (tree.addDirectories place).entries.find? other = (tree.entries.find? other).or
        (if other ≠ [] ∧ other <+: place then some .directory else none) := by
  have member : other ∈ above place ++ [place] ↔ other <+: place := by
    rw [List.mem_append, mem_above, List.mem_singleton]
    by_cases same : other = place
    · simp [same]
    · simp [same]
  rw [addDirectories, find?_foldl_directory]
  simp only [member]

theorem placeOf_congr (same : later.current = tree.current) (path : String) :
    later.placeOf path = tree.placeOf path := by
  simp only [placeOf, same]

structure Grown (tree later : FileTree) (place : Place) : Prop where
  current : later.current = tree.current
  entries : ∀ other, later.entries.find? other = tree.entries.find? other ∨
    (other <+: place ∧ other ≠ place ∧ tree.entries.find? other = none ∧
      later.entries.find? other = some .directory)

namespace Grown

theorem refl (tree : FileTree) (place : Place) : Grown tree tree place :=
  ⟨rfl, fun _ => .inl rfl⟩

theorem trans {last : FileTree} (first : Grown tree later place) (second : Grown later last place) :
    Grown tree last place := by
  refine ⟨second.current.trans first.current, fun other => ?_⟩
  obtain same | ⟨above, differ, absent, made⟩ := second.entries other
  · rw [same]
    exact first.entries other
  · obtain same | ⟨_, _, _, known⟩ := first.entries other
    · exact .inr ⟨above, differ, same ▸ absent, made⟩
    · rw [known] at absent
      cases absent

section

variable (grown : Grown tree later place)
include grown

theorem content?_eq (other : Place) : later.content? other = tree.content? other := by
  unfold content?
  obtain same | ⟨_, _, absent, made⟩ := grown.entries other
  · rw [same]
  · rw [absent, made]

theorem directory {other : Place}
    (here : tree.statusAt other = .directory) : later.statusAt other = .directory := by
  rw [statusAt_eq_directory] at here ⊢
  obtain same | ⟨_, _, _, made⟩ := grown.entries other
  · rwa [same]
  · exact .inl made

theorem open_iff (other : Place) : later.Open other ↔ tree.Open other := by
  simp only [Open, grown.content?_eq]

theorem startOf_eq (path : String) : later.startOf path = tree.startOf path := by
  simp only [startOf, grown.current]

end

end Grown

section

variable (closed : tree.Closed) (way : tree.Open place) {higher : Place} (inside : higher <+: place)
  (differ : higher ≠ place)
include way inside differ

theorem Open.content?_of_prefix {upper : Place} (start : upper <+: higher) :
    upper ≠ place ∧ tree.content? upper = none := by
  have proper : upper ≠ place := by
    rintro rfl
    exact differ (inside.eq_of_length (le_antisymm inside.length_le start.length_le))
  exact ⟨proper, way upper (start.trans inside) proper⟩

theorem Open.directory_addDirectories {upper : Place} (start : upper <+: higher) :
    (tree.addDirectories higher).statusAt upper = .directory := by
  have free := (way.content?_of_prefix inside differ start).2
  rw [statusAt_eq_directory, find?_addDirectories]
  cases found : tree.entries.find? upper with
  | some entry =>
    cases entry with
    | directory => exact .inl rfl
    | file content =>
      rw [content?_eq_some.mpr found] at free
      cases free
  | none =>
    by_cases root : upper = []
    · rw [if_neg (by simp [root])]
      exact .inr ⟨root, rfl⟩
    · rw [if_pos ⟨root, start⟩]
      exact .inl rfl

include closed

theorem Closed.addDirectories :
    (tree.addDirectories higher).Closed ∧ Grown tree (tree.addDirectories higher) place := by
  have grown : Grown tree (tree.addDirectories higher) place := by
    refine ⟨rfl, fun other => ?_⟩
    rw [find?_addDirectories]
    cases tree.entries.find? other with
    | some entry => exact .inl rfl
    | none =>
      by_cases new : other ≠ [] ∧ other <+: higher
      · exact .inr ⟨new.2.trans inside, (way.content?_of_prefix inside differ new.2).1, rfl,
          by rw [if_pos new]; rfl⟩
      · rw [if_neg new]
        exact .inl rfl
  refine ⟨⟨?_, ?_, closed.named⟩, grown⟩
  · intro lower entry found upper start apart
    by_cases known : tree.entries.find? lower = none
    · have new : lower ≠ [] ∧ lower <+: higher := by
        by_contra old
        rw [find?_addDirectories, known, if_neg old] at found
        cases found
      exact way.directory_addDirectories inside differ (start.trans new.2)
    · obtain ⟨earlier, known⟩ := Option.ne_none_iff_exists'.mp known
      exact grown.directory (closed.above lower earlier known upper start apart)
  · intro upper start
    exact grown.directory (closed.working upper start)

end

structure Approaches (tree : FileTree) (place : Place) (path : String) : Prop where
  usable : Usable path
  split : ∃ elements tail, Text.splitAt '/' path = elements ++ tail ∧ Path.Descends elements ∧
    ∀ element ∈ tail, Path.IsIdle element
  toward : tree.placeOf path <+: tree.startOf path ∨
    (tree.placeOf path <+: place ∧ tree.placeOf path ≠ place)

theorem Approaches.grown {path : String} (approaches : tree.Approaches place path)
    (grown : Grown tree later place) : later.Approaches place path := by
  obtain ⟨usable, split, toward⟩ := approaches
  refine ⟨usable, split, ?_⟩
  rwa [placeOf_congr grown.current, grown.startOf_eq]

theorem content?_of_directory {other : Place} (here : tree.statusAt other = .directory) :
    tree.content? other = none := by
  rw [Option.eq_none_iff_forall_ne_some]
  intro content found
  rw [statusAt_eq_directory, content?_eq_some.mp found] at here
  obtain wrong | ⟨_, wrong⟩ := here
  · cases wrong
  · cases wrong

theorem Closed.makeOne (closed : tree.Closed) (way : tree.Open place) {path : String}
    (approaches : tree.Approaches place path) :
    ∃ later, tree.makeOne path = .ok later ∧ later.Closed ∧ Grown tree later place := by
  obtain ⟨elements, tail, split, descends, idle⟩ := approaches.split
  have higher : tree.Open (tree.placeOf path) ∧ tree.content? (tree.placeOf path) = none := by
    obtain above | ⟨inside, differ⟩ := approaches.toward
    · have here : ∀ other, other <+: tree.placeOf path → tree.content? other = none :=
        fun other start =>
          content?_of_directory (closed.start path other (start.trans above))
      exact ⟨fun other start _ => here other start, here _ (prefix_refl _)⟩
    · exact ⟨way.of_prefix inside, way _ inside differ⟩
  have status := closed.status_eq approaches.usable split descends idle higher.1 (.inr higher.2)
  unfold FileTree.makeOne
  rw [status]
  by_cases here : tree.statusAt (tree.placeOf path) = .directory
  · rw [here]
    exact ⟨tree, rfl, closed, .refl tree place⟩
  · have missing := ((higher.1.statusAt_cases higher.2).resolve_left here).1
    obtain above | ⟨inside, differ⟩ := approaches.toward
    · exact absurd (closed.start path _ above) here
    · rw [missing]
      exact ⟨_, rfl, closed.addDirectories way inside differ⟩

theorem Closed.makeAll (closed : tree.Closed) (way : tree.Open place) {paths : List String}
    (approaches : ∀ path ∈ paths, tree.Approaches place path) :
    ∃ later, tree.makeAll paths = (later, none) ∧ later.Closed ∧ Grown tree later place := by
  induction paths generalizing tree with
  | nil => exact ⟨tree, rfl, closed, .refl tree place⟩
  | cons path paths ih =>
    obtain ⟨next, made, nextClosed, first⟩ :=
      closed.makeOne way (approaches path (mem_cons_self ..))
    obtain ⟨later, rest, laterClosed, second⟩ := ih nextClosed ((first.open_iff place).mpr way)
      fun path member => (approaches path (mem_cons_of_mem _ member)).grown first
    refine ⟨later, ?_, laterClosed, first.trans second⟩
    rw [FileTree.makeAll, made]
    exact rest

end Directories

section Files

variable {place : Place} {path content : String}

structure Added (tree later : FileTree) (place : Place) (content : String) : Prop where
  middle : ∃ middle, Grown tree middle place ∧ later.current = middle.current ∧
    ∀ other, later.entries.find? other =
      if other = place then some (.file content) else middle.entries.find? other

theorem Added.current {later : FileTree} (added : Added tree later place content) :
    later.current = tree.current := by
  obtain ⟨middle, grown, same, _⟩ := added.middle
  exact same.trans grown.current

theorem Added.content?_eq {later : FileTree} (added : Added tree later place content)
    (other : Place) :
    later.content? other = if other = place then some content else tree.content? other := by
  obtain ⟨middle, grown, _, entries⟩ := added.middle
  rw [← grown.content?_eq]
  unfold content?
  rw [entries]
  by_cases same : other = place
  · rw [if_pos same, if_pos same]
  · rw [if_neg same, if_neg same]

theorem prefix_dropLast {higher : Place} (start : higher <+: place) (differ : higher ≠ place) :
    higher <+: place.dropLast := by
  have shorter : higher.length < place.length :=
    lt_of_le_of_ne start.length_le fun same => differ (start.eq_of_length same)
  refine List.prefix_of_prefix_length_le start (List.dropLast_prefix place) ?_
  rw [List.length_dropLast]
  omega

theorem Closed.addFile (closed : tree.Closed) (way : tree.Open place)
    (new : tree.entries.find? place = none) (below : place ≠ []) (content : String) :
    (tree.addFile place content).Closed ∧
      Added tree (tree.addFile place content) place content := by
  have proper : place.dropLast ≠ place := by
    intro same
    have size := congrArg List.length same
    have long := List.length_pos_iff.mpr below
    rw [List.length_dropLast] at size
    omega
  obtain ⟨gone, grown⟩ := closed.addDirectories way (List.dropLast_prefix place) proper
  have inserted : ∀ other, (tree.addFile place content).entries.find? other =
      if other = place then some (.file content)
      else (tree.addDirectories place.dropLast).entries.find? other := by
    intro other
    by_cases same : other = place
    · rw [if_pos same, same]
      exact Table.find?_insert_self ..
    · rw [if_neg same]
      exact Table.find?_insert_of_ne same ..
  have absent : (tree.addDirectories place.dropLast).entries.find? place = none := by
    obtain same | ⟨_, differ, _⟩ := grown.entries place
    · rw [same, new]
    · exact absurd rfl differ
  -- Directories stay directories, since the place was none.
  have keeps : ∀ other, (tree.addDirectories place.dropLast).statusAt other = .directory →
      (tree.addFile place content).statusAt other = .directory := by
    intro other here
    have differ : other ≠ place := by
      rintro rfl
      obtain known | ⟨root, _⟩ := statusAt_eq_directory.mp here
      · rw [absent] at known
        cases known
      · exact below root
    rw [statusAt_eq_directory, inserted, if_neg differ]
    exact statusAt_eq_directory.mp here
  refine ⟨⟨?_, ?_, closed.named⟩, ⟨_, grown, rfl, inserted⟩⟩
  · intro lower entry found upper start differ
    rw [inserted] at found
    by_cases same : lower = place
    · subst same
      exact keeps upper (way.directory_addDirectories (List.dropLast_prefix lower) proper
        (prefix_dropLast start differ))
    · rw [if_neg same] at found
      exact keeps upper (gone.above lower entry found upper start differ)
  · intro upper start
    exact keeps upper (gone.working upper start)

theorem Closed.exists_form (closed : tree.Closed) (clean : ∃ source, path = Path.clean source)
    (vacant : tree.statusAt (tree.placeOf path) ≠ .directory) :
    ∃ rooted elements last, path = "/".intercalate (Path.lead rooted ++ elements ++ [last]) ∧
      Text.splitAt '/' path = Path.lead rooted ++ elements ++ [last] ∧
      Path.Descends (Path.lead rooted ++ elements ++ [last]) ∧ Path.IsName last ∧
      Path.Settled rooted elements.reverse ∧ ∀ element ∈ elements, Path.IsElement element := by
  obtain ⟨source, rfl⟩ := clean
  -- Where no element leads on, the path leads to a directory.
  have idles : ∀ path, (∀ element ∈ Text.splitAt '/' path, Path.IsIdle element) →
      tree.statusAt (tree.placeOf path) = .directory := by
    intro path idle
    rw [closed.placeOf_eq, foldl_step_idle idle]
    exact closed.start path _ (prefix_refl _)
  obtain here | here | ⟨rooted, elements, some, form, settled, plain⟩ := Path.exists_clean source
  · have idle : ∀ element ∈ ["."], Path.IsIdle element := by simp [Path.IsIdle]
    exact absurd (idles "." idle) (here ▸ vacant)
  · have idle : ∀ element ∈ ["", ""], Path.IsIdle element := by simp [Path.IsIdle]
    exact absurd (idles "/" idle) (here ▸ vacant)
  · have descends := Path.descends_of_settled settled plain
    have split : Text.splitAt '/' (Path.clean source) = Path.lead rooted ++ elements := by
      rw [form, Path.splitAt_spelled rooted some plain]
      rfl
    obtain ⟨ups, names, parts, down⟩ := Path.exists_of_settled settled
    rw [List.reverse_reverse] at parts
    have ends : names ≠ [] := by
      rintro rfl
      rw [append_nil] at parts
      refine vacant (closed.start (Path.clean source) _ ?_)
      have leads : ∀ element ∈ Path.lead rooted, Path.IsIdle element := by
        cases rooted <;> simp [Path.lead, Path.IsIdle]
      rw [closed.placeOf_eq, split, parts, foldl_append, foldl_step_idle leads]
      exact foldl_step_ups ..
    have last := List.dropLast_append_getLast ends
    refine ⟨rooted, replicate ups ".." ++ names.dropLast, names.getLast ends, ?_⟩
    have whole : replicate ups ".." ++ names.dropLast ++ [names.getLast ends] = elements := by
      rw [append_assoc, last, parts]
    rw [append_assoc (Path.lead rooted), whole]
    refine ⟨form.trans (Path.spelled_eq_intercalate rooted some), split, descends, ?_, ?_, ?_⟩
    · refine ⟨plain _ ?_, down _ (List.getLast_mem ends)⟩
      rw [parts]
      exact List.mem_append_right _ (List.getLast_mem ends)
    · rw [← whole, List.reverse_append] at settled
      exact settled.1
    · intro element member
      exact plain element (whole ▸ mem_append_left _ member)

section Target

variable (closed : tree.Closed) (usable : Usable path) (clean : ∃ source, path = Path.clean source)
  (way : tree.Open (tree.placeOf path))
  (vacant : tree.statusAt (tree.placeOf path) ≠ .directory)
include closed usable clean way vacant

theorem Closed.status_of_clean : tree.status path =
      ((tree.content? (tree.placeOf path)).map Status.file).getD .missing := by
  obtain ⟨rooted, elements, last, _, split, descends, _⟩ := closed.exists_form clean vacant
  rw [closed.status_eq usable (by rw [split, append_nil]) descends (by simp) way (.inl rfl)]
  cases found : tree.content? (tree.placeOf path) with
  | none => exact ((way.statusAt_cases found).resolve_left vacant).1
  | some content =>
    unfold statusAt
    rw [content?_eq_some.mp found]
    rfl

theorem Closed.approaches_of_clean :
    ∀ beginning ∈ beginnings (Path.directory path) ++ [Path.directory path],
      tree.Approaches (tree.placeOf path) beginning := by
  obtain ⟨rooted, elements, last, form, split, descends, named, settled, plain⟩ :=
    closed.exists_form clean vacant
  intro beginning listed
  obtain ⟨⟨front, more, tail, parts, moreSome, divided, idle⟩, some, starts⟩ :=
    Path.leadsInto_of_mem_beginnings named.free plain settled form listed
  have same : Path.isAbsolute beginning = Path.isAbsolute path := by
    obtain ⟨rfl, relative⟩ | ⟨rest, rfl⟩ := starts
    · rw [relative]
      rfl
    · exact (Path.isAbsolute_append some rest).symm
  have startOf_eq : tree.startOf beginning = tree.startOf path := by
    unfold startOf
    rw [same]
  have placed : tree.placeOf beginning = front.foldl step (tree.startOf path) := by
    rw [closed.placeOf_eq, divided, foldl_append, foldl_step_idle idle, startOf_eq]
  obtain ⟨frontDescends, toward⟩ :=
    prefix_of_descends descends parts moreSome (tree.startOf path)
  refine ⟨usable.beginning some (starts.imp_left And.left) ?_, ⟨front, tail, divided, frontDescends,
    idle⟩, ?_⟩
  · intro element member
    rw [divided] at member
    rw [split, parts]
    exact (List.mem_append.mp member).imp (fun member => mem_append_left _ member)
      (idle element)
  · rwa [placed, startOf_eq, closed.placeOf_eq path, split]

theorem Closed.create (new : tree.content? (tree.placeOf path) = none) (content : String) :
    ∃ later, tree.create path content = (later, none) ∧ later.Closed ∧
      Added tree later (tree.placeOf path) content := by
  have status := closed.status_of_clean usable clean way vacant
  rw [new] at status
  have absent : tree.has path = false := by
    unfold has
    rw [status]
    rfl
  obtain ⟨later, made, laterClosed, grown⟩ :=
    closed.makeAll way (closed.approaches_of_clean usable clean way vacant)
  have nothing : tree.entries.find? (tree.placeOf path) = none :=
    ((way.statusAt_cases new).resolve_left vacant).2
  have below : tree.placeOf path ≠ [] :=
    fun root => vacant (statusAt_eq_directory.mpr (.inr ⟨root, nothing⟩))
  have laterNothing : later.entries.find? (tree.placeOf path) = none := by
    obtain same | ⟨_, differ, _⟩ := grown.entries (tree.placeOf path)
    · rw [same, nothing]
    · exact absurd rfl differ
  have laterWay := (grown.open_iff (tree.placeOf path)).mpr way
  have laterMissing := laterWay.statusAt_of_none laterNothing below
  have laterStatus : later.status path = .missing := by
    have same := placeOf_congr grown.current path
    rw [laterClosed.status_of_clean usable clean (same.symm ▸ laterWay)
      (by rw [same, laterMissing]; exact Status.noConfusion), same, grown.content?_eq, new]
    rfl
  have free : later.renameObstacle? path = none := by
    unfold renameObstacle?
    rw [laterStatus]
    exact if_neg usable.nonempty
  obtain ⟨lastClosed, ⟨middle, further, same, entries⟩⟩ :=
    laterClosed.addFile laterWay laterNothing below content
  refine ⟨later.addFile (tree.placeOf path) content, ?_, lastClosed,
    ⟨middle, grown.trans further, same, entries⟩⟩
  have made : tree.makeDirectory (Path.directory path) = (later, none) := made
  unfold FileTree.create replace
  rw [absent, if_neg Bool.false_ne_true, made]
  dsimp only
  rw [free, write, placeOf_congr grown.current]

end Target

end Files

end FileTree

end Schematic

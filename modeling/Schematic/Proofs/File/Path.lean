import Schematic.File.Path
import Schematic.Proofs.Text.Split

/-! # Joined paths -/

open List

namespace Schematic

namespace Path

/-- A path element that cleaning keeps. -/
structure IsElement (element : String) : Prop where
  nonempty : element ≠ ""
  elsewhere : element ≠ "."
  free : '/' ∉ element.toList

/-- An element that names an entry of the directory it stands in. -/
structure IsName (element : String) : Prop extends IsElement element where
  down : element ≠ ".."

theorem splitAt_append (first second : String) : Text.splitAt '/' (first ++ "/" ++ second) =
      Text.splitAt '/' first ++ Text.splitAt '/' second := by
  have parts : (first ++ "/" ++ second).toList = first.toList ++ '/' :: second.toList := by
    simp only [String.toList_append, append_assoc]
    rfl
  rw [Text.splitAt, parts, Text.splitList_append (by simp), map_append]
  rfl

theorem splitAt_of_free {element : String} (free : '/' ∉ element.toList) :
    Text.splitAt '/' element = [element] := by
  have pieces : Text.splitList (· == '/') element.toList = [element.toList] := by
    refine Text.splitList_of_free fun c member => ?_
    simp only [beq_eq_false_iff_ne]
    exact fun same => free (same ▸ member)
  rw [Text.splitAt, pieces, map_singleton, String.ofList_toList]

theorem free_of_mem_splitAt {path element : String} (member : element ∈ Text.splitAt '/' path) :
    '/' ∉ element.toList := by
  obtain ⟨piece, listed, rfl⟩ := mem_map.mp member
  rw [String.toList_ofList]
  intro slash
  simpa using Text.not_separator_of_mem_splitList listed slash

theorem splitAt_intercalate {names : List String} (some : names ≠ [])
    (free : ∀ name ∈ names, '/' ∉ name.toList) :
    Text.splitAt '/' ("/".intercalate names) = names := by
  induction names with
  | nil => exact absurd rfl some
  | cons name names ih =>
    have here := splitAt_of_free (free name (mem_cons_self ..))
    by_cases last : names = []
    · rw [last, String.intercalate_singleton, here]
    · rw [String.intercalate_cons_of_ne_nil last, splitAt_append, here,
        ih last fun name member => free name (mem_cons_of_mem _ member), singleton_append]

theorem mem_elements {path element : String} (member : element ∈ elements path) :
    IsElement element := by
  simp only [elements, mem_filter, Bool.and_eq_true, decide_eq_true_eq] at member
  exact ⟨member.2.1, member.2.2, free_of_mem_splitAt member.1⟩

theorem elements_append (first second : String) :
    elements (first ++ "/" ++ second) = elements first ++ elements second := by
  rw [elements, splitAt_append, filter_append]
  rfl

theorem elements_intercalate {names : List String} (plain : ∀ name ∈ names, IsElement name) :
    elements ("/".intercalate names) = names := by
  cases names with
  | nil => rfl
  | cons name names =>
    rw [elements, splitAt_intercalate (by simp) fun name member => (plain name member).free,
      filter_eq_self]
    intro element member
    simp [(plain element member).nonempty, (plain element member).elsewhere]

theorem addElement_down (rooted : Bool) (reversed : List String) {element : String}
    (down : element ≠ "..") : addElement rooted reversed element = element :: reversed :=
  if_pos down

theorem addElement_up_nil (rooted : Bool) :
    addElement rooted [] ".." = if rooted then [] else [".."] :=
  if_neg fun wrong => wrong rfl

theorem addElement_up_cons (rooted : Bool) (last : String) (rest : List String) :
    addElement rooted (last :: rest) ".." = if last = ".." then ".." :: last :: rest else rest :=
  if_neg fun wrong => wrong rfl

theorem foldl_addElement_names (rooted : Bool) (reversed : List String) {names : List String}
    (down : ∀ name ∈ names, name ≠ "..") :
    names.foldl (addElement rooted) reversed = names.reverse ++ reversed := by
  induction names generalizing reversed with
  | nil => rfl
  | cons name names ih =>
    rw [foldl_cons, addElement_down rooted reversed (down name (mem_cons_self ..)),
      ih _ fun name member => down name (mem_cons_of_mem _ member), reverse_cons,
      append_assoc, singleton_append]

theorem exists_resolved {path : String} {front names : List String}
    (divided : Text.splitAt '/' path = front ++ names) (plain : ∀ name ∈ names, IsName name) :
    ∃ place, resolved path = place ++ names := by
  have kept : names.filter (fun element => element ≠ "" && element ≠ ".") = names := by
    rw [filter_eq_self]
    intro name member
    simp [(plain name member).nonempty, (plain name member).elsewhere]
  rw [resolved, elements, divided, filter_append, kept, foldl_append,
    foldl_addElement_names _ _ fun name member => (plain name member).down, reverse_append,
    reverse_reverse]
  exact ⟨_, rfl⟩

def Settled (rooted : Bool) : List String → Prop
  | [] => True
  | last :: earlier =>
    Settled rooted earlier ∧ (last = ".." → rooted = false ∧ ∀ element ∈ earlier, element = "..")

theorem settled_addElement {rooted : Bool} {reversed : List String}
    (settled : Settled rooted reversed) (element : String) :
    Settled rooted (addElement rooted reversed element) := by
  by_cases up : element = ".."
  · subst up
    cases reversed with
    | nil =>
      rw [addElement_up_nil]
      cases rooted with
      | true => trivial
      | false => exact ⟨trivial, fun _ => ⟨rfl, by simp⟩⟩
    | cons last rest =>
      rw [addElement_up_cons]
      obtain ⟨restSettled, ends⟩ := settled
      by_cases lastUp : last = ".."
      · rw [if_pos lastUp]
        obtain ⟨relative, same⟩ := ends lastUp
        refine ⟨⟨restSettled, ends⟩, fun _ => ⟨relative, ?_⟩⟩
        intro element member
        obtain rfl | member := mem_cons.mp member
        · exact lastUp
        · exact same element member
      · rw [if_neg lastUp]
        exact restSettled
  · rw [addElement_down rooted reversed up]
    exact ⟨settled, fun wrong => absurd wrong up⟩

theorem addElement_of_settled {rooted : Bool} {last : String} {earlier : List String}
    (settled : Settled rooted (last :: earlier)) :
    addElement rooted earlier last = last :: earlier := by
  obtain ⟨_, ends⟩ := settled
  by_cases up : last = ".."
  · subst up
    obtain ⟨rfl, same⟩ := ends rfl
    cases earlier with
    | nil => exact addElement_up_nil false
    | cons other earlier =>
      rw [addElement_up_cons, if_pos (same other (mem_cons_self ..))]
  · exact addElement_down rooted earlier up

theorem foldl_addElement_of_settled {rooted : Bool} {reversed : List String}
    (settled : Settled rooted reversed) :
    reversed.reverse.foldl (addElement rooted) [] = reversed := by
  induction reversed with
  | nil => rfl
  | cons last earlier ih =>
    rw [reverse_cons, foldl_append, ih settled.1, foldl_cons, foldl_nil,
      addElement_of_settled settled]

theorem settled_append {rooted : Bool} {reversed : List String}
    (settled : Settled rooted reversed) {names : List String} (down : ∀ name ∈ names, name ≠ "..") :
    Settled rooted (names ++ reversed) := by
  induction names with
  | nil => exact settled
  | cons name names ih =>
    exact ⟨ih fun name member => down name (mem_cons_of_mem _ member),
      fun up => absurd up (down name (mem_cons_self ..))⟩

theorem settled_resolved (path : String) : Settled (isAbsolute path) (resolved path).reverse := by
  rw [resolved, reverse_reverse]
  refine List.foldlRecOn (motive := Settled (isAbsolute path)) _ _ trivial ?_
  intro reversed settled element _
  exact settled_addElement settled element

theorem mem_addElement {rooted : Bool} {reversed : List String} {element other : String}
    (member : other ∈ addElement rooted reversed element) : other = element ∨ other ∈ reversed := by
  by_cases up : element = ".."
  · subst up
    cases reversed with
    | nil =>
      rw [addElement_up_nil] at member
      cases rooted with
      | true => cases member
      | false => exact .inl (mem_singleton.mp member)
    | cons last rest =>
      rw [addElement_up_cons] at member
      split at member
      · exact mem_cons.mp member
      · exact .inr (mem_cons_of_mem _ member)
  · rw [addElement_down rooted reversed up] at member
    exact mem_cons.mp member

theorem isElement_of_mem_resolved {path element : String} (member : element ∈ resolved path) :
    IsElement element := by
  rw [resolved, mem_reverse] at member
  revert element
  refine List.foldlRecOn (motive := fun reversed => ∀ {element}, element ∈ reversed →
    IsElement element) _ _ (by simp) ?_
  intro reversed known added listed element member
  obtain rfl | member := mem_addElement member
  · exact mem_elements listed
  · exact known member

def spelled (rooted : Bool) (elements : List String) : String :=
  if rooted then "/" ++ "/".intercalate elements else "/".intercalate elements

theorem splitAt_spelled (rooted : Bool) {elements : List String} (some : elements ≠ [])
    (plain : ∀ element ∈ elements, IsElement element) :
    Text.splitAt '/' (spelled rooted elements) = (if rooted then [""] else []) ++ elements := by
  have split := splitAt_intercalate some fun element member => (plain element member).free
  cases rooted with
  | false => exact split
  | true =>
    have parted := splitAt_append "" ("/".intercalate elements)
    rw [split] at parted
    exact parted

theorem spelled_injective {rooted : Bool} {first second : List String} (firstSome : first ≠ [])
    (secondSome : second ≠ []) (firstPlain : ∀ element ∈ first, IsElement element)
    (secondPlain : ∀ element ∈ second, IsElement element)
    (same : spelled rooted first = spelled rooted second) : first = second := by
  have split := splitAt_spelled rooted firstSome firstPlain
  rw [same, splitAt_spelled rooted secondSome secondPlain] at split
  exact (append_cancel_left split).symm

theorem isAbsolute_eq (path : String) : isAbsolute path = (path.toList.head? == some '/') := by
  have mark : "/".toList = ['/'] := rfl
  rw [isAbsolute, Text.startsWith, mark]
  cases path.toList with
  | nil => rfl
  | cons c rest =>
    by_cases slash : c = '/'
    · simp [Text.dropStart?, slash]
    · simp [Text.dropStart?, slash, Ne.symm slash]

theorem isAbsolute_append {first : String} (some : first ≠ "") (second : String) :
    isAbsolute (first ++ second) = isAbsolute first := by
  rw [isAbsolute_eq, isAbsolute_eq, String.toList_append]
  cases start : first.toList with
  | nil => exact absurd (String.toList_inj.mp start) some
  | cons c rest => rfl

theorem isAbsolute_spelled (rooted : Bool) {elements : List String} (some : elements ≠ [])
    (plain : ∀ element ∈ elements, IsElement element) :
    isAbsolute (spelled rooted elements) = rooted := by
  cases rooted with
  | true => exact isAbsolute_append (by decide) _
  | false =>
    obtain ⟨element, elements, rfl⟩ := exists_cons_of_ne_nil some
    have here := plain element (mem_cons_self ..)
    have relative : isAbsolute element = false := by
      rw [isAbsolute_eq, beq_eq_false_iff_ne]
      exact fun start => here.free (mem_of_mem_head? start)
    by_cases last : elements = []
    · rw [last, spelled, String.intercalate_singleton]
      exact relative
    · rw [spelled, String.intercalate_cons_of_ne_nil last, String.append_assoc]
      exact (isAbsolute_append here.nonempty _).trans relative

theorem elements_spelled (rooted : Bool) {elements : List String}
    (plain : ∀ element ∈ elements, IsElement element) :
    Path.elements (spelled rooted elements) = elements := by
  cases rooted with
  | false => exact elements_intercalate plain
  | true => exact (elements_append "" _).trans (elements_intercalate plain)

theorem clean_eq_spelled {path : String} (some : resolved path ≠ []) :
    clean path = spelled (isAbsolute path) (resolved path) := by
  have plain : ∀ element ∈ resolved path, IsElement element :=
    fun element member => isElement_of_mem_resolved member
  have joined : "/".intercalate (resolved path) ≠ "" := by
    intro empty
    have none := elements_intercalate plain
    rw [empty] at none
    exact some none.symm
  simp only [clean, spelled, joined, ↓reduceIte]

theorem resolved_spelled {rooted : Bool} {elements : List String} (some : elements ≠ [])
    (plain : ∀ element ∈ elements, IsElement element)
    (settled : Settled rooted elements.reverse) :
    resolved (spelled rooted elements) = elements := by
  rw [resolved, isAbsolute_spelled rooted some plain, elements_spelled rooted plain]
  have folded := foldl_addElement_of_settled settled
  rw [reverse_reverse] at folded
  rw [folded, reverse_reverse]

theorem resolved_below {root : String} (some : root ≠ "") {names : List String}
    (plain : ∀ name ∈ names, IsName name) :
    resolved (root ++ "/" ++ "/".intercalate names) = resolved root ++ names := by
  rw [resolved, resolved, elements_append, elements_intercalate fun name member =>
    (plain name member).toIsElement, String.append_assoc, isAbsolute_append some,
    foldl_append, foldl_addElement_names _ _ fun name member => (plain name member).down,
    reverse_append, reverse_reverse]

theorem join_eq_spelled (root : String) {names : List String} (some : names ≠ [])
    (plain : ∀ name ∈ names, IsName name) :
    join (root :: names) = spelled (isAbsolute root) (resolved root ++ names) := by
  have kept : names.filter (· ≠ "") = names := by
    rw [filter_eq_self]
    intro name member
    simp [(plain name member).nonempty]
  have elements : ∀ name ∈ names, IsElement name :=
    fun name member => (plain name member).toIsElement
  by_cases empty : root = ""
  · have down : resolved ("/".intercalate names) = names := by
      rw [resolved, elements_intercalate elements, foldl_addElement_names _ _ fun name member =>
        (plain name member).down, append_nil, reverse_reverse]
    have joined : join (root :: names) = clean ("/".intercalate names) := by
      rw [join, empty, filter_cons_of_neg (by simp), kept]
      split
      · exact absurd rfl some
      · rfl
    rw [joined, clean_eq_spelled (by rwa [down]), down, empty]
    exact congrArg (spelled · names) (isAbsolute_spelled false some elements)
  · have below := resolved_below empty plain
    have joined : join (root :: names) = clean (root ++ "/" ++ "/".intercalate names) := by
      rw [join, filter_cons_of_pos (by simpa using empty), kept]
      exact congrArg clean (String.intercalate_cons_of_ne_nil some)
    rw [joined, clean_eq_spelled (by rw [below]; simp [some]), below, String.append_assoc,
      isAbsolute_append empty]

section Below

variable {root : String} {names others : List String} (some : names ≠ [])
  (plain : ∀ name ∈ names, IsName name)

include plain in
theorem isElement_of_mem_below {element : String} (member : element ∈ resolved root ++ names) :
    IsElement element := by
  obtain above | below := mem_append.mp member
  · exact isElement_of_mem_resolved above
  · exact (plain element below).toIsElement

include some plain

theorem join_injective (othersSome : others ≠ []) (othersPlain : ∀ name ∈ others, IsName name)
    (same : join (root :: names) = join (root :: others)) : names = others := by
  rw [join_eq_spelled root some plain, join_eq_spelled root othersSome othersPlain] at same
  exact append_cancel_left (spelled_injective (by simp [some]) (by simp [othersSome])
    (fun _ => isElement_of_mem_below plain) (fun _ => isElement_of_mem_below othersPlain) same)

theorem splitAt_join (start : String) :
    ∃ front, Text.splitAt '/' (join (start :: names)) = front ++ names := by
  rw [join_eq_spelled start some plain, splitAt_spelled _ (by simp [some])
    fun _ => isElement_of_mem_below plain, ← append_assoc]
  exact ⟨_, rfl⟩

theorem resolved_join : isAbsolute (join (root :: names)) = isAbsolute root ∧
    resolved (join (root :: names)) = resolved root ++ names := by
  have elements : ∀ element ∈ resolved root ++ names, IsElement element :=
    fun _ => isElement_of_mem_below plain
  have settled : Settled (isAbsolute root) (resolved root ++ names).reverse := by
    rw [reverse_append]
    refine settled_append (settled_resolved root) fun name member => ?_
    exact (plain name (mem_reverse.mp member)).down
  rw [join_eq_spelled root some plain]
  exact ⟨isAbsolute_spelled _ (by simp [some]) elements,
    resolved_spelled (by simp [some]) elements settled⟩

theorem join_join (othersSome : others ≠ []) (othersPlain : ∀ name ∈ others, IsName name) :
    join (join (root :: names) :: others) = join (root :: (names ++ others)) := by
  obtain ⟨rooted, place⟩ : isAbsolute (join (root :: names)) = isAbsolute root ∧ _ :=
    resolved_join some plain
  have bothPlain : ∀ name ∈ names ++ others, IsName name :=
    forall_mem_append.mpr ⟨plain, othersPlain⟩
  rw [join_eq_spelled _ othersSome othersPlain, rooted, place,
    join_eq_spelled root (by simp [some]) bothPlain, append_assoc]

end Below

end Path

end Schematic

import Mathlib.Data.List.Infix
import Schematic.File.Tree
import Schematic.Proofs.File.Path

/-! # The way to a clean path -/

open List

namespace Schematic

namespace Path

variable {rooted : Bool} {elements : List String} {last : String}

instance (element : String) : Decidable (IsName element) :=
  decidable_of_iff ((element ≠ "" ∧ element ≠ "." ∧ '/' ∉ element.toList) ∧ element ≠ "..")
    ⟨fun ⟨⟨nonempty, elsewhere, free⟩, down⟩ => ⟨⟨nonempty, elsewhere, free⟩, down⟩,
      fun name => ⟨⟨name.nonempty, name.elsewhere, name.free⟩, name.down⟩⟩

def IsIdle (element : String) : Prop :=
  element = "" ∨ element = "."

def Descends (elements : List String) : Prop :=
  ∃ lead ups names, elements = lead ++ List.replicate ups ".." ++ names ∧
    (∀ element ∈ lead, IsIdle element) ∧ ∀ name ∈ names, IsName name

theorem exists_of_settled {reversed : List String} (settled : Settled rooted reversed) :
    ∃ ups names, reversed.reverse = List.replicate ups ".." ++ names ∧
      ∀ name ∈ names, name ≠ ".." := by
  induction reversed with
  | nil => exact ⟨0, [], rfl, by simp⟩
  | cons last earlier ih =>
    obtain ⟨settled, ends⟩ := settled
    by_cases up : last = ".."
    · subst up
      obtain ⟨_, same⟩ := ends rfl
      refine ⟨earlier.length + 1, [], ?_, by simp⟩
      rw [eq_replicate_of_mem same, reverse_cons, reverse_replicate,
        length_replicate, append_nil, ← replicate_succ']
    · obtain ⟨ups, names, form, down⟩ := ih settled
      refine ⟨ups, names ++ [last], ?_, ?_⟩
      · rw [reverse_cons, form, append_assoc]
      · intro name member
        obtain member | member := mem_append.mp member
        · exact down name member
        · exact mem_singleton.mp member ▸ up

def lead (rooted : Bool) : List String :=
  if rooted then [""] else []

theorem spelled_eq_intercalate (rooted : Bool) (some : elements ≠ []) :
    spelled rooted elements = "/".intercalate (lead rooted ++ elements) := by
  cases rooted with
  | false => rfl
  | true =>
    have joined := String.intercalate_cons_of_ne_nil (s := "/") (t := "") some
    rw [String.empty_append] at joined
    exact joined.symm

theorem exists_clean (path : String) :
    clean path = "." ∨ clean path = "/" ∨ ∃ rooted elements, elements ≠ [] ∧
      clean path = spelled rooted elements ∧ Settled rooted elements.reverse ∧
      ∀ element ∈ elements, IsElement element := by
  by_cases some : resolved path = []
  · simp only [clean, some, String.intercalate_nil, ↓reduceIte]
    cases isAbsolute path with
    | true => exact .inr (.inl rfl)
    | false => exact .inl rfl
  · exact .inr (.inr ⟨_, _, some, clean_eq_spelled some, settled_resolved path,
      fun _ => isElement_of_mem_resolved⟩)

theorem descends_of_settled (settled : Settled rooted elements.reverse)
    (plain : ∀ element ∈ elements, IsElement element) : Descends (lead rooted ++ elements) := by
  obtain ⟨ups, names, form, down⟩ := exists_of_settled settled
  rw [reverse_reverse] at form
  refine ⟨lead rooted, ups, names, by rw [form, append_assoc], ?_, ?_⟩
  · cases rooted with
    | false => simp [lead]
    | true => simp [lead, IsIdle]
  · intro name member
    exact ⟨plain name (form ▸ mem_append_right _ member), down name member⟩

theorem clean_slash {path : String} (some : path ≠ "") : clean (path ++ "/") = clean path := by
  have same : resolved (path ++ "/") = resolved path := by
    have parts := elements_append path ""
    rw [String.append_empty] at parts
    rw [resolved, resolved, parts, isAbsolute_append some]
    simp [elements, Text.splitAt, Text.splitList]
  simp only [clean, same, isAbsolute_append some]

theorem clean_spelled (some : elements ≠ []) (plain : ∀ element ∈ elements, IsElement element)
    (settled : Settled rooted elements.reverse) :
    clean (spelled rooted elements) = spelled rooted elements := by
  have same := resolved_spelled some plain settled
  rw [clean_eq_spelled (by rwa [same]), same, isAbsolute_spelled rooted some plain]

theorem directory_append (free : '/' ∉ last.toList) (front : String) :
    directory (front ++ "/" ++ last) = clean (front ++ "/") := by
  have behind : (front ++ "/" ++ last).toList.reverse.dropWhile (· != '/') =
      (front ++ "/").toList.reverse := by
    rw [String.toList_append, reverse_append, dropWhile_append_of_pos]
    · simp
    · intro c member
      rw [bne_iff_ne]
      exact fun same => free (same ▸ mem_reverse.mp member)
  rw [directory, behind, reverse_reverse, String.ofList_toList]

theorem directory_of_free (free : '/' ∉ last.toList) : directory last = "." := by
  have behind : last.toList.reverse.dropWhile (· != '/') = [] := by
    rw [← append_nil last.toList.reverse, dropWhile_append_of_pos, dropWhile_nil]
    intro c member
    rw [bne_iff_ne]
    exact fun same => free (same ▸ mem_reverse.mp member)
  rw [directory, behind]
  rfl

section Directory

variable {rooted : Bool} {elements : List String} {last path beginning : String}

theorem exists_of_mem_beginnings (listed : beginning ∈ FileTree.beginnings path) :
    ∃ front more, Text.splitAt '/' path = front ++ more ∧ front ≠ [] ∧ more ≠ [] ∧
      beginning = "/".intercalate front ++ "/" := by
  obtain ⟨count, less, rfl⟩ := mem_map.mp listed
  rw [mem_range] at less
  refine ⟨_, _, (take_append_drop (count + 1) _).symm, ?_, ?_, rfl⟩
  · intro none
    have size := congrArg List.length none
    rw [length_take, length_nil] at size
    omega
  · intro none
    have size := congrArg List.length none
    rw [length_drop, length_nil] at size
    omega

theorem free_of_mem_lead (plain : ∀ element ∈ elements, IsElement element) :
    ∀ element ∈ lead rooted ++ elements, '/' ∉ element.toList := by
  intro element member
  obtain member | member := mem_append.mp member
  · cases rooted with
    | false => cases member
    | true =>
      rw [mem_singleton.mp member]
      decide
  · exact (plain element member).free

theorem spelled_ne_empty (some : elements ≠ []) (plain : ∀ element ∈ elements, IsElement element) :
    spelled rooted elements ≠ "" := by
  intro empty
  have same := elements_spelled rooted plain
  rw [empty] at same
  exact some same.symm

theorem leadsInto_of_mem_beginnings (free : '/' ∉ last.toList)
    (plain : ∀ element ∈ elements, IsElement element) (settled : Settled rooted elements.reverse)
    (form : path = "/".intercalate (lead rooted ++ elements ++ [last]))
    (listed : beginning ∈ FileTree.beginnings (directory path) ++ [directory path]) :
    (∃ front more tail, lead rooted ++ elements ++ [last] = front ++ more ∧ more ≠ [] ∧
      Text.splitAt '/' beginning = front ++ tail ∧ ∀ element ∈ tail, IsIdle element) ∧
    beginning ≠ "" ∧
      (beginning = "." ∧ isAbsolute path = false ∨ ∃ rest, path = beginning ++ rest) := by
  by_cases none : elements = []
  · subst none
    cases rooted with
    | false =>
      have here : directory path = "." := by
        rw [form]
        exact directory_of_free free
      have only : FileTree.beginnings "." ++ ["."] = ["."] := by decide
      rw [here, only, mem_singleton] at listed
      subst listed
      refine ⟨⟨[], [last], ["."], rfl, by simp, rfl, by simp [IsIdle]⟩, by decide, .inl ⟨rfl, ?_⟩⟩
      rw [isAbsolute_eq, beq_eq_false_iff_ne, form]
      exact fun start => free (mem_of_mem_head? start)
    | true =>
      have parts : path = "" ++ "/" ++ last := form
      have here : directory path = "/" := by
        rw [parts, directory_append free]
        rfl
      have only : FileTree.beginnings "/" ++ ["/"] = ["/", "/"] := by decide
      rw [here, only] at listed
      obtain rfl : beginning = "/" := by simpa using listed
      exact ⟨⟨[""], [last], [""], rfl, by simp, rfl, by simp [IsIdle]⟩, by decide,
        .inr ⟨last, parts⟩⟩
  · have aboveSome : lead rooted ++ elements ≠ [] := by simp [none]
    have above := spelled_eq_intercalate rooted none
    have aboveFree : ∀ element ∈ lead rooted ++ elements, '/' ∉ element.toList :=
      free_of_mem_lead plain
    have parts : path = "/".intercalate (lead rooted ++ elements) ++ "/" ++ last := by
      rw [form, String.intercalate_append_of_ne_nil aboveSome (by simp),
        String.intercalate_singleton]
    have here : directory path = "/".intercalate (lead rooted ++ elements) := by
      rw [parts, directory_append free, ← above, clean_slash (spelled_ne_empty none plain),
        clean_spelled none plain settled]
    have split := splitAt_intercalate aboveSome aboveFree
    rw [here] at listed
    obtain listed | listed := mem_append.mp listed
    · obtain ⟨front, more, divided, frontSome, moreSome, rfl⟩ := exists_of_mem_beginnings listed
      rw [split] at divided
      have frontFree : ∀ element ∈ front, '/' ∉ element.toList :=
        fun element member => aboveFree element (divided ▸ mem_append_left _ member)
      refine ⟨⟨front, more ++ [last], [""], by rw [divided, append_assoc], by simp, ?_,
        by simp [IsIdle]⟩, ?_, .inr ⟨"/".intercalate more ++ "/" ++ last, ?_⟩⟩
      · have ended := splitAt_append ("/".intercalate front) ""
        rw [String.append_empty, splitAt_intercalate frontSome frontFree] at ended
        exact ended
      · intro empty
        have chars := congrArg String.toList empty
        simp at chars
      · rw [parts, divided, String.intercalate_append_of_ne_nil frontSome moreSome]
        simp only [String.append_assoc]
    · rw [mem_singleton] at listed
      subst listed
      refine ⟨⟨lead rooted ++ elements, [last], [], rfl, by simp, by rw [split, append_nil],
        by simp⟩, ?_, .inr ⟨"/" ++ last, by rw [parts, String.append_assoc]⟩⟩
      rw [← above]
      exact spelled_ne_empty none plain

end Directory

end Path

/-- A path that no length and no character forbids. -/
structure FileTree.Usable (path : String) : Prop where
  nonempty : path ≠ ""
  valid : '\x00' ∉ path.toList
  short : path.utf8ByteSize ≤ longestPath
  names : ∀ element ∈ Text.splitAt '/' path, element.utf8ByteSize ≤ longestName

instance (path : String) : Decidable (FileTree.Usable path) :=
  decidable_of_iff (path ≠ "" ∧ '\x00' ∉ path.toList ∧ path.utf8ByteSize ≤ FileTree.longestPath ∧
      ∀ element ∈ Text.splitAt '/' path, element.utf8ByteSize ≤ FileTree.longestName)
    ⟨fun ⟨nonempty, valid, short, names⟩ => ⟨nonempty, valid, short, names⟩,
      fun usable => ⟨usable.nonempty, usable.valid, usable.short, usable.names⟩⟩

theorem FileTree.Usable.beginning {path beginning : String} (usable : Usable path)
    (some : beginning ≠ "") (form : beginning = "." ∨ ∃ rest, path = beginning ++ rest)
    (split : ∀ element ∈ Text.splitAt '/' beginning,
      element ∈ Text.splitAt '/' path ∨ Path.IsIdle element) : Usable beginning := by
  have names : ∀ element ∈ Text.splitAt '/' beginning, element.utf8ByteSize ≤ longestName := by
    intro element member
    obtain listed | rfl | rfl := split element member
    · exact usable.names element listed
    · decide
    · decide
  obtain rfl | ⟨rest, rfl⟩ := form
  · exact ⟨some, by decide, by decide, names⟩
  · have valid := usable.valid
    have short := usable.short
    rw [String.toList_append, mem_append, not_or] at valid
    rw [String.utf8ByteSize_append] at short
    exact ⟨some, valid.1, by omega, names⟩

end Schematic

import Schematic.Proofs.Hdl.Listing

/-! # Reading instances back

An instance is written in two forms. A reader of either checks every line around the associations:
the label and the target, the brackets of the two lists and the end. Both find the same associations
in the same order. -/

open List
open String (ofList ofList_toList toList_append toList_ofList)

namespace Schematic.Hdl

open Text Naming

/-- What an association says: a formal, the position in it and the actual. -/
structure Link where
  name : String
  position : String
  actual : String
  deriving DecidableEq, Repr

namespace Dialect

/-- A formal may stand behind the notice of a column that is too wide. -/
def readFormal (text : List Char) : String × String :=
  let text := (dropStart? badField.toList text).getD text
  (ofList (text.takeWhile isNameChar), ofList (text.dropWhile isNameChar).tail.dropLast)

/-- One line of a port or generic map. -/
def readLink? (dialect : Dialect) (text : List Char) : Option Link :=
  let text := text.dropWhile (· == ' ')
  match dialect with
  | .vhdl => do
    let (name, position) := readFormal (text.takeWhile (· != ' '))
    let behind := (text.dropWhile (· != ' ')).dropWhile (· == ' ')
    let actual ← dropStart? "=> ".toList behind
    return ⟨name, position, if ofList actual = "open" then "" else ofList actual⟩
  | .verilog => do
    let (formal, behind) ← splitFirst? ['('] (← dropStart? ['.'] text)
    let (name, position) := readFormal formal
    return ⟨name, position, ofList (← withoutLast? ')' behind)⟩

/-- All lines but the last end with a comma. -/
def readLinks? (dialect : Dialect) : List String → Option (List Link)
  | [] => some []
  | [line] => (dialect.readLink? line.toList).map ([·])
  | line :: lines => do
    let link ← dialect.readLink? (← withoutLast? ',' line.toList)
    return link :: (← readLinks? dialect lines)

/-- What stands around the associations of an instance: before its generics, between them and its
ports, before the ports where there are no generics, and behind them. -/
structure Frame where
  opening : List String
  between : List String
  bare : List String
  closing : String

def frame (dialect : Dialect) (label target : String) : Frame :=
  match dialect with
  | .vhdl =>
    let head := label ++ " : " ++ target
    ⟨[head, "   generic map ("], ["   )", "   port map ("], [head, "   port map ("], "   );"⟩
  | .verilog =>
    ⟨[target ++ " #("], [") " ++ label ++ " ("], [target ++ " " ++ label ++ " ("], ");"⟩

/-- The generic map and the port map of an instance, read from its lines. -/
def readInstance? (dialect : Dialect) (label target : String) (lines : List String) :
    Option (List Link × List Link) := do
  let frame := dialect.frame label target
  let lines ← if lines.getLast? = some frame.closing then some lines.dropLast else none
  match dropStart? frame.opening lines with
  | some lines =>
    let isGeneric (line : String) : Bool := frame.between.head? != some line
    let generics ← dialect.readLinks? (lines.takeWhile isGeneric)
    let ports ← dialect.readLinks? (← dropStart? frame.between (lines.dropWhile isGeneric))
    return (generics, ports)
  | none => return ([], ← dialect.readLinks? (← dropStart? frame.bare lines))

end Dialect

/-- A line that ends a statement. -/
def Ends (line : String) : Prop :=
  line.toList.getLast? = some ';'

instance (line : String) : Decidable (Ends line) :=
  inferInstanceAs (Decidable (_ = _))

namespace Association

def link (dialect : Dialect) (association : Association) : Link :=
  let actual := (association.actual.map (Expr.spell dialect)).getD ""
  match association.formal with
  | .index name position => ⟨name, toString position, actual⟩
  | formal => ⟨formal.spell dialect, "", actual⟩

theorem link_actual (dialect : Dialect) (association : Association) :
    (association.link dialect).actual = (association.actual.map (Expr.spell dialect)).getD "" := by
  rw [link]
  split <;> rfl

/-- The formal is an identifier, indexed or not, and the actual is one line other than `open` that
does not end a statement. -/
structure Linkable (association : Association) : Prop where
  formal : ∃ name, IsIdentifier name ∧ (association.formal = .signal name ∨
    ∃ position, association.formal = .index name position)
  actual : ∀ expression ∈ association.actual, expression.spell .vhdl ≠ "open" ∧
    ∀ dialect, Unbroken (expression.spell dialect) ∧ ¬Ends (expression.spell dialect)

end Association

variable {dialect : Dialect} {association : Association} {indent name tail : List Char}

theorem Dialect.readFormal_append {notice : List Char}
    (noticed : notice = [] ∨ notice = badField.toList) (nonempty : name ≠ [])
    (named : ∀ c ∈ name, isNameChar c = true) (ends : ∀ c ∈ tail.head?, isNameChar c = false) :
    readFormal (notice ++ (name ++ tail)) = (ofList name, ofList tail.tail.dropLast) := by
  have without : (dropStart? badField.toList (notice ++ (name ++ tail))).getD
      (notice ++ (name ++ tail)) = name ++ tail := by
    obtain rfl | rfl := noticed
    · obtain ⟨c, rest, rfl⟩ := exists_cons_of_ne_nil nonempty
      have other : ('%' == c) = false := by
        rw [beq_eq_false_iff_ne]
        rintro rfl
        exact absurd (named _ (mem_cons_self ..)) (by decide)
      have start : badField.toList = '%' :: "!(BADWIDTH)".toList := rfl
      simp [start, dropStart?, other]
    · rw [dropStart?_eq_some.mpr rfl, Option.getD_some]
  have parts : (name ++ tail).takeWhile isNameChar = name ∧
      (name ++ tail).dropWhile isNameChar = tail := by
    rw [takeWhile_append_of_pos named, dropWhile_append_of_pos named]
    cases tail with
    | nil => simp
    | cons c tail => simp [ends c rfl]
  rw [readFormal, without, parts.1, parts.2]

/-- What cannot stand in a formal of the dialect. -/
def Dialect.stops : Dialect → List Char
  | .vhdl => [' ', '\n']
  | .verilog => [' ', '\n', '(']

/-- A formal is written as a name and, where it has a position, that in brackets. -/
structure Association.Formal (dialect : Dialect) (association : Association)
    (name tail : List Char) : Prop where
  text : (association.formal.spell dialect).toList = name ++ tail
  nonempty : name ≠ []
  named : ∀ c ∈ name, isNameChar c = true
  ends : ∀ c ∈ tail.head?, isNameChar c = false
  free : ∀ c ∈ dialect.stops, c ∉ tail
  read : ((association.link dialect).name, (association.link dialect).position) =
    (ofList name, ofList tail.tail.dropLast)

namespace Association.Linkable

theorem exists_formal (linkable : association.Linkable) (dialect : Dialect) :
    ∃ name tail, association.Formal dialect name tail := by
  obtain ⟨name, identifier, whole | ⟨position, part⟩⟩ := linkable.formal
  · refine ⟨name.toList, [], ?_, ?_, identifier.chars, by simp, by simp, ?_⟩
    · simp [whole, Expr.spell]
    · simpa using identifier.nonempty
    · simp [link, whole, Expr.spell]
  · obtain ⟨first, last, spelled, apart⟩ : ∃ first last, association.formal.spell dialect =
        name ++ ofList [first] ++ toString position ++ ofList [last] ∧ isNameChar first = false ∧
          ∀ c ∈ dialect.stops, (c ≠ '-' ∧ c.isDigit = false) ∧ c ≠ first ∧ c ≠ last := by
      rw [part]
      cases dialect with
      | vhdl => exact ⟨'(', ')', rfl, by decide, by decide⟩
      | verilog => exact ⟨'[', ']', rfl, by decide, by decide⟩
    refine ⟨name.toList, first :: ((toString position).toList ++ [last]), ?_, ?_, identifier.chars,
      ?_, ?_, ?_⟩
    · simp [spelled]
    · simpa using identifier.nonempty
    · rintro c ⟨⟩
      exact apart.1
    · intro c stop
      obtain ⟨⟨unsigned, other⟩, notFirst, notLast⟩ := apart.2 c stop
      simp only [mem_cons, mem_append, not_mem_nil, or_false, not_or]
      exact ⟨notFirst, not_mem_toString_int unsigned other position, notLast⟩
    · simp [link, part]

theorem link_eq (linkable : association.Linkable) (alike : ∀ actual ∈ association.actual,
    actual.spell .vhdl = actual.spell .verilog) :
    association.link .vhdl = association.link .verilog := by
  have same : (association.actual.map (Expr.spell .vhdl)).getD "" =
      (association.actual.map (Expr.spell .verilog)).getD "" := by
    cases bound : association.actual with
    | none => rfl
    | some actual => exact alike actual bound
  obtain ⟨name, -, whole | ⟨position, part⟩⟩ := linkable.formal
  · rw [link, link, whole, same]
    rfl
  · rw [link, link, part, same]

end Association.Linkable

theorem Association.Formal.not_mem (form : association.Formal dialect name tail) {c : Char}
    (stop : c ∈ dialect.stops) : c ∉ name ++ tail := by
  have outside : ∀ c ∈ dialect.stops, isNameChar c = false := by cases dialect <;> decide
  rw [mem_append, not_or]
  refine ⟨fun member => ?_, form.free c stop⟩
  have inside := form.named c member
  rw [outside c stop] at inside
  cases inside

theorem dropWhile_indent (blank : ∀ c ∈ indent, c = ' ') {text : List Char}
    (visible : ∀ c ∈ text.head?, c ≠ ' ') : (indent ++ text).dropWhile (· == ' ') = text := by
  rw [dropWhile_append_of_pos fun c member => beq_iff_eq.mpr (blank c member)]
  cases text with
  | nil => rfl
  | cons c text => exact dropWhile_cons_of_neg (by simpa using visible c rfl)

/-- A padded formal has no blank but behind it, and reads as the formal. -/
theorem Association.Formal.padded (form : association.Formal .vhdl name tail) (column : Nat) :
    ∃ first rest gap,
      (padTo column (association.formal.spell .vhdl)).toList = first :: rest ++ gap ∧
      (∀ c ∈ gap, c = ' ') ∧ first ≠ ')' ∧ (∀ c ∈ Dialect.vhdl.stops, c ∉ first :: rest) ∧
      Dialect.readFormal (first :: rest) =
        ((association.link .vhdl).name, (association.link .vhdl).position) := by
  have solid := fun c => form.not_mem (c := c)
  have read := fun {notice} noticed => @Dialect.readFormal_append name tail notice noticed
    form.nonempty form.named form.ends
  rw [form.read]
  obtain ⟨blanks, gaps, padded⟩ | noticed :=
    Scan.padTo_cases column (association.formal.spell .vhdl)
  · obtain ⟨first, rest, rfl⟩ := exists_cons_of_ne_nil form.nonempty
    refine ⟨first, rest ++ tail, blanks, by rw [padded, form.text]; rfl, gaps, ?_, solid,
      read (.inl rfl)⟩
    rintro rfl
    exact absurd (form.named _ (mem_cons_self ..)) (by decide)
  · have bare : ∀ c ∈ Dialect.vhdl.stops, c ∉ badField.toList := by decide
    refine ⟨'%', "!(BADWIDTH)".toList ++ (name ++ tail), [], ?_, by simp, by decide,
      fun c stop => ?_, read (.inr rfl)⟩
    · rw [noticed, toList_append, form.text, append_nil]
      rfl
    · exact not_mem_append (bare c stop) (solid c stop)

theorem not_ends_append {first second : String} (before : ¬Ends first) (behind : ¬Ends second) :
    ¬Ends (first ++ second) := by
  rw [Ends, toList_append, getLast?_append]
  cases last : second.toList.getLast? with
  | none => exact before
  | some c => exact fun ends => behind (last.trans ends)

theorem not_ends_mark (front : String) {mark : String} (shown : mark.toList ≠ [])
    (unended : ¬Ends mark) : ¬Ends (front ++ mark) := by
  rwa [Ends, toList_append, getLast?_append_of_ne_nil _ shown]

namespace Dialect

def actualText (dialect : Dialect) (association : Association) : String :=
  match association.actual with
  | some actual => actual.spell dialect
  | none => match dialect with | .vhdl => "open" | .verilog => ""

def associate (dialect : Dialect) (column : Nat) (association : Association) : String :=
  match dialect with
  | .vhdl => association.vhdl column
  | .verilog => association.verilog

/-- An association line starts with its formal and ends with its actual. -/
structure Shows (text : String) : Prop where
  unbroken : Unbroken text
  marked : ∃ c ∈ text.toList, isBlank c = false
  starts : ∀ c ∈ text.toList.head?, c ≠ ' ' ∧ c ≠ ')'
  unended : ¬Ends text

theorem associate_vhdl (column : Nat) (association : Association) :
    vhdl.associate column association = padTo column (association.formal.spell .vhdl) ++ " => " ++
      vhdl.actualText association := by
  rw [associate, Association.vhdl, actualText]
  cases association.actual <;> rfl

theorem associate_verilog (column : Nat) (association : Association) :
    verilog.associate column association = "." ++ association.formal.spell .verilog ++ "(" ++
      verilog.actualText association ++ ")" := by
  rw [associate, Association.verilog, actualText]
  cases association.actual <;> rfl

variable (dialect : Dialect) (linkable : association.Linkable) (column : Nat)
include linkable

theorem actualText_of_linkable :
    Unbroken (dialect.actualText association) ∧ ¬Ends (dialect.actualText association) := by
  cases bound : association.actual with
  | none => cases dialect <;> rw [actualText, bound] <;> decide
  | some expression =>
    have spelled := (linkable.actual expression bound).2 dialect
    cases dialect <;> rwa [actualText, bound]

theorem shows_associate : Shows (dialect.associate column association) := by
  obtain ⟨behind, unended⟩ := actualText_of_linkable dialect linkable
  obtain ⟨name, tail, form⟩ := linkable.exists_formal dialect
  cases dialect with
  | vhdl =>
    obtain ⟨first, rest, gap, padded, blanks, starts, solid, -⟩ := form.padded column
    have text : (vhdl.associate column association).toList =
        first :: (rest ++ (gap ++ (" => ".toList ++ (vhdl.actualText association).toList))) := by
      simp [associate_vhdl, padded]
    have unbroken : '\n' ∉ gap := fun member => absurd (blanks _ member) (by decide)
    refine ⟨?_, ⟨'=', by simp [text], by decide⟩, ?_, ?_⟩
    · rw [associate_vhdl, unbroken_append, unbroken_append]
      refine ⟨⟨?_, by decide⟩, behind⟩
      rw [Unbroken, padded]
      exact not_mem_append (solid _ (by decide)) unbroken
    · rw [text]
      rintro c ⟨⟩
      refine ⟨?_, starts⟩
      rintro rfl
      exact solid ' ' (by decide) (mem_cons_self ..)
    · rw [associate_vhdl]
      exact not_ends_append (not_ends_mark _ (by simp) (by decide)) unended
  | verilog =>
    have plain : Unbroken (association.formal.spell .verilog) := by
      rw [Unbroken, form.text]
      exact form.not_mem (by decide)
    have dotted : (verilog.associate column association).toList.head? = some '.' := by
      rw [associate_verilog, toList_append, toList_append, toList_append, toList_append]
      rfl
    refine ⟨?_, ⟨'.', mem_of_mem_head? dotted, by decide⟩, by simp [dotted], ?_⟩
    · simp only [associate_verilog, unbroken_append, plain, behind, and_true]
      decide
    · rw [associate_verilog]
      exact not_ends_mark _ (by simp) (by decide)

theorem readLink?_associate {dialect : Dialect} (blank : ∀ c ∈ indent, c = ' ') :
    dialect.readLink? (indent ++ (dialect.associate column association).toList) =
      some (association.link dialect) := by
  have starts := (shows_associate dialect linkable column).starts
  obtain ⟨name, tail, form⟩ := linkable.exists_formal dialect
  have shown := dropWhile_indent blank fun c member => (starts c member).1
  cases dialect with
  | vhdl =>
    obtain ⟨first, rest, gap, padded, blanks, -, solid, read⟩ := form.padded column
    have text : (vhdl.associate column association).toList = first :: rest ++ ((gap ++ [' ']) ++
        ("=> ".toList ++ (vhdl.actualText association).toList)) := by
      simp [associate_vhdl, padded]
    have actual : (if vhdl.actualText association = "open" then ""
        else vhdl.actualText association) = (association.link .vhdl).actual := by
      rw [Association.link_actual, actualText]
      cases bound : association.actual with
      | none => rfl
      | some expression => exact if_neg (linkable.actual expression bound).1
    have pass : ∀ c ∈ first :: rest, (c != ' ') = true := fun c member =>
      bne_iff_ne.mpr (ne_of_mem_of_not_mem member (solid ' ' (by decide)))
    have behind : ∀ rest, ((gap ++ [' ']) ++ ("=> ".toList ++ rest)).dropWhile (· == ' ') =
        "=> ".toList ++ rest := by
      intro rest
      refine dropWhile_indent ?_ (by simp)
      simpa [or_imp, forall_and] using blanks
    have cut : ∀ rest, ((gap ++ [' ']) ++ rest).takeWhile (· != ' ') = [] ∧
        ((gap ++ [' ']) ++ rest).dropWhile (· != ' ') = (gap ++ [' ']) ++ rest := by
      intro rest
      cases gap with
      | nil => simp
      | cons c gap => simp [blanks c (mem_cons_self ..)]
    rw [readLink?, shown]
    simp only [text, takeWhile_append_of_pos pass, dropWhile_append_of_pos pass, cut, append_nil,
      read, behind, dropStart?_eq_some.mpr rfl, Option.bind_eq_bind, Option.bind_some,
      ofList_toList, actual]
    rfl
  | verilog =>
    have text : (verilog.associate column association).toList = ['.'] ++ ((name ++ tail) ++
        (['('] ++ ((verilog.actualText association).toList ++ [')']))) := by
      simp [associate_verilog, form.text]
    have actual : verilog.actualText association = (association.link .verilog).actual := by
      rw [Association.link_actual, actualText]
      cases association.actual <;> rfl
    have read := readFormal_append (.inl rfl) form.nonempty form.named form.ends
    rw [nil_append, ← form.read] at read
    have unopened := form.not_mem (by decide : '(' ∈ verilog.stops)
    rw [readLink?, shown]
    simp only [text, dropStart?_eq_some.mpr rfl, splitFirst?_pattern unopened, Option.bind_eq_bind,
      Option.bind_some, withoutLast?_concat, read, ofList_toList, actual]
    rfl

end Dialect

namespace Dialect

variable {associations : List Association} {column : Nat} {line : String}

/-- The lines of a list of associations. -/
def block (dialect : Dialect) (associations : List Association) : List String :=
  match dialect with
  | .vhdl => (Instance.vhdlAssociations associations).map (Lines.place 2)
  | .verilog => Instance.verilogAssociations associations

theorem Shows.append {text ending : String} (shows : Shows text) (ends : ending ∈ ["", ","]) :
    Shows (text ++ ending) := by
  obtain rfl | rfl : ending = "" ∨ ending = "," := by simpa using ends
  · rwa [String.append_empty]
  · obtain ⟨c, member, marked⟩ := shows.marked
    have longer : (text ++ ",").toList = text.toList ++ [','] := toList_append
    refine ⟨unbroken_append.mpr ⟨shows.unbroken, by decide⟩, ⟨c, ?_, marked⟩, ?_,
      not_ends_mark _ (by simp) (by decide)⟩
    · exact longer ▸ mem_append_left _ member
    · rw [longer, head?_append_of_ne_nil _ (ne_nil_of_mem member)]
      exact shows.starts

variable (linkable : ∀ a ∈ associations, a.Linkable)
include linkable

theorem shows_of_separated (listed : line ∈ separated "," (dialect.associate column) associations) :
    Shows line := by
  obtain ⟨association, member, ending, ends, rfl⟩ := Scan.mem_separated listed
  exact (shows_associate dialect (linkable association member) column).append ends

theorem exists_block (dialect : Dialect) :
    ∃ column depth, dialect.block associations =
      (separated "," (dialect.associate column) associations).map
        (repeated depth indentUnit ++ ·) := by
  have placed : ∀ column depth,
      ((separated "," (dialect.associate column) associations).flatMap Lines.ofText).map
        (Lines.place depth) = (separated "," (dialect.associate column) associations).map
          (repeated depth indentUnit ++ ·) := by
    intro column depth
    have visible : ∀ line ∈ separated "," (dialect.associate column) associations,
        isBlankText line = false := by
      intro line listed
      obtain ⟨c, member, marked⟩ := (shows_of_separated linkable listed).marked
      exact Scan.isBlankText_eq_false marked member
    rw [flatMap_congr fun line listed =>
      Scan.ofText_eq (shows_of_separated linkable listed).unbroken (visible line listed),
      flatMap_singleton']
    refine map_congr_left fun line listed => ?_
    rw [Lines.place, if_neg (Bool.not_eq_true _ ▸ visible line listed)]
  cases dialect with
  | vhdl => exact ⟨_, 2, placed _ 2⟩
  | verilog => exact ⟨0, 1, placed 0 1⟩

theorem readLinks?_block (dialect : Dialect) :
    dialect.readLinks? (dialect.block associations) = some (associations.map (·.link dialect)) := by
  obtain ⟨column, depth, lines⟩ := exists_block linkable dialect
  have blank : ∀ c ∈ (repeated depth indentUnit).toList, c = ' ' := fun _ =>
    Scan.eq_blank_of_mem_repeated
  rw [lines]
  clear lines
  fun_induction separated "," (dialect.associate column) associations with
  | case1 => rfl
  | case2 last =>
    rw [forall_mem_singleton] at linkable
    rw [map_singleton, readLinks?, toList_append, readLink?_associate linkable column blank]
    rfl
  | case3 association rest several ih =>
    rw [forall_mem_cons] at linkable
    obtain ⟨next, others, more⟩ : ∃ next others,
        separated "," (dialect.associate column) rest = next :: others := by
      cases rest with
      | nil => exact absurd rfl several
      | cons next others => cases others <;> exact ⟨_, _, rfl⟩
    have read := ih linkable.2
    rw [more, map_cons] at read
    rw [more, map_cons, map_cons, readLinks?, ← String.append_assoc, toList_append,
      show ",".toList = [','] by rfl, withoutLast?_concat, read, toList_append]
    · simp [readLink?_associate linkable.1 column blank]
    · simp

theorem quiet_of_mem_block (label target : String) (listed : line ∈ dialect.block associations) :
    ((dialect.frame label target).between.head? != some line) = true ∧ ¬Ends line := by
  obtain ⟨column, depth, lines⟩ := exists_block linkable dialect
  have blank : ∀ c ∈ (repeated depth indentUnit).toList, c = ' ' := fun _ =>
    Scan.eq_blank_of_mem_repeated
  rw [lines, mem_map] at listed
  obtain ⟨text, listed, rfl⟩ := listed
  have shows := shows_of_separated linkable listed
  obtain ⟨c, member, -⟩ := shows.marked
  refine ⟨bne_iff_ne.mpr fun same => ?_, not_ends_mark _ (ne_nil_of_mem member) shows.unended⟩
  have bracket : ∀ line ∈ (dialect.frame label target).between.head?,
      (line.toList.dropWhile (· == ' ')).head? = some ')' := by
    cases dialect with
    | vhdl => rintro _ ⟨⟩; decide
    | verilog => rintro _ ⟨⟩; simp
  have starts := bracket _ same
  rw [toList_append, dropWhile_indent blank fun c head => (shows.starts c head).1] at starts
  exact (shows.starts ')' starts).2 rfl

end Dialect

namespace Instance

variable {use : Instance}

theorem closeLast_concat (ending : String) (lines : List String) (last : String) :
    Lines.closeLast ending (lines ++ [last]) = lines ++ [last ++ ending] := by
  induction lines with
  | nil => rfl
  | cons line lines ih =>
    cases lines with
    | nil => rfl
    | cons next lines =>
      rw [cons_append, cons_append, Lines.closeLast, ← cons_append, ih]
      · rfl
      · simp

theorem nest_vhdlMap {associations : List Association} (filled : associations ≠ [])
    (title : String) : Lines.nest (vhdlMap title associations) =
      Lines.place 1 (title ++ " map (") :: Dialect.vhdl.block associations ++ ["   )"] := by
  have placed : Lines.place 1 ∘ Lines.place 1 = Lines.place 2 := funext (Scan.place_place 1 1)
  rw [vhdlMap, if_neg (by simpa using filled), Lines.nest, Lines.nest, map_append, map_cons,
    map_map, placed]
  rfl

/-- The label and the target are one line each, which does not end a statement. -/
structure Headed (use : Instance) : Prop where
  label : Unbroken use.label
  target : Unbroken use.target
  unended : ¬Ends use.target

/-- What comes before the ports. -/
def head (dialect : Dialect) (use : Instance) : List String :=
  let frame := dialect.frame use.label use.target
  if use.generics = [] then frame.bare
  else frame.opening ++ dialect.block use.generics ++ frame.between

theorem Headed.lines_eq (headed : use.Headed) (ported : use.ports ≠ []) (dialect : Dialect) :
    use.lines dialect = use.head dialect ++ dialect.block use.ports ++
      [(dialect.frame use.label use.target).closing] := by
  have ofText : ∀ {text : String} {c : Char}, c ∈ text.toList → isBlank c = false →
      Unbroken text → Lines.ofText text = [text] := fun member visible unbroken =>
    Scan.ofText_eq unbroken (Scan.isBlankText_eq_false visible member)
  cases dialect with
  | vhdl =>
    have title : Lines.ofText (use.label ++ " : " ++ use.target) =
        [use.label ++ " : " ++ use.target] := by
      refine ofText (c := ':') (by simp) (by decide) ?_
      exact unbroken_append.mpr ⟨unbroken_append.mpr ⟨headed.label, by decide⟩, headed.target⟩
    have whole : Lines.ofText (use.label ++ " : " ++ use.target) ++
        Lines.nest (vhdlMap "generic" use.generics ++ vhdlMap "port" use.ports) =
          use.head .vhdl ++ Dialect.vhdl.block use.ports ++ ["   )"] := by
      rw [title, Lines.nest, map_append, ← Lines.nest, ← Lines.nest, nest_vhdlMap ported, head]
      split
      case isTrue empty => simp [empty, vhdlMap, Lines.nest, Dialect.frame]; decide
      case isFalse filled => rw [nest_vhdlMap filled]; simp [Dialect.frame]; decide
    rw [lines, vhdl, whole, closeLast_concat]
    rfl
  | verilog =>
    have some : use.ports.isEmpty = false := by simpa using ported
    have titles : Lines.ofText (use.target ++ " #(") = [use.target ++ " #("] ∧
        Lines.ofText (") " ++ use.label ++ " (") = [") " ++ use.label ++ " ("] ∧
        Lines.ofText (use.target ++ " " ++ use.label ++ " (") =
          [use.target ++ " " ++ use.label ++ " ("] := by
      refine ⟨ofText (c := '(') (by simp) (by decide) ?_,
        ofText (c := '(') (by simp) (by decide) ?_,
        ofText (c := '(') (by simp) (by decide) ?_⟩ <;>
      simp only [unbroken_append, headed.label, headed.target] <;> decide
    rw [head]
    split
    case isTrue empty => simp [lines, verilog, empty, some, titles, Dialect.frame, Dialect.block]
    case isFalse filled =>
      simp [lines, verilog, filled, some, titles, Dialect.frame, Dialect.block]

theorem dropStart?_bare (dialect : Dialect) (label target : String) (lines : List String) :
    dropStart? (dialect.frame label target).opening
      ((dialect.frame label target).bare ++ lines) = none := by
  refine Option.eq_none_iff_forall_ne_some.mpr fun rest found => ?_
  have same := dropStart?_eq_some.mp found
  cases dialect with
  | vhdl => simp [Dialect.frame] at same
  | verilog =>
    have chars := congrArg String.toList (List.cons.inj same).1
    simp only [toList_append, append_assoc, append_cancel_left_eq] at chars
    have size := congrArg List.length chars
    cases label : label.toList with
    | nil => simp [label] at chars
    | cons c rest => simp [label] at size

theorem Headed.not_ends (headed : use.Headed)
    (linkable : ∀ a ∈ use.generics ++ use.ports, a.Linkable) (dialect : Dialect) :
    ∀ line ∈ use.head dialect ++ dialect.block use.ports, ¬Ends line := by
  obtain ⟨generics, ports⟩ := forall_mem_append.mp linkable
  have frame : ∀ line ∈ (dialect.frame use.label use.target).opening ++
      (dialect.frame use.label use.target).between ++
        (dialect.frame use.label use.target).bare, ¬Ends line := by
    have marked : ∀ front, ¬Ends (front ++ " (") ∧ ¬Ends (front ++ " #(") := fun front =>
      ⟨not_ends_mark _ (by simp) (by decide), not_ends_mark _ (by simp) (by decide)⟩
    have title : ¬Ends (use.label ++ " : " ++ use.target) :=
      not_ends_append (not_ends_mark _ (by simp) (by decide)) headed.unended
    cases dialect with
    | vhdl => simp [Dialect.frame, title]; decide
    | verilog => simp [Dialect.frame, marked]
  simp only [forall_mem_append] at frame
  rw [forall_mem_append, head]
  refine ⟨?_, fun line listed => (Dialect.quiet_of_mem_block ports "" "" listed).2⟩
  split
  · exact frame.2
  · simp only [forall_mem_append]
    exact ⟨⟨frame.1.1, fun line listed => (Dialect.quiet_of_mem_block generics "" "" listed).2⟩,
      frame.1.2⟩

theorem Headed.readInstance?_lines (headed : use.Headed) (ported : use.ports ≠ [])
    (linkable : ∀ a ∈ use.generics ++ use.ports, a.Linkable) (dialect : Dialect) :
    dialect.readInstance? use.label use.target (use.lines dialect) =
      some (use.generics.map (·.link dialect), use.ports.map (·.link dialect)) := by
  obtain ⟨generics, ports⟩ := forall_mem_append.mp linkable
  have read := Dialect.readLinks?_block ports dialect
  rw [headed.lines_eq ported, Dialect.readInstance?]
  simp only [getLast?_concat, ↓reduceIte, dropLast_concat, Option.bind_eq_bind, Option.bind_some,
    head]
  by_cases empty : use.generics = []
  · simp [dropStart?_bare, dropStart?_eq_some.mpr rfl, read, empty]
  · have quiet : ∀ line ∈ dialect.block use.generics,
        ((dialect.frame use.label use.target).between.head? != some line) = true :=
      fun _ listed => (Dialect.quiet_of_mem_block generics use.label use.target listed).1
    obtain ⟨line, rest, between⟩ : ∃ line rest,
        (dialect.frame use.label use.target).between = line :: rest := by
      cases dialect <;> exact ⟨_, _, rfl⟩
    rw [if_neg empty, append_assoc, append_assoc, dropStart?_eq_some.mpr rfl]
    simp only [takeWhile_append_of_pos quiet, dropWhile_append_of_pos quiet]
    have ports : dropStart? (line :: rest) (line :: (rest ++ dialect.block use.ports)) =
        some (dialect.block use.ports) := dropStart?_eq_some.mpr rfl
    simp [between, ports, Dialect.readLinks?_block generics, read]

/-- **Both forms of an instance say the same.** For an instance with a port, whose label, target and
actuals are single lines that do not end a statement, reading either form gives the associations in
their order, and the last line is the only one that ends a statement. -/
theorem associations_of_lines (use : Instance) (ported : use.ports ≠ []) (headed : use.Headed)
    (linkable : ∀ a ∈ use.generics ++ use.ports, a.Linkable) :
    (∀ dialect : Dialect,
      dialect.readInstance? use.label use.target (use.lines dialect) =
        some (use.generics.map (·.link dialect), use.ports.map (·.link dialect)) ∧
      (∃ closer ∈ (use.lines dialect).getLast?, Ends closer) ∧
      ∀ line ∈ (use.lines dialect).dropLast, ¬Ends line) ∧
    ((∀ a ∈ use.generics ++ use.ports, ∀ actual ∈ a.actual,
        actual.spell .vhdl = actual.spell .verilog) →
      Dialect.vhdl.readInstance? use.label use.target (use.lines .vhdl) =
        Dialect.verilog.readInstance? use.label use.target (use.lines .verilog)) := by
  have read := headed.readInstance?_lines ported linkable
  refine ⟨fun dialect => ⟨read dialect, ?_⟩, fun alike => ?_⟩
  · rw [headed.lines_eq ported, getLast?_concat, dropLast_concat]
    refine ⟨⟨_, rfl, ?_⟩, headed.not_ends linkable dialect⟩
    cases dialect with
    | vhdl => exact (by decide : Ends "   );")
    | verilog => exact (by decide : Ends ");")
  · have same : ∀ a ∈ use.generics ++ use.ports, a.link .vhdl = a.link .verilog :=
      fun a listed => (linkable a listed).link_eq (alike a listed)
    rw [forall_mem_append] at same
    rw [read, read, map_congr_left same.1, map_congr_left same.2]

/-- A generic, a port and a position of one that is left open. -/
theorem associations_of_adder :
    let use : Instance := ⟨"u1", "adder", [.bound "width" (.number 4)],
      [.bound "a" (.signal "x"), ⟨.index "b" 3, none⟩]⟩
    Dialect.vhdl.readInstance? use.label use.target (use.lines .vhdl) =
        Dialect.verilog.readInstance? use.label use.target (use.lines .verilog) ∧
      Dialect.verilog.readInstance? use.label use.target (use.lines .verilog) =
        some ([⟨"width", "", "4"⟩], [⟨"a", "", "x"⟩, ⟨"b", "3", ""⟩]) := by
  intro use
  have named : IsIdentifier "width" ∧ IsIdentifier "a" ∧ IsIdentifier "b" :=
    ⟨⟨by decide, isNameChar_of_all (by decide)⟩, ⟨by decide, isNameChar_of_all (by decide)⟩,
      ⟨by decide, isNameChar_of_all (by decide)⟩⟩
  have linkable : ∀ a ∈ use.generics ++ use.ports, a.Linkable := by
    have plain : ∀ actual ∈ [Expr.number 4, .signal "x"], actual.spell .vhdl ≠ "open" ∧
        ∀ dialect, Unbroken (actual.spell dialect) ∧ ¬Ends (actual.spell dialect) := by
      simp only [forall_mem_cons]
      refine ⟨⟨by decide, ?_⟩, ⟨by decide, ?_⟩, by simp⟩ <;>
      · intro dialect
        cases dialect <;> decide
    simp only [forall_mem_cons] at plain
    simp only [use, cons_append, nil_append, forall_mem_cons]
    refine ⟨⟨⟨_, named.1, .inl rfl⟩, ?_⟩, ⟨⟨_, named.2.1, .inl rfl⟩, ?_⟩,
      ⟨⟨_, named.2.2, .inr ⟨3, rfl⟩⟩, by simp⟩, by simp⟩
    · rintro _ ⟨⟩
      exact plain.1
    · rintro _ ⟨⟩
      exact plain.2.1
  obtain ⟨each, same⟩ := associations_of_lines use (by simp [use])
    ⟨by decide, by decide, by decide⟩ linkable
  exact ⟨same (by simp [use, Association.bound, Expr.spell]), (each .verilog).1⟩

/-- A target with a semicolon at its end. The first line ends a statement, as the last one does. -/
theorem target_ends_early :
    let use : Instance := ⟨"u", "m;", [], [.bound "a" (.signal "x")]⟩
    use.lines .vhdl = ["u : m;", "   port map (", "      a => x", "   );"] ∧
      Ends "u : m;" ∧ Ends "   );" :=
  ⟨by decide, by decide, by decide⟩

end Instance

end Schematic.Hdl

import Schematic.Proofs.Circuit.Body
import Schematic.Proofs.Circuit.Connection
import Schematic.Proofs.Table

/-! # Explicit net connections -/

open List

namespace Schematic

open Hdl Reporting

/-- The bit of a net that feeds a point: the first that lists it as a sink. -/
def Net.Feeds (net : Net) (point : Point) (bit : Nat) : Prop :=
  (∃ sinks, net.sinks[bit]? = some sinks ∧ point ∈ sinks) ∧
    ∀ earlier < bit, ∀ sinks, net.sinks[earlier]? = some sinks → point ∉ sinks

/-- A bit of a net, driven by its source. -/
def Net.Takes (net : Net) (link : ExprBit PortSignal × ExprBit PortSignal) : Prop :=
  ∃ (bit : Nat) (point : Point), net.sources[bit]? = some point ∧ point.isConnected = true ∧
    link = (.wired (.net net.id) bit, .wired (.net point.net) point.bit)

/-- A bit of another net, driven by the first bit of a net that lists it as a sink. -/
def Net.Gives (net : Net) (link : ExprBit PortSignal × ExprBit PortSignal) : Prop :=
  ∃ (point : Point) (bit : Nat), point.isConnected = true ∧ point.net ≠ net.id ∧
    net.Feeds point bit ∧ link = (.wired (.net point.net) point.bit, .wired (.net net.id) bit)

namespace Assignment

variable {α σ : Type} {scope : Scope σ}

theorem allLinks?_append {first second : List Assignment}
    {links others : List (ExprBit σ × ExprBit σ)}
    (one : allLinks? scope first = some links) (two : allLinks? scope second = some others) :
    allLinks? scope (first ++ second) = some (links ++ others) := by
  induction first generalizing links with
  | nil => cases one; exact two
  | cons assignment rest ih =>
    simp only [allLinks?] at one
    split at one
    case h_1 here _ head tail =>
      cases one
      simp only [cons_append, allLinks?, head, ih tail, append_assoc]
    case h_2 => cases one

theorem allLinks?_flatMap {make : α → List Assignment} {links : α → List (ExprBit σ × ExprBit σ)}
    {items : List α} (each : ∀ item ∈ items, allLinks? scope (make item) = some (links item)) :
    allLinks? scope (items.flatMap make) = some (items.flatMap links) := by
  induction items with
  | nil => rfl
  | cons item items ih =>
    exact allLinks?_append (each item (mem_cons_self ..))
      (ih fun item member => each item (mem_cons_of_mem _ member))

end Assignment

namespace WiringContext

variable {context : WiringContext} {circuit : Circuit} {net : Net} {points : List Point}
  {roots : List Assignment}

/-- The nets that a forced root feeds. -/
def fedNets (net : Net) : List Int :=
  Table.keys (Table.ofList ((fedBits net).map fun fed => (fed.1.net, ())))

/-- The assignments to a net from a forced root. -/
def feedTo (circuit : Circuit) (net : Net) (target : Int) : List Assignment :=
  ((circuit.net? target).map fun sink =>
    driveNet circuit sink (feedsOf net (fedBits net) target sink.width.toNat)).getD []

variable {roots : List Assignment} {point : Point} {target : Int}
  {link : ExprBit PortSignal × ExprBit PortSignal}

theorem eq_of_yields_forcedRoots (made : Yields context.forcedRoots roots) :
    roots = (context.circuit.nets.filter (·.forcedRoot)).flatMap fun net =>
      driveNet context.circuit net net.sources ++
        (fedNets net).flatMap (feedTo context.circuit net) := by
  refine made.concat_eq fun net part step => ?_
  obtain ⟨feeds, fed, step⟩ := step.bind
  rw [← yields_pure.mp step]
  refine congrArg _ (fed.concat_eq fun target part step => ?_)
  cases found : context.circuit.net? target with
  | none =>
    simp only [feedNet, found] at step
    rw [← yields_pure.mp step, feedTo, found]
    rfl
  | some sink =>
    simp only [feedNet, found] at step
    obtain ⟨loose, floats, step⟩ := step.bind
    obtain ⟨_, rfl⟩ := yields_floating floats
    rw [← yields_pure.mp step, feedTo, found, length_replicate]
    rfl

theorem exists_of_mem_forcedRoots (made : Yields context.forcedRoots roots)
    {assignment : Assignment} (listed : assignment ∈ roots) :
    ∃ net ∈ context.circuit.nets, net.forcedRoot = true ∧
      (assignment ∈ driveNet context.circuit net net.sources ∨
        ∃ target sink, context.circuit.net? target = some sink ∧ assignment ∈
          driveNet context.circuit sink (feedsOf net (fedBits net) target sink.width.toNat)) := by
  rw [eq_of_yields_forcedRoots made] at listed
  obtain ⟨net, own, listed⟩ := mem_flatMap.mp listed
  obtain ⟨present, forced⟩ := mem_filter.mp own
  refine ⟨net, present, forced, (mem_append.mp listed).imp_right fun listed => ?_⟩
  obtain ⟨target, _, listed⟩ := mem_flatMap.mp listed
  cases found : context.circuit.net? target with
  | none => simp [feedTo, found] at listed
  | some sink => exact ⟨target, sink, found, by simpa [feedTo, found] using listed⟩

theorem mem_fedBits {fed : Point × Nat} : fed ∈ fedBits net ↔
    (fed.1.isConnected = true ∧ fed.1.net ≠ net.id) ∧
      ∃ sinks, net.sinks[fed.2]? = some sinks ∧ fed.1 ∈ sinks := by
  simp only [fedBits, mem_flatMap, mem_map, mem_filter, Bool.and_eq_true, decide_eq_true_eq,
    Prod.exists, mem_zipIdx_iff_getElem?]
  constructor
  · rintro ⟨sinks, bit, listed, point, ⟨member, apart⟩, rfl⟩
    exact ⟨apart, sinks, listed, member⟩
  · rintro ⟨apart, sinks, listed, member⟩
    exact ⟨sinks, fed.2, listed, fed.1, ⟨member, apart⟩, rfl⟩

/-- The fed bits stand in the order of the bits that feed them. -/
theorem pairwise_fedBits (net : Net) : (fedBits net).Pairwise (·.2 ≤ ·.2) := by
  have ordered : net.sinks.zipIdx.Pairwise (·.2 < ·.2) := by
    rw [← pairwise_map, zipIdx_map_snd]
    exact pairwise_lt_range'
  rw [fedBits, pairwise_flatMap]
  refine ⟨fun entry _ => ?_, ordered.imp ?_⟩
  · rw [pairwise_map]
    exact pairwise_of_forall fun _ _ => Nat.le_refl _
  · intro first second less one here two there
    obtain ⟨_, _, rfl⟩ := mem_map.mp here
    obtain ⟨_, _, rfl⟩ := mem_map.mp there
    exact Nat.le_of_lt less

theorem feeds_of_find? {found : Point} {bit : Nat}
    (first : (fedBits net).find? (fun fed => fed.1 = point) = some (found, bit)) :
    net.Feeds point bit := by
  obtain rfl : found = point := by simpa using List.find?_some first
  obtain ⟨apart, here⟩ := mem_fedBits.mp (mem_of_find?_eq_some first)
  refine ⟨here, fun earlier less sinks listed member => ?_⟩
  obtain ⟨_, before, behind, split, none⟩ := find?_eq_some_iff_append.mp first
  have among : (found, earlier) ∈ fedBits net := mem_fedBits.mpr ⟨apart, sinks, listed, member⟩
  have ordered := pairwise_fedBits net
  rw [split] at among ordered
  obtain among | among := mem_append.mp among
  · simpa using none _ among
  · obtain same | among := mem_cons.mp among
    · exact Nat.ne_of_lt less (congrArg Prod.snd same)
    · exact Nat.not_le_of_lt less
        ((pairwise_cons.mp (pairwise_append.mp ordered).2.1).1 _ among)

theorem feeds_iff (connected : point.isConnected = true) (other : point.net ≠ net.id) {bit : Nat} :
    net.Feeds point bit ↔
      ∃ found, (fedBits net).find? (fun fed => fed.1 = point) = some (found, bit) := by
  refine ⟨fun feeds => ?_, fun ⟨found, first⟩ => feeds_of_find? first⟩
  obtain ⟨⟨sinks, listed, member⟩, least⟩ := feeds
  have among : (point, bit) ∈ fedBits net :=
    mem_fedBits.mpr ⟨⟨connected, other⟩, sinks, listed, member⟩
  cases first : (fedBits net).find? (fun fed => fed.1 = point) with
  | none => simpa using find?_eq_none.mp first _ among
  | some fed =>
    obtain ⟨found, place⟩ := fed
    obtain ⟨⟨others, here, also⟩, earliest⟩ := feeds_of_find? first
    obtain less | rfl | less := Nat.lt_trichotomy place bit
    · exact absurd also (least place less others here)
    · exact ⟨found, rfl⟩
    · exact absurd member (earliest bit less sinks listed)

theorem feedsOf_checked (indexed : circuit.Indexed) (placed : circuit.Placed)
    (present : net ∈ circuit.nets) (forced : net.forcedRoot = true) {width : Nat}
    (listed : point ∈ feedsOf net (fedBits net) target width) :
    Circuit.checkPoint circuit.nets point = .ok () := by
  obtain ⟨position, _, rfl⟩ := mem_map.mp listed
  split
  case h_2 => rfl
  case h_1 fed bit found =>
    obtain ⟨_, sinks, here, _⟩ := mem_fedBits.mp (mem_of_find?_eq_some found)
    obtain ⟨below, _⟩ := List.getElem?_eq_some_iff.mp here
    obtain none | length := (placed.roots net present forced).2.1
    · rw [none] at below
      cases below
    · have found := find?_of_nodup_map indexed.netIds present
      have within : ¬(((bit : Int) < 0 || net.width ≤ bit) = true) := by
        rw [Bool.or_eq_true, decide_eq_true_eq, decide_eq_true_eq]
        omega
      simp only [Circuit.checkPoint]
      split
      · rfl
      · simp only [found, within]
        rfl

/-- The links of a net or port to the points of its bits. -/
def linksOf (signal : PortSignal) (points : List Point) :
    List (ExprBit PortSignal × ExprBit PortSignal) :=
  (points.zipIdx.filter (·.1.isConnected)).reverse.map fun entry =>
    (.wired signal entry.2, .wired (.net entry.1.net) entry.1.bit)

theorem mem_linksOf {signal : PortSignal} :
    link ∈ linksOf signal points ↔ ∃ (bit : Nat) (point : Point), points[bit]? = some point ∧
      point.isConnected = true ∧ link = (.wired signal bit, .wired (.net point.net) point.bit) := by
  simp only [linksOf, mem_map, mem_reverse, mem_filter, Prod.exists, mem_zipIdx_iff_getElem?]
  constructor
  · rintro ⟨point, bit, ⟨here, connected⟩, rfl⟩
    exact ⟨bit, point, here, connected, rfl⟩
  · rintro ⟨bit, point, here, connected, rfl⟩
    exact ⟨point, bit, ⟨here, connected⟩, rfl⟩

theorem nodup_linksOf (signal : PortSignal) (points : List Point) :
    ((linksOf signal points).map Prod.fst).Nodup := by
  have distinct : ((points.zipIdx.filter (·.1.isConnected)).map Prod.snd).Nodup :=
    (filter_sublist.map Prod.snd).nodup (nodup_positions points)
  have mapped := (nodup_reverse.mpr distinct).map
    (f := fun bit : Nat => ExprBit.wired signal (bit : Int))
    fun first second same => Int.natCast_inj.mp (by simpa using same)
  rw [← map_reverse, map_map] at mapped
  rw [linksOf, map_map]
  exact mapped

theorem links?_driveNet (carries : circuit.Carries points) (present : net ∈ circuit.nets)
    (length : points = [] ∨ (points.length : Int) = net.width) :
    Assignment.allLinks? circuit.netScope (driveNet circuit net points) =
      some (linksOf (.net net.id) points) := by
  obtain rfl | length := length
  · rfl
  have nets := fun net => @Circuit.netScope_signal circuit carries.indexed net
  have declared := nets net present
  have short := carries.words net present
  rw [← length] at declared short
  have count : net.width.toNat = points.length := by omega
  rw [driveNet, count]
  exact carries.allLinks?_runs fun run member range source => Assignment.links?_of_map
    (carries.bits?_bitsOf declared short member) (carries.bits?_rangeOf nets member source)

/-- The links of another net to a forced root. -/
def feedLinks (circuit : Circuit) (net : Net) (target : Int) :
    List (ExprBit PortSignal × ExprBit PortSignal) :=
  ((circuit.net? target).map fun sink =>
    linksOf (.net target) (feedsOf net (fedBits net) target sink.width.toNat)).getD []

theorem mem_feedLinks (placed : circuit.Placed) (present : net ∈ circuit.nets)
    (forced : net.forcedRoot = true) :
    link ∈ (fedNets net).flatMap (feedLinks circuit net) ↔ 0 ≤ net.id ∧ net.Gives link := by
  have targets : ∀ target, target ∈ fedNets net ↔ ∃ fed ∈ fedBits net, fed.1.net = target := by
    intro target
    refine Table.mem_keys_insertAll.trans ?_
    simp
  constructor
  · intro listed
    obtain ⟨target, _, listed⟩ := mem_flatMap.mp listed
    cases found : circuit.net? target with
    | none => simp [feedLinks, found] at listed
    | some sink =>
      simp only [feedLinks, found, Option.map_some, Option.getD_some] at listed
      obtain ⟨position, point, here, connected, rfl⟩ := mem_linksOf.mp listed
      obtain ⟨below, rfl⟩ := List.getElem?_eq_some_iff.mp here
      simp only [feedsOf, getElem_map, getElem_range] at connected ⊢
      split at connected
      case h_2 => cases connected
      case h_1 fed bit first =>
        obtain rfl : fed = ⟨target, position⟩ := by simpa using List.find?_some first
        obtain ⟨⟨reached, other⟩, _⟩ := mem_fedBits.mp (mem_of_find?_eq_some first)
        exact ⟨of_decide_eq_true connected, _, bit, reached, other, feeds_of_find? first, rfl⟩
  · rintro ⟨natural, point, bit, connected, other, feeds, rfl⟩
    obtain ⟨sinks, listed, member⟩ := feeds.1
    obtain ⟨sink, found, positive, below⟩ := Circuit.net?_of_checkPoint
      ((placed.roots net present forced).2.2.2 point
        (mem_flatten.mpr ⟨sinks, mem_of_getElem? listed, member⟩)) connected
    refine mem_flatMap.mpr ⟨point.net, (targets _).mpr ⟨(point, bit),
      mem_fedBits.mpr ⟨⟨connected, other⟩, sinks, listed, member⟩, rfl⟩, ?_⟩
    simp only [feedLinks, found, Option.map_some, Option.getD_some]
    have place : point = ⟨point.net, (point.bit.toNat : Nat)⟩ := by
      rw [Int.toNat_of_nonneg positive]
    obtain ⟨source, first⟩ := (feeds_iff connected other).mp feeds
    rw [place] at first
    refine mem_linksOf.mpr ⟨point.bit.toNat, ⟨net.id, bit⟩, ?_, decide_eq_true natural, ?_⟩
    · have inside : point.bit.toNat < sink.width.toNat := by omega
      simp only [feedsOf, getElem?_map, getElem?_range inside, Option.map_some, first]
    · rw [Int.toNat_of_nonneg positive]

theorem wired_of_mem_feedLinks {bit : ExprBit PortSignal}
    (listed : bit ∈ (feedLinks circuit net target).map Prod.fst) :
    ∃ position : Nat, bit = .wired (.net target) position := by
  obtain ⟨link, member, rfl⟩ := mem_map.mp listed
  rw [feedLinks] at member
  cases found : circuit.net? target with
  | none => simp [found] at member
  | some sink =>
    rw [found] at member
    obtain ⟨position, _, _, _, rfl⟩ := mem_linksOf.mp member
    exact ⟨position, rfl⟩

theorem nodup_feedLinks (circuit : Circuit) (net : Net) :
    (((fedNets net).flatMap (feedLinks circuit net)).map Prod.fst).Nodup := by
  have targets : (fedNets net).Nodup := (Table.ordered_nil.insertAll _).nodup
  rw [map_flatMap, nodup_flatMap]
  refine ⟨fun target _ => ?_, targets.imp fun differ link here there => differ ?_⟩
  · rw [feedLinks]
    cases circuit.net? target with
    | none => exact nodup_nil
    | some sink => exact nodup_linksOf ..
  · obtain ⟨_, rfl⟩ := wired_of_mem_feedLinks here
    obtain ⟨_, same⟩ := wired_of_mem_feedLinks there
    simp only [ExprBit.wired.injEq, PortSignal.net.injEq] at same
    exact same.1

/-- **Explicit nets are wired exactly.** The assignments for the forced roots of a checked circuit
are those for each root in turn. Bit by bit they are: each bit of the root from its connected
source, and, unless the root has a negative id, each bit of another net from the first bit of the
root that lists it as a sink. No bit is assigned twice. -/
theorem forcedRoots_wired {draft : DraftCircuit} (checked : draft.check = .ok context.circuit)
    (words : ∀ net ∈ context.circuit.nets, Word.fits net.width = true)
    (made : Yields context.forcedRoots roots) :
    ∃ part : Net → List Assignment,
      roots = (context.circuit.nets.filter (·.forcedRoot)).flatMap part ∧
      ∀ net ∈ context.circuit.nets, net.forcedRoot = true → ∃ links,
        Assignment.allLinks? context.circuit.netScope (part net) = some links ∧
        (links.map Prod.fst).Nodup ∧
        ∀ link, link ∈ links ↔ net.Takes link ∨ 0 ≤ net.id ∧ net.Gives link := by
  have indexed := (DraftCircuit.indexed_of_check checked).2
  have placed := DraftCircuit.placed_of_check checked
  refine ⟨_, eq_of_yields_forcedRoots made, fun net present forced => ?_⟩
  obtain ⟨length, _, sources, _⟩ := placed.roots net present forced
  have own := links?_driveNet ⟨indexed, words, sources⟩ present length
  have fed : ∀ target ∈ fedNets net, Assignment.allLinks? context.circuit.netScope
      (feedTo context.circuit net target) = some (feedLinks context.circuit net target) := by
    intro target _
    rw [feedTo, feedLinks]
    cases found : context.circuit.net? target with
    | none => rfl
    | some sink =>
      obtain ⟨home, rfl⟩ := Circuit.net?_eq_some found
      have positive := indexed.netWidths sink home
      refine links?_driveNet ⟨indexed, words, fun point listed =>
        feedsOf_checked indexed placed present forced listed⟩ home (.inr ?_)
      rw [feedsOf, length_map, length_range]
      omega
  refine ⟨_, Assignment.allLinks?_append own (Assignment.allLinks?_flatMap fed), ?_, fun link => ?_⟩
  · rw [map_append, nodup_append']
    refine ⟨nodup_linksOf .., nodup_feedLinks .., fun bit here there => ?_⟩
    obtain ⟨link, mine, rfl⟩ := mem_map.mp here
    obtain ⟨_, _, _, _, rfl⟩ := mem_linksOf.mp mine
    obtain ⟨given, theirs, same⟩ := mem_map.mp there
    obtain ⟨_, _, _, _, other, _, rfl⟩ := (mem_feedLinks placed present forced).mp theirs
    simp only [ExprBit.wired.injEq, PortSignal.net.injEq] at same
    exact other same.1
  · rw [mem_append, mem_linksOf, mem_feedLinks placed present forced]
    rfl

/-- A bit that two bits of one net claim gets the lower one. -/
theorem forcedRoots_wired_conflict :
    let root : Net :=
      ⟨1, 2, true, [⟨0, 1⟩, .unconnected], [[⟨2, 0⟩], [⟨2, 1⟩, ⟨2, 0⟩, ⟨1, 0⟩]], none⟩
    let nets : List Net := [⟨0, 2, false, [], [], none⟩, root, ⟨2, 2, false, [], [], none⟩]
    let main : Circuit := ⟨"main", nets, [], none⟩
    let context : WiringContext := ⟨⟨"d", "main", [main], []⟩, main, "main", 0, {}, {}⟩
    ∃ roots part, Yields context.forcedRoots roots ∧ roots = [root].flatMap part ∧
      ∃ links, Assignment.allLinks? main.netScope (part root) = some links ∧
        ∀ source, (.wired (.net 2) 0, source) ∈ links ↔ source = .wired (.net 1) 0 := by
  intro root nets main context
  have made : Yields context.forcedRoots _ := ⟨[], [], rfl⟩
  have checked : DraftCircuit.check ⟨"main", nets, [], none⟩ = .ok context.circuit := by rfl
  obtain ⟨part, split, each⟩ := forcedRoots_wired checked (by decide) made
  obtain ⟨links, wired, once, exactly⟩ := each root (mem_cons_of_mem _ (mem_cons_self ..)) rfl
  have first : root.Feeds ⟨2, 0⟩ 0 := ⟨⟨[⟨2, 0⟩], rfl, by simp⟩, fun earlier less => by omega⟩
  have given := (exactly (.wired (.net 2) 0, .wired (.net 1) 0)).mpr
    (.inr ⟨by decide, ⟨2, 0⟩, 0, rfl, by decide, first, rfl⟩)
  refine ⟨_, part, made, split, links, wired, fun source => ⟨fun listed => ?_, fun same => ?_⟩⟩
  · exact congrArg Prod.snd (inj_on_of_nodup_map once listed given rfl)
  · rw [same]
    exact given

/-- A net with a negative number passes the check, but drives nothing. -/
theorem negative_root_feeds_nothing :
    let root : Net := ⟨-5, 1, true, [], [[⟨3, 0⟩]], none⟩
    let nets : List Net := [root, ⟨3, 1, false, [], [], none⟩]
    let main : Circuit := ⟨"main", nets, [], none⟩
    let context : WiringContext := ⟨⟨"d", "main", [main], []⟩, main, "main", 0, {}, {}⟩
    DraftCircuit.check ⟨"main", nets, [], none⟩ = .ok main ∧ Yields context.forcedRoots [] ∧
      root.Gives (.wired (.net 3) 0, .wired (.net (-5)) 0) := by
  have first : Net.Feeds ⟨-5, 1, true, [], [[⟨3, 0⟩]], none⟩ ⟨3, 0⟩ 0 :=
    ⟨⟨[⟨3, 0⟩], rfl, by simp⟩, fun earlier less => by omega⟩
  exact ⟨rfl, ⟨[], [], rfl⟩, ⟨3, 0⟩, 0, rfl, by decide, first, rfl⟩

end WiringContext

end Schematic

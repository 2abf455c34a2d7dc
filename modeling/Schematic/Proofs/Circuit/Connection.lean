import Schematic.Circuit.Wiring
import Schematic.Proofs.Circuit.Planning
import Schematic.Proofs.Circuit.Runs
import Schematic.Proofs.Hdl.Bits
import Schematic.Proofs.Report
import Schematic.Proofs.Outcome

/-! # Connected ports bit by bit -/

open List

namespace Schematic

open Hdl

variable {α β σ : Type} {run : Run}

/-- The signals that a connected port can reach. -/
inductive PortSignal where
  | net (id : Int)
  | wire
  deriving DecidableEq, Repr

theorem Net.id_of_signal_eq {first second : Net} (same : first.signal = second.signal) :
    first.id = second.id := by
  simp only [Net.signal] at same
  by_cases buses : first.isBus = second.isBus
  · rw [buses] at same
    exact Text.toString_int_injective ((String.append_right_inj _).mp same)
  · have lists := congrArg String.toList same
    cases firstBus : first.isBus <;> cases secondBus : second.isBus <;>
      simp [firstBus, secondBus] at lists buses

namespace Circuit

/-- The nets of a circuit by the names of their signals. -/
def netScope (circuit : Circuit) : Scope PortSignal := fun name =>
  (circuit.nets.find? (·.signal == name)).map fun net => (.net net.id, net.width)

theorem netScope_signal {circuit : Circuit} (indexed : circuit.Indexed) {net : Net}
    (member : net ∈ circuit.nets) :
    circuit.netScope net.signal = some (.net net.id, net.width) := by
  have signals : (circuit.nets.map (·.signal)).Nodup := by
    have ids := indexed.netIds
    rw [nodup_iff_pairwise_ne, pairwise_map] at ids ⊢
    exact ids.imp fun differ same => differ (Net.id_of_signal_eq same)
  simp only [netScope, find?_of_nodup_map signals member, Option.map_some]

end Circuit

namespace PortMapping

variable {mapping : PortMapping} {circuit : Circuit} {actual : Expr}

/-- What names stand for around a connected port. -/
def scope (mapping : PortMapping) (circuit : Circuit) : Scope PortSignal := fun name =>
  match mapping.wire with
  | some (wire, width) => if name = wire then some (.wire, width) else circuit.netScope name
  | none => circuit.netScope name

/-- The links that the assignments of a connected port make. -/
def links? (mapping : PortMapping) (circuit : Circuit) :
    Option (List (ExprBit PortSignal × ExprBit PortSignal)) :=
  Assignment.allLinks? (mapping.scope circuit) mapping.assignments

/-- The bit behind a bit: a bit of the wire takes the source of its only link. -/
def behind? (links : List (ExprBit PortSignal × ExprBit PortSignal))
    (bit : ExprBit PortSignal) : Option (ExprBit PortSignal) :=
  match bit with
  | .wired .wire _ _ =>
    match links.filter (·.1 = bit) with
    | [link] => some link.2
    | _ => none
  | _ => some bit

/-- What the bits of an input read, least significant first. -/
def reads? (mapping : PortMapping) (circuit : Circuit) : Option (List (ExprBit PortSignal)) := do
  let actual ← mapping.actual
  let bits ← actual.bits? (mapping.scope circuit)
  let links ← mapping.links? circuit
  let read ← bits.mapM (behind? links)
  return read.reverse

/-- The net bit that an expression bit stands for. -/
def pointOf? : ExprBit PortSignal → Option Point
  | .wired (.net id) position false => some ⟨id, position⟩
  | _ => none

/-- The net bits that the assignments of a connected port drive. -/
def assigned? (mapping : PortMapping) (circuit : Circuit) : Option (List Point) :=
  (mapping.links? circuit).map fun links => links.filterMap fun link => pointOf? link.1

/-- The net bits among the bits that a port is bound to, each with its position in the port, most
significant first. -/
def boundTo (bits : List (ExprBit PortSignal)) : List (Point × Nat) :=
  bits.reverse.zipIdx.reverse.filterMap fun port =>
    (pointOf? port.1).map fun point => (point, port.2)

/-- The net bit that a link drives, with the position of its source among the bits that a port is
bound to. -/
def drivenBy? (bits : List (ExprBit PortSignal))
    (link : ExprBit PortSignal × ExprBit PortSignal) : Option (Point × Nat) :=
  match pointOf? link.1, bits.reverse.zipIdx.find? (fun port => port.1 == link.2) with
  | some point, some port => some (point, port.2)
  | _, _ => none

/-- The net bits that an output drives, each with the bit of the port that drives it, most
significant first: those it is bound to, and those that the assignments drive. Every assignment
must take a bit of the port. -/
def drives? (mapping : PortMapping) (circuit : Circuit) : Option (List (Point × Nat)) := do
  let bits ← match mapping.actual with
    | some actual => actual.bits? (mapping.scope circuit)
    | none => some []
  let links ← mapping.links? circuit
  let assigned ← links.mapM (drivenBy? bits)
  return boundTo bits ++ assigned

section

variable {bits : List (ExprBit PortSignal)} {links : List (ExprBit PortSignal × ExprBit PortSignal)}
  (bound : mapping.actual = some actual)
  (spelled : actual.bits? (mapping.scope circuit) = some bits)
  (linked : mapping.links? circuit = some links)
include bound spelled linked

theorem reads?_eq {read : List (ExprBit PortSignal)}
    (followed : bits.mapM (behind? links) = some read) :
    mapping.reads? circuit = some read.reverse := by
  simp only [reads?, bound, spelled, linked, followed, bind, Option.bind, pure]

theorem drives?_eq {assigned : List (Point × Nat)}
    (followed : links.mapM (drivenBy? bits) = some assigned) :
    mapping.drives? circuit = some (boundTo bits ++ assigned) := by
  simp only [drives?, bound, spelled, linked, followed, bind, Option.bind, pure]

end

end PortMapping

theorem filter_of_nodup_map {κ : Type} [DecidableEq κ] {key : α → κ} {items : List α}
    (apart : (items.map key).Nodup) {item : α} (member : item ∈ items) :
    items.filter (fun other => key other = key item) = [item] := by
  induction items with
  | nil => cases member
  | cons first items ih =>
    rw [map_cons, nodup_cons] at apart
    obtain rfl | member := mem_cons.mp member
    · have others : items.filter (fun other => key other = key item) = [] := by
        rw [filter_eq_nil_iff]
        intro other present same
        exact apart.1 (of_decide_eq_true same ▸ mem_map_of_mem present)
      simp [others]
    · have differs : key first ≠ key item := fun same =>
        apart.1 (same ▸ mem_map_of_mem member)
      rw [filter_cons_of_neg (by simpa using differs)]
      exact ih apart.2 member

namespace Point

variable {point : Point}

theorem normal_of_connected (connected : point.isConnected = true) : point.normal = point := by
  simp only [normal, connected, ↓reduceIte]

theorem normal_of_unconnected (loose : point.isConnected = false) : point.normal = unconnected := by
  simp only [normal, loose, Bool.false_eq_true, ↓reduceIte]

theorem isConnected_normal (point : Point) : point.normal.isConnected = point.isConnected := by
  cases connected : point.isConnected with
  | true => rw [normal_of_connected connected, connected]
  | false => rw [normal_of_unconnected connected]; rfl

end Point

structure Circuit.Carries (circuit : Circuit) (points : List Point) : Prop where
  indexed : circuit.Indexed
  words : ∀ net ∈ circuit.nets, Word.fits net.width = true
  checked : ∀ point ∈ points, Circuit.checkPoint circuit.nets point = .ok ()

namespace Circuit

variable {circuit : Circuit}

theorem net?_of_checkPoint {point : Point}
    (checked : checkPoint circuit.nets point = .ok ()) (connected : point.isConnected = true) :
    ∃ net, circuit.net? point.net = some net ∧ 0 ≤ point.bit ∧ point.bit < net.width := by
  simp only [checkPoint, connected, Bool.not_true, Bool.false_eq_true, ↓reduceIte] at checked
  split at checked
  · cases checked
  case h_2 net found =>
    split at checked
    · cases checked
    case isFalse inside =>
      simp only [Bool.or_eq_true, decide_eq_true_eq, not_or, Int.not_lt, Int.not_le] at inside
      exact ⟨net, found, inside.1, inside.2⟩

theorem net?_eq_some {id : Int} {net : Net}
    (found : circuit.net? id = some net) : net ∈ circuit.nets ∧ net.id = id := by
  refine ⟨mem_of_find?_eq_some found, ?_⟩
  simpa using List.find?_some found

variable {circuit : Circuit} {points : List Point}

theorem Carries.counted (carries : circuit.Carries points) : ∀ point ∈ points, point.Counted := by
  intro point member connected
  obtain ⟨net, found, positive, below⟩ :=
    net?_of_checkPoint (carries.checked point member) connected
  have bounds := Word.fits_iff.mp (carries.words net (net?_eq_some found).1)
  exact ⟨positive, by omega⟩

theorem Carries.mem_spread (carries : circuit.Carries points) {run : Run}
    (member : run ∈ runs points) {entry : Point × Nat} (bit : entry ∈ run.spread) :
    entry.2 < points.length ∧ ∃ point ∈ points, point.normal = entry.1 := by
  have listed : entry ∈ (runs points).flatMap Run.spread := mem_flatMap.mpr ⟨run, member, bit⟩
  rw [flatMap_spread_runs carries.counted, mem_reverse, mem_map] at listed
  obtain ⟨source, placed, rfl⟩ := listed
  have position := mem_zipIdx' placed
  exact ⟨position.1, source.1, position.2 ▸ getElem_mem _, rfl⟩

end Circuit

theorem Run.high_mem_spread (run : Run) : (run.pointBelow 0, run.high) ∈ run.spread := by
  simp only [Run.spread, mem_map, mem_range]
  exact ⟨0, by simp [Run.width], by simp⟩

theorem Run.Coherent.isConnected_of_mem_spread (coherent : run.Coherent) {entry : Point × Nat}
    (bit : entry ∈ run.spread) : entry.1.isConnected = run.source.isSome := by
  obtain ⟨offset, _, rfl⟩ := mem_map.mp bit
  cases source : run.source with
  | none => simp [Run.pointBelow, source, Point.isConnected, Point.unconnected]
  | some range =>
    simpa [Run.pointBelow, source, Point.isConnected] using coherent.connected range source

theorem Run.rangeBits_port (coherent : run.Coherent) (signal : σ) :
    rangeBits signal run.high run.low = run.spread.map fun entry => .wired signal entry.2 := by
  have ordered := coherent.ordered
  have count : ((run.high : Int) - run.low + 1).toNat = run.width := by
    simp only [Run.width]
    omega
  simp only [rangeBits, count, Run.spread, map_map]
  apply map_congr_left
  intro offset member
  have below := mem_range.mp member
  simp only [Run.width] at below
  simp only [Function.comp_apply, ExprBit.wired.injEq, true_and, and_true]
  omega

theorem Run.rangeBits_net (coherent : run.Coherent) {range : NetRange}
    (source : run.source = some range) : rangeBits (PortSignal.net range.net) range.high range.low =
      run.spread.map fun entry => .wired (.net entry.1.net) entry.1.bit := by
  have aligned := coherent.aligned range source
  have ordered := coherent.ordered
  have count : (range.high - range.low + 1).toNat = run.width := by
    simp only [Run.width]
    omega
  simp only [rangeBits, count, Run.spread, map_map]
  apply map_congr_left
  intro offset _
  simp only [Function.comp_apply, Run.pointBelow, source]

namespace Circuit.Carries

variable {run : Run} {range : NetRange}

variable {circuit : Circuit} {points : List Point} (carries : circuit.Carries points)
include carries

theorem range_inside (member : run ∈ runs points) (source : run.source = some range) :
    ∃ net, circuit.net? range.net = some net ∧
      0 ≤ range.low ∧ range.low ≤ range.high ∧ range.high < net.width := by
  have coherent := coherent_of_mem_runs carries.counted member
  have highest : run.pointBelow 0 = ⟨range.net, range.high⟩ := by
    simp [Run.pointBelow, source]
  obtain ⟨_, point, present, normal⟩ := carries.mem_spread member run.high_mem_spread
  simp only [highest] at normal
  have connected : point.isConnected = true := by
    rw [← Point.isConnected_normal, normal]
    exact decide_eq_true (coherent.connected range source)
  rw [Point.normal_of_connected connected] at normal
  obtain ⟨net, found, _, below⟩ := net?_of_checkPoint (carries.checked point present) connected
  rw [normal] at found below
  have aligned := coherent.aligned range source
  have ordered := coherent.ordered
  exact ⟨net, found, (coherent.counted range source).1, by omega, below⟩

theorem bits?_rangeOf {scope : Scope PortSignal}
    (nets : ∀ net ∈ circuit.nets, scope net.signal = some (.net net.id, net.width))
    (member : run ∈ runs points) (source : run.source = some range) :
    (circuit.rangeOf range).bits? scope =
      some (run.spread.map fun entry => .wired (.net entry.1.net) entry.1.bit) := by
  obtain ⟨net, found, bounds⟩ := carries.range_inside member source
  obtain ⟨present, sameId⟩ := Circuit.net?_eq_some found
  simp only [Circuit.rangeOf, found]
  rw [Expr.bits?_bitsOf (nets net present) (carries.words net present) bounds, sameId,
    Run.rangeBits_net (coherent_of_mem_runs carries.counted member) source]

theorem bits?_bitsOf {σ : Type} {scope : Scope σ} {name : String} {signal : σ}
    (declared : scope name = some (signal, (points.length : Int)))
    (short : Word.fits points.length = true) (member : run ∈ runs points) :
    (run.bitsOf name points.length).bits? scope =
      some (run.spread.map fun entry => .wired signal entry.2) := by
  have coherent := coherent_of_mem_runs carries.counted member
  have below : run.high < points.length := (carries.mem_spread member run.high_mem_spread).1
  have ordered := coherent.ordered
  rw [Run.bitsOf, Expr.bits?_bitsOf declared short (by omega), Run.rangeBits_port coherent]

theorem isConnected_of_mem_spread (member : run ∈ runs points) {entry : Point × Nat}
    (bit : entry ∈ run.spread) : entry.1.isConnected = run.source.isSome :=
  (coherent_of_mem_runs carries.counted member).isConnected_of_mem_spread bit

theorem allLinks?_runs {scope : Scope PortSignal} {make : Run → NetRange → Assignment}
    {link : Point × Nat → ExprBit PortSignal × ExprBit PortSignal}
    (each : ∀ run ∈ runs points, ∀ range, run.source = some range →
      (make run range).links? scope = some (run.spread.map link)) :
    Assignment.allLinks? scope ((runs points).filterMap fun run => run.source.map (make run)) =
      some ((points.zipIdx.filter (·.1.isConnected)).reverse.map link) := by
  have linked : Assignment.allLinks? scope
      ((runs points).filterMap fun run => run.source.map (make run)) =
        some ((runs points).flatMap fun run => (run.spread.filter (·.1.isConnected)).map link) := by
    apply Assignment.allLinks?_filterMap
    intro run member
    cases source : run.source with
    | none =>
      simp only [Option.map_none, map_eq_nil_iff, filter_eq_nil_iff]
      intro entry bit
      simp [carries.isConnected_of_mem_spread member bit, source]
    | some range =>
      rw [filter_eq_self.mpr fun entry bit => by
        rw [carries.isConnected_of_mem_spread member bit, source, Option.isSome_some]]
      exact each run member range source
  rw [← map_flatMap, ← filter_flatMap, flatMap_spread_runs carries.counted,
    ← map_reverse, filter_map, map_map] at linked
  refine linked.trans ?_
  simp only [Function.comp_def, Point.isConnected_normal, filter_reverse, Option.some.injEq]
  apply map_congr_left
  intro entry member
  have connected : entry.1.isConnected = true :=
    (mem_filter.mp (mem_reverse.mp member)).2
  rw [Point.normal_of_connected connected]

theorem exists_run {point : Point} (present : point ∈ points) :
    ∃ run ∈ runs points, ∃ position, (point.normal, position) ∈ run.spread := by
  obtain ⟨position, within, rfl⟩ := mem_iff_getElem.mp present
  have listed : (points[position].normal, position) ∈ (runs points).flatMap Run.spread := by
    rw [flatMap_spread_runs carries.counted, mem_reverse, mem_map]
    exact ⟨(points[position], position), mk_mem_zipIdx_iff_getElem?.mpr (by simp [within]),
      rfl⟩
  obtain ⟨run, member, bit⟩ := mem_flatMap.mp listed
  exact ⟨run, member, position, bit⟩

theorem exists_unconnected_iff :
    (∃ point ∈ points, point.isConnected = false) ↔ ∃ run ∈ runs points, run.source = none := by
  constructor
  · rintro ⟨point, present, loose⟩
    obtain ⟨run, member, position, bit⟩ := carries.exists_run present
    have reached := carries.isConnected_of_mem_spread member bit
    rw [Point.isConnected_normal, loose] at reached
    exact ⟨run, member, by simpa using reached.symm⟩
  · rintro ⟨run, member, gap⟩
    obtain ⟨_, point, present, normal⟩ := carries.mem_spread member run.high_mem_spread
    refine ⟨point, present, ?_⟩
    rw [← Point.isConnected_normal, normal]
    simpa [gap] using carries.isConnected_of_mem_spread member run.high_mem_spread

end Circuit.Carries

theorem rangeBits_whole (signal : σ) (points : List Point) :
    rangeBits signal ((points.length : Int) - 1) 0 =
      points.zipIdx.reverse.map fun entry => .wired signal entry.2 := by
  have positions : points.zipIdx.reverse.map (fun entry => ExprBit.wired signal (entry.2 : Int)) =
      (points.zipIdx.map Prod.snd).reverse.map fun position : Nat =>
        ExprBit.wired signal (position : Int) := by
    simp only [← map_reverse, map_map, Function.comp_def]
  rw [positions, zipIdx_map_snd, reverse_range', map_map]
  have count : ((points.length : Int) - 1 - 0 + 1).toNat = points.length := by omega
  simp only [rangeBits, count]
  apply map_congr_left
  intro offset member
  have below := mem_range.mp member
  simp only [Function.comp_apply, ExprBit.wired.injEq, true_and, and_true]
  omega

theorem nodup_positions (points : List Point) : (points.zipIdx.map Prod.snd).Nodup := by
  rw [zipIdx_map_snd]
  exact nodup_range'

theorem map_zipIdx_fst (value : Point → β) (points : List Point) :
    points.zipIdx.map (fun entry => value entry.1) = points.map value := by
  apply ext_getElem <;> simp

theorem zipIdx_reverse_map (bit : Point × Nat → β) (points : List Point) :
    (points.zipIdx.reverse.map bit).reverse.zipIdx =
      points.zipIdx.map fun entry => (bit entry, entry.2) := by
  rw [← map_reverse, reverse_reverse]
  apply ext_getElem <;> simp

namespace PortNeed

variable {points : List Point}

/-- What a port is to be given where an end has this point. -/
def valueAt (need : PortNeed) (point : Point) : ExprBit PortSignal :=
  if point.isConnected then .wired (.net point.net) point.bit else .constant need.idle

theorem valueAt_normal (need : PortNeed) (point : Point) :
    need.valueAt point.normal = need.valueAt point := by
  cases connected : point.isConnected with
  | true => rw [Point.normal_of_connected connected]
  | false =>
    simp only [valueAt, Point.isConnected_normal, connected, Bool.false_eq_true, ↓reduceIte]

section ThroughWire

variable {circuit : Circuit} {points : List Point} (carries : circuit.Carries points)
  (need : PortNeed) (fresh : ∀ net ∈ circuit.nets, net.signal ≠ need.wire)
  (short : Word.fits points.length = true)

private abbrev wired (need : PortNeed) (circuit : Circuit) (points : List Point) : PortMapping :=
  need.throughWire circuit points.length (runs points)

private theorem scope_wire (circuit : Circuit) (points : List Point) :
    (need.wired circuit points).scope circuit need.wire = some (.wire, (points.length : Int)) := by
  simp only [PortMapping.scope, throughWire, ↓reduceIte]

private theorem bits?_wire (circuit : Circuit) (points : List Point) :
    (Expr.signal need.wire).bits? ((need.wired circuit points).scope circuit) =
      some (points.zipIdx.reverse.map fun entry => .wired .wire entry.2) := by
  simp only [Expr.bits?, need.scope_wire, Option.map_some, rangeBits_whole]

include carries fresh

private theorem scope_net : ∀ net ∈ circuit.nets,
    (need.wired circuit points).scope circuit net.signal = some (.net net.id, net.width) := by
  intro net member
  simp only [PortMapping.scope, throughWire, fresh net member, ↓reduceIte]
  exact Circuit.netScope_signal carries.indexed member

include short

theorem links?_throughWire_input (input : need.direction = .input) :
    (need.wired circuit points).links? circuit = some (points.zipIdx.reverse.map fun entry =>
        (.wired .wire entry.2, need.valueAt entry.1)) := by
  have linked : Assignment.allLinks? ((need.wired circuit points).scope circuit)
      ((runs points).filterMap (need.connectRun circuit points.length)) =
      some ((runs points).flatMap fun run =>
        run.spread.map fun entry => (.wired .wire entry.2, need.valueAt entry.1)) := by
    apply Assignment.allLinks?_filterMap
    intro run member
    have target := carries.bits?_bitsOf (need.scope_wire circuit points) short member
    cases source : run.source with
    | none =>
      simp only [connectRun, input, source]
      apply Assignment.links?_of_map target
      have idle : ∀ entry ∈ run.spread, need.valueAt entry.1 = .constant need.idle := by
        intro entry bit
        simp [valueAt, carries.isConnected_of_mem_spread member bit, source]
      rw [map_congr_left idle, map_const', Expr.bits?, Run.spread, length_map,
        length_range]
    | some range =>
      simp only [connectRun, input, source]
      apply Assignment.links?_of_map target
      rw [carries.bits?_rangeOf (scope_net carries need fresh) member source]
      congr 1
      apply map_congr_left
      intro entry bit
      simp [valueAt, carries.isConnected_of_mem_spread member bit, source]
  rw [← map_flatMap, flatMap_spread_runs carries.counted, ← map_reverse,
    map_map] at linked
  rw [PortMapping.links?]
  refine linked.trans ?_
  simp only [Function.comp_def, valueAt_normal]

theorem links?_throughWire_output (output : need.direction = .output) :
    (need.wired circuit points).links? circuit =
      some ((points.zipIdx.filter (·.1.isConnected)).reverse.map fun entry =>
        (.wired (.net entry.1.net) entry.1.bit, .wired .wire entry.2)) := by
  have made : need.connectRun circuit points.length = fun run => run.source.map fun range =>
      ⟨circuit.rangeOf range, run.bitsOf need.wire points.length⟩ := by
    funext run
    cases source : run.source <;> simp [connectRun, output, source]
  change Assignment.allLinks? _ ((runs points).filterMap (need.connectRun circuit points.length))
    = _
  rw [made]
  exact carries.allLinks?_runs fun run member range source => Assignment.links?_of_map
    (carries.bits?_rangeOf (scope_net carries need fresh) member source)
    (carries.bits?_bitsOf (need.scope_wire circuit points) short member)

theorem reads?_throughWire (input : need.direction = .input) :
    (need.wired circuit points).reads? circuit = some (points.map need.valueAt) := by
  have followed : ∀ entry ∈ points.zipIdx.reverse,
      PortMapping.behind? (points.zipIdx.reverse.map fun entry =>
        (.wired .wire entry.2, need.valueAt entry.1)) (.wired .wire entry.2) =
          some (need.valueAt entry.1) := by
    intro entry member
    have only := filter_of_nodup_map (nodup_positions points) (mem_reverse.mp member)
    simp only [PortMapping.behind?, filter_map, Function.comp_def, ExprBit.wired.injEq,
      true_and, and_true, Int.natCast_inj, filter_reverse, only, reverse_singleton,
      map_cons, map_nil]
  rw [PortMapping.reads?_eq rfl (need.bits?_wire circuit points)
    (links?_throughWire_input carries need fresh short input)
    (by rw [mapM_map]; exact mapM_eq_pure_map followed)]
  rw [← map_reverse, reverse_reverse, map_zipIdx_fst]

theorem assigned?_throughWire (input : need.direction = .input) :
    (need.wired circuit points).assigned? circuit = some [] := by
  rw [PortMapping.assigned?, links?_throughWire_input carries need fresh short input,
    Option.map_some, filterMap_map]
  simp [Function.comp_def, PortMapping.pointOf?]

theorem drives?_throughWire (output : need.direction = .output) :
    (need.wired circuit points).drives? circuit =
      some (points.zipIdx.filter (·.1.isConnected)).reverse := by
  have unbound : PortMapping.boundTo (points.zipIdx.reverse.map fun entry =>
      (.wired .wire entry.2)) = [] := by
    rw [PortMapping.boundTo, zipIdx_reverse_map, ← map_reverse, filterMap_map]
    simp [Function.comp_def, PortMapping.pointOf?]
  have followed : ∀ entry ∈ (points.zipIdx.filter (·.1.isConnected)).reverse,
      PortMapping.drivenBy? (points.zipIdx.reverse.map fun entry => (.wired .wire entry.2))
        (.wired (.net entry.1.net) entry.1.bit, .wired .wire entry.2) = some (id entry) := by
    intro entry member
    have listed := (mem_filter.mp (mem_reverse.mp member)).1
    have found := find?_of_nodup_map (nodup_positions points) listed
    have same : ∀ other : Point × Nat, ((ExprBit.wired PortSignal.wire (other.2 : Int)) ==
        ExprBit.wired PortSignal.wire (entry.2 : Int)) = (other.2 == entry.2) := by
      intro other
      rw [Bool.eq_iff_iff, beq_iff_eq, beq_iff_eq, ExprBit.wired.injEq]
      simp only [true_and, and_true]
      omega
    simp only [PortMapping.drivenBy?, PortMapping.pointOf?, zipIdx_reverse_map, List.find?_map,
      Function.comp_def, same, found, Option.map_some, id_eq]
  rw [PortMapping.drives?_eq rfl (need.bits?_wire circuit points)
    (links?_throughWire_output carries need fresh short output)
    (by rw [mapM_map]; exact mapM_eq_pure_map followed)]
  rw [unbound, nil_append, map_id]

end ThroughWire

/-- What a port does once it is connected: an input reads its points and drives no net, an output
drives its connected points and no other net bit, and a bidirectional port is one range of a net,
which has its points, or stays open. -/
def Meets (need : PortNeed) (circuit : Circuit) (points : List Point) (mapping : PortMapping) :
    Prop :=
  match need.direction with
  | .input =>
    mapping.reads? circuit = some (points.map need.valueAt) ∧ mapping.assigned? circuit = some []
  | .output =>
    mapping.drives? circuit = some (points.zipIdx.filter (·.1.isConnected)).reverse
  | .bidirectional =>
    mapping.wire = none ∧ mapping.assignments = [] ∧
      ((mapping.actual = none ∧ ∀ point ∈ points, point.isConnected = false) ∨
        ∃ range, mapping.actual = some (circuit.rangeOf range) ∧
          (circuit.rangeOf range).bits? circuit.netScope =
            some (points.map fun point => .wired (.net point.net) point.bit).reverse)

theorem connect_cases (need : PortNeed) (circuit : Circuit) (points : List Point) :
    (∃ run range, runs points = [run] ∧ run.source = some range ∧
        need.connect circuit points = .ok { actual := some (circuit.rangeOf range) }) ∨
      ((runs points).length ≤ 1 ∧ (∀ run ∈ runs points, run.source = none) ∧
        need.connect circuit points = if need.direction ≠ .input then .ok { actual := none }
          else if need.required then .error (.unconnected need.port)
          else .ok { actual := some (.fill need.idle points.length) }) ∨ (1 < (runs points).length ∧
        need.connect circuit points = match need.splitFault? (runs points) with
          | some fault => .error fault
          | none => .ok (need.throughWire circuit points.length (runs points))) := by
  cases grouped : runs points with
  | nil =>
    refine .inr (.inl ⟨by simp, by simp, ?_⟩)
    simp only [connect, grouped]
  | cons first rest =>
    cases rest with
    | nil =>
      cases source : first.source with
      | none =>
        refine .inr (.inl ⟨by simp, by simpa using source, ?_⟩)
        obtain ⟨high, low, _⟩ := first
        simp only at source
        subst source
        simp only [connect, grouped]
      | some range =>
        refine .inl ⟨first, range, rfl, source, ?_⟩
        obtain ⟨high, low, _⟩ := first
        simp only at source
        subst source
        simp only [connect, grouped]
    | cons second rest =>
      refine .inr (.inr ⟨by simp, ?_⟩)
      cases fault : need.splitFault? (first :: second :: rest) with
      | none => simp only [connect, grouped, fault]
      | some fault => simp only [connect, grouped, fault]

section Whole

variable {run : Run} {range : NetRange}

variable {circuit : Circuit} {points : List Point} (carries : circuit.Carries points)
include carries

theorem spread_of_single (grouped : runs points = [run]) (source : run.source = some range) :
    (∀ point ∈ points, point.isConnected = true) ∧ run.spread = points.zipIdx.reverse := by
  have connected : ∀ point ∈ points, point.isConnected = true := by
    intro point member
    cases reached : point.isConnected with
    | true => rfl
    | false =>
      obtain ⟨other, listed, gap⟩ := carries.exists_unconnected_iff.mp ⟨point, member, reached⟩
      rw [grouped, mem_singleton] at listed
      rw [listed, source] at gap
      cases gap
  refine ⟨connected, ?_⟩
  have unchanged : ∀ entry ∈ points.zipIdx, (entry.1.normal, entry.2) = id entry := by
    intro entry member
    rw [Point.normal_of_connected (connected entry.1 (fst_mem_of_mem_zipIdx member))]
    rfl
  have spread := flatMap_spread_runs carries.counted
  rw [grouped, flatMap_singleton, map_congr_left unchanged, map_id] at spread
  exact spread

theorem bits?_of_single (grouped : runs points = [run])
    (source : run.source = some range) {mapping : PortMapping} (unwired : mapping.wire = none) :
    (circuit.rangeOf range).bits? (mapping.scope circuit) =
      some (points.zipIdx.reverse.map fun entry => .wired (.net entry.1.net) entry.1.bit) := by
  have member : run ∈ runs points := by rw [grouped]; exact mem_singleton_self run
  have nets : ∀ net ∈ circuit.nets,
      mapping.scope circuit net.signal = some (.net net.id, net.width) := by
    intro net present
    rw [PortMapping.scope, unwired]
    exact Circuit.netScope_signal carries.indexed present
  rw [carries.bits?_rangeOf nets member source, (spread_of_single carries grouped source).2]

theorem reads?_of_single (need : PortNeed)
    (grouped : runs points = [run]) (source : run.source = some range) :
    PortMapping.reads? { actual := some (circuit.rangeOf range) } circuit =
      some (points.map need.valueAt) := by
  have connected := (spread_of_single carries grouped source).1
  have followed : ∀ entry ∈ points.zipIdx.reverse, PortMapping.behind? []
      (.wired (.net entry.1.net) entry.1.bit) = some (need.valueAt entry.1) := by
    intro entry member
    have present := fst_mem_of_mem_zipIdx (mem_reverse.mp member)
    simp only [PortMapping.behind?, valueAt, connected entry.1 present, ↓reduceIte]
  rw [PortMapping.reads?_eq rfl (bits?_of_single carries grouped source rfl) rfl
    (by rw [mapM_map]; exact mapM_eq_pure_map followed)]
  rw [← map_reverse, reverse_reverse, map_zipIdx_fst]

theorem drives?_of_single (grouped : runs points = [run]) (source : run.source = some range) :
    PortMapping.drives? { actual := some (circuit.rangeOf range) } circuit =
      some (points.zipIdx.filter (·.1.isConnected)).reverse := by
  have connected := (spread_of_single carries grouped source).1
  rw [PortMapping.drives?_eq rfl (bits?_of_single carries grouped source rfl) rfl rfl]
  rw [PortMapping.boundTo, zipIdx_reverse_map, ← map_reverse, filterMap_map,
    filter_eq_self.mpr fun entry member => connected entry.1 (fst_mem_of_mem_zipIdx member)]
  simp [Function.comp_def, PortMapping.pointOf?]

theorem meets_of_single (need : PortNeed)
    (grouped : runs points = [run]) (source : run.source = some range) :
    need.Meets circuit points { actual := some (circuit.rangeOf range) } := by
  cases facing : need.direction with
  | input => simpa only [Meets, facing] using ⟨reads?_of_single carries need grouped source, rfl⟩
  | output => simpa only [Meets, facing] using drives?_of_single carries grouped source
  | bidirectional =>
    simp only [Meets, facing, true_and]
    refine .inr ⟨range, rfl, ?_⟩
    have bits := bits?_of_single carries grouped source
      (rfl : ({ actual := none } : PortMapping).wire = none)
    rw [map_reverse, map_zipIdx_fst (fun point =>
      ExprBit.wired (PortSignal.net point.net) point.bit)] at bits
    exact bits

theorem unconnected_of_gaps (gaps : ∀ run ∈ runs points, run.source = none) :
    ∀ point ∈ points, point.isConnected = false := by
  intro point member
  obtain ⟨run, present, position, bit⟩ := carries.exists_run member
  have reached := carries.isConnected_of_mem_spread present bit
  rwa [Point.isConnected_normal, gaps run present] at reached

end Whole

section

variable (need : PortNeed) (circuit : Circuit) (loose : ∀ point ∈ points, point.isConnected = false)
include loose

theorem reads?_fill :
    PortMapping.reads? { actual := some (.fill need.idle points.length) } circuit =
      some (points.map need.valueAt) := by
  have idle : ∀ point ∈ points, need.valueAt point = .constant need.idle := by
    intro point member
    simp only [valueAt, loose point member, Bool.false_eq_true, ↓reduceIte]
  have followed : ∀ bit ∈ List.replicate points.length (ExprBit.constant need.idle),
      PortMapping.behind? [] bit = some (id bit) := by
    intro bit member
    rw [eq_of_mem_replicate member]
    rfl
  rw [PortMapping.reads?_eq rfl rfl rfl (mapM_eq_pure_map followed), map_id,
    reverse_replicate, map_congr_left idle, map_const']

theorem meets_of_unconnected :
    need.Meets circuit points (if need.direction ≠ .input then { actual := none }
      else { actual := some (.fill need.idle points.length) }) := by
  have none_connected : points.zipIdx.filter (·.1.isConnected) = [] := by
    rw [filter_eq_nil_iff]
    intro entry member
    simp only [loose entry.1 (fst_mem_of_mem_zipIdx member), Bool.false_eq_true,
      not_false_eq_true]
  cases facing : need.direction with
  | input =>
    simpa only [Meets, facing, ne_eq, not_true_eq_false, ↓reduceIte] using
      ⟨reads?_fill need circuit loose, rfl⟩
  | output =>
    simp only [Meets, facing, none_connected]
    rfl
  | bidirectional =>
    simp only [Meets, facing]
    exact ⟨rfl, rfl, .inl ⟨rfl, loose⟩⟩

end

section Connect

variable {circuit : Circuit} {points : List Point} (carries : circuit.Carries points)
  (need : PortNeed)
include carries

theorem meets_of_connect (fresh : ∀ net ∈ circuit.nets, net.signal ≠ need.wire)
    (short : Word.fits points.length = true) {mapping : PortMapping}
    (connected : need.connect circuit points = .ok mapping) :
    need.Meets circuit points mapping := by
  obtain ⟨run, range, grouped, source, direct⟩ | ⟨_, gaps, loose⟩ | ⟨_, split⟩ :=
    need.connect_cases circuit points
  · rw [direct, Except.ok.injEq] at connected
    exact connected ▸ meets_of_single carries need grouped source
  · have meets := meets_of_unconnected need circuit (unconnected_of_gaps carries gaps)
    rw [loose] at connected
    split at connected
    case isTrue facing =>
      rw [if_pos facing] at meets
      exact Except.ok.inj connected ▸ meets
    case isFalse facing =>
      rw [if_neg facing] at meets
      split at connected
      · cases connected
      · exact Except.ok.inj connected ▸ meets
  · rw [split] at connected
    split at connected
    · cases connected
    case h_2 unsplit =>
      cases connected
      cases facing : need.direction with
      | input =>
        simpa only [Meets, facing] using ⟨reads?_throughWire carries need fresh short facing,
          assigned?_throughWire carries need fresh short facing⟩
      | output =>
        simpa only [Meets, facing] using drives?_throughWire carries need fresh short facing
      | bidirectional => simp [splitFault?, facing] at unsplit

theorem connect_error_iff : (∃ fault, need.connect circuit points = .error fault) ↔
      (need.direction = .input ∧ need.required = true ∧
          (points = [] ∨ ∃ point ∈ points, point.isConnected = false)) ∨
        (need.direction = .bidirectional ∧ 1 < (runs points).length) := by
  obtain ⟨run, range, grouped, source, direct⟩ | ⟨few, gaps, loose⟩ | ⟨many, split⟩ :=
    need.connect_cases circuit points
  · have whole := (spread_of_single carries grouped source).1
    have nonempty : points ≠ [] := by
      rintro rfl
      cases grouped
    simp only [direct, reduceCtorEq, exists_false, false_iff, not_or, not_and, grouped,
      length_singleton, Nat.lt_irrefl, not_false_eq_true, implies_true, and_true]
    intro _ _
    refine ⟨nonempty, ?_⟩
    rintro ⟨point, member, gap⟩
    rw [whole point member] at gap
    cases gap
  · have lacking : points = [] ∨ ∃ point ∈ points, point.isConnected = false := by
      cases points with
      | nil => exact .inl rfl
      | cons point rest =>
        have member : point ∈ point :: rest := mem_cons_self ..
        exact .inr ⟨point, member, unconnected_of_gaps carries gaps point member⟩
    have unsplit : ¬1 < (runs points).length := by omega
    simp only [loose, lacking, unsplit, and_true, and_false, or_false]
    cases need.direction <;> cases need.required <;> simp
  · have nonempty : points ≠ [] := by
      rintro rfl
      cases many
    have gapped : (∃ point ∈ points, point.isConnected = false) ↔
        ((runs points).find? (·.isGap)).isSome = true := by
      rw [carries.exists_unconnected_iff, List.find?_isSome]
      simp only [Run.isGap, Option.isNone_iff_eq_none]
    simp only [split, many, nonempty, gapped, false_or, and_true, splitFault?]
    cases need.direction <;> cases need.required <;>
      cases (runs points).find? (·.isGap) <;> simp

end Connect

theorem signal_ne_wire {need : PortNeed} (capital : startsWithCapital need.label = true)
    (net : Net) : net.signal ≠ need.wire := by
  intro same
  have lists := congrArg String.toList same
  simp only [startsWithCapital] at capital
  cases chars : need.label.toList with
  | nil => rw [chars] at capital; cases capital
  | cons c rest =>
    rw [chars] at capital
    simp only [Net.signal, wire, String.toList_append, chars] at lists
    split at lists <;> simp at lists <;> simp [← lists.1] at capital

/-- **Ports are connected bit by bit.** A port of a labelled instance in a circuit of a checked
design that is connected to points of the circuit does what the points say, and it cannot be
connected exactly if a bit of an input that must be connected is missing, or if a bidirectional
port needs more than one range. All bits of a port without bits count as missing. -/
theorem connect_bitwise {draft : Draft} {design : Design} {settings : Settings} {names : Names}
    (checked : draft.check = .ok design) (planned : (design.plan settings).1 = .ok names)
    {circuit : Circuit} (member : circuit ∈ design.circuits)
    (words : ∀ net ∈ circuit.nets, Word.fits net.width = true) {id : Int} {need : PortNeed}
    (labelled : names.instance? circuit.name id = some need.label) {points : List Point}
    (placed : ∀ point ∈ points, Circuit.checkPoint circuit.nets point = .ok ())
    (short : Word.fits points.length = true) :
    (∀ mapping, need.connect circuit points = .ok mapping → need.Meets circuit points mapping) ∧
      ((∃ fault, need.connect circuit points = .error fault) ↔
        (need.direction = .input ∧ need.required = true ∧
            (points = [] ∨ ∃ point ∈ points, point.isConnected = false)) ∨
          (need.direction = .bidirectional ∧ 1 < (runs points).length)) := by
  have carries : circuit.Carries points :=
    ⟨(Draft.indexed_of_check checked).circuits circuit member, words, placed⟩
  obtain ⟨planning, rfl, consistent⟩ := Design.exists_planning planned
  have capital := consistent.labels _ (mem_of_lookup labelled)
  refine ⟨?_, connect_error_iff carries need⟩
  intro mapping connected
  exact meets_of_connect carries need (fun net _ => signal_ne_wire capital net) short connected

/-- An input of four bits that takes two bits of a bus in reverse, nothing, and a further bit. -/
theorem connect_bitwise_scattered :
    let net : Net := ⟨1, 4, false, [], [], none⟩
    let circuit : Circuit := ⟨"main", [net], [⟨7, .not, [("width", "4")], [], ""⟩], none⟩
    let points : List Point := [⟨1, 2⟩, ⟨1, 1⟩, .unconnected, ⟨1, 3⟩]
    let need : PortNeed :=
      { label := "GATES_7", port := "Input_1", direction := .input, idle := true }
    ∃ mapping, need.connect circuit points = .ok mapping ∧
      mapping.reads? circuit = some
        [.wired (.net 1) 2, .wired (.net 1) 1, .constant true, .wired (.net 1) 3] := by
  intro net circuit points need
  have checked : Draft.check ⟨"d", "main",
      [some ⟨"main", [net], [some ⟨7, .not, [("width", "4")], [], ""⟩], none⟩], []⟩ =
        .ok ⟨"d", "main", [circuit], []⟩ := by rfl
  have label : (Design.plan ⟨"d", "main", [circuit], []⟩ {}).1.toOption.any
      (·.instance? circuit.name 7 == some need.label) = true := by decide +kernel
  obtain ⟨names, planned, labelled⟩ := exists_ok_of_any label
  have placed : ∀ point ∈ points, Circuit.checkPoint circuit.nets point = .ok () := by decide
  have meets := (connect_bitwise checked planned (List.mem_singleton_self circuit) (by decide)
    (eq_of_beq labelled) placed (by decide)).1 _ rfl
  exact ⟨_, rfl, meets.1⟩

end PortNeed

end Schematic

/-
The topology of a cluster: the nodes with the slots each of them claims, the links between them, and the risk that
a node fails. All arithmetic on measurements is that of the type `F`, of which nothing but the operations is known.
-/
import Gopherdis.Cluster.Slots
import Gopherdis.Lib.Bitmap

namespace Gopherdis.Cluster

open Lib

/-! ## Nodes -/

inductive NodeRole
  | master
  | replica
  | shadow
  | fenced
deriving DecidableEq

structure NodeMetrics (F : Type) where
  ewmaMemory : F
  ewmaLatency : F
  cpuUsage : F
  lastUpdated : Int64

/-- A node; the `numSlots` bits of `slots` are the slots it claims. -/
structure NodeVertex (F : Type) where
  id : Bytes
  addr : Bytes
  role : NodeRole
  slots : Bitmap (numSlots / 8)
  metrics : NodeMetrics F
  domainID : Bytes

namespace NodeVertex

variable {F : Type} (nv : NodeVertex F) (slot : UInt16)

def bitOf (h : slot.toNat < numSlots) : Fin (8 * (numSlots / 8)) := ⟨slot.toNat, h.trans_eq (by decide)⟩

def setSlot : NodeVertex F :=
  if h : slot.toNat < numSlots then { nv with slots := nv.slots.set (bitOf slot h) } else nv

def clearSlot : NodeVertex F :=
  if h : slot.toNat < numSlots then { nv with slots := nv.slots.clear (bitOf slot h) } else nv

def hasSlot : Bool := if h : slot.toNat < numSlots then nv.slots.has (bitOf slot h) else false

def ownedSlots : List UInt16 := ((List.range numSlots).map UInt16.ofNat).filter nv.hasSlot

end NodeVertex

/-! ## The graph -/

inductive LinkType
  | replication
  | client
  | gossip
deriving DecidableEq

/-- A link, in the list of the node it comes from. -/
structure LinkEdge (F : Type) where
  dest : Bytes
  type : LinkType
  weight : F

structure TopologyGraph (F : Type) where
  nodes : Finmap fun _ : Bytes => NodeVertex F
  adj : Bytes → List (LinkEdge F)

namespace TopologyGraph

variable {F : Type} (g : TopologyGraph F)

def new : TopologyGraph F := ⟨∅, fun _ => []⟩

/-- A node that was registered before is replaced, with its slots. -/
def addNode (n : NodeVertex F) : TopologyGraph F := { g with nodes := g.nodes.insert n.id n }

def getNode (id : Bytes) : Option (NodeVertex F) := g.nodes.lookup id

def modifyNode (id : Bytes) (f : NodeVertex F → NodeVertex F) : TopologyGraph F :=
  match g.getNode id with
  | none => g
  | some n => { g with nodes := g.nodes.insert id (f n) }

/-- The weight of a link that is there already is set. -/
def addEdge (src dest : Bytes) (linkType : LinkType) (weight : F) : TopologyGraph F :=
  let edges := g.adj src
  let same := fun e : LinkEdge F => decide (e.dest = dest ∧ e.type = linkType)
  { g with
    adj := Function.update g.adj src
      (if edges.any same then edges.replaceF fun e => if same e then some { e with weight := weight } else none
      else edges ++ [⟨dest, linkType, weight⟩]) }

variable [Add F] [Mul F] [OfScientific F]

/-- The averages begin with the first sample; `now` is in milliseconds. -/
def updateNodeMetrics (nodeID : Bytes) (memBytes latencyMs cpu : F) (now : Int64) : TopologyGraph F :=
  g.modifyNode nodeID fun n =>
    let m := n.metrics
    let first := m.lastUpdated = 0
    { n with
      metrics :=
        { ewmaMemory := if first then memBytes else 0.3 * memBytes + 0.7 * m.ewmaMemory
          ewmaLatency := if first then latencyMs else 0.3 * latencyMs + 0.7 * m.ewmaLatency
          cpuUsage := cpu
          lastUpdated := now } }

end TopologyGraph

/-! ## Risk -/

inductive RiskLevel
  | normal
  | warning
  | critical
deriving DecidableEq

structure TelemetrySample (F : Type) where
  timestampNano : Int64
  memoryBytes : F
  latencyMs : F

/-- A window of samples, and how fast memory and latency grow over it. -/
structure NodePredictor (F : Type) where
  history : List (TelemetrySample F)
  maxHistory : Nat
  lastDMdt : F
  lastDLdt : F

namespace NodePredictor

variable {F : Type} [OfScientific F]

def new : NodePredictor F := ⟨[], 20, 0.0, 0.0⟩

variable [Add F] [Sub F] [Mul F] [Div F] [LT F] [DecidableLT F] [IntCast F] (p : NodePredictor F)

def recordSample (memBytes latencyMs : F) (now : Int64) : NodePredictor F :=
  let kept := if p.maxHistory ≤ p.history.length then p.history.drop 1 else p.history
  let last : TelemetrySample F := ⟨now, memBytes, latencyMs⟩
  let p := { p with history := kept ++ [last] }
  match kept with
  | [] => p
  | first :: _ =>
  let dt : F := ((last.timestampNano - first.timestampNano).toInt : F) / 1000000000.0
  if 0.000001 < dt then
    { p with
      lastDMdt := (last.memoryBytes - first.memoryBytes) / dt
      lastDLdt := (last.latencyMs - first.latencyMs) / dt }
  else p

/-- The score with the risk a rate stands for. -/
def addRate (rate full weight score : F) : F :=
  if 0.0 < rate then
    let risk := rate / full * weight
    score + if weight < risk then weight else risk
  else score

/-- Fifteen for every congested link to a replica, up to thirty. -/
def downstreamCongestion (edges : List (LinkEdge F)) : F :=
  let sum : F := edges.foldl (fun c e => if e.type = .replication ∧ 10.0 < e.weight then c + 15.0 else c) 0.0
  if 30.0 < sum then 30.0 else sum

variable [LE F] [DecidableLE F]

def evaluateRisk (g : TopologyGraph F) (nodeID : Bytes) : F × RiskLevel :=
  match g.getNode nodeID with
  | none => (0.0, .normal)
  | some _ =>
    let score := addRate p.lastDLdt 20.0 40.0 (addRate p.lastDMdt 52428800.0 50.0 0.0) +
      downstreamCongestion (g.adj nodeID)
    if 80.0 ≤ score then (score, .critical) else if 50.0 ≤ score then (score, .warning) else (score, .normal)

end NodePredictor

/-! ## The simulator -/

structure ReliefPlan where
  sourceNodeID : Bytes
  targetNodeID : Bytes
  slotsToShed : List UInt16

section
variable {F : Type} [Add F] [Mul F] [Div F] [LT F] [DecidableLT F] [OfScientific F] (g : TopologyGraph F)

variable (failingNodeID : Bytes)

/-- What it costs to hand the slots of the failing node to the candidate. -/
def totalCost (failing candidate : NodeVertex F) : F :=
  let loadCost := candidate.metrics.cpuUsage * 0.5 + candidate.metrics.ewmaMemory / 1073741824.0 * 0.3
  let linkCost := ((g.adj failingNodeID).find? fun e => e.dest = candidate.id).elim 1.0 LinkEdge.weight
  let domainPenalty := if candidate.domainID ≠ [] ∧ candidate.domainID = failing.domainID then 50.0 else 0.0
  loadCost + linkCost * 0.2 + domainPenalty

/-- One candidate of the search, against the best so far. -/
def considerTarget (failing : NodeVertex F) (best : Bytes × F)
    (candidate : NodeVertex F) : Bytes × F :=
  if candidate.id = failingNodeID ∨ candidate.role = .fenced then best
  else
    let cost := totalCost g failingNodeID failing candidate
    if cost < best.2 then (candidate.id, cost) else best

/-- `inf` is the cost to begin with, and `walk` the order in which the map of the nodes is walked. -/
def findOptimalReliefPlan (inf : F) (walk : List Bytes) (g : TopologyGraph F) (failingNodeID : Bytes) :
    Except Bytes ReliefPlan :=
  match g.getNode failingNodeID with
  | none => .error (ascii "failing node not found in topology graph")
  | some failingNode =>
  let slots := failingNode.ownedSlots
  if slots = [] then .error (ascii "failing node holds no slots to relieve")
  else
    let best := (walk.filterMap g.getNode).foldl (considerTarget g failingNodeID failingNode) ([], inf)
    if best.1 = [] then .error (ascii "cluster: no suitable healthy node available for shadow hosting")
    else .ok ⟨failingNodeID, best.1, slots⟩

end

end Gopherdis.Cluster

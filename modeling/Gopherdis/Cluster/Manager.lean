/-
The cluster manager. It keeps the owner of each slot in a table, next to the slots the nodes claim themselves. When
a node is about to fail it plans to hand the slots of the node to another, and it may carry out a plan later.
-/
import Gopherdis.Cluster.Topology

namespace Gopherdis.Cluster

open Lib Function

structure Manager (F : Type) where
  epoch : UInt64
  slots : Fin numSlots → Bytes
  graph : TopologyGraph F
  predictors : Bytes → Option (NodePredictor F)
  shadows : Bytes → Option Bytes

/-- A node as it is registered: without slots and measurements. -/
def newVertex {F : Type} [OfScientific F] (id addr : Bytes) (role : NodeRole) (domainID : Bytes) : NodeVertex F :=
  ⟨id, addr, role, .empty, ⟨0.0, 0.0, 0.0, 0⟩, domainID⟩

namespace Manager

variable {F : Type} (cm : Manager F)

def new [OfScientific F] (selfID selfAddr : Bytes) : Manager F where
  epoch := 0
  slots := fun _ => []
  graph := TopologyGraph.new.addNode (newVertex selfID selfAddr .master [])
  predictors := fun _ => none
  shadows := fun _ => none

def addNode [OfScientific F] (id addr : Bytes) (role : NodeRole) (domainID : Bytes) : Manager F :=
  { cm with
    graph := cm.graph.addNode (newVertex id addr role domainID)
    predictors := update cm.predictors id (some ((cm.predictors id).getD .new)) }

def setOwner (s : UInt16) (nodeID : Bytes) : Manager F :=
  { cm with slots := fun x => if x.val = s.toNat then nodeID else cm.slots x }

variable (nodeID : Bytes)

/-- Gives a slot to a node, in the table and, if there is such a node, in its bitmap. -/
def takeSlot (s : UInt16) : Manager F :=
  { cm.setOwner s nodeID with graph := cm.graph.modifyNode nodeID fun n => n.setSlot s }

/-- The slots from the first to the last, as far as there are slots. -/
def slotRange (start stop : UInt16) : List UInt16 :=
  (List.range' start.toNat (min (stop.toNat + 1) numSlots - start.toNat)).map UInt16.ofNat

def assignSlotRange (start stop : UInt16) : Manager F :=
  (slotRange start stop).foldl (fun cm s => cm.takeSlot nodeID s) cm

def getSlotNode (slot : UInt16) : Bytes := if h : slot.toNat < numSlots then cm.slots ⟨slot.toNat, h⟩ else []

/-- Bumps the epoch, fences the source, and has the target take over the slots of the plan. -/
def liveHandover (plan : ReliefPlan) : Manager F :=
  let cm := { cm with
    epoch := cm.epoch + 1
    graph := cm.graph.modifyNode plan.sourceNodeID fun n =>
      plan.slotsToShed.foldl NodeVertex.clearSlot { n with role := .fenced } }
  let cm :=
    match cm.graph.getNode plan.targetNodeID with
    | none => cm
    | some _ =>
      plan.slotsToShed.foldl (fun cm s => cm.takeSlot plan.targetNodeID s)
        { cm with graph := cm.graph.modifyNode plan.targetNodeID fun n => { n with role := .master } }
  { cm with shadows := update cm.shadows plan.sourceNodeID none }

variable [Add F] [Sub F] [Mul F] [Div F] [LT F] [DecidableLT F] [IntCast F] [OfScientific F]

def updateTelemetry (memBytes latencyMs cpu : F) (nowMilli nowNano : Int64) : Manager F :=
  let pred := (cm.predictors nodeID).getD .new
  { cm with
    graph := cm.graph.updateNodeMetrics nodeID memBytes latencyMs cpu nowMilli
    predictors := update cm.predictors nodeID
      (some (pred.recordSample memBytes latencyMs nowNano)) }

variable [LE F] [DecidableLE F]

/-- The plan, if the node is at risk, with its target as the shadow master. -/
def checkAndAutoMitigate (inf : F) (walk : List Bytes) (nodeID : Bytes) :
    Manager F × Except Bytes (Option ReliefPlan) :=
  match cm.predictors nodeID with
  | none => (cm, .ok none)
  | some pred =>
  if (pred.evaluateRisk cm.graph nodeID).2 ≠ .critical then (cm, .ok none)
  else
    match findOptimalReliefPlan inf walk cm.graph nodeID with
    | .error err => (cm, .error err)
    | .ok plan =>
      ({ cm with
          shadows := update cm.shadows nodeID (some plan.targetNodeID)
          graph := cm.graph.modifyNode plan.targetNodeID fun n => { n with role := .shadow } },
        .ok (some plan))

end Manager

end Gopherdis.Cluster

/-
Who owns a slot. The table and the bitmaps of the nodes say the same, in every state of a run, exactly if no node is
registered again while it owns slots, no slot is assigned that another node has, and no plan is carried out whose
slots have gone to a third node in the meantime.
-/
import Gopherdis.Lib.Runs
import Gopherdis.Cluster.Manager

namespace Gopherdis.Cluster

open Lib List Function Manager

/-! ## Ownership, kept twice -/

/-- Who is registered, what each claims, and who a table says owns a thing. -/
@[ext] structure Ownership (I S : Type) where
  registered : Set I
  claims : I → Set S
  owner : S → I

namespace Ownership

variable {I S : Type} [DecidableEq I] (o : Ownership I S) (i : I) (X : Set S)

/-- Claims and table agree. -/
def Single : Prop := ∀ i ∈ o.registered, ∀ s, s ∈ o.claims i ↔ o.owner s = i

def add : Ownership I S := ⟨insert i o.registered, update o.claims i ∅, o.owner⟩

def drop : Ownership I S := { o with claims := update o.claims i (o.claims i \ X) }

open Classical in
noncomputable def take : Ownership I S :=
  ⟨o.registered, update o.claims i (o.claims i ∪ X), fun s => if s ∈ X then i else o.owner s⟩

variable {o i X}

lemma single_add_iff (h : o.Single) : (o.add i).Single ↔ ∀ s, o.owner s ≠ i := by
  constructor
  · intro hadd s howner
    have hclaims := (hadd i (Set.mem_insert ..) s).2 howner
    simp [add] at hclaims
  · rintro hnone j (rfl | hj) s
    · simp [add, hnone s]
    · by_cases hji : j = i
      · subst hji
        simp [add, hnone s]
      · simpa [add, hji] using h j hj s

lemma single_take : (o.take i X).Single ↔ ∀ j ∈ o.registered, ∀ s,
    (s ∈ X → s ∈ o.claims j → j = i) ∧ (s ∉ X → (s ∈ o.claims j ↔ o.owner s = j)) := by
  refine forall₃_congr fun j _ s => ?_
  rcases eq_or_ne j i with rfl | hji <;> by_cases hs : s ∈ X
  · simp [take, hs]
  · simp [take, hs]
  · simp [take, hs, hji, hji.symm]
  · simp [take, hs, hji]

lemma single_take_iff (h : o.Single) :
    (o.take i X).Single ↔ ∀ s ∈ X, o.owner s ∈ o.registered → o.owner s = i := by
  rw [single_take]
  constructor
  · exact fun htake s hs hreg => (htake _ hreg s).1 hs ((h _ hreg s).2 rfl)
  · intro hX j hj s
    refine ⟨fun hs hclaims => ?_, fun _ => h j hj s⟩
    have howner := (h j hj s).1 hclaims
    exact howner.symm.trans (hX s hs (howner ▸ hj))

lemma single_handover_iff {src : I} (h : o.Single) :
    ((o.drop src X).take i X).Single ↔ ∀ s ∈ X, o.owner s ∈ o.registered → o.owner s = src ∨ o.owner s = i := by
  rw [single_take]
  constructor
  · intro htake s hs hreg
    refine or_iff_not_imp_left.2 fun hsrc => (htake _ hreg s).1 hs ?_
    simpa [drop, hsrc] using (h _ hreg s).2 rfl
  · intro hX j hj s
    by_cases hjs : j = src
    · subst hjs
      simp +contextual [drop, h j hj s]
    simp only [drop, update_of_ne hjs]
    refine ⟨fun hs hclaims => ?_, fun _ => h j hj s⟩
    have howner := (h j hj s).1 hclaims
    obtain hsrc | htgt := hX s hs (howner ▸ hj)
    · exact absurd (howner.symm.trans hsrc) hjs
    · exact howner.symm.trans htgt

lemma take_empty : o.take i ∅ = o := by
  ext <;> simp [take]

lemma take_take (Y : Set S) : (o.take i X).take i Y = o.take i (X ∪ Y) := by
  ext j s
  · rfl
  · by_cases hj : j = i
    · subst hj
      simp [take, or_assoc]
    · simp [take, hj]
  · by_cases hX : j ∈ X <;> by_cases hY : j ∈ Y <;> simp [take, hX, hY]

end Ownership

open Ownership

/-! ## The bitmaps -/

namespace NodeVertex

variable {F : Type} (nv : NodeVertex F) (x : UInt16) {y : UInt16}

lemma bitOf_inj {hy : y.toNat < numSlots} {hx : x.toNat < numSlots} : bitOf y hy = bitOf x hx ↔ y = x := by
  rw [bitOf, bitOf, Fin.mk.injEq, UInt16.toNat_inj]

lemma hasSlot_setSlot (hy : y.toNat < numSlots) : (nv.setSlot x).hasSlot y = (decide (y = x) || nv.hasSlot y) := by
  unfold setSlot hasSlot
  by_cases hx : x.toNat < numSlots
  · simp [hx, hy, Bitmap.has_set, bitOf_inj]
  have hne : y ≠ x := by
    rintro rfl
    exact hx hy
  simp [hx, hne]

lemma hasSlot_clearSlot (hy : y.toNat < numSlots) : (nv.clearSlot x).hasSlot y = (decide (y ≠ x) && nv.hasSlot y) := by
  unfold clearSlot hasSlot
  by_cases hx : x.toNat < numSlots
  · simp [hx, hy, Bitmap.has_clear, ne_eq, bitOf_inj]
  have hne : y ≠ x := by
    rintro rfl
    exact hx hy
  simp [hx, hne]

lemma hasSlot_foldl_clearSlot (hy : y.toNat < numSlots) (xs : List UInt16) :
    (xs.foldl clearSlot nv).hasSlot y = (decide (y ∉ xs) && nv.hasSlot y) := by
  induction xs generalizing nv with
  | nil => simp
  | cons x xs ih =>
    rw [foldl_cons, ih, hasSlot_clearSlot nv x hy]
    by_cases hyx : y = x <;> simp [hyx]

@[simp] lemma id_setSlot : (nv.setSlot x).id = nv.id := by
  unfold setSlot
  split_ifs <;> rfl

@[simp] lemma id_foldl_clearSlot (xs : List UInt16) : (xs.foldl clearSlot nv).id = nv.id := by
  induction xs generalizing nv with
  | nil => rfl
  | cons x xs ih =>
    rw [foldl_cons, ih, clearSlot]
    split_ifs <;> rfl

end NodeVertex

/-! ## The manager keeps such a record -/

section
variable {F : Type} (g : TopologyGraph F) (cm : Manager F) (id : Bytes)

lemma getNode_addNode (n : NodeVertex F) (id' : Bytes) :
    (g.addNode n).getNode id' = if id' = n.id then some n else g.getNode id' := by
  unfold TopologyGraph.addNode TopologyGraph.getNode
  split_ifs with hid
  · rw [hid, Finmap.lookup_insert]
  · rw [Finmap.lookup_insert_of_ne _ hid]

lemma getNode_modifyNode (f : NodeVertex F → NodeVertex F) (id' : Bytes) :
    (g.modifyNode id f).getNode id' = if id' = id then (g.getNode id').map f else g.getNode id' := by
  unfold TopologyGraph.modifyNode
  cases hn : g.getNode id with
  | none =>
    split_ifs with hid
    · rw [hid, hn]; rfl
    · rfl
  | some n =>
    unfold TopologyGraph.getNode at hn ⊢
    split_ifs with hid
    · rw [hid, Finmap.lookup_insert, hn]; rfl
    · rw [Finmap.lookup_insert_of_ne _ hid]

variable (s : Fin numSlots)

def slotOf : UInt16 := UInt16.ofNat s

lemma toNat_slotOf : (slotOf s).toNat = s :=
  UInt16.toNat_ofNat_of_lt' (s.isLt.trans (by decide))

lemma slotOf_lt : (slotOf s).toNat < numSlots := by
  rw [toNat_slotOf]
  exact s.isLt

def slotSet (xs : List UInt16) : Set (Fin numSlots) := {s | slotOf s ∈ xs}

/-- The record the manager keeps. -/
def Manager.ownership : Ownership Bytes (Fin numSlots) where
  registered := {id | (cm.graph.getNode id).isSome = true}
  claims := fun id => {s | ∃ nv, cm.graph.getNode id = some nv ∧ nv.hasSlot (slotOf s) = true}
  owner := cm.slots

variable {cm id} {cm' : Manager F}

lemma ownership_of_add [OfScientific F] {addr domainID : Bytes} {role : NodeRole} (hslots : cm'.slots = cm.slots)
    (hgraph : cm'.graph = cm.graph.addNode (newVertex id addr role domainID)) :
    cm'.ownership = cm.ownership.add id := by
  refine Ownership.ext ?_ ?_ hslots
  · ext i
    by_cases hi : i = id <;> simp [ownership, add, hgraph, getNode_addNode, newVertex, hi]
  · funext i
    by_cases hi : i = id
    · subst hi
      ext s
      simp [ownership, add, hgraph, getNode_addNode, newVertex, NodeVertex.hasSlot]
    · simp [ownership, add, hgraph, getNode_addNode, newVertex, hi]

lemma ownership_addNode [OfScientific F] (addr : Bytes) (role : NodeRole) (domainID : Bytes) :
    (cm.addNode id addr role domainID).ownership = cm.ownership.add id := ownership_of_add rfl rfl

lemma ownership_of_modify {f : NodeVertex F → NodeVertex F} (hgraph : cm'.graph = cm.graph.modifyNode id f) :
    cm'.ownership = ⟨cm.ownership.registered, update cm.ownership.claims id
      {s | ∃ nv, cm.graph.getNode id = some nv ∧ (f nv).hasSlot (slotOf s) = true}, cm'.slots⟩ := by
  refine Ownership.ext ?_ ?_ rfl
  · ext i
    by_cases hi : i = id <;> simp [ownership, hgraph, getNode_modifyNode, hi]
  · funext i
    by_cases hi : i = id
    · subst hi
      ext s
      simp [ownership, hgraph, getNode_modifyNode]
    · simp [ownership, hgraph, getNode_modifyNode, hi]

lemma registered_takeSlot (x : UInt16) : (cm.takeSlot id x).ownership.registered = cm.ownership.registered := by
  have hmodify : (cm.takeSlot id x).ownership = _ := ownership_of_modify (f := fun n => n.setSlot x) rfl
  rw [hmodify]

lemma ownership_new [OfScientific F] (selfAddr : Bytes) :
    (new (F := F) id selfAddr).ownership = add ⟨∅, fun _ => ∅, fun _ => []⟩ id := by
  let bare : Manager F := { new id selfAddr with graph := .new }
  have hadd : (new (F := F) id selfAddr).ownership = bare.ownership.add id := ownership_of_add rfl rfl
  rw [hadd]
  congr 1
  ext i <;> simp [bare, ownership, TopologyGraph.new, TopologyGraph.getNode, new]

lemma ownership_takeSlot (hid : id ∈ cm.ownership.registered) (x : UInt16) :
    (cm.takeSlot id x).ownership = cm.ownership.take id (slotSet [x]) := by
  obtain ⟨nv, hnv⟩ := Option.isSome_iff_exists.1 hid
  have hmodify : (cm.takeSlot id x).ownership = _ := ownership_of_modify (f := fun n => n.setSlot x) rfl
  rw [hmodify]
  refine Ownership.ext rfl (congrArg (update _ id) ?_) ?_
  · ext s
    simp [ownership, hnv, slotSet, NodeVertex.hasSlot_setSlot _ _ (slotOf_lt s), or_comm]
  · funext s
    simp [ownership, Ownership.take, takeSlot, setOwner, slotSet, ← UInt16.toNat_inj,
      toNat_slotOf]

lemma ownership_foldl_takeSlot (hid : id ∈ cm.ownership.registered) (xs : List UInt16) :
    (xs.foldl (fun cm s => cm.takeSlot id s) cm).ownership = cm.ownership.take id (slotSet xs) := by
  induction xs generalizing cm with
  | nil =>
    have hempty : slotSet [] = ∅ := by simp [slotSet]
    rw [hempty, take_empty]
    rfl
  | cons x xs ih =>
    have hcons : slotSet (x :: xs) = slotSet [x] ∪ slotSet xs := by
      ext s
      simp [slotSet]
    rw [foldl_cons, ih (by rwa [registered_takeSlot]), ownership_takeSlot hid, Ownership.take_take, hcons]

lemma mem_slotRange {start stop x : UInt16} (hx : x.toNat < numSlots) :
    x ∈ slotRange start stop ↔ start ≤ x ∧ x ≤ stop := by
  rw [slotRange, mem_map, UInt16.le_iff_toNat_le, UInt16.le_iff_toNat_le]
  constructor
  · rintro ⟨n, hn, rfl⟩
    rw [mem_range'_1] at hn
    have hstop := stop.toNat_lt
    have hnat : (UInt16.ofNat n).toNat = n := UInt16.toNat_ofNat_of_lt' (by simp only [UInt16.size]; omega)
    omega
  · rintro ⟨hstart, hstop⟩
    exact ⟨x.toNat, mem_range'_1.2 (by omega), UInt16.ofNat_toNat⟩

lemma ownership_clear {src : Bytes} {xs : List UInt16} (role : NodeRole) (hslots : cm'.slots = cm.slots)
    (hgraph : cm'.graph = cm.graph.modifyNode src fun n => xs.foldl NodeVertex.clearSlot { n with role := role }) :
    cm'.ownership = cm.ownership.drop src (slotSet xs) := by
  rw [ownership_of_modify hgraph, hslots]
  refine Ownership.ext rfl (congrArg (update _ src) ?_) rfl
  ext s
  have hrole : ∀ n : NodeVertex F, NodeVertex.hasSlot { n with role := role } = n.hasSlot := fun _ => rfl
  cases hn : cm.graph.getNode src with
  | none => simp [ownership, hn]
  | some n => simp [ownership, hn, slotSet, NodeVertex.hasSlot_foldl_clearSlot _ (slotOf_lt s), hrole, and_comm]

lemma ownership_modifyNode {f : NodeVertex F → NodeVertex F} (hf : ∀ n, (f n).slots = n.slots)
    (hslots : cm'.slots = cm.slots) (hgraph : cm'.graph = cm.graph.modifyNode id f) : cm'.ownership = cm.ownership := by
  rw [ownership_of_modify hgraph, hslots]
  refine Ownership.ext rfl (update_eq_self_iff.2 ?_) rfl
  ext s
  simp [ownership, NodeVertex.hasSlot, hf]

lemma ownership_liveHandover {plan : ReliefPlan} (htarget : plan.targetNodeID ∈ cm.ownership.registered) :
    (cm.liveHandover plan).ownership =
      (cm.ownership.drop plan.sourceNodeID (slotSet plan.slotsToShed)).take plan.targetNodeID
        (slotSet plan.slotsToShed) := by
  -- The source is cleared first.
  set fenced : Manager F := { cm with
    epoch := cm.epoch + 1
    graph := cm.graph.modifyNode plan.sourceNodeID fun n =>
      plan.slotsToShed.foldl NodeVertex.clearSlot { n with role := .fenced } } with hfenced
  have hdrop : fenced.ownership = cm.ownership.drop plan.sourceNodeID (slotSet plan.slotsToShed) :=
    ownership_clear .fenced rfl rfl
  have htarget' : plan.targetNodeID ∈ fenced.ownership.registered := by rwa [hdrop]
  obtain ⟨n, hn⟩ := Option.isSome_iff_exists.1 htarget'
  set promoted : Manager F :=
    { fenced with graph := fenced.graph.modifyNode plan.targetNodeID fun n => { n with role := .master } }
  have hsame : promoted.ownership = fenced.ownership :=
    ownership_modifyNode (f := fun n => { n with role := .master }) (fun _ => rfl) rfl rfl
  have hmem : plan.targetNodeID ∈ promoted.ownership.registered := by rwa [hsame]
  have htake := ownership_foldl_takeSlot hmem plan.slotsToShed
  rw [hsame, hdrop] at htake
  simp only [liveHandover]
  rw [← hfenced, hn]
  exact htake

end

/-! ## Nodes under their IDs, and the plans -/

/-- The nodes are registered under their IDs. -/
def TopologyGraph.ById {F : Type} (g : TopologyGraph F) : Prop := ∀ id nv, g.getNode id = some nv → nv.id = id

section
variable {F : Type} {g : TopologyGraph F}

lemma byId_addNode (h : g.ById) (n : NodeVertex F) : (g.addNode n).ById := by
  intro id nv hnv
  rw [getNode_addNode] at hnv
  split_ifs at hnv with hid
  · cases hnv
    exact hid.symm
  · exact h id nv hnv

lemma byId_modifyNode (h : g.ById) {id : Bytes} {f : NodeVertex F → NodeVertex F} (hf : ∀ n, (f n).id = n.id) :
    (g.modifyNode id f).ById := by
  intro id' nv hnv
  rw [getNode_modifyNode] at hnv
  split_ifs at hnv
  · obtain ⟨n, hn, rfl⟩ := Option.map_eq_some_iff.1 hnv
    exact (hf n).trans (h id' n hn)
  · exact h id' nv hnv

lemma byId_foldl_takeSlot {cm : Manager F} (h : cm.graph.ById) (id : Bytes) (xs : List UInt16) :
    (xs.foldl (fun cm s => cm.takeSlot id s) cm).graph.ById := by
  induction xs generalizing cm with
  | nil => exact h
  | cons x xs ih => exact ih (byId_modifyNode h fun n => n.id_setSlot x)

lemma byId_liveHandover {cm : Manager F} (h : cm.graph.ById) (plan : ReliefPlan) :
    (cm.liveHandover plan).graph.ById := by
  have hfenced : (cm.graph.modifyNode plan.sourceNodeID _).ById := byId_modifyNode h
    (f := fun n => plan.slotsToShed.foldl NodeVertex.clearSlot { n with role := .fenced })
    fun n => NodeVertex.id_foldl_clearSlot _ _
  simp only [liveHandover]
  split
  · exact hfenced
  · exact byId_foldl_takeSlot (byId_modifyNode (f := fun n => { n with role := .master }) hfenced fun _ => rfl) _ _

lemma lt_of_mem_ownedSlots {nv : NodeVertex F} {slot : UInt16} (h : slot ∈ nv.ownedSlots) : slot.toNat < numSlots := by
  by_contra hge
  have hhas := (mem_filter.1 h).2
  simp [NodeVertex.hasSlot, hge] at hhas

variable [Add F] [Mul F] [Div F] [LT F] [DecidableLT F] [OfScientific F] {failingNodeID : Bytes}

lemma considerTarget_fst {failing n : NodeVertex F} {best : Bytes × F} :
    (considerTarget g failingNodeID failing best n).1 = best.1 ∨
      n.id = (considerTarget g failingNodeID failing best n).1 ∧ n.id ≠ failingNodeID := by
  simp only [considerTarget]
  split_ifs with hskip hcost
  · exact .inl rfl
  · exact .inr ⟨rfl, (not_or.1 hskip).1⟩
  · exact .inl rfl

lemma foldl_considerTarget {failing : NodeVertex F} (nodes : List (NodeVertex F))
    {best : Bytes × F} (hbest : (nodes.foldl (considerTarget g failingNodeID failing) best).1 ≠ best.1) :
    ∃ n ∈ nodes, n.id = (nodes.foldl (considerTarget g failingNodeID failing) best).1 ∧ n.id ≠ failingNodeID := by
  induction nodes generalizing best with
  | nil => exact absurd rfl hbest
  | cons n nodes ih =>
  rw [foldl_cons] at hbest ⊢
  by_cases hsame : (nodes.foldl (considerTarget g failingNodeID failing)
      (considerTarget g failingNodeID failing best n)).1 = (considerTarget g failingNodeID failing best n).1
  · rw [hsame] at hbest ⊢
    exact ⟨n, mem_cons_self, considerTarget_fst.resolve_left hbest⟩
  · obtain ⟨m, hm, hmid⟩ := ih hsame
    exact ⟨m, mem_cons_of_mem _ hm, hmid⟩

lemma findOptimalReliefPlan_spec (hids : g.ById) {inf : F} {walk : List Bytes}
    {plan : ReliefPlan} (h : findOptimalReliefPlan inf walk g failingNodeID = .ok plan) :
    (g.getNode plan.targetNodeID).isSome = true ∧ plan.sourceNodeID ≠ plan.targetNodeID ∧
      ∃ source, g.getNode plan.sourceNodeID = some source ∧ plan.slotsToShed = source.ownedSlots := by
  simp only [findOptimalReliefPlan] at h
  split at h
  · cases h
  rename_i failing hfailing
  split_ifs at h with hslots hbest
  obtain rfl := Except.ok.inj h
  obtain ⟨n, hn, hid, hne⟩ := foldl_considerTarget _ hbest
  obtain ⟨id, -, hget⟩ := mem_filterMap.1 hn
  refine ⟨?_, ?_, ?_⟩
  · rw [← hid, hids id n hget, hget]
    rfl
  · exact fun he => hne (hid.trans he.symm)
  · refine ⟨failing, hfailing, ?_⟩
    simp only

variable [Sub F] [IntCast F] {cm : Manager F}

lemma byId_updateTelemetry (h : cm.graph.ById) (nodeID : Bytes) (memBytes latencyMs cpu : F)
    (nowMilli nowNano : Int64) :
    (cm.updateTelemetry nodeID memBytes latencyMs cpu nowMilli nowNano).graph.ById := by
  refine byId_modifyNode h ?_
  exact fun _ => rfl

lemma ownership_updateTelemetry (nodeID : Bytes) (memBytes latencyMs cpu : F) (nowMilli nowNano : Int64) :
    (cm.updateTelemetry nodeID memBytes latencyMs cpu nowMilli nowNano).ownership = cm.ownership := by
  refine ownership_modifyNode ?_ rfl rfl
  exact fun _ => rfl

variable [LE F] [DecidableLE F]

omit [Sub F] [IntCast F] in
lemma checkAndAutoMitigate_spec (hids : cm.graph.ById) (inf : F) (walk : List Bytes) (nodeID : Bytes) :
    (cm.checkAndAutoMitigate inf walk nodeID).1.ownership = cm.ownership ∧
      (cm.checkAndAutoMitigate inf walk nodeID).1.graph.ById ∧
      ∀ plan ∈ (cm.checkAndAutoMitigate inf walk nodeID).2.toOption.join,
        plan.targetNodeID ∈ cm.ownership.registered ∧ plan.sourceNodeID ≠ plan.targetNodeID ∧
          ∃ source, cm.graph.getNode plan.sourceNodeID = some source ∧ plan.slotsToShed = source.ownedSlots := by
  have hnone : ∀ plan : ReliefPlan, plan ∉ (none : Option ReliefPlan) := fun _ => Option.not_mem_none _
  simp only [checkAndAutoMitigate]
  cases cm.predictors nodeID with
  | none => exact ⟨rfl, hids, fun plan hplan => absurd hplan (hnone plan)⟩
  | some pred =>
  simp only
  split_ifs with hrisk
  · exact ⟨rfl, hids, fun plan hplan => absurd hplan (hnone plan)⟩
  cases hfound : findOptimalReliefPlan inf walk cm.graph nodeID with
  | error err => exact ⟨rfl, hids, fun plan hplan => absurd hplan (hnone plan)⟩
  | ok plan =>
  refine ⟨ownership_modifyNode (f := fun n => { n with role := .shadow }) (fun _ => rfl) rfl rfl,
    byId_modifyNode hids fun _ => rfl, ?_⟩
  intro plan' hplan'
  obtain rfl := Option.some.inj hplan'
  exact findOptimalReliefPlan_spec hids hfound

end

/-! ## Runs -/

/-- The manager, with the plans it has made so far. -/
structure ClusterState (F : Type) where
  manager : Manager F
  plans : List ReliefPlan

inductive ManagerCall (F : Type)
  | addNode (id addr : Bytes) (role : NodeRole) (domainID : Bytes)
  | addEdge (src dest : Bytes) (linkType : LinkType) (weight : F)
  | assignSlotRange (nodeID : Bytes) (start stop : UInt16)
  | updateTelemetry (nodeID : Bytes) (memBytes latencyMs cpu : F) (nowMilli nowNano : Int64)
  | checkAndAutoMitigate (nodeID : Bytes) (walk : List Bytes)
  | liveHandover (i : Nat)

namespace ClusterState

variable {F : Type}

/-- A node claims a slot exactly if the table has its ID there; so no slot is claimed by two nodes. -/
structure SingleOwner (s : ClusterState F) : Prop where
  agree : ∀ id nv, s.manager.graph.getNode id = some nv → ∀ slot : UInt16, slot.toNat < numSlots →
    (nv.hasSlot slot = true ↔ s.manager.getSlotNode slot = nv.id)
  unique : ∀ id nv id' nv', s.manager.graph.getNode id = some nv → s.manager.graph.getNode id' = some nv' →
    ∀ slot, nv.hasSlot slot = true → nv'.hasSlot slot = true → id = id'

variable (s : ClusterState F)

/-- The owner of a slot, if it is a registered node, is one of those given. -/
def OwnedBy (slot : UInt16) (ids : List Bytes) : Prop :=
  (s.manager.graph.getNode (s.manager.getSlotNode slot)).isSome = true → s.manager.getSlotNode slot ∈ ids

/-- Nobody loses slots but those who give them. -/
def Settled : ManagerCall F → Prop
  | .addNode id .. => ∀ slot : UInt16, slot.toNat < numSlots → s.manager.getSlotNode slot ≠ id
  | .assignSlotRange nodeID start stop =>
    ∀ slot : UInt16, slot.toNat < numSlots → start ≤ slot → slot ≤ stop → s.OwnedBy slot [nodeID]
  | .liveHandover i =>
    ∀ plan ∈ s.plans[i]?, ∀ slot ∈ plan.slotsToShed, s.OwnedBy slot [plan.sourceNodeID, plan.targetNodeID]
  | _ => True

/-- The nodes are registered under their IDs, and plans are about two of them, and slots there are. -/
structure Sound (s : ClusterState F) : Prop where
  byId : s.manager.graph.ById
  target : ∀ plan ∈ s.plans, plan.targetNodeID ∈ s.manager.ownership.registered
  distinct : ∀ plan ∈ s.plans, plan.sourceNodeID ≠ plan.targetNodeID
  slots : ∀ plan ∈ s.plans, ∀ slot ∈ plan.slotsToShed, slot.toNat < numSlots

section
variable {s : ClusterState F}

lemma Sound.keep {cm : Manager F} (h : s.Sound) (hids : cm.graph.ById)
    (hreg : s.manager.ownership.registered ⊆ cm.ownership.registered) : Sound { s with manager := cm } :=
  ⟨hids, fun plan hplan => hreg (h.target plan hplan), h.distinct, h.slots⟩

lemma getSlotNode_slotOf (cm : Manager F) (x : Fin numSlots) : cm.getSlotNode (slotOf x) = cm.slots x := by
  simp [getSlotNode, toNat_slotOf]

lemma exists_slotOf {slot : UInt16} (h : slot.toNat < numSlots) : ∃ x, slotOf x = slot :=
  ⟨⟨slot.toNat, h⟩, UInt16.ofNat_toNat⟩

lemma forall_slot {P : UInt16 → Prop} : (∀ slot : UInt16, slot.toNat < numSlots → P slot) ↔ ∀ x, P (slotOf x) := by
  refine ⟨fun h x => h _ (slotOf_lt x), fun h slot hslot => ?_⟩
  obtain ⟨x, rfl⟩ := exists_slotOf hslot
  exact h x

lemma singleOwner_iff (h : s.Sound) : s.SingleOwner ↔ s.manager.ownership.Single := by
  constructor
  · intro hsingle id hid x
    obtain ⟨nv, hnv⟩ := Option.isSome_iff_exists.1 hid
    have hagree := hsingle.agree id nv hnv (slotOf x) (slotOf_lt x)
    rw [getSlotNode_slotOf, h.byId id nv hnv] at hagree
    simp only [ownership, Set.mem_ofPred_eq, hnv]
    simpa using hagree
  · intro hsingle
    have hagree : ∀ id nv, s.manager.graph.getNode id = some nv → ∀ x,
        (nv.hasSlot (slotOf x) = true ↔ s.manager.slots x = id) := by
      intro id nv hnv x
      have hid : id ∈ s.manager.ownership.registered := Option.isSome_iff_exists.2 ⟨nv, hnv⟩
      simpa [ownership, hnv] using hsingle id hid x
    constructor
    · intro id nv hnv slot hslot
      obtain ⟨x, rfl⟩ := exists_slotOf hslot
      rw [getSlotNode_slotOf, h.byId id nv hnv]
      exact hagree id nv hnv x
    · intro id nv id' nv' hnv hnv' slot hhas hhas'
      have hslot : slot.toNat < numSlots := by
        by_contra hge
        simp [NodeVertex.hasSlot, hge] at hhas
      obtain ⟨x, rfl⟩ := exists_slotOf hslot
      exact ((hagree id nv hnv x).1 hhas).symm.trans ((hagree id' nv' hnv' x).1 hhas')

end

variable [Add F] [Sub F] [Mul F] [Div F] [LT F] [DecidableLT F] [LE F] [DecidableLE F] [IntCast F]
  [OfScientific F]

def start (selfID selfAddr : Bytes) : ClusterState F := ⟨.new selfID selfAddr, []⟩

/-- Slots are assigned to nodes that are registered, and plans carried out that were made before; a walk over the
nodes meets each of them once. -/
def step (inf : F) (s : ClusterState F) : ManagerCall F → Option (ClusterState F)
  | .addNode id addr role domainID => some { s with manager := s.manager.addNode id addr role domainID }
  | .addEdge src dest linkType weight =>
    some { s with manager := { s.manager with graph := s.manager.graph.addEdge src dest linkType weight } }
  | .assignSlotRange nodeID start stop =>
    if (s.manager.graph.getNode nodeID).isSome then
      some { s with manager := s.manager.assignSlotRange nodeID start stop }
    else none
  | .updateTelemetry nodeID memBytes latencyMs cpu nowMilli nowNano =>
    some { s with
      manager := s.manager.updateTelemetry nodeID memBytes latencyMs cpu nowMilli nowNano }
  | .checkAndAutoMitigate nodeID walk =>
    if walk.Nodup ∧ walk.toFinset = s.manager.graph.nodes.keys then
      let r := s.manager.checkAndAutoMitigate inf walk nodeID
      some ⟨r.1, s.plans ++ (r.2.toOption.join).toList⟩
    else none
  | .liveHandover i => s.plans[i]?.map fun plan => { s with manager := s.manager.liveHandover plan }

variable {s s' : ClusterState F} {inf : F} {call : ManagerCall F}

lemma Sound.step (h : s.Sound) (hstep : s.step inf call = some s') : s'.Sound := by
  cases call with
  | addNode id addr role domainID =>
    cases hstep
    refine h.keep (byId_addNode h.byId _) ?_
    rw [ownership_addNode]
    exact Set.subset_insert ..
  | addEdge src dest linkType weight =>
    cases hstep
    exact h.keep h.byId subset_rfl
  | assignSlotRange nodeID start stop =>
    obtain ⟨hid, hs'⟩ := Option.ite_none_right_eq_some.1 hstep
    cases hs'
    refine h.keep (byId_foldl_takeSlot h.byId _ _) ?_
    rw [assignSlotRange, ownership_foldl_takeSlot hid]
    exact subset_rfl
  | updateTelemetry nodeID memBytes latencyMs cpu nowMilli nowNano =>
    cases hstep
    refine h.keep (byId_updateTelemetry h.byId nodeID memBytes latencyMs cpu nowMilli nowNano) ?_
    rw [ownership_updateTelemetry]
  | checkAndAutoMitigate nodeID walk =>
    obtain ⟨-, hs'⟩ := Option.ite_none_right_eq_some.1 hstep
    cases hs'
    obtain ⟨hown, hids, hplan⟩ := checkAndAutoMitigate_spec h.byId inf walk nodeID
    refine ⟨hids, ?_, ?_, ?_⟩ <;> intro plan hmem <;> rcases mem_append.1 hmem with hold | hnew
    · rw [hown]
      exact h.target plan hold
    · rw [hown]
      exact (hplan plan (Option.mem_toList.1 hnew)).1
    · exact h.distinct plan hold
    · exact (hplan plan (Option.mem_toList.1 hnew)).2.1
    · exact h.slots plan hold
    · obtain ⟨source, -, hslots⟩ := (hplan plan (Option.mem_toList.1 hnew)).2.2
      rw [hslots]
      exact fun slot => lt_of_mem_ownedSlots
  | liveHandover i =>
    obtain ⟨plan, hplan, rfl⟩ := Option.map_eq_some_iff.1 hstep
    have htarget := h.target plan (mem_of_getElem? hplan)
    refine h.keep (byId_liveHandover h.byId plan) ?_
    rw [ownership_liveHandover htarget]
    exact subset_rfl

lemma singleOwner_step_iff (h : s.Sound) (hsingle : s.SingleOwner) (hstep : s.step inf call = some s') :
    s'.SingleOwner ↔ s.Settled call := by
  rw [singleOwner_iff h] at hsingle
  rw [singleOwner_iff (h.step hstep)]
  cases call with
  | addNode id addr role domainID =>
    cases hstep
    rw [ownership_addNode, single_add_iff hsingle, Settled, forall_slot]
    simp only [getSlotNode_slotOf]
    rfl
  | addEdge src dest linkType weight =>
    cases hstep
    exact iff_of_true hsingle trivial
  | assignSlotRange nodeID start stop =>
    obtain ⟨hid, hs'⟩ := Option.ite_none_right_eq_some.1 hstep
    cases hs'
    rw [assignSlotRange, ownership_foldl_takeSlot hid, single_take_iff hsingle, Settled, forall_slot]
    refine forall_congr' fun x => ?_
    have hx : x ∈ slotSet (slotRange start stop) ↔ _ := mem_slotRange (slotOf_lt x)
    rw [hx, and_imp, OwnedBy, getSlotNode_slotOf, mem_singleton]
    rfl
  | updateTelemetry nodeID memBytes latencyMs cpu nowMilli nowNano =>
    cases hstep
    rw [ownership_updateTelemetry]
    exact iff_of_true hsingle trivial
  | checkAndAutoMitigate nodeID walk =>
    obtain ⟨-, hs'⟩ := Option.ite_none_right_eq_some.1 hstep
    cases hs'
    rw [(checkAndAutoMitigate_spec h.byId inf walk nodeID).1]
    exact iff_of_true hsingle trivial
  | liveHandover i =>
    obtain ⟨plan, hplan, rfl⟩ := Option.map_eq_some_iff.1 hstep
    have hmem := mem_of_getElem? hplan
    rw [ownership_liveHandover (h.target plan hmem), single_handover_iff hsingle]
    constructor
    · intro hown plan' hplan' slot hslot hreg
      obtain rfl := Option.some.inj (hplan.symm.trans hplan')
      obtain ⟨x, rfl⟩ := exists_slotOf (h.slots plan hmem slot hslot)
      rw [getSlotNode_slotOf] at hreg ⊢
      simpa [ownership] using hown x hslot hreg
    · intro hown x hx hreg
      have howner := hown plan hplan (slotOf x) hx
      rw [OwnedBy, getSlotNode_slotOf] at howner
      simpa [ownership] using howner hreg

end ClusterState

/-- Along any calls, with any arithmetic on the measurements, table and bitmaps agree in every state exactly if the
manager's own ID is not empty and each call takes slots from nobody but those who give them. -/
theorem single_owner_iff {F : Type} [Add F] [Sub F] [Mul F] [Div F] [LT F] [DecidableLT F] [LE F] [DecidableLE F]
    [IntCast F] [OfScientific F] (inf : F) (selfID selfAddr : Bytes) (calls : List (ManagerCall F)) (s : ClusterState F)
    (hrun : Run (ClusterState.step inf) Free (.start selfID selfAddr) calls s) :
    (∀ before after t, calls = before ++ after → Run (ClusterState.step inf) Free (.start selfID selfAddr) before t →
        t.SingleOwner) ↔
      selfID ≠ [] ∧ Run (ClusterState.step inf) ClusterState.Settled (.start selfID selfAddr) calls s := by
  have hsound : (ClusterState.start (F := F) selfID selfAddr).Sound :=
    ⟨byId_addNode (fun id nv hnv => by simp [TopologyGraph.new, TopologyGraph.getNode] at hnv) _,
      by simp [ClusterState.start], by simp [ClusterState.start], by simp [ClusterState.start]⟩
  have hstart : (ClusterState.start (F := F) selfID selfAddr).SingleOwner ↔ selfID ≠ [] := by
    have hempty : Ownership.Single (⟨∅, fun _ => ∅, fun _ => []⟩ : Ownership Bytes (Fin numSlots)) :=
      fun id hid => absurd hid (Set.notMem_empty id)
    rw [ClusterState.singleOwner_iff hsound, ClusterState.start, ownership_new, Ownership.single_add_iff hempty]
    exact ⟨fun h => (h ⟨0, by decide⟩).symm, fun h _ => h.symm⟩
  constructor
  · intro hall
    have hself := hstart.1 (hall [] calls _ rfl (.nil _))
    exact ⟨hself, (hrun.guarded_iff_of_inv ClusterState.Sound.step ClusterState.singleOwner_step_iff hsound
      (hstart.2 hself)).1 hall⟩
  · rintro ⟨hself, hguarded⟩
    exact (hrun.guarded_iff_of_inv ClusterState.Sound.step ClusterState.singleOwner_step_iff hsound
      (hstart.2 hself)).2 hguarded

/-- A second node joins, and the two have a slot each. -/
theorem single_owner_divided :
    ∃ s : ClusterState ℚ, s.manager.getSlotNode 0 = ascii "a" ∧ s.manager.getSlotNode 1 = ascii "b" ∧ ∀ before after t,
        [.addNode (ascii "b") (ascii "127.0.0.1:7001") .master [], .assignSlotRange (ascii "a") 0 0,
          .assignSlotRange (ascii "b") 1 1] = before ++ after →
        Run (ClusterState.step (0 : ℚ)) Free (.start (ascii "a") (ascii "127.0.0.1:7000")) before t →
        t.SingleOwner := by
  have hrun : ∃ s : ClusterState ℚ, s.manager.getSlotNode 0 = ascii "a" ∧ s.manager.getSlotNode 1 = ascii "b" ∧
      Run (ClusterState.step (0 : ℚ)) ClusterState.Settled (.start (ascii "a") (ascii "127.0.0.1:7000"))
        [.addNode (ascii "b") (ascii "127.0.0.1:7001") .master [], .assignSlotRange (ascii "a") 0 0,
          .assignSlotRange (ascii "b") 1 1] s := by
    refine ⟨_, ?_, ?_, .cons ?_ rfl (.cons ?_ rfl (.cons ?_ rfl (.nil _)))⟩
    · decide
    · decide
    · intro slot hslot
      rw [getSlotNode, dif_pos hslot]
      show ([] : Bytes) ≠ ascii "b"
      decide
    all_goals
      intro slot _ h0 h1 hreg
      obtain rfl := UInt16.le_antisymm h0 h1
      exact absurd hreg (by decide)
  obtain ⟨s, ha, hb, hrun⟩ := hrun
  exact ⟨s, ha, hb, (single_owner_iff 0 _ _ _ s (hrun.mono fun _ _ _ => trivial)).2 ⟨by decide, hrun⟩⟩

/-- A node that meets the cluster again has lost its bitmap, but not its slot. -/
theorem readded_node_loses_bitmap : ∃ s : ClusterState ℚ,
      Run (ClusterState.step (0 : ℚ)) Free (.start (ascii "a") (ascii "127.0.0.1:7000"))
        [.addNode (ascii "b") (ascii "127.0.0.1:7001") .master [], .assignSlotRange (ascii "b") 0 0,
          .addNode (ascii "b") (ascii "127.0.0.1:7001") .master []] s ∧ s.manager.getSlotNode 0 = ascii "b" ∧
      ((s.manager.graph.getNode (ascii "b")).map fun nv => (nv.id, nv.hasSlot 0)) = some (ascii "b", false) ∧
      ¬ s.SingleOwner := by
  have hlost : ∀ {s : ClusterState ℚ}, s.manager.getSlotNode 0 = ascii "b" →
      ((s.manager.graph.getNode (ascii "b")).map fun nv => (nv.id, nv.hasSlot 0)) = some (ascii "b", false) →
      ¬ s.SingleOwner := by
    intro s hslot hnode hsingle
    obtain ⟨nv, hnv, hpair⟩ := Option.map_eq_some_iff.1 hnode
    obtain ⟨hid, hhas⟩ := Prod.mk.inj hpair
    have hagree := (hsingle.agree _ nv hnv 0 (by decide)).2 (hslot.trans hid.symm)
    rw [hhas] at hagree
    cases hagree
  refine ⟨_, Run.of_runAll rfl, ?_, ?_, hlost ?_ ?_⟩ <;> decide

end Gopherdis.Cluster

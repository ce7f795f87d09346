/-
Commands of several clients on one list, step by step. Every command but `LSET` holds the lock of the key from
before it resolves the stored object until it is done. `LSET` takes no lock: it may write to an object that has
been replaced meanwhile, and where it promotes the list it publishes a copy that lacks what was added meanwhile.
-/
import Gopherdis.Encoded.Lists
import Gopherdis.Lib.Linear
import Gopherdis.Lib.Runs

namespace Gopherdis.Encoded

open Lib Codec Object Store Command Function Option

/-! ## The commands, one at a time -/

/-- The commands that build a list anew. -/
inductive Reshape
  | insert (after : Bool) (pivot element : Bytes)
  | trim (start stop : Int)
  | rem (count : Int) (target : Bytes)

/-- The reply, and the elements to store if any are to be. -/
def Reshape.result : Reshape → List Bytes → Bytes × Option (List Bytes)
  | insert after pivot element, items =>
    match items.idxOf? pivot with
    | none => (integer (-1), none)
    | some i =>
      let i := if after then i + 1 else i
      let out := items.take i ++ [element] ++ items.drop i
      (integer out.length, some out)
  | trim start stop, items => (ok, some (cut items start stop))
  | rem count target, items =>
    let r := lremResult target count items
    if r.2 = 0 then (integer 0, none) else (integer r.2, some r.1)

/-- The reply where there is no list. -/
def Reshape.absent : Reshape → Bytes
  | insert _ _ _ | rem _ _ => integer 0
  | trim _ _ => ok

inductive ListCmd
  | push (side : ListEnd) (vals : List Bytes)
  | pop (side : ListEnd)
  | set (i : Int) (val : Bytes)
  | reshape (r : Reshape)

/-- The handler takes the lock of the key. -/
def ListCmd.locks : ListCmd → Bool
  | set _ _ => false
  | push _ _ | pop _ | reshape _ => true

/-- What a handler has left to do once it has its view; `drop` comes after an element was taken. -/
inductive Work
  | push (side : ListEnd) (vals : List Bytes)
  | pop (side : ListEnd)
  | drop (val : Bytes)
  | set (i : Int) (val : Bytes)
  | reshape (r : Reshape)

def ListCmd.work : ListCmd → Work
  | push side vals => .push side vals
  | pop side => .pop side
  | set i val => .set i val
  | reshape r => .reshape r

def pushAll (side : ListEnd) (vals items : List Bytes) : List Bytes :=
  vals.foldl (fun items val => pushEnd val side items) items

/-- The key goes with the last element. -/
def kept (items : List Bytes) : Option (List Bytes) := if items = [] then none else some items

def outOfRange : Bytes := error (ascii "index out of range")

/-- The reply and the list, if nobody else is at work. -/
def Work.finish : Work → List Bytes → Bytes × Option (List Bytes)
  | push side vals, items => (integer (pushAll side vals items).length, some (pushAll side vals items))
  | pop side, items =>
    match popEnd side items with
    | none => (nullBulkString, some items)
    | some (val, rest) => (bulkString val, kept rest)
  | drop val, items => (bulkString val, kept items)
  | set i val, items =>
    match listIndex items.length i with
    | none => (outOfRange, some items)
    | some j => (ok, some (items.set j val))
  | reshape r, items =>
    match r.result items with
    | (reply, none) => (reply, some items)
    | (reply, some out) => (reply, kept out)

/-- The reply of a command and the list it leaves. -/
def ListCmd.apply (cmd : ListCmd) : Option (List Bytes) → Bytes × Option (List Bytes)
  | some items => cmd.work.finish items
  | none =>
    match cmd with
    | push side vals => (Work.push side vals).finish []
    | pop _ => (nullBulkString, none)
    | set _ _ => (noSuchKey, none)
    | reshape r => (r.absent, none)

/-! ## Step by step -/

/-- Where a client is. A view is the object it was resolved to; `begun` says that the list was made or changed
through it. `copied` is in `promote`, with the elements for the new object; `rebuilt` is in `storeList`. -/
inductive Stage
  | waiting
  | entered
  | viewing (ref : Nat) (begun : Bool) (work : Work)
  | copied (ref : Nat) (items : List Bytes) (begun : Bool) (work : Work)
  | rebuilt (ref : Nat) (items : List Bytes) (reply : Bytes)
  | finished (reply : Bytes)
  | left (reply : Bytes)

/-- The objects there ever were, the one the key has, and who holds the lock of the key. -/
structure ListState (ι : Type) where
  heap : Nat → Held Bytes
  next : Nat
  stored : Option Nat
  holder : Option ι
  stage : ι → Stage

variable {ι : Type} [DecidableEq ι]

namespace ListState

def start (h : Option (Held Bytes)) : ListState ι :=
  ⟨fun _ => h.getD ⟨[], .listpack⟩, 1, h.map fun _ => 0, none, fun _ => .waiting⟩

variable (s : ListState ι)

/-- What the key holds. -/
def elements : Option (List Bytes) := s.stored.map fun ref => (s.heap ref).items

def goto (c : ι) (st : Stage) : ListState ι := { s with stage := update s.stage c st }

/-- The object is changed where it is. -/
def write (s : ListState ι) (ref : Nat) (items : List Bytes) : ListState ι :=
  { s with heap := update s.heap ref { s.heap ref with items } }

/-- The key gets a new object. -/
def publish (h : Held Bytes) : ListState ι :=
  { s with heap := update s.heap s.next h, stored := some s.next, next := s.next + 1 }

def delete : ListState ι := { s with stored := none }

end ListState

open ListState

section
variable (S : Settings) (cmds : ι → ListCmd)

open ListState

variable (s : ListState ι)

/-- The view is resolved. `LPUSH` and `RPUSH` make a list where there is none. -/
def resolve (c : ι) : ListState ι :=
  match s.stored with
  | some ref => s.goto c (.viewing ref false (cmds c).work)
  | none =>
    match cmds c with
    | .push side vals => (s.publish ⟨[], .listpack⟩).goto c (.viewing s.next true (.push side vals))
    | cmd => s.goto c (.finished (cmd.apply none).1)

def viewStep (c : ι) (ref : Nat) (begun : Bool) (work : Work) : ListState ι :=
  let h := s.heap ref
  match work with
  | .push _ [] => s.goto c (.finished (integer h.items.length))
  | .push side (val :: vals) =>
    if growWouldPromote S h val then s.goto c (.copied ref h.items begun work)
    else (s.write ref (pushEnd val side h.items)).goto c (.viewing ref true (.push side vals))
  | .pop side =>
    match popEnd side h.items with
    | none => s.goto c (.finished nullBulkString)
    | some (val, rest) => (s.write ref rest).goto c (.viewing ref true (.drop val))
  | .drop val => (if h.items = [] then s.delete else s).goto c (.finished (bulkString val))
  | .set i val =>
    if h.enc = .listpack ∧ listMaxListpackValue < val.length then s.goto c (.copied ref h.items begun work)
    else
      match listIndex h.items.length i with
      | none => s.goto c (.finished outOfRange)
      | some j => (s.write ref (h.items.set j val)).goto c (.finished ok)
  | .reshape r =>
    match r.result h.items with
    | (reply, none) => s.goto c (.finished reply)
    | (reply, some out) => s.goto c (.rebuilt ref out reply)

/-- The encoding `replaceAll` picks: a quicklist stays one. -/
def rebuiltEncoding (items : List Bytes) : Encoding :=
  if (s.stored.map fun ref => (s.heap ref).enc) = some .quicklist then .quicklist
  else listEncoding S.server.listMaxListpackSize items

/-- The next step of a client, if it can take one. -/
def listStep (c : ι) : Option (ListState ι) :=
  match s.stage c with
  | .waiting =>
    if (cmds c).locks then
      if s.holder = none then some ({ s with holder := some c }.goto c .entered) else none
    else some (s.goto c .entered)
  | .entered => some (resolve cmds s c)
  | .viewing ref begun work => some (viewStep S s c ref begun work)
  | .copied _ items begun work => some ((s.publish ⟨items, .quicklist⟩).goto c (.viewing s.next begun work))
  | .rebuilt _ items reply =>
    let s' := if items = [] then s.delete else s.publish ⟨items, rebuiltEncoding S s items⟩
    some (s'.goto c (.finished reply))
  | .finished reply =>
    some ({ s with holder := if (cmds c).locks then none else s.holder }.goto c (.left reply))
  | .left _ => none

end

/-! ## Who is in whose way -/

namespace Stage

/-- The client has taken the lock, if it takes one, and has not released it. -/
def inside : Stage → Bool
  | waiting | left _ => false
  | entered | viewing _ _ _ | copied _ _ _ _ | rebuilt _ _ _ | finished _ => true

def view : Stage → Option Nat
  | viewing ref _ _ | copied ref _ _ _ | rebuilt ref _ _ => some ref
  | waiting | entered | finished _ | left _ => none

/-- The client has read or changed the elements, and has not made its last change. -/
def underway : Stage → Bool
  | viewing _ begun _ => begun
  | copied _ _ _ _ | rebuilt _ _ _ => true
  | waiting | entered | finished _ | left _ => false

def reply : Stage → Option Bytes
  | finished reply | left reply => some reply
  | waiting | entered | viewing _ _ _ | copied _ _ _ _ | rebuilt _ _ _ => none

/-- What the client comes to from these elements if it is left alone. -/
def Due (items : List Bytes) (r : Bytes × Option (List Bytes)) : Stage → Prop
  | viewing _ _ work => work.finish items = r
  | copied _ copy _ work => work.finish copy = r
  | rebuilt _ out reply => (reply, kept out) = r
  | waiting | entered | finished _ | left _ => True

variable {st : Stage}

lemma view_of_underway (h : st.underway = true) : ∃ ref, st.view = some ref := by
  cases st <;> first | exact ⟨_, rfl⟩ | cases h

lemma inside_of_view {ref : Nat} (h : st.view = some ref) : st.inside = true := by
  cases st <;> first | rfl | cases h

lemma reply_of_view {ref : Nat} (h : st.view = some ref) : st.reply = none := by
  cases st <;> first | rfl | cases h

end Stage

open Stage

section
variable (S : Settings) (cmds : ι → ListCmd)

/-- The next step of the client takes the stored object from the key. -/
def replaces (s : ListState ι) (c : ι) : Bool :=
  match s.stage c with
  | .copied _ _ _ _ | .rebuilt _ _ _ => true
  | .viewing ref _ (.drop _) => (s.heap ref).items = []
  | _ => false

/-- Where one of two clients takes no lock, neither works on the elements while the other is underway, and neither
replaces or deletes the object while the other has a view of it. -/
def Calm (s : ListState ι) (c : ι) : Prop :=
  ∀ d, d ≠ c → (cmds c).locks = false ∨ (cmds d).locks = false → (s.stage c).view ≠ none →
    (s.stage d).underway = false ∧ (replaces s c = true → (s.stage d).view = none)

instance [Fintype ι] (s : ListState ι) (c : ι) : Decidable (Calm cmds s c) :=
  inferInstanceAs (Decidable (∀ d, d ≠ c → _ ∨ _ → _ ≠ none → _ = false ∧ (_ = true → _ = none)))

/-- The list after the commands that are done. -/
def listAfter (l : Option (List Bytes)) (order : List ι) : Option (List Bytes) :=
  seqState (fun c => (cmds c).apply) l order

/-- The commands that are done are in order. While nobody is underway the key holds what they leave; a client that
is underway is so alone, and comes to what is due to it. -/
structure Linear (l : Option (List Bytes)) (order : List ι) (s : ListState ι) : Prop where
  answers : Sequential (fun c => (cmds c).apply) l order fun c => (s.stage c).reply
  locked : ∀ c, (cmds c).locks = true → (s.stage c).inside = true → s.holder = some c
  made : ∀ ref, s.stored = some ref → ref < s.next
  view : ∀ c ref, (s.stage c).view = some ref → s.stored = some ref
  fresh : ∀ c ref work, s.stage c = .viewing ref false work → work = (cmds c).work
  copied : ∀ c ref items work, s.stage c = .copied ref items false work →
    work = (cmds c).work ∧ listAfter cmds l order = some items
  alone : ∀ c d, (s.stage c).underway = true → (s.stage d).underway = true → c = d
  due : ∀ c items, (s.stage c).underway = true → s.elements = some items →
    (s.stage c).Due items ((cmds c).apply (listAfter cmds l order))
  settled : (∀ c, (s.stage c).underway = false) → s.elements = listAfter cmds l order

end

variable {S : Settings} {cmds : ι → ListCmd} {l : Option (List Bytes)} {order : List ι} {s s' : ListState ι} {c : ι}

namespace Linear

omit [DecidableEq ι] in
lemma apart (h : Linear cmds l order s) (hg : Calm cmds s c) {ref : Nat} (hview : (s.stage c).view = some ref) :
    ∀ d, d ≠ c → (s.stage d).underway = false ∧ (replaces s c = true → (s.stage d).view = none) := by
  intro d hd
  by_cases hlocks : (cmds c).locks = false ∨ (cmds d).locks = false
  · exact hg d hd hlocks (by rw [hview]; exact some_ne_none ref)
  push Not at hlocks
  obtain ⟨hc, hdlock⟩ := hlocks
  have hholder := h.locked c (by simpa using hc) (inside_of_view hview)
  have hnone : (s.stage d).view = none := by
    by_contra hsome
    obtain ⟨ref', href'⟩ := ne_none_iff_exists'.1 hsome
    have hholder' := h.locked d (by simpa using hdlock) (inside_of_view href')
    exact hd (some.inj (hholder'.symm.trans hholder))
  refine ⟨?_, fun _ => hnone⟩
  by_contra hunder
  obtain ⟨ref', href'⟩ := view_of_underway (by simpa using hunder)
  rw [hnone] at href'
  cases href'

omit [DecidableEq ι] in
lemma due_viewing (h : Linear cmds l order s) {ref : Nat} {begun : Bool} {work : Work}
    (hst : s.stage c = .viewing ref begun work) (hothers : ∀ d, d ≠ c → (s.stage d).underway = false) :
    work.finish (s.heap ref).items = (cmds c).apply (listAfter cmds l order) := by
  have hstored := h.view c ref (by rw [hst]; rfl)
  have helements : s.elements = some (s.heap ref).items := by rw [elements, hstored]; rfl
  cases begun with
  | true =>
    have hdue := h.due c _ (by rw [hst]; rfl) helements
    rw [hst] at hdue
    exact hdue
  | false =>
  have hsettled : s.elements = listAfter cmds l order := by
    refine h.settled fun d => ?_
    by_cases hd : d = c
    · rw [hd, hst]
      rfl
    · exact hothers d hd
  rw [← hsettled, helements, h.fresh c ref work hst]
  rfl

/-- One client goes on to `st` while nobody else is underway; the other views stay good. -/
structure Goes (s : ListState ι) (c : ι) (st : Stage) (s' : ListState ι) : Prop where
  stage : s'.stage = update s.stage c st
  reply : (s.stage c).reply = none
  inside : (s.stage c).inside = true
  holder : s'.holder = s.holder
  made : ∀ ref, s'.stored = some ref → ref < s'.next
  others : ∀ d, d ≠ c → (s.stage d).underway = false
  views : ∀ d, d ≠ c → ∀ ref, (s.stage d).view = some ref → s'.stored = some ref

lemma Goes.linear {st : Stage} {order' : List ι} (hg : Goes s c st s') (h : Linear cmds l order s)
    (hanswers : Sequential (fun c => (cmds c).apply) l order' fun d => (update s.stage c st d).reply)
    (hview : ∀ ref, st.view = some ref → s'.stored = some ref)
    (hfresh : ∀ ref work, st = .viewing ref false work → work = (cmds c).work)
    (hcopied : ∀ ref items work, st = .copied ref items false work →
      work = (cmds c).work ∧ listAfter cmds l order' = some items)
    (hdue : ∀ items, s'.elements = some items → st.Due items ((cmds c).apply (listAfter cmds l order')))
    (hsettled : st.underway = false → s'.elements = listAfter cmds l order') : Linear cmds l order' s' := by
  have hself : s'.stage c = st := by rw [hg.stage, update_self]
  have hother : ∀ d, d ≠ c → s'.stage d = s.stage d := fun d hd => by rw [hg.stage, update_of_ne hd]
  have honly : ∀ d, (s'.stage d).underway = true → d = c := by
    intro d hd
    by_contra hne
    rw [hother d hne, hg.others d hne] at hd
    cases hd
  rw [← hg.stage] at hanswers
  refine ⟨hanswers, fun d hlock hin => ?_, hg.made, fun d ref hv => ?_, fun d ref work hst => ?_,
    fun d ref items work hst => ?_, fun d e hd he => (honly d hd).trans (honly e he).symm, fun d items hd helements => ?_,
    fun hunder => hsettled (hself ▸ hunder c)⟩
  · rw [hg.holder]
    by_cases hd : d = c
    · exact hd ▸ h.locked c (hd ▸ hlock) hg.inside
    · exact h.locked d hlock (hother d hd ▸ hin)
  · by_cases hd : d = c
    · exact hview ref (hself ▸ hd ▸ hv)
    · exact hg.views d hd ref (hother d hd ▸ hv)
  · by_cases hd : d = c
    · exact hd ▸ hfresh ref work (hself.symm.trans (hd ▸ hst))
    · exact h.fresh d ref work ((hother d hd).symm.trans hst)
  · obtain rfl := honly d (by rw [hst]; rfl)
    exact hcopied ref items work (hself.symm.trans hst)
  · obtain rfl := honly d hd
    rw [hself]
    exact hdue items helements

lemma finish (h : Linear cmds l order s) {reply : Bytes} (hg : Goes s c (.finished reply) s')
    (hdone : (reply, s'.elements) = (cmds c).apply (listAfter cmds l order)) : Linear cmds l (order ++ [c]) s' := by
  refine hg.linear h ?_ (fun _ hv => by cases hv) (fun _ _ he => by cases he) (fun _ _ _ he => by cases he)
    (fun _ _ => trivial) fun _ => ?_
  · refine h.answers.concat hg.reply ?_ fun d hd => by rw [update_of_ne hd]
    rw [update_self]
    exact congrArg some (congrArg Prod.fst hdone)
  · rw [listAfter, seqState_concat]
    exact congrArg Prod.snd hdone

lemma go (h : Linear cmds l order s) {st : Stage} (hg : Goes s c st s') {ref : Nat} (hview : st.view = some ref)
    (hstored : s'.stored = some ref)
    (hfresh : ∀ ref work, st = .viewing ref false work → work = (cmds c).work ∧ s'.elements = listAfter cmds l order)
    (hcopied : ∀ ref items work, st = .copied ref items false work →
      work = (cmds c).work ∧ listAfter cmds l order = some items)
    (hdue : ∀ items, s'.elements = some items → st.Due items ((cmds c).apply (listAfter cmds l order))) :
    Linear cmds l order s' := by
  refine hg.linear h (h.answers.congr fun d => ?_) (fun ref' hv => hstored.trans (hview.symm.trans hv))
    (fun ref work he => (hfresh ref work he).1) hcopied hdue fun hunder => ?_
  · by_cases hd : d = c
    · rw [hd, update_self, hg.reply, reply_of_view hview]
    · rw [update_of_ne hd]
  · cases st with
    | viewing ref' begun work =>
      obtain rfl : begun = false := hunder
      exact (hfresh ref' work rfl).2
    | copied | rebuilt => cases hunder
    | waiting | entered | finished | left => cases hview

end Linear

/-! ## A client at its work -/

omit [DecidableEq ι] in
lemma elements_write {ref : Nat} (hstored : s.stored = some ref) (items : List Bytes) :
    (s.write ref items).elements = some items := by
  rw [elements, write]
  simp [hstored]

omit [DecidableEq ι] in
lemma elements_publish (s : ListState ι) (held : Held Bytes) : (s.publish held).elements = some held.items := by
  rw [elements, publish]
  simp

/-- A client has a view, and nobody else is underway. -/
structure AtWork (cmds : ι → ListCmd) (l : Option (List Bytes)) (order : List ι) (s : ListState ι) (c : ι) (ref : Nat)
    (begun : Bool) (work : Work) : Prop where
  linear : Linear cmds l order s
  stage : s.stage c = .viewing ref begun work
  others : ∀ d, d ≠ c → (s.stage d).underway = false

namespace AtWork

variable {ref : Nat} {begun : Bool} {work : Work} (h : AtWork cmds l order s c ref begun work)

include h

omit [DecidableEq ι] in
lemma view : (s.stage c).view = some ref := by
  rw [h.stage]
  rfl

omit [DecidableEq ι] in
lemma elements : s.elements = some (s.heap ref).items := by
  rw [ListState.elements, h.linear.view c ref h.view]
  rfl

omit [DecidableEq ι] in
lemma due : work.finish (s.heap ref).items = (cmds c).apply (listAfter cmds l order) :=
  h.linear.due_viewing h.stage h.others

lemma goes {s' : ListState ι} {st : Stage} (hstage : s'.stage = update s.stage c st) (hholder : s'.holder = s.holder)
    (hstored : s'.stored = s.stored) (hnext : s'.next = s.next) : Linear.Goes s c st s' := by
  refine ⟨hstage, reply_of_view h.view, inside_of_view h.view, hholder, ?_, h.others, fun d _ => ?_⟩
  · rw [hstored, hnext]
    exact h.linear.made
  · rw [hstored]
    exact h.linear.view d

variable {reply : Bytes}

lemma last (hr : (reply, some (s.heap ref).items) = work.finish (s.heap ref).items) :
    Linear cmds l (order ++ [c]) (s.goto c (.finished reply)) := by
  refine h.linear.finish (h.goes rfl rfl rfl rfl) ?_
  rw [← h.due, ← hr]
  exact congrArg (Prod.mk reply) h.elements

lemma lastWrite {items : List Bytes} (hr : (reply, some items) = work.finish (s.heap ref).items) :
    Linear cmds l (order ++ [c]) ((s.write ref items).goto c (.finished reply)) := by
  refine h.linear.finish (h.goes rfl rfl rfl rfl) ?_
  rw [← h.due, ← hr]
  exact congrArg (Prod.mk reply) (elements_write (h.linear.view c ref h.view) items)

lemma change {items : List Bytes} {work' : Work} (hr : work'.finish items = work.finish (s.heap ref).items) :
    Linear cmds l order ((s.write ref items).goto c (.viewing ref true work')) := by
  have hstored := h.linear.view c ref h.view
  refine h.linear.go (h.goes rfl rfl rfl rfl) rfl hstored (fun _ _ he => by cases he) (fun _ _ _ he => by cases he)
    fun items' hi => ?_
  obtain rfl := some.inj ((elements_write hstored items).symm.trans hi)
  exact hr.trans h.due

lemma copy : Linear cmds l order (s.goto c (.copied ref (s.heap ref).items begun work)) := by
  refine h.linear.go (h.goes rfl rfl rfl rfl) rfl (h.linear.view c ref h.view) (fun _ _ he => by cases he) ?_
    fun _ _ => h.due
  intro ref' items work' he
  cases he
  refine ⟨h.linear.fresh c ref work h.stage, ?_⟩
  rw [← h.elements]
  refine (h.linear.settled fun d => ?_).symm
  by_cases hd : d = c
  · rw [hd, h.stage]
    rfl
  · exact h.others d hd

lemma rebuild {out : List Bytes} (hr : (reply, kept out) = work.finish (s.heap ref).items) :
    Linear cmds l order (s.goto c (.rebuilt ref out reply)) :=
  h.linear.go (h.goes rfl rfl rfl rfl) rfl (h.linear.view c ref h.view) (fun _ _ he => by cases he)
    (fun _ _ _ he => by cases he) fun _ _ => hr.trans h.due

lemma lastDelete (hr : (reply, none) = work.finish (s.heap ref).items) (hviews : ∀ d, d ≠ c → (s.stage d).view = none) :
    Linear cmds l (order ++ [c]) (s.delete.goto c (.finished reply)) := by
  refine h.linear.finish ⟨rfl, reply_of_view h.view, inside_of_view h.view, rfl, (fun _ hn => by cases hn),
    h.others, fun d hd ref' hv => ?_⟩ (hr.trans h.due)
  rw [hviews d hd] at hv
  cases hv

lemma step (hg : Calm cmds s c) : ∃ order', Linear cmds l order' (viewStep S s c ref begun work) := by
  unfold viewStep
  cases work with
  | push side vals =>
    cases vals with
    | nil => exact ⟨_, h.last rfl⟩
    | cons val vals =>
      dsimp only
      split_ifs
      · exact ⟨_, h.copy⟩
      · exact ⟨_, h.change rfl⟩
  | pop side =>
    dsimp only
    cases hpop : popEnd side (s.heap ref).items with
    | none => exact ⟨_, h.last (by rw [Work.finish, hpop])⟩
    | some p => exact ⟨_, h.change (by rw [Work.finish, Work.finish, hpop])⟩
  | drop val =>
    dsimp only
    split_ifs with hnil
    · refine ⟨_, h.lastDelete (by rw [Work.finish, kept, if_pos hnil]) fun d hd => ?_⟩
      refine (h.linear.apart hg h.view d hd).2 ?_
      rw [replaces, h.stage]
      exact decide_eq_true hnil
    · exact ⟨_, h.last (by rw [Work.finish, kept, if_neg hnil])⟩
  | set i val =>
    dsimp only
    split_ifs
    · exact ⟨_, h.copy⟩
    cases hi : listIndex (s.heap ref).items.length i with
    | none => exact ⟨_, h.last (by rw [Work.finish, hi])⟩
    | some j => exact ⟨_, h.lastWrite (by rw [Work.finish, hi])⟩
  | reshape r =>
    dsimp only
    rcases hr : r.result (s.heap ref).items with ⟨reply, _ | out⟩
    · exact ⟨_, h.last (by rw [Work.finish, hr])⟩
    · exact ⟨_, h.rebuild (by rw [Work.finish, hr])⟩

end AtWork

/-! ## The other steps -/

namespace Linear

section
variable (h : Linear cmds l order s)
include h

variable {ref : Nat}

lemma replacing (hg : Calm cmds s c) (hview : (s.stage c).view = some ref)
    (hreplaces : replaces s c = true) {st : Stage} (hstage : s'.stage = update s.stage c st)
    (hholder : s'.holder = s.holder) (hmade : ∀ ref, s'.stored = some ref → ref < s'.next) : Goes s c st s' := by
  refine ⟨hstage, reply_of_view hview, inside_of_view hview, hholder, hmade,
    fun d hd => (h.apart hg hview d hd).1, fun d hd ref' hv => ?_⟩
  rw [(h.apart hg hview d hd).2 hreplaces] at hv
  cases hv

omit [DecidableEq ι] in
lemma elements_of_view (hview : (s.stage c).view = some ref) : s.elements = some (s.heap ref).items := by
  rw [elements, h.view c ref hview]
  rfl

lemma publishCopy (hg : Calm cmds s c) {items : List Bytes} {begun : Bool}
    {work : Work} (hst : s.stage c = .copied ref items begun work) :
    Linear cmds l order ((s.publish ⟨items, .quicklist⟩).goto c (.viewing s.next begun work)) := by
  have hview : (s.stage c).view = some ref := by rw [hst]; rfl
  have hreplaces : replaces s c = true := by rw [replaces, hst]
  have hdue := h.due c _ (by rw [hst]; rfl) (h.elements_of_view hview)
  rw [hst] at hdue
  refine h.go (h.replacing hg hview hreplaces rfl rfl ?_) rfl rfl ?_ (fun _ _ _ he => by cases he) fun items' hi => ?_
  · intro ref' hr
    cases hr
    exact Nat.lt_succ_self _
  · intro ref' work' he
    cases he
    obtain ⟨hwork, hnow⟩ := h.copied c ref items work hst
    exact ⟨hwork, (elements_publish s _).trans hnow.symm⟩
  · obtain rfl := some.inj ((elements_publish s _).symm.trans hi)
    exact hdue

lemma storeRebuilt (hg : Calm cmds s c) {items : List Bytes} {reply : Bytes}
    (hst : s.stage c = .rebuilt ref items reply) (enc : Encoding) : Linear cmds l (order ++ [c])
      ((if items = [] then s.delete else s.publish ⟨items, enc⟩).goto c (.finished reply)) := by
  have hview : (s.stage c).view = some ref := by rw [hst]; rfl
  have hreplaces : replaces s c = true := by rw [replaces, hst]
  have hdue := h.due c _ (by rw [hst]; rfl) (h.elements_of_view hview)
  rw [hst] at hdue
  have hkept : (reply, kept items) = (cmds c).apply (listAfter cmds l order) := hdue
  split_ifs with hnil
  · rw [kept, if_pos hnil] at hkept
    exact h.finish (h.replacing hg hview hreplaces rfl rfl fun _ hn => by cases hn) hkept
  rw [kept, if_neg hnil] at hkept
  refine h.finish (h.replacing hg hview hreplaces rfl rfl ?_)
    ((congrArg (Prod.mk reply) (elements_publish s _)).trans hkept)
  intro ref' hr
  cases hr
  exact Nat.lt_succ_self _

lemma pass {st : Stage} {o : Option ι}
    (hlock : ∀ d, (cmds d).locks = true → (update s.stage c st d).inside = true → o = some d)
    (hreply : st.reply = (s.stage c).reply) (hbefore : (s.stage c).underway = false) (hafter : st.underway = false)
    (hview : ∀ ref, st.view = some ref → s.stored = some ref)
    (hfresh : ∀ ref work, st = .viewing ref false work → work = (cmds c).work) :
    Linear cmds l order ({ s with holder := o }.goto c st) := by
  have hself : ({ s with holder := o }.goto c st).stage c = st := update_self ..
  have hother : ∀ d, d ≠ c → ({ s with holder := o }.goto c st).stage d = s.stage d :=
    fun d hd => update_of_ne hd ..
  have hunder : ∀ d, (({ s with holder := o }.goto c st).stage d).underway = (s.stage d).underway := by
    intro d
    by_cases hd : d = c
    · rw [hd, hself, hafter, hbefore]
    · rw [hother d hd]
  have hne : ∀ d, (({ s with holder := o }.goto c st).stage d).underway = true → d ≠ c := by
    rintro d hd rfl
    rw [hself, hafter] at hd
    cases hd
  refine ⟨?_, hlock, h.made, fun d ref hv => ?_, fun d ref work hst => ?_, fun d ref items work hst => ?_,
    fun d e hd he => h.alone d e (hunder d ▸ hd) (hunder e ▸ he), fun d items hd helements => ?_,
    fun hall => h.settled fun d => (hunder d).symm.trans (hall d)⟩
  · refine h.answers.congr fun d => ?_
    by_cases hd : d = c
    · rw [hd, hself, hreply]
    · rw [hother d hd]
  · by_cases hd : d = c
    · rw [hd, hself] at hv
      exact hview ref hv
    · rw [hother d hd] at hv
      exact h.view d ref hv
  · by_cases hd : d = c
    · subst hd
      exact hfresh ref work (hself.symm.trans hst)
    · rw [hother d hd] at hst
      exact h.fresh d ref work hst
  · have hd : d ≠ c := hne d (by rw [hst]; rfl)
    rw [hother d hd] at hst
    exact h.copied d ref items work hst
  · have hd' : d ≠ c := hne d hd
    rw [hunder d] at hd
    rw [hother d hd']
    exact h.due d items hd helements

lemma enter (hst : s.stage c = .waiting) {s' : ListState ι}
    (hstep : listStep S cmds s c = some s') : Linear cmds l order s' := by
  rw [listStep, hst] at hstep
  split_ifs at hstep with hlocks hfree
  · cases hstep
    refine h.pass (fun d hd hin => ?_) (by rw [hst]; rfl) (by rw [hst]; rfl) rfl (fun _ hv => by cases hv)
      (fun _ _ he => by cases he)
    by_cases hdc : d = c
    · rw [hdc]
    rw [update_of_ne hdc] at hin
    have hholder := h.locked d hd hin
    rw [hfree] at hholder
    cases hholder
  · cases hstep
    refine h.pass (o := s.holder) (fun d hd hin => ?_) (by rw [hst]; rfl) (by rw [hst]; rfl) rfl
      (fun _ hv => by cases hv) (fun _ _ he => by cases he)
    by_cases hdc : d = c
    · rw [hdc] at hd
      exact absurd hd hlocks
    · rw [update_of_ne hdc] at hin
      exact h.locked d hd hin

lemma leave {reply : Bytes} (hst : s.stage c = .finished reply) :
    Linear cmds l order ({ s with holder := if (cmds c).locks then none else s.holder }.goto c (.left reply)) := by
  refine h.pass (fun d hd hin => ?_) (by rw [hst]; rfl) (by rw [hst]; rfl) rfl (fun _ hv => by cases hv)
    (fun _ _ he => by cases he)
  have hdc : d ≠ c := by
    rintro rfl
    rw [update_self] at hin
    cases hin
  rw [update_of_ne hdc] at hin
  have hholder := h.locked d hd hin
  split_ifs with hlocks
  · -- Two clients would have the lock.
    have hsame := h.locked c hlocks (by rw [hst]; rfl)
    exact absurd (some.inj (hholder.symm.trans hsame)) hdc
  · exact hholder

lemma resolveView (hst : s.stage c = .entered) : ∃ order', Linear cmds l order' (resolve cmds s c) := by
  unfold resolve
  cases hstored : s.stored with
  | some ref =>
    refine ⟨order, h.pass (o := s.holder) (fun d hd hin => ?_) (by rw [hst]; rfl) (by rw [hst]; rfl) rfl ?_ ?_⟩
    · by_cases hdc : d = c
      · subst hdc
        exact h.locked d hd (by rw [hst]; rfl)
      · rw [update_of_ne hdc] at hin
        exact h.locked d hd hin
    · intro ref' hv
      cases hv
      exact hstored
    · intro ref' work he
      cases he
      rfl
  | none =>
    have hnoview : ∀ d ref, (s.stage d).view ≠ some ref := by
      intro d ref hv
      rw [h.view d ref hv] at hstored
      cases hstored
    have hidle : ∀ d, (s.stage d).underway = false := by
      intro d
      by_contra hunder
      obtain ⟨ref, href⟩ := view_of_underway (by simpa using hunder)
      exact hnoview d ref href
    have hnow : listAfter cmds l order = none := by
      rw [← h.settled hidle, elements, hstored]
      rfl
    have hnone : s.elements = none := by rw [elements, hstored]; rfl
    have hfinish : ∀ reply, (reply, none) = (cmds c).apply none →
        Linear cmds l (order ++ [c]) (s.goto c (.finished reply)) := by
      intro reply hr
      refine h.finish ⟨rfl, by rw [hst]; rfl, by rw [hst]; rfl, rfl, h.made, fun d _ => hidle d,
        fun d _ ref hv => absurd hv (hnoview d ref)⟩ ?_
      rw [hnow, ← hr]
      exact congrArg (Prod.mk reply) hnone
    cases hcmd : cmds c with
    | push side vals =>
      refine ⟨order, h.go ⟨rfl, by rw [hst]; rfl, by rw [hst]; rfl, rfl, ?_, fun d _ => hidle d,
        fun d _ ref hv => absurd hv (hnoview d ref)⟩ rfl rfl (fun _ _ he => by cases he) (fun _ _ _ he => by cases he) ?_⟩
      · intro ref hr
        cases hr
        exact Nat.lt_succ_self _
      · intro items hi
        obtain rfl := some.inj ((elements_publish s _).symm.trans hi)
        rw [hnow, hcmd]
        rfl
    | pop | set | reshape => exact ⟨_, hfinish _ (by rw [hcmd]; rfl)⟩

lemma step (hg : Calm cmds s c) (hstep : listStep S cmds s c = some s') : ∃ order', Linear cmds l order' s' := by
  cases hst : s.stage c with
  | waiting => exact ⟨order, h.enter hst hstep⟩
  | entered =>
    rw [listStep, hst] at hstep
    cases hstep
    exact h.resolveView hst
  | viewing ref begun work =>
    rw [listStep, hst] at hstep
    cases hstep
    have hview : (s.stage c).view = some ref := by rw [hst]; rfl
    have hwork : AtWork cmds l order s c ref begun work := ⟨h, hst, fun d hd => (h.apart hg hview d hd).1⟩
    exact hwork.step hg
  | copied ref items begun work =>
    rw [listStep, hst] at hstep
    cases hstep
    exact ⟨order, h.publishCopy hg hst⟩
  | rebuilt ref items reply =>
    rw [listStep, hst] at hstep
    cases hstep
    exact ⟨_, h.storeRebuilt hg hst _⟩
  | finished reply =>
    rw [listStep, hst] at hstep
    cases hstep
    exact ⟨order, h.leave hst⟩
  | left reply =>
    rw [listStep, hst] at hstep
    cases hstep

end

end Linear

omit [DecidableEq ι] in
lemma linear_start (held : Option (Held Bytes)) : Linear cmds (held.map Held.items) [] (.start held) where
  answers := sequential_nil _ _ fun _ => rfl
  locked _ _ hin := by cases hin
  made ref hr := by
    cases held with
    | none => cases hr
    | some h =>
      cases hr
      exact Nat.one_pos
  view _ _ hv := by cases hv
  fresh _ _ _ he := by cases he
  copied _ _ _ _ he := by cases he
  alone _ _ hc := by cases hc
  due _ _ hc := by cases hc
  settled _ := by cases held <;> rfl

lemma linear_run {held : Option (Held Bytes)} {schedule : List ι}
    (hrun : Run (listStep S cmds) (Calm cmds) (.start held) schedule s) :
    ∃ order, Linear cmds (held.map Held.items) order s :=
  hrun.inv (I := fun s => ∃ order, Linear cmds (held.map Held.items) order s)
    (fun hI hg hs => hI.elim fun _ h => h.step hg hs) ⟨[], linear_start held⟩

omit [DecidableEq ι] in
lemma Linear.elements_idle (h : Linear cmds l order s) (hidle : ∀ c, (s.stage c).view = none) :
    s.elements = listAfter cmds l order := by
  refine h.settled fun c => ?_
  by_contra hunder
  obtain ⟨ref, href⟩ := view_of_underway (by simpa using hunder)
  rw [hidle c] at href
  cases href

/-- In every run in which no step is in the way of an `LSET`, nor an `LSET` in the way of another command, the
commands that are done were answered as in some order, and what that order leaves is the list whenever nobody is
at work on it. -/
theorem list_commands_linearize (S : Settings) (cmds : ι → ListCmd) (held : Option (Held Bytes)) (schedule : List ι)
    (s : ListState ι) (hrun : Run (listStep S cmds) (Calm cmds) (.start held) schedule s) : ∃ order : List ι,
      Sequential (fun c => (cmds c).apply) (held.map Held.items) order (fun c => (s.stage c).reply) ∧
      ((∀ c, (s.stage c).view = none) → s.elements = listAfter cmds (held.map Held.items) order) := by
  obtain ⟨order, h⟩ := linear_run hrun
  exact ⟨order, h.answers, h.elements_idle⟩

/-- One client sets the first element, another pushes one. -/
def setAndPush (val : Bytes) (c : Bool) : ListCmd := if c then .push .right [ascii "b"] else .set 0 val

def oneElement : Held Bytes := ⟨[ascii "a"], .listpack⟩

/-- The view is resolved before the push and used after it. -/
theorem set_after_push_linearizes : ∃ s : ListState Bool, s.elements = some [ascii "x", ascii "b"] ∧
      ∃ order, Sequential (fun c => (setAndPush (ascii "x") c).apply) (some [ascii "a"]) order
        (fun c => (s.stage c).reply) ∧
        ((∀ c, (s.stage c).view = none) → s.elements = listAfter (setAndPush (ascii "x")) (some [ascii "a"]) order) := by
  have hrun : ∃ s, Run (listStep .bits (setAndPush (ascii "x"))) (Calm (setAndPush (ascii "x"))) (.start (some oneElement))
      [true, true, false, false, true, true, false, true, false] s ∧ s.elements = some [ascii "x", ascii "b"] :=
    ⟨_, .cons (by decide +kernel) rfl (.cons (by decide +kernel) rfl (.cons (by decide +kernel) rfl
      (.cons (by decide +kernel) rfl (.cons (by decide +kernel) rfl (.cons (by decide +kernel) rfl
        (.cons (by decide +kernel) rfl (.cons (by decide +kernel) rfl (.cons (by decide +kernel) rfl (.nil _))))))))), rfl⟩
  obtain ⟨s, hrun, helements⟩ := hrun
  exact ⟨s, helements, list_commands_linearize .bits (setAndPush (ascii "x")) (some oneElement) _ s hrun⟩

/-- A value that a listpack does not take. -/
def longValue : Bytes := List.replicate 65 120

/-- The list is copied, the element is pushed to the old object, and the copy is published. -/
theorem promoted_copy_loses_push : ∃ s, Run (listStep .bits (setAndPush longValue)) Free (.start (some oneElement))
        [false, false, false, true, true, true, true, true, false, false, false] s ∧
      (s.stage true).reply = some (integer 2) ∧ (s.stage false).reply = some ok ∧ s.elements = some [longValue] ∧
      ¬ ∃ order, Sequential (fun c => (setAndPush longValue c).apply) (some [ascii "a"]) order
        (fun c => (s.stage c).reply) ∧ s.elements = listAfter (setAndPush longValue) (some [ascii "a"]) order := by
  refine ⟨_, Run.of_runAll rfl, rfl, rfl, rfl, ?_⟩
  rintro ⟨order, hseq, helements⟩
  have hperm : order.Perm [true, false] := by
    refine (List.perm_ext_iff_of_nodup hseq.nodup (by decide)).2 fun c => ?_
    rw [← hseq.answered c]
    cases c <;> exact iff_of_true rfl (by decide)
  obtain ⟨c, d, rfl⟩ := List.length_eq_two.1 hperm.length_eq
  -- Either way the pushed element is in the list.
  have hboth : listAfter (setAndPush longValue) (some [ascii "a"]) [c, d] = some [longValue, ascii "b"] := by
    have hnodup := hseq.nodup
    cases c <;> cases d
    · exact absurd hnodup (by decide)
    · decide +kernel
    · decide +kernel
    · exact absurd hnodup (by decide)
  rw [hboth] at helements
  exact absurd helements (by decide +kernel)

end Gopherdis.Encoded

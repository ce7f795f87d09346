/-
Collections as the handlers see them: a view of the object at a key, which is changed through the
pointer while its encoding lasts and is published anew where it outgrows it. A view of an object whose
storing was refused leads nowhere until it is published.
-/
import Gopherdis.Command.Collections
import Gopherdis.Store.Accounting

namespace Gopherdis.Encoded

open Lib Codec Object Store Command MemM

/-- More of `float64`, with the bounds of the coordinates, and `strings.TrimSpace`. Zero is neutral as far as NaN
and the infinities go. -/
structure Outside (E : Env) where
  zero : Score
  one : Score
  inf : Score
  negInf : Score
  isInf : Score → Bool
  mul : Score → Score → Score
  min : Score → Score → Score
  max : Score → Score → Score
  ofNat : Nat → Score
  half : Score → Score
  lonMin : Score
  lonMax : Score
  latMin : Score
  latMax : Score
  trimSpace : Bytes → Bytes
  isNaN_zero_add : ∀ x, E.isNaN (E.scoreAdd zero x) = E.isNaN x
  isInf_zero_add : ∀ x, isInf (E.scoreAdd zero x) = isInf x

/-- Scores as the bits of whole numbers. -/
def Outside.bits : Outside Env.bits where
  zero := 0
  one := 1
  inf := 9223372036854775808
  negInf := 0
  isInf _ := false
  mul a b := a * b
  min a b := if a < b then a else b
  max a b := if a < b then b else a
  ofNat n := UInt64.ofNat n
  half a := a / 2
  lonMin := 0
  lonMax := 180
  latMin := 0
  latMax := 85
  trimSpace b := b
  isNaN_zero_add _ := rfl
  isInf_zero_add _ := rfl

/-- What does not change while the server runs. -/
structure Settings where
  E : Env
  out : Outside E
  server : Store.Server := {}

/-- What a call reads besides: the clock, the protocol of the connection, and the order in which a set is
walked. -/
structure Call where
  now : Clock
  resp3 : Bool := false
  walk : List Bytes → List Bytes := id
  walk_perm : ∀ ms, (walk ms).Perm ms := by exact fun ms => List.Perm.refl ms

/-- Whole numbers for scores, and no limit. -/
def Settings.bits : Settings := { E := Env.bits, out := Outside.bits }

def Call.zero : Call := { now := Clock.zero }

/-- A reply, and what is propagated in the command's place if the handler says so. -/
structure Answer where
  reply : Bytes
  override : Option (Option Argv) := none

/-! ## What is stored, logically -/

/-- Zero stands for no deadline. -/
def deadline (s : Slot) : Int := s.exp.getD 0

/-- The value at a key and its deadline. -/
def contents (db : MemDB) (key : Bytes) : Option (Value × Int) := (db.lookup key).map fun s => (s.obj.val, deadline s)

lemma contents_of_lookup {db : MemDB} {key : Bytes} {s : Slot} (h : db.lookup key = some s) :
    contents db key = some (s.obj.val, deadline s) := by
  rw [contents, h]
  rfl

lemma contents_congr {db db' : MemDB} {key : Bytes} (h : db'.lookup key = db.lookup key) :
    contents db' key = contents db key := by
  rw [contents, contents, h]

/-! ## Storing under a limit -/

section
variable (S : Settings) (key : Bytes) (obj : Robj) (db : MemDB)

/-- `Set` does not refuse the value. -/
def Fits : Prop := (makeRoom S.server (estimateObjectSize S.E key obj) : MemM S.E Bool).result db = true

/-- What `Set` leaves of the other keys before it stores the value or refuses it. -/
def afterEviction : MemDB := (makeRoom S.server (estimateObjectSize S.E key obj) : MemM S.E Bool).after db

lemma afterEviction_thinned : Thinned db (afterEviction S key obj db) := makeRoom_thins

variable {S key obj db}

lemma after_set_of_fits (h : Fits S key obj db) :
    (MemM.set S.server key obj : MemM S.E Bool).after db = (afterEviction S key obj db).replace S.E key ⟨obj, none⟩ := by
  rw [MemM.set, MemM.store, Traced.after_bind, h]
  rfl

lemma after_set_of_not_fits (h : ¬ Fits S key obj db) :
    (MemM.set S.server key obj : MemM S.E Bool).after db = afterEviction S key obj db := by
  rw [MemM.set, MemM.store, Traced.after_bind, Bool.eq_false_iff.2 h]
  rfl

lemma result_set_iff : (MemM.set S.server key obj : MemM S.E Bool).result db = true ↔ Fits S key obj db := by
  unfold Fits
  rw [MemM.set, MemM.store, Traced.result_bind]
  cases (MemM.makeRoom S.server (estimateObjectSize S.E key obj) : MemM S.E Bool).result db <;> exact Iff.rfl

end

/-! ## Views -/

/-- A collection without elements. -/
def isVoid : Value → Bool
  | .list items => items.isEmpty
  | .hash es => es.isEmpty
  | .set ms => ms.isEmpty
  | .zset es => es.isEmpty
  | .str _ | .stream _ => false

/-- A kind of collection, with the encoding of a new one. -/
structure Kind (β : Type) where
  wrap : List β → Value
  view : Value → Option (List β)
  fresh : Encoding
  view_wrap : ∀ xs, view (wrap xs) = some xs
  eq_wrap : ∀ {v xs}, view v = some xs → v = wrap xs
  isVoid_wrap : ∀ xs, isVoid (wrap xs) = xs.isEmpty

def listKind : Kind Bytes where
  wrap := .list
  view := listOf
  fresh := .listpack
  view_wrap _ := rfl
  eq_wrap {v _} h := by cases v <;> cases h; rfl
  isVoid_wrap _ := rfl

def hashKind : Kind (Bytes × Bytes) where
  wrap := .hash
  view := hashOf
  fresh := .listpack
  view_wrap _ := rfl
  eq_wrap {v _} h := by cases v <;> cases h; rfl
  isVoid_wrap _ := rfl

def setKind : Kind Bytes where
  wrap := .set
  view := setOf
  fresh := .intset
  view_wrap _ := rfl
  eq_wrap {v _} h := by cases v <;> cases h; rfl
  isVoid_wrap _ := rfl

def zsetKind : Kind (Bytes × Score) where
  wrap := .zset
  view := zsetOf
  fresh := .listpack
  view_wrap _ := rfl
  eq_wrap {v _} h := by cases v <;> cases h; rfl
  isVoid_wrap _ := rfl

/-- The contents of a collection and their encoding. -/
structure Held (β : Type) where
  items : List β
  enc : Encoding

/-- One change of a collection: in place, or by an object of its own that takes the old one's key. -/
inductive Edit (β : Type)
  | inPlace (items : List β)
  | publish (h : Held β)

variable {β γ : Type}

variable (h : Held β)

def Edit.apply : Edit β → Held β
  | inPlace items => { h with items }
  | publish h' => h'

/-- The change is made where the object is. -/
def Edit.isInPlace : Edit β → Bool
  | .inPlace _ => true
  | .publish _ => false

def Held.edited (es : List (Edit β)) : Held β := es.foldl Edit.apply h

/-- The changes one argument after the other asks for. -/
def editAll (f : Held β → γ → List (Edit β)) : Held β → List γ → List (Edit β)
  | _, [] => []
  | h, x :: xs => f h x ++ editAll f (h.edited (f h x)) xs

/-- A view of the object at a key; `attached` says whether the key has that object. -/
structure View (β : Type) where
  key : Bytes
  held : Held β
  attached : Bool

section
variable (K : Kind β) (S : Settings) (c : Call)

def Held.obj : Robj := ⟨K.wrap h.items, h.enc⟩

variable (key : Bytes)

def viewOf (o : Robj) : Except Bytes (View β) :=
  (K.view o.val).elim (.error wrongType) fun items => .ok ⟨key, ⟨items, o.enc⟩, true⟩

/-- `getListView`, `getHash`, `getSetView`, and `getZSetForRead`. -/
def getView : MemM S.E (Except Bytes (Option (View β))) := do
  match ← get c.now key with
  | none => return .ok none
  | some o => return (viewOf K key o).map some

/-- `getOrCreateList` and the others, with whether the collection is new. A refused object is not
noticed. -/
def getOrCreate : MemM S.E (Except Bytes (View β × Bool)) := do
  match ← get c.now key with
  | none =>
    let stored ← set S.server key ⟨K.wrap [], K.fresh⟩
    return .ok (⟨key, ⟨[], K.fresh⟩, stored⟩, true)
  | some o => return (viewOf K key o).map fun w => (w, false)

def View.perform (w : View β) : Edit β → MemM S.E (View β)
  | .inPlace items => do
    if w.attached then Traced.perform (.edit w.key ⟨K.wrap items, w.held.enc⟩)
    return { w with held := { w.held with items } }
  | .publish h => do
    setKeepTTL w.key (h.obj K)
    return ⟨w.key, h, true⟩

def View.performAll (w : View β) : List (Edit β) → MemM S.E (View β)
  | [] => return w
  | e :: es => do
    let w ← w.perform K S e
    w.performAll es

/-- The check of a destination: it holds something of another kind. -/
def holdsOther : MemM S.E Bool := do
  match ← get c.now key with
  | none => return false
  | some o => return (K.view o.val).isNone

/-- The key goes with the last element. -/
def View.drop (w : View β) : MemM S.E Unit := do
  if w.held.items.isEmpty then
    let _ ← del c.now w.key

end

@[simp] lemma edited_nil : h.edited [] = h := rfl

@[simp] lemma edited_cons (e : Edit β) (es : List (Edit β)) : h.edited (e :: es) = (e.apply h).edited es := rfl

lemma edited_append (es es' : List (Edit β)) : h.edited (es ++ es') = (h.edited es).edited es' :=
  List.foldl_append ..

variable {f : Held β → γ → List (Edit β)}

lemma editAll_keeps {P : Held β → Prop} (hf : ∀ (h : Held β) (x : γ), P h → P (h.edited (f h x))) :
    ∀ (xs : List γ) (h : Held β), P h → P (h.edited (editAll f h xs))
  | [], _, hh => hh
  | x :: xs, h, hh => by
    rw [editAll, edited_append]
    exact editAll_keeps hf xs _ (hf h x hh)

lemma editAll_ne_nil (hf : ∀ (h : Held β) (x : γ), (h.edited (f h x)).items ≠ [])
    {xs : List γ} (hxs : xs ≠ []) (h : Held β) : (h.edited (editAll f h xs)).items ≠ [] := by
  obtain ⟨x, xs, rfl⟩ := List.exists_cons_of_ne_nil hxs
  rw [editAll, edited_append]
  exact editAll_keeps (P := fun h => h.items ≠ []) (fun h x _ => hf h x) xs _ (hf h x)

end Gopherdis.Encoded

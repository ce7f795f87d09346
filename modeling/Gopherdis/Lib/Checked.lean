/-
Computations whose memory accesses are checked at run time. One keeps the sizes it has asked the
allocator for; a request beyond the allocator's limit, an index or a slice out of range ends it with a
fault. What it computes and asks for is stated against a pure value and a list of sizes.
-/
import Gopherdis.Lib.Reader

namespace Gopherdis.Lib

open List

variable {sizes : List Nat} {i : Nat}

/-- What the run time refuses. -/
inductive Fault
  | makeslice
  | index
  | slice
deriving DecidableEq, Repr

/-- The sizes asked for, in bytes and in order, and the result or the fault that ended it. -/
structure Checked (α : Type) where
  requests : List Nat
  ends : Except Fault α

namespace Checked

variable {α β : Type}

instance : Monad Checked where
  pure a := ⟨[], .ok a⟩
  bind x f :=
    match x.ends with
    | .ok a => ⟨x.requests ++ (f a).requests, (f a).ends⟩
    | .error e => ⟨x.requests, .error e⟩

def fault (f : Fault) : Checked α := ⟨[], .error f⟩

/-- A buffer of `bytes` bytes from an allocator that gives out at most `limit`. -/
def make (limit bytes : Nat) : Checked Unit := ⟨[bytes], if bytes ≤ limit then .ok () else .error .makeslice⟩

variable (xs : List α)

/-- `xs[i]`. -/
def index (i : Nat) : Checked α :=
  match xs[i]? with
  | some a => pure a
  | none => fault .index

/-- `xs[i] = a`. -/
def store (i : Nat) (a : α) : Checked (List α) :=
  if i < xs.length then pure (xs.set i a) else fault .index

/-- `xs[i:j]`. -/
def slice (i j : Nat) : Checked (List α) :=
  if i ≤ j ∧ j ≤ xs.length then pure ((xs.take j).drop i) else fault .slice

/-- No fault, and no request beyond `bound`. -/
structure Safe (x : Checked α) (bound : Nat) : Prop where
  returns : ∃ a, x.ends = .ok a
  bounded : ∀ n ∈ x.requests, n ≤ bound

/-- The computation of `a` that asks for `sizes`: it asks for all of them and returns, or stops at one
beyond the limit. -/
def Computes (limit : Nat) (x : Checked α) (a : α) (sizes : List Nat) : Prop :=
  ((∀ n ∈ sizes, n ≤ limit) ∧ x = ⟨sizes, .ok a⟩) ∨
    (x.requests <+: sizes ∧ (∃ n ∈ x.requests, limit < n) ∧ x.ends = .error .makeslice)

/-! ## Rules -/

lemma bind_ok {x : Checked α} {f : α → Checked β} {a : α} (h : x = ⟨sizes, .ok a⟩) :
    x >>= f = ⟨sizes ++ (f a).requests, (f a).ends⟩ := by
  subst h
  rfl

@[simp] lemma pure_bind (a : α) (f : α → Checked β) : (pure a : Checked α) >>= f = f a := bind_ok rfl

section
variable {limit : Nat}

lemma Computes.pure (a : α) : Computes limit (Pure.pure a) a [] := .inl ⟨by simp, rfl⟩

lemma Computes.make (n : Nat) : Computes limit (Checked.make limit n) () [n] := by
  unfold Checked.make
  by_cases h : n ≤ limit
  · rw [if_pos h]
    exact .inl ⟨by simpa using h, rfl⟩
  · rw [if_neg h]
    exact .inr ⟨prefix_refl _, ⟨n, mem_singleton_self n, not_le.1 h⟩, rfl⟩

variable {x : Checked α} {f : α → Checked β}

lemma Computes.bind {a : α} {b : β} {sizes' : List Nat}
    (hx : Computes limit x a sizes) (hf : Computes limit (f a) b sizes') :
    Computes limit (x >>= f) b (sizes ++ sizes') := by
  rcases hx with ⟨hle, hx⟩ | ⟨hpre, hbad, hend⟩
  · rw [bind_ok hx]
    rcases hf with ⟨hle', hf⟩ | ⟨hpre', ⟨n, hn, hlt⟩, hend'⟩
    · rw [hf]
      refine .inl ⟨?_, rfl⟩
      rintro n hn
      exact (mem_append.1 hn).elim (hle n) (hle' n)
    · exact .inr ⟨(prefix_append_right_inj sizes).2 hpre', ⟨n, mem_append_right _ hn, hlt⟩, hend'⟩
  · have hbind : x >>= f = ⟨x.requests, .error .makeslice⟩ := by
      obtain ⟨requests, ends⟩ := x
      obtain rfl : ends = _ := hend
      rfl
    rw [hbind]
    exact .inr ⟨hpre.trans (prefix_append _ _), hbad, rfl⟩

/-- A last step that asks for nothing. -/
theorem Computes.map {a : α} {b : β}
    (hx : Computes limit x a sizes) (hf : Computes limit (f a) b []) : Computes limit (x >>= f) b sizes := by
  have h := hx.bind hf
  rwa [append_nil] at h

lemma Computes.safe_iff {a : α} (hx : Computes limit x a sizes) (bound : Nat) :
    x.Safe bound ↔ ∀ n ∈ sizes, n ≤ limit ∧ n ≤ bound := by
  constructor
  · rintro ⟨⟨a', ha'⟩, hbounded⟩ n hn
    rcases hx with ⟨hle, rfl⟩ | ⟨-, -, hend⟩
    · exact ⟨hle n hn, hbounded n hn⟩
    · rw [hend] at ha'
      cases ha'
  · intro hsizes
    rcases hx with ⟨-, rfl⟩ | ⟨hpre, ⟨n, hn, hlt⟩, -⟩
    · exact ⟨⟨a, rfl⟩, fun n hn => (hsizes n hn).2⟩
    · exact absurd (hsizes n (hpre.subset hn)).1 (not_le.2 hlt)

end

/-! ## Accesses in range -/

variable {xs : List α}

lemma index_cons_drop {a : α} {rest : List α} (h : xs.drop i = a :: rest) : index xs i = pure a := by
  have hget : xs[i]? = some a := by
    have := congrArg List.head? h
    rwa [head?_drop, head?_cons] at this
  rw [index, hget]

lemma slice_eq {j : Nat} (hij : i ≤ j) (hj : j ≤ xs.length) :
    slice xs i j = pure ((xs.take j).drop i) := if_pos ⟨hij, hj⟩

end Checked

/-! ## Readers -/

/-- A reader whose memory accesses are checked. -/
def CReader (δ ε α : Type) := Input δ → Checked (Except ε α × Input δ)

namespace CReader

variable {δ ε α β : Type}

instance : Monad (CReader δ ε) where
  pure a := fun s => pure (.ok a, s)
  bind p f := fun s => do
    match ← p s with
    | (.ok a, s') => f a s'
    | (.error e, s') => pure (.error e, s')

/-- A reader with no buffer but those of fixed size. -/
def lift (p : Reader δ ε α) : CReader δ ε α := fun s => pure (p s)

/-- A computation between two readings. -/
def ofChecked (x : Checked α) : CReader δ ε α := fun s => do
  let a ← x
  pure (.ok a, s)

def make (limit bytes : Nat) : CReader δ ε Unit := ofChecked (Checked.make limit bytes)

def skip (p : CReader δ ε α) : CReader δ ε Unit := fun s => do
  let r ← p s
  pure (.ok (), r.2)

def times (p : CReader δ ε α) : Nat → CReader δ ε (List α)
  | 0 => pure []
  | n + 1 => do
    let a ← p
    let as ← times p n
    pure (a :: as)

/-! ## What a reader asks for -/

/-- The sizes for `p` and, if it succeeds, for what is read after it. -/
def sizesThen (d : Input δ → List Nat) (p : Reader δ ε α) (e : α → Input δ → List Nat) (s : Input δ) : List Nat :=
  d s ++ match p s with
    | (.ok a, s') => e a s'
    | (.error _, _) => []

/-- The sizes for `n` readings. -/
def sizesTimes (d : Input δ → List Nat) (p : Reader δ ε α) : Nat → Input δ → List Nat
  | 0 => fun _ => []
  | n + 1 => sizesThen d p fun _ => sizesTimes d p n

/-- The checked reader reads as `p` does, asking for the sizes `d`. -/
def Computes (limit : Nat) (P : CReader δ ε α) (p : Reader δ ε α) (d : Input δ → List Nat) : Prop :=
  ∀ s, Checked.Computes limit (P s) (p s) (d s)

section
variable {limit : Nat} {P : CReader δ ε α} {p : Reader δ ε α} {d : Input δ → List Nat}

lemma Computes.lift (p : Reader δ ε α) : Computes limit (CReader.lift p) p fun _ => [] := fun s => .pure (p s)

lemma Computes.pure (a : α) : Computes limit (Pure.pure a : CReader δ ε α) (Pure.pure a) fun _ => [] :=
  fun s => .pure (Except.ok a, s)

variable {F : α → CReader δ ε β} {f : α → Reader δ ε β} {e : α → Input δ → List Nat}

lemma Computes.bind (hP : Computes limit P p d) (hF : ∀ a, Computes limit (F a) (f a) (e a)) :
    Computes limit (P >>= F) (p >>= f) (sizesThen d p e) := by
  intro s
  refine (hP s).bind ?_
  show Checked.Computes limit _ (match p s with
    | (Except.ok a, s') => f a s'
    | (Except.error e, s') => (Except.error e, s')) _
  rcases p s with ⟨a | a, s'⟩
  · exact .pure _
  · exact hF a s'

lemma Computes.lift_bind (p : Reader δ ε α) (hF : ∀ a, Computes limit (F a) (f a) (e a)) :
    Computes limit (CReader.lift p >>= F) (p >>= f) (sizesThen (fun _ => []) p e) := (Computes.lift p).bind hF

/-- A last step that asks for nothing. -/
theorem Computes.map (hP : Computes limit P p d)
    (hF : ∀ a, Computes limit (F a) (f a) fun _ => []) : Computes limit (P >>= F) (p >>= f) d := by
  have h := hP.bind hF
  have hd : sizesThen d p (fun _ _ => []) = d := by
    funext s
    unfold sizesThen
    split <;> exact append_nil _
  rwa [hd] at h

lemma Computes.checked_bind {x : Checked β} {b : β} {F : β → CReader δ ε α}
    (hx : Checked.Computes limit x b sizes) (hF : Computes limit (F b) p d) :
    Computes limit (CReader.ofChecked x >>= F) p fun s => sizes ++ d s := by
  intro s
  have h : Checked.Computes limit (CReader.ofChecked x s) ((.ok b, s) : Except ε β × Input δ) sizes := hx.map (.pure _)
  exact h.bind (hF s)

lemma Computes.make_bind (n : Nat) (hP : Computes limit P p d) :
    Computes limit (CReader.make limit n >>= fun _ => P) p fun s => n :: d s :=
  Computes.checked_bind (Checked.Computes.make n) hP

lemma Computes.skip (hP : Computes limit P p d) : Computes limit (CReader.skip P) (Reader.skip p) d :=
  fun s => (hP s).map (.pure _)

lemma Computes.times (hP : Computes limit P p d) :
    ∀ n, Computes limit (CReader.times P n) (Reader.times p n) (sizesTimes d p n)
  | 0 => .pure []
  | n + 1 => hP.bind fun _ => (Computes.times hP n).map fun _ => .pure _

end

end CReader

/-! ## Consumption -/

/-- A reader that never gives back what has been read. -/
def Reader.Consumes {δ ε α : Type} (p : Reader δ ε α) : Prop := ∀ s, (p s).2.rest.length ≤ s.rest.length

namespace Reader.Consumes

variable {δ ε α β : Type} {p : Reader δ ε α}

lemma pure (a : α) : Consumes (Pure.pure a : Reader δ ε α) := fun _ => le_rfl

lemma fail (e : ε) : Consumes (Reader.fail e : Reader δ ε α) := fun _ => le_rfl

lemma readFull (upd : δ → UInt8 → δ) (eof short : ε) (n : Nat) : Consumes (Reader.readFull upd eof short n) := by
  intro s
  unfold Reader.readFull
  by_cases h : n ≤ s.rest.length
  · rw [if_pos h, length_drop]
    omega
  · rw [if_neg h]
    exact Nat.zero_le _

lemma bind {f : α → Reader δ ε β} (hp : Consumes p) (hf : ∀ a, Consumes (f a)) : Consumes (p >>= f) := by
  intro s
  have h := hp s
  show (match p s with | (.ok a, s') => f a s' | (.error e, s') => (.error e, s')).2.rest.length ≤ _
  rcases hps : p s with ⟨e | a, s'⟩ <;> rw [hps] at h
  · exact h
  · exact (hf a s').trans h

lemma skip (hp : Consumes p) : Consumes (Reader.skip p) := hp

lemma times (hp : Consumes p) : ∀ n, Consumes (Reader.times p n)
  | 0 => .pure []
  | n + 1 => hp.bind fun _ => (times hp n).bind fun _ => .pure _

end Reader.Consumes

end Gopherdis.Lib

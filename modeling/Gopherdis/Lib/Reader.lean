/-
Readers of a byte stream that keep a running digest of what they have consumed, also when they fail, since a
caller may ignore the failure and read on. A reader takes an encoding if it reads all of it and nothing more,
and runs out of input on any part of it; it skips an encoding if it goes on where the input ends.
-/
import Gopherdis.Lib.Decimal

namespace Gopherdis.Lib

open List

variable {bs bs' : Bytes}

/-- The bytes not yet read and the digest of those that are. -/
structure Input (δ : Type) where
  rest : Bytes
  digest : δ

def Reader (δ ε α : Type) := Input δ → Except ε α × Input δ

namespace Reader

variable {δ ε α β : Type}

instance : Monad (Reader δ ε) where
  pure a := fun s => (.ok a, s)
  bind p f := fun s =>
    match p s with
    | (.ok a, s') => f a s'
    | (.error e, s') => (.error e, s')

def fail (e : ε) : Reader δ ε α := fun s => (.error e, s)

/-- Runs a reader for what it consumes, whether it fails or not. -/
def skip (p : Reader δ ε α) : Reader δ ε Unit := fun s => (.ok (), (p s).2)

variable (upd : δ → UInt8 → δ)

/-- Exactly `n` bytes: `io.ReadFull` into a buffer of that length, which tells an empty input from
one that ends early. -/
def readFull (eof short : ε) (n : Nat) : Reader δ ε Bytes := fun s =>
  if n ≤ s.rest.length then (.ok (s.rest.take n), ⟨s.rest.drop n, (s.rest.take n).foldl upd s.digest⟩)
  else (.error (if s.rest = [] then eof else short), ⟨[], s.digest⟩)

/-- `n` readings, one after the other. -/
def times (p : Reader δ ε α) : Nat → Reader δ ε (List α)
  | 0 => pure []
  | n + 1 => do
    let a ← p
    let as ← times p n
    return a :: as

/-- On `bs`, whatever follows, the reader returns `a` and has consumed `bs`. -/
def Reads (p : Reader δ ε α) (bs : Bytes) (a : α) : Prop :=
  ∀ rest d, p ⟨bs ++ rest, d⟩ = (.ok a, ⟨rest, bs.foldl upd d⟩)

variable {upd : δ → UInt8 → δ} {p : Reader δ ε α} {f : α → Reader δ ε β} {a : α}

lemma bind_ok {s s' : Input δ} (h : p s = (.ok a, s')) : (p >>= f) s = f a s' := by
  show (match p s with | (.ok a, s') => f a s' | (.error e, s') => (.error e, s')) = _
  rw [h]

lemma Reads.pure (a : α) : Reads (ε := ε) upd (Pure.pure a) [] a := fun _ _ => rfl

variable {b : β}

lemma Reads.bind (hp : Reads upd p bs a) (hf : Reads upd (f a) bs' b) : Reads upd (p >>= f) (bs ++ bs') b := by
  intro rest d
  rw [append_assoc, bind_ok (hp _ d), foldl_append]
  exact hf rest _

lemma Reads.map (hp : Reads upd p bs a) (hf : Reads upd (f a) [] b) : Reads upd (p >>= f) bs b := by
  have := hp.bind hf
  rwa [append_nil] at this

lemma Reads.skip (hp : Reads upd p bs a) : Reads upd (Reader.skip p) bs () := by
  intro rest d
  rw [Reader.skip, hp]

/-! ## Whole encodings and parts of them -/

/-- The reader reads `bs` as `a`, and on less than `bs` it fails at the end of the input. -/
structure Takes (upd : δ → UInt8 → δ) (p : Reader δ ε α) (bs : Bytes) (a : α) : Prop where
  reads : Reads upd p bs a
  cuts : ∀ pre suf d, pre ++ suf = bs → suf ≠ [] → ∃ e d', p ⟨pre, d⟩ = (.error e, ⟨[], d'⟩)

lemma bind_error {s s' : Input δ} {e : ε} (h : p s = (.error e, s')) : (p >>= f) s = (.error e, s') := by
  show (match p s with | (.ok a, s') => f a s' | (.error e, s') => (.error e, s')) = _
  rw [h]

lemma Takes.pure (a : α) : Takes (ε := ε) upd (Pure.pure a) [] a :=
  ⟨.pure a, fun _ _ _ h hne => absurd (append_eq_nil_iff.1 h).2 hne⟩

lemma Takes.bind (hp : Takes upd p bs a) (hf : Takes upd (f a) bs' b) : Takes upd (p >>= f) (bs ++ bs') b where
  reads := hp.reads.bind hf.reads
  cuts pre suf d h hne := by
    -- the input ends in the first part, or the first part is read whole and it ends in the second
    rcases append_eq_append_iff.1 h with ⟨mid, rfl, rfl⟩ | ⟨mid, rfl, rfl⟩
    · by_cases hmid : mid = []
      · subst hmid
        rw [append_nil] at hp
        obtain ⟨e, d', he⟩ := hf.cuts [] bs' (pre.foldl upd d) rfl hne
        have hread := hp.reads [] d
        rw [append_nil] at hread
        exact ⟨e, d', (bind_ok hread).trans he⟩
      · obtain ⟨e, d', he⟩ := hp.cuts pre mid d rfl hmid
        exact ⟨e, d', bind_error he⟩
    · obtain ⟨e, d', he⟩ := hf.cuts mid suf (bs.foldl upd d) rfl hne
      exact ⟨e, d', (bind_ok (hp.reads mid d)).trans he⟩

lemma Takes.map (hp : Takes upd p bs a) (hf : Takes upd (f a) [] b) : Takes upd (p >>= f) bs b := by
  have := hp.bind hf
  rwa [append_nil] at this

lemma takes_readFull {eof short : ε} {n : Nat} (hn : bs.length = n) : Takes upd (readFull upd eof short n) bs bs where
  reads rest d := by
    subst hn
    rw [readFull, if_pos (by simp), take_left, drop_left]
  cuts pre suf d h hne := by
    have hlen : pre.length < n := by
      rw [← hn, ← h, length_append]
      exact Nat.lt_add_of_pos_right (length_pos_iff.2 hne)
    exact ⟨_, d, by rw [readFull, if_neg (not_le.2 hlen)]⟩

lemma takes_times {enc : α → Bytes} {as : List α} (hp : ∀ a ∈ as, Takes upd p (enc a) a) :
    Takes upd (times p as.length) (as.flatMap enc) as := by
  induction as with
  | nil => exact .pure []
  | cons a as ih =>
    exact (hp a mem_cons_self).bind ((ih fun b hb => hp b (mem_cons_of_mem _ hb)).map (.pure _))

/-! ## Readers that go on after a failure -/

/-- The reader reads `bs` as `a`, and on less than `bs` it still returns `a`, at the end of the input. -/
structure Skips (upd : δ → UInt8 → δ) (p : Reader δ ε α) (bs : Bytes) (a : α) : Prop where
  reads : Reads upd p bs a
  cuts : ∀ pre suf d, pre ++ suf = bs → suf ≠ [] → ∃ d', p ⟨pre, d⟩ = (.ok a, ⟨[], d'⟩)

lemma Takes.skip (hp : Takes upd p bs a) : Skips upd (Reader.skip p) bs () where
  reads := hp.reads.skip
  cuts pre suf d h hne := by
    obtain ⟨e, d', he⟩ := hp.cuts pre suf d h hne
    exact ⟨d', by rw [Reader.skip, he]⟩

lemma Skips.pure (a : α) : Skips (ε := ε) upd (Pure.pure a) [] a :=
  ⟨.pure a, fun _ _ _ h hne => absurd (append_eq_nil_iff.1 h).2 hne⟩

lemma Skips.at_end (hp : Skips upd p bs a) (d : δ) : ∃ d', p ⟨[], d⟩ = (.ok a, ⟨[], d'⟩) := by
  by_cases hbs : bs = []
  · subst hbs
    exact ⟨d, hp.reads [] d⟩
  · exact hp.cuts [] bs d rfl hbs

lemma Skips.bind (hp : Skips upd p bs a) (hf : Skips upd (f a) bs' b) : Skips upd (p >>= f) (bs ++ bs') b where
  reads := hp.reads.bind hf.reads
  cuts pre suf d h hne := by
    rcases append_eq_append_iff.1 h with ⟨mid, rfl, rfl⟩ | ⟨mid, rfl, rfl⟩
    · obtain ⟨d1, h1⟩ : ∃ d1, p ⟨pre, d⟩ = (.ok a, ⟨[], d1⟩) := by
        by_cases hmid : mid = []
        · subst hmid
          rw [append_nil] at hp
          have hread := hp.reads [] d
          rw [append_nil] at hread
          exact ⟨_, hread⟩
        · exact hp.cuts pre mid d rfl hmid
      obtain ⟨d2, h2⟩ := hf.at_end d1
      exact ⟨d2, (bind_ok h1).trans h2⟩
    · obtain ⟨d', h'⟩ := hf.cuts mid suf (bs.foldl upd d) rfl hne
      exact ⟨d', (bind_ok (hp.reads mid d)).trans h'⟩

lemma Skips.map (hp : Skips upd p bs a) (hf : Skips upd (f a) [] b) : Skips upd (p >>= f) bs b := by
  have := hp.bind hf
  rwa [append_nil] at this

end Reader

end Gopherdis.Lib

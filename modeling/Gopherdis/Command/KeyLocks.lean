/-
The key locks of the commands on two keys. The handlers take the lock of the smaller key first, so
that two clients with the same keys cannot wait for each other; but a lock is the stripe the key
hashes to, and the stripes come in any order. A client whose keys share a stripe waits for itself.
-/
import Gopherdis.Command.TwoKeys
import Gopherdis.Lib.TwoLocks

namespace Gopherdis.Command

open Lib Codec Object Store

/-! ## Stripes -/

def numKeyLocks : Nat := 1024

/-- The stripe `LockKey` locks. -/
def stripe (key : Bytes) : Nat := (fnv32 key).toNat % numKeyLocks

def lockOrder (src dst : Bytes) : Bytes × Bytes := if dst < src then (dst, src) else (src, dst)

def pairLocks (src dst : Bytes) : List Nat :=
  let (first, second) := lockOrder src dst
  if second ≠ first then [stripe first, stripe second] else [stripe first]

inductive TwoKeyCommand
  | rename
  | renamenx
  | copy
  | lmove
  | rpoplpush
  | smove
deriving DecidableEq, Repr

namespace TwoKeyCommand

/-- The stripes the handler locks, in its order; it has its arguments checked before. -/
def locks (argv : Argv) : TwoKeyCommand → List Nat
  | rename | renamenx =>
    if argv.getD 1 [] = argv.getD 2 [] then [] else pairLocks (argv.getD 1 []) (argv.getD 2 [])
  | copy =>
    match copyOptions (argv.drop 3) false with
    | .error _ => []
    | .ok _ => if argv.getD 1 [] = argv.getD 2 [] then [] else pairLocks (argv.getD 1 []) (argv.getD 2 [])
  | lmove =>
    if (listEnd? (toUpper (argv.getD 3 []))).isSome ∧ (listEnd? (toUpper (argv.getD 4 []))).isSome then
      pairLocks (argv.getD 1 []) (argv.getD 2 [])
    else []
  | rpoplpush | smove => pairLocks (argv.getD 1 []) (argv.getD 2 [])

end TwoKeyCommand

/-- A request of one of these commands, on two different keys. -/
structure TwoKeyRequest where
  cmd : TwoKeyCommand
  argv : Argv
  distinct : argv.getD 1 [] ≠ argv.getD 2 []

namespace TwoKeyRequest

variable (r : TwoKeyRequest)

def src : Bytes := r.argv.getD 1 []

def dst : Bytes := r.argv.getD 2 []

def locks (r : TwoKeyRequest) : List Nat := r.cmd.locks r.argv

def stripes : Nat × Nat :=
  (stripe (lockOrder r.src r.dst).1, stripe (lockOrder r.src r.dst).2)

/-- The handler does not refuse the arguments. -/
def wellFormed : Bool :=
  match r.cmd with
  | .copy => (copyOptions (r.argv.drop 3) false).isOk
  | .lmove => (listEnd? (toUpper (r.argv.getD 3 []))).isSome && (listEnd? (toUpper (r.argv.getD 4 []))).isSome
  | _ => true

end TwoKeyRequest

lemma pairLocks_of_ne {src dst : Bytes} (h : src ≠ dst) :
    pairLocks src dst = [stripe (lockOrder src dst).1, stripe (lockOrder src dst).2] := by
  have hne : (lockOrder src dst).2 ≠ (lockOrder src dst).1 := by
    unfold lockOrder
    split_ifs
    · exact h
    · exact h.symm
  exact if_pos hne

lemma TwoKeyRequest.locks_eq (r : TwoKeyRequest) :
    r.locks = if r.wellFormed then [r.stripes.1, r.stripes.2] else [] := by
  have hpair : pairLocks (r.argv.getD 1 []) (r.argv.getD 2 []) = [r.stripes.1, r.stripes.2] :=
    pairLocks_of_ne r.distinct
  rcases r with ⟨cmd, argv, hne⟩
  cases cmd with
  | rename | renamenx => exact (if_neg hne).trans hpair
  | copy =>
    cases hc : copyOptions (argv.drop 3) false with
    | error e =>
      have hw : wellFormed ⟨.copy, argv, hne⟩ = false := by simp [wellFormed, hc, Except.isOk, Except.toBool]
      rw [hw]
      simp only [locks, TwoKeyCommand.locks, hc]
      rfl
    | ok replace =>
      have hw : wellFormed ⟨.copy, argv, hne⟩ = true := by simp [wellFormed, hc, Except.isOk, Except.toBool]
      rw [hw]
      simp only [locks, TwoKeyCommand.locks, hc, if_neg hne]
      exact hpair
  | lmove =>
    simp only [locks, wellFormed, TwoKeyCommand.locks, Bool.and_eq_true]
    split_ifs
    · exact hpair
    · rfl
  | rpoplpush | smove => exact hpair

/-! ## Clients -/

/-- The pairs of stripes a client locks when it sends its requests. -/
def lockPairs (reqs : Set TwoKeyRequest) : Set (Nat × Nat) := {p | ∃ r ∈ reqs, r.locks = [p.1, p.2]}

lemma mem_lockPairs {reqs : Set TwoKeyRequest} {p : Nat × Nat} :
    p ∈ lockPairs reqs ↔ ∃ r ∈ reqs, r.wellFormed = true ∧ r.stripes = p := by
  constructor
  · rintro ⟨r, hr, hl⟩
    rw [r.locks_eq] at hl
    split_ifs at hl with hw
    simp only [List.cons.injEq, and_true] at hl
    exact ⟨r, hr, hw, Prod.ext hl.1 hl.2⟩
  · rintro ⟨r, hr, hw, rfl⟩
    exact ⟨r, hr, by rw [r.locks_eq, if_pos hw]⟩

/-- Some clients have requests whose smaller keys have different stripes, and the stripe of the larger
key of each is that of the smaller key of one of them. -/
def StripeCycle {ι : Type} (reqs : ι → Set TwoKeyRequest) : Prop :=
  ∃ (T : Finset ι) (req : ι → TwoKeyRequest), T.Nonempty ∧ (∀ c ∈ T, req c ∈ reqs c ∧ (req c).wellFormed = true) ∧
    Set.InjOn (fun c => (req c).stripes.1) T ∧ ∀ c ∈ T, ∃ d ∈ T, (req c).stripes.2 = (req d).stripes.1

lemma knot_iff_stripeCycle {ι : Type} (reqs : ι → Set TwoKeyRequest) :
    Knot (fun c => lockPairs (reqs c)) ↔ StripeCycle reqs := by
  constructor
  · rintro ⟨T, cmd, hne, hmem, hinj, hcyc⟩
    have hreq : ∀ c ∈ T, ∃ r ∈ reqs c, r.wellFormed = true ∧ r.stripes = cmd c := fun c hc =>
      mem_lockPairs.1 (hmem c hc)
    obtain ⟨c0, hc0⟩ := hne
    obtain ⟨r0, -, -, -⟩ := hreq c0 hc0
    classical
    let req : ι → TwoKeyRequest := fun c => if h : c ∈ T then (hreq c h).choose else r0
    have hsel : ∀ c ∈ T, req c ∈ reqs c ∧ (req c).wellFormed = true ∧ (req c).stripes = cmd c := by
      intro c hc
      simp only [req, dif_pos hc]
      exact (hreq c hc).choose_spec
    refine ⟨T, req, ⟨c0, hc0⟩, fun c hc => ⟨(hsel c hc).1, (hsel c hc).2.1⟩, ?_, ?_⟩
    · intro c hc d hd he
      simp only [(hsel c hc).2.2, (hsel d hd).2.2] at he
      exact hinj hc hd he
    · intro c hc
      obtain ⟨d, hd, he⟩ := hcyc c hc
      exact ⟨d, hd, by rw [(hsel c hc).2.2, (hsel d hd).2.2, he]⟩
  · rintro ⟨T, req, hne, hmem, hinj, hcyc⟩
    exact ⟨T, fun c => (req c).stripes, hne, fun c hc => mem_lockPairs.2 ⟨req c, (hmem c hc).1, (hmem c hc).2, rfl⟩,
      hinj, hcyc⟩

/-- Clients that send requests on two keys come to no deadlock exactly if the stripes of their keys make
no cycle. -/
theorem two_key_deadlock_free_iff {ι : Type} [DecidableEq ι] (reqs : ι → Set TwoKeyRequest) :
    (∀ as s, Run lockStep (Allowed fun c => lockPairs (reqs c)) .start as s → ¬ Deadlocked s) ↔ ¬ StripeCycle reqs := by
  rw [not_deadlocked_iff, knot_iff_stripeCycle]

/-- `RENAME ds n1`, the keys of which have the same stripe. -/
def selfWaiting : TwoKeyRequest := ⟨.rename, [ascii "RENAME", ascii "ds", ascii "n1"], by decide⟩

/-- A single client with that request waits for the stripe it holds. -/
theorem rename_waits_for_itself : ∃ as s, Run lockStep (Allowed fun _ : Unit => lockPairs {selfWaiting}) .start as s ∧
      (∃ l, (s.stage ()).WaitsFor l ∧ (s.stage ()).Holds l) ∧ Deadlocked s := by
  have hmem : (0, 0) ∈ lockPairs {selfWaiting} := ⟨selfWaiting, rfl, by decide⟩
  have hwait : ∃ l, (LockStage.atSecond 0 0).WaitsFor l ∧ (LockStage.atSecond 0 0).Holds l := ⟨(0 : Nat), rfl, rfl⟩
  refine ⟨[.start () 0 0, .acquire ()], _, .cons hmem rfl (.cons trivial rfl (.nil _)), hwait, {()}, by simp, ?_⟩
  rintro ⟨⟩ -
  obtain ⟨l, hw, hh⟩ := hwait
  exact ⟨l, hw, (), by simp, hh⟩

end Gopherdis.Command

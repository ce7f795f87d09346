/-
What the commands of a script do, key by key. A script's commands are done once by the script and once more by the
replay of the script, so what counts is whether a second round changes a key: `INCR` and `RPUSH` do, unless a command
of the same script overwrites what they made.
-/
import Gopherdis.Command.Reads
import Gopherdis.Lib.Runs

namespace Gopherdis.Command

open Lib Codec Object Store List

/-! ## What a command does at a key -/

inductive KeyAct
  | look
  | overwrite (v : Option Value)
  | persist
  | count
  | push (vs : List Bytes)
  | add (ms : List Bytes)
deriving DecidableEq, Repr

namespace KeyAct

/-- On the entry of the key, which is not past its deadline. A value of another type is left as it is, and so is the
largest number. -/
def apply : Option Entry → KeyAct → Option Entry
  | x, look => x
  | _, overwrite v => v.map fun v => ⟨v, 0⟩
  | x, persist => x.map fun e => { e with expireAt := 0 }
  | none, count => some ⟨.str (formatInt 1), 0⟩
  | some ⟨.str b, exp⟩, count =>
    match parseInt b with
    | none => some ⟨.str b, exp⟩
    | some n => if n < 2 ^ 63 - 1 then some ⟨.str (formatInt (n + 1)), 0⟩ else some ⟨.str b, exp⟩
  | none, push vs => some ⟨.list vs, 0⟩
  | some ⟨.list items, exp⟩, push vs => some ⟨.list (items ++ vs), exp⟩
  | none, add ms => some ⟨.set (ms.foldl setAdd []), 0⟩
  | some ⟨.set old, exp⟩, add ms => some ⟨.set (ms.foldl setAdd old), exp⟩
  | some e, _ => some e

/-- The key is there afterwards. -/
def makes : KeyAct → Bool
  | count | push _ | add _ => true
  | _ => false

/-- A second time does more. -/
def grows : KeyAct → Bool
  | count | push _ => true
  | _ => false

def overwrites : KeyAct → Bool
  | overwrite _ => true
  | _ => false

/-- What is done to a key that holds `x` leaves a number or a list that grows when it is done again. -/
def Grow (acts : List KeyAct) : Option Entry → Prop
  | none => ((acts.find? makes).any grows) = true
  | some ⟨.str b, _⟩ => count ∈ acts ∧ ∃ n, parseInt b = some n ∧ n + acts.count count < 2 ^ 63 - 1
  | some ⟨.list _, _⟩ => ∃ vs, push vs ∈ acts
  | some _ => False

/-! ## Doing it twice -/

section
variable {acts : List KeyAct}

/-- What a key holds grows with the next round. -/
def Growing (acts : List KeyAct) : Option Entry → Prop
  | some ⟨.str b, _⟩ => count ∈ acts ∧ ∃ n, parseInt b = some n ∧ n < 2 ^ 63 - 1
  | some ⟨.list _, _⟩ => ∃ vs, push vs ∈ acts
  | _ => False

lemma mem_foldl_setAdd {m : Bytes} {ms old : List Bytes} : m ∈ ms.foldl setAdd old ↔ m ∈ old ∨ m ∈ ms := by
  induction ms generalizing old with
  | nil => simp
  | cons m' ms ih =>
    rw [foldl_cons, ih, setAdd]
    split_ifs with h
    · rw [mem_cons]
      constructor
      · rintro (hm | hm)
        exacts [.inl hm, .inr (.inr hm)]
      · rintro (hm | rfl | hm)
        exacts [.inl hm, .inl h, .inr hm]
    · rw [mem_append, mem_singleton, mem_cons, or_assoc]

lemma foldl_setAdd_of_subset {ms old : List Bytes} (h : ms ⊆ old) : ms.foldl setAdd old = old :=
  foldl_of_fixed fun _ hm => if_pos (h hm)

lemma count_str (b : Bytes) (exp : Int) : apply (some ⟨.str b, exp⟩) count = some ⟨.str b, exp⟩ ∨
    ∃ n, parseInt b = some n ∧ n < 2 ^ 63 - 1 ∧
      apply (some ⟨.str b, exp⟩) count = some ⟨.str (formatInt (n + 1)), 0⟩ := by
  simp only [apply]
  cases hn : parseInt b with
  | none => exact .inl rfl
  | some n =>
    by_cases hlt : n < 2 ^ 63 - 1
    · exact .inr ⟨n, rfl, hlt, if_pos hlt⟩
    · exact .inl (if_neg hlt)

lemma add_twice (x : Option Entry) (ms : List Bytes) : apply (apply x (add ms)) (add ms) = apply x (add ms) := by
  have hset (old : List Bytes) : ms.foldl setAdd (ms.foldl setAdd old) = ms.foldl setAdd old :=
    foldl_setAdd_of_subset fun _ hm => mem_foldl_setAdd.2 (.inr hm)
  rcases x with _ | ⟨_ | _ | _ | old | _ | _, exp⟩ <;> simp only [apply, hset]

/-- Members that are there stay there. -/
lemma add_stays {x : Option Entry} {ms : List Bytes} {a : KeyAct} (ha : a.overwrites = false)
    (h : apply x (add ms) = x) : apply (apply x a) (add ms) = apply x a := by
  rcases x with _ | ⟨_ | _ | _ | old | _ | _, exp⟩
  case none => cases h
  case some.set =>
    have hsub : ms ⊆ old := by
      intro m hm
      have hold : ms.foldl setAdd old = old := by simpa only [apply, Option.some.injEq, Entry.mk.injEq,
        Value.set.injEq, and_true] using h
      rw [← hold]
      exact mem_foldl_setAdd.2 (.inr hm)
    have hfold {old' : List Bytes} (h' : old ⊆ old') : ms.foldl setAdd old' = old' :=
      foldl_setAdd_of_subset (List.Subset.trans hsub h')
    cases a with
    | overwrite => cases ha
    | add ms' => simp only [apply, hfold fun _ hm => mem_foldl_setAdd.2 (.inl hm)]
    | look | persist | count | push => simp only [apply, Option.map_some, hfold (List.Subset.refl _)]
  case some.str b =>
    cases a with
    | overwrite => cases ha
    | look | persist | push | add => rfl
    | count => rcases count_str b exp with h' | ⟨n, -, -, h'⟩ <;> rw [h'] <;> rfl
  all_goals
    cases a with
    | overwrite => cases ha
    | look | persist | count | push | add => rfl

/-- No act sets a deadline. -/
lemma apply_expireAt {x : Option Entry} {a : KeyAct} {e : Entry} (h : apply x a = some e) :
    e.expireAt = 0 ∨ ∃ e', x = some e' ∧ e.expireAt = e'.expireAt := by
  rcases x with _ | ⟨b | _ | _ | _ | _ | _, exp⟩ <;> cases a
  case some.str.count =>
    rcases count_str b exp with h' | ⟨n, -, -, h'⟩ <;> obtain rfl := Option.some.inj (h'.symm.trans h)
    · exact .inr ⟨_, rfl, rfl⟩
    · exact .inl rfl
  case none.overwrite v | some.str.overwrite v | some.list.overwrite v | some.hash.overwrite v |
      some.set.overwrite v | some.zset.overwrite v | some.stream.overwrite v =>
    obtain ⟨v', -, rfl⟩ := Option.map_eq_some_iff.1 h
    exact .inl rfl
  all_goals cases h <;> first | exact .inl rfl | exact .inr ⟨_, rfl, rfl⟩

lemma persist_stays {x : Option Entry} (a : KeyAct) (h : ∀ e, x = some e → e.expireAt = 0) :
    ∀ e, apply x a = some e → e.expireAt = 0 := by
  intro e he
  rcases apply_expireAt he with h0 | ⟨e', rfl, h'⟩
  · exact h0
  · exact h'.trans (h e' rfl)

lemma isSome_stays {x : Option Entry} {a : KeyAct} (ha : a.overwrites = false) (h : x.isSome = true) :
    (apply x a).isSome = true := by
  rcases x with _ | ⟨b | _ | _ | _ | _ | _, exp⟩ <;> cases a
  case some.str.count => rcases count_str b exp with h' | ⟨n, -, -, h'⟩ <;> rw [h'] <;> rfl
  all_goals first | exact h | rfl | cases ha

lemma isSome_grown (x : Option Entry) {a : KeyAct} (ha : a.grows = true) : (apply x a).isSome = true := by
  rcases x with _ | e
  · cases a <;> first | rfl | cases ha
  · exact isSome_stays (by cases a <;> first | rfl | cases ha) rfl

lemma apply_of_not_growing {a : KeyAct} (ha : a ∈ acts) (hgrows : a.grows = true) {y : Option Entry}
    (hy : y.isSome = true) (h : ¬ Growing acts y) : apply y a = y := by
  rcases y with _ | ⟨b | _ | _ | _ | _ | _, exp⟩ <;> cases a <;> try cases hgrows
  case none.count | none.push => cases hy
  case some.str.count =>
    rcases count_str b exp with h' | ⟨n, hn, hlt, -⟩
    · exact h'
    · exact absurd ⟨ha, n, hn, hlt⟩ h
  case some.list.push vs => exact absurd ⟨vs, ha⟩ h
  all_goals rfl

variable (hover : ∀ a ∈ acts, a.overwrites = false)
include hover

/-- Nothing is left to do, but for the numbers and lists that grow. -/
lemma fixed_of_not_growing (x : Option Entry) (h : ¬ Growing acts (acts.foldl apply x)) :
    ∀ a ∈ acts, apply (acts.foldl apply x) a = acts.foldl apply x := by
  intro a ha
  have hgrown (hgrows : a.grows = true) : apply (acts.foldl apply x) a = acts.foldl apply x := by
    have hsome := foldl_brings ha (P := (·.isSome = true)) (isSome_grown · hgrows)
      (fun b hb _ => isSome_stays (hover b hb)) x
    exact apply_of_not_growing ha hgrows hsome h
  cases a with
  | look => rfl
  | overwrite => cases hover _ ha
  | count | push => exact hgrown rfl
  | add ms =>
    exact foldl_brings ha (P := fun x => apply x (add ms) = x) (add_twice · ms)
      (fun b hb _ => add_stays (hover b hb)) x
  | persist =>
    have hzero := foldl_brings ha (P := fun x => ∀ e, x = some e → e.expireAt = 0)
      (fun x e he => by obtain ⟨_, -, rfl⟩ := Option.map_eq_some_iff.1 he; rfl) (fun b _ _ => persist_stays b) x
    rcases hy : acts.foldl apply x with _ | ⟨v, exp⟩
    · rfl
    · obtain rfl : exp = 0 := hzero _ hy
      rfl

/-- Neither a number nor a list. -/
def Still : Option Entry → Prop
  | none => False
  | some ⟨.str b, _⟩ => parseInt b = none
  | some ⟨.list _, _⟩ => False
  | some _ => True

omit hover in
lemma still_stays {x : Option Entry} {a : KeyAct} (ha : a.overwrites = false) (h : Still x) : Still (apply x a) := by
  rcases x with _ | ⟨b | _ | _ | _ | _ | _, exp⟩
  case none | some.list => cases h
  case some.str =>
    have hb : parseInt b = none := h
    cases a with
    | overwrite => cases ha
    | count => simp only [apply, hb]; exact hb
    | look | persist | push | add => exact hb
  all_goals
    cases a with
    | overwrite => cases ha
    | look | persist | count | push | add => trivial

lemma foldl_number {b : Bytes} {n : Int} (hn : parseInt b = some n) (exp : Int) : ∃ b' exp',
    acts.foldl apply (some ⟨.str b, exp⟩) = some ⟨.str b', exp'⟩ ∧
      parseInt b' = some (min (n + acts.count count) (2 ^ 63 - 1)) := by
  induction acts generalizing b n exp with
  | nil =>
    have := parseInt_inInt64 hn
    refine ⟨b, exp, rfl, hn.trans (congrArg some ?_)⟩
    unfold InInt64 at this
    simp only [count_nil]
    omega
  | cons a acts ih =>
    have ih := @ih fun a ha => hover a (mem_cons_of_mem _ ha)
    rw [foldl_cons]
    cases a with
    | overwrite => cases hover _ mem_cons_self
    | look | persist | push | add => rw [count_cons_of_ne (by simp)]; exact ih hn _
    | count =>
      rw [count_cons_self]
      simp only [apply, hn]
      split_ifs with hlt
      · have hint := parseInt_inInt64 hn
        obtain ⟨b', exp', hf, hb'⟩ := ih (b := formatInt (n + 1)) (n := n + 1)
          (parseInt_formatInt (by unfold InInt64 at hint ⊢; omega)) 0
        refine ⟨b', exp', hf, hb'.trans (congrArg some ?_)⟩
        push_cast
        omega
      · obtain ⟨b', exp', hf, hb'⟩ := ih hn exp
        refine ⟨b', exp', hf, hb'.trans (congrArg some ?_)⟩
        push_cast
        omega

def pushed : KeyAct → List Bytes
  | push vs => vs
  | _ => []

lemma foldl_list (items : List Bytes) (exp : Int) : ∃ exp',
    acts.foldl apply (some ⟨.list items, exp⟩) = some ⟨.list (items ++ acts.flatMap pushed), exp'⟩ := by
  induction acts generalizing items exp with
  | nil => exact ⟨exp, by simp⟩
  | cons a acts ih =>
    have ih := ih fun a ha => hover a (mem_cons_of_mem _ ha)
    cases a with
    | overwrite => cases hover _ mem_cons_self
    | look | count | add => exact ih items exp
    | persist => exact ih items 0
    | push vs =>
      rw [flatMap_cons, ← append_assoc]
      exact ih (items ++ vs) exp

lemma still_not_growing {x : Option Entry} (h : Still x) : ¬ Growing acts (acts.foldl apply x) := by
  have hstill : Still (acts.foldl apply x) := foldl_inv (fun a ha _ => still_stays (hover a ha)) h
  rcases hy : acts.foldl apply x with _ | ⟨b | _ | _ | _ | _ | _, exp⟩ <;> rw [hy] at hstill
  case some.str =>
    rintro ⟨-, n, hn, -⟩
    cases hn.symm.trans hstill
  case some.list => cases hstill
  all_goals exact id

lemma growing_some (e : Entry) : Growing acts (acts.foldl apply (some e)) ↔ Grow acts (some e) := by
  rcases e with ⟨b | items | _ | _ | _ | _, exp⟩
  case str =>
    cases hn : parseInt b with
    | none =>
      refine iff_of_false (still_not_growing hover hn) ?_
      rintro ⟨-, n, hn', -⟩
      cases hn'.symm.trans hn
    | some n =>
      obtain ⟨b', exp', hf, hb'⟩ := foldl_number hover hn exp
      rw [hf]
      refine and_congr_right fun _ => ?_
      simp only [hn, hb', Option.some.injEq, exists_eq_left']
      omega
  case list =>
    obtain ⟨exp', hf⟩ := foldl_list hover items exp
    rw [hf]
    exact Iff.rfl
  all_goals exact iff_of_false (still_not_growing hover trivial) id

/-- Whether a key that is not there grows is decided by what makes it. -/
lemma growing_none (hlen : (acts.length : Int) < 2 ^ 63 - 1) :
    Growing acts (acts.foldl apply none) ↔ Grow acts none := by
  induction acts with
  | nil => exact iff_of_false id (by simp [Grow])
  | cons a acts ih =>
    have hover' : ∀ a ∈ acts, a.overwrites = false := fun a ha => hover a (mem_cons_of_mem _ ha)
    have hlen' : (acts.length : Int) + 1 < 2 ^ 63 - 1 := by simpa using hlen
    have hskip (y : Option Entry) (ha : a.grows = false) : Growing (a :: acts) y ↔ Growing acts y := by
      have hmem {b : KeyAct} (hb : b.grows = true) : b ∈ a :: acts ↔ b ∈ acts := by
        rw [mem_cons, or_iff_right]
        rintro rfl
        exact Bool.false_ne_true (ha.symm.trans hb)
      rcases y with _ | ⟨_ | _ | _ | _ | _ | _, exp⟩ <;>
        simp only [Growing, hmem (b := count) rfl, fun vs => hmem (b := push vs) rfl]
    -- the first act that makes the key decides, so the induction goes on only where there is still none
    cases a with
    | overwrite => cases hover _ mem_cons_self
    | look | persist => exact (hskip _ rfl).trans (ih hover' (by omega))
    | add ms => exact (hskip _ rfl).trans (iff_of_false (still_not_growing hover' trivial) Bool.false_ne_true)
    | count =>
      refine iff_of_true ?_ rfl
      obtain ⟨b', exp', hf, hb'⟩ := foldl_number hover' (b := formatInt 1) (n := 1) (by decide) 0
      have hle := count_le_length (a := count) (l := acts)
      rw [foldl_cons, show apply none count = some ⟨.str (formatInt 1), 0⟩ from rfl, hf]
      exact ⟨mem_cons_self, _, hb', by omega⟩
    | push vs =>
      obtain ⟨exp', hf⟩ := foldl_list hover' vs 0
      rw [foldl_cons, show apply none (push vs) = some ⟨.list vs, 0⟩ from rfl, hf]
      exact iff_of_true ⟨vs, mem_cons_self⟩ rfl

lemma growing_grows (hpush : ∀ vs, push vs ∈ acts → vs ≠ []) {y : Option Entry} (h : Growing acts y) :
    acts.foldl apply y ≠ y := by
  rcases y with _ | ⟨b | items | _ | _ | _ | _, exp⟩
  case some.str =>
    obtain ⟨hmem, n, hn, hlt⟩ := h
    obtain ⟨b', exp', hf, hb'⟩ := foldl_number hover hn exp
    have hpos := count_pos_iff.2 hmem
    intro heq
    obtain ⟨rfl, -⟩ : b' = b ∧ exp' = exp := by simpa using hf.symm.trans heq
    have := Option.some.inj (hb'.symm.trans hn)
    omega
  case some.list =>
    obtain ⟨vs, hmem⟩ := h
    obtain ⟨exp', hf⟩ := foldl_list hover items exp
    intro heq
    have hnil : acts.flatMap pushed = [] := by
      have := hf.symm.trans heq
      simp only [Option.some.injEq, Entry.mk.injEq, Value.list.injEq] at this
      exact append_right_eq_self.1 this.1
    exact hpush vs hmem (flatMap_eq_nil_iff.1 hnil _ hmem)
  all_goals cases h

/-- A second round changes a key exactly if a number or a list grows there. -/
lemma twice_iff (hpush : ∀ vs, push vs ∈ acts → vs ≠ []) (hlen : (acts.length : Int) < 2 ^ 63 - 1)
    (x : Option Entry) : acts.foldl apply (acts.foldl apply x) = acts.foldl apply x ↔ ¬ Grow acts x := by
  have hgrow : Growing acts (acts.foldl apply x) ↔ Grow acts x := by
    cases x with
    | none => exact growing_none hover hlen
    | some e => exact growing_some hover e
  rw [← hgrow]
  constructor
  · exact fun heq h => growing_grows hover hpush h heq
  · exact fun h => foldl_of_fixed (fixed_of_not_growing hover x h)

end

/-- After an overwriting nothing of the first round is left. -/
lemma twice_of_overwrite {acts : List KeyAct} {v : Option Value} (h : overwrite v ∈ acts) (x y : Option Entry) :
    acts.foldl apply x = acts.foldl apply y := by
  obtain ⟨before, after, rfl⟩ := append_of_mem h
  simp only [foldl_append, foldl_cons, apply]

end KeyAct

end Gopherdis.Command

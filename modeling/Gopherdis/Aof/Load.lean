/-
Replaying the append-only file: `Load` reads commands until the reader fails and takes `io.EOF` and
`io.ErrUnexpectedEOF` for the clean end of the file. On a file cut at any byte it returns without error, having
executed the commands before the cut, exactly if these are within the reader's limits and the cut does not fall
inside an argument's body: there the reader answers with its own `ErrUnexpectedEOF`, which `Load` does not know.
-/
import Gopherdis.Codec.Request

namespace Gopherdis.Aof

open Lib Codec List

variable {σ : Type} (exec : σ → Argv → σ)
variable {r rest : Bytes} {n : Nat} {c : Argv}

/-- The errors `Load` takes for a clean end: `errors.Is` with `io.EOF` or `io.ErrUnexpectedEOF`. -/
def cleanEnd (e : ReadErr) : Bool := e = .eof || e = .ioUnexpectedEOF

/-- The read loop of `Load` over the dataset, with the error it returns. -/
def loadLoop : Nat → σ → Bytes → σ × Option ReadErr
  | 0, s, _ => (s, none)
  | fuel + 1, s, r =>
    match parseRequest r with
    | .error e => (s, if cleanEnd e then none else some e)
    | .ok (argv, rest) => loadLoop fuel (if argv = [] then s else exec s argv) rest

def load (s : σ) (file : Bytes) : σ × Option ReadErr := loadLoop exec (file.length + 1) s file

/-! ## Every read consumes the file -/

lemma readBytes_length {l : Bytes} (h : readBytes r = some (l, rest)) : rest.length < r.length := by
  induction r generalizing l with
  | nil => cases h
  | cons b bs ih =>
  rw [readBytes] at h
  split at h
  · cases h; simp
  cases hb : readBytes bs with
  | none => rw [hb] at h; cases h
  | some p =>
    rw [hb] at h; cases h
    exact lt_trans (ih hb) (by simp)

lemma readLine_length {l : Bytes} (h : readLine r = .ok (l, rest)) : rest.length < r.length := by
  unfold readLine at h
  cases hb : readBytes r with
  | none => rw [hb] at h; cases h
  | some p => rw [hb] at h; cases h; exact readBytes_length hb

lemma parseBulk_length {a : Bytes} (h : parseBulk r = .ok (a, rest)) : rest.length < r.length := by
  unfold parseBulk at h
  cases hl : readLine r with
  | error e => rw [hl] at h; cases h
  | ok p =>
  have := readLine_length hl
  rw [hl] at h
  simp only at h
  split_ifs at h
  split at h
  · cases h
  split_ifs at h
  cases h
  rw [length_drop]; omega

variable {args : Argv}

lemma parseArgs_length {argc : Nat} (h : parseArgs argc r = .ok (args, rest)) : rest.length ≤ r.length := by
  induction argc generalizing r rest args with
  | zero => cases h; rfl
  | succ argc ih =>
  rw [parseArgs] at h
  cases hb : parseBulk r with
  | error e => rw [hb] at h; cases h
  | ok p =>
  have h1 := parseBulk_length hb
  rw [hb] at h
  simp only at h
  cases ha : parseArgs argc p.2 with
  | error e => rw [ha] at h; cases h
  | ok q =>
    have h2 := ih ha
    rw [ha] at h; cases h
    omega

lemma parseRequest_length {argv : Argv} (h : parseRequest r = .ok (argv, rest)) : rest.length < r.length := by
  cases r with
  | nil => cases h
  | cons b bs =>
  rw [parseRequest] at h
  split_ifs at h
  · unfold parseMultiBulkRequest at h
    cases hl : readLine (b :: bs) with
    | error e => rw [hl] at h; cases h
    | ok p =>
    have h1 := readLine_length hl
    rw [hl] at h
    simp only at h
    split_ifs at h
    split at h
    · cases h
    split_ifs at h
    have := parseArgs_length h
    omega
  · unfold parseInlineRequest at h
    cases hl : readLine (b :: bs) with
    | error e => rw [hl] at h; cases h
    | ok p => rw [hl] at h; cases h; exact readLine_length hl

lemma loadLoop_fuel {m : Nat} (s : σ) (r : Bytes) (hm : r.length < m) (hn : r.length < n) :
    loadLoop exec m s r = loadLoop exec n s r := by
  induction m generalizing n s r with
  | zero => omega
  | succ m ih =>
  obtain ⟨n, rfl⟩ : ∃ k, n = k + 1 := ⟨n - 1, by omega⟩
  rw [loadLoop, loadLoop]
  cases h : parseRequest r with
  | error e => rfl
  | ok p =>
    have := parseRequest_length h
    exact ih _ _ (by omega) (by omega)

lemma load_error {e : ReadErr} (s : σ) (h : parseRequest r = .error e) :
    load exec s r = (s, if cleanEnd e then none else some e) := by
  rw [load, loadLoop, h]

lemma load_ok {argv : Argv} (s : σ) (h : parseRequest r = .ok (argv, rest)) (hne : argv ≠ []) :
    load exec s r = load exec (exec s argv) rest := by
  have := parseRequest_length h
  rw [load, loadLoop, h]
  simp only
  rw [if_neg hne]
  exact loadLoop_fuel exec _ _ (by omega) (by omega)

lemma load_encodeCommands (cmds : List Argv) (h : ∀ c ∈ cmds, Framed c) (s : σ) :
    load exec s (cmds.flatMap encodeCommand) = (cmds.foldl exec s, none) := by
  induction cmds generalizing s with
  | nil => rfl
  | cons c cs ih =>
    have hc := h c (mem_cons_self ..)
    rw [flatMap_cons, load_ok exec s (parseRequest_encodeCommand hc _) hc.1,
      ih fun d hd => h d (mem_cons_of_mem _ hd)]
    rfl

/-! ## Cuts -/

/-- The commands wholly contained in the first `n` bytes of the file. -/
def wholeCommands : List Argv → Nat → List Argv
  | [], _ => []
  | c :: cs, n =>
    if (encodeCommand c).length ≤ n then c :: wholeCommands cs (n - (encodeCommand c).length) else []

/-- A cut `n` bytes into the arguments of a command that a later read takes for the end of the
file: it falls at the start of a length line or inside one, and the arguments before it are whole
and within the limit. -/
def TearOk : Argv → Nat → Prop
  | [], _ => True
  | a :: as, n => n < (bulkHeader a).length ∨
    (a.length ≤ maxBulkLength ∧ (encodeBulk a).length ≤ n ∧ TearOk as (n - (encodeBulk a).length))

/-- The cuts of a file at which `Load` is clean. -/
def CutClean : List Argv → Nat → Prop
  | [], _ => True
  | c :: cs, n =>
    if (encodeCommand c).length ≤ n then Framed c ∧ CutClean cs (n - (encodeCommand c).length)
    else n < (commandHeader c).length ∨
      (c ≠ [] ∧ c.length ≤ maxMultiBulkLength ∧ TearOk c (n - (commandHeader c).length))

lemma cutArgs_torn {n : Nat} (h : n < (args.flatMap encodeBulk).length) :
    ∃ e, cutArgs args n = .error e ∧ (cleanEnd e = true ↔ TearOk args n) := by
  induction args generalizing n with
  | nil => simp at h
  | cons a as ih =>
  rw [flatMap_cons, length_append] at h
  rw [cutArgs, cutBulk, TearOk]
  by_cases h1 : n < (bulkHeader a).length
  · rw [if_pos h1]; exact ⟨_, rfl, by simp [cleanEnd, h1]⟩
  rw [if_neg h1]
  by_cases h2 : maxBulkLength < a.length
  · rw [if_pos h2]; exact ⟨_, rfl, by simp [cleanEnd, h1, not_le.2 h2]⟩
  rw [if_neg h2]
  by_cases h3 : n < (encodeBulk a).length
  · rw [if_pos h3]; exact ⟨_, rfl, by simp [cleanEnd, h1, not_le.2 h3]⟩
  rw [if_neg h3]
  obtain ⟨e, he, hiff⟩ := ih (n := n - (encodeBulk a).length) (by omega)
  exact ⟨e, he, by rw [hiff]; simp [h1, not_lt.1 h2, not_lt.1 h3]⟩

lemma cutArgs_over (h : (args.flatMap encodeBulk).length ≤ n)
    (ha : ¬ ∀ a ∈ args, a.length ≤ maxBulkLength) : cutArgs args n = .error .invalidBulkLength := by
  induction args generalizing n with
  | nil => simp at ha
  | cons a as ih =>
  rw [flatMap_cons, length_append] at h
  have hl := encodeBulk_length a
  rw [cutArgs, cutBulk, if_neg (by omega)]
  by_cases h2 : maxBulkLength < a.length
  · rw [if_pos h2]
  · rw [if_neg h2, if_neg (by omega)]
    refine ih (by omega) fun hall => ha (forall_mem_cons.2 ⟨not_lt.1 h2, hall⟩)

lemma cutCommand_unframed (h : (encodeCommand c).length ≤ n) (hf : ¬ Framed c) :
    ∃ e, cutCommand c n = .error e ∧ cleanEnd e = false := by
  rw [encodeCommand, length_append] at h
  rw [cutCommand, if_neg (by omega)]
  by_cases hb : c = [] ∨ maxMultiBulkLength < c.length
  · rw [if_pos hb]; exact ⟨_, rfl, rfl⟩
  rw [if_neg hb]
  rw [not_or] at hb
  refine ⟨_, cutArgs_over (by omega) fun hall => hf ⟨hb.1, not_lt.1 hb.2, hall⟩, rfl⟩

lemma parseRequest_unframed (hf : ¬ Framed c) (rest : Bytes) :
    ∃ e, parseRequest (encodeCommand c ++ rest) = .error e ∧ cleanEnd e = false := by
  obtain ⟨e, he, hclean⟩ := cutCommand_unframed (n := (encodeCommand c ++ rest).length) (by simp) hf
  have hp := parseRequest_take c rest (encodeCommand c ++ rest).length
  rw [take_length, he] at hp
  exact ⟨e, hp, hclean⟩

lemma load_encodeCommands_clean_iff (cmds : List Argv) (s : σ) :
    (load exec s (cmds.flatMap encodeCommand)).2 = none ↔ ∀ c ∈ cmds, Framed c := by
  induction cmds generalizing s with
  | nil => simp [load, loadLoop, parseRequest, cleanEnd]
  | cons c cs ih =>
  rw [flatMap_cons, forall_mem_cons]
  by_cases hf : Framed c
  · rw [load_ok exec s (parseRequest_encodeCommand hf _) hf.1, ih]
    exact ⟨fun h => ⟨hf, h⟩, fun h => h.2⟩
  obtain ⟨e, he, hclean⟩ := parseRequest_unframed hf (cs.flatMap encodeCommand)
  rw [load_error exec s he, hclean]
  simp [hf]

lemma cutCommand_torn (h : n < (encodeCommand c).length) : ∃ e, cutCommand c n = .error e ∧ (cleanEnd e = true ↔
      n < (commandHeader c).length ∨
        (c ≠ [] ∧ c.length ≤ maxMultiBulkLength ∧ TearOk c (n - (commandHeader c).length))) := by
  rw [encodeCommand, length_append] at h
  rw [cutCommand]
  by_cases h1 : n < (commandHeader c).length
  · rw [if_pos h1]; exact ⟨_, rfl, by simp [cleanEnd, h1]⟩
  rw [if_neg h1]
  by_cases hb : c = [] ∨ maxMultiBulkLength < c.length
  · rw [if_pos hb]
    refine ⟨_, rfl, ?_⟩
    simp only [cleanEnd, reduceCtorEq, decide_false, Bool.or_self, false_iff, Bool.false_eq_true]
    rintro (h2 | ⟨h2, h3, -⟩)
    · exact h1 h2
    · exact hb.elim h2 (not_lt.2 h3)
  · rw [if_neg hb]
    rw [not_or] at hb
    obtain ⟨e, he, hiff⟩ := @cutArgs_torn c (n - (commandHeader c).length) (by omega)
    exact ⟨e, he, by rw [hiff]; simp [h1, hb.1, not_lt.1 hb.2]⟩

/-- For every list of commands and every prefix of their encodings, `Load` returns no error and
has executed exactly the commands wholly contained in the prefix, in order, if and only if the cut
is clean. -/
theorem load_torn_tail_iff (cmds : List Argv) (n : Nat) (s : σ) :
    load exec s ((cmds.flatMap encodeCommand).take n) = ((wholeCommands cmds n).foldl exec s, none) ↔
      CutClean cmds n := by
  induction cmds generalizing n s with
  | nil => simp [wholeCommands, CutClean, load, loadLoop, parseRequest, cleanEnd]
  | cons c cs ih =>
  have hp := parseRequest_take c (cs.flatMap encodeCommand) n
  rw [flatMap_cons, wholeCommands, CutClean]
  by_cases hn : (encodeCommand c).length ≤ n
  · rw [if_pos hn, if_pos hn]
    by_cases hf : Framed c
    · rw [cutCommand_whole hf hn] at hp
      rw [load_ok exec s hp hf.1, foldl_cons, ih]
      simp [hf]
    -- a command past the limits: the parser's error is returned
    obtain ⟨e, he, hc⟩ := cutCommand_unframed hn hf
    rw [he] at hp
    rw [load_error exec s hp, hc]
    simp [hf]
  · rw [if_neg hn, if_neg hn]
    obtain ⟨e, he, hiff⟩ := cutCommand_torn (not_le.1 hn)
    rw [he] at hp
    rw [load_error exec s hp, ← hiff, foldl_nil]
    cases cleanEnd e <;> simp

/-- `SET k v` cut one byte into its first argument: the reader's own `ErrUnexpectedEOF` comes back. -/
theorem load_torn_body : ¬ (load (fun (log : List Argv) c => log ++ [c]) []
        (([[ascii "SET", ascii "k", ascii "v"]].flatMap encodeCommand).take 9) =
      ((wholeCommands [[ascii "SET", ascii "k", ascii "v"]] 9).foldl (fun log c => log ++ [c]) [], none)) := by
  decide

end Gopherdis.Aof

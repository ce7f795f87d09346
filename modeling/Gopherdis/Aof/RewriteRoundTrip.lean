/-
A rewritten append-only file, loaded into an empty keyspace, restores its keyspace exactly if no collection is
empty, every stream still has the entry that gave it its last ID, and every command stays within the limits of
the request reader: a collection of more than half a million fields is refused by the very server that wrote it.
-/
import Gopherdis.Aof.Rewrite

namespace Gopherdis.Aof

open Lib Codec Object Store Gopherdis.Stream Command List

/-! ## What survives -/

/-- The same logical value: streams are compared by what they show. -/
def Alike : Value → Value → Prop
  | .stream s, .stream s' => shown s = shown s'
  | v, w => v.Same w

/-- Something of the value is written, and for a stream its last ID is that of the last entry. -/
def Kept : Value → Prop
  | .str _ => True
  | .list items => items ≠ []
  | .hash es => es ≠ []
  | .set ms => ms ≠ []
  | .zset es => es ≠ []
  | .stream s => s.entries.getLast?.map StreamEntry.id = some s.lastID

section
variable {E : Env}

lemma rebuilt_stream {s : Stream} (h : s.WF) : (newStream.addAll s.entries).entries = s.entries := by
  rw [Stream.addAll_entries (newStream_named s.names_card) h.addable]
  rfl

lemma rebuilt_alike_iff {v : Value} (hv : Sound E v) : (∃ w, rebuilt E v = some w ∧ Alike w v) ↔ Kept v := by
  have hif : ∀ {p : Prop} [Decidable p] {x w : Value}, (if p then none else some x) = some w ↔ ¬ p ∧ x = w := by
    intro p _ x w
    split_ifs with hp <;> simp [hp]
  cases v with
  | str b => exact ⟨fun _ => trivial, fun _ => ⟨_, rfl, rfl⟩⟩
  | list items =>
    simp only [rebuilt, hif, Kept]
    constructor
    · rintro ⟨_, h, -⟩
      exact h.1
    · intro h
      exact ⟨_, ⟨h, rfl⟩, rfl⟩
  | hash | set =>
    simp only [rebuilt, hif, Kept]
    constructor
    · rintro ⟨_, h, -⟩
      exact h.1
    · intro h
      exact ⟨_, ⟨h, rfl⟩, List.Perm.refl _⟩
  | zset es =>
    simp only [rebuilt, hif, Kept]
    constructor
    · rintro ⟨_, h, -⟩
      exact h.1
    · intro h
      exact ⟨_, ⟨h, rfl⟩, @zAdd_all E [] es (by simpa using hv.1)⟩
  | stream s =>
    have hwf : s.WF := hv
    simp only [rebuilt, hif, Kept]
    constructor
    · rintro ⟨_, ⟨hne, rfl⟩, hshown⟩
      have hlast : (newStream.addAll s.entries).lastID = s.lastID := congrArg Prod.snd hshown
      rw [Stream.addAll_lastID] at hlast
      rw [getLast?_eq_getLast_of_ne_nil hne] at hlast ⊢
      exact congrArg some hlast
    · intro hlast
      have hne : s.entries ≠ [] := by
        intro hnil
        rw [hnil] at hlast
        cases hlast
      refine ⟨_, ⟨hne, rfl⟩, Prod.ext (rebuilt_stream hwf) ?_⟩
      show (newStream.addAll s.entries).lastID = s.lastID
      rw [Stream.addAll_lastID, hlast]
      rfl

/-! ## The limits of the reader -/

variable (E) in
/-- Every command of an entry has at most `maxMultiBulkLength` arguments of at most `maxBulkLength` bytes. -/
def WithinLimits (key : Bytes) (v : Value) : Prop :=
  key.length ≤ maxBulkLength ∧
    match v with
    | .str b => b.length ≤ maxBulkLength
    | .list items => items.length + 2 ≤ maxMultiBulkLength ∧ ∀ x ∈ items, x.length ≤ maxBulkLength
    | .hash es => 2 * es.length + 2 ≤ maxMultiBulkLength ∧
        ∀ e ∈ es, e.1.length ≤ maxBulkLength ∧ e.2.length ≤ maxBulkLength
    | .set ms => ms.length + 2 ≤ maxMultiBulkLength ∧ ∀ m ∈ ms, m.length ≤ maxBulkLength
    | .zset es => 2 * es.length + 2 ≤ maxMultiBulkLength ∧
        ∀ e ∈ es, (E.formatFloat e.2).length ≤ maxBulkLength ∧ e.1.length ≤ maxBulkLength
    | .stream s => ∀ e ∈ s.entries, 2 * e.fields.length + 3 ≤ maxMultiBulkLength ∧ ∀ f ∈ e.fields, f.length ≤ maxBulkLength

lemma framed_iff {name key : Bytes} {args : List Bytes} (hname : name.length ≤ maxBulkLength) :
    Framed (name :: key :: args) ↔
      key.length ≤ maxBulkLength ∧ args.length + 2 ≤ maxMultiBulkLength ∧ ∀ a ∈ args, a.length ≤ maxBulkLength := by
  unfold Framed
  rw [forall_mem_cons, forall_mem_cons, length_cons, length_cons]
  exact ⟨fun ⟨_, hlen, _, hkey, hargs⟩ => ⟨hkey, hlen, hargs⟩,
    fun ⟨hkey, hlen, hargs⟩ => ⟨cons_ne_nil _ _, hlen, hname, hkey, hargs⟩⟩

lemma StreamID.format_length_le (id : StreamID) : id.format.length ≤ maxBulkLength := by
  have hnat : ∀ n : UInt64, (formatNat n.toNat).length ≤ 20 := by
    intro n
    have := n.toNat_lt
    rw [formatNat, length_map, Nat.length_toDigits_le_iff (by decide) (by decide)]
    omega
  have h1 := hnat id.ms
  have h2 := hnat id.seq
  rw [StreamID.format, length_append, length_cons]
  exact le_trans (by omega) (show 41 ≤ maxBulkLength by decide)

lemma framed_xadd_iff {names : Finset Bytes} {key : Bytes} {e : StreamEntry} (he : e.Addable names) :
    Framed (ascii "XADD" :: key :: e.id.format :: e.pairs) ↔ key.length ≤ maxBulkLength ∧
      2 * e.fields.length + 3 ≤ maxMultiBulkLength ∧ ∀ f ∈ e.fields, f.length ≤ maxBulkLength := by
  have hlen : e.pairs.length = 2 * e.fields.length := by
    rw [StreamEntry.pairs, unpair_length, length_zip, he.shape, min_self]
  have hvalues : ∀ v ∈ e.values, v.length ≤ maxBulkLength := fun v hv =>
    ((single_le_sum (by simp) _ (mem_map_of_mem hv)).trans he.fits).trans (by decide)
  have hargs : (∀ a ∈ e.pairs, a.length ≤ maxBulkLength) ↔ ∀ f ∈ e.fields, f.length ≤ maxBulkLength := by
    rw [StreamEntry.pairs, forall_mem_unpair]
    constructor
    · intro h f hf
      rw [← map_fst_zip he.shape.le] at hf
      obtain ⟨p, hp, rfl⟩ := mem_map.1 hf
      exact (h p hp).1
    · intro h p hp
      exact ⟨h _ (of_mem_zip hp).1, hvalues _ (of_mem_zip hp).2⟩
  rw [framed_iff (by decide), forall_mem_cons, length_cons, hlen, hargs]
  constructor
  · rintro ⟨hkey, hcount, -, hfields⟩
    exact ⟨hkey, by omega, hfields⟩
  · rintro ⟨hkey, hcount, hfields⟩
    exact ⟨hkey, by omega, StreamID.format_length_le _, hfields⟩

lemma rewriteValue_framed_iff {key : Bytes} {v : Value} (hv : Sound E v) (hkept : Kept v) :
    (∀ c ∈ rewriteValue E key v, Framed c) ↔ WithinLimits E key v := by
  have hone : ∀ c : Argv, (∀ c' ∈ [c], Framed c') ↔ Framed c := by simp
  cases v with
  | str b =>
    rw [rewriteValue, hone, framed_iff (by decide), forall_mem_singleton, length_singleton]
    constructor
    · rintro ⟨hkey, -, hb⟩
      exact ⟨hkey, hb⟩
    · rintro ⟨hkey, hb⟩
      exact ⟨hkey, by decide, hb⟩
  | list items => rw [rewriteValue, hone, framed_iff (by decide)]; rfl
  | hash es =>
    rw [rewriteValue, if_neg hkept, hone, framed_iff (by decide), unpair_length, forall_mem_unpair]
    rfl
  | set ms => rw [rewriteValue, if_neg hkept, hone, framed_iff (by decide)]; rfl
  | zset es =>
    rw [rewriteValue, if_neg hkept, hone, framed_iff (by decide), unpair_length, forall_mem_unpair, length_map,
      forall_mem_map]
    rfl
  | stream s =>
    have hwf : s.WF := hv
    have hne : s.entries ≠ [] := by
      intro hnil
      rw [Kept, hnil] at hkept
      cases hkept
    obtain ⟨e0, he0⟩ := exists_mem_of_ne_nil _ hne
    rw [rewriteValue, forall_mem_map]
    constructor
    · intro h
      exact ⟨((framed_xadd_iff (hwf.addable e0 he0)).1 (h e0 he0)).1,
        fun e he => ((framed_xadd_iff (hwf.addable e he)).1 (h e he)).2⟩
    · rintro ⟨hkey, h⟩ e he
      exact (framed_xadd_iff (hwf.addable e he)).2 ⟨hkey, h e he⟩

lemma rewriteEntry_framed_iff {e : Bytes × Entry} (hv : Sound E e.2.val) (hkept : Kept e.2.val)
    (hint : InInt64 e.2.expireAt) : (∀ c ∈ rewriteEntry E e, Framed c) ↔ WithinLimits E e.1 e.2.val := by
  rw [← rewriteValue_framed_iff hv hkept]
  constructor
  · exact fun h c hc => h c (mem_append_left _ hc)
  · intro h c hc
    obtain hc | hc := mem_append.1 hc
    · exact h c hc
    -- the key has been within the limit already, and the deadline is short
    have hkey : e.1.length ≤ maxBulkLength := ((rewriteValue_framed_iff hv hkept).1 h).1
    rw [rewriteDeadline] at hc
    split_ifs at hc
    · rw [mem_singleton.1 hc, framed_iff (by decide), forall_mem_singleton, length_singleton]
      exact ⟨hkey, by decide, (formatInt_length_le hint).trans (by decide)⟩
    · cases hc

/-! ## The round trip -/

variable (E) in
/-- The entries of a keyspace, in the order they are walked. -/
structure Dataset where
  entries : List (Bytes × Entry)
  nodup : (entries.map Prod.fst).Nodup
  sound : ∀ e ∈ entries, Sound E e.2.val
  deadlines : ∀ e ∈ entries, 0 ≤ e.2.expireAt ∧ e.2.expireAt < 2 ^ 63

variable (E) in
/-- The request reader accepts every command, and loading them all into an empty keyspace ends without
error, with every key as it was and no other. -/
structure RoundTrips (now : Clock) (entries : List (Bytes × Entry)) : Prop where
  accepted : ∀ c ∈ rewriteCommands E entries, parseRequest (encodeCommand c) = .ok (c, [])
  clean : (load (replayOne E now baseTable) ∅ ((rewriteCommands E entries).flatMap encodeCommand)).2 = none
  restored : ∀ e ∈ entries, ∃ e',
    (load (replayOne E now baseTable) ∅ ((rewriteCommands E entries).flatMap encodeCommand)).1.lookup e.1 = some e' ∧
      Alike e'.val e.2.val ∧ e'.expireAt = e.2.expireAt
  only : ∀ k, ((load (replayOne E now baseTable) ∅
    ((rewriteCommands E entries).flatMap encodeCommand)).1.lookup k).isSome → k ∈ entries.map Prod.fst

theorem rewrite_round_trips_iff (D : Dataset E) (now : Clock) :
    RoundTrips E now D.entries ↔ ∀ e ∈ D.entries, Kept e.2.val ∧ WithinLimits E e.1 e.2.val := by
  have hint : ∀ e ∈ D.entries, InInt64 e.2.expireAt := by
    intro e he
    have := D.deadlines e he
    unfold InInt64
    omega
  obtain ⟨hat, hother⟩ := @rewriteCommands_replayed E now D.entries ∅ D.nodup
    (fun e he => ⟨D.sound e he, hint e he, (D.deadlines e he).1⟩) (fun _ _ => Finmap.lookup_empty _)
  constructor
  · intro h
    have hframed := (load_encodeCommands_clean_iff _ _ _).1 h.clean
    intro e he
    obtain ⟨e', hlookup, halike, -⟩ := h.restored e he
    rw [load_encodeCommands _ _ hframed, hat e he] at hlookup
    obtain ⟨w, hw, rfl⟩ := Option.map_eq_some_iff.1 hlookup
    have hkept := (rebuilt_alike_iff (D.sound e he)).1 ⟨w, hw, halike⟩
    exact ⟨hkept, (rewriteEntry_framed_iff (D.sound e he) hkept (hint e he)).1
      fun c hc => hframed c (mem_flatMap.2 ⟨e, he, hc⟩)⟩
  · intro h
    have hframed : ∀ c ∈ rewriteCommands E D.entries, Framed c := by
      intro c hc
      obtain ⟨e, he, hc⟩ := mem_flatMap.1 hc
      exact (rewriteEntry_framed_iff (D.sound e he) (h e he).1 (hint e he)).2 (h e he).2 c hc
    have hload := load_encodeCommands (replayOne E now baseTable) _ hframed ∅
    refine ⟨fun c hc => ?_, by rw [hload], fun e he => ?_, fun k hk => ?_⟩
    · have hparse := parseRequest_encodeCommand (hframed c hc) []
      rwa [append_nil] at hparse
    · obtain ⟨w, hw, halike⟩ := (rebuilt_alike_iff (D.sound e he)).2 (h e he).1
      refine ⟨⟨w, e.2.expireAt⟩, ?_, halike, rfl⟩
      rw [hload, hat e he, hw]
      rfl
    · by_contra hmem
      rw [hload, hother k hmem, Finmap.lookup_empty] at hk
      cases hk

end

/-! ## A list that is too long, and a stream that has lost its last entry -/

/-- A list of 1048575 empty strings. -/
def longList : Dataset Env.bits where
  entries := [(ascii "l", ⟨.list (List.replicate 1048575 []), 0⟩)]
  nodup := nodup_singleton _
  sound := by rw [forall_mem_singleton]; exact trivial
  deadlines := by rw [forall_mem_singleton]; decide

def trimmedStream : Stream :=
  ((newStream.appended ⟨1, 0⟩ [ascii "f", ascii "v"]).appended ⟨2, 0⟩ [ascii "f", ascii "v"]).delete [⟨2, 0⟩]

lemma trimmedStream_wf : trimmedStream.WF := by
  have h1 : (newStream.appended ⟨1, 0⟩ [ascii "f", ascii "v"]).WF :=
    @Stream.WF.addRaw 0 _ _ false newStream_wf ⟨1, 0⟩ [ascii "f", ascii "v"] (by decide) rfl
  have h2 : ((newStream.appended ⟨1, 0⟩ [ascii "f", ascii "v"]).appended ⟨2, 0⟩ [ascii "f", ascii "v"]).WF :=
    @Stream.WF.addRaw 0 _ _ false h1 ⟨2, 0⟩ [ascii "f", ascii "v"] (by decide) rfl
  exact h2.delete _

def shortenedStream : Dataset Env.bits where
  entries := [(ascii "s", ⟨.stream trimmedStream, 0⟩)]
  nodup := nodup_singleton _
  sound := by rw [forall_mem_singleton]; exact trimmedStream_wf
  deadlines := by rw [forall_mem_singleton]; decide

/-- The `RPUSH` of the list has 1048577 arguments; the stream comes back with the last ID 1-0. -/
theorem rewrite_does_not_round_trip : ¬ RoundTrips Env.bits ⟨0, by decide⟩ longList.entries ∧
      ¬ RoundTrips Env.bits ⟨0, by decide⟩ shortenedStream.entries := by
  constructor
  · intro h
    have hframed := (load_encodeCommands_clean_iff _ _ _).1 h.clean
      (ascii "RPUSH" :: ascii "l" :: List.replicate 1048575 []) (mem_singleton_self _)
    have hlen := ((framed_iff (by decide)).1 hframed).2.1
    rw [length_replicate] at hlen
    exact absurd hlen (by decide)
  · intro h
    obtain ⟨hat, -⟩ := @rewriteCommands_replayed Env.bits ⟨0, by decide⟩ shortenedStream.entries ∅ shortenedStream.nodup
      (by rw [shortenedStream, forall_mem_singleton]; exact ⟨trimmedStream_wf, by decide, by decide⟩)
      (fun _ _ => Finmap.lookup_empty _)
    obtain ⟨e', hlookup, halike, -⟩ := h.restored _ (mem_singleton_self _)
    rw [load_encodeCommands _ _ ((load_encodeCommands_clean_iff _ _ _).1 h.clean),
      hat _ (mem_singleton_self _)] at hlookup
    obtain ⟨w, hw, rfl⟩ := Option.map_eq_some_iff.1 hlookup
    have hrebuilt : rebuilt Env.bits (.stream trimmedStream) =
        some (.stream (newStream.addAll trimmedStream.entries)) := rfl
    obtain rfl := Option.some.inj (hrebuilt.symm.trans hw)
    exact absurd (congrArg Prod.snd halike) (by decide)

end Gopherdis.Aof

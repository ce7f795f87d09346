/-
Redirection. The dispatcher looks at one argument, the one behind the name, for all commands but five. That is
the key, or one of the keys of the same slot, of most commands; it is a number, an operation, a subcommand or
no key at all of the others.
-/
import Gopherdis.Cluster.Slots
import Gopherdis.Command.Registry

namespace Gopherdis.Cluster

open Lib Codec Command ClusterManager List Option

/-! ## Foreign keys -/

/-- The key belongs to another node. -/
def Foreign (cm : ClusterManager) (key : Bytes) : Prop := (cm.isSlotLocal key).1 = false

variable {cm : ClusterManager}

lemma foreign_iff (h : cm.clusterEnabled = true) (key : Bytes) :
    Foreign cm key ↔ cm.slots (keySlot key) ≠ [] ∧ cm.slots (keySlot key) ≠ cm.selfNodeID := by
  rw [Foreign, isSlotLocal, if_neg (by rw [h]; decide), ← not_or]
  split_ifs with howner
  all_goals simp [howner]

lemma moved_eq_some_iff (h : cm.clusterEnabled = true) {key reply : Bytes} : cm.moved key = some reply ↔
      Foreign cm key ∧ movedReply (cm.isSlotLocal key).2.1 (cm.isSlotLocal key).2.2 = reply := by
  rw [moved, if_neg (by rw [h]; decide), Foreign]
  rcases cm.isSlotLocal key with ⟨_ | _, slot, addr⟩ <;> simp

variable (p : Fin numSlots → Prop)

/-- The slots that meet the condition belong to another node. -/
def elsewhere [DecidablePred p] : ClusterManager where
  selfNodeID := ascii "self"
  selfAddr := ascii "127.0.0.1:7000"
  slots slot := if p slot then ascii "other" else []
  nodeAddr _ := some (ascii "127.0.0.1:7001")
  clusterEnabled := true

lemma foreign_elsewhere [DecidablePred p] (key : Bytes) :
    Foreign (elsewhere p) key ↔ p (keySlot key) := by
  rw [foreign_iff rfl]
  by_cases hp : p (keySlot key) <;> simp only [elsewhere, hp, if_true, if_false] <;> decide

/-! ## The dispatcher -/

/-- The dispatcher answers `MOVED`. -/
def Redirected (ctx : Context) (t : Table) (argv : Argv) (s : Session) : Prop :=
  ∃ slot addr, dispatch ctx t argv s = .inl (movedReply slot addr, s)

lemma queued_ne_movedReply (slot : Fin numSlots) (addr : Bytes) : queued ≠ movedReply slot addr := by
  intro h
  have hhead := congrArg List.head? h
  cases hhead

section
variable {ctx : Context} {t : Table} {argv : Argv} {s : Session} {c : Command}

lemma redirected_iff (hlookup : t.lookup (argv.headD []) = some c) (hargs : argv ≠ [])
    (harity : c.arityOk argv.length = true) (hperm : ctx.permits c = true) {cm : ClusterManager}
    (hcm : cm.clusterEnabled = true) : Redirected (inCluster ctx cm) t argv s ↔
      c.name ∉ clusterExempt ∧ ∃ first, (argv.drop 1).head? = some first ∧ Foreign cm first := by
  have hperm' : (inCluster ctx cm).permits c = true := hperm
  obtain ⟨hsent, hkept⟩ := dispatch_permitted hlookup hargs harity hperm'
  have hmoved : ∀ reply, (inCluster ctx cm).redirect c argv = some reply ↔
      c.name ∉ clusterExempt ∧ ∃ first, (argv.drop 1).head? = some first ∧ cm.moved first = some reply := by
    intro reply
    rw [Context.redirect]
    split_ifs with hex
    · simp [hex]
    · rw [bind_eq_some_iff]
      exact ⟨fun h => ⟨hex, h⟩, fun h => h.2⟩
  constructor
  · rintro ⟨slot, addr, hdispatch⟩
    cases hredirect : (inCluster ctx cm).redirect c argv with
    | none =>
      rw [hkept hredirect] at hdispatch
      split_ifs at hdispatch
      exact absurd (congrArg Prod.fst (Sum.inl.inj hdispatch)) (queued_ne_movedReply slot addr)
    | some reply =>
      obtain ⟨hex, first, hfirst, hreply⟩ := (hmoved reply).1 hredirect
      exact ⟨hex, first, hfirst, ((moved_eq_some_iff hcm).1 hreply).1⟩
  · rintro ⟨hex, first, hfirst, hforeign⟩
    exact ⟨_, _, hsent _ ((hmoved _).2 ⟨hex, first, hfirst, (moved_eq_some_iff hcm).2 ⟨hforeign, rfl⟩⟩)⟩

/-- One argument tells whether the command is to be redirected: the command has keys, all in the slot of its
first argument, or it has none and no first argument is looked at. -/
def FirstDecides (name : Bytes) (argv : Argv) : Prop :=
  if keysOf name argv = [] then name ∈ clusterExempt ∨ argv.length < 2
  else name ∉ clusterExempt ∧
    ∃ first, (argv.drop 1).head? = some first ∧ ∀ key ∈ keysOf name argv, keySlot key = keySlot first

/-- A command is redirected, under every slot map, exactly if one of its keys belongs to another node: that
holds of a call exactly if its first argument decides about it. -/
theorem redirected_by_keys_iff (ctx : Context) (t : Table) (argv : Argv) (s : Session) (c : Command)
    (hlookup : t.lookup (argv.headD []) = some c) (hargs : argv ≠ []) (harity : c.arityOk argv.length = true)
    (hperm : ctx.permits c = true) : (∀ cm : ClusterManager, cm.clusterEnabled = true →
      (Redirected (inCluster ctx cm) t argv s ↔ ∃ key ∈ keysOf c.name argv, Foreign cm key)) ↔
    FirstDecides c.name argv := by
  have hright : ∀ cm : ClusterManager, cm.clusterEnabled = true →
      (Redirected (inCluster ctx cm) t argv s ↔
        c.name ∉ clusterExempt ∧ ∃ first, (argv.drop 1).head? = some first ∧ Foreign cm first) :=
    fun cm hcm => redirected_iff hlookup hargs harity hperm hcm
  unfold FirstDecides
  constructor
  · intro h
    split_ifs with hkeys
    · -- All slots are elsewhere: the call must not have an argument that is looked at.
      by_contra hno
      rw [not_or, not_lt] at hno
      obtain ⟨first, hfirst⟩ : ∃ first, (argv.drop 1).head? = some first := by
        rw [← isSome_iff_exists, isSome_head?, ne_eq, drop_eq_nil_iff]
        omega
      have hall := (h (elsewhere fun _ => True) rfl).1 ((hright _ rfl).2
        ⟨hno.1, first, hfirst, (foreign_elsewhere _ first).2 trivial⟩)
      rw [hkeys] at hall
      obtain ⟨key, hkey, -⟩ := hall
      cases hkey
    · obtain ⟨key, hkey⟩ := exists_mem_of_ne_nil _ hkeys
      have hall := (h (elsewhere fun _ => True) rfl).2 ⟨key, hkey, (foreign_elsewhere _ key).2 trivial⟩
      obtain ⟨hex, first, hfirst, -⟩ := (hright _ rfl).1 hall
      refine ⟨hex, first, hfirst, fun key hkey => ?_⟩
      -- Only the slot of this key is elsewhere.
      have hone := (h (elsewhere fun slot => slot = keySlot key) rfl).2 ⟨key, hkey, (foreign_elsewhere _ key).2 rfl⟩
      obtain ⟨-, first', hfirst', hforeign⟩ := (hright _ rfl).1 hone
      obtain rfl := some.inj (hfirst.symm.trans hfirst')
      exact ((foreign_elsewhere _ first).1 hforeign).symm
  · intro h cm hcm
    rw [hright cm hcm]
    split_ifs at h with hkeys
    · rw [hkeys]
      refine iff_of_false ?_ (by rintro ⟨key, hkey, -⟩; cases hkey)
      rintro ⟨hex, first, hfirst, -⟩
      rcases h with h | h
      · exact hex h
      have hnil : argv.drop 1 = [] := drop_eq_nil_iff.2 (by omega)
      rw [hnil] at hfirst
      cases hfirst
    obtain ⟨hex, first, hfirst, hslots⟩ := h
    have hsame : ∀ key ∈ keysOf c.name argv, (Foreign cm key ↔ Foreign cm first) := by
      intro key hkey
      rw [foreign_iff hcm, foreign_iff hcm, hslots key hkey]
    constructor
    · rintro ⟨-, first', hfirst', hforeign⟩
      obtain rfl := some.inj (hfirst.symm.trans hfirst')
      obtain ⟨key, hkey⟩ := exists_mem_of_ne_nil _ hkeys
      exact ⟨key, hkey, (hsame key hkey).2 hforeign⟩
    · rintro ⟨key, hkey, hforeign⟩
      exact ⟨hex, first, hfirst, (hsame key hkey).1 hforeign⟩

end

lemma first_not_exempt : ∀ spec ∈ registry, spec.layout = .first → spec.name ∉ clusterExempt := by decide +kernel

lemma firstDecides_of_first {spec : CommandSpec} (hspec : spec ∈ registry) (hfirst : spec.layout = .first)
    {argv : Argv} (hargc : 2 ≤ argv.length) : FirstDecides spec.name argv := by
  have hkeys : keysOf spec.name argv = (argv.drop 1).take 1 := by
    rw [keysOf, specOf_of_mem hspec, elim_some, hfirst]
    rfl
  unfold FirstDecides
  rw [hkeys]
  cases hrest : argv.drop 1 with
  | nil =>
    have := drop_eq_nil_iff.1 hrest
    omega
  | cons first rest =>
    refine ⟨first_not_exempt spec hspec hfirst, first, rfl, fun key hkey => ?_⟩
    rw [take_succ_cons, take_zero, mem_singleton] at hkey
    rw [hkey]

theorem set_is_redirected_by_its_key : keysOf (ascii "set") [ascii "SET", ascii "k", ascii "v"] = [ascii "k"] ∧
  ∀ cm : ClusterManager, cm.clusterEnabled = true →
    (Redirected (inCluster (openContext .zero) cm) baseTable [ascii "SET", ascii "k", ascii "v"] (.start ∅ none) ↔
      ∃ key ∈ keysOf (ascii "set") [ascii "SET", ascii "k", ascii "v"], Foreign cm key) :=
  ⟨by decide +kernel, (redirected_by_keys_iff (openContext .zero) baseTable [ascii "SET", ascii "k", ascii "v"]
    (.start ∅ none) setCmd rfl (cons_ne_nil _ _) rfl rfl).2
    (@firstDecides_of_first ⟨ascii "set", .first⟩ (by decide +kernel) rfl _ (by decide))⟩

/-- A batch of one key. -/
def batch : Argv := [ascii "MSETEX", ascii "1", ascii "k", ascii "v"]

/-- `MSETEX 1 k v` is run here although `k` belongs to another node, and redirected because `1`, taken for a
key, would. -/
theorem number_of_keys_is_taken_for_key : keysOf (ascii "msetex") batch = [ascii "k"] ∧
    (Foreign (elsewhere fun slot => slot = keySlot (ascii "k")) (ascii "k") ∧
      ¬ Redirected (inCluster (openContext .zero) (elsewhere fun slot => slot = keySlot (ascii "k"))) baseTable batch
        (.start ∅ none)) ∧ (¬ Foreign (elsewhere fun slot => slot = keySlot (ascii "1")) (ascii "k") ∧
      Redirected (inCluster (openContext .zero) (elsewhere fun slot => slot = keySlot (ascii "1"))) baseTable batch
        (.start ∅ none)) := by
  have hslots : keySlot (ascii "1") ≠ keySlot (ascii "k") := by decide +kernel
  have hright : ∀ cm : ClusterManager, cm.clusterEnabled = true →
      (Redirected (inCluster (openContext .zero) cm) baseTable batch (.start ∅ none) ↔
        msetexCmd.name ∉ clusterExempt ∧ ∃ first, some (ascii "1") = some first ∧ Foreign cm first) := fun cm hcm =>
    redirected_iff rfl (cons_ne_nil _ _) rfl rfl hcm
  refine ⟨by decide +kernel, ⟨(foreign_elsewhere _ _).2 rfl, ?_⟩, ?_, ?_⟩
  · rw [hright _ rfl]
    rintro ⟨-, first, hfirst, hforeign⟩
    obtain rfl := some.inj hfirst
    rw [foreign_elsewhere] at hforeign
    exact hslots hforeign
  · rw [foreign_elsewhere]
    exact hslots.symm
  · rw [hright _ rfl]
    exact ⟨by decide, ascii "1", rfl, (foreign_elsewhere _ _).2 rfl⟩

end Gopherdis.Cluster

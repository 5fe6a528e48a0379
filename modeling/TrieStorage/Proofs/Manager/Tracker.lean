import Mathlib.Algebra.Group.Action.Defs
import Mathlib.Algebra.Order.BigOperators.Group.List
import Mathlib.Algebra.Order.Group.Nat
import Mathlib.Algebra.Ring.Nat
import TrieStorage.Manager.Tracker

/-!
# Pending hashes

Removing a hash makes that hash no longer pending and leaves all others as they
were.  Settling a root leaves pending what is recorded behind the first commit
under it.  There is only so much to remove, however the hashes are weighed.
-/

namespace TrieStorage

namespace Tracker

theorem shouldCommit_iff {t : Tracker} {hash : NodeHash} :
    t.shouldCommit hash = true ↔ ∃ e ∈ t.entries, hash ∈ e.hashes := by
  simp only [shouldCommit, List.any_eq_true, List.contains_iff_mem]

@[simp] theorem shouldCommit_remove {t : Tracker} {hash h : NodeHash} :
    (t.remove hash).shouldCommit h = true ↔ t.shouldCommit h = true ∧ h ≠ hash := by
  rw [shouldCommit_iff, shouldCommit_iff]
  simp only [remove, List.mem_map]
  constructor
  · rintro ⟨_, ⟨e, he, rfl⟩, mem⟩
    obtain ⟨mem, ne⟩ := List.mem_filter.1 mem
    exact ⟨⟨e, he, mem⟩, by simpa using ne⟩
  · rintro ⟨⟨e, he, mem⟩, ne⟩
    exact ⟨_, ⟨e, he, rfl⟩, List.mem_filter.2 ⟨mem, by simpa using ne⟩⟩

theorem mem_roots {t : Tracker} {root : NodeHash} :
    root ∈ t.roots ↔ ∃ e ∈ t.entries, e.root = root := by
  simp only [roots, List.mem_map]

/-- Whether a hash is recorded behind the first commit under a root, or at all if
there is no such commit. -/
def Survives (t : Tracker) (root hash : NodeHash) : Prop :=
  ∃ before e after, t.entries = before ++ e :: after ∧ hash ∈ e.hashes ∧
    (root ∈ t.roots → ∃ first ∈ before, first.root = root)

theorem afterRoot_cons_self (e : Pending) (entries : List Pending) :
    afterRoot e.root (e :: entries) = entries := by
  simp [afterRoot, List.findIdx?_cons]

theorem afterRoot_cons_of_ne {root : NodeHash} {e : Pending} {entries : List Pending}
    (other : e.root ≠ root) (known : ∃ x ∈ entries, x.root = root) :
    afterRoot root (e :: entries) = afterRoot root entries := by
  have found : (entries.findIdx? fun e => e.root = root).isSome := by
    rw [List.findIdx?_isSome, List.any_eq_true]
    obtain ⟨x, mem, is⟩ := known
    exact ⟨x, mem, decide_eq_true is⟩
  obtain ⟨index, at_⟩ := Option.isSome_iff_exists.1 found
  simp [afterRoot, List.findIdx?_cons, other, at_]

/-- The commits behind the first one under a root. -/
theorem afterRoot_eq {root : NodeHash} {entries : List Pending}
    (known : ∃ e ∈ entries, e.root = root) :
    ∃ front first, entries = front ++ first :: afterRoot root entries ∧ first.root = root ∧
      ∀ e ∈ front, e.root ≠ root := by
  induction entries with
  | nil =>
    obtain ⟨e, mem, -⟩ := known
    cases mem
  | cons e entries ih =>
    by_cases own : e.root = root
    · subst own
      refine ⟨[], e, ?_, rfl, by simp⟩
      rw [afterRoot_cons_self]
      rfl
    · have later : ∃ e ∈ entries, e.root = root := by
        obtain ⟨x, mem, same⟩ := known
        rcases List.mem_cons.1 mem with rfl | mem
        · exact absurd same own
        · exact ⟨x, mem, same⟩
      obtain ⟨front, first, split, same, none⟩ := ih later
      refine ⟨e :: front, first, ?_, same, ?_⟩
      · rw [afterRoot_cons_of_ne own later, List.cons_append, ← split]
      · intro x mem
        rcases List.mem_cons.1 mem with rfl | mem
        · exact own
        · exact none x mem

/-- Settling a root leaves pending what is recorded behind it. -/
theorem shouldCommit_removeCommitted {t : Tracker} {root hash : NodeHash} :
    (t.removeCommitted root).shouldCommit hash = true ↔ t.Survives root hash := by
  rw [shouldCommit_iff]
  by_cases known : ∃ e ∈ t.entries, e.root = root
  · have any : (t.entries.any fun e => e.root = root) = true := by
      simpa only [List.any_eq_true, decide_eq_true_eq] using known
    obtain ⟨front, first, split, same, none⟩ := afterRoot_eq known
    simp only [removeCommitted, any, if_true]
    constructor
    · rintro ⟨e, mem, here⟩
      obtain ⟨before, after, rest⟩ := List.append_of_mem mem
      refine ⟨front ++ first :: before, e, after, ?_, here, fun _ => ⟨first, by simp, same⟩⟩
      rw [split, rest]
      simp
    · rintro ⟨before, e, after, split', here, earlier⟩
      obtain ⟨x, mem, is⟩ := earlier (mem_roots.2 known)
      refine ⟨e, ?_, here⟩
      -- the commits before `e` include one under the root, so they reach past `front`
      rw [split'] at split
      rcases List.append_eq_append_iff.1 split with ⟨more, long, tail⟩ | ⟨more, long, tail⟩
      · rw [long] at none
        exact absurd is (none x (List.mem_append_left more mem))
      · cases more with
        | nil =>
          rw [List.append_nil] at long
          rw [long] at mem
          exact absurd is (none x mem)
        | cons y more =>
          rw [List.cons_append] at tail
          obtain ⟨-, tail⟩ := List.cons.inj tail
          rw [split', tail]
          exact List.mem_append_right more List.mem_cons_self
  · have any : (t.entries.any fun e => e.root = root) = false := by
      rw [List.any_eq_false]
      intro e mem
      simpa using fun same => known ⟨e, mem, same⟩
    simp only [removeCommitted, any, Bool.false_eq_true, if_false]
    constructor
    · rintro ⟨e, mem, here⟩
      obtain ⟨before, after, split⟩ := List.append_of_mem mem
      exact ⟨before, e, after, split, here, fun recorded => absurd (mem_roots.1 recorded) known⟩
    · rintro ⟨before, e, after, split, here, -⟩
      exact ⟨e, by rw [split]; simp, here⟩

theorem Survives.shouldCommit {t : Tracker} {root hash : NodeHash} (h : t.Survives root hash) :
    t.shouldCommit hash = true := by
  obtain ⟨before, e, after, split, here, -⟩ := h
  exact shouldCommit_iff.2 ⟨e, by rw [split]; simp, here⟩

/-- Recording a commit makes its hashes pending, unless the commit is ignored. -/
theorem shouldCommit_put {t : Tracker} {root hash : NodeHash} {hashes : List NodeHash} :
    (t.put root hashes).2.shouldCommit hash = true ↔
      t.shouldCommit hash = true ∨ t.lastRoot? ≠ some root ∧ hash ∈ hashes := by
  unfold put
  by_cases last : t.lastRoot? = some root
  · simp [last]
  · rw [if_neg last, shouldCommit_iff, shouldCommit_iff]
    simp only [List.mem_append, List.mem_singleton, or_and_right, exists_or, exists_eq_left,
      List.mem_eraseDups, last, ne_eq, not_false_eq_true, true_and]

/-- What the pending hashes weigh together, those of each commit on their own. -/
def weight (weigh : NodeHash → Nat) (t : Tracker) : Nat :=
  (t.entries.map fun e => (e.hashes.map weigh).sum).sum

section

variable (weigh : NodeHash → Nat) {hash : NodeHash}

theorem sum_filter_le (hashes : List NodeHash) :
    ((hashes.filter fun h => h ≠ hash).map weigh).sum ≤ (hashes.map weigh).sum :=
  (List.filter_sublist.map weigh).sum_le_sum fun _ _ => Nat.zero_le _

/-- Taking a hash out of a list takes at least its weight. -/
theorem sum_filter_add_le {hashes : List NodeHash} (mem : hash ∈ hashes) :
    ((hashes.filter fun h => h ≠ hash).map weigh).sum + weigh hash ≤ (hashes.map weigh).sum := by
  induction hashes with
  | nil => cases mem
  | cons x rest ih =>
    rw [List.map_cons, List.sum_cons]
    by_cases own : x = hash
    · subst own
      have : ((rest.filter fun h => h ≠ x).map weigh).sum ≤ (rest.map weigh).sum :=
        sum_filter_le weigh rest
      rw [List.filter_cons_of_neg (by simp)]
      omega
    · have := ih ((List.mem_cons.1 mem).resolve_left (Ne.symm own))
      rw [List.filter_cons_of_pos (by simpa using own), List.map_cons, List.sum_cons]
      omega

/-- Removing a pending hash takes at least its weight. -/
theorem weight_remove {t : Tracker} (h : t.shouldCommit hash = true) :
    (t.remove hash).weight weigh + weigh hash ≤ t.weight weigh := by
  obtain ⟨e, he, mem⟩ := shouldCommit_iff.1 h
  obtain ⟨before, after, same⟩ := List.append_of_mem he
  have own := sum_filter_add_le weigh mem
  have others (es : List Pending) :
      (es.map fun e => ((e.hashes.filter fun h => h ≠ hash).map weigh).sum).sum ≤
        (es.map fun e => (e.hashes.map weigh).sum).sum :=
    List.sum_le_sum fun e _ => sum_filter_le weigh e.hashes
  have := others before
  have := others after
  simp only [weight, remove, same, List.map_append, List.map_cons, List.sum_append, List.sum_cons,
    List.map_map, Function.comp_def]
  omega

end

/-- How many hashes the commits still have. -/
def load (t : Tracker) : Nat := (t.entries.map fun e => e.hashes.length).sum

/-- Removing a pending hash leaves fewer. -/
theorem load_remove_lt {t : Tracker} {hash : NodeHash} (h : t.shouldCommit hash = true) :
    (t.remove hash).load < t.load := by
  have each (t : Tracker) : t.load = t.weight fun _ => 1 := by
    simp only [load, weight, List.map_const', List.sum_replicate, smul_eq_mul, Nat.mul_one]
  rw [each, each]
  exact weight_remove (fun _ => 1) h

end Tracker

end TrieStorage

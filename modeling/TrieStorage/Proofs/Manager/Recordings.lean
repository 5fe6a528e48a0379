import Mathlib.Data.List.Chain
import Mathlib.Data.List.Nodup
import TrieStorage.Proofs.Manager.Tracker

/-!
# What a tracker accounts for

The size of a tracker is carried along while commits are recorded and hashes are removed, and
counted anew when a root is settled.  In either case it is what the commits are charged, so
there is always enough of it to take a removed hash from.  What is pending is told by all that
has ever been recorded, with a mark on what has become of it: `recordings` forgets nothing.

* `Exact.after` says what a single call keeps, `Reflects.after` what it does to the marks.
* `exact_run` says both of all sequences of calls.
-/

namespace TrieStorage

namespace Tracker

/-- What is asked of a tracker. -/
inductive Call where
  | put (root : NodeHash) (hashes : List NodeHash)
  | remove (hash : NodeHash)
  | removeCommitted (root : NodeHash)
  | shouldCommit (hash : NodeHash)
  deriving DecidableEq, Repr

/-- The tracker after a call, whatever is answered. -/
def after (t : Tracker) : Call → Tracker
  | .put root hashes => (t.put root hashes).2
  | .remove hash => t.remove hash
  | .removeCommitted root => t.removeCommitted root
  | .shouldCommit _ => t

/-- The tracker after a sequence of calls. -/
def run (t : Tracker) (calls : List Call) : Tracker := calls.foldl after t

/-! ## Sizes -/

/-- The size is what the commits are charged, each of which has a hash at most once, and no
two commits in a row are under one root. -/
structure Exact (t : Tracker) : Prop where
  size : t.size = total t.entries
  distinct : ∀ e ∈ t.entries, e.hashes.Nodup
  apart : t.roots.IsChain (· ≠ ·)

theorem total_eq_sum (entries : List Pending) :
    total entries = (entries.map fun e => 32 + 32 * e.hashes.length).sum := by
  induction entries with
  | nil => rfl
  | cons e rest ih =>
    rw [total, ih, List.map_cons, List.sum_cons, entrySize, hashWidth, Nat.mul_comm]

theorem total_concat (entries : List Pending) (e : Pending) :
    total (entries ++ [e]) = total entries + entrySize e := by
  rw [total_eq_sum, total_eq_sum, List.map_append, List.sum_append, List.map_singleton,
    List.sum_singleton, entrySize, hashWidth, Nat.mul_comm]

theorem nodup_eraseDups (hashes : List NodeHash) : hashes.eraseDups.Nodup := by
  induction few : hashes.length using Nat.strong_induction_on generalizing hashes with
  | _ n ih =>
    cases hashes with
    | nil => exact List.nodup_nil
    | cons h rest =>
      rw [List.eraseDups_cons, List.nodup_cons]
      have shorter := List.length_filter_le (fun b => !b == h) rest
      rw [List.length_cons] at few
      exact ⟨by simp, ih _ (by omega) _ rfl⟩

/-- A list without duplicates has one element less if one of them is taken out. -/
theorem length_filter_ne {hashes : List NodeHash} (distinct : hashes.Nodup) (hash : NodeHash) :
    (hashes.filter fun h => h ≠ hash).length + (if hashes.contains hash then 1 else 0) =
      hashes.length := by
  induction hashes with
  | nil => rfl
  | cons h rest ih =>
    obtain ⟨fresh, distinct⟩ := List.nodup_cons.1 distinct
    have := ih distinct
    by_cases own : h = hash
    · subst own
      simp_all
    · simp_all [Ne.symm own]
      omega

/-- What a hash is charged in the commits that have it is part of what they are charged. -/
theorem total_filter_ne {entries : List Pending} (distinct : ∀ e ∈ entries, e.hashes.Nodup)
    (hash : NodeHash) :
    total (entries.map fun e => { e with hashes := e.hashes.filter fun h => h ≠ hash }) +
      (entries.countP fun e => e.hashes.contains hash) * hashWidth = total entries := by
  induction entries with
  | nil => rfl
  | cons e rest ih =>
    obtain ⟨own, distinct⟩ := List.forall_mem_cons.1 distinct
    have shorter := length_filter_ne own hash
    have := ih distinct
    rw [List.map_cons, total, total, List.countP_cons, Nat.add_mul]
    simp only [entrySize, ← shorter, Nat.add_mul]
    omega

theorem afterRoot_suffix (root : NodeHash) (entries : List Pending) :
    afterRoot root entries <:+ entries := by
  unfold afterRoot
  split
  · exact List.suffix_rfl
  · exact List.drop_suffix _ entries

/-! ## What each call keeps -/

namespace Exact

variable {t : Tracker}

theorem start (budget : Nat) : Exact { budget } := ⟨rfl, by simp, .nil⟩

/-- There is enough of the size to take a removed hash from. -/
theorem size_remove (h : t.Exact) (hash : NodeHash) :
    (t.remove hash).size + (t.entries.countP fun e => e.hashes.contains hash) * hashWidth =
      t.size := by
  have part := total_filter_ne h.distinct hash
  unfold remove
  dsimp only
  rw [h.size]
  omega

theorem put (h : t.Exact) (root : NodeHash) (hashes : List NodeHash) :
    (t.put root hashes).2.Exact := by
  unfold Tracker.put
  split
  · exact h
  · next other =>
    refine ⟨?_, fun e mem => ?_, ?_⟩
    · dsimp only
      rw [total_concat, h.size]
    · rcases List.mem_append.1 mem with old | new
      · exact h.distinct e old
      · rw [List.mem_singleton.1 new]
        exact nodup_eraseDups hashes
    · unfold roots
      rw [List.map_append, List.map_singleton]
      refine h.apart.append (.singleton root) fun last mem root' own => ?_
      obtain rfl : root = root' := by simpa using own
      rintro rfl
      rw [roots, List.getLast?_map] at mem
      exact other mem

theorem remove (h : t.Exact) (hash : NodeHash) : (t.remove hash).Exact := by
  refine ⟨?_, fun e mem => ?_, ?_⟩
  · have := h.size_remove hash
    have := total_filter_ne h.distinct hash
    have := h.size
    unfold Tracker.remove
    dsimp only
    omega
  · obtain ⟨e, old, rfl⟩ := List.mem_map.1 mem
    exact (h.distinct e old).filter _
  · have same : (t.remove hash).roots = t.roots := by
      simp [roots, Tracker.remove]
    rw [same]
    exact h.apart

theorem removeCommitted (h : t.Exact) (root : NodeHash) : (t.removeCommitted root).Exact := by
  unfold Tracker.removeCommitted
  split
  · refine ⟨rfl, fun e mem => ?_, ?_⟩
    · exact h.distinct e ((afterRoot_suffix root t.entries).subset mem)
    · exact h.apart.suffix ((afterRoot_suffix root t.entries).map Pending.root)
  · exact h

theorem after (h : t.Exact) (call : Call) : (t.after call).Exact := by
  cases call with
  | put root hashes => exact h.put root hashes
  | remove hash => exact h.remove hash
  | removeCommitted root => exact h.removeCommitted root
  | shouldCommit _ => exact h

end Exact

/-! ## What has been recorded -/

/-- A commit that was recorded, and what has become of it. -/
structure Recorded where
  root : NodeHash
  hashes : List NodeHash
  /-- Whether it has been dropped together with a settled root. -/
  dropped : Bool := false
  /-- The hashes removed since. -/
  removed : List NodeHash := []
  deriving DecidableEq, Repr

namespace Recorded

/-- What is left of it for the tracker. -/
def pending? (r : Recorded) : Option Pending :=
  if r.dropped then none else some ⟨r.root, r.hashes.eraseDups.filter fun h => h ∉ r.removed⟩

/-- Drops all up to the first that is under a root and has not been dropped. -/
def dropTo (root : NodeHash) : List Recorded → List Recorded
  | [] => []
  | r :: rest =>
    { r with dropped := true } ::
      (if r.dropped = false ∧ r.root = root then rest else dropTo root rest)

/-- Notes what a call does to the commits recorded so far.  A commit under the root of the last
one that has not been dropped is not recorded. -/
def note (rs : List Recorded) : Call → List Recorded
  | .put root hashes =>
    if ((rs.filter fun r => !r.dropped).getLast?.map Recorded.root) = some root then rs
    else rs ++ [{ root, hashes }]
  | .remove hash => rs.map fun r => { r with removed := hash :: r.removed }
  | .removeCommitted root =>
    if rs.any fun r => !r.dropped && r.root = root then dropTo root rs else rs
  | .shouldCommit _ => rs

end Recorded

/-- All commits that a sequence of calls has recorded, oldest first. -/
def recordings (calls : List Call) : List Recorded := calls.foldl Recorded.note []

/-- The tracker has what is left of the commits recorded. -/
def Reflects (t : Tracker) (rs : List Recorded) : Prop :=
  t.entries = rs.filterMap Recorded.pending?

namespace Recorded

variable {root : NodeHash} {rs : List Recorded}

theorem map_root_pending (rs : List Recorded) :
    (rs.filterMap pending?).map Pending.root =
      (rs.filter fun r => !r.dropped).map Recorded.root := by
  induction rs with
  | nil => rfl
  | cons r rest ih => cases gone : r.dropped <;> simp [pending?, gone, ih]

theorem any_pending (rs : List Recorded) (root : NodeHash) :
    ((rs.filterMap pending?).any fun e => e.root = root) =
      rs.any fun r => !r.dropped && r.root = root := by
  induction rs with
  | nil => rfl
  | cons r rest ih => cases gone : r.dropped <;> simp [pending?, gone, ih]

theorem pending_remove (rs : List Recorded) (hash : NodeHash) :
    (rs.map fun r => { r with removed := hash :: r.removed }).filterMap pending? =
      (rs.filterMap pending?).map fun e =>
        { e with hashes := e.hashes.filter fun h => h ≠ hash } := by
  induction rs with
  | nil => rfl
  | cons r rest ih =>
    cases gone : r.dropped <;> simp [pending?, gone, ih, List.filter_filter]

theorem pending_dropTo (known : (rs.any fun r => !r.dropped && r.root = root) = true) :
    (dropTo root rs).filterMap pending? = afterRoot root (rs.filterMap pending?) := by
  induction rs with
  | nil => cases known
  | cons r rest ih =>
    have front : pending? { r with dropped := true } = none := rfl
    rw [dropTo, List.filterMap_cons_none front]
    cases gone : r.dropped with
    | true =>
      have skipped : pending? r = none := by simp [pending?, gone]
      rw [List.filterMap_cons_none skipped, if_neg (by simp)]
      exact ih (by simpa [gone] using known)
    | false =>
      obtain ⟨e, left, same⟩ : ∃ e, pending? r = some e ∧ e.root = r.root := by
        simp [pending?, gone]
      rw [List.filterMap_cons_some left]
      by_cases own : r.root = root
      · subst own
        rw [if_pos ⟨rfl, rfl⟩, ← same, afterRoot_cons_self]
      · have later : (rest.any fun r => !r.dropped && r.root = root) = true := by
          simpa [gone, own] using known
        rw [if_neg (by simp [own]), ih later, afterRoot_cons_of_ne (by rwa [same])]
        rw [← any_pending] at later
        simpa only [List.any_eq_true, decide_eq_true_eq] using later

end Recorded

/-! ## What each call does to the marks -/

namespace Reflects

variable {t : Tracker} {rs : List Recorded}

theorem start (budget : Nat) : Reflects { budget } [] := rfl

theorem lastRoot? (h : t.Reflects rs) :
    t.lastRoot? = (rs.filter fun r => !r.dropped).getLast?.map Recorded.root := by
  rw [Tracker.lastRoot?, ← List.getLast?_map, h, Recorded.map_root_pending, List.getLast?_map]

theorem after (h : t.Reflects rs) (call : Call) :
    (t.after call).Reflects (Recorded.note rs call) := by
  cases call with
  | put root hashes =>
    simp only [Tracker.after, Tracker.put, Recorded.note, h.lastRoot?]
    split
    · exact h
    · rw [Reflects, List.filterMap_append, ← h]
      simp [Recorded.pending?]
  | remove hash => rw [Reflects, Recorded.note, Recorded.pending_remove, ← h]; rfl
  | removeCommitted root =>
    have known : (t.entries.any fun e => e.root = root) =
        rs.any fun r => !r.dropped && r.root = root := by
      rw [h, Recorded.any_pending]
    unfold Tracker.after Tracker.removeCommitted Recorded.note
    dsimp only
    rw [known]
    split
    · next there =>
      rw [Reflects, Recorded.pending_dropTo there, ← h]
    · exact h
  | shouldCommit _ => exact h

theorem shouldCommit_iff (h : t.Reflects rs) (hash : NodeHash) : t.shouldCommit hash = true ↔
    ∃ r ∈ rs, r.dropped = false ∧ hash ∈ r.hashes ∧ hash ∉ r.removed := by
  have left (r : Recorded) : (∃ e, r.pending? = some e ∧ hash ∈ e.hashes) ↔
      r.dropped = false ∧ hash ∈ r.hashes ∧ hash ∉ r.removed := by
    cases gone : r.dropped <;> simp [Recorded.pending?, gone]
  rw [Tracker.shouldCommit_iff, h]
  simp only [List.mem_filterMap, ← left]
  constructor
  · rintro ⟨e, ⟨r, mem, rest⟩, here⟩
    exact ⟨r, mem, e, rest, here⟩
  · rintro ⟨r, mem, e, rest, here⟩
    exact ⟨e, ⟨r, mem, rest⟩, here⟩

end Reflects

/-! ## What all calls together keep -/

theorem run_concat (t : Tracker) (calls : List Call) (call : Call) :
    t.run (calls ++ [call]) = (t.run calls).after call := by
  rw [run, List.foldl_append]
  rfl

theorem recordings_concat (calls : List Call) (call : Call) :
    recordings (calls ++ [call]) = Recorded.note (recordings calls) call := by
  rw [recordings, List.foldl_append]
  rfl

theorem budget_after (t : Tracker) (call : Call) : (t.after call).budget = t.budget := by
  cases call with
  | put root hashes =>
    unfold after put
    dsimp only
    split <;> rfl
  | removeCommitted root =>
    unfold after removeCommitted
    dsimp only
    split <;> rfl
  | remove _ | shouldCommit _ => rfl

theorem exact_run (budget : Nat) (calls : List Call) :
    (run { budget } calls).Exact ∧ (run { budget } calls).budget = budget ∧
      (run { budget } calls).Reflects (recordings calls) := by
  induction calls using List.reverseRecOn with
  | nil => exact ⟨.start budget, rfl, .start budget⟩
  | append_singleton calls call ih =>
    obtain ⟨exact_, kept, reflects⟩ := ih
    rw [run_concat, recordings_concat]
    exact ⟨exact_.after call, (budget_after _ call).trans kept, reflects.after call⟩

theorem fst_put_iff (t : Tracker) (root : NodeHash) (hashes : List NodeHash) :
    (t.put root hashes).1 = true ↔
      (t.put root hashes).2.entries = t.entries ++ [⟨root, hashes.eraseDups⟩] ∧
        t.budget < (t.put root hashes).2.size := by
  unfold put
  split <;> simp

/-- After every sequence of calls, whatever the budget: the size is what the commits are charged
for themselves and for each of their hashes, so removing a hash never takes more than there is;
no two commits in a row are under one root; a commit asks for a checkpoint if, and only if, it is
recorded and the size is then above the budget; and a hash is pending if, and only if, a commit
that has been recorded has it, was not dropped, and the hash has not been removed since. -/
theorem run_accounts (budget : Nat) (calls : List Call) :
    let t := run { budget } calls
    t.size = (t.entries.map fun e => 32 + 32 * e.hashes.length).sum ∧
    (∀ e ∈ t.entries, e.hashes.Nodup) ∧
    (∀ hash, (t.entries.countP fun e => e.hashes.contains hash) * hashWidth ≤ t.size) ∧
    t.roots.IsChain (· ≠ ·) ∧
    (∀ root hashes, (t.put root hashes).1 = true ↔
      (t.put root hashes).2.entries = t.entries ++ [⟨root, hashes.eraseDups⟩] ∧
        budget < (t.put root hashes).2.size) ∧
    ∀ hash, t.shouldCommit hash = true ↔
      ∃ r ∈ recordings calls, r.dropped = false ∧ hash ∈ r.hashes ∧ hash ∉ r.removed := by
  obtain ⟨exact_, kept, reflects⟩ := exact_run budget calls
  refine ⟨exact_.size.trans (total_eq_sum _), exact_.distinct, fun hash => ?_, exact_.apart,
    fun root hashes => ?_, reflects.shouldCommit_iff⟩
  · have := exact_.size_remove hash
    omega
  · rw [fst_put_iff, kept]

end Tracker

end TrieStorage

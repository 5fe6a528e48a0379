import TrieStorage.Proofs.Manager.Recordings

/-!
# Roots that come back

A trie may return to an earlier state, so one root may be recorded several times with other roots
in between.  Settling it drops the commits up to the first of these that is still pending, and no
more.  So the root is done with, and everything recorded up to its latest commit, exactly if no
more than one commit under it was pending.

* `count_removeCommitted` says what settling does to the commits under the root.
* `Sequential.note` says that what has been dropped was recorded before what has not.
-/

namespace TrieStorage

namespace Tracker

/-- Settling a root takes away one of the commits under it. -/
theorem count_removeCommitted (t : Tracker) (root : NodeHash) :
    (t.removeCommitted root).roots.count root = t.roots.count root - 1 := by
  unfold removeCommitted roots
  split
  · next there =>
    obtain ⟨front, first, split_, own, others⟩ :=
      afterRoot_eq (by simpa only [List.any_eq_true, decide_eq_true_eq] using there)
    have none_ : (front.map Pending.root).count root = 0 := by
      refine List.count_eq_zero.2 fun mem => ?_
      obtain ⟨e, here, is⟩ := List.mem_map.1 mem
      exact others e here is
    have all : (t.entries.map Pending.root).count root =
        ((afterRoot root t.entries).map Pending.root).count root + 1 := by
      rw [split_, List.map_append, List.map_cons, List.count_append, none_, own,
        List.count_cons_self, Nat.zero_add, ← split_]
    rw [all, Nat.add_sub_cancel]
  · next absent =>
    have none_ : (t.entries.map Pending.root).count root = 0 := by
      refine List.count_eq_zero.2 fun mem => absent ?_
      obtain ⟨e, here, is⟩ := List.mem_map.1 mem
      exact List.any_eq_true.2 ⟨e, here, decide_eq_true is⟩
    rw [none_]

namespace Recorded

/-- What has been dropped was recorded before what has not. -/
def Sequential (rs : List Recorded) : Prop :=
  rs.Pairwise fun r later => later.dropped = true → r.dropped = true

/-- Whether a hash was recorded no later than a commit under a root, each time it was. -/
def Covered (rs : List Recorded) (root hash : NodeHash) : Prop :=
  ∃ before last behind, rs = before ++ last :: behind ∧ last.root = root ∧
    ∀ r ∈ behind, hash ∉ r.hashes

variable {rs : List Recorded}

theorem sequential_dropTo (h : Sequential rs) (root : NodeHash) :
    Sequential (dropTo root rs) := by
  induction rs with
  | nil => exact .nil
  | cons r rest ih =>
    obtain ⟨-, later⟩ := List.pairwise_cons.1 h
    rw [dropTo]
    refine List.pairwise_cons.2 ⟨fun _ _ _ => rfl, ?_⟩
    split
    · exact later
    · exact ih later

theorem Sequential.note (h : Sequential rs) (call : Call) : Sequential (Recorded.note rs call) := by
  cases call with
  | put root hashes =>
    unfold Recorded.note
    dsimp only
    split
    · exact h
    · refine List.pairwise_append.2 ⟨h, List.pairwise_singleton .., fun r _ new mem gone => ?_⟩
      rw [List.mem_singleton.1 mem] at gone
      cases gone
  | remove hash => exact List.pairwise_map.2 h
  | removeCommitted root =>
    unfold Recorded.note
    dsimp only
    split
    · exact sequential_dropTo h root
    · exact h
  | shouldCommit _ => exact h

end Recorded

theorem sequential_recordings (calls : List Call) : Recorded.Sequential (recordings calls) := by
  induction calls using List.reverseRecOn with
  | nil => exact .nil
  | append_singleton calls call ih =>
    rw [recordings_concat]
    exact ih.note call

/-- Where no commit is pending under a root, nothing is that was recorded no later than one. -/
theorem Reflects.not_pending {t : Tracker} {rs : List Recorded} {root hash : NodeHash}
    (h : t.Reflects rs) (sequential : Recorded.Sequential rs) (none_ : root ∉ t.roots)
    (covered : Recorded.Covered rs root hash) : t.shouldCommit hash = false := by
  obtain ⟨before, last, behind, rfl, own, fresh⟩ := covered
  have gone : last.dropped = true := by
    by_contra pending
    refine none_ ?_
    rw [roots, h, Recorded.map_root_pending, ← own]
    exact List.mem_map_of_mem (List.mem_filter.2 ⟨by simp, by simpa using pending⟩)
  have earlier := (List.pairwise_append.1 sequential).2.2
  rw [← Bool.not_eq_true, h.shouldCommit_iff]
  rintro ⟨r, mem, pending, here, -⟩
  have dropped : r.dropped = true := by
    rcases List.mem_append.1 mem with mem | mem
    · exact earlier r mem last List.mem_cons_self gone
    · rcases List.mem_cons.1 mem with rfl | mem
      · exact gone
      · exact absurd here (fresh r mem)
  rw [pending] at dropped
  cases dropped

/-- After every history that ends with settling a root, with the root recorded any number of times
before: no commit under the root is pending, and no hash that was never recorded later than the
root, exactly if at most one commit under the root was pending when it was settled. -/
theorem settles_all_iff (budget : Nat) (calls : List Call) (root : NodeHash) :
    let history := calls ++ [.removeCommitted root]
    let t := run { budget } history
    (root ∉ t.roots ∧
        ∀ hash, Recorded.Covered (recordings history) root hash → t.shouldCommit hash = false) ↔
      (run { budget } calls).roots.count root ≤ 1 := by
  intro history t
  have same : t = (run { budget } calls).removeCommitted root := run_concat _ calls _
  have left := count_removeCommitted (run { budget } calls) root
  rw [← same] at left
  constructor
  · rintro ⟨none_, -⟩
    have := List.count_eq_zero.2 none_
    omega
  · intro once
    have none_ : root ∉ t.roots := List.count_eq_zero.1 (by omega)
    obtain ⟨-, -, reflects⟩ := exact_run budget history
    exact ⟨none_, fun hash => reflects.not_pending (sequential_recordings history) none_⟩

/-- The hash that is one byte over and over. -/
def evenHash (byte : UInt8) : NodeHash := ⟨List.replicate 32 byte, List.length_replicate⟩

/-- A trie that goes from one state to another and back. -/
def thereAndBack : List Call :=
  [.put (evenHash 1) [evenHash 3], .put (evenHash 2) [evenHash 4],
    .put (evenHash 1) [evenHash 5], .removeCommitted (evenHash 1)]

/-- Its first state is settled, and yet there is a commit under it, and the hashes of that and of
the one before are pending. -/
theorem thereAndBack_leaves :
    let t := run { budget := 1000 } thereAndBack
    evenHash 1 ∈ t.roots ∧ Recorded.Covered (recordings thereAndBack) (evenHash 1) (evenHash 4) ∧
      t.shouldCommit (evenHash 4) = true := by
  refine ⟨by decide, ⟨(recordings thereAndBack).take 2, _, [], rfl, rfl, ?_⟩, by decide⟩
  simp

end Tracker

end TrieStorage

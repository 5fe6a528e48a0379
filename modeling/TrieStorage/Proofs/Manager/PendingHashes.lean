import TrieStorage.Proofs.Manager.Actions
import TrieStorage.Proofs.Manager.Moves
import TrieStorage.Proofs.Manager.Tracker
import TrieStorage.Proofs.Walk.Checkpoint

/-!
# What becomes of a pending hash

A hash becomes pending when a commit records it, and stops being pending in
three ways only: it is removed, a checkpoint copies it, or a snapshot of some
root is submitted and the hash is not recorded behind that root.  The last one
happens at the submission, before anything is known about the snapshot, so how
the snapshot ends makes no difference.

* `step?_pending` says this of one step, `run?_pending` and `run?_settled` of a run.
* `submitted_snapshot_pending` says which pending hashes a snapshot lets go of.
-/

namespace TrieStorage

/-! ## The tracker of the vault -/

namespace Vault

theorem tracker_target (v : Vault) (kind : RequestKind) : (v.target kind).2.tracker = v.tracker := by
  cases kind <;> simp only [target, snapshotStore, checkpointStore]
  all_goals cases v.growth? <;> rfl

theorem tracker_confirmEpoch (v : Vault) (closed : Bool) (epoch : Epoch) :
    (v.confirmEpoch closed epoch).tracker = v.tracker :=
  confirmEpoch_induction (P := fun v' => v'.tracker = v.tracker) rfl (fun _ => id) (fun _ => id)
    (fun _ => id) closed epoch

theorem tracker_deliveries (closed : Bool) (deliveries : List (Unit × Epoch)) (v : Vault) :
    (deliveries.foldl (fun v d => v.confirmEpoch closed d.2) v).tracker = v.tracker :=
  deliveries_induction (P := fun v' => v'.tracker = v.tracker) rfl
    (fun v' epoch same => (v'.tracker_confirmEpoch closed epoch).trans same) deliveries

end Vault

namespace Manager

/-! ## Steps -/

/-- The steps after which a hash is not pending. -/
inductive Clears (m : Manager) (hash : NodeHash) : Event → Prop where
  | removed : Clears m hash (.action (.remove hash))
  /-- A snapshot is submitted, and the hash is not recorded behind its root. -/
  | settled {root : NodeHash} {sink : Option LeafSink} (opened : m.closed = false)
      (full : root.isEmptyTrie = false) (gone : ¬ m.vault.tracker.Survives root hash) :
      Clears m hash (.action (.submit .snapshot root sink))
  /-- A checkpoint copies the node. -/
  | checkpointed {id : RequestId} {w : Walk} {target : LayerId} {rest : List NodeHash}
      {encoded : Bytes} {node : Node} {v : Vault} (found : m.walk? id = some w)
      (kind : w.request.kind = .checkpoint) (phase : w.phase = .visiting target (hash :: rest))
      (opened : m.closed = false) (read : Walk.readNode m.vault hash = .ok (encoded, node))
      (written : m.vault.putInto target hash.bytes encoded = (.ok (), v)) :
      Clears m hash (.move (.visit id))

/-- The steps after which a hash is pending, whether it was before or not: the
commits that are not ignored. -/
inductive Records (m : Manager) (hash : NodeHash) : Event → Prop where
  | dirty {root : NodeHash} {hashes : List NodeHash} (mem : hash ∈ hashes)
      (other : m.vault.tracker.lastRoot? ≠ some root) :
      Records m hash (.action (.addDirty root hashes))

variable {m m' n : Manager} {hash : NodeHash}

theorem visit_pending {w : Walk} {target : LayerId} {stack : List NodeHash}
    (found : m.walk? w.request.id = some w) (phase : w.phase = .visiting target stack) :
    (w.visit m.closed m.vault target stack).2.tracker.shouldCommit hash = true ↔
      m.shouldCommit hash = true ∧ ¬ m.Clears hash (.move (.visit w.request.id)) := by
  have top : m.Clears hash (.move (.visit w.request.id)) →
      w.request.kind = .checkpoint ∧ m.closed = false ∧ ∃ rest encoded node v,
        stack = hash :: rest ∧ Walk.readNode m.vault hash = .ok (encoded, node) ∧
          m.vault.putInto target hash.bytes encoded = (.ok (), v) := by
    intro clears
    cases clears with
    | checkpointed found' kind phase' opened read written =>
      cases found.symm.trans found'
      cases phase.symm.trans phase'
      exact ⟨kind, opened, _, _, _, _, rfl, read, written⟩
  have unchanged {v : Vault} (same : v.tracker = m.vault.tracker)
      (spared : ¬ m.Clears hash (.move (.visit w.request.id))) :
      v.tracker.shouldCommit hash = true ↔
        m.shouldCommit hash = true ∧ ¬ m.Clears hash (.move (.visit w.request.id)) := by
    rw [same]
    exact ⟨fun pending => ⟨pending, spared⟩, And.left⟩
  have done := Walk.visited m.closed w m.vault target stack
  generalize w.visit m.closed m.vault target stack = s at done ⊢
  obtain ⟨w', v'⟩ := s
  cases done with
  | through =>
    refine unchanged rfl fun clears => ?_
    obtain ⟨-, -, _, _, _, _, stack, -, -⟩ := top clears
    cases stack
  | cancelled shut =>
    refine unchanged rfl fun clears => ?_
    obtain ⟨-, opened, -⟩ := top clears
    cases opened.symm.trans shut
  | passed _ skipped =>
    constructor
    · intro pending
      refine ⟨pending, fun clears => ?_⟩
      -- what is passed over is not pending
      obtain ⟨-, -, _, _, _, _, stack, -, -⟩ := top clears
      cases stack
      simp only [Walk.skips, pending, Bool.not_true, Bool.and_false, Bool.false_eq_true] at skipped
    · exact And.left
  | unread _ due read =>
    refine unchanged rfl fun clears => ?_
    obtain ⟨-, -, _, _, _, _, stack, read', -⟩ := top clears
    cases stack
    cases read.symm.trans read'
  | unwritten _ due read written =>
    refine unchanged (Walk.tracker_of_putInto written) fun clears => ?_
    obtain ⟨-, -, _, _, _, _, stack, read', written'⟩ := top clears
    cases stack
    cases read.symm.trans read'
    cases written.symm.trans written'
  | @copied copied rest encoded node v₁ opened due read written =>
    have tracker := Walk.tracker_of_putInto written
    cases kind : w.request.kind with
    | snapshot =>
      refine unchanged tracker fun clears => ?_
      obtain ⟨checkpoint, -⟩ := top clears
      cases kind.symm.trans checkpoint
    | checkpoint =>
      simp only [tracker]
      rw [Tracker.shouldCommit_remove]
      refine and_congr_right fun pending => not_congr ⟨?_, ?_⟩
      · rintro rfl
        exact .checkpointed found kind phase opened read written
      · intro clears
        obtain ⟨-, -, _, _, _, _, stack, -, -⟩ := top clears
        cases stack
        rfl

theorem move_pending {mv : Move} (h : m.move? mv = some m') :
    m'.shouldCommit hash = true ↔ m.shouldCommit hash = true ∧ ¬ m.Clears hash (.move mv) := by
  by_cases visits : ∃ id, mv = .visit id
  · obtain ⟨id, rfl⟩ := visits
    obtain ⟨w, target, stack, found, phase, rfl⟩ := visit?_eq_some h
    obtain ⟨-, rfl⟩ := walk?_eq_some found
    exact visit_pending found phase
  · have spared : ¬ m.Clears hash (.move mv) := by
      intro clears
      cases clears
      exact visits ⟨_, rfl⟩
    have tracker : m'.vault.tracker = m.vault.tracker := by
      by_cases begins : ∃ id, mv = .begin id
      · obtain ⟨id, rfl⟩ := begins
        obtain ⟨w, -, -, rfl⟩ := begin?_eq_some h
        change (w.start m.vault).2.tracker = _
        rw [(Walk.start_cases w m.vault).1, Vault.tracker_target]
      · rw [vault_move? h (fun id is => begins ⟨id, is⟩) fun id is => visits ⟨id, is⟩]
    simp only [shouldCommit, tracker, spared, not_false_eq_true, and_true]

theorem submit_pending (m : Manager) (kind : RequestKind) (root : NodeHash)
    (sink : Option LeafSink) :
    (m.act (.submit kind root sink)).shouldCommit hash = true ↔
      m.shouldCommit hash = true ∧ ¬ m.Clears hash (.action (.submit kind root sink)) := by
  obtain ⟨ends, same⟩ | ⟨⟨opened, full⟩, same⟩ := act_submit m kind root sink
  · have spared : ¬ m.Clears hash (.action (.submit kind root sink)) := by
      intro clears
      cases clears with
      | settled opened full gone => simp [opened, full] at ends
    simp only [same, shouldCommit, spared, not_false_eq_true, and_true]
  · rw [same]
    cases kind with
    | checkpoint =>
      have spared : ¬ m.Clears hash (.action (.submit .checkpoint root sink)) := by rintro ⟨⟩
      simp only [shouldCommit, trackerOnSubmit, spared, not_false_eq_true, and_true]
    | snapshot =>
      simp only [shouldCommit, trackerOnSubmit]
      rw [Tracker.shouldCommit_removeCommitted]
      constructor
      · intro survives
        refine ⟨survives.shouldCommit, ?_⟩
        intro clears
        cases clears with
        | settled _ _ gone => exact gone survives
      · rintro ⟨-, spared⟩
        by_contra gone
        exact spared (.settled opened full gone)

/-- What a step makes of a pending hash. -/
theorem step?_pending {e : Event} (h : m.step? e = some m') :
    m'.shouldCommit hash = true ↔
      m.shouldCommit hash = true ∧ ¬ m.Clears hash e ∨ m.Records hash e := by
  cases e with
  | move mv =>
    have unrecorded : ¬ m.Records hash (.move mv) := by rintro ⟨⟩
    rw [move_pending h]
    simp only [unrecorded, or_false]
  | action a =>
    cases h
    -- every other action leaves the tracker alone
    have aside (same : (m.act a).vault.tracker = m.vault.tracker)
        (spared : ¬ m.Clears hash (.action a)) (unrecorded : ¬ m.Records hash (.action a)) :
        (m.act a).shouldCommit hash = true ↔
          m.shouldCommit hash = true ∧ ¬ m.Clears hash (.action a) ∨
            m.Records hash (.action a) := by
      simp only [shouldCommit, same, spared, unrecorded, not_false_eq_true, and_true, or_false]
    cases a with
    | submit kind root sink =>
      have unrecorded : ¬ m.Records hash (.action (.submit kind root sink)) := by rintro ⟨⟩
      rw [submit_pending]
      simp only [unrecorded, or_false]
    | remove removed =>
      have unrecorded : ¬ m.Records hash (.action (.remove removed)) := by rintro ⟨⟩
      have own : m.Clears hash (.action (.remove removed)) ↔ hash = removed := by
        constructor
        · intro clears
          cases clears
          rfl
        · rintro rfl
          exact .removed
      change (m.vault.tracker.remove removed).shouldCommit hash = true ↔ _
      rw [Tracker.shouldCommit_remove]
      simp only [unrecorded, own, or_false, shouldCommit, ne_eq]
    | addDirty root hashes =>
      have spared : ¬ m.Clears hash (.action (.addDirty root hashes)) := by rintro ⟨⟩
      have own : m.Records hash (.action (.addDirty root hashes)) ↔
          m.vault.tracker.lastRoot? ≠ some root ∧ hash ∈ hashes := by
        constructor
        · intro records
          cases records with
          | dirty mem other => exact ⟨other, mem⟩
        · intro both
          exact .dirty both.2 both.1
      change (m.vault.tracker.put root hashes).2.shouldCommit hash = true ↔ _
      rw [Tracker.shouldCommit_put]
      simp only [spared, own, not_false_eq_true, and_true, shouldCommit]
    | confirmEpoch epoch =>
      exact aside (Vault.tracker_confirmEpoch ..) (by rintro ⟨⟩) (by rintro ⟨⟩)
    | checkEpoch epoch =>
      have same : (m.act (.checkEpoch epoch)).vault.tracker = m.vault.tracker := by
        simp only [act, checkEpoch, deliverEpochs_eq]
        exact Vault.tracker_deliveries ..
      exact aside same (by rintro ⟨⟩) (by rintro ⟨⟩)
    | close =>
      have same : (m.act .close).vault.tracker = m.vault.tracker := by
        simp only [act, close]
        split <;> rfl
      exact aside same (by rintro ⟨⟩) (by rintro ⟨⟩)
    | put | enterPruning | exitPruning | selectEpoch | withdraw | takeLeaf | dropReader
      | setRefusals =>
      exact aside rfl (by rintro ⟨⟩) (by rintro ⟨⟩)

/-! ## Runs -/

/-- What holds of every step of a run, where it is taken. -/
def Throughout (P : Manager → Event → Prop) : Manager → List Event → Prop
  | _, [] => True
  | m, e :: rest => P m e ∧ ∀ m', m.step? e = some m' → Throughout P m' rest

theorem throughout_of_forall {P : Manager → Event → Prop} {events : List Event}
    (h : ∀ e ∈ events, ∀ m, P m e) : ∀ m, Throughout P m events := by
  induction events with
  | nil => exact fun _ => trivial
  | cons e rest ih =>
    intro m
    exact ⟨h e List.mem_cons_self m, fun m' _ => ih (fun x mem => h x (List.mem_cons_of_mem _ mem)) m'⟩

/-- A pending hash stays pending as long as no step clears it. -/
theorem run?_pending {events : List Event} (ran : n.run? events = some m)
    (spared : Throughout (fun m e => ¬ m.Clears hash e) n events)
    (pending : n.shouldCommit hash = true) : m.shouldCommit hash = true := by
  induction events generalizing n with
  | nil =>
    cases ran
    exact pending
  | cons e rest ih =>
    obtain ⟨m', first, ran⟩ := Option.bind_eq_some_iff.1 ran
    exact ih ran (spared.2 m' first) ((step?_pending first).2 (.inl ⟨pending, spared.1⟩))

/-- A hash that is not pending stays so as long as no step records it. -/
theorem run?_settled {events : List Event} (ran : n.run? events = some m)
    (unrecorded : Throughout (fun m e => ¬ m.Records hash e) n events)
    (settled : n.shouldCommit hash = false) : m.shouldCommit hash = false := by
  induction events generalizing n with
  | nil =>
    cases ran
    exact settled
  | cons e rest ih =>
    obtain ⟨m', first, ran⟩ := Option.bind_eq_some_iff.1 ran
    refine ih ran (unrecorded.2 m' first) ?_
    rw [Bool.eq_false_iff, ne_eq, step?_pending first]
    rintro (⟨pending, -⟩ | records)
    · rw [settled] at pending
      cases pending
    · exact unrecorded.1 records

/-- Which pending hashes the submission of a snapshot lets go of, however the
snapshot ends: those that are not recorded behind its root.  What is recorded
there stays pending until another step clears it; all else is not pending any
more until a commit records it again. -/
theorem submitted_snapshot_pending {root : NodeHash} {sink : Option LeafSink}
    {after : List Event} (opened : n.closed = false) (full : root.isEmptyTrie = false)
    (ran : n.run? (.action (.submit .snapshot root sink) :: after) = some m) :
    let submitted := n.act (.submit .snapshot root sink)
    (n.vault.tracker.Survives root hash →
      Throughout (fun m e => ¬ m.Clears hash e) submitted after → m.shouldCommit hash = true) ∧
    (¬ n.vault.tracker.Survives root hash →
      Throughout (fun m e => ¬ m.Records hash e) submitted after →
        m.shouldCommit hash = false) := by
  intro submitted
  have rest : submitted.run? after = some m := ran
  constructor
  · intro survives spared
    refine run?_pending rest spared ((submit_pending ..).2 ⟨survives.shouldCommit, ?_⟩)
    intro clears
    cases clears with
    | settled _ _ gone => exact gone survives
  · intro gone unrecorded
    refine run?_settled rest unrecorded ?_
    rw [Bool.eq_false_iff, ne_eq, submit_pending]
    rintro ⟨-, spared⟩
    exact spared (.settled opened full gone)

/-- A snapshot of the sample root from its submission to its end, with a main
store that is not active: it is abandoned before it has read anything. -/
def abandonedRun : List Event :=
  .action (.submit .snapshot Walk.rootHash none) ::
    [.move (.grant 0), .move (.enqueue 0), .move (.dequeue .snapshot), .move .launch,
      .move (.begin 0), .move (.release 0), .move (.finish 0)]

/-- The leaf is recorded behind the root and stays pending; the root does not. -/
theorem abandonedRun_keeps_later_commit : ∃ n m,
    runFrom (inMemory {} none) {} [.action (.addDirty Walk.rootHash [Walk.rootHash]),
        .action (.addDirty Walk.leafHash [Walk.leafHash])] = some n ∧
      n.run? abandonedRun = some m ∧ n.vault.tracker.Survives Walk.rootHash Walk.leafHash ∧
      ¬ n.vault.tracker.Survives Walk.rootHash Walk.rootHash ∧
      m.shouldCommit Walk.leafHash = true ∧ m.shouldCommit Walk.rootHash = false := by
  have evaluated : ∃ n,
      runFrom (inMemory {} none) {} [.action (.addDirty Walk.rootHash [Walk.rootHash]),
          .action (.addDirty Walk.leafHash [Walk.leafHash])] = some n ∧
        (n.vault.tracker.entries =
            [⟨Walk.rootHash, [Walk.rootHash]⟩, ⟨Walk.leafHash, [Walk.leafHash]⟩] ∧
          n.closed = false ∧ Walk.rootHash.isEmptyTrie = false ∧
          (n.vault.tracker.removeCommitted Walk.rootHash).shouldCommit Walk.rootHash = false ∧
          (n.run? abandonedRun).isSome) :=
    exists_of_runFrom (by decide +kernel)
  obtain ⟨n, ran, entries, opened, full, settled, ends⟩ := evaluated
  obtain ⟨m, after⟩ := Option.isSome_iff_exists.1 ends
  have behind : n.vault.tracker.Survives Walk.rootHash Walk.leafHash :=
    ⟨[⟨Walk.rootHash, [Walk.rootHash]⟩], ⟨Walk.leafHash, [Walk.leafHash]⟩, [], entries,
      List.mem_cons_self, fun _ => ⟨_, List.mem_cons_self, rfl⟩⟩
  have gone : ¬ n.vault.tracker.Survives Walk.rootHash Walk.rootHash := by
    rw [← Tracker.shouldCommit_removeCommitted, settled]
    exact Bool.false_ne_true
  refine ⟨n, m, ran, after, behind, gone,
    (submitted_snapshot_pending opened full after).1 behind ?_,
    (submitted_snapshot_pending opened full after).2 gone ?_⟩
  all_goals
    refine throughout_of_forall (fun e mem m => ?_) _
    simp only [List.mem_cons, List.not_mem_nil, or_false] at mem
    intro impossible
    rcases mem with rfl | rfl | rfl | rfl | rfl | rfl | rfl <;> cases impossible

/-- With both hashes recorded under the root, the snapshot that copies nothing
leaves neither of them pending. -/
theorem abandonedRun_drops_leaf : ∃ n m,
    runFrom (inMemory {} none) {}
        [.action (.addDirty Walk.rootHash [Walk.rootHash, Walk.leafHash])] = some n ∧
      n.run? abandonedRun = some m ∧ n.closed = false ∧ Walk.rootHash.isEmptyTrie = false ∧
      n.shouldCommit Walk.leafHash = true ∧
      m.finished.map (fun r => (r.id, r.stats.nodes)) = [(0, 0)] ∧
      m.shouldCommit Walk.leafHash = false := by
  have evaluated : ∃ n,
      runFrom (inMemory {} none) {}
          [.action (.addDirty Walk.rootHash [Walk.rootHash, Walk.leafHash])] = some n ∧
        (n.closed = false ∧ Walk.rootHash.isEmptyTrie = false ∧
          n.shouldCommit Walk.leafHash = true ∧
          (n.run? abandonedRun).any fun m => decide
            (m.finished.map (fun r => (r.id, r.stats.nodes)) = [(0, 0)] ∧
              m.shouldCommit Walk.leafHash = false)) :=
    exists_of_runFrom (by decide +kernel)
  obtain ⟨n, ran, opened, full, pending, ends⟩ := evaluated
  obtain ⟨m, after, looked⟩ := (Option.any_eq_true _ _).1 ends
  exact ⟨n, m, ran, after, opened, full, pending, of_decide_eq_true looked⟩

end Manager

end TrieStorage

import TrieStorage.Proofs.Manager.Actions
import TrieStorage.Proofs.Manager.Moves
import TrieStorage.Proofs.Walk.Isolation

/-!
# Copying is not seen

A walk puts under an address what is read under it, so wherever the put goes, and whatever the
layers in front of it and behind it have under that key, readers find what they found before:
`Walk.alike_visit` says so for one visit.  Nothing else that a walk does once it has chosen where
to copy concerns the stores at all, and neither does what callers do but for writing, removing,
confirming epochs and closing.
-/

namespace TrieStorage

/-- Events that are no reason for a key to read differently: all but the choice of where to copy,
which may drop generations, and the actions of callers that write, remove or close something. -/
def Event.keepsReads : Event → Bool
  | .move (.begin _) => false
  | .move _ => true
  | .action (.put _ _) | .action (.remove _) | .action (.confirmEpoch _) | .action (.checkEpoch _)
  | .action (.setRefusals _ _) | .action .close => false
  | .action _ => true

namespace Manager

variable {m m' : Manager}

theorem lookup_selectEpoch (v : Vault) (epoch : Epoch) (key : Bytes) :
    (v.selectEpoch epoch).lookup key = v.lookup key := by
  refine Vault.lookup_congr rfl fun id => v.storage.get_main ?_ id
  unfold Layer.get
  rw [Store.get_selectEpoch]

/-- A move after the choice of where to copy changes nothing that is read. -/
theorem lookup_move? {mv : Move} (keeps : (Event.move mv).keepsReads = true)
    (moved : m.move? mv = some m') (key : Bytes) : m'.vault.lookup key = m.vault.lookup key := by
  cases move?_walks moved with
  | still _ _ vault | launched _ _ _ _ vault | left _ _ _ _ vault _ => rw [vault]
  | begun _ _ => cases keeps
  | @visited w target stack _ _ =>
    exact (Walk.alike_visit m.closed w m.vault target stack).lookup key
  | sent _ _ _ | released _ _ => rfl

theorem lookup_act {a : Action} (keeps : (Event.action a).keepsReads = true) (key : Bytes) :
    (m.act a).vault.lookup key = m.vault.lookup key := by
  cases a with
  | put | remove | confirmEpoch | checkEpoch | setRefusals | close => cases keeps
  | selectEpoch epoch => exact lookup_selectEpoch m.vault epoch key
  | submit kind root sink =>
    rcases act_submit m kind root sink with ⟨-, same⟩ | ⟨-, same⟩
    · rw [same]
    · rw [same]
      rfl
  | addDirty | enterPruning | exitPruning | withdraw | takeLeaf | dropReader => rfl

/-- Whatever the layers have, in memory, in a log or, in a main store split by epoch, in partitions in
memory, whether or not they answer, and wherever walks copy to: after any number of steps of any
walks, snapshots or checkpoints, however each of them ends, and with anything in between that writes,
removes and closes nothing, every key reads as before. -/
theorem copying_keeps_reads {events : List Event} (ran : m.run? events = some m')
    (keeps : ∀ e ∈ events, e.keepsReads = true) (key : Bytes) : m'.get key = m.get key := by
  have lookup : m'.vault.lookup key = m.vault.lookup key := by
    refine run?_induction (P := fun events n => (∀ e ∈ events, e.keepsReads = true) →
      n.vault.lookup key = m.vault.lookup key) (fun _ => rfl) ?_ ran keeps
    intro events n e n' _ ih stepped keeps
    have own := keeps e (List.mem_append_right _ (List.mem_singleton_self e))
    refine .trans ?_ (ih fun e mem => keeps e (List.mem_append_left _ mem))
    cases e with
    | move mv => exact lookup_move? own stepped key
    | action a =>
      cases stepped
      exact lookup_act own key
  unfold get Vault.get
  rw [lookup]

open Walk (leafHash sampleLeaf)

/-- A snapshot of a leaf reads it from the checkpoint store and copies it into a main store that is
split by epoch: into the partition of epoch 0, where an empty value of epoch 1 hides it. -/
def shadowed : Manager where
  vault :=
    { storage :=
        { disk := {}
          main :=
            { name := .main
              store := .partitioned
                { partitions := [(0, {}), (1, { table := ⟨[(leafHash.bytes, [])]⟩ })] } }
          db := { name := .db, store := .memory {} }
          checkpoints :=
            { name := .checkpoints
              store := .memory { table := ⟨[(leafHash.bytes, sampleLeaf.encode)]⟩ } } }
      tracker := { budget := 0 } }
  throttle := { max := 1, current := 1 }
  walks :=
    [{ request := { id := 0, kind := .snapshot, root := leafHash }
       phase := .visiting .main [leafHash] }]

/-- The snapshot copies the leaf and ends while somebody forbids pruning. -/
def shadowedRun : List Event :=
  [.move (.visit 0), .action .enterPruning, .move (.visit 0), .move (.release 0)]

/-- The leaf is still read from the checkpoint store. -/
theorem shadowedRun_keeps_reads : ∃ m, shadowed.run? shadowedRun = some m ∧
    m.vault.storage.get .main leafHash.bytes = .ok (some []) ∧
    m.get leafHash.bytes = .ok sampleLeaf.encode := by
  have evaluated : shadowed.get leafHash.bytes = .ok sampleLeaf.encode ∧
    (shadowed.run? shadowedRun).any (fun m =>
      m.vault.storage.get .main leafHash.bytes = .ok (some [])) = true := by decide +kernel
  obtain ⟨before, ran⟩ := evaluated
  rw [Option.any_eq_true] at ran
  obtain ⟨m, ran, hidden⟩ := ran
  refine ⟨m, ran, of_decide_eq_true hidden, ?_⟩
  rw [copying_keeps_reads ran (by decide)]
  exact before

end Manager

end TrieStorage

import TrieStorage.Proofs.Manager.Alone
import TrieStorage.Proofs.Manager.Target
import TrieStorage.Proofs.Storage.Contents
import TrieStorage.Proofs.Walk.Snapshot

/-!
# Snapshots of readable tries

A snapshot that has a manager to itself copies a trie if all of it can still be
read once the generation that it goes to has been made.  Before that it is not
enough: making a generation drops the oldest ones, and with them what only they
have.
-/

namespace TrieStorage

open Walk

namespace Manager

/-- A snapshot that succeeds as long as nothing but its own walk and the reader of
its sink does anything: it ends in no other way than completely, the newest
generation then has every node, only so many moves are made, and until the request
is finished there is a move to make, unless the walk waits for its reader. -/
structure Succeeds (m : Manager) (id : RequestId) (t : Trie) (root : NodeHash) (g : Generation) :
    Prop where
  only : ∀ events m' w outcome, (∀ e ∈ events, e.isOf id = true) → m.run? events = some m' →
    m'.walk? id = some w → w.phase = .ended outcome ∨ w.phase = .released outcome →
      outcome = .complete
  copies : ∀ events m', (∀ e ∈ events, e.isOf id = true) → m.run? events = some m' → m'.Over id →
    m'.vault.legacy.generations.getLast? = some g ∧
      ∀ h, t.Reach root h → ∃ p, t h = some p ∧ m'.vault.Holds g.layer h.bytes p.1
  bounded : ∃ n, ∀ events m', (∀ e ∈ events, e.isOf id = true) → m.run? events = some m' →
    events.countP Event.isMove ≤ n
  goesOn : ∀ events m', (∀ e ∈ events, e.isOf id = true) → m.run? events = some m' →
    (m'.walk? id = none ∧ id ∈ m'.finished.map Request.id) ∨
      (∃ w, m'.walk? id = some w ∧ w.Waits) ∨
      ∃ mv, (Event.move mv).isOf id = true ∧ (m'.move? mv).isSome

end Manager

namespace Walk

/-- A snapshot that has not been stopped, at a vault that begins as `first`. -/
def Unstopped (first : Vault) (target : LayerId) (order : List NodeHash) (n : Nat)
    (s : Walk × Vault) : Prop :=
  ∃ start left, start.2 = first ∧ Copying target order start left s ∧
    movesLeft left.length s.1.phase ≤ n

/-- A complete end, with everything copied. -/
def Complete (first : Vault) (target : LayerId) (order : List NodeHash) (outcome : Outcome)
    (v : Vault) : Prop :=
  outcome = .complete ∧ v.legacy = first.legacy ∧
    ∀ h ∈ order, ∃ p, first.trie h = some p ∧ v.Holds target h.bytes p.1

theorem carried_unstopped (first : Vault) (target : LayerId) (order : List NodeHash) :
    Carried 1 (Unstopped first target order) (Complete first target order) where
  going := by
    rintro n w v ⟨start, left, -, copying, -⟩
    rcases copying.phase with ⟨stack, here, -⟩ | ⟨ended, -⟩
    · exact ⟨here.going.1, here.going.2.2⟩
    · rw [show w.phase = _ from ended]
      exact ⟨nofun, nofun⟩
  visit := by
    rintro n w v target' stack ⟨start, left, base, copying, le⟩ phase
    obtain ⟨left', next, less⟩ := copying.visit phase
    exact ⟨_, Nat.lt_of_lt_of_le less le, start, left', base, next, Nat.le_refl _⟩
  send := by
    rintro n w v target' leaf stack ⟨start, left, base, copying, le⟩ phase -
    obtain ⟨next, less⟩ := copying.send phase
    exact ⟨_, Nat.lt_of_lt_of_le less le, start, left, base, next, Nat.le_refl _⟩
  reader := by
    rintro n w v change ⟨start, left, base, copying, le⟩ hc
    exact ⟨start, left, base, copying.reader hc, le⟩
  ended := by
    rintro n w v outcome ⟨start, left, base, copying, le⟩ phase
    rcases copying.phase with ⟨stack, here, -⟩ | ⟨ended, none⟩
    · exact absurd phase (here.going.2.1 outcome)
    · rw [show w.phase = _ from ended] at phase
      cases phase
      subst none base
      refine ⟨?_, rfl, copying.alike.legacy, fun h mem => ?_⟩
      · rw [show (w, v).1.phase = _ from ended] at le
        exact le
      · exact (copying.copied h mem).resolve_left List.not_mem_nil

theorem carried_lost (first : Vault) :
    Carried 0 (fun _ s => ∃ start, start.2 = first ∧ Lost start s)
      (fun outcome _ => outcome ≠ .complete) where
  going := by
    rintro n w v ⟨start, -, lost⟩
    rcases lost.phase with ⟨target, stack, here, -⟩ | ⟨outcome, ended, -⟩
    · exact ⟨here.going.1, here.going.2.2⟩
    · rw [show w.phase = _ from ended]
      exact ⟨nofun, nofun⟩
  visit := by
    rintro n w v target stack ⟨start, base, lost⟩ phase
    exact ⟨n, Nat.le_refl _, start, base, lost.visit phase⟩
  send := by
    rintro n w v target leaf stack ⟨start, base, lost⟩ phase free
    exact ⟨n, Nat.le_refl _, start, base, lost.step (.send phase free)⟩
  reader := by
    rintro n w v change ⟨start, base, lost⟩ hc
    exact ⟨start, base, lost.step (.reader hc)⟩
  ended := by
    rintro n w v outcome ⟨start, -, lost⟩ phase
    refine ⟨Nat.zero_le _, ?_⟩
    rcases lost.phase with ⟨target, stack, here, -⟩ | ⟨outcome', ended, not⟩
    · exact absurd phase (here.going.2.1 outcome)
    · rw [show w.phase = _ from ended] at phase
      cases phase
      exact not

end Walk

namespace Manager

variable {m : Manager} {id : RequestId} {w : Walk} {path : String} {opener : Opener}

/-- A snapshot begins with its root at the next generation. -/
theorem start_snapshot (arranged : m.vault.Arranged) (grows : m.vault.growth? = some (path, opener))
    (can : m.vault.CanGrow path opener) {w : Walk} (kind : w.request.kind = .snapshot) :
    w.start m.vault = (w.inPhase (.visiting (m.vault.next path).layer [w.request.root]),
      m.vault.snapshotStore.2) := by
  unfold start
  rw [kind, Vault.target_snapshot arranged grows can]

theorem newest_snapshotStore (arranged : m.vault.Arranged)
    (grows : m.vault.growth? = some (path, opener)) (can : m.vault.CanGrow path opener) :
    m.vault.snapshotStore.2.legacy.generations.getLast? = some (m.vault.next path) := by
  obtain ⟨-, store, disk, -, made⟩ := Vault.snapshotStore_made arranged grows can
  rw [made.generations]
  exact List.getLast?_concat

/-- A snapshot of a root that unfolds goes its way to the end. -/
theorem stage_unstopped (arranged : m.vault.Arranged)
    (grows : m.vault.growth? = some (path, opener)) (can : m.vault.CanGrow path opener)
    (found : m.walk? id = some w) (kind : w.request.kind = .snapshot) (phase : w.phase = .starting)
    {order : List NodeHash}
    (unfolds : m.vault.snapshotStore.2.trie.Unfolds [w.request.root] order) :
    Stage 1 (Unstopped m.vault.snapshotStore.2 (m.vault.next path).layer order)
      (Complete m.vault.snapshotStore.2 (m.vault.next path).layer order) id
      (2 * order.length + 3 + 1) m := by
  refine .starting found phase fun change hc => ?_
  have kind' : (change w.request).kind = .snapshot := (hc.kind_eq w.request).trans kind
  rw [start_snapshot arranged grows can kind', hc.root_eq]
  have accepts := (Vault.snapshotStore_ready arranged grows can).2
  exact ⟨_, order, rfl, .begin kind' rfl accepts unfolds, Nat.le_refl _⟩

/-- A snapshot of a root that does not unfold does not end completely. -/
theorem stage_lost (arranged : m.vault.Arranged) (grows : m.vault.growth? = some (path, opener))
    (can : m.vault.CanGrow path opener) (found : m.walk? id = some w)
    (kind : w.request.kind = .snapshot) (phase : w.phase = .starting)
    (endless : ¬ ∃ order, m.vault.snapshotStore.2.trie.Unfolds [w.request.root] order) :
    Stage 0 (fun _ s => ∃ start, start.2 = m.vault.snapshotStore.2 ∧ Lost start s)
      (fun outcome _ => outcome ≠ .complete) id 0 m := by
  refine .starting (n := 0) found phase fun change hc => ?_
  have kind' : (change w.request).kind = .snapshot := (hc.kind_eq w.request).trans kind
  rw [start_snapshot arranged grows can kind', hc.root_eq]
  refine ⟨_, rfl, kind', .refl _, .inl ⟨_, _, .visiting, fun order unfolds => ?_⟩⟩
  exact endless ⟨order, unfolds⟩

/-- While nothing else happens, a snapshot of a trie that can be read succeeds if
every node of it is read the same once the new generation has been made, as is
every node that is found in a layer that lasts and that the new generation does
not bring along.  It can succeed only if the trie can be read then. -/
theorem readable_snapshot_succeeds {parts : Parts} {disk : Disk} {refusals : Refusals}
    {m₀ : Manager} {events : List Event} (made : assemble parts disk refusals = .ok m₀)
    (ran : m₀.run? events = some m) (opened : m.closed = false)
    (grows : m.vault.growth? = some (path, opener)) (can : m.vault.CanGrow path opener)
    (found : m.walk? id = some w) (kind : w.request.kind = .snapshot) (phase : w.phase = .starting)
    (whole : m.vault.trie.Whole w.request.root) (acyclic : m.vault.trie.Acyclic w.request.root) :
    ((∀ h, m.vault.trie.Reach w.request.root h →
        m.vault.snapshotStore.2.trie h = m.vault.trie h) →
      m.Succeeds id m.vault.trie w.request.root (m.vault.next path)) ∧
    (∀ h, m.vault.Outlasts h.bytes → m.vault.Blank path opener h.bytes →
      m.vault.snapshotStore.2.trie h = m.vault.trie h) ∧
    (∀ events m' w', (∀ e ∈ events, e.isOf id = true) → m.run? events = some m' →
      m'.walk? id = some w' → w'.phase = .ended .complete ∨ w'.phase = .released .complete →
        m.vault.snapshotStore.2.trie.Whole w.request.root ∧
          m.vault.snapshotStore.2.trie.Acyclic w.request.root) := by
  have arranged := arranged_of_run made ran
  refine ⟨fun kept => ?_, fun h => Vault.trie_snapshotStore arranged grows can, ?_⟩
  · have whole' := Trie.whole_of_agree kept whole
    have acyclic' := Trie.acyclic_of_agree kept acyclic
    obtain ⟨order, unfolds⟩ := (Trie.exists_unfolds_iff (Vault.finite_trie _)).2 ⟨whole', acyclic'⟩
    have stage := stage_unstopped arranged grows can found kind phase unfolds
    have carried := carried_unstopped m.vault.snapshotStore.2 (m.vault.next path).layer order
    refine ⟨?_, ?_, ⟨2 * order.length + 3 + 1, ?_⟩, ?_⟩
    · intro events m' w' outcome only ran found past
      obtain ⟨n, -, later⟩ := stage.run carried opened only ran
      exact (later.left carried found past).1
    · intro events m' only ran past
      obtain ⟨n, -, later⟩ := stage.run carried opened only ran
      obtain ⟨outcome, -, legacy, copied⟩ := later.exists_left carried past
      refine ⟨?_, fun h reach => ?_⟩
      · rw [legacy]
        exact newest_snapshotStore arranged grows can
      · have below := (Trie.reach_of_agree kept).2 reach
        have visited := (unfolds.mem_of_reach (List.mem_singleton_self _) below).1
        rw [← kept h reach]
        exact copied h visited
    · intro events m' only ran
      obtain ⟨n, paid, -⟩ := stage.run carried opened only ran
      omega
    · intro events m' only ran
      obtain ⟨n, -, later⟩ := stage.run carried opened only ran
      cases found' : m'.walk? id with
      | none => exact .inl ⟨rfl, later.finished_of_none found'⟩
      | some w' =>
        rcases exists_move found' with waits | moves
        · exact .inr (.inl ⟨w', rfl, waits⟩)
        · exact .inr (.inr moves)
  · intro events m' w' only ran found' past
    by_contra not
    have endless : ¬ ∃ order, m.vault.snapshotStore.2.trie.Unfolds [w.request.root] order :=
      fun unfolds => not ((Trie.exists_unfolds_iff (Vault.finite_trie _)).1 unfolds)
    have stage := stage_lost arranged grows can found kind phase endless
    obtain ⟨n, -, later⟩ := stage.run (carried_lost _) opened only ran
    exact later.left (carried_lost _) found' past rfl

/-! ### A trie that only the oldest generation has -/

/-- Generations in memory; at most one stays. -/
def oneGeneration : Parts :=
  inMemory { maxSnapshots := 1, snapshotDb := { path := some "snapshots" } } (some .memory)

/-- The root and the leaf are put, and a snapshot of the root is admitted. -/
def admittedRun : List Event :=
  [.action (.put rootHash.bytes sampleRoot.encode), .action (.put leafHash.bytes sampleLeaf.encode),
    .action (.submit .snapshot rootHash none), .move (.grant 0), .move (.enqueue 0),
    .move (.dequeue .snapshot), .move .launch]

/-- The snapshot is taken, the root and the leaf are removed, and a second
snapshot is admitted. -/
def evictedRun : List Event :=
  admittedRun ++
    [.move (.begin 0), .move (.visit 0), .move (.visit 0), .move (.visit 0), .move (.release 0),
      .move (.finish 0), .action (.remove rootHash), .action (.remove leafHash),
      .action (.submit .snapshot rootHash none), .move (.grant 1), .move (.enqueue 1),
      .move (.dequeue .snapshot), .move .launch]

theorem sample_unfolds {v : Vault} (root : readNode v rootHash = .ok (sampleRoot.encode, sampleRoot))
    (leaf : readNode v leafHash = .ok (sampleLeaf.encode, sampleLeaf)) :
    v.trie.Unfolds [rootHash] [rootHash, leafHash] :=
  .cons (Vault.trie_eq_some.2 root) (.cons (Vault.trie_eq_some.2 leaf) .nil)

theorem sample_canGrow {v : Vault} (refusals : v.storage.refusals = [])
    (opens : (Opener.memory.openAt v.storage.disk
      (Generation.pathOf "snapshots" v.legacy.nextId)).1.toOption.isSome = true) :
    v.CanGrow "snapshots" .memory := by
  refine ⟨?_, fun call key => ?_⟩
  · rcases opening : Opener.memory.openAt v.storage.disk
      (Generation.pathOf "snapshots" v.legacy.nextId) with ⟨e | store, disk⟩
    · rw [opening] at opens
      cases opens
    · exact ⟨store, disk, rfl⟩
  · rw [refusals]
    rfl

theorem blank_memory (v : Vault) (root : String) (key : Bytes) : v.Blank root .memory key := by
  intro store disk opening
  unfold Opener.openAt at opening
  dsimp only at opening
  split at opening
  · cases opening
  · cases opening
    rfl

/-- The first snapshot succeeds: the main store has what it needs. -/
theorem admittedRun_succeeds : ∃ m, runFrom oneGeneration {} admittedRun = some m ∧
    m.Succeeds 0 m.vault.trie rootHash (m.vault.next "snapshots") := by
  have facts : ∃ m, runFrom oneGeneration {} admittedRun = some m ∧
      (m.closed = false ∧ m.vault.growth? = some ("snapshots", .memory) ∧
        m.walk? 0 = some { request := { id := 0, kind := .snapshot, root := rootHash,
                                        stats := Statistics.start {} } } ∧
        readNode m.vault rootHash = .ok (sampleRoot.encode, sampleRoot) ∧
        readNode m.vault leafHash = .ok (sampleLeaf.encode, sampleLeaf) ∧
        (m.vault.storage.peek .main rootHash.bytes).isSome = true ∧
        (m.vault.storage.peek .main leafHash.bytes).isSome = true ∧
        m.vault.storage.refusals = [] ∧
        (Opener.memory.openAt m.vault.storage.disk
          (Generation.pathOf "snapshots" m.vault.legacy.nextId)).1.toOption.isSome = true) :=
    exists_of_runFrom (by decide +kernel)
  obtain ⟨m, ran, opened, grows, found, root, leaf, rootMain, leafMain, refusals, opens⟩ := facts
  obtain ⟨m₀, made, ran'⟩ := of_runFrom ran
  have unfolds := sample_unfolds root leaf
  obtain ⟨whole, acyclic⟩ := (Trie.exists_unfolds_iff m.vault.finite_trie).1 ⟨_, unfolds⟩
  have succeeds := readable_snapshot_succeeds made ran' opened grows (sample_canGrow refusals opens)
    found rfl rfl whole acyclic
  refine ⟨m, ran, succeeds.1 fun h reach => ?_⟩
  have visited := (unfolds.mem_of_reach (List.mem_singleton_self _) reach).1
  refine succeeds.2.1 h ⟨.main, List.mem_cons_self, ?_⟩ (blank_memory _ _ _)
  simp only [List.mem_cons, List.not_mem_nil, or_false] at visited
  rcases visited with rfl | rfl
  · exact rootMain
  · exact leafMain

/-- The second snapshot fails, although nothing is wrong with any store, and all
of the trie can be read when it is admitted. -/
theorem evictedRun_fails : ∃ m, runFrom oneGeneration {} evictedRun = some m ∧
    m.closed = false ∧ m.vault.CanGrow "snapshots" .memory ∧
    m.vault.growth? = some ("snapshots", .memory) ∧
    m.walk? 1 = some { request := { id := 1, kind := .snapshot, root := rootHash,
                                    stats := Statistics.start {} } } ∧
    m.vault.trie.Whole rootHash ∧ m.vault.trie.Acyclic rootHash ∧
    ((m.run? [.move (.begin 1), .move (.visit 1)]).bind fun m' => (m'.walk? 1).map Walk.phase) =
      some (.ended (.failed (.missingNode rootHash))) := by
  have facts : ∃ m, runFrom oneGeneration {} evictedRun = some m ∧
      (m.closed = false ∧ m.vault.growth? = some ("snapshots", .memory) ∧
        m.walk? 1 = some { request := { id := 1, kind := .snapshot, root := rootHash,
                                        stats := Statistics.start {} } } ∧
        readNode m.vault rootHash = .ok (sampleRoot.encode, sampleRoot) ∧
        readNode m.vault leafHash = .ok (sampleLeaf.encode, sampleLeaf) ∧
        m.vault.storage.refusals = [] ∧
        (Opener.memory.openAt m.vault.storage.disk
          (Generation.pathOf "snapshots" m.vault.legacy.nextId)).1.toOption.isSome = true ∧
        ((m.run? [.move (.begin 1), .move (.visit 1)]).bind fun m' =>
          (m'.walk? 1).map Walk.phase) =
            some (.ended (.failed (.missingNode rootHash)))) :=
    exists_of_runFrom (by decide +kernel)
  obtain ⟨m, ran, opened, grows, found, root, leaf, refusals, opens, failed⟩ := facts
  have unfolds := sample_unfolds root leaf
  obtain ⟨whole, acyclic⟩ := (Trie.exists_unfolds_iff m.vault.finite_trie).1 ⟨_, unfolds⟩
  exact ⟨m, ran, opened, sample_canGrow refusals opens, grows, found, whole, acyclic, failed⟩

end Manager

end TrieStorage

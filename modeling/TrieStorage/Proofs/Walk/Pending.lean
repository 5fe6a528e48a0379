import TrieStorage.Proofs.Walk.Checkpoint
import TrieStorage.Proofs.Walk.Turns

/-!
# A checkpoint copies what is pending, once

The pending hashes are what a checkpoint has to visit and, since copying takes a hash
out of them, also what it has visited.  On a settled trie it thus copies each pending
node below its root once, whatever subtrees are shared and whatever cycles there are,
and leaves all other hashes as they were.
-/

namespace TrieStorage

/-- How many children there are under a hash. -/
def Trie.fanOut (t : Trie) (hash : NodeHash) : Nat :=
  ((t hash).map fun p => p.2.children.length).getD 0

namespace Walk

/-- How far a checkpoint has come that nothing stops: `done` has been copied, each hash
of it once, and is no longer pending. -/
structure Clearing (t : Trie) (root : NodeHash) (target : LayerId) (start : Walk × Vault)
    (done : List NodeHash) (s : Walk × Vault) : Prop where
  sweep : Sweep t root target start s
  once : done.Nodup
  due : ∀ h ∈ done, t.Reach root h ∧ start.2.tracker.shouldCommit h = true
  cleared : ∀ h, s.2.tracker.shouldCommit h = true ↔
    start.2.tracker.shouldCommit h = true ∧ h ∉ done
  mirrors : Mirrors start s (start.2.transfer .checkpoint target done)

/-- No more hashes are to be visited than `visits`: those on the stack, and the
children of those that are pending. -/
def Within (t : Trie) (visits : Nat) (s : Walk × Vault) : Prop :=
  ∀ target stack, AtStack target stack s.1.phase →
    stack.length + s.2.tracker.weight t.fanOut ≤ visits

namespace Clearing

variable {t : Trie} {root : NodeHash} {target target' : LayerId} {start s s' : Walk × Vault}
  {done stack : List NodeHash} {visits : Nat}

theorem begin (kind : start.1.request.kind = .checkpoint)
    (phase : start.1.phase = .visiting target [root]) (settled : t.Settled root start.2.tracker)
    (accepts : start.2.Accepts target) : Clearing t root target start [] start :=
  ⟨.begin kind phase accepts settled, List.nodup_nil, nofun, by simp, .begin .checkpoint phase⟩

/-- A pending hash on top of the stack is copied, and its children take its place. -/
theorem copy {hash : NodeHash} {rest : List NodeHash} (provides : start.2.Provides t root)
    (h : Clearing t root target start done s) (within : Within t visits s)
    (phase : s.1.phase = .visiting target (hash :: rest))
    (due : skips s.2 s.1.request.kind hash = false) :
    Clearing t root target start (done ++ [hash]) (s.1.visit false s.2 target (hash :: rest)) ∧
      ∃ visits', visits' < visits ∧ Within t visits' (s.1.visit false s.2 target (hash :: rest)) := by
  have sweep := h.sweep.visit provides phase
  have mirrors := h.mirrors.visit h.sweep.kind phase due
  have pending := pending_of_due h.sweep.kind due
  have below := (h.sweep.atStack (.of_visiting phase)).2.below hash List.mem_cons_self
  have before := (h.cleared hash).1 pending
  have enough := within target (hash :: rest) (.of_visiting phase)
  have visited := visited false s.1 s.2 target (hash :: rest)
  generalize s.1.visit false s.2 target (hash :: rest) = next at sweep mirrors visited ⊢
  obtain ⟨w', v'⟩ := next
  simp only at visited
  have alive : ∀ cause, w'.phase ≠ .ended (.failed cause) := by
    intro cause failed
    rcases sweep.phase with ⟨stack, here, -⟩ | ⟨ended, -⟩
    · rw [show w'.phase = _ from failed] at here
      cases here
    · rw [show w'.phase = _ from failed] at ended
      cases ended
  cases visited with
  | cancelled shut => cases shut
  | passed _ skipped =>
    rw [due] at skipped
    cases skipped
  | unread => exact absurd rfl (alive _)
  | unwritten => exact absurd rfl (alive _)
  | @copied _ _ encoded node v₁ _ _ read written =>
    have tracker : (noteCopied v₁ s.1.request.kind hash).tracker = s.2.tracker.remove hash := by
      rw [noteCopied_checkpoint h.sweep.kind, tracker_of_putInto written]
    refine ⟨⟨sweep, ?_, ?_, ?_, mirrors⟩, ?_⟩
    · exact h.once.append (List.nodup_singleton hash) (List.disjoint_singleton.2 before.2)
    · intro d mem
      rcases List.mem_append.1 mem with old | new
      · exact h.due d old
      · rw [List.mem_singleton.1 new]
        exact ⟨below, before.1⟩
    · intro d
      rw [show (noteCopied v₁ s.1.request.kind hash).tracker = _ from tracker]
      rw [Tracker.shouldCommit_remove, h.cleared, List.mem_append, List.mem_singleton, not_or,
        and_assoc]
    · obtain ⟨p, ok, node_⟩ := provides hash below before.1
      rw [← h.sweep.alike.readNode, read] at ok
      cases ok
      have fan : t.fanOut hash = node.children.length := by simp [Trie.fanOut, node_]
      have less := Tracker.weight_remove t.fanOut pending
      rw [fan] at less
      refine ⟨(node.children ++ rest).length + (s.2.tracker.remove hash).weight t.fanOut, ?_, ?_⟩
      · simp only [List.length_append, List.length_cons] at enough ⊢
        omega
      · intro tgt st here
        rw [(here.unique (atStack_afterCopy ..)).2]
        rw [show (noteCopied v₁ s.1.request.kind hash).tracker = _ from tracker]

theorem visit (provides : start.2.Provides t root) (h : Clearing t root target start done s)
    (within : Within t visits s) (phase : s.1.phase = .visiting target' stack) :
    ∃ done' visits', Clearing t root target start done' (s.1.visit false s.2 target' stack) ∧
      Within t visits' (s.1.visit false s.2 target' stack) ∧
      movesLeft visits' (s.1.visit false s.2 target' stack).1.phase + 1 ≤
        movesLeft visits s.1.phase := by
  obtain ⟨rfl, -⟩ := h.sweep.atStack (.of_visiting phase)
  have sweep := h.sweep.visit provides phase
  have enough := within target' stack (.of_visiting phase)
  cases stack with
  | nil =>
    refine ⟨done, 0, ⟨sweep, h.once, h.due, h.cleared, h.mirrors.inPhase phase rfl rfl⟩, nofun, ?_⟩
    rw [phase]
    simp only [Walk.visit, inPhase, movesLeft]
    omega
  | cons hash rest =>
    cases due : skips s.2 s.1.request.kind hash with
    | true =>
      have passed : s.1.visit false s.2 target' (hash :: rest) =
          (s.1.inPhase (.visiting target' rest), s.2) := by simp [Walk.visit, due]
      rw [passed] at sweep ⊢
      refine ⟨done, visits - 1,
        ⟨sweep, h.once, h.due, h.cleared, h.mirrors.inPhase phase rfl rfl⟩, ?_, ?_⟩
      · intro tgt st here
        cases here
        show rest.length + s.2.tracker.weight t.fanOut ≤ visits - 1
        rw [List.length_cons] at enough
        omega
      · rw [phase]
        simp only [inPhase, movesLeft]
        rw [List.length_cons] at enough
        omega
    | false =>
      obtain ⟨clearing, visits', less, within'⟩ := h.copy provides within phase due
      refine ⟨_, visits', clearing, within', ?_⟩
      have left : movesLeft visits' (s.1.visit false s.2 target' (hash :: rest)).1.phase ≤
          2 * visits' + 4 := by
        rcases sweep.phase with ⟨stack, here, -⟩ | ⟨ended, -⟩
        · exact movesLeft_atStack_le here visits'
        · rw [ended]
          simp only [movesLeft]
          omega
      rw [phase]
      simp only [movesLeft] at left ⊢
      omega

theorem turn {turn : Turn} (provides : start.2.Provides t root)
    (h : Clearing t root target start done s) (within : Within t visits s)
    (turned : Turned s turn s') :
    ∃ done' visits', Clearing t root target start done' s' ∧ Within t visits' s' ∧
      movesLeft visits' s'.1.phase + (if turn.isOwn then 1 else 0) ≤
        movesLeft visits s.1.phase := by
  have sweep := h.sweep.step provides turned.step
  cases turned with
  | visit phase => exact h.visit provides within phase
  | send phase free =>
    have here := AtStack.of_sending phase
    refine ⟨done, visits, ⟨sweep, h.once, h.due, h.cleared, h.mirrors.send phase⟩, ?_, ?_⟩
    · intro tgt st here'
      cases here'
      exact within _ _ here
    · rw [phase]
      exact Nat.le_refl _
  | take =>
    exact ⟨done, visits, ⟨sweep, h.once, h.due, h.cleared, h.mirrors.take⟩, within, Nat.le_refl _⟩
  | leave =>
    exact ⟨done, visits, ⟨sweep, h.once, h.due, h.cleared, h.mirrors.leave⟩, within, Nat.le_refl _⟩

/-- At the end every pending hash of the trie has been copied. -/
theorem mem_iff (h : Clearing t root target start done s)
    (ended : s.1.phase = .ended .complete) (d : NodeHash) :
    d ∈ done ↔ t.Reach root d ∧ start.2.tracker.shouldCommit d = true := by
  refine ⟨h.due d, fun ⟨reach, pending⟩ => ?_⟩
  by_contra left
  rcases h.sweep.phase with ⟨stack, here, -⟩ | ⟨-, covers⟩
  · rw [ended] at here
    cases here
  · obtain ⟨x, hx, -⟩ := covers.leads d reach ((h.cleared d).2 ⟨pending, left⟩)
    cases hx

end Clearing

/-- On a settled tracker, a checkpoint whose target takes puts and whose pending nodes can
be read ends completely, after boundedly many turns of its own and waiting for nothing but
its leaf reader.  What it has done is what copying the pending hashes of its trie comes
to, each of them once, and these are then no longer pending. -/
theorem checkpoint_pending {t : Trie} {root : NodeHash} {target : LayerId} {s : Walk × Vault}
    (kind : s.1.request.kind = .checkpoint) (phase : s.1.phase = .visiting target [root])
    (settled : t.Settled root s.2.tracker) (provides : s.2.Provides t root)
    (accepts : s.2.Accepts target) {turns : List Turn} {s' : Walk × Vault}
    (ran : run? s turns = some s') :
    turns.countP Turn.isOwn ≤ 2 * s.2.tracker.weight t.fanOut + 3 ∧ GoesOn s' ∧
      ∀ outcome, s'.1.phase = .ended outcome → outcome = .complete ∧
        ∃ done : List NodeHash, done.Nodup ∧
          (∀ h, h ∈ done ↔ t.Reach root h ∧ s.2.tracker.shouldCommit h = true) ∧
          Mirrors s s' (s.2.transfer .checkpoint target done) ∧
          (s.2.transfer .checkpoint target done).copies.map Copy.hash = done ∧
          (∀ c ∈ (s.2.transfer .checkpoint target done).copies,
            t c.hash = some (c.encoded, c.node)) ∧
          ∀ h, s'.2.tracker.shouldCommit h = true ↔
            s.2.tracker.shouldCommit h = true ∧ h ∉ done := by
  have keeps (n : Nat) (s₁ : Walk × Vault) (turn : Turn) (s₂ : Walk × Vault)
      (h : ∃ done, Clearing t root target s done s₁ ∧ Within t n s₁) (turned : Turned s₁ turn s₂) :
      ∃ n', (∃ done, Clearing t root target s done s₂ ∧ Within t n' s₂) ∧
        movesLeft n' s₂.1.phase + (if turn.isOwn then 1 else 0) ≤ movesLeft n s₁.1.phase := by
    obtain ⟨done, clearing, within⟩ := h
    obtain ⟨done', n', clearing', within', less⟩ := clearing.turn provides within turned
    exact ⟨n', ⟨done', clearing', within'⟩, less⟩
  have within : Within t (1 + s.2.tracker.weight t.fanOut) s := by
    intro tgt stack here
    rw [(here.unique (.of_visiting phase)).2]
    exact Nat.le_refl _
  have start := Clearing.begin kind phase settled accepts
  obtain ⟨n, ⟨done, clearing, -⟩, paid⟩ := run?_keeps keeps ⟨[], start, within⟩ ran
  refine ⟨?_, clearing.mirrors.goesOn, fun outcome ended => ?_⟩
  · have := clearing.mirrors.two_le_movesLeft n
    rw [phase] at paid
    simp only [movesLeft] at paid this
    omega
  · have complete : s'.1.phase = .ended .complete := by
      rcases clearing.sweep.phase with ⟨stack, here, -⟩ | ⟨complete, -⟩
      · rw [ended] at here
        cases here
      · exact complete
    have ok : (s.2.transfer .checkpoint target done).answer = .ok () := by
      have answer := clearing.mirrors.answer
      rw [complete] at answer
      exact (Option.some.inj answer).symm
    have hashes := Vault.hash_transfer ok
    have all := clearing.mem_iff complete
    rw [ended] at complete
    cases complete
    refine ⟨rfl, done, clearing.once, all, clearing.mirrors, hashes, fun c mem => ?_, clearing.cleared⟩
    have copied : c.hash ∈ done := by
      rw [← hashes]
      exact List.mem_map_of_mem mem
    obtain ⟨p, read, node⟩ := provides c.hash ((all c.hash).1 copied).1 ((all c.hash).1 copied).2
    rw [Vault.trie_eq_some.1 (Vault.trie_of_mem_transfer mem)] at read
    cases read
    exact node

theorem reach_fork {h : NodeHash} (reach : forkVault.trie.Reach forkHash h) :
    h = forkHash ∨ h = leafHash := by
  obtain ⟨root, leaf, -⟩ := fork_facts
  induction reach with
  | refl => exact .inl rfl
  | tail _ child ih =>
    obtain ⟨p, node, mem⟩ := child
    rw [Vault.trie_eq_some] at node
    rcases ih with rfl | rfl
    · rw [root] at node
      cases node
      exact .inr (by simpa [forkRoot, Node.children] using mem)
    · rw [leaf] at node
      cases node
      cases mem

/-- The leaf is below the root twice, and is copied and sent once. -/
theorem fork_pending :
    ∃ s', run? (forkWalk .checkpoint, forkVault) (forkTurns .checkpoint) = some s' ∧
      s'.1.phase = .ended .complete ∧ s'.1.request.received = [⟨[1], [2]⟩] ∧
      ∃ done : List NodeHash, done.Nodup ∧ (∀ h, h ∈ done ↔ h = forkHash ∨ h = leafHash) ∧
        Mirrors (forkWalk .checkpoint, forkVault) s'
          (forkVault.transfer .checkpoint .checkpoints done) := by
  obtain ⟨root, leaf, rootPending, leafPending, -, ran⟩ := fork_facts
  obtain ⟨s', ran, ended, received⟩ := exists_of_run? ran
  have all {h : NodeHash} (reach : forkVault.trie.Reach forkHash h) :
      forkVault.tracker.shouldCommit h = true := by
    rcases reach_fork reach with rfl | rfl
    · exact rootPending
    · exact leafPending
  have settled : forkVault.trie.Settled forkHash forkVault.tracker := by
    intro h reach notPending
    rw [all reach] at notPending
    cases notPending
  have provides : forkVault.Provides forkVault.trie forkHash := by
    intro h reach _
    rcases reach_fork reach with rfl | rfl
    · exact ⟨_, root, Vault.trie_eq_some.2 root⟩
    · exact ⟨_, leaf, Vault.trie_eq_some.2 leaf⟩
  have accepts : forkVault.Accepts .checkpoints := ⟨_, rfl, fun _ => rfl, rfl⟩
  obtain ⟨-, -, atEnd⟩ := checkpoint_pending (s := (forkWalk .checkpoint, forkVault)) rfl rfl
    settled provides accepts ran
  obtain ⟨-, done, once, mem, mirrors, -⟩ := atEnd _ ended
  have below : forkVault.trie.Child forkHash leafHash :=
    ⟨_, Vault.trie_eq_some.2 root, by simp [forkRoot, Node.children]⟩
  refine ⟨s', ran, ended, received, done, once, fun h => (mem h).trans ⟨?_, ?_⟩, mirrors⟩
  · exact fun due => reach_fork due.1
  · rintro (rfl | rfl)
    · exact ⟨.refl, rootPending⟩
    · exact ⟨.single below, leafPending⟩

end Walk

end TrieStorage

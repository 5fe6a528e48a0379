import TrieStorage.Proofs.Storage.Contents
import TrieStorage.Proofs.Walk.Turns

/-!
# A snapshot is a pre-order traversal

The traversal is told by recursion over the trie: a node, then everything below its
children from left to right.  A hash whose node cannot be read is part of it, and has
nothing below.  A walk has a stack instead; `snapshot_preorder` says that it
copies the nodes in the order of the traversal all the same, and stops where that
stops.
-/

namespace TrieStorage

namespace Trie

/-- The traversal of the tries under some hashes, in pre-order. -/
inductive Preorder (t : Trie) : List NodeHash → List NodeHash → Prop where
  | nil : Preorder t [] []
  | node {hash : NodeHash} {rest below after : List NodeHash} {p : Bytes × Node}
      (found : t hash = some p) (down : Preorder t p.2.children below)
      (right : Preorder t rest after) : Preorder t (hash :: rest) (hash :: (below ++ after))
  | blank {hash : NodeHash} {rest after : List NodeHash} (missing : t hash = none)
      (right : Preorder t rest after) : Preorder t (hash :: rest) (hash :: after)

namespace Preorder

variable {t : Trie} {hash : NodeHash} {rest order order' : List NodeHash}

theorem append {front back : List NodeHash} (h : t.Preorder front order)
    (h' : t.Preorder back order') : t.Preorder (front ++ back) (order ++ order') := by
  induction h with
  | nil => exact h'
  | node found down _ _ ih =>
    rw [List.cons_append, List.cons_append, List.append_assoc]
    exact .node found down ih
  | blank missing _ ih => exact .blank missing ih

/-- There is one traversal only. -/
theorem unique {hashes : List NodeHash} (h : t.Preorder hashes order)
    (h' : t.Preorder hashes order') : order' = order := by
  induction h generalizing order' with
  | nil =>
    cases h'
    rfl
  | node found _ _ ihDown ihRight =>
    cases h' with
    | node found' down' right' =>
      rw [found] at found'
      cases found'
      rw [ihDown down', ihRight right']
    | blank missing _ =>
      rw [found] at missing
      cases missing
  | blank missing _ ih =>
    cases h' with
    | node found' _ _ =>
      rw [missing] at found'
      cases found'
    | blank _ right' => rw [ih right']

/-- The first hash of a stack comes first. -/
theorem head (h : t.Preorder (hash :: rest) order) : ∃ left, order = hash :: left := by
  cases h with
  | node _ _ _ => exact ⟨_, rfl⟩
  | blank _ _ => exact ⟨_, rfl⟩

/-- Behind a node come those of the stack with the children in its place. -/
theorem children {left : List NodeHash} {p : Bytes × Node} (found : t hash = some p)
    (h : t.Preorder (hash :: rest) (hash :: left)) : t.Preorder (p.2.children ++ rest) left := by
  cases h with
  | node found' down right =>
    rw [found] at found'
    cases found'
    exact down.append right
  | blank missing _ =>
    rw [found] at missing
    cases missing

end Preorder

/-- Hashes that can be traversed one by one can be traversed in a row. -/
theorem exists_preorder_of_each {t : Trie} {hashes : List NodeHash}
    (each : ∀ h ∈ hashes, ∃ order, t.Preorder [h] order) : ∃ order, t.Preorder hashes order := by
  induction hashes with
  | nil => exact ⟨[], .nil⟩
  | cons h hashes ih =>
    obtain ⟨first, head⟩ := each h List.mem_cons_self
    obtain ⟨later, tail⟩ := ih fun x mem => each x (List.mem_cons_of_mem h mem)
    exact ⟨first ++ later, head.append tail⟩

/-- Under an acyclic root there is a traversal. -/
theorem Acyclic.exists_preorder {t : Trie} (finite : {h | (t h).isSome}.Finite) {root : NodeHash}
    (acyclic : t.Acyclic root) : ∃ order, t.Preorder [root] order := by
  refine acyclic.induction finite (motive := fun h => ∃ order, t.Preorder [h] order) ?_ .refl
  intro h _ below
  cases node : t h with
  | none => exact ⟨_, .blank node .nil⟩
  | some p =>
    obtain ⟨order, down⟩ := exists_preorder_of_each fun c mem => below c ⟨p, node, mem⟩
    exact ⟨_, .node node down .nil⟩

end Trie

namespace Walk

/-- How far a snapshot has come in a traversal: what has been done is what copying the
hashes before `left` comes to, and the stack is traversed as `left`. -/
structure Ordered (target : LayerId) (order : List NodeHash) (start : Walk × Vault)
    (left : List NodeHash) (s : Walk × Vault) : Prop where
  alike : Alike start s
  done : ∃ done, order = done ++ left ∧
    Mirrors start s (start.2.transfer .snapshot target done)
  phase : (∃ stack, AtStack target stack s.1.phase ∧ start.2.trie.Preorder stack left) ∨
    s.1.phase = .ended .complete ∧ left = [] ∨ ∃ cause, s.1.phase = .ended (.failed cause)

namespace Ordered

variable {target target' : LayerId} {order left stack : List NodeHash} {start s s' : Walk × Vault}

theorem atStack (h : Ordered target order start left s) (here : AtStack target' stack s.1.phase) :
    target' = target ∧ start.2.trie.Preorder stack left := by
  rcases h.phase with ⟨stack', at_, preorder⟩ | ⟨ended, -⟩ | ⟨cause, ended⟩
  · obtain ⟨rfl, rfl⟩ := here.unique at_
    exact ⟨rfl, preorder⟩
  · rw [ended] at here
    cases here
  · rw [ended] at here
    cases here

/-- A visit ends the walk or goes one hash further. -/
theorem visit (kind : start.1.request.kind = .snapshot) (h : Ordered target order start left s)
    (phase : s.1.phase = .visiting target' stack) :
    ∃ left', Ordered target order start left' (s.1.visit false s.2 target' stack) ∧
      movesLeft left'.length (s.1.visit false s.2 target' stack).1.phase + 1 ≤
        movesLeft left.length s.1.phase := by
  obtain ⟨rfl, preorder⟩ := h.atStack (.of_visiting phase)
  have alike := h.alike.trans (alike_visit false s.1 s.2 target' stack)
  have kind' : s.1.request.kind = .snapshot := h.alike.kind.trans kind
  obtain ⟨done, order_, mirrors⟩ := h.done
  cases stack with
  | nil =>
    cases preorder
    refine ⟨[], ⟨alike, ⟨done, order_, ?_⟩, .inr (.inl ⟨rfl, rfl⟩)⟩, ?_⟩
    · exact mirrors.inPhase phase rfl rfl
    · rw [phase]
      exact Nat.le_refl _
  | cons hash rest =>
    obtain ⟨later, rfl⟩ := preorder.head
    have due := skips_snapshot kind' s.2 hash
    have mirrors := mirrors.visit kind' phase due
    rw [List.append_cons] at order_
    have visited := visited false s.1 s.2 target' (hash :: rest)
    rw [phase]
    generalize s.1.visit false s.2 target' (hash :: rest) = next at alike mirrors visited ⊢
    obtain ⟨w', v'⟩ := next
    simp only at visited
    have failed {cause : ManagerError} : movesLeft later.length (.ended (.failed cause)) + 1 ≤
        movesLeft (hash :: later).length (.visiting target' (hash :: rest)) := by
      simp only [movesLeft]
      omega
    cases visited with
    | cancelled shut => cases shut
    | passed _ skipped =>
      rw [due] at skipped
      cases skipped
    | unread => exact ⟨later, ⟨alike, ⟨_, order_, mirrors⟩, .inr (.inr ⟨_, rfl⟩)⟩, failed⟩
    | unwritten => exact ⟨later, ⟨alike, ⟨_, order_, mirrors⟩, .inr (.inr ⟨_, rfl⟩)⟩, failed⟩
    | @copied _ _ encoded node _ _ _ read _ =>
      have found := Vault.trie_eq_some.2 read
      rw [h.alike.trie] at found
      have goesOn := atStack_afterCopy s.1.request target' node rest
      refine ⟨later, ⟨alike, ⟨_, order_, mirrors⟩, .inl ⟨_, goesOn, preorder.children found⟩⟩, ?_⟩
      have := movesLeft_atStack_le goesOn later.length
      simp only [movesLeft, List.length_cons] at this ⊢
      omega

theorem turn {t : Turn} (kind : start.1.request.kind = .snapshot)
    (h : Ordered target order start left s) (turned : Turned s t s') :
    ∃ left', Ordered target order start left' s' ∧
      movesLeft left'.length s'.1.phase + (if t.isOwn then 1 else 0) ≤
        movesLeft left.length s.1.phase := by
  have alike := h.alike.trans turned.step.alike
  obtain ⟨done, order_, mirrors⟩ := h.done
  cases turned with
  | visit phase => exact h.visit kind phase
  | send phase free =>
    obtain ⟨rfl, preorder⟩ := h.atStack (.of_sending phase)
    refine ⟨left, ⟨alike, ⟨done, order_, mirrors.send phase⟩, .inl ⟨_, .visiting, preorder⟩⟩, ?_⟩
    rw [phase]
    exact Nat.le_refl _
  | take => exact ⟨left, ⟨alike, ⟨done, order_, mirrors.take⟩, h.phase⟩, Nat.le_refl _⟩
  | leave => exact ⟨left, ⟨alike, ⟨done, order_, mirrors.leave⟩, h.phase⟩, Nat.le_refl _⟩

end Ordered

/-- A snapshot of an acyclic root traverses it in pre-order: at any moment it has done
what copying the front of the traversal comes to, and when it ends, what copying all of it
comes to.  That stops at the first node that cannot be read or is not taken, and comes
through if there is none.  The walk ends after boundedly many turns of its own, waiting
for nothing but its leaf reader. -/
theorem snapshot_preorder {s : Walk × Vault} {target : LayerId} {root : NodeHash}
    (kind : s.1.request.kind = .snapshot) (phase : s.1.phase = .visiting target [root])
    (acyclic : s.2.trie.Acyclic root) :
    ∃ order all, s.2.trie.Preorder [root] order ∧ all = s.2.transfer .snapshot target order ∧
      (all.answer = .ok () → all.copies.map Copy.hash = order) ∧
      (∀ e, all.answer = .error e → ∃ hash rest,
        order = all.copies.map Copy.hash ++ hash :: rest ∧
          Vault.Stops .snapshot target s.2 (all.copies.map Copy.hash) hash e) ∧
      ((∀ h ∈ order, (s.2.trie h).isSome = true) → s.2.Accepts target → all.answer = .ok ()) ∧
      ∀ turns s', run? s turns = some s' →
        (∃ done, done <+: order ∧ Mirrors s s' (s.2.transfer .snapshot target done)) ∧
        (∀ outcome, s'.1.phase = .ended outcome → Mirrors s s' all) ∧
        turns.countP Turn.isOwn ≤ 2 * order.length + 1 ∧ GoesOn s' := by
  obtain ⟨order, preorder⟩ := acyclic.exists_preorder s.2.finite_trie
  refine ⟨order, _, preorder, rfl, Vault.hash_transfer, fun _ => Vault.stops_of_transfer,
    Vault.answer_transfer, fun turns s' ran => ?_⟩
  have start : Ordered target order s order s :=
    ⟨.refl s, ⟨[], rfl, .begin .snapshot phase⟩, .inl ⟨[root], .of_visiting phase, preorder⟩⟩
  have keeps (n : Nat) (s₁ : Walk × Vault) (t : Turn) (s₂ : Walk × Vault)
      (h : ∃ left, left.length = n ∧ Ordered target order s left s₁) (turned : Turned s₁ t s₂) :
      ∃ n', (∃ left, left.length = n' ∧ Ordered target order s left s₂) ∧
        movesLeft n' s₂.1.phase + (if t.isOwn then 1 else 0) ≤ movesLeft n s₁.1.phase := by
    obtain ⟨left, rfl, ordered⟩ := h
    obtain ⟨left', ordered', less⟩ := ordered.turn kind turned
    exact ⟨_, ⟨left', rfl, ordered'⟩, less⟩
  obtain ⟨n, ⟨left, rfl, ordered⟩, paid⟩ := run?_keeps keeps ⟨order, rfl, start⟩ ran
  obtain ⟨done, order_, mirrors⟩ := ordered.done
  refine ⟨⟨done, ⟨left, order_.symm⟩, mirrors⟩, fun outcome ended => ?_, ?_, ?_⟩
  · rcases ordered.phase with ⟨stack, here, -⟩ | ⟨-, rfl⟩ | ⟨cause, failed⟩
    · rw [ended] at here
      cases here
    · rw [order_, List.append_nil]
      exact mirrors
    · -- what stopped the walk stops the copying
      have answer := mirrors.answer
      rw [failed] at answer
      rw [order_, Vault.transfer_append_of_error (Option.some.inj answer).symm]
      exact mirrors
  · have := mirrors.two_le_movesLeft left.length
    rw [phase] at paid
    simp only [movesLeft] at paid this
    omega
  · exact mirrors.goesOn

/-- The leaf is below the root twice, so it is copied and sent twice. -/
theorem fork_preorder : ∃ s', run? (forkWalk .snapshot, forkVault) (forkTurns .snapshot) = some s' ∧
    s'.1.phase = .ended .complete ∧ s'.1.request.received = [⟨[1], [2]⟩] ∧
    Mirrors (forkWalk .snapshot, forkVault) s'
      (forkVault.transfer .snapshot .checkpoints [forkHash, leafHash, leafHash]) := by
  obtain ⟨root, leaf, -, -, ran, -⟩ := fork_facts
  obtain ⟨s', ran, ended, received⟩ := exists_of_run? ran
  have found := Vault.trie_eq_some.2 root
  have found' := Vault.trie_eq_some.2 leaf
  have unfolds : forkVault.trie.Unfolds [forkHash] [forkHash, leafHash, leafHash] :=
    .cons found (.cons found' (.cons found' .nil))
  have acyclic := ((Trie.exists_unfolds_iff forkVault.finite_trie).1 ⟨_, unfolds⟩).2
  have traversal : forkVault.trie.Preorder [forkHash] [forkHash, leafHash, leafHash] :=
    .node found (.node found' .nil (.node found' .nil .nil)) .nil
  obtain ⟨order, _, preorder, rfl, -, -, -, runs⟩ :=
    snapshot_preorder (s := (forkWalk .snapshot, forkVault)) rfl rfl acyclic
  obtain rfl := traversal.unique preorder
  exact ⟨s', ran, ended, received, (runs _ _ ran).2.1 _ ended⟩

end Walk

end TrieStorage

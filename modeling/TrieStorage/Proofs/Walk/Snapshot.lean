import TrieStorage.Proofs.Walk.Solo
import TrieStorage.Proofs.Walk.Trie

/-!
# Snapshots

A snapshot passes over nothing, so it makes the visits that its root unfolds to,
one after the other, and copies what it visits.  If its root does not unfold, it
cannot end completely.
-/

namespace TrieStorage

namespace Walk

/-- A bound on the moves that a walk still makes, with so many visits to go. -/
def movesLeft (visits : Nat) : WalkPhase → Nat
  | .starting => 2 * visits + 4
  | .visiting _ _ => 2 * visits + 3
  | .sending _ _ _ => 2 * visits + 4
  | .ended _ => 2
  | .released _ => 1

theorem movesLeft_atStack_le {target : LayerId} {stack : List NodeHash} {phase : WalkPhase}
    (here : AtStack target stack phase) (visits : Nat) : movesLeft visits phase ≤ 2 * visits + 4 := by
  cases here with
  | visiting => exact Nat.le_succ _
  | sending leaf => exact Nat.le_refl _

theorem noteCopied_snapshot {r : Request} (kind : r.kind = .snapshot) (v : Vault)
    (hash : NodeHash) : noteCopied v r.kind hash = v := by
  rw [kind]
  rfl

theorem Alike.trie {s s' : Walk × Vault} (h : Alike s s') : s'.2.trie = s.2.trie := by
  funext hash
  unfold Vault.trie
  rw [h.readNode]

/-! ## A snapshot that nothing stops -/

/-- How far a snapshot has come whose root unfolds to `order` and whose target
takes puts: `left` is still to be visited, and the rest has been copied. -/
structure Copying (target : LayerId) (order : List NodeHash) (start : Walk × Vault)
    (left : List NodeHash) (s : Walk × Vault) : Prop where
  kind : s.1.request.kind = .snapshot
  alike : Alike start s
  accepts : s.2.Accepts target
  copied : ∀ h ∈ order, h ∈ left ∨ ∃ p, start.2.trie h = some p ∧ s.2.Holds target h.bytes p.1
  phase : (∃ stack, AtStack target stack s.1.phase ∧ start.2.trie.Unfolds stack left) ∨
    s.1.phase = .ended .complete ∧ left = []

namespace Copying

variable {target : LayerId} {order left : List NodeHash} {start : Walk × Vault} {w : Walk}
  {v : Vault}

theorem begin {root : NodeHash} (kind : start.1.request.kind = .snapshot)
    (phase : start.1.phase = .visiting target [root]) (accepts : start.2.Accepts target)
    (unfolds : start.2.trie.Unfolds [root] order) : Copying target order start order start :=
  ⟨kind, .refl start, accepts, fun _ h => .inl h, .inl ⟨[root], .of_visiting phase, unfolds⟩⟩

theorem unfolds_of_visiting {target' : LayerId} {stack : List NodeHash}
    (h : Copying target order start left (w, v)) (phase : w.phase = .visiting target' stack) :
    target' = target ∧ start.2.trie.Unfolds stack left := by
  rcases h.phase with ⟨stack', here, unfolds⟩ | ⟨ended, -⟩
  · obtain ⟨same, same'⟩ := here.unique (.of_visiting phase)
    subst same same'
    exact ⟨rfl, unfolds⟩
  · rw [show w.phase = _ from ended] at phase
    cases phase

theorem visit {target' : LayerId} {stack : List NodeHash}
    (h : Copying target order start left (w, v)) (phase : w.phase = .visiting target' stack) :
    ∃ left', Copying target order start left' (w.visit false v target' stack) ∧
      movesLeft left'.length (w.visit false v target' stack).1.phase <
        movesLeft left.length w.phase := by
  obtain ⟨rfl, unfolds⟩ := h.unfolds_of_visiting phase
  have alike := h.alike.trans (alike_visit false w v target' stack)
  have kind := alike.kind.trans (h.alike.kind.symm.trans h.kind)
  have visited := visited false w v target' stack
  generalize w.visit false v target' stack = next at alike kind visited ⊢
  obtain ⟨w', v'⟩ := next
  simp only at visited
  rw [phase]
  cases visited with
  | through =>
    cases unfolds
    exact ⟨[], ⟨kind, alike, h.accepts, h.copied, .inr ⟨rfl, rfl⟩⟩, by simp [inPhase, movesLeft]⟩
  | cancelled shut => cases shut
  | passed _ skipped =>
    rw [skips_snapshot h.kind] at skipped
    cases skipped
  | @unread hash rest e _ _ read =>
    cases unfolds with
    | cons node _ =>
      rw [← h.alike.trie, Vault.trie_eq_some, show readNode _ hash = _ from read] at node
      cases node
  | @unwritten hash rest encoded node e _ _ _ _ written =>
    obtain ⟨v'', accepted, -⟩ := h.accepts.putInto hash.bytes encoded
    rw [show v.putInto target' hash.bytes encoded = _ from written] at accepted
    cases accepted
  | @copied hash rest encoded node v₁ _ _ read written =>
    cases unfolds with
    | @cons _ _ order' p node' later =>
      have found : start.2.trie hash = some (encoded, node) := by
        rw [← h.alike.trie, Vault.trie_eq_some]
        exact read
      rw [found] at node'
      cases node'
      have goesOn := atStack_afterCopy w.request target' node rest
      obtain ⟨v'', accepted, still⟩ := h.accepts.putInto hash.bytes encoded
      rw [show v.putInto target' hash.bytes encoded = _ from written] at accepted
      cases accepted
      rw [noteCopied_snapshot h.kind] at alike ⊢
      refine ⟨order', ⟨kind, alike, still, fun d mem => ?_, .inl ⟨_, goesOn, later⟩⟩, ?_⟩
      · by_cases own : d = hash
        · subst own
          exact .inr ⟨_, found, Vault.holds_of_putInto written⟩
        · rcases h.copied d mem with mem | ⟨q, at_, holds⟩
          · exact .inl ((List.mem_cons.1 mem).resolve_left own)
          · refine .inr ⟨q, at_, holds.of_putInto (fun same => ?_) written⟩
            exact absurd (NodeHash.ext same) own
      · have := movesLeft_atStack_le goesOn order'.length
        simp only [movesLeft, List.length_cons] at this ⊢
        omega

theorem send {target' : LayerId} {leaf : Leaf} {stack : List NodeHash}
    (h : Copying target order start left (w, v)) (phase : w.phase = .sending target' leaf stack) :
    Copying target order start left (w.send false target' leaf stack, v) ∧
      movesLeft left.length (w.send false target' leaf stack).phase <
        movesLeft left.length w.phase := by
  rw [phase]
  refine ⟨⟨h.kind, h.alike.trans ⟨stub_send .., fun _ => rfl, rfl, rfl⟩, h.accepts, h.copied, ?_⟩,
    Nat.lt_succ_self _⟩
  rcases h.phase with ⟨stack', here, unfolds⟩ | ⟨ended, -⟩
  · obtain ⟨rfl, rfl⟩ := here.unique (.of_sending phase)
    exact .inl ⟨stack', .visiting, unfolds⟩
  · rw [show w.phase = _ from ended] at phase
    cases phase

theorem reader {change : Request → Request} (h : Copying target order start left (w, v))
    (hc : ReaderChange change) :
    Copying target order start left ({ w with request := change w.request }, v) := by
  have alike := h.alike.trans (Step.reader (w := w) (v := v) hc).alike
  exact ⟨alike.kind.trans (h.alike.kind.symm.trans h.kind), alike, h.accepts, h.copied, h.phase⟩

end Copying

/-! ## A snapshot whose root does not unfold -/

/-- A snapshot that cannot end completely. -/
structure Lost (start s : Walk × Vault) : Prop where
  kind : s.1.request.kind = .snapshot
  alike : Alike start s
  phase : (∃ target stack, AtStack target stack s.1.phase ∧
      ∀ order, ¬ start.2.trie.Unfolds stack order) ∨
    ∃ outcome, s.1.phase = .ended outcome ∧ outcome ≠ .complete

namespace Lost

variable {start s s' : Walk × Vault}

theorem visit {w : Walk} {v : Vault} {target : LayerId} {stack : List NodeHash}
    (h : Lost start (w, v)) (phase : w.phase = .visiting target stack) :
    Lost start (w.visit false v target stack) := by
  have alike := h.alike.trans (alike_visit false w v target stack)
  have kind := alike.kind.trans (h.alike.kind.symm.trans h.kind)
  have endless : ∀ order, ¬ start.2.trie.Unfolds stack order := by
    rcases h.phase with ⟨target', stack', here, endless⟩ | ⟨outcome, ended, -⟩
    · obtain ⟨-, rfl⟩ := here.unique (.of_visiting phase)
      exact endless
    · rw [show w.phase = _ from ended] at phase
      cases phase
  have visited := visited false w v target stack
  generalize w.visit false v target stack = next at alike kind visited ⊢
  obtain ⟨w', v'⟩ := next
  simp only at visited
  cases visited with
  | through => exact absurd .nil (endless [])
  | cancelled shut => cases shut
  | passed _ skipped =>
    rw [skips_snapshot h.kind] at skipped
    cases skipped
  | unread => exact ⟨kind, alike, .inr ⟨_, rfl, nofun⟩⟩
  | unwritten => exact ⟨kind, alike, .inr ⟨_, rfl, nofun⟩⟩
  | @copied hash rest encoded node v₁ _ _ read _ =>
    have found : start.2.trie hash = some (encoded, node) := by
      rw [← h.alike.trie, Vault.trie_eq_some]
      exact read
    refine ⟨kind, alike, .inl ⟨target, _, atStack_afterCopy .., fun order later => ?_⟩⟩
    exact endless _ (.cons found later)

theorem step (h : Lost start s) (hs : Step s s') : Lost start s' := by
  have alike := h.alike.trans hs.alike
  have kind := hs.alike.kind.trans h.kind
  cases hs with
  | visit phase => exact h.visit phase
  | @send w v target leaf stack phase _ =>
    refine ⟨kind, alike, ?_⟩
    rcases h.phase with ⟨target', stack', here, endless⟩ | ⟨outcome, ended, -⟩
    · obtain ⟨-, rfl⟩ := here.unique (.of_sending phase)
      exact .inl ⟨target, stack', .visiting, endless⟩
    · rw [show w.phase = _ from ended] at phase
      cases phase
  | reader _ => exact ⟨kind, alike, h.phase⟩

end Lost

end Walk

end TrieStorage

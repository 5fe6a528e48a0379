import TrieStorage.Proofs.Manager.Tracker
import TrieStorage.Proofs.Walk.Solo
import TrieStorage.Proofs.Walk.Trie

/-!
# Checkpoints

A checkpoint passes over a hash that is not pending together with everything
below it, which is right as long as nothing below such a hash is pending.  Under
that condition a checkpoint that is not stopped copies every pending node.  One
that is stopped after it has copied something leaves the root not pending above a
pending node, and from then on the trie is passed over as a whole.
-/

namespace TrieStorage

namespace Trie

/-- Below the root, no hash that is not pending has a pending one below it. -/
def Settled (t : Trie) (root : NodeHash) (tracker : Tracker) : Prop :=
  ∀ h, t.Reach root h → tracker.shouldCommit h = false →
    ∀ d, t.Reach h d → tracker.shouldCommit d = false

theorem Settled.pending_above {t : Trie} {root h d : NodeHash} {tracker : Tracker}
    (settled : t.Settled root tracker) (reach : t.Reach root h) (below : t.Reach h d)
    (pending : tracker.shouldCommit d = true) : tracker.shouldCommit h = true := by
  by_contra not
  have := settled h reach (by simpa using not) d below
  rw [pending] at this
  cases this

/-! ## Ways down through pending hashes -/

/-- A way down on which every hash is pending, both ends included. -/
inductive Path (t : Trie) (tracker : Tracker) : NodeHash → NodeHash → Prop where
  | here {h : NodeHash} (pending : tracker.shouldCommit h = true) : Path t tracker h h
  | down {s h d : NodeHash} (path : Path t tracker s h) (child : t.Child h d)
      (pending : tracker.shouldCommit d = true) : Path t tracker s d

theorem Path.pending {t : Trie} {tracker : Tracker} {s h : NodeHash}
    (path : Path t tracker s h) : tracker.shouldCommit s = true := by
  induction path with
  | here pending => exact pending
  | down _ _ _ ih => exact ih

/-- To a pending hash of a settled trie, every hash on the way is pending. -/
theorem Settled.path {t : Trie} {root h : NodeHash} {tracker : Tracker}
    (settled : t.Settled root tracker) (reach : t.Reach root h)
    (pending : tracker.shouldCommit h = true) : Path t tracker root h := by
  induction reach with
  | refl => exact .here pending
  | tail above child ih =>
    have := settled.pending_above above (.single child) pending
    exact .down (ih this) child pending

/-- When a hash is no longer pending, a way that led through it goes on from one
of its children. -/
theorem Path.remove {t : Trie} {tracker : Tracker} {s h x : NodeHash}
    (path : Path t tracker s h) (ne : h ≠ x) :
    Path t (tracker.remove x) s h ∨ ∃ c, t.Child x c ∧ Path t (tracker.remove x) c h := by
  induction path with
  | here pending => exact .inl (.here (Tracker.shouldCommit_remove.2 ⟨pending, ne⟩))
  | @down h d _ child pending ih =>
    have still := Tracker.shouldCommit_remove.2 ⟨pending, ne⟩
    by_cases last : h = x
    · subst last
      exact .inr ⟨d, child, .here still⟩
    · rcases ih last with path | ⟨c, first, path⟩
      · exact .inl (.down path child still)
      · exact .inr ⟨c, first, .down path child still⟩

/-- A stack from which ways lead to every pending hash of the trie. -/
structure Covers (t : Trie) (root : NodeHash) (tracker : Tracker) (stack : List NodeHash) :
    Prop where
  below : ∀ x ∈ stack, t.Reach root x
  leads : ∀ h, t.Reach root h → tracker.shouldCommit h = true → ∃ x ∈ stack, Path t tracker x h

namespace Covers

variable {t : Trie} {root hash : NodeHash} {tracker : Tracker} {rest : List NodeHash}

theorem start (settled : t.Settled root tracker) : Covers t root tracker [root] := by
  refine ⟨?_, fun h reach pending => ?_⟩
  · intro x hx
    rw [List.mem_singleton.1 hx]
    exact .refl
  · exact ⟨root, List.mem_singleton_self _, settled.path reach pending⟩

/-- No way leads through a hash that is not pending. -/
theorem pass (h : Covers t root tracker (hash :: rest))
    (notPending : tracker.shouldCommit hash = false) : Covers t root tracker rest := by
  refine ⟨fun x hx => h.below x (List.mem_cons_of_mem _ hx), fun d reach pending => ?_⟩
  obtain ⟨x, hx, path⟩ := h.leads d reach pending
  rcases List.mem_cons.1 hx with rfl | hx
  · rw [path.pending] at notPending
    cases notPending
  · exact ⟨x, hx, path⟩

/-- The children take the place of a node that has been copied. -/
theorem copy (h : Covers t root tracker (hash :: rest)) {p : Bytes × Node}
    (node : t hash = some p) : Covers t root (tracker.remove hash) (p.2.children ++ rest) := by
  have reach := h.below hash List.mem_cons_self
  refine ⟨fun x hx => ?_, fun d below pending => ?_⟩
  · rcases List.mem_append.1 hx with child | hx
    · exact reach.tail ⟨p, node, child⟩
    · exact h.below x (List.mem_cons_of_mem _ hx)
  · obtain ⟨pending, ne⟩ := Tracker.shouldCommit_remove.1 pending
    obtain ⟨x, hx, path⟩ := h.leads d below pending
    rcases path.remove ne with path | ⟨c, ⟨q, same, child⟩, path⟩
    · rcases List.mem_cons.1 hx with rfl | hx
      · exact absurd rfl (Tracker.shouldCommit_remove.1 path.pending).2
      · exact ⟨x, List.mem_append_right _ hx, path⟩
    · rw [node] at same
      cases same
      exact ⟨c, List.mem_append_left _ child, path⟩

end Covers

end Trie

namespace Vault

/-- What can be read of a trie is what the trie has. -/
def Stores (v : Vault) (t : Trie) (root : NodeHash) : Prop :=
  ∀ h p, t.Reach root h → Walk.readNode v h = .ok p → t h = some p

/-- Every pending node of a trie can be read. -/
def Provides (v : Vault) (t : Trie) (root : NodeHash) : Prop :=
  ∀ h, t.Reach root h → v.tracker.shouldCommit h = true →
    ∃ p, Walk.readNode v h = .ok p ∧ t h = some p

end Vault

namespace Walk

theorem pending_of_due {r : Request} (kind : r.kind = .checkpoint) {v : Vault} {hash : NodeHash}
    (due : skips v r.kind hash = false) : v.tracker.shouldCommit hash = true := by
  simpa [skips, kind] using due

theorem not_pending_of_skipped {r : Request} (kind : r.kind = .checkpoint) {v : Vault}
    {hash : NodeHash} (skipped : skips v r.kind hash = true) :
    v.tracker.shouldCommit hash = false := by
  simpa [skips, kind] using skipped

theorem noteCopied_checkpoint {r : Request} (kind : r.kind = .checkpoint) (v : Vault)
    (hash : NodeHash) : noteCopied v r.kind hash = { v with tracker := v.tracker.remove hash } := by
  rw [kind]
  rfl

theorem tracker_of_putInto {v v' : Vault} {target : LayerId} {key value : Bytes}
    {answer : Except StoreError Unit} (written : v.putInto target key value = (answer, v')) :
    v'.tracker = v.tracker := by
  rw [Vault.eq_of_putInto written]

/-! ## A checkpoint that is stopped -/

/-- How far a checkpoint has come.  As long as the root is pending nothing has
been copied, and what stops the walk leaves a pending hash behind. -/
structure Attempt (t : Trie) (root : NodeHash) (start s : Walk × Vault) : Prop where
  kind : s.1.request.kind = .checkpoint
  alike : Alike start s
  pending : ∀ h, s.2.tracker.shouldCommit h = true → start.2.tracker.shouldCommit h = true
  below : ∀ target stack, AtStack target stack s.1.phase → ∀ x ∈ stack, t.Reach root x
  fresh : s.2.tracker.shouldCommit root = true → s.2.tracker = start.2.tracker ∧
    ∀ target stack, AtStack target stack s.1.phase → stack = [root]
  failed : ∀ cause, s.1.phase = .ended (.failed cause) →
    ∃ x, t.Reach root x ∧ s.2.tracker.shouldCommit x = true

namespace Attempt

variable {t : Trie} {root : NodeHash} {start s s' : Walk × Vault}

theorem begin {target : LayerId} (kind : start.1.request.kind = .checkpoint)
    (phase : start.1.phase = .visiting target [root]) : Attempt t root start start := by
  refine ⟨kind, .refl start, fun _ h => h, ?_, fun _ => ⟨rfl, ?_⟩, ?_⟩
  all_goals rw [phase]
  · intro _ _ h x hx
    cases h
    rw [List.mem_singleton.1 hx]
    exact .refl
  · intro _ _ h
    cases h
    rfl
  · intro _ h
    cases h

/-- A visit of an attempt; a failure leaves the hash it is about pending. -/
theorem visit {w : Walk} {v : Vault} {target : LayerId} {stack : List NodeHash}
    (stores : start.2.Stores t root) (h : Attempt t root start (w, v))
    (phase : w.phase = .visiting target stack) :
    Attempt t root start (w.visit false v target stack) := by
  have alike := h.alike.trans (alike_visit false w v target stack)
  have kind := alike.kind.trans (h.alike.kind.symm.trans h.kind)
  have here := AtStack.of_visiting phase
  have below := h.below target stack here
  have fresh (pending : v.tracker.shouldCommit root = true) :
      v.tracker = start.2.tracker ∧ stack = [root] :=
    ⟨(h.fresh pending).1, (h.fresh pending).2 target stack here⟩
  have visited := visited false w v target stack
  generalize w.visit false v target stack = next at alike kind visited ⊢
  obtain ⟨w', v'⟩ := next
  simp only at visited
  cases visited with
  | through =>
    exact ⟨kind, alike, h.pending, nofun, fun pending => ⟨(fresh pending).1, nofun⟩, nofun⟩
  | cancelled shut => cases shut
  | @passed hash rest _ skipped =>
    refine ⟨kind, alike, h.pending, ?_, ?_, nofun⟩
    · intro _ _ at_ x hx
      cases at_
      exact below x (List.mem_cons_of_mem _ hx)
    · intro pending
      have same := (fresh pending).2
      have notPending := not_pending_of_skipped h.kind skipped
      rw [(List.cons.inj same).1, pending] at notPending
      cases notPending
  | @unread hash rest e _ due read =>
    refine ⟨kind, alike, h.pending, nofun, fun pending => ⟨(fresh pending).1, nofun⟩, fun _ _ => ?_⟩
    exact ⟨hash, below hash List.mem_cons_self, pending_of_due h.kind due⟩
  | @unwritten hash rest encoded node e _ _ due read written =>
    have same := tracker_of_putInto written
    refine ⟨kind, alike, ?_, nofun, fun pending => ?_, fun _ _ => ?_⟩
    · rw [same]
      exact h.pending
    · rw [same] at pending ⊢
      exact ⟨(fresh pending).1, nofun⟩
    · rw [same]
      exact ⟨hash, below hash List.mem_cons_self, pending_of_due h.kind due⟩
  | @copied hash rest encoded node v₁ _ due read written =>
    have node_ : t hash = some (encoded, node) := by
      refine stores hash _ (below hash List.mem_cons_self) ?_
      rw [← h.alike.readNode]
      exact read
    have tracker : (noteCopied v₁ w.request.kind hash).tracker = v.tracker.remove hash := by
      rw [noteCopied_checkpoint h.kind, tracker_of_putInto written]
    refine ⟨kind, alike, ?_, ?_, ?_, ?_⟩
    · intro d pending
      rw [tracker] at pending
      exact h.pending d (Tracker.shouldCommit_remove.1 pending).1
    · intro tgt st at_ x hx
      rw [(at_.unique (atStack_afterCopy ..)).2] at hx
      rcases List.mem_append.1 hx with child | hx
      · exact (below hash List.mem_cons_self).tail ⟨_, node_, child⟩
      · exact below x (List.mem_cons_of_mem _ hx)
    · rw [tracker]
      intro pending
      obtain ⟨pending, ne⟩ := Tracker.shouldCommit_remove.1 pending
      exact absurd (List.cons.inj (fresh pending).2).1.symm ne
    · intro cause ended
      have ended : afterCopy w.request target node rest = .ended (.failed cause) := ended
      have goesOn := atStack_afterCopy w.request target node rest
      rw [ended] at goesOn
      cases goesOn

theorem step (stores : start.2.Stores t root) (h : Attempt t root start s) (hs : Step s s') :
    Attempt t root start s' := by
  have alike := h.alike.trans hs.alike
  have kind := hs.alike.kind.trans h.kind
  cases hs with
  | visit phase => exact h.visit stores phase
  | @send w v target leaf stack phase _ =>
    have here := AtStack.of_sending phase
    refine ⟨kind, alike, h.pending, ?_, fun pending => ⟨(h.fresh pending).1, ?_⟩, nofun⟩
    · intro _ _ at_
      cases at_
      exact h.below target stack here
    · intro _ _ at_
      cases at_
      exact (h.fresh pending).2 target stack here
  | reader _ => exact ⟨kind, alike, h.pending, h.below, h.fresh, h.failed⟩

theorem leads {target : LayerId} (kind : start.1.request.kind = .checkpoint)
    (phase : start.1.phase = .visiting target [root]) (stores : start.2.Stores t root)
    (h : Leads start s) : Attempt t root start s := by
  induction h with
  | refl => exact begin kind phase
  | tail _ last ih => exact ih.step stores last

end Attempt

/-! ## A checkpoint that nothing stops -/

/-- How far a checkpoint has come whose target takes puts and whose pending nodes
can be read. -/
structure Sweep (t : Trie) (root : NodeHash) (target : LayerId) (start s : Walk × Vault) :
    Prop where
  kind : s.1.request.kind = .checkpoint
  alike : Alike start s
  accepts : s.2.Accepts target
  pending : ∀ h, s.2.tracker.shouldCommit h = true → start.2.tracker.shouldCommit h = true
  copied : ∀ h, t.Reach root h → start.2.tracker.shouldCommit h = true →
    s.2.tracker.shouldCommit h = false → ∃ p, t h = some p ∧ s.2.Holds target h.bytes p.1
  phase : (∃ stack, AtStack target stack s.1.phase ∧ t.Covers root s.2.tracker stack) ∨
    s.1.phase = .ended .complete ∧ t.Covers root s.2.tracker []

namespace Sweep

variable {t : Trie} {root : NodeHash} {target : LayerId} {start s s' : Walk × Vault}

theorem begin (kind : start.1.request.kind = .checkpoint)
    (phase : start.1.phase = .visiting target [root]) (accepts : start.2.Accepts target)
    (settled : t.Settled root start.2.tracker) : Sweep t root target start start := by
  refine ⟨kind, .refl start, accepts, fun _ h => h, fun h _ pending not => ?_,
    .inl ⟨[root], .of_visiting phase, .start settled⟩⟩
  rw [pending] at not
  cases not

theorem atStack {target' : LayerId} {stack : List NodeHash} (h : Sweep t root target start s)
    (here : AtStack target' stack s.1.phase) :
    target' = target ∧ t.Covers root s.2.tracker stack := by
  rcases h.phase with ⟨stack', at_, covers⟩ | ⟨ended, -⟩
  · obtain ⟨rfl, rfl⟩ := here.unique at_
    exact ⟨rfl, covers⟩
  · rw [ended] at here
    cases here

/-- A visit of a sweep reads, puts and goes on. -/
theorem visit {w : Walk} {v : Vault} {stack : List NodeHash} (provides : start.2.Provides t root)
    (h : Sweep t root target start (w, v)) (phase : w.phase = .visiting target stack) :
    Sweep t root target start (w.visit false v target stack) := by
  have alike := h.alike.trans (alike_visit false w v target stack)
  have kind := alike.kind.trans (h.alike.kind.symm.trans h.kind)
  have covers := (h.atStack (.of_visiting phase)).2
  -- a pending hash on the stack can be read, now as at the start
  have readable (hash : NodeHash) (hx : hash ∈ stack) (pending : v.tracker.shouldCommit hash = true) :
      ∃ p, readNode v hash = .ok p ∧ t hash = some p := by
    obtain ⟨p, read, node⟩ := provides hash (covers.below hash hx) (h.pending hash pending)
    exact ⟨p, (h.alike.readNode hash).trans read, node⟩
  have visited := visited false w v target stack
  generalize w.visit false v target stack = next at alike kind visited ⊢
  obtain ⟨w', v'⟩ := next
  simp only at visited
  cases visited with
  | through => exact ⟨kind, alike, h.accepts, h.pending, h.copied, .inr ⟨rfl, covers⟩⟩
  | cancelled shut => cases shut
  | @passed hash rest _ skipped =>
    have covers := covers.pass (not_pending_of_skipped h.kind skipped)
    exact ⟨kind, alike, h.accepts, h.pending, h.copied, .inl ⟨rest, .visiting, covers⟩⟩
  | @unread hash rest e _ due read =>
    obtain ⟨p, ok, -⟩ := readable hash List.mem_cons_self (pending_of_due h.kind due)
    rw [read] at ok
    cases ok
  | @unwritten hash rest encoded node e _ _ due read written =>
    obtain ⟨_, taken, -⟩ := h.accepts.putInto hash.bytes encoded
    rw [written] at taken
    cases taken
  | @copied hash rest encoded node v₁ _ due read written =>
    obtain ⟨p, ok, node_⟩ := readable hash List.mem_cons_self (pending_of_due h.kind due)
    rw [read] at ok
    cases ok
    have tracker : (noteCopied v₁ w.request.kind hash).tracker = v.tracker.remove hash := by
      rw [noteCopied_checkpoint h.kind, tracker_of_putInto written]
    refine ⟨kind, alike, ?_, ?_, ?_, .inl ⟨_, atStack_afterCopy .., ?_⟩⟩
    · obtain ⟨_, taken, accepts⟩ := h.accepts.putInto hash.bytes encoded
      rw [written] at taken
      cases taken
      exact (accepts_noteCopied ..).2 accepts
    · intro d pending
      rw [tracker] at pending
      exact h.pending d (Tracker.shouldCommit_remove.1 pending).1
    · intro d reach before after
      rw [tracker] at after
      by_cases own : d = hash
      · subst own
        exact ⟨_, node_, (holds_noteCopied ..).2 (Vault.holds_of_putInto written)⟩
      · have after : v.tracker.shouldCommit d = false := by
          by_contra pending
          have := Tracker.shouldCommit_remove.2 ⟨by simpa using pending, own⟩
          rw [after] at this
          cases this
        obtain ⟨q, node', holds⟩ := h.copied d reach before after
        have agree : d.bytes = hash.bytes → q.1 = encoded := fun e => absurd (NodeHash.ext e) own
        exact ⟨q, node', (holds_noteCopied ..).2 (holds.of_putInto agree written)⟩
    · rw [tracker]
      exact covers.copy node_

theorem step (provides : start.2.Provides t root) (h : Sweep t root target start s)
    (hs : Step s s') : Sweep t root target start s' := by
  have alike := h.alike.trans hs.alike
  have kind := hs.alike.kind.trans h.kind
  cases hs with
  | visit phase =>
    obtain ⟨rfl, -⟩ := h.atStack (.of_visiting phase)
    exact h.visit provides phase
  | send phase _ =>
    obtain ⟨rfl, covers⟩ := h.atStack (.of_sending phase)
    exact ⟨kind, alike, h.accepts, h.pending, h.copied, .inl ⟨_, .visiting, covers⟩⟩
  | reader _ => exact ⟨kind, alike, h.accepts, h.pending, h.copied, h.phase⟩

theorem leads (provides : start.2.Provides t root) (h : Sweep t root target start s)
    (hs : Leads s s') : Sweep t root target start s' := by
  induction hs with
  | refl => exact h
  | tail _ last ih => exact ih.step provides last

/-- What a visit of a checkpoint does to the work that is left. -/
theorem load_visit {w : Walk} (kind : w.request.kind = .checkpoint) (v : Vault)
    (target : LayerId) (hash : NodeHash) (rest : List NodeHash) :
    (w.visit false v target (hash :: rest)).1.phase = .visiting target rest ∧
        (w.visit false v target (hash :: rest)).2.tracker = v.tracker ∨
      (w.visit false v target (hash :: rest)).2.tracker.load < v.tracker.load ∨
      ∃ cause, (w.visit false v target (hash :: rest)).1.phase = .ended (.failed cause) := by
  have visited := visited false w v target (hash :: rest)
  generalize w.visit false v target (hash :: rest) = next at visited ⊢
  obtain ⟨w', v'⟩ := next
  simp only at visited
  cases visited with
  | cancelled shut => cases shut
  | passed _ _ => exact .inl ⟨rfl, rfl⟩
  | unread _ _ _ => exact .inr (.inr ⟨_, rfl⟩)
  | unwritten _ _ _ _ => exact .inr (.inr ⟨_, rfl⟩)
  | copied _ due _ written =>
    refine .inr (.inl ?_)
    rw [noteCopied_checkpoint kind, tracker_of_putInto written]
    exact Tracker.load_remove_lt (pending_of_due kind due)

/-- A sweep comes to its end: every visit leaves fewer hashes pending, or fewer
on the stack. -/
theorem ends (provides : start.2.Provides t root) {w : Walk} {v : Vault} {stack : List NodeHash}
    (h : Sweep t root target start (w, v)) (phase : w.phase = .visiting target stack) :
    ∃ s', Leads (w, v) s' ∧ s'.1.phase = .ended .complete := by
  induction load : v.tracker.load using Nat.strongRecOn generalizing w v stack with
  | ind n fewer =>
    induction stack generalizing w v with
    | nil => exact ⟨_, .single (.visit phase), rfl⟩
    | cons hash rest shorter =>
      have first : Step (w, v) (w.visit false v target (hash :: rest)) := .visit phase
      have next := h.visit provides phase
      rcases load_visit h.kind v target hash rest with ⟨passed, same⟩ | less | ⟨cause, failed⟩
      · obtain ⟨s', later, ended⟩ := shorter next passed ((congrArg Tracker.load same).trans load)
        exact ⟨s', .head first later, ended⟩
      · rcases next.phase with ⟨stack', here, -⟩ | ⟨ended, -⟩
        · obtain ⟨s', later, phase', same⟩ := leads_visiting here
          rw [← same, load] at less
          obtain ⟨s'', last, ended⟩ := fewer _ less (next.leads provides later) phase' rfl
          exact ⟨s'', .head first (later.trans last), ended⟩
        · exact ⟨_, .single first, ended⟩
      · rcases next.phase with ⟨stack', here, -⟩ | ⟨ended, -⟩
        · rw [failed] at here
          cases here
        · rw [failed] at ended
          cases ended

end Sweep

/-- A checkpoint that cannot be stopped: it only ever ends completely, it can
always come to its end, and then its target has every node that was pending. -/
structure Succeeds (t : Trie) (root : NodeHash) (target : LayerId) (pending : Tracker)
    (s : Walk × Vault) : Prop where
  only : ∀ s' outcome, Leads s s' → s'.1.phase = .ended outcome → outcome = .complete
  copies : ∀ s', Leads s s' → s'.1.phase = .ended .complete → ∀ h, t.Reach root h →
    pending.shouldCommit h = true → ∃ p, t h = some p ∧ s'.2.Holds target h.bytes p.1
  ends : ∀ s', Leads s s' → (∃ outcome, s'.1.phase = .ended outcome) ∨
    ∃ s'', Leads s' s'' ∧ s''.1.phase = .ended .complete

/-- On a settled tracker, a checkpoint succeeds whose target takes puts and whose
pending nodes can be read. -/
theorem checkpoint_succeeds {t : Trie} {root : NodeHash} {target : LayerId} {s : Walk × Vault}
    (kind : s.1.request.kind = .checkpoint) (phase : s.1.phase = .visiting target [root])
    (settled : t.Settled root s.2.tracker) (provides : s.2.Provides t root)
    (accepts : s.2.Accepts target) : Succeeds t root target s.2.tracker s := by
  have sweep {s' : Walk × Vault} (h : Leads s s') : Sweep t root target s s' :=
    (Sweep.begin kind phase accepts settled).leads provides h
  refine ⟨fun s' outcome h ended => ?_, fun s' h ended d reach pending => ?_, fun s' h => ?_⟩
  · rcases (sweep h).phase with ⟨stack, here, -⟩ | ⟨complete, -⟩
    · rw [ended] at here
      cases here
    · rw [ended] at complete
      cases complete
      rfl
  · rcases (sweep h).phase with ⟨stack, here, -⟩ | ⟨-, covers⟩
    · rw [ended] at here
      cases here
    · refine (sweep h).copied d reach pending ?_
      by_contra left
      obtain ⟨x, hx, -⟩ := covers.leads d reach (by simpa using left)
      cases hx
  · rcases (sweep h).phase with ⟨stack, here, -⟩ | ⟨complete, -⟩
    · obtain ⟨s₁, later, phase', -⟩ := leads_visiting here
      obtain ⟨s₂, last, ended⟩ := Sweep.ends provides ((sweep h).leads provides later) phase'
      exact .inr ⟨s₂, later.trans last, ended⟩
    · exact .inl ⟨_, complete⟩

/-! ## A checkpoint of a root that is not pending -/

/-- A checkpoint of a root that is not pending is over at once. -/
structure Idle (root : NodeHash) (target : LayerId) (start s : Walk × Vault) : Prop where
  kind : s.1.request.kind = .checkpoint
  vault : s.2 = start.2
  phase : s.1.phase = .visiting target [root] ∨ s.1.phase = .visiting target [] ∨
    s.1.phase = .ended .complete

theorem Idle.step {root : NodeHash} {target : LayerId} {start s s' : Walk × Vault}
    (notPending : start.2.tracker.shouldCommit root = false) (h : Idle root target start s)
    (hs : Step s s') : Idle root target start s' := by
  have kind := hs.alike.kind.trans h.kind
  cases hs with
  | @visit w v tgt stack phase =>
    have same : v = start.2 := h.vault
    rcases h.phase with first | last | ended
    · rw [show w.phase = _ from first] at phase
      cases phase
      have skipped : skips v w.request.kind root = true := by
        have checkpoint : w.request.kind = .checkpoint := h.kind
        simp [skips, checkpoint, same, notPending]
      have visited : w.visit false v target [root] = (w.inPhase (.visiting target []), v) := by
        simp [visit, skipped]
      rw [visited] at kind ⊢
      exact ⟨kind, same, .inr (.inl rfl)⟩
    · rw [show w.phase = _ from last] at phase
      cases phase
      exact ⟨kind, same, .inr (.inr rfl)⟩
    · rw [show w.phase = _ from ended] at phase
      cases phase
  | @send w v tgt leaf stack phase _ =>
    rcases h.phase with first | last | ended
    · rw [show w.phase = _ from first] at phase
      cases phase
    · rw [show w.phase = _ from last] at phase
      cases phase
    · rw [show w.phase = _ from ended] at phase
      cases phase
  | reader _ => exact ⟨kind, h.vault, h.phase⟩

theorem Idle.leads {root : NodeHash} {target : LayerId} {start s : Walk × Vault}
    (kind : start.1.request.kind = .checkpoint) (phase : start.1.phase = .visiting target [root])
    (notPending : start.2.tracker.shouldCommit root = false) (h : Leads start s) :
    Idle root target start s := by
  induction h with
  | refl => exact ⟨kind, rfl, .inl phase⟩
  | tail _ last ih => exact ih.step notPending last

/-! ## Repeating a checkpoint that was stopped -/

/-- A checkpoint of a settled trie that is stopped leaves the trie settled if and
only if the root is still pending, which is to say that nothing has been copied.
Then nothing has become settled, and the checkpoint can be repeated: once the
fault is gone it succeeds and leaves in its target all that was pending before.
Otherwise some pending node has not been copied, and no later checkpoint of the
root into that target copies anything, fault or no fault. -/
theorem stopped_checkpoint {t : Trie} {root : NodeHash} {target : LayerId} {s s' : Walk × Vault}
    {cause : ManagerError} (kind : s.1.request.kind = .checkpoint)
    (phase : s.1.phase = .visiting target [root]) (stores : s.2.Stores t root)
    (settled : t.Settled root s.2.tracker) (ran : Leads s s')
    (stopped : s'.1.phase = .ended (.failed cause)) :
    (t.Settled root s'.2.tracker ↔ s'.2.tracker.shouldCommit root = true) ∧
    (s'.2.tracker.shouldCommit root = true → s'.2.tracker = s.2.tracker ∧
      ∀ again : Walk × Vault, again.1.request.kind = .checkpoint →
        again.1.phase = .visiting target [root] → again.2.tracker = s'.2.tracker →
        again.2.Provides t root → again.2.Accepts target →
          Succeeds t root target s.2.tracker again) ∧
    (s'.2.tracker.shouldCommit root = false →
      (∃ x, t.Reach root x ∧ s.2.tracker.shouldCommit x = true ∧
        s'.2.tracker.shouldCommit x = true) ∧
      ∀ again : Walk × Vault, again.1.request.kind = .checkpoint →
        again.1.phase = .visiting target [root] → again.2.tracker = s'.2.tracker →
          ∀ s'', Leads again s'' → s''.2 = again.2) := by
  have attempt := Attempt.leads kind phase stores ran
  obtain ⟨x, reach, pending⟩ := attempt.failed cause stopped
  refine ⟨⟨fun h => ?_, fun rootPending => ?_⟩, fun rootPending => ?_, fun rootSettled => ?_⟩
  · exact h.pending_above .refl reach pending
  · rw [(attempt.fresh rootPending).1]
    exact settled
  · have same := (attempt.fresh rootPending).1
    refine ⟨same, fun again kind' phase' tracker provides accepts => ?_⟩
    rw [← same, ← tracker]
    refine checkpoint_succeeds kind' phase' ?_ provides accepts
    rw [tracker, same]
    exact settled
  · refine ⟨⟨x, reach, attempt.pending x pending, pending⟩, ?_⟩
    intro again kind' phase' tracker s'' h
    refine (Idle.leads kind' phase' ?_ h).vault
    rw [tracker]
    exact rootSettled

/-! ### A leaf that is missing -/

def sampleTrie : Trie := fun h =>
  if h = rootHash then some (sampleRoot.encode, sampleRoot)
  else if h = leafHash then some (sampleLeaf.encode, sampleLeaf)
  else none

/-- Both nodes are pending, and the leaf is missing. -/
def sampleVault : Vault :=
  { storage :=
      { disk := {}
        main :=
          { name := .main, store := .memory { table := ⟨[(rootHash.bytes, sampleRoot.encode)]⟩ } }
        db := { name := .db, store := .memory {} }
        checkpoints := { name := .checkpoints, store := .memory {} } }
    tracker := { budget := 0, entries := [⟨rootHash, [rootHash, leafHash]⟩] } }

def sampleWalk : Walk :=
  { request := { id := 0, kind := .checkpoint, root := rootHash }
    phase := .visiting .checkpoints [rootHash] }

/-- The root has been visited. -/
def sampleNext : Walk × Vault := sampleWalk.visit false sampleVault .checkpoints [rootHash]

/-- The leaf has been visited too. -/
def sampleEnd : Walk × Vault := sampleNext.1.visit false sampleNext.2 .checkpoints [leafHash]

-- one evaluation for all of these, so that the digests are computed only once
theorem sample_facts : leafHash ≠ rootHash ∧
    readNode sampleVault rootHash = .ok (sampleRoot.encode, sampleRoot) ∧
    readNode sampleVault leafHash = .error (.missingNode leafHash) ∧
    sampleVault.tracker.shouldCommit rootHash = true ∧
    sampleVault.tracker.shouldCommit leafHash = true ∧
    sampleNext.1.phase = .visiting .checkpoints [leafHash] ∧
    sampleEnd.1.phase = .ended (.failed (.missingNode leafHash)) ∧
    sampleEnd.2.tracker.shouldCommit rootHash = false := by
  decide +kernel

theorem reach_sampleTrie {h : NodeHash} (reach : sampleTrie.Reach rootHash h) :
    h = rootHash ∨ h = leafHash := by
  have apart := sample_facts.1
  induction reach with
  | refl => exact .inl rfl
  | tail _ child ih =>
    obtain ⟨p, node, mem⟩ := child
    rcases ih with rfl | rfl
    · rw [sampleTrie, if_pos rfl] at node
      cases node
      exact .inr (List.mem_singleton.1 mem)
    · rw [sampleTrie, if_neg apart, if_pos rfl] at node
      cases node
      cases mem

/-- The root is copied, the leaf is not found, and the trie is no longer settled. -/
theorem sample_not_settled :
    Leads (sampleWalk, sampleVault) sampleEnd ∧
      sampleEnd.1.phase = .ended (.failed (.missingNode leafHash)) ∧
      sampleTrie.Settled rootHash sampleVault.tracker ∧
      ¬ sampleTrie.Settled rootHash sampleEnd.2.tracker := by
  obtain ⟨-, readRoot, readLeaf, rootPending, leafPending, next, stopped, rootSettled⟩ :=
    sample_facts
  have stores : sampleVault.Stores sampleTrie rootHash := by
    intro h p reach read
    rcases reach_sampleTrie reach with rfl | rfl
    · rw [readRoot] at read
      cases read
      exact if_pos rfl
    · rw [readLeaf] at read
      cases read
  have settled : sampleTrie.Settled rootHash sampleVault.tracker := by
    intro h reach notPending
    rcases reach_sampleTrie reach with rfl | rfl
    · rw [rootPending] at notPending
      cases notPending
    · rw [leafPending] at notPending
      cases notPending
  have first : Step (sampleWalk, sampleVault) sampleNext := .of_visiting rfl
  have second : Step sampleNext sampleEnd := .of_visiting next
  have ran : Leads (sampleWalk, sampleVault) sampleEnd := .tail (.single first) second
  refine ⟨ran, stopped, settled, fun h => ?_⟩
  have pending := (stopped_checkpoint rfl rfl stores settled ran stopped).1.1 h
  rw [rootSettled] at pending
  cases pending

/-- The root is tracked and checkpointed while the leaf is missing; then the leaf
is put, and the root is checkpointed again. -/
def stoppedRun : List Event :=
  [.action (.put rootHash.bytes sampleRoot.encode),
    .action (.addDirty rootHash [rootHash, leafHash]),
    .action (.submit .checkpoint rootHash none), .move (.grant 0), .move (.enqueue 0),
    .move (.dequeue .checkpoint), .move .launch, .move (.begin 0), .move (.visit 0),
    .move (.visit 0), .move (.release 0), .move (.finish 0),
    .action (.put leafHash.bytes sampleLeaf.encode),
    .action (.submit .checkpoint rootHash none), .move (.grant 1), .move (.enqueue 1),
    .move (.dequeue .checkpoint), .move .launch, .move (.begin 1), .move (.visit 1),
    .move (.visit 1), .move (.release 1), .move (.finish 1)]

/-- The second checkpoint copies nothing, although the leaf is pending and can be
read. -/
theorem stoppedRun_leaves_leaf : ∃ m,
    Manager.runFrom (Manager.inMemory {} none) {} stoppedRun = some m ∧
      (m.vault.tracker.shouldCommit rootHash = false ∧
        m.vault.tracker.shouldCommit leafHash = true ∧
        m.vault.lookup leafHash.bytes = some sampleLeaf.encode ∧
        m.vault.storage.peek .checkpoints leafHash.bytes = none ∧
        m.finished.map (fun r => r.stats.nodes) = [1, 0]) :=
  Manager.exists_of_runFrom (by decide +kernel)

end Walk

end TrieStorage

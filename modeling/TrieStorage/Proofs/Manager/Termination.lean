import Mathlib.Data.Finset.Card
import Mathlib.Data.Prod.Lex
import Mathlib.Order.WellFounded
import TrieStorage.Proofs.Manager.Accounts
import TrieStorage.Proofs.Manager.Alone
import TrieStorage.Proofs.Manager.PendingHashes
import TrieStorage.Proofs.Manager.Prohibitions

/-!
# The end of a checkpoint

Nothing is known of what a checkpoint walks through: stored nodes may be each other's children, and
a node that is copied puts all its children on the stack.  But a node is copied only if its hash is
pending, and after that it is not.  So a walk makes the pending hashes fewer, or leaves them as they
are and comes closer to its end; either way its moves run out, as long as nobody makes further
hashes pending.

* `step?_fares` says what an event does to a walk, `Course.step` what it does to the measure.
* `checkpoint_ends` draws the conclusions for endless runs.
-/

namespace TrieStorage

/-- The pending hashes, whichever commits they are recorded under. -/
def Tracker.pending (t : Tracker) : Finset NodeHash :=
  (t.entries.flatMap Pending.hashes).toFinset

theorem Tracker.mem_pending {t : Tracker} {hash : NodeHash} :
    hash ∈ t.pending ↔ t.shouldCommit hash = true := by
  rw [pending, List.mem_toFinset, List.mem_flatMap, shouldCommit_iff]

/-- How many moves a walk has ahead of it, if it passes over all that it has yet to visit. -/
def WalkPhase.ahead : WalkPhase → Nat
  | .starting => 5
  | .visiting _ stack => stack.length + 3
  | .sending _ _ stack => stack.length + 4
  | .ended _ => 2
  | .released _ => 1

/-- Whether an event is a move that the walk of a request makes. -/
def Event.isOwn (id : RequestId) (e : Event) : Bool := e.isMove && e.isOf id

namespace LeafSink

theorem capacity_offer (sink : LeafSink) (leaf : Leaf) :
    (sink.offer leaf).capacity = sink.capacity := by
  unfold offer
  split <;> rfl

theorem capacity_take (sink : LeafSink) : sink.take.2.capacity = sink.capacity := by
  unfold take
  split <;> rfl

theorem length_take_lt {sink : LeafSink} (full : 0 < sink.buffer.length) :
    sink.take.2.buffer.length < sink.buffer.length := by
  unfold take
  split
  · next empty => simp [empty] at full
  · next leaf rest some_ => simp [some_]

theorem length_take_le (sink : LeafSink) : sink.take.2.buffer.length ≤ sink.buffer.length := by
  unfold take
  split
  · exact Nat.le_refl _
  · next leaf rest some_ => simp [some_]

end LeafSink

/-- How many leaves the sink of a walk holds that its reader has not taken. -/
def Walk.unread (w : Walk) : Nat := (w.request.sink.map fun sink => sink.buffer.length).getD 0

namespace Manager

variable {m m' : Manager} {id : RequestId} {w : Walk} {e : Event}

/-! ## Events that do not concern a walk -/

theorem walk?_setWalk_of_ne {x : Walk} (ne : x.request.id ≠ id) :
    (m.setWalk x).walk? id = m.walk? id := by
  unfold walk? setWalk
  simp only [List.find?_map]
  have test : ((fun y : Walk => decide (y.request.id = id)) ∘
      fun y => if y.request.id = x.request.id then x else y) =
      fun y => decide (y.request.id = id) := by
    funext y
    by_cases own : y.request.id = x.request.id
    · simp [own, ne]
    · simp [own]
  rw [test]
  cases found : m.walks.find? fun y => decide (y.request.id = id) with
  | none => rfl
  | some y =>
    have number : y.request.id = id := by simpa using List.find?_some found
    rw [Option.map_some, if_neg (number ▸ Ne.symm ne)]

theorem walk?_move_other {mv : Move} (found : m.walk? id = some w)
    (other : (Event.move mv).isOf id = false) (h : m.move? mv = some m') :
    m'.walk? id = some w := by
  have ne {n : RequestId} (off : decide (n = id) = false) : n ≠ id := of_decide_eq_false off
  cases move?_walks h with
  | still walks _ _ =>
    rw [walk?, walks]
    exact found
  | launched r _ walks _ _ =>
    rw [walk?, walks, List.find?_append, show m.walks.find? _ = some w from found]
    rfl
  | begun _ _ =>
    exact (walk?_setWalk_of_ne (by rw [Walk.request_start]; exact ne other)).trans found
  | visited _ _ =>
    exact (walk?_setWalk_of_ne
      (by rw [Request.id_of_stub (Walk.stub_visit ..)]; exact ne other)).trans found
  | sent _ _ _ =>
    exact (walk?_setWalk_of_ne
      (by rw [Request.id_of_stub (Walk.stub_send ..)]; exact ne other)).trans found
  | @released x outcome _ _ =>
    exact (walk?_setWalk_of_ne (x := x.inPhase (.released outcome)) (ne other)).trans found
  | @left _ x _ _ _ walks _ _ _ =>
    have test : (fun y : Walk => decide (decide (y.request.id ≠ x.request.id) = true ∧
        decide (y.request.id = id) = true)) = fun y => decide (y.request.id = id) := by
      funext y
      by_cases own : y.request.id = id
      · simp [own, Ne.symm (ne other)]
      · simp [own]
    rw [walk?, walks, otherWalks, List.find?_filter, test]
    exact found

/-- An event that does not concern a walk leaves it as it is. -/
theorem walk?_of_other (found : m.walk? id = some w) (other : e.isOf id = false)
    (hs : m.step? e = some m') : m'.walk? id = some w := by
  cases e with
  | move mv => exact walk?_move_other found other hs
  | action a =>
    cases Option.some.inj hs
    have number := (walk?_eq_some found).2
    have elsewhere {n : RequestId} {change : LeafSink → LeafSink}
        (keeps : ∀ sink, (change sink).attached = sink.attached) (off : decide (n = id) = false) :
        (m.onSink n change).walk? id = some w := by
      rw [onSink, walk?_mapRequests (.ofSink n keeps), found, Option.map_some, if_neg]
      rw [number]
      exact Ne.symm (of_decide_eq_false off)
    have same {n : Manager} (walks : n.walks = m.walks) : n.walk? id = some w := by
      rw [walk?, walks]
      exact found
    cases a with
    | takeLeaf n => exact elsewhere LeafSink.attached_take other
    | dropReader n => exact elsewhere LeafSink.attached_dropReader other
    | submit kind root sink =>
      rcases act_submit m kind root sink with ⟨-, next⟩ | ⟨-, next⟩
      all_goals
        rw [next]
        exact same rfl
    | close =>
      obtain ⟨vault, next⟩ := act_close m
      rw [next]
      exact same rfl
    | checkEpoch epoch =>
      refine same ?_
      simp only [act, checkEpoch, deliverEpochs_eq]
    | _ => exact same rfl

/-! ## What an event does to a walk -/

/-- What every step of a walk keeps of its request: the kind, and how much its sink can hold. -/
structure Kept (w w' : Walk) : Prop where
  kind : w'.request.kind = w.request.kind
  capacity : w'.request.sink.map LeafSink.capacity = w.request.sink.map LeafSink.capacity

theorem Kept.of_request {w' : Walk} (same : w'.request = w.request) : Kept w w' :=
  ⟨by rw [same], by rw [same]⟩

/-- A change of the sink that does not change what it can hold. -/
theorem Kept.onSink {phase : WalkPhase} {change : LeafSink → LeafSink}
    (keeps : ∀ sink, (change sink).capacity = sink.capacity) :
    Kept w { request := w.request.onSink change, phase } := by
  refine ⟨rfl, ?_⟩
  simp only [Request.onSink, Option.map_map]
  exact Option.map_congr fun sink _ => keeps sink

/-- What an event does to the walk of a request. -/
inductive Fares (m : Manager) (id : RequestId) (w : Walk) (e : Event) (m' : Manager) : Prop where
  /-- The walk does not move. -/
  | rests (off : e.isOwn id = false) (w' : Walk) (found : m'.walk? id = some w') (kept : Kept w w')
      (phase : w'.phase = w.phase)
  /-- It comes closer to its end. -/
  | advances (own : e.isOwn id = true) (w' : Walk) (found : m'.walk? id = some w')
      (kept : Kept w w') (less : w'.phase.ahead < w.phase.ahead)
  /-- It copies a pending node, which is not pending any more. -/
  | copies (own : e.isOwn id = true) (w' : Walk) (found : m'.walk? id = some w')
      (kept : Kept w w') (hash : NodeHash) (pending : m.shouldCommit hash = true)
      (clears : m.Clears hash e) (going : 2 < w.phase.ahead)
  /-- It leaves, and its request has ended. -/
  | leaves (own : e.isOwn id = true) (gone : m'.walk? id = none)
      (finished : id ∈ m'.idsAt .finished)

theorem visit?_fares (kind : w.request.kind = .checkpoint) (found : m.walk? id = some w)
    (h : m.visit? id = some m') : Fares m id w (.move (.visit id)) m' := by
  obtain ⟨x, target, stack, hx, phase, rfl⟩ := visit?_eq_some h
  cases found.symm.trans hx
  have number := (walk?_eq_some found).2
  have own : (Event.move (.visit id)).isOwn id = true := by
    simp [Event.isOwn, Event.isMove, Event.isOf]
  have same := (Request.id_of_stub (Walk.stub_visit m.closed w m.vault target stack)).trans number
  have next : (m.advance (w.visit m.closed m.vault target stack)).walk? id =
      some (w.visit m.closed m.vault target stack).1 := walk?_setWalk found same
  have visited := Walk.visited m.closed w m.vault target stack
  generalize w.visit m.closed m.vault target stack = s at next visited ⊢
  obtain ⟨w', v'⟩ := s
  cases visited with
  | through | cancelled | unread | unwritten | passed =>
    refine .advances own _ next (.of_request rfl) ?_
    rw [phase]
    simp [WalkPhase.ahead]
  | @copied hash rest encoded node v opened due read written =>
    refine .copies own _ next ⟨rfl, rfl⟩ hash (Walk.pending_of_due kind due)
      (.checkpointed found kind phase opened read written) ?_
    rw [phase]
    simp [WalkPhase.ahead]

theorem begin?_fares (found : m.walk? id = some w) (h : m.begin? id = some m') :
    Fares m id w (.move (.begin id)) m' := by
  obtain ⟨x, hx, phase, rfl⟩ := begin?_eq_some h
  cases found.symm.trans hx
  have number := (walk?_eq_some found).2
  have next : (m.advance (w.start m.vault)).walk? id = some (w.start m.vault).1 :=
    walk?_setWalk found (by rw [Walk.request_start, number])
  refine .advances (by simp [Event.isOwn, Event.isMove, Event.isOf]) _ next
    (.of_request (Walk.request_start ..)) ?_
  rw [phase]
  obtain ⟨-, ⟨e, -, start⟩ | ⟨-, start⟩ | ⟨target, -, start⟩⟩ := Walk.start_cases w m.vault
  all_goals
    rw [start]
    simp [Walk.fail, Walk.inPhase, WalkPhase.ahead]

theorem send?_fares (found : m.walk? id = some w) (h : m.send? id = some m') :
    Fares m id w (.move (.send id)) m' := by
  obtain ⟨x, target, leaf, stack, hx, phase, -, rfl⟩ := send?_eq_some h
  cases found.symm.trans hx
  have number := (walk?_eq_some found).2
  have same := (Request.id_of_stub (Walk.stub_send m.closed w target leaf stack)).trans number
  have next := walk?_setWalk found same
  have own : (Event.move (.send id)).isOwn id = true := by
    simp [Event.isOwn, Event.isMove, Event.isOf]
  cases shut : m.closed with
  | true =>
    rw [shut] at next
    refine .advances own _ next (.of_request rfl) ?_
    rw [phase]
    simp [Walk.send, Walk.fail, Walk.inPhase, WalkPhase.ahead]
  | false =>
    rw [shut] at next
    refine .advances own _ next (.onSink fun sink => LeafSink.capacity_offer sink leaf) ?_
    rw [phase]
    simp [Walk.send, WalkPhase.ahead]

/-- What an event does to a walk that is not a move of its own. -/
inductive Rests (id : RequestId) (w : Walk) (e : Event) : Walk → Prop where
  | same (other : e.isOf id = false) : Rests id w e w
  | taken (is : e = .action (.takeLeaf id)) :
      Rests id w e { w with request := w.request.onSink fun sink => sink.take.2 }
  | left (is : e = .action (.dropReader id)) :
      Rests id w e { w with request := w.request.onSink LeafSink.dropReader }

theorem step?_rests (found : m.walk? id = some w) (off : e.isOwn id = false)
    (hs : m.step? e = some m') : ∃ x, m'.walk? id = some x ∧ Rests id w e x := by
  by_cases of : e.isOf id = true
  · cases e with
    | move mv => simp [Event.isOwn, Event.isMove, of] at off
    | action a =>
      cases Option.some.inj hs
      have number := (walk?_eq_some found).2
      have read {change : LeafSink → LeafSink}
          (attached : ∀ sink, (change sink).attached = sink.attached) :
          (m.onSink id change).walk? id =
            some { w with request := w.request.onSink change } := by
        rw [onSink, walk?_mapRequests (.ofSink id attached), found, Option.map_some,
          if_pos number]
      cases a with
      | takeLeaf n =>
        obtain rfl : n = id := by simpa [Event.isOf] using of
        exact ⟨_, read LeafSink.attached_take, .taken rfl⟩
      | dropReader n =>
        obtain rfl : n = id := by simpa [Event.isOf] using of
        exact ⟨_, read LeafSink.attached_dropReader, .left rfl⟩
      | _ => simp [Event.isOf] at of
  · have other : e.isOf id = false := by simpa using of
    exact ⟨w, walk?_of_other found other hs, .same other⟩

/-- What an event does to the walk of a checkpoint. -/
theorem step?_fares (kind : w.request.kind = .checkpoint) (found : m.walk? id = some w)
    (hs : m.step? e = some m') : Fares m id w e m' := by
  cases own : e.isOwn id with
  | false =>
    obtain ⟨x, found', rests⟩ := step?_rests found own hs
    cases rests with
    | same _ => exact .rests own w found' (.of_request rfl) rfl
    | taken _ => exact .rests own _ found' (.onSink LeafSink.capacity_take) rfl
    | left _ => exact .rests own _ found' (.onSink fun _ => rfl) rfl
  | true =>
    cases e with
    | action a => cases own
    | move mv =>
      have of : (Event.move mv).isOf id = true := by
        simp only [Event.isOwn, Bool.and_eq_true] at own
        exact own.2
      cases mv with
      | begin n =>
        obtain rfl : n = id := by simpa [Event.isOf] using of
        exact begin?_fares found hs
      | visit n =>
        obtain rfl : n = id := by simpa [Event.isOf] using of
        exact visit?_fares kind found hs
      | send n =>
        obtain rfl : n = id := by simpa [Event.isOf] using of
        exact send?_fares found hs
      | release n =>
        obtain rfl : n = id := by simpa [Event.isOf] using of
        obtain ⟨x, outcome, hx, phase, rfl⟩ := release?_eq_some hs
        cases found.symm.trans hx
        have next : (m.setWalk (w.inPhase (.released outcome))).walk? n =
            some (w.inPhase (.released outcome)) := walk?_setWalk found (walk?_eq_some found).2
        refine .advances own _ next (.of_request rfl) ?_
        rw [phase]
        simp [Walk.inPhase, WalkPhase.ahead]
      | finish n =>
        obtain rfl : n = id := by simpa [Event.isOf] using of
        obtain ⟨x, outcome, hx, phase, rfl⟩ := finish?_eq_some hs
        refine .leaves own ?_ ?_
        · simp [walk?, finishRequest, finishAtOnce, exitPruning]
        · have number := (walk?_eq_some hx).2
          simp [idsAt, requestsAt, finishRequest, finishAtOnce, exitPruning, Request.finish,
            Request.onSink, number]
      | _ => simp [Event.isOf] at of

/-! ## What the reader has not taken -/

/-- How many leaves the sink of a request being walked holds. -/
def unread (m : Manager) (id : RequestId) : Nat := ((m.walk? id).map Walk.unread).getD 0

theorem unread_eq (found : m.walk? id = some w) : m.unread id = w.unread := by
  rw [unread, found]
  rfl

theorem Rests.unread_le {x : Walk} (h : Rests id w e x) : x.unread ≤ w.unread := by
  cases h with
  | same _ => exact Nat.le_refl _
  | taken _ =>
    cases sink : w.request.sink with
    | none => simp [Walk.unread, Request.onSink, sink]
    | some s => simpa [Walk.unread, Request.onSink, sink] using LeafSink.length_take_le s
  | left _ =>
    cases sink : w.request.sink <;> simp [Walk.unread, Request.onSink, sink, LeafSink.dropReader]

/-- A reader who takes a leaf leaves one less, and one who has left keeps no walk waiting. -/
theorem Rests.unread_lt {x : Walk} (h : Rests id w e x) (waits : w.Waits)
    (room : ∀ sink, w.request.sink = some sink → 0 < sink.capacity) (waits' : x.Waits)
    (read : e = .action (.takeLeaf id) ∨ e = .action (.dropReader id)) : x.unread < w.unread := by
  obtain ⟨-, -, -, -, blocks⟩ := waits
  obtain ⟨sink, found, blocks⟩ := (Option.any_eq_true _ _).1 blocks
  cases h with
  | same other => rcases read with rfl | rfl <;> simp [Event.isOf] at other
  | taken _ =>
    have full : 0 < sink.buffer.length := by
      simp only [LeafSink.blocks, Bool.and_eq_true, decide_eq_true_eq] at blocks
      exact (room sink found).trans_le blocks.2
    simpa [Walk.unread, Request.onSink, found] using LeafSink.length_take_lt full
  | left _ =>
    obtain ⟨-, -, -, -, blocks'⟩ := waits'
    simp [Request.onSink, found, LeafSink.dropReader, LeafSink.blocks] at blocks'

/-! ## The measure -/

/-- How many moves the walk of a request has ahead of it, if it passes over what it has to visit. -/
def ahead (m : Manager) (id : RequestId) : Nat := ((m.walk? id).map fun w => w.phase.ahead).getD 0

theorem ahead_eq (found : m.walk? id = some w) : m.ahead id = w.phase.ahead := by
  rw [ahead, found]
  rfl

theorem ahead_eq_zero (gone : m.walk? id = none) : m.ahead id = 0 := by
  rw [ahead, gone]
  rfl

/-- What is left to be done by a checkpoint: above all the pending hashes. -/
def burden (m : Manager) (id : RequestId) : Nat ×ₗ Nat :=
  toLex (m.vault.tracker.pending.card, m.ahead id)

/-- Where a checkpoint is that has been admitted. -/
inductive Course (capacity : Option Nat) (id : RequestId) (m : Manager) : Prop where
  | walked (w : Walk) (found : m.walk? id = some w) (kind : w.request.kind = .checkpoint)
      (room : w.request.sink.map LeafSink.capacity = capacity)
  | ended (gone : m.walk? id = none) (finished : id ∈ m.idsAt .finished)

/-- Nothing becomes pending but what is recorded. -/
theorem pending_subset (unrecorded : ∀ hash, ¬ m.Records hash e) (hs : m.step? e = some m') :
    m'.vault.tracker.pending ⊆ m.vault.tracker.pending := by
  intro hash pending
  rw [Tracker.mem_pending] at pending ⊢
  exact (((step?_pending hs).1 pending).resolve_right (unrecorded hash)).1

/-- An event that records nothing keeps a checkpoint on its course and its burden from growing; a
move of the walk makes the burden smaller.  A walk that has come to its end does not go on. -/
theorem Course.step {capacity : Option Nat} (h : Course capacity id m) (ledger : Ledger m)
    (unrecorded : ∀ hash, ¬ m.Records hash e) (hs : m.step? e = some m') :
    Course capacity id m' ∧ m'.burden id ≤ m.burden id ∧
      (e.isOwn id = true → m'.burden id < m.burden id) ∧ (m.ahead id ≤ 2 → m'.ahead id ≤ 2) := by
  have fewer := pending_subset unrecorded hs
  have le := Finset.card_le_card fewer
  cases h with
  | walked w found kind room =>
    have front := ahead_eq found
    cases step?_fares kind found hs with
    | rests off w' found' kept phase =>
      have same : m'.ahead id = m.ahead id := by rw [ahead_eq found', front, phase]
      refine ⟨.walked w' found' (kept.kind.trans kind) (kept.capacity.trans room), ?_, ?_, ?_⟩
      · rw [burden, burden, Prod.Lex.toLex_le_toLex', same]
        exact ⟨le, fun _ => Nat.le_refl _⟩
      · intro own
        cases own.symm.trans off
      · exact fun past => same ▸ past
    | advances own w' found' kept less =>
      rw [← ahead_eq found', ← front] at less
      have lt : m'.burden id < m.burden id := by
        rw [burden, burden, Prod.Lex.toLex_lt_toLex']
        exact ⟨le, fun _ => less⟩
      exact ⟨.walked w' found' (kept.kind.trans kind) (kept.capacity.trans room), lt.le,
        fun _ => lt, fun past => (Nat.le_of_lt less).trans past⟩
    | copies own w' found' kept hash pending clears going =>
      have settled : m'.shouldCommit hash ≠ true := fun pending' =>
        ((step?_pending hs).1 pending').elim (fun both => both.2 clears) (unrecorded hash)
      have strict : m'.vault.tracker.pending.card < m.vault.tracker.pending.card :=
        Finset.card_lt_card ((Finset.ssubset_iff_of_subset fewer).2
          ⟨hash, Tracker.mem_pending.2 pending, fun there => settled (Tracker.mem_pending.1 there)⟩)
      have lt : m'.burden id < m.burden id := by
        rw [burden, burden, Prod.Lex.toLex_lt_toLex]
        exact .inl strict
      rw [← front] at going
      exact ⟨.walked w' found' (kept.kind.trans kind) (kept.capacity.trans room), lt.le,
        fun _ => lt, fun past => absurd going (Nat.not_lt.2 past)⟩
    | leaves own gone finished =>
      have lt : m'.burden id < m.burden id := by
        rw [burden, burden, Prod.Lex.toLex_lt_toLex', ahead_eq_zero gone, front]
        refine ⟨le, fun _ => ?_⟩
        cases w.phase <;> simp [WalkPhase.ahead]
      exact ⟨.ended gone finished, lt.le, fun _ => lt, fun _ => by rw [ahead_eq_zero gone]; omega⟩
  | ended gone finished =>
    have finished' := (finished_prefix_step ledger.nodup_liveIds hs).subset finished
    have gone' := (ledger.step hs).walk?_eq_none finished'
    refine ⟨.ended gone' finished', ?_, ?_, ?_⟩
    · rw [burden, burden, Prod.Lex.toLex_le_toLex', ahead_eq_zero gone, ahead_eq_zero gone']
      exact ⟨le, fun _ => Nat.le_refl _⟩
    · intro own
      simp only [Event.isOwn, Bool.and_eq_true] at own
      rw [(step?_gone gone own.2 hs).1] at own
      cases own.1
    · intro _
      rw [ahead_eq_zero gone']
      omega

/-! ## What endless runs do to a walk -/

/-- What a walk relies on.  These are assumptions about whoever runs the moves of the manager, and
about the reader of the sink. -/
structure EndlessRun.Attended (run : EndlessRun m) (id : RequestId) : Prop where
  /-- A walk that can move does so some time. -/
  moves : ∀ i mv, (Event.move mv).isOwn id = true → ((run.state i).move? mv).isSome →
    ∃ j, i ≤ j ∧ (run.event j).isOwn id = true
  /-- For a walk that waits for its reader, that takes a leaf or leaves some time. -/
  reads : ∀ i w, (run.state i).walk? id = some w → w.Waits →
    ∃ j, i ≤ j ∧ (run.event j = .action (.takeLeaf id) ∨ run.event j = .action (.dropReader id))

/-- The events in which the walk of a request processes a hash: it does not pass over it, and the
manager is open. -/
inductive Handles (m : Manager) (id : RequestId) (hash : NodeHash) : Event → Prop where
  | visit {w : Walk} {target : LayerId} {rest : List NodeHash} (found : m.walk? id = some w)
      (phase : w.phase = .visiting target (hash :: rest)) (opened : m.closed = false)
      (due : Walk.skips m.vault w.request.kind hash = false) :
      Handles m id hash (.move (.visit id))

theorem Handles.exists_walk {hash : NodeHash} (h : m.Handles id hash e) :
    ∃ w, m.walk? id = some w := by
  cases h with
  | visit found _ _ _ => exact ⟨_, found⟩

/-- A hash that is processed is pending.  After that it is not, or the walk has come to its end. -/
theorem Handles.after {hash : NodeHash} (h : m.Handles id hash e) (found : m.walk? id = some w)
    (kind : w.request.kind = .checkpoint) (hs : m.step? e = some m') :
    m.shouldCommit hash = true ∧ 2 < m.ahead id ∧
      (m'.shouldCommit hash = false ∨ m'.ahead id ≤ 2) := by
  cases h with
  | @visit x target rest found' phase opened due =>
    cases found.symm.trans found'
    have going : 2 < m.ahead id := by
      rw [ahead_eq found, phase]
      simp [WalkPhase.ahead]
    refine ⟨Walk.pending_of_due kind due, going, ?_⟩
    have clears : m'.shouldCommit hash = true ↔
        m.shouldCommit hash = true ∧ ¬ m.Clears hash (.move (.visit id)) := move_pending hs
    obtain ⟨x, target', stack', hx, phase', rfl⟩ := visit?_eq_some hs
    cases found.symm.trans hx
    cases phase.symm.trans phase'
    have same := (Request.id_of_stub
      (Walk.stub_visit m.closed w m.vault target (hash :: rest))).trans (walk?_eq_some found).2
    have next : (m.advance (w.visit m.closed m.vault target (hash :: rest))).walk? id =
        some (w.visit m.closed m.vault target (hash :: rest)).1 := walk?_setWalk found same
    have visited := Walk.visited m.closed w m.vault target (hash :: rest)
    generalize w.visit m.closed m.vault target (hash :: rest) = s at next visited clears ⊢
    obtain ⟨w', v'⟩ := s
    cases visited with
    | cancelled shut => cases opened.symm.trans shut
    | passed _ skipped => cases due.symm.trans skipped
    | unread | unwritten =>
      right
      rw [ahead_eq next]
      exact Nat.le_refl 2
    | copied _ _ read written =>
      left
      rw [Bool.eq_false_iff, ne_eq, clears]
      exact fun both => both.2 (.checkpointed found kind phase opened read written)

namespace EndlessRun

variable (run : EndlessRun m) {capacity : Option Nat}

theorem ledger (start : Ledger m) : ∀ i, Ledger (run.state i) :=
  run.always_holds start fun i h => h.step (run.next i)

/-- What is not pending stays so. -/
theorem settled (unrecorded : ∀ i hash, ¬ (run.state i).Records hash (run.event i))
    {hash : NodeHash} {i j : Nat} (later : i ≤ j)
    (settled : (run.state i).shouldCommit hash = false) :
    (run.state j).shouldCommit hash = false := by
  refine run.keeps (P := fun n => n.shouldCommit hash = false) (fun k before => ?_) later settled
  rw [Bool.eq_false_iff, ne_eq, step?_pending (run.next k)]
  rintro (⟨pending, -⟩ | records)
  · cases before.symm.trans pending
  · exact unrecorded k hash records

section

variable (start : Ledger m) (unrecorded : ∀ i hash, ¬ (run.state i).Records hash (run.event i))

include start unrecorded

theorem course (h : Course capacity id m) : ∀ i, Course capacity id (run.state i) :=
  run.always_holds h fun i before =>
    (before.step (run.ledger start i) (unrecorded i) (run.next i)).1

theorem burden_antitone (h : Course capacity id m) : Antitone fun i => (run.state i).burden id :=
  antitone_nat_of_succ_le fun i => ((run.course start unrecorded h i).step (run.ledger start i)
    (unrecorded i) (run.next i)).2.1

/-- There is a last move of the walk. -/
theorem exists_last (h : Course capacity id m) :
    ∃ n, ∀ i, n ≤ i → (run.event i).isOwn id = false := by
  let least := Function.argmin fun i => (run.state i).burden id
  refine ⟨least, fun i later => ?_⟩
  by_contra own
  rw [Bool.not_eq_false] at own
  have lt := ((run.course start unrecorded h i).step (run.ledger start i) (unrecorded i)
    (run.next i)).2.2.1 own
  exact Function.not_lt_argmin (fun i => (run.state i).burden id) (i + 1)
    (lt.trans_le (run.burden_antitone start unrecorded h later))

/-- A walk that has come to its end stays there. -/
theorem ahead_le (h : Course capacity id m) {i j : Nat} (later : i ≤ j)
    (past : (run.state i).ahead id ≤ 2) : (run.state j).ahead id ≤ 2 :=
  run.keeps (P := fun n => n.ahead id ≤ 2) (fun k => ((run.course start unrecorded h k).step
    (run.ledger start k) (unrecorded k) (run.next k)).2.2.2) later past

/-- A pending hash is processed at most once, and no other hash is. -/
theorem handles_once (h : Course capacity id m) {hash : NodeHash} {i : Nat}
    (handled : (run.state i).Handles id hash (run.event i)) :
    m.shouldCommit hash = true ∧
      ∀ j, (run.state j).Handles id hash (run.event j) → j = i := by
  have once {i : Nat} (handled : (run.state i).Handles id hash (run.event i)) :
      (run.state i).shouldCommit hash = true ∧ 2 < (run.state i).ahead id ∧
        ((run.state (i + 1)).shouldCommit hash = false ∨ (run.state (i + 1)).ahead id ≤ 2) := by
    cases run.course start unrecorded h i with
    | walked w found kind _ => exact handled.after found kind (run.next i)
    | ended gone _ =>
      obtain ⟨w, found⟩ := handled.exists_walk
      cases gone.symm.trans found
  have never {i j : Nat} (handled : (run.state i).Handles id hash (run.event i)) (later : i < j) :
      ¬ (run.state j).Handles id hash (run.event j) := by
    intro again
    obtain ⟨pending, going, -⟩ := once again
    rcases (once handled).2.2 with settled | past
    · cases (run.settled unrecorded later settled).symm.trans pending
    · exact absurd (run.ahead_le start unrecorded h later past) (Nat.not_le.2 going)
  refine ⟨?_, fun j again => ?_⟩
  · by_contra settled
    rw [← run.start, Bool.not_eq_true] at settled
    have := run.settled unrecorded (Nat.zero_le i) settled
    cases this.symm.trans (once handled).1
  · rcases Nat.lt_trichotomy i j with lt | rfl | lt
    · exact absurd again (never handled lt)
    · rfl
    · exact absurd handled (never again lt)

/-- A walk that is attended, with room in its sink for one leaf at least, comes to its end. -/
theorem exists_over (h : Course capacity id m) (attended : run.Attended id)
    (room : ∀ n, capacity = some n → 0 < n) :
    ∃ n, (run.state n).walk? id = none ∧ id ∈ (run.state n).idsAt .finished := by
  obtain ⟨n, last⟩ := run.exists_last start unrecorded h
  by_contra never
  -- without a further move of its own the walk can only wait for its reader
  have waits (i : Nat) (later : n ≤ i) : ∃ w, (run.state i).walk? id = some w ∧ w.Waits ∧
      ∀ sink, w.request.sink = some sink → 0 < sink.capacity := by
    cases run.course start unrecorded h i with
    | ended gone finished => exact absurd ⟨i, gone, finished⟩ never
    | walked w found _ holds =>
      refine ⟨w, found, (exists_move found).resolve_right ?_, fun sink there => ?_⟩
      · rintro ⟨mv, of, able⟩
        have own : (Event.move mv).isOwn id = true := by simp [Event.isOwn, Event.isMove, of]
        obtain ⟨j, after, moves⟩ := attended.moves i mv own able
        cases (last j (later.trans after)).symm.trans moves
      · rw [there] at holds
        exact room _ holds.symm
  have rests (i : Nat) (later : n ≤ i) : ∃ w x, (run.state i).walk? id = some w ∧ w.Waits ∧
      (∀ sink, w.request.sink = some sink → 0 < sink.capacity) ∧
      (run.state (i + 1)).walk? id = some x ∧ x.Waits ∧ Rests id w (run.event i) x := by
    obtain ⟨w, found, waiting, holds⟩ := waits i later
    obtain ⟨x, found', rested⟩ := step?_rests found (last i later) (run.next i)
    obtain ⟨y, again, waiting', -⟩ := waits (i + 1) (later.trans (Nat.le_succ i))
    cases found'.symm.trans again
    exact ⟨w, x, found, waiting, holds, found', waiting', rested⟩
  have antitone : Antitone fun k => (run.state (n + k)).unread id := by
    refine antitone_nat_of_succ_le fun k => ?_
    obtain ⟨w, x, found, -, -, found', -, rested⟩ := rests (n + k) (Nat.le_add_right n k)
    rw [← Nat.add_assoc, unread_eq found, unread_eq found']
    exact rested.unread_le
  let least := Function.argmin fun k => (run.state (n + k)).unread id
  obtain ⟨w, found, waiting, -⟩ := waits (n + least) (Nat.le_add_right n least)
  obtain ⟨j, after, read⟩ := attended.reads _ w found waiting
  obtain ⟨k, rfl⟩ := Nat.exists_eq_add_of_le ((Nat.le_add_right n least).trans after)
  obtain ⟨w, x, found, waiting, holds, found', waiting', rested⟩ :=
    rests (n + k) (Nat.le_add_right n k)
  have lt := rested.unread_lt waiting holds waiting' read
  rw [← unread_eq found, ← unread_eq found'] at lt
  exact Function.not_lt_argmin (fun k => (run.state (n + k)).unread id) (k + 1)
    (lt.trans_le (antitone (Nat.le_of_add_le_add_left after)))

end

end EndlessRun

/-! ## Checkpoints end -/

/-- The walk of a checkpoint that has been admitted, whatever is stored, however nodes are hashed
and read, and whatever is pending, in every run that goes on for ever without a commit being
recorded.  From some time on it does not move any more, whichever moves are made and in whatever
order.  If it can move when it is its turn, and a sink it may have is read, it ends and its request
is finished.  And it processes only hashes that were pending, each of them once at most. -/
theorem checkpoint_ends {parts : Parts} {disk : Disk} {refusals : Refusals} {m₀ : Manager}
    {events : List Event} (made : assemble parts disk refusals = .ok m₀)
    (ran : m₀.run? events = some m) (found : m.walk? id = some w)
    (kind : w.request.kind = .checkpoint) (run : EndlessRun m)
    (unrecorded : ∀ i hash, ¬ (run.state i).Records hash (run.event i)) :
    (∃ n, ∀ i, n ≤ i → (run.event i).isOwn id = false) ∧
    (run.Attended id → (∀ sink, w.request.sink = some sink → 0 < sink.capacity) →
      ∃ n, ∀ i, n ≤ i → (run.state i).walk? id = none ∧ id ∈ (run.state i).idsAt .finished) ∧
    ∀ i hash, (run.state i).Handles id hash (run.event i) → m.shouldCommit hash = true ∧
      ∀ j, (run.state j).Handles id hash (run.event j) → j = i := by
  have start := Ledger.of_run made ran
  have course : Course (w.request.sink.map LeafSink.capacity) id m := .walked w found kind rfl
  refine ⟨run.exists_last start unrecorded course, fun attended room => ?_,
    fun i hash => run.handles_once start unrecorded course⟩
  have holds (capacity : Nat) (given : w.request.sink.map LeafSink.capacity = some capacity) :
      0 < capacity := by
    obtain ⟨sink, there, rfl⟩ := Option.map_eq_some_iff.1 given
    exact room sink there
  obtain ⟨n, -, finished⟩ := run.exists_over start unrecorded course attended holds
  refine ⟨n, fun i later => ?_⟩
  have stays : id ∈ (run.state i).idsAt .finished :=
    run.keeps (P := fun n => id ∈ n.idsAt .finished) (fun k before =>
      (finished_prefix_step (run.ledger start k).nodup_liveIds (run.next k)).subset before)
      later finished
  exact ⟨(run.ledger start i).walk?_eq_none stays, stays⟩

/-- Whatever is stored hashes to the same address, and reads as a node that is its own two
children. -/
def loopParts : Parts :=
  { inMemory {} none with
    hasher := some fun _ => firstRoot
    marshaller := some fun _ => .ok (.branch [firstRoot, firstRoot]) }

/-- The loop is stored and pending, and a checkpoint of it is admitted. -/
def loopRun : List Event :=
  [.action (.put firstRoot.bytes [1]), .action (.addDirty firstRoot [firstRoot]),
    .action (.submit .checkpoint firstRoot none), .move (.grant 0), .move (.enqueue 0),
    .move (.dequeue .checkpoint), .move .launch]

/-- The loop is copied once and passed over twice. -/
def loopMoves : List Event :=
  [.move (.begin 0), .move (.visit 0), .move (.visit 0), .move (.visit 0), .move (.visit 0),
    .move (.release 0), .move (.finish 0)]

theorem loop_ends : ∃ m₀ m w, assemble loopParts {} [] = .ok m₀ ∧ m₀.run? loopRun = some m ∧
    m.walk? 0 = some w ∧ w.request.kind = .checkpoint ∧ w.request.sink = none ∧
    ∃ run : EndlessRun m, (∀ i hash, ¬ (run.state i).Records hash (run.event i)) ∧
      run.Attended 0 ∧ ∃ n, ∀ i, n ≤ i →
        (run.state i).walk? 0 = none ∧ 0 ∈ (run.state i).idsAt .finished := by
  have evaluated : ∃ m, runFrom loopParts {} loopRun = some m ∧
      ((m.walk? 0).any (fun w => decide (w.request.kind = .checkpoint ∧ w.request.sink = none)) ∧
        (m.run? loopMoves).any fun n => (n.walk? 0).isNone) :=
    exists_of_runFrom (by decide +kernel)
  obtain ⟨m, ran, walked, goes⟩ := evaluated
  obtain ⟨m₀, made, ran⟩ := of_runFrom ran
  obtain ⟨w, found, looked⟩ := (Option.any_eq_true _ _).1 walked
  obtain ⟨kind, sink⟩ := of_decide_eq_true looked
  obtain ⟨n, moved, gone⟩ := (Option.any_eq_true _ _).1 goes
  obtain ⟨run, front, back⟩ := EndlessRun.exists_append moved (.always n .enterPruning)
  have idle (i : Nat) : ((fun k : Manager => k.act .enterPruning)^[i] n).walk? 0 = none := by
    induction i with
    | zero => exact Option.isNone_iff_eq_none.1 gone
    | succ i ih =>
      rw [Function.iterate_succ_apply']
      exact ih
  have unrecorded (i : Nat) (hash : NodeHash) : ¬ (run.state i).Records hash (run.event i) := by
    intro records
    rcases Nat.lt_or_ge i loopMoves.length with early | late
    · have moves : ∀ e ∈ loopMoves, e.isMove = true := by decide
      have own := moves _ (List.getElem_mem early)
      rw [front i early] at records
      generalize loopMoves[i] = e at own records
      cases records
      cases own
    · obtain ⟨j, rfl⟩ := Nat.exists_eq_add_of_le late
      rw [(back j).1] at records
      cases records
  have attended : run.Attended 0 := by
    refine ⟨fun i mv own able => ?_, fun i x there waits => ?_⟩
    · rcases Nat.lt_or_ge i loopMoves.length with early | late
      · exact ⟨6, Nat.le_of_lt_succ early, by rw [front 6 (by decide)]; rfl⟩
      · obtain ⟨j, rfl⟩ := Nat.exists_eq_add_of_le late
        rw [(back j).2] at able
        obtain ⟨next, moved⟩ := Option.isSome_iff_exists.1 able
        simp only [Event.isOwn, Bool.and_eq_true] at own
        cases (step?_gone (e := .move mv) (idle j) own.2 moved).1
    · -- without a sink there is no reader to wait for
      have course := run.course (Ledger.of_run made ran) unrecorded (.walked w found kind rfl) i
      obtain ⟨-, -, -, -, blocks⟩ := waits
      cases course with
      | ended gone _ => cases gone.symm.trans there
      | walked y found' _ room =>
        cases there.symm.trans found'
        rw [sink, Option.map_none, Option.map_eq_none_iff] at room
        rw [room] at blocks
        cases blocks
  exact ⟨m₀, m, w, made, ran, found, kind, sink, run, unrecorded, attended,
    (checkpoint_ends made ran found kind run unrecorded).2.1 attended fun s there => by
      cases sink.symm.trans there⟩

end Manager

end TrieStorage

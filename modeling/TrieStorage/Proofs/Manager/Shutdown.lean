import Mathlib.Algebra.BigOperators.Group.List.Basic
import Mathlib.Algebra.Ring.Nat
import TrieStorage.Proofs.Manager.Accounts
import TrieStorage.Proofs.Manager.Slots

/-!
# Shutting down

A closed manager always comes to rest: every move leaves it less to do, and it
is at rest only when no request is under way, the dispatcher has stopped and all
slots are back.  It does not matter when it was closed or in which order the
moves come.
-/

namespace TrieStorage

/-! ## What is left to do -/

namespace WalkPhase

/-- How many moves a walk of a closed manager may still make. -/
def work : WalkPhase → Nat
  | .starting => 4
  | .visiting _ _ => 3
  | .sending _ _ _ => 3
  | .ended _ => 2
  | .released _ => 1

end WalkPhase

namespace Dispatcher

/-- How many moves the dispatcher of a closed manager may still make, those of a
walk it may begin included. -/
def work : Dispatcher → Nat
  | .idle => 2
  | .holding _ => 7
  | .stopping => 1
  | .stopped => 0

end Dispatcher

namespace Manager

/-- What the walks may still do. -/
def walksWork (walks : List Walk) : Nat := (walks.map fun w => w.phase.work).sum

/-- How many moves a closed manager may still make; a queued request may be held
and walked. -/
def work (m : Manager) : Nat :=
  m.waiting.length + m.granted.length + 6 * (m.snapshots.length + m.checkpoints.length) +
    m.dispatcher.work + walksWork m.walks

theorem walksWork_perm {l l' : List Walk} (h : l.Perm l') : walksWork l = walksWork l' :=
  (h.map _).sum_eq

@[simp] theorem walksWork_cons (w : Walk) (l : List Walk) :
    walksWork (w :: l) = w.phase.work + walksWork l := by
  simp only [walksWork, List.map_cons, List.sum_cons]

@[simp] theorem walksWork_append (l l' : List Walk) :
    walksWork (l ++ l') = walksWork l + walksWork l' := by
  simp only [walksWork, List.map_append, List.sum_append]

theorem length_pick? {id : RequestId} {rs rest : List Request} {r : Request}
    (hn : (rs.map Request.id).Nodup) (h : pick? id rs = some (r, rest)) :
    rs.length = rest.length + 1 := by
  rw [(pick?_perm hn h).length_eq, List.length_cons]

/-- A walk that goes on leaves less to do. -/
theorem walksWork_setWalk_lt {m : Manager} {w w' : Walk} (hn : m.walkIds.Nodup)
    (found : m.walk? w.request.id = some w) (same : w'.request.id = w.request.id)
    (lt : w'.phase.work < w.phase.work) : walksWork (m.setWalk w').walks < walksWork m.walks := by
  rw [walksWork_perm (setWalk_perm hn found same), walksWork_perm (walks_perm hn found),
    walksWork_cons, walksWork_cons]
  omega

theorem work_start_lt (w : Walk) (v : Vault) : (w.start v).1.phase.work < 4 := by
  obtain ⟨-, ⟨e, -, h⟩ | ⟨-, h⟩ | ⟨target, -, h⟩⟩ := Walk.start_cases w v
  all_goals rw [h]
  · exact (by decide : 2 < 4)
  · exact (by decide : 2 < 4)
  · exact (by decide : 3 < 4)

/-- A closed manager lets no walk visit another node. -/
theorem work_visit_lt (w : Walk) (v : Vault) (target : LayerId) (stack : List NodeHash) :
    (w.visit true v target stack).1.phase.work < 3 := by
  have ended : (2 : Nat) < 3 := by decide
  cases stack with
  | nil => exact ended
  | cons hash rest => exact ended

theorem work_send_lt (w : Walk) (target : LayerId) (leaf : Leaf) (stack : List NodeHash) :
    (w.send true target leaf stack).phase.work < 3 := (by decide : (2 : Nat) < 3)

/-- Every move of a closed manager leaves it less to do. -/
theorem work_move?_lt {m m' : Manager} {mv : Move} (ledger : Ledger m) (closed : m.closed = true)
    (h : m.move? mv = some m') : m'.work < m.work := by
  have stations := nodup_stations ledger.nodup_liveIds
  have hn := ledger.nodup_walkIds
  cases mv with
  | grant id =>
    obtain ⟨r, rest, first, -, -, -, notShut, -, rfl⟩ := grant?_eq_some h
    rw [closed] at notShut
    cases notShut
  | enqueue id =>
    obtain ⟨r, rest, picked, ⟨-, rfl⟩ | ⟨notShut, -⟩⟩ := enqueue?_eq_some h
    · have length := length_pick? stations.2.1 picked
      simp only [work, finishRequest, finishAtOnce, exitPruning]
      omega
    · rw [closed] at notShut
      cases notShut
  | reject id =>
    obtain ⟨r, rest, picked, -, rfl⟩ := reject?_eq_some h
    have length := length_pick? stations.1 picked
    simp only [work, finishRequest, finishAtOnce, exitPruning]
    omega
  | dequeue kind =>
    obtain ⟨r, rest, idle, queued, rfl⟩ := dequeue?_eq_some h
    cases kind
    all_goals
      simp only [queue] at queued
      simp only [work, setQueue, queued, idle, Dispatcher.work, List.length_cons]
      omega
  | launch =>
    obtain ⟨r, held, -, rfl⟩ := launch?_eq_some h
    simp only [work, held, Dispatcher.work, walksWork_append, walksWork_cons, WalkPhase.work]
    simp only [walksWork, List.map_nil, List.sum_nil]
    omega
  | giveUp =>
    obtain ⟨r, held, -, rfl⟩ := giveUp?_eq_some h
    simp only [work, finishRequest, finishAtOnce, exitPruning, held, Dispatcher.work]
    omega
  | halt =>
    obtain ⟨idle, -, rfl⟩ := halt?_eq_some h
    simp only [work, idle, Dispatcher.work]
    omega
  | drain =>
    obtain ⟨r, rest, -, ⟨queued, rfl⟩ | ⟨-, queued, rfl⟩⟩ := drain?_eq_some h
    all_goals
      simp only [work, finishRequest, finishAtOnce, exitPruning, queued, List.length_cons]
      omega
  | stop =>
    obtain ⟨stopping, -, -, -, rfl⟩ := stop?_eq_some h
    simp only [work, stopping, Dispatcher.work]
    omega
  | begin id =>
    obtain ⟨w, found, phase, rfl⟩ := begin?_eq_some h
    obtain ⟨-, rfl⟩ := walk?_eq_some found
    have lt : (w.start m.vault).1.phase.work < w.phase.work := by
      rw [phase]
      exact work_start_lt w m.vault
    exact Nat.add_lt_add_left (walksWork_setWalk_lt hn found
      (congrArg Request.id (Walk.request_start ..)) lt) _
  | visit id =>
    obtain ⟨w, target, stack, found, phase, rfl⟩ := visit?_eq_some h
    obtain ⟨-, rfl⟩ := walk?_eq_some found
    have lt : (w.visit m.closed m.vault target stack).1.phase.work < w.phase.work := by
      rw [phase, closed]
      exact work_visit_lt w m.vault target stack
    exact Nat.add_lt_add_left (walksWork_setWalk_lt hn found
      (Request.id_of_stub (Walk.stub_visit ..)) lt) _
  | send id =>
    obtain ⟨w, target, leaf, stack, found, phase, -, rfl⟩ := send?_eq_some h
    obtain ⟨-, rfl⟩ := walk?_eq_some found
    have lt : (w.send m.closed target leaf stack).phase.work < w.phase.work := by
      rw [phase, closed]
      exact work_send_lt w target leaf stack
    exact Nat.add_lt_add_left (walksWork_setWalk_lt hn found
      (Request.id_of_stub (Walk.stub_send ..)) lt) _
  | release id =>
    obtain ⟨w, outcome, found, phase, rfl⟩ := release?_eq_some h
    obtain ⟨-, rfl⟩ := walk?_eq_some found
    have lt : (w.inPhase (.released outcome)).phase.work < w.phase.work := by
      rw [phase]
      exact Nat.one_lt_two
    have same : (w.inPhase (.released outcome)).request.id = w.request.id := rfl
    exact Nat.add_lt_add_left (walksWork_setWalk_lt hn found same lt) _
  | finish id =>
    obtain ⟨w, outcome, found, phase, rfl⟩ := finish?_eq_some h
    have split := walksWork_perm (walks_perm hn found)
    rw [walksWork_cons, phase] at split
    refine Nat.add_lt_add_left ?_ _
    rw [split]
    exact Nat.lt_add_of_pos_left Nat.one_pos

/-! ## Coming to rest -/

/-- A closed manager makes only so many moves. -/
theorem length_le_work {m : Manager} (ledger : Ledger m) (closed : m.closed = true)
    {moves : List Move} : ∀ {n}, m.run? (moves.map Event.move) = some n → moves.length ≤ m.work := by
  induction moves generalizing m with
  | nil => exact fun _ => Nat.zero_le _
  | cons mv rest ih =>
    intro n h
    simp only [List.map_cons, run?, step?, Option.bind_eq_some_iff] at h
    obtain ⟨next, first, h⟩ := h
    have lt := work_move?_lt ledger closed first
    have stays := (move?_frame first).1.trans closed
    have := ih (ledger.step (e := .move mv) first) stays h
    rw [List.length_cons]
    omega

/-- A closed manager can come to rest. -/
theorem exists_rest {m : Manager} (ledger : Ledger m) (closed : m.closed = true) :
    ∃ (moves : List Move) (n : Manager), m.run? (moves.map Event.move) = some n ∧ n.AtRest := by
  by_cases rest : m.AtRest
  · exact ⟨[], m, rfl, rest⟩
  · simp only [AtRest, not_forall, ← ne_eq, Option.ne_none_iff_exists'] at rest
    obtain ⟨mv, next, first⟩ := rest
    have lt := work_move?_lt ledger closed first
    have stays := (move?_frame first).1.trans closed
    obtain ⟨moves, n, ran, rest⟩ := exists_rest (ledger.step (e := .move mv) first) stays
    refine ⟨mv :: moves, n, ?_, rest⟩
    simp only [List.map_cons, run?, step?, first]
    exact ran
termination_by m.work

/-! ## The dispatcher -/

/-- A dispatcher stops only in a closed manager, and leaves nothing behind. -/
structure Orderly (m : Manager) : Prop where
  closed : m.dispatcher = .stopping ∨ m.dispatcher = .stopped → m.closed = true
  empty : m.dispatcher = .stopped → m.snapshots = [] ∧ m.checkpoints = [] ∧ m.granted = []

namespace Orderly

variable {m m' : Manager}

/-- Whoever has been given room finds the dispatcher running. -/
theorem running (h : Orderly m) {id : RequestId} {picked : Request × List Request}
    (found : pick? id m.granted = some picked) : m.dispatcher ≠ .stopped := by
  intro stopped
  rw [(h.empty stopped).2.2] at found
  cases found

theorem move (h : Orderly m) {mv : Move} (hm : m.move? mv = some m') : Orderly m' := by
  cases mv with
  | grant id =>
    obtain ⟨r, rest, first, -, -, -, notShut, -, rfl⟩ := grant?_eq_some hm
    refine ⟨h.closed, fun stopped => ?_⟩
    rw [h.closed (.inr stopped)] at notShut
    cases notShut
  | enqueue id =>
    obtain ⟨r, rest, picked, ⟨-, rfl⟩ | ⟨-, rfl⟩⟩ := enqueue?_eq_some hm
    · exact ⟨h.closed, fun stopped => absurd stopped (h.running picked)⟩
    · cases kind : r.kind
      all_goals exact ⟨h.closed, fun stopped => absurd stopped (h.running picked)⟩
  | reject id =>
    obtain ⟨r, rest, -, -, rfl⟩ := reject?_eq_some hm
    exact ⟨h.closed, h.empty⟩
  | dequeue kind =>
    obtain ⟨r, rest, -, -, rfl⟩ := dequeue?_eq_some hm
    exact ⟨by simp, by simp⟩
  | launch =>
    obtain ⟨r, -, -, rfl⟩ := launch?_eq_some hm
    exact ⟨by simp, by simp⟩
  | giveUp =>
    obtain ⟨r, -, shut, rfl⟩ := giveUp?_eq_some hm
    exact ⟨fun _ => shut, by simp [finishRequest, finishAtOnce, Manager.exitPruning]⟩
  | halt =>
    obtain ⟨-, shut, rfl⟩ := halt?_eq_some hm
    exact ⟨fun _ => shut, by simp⟩
  | drain =>
    obtain ⟨r, rest, stopping, ⟨-, rfl⟩ | ⟨-, -, rfl⟩⟩ := drain?_eq_some hm
    all_goals
      exact ⟨h.closed, by simp [finishRequest, finishAtOnce, Manager.exitPruning, stopping]⟩
  | stop =>
    obtain ⟨stopping, snapshots, checkpoints, granted, rfl⟩ := stop?_eq_some hm
    exact ⟨fun _ => h.closed (.inl stopping), fun _ => ⟨snapshots, checkpoints, granted⟩⟩
  | begin id =>
    obtain ⟨w, -, -, rfl⟩ := begin?_eq_some hm
    exact ⟨h.closed, h.empty⟩
  | visit id =>
    obtain ⟨w, target, stack, -, -, rfl⟩ := visit?_eq_some hm
    exact ⟨h.closed, h.empty⟩
  | send id =>
    obtain ⟨w, target, leaf, stack, -, -, -, rfl⟩ := send?_eq_some hm
    exact ⟨h.closed, h.empty⟩
  | release id =>
    obtain ⟨w, outcome, -, -, rfl⟩ := release?_eq_some hm
    exact ⟨h.closed, h.empty⟩
  | finish id =>
    obtain ⟨w, outcome, -, -, rfl⟩ := finish?_eq_some hm
    exact ⟨h.closed, h.empty⟩

theorem aside (h : Orderly m) {a : Action} (ha : a.isAside = true) : Orderly (m.act a) := by
  obtain ⟨change, vault, hub, -, same⟩ := act_aside m ha
  rw [same]
  have stopping : (m.mapRequests change).dispatcher = .stopping → m.dispatcher = .stopping := by
    simp only [mapRequests]
    split <;> simp
  have stopped : (m.mapRequests change).dispatcher = .stopped → m.dispatcher = .stopped := by
    simp only [mapRequests]
    split <;> simp
  refine ⟨fun hd => h.closed (hd.imp stopping stopped), fun hd => ?_⟩
  obtain ⟨snapshots, checkpoints, granted⟩ := h.empty (stopped hd)
  simp only [mapRequests, snapshots, checkpoints, granted, List.map_nil, and_self]

theorem action (h : Orderly m) (a : Action) : Orderly (m.act a) := by
  by_cases aside : a.isAside = true
  · exact h.aside aside
  · cases a with
    | enterPruning | exitPruning => exact ⟨h.closed, h.empty⟩
    | withdraw id =>
      refine ⟨h.closed, fun stopped => ?_⟩
      obtain ⟨snapshots, checkpoints, granted⟩ := h.empty stopped
      exact ⟨snapshots, checkpoints, by simp [act, Manager.withdraw, granted]⟩
    | submit kind root sink =>
      rcases act_submit m kind root sink with ⟨-, same⟩ | ⟨-, same⟩
      all_goals
        rw [same]
        exact ⟨h.closed, h.empty⟩
    | close =>
      obtain ⟨vault, same⟩ := act_close m
      rw [same]
      exact ⟨fun _ => rfl, h.empty⟩
    | _ => exact absurd rfl aside

theorem of_run {parts : Parts} {disk : Disk} {refusals : Refusals} {m₀ : Manager}
    {events : List Event} (made : assemble parts disk refusals = .ok m₀)
    (ran : m₀.run? events = some m) : Orderly m := by
  refine run?_induction (P := fun _ m => Orderly m) ?_ ?_ ran
  · obtain ⟨vault, throttle, hub, rfl⟩ := assemble_eq_ok made
    exact ⟨by simp, by simp⟩
  · intro events n e n' _ h hs
    cases e with
    | move mv => exact h.move hs
    | action a =>
      simp only [step?, Option.some.injEq] at hs
      rw [← hs]
      exact h.action a

end Orderly

/-! ## At rest -/

section AtRest

variable {m : Manager} (rest : m.AtRest)

include rest

theorem granted_eq_nil : m.granted = [] := by
  refine List.eq_nil_iff_forall_not_mem.2 fun r hr => ?_
  obtain ⟨s, others, picked⟩ := exists_pick?_of_mem hr
  have stuck := rest (.enqueue r.id)
  simp only [move?, enqueue?, picked, Option.bind_eq_bind, Option.bind_some] at stuck
  split at stuck <;> cases stuck

theorem waiting_eq_nil (closed : m.closed = true) : m.waiting = [] := by
  refine List.eq_nil_iff_forall_not_mem.2 fun r hr => ?_
  obtain ⟨s, others, picked⟩ := exists_pick?_of_mem hr
  have stuck := rest (.reject r.id)
  simp only [move?, reject?, picked, Option.bind_eq_bind, Option.bind_some, closed, if_true,
    reduceCtorEq] at stuck

/-- No walk of a closed manager has to wait. -/
theorem walks_eq_nil (closed : m.closed = true) (hn : m.walkIds.Nodup) : m.walks = [] := by
  refine List.eq_nil_iff_forall_not_mem.2 fun w hw => ?_
  have found := walk?_of_mem hn hw
  cases phase : w.phase with
  | starting =>
    have stuck := rest (.begin w.request.id)
    simp [move?, begin?, found, phase] at stuck
  | visiting target stack =>
    have stuck := rest (.visit w.request.id)
    simp [move?, visit?, found, phase] at stuck
  | sending target leaf stack =>
    have stuck := rest (.send w.request.id)
    simp [move?, send?, found, phase, Walk.canSend, closed] at stuck
  | ended outcome =>
    have stuck := rest (.release w.request.id)
    simp [move?, release?, found, phase] at stuck
  | released outcome =>
    have stuck := rest (.finish w.request.id)
    simp [move?, finish?, found, phase] at stuck

/-- The dispatcher of a closed manager goes on until it has stopped. -/
theorem dispatcher_eq_stopped (closed : m.closed = true) : m.dispatcher = .stopped := by
  cases phase : m.dispatcher with
  | idle =>
    have stuck := rest .halt
    simp [move?, halt?, phase, closed] at stuck
  | holding r =>
    have stuck := rest .giveUp
    simp [move?, giveUp?, phase, closed] at stuck
  | stopping =>
    have granted := granted_eq_nil rest
    have drained := rest .drain
    have stuck := rest .stop
    cases snapshots : m.snapshots with
    | cons r others => simp [move?, drain?, phase, snapshots] at drained
    | nil =>
      cases checkpoints : m.checkpoints with
      | cons r others => simp [move?, drain?, phase, snapshots, checkpoints] at drained
      | nil => simp [move?, stop?, phase, snapshots, checkpoints, granted] at stuck
  | stopped => rfl

end AtRest

/-- A manager whose dispatcher has stopped is at rest when nothing is submitted
and nothing is walked. -/
theorem atRest_of_stopped {m : Manager} (dispatcher : m.dispatcher = .stopped)
    (waiting : m.waiting = []) (granted : m.granted = []) (walks : m.walks = []) : m.AtRest := by
  have picked (id : RequestId) : pick? id [] = none := rfl
  have found (id : RequestId) : m.walk? id = none := by rw [walk?, walks, List.find?_nil]
  intro mv
  cases mv with
  | grant | reject => simp [move?, grant?, reject?, waiting, picked]
  | enqueue => simp [move?, enqueue?, granted, picked]
  | dequeue | launch | giveUp | halt | drain | stop =>
    simp [move?, dequeue?, launch?, giveUp?, halt?, drain?, stop?, dispatcher]
  | begin | visit | send | release | finish =>
    simp [move?, begin?, visit?, send?, release?, finish?, found]

/-- A manager in which nothing is left of any request. -/
structure ShutDown (start m : Manager) : Prop where
  waiting : m.waiting = []
  granted : m.granted = []
  snapshots : m.snapshots = []
  checkpoints : m.checkpoints = []
  walks : m.walks = []
  dispatcher : m.dispatcher = .stopped
  /-- Every slot taken since the start is back. -/
  slots : m.throttle.current = start.throttle.current
  /-- Every request has ended or been withdrawn by its caller. -/
  settled : (m.finished.map Request.id ++ m.withdrawn.map Request.id).Perm (List.range m.submitted)
  /-- It has ended once. -/
  ended : ∀ r ∈ m.finished, r.Ended

/-- A closed manager stays closed. -/
theorem closed_of_mem {m₀ m : Manager} {events : List Event} (ran : m₀.run? events = some m)
    (closed : Event.action .close ∈ events) : m.closed = true :=
  (closed_run ran).2 (.inr closed)

/-- Closing a manager at any moment ends everything: it can come to rest, it
makes only so many moves before it does, and then nothing is queued, walked or
held, every slot is back, every request has ended once, and pruning is blocked
by outside callers alone.  A submission that its caller gives up is the one
thing that never ends, and its prohibition stays. -/
theorem close_shutsDown {parts : Parts} {disk : Disk} {refusals : Refusals} {m₀ m : Manager}
    {events : List Event} (made : assemble parts disk refusals = .ok m₀)
    (ran : m₀.run? events = some m) (closed : Event.action .close ∈ events)
    (balanced : Event.Balanced events) :
    (m.AtRest → ShutDown m₀ m ∧
      m.pruning + Event.exits events = Event.enters events + m.withdrawn.length) ∧
    ((∀ id, Event.action (.withdraw id) ∉ events) → m.AtRest →
      (m.finished.map Request.id).Perm (List.range m.submitted) ∧
        m.pruning + Event.exits events = Event.enters events) ∧
    (∀ (moves : List Move) (n : Manager), m.run? (moves.map Event.move) = some n →
      moves.length ≤ m.work) ∧
    ∃ (moves : List Move) (n : Manager), m.run? (moves.map Event.move) = some n ∧ n.AtRest := by
  have ledger := Ledger.of_run made ran
  have shut := closed_of_mem ran closed
  have settles (rest : m.AtRest) : ShutDown m₀ m ∧
      m.pruning + Event.exits events = Event.enters events + m.withdrawn.length := by
    have waiting := waiting_eq_nil rest shut
    have walks := walks_eq_nil rest shut ledger.nodup_walkIds
    have dispatcher := dispatcher_eq_stopped rest shut
    obtain ⟨snapshots, checkpoints, granted⟩ := (Orderly.of_run made ran).empty dispatcher
    have live : m.live = [] := by
      simp only [live, waiting, granted, snapshots, checkpoints, walks, dispatcher,
        Dispatcher.held, List.map_nil, List.append_nil]
    refine ⟨⟨waiting, granted, snapshots, checkpoints, walks, dispatcher, ?_, ?_, ledger.ended⟩, ?_⟩
    · have slots : m.throttle.current = m₀.throttle.current + m.holders :=
        SlotsTaken.of_run made ran
      rw [slots, holders, walks]
      rfl
    · have numbers := ledger.numbers
      simpa only [requests, live, List.nil_append, List.map_append] using numbers
    · have blocking := Blocking.of_run made ran balanced
      unfold Blocking at blocking
      rw [live] at blocking
      exact blocking
  refine ⟨settles, fun stay rest => ?_, fun moves n h => length_le_work ledger shut h,
    exists_rest ledger shut⟩
  obtain ⟨down, blocking⟩ := settles rest
  have none := withdrawn_eq_nil made ran stay
  have settled := down.settled
  rw [none, List.map_nil, List.append_nil] at settled
  rw [none] at blocking
  exact ⟨settled, blocking⟩

/-- The manager is closed while the dispatcher holds a request. -/
def closedRun : List Event := heldRun ++ [.action .close, .move .giveUp, .move .stop]

theorem closedRun_shutsDown : ∃ m₀ m, assemble (inMemory {} none) {} [] = .ok m₀ ∧
    m₀.run? closedRun = some m ∧ m.AtRest ∧ ShutDown m₀ m ∧ m.idsAt .finished = [0, 1] ∧
    m.pruning = 0 := by
  have balanced : Event.Balanced closedRun := by decide
  have closed : Event.action .close ∈ closedRun := by decide
  have made : assemble (inMemory {} none) {} [] = .ok _ := rfl
  have shut := (close_shutsDown made rfl closed balanced).1 (atRest_of_stopped rfl rfl rfl rfl)
  exact ⟨_, _, made, rfl, atRest_of_stopped rfl rfl rfl rfl, shut.1, rfl, rfl⟩

end Manager

end TrieStorage

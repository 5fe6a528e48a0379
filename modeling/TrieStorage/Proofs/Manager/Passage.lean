import TrieStorage.Proofs.Manager.Actions
import TrieStorage.Proofs.Manager.Moves

/-!
# The passage of requests

However a manager moves, its live requests either stay what they are, up to
their sinks and counts, or exactly one of them ends: it leaves the live requests,
is finished, and takes its prohibition of pruning with it.  `move?_passage` is
the one place where the moves are gone through for this.
-/

namespace TrieStorage

namespace Manager

/-! ## Live requests -/

/-- The numbers of the live requests. -/
def liveIds (m : Manager) : List RequestId := m.live.map Request.id

/-- Live requests with different numbers have different numbers at each station. -/
theorem nodup_stations {m : Manager} (hn : m.liveIds.Nodup) :
    (m.waiting.map Request.id).Nodup ∧ (m.granted.map Request.id).Nodup ∧ m.walkIds.Nodup := by
  simp only [liveIds, live, List.map_append, List.map_map] at hn
  refine ⟨?_, ?_, hn.of_append_right⟩
  · exact hn.of_append_left.of_append_left.of_append_left.of_append_left.of_append_left
  · exact hn.of_append_left.of_append_left.of_append_left.of_append_left.of_append_right

/-! ## Passages -/

/-- What a move can do to the requests. -/
inductive Passage (m m' : Manager) : Prop where
  /-- Nothing ends. -/
  | onward (kept : (m'.live.map Request.stub).Perm (m.live.map Request.stub))
      (finished : m'.finished = m.finished) (pruning : m'.pruning = m.pruning)
  /-- A request ends. -/
  | ending (r : Request) (left : m.live.Perm (r :: m'.live))
      (finished : m'.finished = m.finished ++ [r.finish]) (pruning : m'.pruning = m.pruning - 1)

/-- A move that hands requests from one station to another. -/
theorem Passage.handing {m m' : Manager} (kept : m'.live.Perm m.live)
    (finished : m'.finished = m.finished) (pruning : m'.pruning = m.pruning) : Passage m m' :=
  .onward (kept.map _) finished pruning

/-- A walk that goes on keeps its request. -/
theorem Passage.going {m : Manager} {w w' : Walk} (hn : m.liveIds.Nodup)
    (found : m.walk? w.request.id = some w) (same : w'.request.stub = w.request.stub)
    (vault : Vault) (throttle : Throttle) :
    Passage m { m.setWalk w' with vault, throttle } := by
  have hw := (walk?_eq_some found).1
  have number : w'.request.id = w.request.id := Request.id_of_stub same
  have stubs : (m.setWalk w').walks.map (fun x => x.request.stub) =
      m.walks.map fun x => x.request.stub :=
    map_setWalk _ (nodup_stations hn).2.2 hw number same
  refine .onward ?_ rfl rfl
  simp only [live, List.map_append, List.map_map]
  exact .append_left _ (.of_eq stubs)

/-! ## The passage of every move -/

theorem grant?_passage {m m' : Manager} {id : RequestId} (hn : m.liveIds.Nodup)
    (h : m.grant? id = some m') : Passage m m' := by
  obtain ⟨r, rest, first, picked, -, -, -, -, rfl⟩ := grant?_eq_some h
  refine .handing ?_ rfl rfl
  have taken := List.perm_iff_count.1 (pick?_perm (nodup_stations hn).1 picked)
  refine List.perm_iff_count.2 fun a => ?_
  have := taken a
  simp only [live, List.count_append, List.count_cons, List.count_nil] at this ⊢
  omega

theorem enqueue?_passage {m m' : Manager} {id : RequestId} (hn : m.liveIds.Nodup)
    (h : m.enqueue? id = some m') : Passage m m' := by
  obtain ⟨r, rest, picked, ⟨-, rfl⟩ | ⟨-, rfl⟩⟩ := enqueue?_eq_some h
  all_goals have taken := List.perm_iff_count.1 (pick?_perm (nodup_stations hn).2.1 picked)
  · refine .ending r (List.perm_iff_count.2 fun a => ?_) rfl rfl
    have := taken a
    simp only [live, finishRequest, finishAtOnce, exitPruning, List.count_append,
      List.count_cons] at this ⊢
    omega
  · cases kind : r.kind
    all_goals
      refine .handing (List.perm_iff_count.2 fun a => ?_) rfl rfl
      have := taken a
      simp only [live, setQueue, queue, List.count_append, List.count_cons,
        List.count_nil] at this ⊢
      omega

theorem reject?_passage {m m' : Manager} {id : RequestId} (hn : m.liveIds.Nodup)
    (h : m.reject? id = some m') : Passage m m' := by
  obtain ⟨r, rest, picked, -, rfl⟩ := reject?_eq_some h
  refine .ending r ?_ rfl rfl
  have taken := List.perm_iff_count.1 (pick?_perm (nodup_stations hn).1 picked)
  refine List.perm_iff_count.2 fun a => ?_
  have := taken a
  simp only [live, finishRequest, finishAtOnce, exitPruning, List.count_append,
    List.count_cons] at this ⊢
  omega

theorem dequeue?_passage {m m' : Manager} {kind : RequestKind} (h : m.dequeue? kind = some m') :
    Passage m m' := by
  obtain ⟨r, rest, idle, queued, rfl⟩ := dequeue?_eq_some h
  cases kind
  all_goals
    simp only [queue] at queued
    refine .handing (List.perm_iff_count.2 fun a => ?_) rfl rfl
    simp only [live, setQueue, Dispatcher.held, idle, queued, List.count_append,
      List.count_cons, List.count_nil]
    omega

theorem launch?_passage {m m' : Manager} (h : m.launch? = some m') : Passage m m' := by
  obtain ⟨r, held, -, rfl⟩ := launch?_eq_some h
  refine .handing (List.perm_iff_count.2 fun a => ?_) rfl rfl
  simp only [live, Dispatcher.held, held, List.map_append, List.map_cons, List.map_nil,
    List.count_append, List.count_cons, List.count_nil]
  omega

theorem giveUp?_passage {m m' : Manager} (h : m.giveUp? = some m') : Passage m m' := by
  obtain ⟨r, held, -, rfl⟩ := giveUp?_eq_some h
  refine .ending r (List.perm_iff_count.2 fun a => ?_) rfl rfl
  simp only [live, finishRequest, finishAtOnce, exitPruning, Dispatcher.held, held,
    List.count_append, List.count_cons, List.count_nil]
  omega

theorem halt?_passage {m m' : Manager} (h : m.halt? = some m') : Passage m m' := by
  obtain ⟨idle, -, rfl⟩ := halt?_eq_some h
  refine .handing ?_ rfl rfl
  simp only [live, Dispatcher.held, idle]
  exact .refl _

theorem drain?_passage {m m' : Manager} (h : m.drain? = some m') : Passage m m' := by
  obtain ⟨r, rest, -, ⟨queued, rfl⟩ | ⟨-, queued, rfl⟩⟩ := drain?_eq_some h
  all_goals
    refine .ending r (List.perm_iff_count.2 fun a => ?_) rfl rfl
    simp only [live, finishRequest, finishAtOnce, exitPruning, queued, List.count_append,
      List.count_cons]
    omega

theorem stop?_passage {m m' : Manager} (h : m.stop? = some m') : Passage m m' := by
  obtain ⟨stopping, -, -, -, rfl⟩ := stop?_eq_some h
  refine .handing ?_ rfl rfl
  simp only [live, Dispatcher.held, stopping]
  exact .refl _

theorem finish?_passage {m m' : Manager} {id : RequestId} (hn : m.liveIds.Nodup)
    (h : m.finish? id = some m') : Passage m m' := by
  obtain ⟨w, outcome, found, -, rfl⟩ := finish?_eq_some h
  refine .ending w.request ?_ rfl rfl
  have taken := List.perm_iff_count.1
    ((walks_perm (nodup_stations hn).2.2 found).map Walk.request)
  refine List.perm_iff_count.2 fun a => ?_
  have := taken a
  simp only [live, otherWalks, finishRequest, finishAtOnce, exitPruning, List.count_append,
    List.map_cons, List.count_cons] at this ⊢
  omega

/-- Every move is a passage. -/
theorem move?_passage {m m' : Manager} {mv : Move} (hn : m.liveIds.Nodup)
    (h : m.move? mv = some m') : Passage m m' := by
  cases mv with
  | grant id => exact grant?_passage hn h
  | enqueue id => exact enqueue?_passage hn h
  | reject id => exact reject?_passage hn h
  | dequeue kind => exact dequeue?_passage h
  | launch => exact launch?_passage h
  | giveUp => exact giveUp?_passage h
  | halt => exact halt?_passage h
  | drain => exact drain?_passage h
  | stop => exact stop?_passage h
  | begin id =>
    obtain ⟨w, found, -, rfl⟩ := begin?_eq_some h
    obtain ⟨-, rfl⟩ := walk?_eq_some found
    exact .going hn found (congrArg Request.stub (Walk.request_start ..)) _ _
  | visit id =>
    obtain ⟨w, target, stack, found, -, rfl⟩ := visit?_eq_some h
    obtain ⟨-, rfl⟩ := walk?_eq_some found
    exact .going hn found (Walk.stub_visit ..) _ _
  | send id =>
    obtain ⟨w, target, leaf, stack, found, -, -, rfl⟩ := send?_eq_some h
    obtain ⟨-, rfl⟩ := walk?_eq_some found
    exact .going hn found (Walk.stub_send ..) _ _
  | release id =>
    obtain ⟨w, outcome, found, -, rfl⟩ := release?_eq_some h
    obtain ⟨-, rfl⟩ := walk?_eq_some found
    have same : (w.inPhase (.released outcome)).request.stub = w.request.stub := rfl
    exact .going hn found same _ _
  | finish id => exact finish?_passage hn h

/-- No move closes the manager, submits a request, withdraws one, or reaches the hub. -/
theorem move?_frame {m m' : Manager} {mv : Move} (h : m.move? mv = some m') :
    m'.closed = m.closed ∧ m'.submitted = m.submitted ∧ m'.withdrawn = m.withdrawn ∧
      m'.hub = m.hub := by
  cases mv with
  | grant id =>
    obtain ⟨r, rest, first, -, -, -, -, -, rfl⟩ := grant?_eq_some h
    exact ⟨rfl, rfl, rfl, rfl⟩
  | enqueue id =>
    obtain ⟨r, rest, -, ⟨-, rfl⟩ | ⟨-, rfl⟩⟩ := enqueue?_eq_some h
    · exact ⟨rfl, rfl, rfl, rfl⟩
    · cases kind : r.kind <;> exact ⟨rfl, rfl, rfl, rfl⟩
  | reject id =>
    obtain ⟨r, rest, -, -, rfl⟩ := reject?_eq_some h
    exact ⟨rfl, rfl, rfl, rfl⟩
  | dequeue kind =>
    obtain ⟨r, rest, -, -, rfl⟩ := dequeue?_eq_some h
    cases kind <;> exact ⟨rfl, rfl, rfl, rfl⟩
  | launch =>
    obtain ⟨r, -, -, rfl⟩ := launch?_eq_some h
    exact ⟨rfl, rfl, rfl, rfl⟩
  | giveUp =>
    obtain ⟨r, -, -, rfl⟩ := giveUp?_eq_some h
    exact ⟨rfl, rfl, rfl, rfl⟩
  | halt =>
    obtain ⟨-, -, rfl⟩ := halt?_eq_some h
    exact ⟨rfl, rfl, rfl, rfl⟩
  | drain =>
    obtain ⟨r, rest, -, ⟨-, rfl⟩ | ⟨-, -, rfl⟩⟩ := drain?_eq_some h
    all_goals exact ⟨rfl, rfl, rfl, rfl⟩
  | stop =>
    obtain ⟨-, -, -, -, rfl⟩ := stop?_eq_some h
    exact ⟨rfl, rfl, rfl, rfl⟩
  | begin id =>
    obtain ⟨w, -, -, rfl⟩ := begin?_eq_some h
    exact ⟨rfl, rfl, rfl, rfl⟩
  | visit id =>
    obtain ⟨w, target, stack, -, -, rfl⟩ := visit?_eq_some h
    exact ⟨rfl, rfl, rfl, rfl⟩
  | send id =>
    obtain ⟨w, target, leaf, stack, -, -, -, rfl⟩ := send?_eq_some h
    exact ⟨rfl, rfl, rfl, rfl⟩
  | release id =>
    obtain ⟨w, outcome, -, -, rfl⟩ := release?_eq_some h
    exact ⟨rfl, rfl, rfl, rfl⟩
  | finish id =>
    obtain ⟨w, outcome, -, -, rfl⟩ := finish?_eq_some h
    exact ⟨rfl, rfl, rfl, rfl⟩

/-! ## Closing -/

/-- A manager is closed from the first closing on. -/
theorem closed_run {m₀ m : Manager} {events : List Event} (ran : m₀.run? events = some m) :
    m.closed = true ↔ m₀.closed = true ∨ Event.action .close ∈ events := by
  refine run?_induction (P := fun events m =>
    m.closed = true ↔ m₀.closed = true ∨ Event.action .close ∈ events) (by simp)
    (fun {events n e n'} _ ih stepped => ?_) ran
  have step : n'.closed = true ↔ n.closed = true ∨ e = .action .close := by
    cases e with
    | move mv =>
      rw [(move?_frame stepped).1]
      simp
    | action a =>
      cases Option.some.inj stepped
      rw [closed_act, Event.action.injEq]
  rw [step, ih, List.mem_append, List.mem_singleton, or_assoc, eq_comm (a := e)]

end Manager

end TrieStorage

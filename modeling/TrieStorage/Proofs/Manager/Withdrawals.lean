import TrieStorage.Proofs.Manager.Prohibitions

/-!
# Submissions that are given up

A submission forbids pruning before it waits for room in its queue, and whatever takes the
prohibition back comes after the wait.  So a caller who gives up while he waits leaves the
prohibition where it is, and the statistics are never told of an end: the request is neither live
nor finished, in every run that follows.

* `withdrawn_step` says which requests an event withdraws.
* `abandoned_still_count` says what that means for the counter, over every run.
-/

namespace TrieStorage

/-- The request has been announced and has not ended, though nothing is put into its sink any
more. -/
structure Request.Forsaken (r : Request) : Prop extends r.UnderWay where
  detached : r.sink.map LeafSink.attached ≠ some true

/-- A reader who goes on reading does not end a request. -/
theorem Request.Forsaken.change {r : Request} (h : r.Forsaken) {change : Request → Request}
    (hc : ReaderChange change) : (change r).Forsaken := by
  refine ⟨h.toUnderWay.of_stub (hc.stub r), ?_⟩
  rw [hc.attached]
  exact h.detached

theorem Request.UnderWay.forsake {r : Request} (h : r.UnderWay) :
    (r.onSink LeafSink.detach).Forsaken := by
  refine ⟨h.of_stub (Request.stub_onSink r _), ?_⟩
  cases sink : r.sink <;> simp [Request.onSink, sink, LeafSink.detach]

namespace Manager

variable {m₀ m m' n : Manager} {events : List Event} {id : RequestId}

/-! ## What is withdrawn -/

/-- The request whose submission an event gives up. -/
def abandons? (m : Manager) : Event → Option RequestId
  | .action (.withdraw id) => if id ∈ m.idsAt .blocked then some id else none
  | _ => none

/-- The requests whose submissions are given up in a run, in that order. -/
def abandoned (m : Manager) (events : List Event) : List RequestId := m.along abandons? events

theorem abandoned_concat (ran : m₀.run? events = some n) (e : Event) :
    m₀.abandoned (events ++ [e]) = m₀.abandoned events ++ (n.abandons? e).toList :=
  along_concat _ ran e

/-- With numbers used once, the requests of a number are one, or none. -/
theorem map_filter_id {rs : List Request} (hn : (rs.map Request.id).Nodup) (id : RequestId) :
    (rs.filter fun r => r.id = id).map Request.id =
      if id ∈ rs.map Request.id then [id] else [] := by
  split
  · next there =>
    obtain ⟨r, hr, rfl⟩ := List.mem_map.1 there
    have both := (Ledger.filter_perm r.id rs).trans (perm_cons_filter_ne Request.id hn hr)
    have own : (rs.filter fun s => s.id = r.id).Perm [r] := (List.perm_append_right_iff _).1 both
    rw [List.perm_singleton.1 own]
    rfl
  · next absent =>
    rw [List.map_eq_nil_iff, List.filter_eq_nil_iff]
    intro r hr own
    exact absent (List.mem_map.2 ⟨r, hr, of_decide_eq_true own⟩)

/-- What an event withdraws is a submission that is given up. -/
theorem withdrawn_step {e : Event} (ledger : Ledger m) (hs : m.step? e = some m') :
    m'.withdrawn.map Request.id = m.withdrawn.map Request.id ++ (m.abandons? e).toList := by
  cases e with
  | move mv =>
    have none : m.abandons? (.move mv) = none := rfl
    rw [(move?_frame hs).2.2.1, none, Option.toList, List.append_nil]
  | action a =>
    cases Option.some.inj hs
    by_cases aside : a.isAside = true
    · obtain ⟨change, vault, hub, hc, same⟩ := act_aside m aside
      have none : m.abandons? (.action a) = none := by
        cases a <;> first | rfl | cases aside
      rw [same, none, Option.toList, List.append_nil]
      exact hc.map_id _
    · cases a with
      | withdraw id =>
        have blocked : (m.idsAt .blocked).Nodup := by
          have hn := ledger.nodup_liveIds
          rw [liveIds, live_eq, List.map_append, List.map_append, List.map_append] at hn
          exact hn.of_append_left.of_append_left.of_append_left
        have given : ((m.waiting ++ m.granted).filter fun r => r.id = id).map Request.id =
            (m.abandons? (.action (.withdraw id))).toList := by
          refine (map_filter_id blocked id).trans ?_
          rw [abandons?]
          show (if id ∈ m.idsAt .blocked then _ else _) = _
          split <;> rfl
        have ids : Request.id ∘ (fun r => r.onSink LeafSink.detach) = Request.id := rfl
        show (m.withdrawn ++ _).map Request.id = _
        rw [List.map_append, List.map_map, ids, given]
      | enterPruning | exitPruning => exact (List.append_nil _).symm
      | submit kind root sink =>
        rcases act_submit m kind root sink with ⟨-, same⟩ | ⟨-, same⟩
        all_goals
          rw [same]
          exact (List.append_nil _).symm
      | close =>
        obtain ⟨vault, same⟩ := act_close m
        rw [same]
        exact (List.append_nil _).symm
      | _ => exact absurd rfl aside

/-- Withdrawn requests are forsaken. -/
theorem forsaken_step {e : Event} (ledger : Ledger m) (h : ∀ r ∈ m.withdrawn, r.Forsaken)
    (hs : m.step? e = some m') : ∀ r ∈ m'.withdrawn, r.Forsaken := by
  cases e with
  | move mv =>
    rw [(move?_frame hs).2.2.1]
    exact h
  | action a =>
    cases Option.some.inj hs
    by_cases aside : a.isAside = true
    · obtain ⟨change, vault, hub, hc, same⟩ := act_aside m aside
      rw [same]
      intro r hr
      obtain ⟨s, there, rfl⟩ := List.mem_map.1 hr
      exact (h s there).change hc
    · cases a with
      | withdraw id =>
        intro r hr
        rcases List.mem_append.1 hr with hr | hr
        · exact h r hr
        · obtain ⟨s, given, rfl⟩ := List.mem_map.1 hr
          have blocked : s ∈ m.requestsAt .blocked := (List.mem_filter.1 given).1
          exact (ledger.underWay s (mem_live_of_station (by simp) blocked)).forsake
      | enterPruning | exitPruning => exact h
      | submit kind root sink =>
        rcases act_submit m kind root sink with ⟨-, same⟩ | ⟨-, same⟩
        all_goals
          rw [same]
          exact h
      | close =>
        obtain ⟨vault, same⟩ := act_close m
        rw [same]
        exact h
      | _ => exact absurd rfl aside

/-- After every run, what is withdrawn are the requests whose submissions were given up. -/
theorem withdrawn_of_run {parts : Parts} {disk : Disk} {refusals : Refusals}
    (made : assemble parts disk refusals = .ok m₀) (ran : m₀.run? events = some m) :
    m.withdrawn.map Request.id = m₀.abandoned events ∧ ∀ r ∈ m.withdrawn, r.Forsaken := by
  refine run?_induction (P := fun events m => m.withdrawn.map Request.id = m₀.abandoned events ∧
    ∀ r ∈ m.withdrawn, r.Forsaken) ?_ ?_ ran
  · obtain ⟨vault, throttle, hub, rfl⟩ := assemble_eq_ok made
    refine ⟨rfl, fun r hr => ?_⟩
    cases hr
  · intro events n e n' hn ⟨ids, forsaken⟩ hs
    have ledger := Ledger.of_run made hn
    refine ⟨?_, forsaken_step ledger forsaken hs⟩
    rw [withdrawn_step ledger hs, ids, abandoned_concat hn]

/-! ## What that means for the counter -/

/-- After every run in which callers take back no more prohibitions than they have made, what
forbids pruning are the callers, the live requests, and all submissions that were ever given up
while they waited.  So the counter is what it should be exactly if there were none; and each one
keeps pruning blocked for good, while its request is neither live nor finished and its statistics
are never told of an end. -/
theorem abandoned_still_count {parts : Parts} {disk : Disk} {refusals : Refusals}
    (made : assemble parts disk refusals = .ok m₀) (ran : m₀.run? events = some m)
    (balanced : Event.Balanced events) :
    m.pruning + Event.exits events =
        Event.enters events + m.live.length + (m₀.abandoned events).length ∧
      (m.pruning + Event.exits events = Event.enters events + m.live.length ↔
        m₀.abandoned events = []) ∧
      ∀ id ∈ m₀.abandoned events, m.isPruningBlocked = true ∧ id ∉ m.liveIds ∧
        id ∉ m.idsAt .finished ∧ ∃ r ∈ m.withdrawn, r.id = id ∧ r.Forsaken := by
  obtain ⟨ids, forsaken⟩ := withdrawn_of_run made ran
  have books := Blocking.of_run made ran balanced
  have length : m.withdrawn.length = (m₀.abandoned events).length := by
    rw [← ids, List.length_map]
  unfold Blocking at books
  rw [length] at books
  refine ⟨books, ?_, fun id given => ?_⟩
  · rw [books, ← List.length_eq_zero_iff]
    omega
  · have apart := (Ledger.of_run made ran).apart
    have some_ := List.length_pos_of_mem given
    have le := balanced.le
    rw [← ids] at given
    obtain ⟨r, hr, rfl⟩ := List.mem_map.1 given
    refine ⟨isPruningBlocked_iff.2 (by omega), fun live => apart.2.1 live given,
      fun finished => apart.2.2 finished given, r, hr, rfl, forsaken r hr⟩

/-- A second request is submitted while the first fills the queue. -/
def fullQueueRun : List Event :=
  [.action (.submit .checkpoint firstRoot none), .move (.grant 0), .move (.enqueue 0),
    .action (.submit .checkpoint secondRoot none)]

/-- Its caller gives up, and the first request comes to its end. -/
def givenUpRun : List Event :=
  [.action (.withdraw 1), .move (.dequeue .checkpoint), .move .launch, .move (.begin 0),
    .move (.visit 0), .move (.visit 0), .move (.release 0), .move (.finish 0)]

theorem givenUpRun_counts : ∃ m₀ m,
    assemble (inMemory { snapshotsBufferLen := 1 } none) {} [] = .ok m₀ ∧
      m₀.run? (fullQueueRun ++ givenUpRun) = some m ∧
      Event.Balanced (fullQueueRun ++ givenUpRun) ∧
      m₀.abandoned (fullQueueRun ++ givenUpRun) = [1] ∧
      m.pruning + Event.exits (fullQueueRun ++ givenUpRun) =
        Event.enters (fullQueueRun ++ givenUpRun) + m.live.length +
          (m₀.abandoned (fullQueueRun ++ givenUpRun)).length := by
  have made : assemble (inMemory { snapshotsBufferLen := 1 } none) {} [] = .ok _ := rfl
  have balanced : Event.Balanced (fullQueueRun ++ givenUpRun) := by decide
  exact ⟨_, _, made, rfl, balanced, rfl, (abandoned_still_count made rfl balanced).1⟩

/-- Nobody else has forbidden pruning, and in the end no request is under way.  Pruning stays
blocked, and the statistics of the second request have not been told of an end. -/
theorem givenUpRun_leaks : ∃ n m,
    runFrom (inMemory { snapshotsBufferLen := 1 } none) {} fullQueueRun = some n ∧
      n.run? givenUpRun = some m ∧ n.hasRoom .checkpoint = false ∧ n.idsAt .blocked = [1] ∧
      Event.enters (fullQueueRun ++ givenUpRun) = 0 ∧ m.live = [] ∧ m.idsAt .finished = [0] ∧
      m.isPruningBlocked = true ∧
      m.withdrawn.map (fun r => (r.id, r.stats.inProgress, r.stats.finished)) = [(1, 1, 0)] := by
  have evaluated : ∃ n,
      runFrom (inMemory { snapshotsBufferLen := 1 } none) {} fullQueueRun = some n ∧
        (n.hasRoom .checkpoint = false ∧ n.idsAt .blocked = [1] ∧
          (n.run? givenUpRun).any fun m => decide
            (Event.enters (fullQueueRun ++ givenUpRun) = 0 ∧ m.live = [] ∧
              m.idsAt .finished = [0] ∧ m.isPruningBlocked = true ∧
              m.withdrawn.map (fun r => (r.id, r.stats.inProgress, r.stats.finished)) =
                [(1, 1, 0)])) :=
    exists_of_runFrom (by decide +kernel)
  obtain ⟨n, ran, room, blocked, goes⟩ := evaluated
  obtain ⟨m, after, looked⟩ := (Option.any_eq_true _ _).1 goes
  exact ⟨n, m, ran, after, room, blocked, of_decide_eq_true looked⟩

end Manager

end TrieStorage

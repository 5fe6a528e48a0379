import TrieStorage.Proofs.Manager.Ledger

/-!
# Where requests are

Unless submissions are withdrawn, every submitted request is at exactly one of
five stations, it ends once and for good, and pruning is blocked by exactly the
requests that have not ended and the callers who have not taken their prohibition
back.
-/

namespace TrieStorage

/-- Where a request can be. -/
inductive Station where
  /-- Its submission has not returned. -/
  | blocked
  | queued
  /-- The dispatcher holds it. -/
  | held
  /-- Its trie is being walked. -/
  | running
  | finished
  deriving DecidableEq, Repr

namespace Manager

/-- The requests at a station. -/
def requestsAt (m : Manager) : Station → List Request
  | .blocked => m.waiting ++ m.granted
  | .queued => m.snapshots ++ m.checkpoints
  | .held => m.dispatcher.held
  | .running => m.walks.map Walk.request
  | .finished => m.finished

/-- The numbers of the requests at a station. -/
def idsAt (m : Manager) (s : Station) : List RequestId := (m.requestsAt s).map Request.id

/-- Every request has its place, and pruning is blocked accordingly. -/
structure Accounted (m : Manager) (enters exits : Nat) : Prop where
  /-- Every submitted request is at exactly one station. -/
  placed : ∀ id < m.submitted, ∃! s, id ∈ m.idsAt s
  /-- It is there once. -/
  once : ∀ s, (m.idsAt s).Nodup
  /-- No other request is anywhere. -/
  known : ∀ s, ∀ id ∈ m.idsAt s, id < m.submitted
  /-- Before it is finished, its end has not been reported. -/
  underWay : ∀ s, s ≠ .finished → ∀ r ∈ m.requestsAt s, r.UnderWay
  /-- Once it is finished, its end has been reported once and its sink is let go of. -/
  ended : ∀ r ∈ m.requestsAt .finished, r.Ended
  /-- Pruning is blocked by outside callers and by what has not finished. -/
  blocking : m.pruning + exits = enters + ((m.requestsAt .blocked).length +
    (m.requestsAt .queued).length + (m.requestsAt .held).length + (m.requestsAt .running).length)

/-! ## Stations and the ledger -/

/-- The stations on the way of a request. -/
def stations : List Station := [.blocked, .queued, .held, .running, .finished]

theorem mem_stations (s : Station) : s ∈ stations := by cases s <;> decide

theorem flatMap_stations (m : Manager) :
    stations.flatMap m.idsAt = (m.live ++ m.finished).map Request.id := by
  simp [stations, idsAt, requestsAt, live]

theorem live_eq (m : Manager) :
    m.live = m.requestsAt .blocked ++ m.requestsAt .queued ++ m.requestsAt .held ++
      m.requestsAt .running := by
  simp [live, requestsAt]

theorem mem_live_of_station {m : Manager} {s : Station} (hs : s ≠ .finished) {r : Request}
    (hr : r ∈ m.requestsAt s) : r ∈ m.live := by
  rw [live_eq]
  simp only [List.mem_append]
  cases s with
  | blocked => exact .inl (.inl (.inl hr))
  | queued => exact .inl (.inl (.inr hr))
  | held => exact .inl (.inr hr)
  | running => exact .inr hr
  | finished => exact absurd rfl hs

/-- With nothing withdrawn, the ledger says where requests are. -/
theorem Ledger.accounted {m : Manager} {enters exits : Nat} (h : Ledger m)
    (blocking : Blocking enters exits m) (stay : m.withdrawn = []) :
    Accounted m enters exits := by
  have numbers : (stations.flatMap m.idsAt).Perm (List.range m.submitted) := by
    rw [flatMap_stations]
    simpa only [requests, stay, List.append_nil] using h.numbers
  have nodup : (stations.flatMap m.idsAt).Nodup := numbers.nodup_iff.2 List.nodup_range
  rw [List.nodup_flatMap] at nodup
  obtain ⟨once, apart⟩ := nodup
  refine ⟨?_, ?_, ?_, ?_, h.ended, ?_⟩
  · intro id hid
    have somewhere := numbers.symm.subset (List.mem_range.2 hid)
    obtain ⟨s, -, hs⟩ := List.mem_flatMap.1 somewhere
    refine ⟨s, hs, fun t ht => ?_⟩
    by_contra ne
    have symm : Std.Symm (Function.onFun List.Disjoint m.idsAt) :=
      ⟨fun _ _ hd => List.disjoint_symm hd⟩
    exact apart.forall (mem_stations t) (mem_stations s) ne ht hs
  · exact fun s => once s (mem_stations s)
  · intro s id hid
    exact List.mem_range.1 (numbers.subset (List.mem_flatMap.2 ⟨s, mem_stations s, hid⟩))
  · exact fun s hs r hr => h.underWay r (mem_live_of_station hs hr)
  · unfold Blocking at blocking
    rw [live_eq, stay] at blocking
    simpa only [List.length_append, List.length_nil, Nat.add_zero] using blocking

/-! ## What stays -/

/-- What is finished stays finished. -/
theorem finished_prefix_step {m m' : Manager} {e : Event} (hn : m.liveIds.Nodup)
    (h : m.step? e = some m') : m.idsAt .finished <+: m'.idsAt .finished := by
  simp only [idsAt, requestsAt]
  cases e with
  | move mv =>
    cases move?_passage hn h with
    | onward _ finished _ =>
      rw [finished]
    | ending r _ finished _ =>
      rw [finished, List.map_append]
      exact List.prefix_append ..
  | action a =>
    simp only [step?, Option.some.injEq] at h
    rw [← h]
    by_cases aside : a.isAside = true
    · obtain ⟨change, vault, hub, hc, same⟩ := act_aside m aside
      rw [same]
      show m.finished.map Request.id <+: (m.finished.map change).map Request.id
      rw [hc.map_id]
    · cases a with
      | withdraw | enterPruning | exitPruning => exact List.prefix_rfl
      | submit kind root sink =>
        rcases act_submit m kind root sink with ⟨-, same⟩ | ⟨-, same⟩
        · rw [same, List.map_append]
          exact List.prefix_append ..
        · rw [same]
      | close =>
        obtain ⟨vault, same⟩ := act_close m
        rw [same]
      | _ => exact absurd rfl aside

theorem finished_prefix_run {n m : Manager} {events : List Event} (ledger : Ledger n)
    (ran : n.run? events = some m) : n.idsAt .finished <+: m.idsAt .finished := by
  refine (run?_induction
    (P := fun _ m => Ledger m ∧ n.idsAt .finished <+: m.idsAt .finished) ?_ ?_ ran).2
  · exact ⟨ledger, List.prefix_rfl⟩
  · intro events k e k' _ ih hs
    exact ⟨ih.1.step hs, ih.2.trans (finished_prefix_step ih.1.nodup_liveIds hs)⟩

/-! ## The accounts of a run -/

/-- After every run in which no submission is withdrawn and callers take back no
more prohibitions than they have made: every submitted request is at exactly one
station, what has been finished stays finished, and a request for the empty trie
or to a closed manager is finished by its submission, which changes neither what
is under way nor what blocks pruning. -/
theorem run_accounted {parts : Parts} {disk : Disk} {refusals : Refusals} {m₀ m : Manager}
    {events : List Event} (made : assemble parts disk refusals = .ok m₀)
    (ran : m₀.run? events = some m) (stay : ∀ id, Event.action (.withdraw id) ∉ events)
    (balanced : Event.Balanced events) :
    Accounted m (Event.enters events) (Event.exits events) ∧
      (∀ before after n, events = before ++ after → m₀.run? before = some n →
        n.idsAt .finished <+: m.idsAt .finished) ∧
      ∀ before after kind root sink n,
        events = before ++ Event.action (.submit kind root sink) :: after →
        m₀.run? before = some n → (n.closed = true ∨ root.isEmptyTrie = true) →
        (n.act (.submit kind root sink)).idsAt .finished = n.idsAt .finished ++ [n.submitted] ∧
          (n.act (.submit kind root sink)).live = n.live ∧
          (n.act (.submit kind root sink)).pruning = n.pruning ∧
          n.submitted ∈ m.idsAt .finished := by
  have later {before after : List Event} {n : Manager} (cut : events = before ++ after)
      (first : m₀.run? before = some n) : n.run? after = some m := by
    rw [cut, run?_append, first] at ran
    exact ran
  refine ⟨?_, ?_, ?_⟩
  · exact (Ledger.of_run made ran).accounted (Blocking.of_run made ran balanced)
      (withdrawn_eq_nil made ran stay)
  · intro before after n cut first
    exact finished_prefix_run (Ledger.of_run made first) (later cut first)
  · intro before after kind root sink n cut first atOnce
    have same := (act_submit n kind root sink).resolve_right fun h => by
      rcases atOnce with closed | empty
      · rw [h.1.1] at closed
        cases closed
      · rw [h.1.2] at empty
        cases empty
    have ended : (n.act (.submit kind root sink)).idsAt .finished =
        n.idsAt .finished ++ [n.submitted] := by
      rw [same.2]
      exact List.map_append
    refine ⟨ended, ?_, ?_, ?_⟩
    · rw [same.2]
      rfl
    · rw [same.2]
    · have cut' : events = (before ++ [Event.action (.submit kind root sink)]) ++ after := by
        rw [cut, List.append_assoc]
        rfl
      have second : m₀.run? (before ++ [Event.action (.submit kind root sink)]) =
          some (n.act (.submit kind root sink)) := run?_concat.2 ⟨n, first, rfl⟩
      have stays := finished_prefix_run (Ledger.of_run made second) (later cut' second)
      refine stays.subset ?_
      rw [ended]
      exact List.mem_append_right _ (List.mem_singleton_self _)

/-- One request for the empty trie, one that the dispatcher holds, and a caller
who forbids pruning for a while. -/
def heldRun : List Event :=
  [.action .enterPruning, .action (.submit .snapshot .emptyTrie none),
    .action (.submit .checkpoint ⟨List.replicate 32 1, rfl⟩ none), .move (.grant 1),
    .move (.enqueue 1), .action .exitPruning, .move (.dequeue .checkpoint)]

theorem heldRun_accounted : ∃ m₀ m, assemble (inMemory {} none) {} [] = .ok m₀ ∧
    m₀.run? heldRun = some m ∧ m.idsAt .finished = [0] ∧ m.idsAt .held = [1] ∧ m.pruning = 1 ∧
    Accounted m (Event.enters heldRun) (Event.exits heldRun) := by
  have stay (id : RequestId) : Event.action (.withdraw id) ∉ heldRun := by simp [heldRun]
  have balanced : Event.Balanced heldRun := by decide
  have made : assemble (inMemory {} none) {} [] = .ok _ := rfl
  exact ⟨_, _, made, rfl, rfl, rfl, rfl, (run_accounted made rfl stay balanced).1⟩

end Manager

end TrieStorage

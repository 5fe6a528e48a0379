import Mathlib.Data.List.Infix
import Mathlib.Data.List.Range
import TrieStorage.Proofs.Manager.Actions
import TrieStorage.Proofs.Manager.Passage

/-!
# The ledger

Requests are numbered in the order of submission, and every number is found
exactly once among the live, the finished and the withdrawn requests.  As long as
callers take back only what they have forbidden, pruning is forbidden once for
every caller who has not done so, once for every live request, and once for every
withdrawn one: a request that is withdrawn never gives its prohibition back.
-/

namespace TrieStorage

namespace Request

/-- The request has been announced and has not ended. -/
structure UnderWay (r : Request) : Prop where
  announced : r.stats.inProgress = 1
  notEnded : r.stats.finished = 0

/-- The request has ended, once, and nothing is put into its sink any more. -/
structure Ended (r : Request) : Prop where
  once : r.stats.finished = 1
  settled : r.stats.inProgress = 0
  detached : r.sink.map LeafSink.attached ≠ some true

theorem UnderWay.of_stub {r s : Request} (h : r.UnderWay) (same : s.stub = r.stub) :
    s.UnderWay := by
  refine ⟨?_, ?_⟩
  · rw [← inProgress_stub, same]
    exact h.announced
  · rw [← finished_stub, same]
    exact h.notEnded

theorem UnderWay.finish {r : Request} (h : r.UnderWay) : r.finish.Ended := by
  refine ⟨?_, ?_, ?_⟩
  · exact congrArg (· + 1) h.notEnded
  · exact congrArg (· - 1) h.announced
  · unfold Request.finish onSink
    cases r.sink <;> simp [LeafSink.detach]

/-- A reader who goes on reading does not undo the end of a request. -/
theorem Ended.change {r : Request} (h : r.Ended) {change : Request → Request}
    (hc : ReaderChange change) : (change r).Ended := by
  refine ⟨?_, ?_, ?_⟩
  · rw [← finished_stub, hc.stub]
    exact h.once
  · rw [← inProgress_stub, hc.stub]
    exact h.settled
  · rw [hc.attached]
    exact h.detached

theorem map_id_stub (rs : List Request) : (rs.map stub).map Request.id = rs.map Request.id := by
  rw [List.map_map]
  rfl

end Request

/-! ## What callers do to pruning -/

namespace Event

/-- How often callers have forbidden pruning. -/
def enters (events : List Event) : Nat := events.count (.action .enterPruning)

/-- How often callers have taken a prohibition back. -/
def exits (events : List Event) : Nat := events.count (.action .exitPruning)

/-- At no time have callers taken back more prohibitions than they had made. -/
def Balanced (events : List Event) : Prop :=
  ∀ before, before <+: events → exits before ≤ enters before

instance : DecidablePred Balanced := fun events =>
  decidable_of_iff (∀ before ∈ events.inits, exits before ≤ enters before) <| by
    simp only [List.mem_inits, Balanced]

theorem Balanced.le {events : List Event} (h : Balanced events) : exits events ≤ enters events :=
  h events List.prefix_rfl

theorem Balanced.of_append {before after : List Event} (h : Balanced (before ++ after)) :
    Balanced before :=
  fun l hl => h l (hl.trans (List.prefix_append ..))

theorem enters_concat (events : List Event) (e : Event) :
    enters (events ++ [e]) = enters events + if e = .action .enterPruning then 1 else 0 := by
  simp only [enters, List.count_append, List.count_singleton, beq_iff_eq]

theorem exits_concat (events : List Event) (e : Event) :
    exits (events ++ [e]) = exits events + if e = .action .exitPruning then 1 else 0 := by
  simp only [exits, List.count_append, List.count_singleton, beq_iff_eq]

end Event

namespace Manager

/-- Every number is in one place, and what has ended has ended once. -/
structure Ledger (m : Manager) : Prop where
  numbers : (m.requests.map Request.id).Perm (List.range m.submitted)
  underWay : ∀ r ∈ m.live, r.UnderWay
  ended : ∀ r ∈ m.finished, r.Ended

/-- Pruning is forbidden by whoever has forbidden it and not taken that back. -/
def Blocking (enters exits : Nat) (m : Manager) : Prop :=
  m.pruning + exits = enters + m.live.length + m.withdrawn.length

namespace Ledger

variable {m m' : Manager}

theorem nodup (h : Ledger m) : (m.requests.map Request.id).Nodup :=
  h.numbers.nodup_iff.2 List.nodup_range

theorem nodup_liveIds (h : Ledger m) : m.liveIds.Nodup := by
  have hn := h.nodup
  simp only [requests, List.map_append] at hn
  exact hn.of_append_left.of_append_left

theorem nodup_walkIds (h : Ledger m) : m.walkIds.Nodup := (nodup_stations h.nodup_liveIds).2.2

/-- Live, finished and withdrawn requests have different numbers. -/
theorem apart (h : Ledger m) : m.liveIds.Disjoint (m.finished.map Request.id) ∧
    m.liveIds.Disjoint (m.withdrawn.map Request.id) ∧
    (m.finished.map Request.id).Disjoint (m.withdrawn.map Request.id) := by
  have hn := h.nodup
  simp only [requests, List.map_append] at hn
  have all := (List.nodup_append'.1 hn).2.2
  rw [List.disjoint_append_left] at all
  exact ⟨(List.nodup_append'.1 hn.of_append_left).2.2, all.1, all.2⟩

/-- A finished request is not walked. -/
theorem walk?_eq_none {id : RequestId} (h : Ledger m) (finished : id ∈ m.finished.map Request.id) :
    m.walk? id = none := by
  rw [Option.eq_none_iff_forall_ne_some]
  intro w found
  obtain ⟨walked, rfl⟩ := Manager.walk?_eq_some found
  refine h.apart.1 ?_ finished
  simp only [liveIds, live, List.map_append, List.mem_append, List.map_map]
  exact .inr (List.mem_map.2 ⟨w, walked, rfl⟩)

/-- A manager that has not done anything yet. -/
theorem start (vault : Vault) (throttle : Throttle) (hub : EpochHub Unit) :
    Ledger { vault, throttle, hub } := by
  refine ⟨.refl _, ?_, ?_⟩
  · intro r hr
    cases hr
  · intro r hr
    cases hr

/-- A passage keeps the ledger. -/
theorem passage (h : Ledger m) (p : Passage m m') (submitted : m'.submitted = m.submitted)
    (withdrawn : m'.withdrawn = m.withdrawn) : Ledger m' := by
  cases p with
  | onward kept finished _ =>
    have ids := kept.map Request.id
    rw [Request.map_id_stub, Request.map_id_stub] at ids
    refine ⟨?_, ?_, ?_⟩
    · rw [submitted]
      refine .trans ?_ h.numbers
      simp only [requests, List.map_append, finished, withdrawn]
      exact (ids.append_right _).append_right _
    · intro r hr
      obtain ⟨s, hs, same⟩ := List.mem_map.1 (kept.subset (List.mem_map_of_mem hr))
      exact (h.underWay s hs).of_stub same.symm
    · rw [finished]
      exact h.ended
  | ending r left finished _ =>
    refine ⟨?_, ?_, ?_⟩
    · rw [submitted]
      refine .trans ?_ h.numbers
      have counts := List.perm_iff_count.1 (left.map Request.id)
      refine List.perm_iff_count.2 fun id => ?_
      have := counts id
      have same : r.finish.id = r.id := rfl
      simp only [requests, List.map_append, finished, withdrawn, List.count_append, List.map_cons,
        List.map_nil, List.count_cons, List.count_nil, same] at this ⊢
      omega
    · exact fun s hs => h.underWay s (left.symm.subset (List.mem_cons_of_mem r hs))
    · intro s hs
      rw [finished, List.mem_append] at hs
      rcases hs with hs | hs
      · exact h.ended s hs
      · rw [List.mem_singleton.1 hs]
        exact (h.underWay r (left.symm.subset List.mem_cons_self)).finish

/-- Actions that leave the requests alone keep the ledger. -/
theorem aside {a : Action} (h : Ledger m) (ha : a.isAside = true) : Ledger (m.act a) := by
  obtain ⟨change, vault, hub, hc, same⟩ := act_aside m ha
  rw [same]
  have live := live_mapRequests m change
  refine ⟨?_, ?_, ?_⟩
  · have ids : ((m.mapRequests change).requests).map Request.id = m.requests.map Request.id := by
      simp only [requests, live, List.map_append, hc.map_id]
      simp only [mapRequests, hc.map_id]
    exact (List.Perm.of_eq ids).trans h.numbers
  · intro r hr
    obtain ⟨s, hs, rfl⟩ := List.mem_map.1 (live ▸ hr)
    exact (h.underWay s hs).of_stub (hc.stub s)
  · intro r hr
    obtain ⟨s, hs, rfl⟩ := List.mem_map.1 hr
    exact (h.ended s hs).change hc

theorem submit (h : Ledger m) (kind : RequestKind) (root : NodeHash) (sink : Option LeafSink) :
    Ledger (m.act (.submit kind root sink)) := by
  have new : Request.UnderWay { id := m.submitted, kind, root, sink, stats := .start {} } :=
    ⟨rfl, rfl⟩
  have counts := List.perm_iff_count.1 h.numbers
  rcases act_submit m kind root sink with ⟨-, same⟩ | ⟨-, same⟩
  all_goals rw [same]
  · refine ⟨List.perm_iff_count.2 fun id => ?_, h.underWay, ?_⟩
    · have := counts id
      simp only [requests, live, List.map_append, List.count_append, List.map_cons, List.map_nil,
        List.count_singleton, List.range_succ, Request.finish, Request.onSink] at this ⊢
      omega
    · intro r hr
      rcases List.mem_append.1 hr with hr | hr
      · exact h.ended r hr
      · rw [List.mem_singleton.1 hr]
        exact new.finish
  · refine ⟨List.perm_iff_count.2 fun id => ?_, ?_, h.ended⟩
    · have := counts id
      simp only [requests, live, List.map_append, List.count_append, List.map_cons, List.map_nil,
        List.count_singleton, List.range_succ] at this ⊢
      omega
    · intro r hr
      have cases : r ∈ m.live ∨
          r = { id := m.submitted, kind, root, sink, stats := Statistics.start {} } := by
        simp only [live, List.mem_append, List.mem_singleton] at hr ⊢
        tauto
      rcases cases with hr | rfl
      · exact h.underWay r hr
      · exact new

/-- Those of a number and all others are all. -/
theorem filter_perm (id : RequestId) (rs : List Request) :
    (rs.filter (fun r => r.id = id) ++ rs.filter fun r => r.id ≠ id).Perm rs := by
  have := List.filter_append_perm (fun r : Request => decide (r.id = id)) rs
  simpa only [decide_not] using this

/-- A withdrawn request keeps its number. -/
theorem withdraw (h : Ledger m) (id : RequestId) : Ledger (m.withdraw id) := by
  refine ⟨?_, ?_, h.ended⟩
  · refine .trans (List.perm_iff_count.2 fun number => ?_) h.numbers
    have hw := List.perm_iff_count.1 ((filter_perm id m.waiting).map Request.id) number
    have hg := List.perm_iff_count.1 ((filter_perm id m.granted).map Request.id) number
    have same : (Request.id ∘ fun r => r.onSink LeafSink.detach) = Request.id := rfl
    simp only [requests, live, Manager.withdraw, List.filter_append, List.map_append,
      List.map_map, same, List.count_append] at hw hg ⊢
    omega
  · intro r hr
    refine h.underWay r ?_
    simp only [live, Manager.withdraw, List.mem_append, List.mem_filter] at hr ⊢
    tauto

/-- An event keeps the ledger. -/
theorem step (h : Ledger m) {e : Event} (hs : m.step? e = some m') : Ledger m' := by
  cases e with
  | move mv =>
    obtain ⟨-, submitted, withdrawn, -⟩ := move?_frame hs
    exact h.passage (move?_passage h.nodup_liveIds hs) submitted withdrawn
  | action a =>
    simp only [step?, Option.some.injEq] at hs
    rw [← hs]
    cases a with
    | enterPruning | exitPruning => exact ⟨h.numbers, h.underWay, h.ended⟩
    | submit kind root sink => exact h.submit kind root sink
    | withdraw id => exact h.withdraw id
    | close =>
      obtain ⟨vault, same⟩ := act_close m
      rw [same]
      exact ⟨h.numbers, h.underWay, h.ended⟩
    | _ => exact h.aside rfl

/-- The ledger is right after every run. -/
theorem of_run {parts : Parts} {disk : Disk} {refusals : Refusals} {m₀ : Manager}
    {events : List Event} (made : assemble parts disk refusals = .ok m₀)
    (ran : m₀.run? events = some m) : Ledger m := by
  refine run?_induction (P := fun _ m => Ledger m) ?_ ?_ ran
  · obtain ⟨vault, throttle, hub, rfl⟩ := assemble_eq_ok made
    exact .start vault throttle hub
  · exact fun _ h hs => h.step hs

end Ledger

/-- Without withdrawals nothing is withdrawn. -/
theorem withdrawn_eq_nil {parts : Parts} {disk : Disk} {refusals : Refusals} {m₀ m : Manager}
    {events : List Event} (made : assemble parts disk refusals = .ok m₀)
    (ran : m₀.run? events = some m) (stay : ∀ id, Event.action (.withdraw id) ∉ events) :
    m.withdrawn = [] := by
  refine run?_induction
    (P := fun events m => (∀ id, Event.action (.withdraw id) ∉ events) → m.withdrawn = [])
    ?_ ?_ ran stay
  · intro _
    obtain ⟨vault, throttle, hub, rfl⟩ := assemble_eq_ok made
    rfl
  · intro events n e n' _ ih hs stay
    have before : n.withdrawn = [] := ih fun id h => stay id (List.mem_append_left _ h)
    cases e with
    | move mv =>
      rw [(move?_frame hs).2.2.1]
      exact before
    | action a =>
      simp only [step?, Option.some.injEq] at hs
      rw [← hs]
      by_cases aside : a.isAside = true
      · obtain ⟨change, vault, hub, -, same⟩ := act_aside n aside
        rw [same]
        show n.withdrawn.map change = []
        rw [before]
        rfl
      · cases a with
        | withdraw id =>
          exact absurd (List.mem_append_right _ (List.mem_singleton_self _)) (stay id)
        | enterPruning | exitPruning => exact before
        | submit kind root sink =>
          rcases act_submit n kind root sink with ⟨-, same⟩ | ⟨-, same⟩
          all_goals
            rw [same]
            exact before
        | close =>
          obtain ⟨vault, same⟩ := act_close n
          rw [same]
          exact before
        | _ => exact absurd rfl aside

/-! ## What blocks pruning -/

namespace Blocking

variable {m m' : Manager} {enters exits : Nat}

/-- A request that ends takes its prohibition back, if there is one left. -/
theorem passage (h : Blocking enters exits m) (held : m.live ≠ [] → m.pruning ≠ 0)
    (p : Passage m m') (withdrawn : m'.withdrawn = m.withdrawn) : Blocking enters exits m' := by
  unfold Blocking at h ⊢
  cases p with
  | onward kept _ pruning =>
    have length := kept.length_eq
    rw [List.length_map, List.length_map] at length
    rw [pruning, length, withdrawn]
    exact h
  | ending r left _ pruning =>
    have length := left.length_eq
    rw [List.length_cons] at length
    have := held (List.ne_nil_of_mem (left.symm.subset List.mem_cons_self))
    rw [pruning, withdrawn]
    omega

theorem aside {a : Action} (h : Blocking enters exits m) (ha : a.isAside = true) :
    Blocking enters exits (m.act a) := by
  obtain ⟨change, vault, hub, -, same⟩ := act_aside m ha
  have lengths : (m.mapRequests change).live.length = m.live.length ∧
      (m.mapRequests change).withdrawn.length = m.withdrawn.length := by
    rw [live_mapRequests, List.length_map]
    exact ⟨rfl, List.length_map _⟩
  rw [same]
  show m.pruning + exits = enters + (m.mapRequests change).live.length +
    (m.mapRequests change).withdrawn.length
  rw [lengths.1, lengths.2]
  exact h

theorem submit (h : Blocking enters exits m) (kind : RequestKind) (root : NodeHash)
    (sink : Option LeafSink) : Blocking enters exits (m.act (.submit kind root sink)) := by
  rcases act_submit m kind root sink with ⟨-, same⟩ | ⟨-, same⟩
  all_goals rw [same]
  · exact h
  · unfold Blocking at h ⊢
    simp only [live, List.length_append, List.length_singleton] at h ⊢
    omega

/-- A withdrawn request keeps its prohibition. -/
theorem withdraw (h : Blocking enters exits m) (id : RequestId) :
    Blocking enters exits (m.withdraw id) := by
  have hw := (Ledger.filter_perm id m.waiting).length_eq
  have hg := (Ledger.filter_perm id m.granted).length_eq
  unfold Blocking at h ⊢
  simp only [live, Manager.withdraw, List.filter_append, List.length_append,
    List.length_map] at h hw hg ⊢
  omega

/-- What blocks pruning is known after every run in which callers keep their
prohibitions in order. -/
theorem of_run {parts : Parts} {disk : Disk} {refusals : Refusals} {m₀ : Manager}
    {events : List Event} (made : assemble parts disk refusals = .ok m₀)
    (ran : m₀.run? events = some m) (balanced : Event.Balanced events) :
    Blocking (Event.enters events) (Event.exits events) m := by
  refine run?_induction
    (P := fun events m => Event.Balanced events →
      Blocking (Event.enters events) (Event.exits events) m) ?_ ?_ ran balanced
  · intro _
    obtain ⟨vault, throttle, hub, rfl⟩ := assemble_eq_ok made
    rfl
  · intro events n e n' hn ih hs balanced
    have h := ih balanced.of_append
    have before := balanced.of_append.le
    have after := balanced.le
    rw [Event.enters_concat, Event.exits_concat] at after ⊢
    cases e with
    | move mv =>
      have live := (Ledger.of_run made hn).nodup_liveIds
      have held (some_ : n.live ≠ []) : n.pruning ≠ 0 := by
        have := List.length_pos_iff.2 some_
        unfold Blocking at h
        omega
      exact h.passage held (move?_passage live hs) (move?_frame hs).2.2.1
    | action a =>
      simp only [step?, Option.some.injEq] at hs
      rw [← hs]
      cases a with
      | enterPruning =>
        show n.pruning + 1 + Event.exits events =
          Event.enters events + 1 + n.live.length + n.withdrawn.length
        unfold Blocking at h
        omega
      | exitPruning =>
        have lt : Event.exits events < Event.enters events :=
          Nat.lt_of_succ_le (by simpa using after)
        show n.pruning - 1 + (Event.exits events + 1) =
          Event.enters events + n.live.length + n.withdrawn.length
        unfold Blocking at h
        omega
      | submit kind root sink => exact h.submit kind root sink
      | withdraw id => exact h.withdraw id
      | close =>
        obtain ⟨vault, same⟩ := act_close n
        rw [same]
        exact h
      | _ => exact h.aside rfl

end Blocking

end Manager

end TrieStorage

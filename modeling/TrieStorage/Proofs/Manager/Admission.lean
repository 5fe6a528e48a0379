import Mathlib.Logic.Function.Basic
import TrieStorage.Proofs.Manager.Prohibitions
import TrieStorage.Proofs.Manager.Shutdown

/-!
# Admission in the order of acceptance

A request is accepted when it enters the queue of its kind, and admitted when the dispatcher starts
its walk.  In between it stands in the line of its kind: what the dispatcher holds of that kind, and
then the queue.  A line is entered at its end and left at its front, for a walk, or, once the
dispatcher admits nothing any more, for good.  So what has been admitted of a kind is what was
accepted of it, in order and without gaps, up to some point.

* `move?_queues` is the one place where the moves are gone through, `act_queues` does it for the
  actions.
* `step?_line` says what an event does to a line, and `Lined.of_run` what a run leaves of it.
* `admits_in_order` is what follows for the order of admission.
-/

namespace TrieStorage

/-- The numbers of the requests of a kind. -/
def Request.idsOf (kind : RequestKind) (rs : List Request) : List RequestId :=
  (rs.filter fun r => r.kind = kind).map Request.id

namespace Request

variable {kind : RequestKind}

theorem idsOf_append (rs ss : List Request) :
    idsOf kind (rs ++ ss) = idsOf kind rs ++ idsOf kind ss := by
  simp only [idsOf, List.filter_append, List.map_append]

theorem idsOf_singleton (r : Request) : idsOf kind [r] = if r.kind = kind then [r.id] else [] := by
  by_cases own : r.kind = kind <;> simp [idsOf, own]

theorem idsOf_map {change : Request → Request} (hc : ReaderChange change) (rs : List Request) :
    idsOf kind (rs.map change) = idsOf kind rs := by
  have test : (fun r => decide (r.kind = kind)) ∘ change = fun r => decide (r.kind = kind) :=
    funext fun r => by rw [Function.comp, hc.kind_eq]
  rw [idsOf, List.filter_map, test, hc.map_id, idsOf]

end Request

namespace Manager

open Request (idsOf idsOf_append idsOf_singleton idsOf_map)

variable {m₀ m m' n : Manager} {events : List Event} {kind : RequestKind}

/-! ## What is seen of admission -/

/-- The request that an event puts into its queue. -/
def accepts? (m : Manager) : Event → Option Request
  | .move (.enqueue id) => if m.closed then none else m.granted.find? fun r => r.id = id
  | _ => none

/-- The request for which an event starts a walk. -/
def starts? (m : Manager) : Event → Option Request
  | .move .launch => m.dispatcher.held.head?
  | _ => none

/-- The requests of a kind that a run accepts into their queue, in the order of acceptance. -/
def accepted (m : Manager) (kind : RequestKind) (events : List Event) : List RequestId :=
  idsOf kind (m.along accepts? events)

/-- The requests of a kind for which a run starts a walk, in the order of admission. -/
def started (m : Manager) (kind : RequestKind) (events : List Event) : List RequestId :=
  idsOf kind (m.along starts? events)

theorem accepted_concat (ran : m₀.run? events = some n) (e : Event) :
    m₀.accepted kind (events ++ [e]) =
      m₀.accepted kind events ++ idsOf kind (n.accepts? e).toList := by
  rw [accepted, along_concat _ ran, idsOf_append, accepted]

theorem started_concat (ran : m₀.run? events = some n) (e : Event) :
    m₀.started kind (events ++ [e]) =
      m₀.started kind events ++ idsOf kind (n.starts? e).toList := by
  rw [started, along_concat _ ran, idsOf_append, started]

/-! ## Queues and the dispatcher -/

theorem queue_setQueue (kind : RequestKind) (rs : List Request) :
    (m.setQueue kind rs).queue = Function.update m.queue kind rs := by
  funext other
  cases kind <;> cases other <;> rfl

theorem dispatcher_setQueue (kind : RequestKind) (rs : List Request) :
    (m.setQueue kind rs).dispatcher = m.dispatcher := by
  cases kind <;> rfl

/-- What a move can do to the queues and the dispatcher. -/
inductive QueuesMoved (m : Manager) : Move → Manager → Prop where
  /-- Nothing. -/
  | still {mv : Move} {m' : Manager} (accepts : m.accepts? (.move mv) = none)
      (starts : m.starts? (.move mv) = none) (queues : m'.queue = m.queue)
      (dispatcher : m'.dispatcher = m.dispatcher) : QueuesMoved m mv m'
  | entered {id : RequestId} {m' : Manager} (r : Request)
      (accepts : m.accepts? (.move (.enqueue id)) = some r)
      (queues : m'.queue = Function.update m.queue r.kind (m.queue r.kind ++ [r]))
      (dispatcher : m'.dispatcher = m.dispatcher) : QueuesMoved m (.enqueue id) m'
  | taken {kind : RequestKind} {m' : Manager} (r : Request) (rest : List Request)
      (idle : m.dispatcher = .idle) (queued : m.queue kind = r :: rest)
      (queues : m'.queue = Function.update m.queue kind rest)
      (dispatcher : m'.dispatcher = .holding r) : QueuesMoved m (.dequeue kind) m'
  | launched {m' : Manager} (r : Request) (held : m.dispatcher = .holding r)
      (queues : m'.queue = m.queue) (dispatcher : m'.dispatcher = .idle) :
      QueuesMoved m .launch m'
  | gaveUp {m' : Manager} (r : Request) (held : m.dispatcher = .holding r)
      (queues : m'.queue = m.queue) (dispatcher : m'.dispatcher = .stopping) :
      QueuesMoved m .giveUp m'
  | halted {m' : Manager} (idle : m.dispatcher = .idle) (queues : m'.queue = m.queue)
      (dispatcher : m'.dispatcher = .stopping) : QueuesMoved m .halt m'
  | drained {m' : Manager} (kind : RequestKind) (r : Request) (rest : List Request)
      (stopping : m.dispatcher = .stopping) (queued : m.queue kind = r :: rest)
      (queues : m'.queue = Function.update m.queue kind rest)
      (dispatcher : m'.dispatcher = .stopping) : QueuesMoved m .drain m'
  | stopped {m' : Manager} (stopping : m.dispatcher = .stopping) (queues : m'.queue = m.queue)
      (dispatcher : m'.dispatcher = .stopped) : QueuesMoved m .stop m'

theorem queue_eq (snapshots : m'.snapshots = m.snapshots)
    (checkpoints : m'.checkpoints = m.checkpoints) : m'.queue = m.queue := by
  funext kind
  cases kind
  · exact snapshots
  · exact checkpoints

/-- A move does one of these things, and blocks no further submission. -/
theorem move?_queues {mv : Move} (h : m.move? mv = some m') :
    QueuesMoved m mv m' ∧ m'.requestsAt .blocked ⊆ m.requestsAt .blocked := by
  have picked_subset {id : RequestId} {rs rest : List Request} {r : Request}
      (picked : pick? id rs = some (r, rest)) : rest ⊆ rs := by
    obtain ⟨-, -, rfl⟩ := pick?_eq_some picked
    exact List.filter_subset_self _
  have same (s : List Request) : s ⊆ s := List.Subset.refl s
  cases mv with
  | grant id =>
    obtain ⟨r, rest, first, picked, -, -, -, -, rfl⟩ := grant?_eq_some h
    refine ⟨.still rfl rfl (queue_eq rfl rfl) rfl, fun s hs => ?_⟩
    have mem := (pick?_eq_some picked).1
    simp only [requestsAt, List.mem_append, List.mem_singleton] at hs ⊢
    rcases hs with hs | hs | rfl
    · exact .inl (picked_subset picked hs)
    · exact .inr hs
    · exact .inl mem
  | enqueue id =>
    obtain ⟨r, rest, picked, h⟩ := enqueue?_eq_some h
    have fewer : m.waiting ++ rest ⊆ m.waiting ++ m.granted :=
      List.append_subset_of_subset_of_subset (List.subset_append_left ..)
        (List.subset_append_of_subset_right _ (picked_subset picked))
    obtain ⟨closed, rfl⟩ | ⟨opened, rfl⟩ := h
    · exact ⟨.still (by rw [accepts?, if_pos closed]) rfl (queue_eq rfl rfl) rfl, fewer⟩
    · simp only [pick?, Option.map_eq_some_iff, Prod.mk.injEq] at picked
      obtain ⟨s, found, rfl, -⟩ := picked
      refine ⟨.entered s ?_ ?_ (dispatcher_setQueue ..), ?_⟩
      · rw [accepts?, opened]
        exact found
      · rw [queue_setQueue]
        exact congrArg (Function.update · s.kind _) (queue_eq rfl rfl)
      · cases kind : s.kind <;> exact fewer
  | reject id =>
    obtain ⟨r, rest, picked, -, rfl⟩ := reject?_eq_some h
    exact ⟨.still rfl rfl (queue_eq rfl rfl) rfl, List.append_subset_of_subset_of_subset
      (List.subset_append_of_subset_left _ (picked_subset picked)) (List.subset_append_right ..)⟩
  | dequeue kind =>
    obtain ⟨r, rest, idle, queued, rfl⟩ := dequeue?_eq_some h
    refine ⟨.taken r rest idle queued (queue_setQueue kind rest) rfl, ?_⟩
    cases kind <;> exact same _
  | launch =>
    obtain ⟨r, held, -, rfl⟩ := launch?_eq_some h
    exact ⟨.launched r held (queue_eq rfl rfl) rfl, same _⟩
  | giveUp =>
    obtain ⟨r, held, -, rfl⟩ := giveUp?_eq_some h
    exact ⟨.gaveUp r held (queue_eq rfl rfl) rfl, same _⟩
  | halt =>
    obtain ⟨idle, -, rfl⟩ := halt?_eq_some h
    exact ⟨.halted idle (queue_eq rfl rfl) rfl, same _⟩
  | drain =>
    obtain ⟨r, rest, stopping, ⟨queued, rfl⟩ | ⟨-, queued, rfl⟩⟩ := drain?_eq_some h
    · refine ⟨.drained .snapshot r rest stopping queued ?_ stopping, same _⟩
      rw [← queue_setQueue]
      exact queue_eq rfl rfl
    · refine ⟨.drained .checkpoint r rest stopping queued ?_ stopping, same _⟩
      rw [← queue_setQueue]
      exact queue_eq rfl rfl
  | stop =>
    obtain ⟨stopping, -, -, -, rfl⟩ := stop?_eq_some h
    exact ⟨.stopped stopping (queue_eq rfl rfl) rfl, same _⟩
  | begin id =>
    obtain ⟨w, -, -, rfl⟩ := begin?_eq_some h
    exact ⟨.still rfl rfl (queue_eq rfl rfl) rfl, same _⟩
  | visit id =>
    obtain ⟨w, target, stack, -, -, rfl⟩ := visit?_eq_some h
    exact ⟨.still rfl rfl (queue_eq rfl rfl) rfl, same _⟩
  | send id =>
    obtain ⟨w, target, leaf, stack, -, -, -, rfl⟩ := send?_eq_some h
    exact ⟨.still rfl rfl (queue_eq rfl rfl) rfl, same _⟩
  | release id =>
    obtain ⟨w, outcome, -, -, rfl⟩ := release?_eq_some h
    exact ⟨.still rfl rfl (queue_eq rfl rfl) rfl, same _⟩
  | finish id =>
    obtain ⟨w, outcome, -, -, rfl⟩ := finish?_eq_some h
    exact ⟨.still rfl rfl (queue_eq rfl rfl) rfl, same _⟩

/-- Actions change no more of the queues, the dispatcher and the walks than readers do. -/
theorem act_queues (m : Manager) (a : Action) : ∃ change, ReaderChange change ∧
    (∀ kind, (m.act a).queue kind = (m.queue kind).map change) ∧
    (m.act a).dispatcher = (m.mapRequests change).dispatcher ∧
    (m.act a).walks = (m.mapRequests change).walks := by
  by_cases aside : a.isAside = true
  · obtain ⟨change, vault, hub, hc, same⟩ := act_aside m aside
    rw [same]
    exact ⟨change, hc, fun kind => by cases kind <;> rfl, rfl, rfl⟩
  · have plain {m' : Manager} (queues : m'.queue = m.queue)
        (dispatcher : m'.dispatcher = m.dispatcher) (walks : m'.walks = m.walks) :
        ∃ change, ReaderChange change ∧ (∀ kind, m'.queue kind = (m.queue kind).map change) ∧
          m'.dispatcher = (m.mapRequests change).dispatcher ∧
          m'.walks = (m.mapRequests change).walks := by
      refine ⟨id, .refl, fun kind => ?_, ?_, ?_⟩
      · rw [queues, List.map_id]
      · rw [dispatcher, mapRequests_id]
      · rw [walks, mapRequests_id]
    cases a with
    | withdraw | enterPruning | exitPruning => exact plain (queue_eq rfl rfl) rfl rfl
    | submit kind root sink =>
      rcases act_submit m kind root sink with ⟨-, same⟩ | ⟨-, same⟩
      all_goals
        rw [same]
        exact plain (queue_eq rfl rfl) rfl rfl
    | close =>
      obtain ⟨vault, same⟩ := act_close m
      rw [same]
      exact plain (queue_eq rfl rfl) rfl rfl
    | _ => exact absurd rfl aside

theorem held_mapRequests (change : Request → Request) :
    (m.mapRequests change).dispatcher.held = m.dispatcher.held.map change := by
  cases there : m.dispatcher <;> simp [mapRequests, there, Dispatcher.held]

/-- Each queue holds requests of its own kind. -/
def Sorted (m : Manager) : Prop := ∀ kind, ∀ r ∈ m.queue kind, r.kind = kind

theorem Sorted.step {e : Event} (h : m.Sorted) (hs : m.step? e = some m') : m'.Sorted := by
  intro kind r hr
  cases e with
  | action a =>
    cases Option.some.inj hs
    obtain ⟨change, hc, queues, -, -⟩ := act_queues m a
    rw [queues] at hr
    obtain ⟨s, there, rfl⟩ := List.mem_map.1 hr
    rw [hc.kind_eq]
    exact h kind s there
  | move mv =>
    cases (move?_queues hs).1 with
    | still _ _ queues _ | launched _ _ queues _ | gaveUp _ _ queues _ | halted _ queues _
    | stopped _ queues _ =>
      rw [queues] at hr
      exact h kind r hr
    | entered s _ queues _ =>
      rw [queues] at hr
      by_cases own : kind = s.kind
      · subst own
        rw [Function.update_self, List.mem_append, List.mem_singleton] at hr
        rcases hr with hr | rfl
        · exact h _ r hr
        · rfl
      · rw [Function.update_of_ne own] at hr
        exact h kind r hr
    | @taken other _ s rest _ queued queues _ | drained other s rest _ queued queues _ =>
      rw [queues] at hr
      by_cases own : kind = other
      · subst own
        rw [Function.update_self] at hr
        exact h _ r (queued ▸ List.mem_cons_of_mem s hr)
      · rw [Function.update_of_ne own] at hr
        exact h kind r hr

/-- The dispatcher admits nothing any more. -/
def Retired (m : Manager) : Prop := m.dispatcher = .stopping ∨ m.dispatcher = .stopped

theorem Retired.held (h : m.Retired) : m.dispatcher.held = [] := by
  rcases h with h | h <;> rw [h] <;> rfl

theorem Retired.step {e : Event} (h : m.Retired) (hs : m.step? e = some m') : m'.Retired := by
  have busy {d : Dispatcher} (there : m.dispatcher = d) (off : d ≠ .stopping ∧ d ≠ .stopped) :
      m'.Retired := by
    rcases h with h | h
    · exact absurd (there.symm.trans h) off.1
    · exact absurd (there.symm.trans h) off.2
  cases e with
  | action a =>
    cases Option.some.inj hs
    obtain ⟨change, -, -, dispatcher, -⟩ := act_queues m a
    unfold Retired
    rw [dispatcher]
    rcases h with h | h
    · exact .inl (by simp only [mapRequests, h])
    · exact .inr (by simp only [mapRequests, h])
  | move mv =>
    cases (move?_queues hs).1 with
    | still _ _ _ dispatcher | entered _ _ _ dispatcher =>
      unfold Retired
      rw [dispatcher]
      exact h
    | taken _ _ idle _ _ _ | halted idle _ _ => exact busy idle (by simp)
    | launched _ held _ _ => exact busy held (by simp)
    | gaveUp _ _ _ dispatcher | drained _ _ _ _ _ _ dispatcher => exact .inl dispatcher
    | stopped _ _ dispatcher => exact .inr dispatcher

/-! ## Lines -/

/-- What has been accepted of a kind and neither admitted nor ended. -/
def line (m : Manager) (kind : RequestKind) : List RequestId :=
  idsOf kind m.dispatcher.held ++ (m.queue kind).map Request.id

/-- What an event does to the line of a kind. -/
inductive LineStep (kind : RequestKind) (m : Manager) (e : Event) (m' : Manager) : Prop where
  | still (accepts : idsOf kind (m.accepts? e).toList = [])
      (starts : idsOf kind (m.starts? e).toList = []) (line : m'.line kind = m.line kind)
  /-- A request enters at the end. -/
  | enters (id : RequestId) (accepts : idsOf kind (m.accepts? e).toList = [id])
      (starts : idsOf kind (m.starts? e).toList = []) (line : m'.line kind = m.line kind ++ [id])
  /-- The first one is admitted. -/
  | admits (id : RequestId) (accepts : idsOf kind (m.accepts? e).toList = [])
      (starts : idsOf kind (m.starts? e).toList = [id]) (line : m.line kind = id :: m'.line kind)
      (busy : ¬ m.Retired)
  /-- The first one ends unadmitted. -/
  | drops (id : RequestId) (accepts : idsOf kind (m.accepts? e).toList = [])
      (starts : idsOf kind (m.starts? e).toList = []) (line : m.line kind = id :: m'.line kind)
      (retired : m'.Retired)

theorem line_of_held {r : Request} (held : m.dispatcher = .holding r) (kind : RequestKind) :
    m.line kind = (if r.kind = kind then [r.id] else []) ++ (m.queue kind).map Request.id := by
  rw [line, held, Dispatcher.held, idsOf_singleton]

theorem line_of_empty (held : m.dispatcher.held = []) (kind : RequestKind) :
    m.line kind = (m.queue kind).map Request.id := by
  rw [line, held]
  rfl

/-- What a move does to the line of a kind. -/
theorem QueuesMoved.line {mv : Move} (sorted : m.Sorted) (moved : QueuesMoved m mv m') :
    LineStep kind m (.move mv) m' := by
  cases moved with
  | still accepts starts queues dispatcher =>
    refine .still (by rw [accepts]; rfl) (by rw [starts]; rfl) ?_
    rw [Manager.line, Manager.line, queues, dispatcher]
  | @entered id _ r accepts queues dispatcher =>
    have seen : idsOf kind (m.accepts? (.move (.enqueue id))).toList =
        if r.kind = kind then [r.id] else [] := by
      rw [accepts]
      exact idsOf_singleton r
    by_cases own : r.kind = kind
    · subst own
      refine .enters r.id (seen.trans (if_pos rfl)) rfl ?_
      rw [Manager.line, Manager.line, queues, dispatcher, Function.update_self, List.map_append,
        List.append_assoc]
      rfl
    · refine .still (seen.trans (if_neg own)) rfl ?_
      rw [Manager.line, Manager.line, queues, dispatcher, Function.update_of_ne (Ne.symm own)]
  | @taken other _ r rest idle queued queues dispatcher =>
    have sort : r.kind = other := sorted other r (queued ▸ List.mem_cons_self)
    refine .still rfl rfl ?_
    rw [line_of_held dispatcher, line_of_empty (by rw [idle]; rfl), queues]
    by_cases own : other = kind
    · subst own
      rw [if_pos sort, Function.update_self, queued]
      rfl
    · rw [if_neg (sort ▸ own), Function.update_of_ne (Ne.symm own)]
      rfl
  | launched r held queues dispatcher =>
    have seen : idsOf kind (m.starts? (.move .launch)).toList =
        if r.kind = kind then [r.id] else [] := by
      rw [starts?, held]
      exact idsOf_singleton r
    have front := line_of_held held kind
    have back : m'.line kind = (m.queue kind).map Request.id := by
      rw [line_of_empty (by rw [dispatcher]; rfl), queues]
    by_cases own : r.kind = kind
    · rw [if_pos own] at seen front
      refine .admits r.id rfl seen ?_ ?_
      · rw [front, back]
        rfl
      · simp [Retired, held]
    · rw [if_neg own] at seen front
      exact .still rfl seen (back.trans front.symm)
  | gaveUp r held queues dispatcher =>
    have front := line_of_held held kind
    have back : m'.line kind = (m.queue kind).map Request.id := by
      rw [line_of_empty (by rw [dispatcher]; rfl), queues]
    by_cases own : r.kind = kind
    · refine .drops r.id rfl rfl ?_ (.inl dispatcher)
      rw [front, back, if_pos own]
      rfl
    · rw [if_neg own] at front
      exact .still rfl rfl (back.trans front.symm)
  | drained other r rest stopping queued queues dispatcher =>
    have front := line_of_empty (m := m) (by rw [stopping]; rfl) kind
    have back : m'.line kind = (m'.queue kind).map Request.id :=
      line_of_empty (by rw [dispatcher]; rfl) kind
    rw [queues] at back
    by_cases own : kind = other
    · subst own
      refine .drops r.id rfl rfl ?_ (.inl dispatcher)
      rw [front, back, Function.update_self, queued]
      rfl
    · rw [Function.update_of_ne own] at back
      exact .still rfl rfl (back.trans front.symm)
  | halted idle queues dispatcher =>
    refine .still rfl rfl ?_
    rw [Manager.line, Manager.line, queues, dispatcher, idle]
    rfl
  | stopped stopping queues dispatcher =>
    refine .still rfl rfl ?_
    rw [Manager.line, Manager.line, queues, dispatcher, stopping]
    rfl

/-- What an event does to the line of a kind. -/
theorem step?_line {e : Event} (sorted : m.Sorted) (h : m.step? e = some m') :
    LineStep kind m e m' := by
  cases e with
  | move mv => exact (move?_queues h).1.line sorted
  | action a =>
    cases Option.some.inj h
    obtain ⟨change, hc, queues, dispatcher, -⟩ := act_queues m a
    refine .still rfl rfl ?_
    rw [line, line, queues, dispatcher, held_mapRequests, idsOf_map hc, hc.map_id]

/-- What a run has done with the line of a kind: of what it accepted, it admitted the front, the
rest is still in line, and in between is what ended unadmitted once the dispatcher had retired. -/
def Lined (accepted started : List RequestId) (kind : RequestKind) (m : Manager) : Prop :=
  ∃ dropped, accepted = started ++ dropped ++ m.line kind ∧ (dropped ≠ [] → m.Retired)

/-- A line is kept by every event. -/
theorem Lined.step {accepted started : List RequestId} {e : Event}
    (h : Lined accepted started kind m) (sorted : m.Sorted) (hs : m.step? e = some m') :
    Lined (accepted ++ idsOf kind (m.accepts? e).toList)
      (started ++ idsOf kind (m.starts? e).toList) kind m' := by
  obtain ⟨dropped, balance, late⟩ := h
  have moved : LineStep kind m e m' := step?_line sorted hs
  cases moved with
  | still accepts starts line =>
    rw [accepts, starts, List.append_nil, List.append_nil]
    refine ⟨dropped, ?_, fun some_ => (late some_).step hs⟩
    rw [balance, line]
  | enters id accepts starts line =>
    rw [accepts, starts, List.append_nil]
    refine ⟨dropped, ?_, fun some_ => (late some_).step hs⟩
    rw [balance, line, List.append_assoc]
  | admits id accepts starts line busy =>
    obtain rfl : dropped = [] := by
      by_contra some_
      exact busy (late some_)
    rw [accepts, starts, List.append_nil]
    refine ⟨[], ?_, fun some_ => absurd rfl some_⟩
    rw [balance, line, List.append_nil, List.append_nil, List.append_assoc]
    rfl
  | drops id accepts starts line retired =>
    rw [accepts, starts, List.append_nil, List.append_nil]
    refine ⟨dropped ++ [id], ?_, fun _ => retired⟩
    rw [balance, line]
    simp

/-! ## No request is accepted twice -/

/-- An action blocks at most the request that it submits. -/
theorem act_blocked (m : Manager) (a : Action) :
    (m.act a).idsAt .blocked ⊆ m.submitted :: m.idsAt .blocked ∧
      m.submitted ≤ (m.act a).submitted := by
  by_cases aside : a.isAside = true
  · obtain ⟨change, vault, hub, hc, same⟩ := act_aside m aside
    rw [same]
    refine ⟨?_, Nat.le_refl _⟩
    have ids : (m.waiting.map change ++ m.granted.map change).map Request.id =
        m.idsAt .blocked := by
      rw [← List.map_append, hc.map_id]
      rfl
    exact ids ▸ List.subset_cons_self ..
  · cases a with
    | withdraw id =>
      refine ⟨List.subset_cons_of_subset _ (List.map_subset _ ?_), Nat.le_refl _⟩
      show (m.waiting.filter _ ++ m.granted.filter _) ⊆ m.waiting ++ m.granted
      rw [← List.filter_append]
      exact List.filter_subset_self _
    | enterPruning | exitPruning => exact ⟨List.subset_cons_self .., Nat.le_refl _⟩
    | submit kind root sink =>
      rcases act_submit m kind root sink with ⟨-, same⟩ | ⟨-, same⟩
      all_goals rw [same]
      · exact ⟨List.subset_cons_self .., Nat.le_succ _⟩
      · refine ⟨fun id hid => ?_, Nat.le_succ _⟩
        simp only [idsAt, requestsAt, List.map_append, List.mem_append, List.mem_cons,
          List.map_cons, List.map_nil, List.not_mem_nil, or_false] at hid ⊢
        tauto
    | close =>
      obtain ⟨vault, same⟩ := act_close m
      rw [same]
      exact ⟨List.subset_cons_self .., Nat.le_refl _⟩
    | _ => exact absurd rfl aside

/-- An event blocks at most the request that it submits. -/
theorem step?_blocked {e : Event} (h : m.step? e = some m') :
    m'.idsAt .blocked ⊆ m.submitted :: m.idsAt .blocked ∧ m.submitted ≤ m'.submitted := by
  cases e with
  | action a =>
    cases Option.some.inj h
    exact act_blocked m a
  | move mv =>
    have fewer := List.map_subset Request.id (move?_queues h).2
    exact ⟨List.subset_cons_of_subset _ fewer, (move?_frame h).2.1.ge⟩

/-- A request is accepted while its submission is blocked, and then it is not any more. -/
theorem accepts?_blocked {e : Event} {r : Request} (ledger : Ledger m) (hs : m.step? e = some m')
    (accepts : m.accepts? e = some r) :
    r.id < m.submitted ∧ r.id ∈ m.idsAt .blocked ∧ r.id ∉ m'.idsAt .blocked := by
  cases e with
  | action a => cases accepts
  | move mv =>
    cases (move?_queues hs).1 with
    | still none _ _ _ => cases none.symm.trans accepts
    | taken | launched | gaveUp | halted | drained | stopped => cases accepts
    | @entered id _ s accepts' queues _ =>
      obtain rfl := Option.some.inj (accepts'.symm.trans accepts)
      have granted : s ∈ m.granted := by
        rw [accepts?] at accepts
        split at accepts
        · cases accepts
        · exact List.mem_of_find?_eq_some accepts
      have queued : s ∈ m'.requestsAt .queued := by
        have there : s ∈ m'.queue s.kind := by simp [queues]
        cases kind : s.kind <;> rw [kind] at there
        · exact List.mem_append_left _ there
        · exact List.mem_append_right _ there
      have blocked : s ∈ m.requestsAt .blocked := List.mem_append_right _ granted
      have live : s ∈ m.requests :=
        List.mem_append_left _ (List.mem_append_left _ (mem_live_of_station (by simp) blocked))
      refine ⟨List.mem_range.1 (ledger.numbers.subset (List.mem_map_of_mem live)),
        List.mem_map_of_mem blocked, fun again => ?_⟩
      have apart := (ledger.step hs).nodup_liveIds
      rw [liveIds, live_eq, List.map_append, List.map_append, List.map_append] at apart
      exact (List.nodup_append'.1 apart.of_append_left.of_append_left).2.2 again
        (List.mem_map_of_mem queued)

/-- What has been accepted is known, and its submission is not blocked any more. -/
structure Accepted (ids : List RequestId) (m : Manager) : Prop where
  once : ids.Nodup
  known : ∀ id ∈ ids, id < m.submitted
  unblocked : ∀ id ∈ ids, id ∉ m.idsAt .blocked

theorem Accepted.step {ids : List RequestId} {e : Event} (h : Accepted ids m) (ledger : Ledger m)
    (hs : m.step? e = some m') : Accepted (ids ++ idsOf kind (m.accepts? e).toList) m' := by
  obtain ⟨fewer, more⟩ := step?_blocked hs
  have old (id : RequestId) (hid : id ∈ ids) : id < m'.submitted ∧ id ∉ m'.idsAt .blocked := by
    have lt := h.known id hid
    refine ⟨Nat.lt_of_lt_of_le lt more, fun blocked => ?_⟩
    rcases List.mem_cons.1 (fewer blocked) with rfl | blocked
    · exact Nat.lt_irrefl _ lt
    · exact h.unblocked id hid blocked
  have new (id : RequestId) (hid : id ∈ idsOf kind (m.accepts? e).toList) :
      id ∉ ids ∧ id < m'.submitted ∧ id ∉ m'.idsAt .blocked := by
    obtain ⟨r, hr, rfl⟩ := List.mem_map.1 hid
    have accepts : m.accepts? e = some r := by simpa using (List.mem_filter.1 hr).1
    obtain ⟨lt, before, after⟩ := accepts?_blocked ledger hs accepts
    exact ⟨fun already => h.unblocked _ already before, Nat.lt_of_lt_of_le lt more, after⟩
  refine ⟨?_, ?_, ?_⟩
  · refine List.nodup_append'.2 ⟨h.once, ?_, fun id hid hid' => (new id hid').1 hid⟩
    cases m.accepts? e with
    | none => exact List.nodup_nil
    | some r =>
      rw [Option.toList, idsOf_singleton]
      split
      · exact List.nodup_singleton _
      · exact List.nodup_nil
  · intro id hid
    rcases List.mem_append.1 hid with hid | hid
    · exact (old id hid).1
    · exact (new id hid).2.1
  · intro id hid
    rcases List.mem_append.1 hid with hid | hid
    · exact (old id hid).2
    · exact (new id hid).2.2

/-! ## Walks have been admitted -/

/-- A walk after an event was there before it, or has been started by it. -/
theorem walk_before {e : Event} (hs : m.step? e = some m') {w : Walk} (hw : w ∈ m'.walks) :
    (∃ x ∈ m.walks, x.request.id = w.request.id ∧ x.request.kind = w.request.kind) ∨
      m.starts? e = some w.request := by
  have put {w' x : Walk} {id : RequestId} (found : m.walk? id = some w')
      (same : x.request.stub = w'.request.stub) (hw : w ∈ (m.setWalk x).walks) :
      ∃ y ∈ m.walks, y.request.id = w.request.id ∧ y.request.kind = w.request.kind := by
    rcases mem_setWalk hw with rfl | before
    · refine ⟨w', (walk?_eq_some found).1, (Request.id_of_stub same).symm, ?_⟩
      rw [← Request.kind_stub, ← same, Request.kind_stub]
    · exact ⟨w, before, rfl, rfl⟩
  cases e with
  | action a =>
    cases Option.some.inj hs
    obtain ⟨change, hc, -, -, walks⟩ := act_queues m a
    rw [walks] at hw
    obtain ⟨x, hx, rfl⟩ := List.mem_map.1 hw
    exact .inl ⟨x, hx, (hc.id_eq _).symm, (hc.kind_eq _).symm⟩
  | move mv =>
    cases move?_walks hs with
    | still walks _ _ => exact .inl ⟨w, walks ▸ hw, rfl, rfl⟩
    | launched _ _ _ _ _ =>
      obtain ⟨r, held, -, rfl⟩ := launch?_eq_some hs
      rcases List.mem_append.1 hw with hw | hw
      · exact .inl ⟨w, hw, rfl, rfl⟩
      · rw [List.mem_singleton.1 hw, starts?, held]
        exact .inr rfl
    | begun found _ => exact .inl (put found (congrArg Request.stub (Walk.request_start ..)) hw)
    | visited found _ => exact .inl (put found (Walk.stub_visit ..) hw)
    | sent found _ _ => exact .inl (put found (Walk.stub_send ..) hw)
    | @released x outcome found _ =>
      have same : (x.inPhase (.released outcome)).request.stub = x.request.stub := rfl
      exact .inl (put found same hw)
    | left _ _ walks _ _ _ =>
      rw [walks] at hw
      exact .inl ⟨w, (List.mem_filter.1 hw).1, rfl, rfl⟩

/-- Every walk of a run has been started by it. -/
theorem mem_started {parts : Parts} {disk : Disk} {refusals : Refusals}
    (made : assemble parts disk refusals = .ok m₀) (ran : m₀.run? events = some m) :
    ∀ w ∈ m.walks, w.request.id ∈ m₀.started w.request.kind events := by
  refine run?_induction (P := fun events m =>
    ∀ w ∈ m.walks, w.request.id ∈ m₀.started w.request.kind events) ?_ ?_ ran
  · obtain ⟨vault, throttle, hub, rfl⟩ := assemble_eq_ok made
    intro w hw
    cases hw
  · intro events n e n' hn ih hs w hw
    rw [started_concat hn]
    rcases walk_before hs hw with ⟨x, hx, id, kind⟩ | starts
    · rw [← id, ← kind]
      exact List.mem_append_left _ (ih x hx)
    · refine List.mem_append_right _ ?_
      rw [starts, Option.toList, idsOf_singleton, if_pos rfl]
      exact List.mem_singleton_self _

/-! ## The order of admission -/

/-- What runs do to the lines, and which requests they accept. -/
theorem Lined.of_run {parts : Parts} {disk : Disk} {refusals : Refusals}
    (made : assemble parts disk refusals = .ok m₀) (ran : m₀.run? events = some m)
    (kind : RequestKind) : m.Sorted ∧ Accepted (m₀.accepted kind events) m ∧
      Lined (m₀.accepted kind events) (m₀.started kind events) kind m := by
  refine run?_induction (P := fun events m => m.Sorted ∧ Accepted (m₀.accepted kind events) m ∧
    Lined (m₀.accepted kind events) (m₀.started kind events) kind m) ?_ ?_ ran
  · obtain ⟨vault, throttle, hub, rfl⟩ := assemble_eq_ok made
    refine ⟨?_, ⟨List.nodup_nil, ?_, ?_⟩, [], ?_, fun some_ => absurd rfl some_⟩
    · intro kind r hr
      cases kind <;> cases hr
    · intro id hid
      cases hid
    · intro id hid
      cases hid
    · cases kind <;> rfl
  · intro events n e n' hn ⟨sorted, accepted, lined⟩ hs
    rw [accepted_concat hn, started_concat hn]
    exact ⟨sorted.step hs, accepted.step (Ledger.of_run made hn) hs, lined.step sorted hs⟩

/-- After every run, the requests of a kind for which a walk has been started are the first of
those that were accepted into the queue of that kind, in the same order; the others are still in
line, in that order too, behind those that ended unadmitted, of which there are none as long as the
manager is open.  No request is accepted or admitted twice, none is admitted after one that was
accepted later, and every request being walked is among the admitted ones. -/
theorem admits_in_order {parts : Parts} {disk : Disk} {refusals : Refusals}
    (made : assemble parts disk refusals = .ok m₀) (ran : m₀.run? events = some m)
    (kind : RequestKind) :
    m₀.started kind events <+: m₀.accepted kind events ∧
    (m₀.accepted kind events).Nodup ∧ (m₀.started kind events).Nodup ∧
    (m₀.started kind events).Pairwise (fun a b =>
      (m₀.accepted kind events).idxOf a < (m₀.accepted kind events).idxOf b) ∧
    (∃ dropped, m₀.accepted kind events = m₀.started kind events ++ dropped ++ m.line kind ∧
      (dropped ≠ [] → m.closed = true)) ∧
    ∀ w ∈ m.walks, w.request.kind = kind → w.request.id ∈ m₀.started kind events := by
  obtain ⟨-, accepted, dropped, balance, late⟩ := Lined.of_run made ran kind
  have front : m₀.started kind events <+: m₀.accepted kind events := by
    rw [balance, List.append_assoc]
    exact List.prefix_append ..
  refine ⟨front, accepted.once, accepted.once.sublist front.sublist, ?_,
    ⟨dropped, balance, fun some_ => (Orderly.of_run made ran).closed (late some_)⟩, ?_⟩
  · rw [List.pairwise_iff_getElem]
    intro i j hi hj lt
    rw [front.getElem hi, front.getElem hj, accepted.once.idxOf_getElem,
      accepted.once.idxOf_getElem]
    exact lt
  · intro w hw own
    exact own ▸ mem_started made ran w hw

/-- Of two requests that have been given room the second is the first to enter the queue.  The
manager is closed while the dispatcher holds the other one. -/
def overtakingRun : List Event :=
  [.action (.submit .checkpoint firstRoot none), .action (.submit .checkpoint secondRoot none),
    .action (.submit .snapshot firstRoot none), .move (.grant 0), .move (.grant 1),
    .move (.grant 2), .move (.enqueue 1), .move (.enqueue 0), .move (.enqueue 2),
    .move (.dequeue .checkpoint), .move .launch, .move (.dequeue .checkpoint), .action .close,
    .move .giveUp]

theorem overtakingRun_admits : ∃ m₀ m, assemble (inMemory {} none) {} [] = .ok m₀ ∧
    m₀.run? overtakingRun = some m ∧ m₀.accepted .checkpoint overtakingRun = [1, 0] ∧
    m₀.started .checkpoint overtakingRun = [1] ∧ m.line .checkpoint = [] ∧
    m.line .snapshot = [2] ∧
    m₀.started .checkpoint overtakingRun <+: m₀.accepted .checkpoint overtakingRun := by
  have made : assemble (inMemory {} none) {} [] = .ok _ := rfl
  exact ⟨_, _, made, rfl, rfl, rfl, rfl, rfl, (admits_in_order made rfl .checkpoint).1⟩

end Manager

end TrieStorage

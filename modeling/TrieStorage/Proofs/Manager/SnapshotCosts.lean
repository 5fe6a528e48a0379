import TrieStorage.Proofs.Manager.Ledger
import TrieStorage.Proofs.Manager.Snapshot
import TrieStorage.Proofs.Manager.Target

/-!
# What a snapshot costs

A snapshot that nothing else comes in between of changes what is read at one
moment only, when it chooses where to copy: if it makes a generation, the oldest
ones are dropped, and what only they have is gone, whatever becomes of the walk.
Everything else reads as before.

* `begun_move?`: a request that has begun does not begin again.
* `lone_snapshot_keeps` tells for every key what is read afterwards.
-/

namespace TrieStorage

namespace Vault

variable {v v' : Vault} {key value : Bytes}

/-- Whether a value that is read under a key is read there once a snapshot has
chosen where to copy: it is found before any generation is asked, or in a
generation that lasts and the new one comes with nothing else. -/
def Stays (v : Vault) (key value : Bytes) : Prop :=
  (∃ id ∈ frontOrder, (v.storage.peek id key).isSome) ∨
    (∃ g ∈ v.legacy.lasting v.retention, (v.storage.peek g.layer key).isSome) ∧
      ∀ root opener, v.growth? = some (root, opener) → v.Agrees root opener key value

/-- Opening something changes nothing that is read, as long as no generation is added. -/
theorem lookup_of_grows (arranged : v.Arranged) (legacy : v'.legacy = v.legacy)
    (grows : v.storage.Grows v'.storage) (key : Bytes) : v'.lookup key = v.lookup key := by
  have order : v'.readOrder = v.readOrder := by
    unfold readOrder
    rw [legacy]
  rw [lookup_eq, lookup_eq, order, ← List.head?_filterMap, ← List.head?_filterMap]
  refine congrArg List.head? (List.filterMap_congr fun id read => ?_)
  exact grows.peek (arranged.isSome_layer? read) key

theorem lookup_of_stays (arranged : v.Arranged) (usable : v.legacy.usable = true)
    (found : v.lookup key = some value) (stays : v.Stays key value) :
    v.snapshotStore.2.lookup key = some value := by
  cases grows : v.growth? with
  | none =>
    have same : v.snapshotStore.2 = v := by simp only [snapshotStore, grows]
    rw [same]
    exact found
  | some place =>
    obtain ⟨root, opener⟩ := place
    rcases snapshotStore_cases arranged grows with ⟨legacy, kept⟩ | ⟨store, disk, opening, made⟩
    · rw [lookup_of_grows arranged legacy kept]
      exact found
    · rw [lookup_made arranged usable made]
      rw [lookup_eq, readOrder_eq_lasting usable, lastingOrder, List.findSome?_append,
        List.findSome?_append, Option.or_assoc] at found
      rcases stays with front | ⟨lasting, agrees⟩
      · have hit : (frontOrder.findSome? fun id => v.storage.peek id key).isSome :=
          List.findSome?_isSome_iff.2 front
        rw [Option.or_of_isSome hit] at found ⊢
        exact found
      · cases first : frontOrder.findSome? fun id => v.storage.peek id key with
        | some x =>
          rw [first] at found
          exact found
        | none =>
          rw [first, Option.none_or] at found
          rw [Option.none_or]
          cases brought : v.snapshotStore.2.storage.peek (v.next root).layer key with
          | some x =>
            -- what the new generation comes with is asked before what lasts
            have only := agrees root opener grows
            have has := peek_made_next opening made brought
            unfold Agrees at only
            rw [Option.some_or, Option.some.injEq]
            by_cases own : key = activeKey
            · rw [if_pos own] at only has
              rw [only, has]
            · rw [if_neg own] at only has
              exact only store disk x opening has
          | none =>
            have hit : (((v.legacy.lasting v.retention).reverse.map Generation.layer).findSome?
                fun id => v.storage.peek id key).isSome := by
              obtain ⟨g, mem, some_⟩ := lasting
              exact List.findSome?_isSome_iff.2
                ⟨g.layer, List.mem_map_of_mem (List.mem_reverse.2 mem), some_⟩
            rw [Option.or_of_isSome hit] at found
            rw [Option.none_or]
            exact found

end Vault

/-! ## Requests that have begun -/

namespace Walk

theorem phase_start_ne (w : Walk) (v : Vault) : (w.start v).1.phase ≠ .starting := by
  obtain ⟨-, ⟨e, -, same⟩ | ⟨-, same⟩ | ⟨target, -, same⟩⟩ := start_cases w v
  all_goals
    rw [same]
    intro phase
    cases phase

theorem phase_visit_ne (closed : Bool) (w : Walk) (v : Vault) (target : LayerId)
    (stack : List NodeHash) : (w.visit closed v target stack).1.phase ≠ .starting := by
  have done := visited closed w v target stack
  generalize w.visit closed v target stack = s at done ⊢
  obtain ⟨w', v'⟩ := s
  cases done with
  | copied => exact (atStack_afterCopy ..).going.1
  | _ =>
    intro phase
    cases phase

theorem phase_send_ne (closed : Bool) (w : Walk) (target : LayerId) (leaf : Leaf)
    (stack : List NodeHash) : (w.send closed target leaf stack).phase ≠ .starting := by
  cases closed <;>
  · intro phase
    cases phase

end Walk

namespace Manager

variable {m m' : Manager} {id : RequestId}

/-- Whether the walk of a request has chosen where to copy. -/
def Begun (m : Manager) (id : RequestId) : Prop :=
  id ∈ m.finished.map Request.id ∨ ∃ w ∈ m.walks, w.request.id = id ∧ w.phase ≠ .starting

theorem begun_setWalk {x w : Walk} (mem : x ∈ m.walks) (phase : x.phase ≠ .starting)
    (going : w.phase ≠ .starting) :
    ∃ y ∈ (m.setWalk w).walks, y.request.id = x.request.id ∧ y.phase ≠ .starting := by
  by_cases own : x.request.id = w.request.id
  · refine ⟨w, List.mem_map.2 ⟨x, mem, if_pos own⟩, own.symm, going⟩
  · exact ⟨x, List.mem_map.2 ⟨x, mem, if_neg own⟩, rfl, phase⟩

/-- A request that has begun does not begin again. -/
theorem begun_move? (ledger : Ledger m) (begun : m.Begun id) {mv : Move}
    (moved : m.move? mv = some m') : m'.Begun id := by
  rcases begun with finished | ⟨x, mem, rfl, phase⟩
  · left
    cases move?_passage ledger.nodup_liveIds moved with
    | onward _ same _ =>
      rw [same]
      exact finished
    | ending r _ same _ =>
      rw [same, List.map_append]
      exact List.mem_append_left _ finished
  · cases move?_walks moved with
    | still walks _ _ =>
      right
      rw [walks]
      exact ⟨x, mem, rfl, phase⟩
    | launched r _ walks _ _ =>
      right
      rw [walks]
      exact ⟨x, List.mem_append_left _ mem, rfl, phase⟩
    | begun _ _ => exact .inr (begun_setWalk mem phase (Walk.phase_start_ne _ _))
    | visited _ _ => exact .inr (begun_setWalk mem phase (Walk.phase_visit_ne _ _ _ _ _))
    | sent _ _ _ => exact .inr (begun_setWalk mem phase (Walk.phase_send_ne _ _ _ _ _))
    | released _ _ => exact .inr (begun_setWalk mem phase (by rintro ⟨⟩))
    | @left _ w _ _ _ walks _ _ finished =>
      by_cases own : x.request.id = w.request.id
      · left
        rw [finished, own]
        simp [Request.finish, Request.onSink]
      · right
        rw [walks]
        exact ⟨x, List.mem_filter.2 ⟨mem, by simpa using own⟩, rfl, phase⟩

theorem Begun.phase_ne {w : Walk} (ledger : Ledger m) (begun : m.Begun id)
    (found : m.walk? id = some w) : w.phase ≠ .starting := by
  rcases begun with finished | ⟨x, mem, rfl, phase⟩
  · rw [ledger.walk?_eq_none finished] at found
    cases found
  · rw [walk?_of_mem ledger.nodup_walkIds mem] at found
    cases found
    exact phase

/-! ## A request that has the storage to itself -/

end Manager

/-- Events that leave what is stored alone, or are about the request of a number:
its own walk, moves of the other requests that do not copy, and readers. -/
def Event.leavesTo (id : RequestId) : Event → Bool
  | .move (.begin other) => other = id
  | .move (.visit other) => other = id
  | .move _ => true
  | .action (.takeLeaf _) => true
  | .action (.dropReader _) => true
  | .action _ => false

namespace Manager

/-- A snapshot that has not chosen where to copy, at a vault that was `v` when it
was submitted. -/
structure Unbegun (v : Vault) (id : RequestId) (m : Manager) : Prop where
  stored : m.vault = { v with tracker := m.vault.tracker }
  asks : ∀ r ∈ m.live, r.id = id → r.kind = .snapshot
  starting : ∀ w ∈ m.walks, w.request.id = id → w.phase = .starting

/-- A snapshot that has chosen where to copy. -/
structure Chosen (v : Vault) (id : RequestId) (m : Manager) : Prop where
  lookup : ∀ key, m.vault.lookup key = v.snapshotStore.2.lookup key
  legacy : m.vault.legacy = v.snapshotStore.2.legacy
  begun : m.Begun id

variable {m m' : Manager} {id : RequestId} {v : Vault}

/-- Readers change nothing but what is in the sinks. -/
theorem act_reader {a : Action} (of : (Event.action a).leavesTo id = true) :
    ∃ change, ReaderChange change ∧ m.act a = m.mapRequests change := by
  cases a with
  | takeLeaf other => exact ⟨_, .ofSink other LeafSink.attached_take, rfl⟩
  | dropReader other => exact ⟨_, .ofSink other LeafSink.attached_dropReader, rfl⟩
  | put | remove | addDirty | enterPruning | exitPruning | selectEpoch | confirmEpoch | checkEpoch
    | submit | withdraw | setRefusals | close => cases of

theorem asks_move? (ledger : Ledger m) (asks : ∀ r ∈ m.live, r.id = id → r.kind = .snapshot)
    {mv : Move} (moved : m.move? mv = some m') : ∀ r ∈ m'.live, r.id = id → r.kind = .snapshot := by
  intro r mem own
  cases move?_passage ledger.nodup_liveIds moved with
  | onward kept _ _ =>
    obtain ⟨s, before, same⟩ := List.mem_map.1 (kept.subset (List.mem_map_of_mem mem))
    have kind := asks s before ((Request.id_of_stub same).trans own)
    rw [← Request.kind_stub, ← same, Request.kind_stub]
    exact kind
  | ending _ left _ _ => exact asks r (left.symm.subset (List.mem_cons_of_mem _ mem)) own

/-- A walk that is put back is the walk of another request, or was there before. -/
theorem starting_setWalk {w : Walk}
    (starting : ∀ w ∈ m.walks, w.request.id = id → w.phase = .starting)
    (other : w.request.id ≠ id) :
    ∀ w' ∈ (m.setWalk w).walks, w'.request.id = id → w'.phase = .starting := by
  intro w' mem own
  obtain ⟨x, before, same⟩ := List.mem_map.1 mem
  by_cases replaced : x.request.id = w.request.id
  · rw [if_pos replaced] at same
    rw [← same] at own
    exact absurd own other
  · rw [if_neg replaced] at same
    rw [← same] at own ⊢
    exact starting x before own

theorem Unbegun.move? (ledger : Ledger m) (h : Unbegun v id m) {mv : Move}
    (of : (Event.move mv).leavesTo id = true) (moved : m.move? mv = some m') :
    Unbegun v id m' ∨ Chosen v id m' := by
  have asks := asks_move? ledger h.asks moved
  cases move?_walks moved with
  | still walks _ vault =>
    refine .inl ⟨?_, asks, ?_⟩
    · rw [vault]
      exact h.stored
    · rw [walks]
      exact h.starting
  | launched r _ walks _ vault =>
    refine .inl ⟨?_, asks, ?_⟩
    · rw [vault]
      exact h.stored
    · intro w mem own
      rw [walks] at mem
      rcases List.mem_append.1 mem with before | new
      · exact h.starting w before own
      · rw [List.mem_singleton.1 new]
  | @begun w found phase =>
    have own : w.request.id = id := by simpa [Event.leavesTo] using of
    have walked := (walk?_eq_some found).1
    have kind : w.request.kind = .snapshot := by
      refine h.asks w.request ?_ own
      simp only [live, List.mem_append]
      exact .inr (List.mem_map_of_mem walked)
    have chosen : (m.advance (w.start m.vault)).vault = m.vault.snapshotStore.2 := by
      change (w.start m.vault).2 = _
      rw [(Walk.start_cases w m.vault).1, kind]
      rfl
    -- the pending hashes have no part in where a snapshot goes
    have storage : m.vault.snapshotStore.2.storage = v.snapshotStore.2.storage ∧
        m.vault.snapshotStore.2.legacy = v.snapshotStore.2.legacy := by
      rw [h.stored]
      simp only [Vault.snapshotStore, Vault.growth?, Vault.retention]
      split <;> exact ⟨rfl, rfl⟩
    refine .inr ⟨fun key => ?_, ?_, .inr ?_⟩
    · rw [chosen]
      unfold Vault.lookup
      rw [storage.1, storage.2]
    · rw [chosen, storage.2]
    · refine ⟨(w.start m.vault).1, ?_, ?_, Walk.phase_start_ne _ _⟩
      · exact List.mem_map.2 ⟨w, walked, if_pos (by rw [Walk.request_start])⟩
      · rw [Walk.request_start]
        exact own
  | @visited w target stack found phase =>
    have own : w.request.id = id := by simpa [Event.leavesTo] using of
    have starts := h.starting w (walk?_eq_some found).1 own
    rw [phase] at starts
    cases starts
  | @sent w target leaf stack found phase _ =>
    refine .inl ⟨h.stored, asks, starting_setWalk h.starting ?_⟩
    rw [Request.id_of_stub (Walk.stub_send ..)]
    intro own
    have starts := h.starting w (walk?_eq_some found).1 own
    rw [phase] at starts
    cases starts
  | @released w outcome found phase =>
    refine .inl ⟨h.stored, asks, starting_setWalk h.starting fun own => ?_⟩
    have starts := h.starting w (walk?_eq_some found).1 own
    rw [phase] at starts
    cases starts
  | left _ _ walks _ vault _ =>
    refine .inl ⟨?_, asks, ?_⟩
    · rw [vault]
      exact h.stored
    · intro w mem own
      rw [walks] at mem
      exact h.starting w (List.mem_filter.1 mem).1 own

theorem Chosen.move? (ledger : Ledger m) (h : Chosen v id m) {mv : Move}
    (of : (Event.move mv).leavesTo id = true) (moved : m.move? mv = some m') :
    Chosen v id m' := by
  have begun := begun_move? ledger h.begun moved
  cases move?_walks moved with
  | still _ _ vault | launched _ _ _ _ vault | left _ _ _ _ vault _ =>
    refine ⟨?_, ?_, begun⟩
    · rw [vault]
      exact h.lookup
    · rw [vault]
      exact h.legacy
  | @begun w found phase =>
    have own : w.request.id = id := by simpa [Event.leavesTo] using of
    rw [own] at found
    exact absurd phase (h.begun.phase_ne ledger found)
  | @visited w target stack _ _ =>
    have alike := Walk.alike_visit m.closed w m.vault target stack
    exact ⟨fun key => (alike.lookup key).trans (h.lookup key), alike.legacy.trans h.legacy, begun⟩
  | sent _ _ _ | released _ _ => exact ⟨h.lookup, h.legacy, begun⟩

theorem unbegun_or_chosen_step (ledger : Ledger m) (h : Unbegun v id m ∨ Chosen v id m) {e : Event}
    (of : e.leavesTo id = true) (stepped : m.step? e = some m') :
    Unbegun v id m' ∨ Chosen v id m' := by
  cases e with
  | move mv =>
    rcases h with unbegun | chosen
    · exact unbegun.move? ledger of stepped
    · exact .inr (chosen.move? ledger of stepped)
  | action a =>
    cases stepped
    obtain ⟨change, hc, same⟩ := act_reader (m := m) of
    rw [same]
    rcases h with unbegun | chosen
    · refine .inl ⟨unbegun.stored, ?_, ?_⟩
      · intro r mem own
        rw [live_mapRequests] at mem
        obtain ⟨s, before, rfl⟩ := List.mem_map.1 mem
        rw [hc.id_eq] at own
        rw [hc.kind_eq]
        exact unbegun.asks s before own
      · intro w mem own
        obtain ⟨x, before, rfl⟩ := List.mem_map.1 mem
        rw [hc.id_eq] at own
        exact unbegun.starting x before own
    · refine .inr ⟨chosen.lookup, chosen.legacy, ?_⟩
      rcases chosen.begun with finished | ⟨x, mem, own, phase⟩
      · left
        change id ∈ (m.finished.map change).map Request.id
        rw [hc.map_id]
        exact finished
      · right
        exact ⟨_, List.mem_map_of_mem mem, (hc.id_eq _).trans own, phase⟩

theorem unbegun_or_chosen_run (ledger : Ledger m) (h : Unbegun v id m ∨ Chosen v id m)
    {events : List Event} (alone : ∀ e ∈ events, e.leavesTo id = true)
    (ran : m.run? events = some m') : Unbegun v id m' ∨ Chosen v id m' := by
  induction events generalizing m with
  | nil =>
    cases ran
    exact h
  | cons e rest ih =>
    obtain ⟨next, first, later⟩ := Option.bind_eq_some_iff.1 ran
    have next_ := unbegun_or_chosen_step ledger h (alone e List.mem_cons_self) first
    exact ih (ledger.step first) next_ (fun x mem => alone x (List.mem_cons_of_mem e mem)) later

/-- A snapshot that has just been submitted has not begun. -/
theorem unbegun_submit (ledger : Ledger m) (root : NodeHash) (sink : Option LeafSink) :
    Unbegun m.vault m.submitted (m.act (.submit .snapshot root sink)) := by
  have fresh : m.submitted ∉ m.live.map Request.id := by
    intro mem
    have known : m.submitted ∈ m.requests.map Request.id := by
      simp only [requests, List.map_append, List.mem_append]
      exact .inl (.inl mem)
    have lt := List.mem_range.1 (ledger.numbers.subset known)
    omega
  have starting : ∀ w ∈ m.walks, w.request.id = m.submitted → w.phase = .starting := by
    intro w mem own
    refine absurd ?_ fresh
    simp only [live, List.map_append, List.mem_append, List.map_map]
    exact .inr (List.mem_map.2 ⟨w, mem, own⟩)
  have old : ∀ r ∈ m.live, r.id = m.submitted → r.kind = .snapshot := by
    intro r mem own
    exact absurd (List.mem_map.2 ⟨r, mem, own⟩) fresh
  obtain ⟨-, same⟩ | ⟨-, same⟩ := act_submit m .snapshot root sink
  · rw [same]
    exact ⟨rfl, old, starting⟩
  · rw [same]
    refine ⟨rfl, ?_, starting⟩
    intro r mem own
    simp only [live, List.mem_append, List.mem_singleton, or_assoc] at mem old
    rcases mem with waiting | rfl | rest
    · exact old r (.inl waiting) own
    · rfl
    · exact old r (.inr rest) own

theorem get_eq_ok {key value : Bytes} :
    m.get key = .ok value ↔ m.vault.lookup key = some value := by
  unfold get Vault.get
  cases m.vault.lookup key <;> simp

theorem get_congr {key : Bytes} (same : m'.vault.lookup key = m.vault.lookup key) :
    m'.get key = m.get key := by
  unfold get Vault.get
  rw [same]

/-- What is read after a snapshot of any root was submitted while the old layout is
in use, with nothing in between that changes what is stored, whatever became of
the request.  As long as no generation has been added, everything reads as
before.  Otherwise what is found before any generation is asked still reads the
same, and so does what is found in a generation that lasts, unless the new one
comes with something else under the key; what is found in neither is gone. -/
theorem lone_snapshot_keeps {parts : Parts} {disk : Disk} {refusals : Refusals} {m₀ n : Manager}
    {before after : List Event} {root : NodeHash} {sink : Option LeafSink}
    (made : assemble parts disk refusals = .ok m₀) (ran : m₀.run? before = some n)
    (usable : n.vault.legacy.usable = true)
    (alone : ∀ e ∈ after, e.leavesTo n.submitted = true)
    (later : n.run? (.action (.submit .snapshot root sink) :: after) = some m) :
    (m.vault.legacy.generations = n.vault.legacy.generations → ∀ key, m.get key = n.get key) ∧
    (∀ key value, n.get key = .ok value → n.vault.Stays key value → m.get key = .ok value) ∧
    (m.vault.legacy.generations ≠ n.vault.legacy.generations → ∀ key, key ≠ activeKey →
      ¬ n.vault.Outlasts key →
      (∀ path opener, n.vault.growth? = some (path, opener) → n.vault.Blank path opener key) →
        m.get key = .error .keyNotFound) := by
  have ledger := Ledger.of_run made ran
  have arranged := arranged_of_run made ran
  have first : n.step? (.action (.submit .snapshot root sink)) =
      some (n.act (.submit .snapshot root sink)) := rfl
  have submitted := ledger.step first
  have reached := unbegun_or_chosen_run submitted (.inl (unbegun_submit ledger root sink)) alone later
  rcases reached with unbegun | chosen
  · have same (key : Bytes) : m.get key = n.get key := by
      refine get_congr ?_
      rw [unbegun.stored]
      rfl
    refine ⟨fun _ => same, fun key value found _ => (same key).trans found, fun added => ?_⟩
    refine absurd ?_ added
    rw [unbegun.stored]
  · -- what the choice of the target has left is what is read from then on
    have stays : ∀ key value, n.get key = .ok value → n.vault.Stays key value →
        m.get key = .ok value := by
      intro key value found stays
      rw [get_eq_ok] at found ⊢
      rw [chosen.lookup]
      exact Vault.lookup_of_stays arranged usable found stays
    cases grows : n.vault.growth? with
    | none =>
      have same : n.vault.snapshotStore.2 = n.vault := by simp only [Vault.snapshotStore, grows]
      refine ⟨fun _ key => get_congr ?_, stays, fun added => ?_⟩
      · rw [chosen.lookup, same]
      · refine absurd ?_ added
        rw [chosen.legacy, same]
    | some place =>
      obtain ⟨path, opener⟩ := place
      rcases Vault.snapshotStore_cases arranged grows with ⟨legacy, kept⟩ |
        ⟨store, disk, opening, made⟩
      · refine ⟨fun _ key => get_congr ?_, stays, fun added => ?_⟩
        · rw [chosen.lookup, Vault.lookup_of_grows arranged legacy kept]
        · refine absurd ?_ added
          rw [chosen.legacy, legacy]
      · refine ⟨fun unchanged => ?_, stays, fun _ key ne lost blank => ?_⟩
        · have new : n.vault.next path ∈ n.vault.legacy.generations := by
            rw [← unchanged, chosen.legacy, made.generations]
            exact List.mem_append_right _ (List.mem_singleton_self _)
          exact absurd (List.mem_map_of_mem new) arranged.legacy.fresh
        · have brings : n.vault.snapshotStore.2.storage.peek (n.vault.next path).layer key = none := by
            by_contra some_
            obtain ⟨x, found⟩ := Option.ne_none_iff_exists'.1 some_
            have has := Vault.peek_made_next opening made found
            rw [if_neg ne, blank path opener rfl store disk opening] at has
            cases has
          have missed : n.vault.lastingOrder.findSome?
              (fun id => n.vault.storage.peek id key) = none := by
            rw [← Option.not_isSome_iff_eq_none, List.findSome?_isSome_iff]
            exact lost
          have gone : m.vault.lookup key = none := by
            rw [chosen.lookup, Vault.lookup_made arranged usable made, brings, Option.none_or,
              ← List.findSome?_append]
            exact missed
          unfold get Vault.get
          rw [gone]

/-! ### A snapshot of a root that nothing is under -/

/-- The root and the leaf are put, a snapshot of the leaf is taken, and the leaf
is removed, so that only the generation has it. -/
def leafOnlyRun : List Event :=
  [.action (.put Walk.rootHash.bytes Walk.sampleRoot.encode),
    .action (.put Walk.leafHash.bytes Walk.sampleLeaf.encode),
    .action (.submit .snapshot Walk.leafHash none), .move (.grant 0), .move (.enqueue 0),
    .move (.dequeue .snapshot), .move .launch, .move (.begin 0), .move (.visit 0),
    .move (.visit 0), .move (.release 0), .move (.finish 0), .action (.remove Walk.leafHash)]

/-- A root that no node is under. -/
def unknownRoot : NodeHash := ⟨List.replicate 32 1, List.length_replicate⟩

/-- How a snapshot of that root goes, once it has been submitted. -/
def unknownRun : List Event :=
  [.move (.grant 1), .move (.enqueue 1), .move (.dequeue .snapshot), .move .launch,
    .move (.begin 1), .move (.visit 1), .move (.release 1), .move (.finish 1)]

/-- The root still reads the same, and the leaf is gone. -/
theorem unknownRun_keeps_root : ∃ n m, runFrom oneGeneration {} leafOnlyRun = some n ∧
    n.run? (.action (.submit .snapshot unknownRoot none) :: unknownRun) = some m ∧
    m.get Walk.rootHash.bytes = .ok Walk.sampleRoot.encode ∧
    m.get Walk.leafHash.bytes = .error .keyNotFound := by
  have evaluated : ∃ n, runFrom oneGeneration {} leafOnlyRun = some n ∧
      (n.vault.legacy.usable = true ∧ n.submitted = 1 ∧
        n.vault.lookup Walk.rootHash.bytes = some Walk.sampleRoot.encode ∧
        (n.vault.storage.peek .main Walk.rootHash.bytes).isSome = true ∧
        n.vault.growth? = some ("snapshots", .memory) ∧
        (∀ id ∈ n.vault.lastingOrder, n.vault.storage.peek id Walk.leafHash.bytes = none) ∧
        Walk.leafHash.bytes ≠ activeKey ∧
        (n.run? (.action (.submit .snapshot unknownRoot none) :: unknownRun)).any fun m =>
          decide (m.vault.legacy.generations ≠ n.vault.legacy.generations)) :=
    exists_of_runFrom (by decide +kernel)
  obtain ⟨n, ran, usable, number, root, inMain, grows, lost, ne, ends⟩ := evaluated
  obtain ⟨m, later, added⟩ := (Option.any_eq_true _ _).1 ends
  obtain ⟨m₀, made, ran'⟩ := of_runFrom ran
  have alone : ∀ e ∈ unknownRun, e.leavesTo n.submitted = true := by
    rw [number]
    decide
  have keeps := lone_snapshot_keeps made ran' usable alone later
  refine ⟨n, m, ran, later, keeps.2.1 _ _ (get_eq_ok.2 root) ?_, ?_⟩
  · exact .inl ⟨.main, List.mem_cons_self, inMain⟩
  · refine keeps.2.2 (of_decide_eq_true added) _ ne ?_ fun path opener grows' => ?_
    · rintro ⟨id, mem, found⟩
      rw [lost id mem] at found
      cases found
    · cases grows.symm.trans grows'
      exact blank_memory _ _ _

/-- The leaf could be read before, the snapshot copies nothing, and afterwards the
leaf cannot be read. -/
theorem unknownRun_loses_leaf : ∃ n m, runFrom oneGeneration {} leafOnlyRun = some n ∧
    n.closed = false ∧ n.vault.legacy.usable = true ∧
    n.get Walk.leafHash.bytes = .ok Walk.sampleLeaf.encode ∧
    n.run? (.action (.submit .snapshot unknownRoot none) :: unknownRun) = some m ∧
    m.finished.map (fun r => (r.id, r.stats.nodes)) = [(0, 1), (1, 0)] ∧
    m.get Walk.leafHash.bytes = .error .keyNotFound := by
  have evaluated : ∃ n, runFrom oneGeneration {} leafOnlyRun = some n ∧
      (n.closed = false ∧ n.vault.legacy.usable = true ∧
        n.vault.lookup Walk.leafHash.bytes = some Walk.sampleLeaf.encode ∧
        (n.run? (.action (.submit .snapshot unknownRoot none) :: unknownRun)).any fun m =>
          decide (m.finished.map (fun r => (r.id, r.stats.nodes)) = [(0, 1), (1, 0)] ∧
            m.vault.lookup Walk.leafHash.bytes = none)) :=
    exists_of_runFrom (by decide +kernel)
  obtain ⟨n, ran, opened, usable, found, ends⟩ := evaluated
  obtain ⟨m, later, looked⟩ := (Option.any_eq_true _ _).1 ends
  obtain ⟨counts, gone⟩ := of_decide_eq_true looked
  refine ⟨n, m, ran, opened, usable, get_eq_ok.2 found, later, counts, ?_⟩
  unfold get Vault.get
  rw [gone]

end Manager

end TrieStorage

import TrieStorage.Proofs.Manager.Migration

/-!
# Closing once

The layers that a manager has to close are the three it was given, and every
generation that has been in the list.  Generations leave the list when they are
dropped, when an epoch retires the old layout, and when the manager is closed; the
old layout may have been closed before the manager is.  Whatever comes first, each
layer is closed by the first of them that concerns it, and by no other.
-/

namespace TrieStorage

/-- What a scan finds has been opened by it, and not been closed. -/
theorem Discovery.closes?_run (root : String) (opener : Opener) (s : Storage) :
    (∀ id n, s.closes? id = some n → (run root opener s).2.closes? id = some n) ∧
      ∀ g ∈ (run root opener s).1.generations,
        s.closes? g.layer = none ∧ (run root opener s).2.closes? g.layer = some 0 := by
  refine run_induction
    (P := fun found s' => (∀ id n, s.closes? id = some n → s'.closes? id = some n) ∧
      ∀ g ∈ found, s.closes? g.layer = none ∧ s'.closes? g.layer = some 0)
    (fun h opening => ?_) (fun {_ s' _ _ _} h opening => ?_) ⟨fun _ _ => id, by simp⟩
  all_goals
    have grows := Storage.grows_of_openGeneration opening
    refine ⟨fun id n count => grows.closes? (h.1 id n count), fun g mem => ?_⟩
  · exact ⟨(h.2 g mem).1, grows.closes? (h.2 g mem).2⟩
  · rcases Generation.mem_place mem with rfl | old
    · obtain ⟨store, disk, -, rfl, rfl⟩ := Storage.openGeneration_eq_ok opening
      refine ⟨?_, by simp [Storage.closes?, Storage.layer?]⟩
      have unopened : s'.closes? (.generation s'.opened.length) = none := by
        simp [Storage.closes?, Storage.layer?]
      by_contra before
      obtain ⟨n, count⟩ := Option.ne_none_iff_exists'.1 before
      rw [h.1 _ n count] at unopened
      cases unopened
    · exact ⟨(h.2 g old).1, grows.closes? (h.2 g old).2⟩

namespace Legacy

/-- The layers of the old layout that are still to be closed, in that order. -/
def unclosed (l : Legacy) : List LayerId :=
  if l.phase = .active then .db :: l.generations.map Generation.layer else []

variable {l l' : Legacy} {root : String} {opener : Opener} {retention : Retention}
  {s s' : Storage}

theorem close_eq (l : Legacy) (s : Storage) :
    (l.close s).1 = (closeLayers (.ok ()) l.unclosed s).1 ∧
      (l.close s).2.2 = (closeLayers (.ok ()) l.unclosed s).2 ∧
      (l.close s).2.1.unclosed = [] := by
  unfold close unclosed
  by_cases active : l.phase = .active
  · simp only [if_pos active]
    exact ⟨trivial, trivial, rfl⟩
  · simp only [if_neg active]
    exact ⟨rfl, rfl, trivial⟩

/-- A generation that is made is to be closed as well, and those that are dropped are closed. -/
theorem tally_create {known : LayerId → Prop} {others : List LayerId} (active : l.phase = .active)
    (h : Tally known (l.unclosed ++ others) s) {answer : Except StoreError LayerId}
    (made : l.create root opener retention s = (answer, l', s')) :
    Tally known (l'.unclosed ++ others) s' := by
  rcases create_cases made with ⟨e, -, rfl, grows⟩ | ⟨store, disk, opening, -, -, rfl, spared⟩
  · exact h.turn [] [] (fun _ _ => grows.closes?) (by simp) List.nodup_nil (.refl _)
  · have before : s.closes? (l.next root s).layer = none := by
      simp [Storage.closes?, Storage.layer?, next]
    have marked : (l.marking root store disk s).2.closes? (l.next root s).layer = some 0 := by
      unfold marking
      rw [Storage.closes?_put, Storage.closes?, l.layer?_grown root s store disk]
      rfl
    refine h.turn
      (((l.generations ++ [l.next root s]).take
        (l.generations.length + 1 - retention.max)).map Generation.layer)
      [(l.next root s).layer]
      (fun id n count => ?_) (fun id mem => ?_) (List.nodup_singleton _) ?_
    · rw [spared.counted, (l.grows_marking opening).closes? count]
      rfl
    · rw [List.mem_singleton.1 mem, spared.counted, marked]
      exact ⟨before, congrArg some (Nat.zero_add _)⟩
    · -- what is dropped and what stays is what there was, and the new one
      have all := congrArg (List.map Generation.layer) (List.take_append_drop
        (l.generations.length + 1 - retention.max) (l.generations ++ [l.next root s]))
      rw [List.map_append, List.map_append, List.map_singleton] at all
      refine List.perm_iff_count.2 fun id => ?_
      have counts := congrArg (List.count id) all
      simp only [unclosed, if_pos active, List.count_append, List.count_cons,
        List.count_nil] at counts ⊢
      omega

end Legacy

namespace Vault

/-- The layers that are still to be closed, in the order in which closing takes them. -/
def unclosed (v : Vault) (shut : Bool) : List LayerId :=
  v.legacy.unclosed ++ if shut then [] else [.main, .checkpoints]

variable {v v' : Vault} {shut : Bool} {known : LayerId → Prop}

theorem unclosed_congr (legacy : v'.legacy = v.legacy) : v'.unclosed shut = v.unclosed shut := by
  unfold unclosed
  rw [legacy]

/-- A tally is kept by what closes nothing and leaves the old layout alone. -/
theorem tally_still (h : Tally known (v.unclosed shut) v.storage)
    (legacy : v'.legacy = v.legacy) (closes : v'.storage.closes? = v.storage.closes?) :
    Tally known (v'.unclosed shut) v'.storage := by
  rw [unclosed_congr legacy]
  exact h.still closes

theorem closeLegacy_eq (v : Vault) :
    v.closeLegacy.1 = (Legacy.closeLayers (.ok ()) v.legacy.unclosed v.storage).1 ∧
      v.closeLegacy.2.storage = (Legacy.closeLayers (.ok ()) v.legacy.unclosed v.storage).2 ∧
      v.closeLegacy.2.legacy.unclosed = [] :=
  v.legacy.close_eq v.storage

theorem tally_closeLegacy (h : Tally known (v.unclosed shut) v.storage) :
    Tally known (v.closeLegacy.2.unclosed shut) v.closeLegacy.2.storage := by
  obtain ⟨-, storage, none_⟩ := v.closeLegacy_eq
  unfold unclosed
  rw [storage, none_, List.nil_append]
  exact h.closeLayers (.ok ())

theorem tally_confirmEpoch (h : Tally known (v.unclosed shut) v.storage) (closed : Bool)
    (epoch : Epoch) :
    Tally known ((v.confirmEpoch closed epoch).unclosed shut) (v.confirmEpoch closed epoch).storage :=
  confirmEpoch_induction (P := fun v => Tally known (v.unclosed shut) v.storage) h (fun _ => id)
    (fun v h => tally_still h rfl (v.storage.closes?_put .main activeKey activeValue))
    (fun _ => tally_closeLegacy) closed epoch

theorem tally_deliveries (h : Tally known (v.unclosed shut) v.storage) (closed : Bool)
    (deliveries : List (Unit × Epoch)) :
    Tally known ((deliveries.foldl (fun v d => v.confirmEpoch closed d.2) v).unclosed shut)
      (deliveries.foldl (fun v d => v.confirmEpoch closed d.2) v).storage :=
  deliveries_induction (P := fun v => Tally known (v.unclosed shut) v.storage) h
    (fun _ epoch h => tally_confirmEpoch h closed epoch) deliveries

/-- Closing closes all that is left, in turn. -/
theorem close_eq (v : Vault) :
    v.close.1 = (Legacy.closeLayers (.ok ()) (v.unclosed false) v.storage).1.mapError .closeFailed ∧
      v.close.2.storage = (Legacy.closeLayers (.ok ()) (v.unclosed false) v.storage).2 ∧
      v.close.2.unclosed true = [] := by
  obtain ⟨answer, storage, none_⟩ := v.closeLegacy_eq
  unfold unclosed
  rw [Legacy.closeLayers_append, ← answer, ← storage]
  simp only [Bool.false_eq_true, if_false, Legacy.closeLayers_cons, Legacy.closeLayers_nil]
  refine ⟨rfl, rfl, ?_⟩
  rw [if_pos trivial, List.append_nil]
  exact none_

theorem tally_close (h : Tally known (v.unclosed false) v.storage) :
    Tally known (v.close.2.unclosed true) v.close.2.storage := by
  rw [v.close_eq.2.2, v.close_eq.2.1]
  rw [← List.append_nil (v.unclosed false)] at h
  exact h.closeLayers (.ok ())

theorem active_of_growth? {root : String} {opener : Opener}
    (grows : v.growth? = some (root, opener)) : v.legacy.phase = .active := by
  have usable := (growth?_eq_some.1 grows).1
  simp only [Legacy.usable, Bool.and_eq_true, decide_eq_true_eq] at usable
  exact usable.2

theorem tally_target (h : Tally known (v.unclosed shut) v.storage) (kind : RequestKind) :
    Tally known ((v.target kind).2.unclosed shut) (v.target kind).2.storage := by
  rcases v.target_cases kind with ⟨same, -⟩ | ⟨root, opener, answer, l', s', grows, made, same, -⟩
  · rw [same]
    exact h
  · rw [same]
    exact Legacy.tally_create (active_of_growth? grows) h made

/-- The generations that are found are to be closed as well. -/
theorem tally_discover (h : Tally known (v.unclosed shut) v.storage)
    (none_ : v.legacy.generations = []) :
    Tally known (v.discover.unclosed shut) v.discover.storage := by
  unfold discover
  split
  · exact h
  · next root opener grows =>
    obtain ⟨kept, found⟩ := Discovery.closes?_run root opener v.storage
    have active := active_of_growth? grows
    have arranged : Legacy.Arranged (v.legacy.adopt (Discovery.run root opener v.storage).1)
        (Discovery.run root opener v.storage).2 :=
      Discovery.arranged_run v.legacy
    have distinct := arranged.distinct
    refine h.turn [] _ kept (fun id mem => ?_) distinct ?_
    · obtain ⟨g, listed, rfl⟩ := List.mem_map.1 mem
      exact found g listed
    · have before : v.legacy.unclosed = [.db] := by
        unfold Legacy.unclosed
        rw [if_pos active, none_]
        rfl
      have after : (v.legacy.adopt (Discovery.run root opener v.storage).1).unclosed = .db ::
          (v.legacy.adopt (Discovery.run root opener v.storage).1).generations.map
            Generation.layer :=
        if_pos active
      refine List.perm_iff_count.2 fun id => ?_
      simp only [unclosed, before, after, List.count_append, List.count_cons,
        List.count_nil]
      omega

end Vault

namespace Manager

variable {m m' m₀ : Manager} {events : List Event}

/-- The layers that are still to be closed. -/
def unclosed (m : Manager) : List LayerId := m.vault.unclosed m.closed

/-- The layers that a manager has to close after a run: those it was given, and those of
the generations that have been in the list at any time. -/
def Owns (m₀ : Manager) (events : List Event) (id : LayerId) : Prop :=
  id = .main ∨ id = .checkpoints ∨ id = .db ∨
    ∃ before n, before <+: events ∧ m₀.run? before = some n ∧
      id ∈ n.vault.legacy.generations.map Generation.layer

/-- What is in the list is to be closed. -/
theorem Migrated.mem_unclosed {epochs : List Epoch} (h : Migrated m epochs) {id : LayerId}
    (listed : id ∈ m.vault.legacy.generations.map Generation.layer) : id ∈ m.unclosed := by
  refine List.mem_append_left _ ?_
  unfold Legacy.unclosed
  rcases h.vault.active_or_closed with active | closed
  · rw [if_pos active]
    exact List.mem_cons_of_mem _ listed
  · rw [h.vault.generations closed] at listed
    cases listed

/-! ## Steps -/

theorem tally_act {known : LayerId → Prop} (h : Tally known m.unclosed m.vault.storage)
    (a : Action) : Tally known (m.act a).unclosed (m.act a).vault.storage := by
  cases a with
  | put key value => exact Vault.tally_still h rfl (m.vault.storage.closes?_put .main key value)
  | remove hash => exact Vault.tally_still h rfl (m.vault.storage.closes?_remove .main hash.bytes)
  | selectEpoch epoch =>
    refine Vault.tally_still h rfl (funext fun id => ?_)
    cases id <;> rfl
  | confirmEpoch epoch => exact Vault.tally_confirmEpoch h m.closed epoch
  | checkEpoch epoch =>
    simp only [act, checkEpoch, deliverEpochs_eq]
    exact Vault.tally_deliveries h m.closed _
  | submit kind root sink =>
    rcases act_submit m kind root sink with ⟨-, same⟩ | ⟨-, same⟩
    all_goals
      rw [same]
      exact h
  | setRefusals name list =>
    refine Vault.tally_still h rfl (funext fun id => ?_)
    cases id <;> rfl
  | close =>
    simp only [act, close]
    split
    · exact h
    · next opened =>
      simp only [unclosed, opened] at h
      exact Vault.tally_close h
  | _ => exact h

theorem tally_move {known : LayerId → Prop} (h : Tally known m.unclosed m.vault.storage)
    {mv : Move} (moved : m.move? mv = some m') : Tally known m'.unclosed m'.vault.storage := by
  unfold unclosed
  rw [(move?_frame moved).1]
  rcases written_move? moved with ⟨legacy, same | ⟨id, key, value, same⟩⟩ | ⟨kind, vault⟩
  · exact Vault.tally_still h legacy (by rw [same])
  · exact Vault.tally_still h legacy (by rw [same, Storage.closes?_put])
  · rw [vault]
    exact Vault.tally_target h kind

/-! ## Runs -/

/-- What a manager is composed of has not been closed. -/
theorem tally_compose {parts : Parts} {disk : Disk} {refusals : Refusals}
    (composed : compose parts disk refusals = .ok m) :
    Tally (fun id => id = .main ∨ id = .checkpoints ∨ id = .db) m.unclosed m.vault.storage := by
  obtain ⟨_, _, _, _, _, _, _, _, -, -, -, -, -, -, -, -, -, rfl⟩ := compose_eq_ok composed
  have distinct : [LayerId.db, .main, .checkpoints].Nodup := by decide
  refine ⟨distinct, fun id mem => ?_, fun id given => ?_⟩
  · have mem : id ∈ [LayerId.db, .main, .checkpoints] := mem
    simp only [List.mem_cons, List.not_mem_nil, or_false] at mem
    rcases mem with rfl | rfl | rfl <;> rfl
  · rcases given with rfl | rfl | rfl <;> rfl

theorem tally_assemble {parts : Parts} {disk : Disk} {refusals : Refusals}
    (made : assemble parts disk refusals = .ok m) :
    Tally (m.Owns []) m.unclosed m.vault.storage := by
  obtain ⟨n, composed, rfl, remains, -⟩ := assemble_cases made
  have joined : Tally (fun id => id = .main ∨ id = .checkpoints ∨ id = .db) n.joinHub.unclosed
      n.joinHub.vault.storage := by
    simp only [joinHub, deliverEpochs_eq]
    exact Vault.tally_deliveries (tally_compose composed) n.closed _
  have none_ : n.joinHub.vault.legacy.generations = [] := by
    obtain ⟨_, _, _, _, _, _, _, _, -, -, -, -, -, -, -, -, -, rfl⟩ := compose_eq_ok composed
    exact List.sublist_nil.1 remains.generations
  refine (Vault.tally_discover joined none_).learn fun id owned => ?_
  rcases owned with rfl | rfl | rfl | ⟨before, x, front, ran, listed⟩
  · exact .inl (.inl rfl)
  · exact .inl (.inr (.inl rfl))
  · exact .inl (.inr (.inr rfl))
  · rw [List.prefix_nil.1 front] at ran
    cases ran
    exact .inr ((migrated_assemble made).mem_unclosed listed)

/-- After every run, the layers of a manager that are not left have been closed once. -/
theorem tally_of_run {parts : Parts} {disk : Disk} {refusals : Refusals}
    (made : assemble parts disk refusals = .ok m₀) (ran : m₀.run? events = some m) :
    Tally (m₀.Owns events) m.unclosed m.vault.storage := by
  refine run?_induction (P := fun events m => Tally (m₀.Owns events) m.unclosed m.vault.storage)
    (tally_assemble made) (fun {events n e n'} before ih stepped => ?_) ran
  have next : m₀.run? (events ++ [e]) = some n' := run?_concat.2 ⟨n, before, stepped⟩
  have moved : Tally (m₀.Owns events) n'.unclosed n'.vault.storage := by
    cases e with
    | action a =>
      cases Option.some.inj stepped
      exact tally_act ih a
    | move mv => exact tally_move ih stepped
  refine moved.learn fun id owned => ?_
  rcases owned with main | checkpoints | db | ⟨front, x, within, reached, listed⟩
  · exact .inl (.inl main)
  · exact .inl (.inr (.inl checkpoints))
  · exact .inl (.inr (.inr (.inl db)))
  · rcases List.prefix_concat_iff.1 within with rfl | within
    · cases next.symm.trans reached
      exact .inr ((migrated_of_run made next).mem_unclosed listed)
    · exact .inl (.inr (.inr (.inr ⟨front, x, within, reached, listed⟩)))

/-- Without a place for generations there are none. -/
theorem generations_of_run {parts : Parts} {disk : Disk} {refusals : Refusals}
    (made : assemble parts disk refusals = .ok m₀) (ran : m₀.run? events = some m)
    (nowhere : parts.config.snapshotDb.path = none) : m.vault.legacy.generations = [] := by
  have rootless {v : Vault} (config : v.config = parts.config) {root : String} {opener : Opener} :
      v.growth? ≠ some (root, opener) := by
    intro grows
    have path := (Vault.growth?_eq_some.1 grows).2.1
    rw [config, nowhere] at path
    cases path
  refine run?_induction (P := fun _ m => m.vault.legacy.generations = []) ?_
    (fun {_ n e n'} before ih stepped => ?_) ran
  · obtain ⟨n, composed, rfl, remains, -⟩ := assemble_cases made
    obtain ⟨_, _, _, _, _, _, _, _, -, -, -, -, -, -, -, -, -, rfl⟩ := compose_eq_ok composed
    have none_ := List.sublist_nil.1 remains.generations
    simp only [discover, Vault.discover]
    split
    · exact none_
    · next grows => exact absurd grows (rootless remains.config)
  · have kept (keeps : n.vault.Keeps n'.vault) : n'.vault.legacy.generations = [] := by
      have fewer := keeps.generations
      rw [ih] at fewer
      exact List.sublist_nil.1 fewer
    cases e with
    | action a =>
      cases Option.some.inj stepped
      exact kept (n.keeps_act a)
    | move mv =>
      rcases stored_move? stepped with ⟨remains, -⟩ | ⟨kind, vault⟩
      · exact kept remains.toKeeps
      · rcases n.vault.target_cases kind with ⟨same, -⟩ | ⟨root, opener, _, _, _, grows, -⟩
        · rw [vault, same]
          exact ih
        · exact absurd grows (rootless ((config_run before).trans (config_assemble made)))

/-- The generations stand in the order in which they were made. -/
theorem ascending_of_run {parts : Parts} {disk : Disk} {refusals : Refusals}
    (made : assemble parts disk refusals = .ok m₀) (ran : m₀.run? events = some m) :
    m.vault.legacy.generations.Pairwise fun a b => a.id < b.id := by
  have migrated := migrated_of_run made ran
  by_cases closed : m.vault.legacy.phase = .closed
  · rw [migrated.vault.generations closed]
    exact .nil
  · cases path : parts.config.snapshotDb.path with
    | none =>
      rw [generations_of_run made ran path]
      exact .nil
    | some root =>
      have usable := migrated.vault.usable_iff.2 closed
      rw [← config_assemble made, ← config_run ran] at path
      exact ((Tended.of_run made ran).shelved usable root path).row.ascending

/-- In every state that a manager reaches, each layer that it owns has never been closed and
is still to be closed, or it has been closed once.  From the first closing on all have been
closed, and closing again does nothing.  The first closing closes the layers that are left, and
no others: the primary store of the old layout, the generations from the oldest on, the main
store and the checkpoint store.  It fails if one of these fails to close, with the last of
their failures. -/
theorem run_closes_once {parts : Parts} {disk : Disk} {refusals : Refusals}
    (made : assemble parts disk refusals = .ok m₀) (ran : m₀.run? events = some m) :
    (∀ id, m₀.Owns events id →
      m.vault.storage.closes? id = some 0 ∧ id ∈ m.unclosed ∨
      m.vault.storage.closes? id = some 1 ∧ id ∉ m.unclosed) ∧
    (Event.action .close ∈ events →
      (∀ id, m₀.Owns events id → m.vault.storage.closes? id = some 1) ∧
      m.close = (.ok (), m)) ∧
    (Event.action .close ∉ events →
      m.vault.legacy.generations.Pairwise (fun a b => a.id < b.id) ∧
      (∀ id ∈ m.unclosed, m₀.Owns events id) ∧
      (∀ id, m.close.2.vault.storage.closes? id =
        (m.vault.storage.closes? id).map (· + m.unclosed.count id)) ∧
      m.close.1 =
        match (failures (m.unclosed.map fun id => (m.vault.storage.close id).1)).getLast? with
        | none => .ok ()
        | some e => .error (.closeFailed e)) := by
  have tally := tally_of_run made ran
  have migrated := migrated_of_run made ran
  have fresh : m₀.closed = false := by
    obtain ⟨vault, throttle, hub, rfl⟩ := assemble_eq_ok made
    rfl
  have closed_iff : m.closed = true ↔ Event.action .close ∈ events := by
    rw [closed_run ran, fresh]
    simp
  refine ⟨fun id owned => ?_, fun closing => ⟨fun id owned => ?_, ?_⟩, fun open_ => ?_⟩
  · have once := tally.once id owned
    by_cases left : id ∈ m.unclosed
    · rw [if_pos left] at once
      exact .inl ⟨once, left⟩
    · rw [if_neg left] at once
      exact .inr ⟨once, left⟩
  · have closed := closed_iff.2 closing
    have none_ : m.unclosed = [] := by
      have ended := migrated.vault.closed_iff.2 (.inr closed)
      simp [unclosed, Vault.unclosed, Legacy.unclosed, closed, ended]
    have once := tally.once id owned
    rw [none_, if_neg List.not_mem_nil] at once
    exact once
  · rw [close, if_pos (closed_iff.2 closing)]
  · have opened : m.closed = false := by
      rw [← Bool.not_eq_true]
      exact fun closed => open_ (closed_iff.1 closed)
    have closes : m.close = (m.vault.close.1, { m with vault := m.vault.close.2, closed := true }) := by
      rw [close, if_neg (by simp [opened])]
    have left : m.unclosed = m.vault.unclosed false := by
      unfold unclosed
      rw [opened]
    obtain ⟨answer, storage, -⟩ := m.vault.close_eq
    refine ⟨ascending_of_run made ran, fun id mem => ?_, fun id => ?_, ?_⟩
    · rw [left] at mem
      rcases List.mem_append.1 mem with old | own
      · unfold Legacy.unclosed at old
        split at old
        · rcases List.mem_cons.1 old with db | listed
          · exact .inr (.inr (.inl db))
          · exact .inr (.inr (.inr ⟨events, m, List.prefix_refl _, ran, listed⟩))
        · cases old
      · simp only [Bool.false_eq_true, if_false, List.mem_cons, List.not_mem_nil, or_false] at own
        exact own.elim .inl fun checkpoints => .inr (.inl checkpoints)
    · rw [closes, left]
      simp only [storage]
      exact Legacy.closes?_closeLayers ..
    · have distinct := tally.distinct
      rw [left] at distinct ⊢
      rw [closes, answer, Legacy.answer_closeLayers _ _ distinct, foldl_lastFailure]
      cases (failures ((m.vault.unclosed false).map fun id =>
        (m.vault.storage.close id).1)).getLast? <;> rfl

/-- A generation has made room for another one; then the primary store of the old layout and
the main store refuse to close. -/
def failingRun : List Event :=
  overtakenRun ++
    [.move (.begin 1), .action (.setRefusals .db [{ call := .close }]),
      .action (.setRefusals .main [{ call := .close }])]

/-- Closing is told of the failure of the main store, and the generation that has made room
is not closed again. -/
theorem failingRun_closes : ∃ m, runFrom oneGeneration {} failingRun = some m ∧
    m.unclosed = [.db, .generation 1, .main, .checkpoints] ∧
    m.close.1 = .error (.closeFailed (Refusals.report .main .close)) ∧
    m.close.2.vault.storage.closes? (.generation 0) = some 1 ∧
    m.close.2.vault.storage.closes? (.generation 1) = some 1 := by
  have evaluated : ∃ m, runFrom oneGeneration {} failingRun = some m ∧
      (m.unclosed = [.db, .generation 1, .main, .checkpoints] ∧
        m.vault.storage.closes? (.generation 0) = some 1 ∧
        failures (m.unclosed.map fun id => (m.vault.storage.close id).1) =
          [Refusals.report .db .close, Refusals.report .main .close]) :=
    exists_of_runFrom (by decide +kernel)
  obtain ⟨m, ran, left, before, failed⟩ := evaluated
  obtain ⟨m₀, made, ran'⟩ := of_runFrom ran
  obtain ⟨once, -, closing⟩ := run_closes_once made ran'
  obtain ⟨-, owned, counts, answer⟩ := closing (by decide)
  have mem : LayerId.generation 1 ∈ m.unclosed := by
    rw [left]
    decide
  have fresh : m.vault.storage.closes? (.generation 1) = some 0 :=
    (once _ (owned _ mem)).elim And.left fun shut => absurd mem shut.2
  refine ⟨m, ran, left, ?_, ?_, ?_⟩
  · rw [answer, failed]
    rfl
  · rw [counts, before, left]
    decide
  · rw [counts, fresh, left]
    decide

end Manager

end TrieStorage

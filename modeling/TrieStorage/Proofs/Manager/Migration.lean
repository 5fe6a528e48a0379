import TrieStorage.Proofs.Manager.OpenTargets

/-!
# Retiring the old layout

The old layout ends in one of two ways: an epoch retires it, or the manager is closed.
Epochs are heard of when the manager is built and whenever one is confirmed, in any order and
also after closing; the first that is late enough disables the layout for good.  From then on,
and from closing on, no store of a generation is opened and none is read.
-/

namespace TrieStorage

/-- The epochs that an event confirms to the manager. -/
def Event.confirmed : Event → List Epoch
  | .action (.confirmEpoch epoch) => [epoch]
  | .action (.checkEpoch epoch) => [epoch]
  | _ => []

/-- The epoch that a manager made of parts hears of when it is built. -/
def Parts.heard (parts : Parts) : List Epoch := (parts.hub.bind EpochHub.current).toList

namespace Vault

variable {v v' : Vault} {shut : Bool} {epochs : List Epoch}

/-- The old layout is disabled once one of the epochs retires it.  It is closed, and has
no generations, once it is disabled or the manager is shut; until then it is active. -/
structure Migrated (v : Vault) (shut : Bool) (epochs : List Epoch) : Prop where
  disabled : v.legacy.disabled = true ↔ ∃ epoch ∈ epochs, v.retires epoch = true
  phase : v.legacy.phase = if v.legacy.disabled || shut then .closed else .active
  generations : v.legacy.phase = .closed → v.legacy.generations = []

namespace Migrated

theorem active_or_closed (h : v.Migrated shut epochs) :
    v.legacy.phase = .active ∨ v.legacy.phase = .closed := by
  rw [h.phase]
  split
  · exact .inr rfl
  · exact .inl rfl

theorem closed_iff (h : v.Migrated shut epochs) :
    v.legacy.phase = .closed ↔ v.legacy.disabled = true ∨ shut = true := by
  rw [h.phase]
  cases v.legacy.disabled <;> cases shut <;> simp

theorem usable_iff (h : v.Migrated shut epochs) :
    v.legacy.usable = true ↔ v.legacy.phase ≠ .closed := by
  rw [Legacy.usable, h.phase]
  cases v.legacy.disabled <;> cases shut <;> simp

/-- What has ended does not change by ending again. -/
theorem ended (h : v.Migrated shut epochs) (closed : v.legacy.phase = .closed) :
    { v.legacy with phase := .closed, generations := [] } = v.legacy := by
  rw [← closed, ← h.generations closed]

theorem closing (h : v.Migrated shut epochs) : v.closeLegacy.2.legacy =
    { v.legacy with phase := .closed, generations := [] } := by
  rw [legacy_closeLegacy]
  rcases h.active_or_closed with active | closed
  · rw [if_pos active]
  · rw [if_neg (by simp [closed]), h.ended closed]

theorem noteEpoch (h : v.Migrated true epochs) (epoch : Epoch) :
    (v.noteEpoch epoch).legacy = if v.retires epoch then
      { v.legacy with disabled := true, phase := .closed, generations := [] } else v.legacy := by
  rw [legacy_noteEpoch]
  split
  · exact congrArg (fun l : Legacy => { l with disabled := true })
      (h.ended (h.closed_iff.2 (.inr rfl))).symm
  · rfl

/-- An epoch that retires the old layout ends it, also in a manager that is shut; any other
leaves it as it is. -/
theorem legacy_confirmEpoch (h : v.Migrated shut epochs) (epoch : Epoch) :
    (v.confirmEpoch shut epoch).legacy = if v.retires epoch then
      { v.legacy with disabled := true, phase := .closed, generations := [] } else v.legacy := by
  cases shut with
  | true => exact h.noteEpoch epoch
  | false =>
    have noted := v.legacy_noteEpoch epoch
    have put : ((v.noteEpoch epoch).putInto .main activeKey activeValue).2.legacy =
        (v.noteEpoch epoch).legacy := rfl
    unfold Vault.confirmEpoch
    rw [if_neg Bool.false_ne_true]
    dsimp only
    by_cases retires : v.retires epoch = true
    · rw [if_pos retires] at noted ⊢
      rw [put, noted, if_pos rfl, legacy_closeLegacy, put, noted]
      rcases h.active_or_closed with active | closed
      · rw [if_pos active]
      · rw [if_neg (by simp [closed])]
        exact congrArg (fun l : Legacy => { l with disabled := true }) (h.ended closed).symm
    · rw [if_neg retires] at noted ⊢
      rw [put, noted]
      split
      · next disabled =>
        rw [legacy_closeLegacy, put, noted, if_neg (by simp [h.closed_iff.2 (.inl disabled)])]
      · rw [put, noted]

theorem confirmEpoch (h : v.Migrated shut epochs) (epoch : Epoch) :
    (v.confirmEpoch shut epoch).Migrated shut (epochs ++ [epoch]) := by
  have legacy := h.legacy_confirmEpoch epoch
  have config := (v.remains_confirmEpoch shut epoch).config
  have same (e : Epoch) : (v.confirmEpoch shut epoch).retires e = v.retires e := by
    unfold retires
    rw [config]
  by_cases retires : v.retires epoch = true
  · rw [if_pos retires] at legacy
    refine ⟨?_, ?_, fun _ => ?_⟩
    · rw [legacy]
      exact ⟨fun _ => ⟨epoch, by simp, (same epoch).trans retires⟩, fun _ => rfl⟩
    · rw [legacy]
      rfl
    · rw [legacy]
  · rw [if_neg retires] at legacy
    refine ⟨?_, ?_, ?_⟩
    · rw [legacy, h.disabled]
      simp only [same, List.mem_append, List.mem_singleton, or_and_right, exists_or,
        exists_eq_left, retires, Bool.false_eq_true, or_false]
    · rw [legacy]
      exact h.phase
    · rw [legacy]
      exact h.generations

theorem deliveries (h : v.Migrated shut epochs) (deliveries : List (Unit × Epoch)) :
    (deliveries.foldl (fun v d => v.confirmEpoch shut d.2) v).Migrated shut
      (epochs ++ deliveries.map Prod.snd) := by
  induction deliveries generalizing v epochs with
  | nil =>
    rw [List.map_nil, List.append_nil]
    exact h
  | cons d rest ih =>
    rw [List.map_cons, List.append_cons]
    exact ih (h.confirmEpoch d.2)

theorem close (h : v.Migrated false epochs) : v.close.2.Migrated true epochs := by
  have legacy : v.close.2.legacy = { v.legacy with phase := .closed, generations := [] } :=
    h.closing
  refine ⟨?_, ?_, fun _ => ?_⟩
  · have same (epoch : Epoch) : v.close.2.retires epoch = v.retires epoch := by
      unfold retires
      rw [v.remains_close.config]
    simp only [legacy, same]
    exact h.disabled
  · rw [legacy]
    simp
  · rw [legacy]

/-- A change that keeps the settings, and the layout unless that may grow. -/
theorem mono (h : v.Migrated shut epochs) (config : v'.config = v.config)
    (disabled : v'.legacy.disabled = v.legacy.disabled)
    (phase : v'.legacy.phase = v.legacy.phase)
    (barred : v.legacy.usable = false → v'.legacy = v.legacy) : v'.Migrated shut epochs := by
  refine ⟨?_, ?_, fun closed => ?_⟩
  · unfold retires
    rw [disabled, config]
    exact h.disabled
  · rw [phase, disabled]
    exact h.phase
  · rw [phase] at closed
    rw [barred (by simpa [closed] using h.usable_iff)]
    exact h.generations closed

end Migrated

theorem growth?_of_barred (barred : v.legacy.usable = false) : v.growth? = none := by
  unfold growth?
  rw [barred]
  rfl

theorem target_of_barred (barred : v.legacy.usable = false) (kind : RequestKind) :
    (v.target kind).2 = v := by
  rcases v.target_cases kind with ⟨same, -⟩ | ⟨root, opener, answer, l', s', grows, -⟩
  · exact same
  · rw [growth?_of_barred barred] at grows
    cases grows

theorem discover_of_barred (barred : v.legacy.usable = false) : v.discover = v := by
  unfold discover
  rw [growth?_of_barred barred]

theorem config_target (v : Vault) (kind : RequestKind) : (v.target kind).2.config = v.config := by
  rcases v.target_cases kind with ⟨same, -⟩ | ⟨root, opener, answer, l', s', -, -, same, -⟩
  all_goals rw [same]

theorem config_discover (v : Vault) : v.discover.config = v.config := by
  unfold discover
  split <;> rfl

theorem phase_discover (v : Vault) : v.discover.legacy.phase = v.legacy.phase := by
  unfold discover
  split <;> rfl

theorem phase_target (v : Vault) (kind : RequestKind) :
    (v.target kind).2.legacy.phase = v.legacy.phase := by
  rcases v.target_cases kind with ⟨same, -⟩ | ⟨root, opener, answer, l', s', -, made, same, -⟩
  · rw [same]
  · rw [same]
    rcases Legacy.create_cases made with ⟨-, -, rfl, -⟩ | ⟨-, -, -, -, -, rfl, -⟩
    all_goals rfl

namespace Migrated

theorem target (h : v.Migrated shut epochs) (kind : RequestKind) :
    (v.target kind).2.Migrated shut epochs := by
  refine h.mono (v.config_target kind) (v.usable_target kind).2 (v.phase_target kind) ?_
  intro barred
  rw [target_of_barred barred]

theorem discover (h : v.Migrated shut epochs) : v.discover.Migrated shut epochs := by
  refine h.mono v.config_discover v.legacy_discover.2 v.phase_discover fun barred => ?_
  rw [discover_of_barred barred]

end Migrated

/-- No store is opened, and no name on the disk is made or removed. -/
structure OpensNothing (v v' : Vault) : Prop where
  opened : v'.storage.opened.length = v.storage.opened.length
  names : v.storage.disk.SameNames v'.storage.disk

theorem Remains.opensNothing (h : v.Remains v') : v.OpensNothing v' := ⟨h.noneOpened, h.names⟩

end Vault

namespace Manager

variable {m m' : Manager} {epochs : List Epoch} {e : Event}

/-! ## Steps -/

/-- The old layout is where the epochs and closing have brought it, and the manager goes on
hearing of epochs. -/
structure Migrated (m : Manager) (epochs : List Epoch) : Prop where
  vault : m.vault.Migrated m.closed epochs
  listens : m.hub.handlers ≠ []

theorem Migrated.act (h : Migrated m epochs) (a : Action) :
    Migrated (m.act a) (epochs ++ Event.confirmed (.action a)) := by
  -- every other action leaves the old layout alone, and closes nothing
  have aside (closed : (m.act a).closed = m.closed) (hub : (m.act a).hub = m.hub)
      (same : (m.act a).vault.legacy = m.vault.legacy) (none : Event.confirmed (.action a) = []) :
      Migrated (m.act a) (epochs ++ Event.confirmed (.action a)) := by
    rw [none, List.append_nil]
    refine ⟨?_, ?_⟩
    · rw [closed]
      exact h.vault.mono (m.keeps_act a).config (by rw [same]) (by rw [same]) fun _ => same
    · rw [hub]
      exact h.listens
  cases a with
  | confirmEpoch epoch => exact ⟨h.vault.confirmEpoch epoch, h.listens⟩
  | checkEpoch epoch =>
    obtain ⟨handler, others, some_⟩ := List.exists_cons_of_ne_nil h.listens
    have heard := h.vault.deliveries (m.hub.handlers.map fun handler => (handler, epoch))
    have same : (m.act (.checkEpoch epoch)) = { m with
        vault := (m.hub.handlers.map fun handler => (handler, epoch)).foldl
          (fun v d => v.confirmEpoch m.closed d.2) m.vault
        hub := { m.hub with current := some epoch } } := by
      simp only [Manager.act, checkEpoch, deliverEpochs_eq]
      rfl
    rw [same]
    refine ⟨⟨?_, heard.phase, heard.generations⟩, h.listens⟩
    -- the epoch is told once for each handler, which adds nothing to what is known
    rw [heard.disabled]
    simp only [Event.confirmed, List.mem_append, List.map_map, some_, List.map_cons,
      List.mem_cons, List.mem_map, Function.comp]
    constructor
    · rintro ⟨e, before | rfl | ⟨_, _, rfl⟩, retires⟩
      · exact ⟨e, .inl before, retires⟩
      · exact ⟨_, .inr (.inl rfl), retires⟩
      · exact ⟨_, .inr (.inl rfl), retires⟩
    · rintro ⟨e, before | rfl | none, retires⟩
      · exact ⟨e, .inl before, retires⟩
      · exact ⟨_, .inr (.inl rfl), retires⟩
      · cases none
  | submit kind root sink =>
    rcases act_submit m kind root sink with ⟨-, same⟩ | ⟨-, same⟩
    all_goals exact aside (by rw [same]) (by rw [same]) (by rw [same]) rfl
  | close =>
    simp only [Event.confirmed, List.append_nil, Manager.act, Manager.close]
    split
    · exact h
    · next opened =>
      have vault := h.vault
      simp only [opened] at vault
      exact ⟨vault.close, h.listens⟩
  | _ => exact aside rfl rfl rfl rfl

theorem Migrated.move (h : Migrated m epochs) {mv : Move} (moved : m.move? mv = some m') :
    Migrated m' epochs := by
  obtain ⟨closed, -, -, hub⟩ := move?_frame moved
  refine ⟨?_, by rw [hub]; exact h.listens⟩
  rw [closed]
  rcases stored_move? moved with ⟨remains, same⟩ | ⟨kind, vault⟩
  · exact h.vault.mono remains.config (by rw [same]) (by rw [same]) fun _ => same
  · rw [vault]
    exact h.vault.target kind

theorem Migrated.step (h : Migrated m epochs) (stepped : m.step? e = some m') :
    Migrated m' (epochs ++ e.confirmed) := by
  cases e with
  | action a =>
    cases Option.some.inj stepped
    exact h.act a
  | move mv =>
    rw [show Event.confirmed (.move mv) = [] from rfl, List.append_nil]
    exact h.move stepped

theorem Migrated.run (h : Migrated m epochs) {events : List Event}
    (ran : m.run? events = some m') : Migrated m' (epochs ++ events.flatMap Event.confirmed) := by
  refine run?_induction (P := fun events m =>
    Migrated m (epochs ++ events.flatMap Event.confirmed)) ?_ (fun _ ih stepped => ?_) ran
  · simpa using h
  · rw [List.flatMap_append, ← List.append_assoc, List.flatMap_singleton]
    exact ih.step stepped

/-- A manager that has been put together has heard of the epoch of its hub. -/
theorem migrated_assemble {parts : Parts} {disk : Disk} {refusals : Refusals}
    (made : assemble parts disk refusals = .ok m) : Migrated m parts.heard := by
  obtain ⟨n, composed, rfl, -, -⟩ := assemble_cases made
  obtain ⟨_, _, _, _, _, _, hub, _, -, -, -, -, -, -, given, -, -, rfl⟩ := compose_eq_ok composed
  simp only [Parts.heard, given, Option.bind_some, joinHub, discover, deliverEpochs_eq,
    EpochHub.register]
  have heard (v : Vault) (start : v.Migrated false []) := start.deliveries
    (hub.current.toList.map fun epoch => ((), epoch))
  simp only [List.nil_append, List.map_map, Function.comp_def, List.map_id'] at heard
  refine ⟨(heard _ ⟨?_, rfl, fun _ => rfl⟩).discover, by simp⟩
  simp

theorem migrated_of_run {parts : Parts} {disk : Disk} {refusals : Refusals} {m₀ : Manager}
    {events : List Event} (made : assemble parts disk refusals = .ok m₀)
    (ran : m₀.run? events = some m) :
    Migrated m (parts.heard ++ events.flatMap Event.confirmed) :=
  (migrated_assemble made).run ran

/-! ## The settings -/

theorem config_step (stepped : m.step? e = some m') : m'.vault.config = m.vault.config := by
  cases e with
  | action a =>
    cases Option.some.inj stepped
    exact (m.keeps_act a).config
  | move mv =>
    rcases stored_move? stepped with ⟨remains, -⟩ | ⟨kind, vault⟩
    · exact remains.config
    · rw [vault]
      exact m.vault.config_target kind

theorem config_run {events : List Event} (ran : m.run? events = some m') :
    m'.vault.config = m.vault.config :=
  run?_induction (P := fun _ m' => m'.vault.config = m.vault.config) rfl
    (fun _ ih stepped => (config_step stepped).trans ih) ran

theorem config_assemble {parts : Parts} {disk : Disk} {refusals : Refusals}
    (made : assemble parts disk refusals = .ok m) : m.vault.config = parts.config := by
  obtain ⟨n, composed, rfl, remains, -⟩ := assemble_cases made
  obtain ⟨_, _, _, _, _, _, _, _, -, -, -, -, -, -, -, -, -, rfl⟩ := compose_eq_ok composed
  exact (Vault.config_discover _).trans remains.config

/-! ## Nothing is opened any more -/

/-- While the old layout may not grow, no step opens anything, or lets it grow again. -/
theorem barred_step (barred : m.vault.legacy.usable = false) (stepped : m.step? e = some m') :
    m'.vault.legacy.usable = false ∧ m.vault.OpensNothing m'.vault := by
  have still (keeps : m.vault.Keeps m'.vault) : m'.vault.legacy.usable = false := by
    by_contra usable
    rw [Bool.not_eq_false] at usable
    have same := (keeps.usable usable).1
    rw [same, barred] at usable
    cases usable
  cases e with
  | move mv =>
    rcases stored_move? stepped with ⟨remains, -⟩ | ⟨kind, vault⟩
    · exact ⟨still remains.toKeeps, remains.opensNothing⟩
    · rw [vault, Vault.target_of_barred barred]
      exact ⟨barred, rfl, .refl _⟩
  | action a =>
    cases Option.some.inj stepped
    refine ⟨still (m.keeps_act a), ?_⟩
    by_cases faultless : ∀ name list, a ≠ .setRefusals name list
    · exact (m.remains_act faultless).opensNothing
    · simp only [not_forall, not_not] at faultless
      obtain ⟨name, list, rfl⟩ := faultless
      exact ⟨rfl, .refl _⟩

theorem barred_run (barred : m.vault.legacy.usable = false) {events : List Event}
    (ran : m.run? events = some m') : m.vault.OpensNothing m'.vault := by
  have both : m'.vault.legacy.usable = false ∧ m.vault.OpensNothing m'.vault := by
    refine run?_induction (P := fun _ m' => m'.vault.legacy.usable = false ∧
      m.vault.OpensNothing m'.vault) ⟨barred, rfl, .refl _⟩ (fun _ ih stepped => ?_) ran
    obtain ⟨still, next⟩ := barred_step ih.1 stepped
    exact ⟨still, next.opened.trans ih.2.opened, ih.2.names.trans next.names⟩
  exact both.2

theorem opened_of_disabled {parts : Parts} {disk : Disk} {refusals : Refusals}
    (made : assemble parts disk refusals = .ok m) (disabled : m.vault.legacy.disabled = true) :
    m.vault.storage.opened = [] ∧ disk.SameNames m.vault.storage.disk := by
  obtain ⟨n, composed, rfl, remains, -⟩ := assemble_cases made
  have before : n.joinHub.vault.legacy.disabled = true :=
    (Vault.legacy_discover n.joinHub.vault).2.symm.trans disabled
  have barred : n.joinHub.vault.legacy.usable = false := by simp [Legacy.usable, before]
  have same : n.joinHub.discover.vault = n.joinHub.vault := Vault.discover_of_barred barred
  obtain ⟨_, _, _, _, _, _, _, _, -, -, -, -, -, -, -, -, -, rfl⟩ := compose_eq_ok composed
  rw [same]
  exact ⟨List.eq_nil_of_length_eq_zero remains.noneOpened, remains.names⟩

/-! ## Reading -/

/-- The manager with another primary store of the old layout, and other stores of
generations. -/
def withOld (m : Manager) (db : Layer) (opened : List Layer) : Manager :=
  { m with vault := { m.vault with storage := { m.vault.storage with db, opened } } }

theorem get_withOld (barred : m.vault.legacy.usable = false) (db : Layer) (opened : List Layer)
    (key : Bytes) : (m.withOld db opened).get key =
      match m.vault.storage.peek .main key <|> m.vault.storage.peek .checkpoints key with
      | some value => .ok value
      | none => .error .keyNotFound := by
  have order : m.vault.legacy.readOrder = [] := by simp [Legacy.readOrder, barred]
  have found : (m.withOld db opened).vault.lookup key =
      (m.vault.storage.peek .main key <|> m.vault.storage.peek .checkpoints key) := by
    have main : (m.withOld db opened).vault.storage.peek .main key =
        m.vault.storage.peek .main key := rfl
    have checkpoints : (m.withOld db opened).vault.storage.peek .checkpoints key =
        m.vault.storage.peek .checkpoints key := rfl
    have old : (m.withOld db opened).vault.legacy.readOrder = [] := order
    simp only [Vault.lookup, main, checkpoints, Legacy.get, old, List.findSome?_nil]
    cases m.vault.storage.peek .main key <;> cases m.vault.storage.peek .checkpoints key <;> rfl
  exact congrArg (fun read : Option Bytes =>
    (match read with
      | some value => .ok value
      | none => .error .keyNotFound : Except ManagerError Bytes)) found

/-! ## The life of the old layout -/

/-- In every state that a manager reaches, the old layout is disabled if, and only if, some
epoch that it has heard of, when it was built or later, retires the layout; it is closed, and
has no generations, if it is disabled or the manager is closed, and is active otherwise.
Neither is ever undone.  A manager that is disabled from the start has opened no generation,
and from then on, or from closing on, none is opened and no directory made; and readers find
what is in the main store or else in the checkpoint store, whatever is in the others. -/
theorem run_migrates {parts : Parts} {disk : Disk} {refusals : Refusals} {m₀ : Manager}
    {events : List Event} (made : assemble parts disk refusals = .ok m₀)
    (ran : m₀.run? events = some m) :
    (m.vault.legacy.disabled = true ↔
      ∃ epoch ∈ parts.heard ++ events.flatMap Event.confirmed,
        parts.config.disableOldStorageEpoch ≤ epoch) ∧
    (m.vault.legacy.phase =
      if m.vault.legacy.disabled || m.closed then .closed else .active) ∧
    (m.vault.legacy.phase = .closed → m.vault.legacy.generations = []) ∧
    (∀ later m', m.run? later = some m' →
      (m.vault.legacy.disabled = true → m'.vault.legacy.disabled = true) ∧
      (m.closed = true → m'.closed = true)) ∧
    (m₀.vault.legacy.disabled = true →
      m₀.vault.storage.opened = [] ∧ disk.SameNames m₀.vault.storage.disk) ∧
    (m.vault.legacy.disabled = true ∨ m.closed = true →
      (∀ later m', m.run? later = some m' → m.vault.OpensNothing m'.vault) ∧
      ∀ key, (m.get key = match m.vault.storage.peek .main key <|>
            m.vault.storage.peek .checkpoints key with
          | some value => .ok value
          | none => .error .keyNotFound) ∧
        ∀ db opened, (m.withOld db opened).get key = m.get key) := by
  have migrated := migrated_of_run made ran
  have config : m.vault.config = parts.config := (config_run ran).trans (config_assemble made)
  refine ⟨?_, migrated.vault.phase, migrated.vault.generations,
    fun later m' after => ⟨fun disabled => ?_, fun shut => (closed_run after).2 (.inl shut)⟩,
    opened_of_disabled made, fun ended => ?_⟩
  · rw [migrated.vault.disabled]
    simp only [Vault.retires, config, decide_eq_true_eq]
  · -- epochs are only ever heard of, and the one that retired the layout still does
    obtain ⟨epoch, heard, retires⟩ := migrated.vault.disabled.1 disabled
    refine (migrated.run after).vault.disabled.2 ⟨epoch, List.mem_append_left _ heard, ?_⟩
    unfold Vault.retires at retires ⊢
    rw [config_run after]
    exact retires
  · have barred : m.vault.legacy.usable = false := by
      simpa [migrated.vault.closed_iff.2 ended] using migrated.vault.usable_iff
    refine ⟨fun later m' after => barred_run barred after, fun key => ⟨?_, fun db opened => ?_⟩⟩
    · exact get_withOld barred m.vault.storage.db m.vault.storage.opened key
    · rw [get_withOld barred]
      exact (get_withOld barred m.vault.storage.db m.vault.storage.opened key).symm

/-- A manager that starts at an epoch that does not retire the old layout. -/
def beforeRetiring : Parts :=
  { inMemory { disableOldStorageEpoch := 5, snapshotDb := { path := some "snapshots" } }
      (some .memory) with hub := some (.startingAt (some 3)) }

/-- A generation is made, the old layout retired, and an earlier epoch confirmed. -/
def retiringRun : List Event :=
  admittedRun ++
    [.move (.begin 0), .action (.checkEpoch 7), .action (.confirmEpoch 2)]

/-- The old layout stays retired, and nothing is found that only its stores hold. -/
theorem retiringRun_migrates : ∃ m, runFrom beforeRetiring {} retiringRun = some m ∧
    m.closed = false ∧ m.vault.storage.opened.length = 1 ∧ m.vault.legacy.disabled = true ∧
    m.vault.legacy.phase = .closed ∧ m.vault.legacy.generations = [] ∧
    m.vault.storage.peek .main [1] = none ∧ m.vault.storage.peek .checkpoints [1] = none ∧
    ∀ db opened, (m.withOld db opened).get [1] = .error .keyNotFound := by
  have evaluated : ∃ m, runFrom beforeRetiring {} retiringRun = some m ∧
      (m.closed = false ∧ m.vault.storage.opened.length = 1 ∧
        m.vault.storage.peek .main [1] = none ∧ m.vault.storage.peek .checkpoints [1] = none) :=
    exists_of_runFrom (by decide +kernel)
  obtain ⟨m, ran, opened, one, main, checkpoints⟩ := evaluated
  obtain ⟨m₀, made, ran'⟩ := of_runFrom ran
  obtain ⟨disabled, phase, empty, -, -, readers⟩ := run_migrates made ran'
  have retired : m.vault.legacy.disabled = true := disabled.2 ⟨7, by decide, by decide⟩
  have closed : m.vault.legacy.phase = .closed := by
    rw [phase, retired]
    rfl
  refine ⟨m, ran, opened, one, retired, closed, empty closed, main, checkpoints,
    fun db others => ?_⟩
  obtain ⟨own, other⟩ := (readers (.inl retired)).2 [1]
  rw [other, own, main, checkpoints]
  rfl

end Manager

end TrieStorage

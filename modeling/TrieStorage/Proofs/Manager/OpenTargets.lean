import TrieStorage.Proofs.Generation.Succession
import TrieStorage.Proofs.Manager.Snapshot

/-!
# What walks copy into

A walk that copies into a generation has chosen the last one, and goes on
copying into it while others are made.  Retention counts generations and knows
of no walks: the generation stays open as long as fewer have been made after it
than there may be, and is closed with the next one, whoever copies into it.
-/

namespace TrieStorage

namespace Vault

variable {v v' : Vault} {root : String} {opener : Opener} {serial : Nat}

/-- While the old layout may grow, its generations are in a row. -/
def Shelved (v : Vault) : Prop :=
  v.legacy.usable = true → ∀ root, v.config.snapshotDb.path = some root →
    v.legacy.Shelved root v.storage

/-- While the old layout may grow, the generation store opened as number `serial`
is that of a generation that was once the last. -/
def Follows (v : Vault) (serial : Nat) : Prop :=
  v.legacy.usable = true → ∃ root g, v.config.snapshotDb.path = some root ∧
    g.layer = .generation serial ∧ v.legacy.Follows v.config.maxSnapshots root v.storage g

theorem Shelved.keeps (h : v.Shelved) (keeps : v.Keeps v') : v'.Shelved := by
  intro usable root path
  obtain ⟨same, tends⟩ := keeps.usable usable
  rw [same] at usable ⊢
  rw [keeps.config] at path
  exact (h usable root path).tends tends

theorem Follows.keeps (h : v.Follows serial) (keeps : v.Keeps v') : v'.Follows serial := by
  intro usable
  obtain ⟨same, tends⟩ := keeps.usable usable
  rw [same] at usable ⊢
  rw [keeps.config]
  obtain ⟨root, g, path, layer, follows⟩ := h usable
  exact ⟨root, g, path, layer, follows.tends tends⟩

theorem usable_target (v : Vault) (kind : RequestKind) :
    (v.target kind).2.legacy.usable = v.legacy.usable ∧
      (v.target kind).2.legacy.disabled = v.legacy.disabled := by
  rcases v.target_cases kind with ⟨same, -⟩ | ⟨root, opener, answer, l', s', -, made, same, -⟩
  · rw [same]
    exact ⟨rfl, rfl⟩
  · rw [same]
    rcases Legacy.create_cases made with ⟨-, -, rfl, -⟩ | ⟨-, -, -, -, -, rfl, -⟩
    all_goals exact ⟨rfl, rfl⟩

/-- Choosing where to copy leaves the generations alone, or it makes the next one
and chooses that. -/
theorem Shelved.target_cases (h : v.Shelved) (arranged : v.Arranged) (kind : RequestKind) :
    (v.Keeps (v.target kind).2 ∧
      ∀ serial, (v.target kind).1 = .ok (some (.generation serial)) → v.Follows serial) ∨
    ∃ root, v.config.snapshotDb.path = some root ∧ (v.target kind).2.config = v.config ∧
      v.legacy.Advanced root v.retention v.storage (v.target kind).2.legacy
        (v.target kind).2.storage ∧
      ∀ serial, (v.target kind).1 = .ok (some (.generation serial)) →
        (v.legacy.next root v.storage).layer = .generation serial := by
  rcases Vault.target_cases v kind with ⟨same, chosen⟩ |
    ⟨root, opener, answer, l', s', grows, made, same, chosen⟩
  · rw [same]
    refine .inl ⟨.refl v, fun serial found => ?_⟩
    obtain ⟨root, opener, g, grows, last, layer⟩ := chosen serial found
    intro usable
    have path := (growth?_eq_some.1 grows).2.1
    exact ⟨root, g, path, layer, (h usable root path).follows arranged.pos last⟩
  · have path := (growth?_eq_some.1 grows).2.1
    have shelved := h (growth?_eq_some.1 grows).1 root path
    rw [same]
    rcases shelved.create_cases arranged.legacy arranged.pos made with
      ⟨e, rfl, rfl, grows⟩ | ⟨rfl, advanced⟩
    · refine .inl ⟨⟨rfl, .refl _, grows.opened, fun _ => ⟨rfl, grows.tends⟩⟩,
        fun serial found => ?_⟩
      cases chosen _ found
    · refine .inr ⟨root, path, rfl, advanced, fun serial found => ?_⟩
      exact Except.ok.inj (chosen _ found)

theorem shelved_discover (none_ : v.legacy.generations = []) : v.discover.Shelved := by
  intro usable root path
  unfold discover at usable path ⊢
  split
  · refine ⟨?_, fun g last => ?_⟩
    · rw [none_]
      exact .nil ..
    · rw [none_] at last
      cases last
  · next root' opener grows =>
    rw [grows] at path
    cases path.symm.trans (growth?_eq_some.1 grows).2.1
    exact Legacy.shelved_adopt v.legacy v.storage

theorem legacy_discover (v : Vault) : v.discover.legacy.usable = v.legacy.usable ∧
    v.discover.legacy.disabled = v.legacy.disabled := by
  unfold discover
  split <;> exact ⟨rfl, rfl⟩

theorem Shelved.target (h : v.Shelved) (arranged : v.Arranged) (kind : RequestKind) :
    (v.target kind).2.Shelved := by
  rcases h.target_cases arranged kind with ⟨keeps, -⟩ | ⟨root, path, config, advanced, -⟩
  · exact h.keeps keeps
  · intro _ root' path'
    rw [config] at path'
    cases path.symm.trans path'
    exact advanced.shelved

theorem Follows.target (h : v.Follows serial) (shelved : v.Shelved) (arranged : v.Arranged)
    (kind : RequestKind) : (v.target kind).2.Follows serial := by
  rcases shelved.target_cases arranged kind with ⟨keeps, -⟩ | ⟨root, path, config, advanced, -⟩
  · exact h.keeps keeps
  · intro usable
    rw [(v.usable_target kind).1] at usable
    obtain ⟨root', g, path', layer, follows⟩ := h usable
    cases path.symm.trans path'
    rw [config]
    exact ⟨root, g, path, layer, follows.advance arranged.pos advanced⟩

theorem Shelved.follows_target (h : v.Shelved) (arranged : v.Arranged) {kind : RequestKind}
    (chosen : (v.target kind).1 = .ok (some (.generation serial))) :
    (v.target kind).2.Follows serial := by
  rcases h.target_cases arranged kind with ⟨keeps, last⟩ | ⟨root, path, config, advanced, next⟩
  · exact (last serial chosen).keeps keeps
  · intro _
    rw [config]
    exact ⟨root, _, path, next serial chosen, advanced.follows arranged.pos⟩

end Vault

/-! ## What walks copy into -/

namespace Walk

variable {w : Walk} {v : Vault} {target id : LayerId}

theorem target?_start (copies : (w.start v).1.phase.target? = some id) :
    (v.target w.request.kind).1 = .ok (some id) := by
  obtain ⟨-, ⟨e, -, same⟩ | ⟨-, same⟩ | ⟨target, chosen, same⟩⟩ := start_cases w v
  all_goals
    rw [same] at copies
    cases copies
  exact chosen

theorem target?_afterCopy (r : Request) (target : LayerId) (node : Node) (stack : List NodeHash) :
    (afterCopy r target node stack).target? = some target := by
  unfold afterCopy
  split
  · split <;> rfl
  · rfl

theorem target?_visit {closed : Bool} {stack : List NodeHash}
    (copies : (w.visit closed v target stack).1.phase.target? = some id) : id = target := by
  have done := visited closed w v target stack
  generalize w.visit closed v target stack = s at done copies
  obtain ⟨w', v'⟩ := s
  cases done with
  | copied =>
    rw [target?_afterCopy] at copies
    exact (Option.some.inj copies).symm
  | passed _ _ => exact (Option.some.inj copies).symm
  | _ => cases copies

end Walk

namespace Manager

variable {m m' : Manager}

/-- A walk goes on copying into the layer that it has chosen. -/
theorem target?_move? {mv : Move} (moved : m.move? mv = some m') {w' : Walk}
    (mem : w' ∈ m'.walks) {id : LayerId} (copies : w'.phase.target? = some id) :
    (∃ w ∈ m.walks, w.phase.target? = some id) ∨
      ∃ kind, (m.vault.target kind).1 = .ok (some id) ∧ m'.vault = (m.vault.target kind).2 := by
  cases move?_walks moved with
  | still walks _ _ =>
    rw [walks] at mem
    exact .inl ⟨w', mem, copies⟩
  | launched r _ walks _ _ =>
    rw [walks] at mem
    rcases List.mem_append.1 mem with before | new
    · exact .inl ⟨w', before, copies⟩
    · rw [List.mem_singleton.1 new] at copies
      cases copies
  | @begun w found _ =>
    rcases mem_setWalk mem with rfl | before
    · exact .inr ⟨w.request.kind, Walk.target?_start copies, (Walk.start_cases w m.vault).1⟩
    · exact .inl ⟨w', before, copies⟩
  | @visited w target stack found phase =>
    rcases mem_setWalk mem with rfl | before
    · rw [Walk.target?_visit copies]
      exact .inl ⟨w, (walk?_eq_some found).1, by rw [phase]; rfl⟩
    · exact .inl ⟨w', before, copies⟩
  | @sent w target leaf stack found phase _ =>
    rcases mem_setWalk mem with rfl | before
    · refine .inl ⟨w, (walk?_eq_some found).1, ?_⟩
      unfold Walk.send at copies
      split at copies
      · cases copies
      · rw [phase]
        exact copies
    · exact .inl ⟨w', before, copies⟩
  | released found phase =>
    rcases mem_setWalk mem with rfl | before
    · cases copies
    · exact .inl ⟨w', before, copies⟩
  | left _ _ walks _ _ _ =>
    rw [walks] at mem
    exact .inl ⟨w', (List.mem_filter.1 mem).1, copies⟩

theorem phase_act {a : Action} {w' : Walk} (mem : w' ∈ (m.act a).walks) :
    ∃ w ∈ m.walks, w.phase = w'.phase := by
  by_cases aside : a.isAside = true
  · obtain ⟨change, vault, hub, -, same⟩ := act_aside m aside
    rw [same] at mem
    obtain ⟨w, before, rfl⟩ := List.mem_map.1 mem
    exact ⟨w, before, rfl⟩
  · cases a with
    | withdraw | enterPruning | exitPruning => exact ⟨w', mem, rfl⟩
    | submit kind root sink =>
      rcases act_submit m kind root sink with ⟨-, same⟩ | ⟨-, same⟩
      all_goals
        rw [same] at mem
        exact ⟨w', mem, rfl⟩
    | close =>
      obtain ⟨vault, same⟩ := act_close m
      rw [same] at mem
      exact ⟨w', mem, rfl⟩
    | _ => exact absurd rfl aside

/-- As long as the manager is open and the old layout enabled, that may grow. -/
theorem legacy_act {a : Action} (opened : (m.act a).closed = false)
    (enabled : (m.act a).vault.legacy.disabled = false) :
    m.closed = false ∧ (m.act a).vault.legacy = m.vault.legacy := by
  cases a with
  | confirmEpoch epoch => exact ⟨opened, m.vault.legacy_confirmEpoch enabled⟩
  | checkEpoch epoch =>
    simp only [act, checkEpoch, deliverEpochs_eq] at opened enabled ⊢
    exact ⟨opened, legacy_deliveries enabled⟩
  | submit kind root sink =>
    rcases act_submit m kind root sink with ⟨-, same⟩ | ⟨-, same⟩
    all_goals
      rw [same] at opened ⊢
      exact ⟨opened, rfl⟩
  | close =>
    obtain ⟨vault, same⟩ := act_close m
    rw [same] at opened
    cases opened
  | _ => exact ⟨opened, rfl⟩

/-- What is known of the generations while the old layout may grow. -/
structure Tended (m : Manager) : Prop where
  usable : m.closed = false → m.vault.legacy.disabled = false → m.vault.legacy.usable = true
  shelved : m.vault.Shelved
  follows : ∀ w ∈ m.walks, ∀ serial, w.phase.target? = some (.generation serial) →
    m.vault.Follows serial

namespace Tended

theorem move (h : Tended m) (arranged : m.vault.Arranged) {mv : Move}
    (moved : m.move? mv = some m') : Tended m' := by
  refine ⟨fun opened enabled => ?_, ?_, fun w' mem serial copies => ?_⟩
  · rw [(move?_frame moved).1] at opened
    rcases stored_move? moved with ⟨-, same⟩ | ⟨kind, vault⟩
    · rw [same] at enabled ⊢
      exact h.usable opened enabled
    · obtain ⟨usable, disabled⟩ := m.vault.usable_target kind
      rw [vault, disabled] at enabled
      rw [vault, usable]
      exact h.usable opened enabled
  · rcases stored_move? moved with ⟨remains, -⟩ | ⟨kind, vault⟩
    · exact h.shelved.keeps remains.toKeeps
    · rw [vault]
      exact h.shelved.target arranged kind
  · rcases target?_move? moved mem copies with ⟨w, before, copies⟩ | ⟨kind, chosen, vault⟩
    · have follows := h.follows w before serial copies
      rcases stored_move? moved with ⟨remains, -⟩ | ⟨kind, vault⟩
      · exact follows.keeps remains.toKeeps
      · rw [vault]
        exact follows.target h.shelved arranged kind
    · rw [vault]
      exact h.shelved.follows_target arranged chosen

theorem act (h : Tended m) (a : Action) : Tended (m.act a) := by
  refine ⟨fun opened enabled => ?_, h.shelved.keeps (m.keeps_act a),
    fun w' mem serial copies => ?_⟩
  · obtain ⟨opened, same⟩ := legacy_act opened enabled
    rw [same] at enabled ⊢
    exact h.usable opened enabled
  · obtain ⟨w, before, same⟩ := phase_act mem
    rw [← same] at copies
    exact (h.follows w before serial copies).keeps (m.keeps_act a)

theorem of_run {parts : Parts} {disk : Disk} {refusals : Refusals} {m₀ : Manager}
    {events : List Event} (made : assemble parts disk refusals = .ok m₀)
    (ran : m₀.run? events = some m) : Tended m := by
  refine run?_induction (P := fun _ m => Tended m) ?_ (fun {_ n e n'} before h hs => ?_) ran
  · obtain ⟨n, composed, rfl, remains, same⟩ := assemble_cases made
    obtain ⟨_, _, _, _, _, _, _, _, -, -, -, -, -, -, -, -, -, rfl⟩ := compose_eq_ok composed
    refine ⟨fun _ enabled => ?_, Vault.shelved_discover ?_, fun w mem => ?_⟩
    · obtain ⟨usable, disabled⟩ := Vault.legacy_discover _
      rw [discover, disabled] at enabled
      rw [discover, usable, same enabled]
      rfl
    · exact List.sublist_nil.1 remains.generations
    · obtain ⟨vault, throttle, hub, fresh⟩ := assemble_eq_ok made
      rw [fresh] at mem
      cases mem
  · cases e with
    | move mv => exact h.move (arranged_of_run made before) hs
    | action a =>
      cases Option.some.inj hs
      exact h.act a

end Tended

/-- What a walk copies into in an open manager whose old layout has not been
disabled, as long as numbers have not run out: a generation that was the last when it was
chosen, in the directory that is read as its number.  It stays open as long as fewer have
been made after it than there may be; from then on it is no longer in the list, and has
been closed. -/
theorem target_open_iff_young {parts : Parts} {disk : Disk} {refusals : Refusals} {m₀ : Manager}
    {events : List Event} (made : assemble parts disk refusals = .ok m₀)
    (ran : m₀.run? events = some m) (opened : m.closed = false)
    (enabled : m.vault.legacy.disabled = false) (few : m.vault.legacy.nextId < Generation.idBound)
    {w : Walk} (walks : w ∈ m.walks) {serial : Nat}
    (copies : w.phase.target? = some (.generation serial)) :
    ∃ root g, m.vault.config.snapshotDb.path = some root ∧ g.layer = .generation serial ∧
      g.path = Generation.pathOf root g.id ∧ g.id < m.vault.legacy.nextId ∧
      Generation.idOfName? (toString g.id) = some g.id ∧
      (m.vault.legacy.age g < m.vault.config.maxSnapshots →
        g ∈ m.vault.legacy.generations ∧ g.Open m.vault.storage) ∧
      (m.vault.config.maxSnapshots ≤ m.vault.legacy.age g →
        g ∉ m.vault.legacy.generations ∧ g.Closed m.vault.storage) := by
  have tended := Tended.of_run made ran
  have usable := tended.usable opened enabled
  obtain ⟨root, g, path, layer, follows⟩ := tended.follows w walks serial copies usable
  have row := (tended.shelved usable root path).row
  refine ⟨root, g, path, layer, follows.path, follows.number,
    Generation.idOfName?_toString (follows.number.trans few), fun young => ?_, fun old => ?_⟩
  · have mem := List.mem_reverse.1 (List.mem_of_getElem? (follows.young young))
    exact ⟨mem, row.opened g mem⟩
  · have shut := follows.old old
    exact ⟨fun mem => (row.opened g mem).not_closed shut, shut⟩

/-! ### Two snapshots at once -/

/-- A snapshot copies into the only generation there may be, and another one has
been admitted. -/
def overtakenRun : List Event :=
  admittedRun ++
    [.move (.begin 0), .action (.submit .snapshot Walk.leafHash none), .move (.grant 1),
      .move (.enqueue 1), .move (.dequeue .snapshot), .move .launch]

/-- As long as the other has not begun, the generation of the first is open. -/
theorem overtakenRun_target_open : ∃ m g, runFrom oneGeneration {} overtakenRun = some m ∧
    g.layer = .generation 0 ∧ g ∈ m.vault.legacy.generations ∧ g.Open m.vault.storage := by
  have evaluated : ∃ m, runFrom oneGeneration {} overtakenRun = some m ∧
      (m.closed = false ∧ m.vault.legacy.disabled = false ∧
        m.vault.legacy.generations.map Generation.layer = [.generation 0] ∧
        m.vault.config.maxSnapshots = 1 ∧ m.vault.legacy.nextId = 1 ∧
        (m.walk? 0).any fun w => decide (w.phase.target? = some (.generation 0))) :=
    exists_of_runFrom (by decide +kernel)
  obtain ⟨m, ran, opened, enabled, layers, max, next, copying⟩ := evaluated
  obtain ⟨w, found, copies⟩ := (Option.any_eq_true _ _).1 copying
  obtain ⟨m₀, made, ran'⟩ := of_runFrom ran
  have few : m.vault.legacy.nextId < Generation.idBound := by
    rw [next]
    decide
  obtain ⟨root, g, -, layer, -, -, -, young, -⟩ := target_open_iff_young made ran' opened enabled
    few (walk?_eq_some found).1 (of_decide_eq_true copies)
  refine ⟨m, g, ran, layer, young ?_⟩
  unfold Legacy.age
  rw [max, next]
  omega

/-- Once the other has begun, the first goes on copying into a generation that has
been closed, and whose directory is gone. -/
theorem overtakenRun_closes_target : ∃ m m' g w, runFrom oneGeneration {} overtakenRun = some m ∧
    m.run? [.move (.begin 1)] = some m' ∧ m'.closed = false ∧ m'.vault.legacy.disabled = false ∧
    w ∈ m'.walks ∧ w.phase = .visiting g.layer [Walk.rootHash] ∧
    g ∈ m.vault.legacy.generations ∧ m.vault.storage.disk.isDirectory g.path = true ∧
    g.Closed m'.vault.storage ∧ m'.vault.storage.disk.exists? g.path = false := by
  have evaluated : ∃ m, runFrom oneGeneration {} overtakenRun = some m ∧
      (⟨0, "snapshots/0", .generation 0⟩ ∈ m.vault.legacy.generations ∧
        m.vault.storage.disk.isDirectory "snapshots/0" = true ∧
        (m.run? [.move (.begin 1)]).any fun m' =>
          decide (m'.closed = false ∧ m'.vault.legacy.disabled = false ∧
            m'.vault.storage.opened.map Layer.closes = [1, 0] ∧
            m'.vault.storage.disk.exists? "snapshots/0" = false ∧
            (m'.walk? 0).map Walk.phase = some (.visiting (.generation 0) [Walk.rootHash]))) :=
    exists_of_runFrom (by decide +kernel)
  obtain ⟨m, ran, mem, there, ends⟩ := evaluated
  obtain ⟨m', later, looked⟩ := (Option.any_eq_true _ _).1 ends
  obtain ⟨opened, enabled, closes, gone, walk⟩ := of_decide_eq_true looked
  obtain ⟨w, found, phase⟩ := Option.map_eq_some_iff.1 walk
  refine ⟨m, m', _, w, ran, later, opened, enabled, (walk?_eq_some found).1, phase, mem, there, ?_,
    gone⟩
  have first : (m'.vault.storage.opened.map Layer.closes)[0]? = some 1 := by
    rw [closes]
    rfl
  rw [List.getElem?_map] at first
  obtain ⟨layer, here, once⟩ := Option.map_eq_some_iff.1 first
  exact ⟨0, layer, rfl, here, by omega⟩

end Manager

end TrieStorage

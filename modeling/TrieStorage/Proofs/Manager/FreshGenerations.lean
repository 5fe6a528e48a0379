import TrieStorage.Proofs.Generation.Numbering
import TrieStorage.Proofs.Manager.OpenTargets

/-!
# Fresh generations

A manager takes the numbers of its generations one after the other, from the one
that its scan counts on from.  So if the scan gets above all numbered directories,
each generation that is made later is a new one; if not, sooner or later an old one is
opened again, with what is in it.
-/

namespace TrieStorage

namespace Refusals

/-- No store of a generation refuses to be marked. -/
def AllowMarks (refusals : Refusals) : Prop :=
  ∀ directory, refusals.refuse (.generation directory) .put (some activeKey) = false

theorem of_set_of_ne {refusals : Refusals} {name other : LayerName} (ne : name ≠ other)
    (list : List Refusal) : (refusals.set name list).of other = refusals.of other := by
  have same (r : LayerName × List Refusal) :
      (decide (decide (r.1 ≠ name) = true ∧ decide (r.1 = other) = true)) =
        decide (r.1 = other) := by
    by_cases own : r.1 = other
    · simp [own, ne.symm]
    · simp [own]
  unfold set of
  rw [List.find?_cons_of_neg (by simpa using ne), List.find?_filter]
  simp only [same]

theorem AllowMarks.set {refusals : Refusals} (h : refusals.AllowMarks) {name : LayerName}
    (other : ∀ directory, name ≠ .generation directory) (list : List Refusal) :
    (refusals.set name list).AllowMarks := by
  intro directory
  unfold refuse
  rw [of_set_of_ne (other directory)]
  exact h directory

end Refusals

namespace Vault

variable {v v' : Vault} {root : String} {opener : Opener} {first : Nat}

/-- What is known of the numbers from the next one on, if they are counted from
`first` and the generations are kept under `root`. -/
structure Reserves (v : Vault) (root : String) (opener : Opener) (first : Nat) : Prop where
  path : v.config.snapshotDb.path = some root
  opens : v.opener = some opener
  marks : v.storage.refusals.AllowMarks
  le : first ≤ v.legacy.nextId
  free : v.storage.disk.FreeFrom root opener v.legacy.nextId

namespace Reserves

theorem remains (h : v.Reserves root opener first) (remains : v.Remains v') :
    v'.Reserves root opener first := by
  refine ⟨?_, ?_, ?_, ?_, fun n later usable => ?_⟩
  · rw [remains.config]
    exact h.path
  · rw [remains.opener]
    exact h.opens
  · rw [remains.refusals]
    exact h.marks
  · rw [remains.nextId]
    exact h.le
  · rw [remains.nextId] at later
    exact (h.free n later usable).sameNames remains.names

theorem of_growth? (h : v.Reserves root opener first) {root' : String} {opener' : Opener}
    (grows : v.growth? = some (root', opener')) : root' = root ∧ opener' = opener := by
  obtain ⟨-, path, opens⟩ := growth?_eq_some.1 grows
  exact ⟨Option.some.inj (path.symm.trans h.path), Option.some.inj (opens.symm.trans h.opens)⟩

theorem target (h : v.Reserves root opener first) (straight : Path.Straight root)
    (kind : RequestKind) : (v.target kind).2.Reserves root opener first := by
  rcases v.target_cases kind with ⟨same, -⟩ | ⟨root', opener', answer, l', s', grows, made, same, -⟩
  · rw [same]
    exact h
  · obtain ⟨rfl, rfl⟩ := h.of_growth? grows
    have free := Legacy.freeFrom_create h.free straight (h.marks _) made
    rw [same]
    rcases Legacy.create_cases made with ⟨-, -, rfl, grown⟩ |
      ⟨store, disk, opening, -, -, rfl, spared⟩
    · refine ⟨h.path, h.opens, ?_, h.le, free⟩
      rw [grown.refusals]
      exact h.marks
    · refine ⟨h.path, h.opens, ?_, Nat.le_succ_of_le h.le, free⟩
      rw [spared.refusals, (v.legacy.grows_marking opening).refusals]
      exact h.marks

theorem discover (grows : v.growth? = some (root, opener)) (marks : v.storage.refusals.AllowMarks)
    (sound : v.storage.disk.Sound) (straight : Path.Straight root)
    (reaches : Discovery.Reaches root opener v.storage) :
    v.discover.Reserves root opener (Discovery.run root opener v.storage).1.nextId := by
  obtain ⟨-, path, opens⟩ := growth?_eq_some.1 grows
  unfold Vault.discover
  rw [grows]
  refine ⟨path, opens, ?_, Nat.le_refl _, Discovery.freeFrom_run sound straight reaches⟩
  rw [Discovery.refusals_run]
  exact marks

theorem fresh_target (h : v.Reserves root opener first) (straight : Path.Straight root)
    (arranged : v.Arranged) (shelved : v.Shelved) {kind : RequestKind} {g : Generation}
    (listed : g ∈ (v.target kind).2.legacy.generations) (new : g ∉ v.legacy.generations) :
    g.path = Generation.pathOf root g.id ∧ first ≤ g.id ∧
      g.id < (v.target kind).2.legacy.nextId ∧ g.Fresh v.storage (v.target kind).2.storage := by
  obtain ⟨root', opener', id, l', s', grows, made, same, next, rfl⟩ :=
    exists_create_of_target listed new
  obtain ⟨rfl, rfl⟩ := h.of_growth? grows
  obtain ⟨usable, path, -⟩ := growth?_eq_some.1 grows
  rw [same]
  refine ⟨rfl, h.le, ?_, Legacy.fresh_create h.free straight (shelved usable root' path)
    arranged.legacy arranged.pos made⟩
  exact Nat.lt_of_lt_of_eq (Nat.lt_succ_self v.legacy.nextId) next.symm

end Reserves

end Vault

namespace Manager

variable {m m' : Manager} {root : String} {opener : Opener} {first : Nat}

theorem reserves_act (h : m.vault.Reserves root opener first) {a : Action}
    (faultless : ∀ directory list, a ≠ .setRefusals (.generation directory) list) :
    (m.act a).vault.Reserves root opener first := by
  by_cases refuses : ∃ name list, a = .setRefusals name list
  · obtain ⟨name, list, rfl⟩ := refuses
    have other (directory : String) : name ≠ .generation directory := by
      intro same
      exact faultless directory list (by rw [same])
    exact ⟨h.path, h.opens, h.marks.set other list, h.le, h.free⟩
  · exact h.remains (m.remains_act fun name list same => refuses ⟨name, list, same⟩)

theorem reserves_of_run {m₀ : Manager} (straight : Path.Straight root)
    (start : m₀.vault.Reserves root opener first) {events : List Event}
    (faultless : ∀ directory list, .action (.setRefusals (.generation directory) list) ∉ events)
    (ran : m₀.run? events = some m) : m.vault.Reserves root opener first := by
  revert faultless
  refine run?_induction (P := fun events m =>
    (∀ directory list, .action (.setRefusals (.generation directory) list) ∉ events) →
      m.vault.Reserves root opener first) (fun _ => start)
    (fun {before n e n'} _ ih hs faultless => ?_) ran
  have known := ih fun directory list mem =>
    faultless directory list (List.mem_append_left _ mem)
  cases e with
  | action a =>
    cases Option.some.inj hs
    refine reserves_act known fun directory list same => faultless directory list ?_
    rw [same]
    simp
  | move mv =>
    rcases stored_move? hs with ⟨remains, -⟩ | ⟨kind, vault⟩
    · exact known.remains remains
    · rw [vault]
      exact known.target straight kind

/-- Whatever a manager does, the generations that it makes are fresh. -/
theorem fresh_step (h : m.vault.Reserves root opener first) (straight : Path.Straight root)
    (arranged : m.vault.Arranged) (shelved : m.vault.Shelved) {e : Event}
    (stepped : m.step? e = some m') {g : Generation} (listed : g ∈ m'.vault.legacy.generations)
    (new : g ∉ m.vault.legacy.generations) :
    g.path = Generation.pathOf root g.id ∧ first ≤ g.id ∧ g.id < m'.vault.legacy.nextId ∧
      g.Fresh m.vault.storage m'.vault.storage := by
  obtain ⟨kind, vault⟩ := exists_target_of_step stepped listed new
  rw [vault] at listed ⊢
  exact h.fresh_target straight arranged shelved listed new

/-- The number that a scan counts on from is above all numbered directories if, and
only if, the scan gets to each of them or to one of a greater number, as it does if
nothing ends it early.  In that case all generations that a manager makes are fresh, as
long as numbers do not run out and no store refuses to be marked: there was no directory
of their number at the start nor when they are made, the one that is made is read as their
number, and the copy begins with nothing in them but the mark. -/
theorem created_generation_fresh {parts : Parts} {disk : Disk} {refusals : Refusals} {c : Manager}
    (composed : compose parts disk refusals = .ok c)
    (grows : c.joinHub.vault.growth? = some (root, opener)) (marks : refusals.AllowMarks)
    (sound : disk.Sound) (straight : Path.Straight root)
    (few : ∀ name ∈ disk.subdirectories root, ∀ n, Generation.idOfName? name = some n →
      n + 1 < Generation.idBound) :
    (Discovery.run root opener c.joinHub.vault.storage).1.nextId < Generation.idBound ∧
    ((∀ n, toString n ∈ disk.subdirectories root →
        n < (Discovery.run root opener c.joinHub.vault.storage).1.nextId) ↔
      Discovery.Reaches root opener c.joinHub.vault.storage) ∧
    ((Discovery.run root opener c.joinHub.vault.storage).1.error = none →
      Discovery.Reaches root opener c.joinHub.vault.storage) ∧
    (Discovery.Reaches root opener c.joinHub.vault.storage →
      ∀ before m e m' g, c.joinHub.discover.run? before = some m →
        (∀ directory list, .action (.setRefusals (.generation directory) list) ∉ before) →
        m.step? e = some m' → m'.vault.legacy.nextId < Generation.idBound →
        g ∈ m'.vault.legacy.generations → g ∉ m.vault.legacy.generations →
        g.path = Generation.pathOf root g.id ∧ toString g.id ∉ disk.subdirectories root ∧
          Generation.idOfName? (toString g.id) = some g.id ∧
          g.Fresh m.vault.storage m'.vault.storage) := by
  have made := assemble_of_compose composed
  obtain ⟨n, composed', -, remains, -⟩ := assemble_cases made
  cases composed.symm.trans composed'
  have given : c.vault.storage.disk = disk ∧ c.vault.storage.refusals = refusals := by
    obtain ⟨_, _, _, _, _, _, _, _, -, -, -, -, -, -, -, -, -, rfl⟩ := compose_eq_ok composed
    exact ⟨rfl, rfl⟩
  have names : disk.SameNames c.joinHub.vault.storage.disk := by
    rw [← given.1]
    exact remains.names
  have sound := sound.sameNames names
  rw [← given.2, ← remains.refusals] at marks
  rw [← names.subdirectories] at few ⊢
  refine ⟨Discovery.nextId_run_lt sound few,
    forall_congr' fun n => imp_congr_right fun _ => Discovery.lt_nextId_run sound,
    Discovery.reaches_of_error_eq_none sound,
    fun reaches before m e m' g ran faultless stepped small listed new => ?_⟩
  have start := Vault.Reserves.discover grows marks sound straight reaches
  have known := reserves_of_run straight start faultless ran
  obtain ⟨path, later, below, fresh⟩ := fresh_step known straight (arranged_of_run made ran)
    (Tended.of_run made ran).shelved stepped listed new
  refine ⟨path, fun there => ?_, Generation.idOfName?_toString (below.trans small), fresh⟩
  have := (Discovery.lt_nextId_run sound).2 (reaches g.id there)
  omega

/-! ### A directory that the scan does not get to -/

/-- Generations on disk. -/
def generationsOnDisk : Parts :=
  inMemory { snapshotDb := { path := some "g" } } (some .logged)

/-- The log of the last generation holds an entry; in the middle there may be a
directory whose name is not a number. -/
def agedDisk (names : List String) : Disk :=
  { entries := (["g"], .directory) :: names.map (fun name => (["g", name], .directory)) ++
      [(["g", "2", LoggedStore.logName], .file 0)]
    files := [Log.write [.put [97] [49]]] }

/-- A snapshot begins. -/
def begun : Event := .move (.begin 0)

/-- The scan gets to the old generation, and the snapshot goes to a new one. -/
theorem agedDisk_fresh : ∃ c m m' g, compose generationsOnDisk (agedDisk ["2"]) [] = .ok c ∧
    c.joinHub.discover.run? admittedRun = some m ∧ m.step? begun = some m' ∧
    g ∈ m'.vault.legacy.generations ∧ g.id = 3 ∧ g.Fresh m.vault.storage m'.vault.storage := by
  have evaluated : ∃ c, compose generationsOnDisk (agedDisk ["2"]) [] = .ok c ∧
      (c.joinHub.vault.growth? = some ("g", .logged) ∧
        (Discovery.run "g" .logged c.joinHub.vault.storage).1.error = none ∧
        (c.joinHub.discover.run? admittedRun).any fun m => (m.step? begun).any fun m' =>
          decide (⟨3, "g/3", .generation 1⟩ ∉ m.vault.legacy.generations ∧
            ⟨3, "g/3", .generation 1⟩ ∈ m'.vault.legacy.generations ∧
            m'.vault.legacy.nextId < Generation.idBound)) :=
    exists_of_compose (by decide +kernel)
  obtain ⟨c, composed, grows, whole, runs⟩ := evaluated
  obtain ⟨m, ran, steps⟩ := (Option.any_eq_true _ _).1 runs
  obtain ⟨m', stepped, looked⟩ := (Option.any_eq_true _ _).1 steps
  obtain ⟨new, made, small⟩ := of_decide_eq_true looked
  have few : ∀ name ∈ (agedDisk ["2"]).subdirectories "g", ∀ n,
      Generation.idOfName? name = some n → n + 1 < Generation.idBound := by
    have names : (agedDisk ["2"]).subdirectories "g" = [toString 2] := by decide +kernel
    intro name listed n number
    rw [names, List.mem_singleton] at listed
    subst listed
    rw [Generation.eq_of_idOfName?_toString number]
    decide
  obtain ⟨-, -, reaches, fresh⟩ := created_generation_fresh composed grows (fun _ => rfl)
    (by decide +kernel) ⟨by decide, by decide⟩ few
  exact ⟨c, m, m', _, composed, ran, stepped, made, rfl,
    (fresh (reaches whole) _ m begun m' _ ran (by simp [admittedRun]) stepped small made new).2.2.2⟩

/-- The manager once it has scanned directories in this order. -/
def scanning (c : Manager) (root : String) (opener : Opener) (names : List String) : Manager :=
  let (found, storage) := Discovery.scan root opener names [] c.vault.storage
  { c with vault := { c.vault with storage, legacy := c.vault.legacy.adopt found } }

theorem discover_eq_scanning {c : Manager} (grows : c.vault.growth? = some (root, opener))
    (there : c.vault.storage.disk.entry? root = some .directory) :
    c.discover = c.scanning root opener
      (Discovery.scanOrder (c.vault.storage.disk.subdirectories root)) := by
  unfold discover Vault.discover Discovery.run
  rw [grows]
  dsimp only
  rw [there]
  rfl

/-- A run of a manager whose scan takes the directories in the order given here, looked at when a
snapshot begins. -/
theorem exists_of_scanning {names : List String} (order : Discovery.scanOrder names = names)
    {P : Manager → Manager → Manager → Prop} [∀ c m m', Decidable (P c m m')]
    (evaluated : (compose generationsOnDisk (agedDisk names) []).toOption.any (fun c =>
      decide (c.joinHub.vault.growth? = some ("g", .logged) ∧
        c.joinHub.vault.storage.disk.entry? "g" = some .directory ∧
        c.joinHub.vault.storage.disk.subdirectories "g" = names ∧
        ((c.joinHub.scanning "g" .logged names).run? admittedRun).any fun m =>
          (m.step? begun).any fun m' => decide (P c m m'))) = true) :
    ∃ c m m', compose generationsOnDisk (agedDisk names) [] = .ok c ∧
      c.joinHub.vault.growth? = some ("g", .logged) ∧
      Discovery.run "g" .logged c.joinHub.vault.storage =
        Discovery.scan "g" .logged names [] c.joinHub.vault.storage ∧
      c.joinHub.discover.run? admittedRun = some m ∧ m.step? begun = some m' ∧ P c m m' := by
  obtain ⟨c, composed, grows, there, listed, runs⟩ := exists_of_compose evaluated
  have discovers := discover_eq_scanning grows there
  rw [listed, order] at discovers
  rw [← discovers] at runs
  obtain ⟨m, ran, steps⟩ := (Option.any_eq_true _ _).1 runs
  obtain ⟨m', stepped, looked⟩ := (Option.any_eq_true _ _).1 steps
  refine ⟨c, m, m', composed, grows, ?_, ran, stepped, of_decide_eq_true looked⟩
  unfold Discovery.run
  rw [there]
  dsimp only
  rw [listed, order]

theorem scanOrder_aged : Discovery.scanOrder ["1", "1x", "2"] = ["1", "1x", "2"] :=
  List.mergeSort_of_pairwise (by decide)

/-- The scan stops before the last generation, so that one is opened again for the
snapshot, with its entry. -/
theorem agedDisk_reopens : ∃ c m m' g,
    compose generationsOnDisk (agedDisk ["1", "1x", "2"]) [] = .ok c ∧
    c.joinHub.vault.growth? = some ("g", .logged) ∧ (agedDisk ["1", "1x", "2"]).Sound ∧
    toString 2 ∈ (agedDisk ["1", "1x", "2"]).subdirectories "g" ∧
    (Discovery.run "g" .logged c.joinHub.vault.storage).1.nextId = 2 ∧
    c.joinHub.discover.run? admittedRun = some m ∧ m.step? begun = some m' ∧
    g ∉ m.vault.legacy.generations ∧ g ∈ m'.vault.legacy.generations ∧ g.id = 2 ∧
    m.vault.storage.disk.isDirectory g.path = true ∧
    m'.vault.storage.peek g.layer [97] = some [49] := by
  obtain ⟨c, m, m', composed, grows, scans, ran, stepped, next, new, made, before, entry⟩ :=
    exists_of_scanning scanOrder_aged (P := fun c m m' =>
      (Discovery.scan "g" .logged ["1", "1x", "2"] [] c.joinHub.vault.storage).1.nextId = 2 ∧
        ⟨2, "g/2", .generation 1⟩ ∉ m.vault.legacy.generations ∧
        ⟨2, "g/2", .generation 1⟩ ∈ m'.vault.legacy.generations ∧
        m.vault.storage.disk.isDirectory "g/2" = true ∧
        m'.vault.storage.peek (.generation 1) [97] = some [49]) (by decide +kernel)
  refine ⟨c, m, m', _, composed, grows, by decide +kernel, by decide +kernel, ?_, ran, stepped, new,
    made, rfl, before, entry⟩
  rw [scans]
  exact next

end Manager

end TrieStorage
